import Mathlib

/-!
# A heap of cells that only grows

Mutable cells addressed by the order of their allocation: `alloc` appends a cell and returns
its address, `write` replaces the value of one cell. A program that writes only cells it
allocated itself leaves every cell that existed before it as it was; `Extends h h'` says so:
the cells of `h` are a prefix of those of `h'`.

`Extends` is a preorder (`Extends.refl`, `Extends.trans`); `extends_alloc` and
`Extends.write` give it for the two operations, and `read_of_extends` reads an old cell back.
-/

/-- Cells of `α`, in the order of their allocation. -/
structure Heap (α : Type) where
  cells : List α

namespace Heap

variable {α : Type}

/-- The number of cells allocated. -/
def size (h : Heap α) : Nat := h.cells.length

/-- A new cell holding `x`, and its address. -/
def alloc (h : Heap α) (x : α) : Heap α × Nat := (⟨h.cells ++ [x]⟩, h.cells.length)

/-- The value of the cell at `p` (the default for an address never allocated). -/
def read [Inhabited α] (h : Heap α) (p : Nat) : α := h.cells.getD p default

/-- Replace the value of the cell at `p`. -/
def write (h : Heap α) (p : Nat) (x : α) : Heap α := ⟨h.cells.set p x⟩

/-- `h'` keeps every cell of `h`, with its value. -/
def Extends (h h' : Heap α) : Prop := h.cells <+: h'.cells

@[simp] theorem size_alloc (h : Heap α) (x : α) : (h.alloc x).1.size = h.size + 1 := by
  simp [alloc, size]

@[simp] theorem alloc_snd (h : Heap α) (x : α) : (h.alloc x).2 = h.size := rfl

@[simp] theorem size_write (h : Heap α) (p : Nat) (x : α) : (h.write p x).size = h.size := by
  simp [write, size]

section Read

variable [Inhabited α]

@[simp] theorem read_alloc_self (h : Heap α) (x : α) : (h.alloc x).1.read h.size = x := by
  simp [alloc, read, size]

theorem read_alloc_of_lt (h : Heap α) (x : α) {p : Nat} (allocated : p < h.size) :
    (h.alloc x).1.read p = h.read p := by
  simp only [alloc, read, List.getD_eq_getElem?_getD]
  rw [List.getElem?_append_left allocated]

theorem read_write_self (h : Heap α) (x : α) {p : Nat} (allocated : p < h.size) :
    (h.write p x).read p = x := by
  simp only [write, read, List.getD_eq_getElem?_getD, List.getElem?_set]
  simp [show p < h.cells.length from allocated]

theorem read_write_of_ne (h : Heap α) (x : α) {p q : Nat} (other : p ≠ q) :
    (h.write p x).read q = h.read q := by
  simp [write, read, List.getD_eq_getElem?_getD, other]

end Read

theorem Extends.refl (h : Heap α) : Extends h h := List.prefix_refl _

theorem Extends.trans {h₁ h₂ h₃ : Heap α} (first : Extends h₁ h₂) (second : Extends h₂ h₃) :
    Extends h₁ h₃ :=
  List.IsPrefix.trans first second

theorem Extends.size_le {h h' : Heap α} (ext : Extends h h') : h.size ≤ h'.size :=
  ext.length_le

theorem extends_alloc (h : Heap α) (x : α) : Extends h (h.alloc x).1 := List.prefix_append _ _

/-- Writing a cell allocated after `h` keeps `h`. -/
theorem Extends.write {h h' : Heap α} (ext : Extends h h') {p : Nat} (fresh : h.size ≤ p)
    (x : α) : Extends h (h'.write p x) := by
  obtain ⟨rest, grown⟩ := ext
  show h.cells <+: h'.cells.set p x
  rw [← grown, List.set_append_right _ _ fresh]
  exact List.prefix_append _ _

theorem read_of_extends [Inhabited α] {h h' : Heap α} (ext : Extends h h') {p : Nat}
    (allocated : p < h.size) : h'.read p = h.read p := by
  simp only [read, List.getD_eq_getElem?_getD]
  rw [List.getElem?_eq_getElem allocated, List.getElem?_eq_getElem (allocated.trans_le ext.size_le),
    ext.getElem allocated]

end Heap
