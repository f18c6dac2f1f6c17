import Pocc.Lib.Heap
import Pocc.Types.Dec
import Pocc.Types.Error
import Pocc.Lib.Fallible

/-!
# `sdk.Int` and `sdk.Dec` over shared `big.Int` pointers

types/int.go and types/decimal.go: an `Int` is a struct holding a `*big.Int`, a `Dec` a struct
embedding one, so a copy of either shares the big integer of the original. Here a `*big.Int` is
a cell of a `Heap Int` and each method a program on the heap. The methods build their result in
a new cell (`new(big.Int).Op(x, y)`); `chopPrecisionAndRound` mutates the cell it is given, and
`Dec.Mul` gives it only the cell it has just allocated.

As in `Dec`, the overflow panics are not modelled, and neither are nil pointers.

Results:
* `Call.run_extends` and `Call.read_run`: each method writes only cells it allocates, returns one
  of them, and computes there what the value model computes;
* `runCalls_extends`: a sequence of calls leaves every big integer that existed before it as it
  was, whatever cells it is given.
-/

namespace Pocc

/-- `sdk.Int`: `struct { i *big.Int }`. -/
structure IntRef where
  i : Nat
  deriving DecidableEq, Repr

/-- `sdk.Dec`: `struct { *big.Int }`. -/
structure DecRef where
  int : Nat
  deriving DecidableEq, Repr

/-- The value an `Int` points to. -/
def IntRef.read (h : Heap Int) (i : IntRef) : Int := h.read i.i

/-- The value a `Dec` points to. -/
def DecRef.read (h : Heap Int) (d : DecRef) : Dec := ⟨h.read d.int⟩

/-! ## The rounding that mutates its argument -/

/-- The non-negative branch of `chopPrecisionAndRound` on the cell `d`:
`quo.QuoRem(d, precisionReuse, rem)` writes the quotient into `d` and the remainder into a new
cell (`big.NewInt(0)`), and rounding up adds one to `d` in place. -/
def chopNonNegAt (h : Heap Int) (d : Nat) : Heap Int :=
  let x := h.read d
  let (h, rem) := h.alloc 0
  let h := (h.write d (x.tdiv precisionReuse)).write rem (x.tmod precisionReuse)
  let quo := h.read d
  if h.read rem = 0 then h
  else if h.read rem < precisionReuse / 2 then h
  else if precisionReuse / 2 < h.read rem then h.write d (quo + 1)
  else if quo % 2 = 0 then h else h.write d (quo + 1)

/-- `chopPrecisionAndRound` on the cell `d`, which it mutates and returns. A negative value is
negated in place, rounded by the recursive call, which then takes the non-negative branch, and
negated back. -/
def chopPrecisionAndRoundAt (h : Heap Int) (d : Nat) : Heap Int :=
  if h.read d < 0 then
    let h := h.write d (-h.read d)
    let h := chopNonNegAt h d
    h.write d (-h.read d)
  else chopNonNegAt h d

/-! ## The methods -/

namespace DecRef

/-- `Dec.Neg`: `Dec{new(big.Int).Neg(d.Int)}`. -/
def neg (h : Heap Int) (d : DecRef) : Heap Int × DecRef :=
  ((h.alloc (-d.read h).int).1, ⟨h.size⟩)

/-- `Dec.Abs`: `Dec{new(big.Int).Abs(d.Int)}`. -/
def abs (h : Heap Int) (d : DecRef) : Heap Int × DecRef :=
  ((h.alloc ((d.read h).int.natAbs : Int)).1, ⟨h.size⟩)

/-- `Dec.Add`: `new(big.Int).Add(d.Int, d2.Int)`. -/
def add (h : Heap Int) (d d2 : DecRef) : Heap Int × DecRef :=
  ((h.alloc (d.read h + d2.read h).int).1, ⟨h.size⟩)

/-- `Dec.Sub`: `new(big.Int).Sub(d.Int, d2.Int)`. -/
def sub (h : Heap Int) (d d2 : DecRef) : Heap Int × DecRef :=
  ((h.alloc (d.read h - d2.read h).int).1, ⟨h.size⟩)

/-- `Dec.Mul`: `mul := new(big.Int).Mul(d.Int, d2.Int)`, then `chopPrecisionAndRound(mul)`,
which rounds that cell in place and returns it. -/
def mul (h : Heap Int) (d d2 : DecRef) : Heap Int × DecRef :=
  (chopPrecisionAndRoundAt (h.alloc ((d.read h).int * (d2.read h).int)).1 h.size, ⟨h.size⟩)

/-- `Dec.MulInt`: `new(big.Int).Mul(d.Int, i.i)`. -/
def mulInt (h : Heap Int) (d : DecRef) (i : IntRef) : Heap Int × DecRef :=
  ((h.alloc ((d.read h).int * i.read h)).1, ⟨h.size⟩)

end DecRef

namespace IntRef

/-- `Int.Add`: `Int{add(i.i, i2.i)}`, where `add` is `new(big.Int).Add(i, i2)`. -/
def add (h : Heap Int) (i i2 : IntRef) : Heap Int × IntRef :=
  ((h.alloc (i.read h + i2.read h)).1, ⟨h.size⟩)

/-- `Int.Sub`: `new(big.Int).Sub(i, i2)`. -/
def sub (h : Heap Int) (i i2 : IntRef) : Heap Int × IntRef :=
  ((h.alloc (i.read h - i2.read h)).1, ⟨h.size⟩)

/-- `Int.Mul`: `new(big.Int).Mul(i, i2)`. -/
def mul (h : Heap Int) (i i2 : IntRef) : Heap Int × IntRef :=
  ((h.alloc (i.read h * i2.read h)).1, ⟨h.size⟩)

/-- `Int.Quo`: a panic on a zero divisor, else `new(big.Int).Quo(i, i2)`, truncated. -/
def quo (h : Heap Int) (i i2 : IntRef) : Except SdkError (Heap Int × IntRef) :=
  if i2.read h = 0 then throw (.panic "Division by zero")
  else pure ((h.alloc ((i.read h).tdiv (i2.read h))).1, ⟨h.size⟩)

/-- `Int.BigInt`: a copy, `new(big.Int).Set(i.i)`. -/
def bigInt (h : Heap Int) (i : IntRef) : Heap Int × Nat := h.alloc (i.read h)

/-- `min` and `max` of int.go: a new cell set to the second big integer when `replace` holds
of the values of the two, else to the first. -/
def selectBig (replace : Int → Int → Bool) (h : Heap Int) (p p2 : Nat) : Heap Int × Nat :=
  if replace (h.read p) (h.read p2) then h.alloc (h.read p2) else h.alloc (h.read p)

/-- `min`: `i.Cmp(i2) == 1` takes `i2`. -/
def minBig : Heap Int → Nat → Nat → Heap Int × Nat := selectBig fun x y => decide (y < x)

/-- `max`: `i.Cmp(i2) == -1` takes `i2`. -/
def maxBig : Heap Int → Nat → Nat → Heap Int × Nat := selectBig fun x y => decide (x < y)

/-- `Int{sel(i.BigInt(), i2.BigInt())}`: two copies, then the new cell `sel` sets. -/
def ofBigInts (sel : Heap Int → Nat → Nat → Heap Int × Nat) (h : Heap Int) (i i2 : IntRef) :
    Heap Int × IntRef :=
  let (h, p1) := bigInt h i
  let (h, p2) := bigInt h i2
  let (h, res) := sel h p1 p2
  (h, ⟨res⟩)

/-- `MinInt`: `Int{min(i1.BigInt(), i2.BigInt())}`. -/
def minInt : Heap Int → IntRef → IntRef → Heap Int × IntRef := ofBigInts minBig

/-- `MaxInt`: `Int{max(i.BigInt(), i2.BigInt())}`. -/
def maxInt : Heap Int → IntRef → IntRef → Heap Int × IntRef := ofBigInts maxBig

end IntRef

/-- A call of one of the methods, on any pointers. -/
inductive Call where
  | decNeg (d : DecRef)
  | decAbs (d : DecRef)
  | decAdd (d d2 : DecRef)
  | decSub (d d2 : DecRef)
  | decMul (d d2 : DecRef)
  | decMulInt (d : DecRef) (i : IntRef)
  | intAdd (i i2 : IntRef)
  | intSub (i i2 : IntRef)
  | intMul (i i2 : IntRef)
  | intQuo (i i2 : IntRef)
  | minInt (i1 i2 : IntRef)
  | maxInt (i i2 : IntRef)
  deriving DecidableEq, Repr

namespace Call

/-- The heap after the call, and the cell of its result. -/
def run (h : Heap Int) : Call → Except SdkError (Heap Int × Nat)
  | decNeg d => let r := d.neg h; pure (r.1, r.2.int)
  | decAbs d => let r := d.abs h; pure (r.1, r.2.int)
  | decAdd d d2 => let r := d.add h d2; pure (r.1, r.2.int)
  | decSub d d2 => let r := d.sub h d2; pure (r.1, r.2.int)
  | decMul d d2 => let r := d.mul h d2; pure (r.1, r.2.int)
  | decMulInt d i => let r := d.mulInt h i; pure (r.1, r.2.int)
  | intAdd i i2 => let r := i.add h i2; pure (r.1, r.2.i)
  | intSub i i2 => let r := i.sub h i2; pure (r.1, r.2.i)
  | intMul i i2 => let r := i.mul h i2; pure (r.1, r.2.i)
  | intQuo i i2 => (i.quo h i2).map fun r => (r.1, r.2.i)
  | minInt i1 i2 => let r := i1.minInt h i2; pure (r.1, r.2.i)
  | maxInt i i2 => let r := i.maxInt h i2; pure (r.1, r.2.i)

/-- What the value model computes for the call, from the values its pointers hold. -/
def value (h : Heap Int) : Call → Int
  | decNeg d => (-d.read h).int
  | decAbs d => ((d.read h).int.natAbs : Int)
  | decAdd d d2 => (d.read h + d2.read h).int
  | decSub d d2 => (d.read h - d2.read h).int
  | decMul d d2 => (Dec.mul (d.read h) (d2.read h)).int
  | decMulInt d i => (Dec.mulInt (d.read h) (i.read h)).int
  | intAdd i i2 => i.read h + i2.read h
  | intSub i i2 => i.read h - i2.read h
  | intMul i i2 => i.read h * i2.read h
  | intQuo i i2 => (i.read h).tdiv (i2.read h)
  | minInt i1 i2 => min (i1.read h) (i2.read h)
  | maxInt i i2 => max (i.read h) (i2.read h)

/-- The cells the call reads. -/
def args : Call → List Nat
  | decNeg d | decAbs d => [d.int]
  | decAdd d d2 | decSub d d2 | decMul d d2 => [d.int, d2.int]
  | decMulInt d i => [d.int, i.i]
  | intAdd i i2 | intSub i i2 | intMul i i2 | intQuo i i2 | minInt i i2 | maxInt i i2 =>
    [i.i, i2.i]

end Call

/-- A sequence of calls. -/
def runCalls (h : Heap Int) : List Call → Except SdkError (Heap Int)
  | [] => pure h
  | call :: calls => do
    let (h, _) ← call.run h
    runCalls h calls

/-! ## Only new cells are written -/

open Heap

/-- `chopNonNegAt` writes the cell it is given and one it allocates. -/
theorem extends_chopNonNegAt {h₀ h : Heap Int} (ext : Extends h₀ h) {d : Nat}
    (fresh : h₀.size ≤ d) : Extends h₀ (chopNonNegAt h d) := by
  have quotient : ∀ q r, Extends h₀ (((h.alloc 0).1.write d q).write h.size r) := fun q r =>
    ((ext.trans (extends_alloc h 0)).write fresh q).write ext.size_le r
  unfold chopNonNegAt
  dsimp only
  split_ifs
  all_goals first | exact quotient _ _ | exact (quotient _ _).write fresh _

theorem extends_chopPrecisionAndRoundAt {h₀ h : Heap Int} (ext : Extends h₀ h) {d : Nat}
    (fresh : h₀.size ≤ d) : Extends h₀ (chopPrecisionAndRoundAt h d) := by
  unfold chopPrecisionAndRoundAt
  split
  · exact (extends_chopNonNegAt (ext.write fresh _) fresh).write fresh _
  · exact extends_chopNonNegAt ext fresh

/-! ## The values computed -/

theorem size_chopNonNegAt (h : Heap Int) (d : Nat) : (chopNonNegAt h d).size = h.size + 1 := by
  unfold chopNonNegAt
  dsimp only
  split_ifs <;> simp

theorem read_chopNonNegAt {h : Heap Int} {d : Nat} (allocated : d < h.size) :
    (chopNonNegAt h d).read d = chopPrecisionAndRound.chopNonNeg (h.read d) := by
  -- the remainder is in the new cell `h.size`, the quotient in `d`
  have other : h.size ≠ d := allocated.ne'
  have remCell : ∀ q r, (((h.alloc 0).1.write d q).write h.size r).read h.size = r :=
    fun q r => read_write_self _ _ (by simp)
  have quoCell : ∀ q r, (((h.alloc 0).1.write d q).write h.size r).read d = q := fun q r => by
    rw [read_write_of_ne _ _ other, read_write_self _ _ (by simp; omega)]
  have bumped : ∀ q r x, ((((h.alloc 0).1.write d q).write h.size r).write d x).read d = x :=
    fun q r x => read_write_self _ _ (by simp; omega)
  unfold chopNonNegAt chopPrecisionAndRound.chopNonNeg
  dsimp only
  simp only [alloc_snd, remCell, quoCell]
  split_ifs <;> simp only [bumped, quoCell]

theorem read_chopPrecisionAndRoundAt {h : Heap Int} {d : Nat} (allocated : d < h.size) :
    (chopPrecisionAndRoundAt h d).read d = chopPrecisionAndRound (h.read d) := by
  unfold chopPrecisionAndRoundAt chopPrecisionAndRound
  split
  · -- negated in place, rounded, negated back
    have negated : (h.write d (-h.read d)).read d = -h.read d := read_write_self _ _ allocated
    have rounded : d < (chopNonNegAt (h.write d (-h.read d)) d).size := by
      rw [size_chopNonNegAt, size_write]
      omega
    rw [read_write_self _ _ rounded, read_chopNonNegAt (by simpa using allocated), negated]
  · exact read_chopNonNegAt allocated

namespace IntRef

/-- `selectBig` allocates the value it selects. -/
theorem selectBig_eq (replace : Int → Int → Bool) (h : Heap Int) (p p2 : Nat) :
    selectBig replace h p p2 =
      h.alloc (if replace (h.read p) (h.read p2) then h.read p2 else h.read p) := by
  unfold selectBig
  split <;> rfl

theorem extends_ofBigInts (replace : Int → Int → Bool) (h : Heap Int) (i i2 : IntRef) :
    Extends h (ofBigInts (selectBig replace) h i i2).1 ∧
      h.size ≤ (ofBigInts (selectBig replace) h i i2).2.i := by
  simp only [ofBigInts, bigInt, selectBig_eq]
  refine ⟨((extends_alloc _ _).trans (extends_alloc _ _)).trans (extends_alloc _ _), ?_⟩
  simp only [alloc_snd, size_alloc]
  omega

/-- The copy of `i2` is taken after that of `i` is allocated, so `i2` must point below it. -/
theorem read_ofBigInts (replace : Int → Int → Bool) (h : Heap Int) (i : IntRef) {i2 : IntRef}
    (allocated : i2.i < h.size) :
    (ofBigInts (selectBig replace) h i i2).1.read (ofBigInts (selectBig replace) h i i2).2.i =
      if replace (i.read h) (i2.read h) then i2.read h else i.read h := by
  have copied : i2.read (h.alloc (i.read h)).1 = i2.read h := read_alloc_of_lt _ _ allocated
  have first : ((h.alloc (i.read h)).1.alloc (i2.read h)).1.read h.size = i.read h := by
    rw [read_alloc_of_lt _ _ (by simp), read_alloc_self]
  have second : ((h.alloc (i.read h)).1.alloc (i2.read h)).1.read (h.alloc (i.read h)).1.size =
      i2.read h :=
    read_alloc_self _ _
  simp only [ofBigInts, bigInt, selectBig_eq, alloc_snd, copied]
  rw [read_alloc_self, first, second]

end IntRef

namespace Call

/-- Every call writes only cells it allocates, and its result is one of them. -/
theorem run_extends {h h' : Heap Int} {p : Nat} {c : Call} (ran : c.run h = .ok (h', p)) :
    Extends h h' ∧ h.size ≤ p := by
  cases c with
  | decMul d d2 =>
    obtain ⟨rfl, rfl⟩ := Prod.mk.inj (Fallible.pure_eq_ok.mp ran)
    exact ⟨extends_chopPrecisionAndRoundAt (extends_alloc h _) le_rfl, le_rfl⟩
  | intQuo i i2 =>
    dsimp only [run, IntRef.quo] at ran
    split at ran
    · exact absurd ran (by simp [throw, throwThe, MonadExceptOf.throw, Except.map])
    · obtain ⟨rfl, rfl⟩ := Prod.mk.inj (Fallible.pure_eq_ok.mp ran)
      exact ⟨extends_alloc h _, le_rfl⟩
  | minInt i1 i2 =>
    obtain ⟨rfl, rfl⟩ := Prod.mk.inj (Fallible.pure_eq_ok.mp ran)
    exact IntRef.extends_ofBigInts _ h i1 i2
  | maxInt i i2 =>
    obtain ⟨rfl, rfl⟩ := Prod.mk.inj (Fallible.pure_eq_ok.mp ran)
    exact IntRef.extends_ofBigInts _ h i i2
  | decNeg _ | decAbs _ | decAdd _ _ | decSub _ _ | decMulInt _ _ | intAdd _ _ | intSub _ _
  | intMul _ _ =>
    -- one new cell, set to the result
    obtain ⟨rfl, rfl⟩ := Prod.mk.inj (Fallible.pure_eq_ok.mp ran)
    exact ⟨extends_alloc h _, le_rfl⟩

/-- On cells already allocated, every call computes what the value model computes. -/
theorem read_run {h h' : Heap Int} {p : Nat} {c : Call} (allocated : ∀ q ∈ c.args, q < h.size)
    (ran : c.run h = .ok (h', p)) : h'.read p = c.value h := by
  cases c with
  | decMul d d2 =>
    obtain ⟨rfl, rfl⟩ := Prod.mk.inj (Fallible.pure_eq_ok.mp ran)
    rw [DecRef.mul, read_chopPrecisionAndRoundAt (by simp), read_alloc_self]
    rfl
  | intQuo i i2 =>
    dsimp only [run, IntRef.quo] at ran
    split at ran
    · exact absurd ran (by simp [throw, throwThe, MonadExceptOf.throw, Except.map])
    · obtain ⟨rfl, rfl⟩ := Prod.mk.inj (Fallible.pure_eq_ok.mp ran)
      exact read_alloc_self h _
  | minInt i1 i2 =>
    obtain ⟨rfl, rfl⟩ := Prod.mk.inj (Fallible.pure_eq_ok.mp ran)
    rw [IntRef.minInt, IntRef.minBig, IntRef.read_ofBigInts _ h i1 (allocated i2.i (by simp [args]))]
    simp only [value, decide_eq_true_eq, min_def]
    split_ifs <;> omega
  | maxInt i i2 =>
    obtain ⟨rfl, rfl⟩ := Prod.mk.inj (Fallible.pure_eq_ok.mp ran)
    rw [IntRef.maxInt, IntRef.maxBig, IntRef.read_ofBigInts _ h i (allocated i2.i (by simp [args]))]
    simp only [value, decide_eq_true_eq, max_def]
    split_ifs <;> omega
  | decNeg _ | decAbs _ | decAdd _ _ | decSub _ _ | decMulInt _ _ | intAdd _ _ | intSub _ _
  | intMul _ _ =>
    obtain ⟨rfl, rfl⟩ := Prod.mk.inj (Fallible.pure_eq_ok.mp ran)
    exact read_alloc_self h _

end Call

/-- A sequence of calls, on any cells, leaves every cell allocated before it as it was. -/
theorem runCalls_extends {h h' : Heap Int} {calls : List Call} (ran : runCalls h calls = .ok h') :
    Extends h h' := by
  induction calls generalizing h with
  | nil => exact (Fallible.pure_eq_ok.mp ran) ▸ Extends.refl h
  | cons call calls ih =>
    obtain ⟨⟨h₁, p⟩, first, rest⟩ := Fallible.bind_eq_ok.mp ran
    exact (Call.run_extends first).1.trans (ih rest)

end Pocc
