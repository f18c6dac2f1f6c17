import Mathlib

/-!
# Association lists sorted by a strict total order

Lists of key-value pairs whose keys strictly increase along a strict total order `r`, and their
`union`: the merge of two such lists in which an entry of the top list replaces the entry of the
bottom list with the same key, the way a write-back layer shadows what lies under it.

Results:
* `mem_union`: an entry of the union is an entry of the top list, or one of the bottom list
  whose key the top list does not have;
* `sorted_union`: the union of two sorted lists is sorted, and `mem_keys_union` its keys are
  those of the two;
* `eq_of_mem_iff`: a sorted list is determined by its entries.
-/

namespace Assoc

variable {κ α : Type*} (r : κ → κ → Prop)

/-- The keys of the list increase strictly along `r`. -/
def Sorted (l : List (κ × α)) : Prop := l.Pairwise fun a b => r a.1 b.1

/-! ## Sorted lists -/

section Sorted

variable {r} [IsStrictTotalOrder κ r]

/-- Keys increase strictly, so no key repeats. -/
theorem Sorted.nodup {l : List (κ × α)} (h : Sorted r l) : l.Nodup := by
  unfold List.Nodup
  refine h.imp fun {a b} lt same => ?_
  rw [same] at lt
  exact irrefl_of r _ lt

/-- A key below every key of a list is not one of them. -/
theorem not_mem_keys {k : κ} {l : List (κ × α)} (below : ∀ e ∈ l, r k e.1) :
    k ∉ l.map Prod.fst := by
  intro present
  obtain ⟨e, member, rfl⟩ := List.mem_map.mp present
  exact irrefl_of r _ (below e member)

/-- A key below the head of a sorted list is below all of it. -/
theorem below_of_below_head {k : κ} {b : κ × α} {bs : List (κ × α)} (h : Sorted r (b :: bs))
    (lt : r k b.1) : ∀ e ∈ b :: bs, r k e.1 := by
  intro e member
  rcases List.mem_cons.mp member with rfl | member
  · exact lt
  · exact trans_of r lt (List.rel_of_pairwise_cons h member)

/-- Two keys neither below the other are equal. -/
theorem eq_of_not_lt {a b : κ} (nlt : ¬r a b) (ngt : ¬r b a) : a = b :=
  (trichotomous_of r a b).resolve_left nlt |>.resolve_right ngt

/-- A sorted list is determined by its entries. -/
theorem eq_of_mem_iff {l₁ l₂ : List (κ × α)} (h₁ : Sorted r l₁) (h₂ : Sorted r l₂)
    (same : ∀ e, e ∈ l₁ ↔ e ∈ l₂) : l₁ = l₂ :=
  List.Perm.eq_of_pairwise (fun _ _ _ _ ab ba => (asymm_of r ab ba).elim) h₁ h₂
    ((List.perm_ext_iff_of_nodup h₁.nodup h₂.nodup).mpr same)

end Sorted

/-! ## The union -/

variable [DecidableRel r]

/-- `top` over `bottom`, merged in order; on a tie the entry of `top` is kept and the entry of
`bottom` dropped. -/
def union : List (κ × α) → List (κ × α) → List (κ × α)
  | [], bottom => bottom
  | t :: ts, [] => t :: ts
  | t :: ts, b :: bs =>
    if r t.1 b.1 then t :: union ts (b :: bs)
    else if r b.1 t.1 then b :: union (t :: ts) bs
    else t :: union ts bs
termination_by top bottom => top.length + bottom.length

variable {r}

@[simp] theorem union_nil_left (bottom : List (κ × α)) : union r [] bottom = bottom := by
  rw [union]

@[simp] theorem union_nil_right (top : List (κ × α)) : union r top [] = top := by
  cases top with
  | nil => rw [union]
  | cons t ts => rw [union]

theorem union_of_lt {kt kb : κ} {vt vb : α} {ts bs : List (κ × α)} (lt : r kt kb) :
    union r ((kt, vt) :: ts) ((kb, vb) :: bs) = (kt, vt) :: union r ts ((kb, vb) :: bs) := by
  rw [union, if_pos lt]

theorem union_of_gt {kt kb : κ} {vt vb : α} {ts bs : List (κ × α)} (nlt : ¬r kt kb)
    (gt : r kb kt) :
    union r ((kt, vt) :: ts) ((kb, vb) :: bs) = (kb, vb) :: union r ((kt, vt) :: ts) bs := by
  rw [union, if_neg nlt, if_pos gt]

theorem union_of_tie {kt kb : κ} {vt vb : α} {ts bs : List (κ × α)} (nlt : ¬r kt kb)
    (ngt : ¬r kb kt) : union r ((kt, vt) :: ts) ((kb, vb) :: bs) = (kt, vt) :: union r ts bs := by
  rw [union, if_neg nlt, if_neg ngt]

/-- Every entry of the union comes from one of the two lists. -/
theorem mem_of_mem_union {e : κ × α} :
    ∀ {top bottom : List (κ × α)}, e ∈ union r top bottom → e ∈ top ∨ e ∈ bottom
  | [], bottom, h => by simpa using h
  | t :: ts, [], h => by simpa using h
  | (kt, vt) :: ts, (kb, vb) :: bs, h => by
    by_cases lt : r kt kb
    · rw [union_of_lt lt, List.mem_cons] at h
      rcases h with rfl | h
      · exact .inl List.mem_cons_self
      · rcases mem_of_mem_union h with h | h
        · exact .inl (List.mem_cons_of_mem _ h)
        · exact .inr h
    · by_cases gt : r kb kt
      · rw [union_of_gt lt gt, List.mem_cons] at h
        rcases h with rfl | h
        · exact .inr List.mem_cons_self
        · rcases mem_of_mem_union h with h | h
          · exact .inl h
          · exact .inr (List.mem_cons_of_mem _ h)
      · rw [union_of_tie lt gt, List.mem_cons] at h
        rcases h with rfl | h
        · exact .inl List.mem_cons_self
        · rcases mem_of_mem_union h with h | h
          · exact .inl (List.mem_cons_of_mem _ h)
          · exact .inr (List.mem_cons_of_mem _ h)
termination_by top bottom => top.length + bottom.length

section SortedUnion

variable [IsStrictTotalOrder κ r]

theorem sorted_union :
    ∀ {top bottom : List (κ × α)}, Sorted r top → Sorted r bottom → Sorted r (union r top bottom)
  | [], bottom, _, hb => by simpa using hb
  | t :: ts, [], ht, _ => by simpa using ht
  | (kt, vt) :: ts, (kb, vb) :: bs, ht, hb => by
    have tail := List.Pairwise.of_cons ht
    have tailb := List.Pairwise.of_cons hb
    by_cases lt : r kt kb
    · -- `t` comes first and is below both lists' rests
      rw [union_of_lt lt]
      refine List.Pairwise.cons (fun e member => ?_) (sorted_union tail hb)
      rcases mem_of_mem_union member with member | member
      · exact List.rel_of_pairwise_cons ht member
      · exact below_of_below_head hb lt e member
    · by_cases gt : r kb kt
      · rw [union_of_gt lt gt]
        refine List.Pairwise.cons (fun e member => ?_) (sorted_union ht tailb)
        rcases mem_of_mem_union member with member | member
        · exact below_of_below_head ht gt e member
        · exact List.rel_of_pairwise_cons hb member
      · -- a tie: `t` replaces `b`, whose key it has
        have same := eq_of_not_lt lt gt
        rw [union_of_tie lt gt]
        refine List.Pairwise.cons (fun e member => ?_) (sorted_union tail tailb)
        rcases mem_of_mem_union member with member | member
        · exact List.rel_of_pairwise_cons ht member
        · exact same ▸ List.rel_of_pairwise_cons hb member
termination_by top bottom => top.length + bottom.length

/-- The entries of the union: those of `top`, and those of `bottom` whose key `top` lacks. -/
theorem mem_union {e : κ × α} :
    ∀ {top bottom : List (κ × α)}, Sorted r top → Sorted r bottom →
      (e ∈ union r top bottom ↔ e ∈ top ∨ e ∈ bottom ∧ e.1 ∉ top.map Prod.fst)
  | [], bottom, _, _ => by simp
  | t :: ts, [], _, _ => by simp
  | (kt, vt) :: ts, (kb, vb) :: bs, ht, hb => by
    have tail := List.Pairwise.of_cons ht
    have tailb := List.Pairwise.of_cons hb
    by_cases lt : r kt kb
    · -- no entry of `bottom` has the key of `t`
      have fresh : kt ∉ ((kb, vb) :: bs).map Prod.fst := not_mem_keys (below_of_below_head hb lt)
      rw [union_of_lt lt, List.mem_cons, mem_union tail hb]
      constructor
      · rintro (rfl | inTop | ⟨inBottom, notTop⟩)
        · exact .inl List.mem_cons_self
        · exact .inl (List.mem_cons_of_mem _ inTop)
        · refine .inr ⟨inBottom, ?_⟩
          simp only [List.map_cons, List.mem_cons, not_or]
          exact ⟨fun same => fresh (same ▸ List.mem_map_of_mem inBottom), notTop⟩
      · rintro (inTop | ⟨inBottom, notTop⟩)
        · rcases List.mem_cons.mp inTop with rfl | inTop
          · exact .inl rfl
          · exact .inr (.inl inTop)
        · simp only [List.map_cons, List.mem_cons, not_or] at notTop
          exact .inr (.inr ⟨inBottom, notTop.2⟩)
    · by_cases gt : r kb kt
      · -- `b` comes first, and `top` lacks its key
        have fresh : kb ∉ ((kt, vt) :: ts).map Prod.fst := not_mem_keys (below_of_below_head ht gt)
        rw [union_of_gt lt gt, List.mem_cons, mem_union ht tailb]
        constructor
        · rintro (rfl | inTop | ⟨inBottom, notTop⟩)
          · exact .inr ⟨List.mem_cons_self, fresh⟩
          · exact .inl inTop
          · exact .inr ⟨List.mem_cons_of_mem _ inBottom, notTop⟩
        · rintro (inTop | ⟨inBottom, notTop⟩)
          · exact .inr (.inl inTop)
          · rcases List.mem_cons.mp inBottom with rfl | inBottom
            · exact .inl rfl
            · exact .inr (.inr ⟨inBottom, notTop⟩)
      · -- a tie: `b` is shadowed, and the rest of `bottom` lies above the shared key
        have same := eq_of_not_lt lt gt
        have above : ∀ e ∈ bs, e.1 ≠ kt := by
          intro e member eq
          have lt := List.rel_of_pairwise_cons hb member
          rw [eq, same] at lt
          exact irrefl_of r _ lt
        rw [union_of_tie lt gt, List.mem_cons, mem_union tail tailb]
        constructor
        · rintro (rfl | inTop | ⟨inBottom, notTop⟩)
          · exact .inl List.mem_cons_self
          · exact .inl (List.mem_cons_of_mem _ inTop)
          · refine .inr ⟨List.mem_cons_of_mem _ inBottom, ?_⟩
            simp only [List.map_cons, List.mem_cons, not_or]
            exact ⟨above e inBottom, notTop⟩
        · rintro (inTop | ⟨inBottom, notTop⟩)
          · rcases List.mem_cons.mp inTop with rfl | inTop
            · exact .inl rfl
            · exact .inr (.inl inTop)
          · simp only [List.map_cons, List.mem_cons, not_or] at notTop
            rcases List.mem_cons.mp inBottom with rfl | inBottom
            · exact absurd same.symm notTop.1
            · exact .inr (.inr ⟨inBottom, notTop.2⟩)
termination_by top bottom => top.length + bottom.length

/-- The keys of the union are those of the two lists. -/
theorem mem_keys_union {k : κ} {top bottom : List (κ × α)} (ht : Sorted r top)
    (hb : Sorted r bottom) :
    k ∈ (union r top bottom).map Prod.fst ↔ k ∈ top.map Prod.fst ∨ k ∈ bottom.map Prod.fst := by
  simp only [List.mem_map]
  constructor
  · rintro ⟨e, member, rfl⟩
    rcases mem_of_mem_union member with inTop | inBottom
    · exact .inl ⟨e, inTop, rfl⟩
    · exact .inr ⟨e, inBottom, rfl⟩
  · rintro (⟨e, inTop, rfl⟩ | ⟨e, inBottom, rfl⟩)
    · exact ⟨e, (mem_union ht hb).mpr (.inl inTop), rfl⟩
    · by_cases shadowed : e.1 ∈ top.map Prod.fst
      · obtain ⟨e', inTop, same⟩ := List.mem_map.mp shadowed
        exact ⟨e', (mem_union ht hb).mpr (.inl inTop), same⟩
      · exact ⟨e, (mem_union ht hb).mpr (.inr ⟨inBottom, shadowed⟩), rfl⟩

end SortedUnion

end Assoc
