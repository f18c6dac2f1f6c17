import Mathlib

/-!
# Keyed sums

A list of entries, each with a key and a value, denotes the function that sends a key to the
sum of the values of the entries carrying it. The denotation does not depend on the order of
the entries or on keys being distinct, so laws about a merge of two lists can be proved for
every input, and the shape of the list (sorted, without zero values) is a separate question.

Results: `eval_cons`, `eval_append`, `eval_filter`, `eval_neg`, and
`eval_eq_of_unique`: on a list with at most one entry per key, the denotation at a key is the
value of its entry.
-/

namespace KeyedSum

variable {ε κ α : Type*} [DecidableEq κ]

section Monoid

variable [AddCommMonoid α] (key : ε → κ) (val : ε → α)

/-- The amount a keyed list holds under `k`: the sum of the values of its entries with key `k`. -/
def eval (l : List ε) (k : κ) : α :=
  (l.map fun e => if key e = k then val e else 0).sum

@[simp] theorem eval_nil (k : κ) : eval key val [] k = 0 := rfl

@[simp] theorem eval_cons (e : ε) (l : List ε) (k : κ) :
    eval key val (e :: l) k = (if key e = k then val e else 0) + eval key val l k := by
  simp [eval]

@[simp] theorem eval_append (l₁ l₂ : List ε) (k : κ) :
    eval key val (l₁ ++ l₂) k = eval key val l₁ k + eval key val l₂ k := by
  simp [eval]

theorem eval_of_forall_ne {l : List ε} {k : κ} (h : ∀ e ∈ l, key e ≠ k) :
    eval key val l k = 0 := by
  induction l with
  | nil => rfl
  | cons e l ih =>
    rw [eval_cons, if_neg (h e List.mem_cons_self),
      ih fun e' he' => h e' (List.mem_cons_of_mem _ he'), zero_add]

theorem eval_perm {l l' : List ε} (h : l.Perm l') (k : κ) :
    eval key val l k = eval key val l' k :=
  (h.map _).sum_eq

/-- Dropping entries whose value is zero changes no amount. -/
theorem eval_filter (p : ε → Bool) (hp : ∀ e, p e = false → val e = 0) (l : List ε) (k : κ) :
    eval key val (l.filter p) k = eval key val l k := by
  induction l with
  | nil => rfl
  | cons e l ih =>
    cases he : p e with
    | false => simp [he, hp e he, ih]
    | true => simp [he, ih]

/-- On a list with at most one entry per key, the amount at the key of an entry is its value. -/
theorem eval_eq_of_unique {l : List ε} (hl : l.Pairwise fun a b => key a ≠ key b)
    {e : ε} (he : e ∈ l) : eval key val l (key e) = val e := by
  induction l with
  | nil => simp at he
  | cons d l ih =>
    rw [List.pairwise_cons] at hl
    rcases List.mem_cons.mp he with rfl | he
    · rw [eval_cons, if_pos rfl,
        eval_of_forall_ne key val fun e' he' => Ne.symm (hl.1 e' he'), add_zero]
    · have hd : key d ≠ key e := hl.1 e he
      rw [eval_cons, if_neg hd, zero_add, ih hl.2 he]

/-- The amounts of a list of entries read through `g`. -/
theorem eval_map {δ : Type*} (g : δ → ε) (l : List δ) (k : κ) :
    eval key val (l.map g) k = eval (fun d => key (g d)) (fun d => val (g d)) l k := by
  simp only [eval, List.map_map]
  rfl

/-- The amounts of the entries that satisfy `p` are those of all entries, with a value of zero
for the others. -/
theorem eval_filter_eq_ite (p : ε → Prop) [DecidablePred p] (l : List ε) (k : κ) :
    eval key val (l.filter fun e => p e) k = eval key (fun e => if p e then val e else 0) l k := by
  induction l with
  | nil => rfl
  | cons e l ih =>
    by_cases holds : p e
    · rw [List.filter_cons_of_pos (by simpa using holds), eval_cons, eval_cons, ih, if_pos holds]
    · rw [List.filter_cons_of_neg (by simpa using holds), eval_cons, ih, if_neg holds]
      simp

/-- The amount at `k` is the sum of the values of the entries with key `k`. -/
theorem eval_eq_sum_filter (l : List ε) (k : κ) :
    eval key val l k = ((l.filter fun e => key e = k).map val).sum := by
  rw [eval, List.sum_map_ite]
  simp

/-- The amount at a key not among `ks`, added to the values of the entries whose key is among
them, is the sum over the entries whose key is that key or among `ks`. -/
theorem eval_add_sum_filter {k : κ} {ks : List κ} (fresh : k ∉ ks) (l : List ε) :
    eval key val l k + ((l.filter fun e => key e ∈ ks).map val).sum =
      ((l.filter fun e => key e ∈ k :: ks).map val).sum := by
  induction l with
  | nil => simp
  | cons e l ih =>
    rw [eval_cons]
    by_cases hk : key e = k
    · have other : key e ∉ ks := hk ▸ fresh
      have inner : key e ∈ k :: ks := List.mem_cons.mpr (.inl hk)
      rw [List.filter_cons_of_neg (by simpa using other),
        List.filter_cons_of_pos (by simpa using inner), if_pos hk, List.map_cons,
        List.sum_cons, ← ih, add_assoc]
    · rw [if_neg hk, zero_add]
      by_cases hks : key e ∈ ks
      · rw [List.filter_cons_of_pos (by simpa using hks),
          List.filter_cons_of_pos (by simpa using List.mem_cons_of_mem k hks), List.map_cons,
          List.sum_cons, List.map_cons, List.sum_cons, ← ih, add_left_comm]
      · have outer : key e ∉ k :: ks := by simp [hk, hks]
        rw [List.filter_cons_of_neg (by simpa using hks),
          List.filter_cons_of_neg (by simpa using outer), ih]

/-- Summing the amounts at distinct keys adds up the values of the entries whose key is among
them: a sum grouped by key is the sum over the entries. -/
theorem sum_eval_of_nodup {ks : List κ} (nodup : ks.Nodup) (l : List ε) :
    (ks.map (eval key val l)).sum = ((l.filter fun e => key e ∈ ks).map val).sum := by
  induction ks with
  | nil => simp
  | cons k ks ih =>
    obtain ⟨fresh, rest⟩ := List.nodup_cons.mp nodup
    rw [List.map_cons, List.sum_cons, ih rest, eval_add_sum_filter key val fresh]

/-- Amounts grow with the values. -/
theorem eval_mono [Preorder α] [AddLeftMono α] [AddRightMono α] {val val' : ε → α}
    {l : List ε} (le : ∀ e ∈ l, val e ≤ val' e) (k : κ) : eval key val l k ≤ eval key val' l k := by
  refine List.sum_le_sum fun e member => ?_
  split
  · exact le e member
  · exact le_rfl

end Monoid

theorem eval_neg [AddCommGroup α] (key : ε → κ) (val : ε → α) (l : List ε) (k : κ) :
    eval key (fun e => -val e) l k = -eval key val l k := by
  induction l with
  | nil => simp
  | cons e l ih =>
    rw [eval_cons, eval_cons, ih, neg_add]
    split <;> simp

end KeyedSum
