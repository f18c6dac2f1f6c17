import Mathlib

/-!
# Sorted maps

A finite map held as a list of entries in strictly ascending key order. This is the shape of
an ordered key-value store: a lookup finds the one entry of a key, a write replaces that entry
in place or adds it before the first greater key, and iterating the entries visits the keys in
ascending order. The order is a field of the structure, so no map with a repeated key can be
built, and every lemma below may use that a key occurs at most once.

Results:
* `find?_insert`, `find?_erase`: reads after writes;
* `sumBy_insert`, `sumBy_eq_add_erase`: a sum over the entries after a write, the form in
  which conservation laws over a store are proved;
* `ext`: two maps with the same lookups are equal.
-/

namespace SortedMap

variable {κ ν α : Type*} [LinearOrder κ]

/-- Ordered insertion into an entry list: overwrite the entry of `k`, or place a new entry
before the first greater key. -/
def insertEntry (k : κ) (v : ν) : List (κ × ν) → List (κ × ν)
  | [] => [(k, v)]
  | e :: rest =>
    if k < e.1 then (k, v) :: e :: rest
    else if k = e.1 then (k, v) :: rest
    else e :: insertEntry k v rest

/-- The value of the first entry with key `k`. -/
def lookupEntry (k : κ) : List (κ × ν) → Option ν
  | [] => none
  | e :: rest => if e.1 = k then some e.2 else lookupEntry k rest

/-- Every entry with key `k` removed. -/
def eraseEntry (k : κ) (l : List (κ × ν)) : List (κ × ν) :=
  l.filter fun e => decide (e.1 ≠ k)

/-- Entries strictly ascending in their keys. -/
def Ascending (l : List (κ × ν)) : Prop :=
  l.Pairwise fun a b => a.1 < b.1

theorem mem_insertEntry {k : κ} {v : ν} {e : κ × ν} :
    ∀ {l : List (κ × ν)}, e ∈ insertEntry k v l → e = (k, v) ∨ e ∈ l
  | [] => by simp [insertEntry]
  | d :: rest => by
    unfold insertEntry
    split
    · simp only [List.mem_cons]
      tauto
    · split
      · simp only [List.mem_cons]
        tauto
      · simp only [List.mem_cons]
        rintro (rfl | h)
        · exact .inr (.inl rfl)
        · rcases mem_insertEntry h with h | h
          · exact .inl h
          · exact .inr (.inr h)

theorem ascending_insertEntry (k : κ) (v : ν) :
    ∀ {l : List (κ × ν)}, Ascending l → Ascending (insertEntry k v l)
  | [], _ => List.pairwise_singleton _ _
  | d :: rest, h => by
    unfold Ascending at h ⊢
    rw [List.pairwise_cons] at h
    unfold insertEntry
    split
    · next hlt =>
      refine List.Pairwise.cons (fun e he => ?_) (List.Pairwise.cons h.1 h.2)
      rcases List.mem_cons.mp he with rfl | he
      · exact hlt
      · exact lt_trans hlt (h.1 e he)
    · split
      · next hnlt heq =>
        subst heq
        exact List.Pairwise.cons h.1 h.2
      · next hnlt hne =>
        have hgt : d.1 < k := lt_of_le_of_ne (not_lt.mp hnlt) (Ne.symm hne)
        refine List.Pairwise.cons (fun e he => ?_) (ascending_insertEntry k v h.2)
        rcases mem_insertEntry he with rfl | he
        · exact hgt
        · exact h.1 e he

theorem lookupEntry_eq_none_of_lt {k : κ} :
    ∀ {l : List (κ × ν)}, (∀ e ∈ l, k < e.1) → lookupEntry k l = none
  | [], _ => rfl
  | d :: rest, h => by
    have hd : d.1 ≠ k := ne_of_gt (h d (List.mem_cons_self))
    simp only [lookupEntry, hd, if_false]
    exact lookupEntry_eq_none_of_lt fun e he => h e (List.mem_cons_of_mem _ he)

theorem lookupEntry_insertEntry (k k' : κ) (v : ν) :
    ∀ (l : List (κ × ν)),
      lookupEntry k' (insertEntry k v l) = if k = k' then some v else lookupEntry k' l
  | [] => by simp [insertEntry, lookupEntry]
  | d :: rest => by
    unfold insertEntry
    split
    · simp [lookupEntry]
    · split
      · next _ heq =>
        by_cases h : k = k' <;> simp [lookupEntry, h, ← heq]
      · next hnlt hne =>
        by_cases h : d.1 = k'
        · have hk : k ≠ k' := h ▸ hne
          simp [lookupEntry, h, hk]
        · simp only [lookupEntry, h, if_false]
          exact lookupEntry_insertEntry k k' v rest

theorem lookupEntry_eraseEntry (k k' : κ) (l : List (κ × ν)) :
    lookupEntry k' (eraseEntry k l) = if k = k' then none else lookupEntry k' l := by
  induction l with
  | nil => simp [eraseEntry, lookupEntry]
  | cons d rest ih =>
    unfold eraseEntry at ih ⊢
    by_cases hd : d.1 = k
    · -- the head is dropped
      simp only [List.filter_cons, hd, ne_eq, not_true_eq_false, decide_false,
        Bool.false_eq_true, if_false, ih]
      by_cases h : k = k'
      · simp [h]
      · simp [lookupEntry, h, hd]
    · simp only [List.filter_cons, hd, ne_eq, not_false_eq_true, decide_true, if_true]
      by_cases h : d.1 = k'
      · have hk : k ≠ k' := fun hkk => hd (h.trans hkk.symm)
        simp [lookupEntry, h, hk]
      · simp only [lookupEntry, h, if_false]
        exact ih

/-- The sum of `f` over the entries of a list. -/
def sumEntries [AddCommMonoid α] (f : κ → ν → α) (l : List (κ × ν)) : α :=
  (l.map fun e => f e.1 e.2).sum

omit [LinearOrder κ] in
theorem sumEntries_cons [AddCommMonoid α] (f : κ → ν → α) (e : κ × ν) (l : List (κ × ν)) :
    sumEntries f (e :: l) = f e.1 e.2 + sumEntries f l := by
  simp [sumEntries]

theorem eraseEntry_eq_self {k : κ} {l : List (κ × ν)} (h : ∀ e ∈ l, e.1 ≠ k) :
    eraseEntry k l = l := by
  unfold eraseEntry
  exact List.filter_eq_self.mpr fun e he => by simpa using h e he

theorem sumEntries_insertEntry [AddCommMonoid α] (f : κ → ν → α) (k : κ) (v : ν) :
    ∀ {l : List (κ × ν)}, Ascending l →
      sumEntries f (insertEntry k v l) = f k v + sumEntries f (eraseEntry k l)
  | [], _ => by simp [insertEntry, eraseEntry, sumEntries]
  | d :: rest, h => by
    unfold Ascending at h
    rw [List.pairwise_cons] at h
    unfold insertEntry
    split
    · next hlt =>
      -- `k` is below every key, so nothing is erased
      have hne : ∀ e ∈ d :: rest, e.1 ≠ k := by
        intro e he
        rcases List.mem_cons.mp he with rfl | he
        · exact ne_of_gt hlt
        · exact ne_of_gt (lt_trans hlt (h.1 e he))
      rw [eraseEntry_eq_self hne, sumEntries_cons]
    · split
      · next _ heq =>
        -- the old entry of `k` is the head; the tail holds no other
        subst heq
        have hne : ∀ e ∈ rest, e.1 ≠ d.1 := fun e he => ne_of_gt (h.1 e he)
        simp only [sumEntries_cons, eraseEntry, List.filter_cons, ne_eq, not_true_eq_false,
          decide_false, Bool.false_eq_true, if_false]
        rw [← eraseEntry, eraseEntry_eq_self hne]
      · next _ hne =>
        have hd : d.1 ≠ k := Ne.symm hne
        simp only [sumEntries_cons, eraseEntry, List.filter_cons, hd, ne_eq, not_false_eq_true,
          decide_true, if_true]
        rw [← eraseEntry, sumEntries_insertEntry f k v h.2, add_left_comm]

theorem sumEntries_eq_add_eraseEntry [AddCommMonoid α] (f : κ → ν → α) {k : κ} {v : ν} :
    ∀ {l : List (κ × ν)}, Ascending l → lookupEntry k l = some v →
      sumEntries f l = f k v + sumEntries f (eraseEntry k l)
  | [], _, hl => by simp [lookupEntry] at hl
  | d :: rest, h, hl => by
    unfold Ascending at h
    rw [List.pairwise_cons] at h
    by_cases hd : d.1 = k
    · subst hd
      simp only [lookupEntry, if_true, Option.some.injEq] at hl
      subst hl
      have hne : ∀ e ∈ rest, e.1 ≠ d.1 := fun e he => ne_of_gt (h.1 e he)
      simp only [sumEntries_cons, eraseEntry, List.filter_cons, ne_eq, not_true_eq_false,
        decide_false, Bool.false_eq_true, if_false]
      rw [← eraseEntry, eraseEntry_eq_self hne]
    · simp only [lookupEntry, hd, if_false] at hl
      simp only [sumEntries_cons, eraseEntry, List.filter_cons, hd, ne_eq, not_false_eq_true,
        decide_true, if_true]
      rw [← eraseEntry, sumEntries_eq_add_eraseEntry f h.2 hl, add_left_comm]

theorem lookupEntry_mem {k : κ} {v : ν} :
    ∀ {l : List (κ × ν)}, lookupEntry k l = some v → (k, v) ∈ l
  | [], h => by simp [lookupEntry] at h
  | d :: rest, h => by
    unfold lookupEntry at h
    split at h
    · next hd =>
      cases h
      exact List.mem_cons.mpr (.inl (by rw [← hd]))
    · exact List.mem_cons_of_mem _ (lookupEntry_mem h)

theorem lookupEntry_of_mem {k : κ} {v : ν} :
    ∀ {l : List (κ × ν)}, Ascending l → (k, v) ∈ l → lookupEntry k l = some v
  | [], _, hm => by simp at hm
  | d :: rest, h, hm => by
    unfold Ascending at h
    rw [List.pairwise_cons] at h
    rcases List.mem_cons.mp hm with rfl | hm
    · simp [lookupEntry]
    · have hd : d.1 ≠ k := ne_of_lt (h.1 _ hm)
      simp only [lookupEntry, hd, if_false]
      exact lookupEntry_of_mem h.2 hm

theorem ascending_ext :
    ∀ {l₁ l₂ : List (κ × ν)}, Ascending l₁ → Ascending l₂ →
      (∀ k, lookupEntry k l₁ = lookupEntry k l₂) → l₁ = l₂
  | [], [], _, _, _ => rfl
  | [], d :: _, _, _, h => by simpa [lookupEntry] using (h d.1).symm
  | d :: _, [], _, _, h => by simpa [lookupEntry] using h d.1
  | d₁ :: r₁, d₂ :: r₂, h₁, h₂, h => by
    unfold Ascending at h₁ h₂
    rw [List.pairwise_cons] at h₁ h₂
    -- the heads carry the least key of each list, so they agree
    have hkey : d₁.1 = d₂.1 := by
      rcases lt_trichotomy d₁.1 d₂.1 with hlt | heq | hgt
      · have := h d₁.1
        rw [lookupEntry_eq_none_of_lt (l := d₂ :: r₂) (fun e he => by
          rcases List.mem_cons.mp he with rfl | he
          · exact hlt
          · exact lt_trans hlt (h₂.1 e he))] at this
        simp [lookupEntry] at this
      · exact heq
      · have := h d₂.1
        rw [lookupEntry_eq_none_of_lt (l := d₁ :: r₁) (fun e he => by
          rcases List.mem_cons.mp he with rfl | he
          · exact hgt
          · exact lt_trans hgt (h₁.1 e he))] at this
        simp [lookupEntry] at this
    have hval : d₁.2 = d₂.2 := by
      have := h d₁.1
      simp only [lookupEntry, if_true, hkey] at this
      exact Option.some.inj this
    have htail : r₁ = r₂ := by
      refine ascending_ext h₁.2 h₂.2 fun k => ?_
      have := h k
      by_cases hk : d₁.1 = k
      · rw [lookupEntry_eq_none_of_lt (fun e he => hk ▸ h₁.1 e he),
          lookupEntry_eq_none_of_lt (fun e he => hk ▸ hkey ▸ h₂.1 e he)]
      · simpa [lookupEntry, hk, ← hkey] using this
    rw [Prod.ext hkey hval, htail]

end SortedMap

/-- A finite map whose entries are kept in strictly ascending key order. -/
structure SortedMap (κ : Type*) (ν : Type*) [LinearOrder κ] where
  entries : List (κ × ν)
  ascending : SortedMap.Ascending entries

namespace SortedMap

variable {κ ν α : Type*} [LinearOrder κ]

instance [DecidableEq κ] [DecidableEq ν] : DecidableEq (SortedMap κ ν) := fun a b =>
  decidable_of_iff (a.entries = b.entries) (by
    cases a
    cases b
    simp)

/-- The map with no entries. -/
def empty : SortedMap κ ν := ⟨[], List.Pairwise.nil⟩

/-- The value stored under `k`. -/
def find? (m : SortedMap κ ν) (k : κ) : Option ν := lookupEntry k m.entries

/-- Store `v` under `k`, replacing what was there. -/
def insert (m : SortedMap κ ν) (k : κ) (v : ν) : SortedMap κ ν :=
  ⟨insertEntry k v m.entries, ascending_insertEntry k v m.ascending⟩

/-- Remove the entry of `k`, if any. -/
def erase (m : SortedMap κ ν) (k : κ) : SortedMap κ ν :=
  ⟨eraseEntry k m.entries, List.Pairwise.filter _ m.ascending⟩

/-- The sum of `f` over all entries. -/
def sumBy [AddCommMonoid α] (m : SortedMap κ ν) (f : κ → ν → α) : α :=
  sumEntries f m.entries

@[simp] theorem find?_empty (k : κ) : (empty : SortedMap κ ν).find? k = none := rfl

@[simp] theorem find?_insert (m : SortedMap κ ν) (k k' : κ) (v : ν) :
    (m.insert k v).find? k' = if k = k' then some v else m.find? k' :=
  lookupEntry_insertEntry k k' v m.entries

@[simp] theorem find?_erase (m : SortedMap κ ν) (k k' : κ) :
    (m.erase k).find? k' = if k = k' then none else m.find? k' :=
  lookupEntry_eraseEntry k k' m.entries

theorem find?_insert_self (m : SortedMap κ ν) (k : κ) (v : ν) :
    (m.insert k v).find? k = some v := by
  simp

theorem find?_insert_of_ne (m : SortedMap κ ν) {k k' : κ} (v : ν) (h : k ≠ k') :
    (m.insert k v).find? k' = m.find? k' := by
  simp [h]

@[ext] theorem ext {m₁ m₂ : SortedMap κ ν} (h : ∀ k, m₁.find? k = m₂.find? k) : m₁ = m₂ := by
  cases m₁
  cases m₂
  simp only [mk.injEq]
  exact ascending_ext ‹_› ‹_› h

theorem mem_of_find? {m : SortedMap κ ν} {k : κ} {v : ν} (h : m.find? k = some v) :
    (k, v) ∈ m.entries :=
  lookupEntry_mem h

theorem find?_of_mem {m : SortedMap κ ν} {k : κ} {v : ν} (h : (k, v) ∈ m.entries) :
    m.find? k = some v :=
  lookupEntry_of_mem m.ascending h

/-- Storing under a key the value already stored there changes nothing. -/
theorem insert_of_find? {m : SortedMap κ ν} {k : κ} {v : ν} (h : m.find? k = some v) :
    m.insert k v = m := by
  ext k'
  by_cases same : k = k'
  · subst same
    simp [h]
  · simp [same]

@[simp] theorem sumBy_empty [AddCommMonoid α] (f : κ → ν → α) : (empty : SortedMap κ ν).sumBy f = 0 :=
  rfl

theorem sumBy_insert [AddCommMonoid α] (m : SortedMap κ ν) (f : κ → ν → α) (k : κ) (v : ν) :
    (m.insert k v).sumBy f = f k v + (m.erase k).sumBy f :=
  sumEntries_insertEntry f k v m.ascending

theorem sumBy_eq_add_erase [AddCommMonoid α] (m : SortedMap κ ν) (f : κ → ν → α) {k : κ} {v : ν}
    (h : m.find? k = some v) : m.sumBy f = f k v + (m.erase k).sumBy f :=
  sumEntries_eq_add_eraseEntry f m.ascending h

theorem sumBy_congr [AddCommMonoid α] (m : SortedMap κ ν) {f g : κ → ν → α}
    (h : ∀ k v, m.find? k = some v → f k v = g k v) : m.sumBy f = m.sumBy g := by
  unfold sumBy sumEntries
  congr 1
  refine List.map_congr_left fun e he => ?_
  exact h e.1 e.2 (find?_of_mem he)

theorem erase_eq_self {m : SortedMap κ ν} {k : κ} (h : m.find? k = none) : m.erase k = m := by
  ext k'
  by_cases hk : k = k'
  · subst hk
    simp [h]
  · simp [hk]

/-- Writing `v` at `k` moves a sum over the map by `v`'s term less the term of the value it
replaces. -/
theorem sumBy_insert_sub [AddCommGroup α] (m : SortedMap κ ν) (f : κ → ν → α) (k : κ) (v : ν) :
    (m.insert k v).sumBy f = m.sumBy f - ((m.find? k).map (f k)).getD 0 + f k v := by
  rw [sumBy_insert]
  cases h : m.find? k with
  | none => simp [erase_eq_self h, add_comm]
  | some w =>
    rw [sumBy_eq_add_erase m f h, Option.map_some, Option.getD_some]
    abel

/-- Deleting the entry of `k` takes its term off a sum over the map. -/
theorem sumBy_erase [AddCommGroup α] (m : SortedMap κ ν) (f : κ → ν → α) (k : κ) :
    (m.erase k).sumBy f = m.sumBy f - ((m.find? k).map (f k)).getD 0 := by
  cases h : m.find? k with
  | none => simp [erase_eq_self h]
  | some w =>
    rw [sumBy_eq_add_erase m f h, Option.map_some, Option.getD_some]
    abel

/-- Writing `v` at `k`, in a sum over a monoid: the new sum and the term of the value replaced
make the old sum and the term of `v`. -/
theorem sumBy_insert_add [AddCommMonoid α] (m : SortedMap κ ν) (f : κ → ν → α) (k : κ) (v : ν) :
    (m.insert k v).sumBy f + ((m.find? k).map (f k)).getD 0 = m.sumBy f + f k v := by
  rw [sumBy_insert]
  cases h : m.find? k with
  | none => simp [erase_eq_self h, add_comm]
  | some w =>
    rw [sumBy_eq_add_erase m f h, Option.map_some, Option.getD_some]
    abel

/-- Deleting the entry of `k`, in a sum over a monoid. -/
theorem sumBy_erase_add [AddCommMonoid α] (m : SortedMap κ ν) (f : κ → ν → α) (k : κ) :
    (m.erase k).sumBy f + ((m.find? k).map (f k)).getD 0 = m.sumBy f := by
  cases h : m.find? k with
  | none => simp [erase_eq_self h]
  | some w => rw [sumBy_eq_add_erase m f h, Option.map_some, Option.getD_some, add_comm]

theorem sumBy_add [AddCommMonoid α] (m : SortedMap κ ν) (f g : κ → ν → α) :
    m.sumBy (fun k v => f k v + g k v) = m.sumBy f + m.sumBy g := by
  simp [sumBy, sumEntries, List.sum_map_add]

/-- The keys of a map are distinct. -/
theorem nodup_keys (m : SortedMap κ ν) : (m.entries.map Prod.fst).Nodup :=
  List.pairwise_map.mpr (m.ascending.imp ne_of_lt)

/-- Rewrite every value, knowing its key; the keys stay. -/
def mapVal {μ : Type*} (m : SortedMap κ ν) (g : κ → ν → μ) : SortedMap κ μ :=
  ⟨m.entries.map fun e => (e.1, g e.1 e.2), List.pairwise_map.mpr (m.ascending.imp fun h => h)⟩

theorem lookupEntry_map {μ : Type*} (g : κ → ν → μ) (k : κ) :
    ∀ l : List (κ × ν), lookupEntry k (l.map fun e => (e.1, g e.1 e.2)) = (lookupEntry k l).map (g k)
  | [] => rfl
  | e :: l => by
    by_cases same : e.1 = k
    · simp [lookupEntry, same]
    · simp [lookupEntry, same, lookupEntry_map g k l]

@[simp] theorem find?_mapVal {μ : Type*} (m : SortedMap κ ν) (g : κ → ν → μ) (k : κ) :
    (m.mapVal g).find? k = (m.find? k).map (g k) :=
  lookupEntry_map g k m.entries

theorem sumBy_mapVal {μ : Type*} [AddCommMonoid α] (m : SortedMap κ ν) (g : κ → ν → μ)
    (f : κ → μ → α) : (m.mapVal g).sumBy f = m.sumBy fun k v => f k (g k v) := by
  simp [sumBy, sumEntries, mapVal, Function.comp_def]


/-! ## Deleting by a predicate, and sums that count -/

theorem lookupEntry_filter (p : κ → ν → Bool) (k : κ) :
    ∀ {l : List (κ × ν)}, Ascending l →
      lookupEntry k (l.filter fun e => p e.1 e.2) = (lookupEntry k l).filter (p k)
  | [], _ => rfl
  | (key, val) :: rest, h => by
    rw [Ascending, List.pairwise_cons] at h
    by_cases hd : key = k
    · -- the head is the one entry of `k`: the rest has greater keys
      subst hd
      have later : lookupEntry key (rest.filter fun e => p e.1 e.2) = none :=
        lookupEntry_eq_none_of_lt fun e he => h.1 e (List.mem_filter.mp he).1
      cases hp : p key val with
      | true => simp [hp, lookupEntry, Option.filter]
      | false => simp [hp, lookupEntry, later, Option.filter]
    · have ih := lookupEntry_filter p k h.2
      have skip : lookupEntry k ((key, val) :: rest) = lookupEntry k rest := by
        simp [lookupEntry, hd]
      rw [skip]
      cases hp : p key val with
      | true => simp [hp, lookupEntry, hd, ih]
      | false => simp [hp, ih]

omit [LinearOrder κ] in
theorem sumEntries_filter [AddCommMonoid α] (p : κ → ν → Bool) (f : κ → ν → α) :
    ∀ l : List (κ × ν), sumEntries f (l.filter fun e => p e.1 e.2) =
      sumEntries (fun k v => if p k v then f k v else 0) l
  | [] => rfl
  | e :: l => by
    have ih := sumEntries_filter p f l
    cases hp : p e.1 e.2 with
    | true => simp [hp, sumEntries_cons, ih]
    | false => simp [hp, sumEntries_cons, ih]

/-- Keep the entries that satisfy `p`: what a loop deleting the keys of a prefix leaves. -/
def filter (m : SortedMap κ ν) (p : κ → ν → Bool) : SortedMap κ ν :=
  ⟨m.entries.filter fun e => p e.1 e.2, List.Pairwise.filter _ m.ascending⟩

@[simp] theorem find?_filter (m : SortedMap κ ν) (p : κ → ν → Bool) (k : κ) :
    (m.filter p).find? k = (m.find? k).filter (p k) :=
  lookupEntry_filter p k m.ascending

theorem sumBy_filter [AddCommMonoid α] (m : SortedMap κ ν) (p : κ → ν → Bool) (f : κ → ν → α) :
    (m.filter p).sumBy f = m.sumBy fun k v => if p k v then f k v else 0 :=
  sumEntries_filter p f m.entries

theorem sumBy_eq_zero [AddCommMonoid α] (m : SortedMap κ ν) {f : κ → ν → α}
    (h : ∀ k v, m.find? k = some v → f k v = 0) : m.sumBy f = 0 := by
  rw [sumBy_congr m h]
  simp [sumBy, sumEntries]

theorem sumBy_nonneg [AddCommMonoid α] [PartialOrder α] [IsOrderedAddMonoid α] (m : SortedMap κ ν)
    {f : κ → ν → α} (h : ∀ k v, m.find? k = some v → 0 ≤ f k v) : 0 ≤ m.sumBy f := by
  unfold sumBy sumEntries
  refine List.sum_nonneg fun x hx => ?_
  obtain ⟨e, he, rfl⟩ := List.mem_map.mp hx
  exact h e.1 e.2 (find?_of_mem he)

/-- A term of a sum of non-negative terms is at most the sum. -/
theorem le_sumBy [AddCommMonoid α] [PartialOrder α] [IsOrderedAddMonoid α] (m : SortedMap κ ν)
    {f : κ → ν → α} (h : ∀ k v, m.find? k = some v → 0 ≤ f k v) {k : κ} {v : ν}
    (found : m.find? k = some v) : f k v ≤ m.sumBy f := by
  have rest : 0 ≤ (m.erase k).sumBy f := sumBy_nonneg (m.erase k) fun k' v' stored => by
    rw [find?_erase] at stored
    split_ifs at stored
    exact h k' v' stored
  rw [sumBy_eq_add_erase m f found]
  exact le_add_of_nonneg_right rest

/-- An entry counts itself: counting the entries that `g` sends where it sends a stored one
finds at least that one. -/
theorem one_le_sumBy_indicator {μ : Type*} [DecidableEq μ] (m : SortedMap κ ν) (g : κ → ν → μ)
    {k : κ} {v : ν} (found : m.find? k = some v) :
    1 ≤ m.sumBy (fun k' v' => if g k' v' = g k v then (1 : ℕ) else 0) := by
  have held := le_sumBy m (f := fun k' v' => if g k' v' = g k v then (1 : ℕ) else 0)
    (fun _ _ _ => Nat.zero_le _) found
  rwa [if_pos rfl] at held

/-- Counting the entries of a map whose key is `k` finds one if `k` is stored, whichever way
the keys are compared for equality. -/
theorem sumBy_indicator [DecidableEq κ] (m : SortedMap κ ν) (k : κ) :
    m.sumBy (fun k' _ => if k' = k then 1 else 0) = if (m.find? k).isSome then (1 : ℕ) else 0 := by
  cases found : m.find? k with
  | none =>
    refine sumBy_eq_zero m fun k' v stored => if_neg fun same => ?_
    rw [same, found] at stored
    cases stored
  | some v =>
    have rest : (m.erase k).sumBy (fun k' _ => if k' = k then 1 else 0) = (0 : ℕ) := by
      refine sumBy_eq_zero (m.erase k) fun k' v' stored => if_neg fun same => ?_
      rw [same, find?_erase, if_pos rfl] at stored
      cases stored
    rw [sumBy_eq_add_erase m _ found, if_pos rfl, Option.isSome_some, if_pos rfl, rest]

/-- The two orders of a double sum over two maps. -/
theorem sumBy_comm {μ ρ : Type*} [LinearOrder μ] [AddCommMonoid α] (m : SortedMap κ ν)
    (n : SortedMap μ ρ) (f : κ → ν → μ → ρ → α) :
    m.sumBy (fun k v => n.sumBy (f k v)) = n.sumBy fun k' v' => m.sumBy fun k v => f k v k' v' := by
  unfold sumBy sumEntries
  have swap := Multiset.sum_map_sum_map (m.entries : Multiset (κ × ν))
    (n.entries : Multiset (μ × ρ)) (f := fun e e' => f e.1 e.2 e'.1 e'.2)
  simpa only [Multiset.map_coe, Multiset.sum_coe] using swap

/-- Double counting: when every entry of `n` points, by `g`, at a key of `m`, counting for each
key of `m` the entries of `n` pointing at it counts every entry of `n` once. -/
theorem sumBy_count_of_mem {μ ρ : Type*} [LinearOrder μ] [DecidableEq κ] (m : SortedMap κ ν)
    (n : SortedMap μ ρ)
    (g : μ → ρ → κ) (mem : ∀ k' v', n.find? k' = some v' → (m.find? (g k' v')).isSome) :
    m.sumBy (fun k _ => n.sumBy fun k' v' => if g k' v' = k then 1 else 0) =
      n.sumBy fun _ _ => (1 : ℕ) := by
  rw [sumBy_comm m n fun k _ k' v' => if g k' v' = k then 1 else 0]
  refine sumBy_congr n fun k' v' stored => ?_
  have each := sumBy_indicator m (g k' v')
  simp only [eq_comm (a := g k' v')] at each ⊢
  rw [each, if_pos (mem k' v' stored)]

theorem sumBy_one (m : SortedMap κ ν) : m.sumBy (fun _ _ => (1 : ℕ)) = m.entries.length := by
  simp [sumBy, sumEntries]

/-- Two maps whose keys correspond one to one, by an injective `g` from the keys of `n` onto
those of `m`, have as many entries: count, for each key of `m`, the entries of `n` it comes
from. -/
theorem length_eq_of_keys {μ ρ : Type*} [LinearOrder μ] (m : SortedMap κ ν) (n : SortedMap μ ρ)
    (g : μ → κ) (injective : Function.Injective g)
    (keys : ∀ k', (n.find? k').isSome → (m.find? (g k')).isSome)
    (onto : ∀ k, (m.find? k).isSome → ∃ k', g k' = k ∧ (n.find? k').isSome) :
    m.entries.length = n.entries.length := by
  rw [← sumBy_one m, ← sumBy_one n]
  have counted := sumBy_count_of_mem m n (fun k' _ => g k')
    fun k' v' stored => keys k' (by rw [stored]; rfl)
  rw [← counted]
  refine sumBy_congr m fun k v stored => ?_
  obtain ⟨k', rfl, found⟩ := onto k (by rw [stored]; rfl)
  have single := sumBy_indicator n k'
  rw [if_pos found] at single
  refine single.symm.trans (sumBy_congr n fun k'' _ _ => ?_)
  simp only [injective.eq_iff]

end SortedMap
