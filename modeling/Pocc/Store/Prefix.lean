import Pocc.Store.MergeIterator
import Pocc.Lib.ByteOrder
import Mathlib

/-!
# The prefix store

store/prefix/store.go: a view of a parent store under a prefix `p`. A key `k` of the view is
the key `p ++ k` of the parent (`cloneAppend`); an iterator over `[start, end)` of the view is
a parent iterator over `[p ++ start, p ++ end)`, or up to `PrefixEndBytes(p)` for an open end,
wrapped in a `prefixIterator` that stops at the first key without the prefix and strips the
prefix from the keys it returns.

The parent is any `KVStore`: a sorted map whose `Iterator(start, end)` and
`ReverseIterator(start, end)` yield its entries with `start ≤ key < end` (an absent bound does
not bound), in ascending or descending order (`parentIterator`; the cache store meets that
contract, `CacheKV.Store.iterator_yields_overlay`). Keys and values are never `nil` here, so
the panics of `nil` keys and values do not arise.

What the prefix store stands for is the map `subMap parent p`, with `subMap parent p k =
parent (p ++ k)`.

Results:
* `isPrefix_iff_prefixEndBytes`: a string starts with `p` iff it is at or above `p` and below
  `PrefixEndBytes(p)`, where there is one;
* `find?_subMap`, `subMap_insert`, `subMap_erase`: the view reads and is written as the map
  `subMap`, and a write touches the parent at `p ++ k` only;
* `entries_rangeIterator`: both iterators yield the entries of `subMap` in the domain, in order;
* `prefix_store_view`: all of it together.
-/

namespace PrefixStore

open Bytes CacheKV

variable {ν : Type}

/-- `cloneAppend`: a fresh copy of `bz` followed by `tail`. -/
def cloneAppend (bz tail : Bytes) : Bytes := bz ++ tail

/-- `types.PrefixEndBytes`: the end of the range of the strings that start with `keyPrefix`, or
`none` (Go's `nil`) for the empty prefix and for a prefix of `0xFF` bytes only. -/
def prefixEndBytes (keyPrefix : Bytes) : Option Bytes :=
  if keyPrefix.length = 0 then none else incrementLast keyPrefix.reverse
where
  /-- The loop over a copy of the prefix, read here from its last byte: a trailing `0xFF` is
  dropped, and the first other byte is incremented. -/
  incrementLast : Bytes → Option Bytes
    | [] => none
    | last :: rest => if last ≠ 255 then some (rest.reverse ++ [last + 1]) else incrementLast rest

/-- `cpIncr`. -/
def cpIncr (bz : Bytes) : Option Bytes := prefixEndBytes bz

/-- `types.InclusiveEndBytes`: the end of a range that is to include `inclusiveBytes`. -/
def inclusiveEndBytes (inclusiveBytes : Bytes) : Bytes := inclusiveBytes ++ [0x00]

/-- `prefix.Store`: the parent store and the prefix. -/
structure Store (ν : Type) where
  parent : SortedMap Bytes ν
  keyPrefix : Bytes

/-- `NewStore`. -/
def newStore (parent : SortedMap Bytes ν) (keyPrefix : Bytes) : Store ν := ⟨parent, keyPrefix⟩

/-- A parent store's `Iterator(start, end)` (`ascending`) or `ReverseIterator(start, end)`: the
entries with keys in `[start, end)`, in order. -/
def parentIterator (m : SortedMap Bytes ν) (start end_ : Option Bytes) (ascending : Bool) :
    List (Bytes × ν) :=
  inOrder ascending (m.entries.filter fun e => isKeyInDomain e.1 start end_)

/-- `prefixIterator`: the parent's iterator, as the entries it has still to yield, and whether
it is still valid. -/
structure PrefixIterator (ν : Type) where
  keyPrefix : Bytes
  iter : List (Bytes × ν)
  valid : Bool

/-- Whether the parent iterator is valid and at a key with the prefix. -/
def startsWith (keyPrefix : Bytes) : List (Bytes × ν) → Bool
  | [] => false
  | e :: _ => decide (keyPrefix <+: e.1)

/-- `newPrefixIterator`. -/
def newPrefixIterator (keyPrefix : Bytes) (parent : List (Bytes × ν)) : PrefixIterator ν :=
  ⟨keyPrefix, parent, startsWith keyPrefix parent⟩

/-- `stripPrefix`. -/
def stripPrefix (key keyPrefix : Bytes) : Except String Bytes :=
  if key.length < keyPrefix.length ∨ key.take keyPrefix.length ≠ keyPrefix then
    throw "should not happen"
  else pure (key.drop keyPrefix.length)

namespace PrefixIterator

/-- `Valid`. -/
def isValid (iter : PrefixIterator ν) : Bool := iter.valid && !iter.iter.isEmpty

/-- `Next`: the parent moves on, and the iterator stays valid while the parent is at a key
with the prefix. -/
def next (iter : PrefixIterator ν) : Except String (PrefixIterator ν) :=
  if !iter.valid then throw "prefixIterator invalid, cannot call Next()"
  else
    let parent := iter.iter.tail
    pure { iter with iter := parent, valid := startsWith iter.keyPrefix parent }

/-- `Key`: the parent's key without the prefix. -/
def key (iter : PrefixIterator ν) : Except String Bytes :=
  if !iter.valid then throw "prefixIterator invalid, cannot call Key()"
  else match iter.iter with
    | [] => throw "iterator is invalid"
    | e :: _ => stripPrefix e.1 iter.keyPrefix

/-- `Value`. -/
def value (iter : PrefixIterator ν) : Except String ν :=
  if !iter.valid then throw "prefixIterator invalid, cannot call Value()"
  else match iter.iter with
    | [] => throw "iterator is invalid"
    | e :: _ => pure e.2

/-- A client's loop `for ; iter.Valid(); iter.Next()` reading `Key` and `Value`, for at most
`fuel` rounds: the entries read. -/
def entries : Nat → PrefixIterator ν → Except String (List (Bytes × ν))
  | 0, _ => pure []
  | fuel + 1, iter =>
    if iter.isValid then do
      let k ← iter.key
      let v ← iter.value
      let rest ← entries fuel (← iter.next)
      pure ((k, v) :: rest)
    else pure []

end PrefixIterator

namespace Store

/-- `Store.key`: the parent's key of `key`. -/
def key (s : Store ν) (key : Bytes) : Bytes := cloneAppend s.keyPrefix key

/-- `Get`. -/
def get (s : Store ν) (key : Bytes) : Option ν := s.parent.find? (s.key key)

/-- `Has`. -/
def has (s : Store ν) (key : Bytes) : Bool := (s.parent.find? (s.key key)).isSome

/-- `Set`. -/
def set (s : Store ν) (key : Bytes) (value : ν) : Store ν :=
  { s with parent := s.parent.insert (s.key key) value }

/-- `Delete`. -/
def delete (s : Store ν) (key : Bytes) : Store ν :=
  { s with parent := s.parent.erase (s.key key) }

/-- The body shared by `Iterator` (`ascending`) and `ReverseIterator`: the domain moved under
the prefix, an open end replaced by `cpIncr` of the prefix. -/
def rangeIterator (s : Store ν) (start end_ : Option Bytes) (ascending : Bool) :
    PrefixIterator ν :=
  let newstart := cloneAppend s.keyPrefix (start.getD [])
  let newend := match end_ with
    | none => cpIncr s.keyPrefix
    | some e => some (cloneAppend s.keyPrefix e)
  newPrefixIterator s.keyPrefix (parentIterator s.parent (some newstart) newend ascending)

/-- `Iterator`. -/
def iterator (s : Store ν) (start end_ : Option Bytes) : PrefixIterator ν :=
  s.rangeIterator start end_ true

/-- `ReverseIterator`. -/
def reverseIterator (s : Store ν) (start end_ : Option Bytes) : PrefixIterator ν :=
  s.rangeIterator start end_ false

end Store

/-! ## `PrefixEndBytes` -/

@[simp] theorem prefixEndBytes_nil : prefixEndBytes [] = none := rfl

/-- The loop from the last byte: a last byte below `0xFF` is incremented, a last `0xFF` is
dropped and the loop goes on. -/
theorem prefixEndBytes_append_singleton (q : Bytes) (b : UInt8) :
    prefixEndBytes (q ++ [b]) = if b ≠ 255 then some (q ++ [b + 1]) else prefixEndBytes q := by
  have loop : ∀ q : Bytes, prefixEndBytes q = prefixEndBytes.incrementLast q.reverse := by
    intro q
    unfold prefixEndBytes
    split_ifs with empty
    · rw [List.length_eq_zero_iff.mp empty]
      rfl
    · rfl
  rw [loop, loop, List.reverse_append, List.reverse_singleton, List.singleton_append,
    prefixEndBytes.incrementLast, List.reverse_reverse]

/-- A string starts with `p` iff it is at or above `p` and below `PrefixEndBytes(p)`, where
there is one. -/
theorem isPrefix_iff_prefixEndBytes (p x : Bytes) :
    p <+: x ↔ p ≤ x ∧ ∀ e ∈ prefixEndBytes p, x < e := by
  induction p using List.reverseRecOn generalizing x with
  | nil => exact ⟨fun _ => ⟨le_of_isPrefix List.nil_prefix, by simp⟩, fun _ => List.nil_prefix⟩
  | append_singleton q b ih =>
    rw [prefixEndBytes_append_singleton]
    by_cases top : b = 255
    · -- a last `0xFF`: the range ends where that of `q` ends
      subst top
      simp only [ne_eq, not_true_eq_false, if_false]
      constructor
      · intro starts
        exact ⟨le_of_isPrefix starts,
          ((ih x).mp ((List.prefix_append q [255]).trans starts)).2⟩
      · rintro ⟨above, below⟩
        have inQ : q <+: x :=
          (ih x).mpr ⟨le_trans (le_of_isPrefix (List.prefix_append q [255])) above, below⟩
        obtain ⟨r, rfl⟩ := inQ
        have rest : List.replicate 1 255 ≤ r := append_le_append_left_iff.mp above
        exact List.prefix_append_right_inj q |>.mpr (isPrefix_of_replicate_le rest)
    · -- otherwise the range ends at `q` followed by the successor of `b`
      simp only [ne_eq, top, not_false_eq_true, if_true, Option.mem_def, Option.some.injEq,
        forall_eq']
      constructor
      · rintro ⟨t, rfl⟩
        refine ⟨le_of_isPrefix (List.prefix_append _ _), ?_⟩
        rw [List.append_assoc, append_lt_append_left_iff, List.singleton_append,
          cons_lt_cons_iff]
        exact .inl (lt_add_one_of_ne_ff top)
      · rintro ⟨above, below⟩
        by_cases inQ : q <+: x
        · obtain ⟨r, rfl⟩ := inQ
          have atLeast : [b] ≤ r := append_le_append_left_iff.mp above
          have under : r < [b + 1] := append_lt_append_left_iff.mp below
          cases r with
          | nil => exact absurd atLeast (not_le.mpr List.Lex.nil)
          | cons c r =>
            rw [cons_lt_cons_iff] at under
            have cb : c ≤ b := by
              rcases under with less | ⟨-, late⟩
              · exact le_of_lt_add_one top less
              · exact absurd late List.not_lex_nil
            have bc : b ≤ c := by
              rcases Std.le_iff_lt_or_eq.mp atLeast with less | same
              · rcases cons_lt_cons_iff.mp less with less | ⟨same, -⟩
                · exact le_of_lt less
                · exact le_of_eq same
              · exact le_of_eq (List.cons_eq_cons.mp same).1
            rw [le_antisymm cb bc]
            exact List.prefix_append_right_inj q |>.mpr (List.cons_prefix_cons.mpr ⟨rfl,
              List.nil_prefix⟩)
        · -- a string without the prefix `q` is on one side of both bounds
          exfalso
          rcases Std.le_iff_lt_or_eq.mp above with less | same
          · rw [append_lt_iff_of_not_isPrefix inQ] at less
            rw [lt_append_iff_of_not_isPrefix inQ] at below
            exact lt_asymm less below
          · exact inQ (same ▸ List.prefix_append q [b])

/-! ## What the prefix store stands for -/

/-- An entry of the parent read as an entry of the view. -/
def strip (keyPrefix : Bytes) (e : Bytes × ν) : Bytes × ν := (e.1.drop keyPrefix.length, e.2)

theorem ascending_subMap (m : SortedMap Bytes ν) (keyPrefix : Bytes) :
    SortedMap.Ascending ((m.entries.filter fun e => decide (keyPrefix <+: e.1)).map
      (strip keyPrefix)) := by
  unfold SortedMap.Ascending
  rw [List.pairwise_map]
  apply (m.ascending.filter _).imp_of_mem
  intro ⟨ka, va⟩ ⟨kb, vb⟩ memA memB less
  obtain ⟨ta, rfl⟩ := of_decide_eq_true (List.mem_filter.mp memA).2
  obtain ⟨tb, rfl⟩ := of_decide_eq_true (List.mem_filter.mp memB).2
  simp only [strip, List.drop_left]
  exact append_lt_append_left_iff.mp less

/-- The map a prefix store stands for: `subMap parent p k = parent (p ++ k)`. -/
def subMap (m : SortedMap Bytes ν) (keyPrefix : Bytes) : SortedMap Bytes ν :=
  ⟨(m.entries.filter fun e => decide (keyPrefix <+: e.1)).map (strip keyPrefix),
    ascending_subMap m keyPrefix⟩

theorem mem_subMap {m : SortedMap Bytes ν} {keyPrefix k : Bytes} {v : ν} :
    (k, v) ∈ (subMap m keyPrefix).entries ↔ (keyPrefix ++ k, v) ∈ m.entries := by
  simp only [subMap, List.mem_map, List.mem_filter, decide_eq_true_eq, strip, Prod.mk.injEq]
  constructor
  · rintro ⟨⟨key, value⟩, ⟨mem, t, rfl⟩, dropped, rfl⟩
    simp only [List.drop_left] at dropped
    rw [← dropped]
    exact mem
  · intro mem
    exact ⟨_, ⟨mem, List.prefix_append _ _⟩, List.drop_left, rfl⟩

/-- The view reads the parent at `p ++ k`. -/
theorem find?_subMap (m : SortedMap Bytes ν) (keyPrefix k : Bytes) :
    (subMap m keyPrefix).find? k = m.find? (keyPrefix ++ k) := by
  cases found : m.find? (keyPrefix ++ k) with
  | some v => exact SortedMap.find?_of_mem (mem_subMap.mpr (SortedMap.mem_of_find? found))
  | none =>
    cases view : (subMap m keyPrefix).find? k with
    | none => rfl
    | some v =>
      have stored := SortedMap.find?_of_mem (mem_subMap.mp (SortedMap.mem_of_find? view))
      rw [found] at stored
      exact absurd stored (by simp)

theorem subMap_insert (m : SortedMap Bytes ν) (keyPrefix k : Bytes) (v : ν) :
    subMap (m.insert (keyPrefix ++ k) v) keyPrefix = (subMap m keyPrefix).insert k v := by
  ext k'
  simp only [find?_subMap, SortedMap.find?_insert, List.append_cancel_left_eq]

theorem subMap_erase (m : SortedMap Bytes ν) (keyPrefix k : Bytes) :
    subMap (m.erase (keyPrefix ++ k)) keyPrefix = (subMap m keyPrefix).erase k := by
  ext k'
  simp only [find?_subMap, SortedMap.find?_erase, List.append_cancel_left_eq]

/-! ## The iterators -/

theorem mem_parentIterator {m : SortedMap Bytes ν} {start end_ : Option Bytes} {ascending : Bool}
    {k : Bytes} {v : ν} :
    (k, v) ∈ parentIterator m start end_ ascending ↔
      (∀ a ∈ start, a ≤ k) ∧ (∀ b ∈ end_, k < b) ∧ m.find? k = some v := by
  rw [parentIterator, mem_inOrder, List.mem_filter, isKeyInDomain_iff]
  constructor
  · rintro ⟨mem, above, below⟩
    exact ⟨above, below, SortedMap.find?_of_mem mem⟩
  · rintro ⟨above, below, found⟩
    exact ⟨SortedMap.mem_of_find? found, above, below⟩

theorem sorted_parentIterator (m : SortedMap Bytes ν) (start end_ : Option Bytes)
    (ascending : Bool) : Assoc.Sorted (Precedes ascending) (parentIterator m start end_ ascending) :=
  sorted_inOrder (m.ascending.filter _)

theorem stripPrefix_append (p r : Bytes) : stripPrefix (p ++ r) p = .ok r := by
  have long : ¬ p.length + r.length < p.length := by omega
  simp [stripPrefix, long]

/-- One round of the loop on an iterator whose parent is at a key with the prefix: the entry
with the prefix stripped, then the rest. -/
theorem entries_newPrefixIterator_cons {p r : Bytes} {v : ν} (parent : List (Bytes × ν))
    (fuel : Nat) :
    (newPrefixIterator p ((p ++ r, v) :: parent)).entries (fuel + 1) =
      (do pure ((r, v) :: (← (newPrefixIterator p parent).entries fuel))) := by
  have starts : startsWith p ((p ++ r, v) :: parent) = true := by
    simp [startsWith, List.prefix_append]
  simp [PrefixIterator.entries, PrefixIterator.isValid, PrefixIterator.key,
    PrefixIterator.value, PrefixIterator.next, newPrefixIterator, starts, stripPrefix_append,
    bind, Except.bind]
  rfl

/-- Where every key the parent has still to yield has the prefix, the loop reads those entries
with the prefix stripped. -/
theorem entries_newPrefixIterator {p : Bytes} :
    ∀ (parent : List (Bytes × ν)) (fuel : Nat), (∀ e ∈ parent, p <+: e.1) →
      parent.length < fuel →
      (newPrefixIterator p parent).entries fuel = .ok (parent.map (strip p))
  | [], fuel + 1, _, _ => rfl
  | (key, v) :: parent, fuel + 1, prefixed, enough => by
    obtain ⟨r, rfl⟩ := prefixed (key, v) List.mem_cons_self
    have rest := entries_newPrefixIterator parent fuel
      (fun e mem => prefixed e (List.mem_cons_of_mem _ mem))
      (by simp only [List.length_cons] at enough; omega)
    rw [entries_newPrefixIterator_cons, rest]
    simp [strip]

/-- The end of the parent's domain: `PrefixEndBytes` of the prefix for an open end, the end under
the prefix otherwise. -/
def parentEnd (keyPrefix : Bytes) : Option Bytes → Option Bytes
  | none => cpIncr keyPrefix
  | some e => some (cloneAppend keyPrefix e)

theorem rangeIterator_eq (s : Store ν) (start end_ : Option Bytes) (ascending : Bool) :
    s.rangeIterator start end_ ascending = newPrefixIterator s.keyPrefix
      (parentIterator s.parent (some (s.keyPrefix ++ start.getD [])) (parentEnd s.keyPrefix end_)
        ascending) := by
  cases end_ <;> rfl

/-- A parent key is in the domain moved under the prefix iff it has the prefix and the rest of
it is in the domain. -/
theorem isKeyInDomain_parent (p x : Bytes) (start end_ : Option Bytes) :
    isKeyInDomain x (some (p ++ start.getD [])) (parentEnd p end_) =
      (decide (p <+: x) && isKeyInDomain (x.drop p.length) start end_) := by
  by_cases starts : p <+: x
  · obtain ⟨r, rfl⟩ := starts
    have within := ((isPrefix_iff_prefixEndBytes p (p ++ r)).mp (List.prefix_append p r)).2
    have lower : (∀ a ∈ some (p ++ start.getD []), a ≤ p ++ r) ↔ ∀ a ∈ start, a ≤ r := by
      cases start with
      | none => simp [le_of_isPrefix (List.prefix_append p r)]
      | some a => simp [append_le_append_left_iff]
    have upper : (∀ b ∈ parentEnd p end_, p ++ r < b) ↔ ∀ b ∈ end_, r < b := by
      cases end_ with
      | none => exact ⟨fun _ b absent => absurd absent (Option.not_mem_none b), fun _ => within⟩
      | some e => simp [parentEnd, cloneAppend, append_lt_append_left_iff]
    simp only [List.prefix_append, decide_true, Bool.true_and, List.drop_left]
    rw [Bool.eq_iff_iff, isKeyInDomain_iff, isKeyInDomain_iff, lower, upper]
  · -- outside the prefix the parent's domain is empty
    simp only [starts, decide_false, Bool.false_and]
    rw [Bool.eq_false_iff]
    intro inside
    obtain ⟨above, below⟩ := isKeyInDomain_iff.mp inside
    have low := above _ rfl
    cases end_ with
    | none =>
      have high : ∀ e ∈ prefixEndBytes p, x < e := below
      exact starts ((isPrefix_iff_prefixEndBytes p x).mpr
        ⟨le_trans (le_of_isPrefix (List.prefix_append _ _)) low, high⟩)
    | some e =>
      have high : x < p ++ e := below _ rfl
      rw [lt_append_iff_of_not_isPrefix starts] at high
      rcases Std.le_iff_lt_or_eq.mp low with less | same
      · rw [append_lt_iff_of_not_isPrefix starts] at less
        exact lt_asymm less high
      · exact starts (same ▸ List.prefix_append _ _)

/-- The iterators of the prefix store, read to the end, yield the entries of `subMap` in the
domain, in order: what the parent's iterator yields on the map the view stands for. -/
theorem entries_rangeIterator (s : Store ν) (start end_ : Option Bytes) (ascending : Bool)
    (fuel : Nat) (enough : s.parent.entries.length < fuel) :
    (s.rangeIterator start end_ ascending).entries fuel =
      .ok (parentIterator (subMap s.parent s.keyPrefix) start end_ ascending) := by
  rw [rangeIterator_eq]
  have domain := fun x => isKeyInDomain_parent s.keyPrefix x start end_
  rw [entries_newPrefixIterator]
  · -- the parent's entries in its domain are those with the prefix and the rest in the domain
    simp only [parentIterator, map_inOrder, subMap, List.filter_map, domain, List.filter_filter]
    congr 2
    apply congrArg (List.map (strip s.keyPrefix))
    apply List.filter_congr
    intro e _
    simp [strip, Bool.and_comm]
  · intro e mem
    rw [parentIterator, mem_inOrder, List.mem_filter, domain] at mem
    exact of_decide_eq_true (Bool.and_eq_true_iff.mp mem.2).1
  · calc (parentIterator s.parent _ _ ascending).length
        ≤ s.parent.entries.length := by
          rw [parentIterator, inOrder]
          split <;> simp [List.length_filter_le]
      _ < fuel := enough

/-- `prefix.NewStore(parent, p)` behaves as the map `subMap parent p`, `k ↦ parent (p ++ k)`:
`Get` and `Has` read it; `Set` and `Delete` write it and touch the parent at `p ++ k` only;
`Iterator` and `ReverseIterator`, read to the end, yield its entries with keys in
`[start, end)`, an absent bound not bounding, in ascending and descending order. And a string
starts with `p` iff it is at or above `p` and below `PrefixEndBytes(p)`, where there is one. -/
theorem prefix_store_view (parent : SortedMap Bytes ν) (p : Bytes) :
    let s := newStore parent p
    let view := subMap parent p
    (∀ k, s.get k = parent.find? (p ++ k) ∧ view.find? k = parent.find? (p ++ k) ∧
      s.has k = (view.find? k).isSome) ∧
    (∀ k v, (∀ x, x ≠ p ++ k → (s.set k v).parent.find? x = parent.find? x) ∧
      subMap (s.set k v).parent p = view.insert k v) ∧
    (∀ k, (∀ x, x ≠ p ++ k → (s.delete k).parent.find? x = parent.find? x) ∧
      subMap (s.delete k).parent p = view.erase k) ∧
    (∀ start end_, (s.iterator start end_).entries (parent.entries.length + 1) =
        .ok (parentIterator view start end_ true) ∧
      (s.reverseIterator start end_).entries (parent.entries.length + 1) =
        .ok (parentIterator view start end_ false)) ∧
    (∀ start end_ ascending, Assoc.Sorted (Precedes ascending) (parentIterator view start end_ ascending) ∧
      ∀ k v, (k, v) ∈ parentIterator view start end_ ascending ↔
        (∀ a ∈ start, a ≤ k) ∧ (∀ b ∈ end_, k < b) ∧ parent.find? (p ++ k) = some v) ∧
    ∀ x, p <+: x ↔ p ≤ x ∧ ∀ e ∈ prefixEndBytes p, x < e := by
  intro s view
  refine ⟨?_, ?_, ?_, ?_, ?_, isPrefix_iff_prefixEndBytes p⟩
  · intro k
    exact ⟨rfl, find?_subMap parent p k, by rw [find?_subMap]; rfl⟩
  · intro k v
    refine ⟨fun x other => SortedMap.find?_insert_of_ne _ _ other.symm, subMap_insert parent p k v⟩
  · intro k
    refine ⟨fun x other => ?_, subMap_erase parent p k⟩
    have distinct : ¬ p ++ k = x := fun same => other same.symm
    simp [s, newStore, Store.delete, Store.key, cloneAppend, distinct]
  · intro start end_
    exact ⟨entries_rangeIterator s start end_ true _ (Nat.lt_succ_self _),
      entries_rangeIterator s start end_ false _ (Nat.lt_succ_self _)⟩
  · intro start end_ ascending
    refine ⟨sorted_parentIterator view start end_ ascending, fun k v => ?_⟩
    rw [mem_parentIterator, find?_subMap]

end PrefixStore
