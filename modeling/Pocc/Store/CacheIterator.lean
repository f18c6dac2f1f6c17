import Pocc.Store.CacheKV
import Pocc.Store.MergeIterator

/-!
# Iterating a cache store

store/cachekv/store.go: `Iterator(start, end)` and `ReverseIterator(start, end)`. The store keeps,
beside its entries, the keys marked dirty since they were last sorted (`unsortedCache`) and the
dirty items sorted so far (`sortedCache`). Creating an iterator sorts the unsorted keys of the
domain into `sortedCache` (`dirtyItems`), snapshots the sorted items of the domain
(`newMemIterator`), and merges them with the parent's iterator (`cacheMergeIterator`). The
parent is a store with contents `parent`, whose iterator yields its entries in the domain.

`CachesAgree` is what the two caches keep through every call: the sorted items of keys no
longer marked unsorted are exactly the dirty entries, with their values. From it,
`yields_iterator`: a new iterator yields the entries of the store's view in its domain. With the
view being the plain map the calls leave (`run_spec`), `iterator_yields_overlay`: after any
calls, iterators created over any domains among them, a new iterator yields the entries of that
map in its domain, in its order, and creating it changes no `Get`.
-/

namespace CacheKV

variable {κ ν : Type} [LinearOrder κ]

/-! ## The store -/

/-- `cachekv.Store` over a parent holding `parent`: the cached entries, the keys marked dirty
since they were last sorted (`unsortedCache`, a set), and the dirty items sorted so far
(`sortedCache`, ascending), each with the value it had when it was sorted. -/
structure Store (κ ν : Type) [LinearOrder κ] where
  cache : SortedMap κ (Entry ν)
  unsortedCache : List κ
  sortedCache : List (κ × Option ν)
  parent : SortedMap κ ν

namespace Store

/-- `NewStore(parent)`. -/
def newStore (parent : SortedMap κ ν) : Store κ ν := ⟨SortedMap.empty, [], [], parent⟩

/-- `setCacheValue`, the only way an entry changes: a dirty entry also marks its key unsorted. -/
def setCacheValue (s : Store κ ν) (key : κ) (e : Entry ν) : Store κ ν :=
  { s with
    cache := s.cache.insert key e
    unsortedCache := if e.dirty then s.unsortedCache.insert key else s.unsortedCache }

/-- `Get`: the cached value, or the parent's, remembered clean. -/
def get (s : Store κ ν) (key : κ) : Option ν × Store κ ν :=
  match s.cache.find? key with
  | some e => (e.value, s)
  | none => (s.parent.find? key, s.setCacheValue key (.clean (s.parent.find? key)))

/-- `Set`. -/
def set (s : Store κ ν) (key : κ) (value : ν) : Store κ ν := s.setCacheValue key (.written value)

/-- `Delete`. -/
def delete (s : Store κ ν) (key : κ) : Store κ ν := s.setCacheValue key .removed

def ops : StoreOps (Store κ ν) κ ν := ⟨get, set, delete⟩

/-- `Write`: the dirty entries, in ascending key order, replayed into the parent; all three
caches emptied. -/
def write (s : Store κ ν) : Store κ ν :=
  newStore ((Stack.dirtyEntries s.cache).foldl (fun m e => e.2.applyTo m e.1) s.parent)

/-- `dirtyItems(start, end)`: the unsorted keys of the domain leave `unsortedCache`; sorted, each
with the value its entry holds now, they are merged into `sortedCache` (the loop over the list),
an item replacing the one of the same key. -/
def dirtyItems (s : Store κ ν) (start end_ : Option κ) : Store κ ν :=
  let unsorted := ((s.unsortedCache.filter (isKeyInDomain · start end_)).mergeSort
    fun a b => decide (a ≤ b)).map fun key => (key, (s.cache.find? key).bind Entry.value)
  { s with
    unsortedCache := s.unsortedCache.filter fun key => !isKeyInDomain key start end_
    sortedCache := Assoc.union (· < ·) unsorted s.sortedCache }

/-- The parent's `Iterator(start, end)` (`ReverseIterator` when not ascending): its entries in the
domain, in ascending (descending) key order. -/
def parentIterator (s : Store κ ν) (start end_ : Option κ) (ascending : Bool) : List (κ × ν) :=
  inOrder ascending (s.parent.entries.filter fun e => isKeyInDomain e.1 start end_)

/-- `iterator(start, end, ascending)`: the parent's iterator merged with a `memIterator` over the
sorted cache as `dirtyItems` leaves it; and the store as `dirtyItems` leaves it. -/
def iterator (s : Store κ ν) (start end_ : Option κ) (ascending : Bool) :
    MergeIterator κ ν × Store κ ν :=
  let s' := s.dirtyItems start end_
  (⟨s.parentIterator start end_ ascending, newMemIterator start end_ s'.sortedCache ascending,
    ascending⟩, s')

/-- The cache store as a one-layer stack over its parent. -/
def stack (s : Store κ ν) : Stack κ ν := .cache s.cache (.base s.parent)

end Store

/-- A call on a cache store: a `KVStore` call, the creation of an iterator (`Iterator`, or
`ReverseIterator` when not ascending), or `Write`. -/
inductive Call (κ ν : Type) where
  | op (op : Op κ ν)
  | iterator (start end_ : Option κ) (ascending : Bool)
  | write

namespace Store

/-- The store a call leaves. -/
def step (s : Store κ ν) : Call κ ν → Store κ ν
  | .op op => (call ops s op).2
  | .iterator start end_ ascending => (s.iterator start end_ ascending).2
  | .write => s.write

end Store

/-- The plain map a call leaves: a set or a delete applies; reads, iterators and `Write` leave
it as it was. -/
def mapStep (m : SortedMap κ ν) : Call κ ν → SortedMap κ ν
  | .op op => (call mapOps m op).2
  | .iterator _ _ _ | .write => m

namespace Store

/-- A run of calls. -/
def run (s : Store κ ν) (calls : List (Call κ ν)) : Store κ ν := calls.foldl step s

/-! ### The store seen as a stack -/

variable {s : Store κ ν}

theorem get_stack (s : Store κ ν) (key : κ) :
    Stack.get s.stack key = ((s.get key).1, (s.get key).2.stack) := by
  unfold get
  cases hc : s.cache.find? key with
  | some e => simp [stack, Stack.get, hc]
  | none => simp [stack, Stack.get, hc, setCacheValue]

/-- `Get` reads only the entries and the parent, not the iteration caches. -/
theorem get_reply_eq {t : Store κ ν} (cache : s.cache = t.cache) (parent : s.parent = t.parent)
    (key : κ) : (s.get key).1 = (t.get key).1 := by
  unfold Store.get
  rw [cache, parent]
  cases t.cache.find? key <;> rfl

theorem coherent_step (h : Stack.Coherent s.stack) (c : Call κ ν) : Stack.Coherent (s.step c).stack := by
  cases c with
  | op op =>
    cases op with
    | get key | has key =>
      have kept := (Stack.get_view h key).2.2
      rwa [get_stack] at kept
    | set key value => exact Stack.coherent_set h key value
    | delete key => exact Stack.coherent_delete h key
  | iterator start end_ ascending => exact h
  | write => exact ⟨trivial, fun key e found => by simp [step, write, newStore] at found⟩

/-- Each call does to the view what it does to a plain map. -/
theorem view_step (h : Stack.Coherent s.stack) (c : Call κ ν) :
    Stack.view (s.step c).stack = mapStep (Stack.view s.stack) c := by
  cases c with
  | op op =>
    cases op with
    | get key | has key =>
      have same := (Stack.get_view h key).2.1
      rwa [get_stack] at same
    | set key value => exact Stack.view_set s.stack key value
    | delete key => exact Stack.view_delete s.stack key
  | iterator start end_ ascending => rfl
  | write => rfl

/-! ### The iteration caches -/

/-- The iteration caches describe the dirty entries: `sortedCache` is strictly ascending and
`unsortedCache` a set; every key marked unsorted or sorted has a dirty entry, whose value its
sorted item holds unless the key was marked unsorted since; and every dirty entry is marked one
way or the other. -/
structure CachesAgree (s : Store κ ν) : Prop where
  ascending : SortedMap.Ascending s.sortedCache
  nodup : s.unsortedCache.Nodup
  unsorted_dirty : ∀ key ∈ s.unsortedCache, ∃ e, s.cache.find? key = some e ∧ e.dirty = true
  sorted_dirty : ∀ key value, (key, value) ∈ s.sortedCache →
    ∃ e, s.cache.find? key = some e ∧ e.dirty = true ∧ (key ∉ s.unsortedCache → e.value = value)
  dirty_marked : ∀ key e, s.cache.find? key = some e → e.dirty = true →
    key ∈ s.unsortedCache ∨ key ∈ s.sortedCache.map Prod.fst

theorem cachesAgree_newStore (parent : SortedMap κ ν) : CachesAgree (newStore parent) :=
  ⟨List.Pairwise.nil, List.nodup_nil, by simp [newStore], by simp [newStore], by simp [newStore]⟩

/-- A dirty entry marks its key unsorted, which frees its sorted item, if any, from agreeing. -/
theorem CachesAgree.setCacheValue_dirty (h : CachesAgree s) (key : κ) {e : Entry ν}
    (dirty : e.dirty = true) : CachesAgree (s.setCacheValue key e) where
  ascending := h.ascending
  nodup := by
    simp only [setCacheValue, dirty, if_true]
    exact h.nodup.insert
  unsorted_dirty key' member := by
    simp only [setCacheValue, dirty, if_true, List.mem_insert_iff] at member
    by_cases same : key = key'
    · exact ⟨e, by simp [setCacheValue, same], dirty⟩
    · rcases member with rfl | member
      · exact absurd rfl same
      · simpa [setCacheValue, same] using h.unsorted_dirty key' member
  sorted_dirty key' value member := by
    by_cases same : key = key'
    · subst same
      refine ⟨e, by simp [setCacheValue], dirty, fun notMarked => absurd ?_ notMarked⟩
      simp [setCacheValue, dirty]
    · obtain ⟨e', found, dirty', agrees⟩ := h.sorted_dirty key' value member
      refine ⟨e', by simp [setCacheValue, same, found], dirty', fun notMarked => agrees ?_⟩
      simp only [setCacheValue, dirty, if_true, List.mem_insert_iff, not_or] at notMarked
      exact notMarked.2
  dirty_marked key' e' found dirty' := by
    by_cases same : key = key'
    · exact .inl (by simp [setCacheValue, dirty, same])
    · simp only [setCacheValue, SortedMap.find?_insert, same, if_false] at found
      rcases h.dirty_marked key' e' found dirty' with marked | sorted
      · exact .inl (by simp [setCacheValue, dirty, marked])
      · exact .inr sorted

/-- A clean entry for a key the cache did not have touches no marked key. -/
theorem CachesAgree.setCacheValue_clean (h : CachesAgree s) {key : κ} {e : Entry ν}
    (clean : e.dirty = false) (fresh : s.cache.find? key = none) :
    CachesAgree (s.setCacheValue key e) := by
  have other : ∀ key' e', s.cache.find? key' = some e' → key ≠ key' := by
    rintro key' e' found rfl
    rw [fresh] at found
    cases found
  refine ⟨h.ascending, by simpa [setCacheValue, clean] using h.nodup, ?_, ?_, ?_⟩
  · intro key' member
    simp only [setCacheValue, clean] at member
    obtain ⟨e', found, dirty'⟩ := h.unsorted_dirty key' (by simpa using member)
    exact ⟨e', by simp [setCacheValue, other key' e' found, found], dirty'⟩
  · intro key' value member
    obtain ⟨e', found, dirty', agrees⟩ := h.sorted_dirty key' value member
    exact ⟨e', by simp [setCacheValue, other key' e' found, found], dirty',
      fun notMarked => agrees (by simpa [setCacheValue, clean] using notMarked)⟩
  · intro key' e' found dirty'
    by_cases same : key = key'
    · subst same
      simp only [setCacheValue, SortedMap.find?_insert, if_true, Option.some.injEq] at found
      rw [← found, clean] at dirty'
      cases dirty'
    · simp only [setCacheValue, SortedMap.find?_insert, same, if_false] at found
      simpa [setCacheValue, clean] using h.dirty_marked key' e' found dirty'

theorem CachesAgree.get (h : CachesAgree s) (key : κ) : CachesAgree (s.get key).2 := by
  unfold Store.get
  cases hc : s.cache.find? key with
  | some e => exact h
  | none => exact h.setCacheValue_clean rfl hc

/-- A key no longer marked unsorted is sorted exactly when it is dirty, with its entry's value. -/
theorem CachesAgree.mem_sorted_iff (h : CachesAgree s) {key : κ} {value : Option ν}
    (notMarked : key ∉ s.unsortedCache) :
    (key, value) ∈ s.sortedCache ↔
      ∃ e, s.cache.find? key = some e ∧ e.dirty = true ∧ e.value = value := by
  constructor
  · intro member
    obtain ⟨e, found, dirty, agrees⟩ := h.sorted_dirty key value member
    exact ⟨e, found, dirty, agrees notMarked⟩
  · rintro ⟨e, found, dirty, rfl⟩
    rcases h.dirty_marked key e found dirty with marked | sorted
    · exact absurd marked notMarked
    · obtain ⟨⟨key', value'⟩, member, rfl⟩ := List.mem_map.mp sorted
      obtain ⟨e', found', -, agrees⟩ := h.sorted_dirty key' value' member
      rw [found, Option.some.injEq] at found'
      rwa [found', agrees notMarked]

/-- Sorting a set of keys orders them strictly. -/
theorem pairwise_lt_mergeSort {l : List κ} (nodup : l.Nodup) :
    (l.mergeSort fun a b => decide (a ≤ b)).Pairwise (· < ·) := by
  have sorted : (l.mergeSort fun a b => decide (a ≤ b)).Pairwise fun a b => decide (a ≤ b) :=
    List.pairwise_mergeSort
      (fun a b c hab hbc => by simp only [decide_eq_true_eq] at *; exact le_trans hab hbc)
      (fun a b => by simpa using le_total a b) l
  have distinct := (List.mergeSort_perm l fun a b => decide (a ≤ b)).nodup_iff.mpr nodup
  exact (sorted.and distinct).imp fun both => lt_of_le_of_ne (by simpa using both.1) both.2

/-- `dirtyItems` keeps the caches agreeing: the keys it takes out of `unsortedCache` are sorted
in with their entries' values. -/
theorem CachesAgree.dirtyItems (h : CachesAgree s) (start end_ : Option κ) :
    CachesAgree (s.dirtyItems start end_) := by
  -- the items sorted in: the unsorted keys of the domain, each with its entry's value
  set items := ((s.unsortedCache.filter (isKeyInDomain · start end_)).mergeSort
    fun a b => decide (a ≤ b)).map fun key => (key, (s.cache.find? key).bind Entry.value)
    with hitems
  have sorted : SortedMap.Ascending items :=
    List.pairwise_map.mpr (pairwise_lt_mergeSort (h.nodup.filter _))
  have keys : ∀ key, key ∈ items.map Prod.fst ↔
      key ∈ s.unsortedCache ∧ isKeyInDomain key start end_ = true := by
    intro key
    simp [items, List.mem_mergeSort]
  have union : ∀ e, e ∈ (s.dirtyItems start end_).sortedCache ↔
      e ∈ items ∨ e ∈ s.sortedCache ∧ e.1 ∉ items.map Prod.fst :=
    fun e => Assoc.mem_union sorted h.ascending
  refine ⟨Assoc.sorted_union sorted h.ascending, h.nodup.filter _, ?_, ?_, ?_⟩
  · intro key member
    simp only [Store.dirtyItems, List.mem_filter] at member
    exact h.unsorted_dirty key member.1
  · intro key value member
    rcases (union (key, value)).mp member with new | ⟨old, notNew⟩
    · -- sorted in now, with its entry's value
      obtain ⟨k, sortedIn, same⟩ := List.mem_map.mp new
      simp only [Prod.mk.injEq] at same
      obtain ⟨rfl, rfl⟩ := same
      simp only [List.mem_mergeSort, List.mem_filter] at sortedIn
      obtain ⟨e, found, dirty⟩ := h.unsorted_dirty k sortedIn.1
      exact ⟨e, found, dirty, fun _ => by simp [found]⟩
    · -- sorted before, and its key was not sorted in now
      obtain ⟨e, found, dirty, agrees⟩ := h.sorted_dirty key value old
      refine ⟨e, found, dirty, fun notMarked => agrees fun marked => notNew ?_⟩
      have inside : isKeyInDomain key start end_ = true := by
        simpa [Store.dirtyItems, marked] using notMarked
      exact (keys key).mpr ⟨marked, inside⟩
  · intro key e found dirty
    have sortedKeys := fun k => Assoc.mem_keys_union (k := k) sorted h.ascending
    rcases h.dirty_marked key e found dirty with marked | old
    · by_cases inside : isKeyInDomain key start end_ = true
      · exact .inr ((sortedKeys key).mpr (.inl ((keys key).mpr ⟨marked, inside⟩)))
      · exact .inl (by simp [Store.dirtyItems, marked, inside])
    · exact .inr ((sortedKeys key).mpr (.inr old))

theorem CachesAgree.step (h : CachesAgree s) (c : Call κ ν) : CachesAgree (s.step c) := by
  cases c with
  | op op =>
    cases op with
    | get key | has key => exact h.get key
    | set key value => exact h.setCacheValue_dirty key rfl
    | delete key => exact h.setCacheValue_dirty key rfl
  | iterator start end_ ascending => exact h.dirtyItems start end_
  | write => exact cachesAgree_newStore _

/-! ### Runs -/

/-- Every run from a new store keeps both invariants, and its view is the plain map the calls
leave. -/
theorem run_spec (parent : SortedMap κ ν) (calls : List (Call κ ν)) :
    Stack.Coherent ((newStore parent).run calls).stack ∧
      CachesAgree ((newStore parent).run calls) ∧
      Stack.view ((newStore parent).run calls).stack = calls.foldl mapStep parent := by
  -- the invariants and the view, carried along the calls from any store that has them
  suffices ∀ (s : Store κ ν) (calls : List (Call κ ν)), Stack.Coherent s.stack → CachesAgree s →
      Stack.Coherent (s.run calls).stack ∧ CachesAgree (s.run calls) ∧
        Stack.view (s.run calls).stack = calls.foldl mapStep (Stack.view s.stack) from
    this _ calls ⟨trivial, fun key e found => by simp [newStore] at found⟩ (cachesAgree_newStore _)
  intro s calls coherent agree
  induction calls generalizing s with
  | nil => exact ⟨coherent, agree, rfl⟩
  | cons c rest ih =>
    rw [run, List.foldl_cons, List.foldl_cons, ← view_step coherent c]
    exact ih (s.step c) (coherent_step coherent c) (agree.step c)

/-! ### What a new iterator yields -/

/-- The entries of a plain map in a domain, in an iterator's order, as the iterator reads them. -/
def inDomain (m : SortedMap κ ν) (start end_ : Option κ) (ascending : Bool) :
    List (κ × Option ν) :=
  inOrder ascending ((m.entries.filter fun e => isKeyInDomain e.1 start end_).map
    fun e => (e.1, some e.2))

/-- An iterator created on a store yields the entries of the store's view in its domain, in its
order: the sorted cache, brought up to date for the domain by `dirtyItems`, holds exactly the
dirty entries there, and the merge puts them over the parent's entries. -/
theorem yields_iterator (agree : CachesAgree s)
    (start end_ : Option κ) (ascending : Bool) :
    (s.iterator start end_ ascending).1.yields =
      inDomain (Stack.view s.stack) start end_ ascending := by
  have agree' := agree.dirtyItems start end_
  -- the domain's keys have all left `unsortedCache`
  have notMarked : ∀ key, isKeyInDomain key start end_ = true →
      key ∉ (s.dirtyItems start end_).unsortedCache := by
    intro key inside
    simp [Store.dirtyItems, inside]
  have cacheItems : (newMemIterator start end_ (s.dirtyItems start end_).sortedCache
      ascending).order = inOrder ascending ((s.dirtyItems start end_).sortedCache.filter
        fun e => isKeyInDomain e.1 start end_) := by
    rw [MemIterator.order, newMemIterator,
      itemsInDomain_eq_filter agree'.ascending (fun h => absurd h Bool.false_ne_true)]
  unfold MergeIterator.yields inDomain
  simp only [Store.iterator, cacheItems, parentIterator, map_inOrder]
  have sortedCache : Assoc.Sorted (Precedes ascending) (inOrder ascending
      ((s.dirtyItems start end_).sortedCache.filter fun e => isKeyInDomain e.1 start end_)) :=
    sorted_inOrder (agree'.ascending.filter _)
  have sortedParent : Assoc.Sorted (Precedes ascending) (inOrder ascending
      ((s.parent.entries.filter fun e => isKeyInDomain e.1 start end_).map
        fun e => (e.1, some e.2))) :=
    sorted_inOrder (List.pairwise_map.mpr (s.parent.ascending.filter _))
  refine Assoc.eq_of_mem_iff ((Assoc.sorted_union sortedCache sortedParent).filter _)
    (sorted_inOrder (List.pairwise_map.mpr ((Stack.view s.stack).ascending.filter _))) ?_
  rintro ⟨key, value⟩
  rw [List.mem_filter, Assoc.mem_union sortedCache sortedParent]
  by_cases inside : isKeyInDomain key start end_ = true
  · -- in the domain: the dirty entry if there is one, else the parent's
    have entries : ∀ (m : SortedMap κ ν) v, (key, v) ∈ m.entries ↔ m.find? key = some v :=
      fun m v => ⟨SortedMap.find?_of_mem, SortedMap.mem_of_find?⟩
    have cached : ∀ w, (key, w) ∈ inOrder ascending ((s.dirtyItems start end_).sortedCache.filter
        fun e => isKeyInDomain e.1 start end_) ↔
          ∃ e, s.cache.find? key = some e ∧ e.dirty = true ∧ e.value = w := by
      intro w
      rw [mem_inOrder, List.mem_filter, agree'.mem_sorted_iff (notMarked key inside)]
      simp [inside, Store.dirtyItems]
    have cachedKey : key ∈ (inOrder ascending ((s.dirtyItems start end_).sortedCache.filter
        fun e => isKeyInDomain e.1 start end_)).map Prod.fst ↔
          ∃ e, s.cache.find? key = some e ∧ e.dirty = true := by
      simp only [List.mem_map, Prod.exists, exists_and_right, exists_eq_right]
      constructor
      · rintro ⟨w, member⟩
        obtain ⟨e, found, dirty, -⟩ := (cached w).mp member
        exact ⟨e, found, dirty⟩
      · rintro ⟨e, found, dirty⟩
        exact ⟨e.value, (cached e.value).mpr ⟨e, found, dirty, rfl⟩⟩
    have below : ∀ (m : SortedMap κ ν), (key, value) ∈ inOrder ascending
        ((m.entries.filter fun e => isKeyInDomain e.1 start end_).map fun e => (e.1, some e.2)) ↔
          ∃ v, value = some v ∧ m.find? key = some v := by
      intro m
      simp only [mem_inOrder, List.mem_map, List.mem_filter, Prod.mk.injEq]
      constructor
      · rintro ⟨⟨k, v⟩, ⟨member, -⟩, rfl, rfl⟩
        exact ⟨v, rfl, (entries m v).mp member⟩
      · rintro ⟨v, rfl, found⟩
        exact ⟨(key, v), ⟨(entries m v).mpr found, inside⟩, rfl, rfl⟩
    rw [cached, cachedKey, below, below]
    by_cases dirtyHere : ∃ e, s.cache.find? key = some e ∧ e.dirty = true
    · -- a dirty entry: its value, a delete showing nothing
      obtain ⟨e, found, dirty⟩ := dirtyHere
      have shown : (Stack.view s.stack).find? key = e.value := by
        rw [Store.stack, Stack.find?_view_cache, found]
        simp [dirty]
      rw [shown]
      constructor
      · rintro ⟨⟨e', found', -, rfl⟩ | ⟨-, absent⟩, hasValue⟩
        · rw [found, Option.some.injEq] at found'
          subst found'
          obtain ⟨v, hv⟩ := Option.isSome_iff_exists.mp hasValue
          exact ⟨v, hv, hv⟩
        · exact absurd ⟨e, found, dirty⟩ absent
      · rintro ⟨v, rfl, hv⟩
        exact ⟨.inl ⟨e, found, dirty, hv⟩, rfl⟩
    · -- no dirty entry: the parent's entry
      have shown : (Stack.view s.stack).find? key = s.parent.find? key := by
        rw [Store.stack, Stack.find?_view_cache]
        cases found : s.cache.find? key with
        | none => rfl
        | some e =>
          have clean : e.dirty = false := by
            simpa using fun dirty => dirtyHere ⟨e, found, dirty⟩
          simp [clean, Stack.view]
      rw [shown]
      constructor
      · rintro ⟨⟨e, found, dirty, -⟩ | ⟨fromParent, -⟩, -⟩
        · exact absurd ⟨e, found, dirty⟩ dirtyHere
        · exact fromParent
      · rintro ⟨v, rfl, hv⟩
        exact ⟨.inr ⟨⟨v, rfl, hv⟩, dirtyHere⟩, rfl⟩
  · -- outside the domain: nothing on either side
    have outside : isKeyInDomain key start end_ = false := by simpa using inside
    simp [mem_inOrder, List.mem_filter, outside]

/-- Iterating a cache store: after any calls on a new store over a parent holding `parent`
(sets, deletes, reads, `Write`s, and iterators created over any domains in either direction),
a new iterator over `[start, end)`, read by a client's loop with rounds to spare, yields the
entries of the plain map `M` the calls leave that lie in the domain, each once and with its
value, strictly in the iterator's order; and after the iterator is created a `Get` still
returns what it returned before, `M`'s value. -/
theorem iterator_yields_overlay (parent : SortedMap κ ν) (calls : List (Call κ ν))
    (start end_ : Option κ) (ascending : Bool) :
    let s := (newStore parent).run calls
    let M := calls.foldl mapStep parent
    (∀ fuel, (s.iterator start end_ ascending).1.size < fuel →
      (s.iterator start end_ ascending).1.entries fuel = .ok (inDomain M start end_ ascending)) ∧
      Assoc.Sorted (Precedes ascending) (inDomain M start end_ ascending) ∧
      ∀ key, ((s.iterator start end_ ascending).2.get key).1 = (s.get key).1 ∧
        (s.get key).1 = M.find? key := by
  intro s M
  obtain ⟨coherent, agree, view⟩ := run_spec parent calls
  have created : (s.iterator start end_ ascending).2 = s.dirtyItems start end_ := rfl
  refine ⟨fun fuel enough => ?_, ?_, fun key => ⟨?_, ?_⟩⟩
  · rw [MergeIterator.entries_eq_yields fuel _ enough, yields_iterator agree, view]
  · exact sorted_inOrder (List.pairwise_map.mpr (M.ascending.filter _))
  · -- `dirtyItems` touches neither the entries nor the parent
    rw [created]
    exact get_reply_eq (s := s.dirtyItems start end_) (t := s) rfl rfl key
  · have reply := (Stack.get_view coherent key).1
    rwa [get_stack, view] at reply

end Store

end CacheKV
