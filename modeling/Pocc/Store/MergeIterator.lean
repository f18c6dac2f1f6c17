import Pocc.Lib.SortedMap
import Pocc.Lib.Assoc
import Pocc.Lib.Fallible

/-!
# The iterators of a cache store

store/cachekv/memiterator.go and mergeiterator.go. A `memIterator` walks a snapshot of the cache's
sorted items in a domain, a delete being an item with no value. A `cacheMergeIterator` merges it
with the parent's iterator, which is given by the entries it has still to yield, in its order:
all the merge iterator asks of it through `Valid`, `Key`, `Value` and `Next`. Every call on the
merge iterator first skips, in `skipUntilExistsOrInvalid`, the cache's deletes and the parent's
entries they shadow.

`entries_eq_yields`: a client's loop `for ; iter.Valid(); iter.Next()` reading `Key` and `Value`
reads exactly `yields`, the cache's items over the parent's entries, merged in the iterator's
order (`Assoc.union`), without the deletes; and it ends. Both directions are one argument, the
order being `Precedes ascending`.
-/

namespace CacheKV

variable {κ ν : Type}

/-! ## The cache's iterator -/

/-- A list in the order an iterator walks it: as it is going up, reversed going down. -/
def inOrder {α : Type} (ascending : Bool) (l : List α) : List α :=
  if ascending then l else l.reverse

@[simp] theorem mem_inOrder {α : Type} {ascending : Bool} {l : List α} {x : α} :
    x ∈ inOrder ascending l ↔ x ∈ l := by
  unfold inOrder
  split <;> simp

theorem map_inOrder {α β : Type} (f : α → β) (ascending : Bool) (l : List α) :
    (inOrder ascending l).map f = inOrder ascending (l.map f) := by
  unfold inOrder
  split <;> simp [List.map_reverse]

/-- `memIterator`: the items of the sorted cache in the domain, in ascending key order, a
`none` value marking a delete. Going up it is consumed from the front, going down from the
back. -/
structure MemIterator (κ ν : Type) where
  items : List (κ × Option ν)
  ascending : Bool

namespace MemIterator

/-- `Valid`. -/
def valid (mi : MemIterator κ ν) : Bool := !mi.items.isEmpty

/-- `Key` and `Value`: the first item going up, the last going down; `none` where the source
panics on an invalid iterator. -/
def current (mi : MemIterator κ ν) : Option (κ × Option ν) :=
  if mi.ascending then mi.items.head? else mi.items.getLast?

/-- `Next`: drop the item under the iterator. The merge iterator calls it on a valid iterator
only. -/
def next (mi : MemIterator κ ν) : MemIterator κ ν :=
  if mi.ascending then { mi with items := mi.items.tail } else { mi with items := mi.items.dropLast }

theorem length_next_lt {mi : MemIterator κ ν} {item : κ × Option ν}
    (h : mi.current = some item) : mi.next.items.length < mi.items.length := by
  unfold current at h
  unfold next
  cases mi.ascending with
  | true =>
    cases hi : mi.items with
    | nil => simp [hi] at h
    | cons x xs => simp
  | false =>
    cases hi : mi.items with
    | nil => simp [hi] at h
    | cons x xs => simp

theorem length_next_le (mi : MemIterator κ ν) : mi.next.items.length ≤ mi.items.length := by
  unfold next
  cases mi.ascending <;> simp

/-- The items in the order the iterator yields them. -/
def order (mi : MemIterator κ ν) : List (κ × Option ν) := inOrder mi.ascending mi.items

theorem current_eq_head (mi : MemIterator κ ν) : mi.current = mi.order.head? := by
  unfold current order inOrder
  cases mi.ascending with
  | true => rfl
  | false => simp

theorem order_next (mi : MemIterator κ ν) : mi.next.order = mi.order.tail := by
  unfold next order inOrder
  cases mi.ascending with
  | true => rfl
  | false => simp

/-- The item under the iterator heads what it yields, the rest being what `next` leaves. -/
theorem order_of_current {mi : MemIterator κ ν} {item : κ × Option ν}
    (h : mi.current = some item) : mi.order = item :: mi.next.order := by
  rw [current_eq_head] at h
  obtain ⟨rest, hrest⟩ := List.head?_eq_some_iff.mp h
  rw [order_next, hrest, List.tail_cons]

theorem order_of_current_none {mi : MemIterator κ ν} (h : mi.current = none) : mi.order = [] := by
  rwa [current_eq_head, List.head?_eq_none_iff] at h

theorem valid_eq (mi : MemIterator κ ν) : mi.valid = !mi.order.isEmpty := by
  unfold valid order inOrder
  cases mi.ascending with
  | true => rfl
  | false => simp

end MemIterator

variable [LinearOrder κ]

/-! ## Domains and directions -/

/-- `IsKeyInDomain` of tm-db: `start ≤ key < end`, a `none` bound standing for nil, which
leaves that side open. -/
def isKeyInDomain (key : κ) (start end_ : Option κ) : Bool :=
  if start.any (key < ·) then false
  else if end_.any (· ≤ key) then false
  else true

theorem isKeyInDomain_iff {key : κ} {start end_ : Option κ} :
    isKeyInDomain key start end_ = true ↔ (∀ a ∈ start, a ≤ key) ∧ ∀ b ∈ end_, key < b := by
  unfold isKeyInDomain
  cases start <;> cases end_ <;> simp [not_lt]

/-- Once past the domain, keys stay past it: a key above one inside and itself outside is at
or after the end. -/
theorem isKeyInDomain_of_above {start end_ : Option κ} {a x y : κ}
    (inside : isKeyInDomain a start end_ = true) (lt : a < x)
    (outside : isKeyInDomain x start end_ = false) (le : x ≤ y) :
    isKeyInDomain y start end_ = false := by
  rw [← Bool.not_eq_true, isKeyInDomain_iff] at outside ⊢
  rw [isKeyInDomain_iff] at inside
  intro ⟨_, below⟩
  exact outside ⟨fun s hs => (inside.1 s hs).trans lt.le, fun b hb => lt_of_le_of_lt le (below b hb)⟩

/-- The order an iterator walks the keys in: up when ascending, down otherwise. -/
def Precedes : Bool → κ → κ → Prop
  | true, a, b => a < b
  | false, a, b => b < a

instance : ∀ ascending, DecidableRel (Precedes (κ := κ) ascending)
  | true => fun a b => inferInstanceAs (Decidable (a < b))
  | false => fun a b => inferInstanceAs (Decidable (b < a))

instance (ascending : Bool) : IsStrictTotalOrder κ (Precedes ascending) := by
  cases ascending with
  | true => exact inferInstanceAs (IsStrictTotalOrder κ (· < ·))
  | false => exact inferInstanceAs (IsStrictTotalOrder κ (· > ·))

/-- A list sorted up is sorted in the iterator's order once put in it. -/
theorem sorted_inOrder {α : Type} {ascending : Bool} {l : List (κ × α)}
    (h : SortedMap.Ascending l) : Assoc.Sorted (Precedes ascending) (inOrder ascending l) := by
  cases ascending with
  | true => exact h
  | false => exact List.pairwise_reverse.mpr h

/-- The loop of `newMemIterator` over the sorted items: keep those in the domain, and stop at
the first one past it once inside. -/
def itemsInDomain (start end_ : Option κ) : Bool → List (κ × Option ν) → List (κ × Option ν)
  | _, [] => []
  | entered, item :: rest =>
    if isKeyInDomain item.1 start end_ then item :: itemsInDomain start end_ true rest
    else if entered then []
    else itemsInDomain start end_ false rest

/-- On sorted items, `newMemIterator`'s loop keeps exactly the items in the domain. -/
theorem itemsInDomain_eq_filter {start end_ : Option κ} :
    ∀ {entered : Bool} {l : List (κ × Option ν)}, SortedMap.Ascending l →
      (entered = true → ∃ a, isKeyInDomain a start end_ = true ∧ ∀ e ∈ l, a < e.1) →
      itemsInDomain start end_ entered l = l.filter fun e => isKeyInDomain e.1 start end_
  | _, [], _, _ => rfl
  | entered, e :: rest, sorted, inside => by
    have tail := List.Pairwise.of_cons sorted
    by_cases here : isKeyInDomain e.1 start end_ = true
    · rw [itemsInDomain, if_pos here, List.filter_cons, if_pos here,
        itemsInDomain_eq_filter tail fun _ => ⟨e.1, here, fun _ => List.rel_of_pairwise_cons sorted⟩]
    · cases entered with
      | true =>
        -- past the domain: every later item is past it too
        obtain ⟨a, inDomain, above⟩ := inside rfl
        have outside : isKeyInDomain e.1 start end_ = false := by simpa using here
        rw [itemsInDomain, if_neg here, if_pos rfl, eq_comm, List.filter_eq_nil_iff]
        intro e' member
        rcases List.mem_cons.mp member with rfl | later
        · exact here
        · simpa using isKeyInDomain_of_above inDomain (above e List.mem_cons_self) outside
            (List.rel_of_pairwise_cons sorted later).le
      | false =>
        rw [itemsInDomain, if_neg here, if_neg Bool.false_ne_true, List.filter_cons, if_neg here,
          itemsInDomain_eq_filter tail (fun h => absurd h Bool.false_ne_true)]

/-- `newMemIterator(start, end, items, ascending)`. -/
def newMemIterator (start end_ : Option κ) (items : List (κ × Option ν)) (ascending : Bool) :
    MemIterator κ ν :=
  ⟨itemsInDomain start end_ false items, ascending⟩

/-! ## The merge iterator -/

/-- `cacheMergeIterator`: the parent's iterator, given by the entries it has still to yield in
its order, and the cache's `memIterator`. -/
structure MergeIterator (κ ν : Type) where
  parent : List (κ × ν)
  cache : MemIterator κ ν
  ascending : Bool

/-- `compare`: the key comparison, the other way round when not ascending. -/
def compareKeys (ascending : Bool) (a b : κ) : Ordering :=
  if ascending then compare a b else (compare a b).swap

theorem compareKeys_swap (ascending : Bool) (a b : κ) :
    compareKeys ascending b a = (compareKeys ascending a b).swap := by
  have swapped : compare b a = (compare a b).swap := Std.OrientedOrd.eq_swap
  cases ascending <;> simp [compareKeys, swapped]

theorem compareKeys_eq_lt {ascending : Bool} {a b : κ} :
    compareKeys ascending a b = .lt ↔ Precedes ascending a b := by
  cases ascending <;> simp [compareKeys, Precedes, compare_lt_iff_lt, compare_gt_iff_gt]

theorem compareKeys_eq_gt {ascending : Bool} {a b : κ} :
    compareKeys ascending a b = .gt ↔ Precedes ascending b a := by
  cases ascending <;> simp [compareKeys, Precedes, compare_lt_iff_lt, compare_gt_iff_gt]

theorem compareKeys_eq_eq {ascending : Bool} {a b : κ} :
    compareKeys ascending a b = .eq ↔ a = b := by
  cases ascending <;> simp [compareKeys]

namespace MergeIterator

/-- The items both iterators have still to yield. -/
def size (iter : MergeIterator κ ν) : Nat := iter.parent.length + iter.cache.items.length

/-- `skipCacheDeletes(until_)`: skip the cache's deletes keyed before `until_`, all of them when
`until_` is nil. -/
def skipCacheDeletes (iter : MergeIterator κ ν) (until_ : Option κ) : MergeIterator κ ν :=
  match _h : iter.cache.current with
  | some (key, none) =>
    if until_.all fun u => compareKeys iter.ascending key u = .lt then
      skipCacheDeletes { iter with cache := iter.cache.next } until_
    else iter
  | _ => iter
termination_by iter.cache.items.length
decreasing_by exact MemIterator.length_next_lt _h

theorem skipCacheDeletes_parent (iter : MergeIterator κ ν) (until_ : Option κ) :
    (iter.skipCacheDeletes until_).parent = iter.parent ∧
      (iter.skipCacheDeletes until_).ascending = iter.ascending ∧
      (iter.skipCacheDeletes until_).cache.items.length ≤ iter.cache.items.length := by
  fun_induction skipCacheDeletes iter until_ with
  | case1 iter key h before ih =>
    exact ⟨ih.1, ih.2.1, ih.2.2.trans (MemIterator.length_next_le _)⟩
  | case2 iter key h before => exact ⟨rfl, rfl, le_rfl⟩
  | case3 iter notDelete => exact ⟨rfl, rfl, le_rfl⟩

/-- Skipping up to a key the current delete comes before drops at least that delete. -/
theorem length_skipCacheDeletes_lt {iter : MergeIterator κ ν} {key u : κ}
    (h : iter.cache.current = some (key, none)) (before : compareKeys iter.ascending key u = .lt) :
    (iter.skipCacheDeletes (some u)).cache.items.length < iter.cache.items.length := by
  rw [skipCacheDeletes]
  split
  · next key' h' =>
    rw [h] at h'
    cases h'
    rw [if_pos (by simpa using before)]
    exact lt_of_le_of_lt (skipCacheDeletes_parent _ _).2.2 (MemIterator.length_next_lt h)
  · next notDelete => exact absurd h (notDelete key)

/-- `skipUntilExistsOrInvalid`: move on until the parent's entry or the cache's item under the
iterator exists, skipping the cache's deletes and the parent's entries they shadow; whether the
iterator is then valid. -/
def skipUntilExistsOrInvalid (iter : MergeIterator κ ν) : MergeIterator κ ν × Bool :=
  match _p : iter.parent with
  | [] =>
    -- the parent is done: fast-forward the cache past its deletes
    let iter := iter.skipCacheDeletes none
    (iter, iter.cache.valid)
  | (keyP, _) :: rest =>
    match _h : iter.cache.current with
    | none => (iter, true)
    | some (keyC, valueC) =>
      match _c : compareKeys iter.ascending keyP keyC with
      | .lt => (iter, true)
      | .eq =>
        match valueC with
        | none => skipUntilExistsOrInvalid { iter with parent := rest, cache := iter.cache.next }
        | some _ => (iter, true)
      | .gt =>
        match valueC with
        | none => skipUntilExistsOrInvalid (iter.skipCacheDeletes (some keyP))
        | some _ => (iter, true)
termination_by iter.size
decreasing_by
  · have shorter := MemIterator.length_next_lt _h
    simp only [size, _p, List.length_cons]
    omega
  · have before : compareKeys iter.ascending keyC keyP = .lt := by
      rw [compareKeys_swap, _c]
      rfl
    have shorter := length_skipCacheDeletes_lt _h before
    have same := (skipCacheDeletes_parent iter (some keyP)).1
    simp only [size, same]
    omega

/-- `Valid`. -/
def valid (iter : MergeIterator κ ν) : MergeIterator κ ν × Bool := iter.skipUntilExistsOrInvalid

/-- What `Key` and `Value` read: the parent's entry when it comes first or the cache is done,
the cache's item when it comes first, the parent is done, or the keys tie (the cache shadows
the parent). -/
def current (iter : MergeIterator κ ν) : Option (κ × Option ν) :=
  match iter.parent, iter.cache.current with
  | [], cacheItem => cacheItem
  | (keyP, valueP) :: _, none => some (keyP, some valueP)
  | (keyP, valueP) :: _, some (keyC, valueC) =>
    match compareKeys iter.ascending keyP keyC with
    | .lt => some (keyP, some valueP)
    | .eq => some (keyP, valueC)
    | .gt => some (keyC, valueC)

/-- How `Key`, `Value` and `Next` begin: `skipUntilExistsOrInvalid`, then `assertValid`, which
skips once more and panics on an invalid iterator. -/
def settle (iter : MergeIterator κ ν) : Except String (MergeIterator κ ν) :=
  let (iter, valid) := iter.skipUntilExistsOrInvalid.1.skipUntilExistsOrInvalid
  if valid then .ok iter else .error "iterator is invalid"

/-- `Key`. -/
def key (iter : MergeIterator κ ν) : Except String κ := do
  match (← iter.settle).current with
  | some (k, _) => pure k
  | none => throw "memIterator is invalid"

/-- `Value`: nil for a delete, which a settled iterator never stands on. -/
def value (iter : MergeIterator κ ν) : Except String (Option ν) := do
  match (← iter.settle).current with
  | some (_, v) => pure v
  | none => throw "memIterator is invalid"

/-- The body of `Next` on a valid iterator: advance the parent, the cache, or both on a tie. -/
def advance (iter : MergeIterator κ ν) : MergeIterator κ ν :=
  match iter.parent, iter.cache.current with
  | [], _ => { iter with cache := iter.cache.next }
  | _ :: rest, none => { iter with parent := rest }
  | (keyP, _) :: rest, some (keyC, _) =>
    match compareKeys iter.ascending keyP keyC with
    | .lt => { iter with parent := rest }
    | .eq => { iter with parent := rest, cache := iter.cache.next }
    | .gt => { iter with cache := iter.cache.next }

/-- `Next`. -/
def next (iter : MergeIterator κ ν) : Except String (MergeIterator κ ν) := do
  pure (← iter.settle).advance

/-- A client's loop `for ; iter.Valid(); iter.Next()` reading `Key` and `Value`, for at most
`fuel` rounds: the entries read. -/
def entries : Nat → MergeIterator κ ν → Except String (List (κ × Option ν))
  | 0, _ => pure []
  | fuel + 1, iter =>
    let (iter, valid) := iter.valid
    if valid then do
      let k ← iter.key
      let v ← iter.value
      let rest ← entries fuel (← iter.next)
      pure ((k, v) :: rest)
    else pure []

/-! ### What the merge iterator yields -/

/-- What the iterator has still to yield: the cache's items over the parent's entries, merged in
its order, without the deletes. -/
def yields (iter : MergeIterator κ ν) : List (κ × Option ν) :=
  (Assoc.union (Precedes iter.ascending) iter.cache.order
    (iter.parent.map fun e => (e.1, some e.2))).filter fun e => e.2.isSome

/-- Dropping a delete of the cache that comes before the parent's entry yields the same. -/
theorem yields_next_of_delete {iter : MergeIterator κ ν} {key : κ}
    (h : iter.cache.current = some (key, none))
    (before : ∀ e ∈ iter.parent.head?, Precedes iter.ascending key e.1) :
    yields { iter with cache := iter.cache.next } = yields iter := by
  unfold yields
  rw [MemIterator.order_of_current h]
  cases hp : iter.parent with
  | nil => simp
  | cons e rest =>
    rw [hp] at before
    rw [List.map_cons, Assoc.union_of_lt (before e rfl)]
    simp

/-- Dropping a delete of the cache together with the parent's entry of the same key yields the
same. -/
theorem yields_next_of_tie {iter : MergeIterator κ ν} {key : κ} {value : ν}
    {rest : List (κ × ν)} (h : iter.cache.current = some (key, none))
    (hp : iter.parent = (key, value) :: rest) :
    yields { iter with parent := rest, cache := iter.cache.next } = yields iter := by
  have nlt : ¬Precedes iter.ascending key key := irrefl_of _ key
  unfold yields
  rw [MemIterator.order_of_current h, hp, List.map_cons, Assoc.union_of_tie nlt nlt]
  simp

/-- Skipping the cache's deletes up to the parent's key yields the same. -/
theorem yields_skipCacheDeletes {iter : MergeIterator κ ν} {until_ : Option κ}
    (limit : ∀ e ∈ iter.parent.head?, until_ = some e.1) :
    yields (iter.skipCacheDeletes until_) = yields iter := by
  fun_induction skipCacheDeletes iter until_ with
  | case1 iter key h before ih =>
    rw [ih limit]
    refine yields_next_of_delete h fun e he => ?_
    rw [limit e he] at before
    simpa [compareKeys_eq_lt] using before
  | case2 iter key h before => rfl
  | case3 iter notDelete => rfl

/-- Skipping all the cache's deletes leaves it done or on a value. -/
theorem skipCacheDeletes_none_current (iter : MergeIterator κ ν) :
    (iter.skipCacheDeletes none).cache.current = none ∨
      ∃ key value, (iter.skipCacheDeletes none).cache.current = some (key, some value) := by
  fun_induction skipCacheDeletes iter none with
  | case1 iter key h before ih => exact ih
  | case2 iter key h before => simp at before
  | case3 iter notDelete =>
    match h : iter.cache.current with
    | none => exact .inl rfl
    | some (key, some value) => exact .inr ⟨key, value, rfl⟩
    | some (key, none) => exact absurd h (notDelete key)

/-! ### One round of `skipUntilExistsOrInvalid` -/

section Skip

variable {iter : MergeIterator κ ν}

theorem skip_of_parent_nil (hp : iter.parent = []) :
    iter.skipUntilExistsOrInvalid =
      (iter.skipCacheDeletes none, (iter.skipCacheDeletes none).cache.valid) := by
  rw [skipUntilExistsOrInvalid]
  split
  · rfl
  · next heq => simp [hp] at heq

theorem skip_of_cache_done {e : κ × ν} {rest : List (κ × ν)} (hp : iter.parent = e :: rest)
    (hc : iter.cache.current = none) : iter.skipUntilExistsOrInvalid = (iter, true) := by
  rw [skipUntilExistsOrInvalid]
  split
  · next heq => simp [hp] at heq
  · split
    · rfl
    · next heq' => simp [hc] at heq'

/-- Both iterators valid: stop unless the cache's item is a delete, which is skipped with the
parent's entry of its key, or with the cache's other deletes before the parent's key. -/
theorem skip_of_both {keyP keyC : κ} {valueP : ν} {valueC : Option ν} {rest : List (κ × ν)}
    (hp : iter.parent = (keyP, valueP) :: rest) (hc : iter.cache.current = some (keyC, valueC)) :
    iter.skipUntilExistsOrInvalid =
      match compareKeys iter.ascending keyP keyC, valueC with
      | .eq, none =>
        skipUntilExistsOrInvalid { iter with parent := rest, cache := iter.cache.next }
      | .gt, none => (iter.skipCacheDeletes (some keyP)).skipUntilExistsOrInvalid
      | _, _ => (iter, true) := by
  rw [skipUntilExistsOrInvalid]
  split
  · next heq => simp [hp] at heq
  · next k v r heq =>
    rw [hp, List.cons.injEq, Prod.mk.injEq] at heq
    obtain ⟨⟨rfl, rfl⟩, rfl⟩ := heq
    split
    · next heq => simp [hc] at heq
    · next k' v' heq =>
      rw [hc, Option.some.injEq, Prod.mk.injEq] at heq
      obtain ⟨rfl, rfl⟩ := heq
      split
      · next lt => rw [lt]
      · next tie => cases valueC <;> simp [tie]
      · next gt => cases valueC <;> simp [gt]

theorem skipCacheDeletes_of_value {until_ : Option κ} {key : κ} {value : ν}
    (hc : iter.cache.current = some (key, some value)) : iter.skipCacheDeletes until_ = iter := by
  rw [skipCacheDeletes]
  split
  · next k h => simp [hc] at h
  · rfl

/-- The iterator stands on an entry that exists: the parent's, which comes first or is alone,
or the cache's, which is not a delete. -/
def Settled (iter : MergeIterator κ ν) : Prop :=
  match iter.parent, iter.cache.current with
  | [], some (_, valueC) => valueC.isSome
  | [], none => False
  | _ :: _, none => True
  | (keyP, _) :: _, some (keyC, valueC) =>
    compareKeys iter.ascending keyP keyC = .lt ∨ valueC.isSome

/-- On an entry that exists, `skipUntilExistsOrInvalid` stays and says valid. -/
theorem skip_of_settled (h : Settled iter) : iter.skipUntilExistsOrInvalid = (iter, true) := by
  unfold Settled at h
  cases hp : iter.parent with
  | nil =>
    rw [hp] at h
    cases hc : iter.cache.current with
    | none => simp [hc] at h
    | some item =>
      obtain ⟨keyC, valueC⟩ := item
      cases valueC with
      | none => simp [hc] at h
      | some value =>
        rw [skip_of_parent_nil hp, skipCacheDeletes_of_value hc, MemIterator.valid_eq,
          MemIterator.order_of_current hc]
        rfl
  | cons e rest =>
    obtain ⟨keyP, valueP⟩ := e
    cases hc : iter.cache.current with
    | none => exact skip_of_cache_done hp hc
    | some item =>
      obtain ⟨keyC, valueC⟩ := item
      rw [hp, hc] at h
      rw [skip_of_both hp hc]
      rcases h with lt | found
      · rw [lt]
      · cases valueC with
        | none => simp at found
        | some value => cases compareKeys iter.ascending keyP keyC <;> rfl

/-- What a round of skipping keeps and gives: the same entries still to yield, no more items,
the same direction; and an entry that exists under the iterator, or nothing left. -/
structure Skipped (iter iter' : MergeIterator κ ν) (valid : Bool) : Prop where
  yields : iter'.yields = iter.yields
  size_le : iter'.size ≤ iter.size
  ascending : iter'.ascending = iter.ascending
  settled : valid = true → Settled iter'
  done : valid = false → iter.yields = []

/-- An iterator that stands on an existing entry has been skipped to itself. -/
theorem Skipped.stay (h : Settled iter) : Skipped iter iter true :=
  ⟨rfl, le_rfl, rfl, fun _ => h, fun invalid => absurd invalid (by decide)⟩

/-- A round that first moves to `iter₁`, with the same entries to yield, is a round from there. -/
theorem Skipped.of_step {iter₁ iter' : MergeIterator κ ν} {valid : Bool}
    (h : Skipped iter₁ iter' valid) (same : iter₁.yields = iter.yields)
    (smaller : iter₁.size ≤ iter.size) (direction : iter₁.ascending = iter.ascending) :
    Skipped iter iter' valid :=
  ⟨h.yields.trans same, h.size_le.trans smaller, h.ascending.trans direction, h.settled,
    fun invalid => same ▸ h.done invalid⟩

theorem skipped (iter : MergeIterator κ ν) :
    Skipped iter iter.skipUntilExistsOrInvalid.1 iter.skipUntilExistsOrInvalid.2 := by
  fun_induction skipUntilExistsOrInvalid iter with
  | case1 iter hp =>
    -- the parent is done: the cache's deletes are skipped, and the cache's item decides
    show Skipped iter (iter.skipCacheDeletes none) (iter.skipCacheDeletes none).cache.valid
    obtain ⟨sameParent, sameDirection, shorter⟩ := skipCacheDeletes_parent iter none
    have same : (iter.skipCacheDeletes none).yields = iter.yields :=
      yields_skipCacheDeletes (by simp [hp])
    refine ⟨same, by simp only [size, sameParent]; omega, sameDirection, fun valid => ?_,
      fun invalid => ?_⟩
    · rcases skipCacheDeletes_none_current iter with done | ⟨key, value, found⟩
      · rw [MemIterator.valid_eq, MemIterator.order_of_current_none done] at valid
        simp at valid
      · simp only [Settled, sameParent, hp, found, Option.isSome_some]
    · rw [← same, yields, sameParent, hp]
      rw [MemIterator.valid_eq, Bool.not_eq_false', List.isEmpty_iff] at invalid
      simp [invalid]
  | case2 iter keyP valueP rest hp hc => exact .stay (by simp only [Settled, hp, hc])
  | case3 iter keyP valueP rest hp keyC valueC hc lt =>
    exact .stay (by simp only [Settled, hp, hc, lt, true_or])
  | case4 iter keyP valueP rest hp keyC tie hc _ ih =>
    -- a delete shadowing the parent's entry: both are dropped
    rw [compareKeys_eq_eq] at tie
    subst tie
    refine ih.of_step (yields_next_of_tie hc hp) ?_ rfl
    have shorter := MemIterator.length_next_le iter.cache
    simp only [size, hp, List.length_cons]
    omega
  | case5 iter keyP valueP rest hp keyC tie value hc _ =>
    exact .stay (by simp only [Settled, hp, hc, Option.isSome_some, or_true])
  | case6 iter keyP valueP rest hp keyC gt hc _ ih =>
    -- deletes before the parent's key: skipped
    obtain ⟨sameParent, sameDirection, shorter⟩ := skipCacheDeletes_parent iter (some keyP)
    refine ih.of_step (yields_skipCacheDeletes (by simp [hp])) ?_ sameDirection
    simp only [size, sameParent]
    omega
  | case7 iter keyP valueP rest hp keyC gt value hc _ =>
    exact .stay (by simp only [Settled, hp, hc, Option.isSome_some, or_true])

/-- On an entry that exists, the settling `Key`, `Value` and `Next` begin with stays. -/
theorem settle_of_settled (h : Settled iter) : iter.settle = .ok iter := by
  unfold settle
  rw [skip_of_settled h, skip_of_settled h]
  rfl

theorem advance_ascending (iter : MergeIterator κ ν) : iter.advance.ascending = iter.ascending := by
  unfold advance
  split
  · rfl
  · rfl
  · split <;> rfl

/-- On an entry that exists: it is what the iterator yields first, and `Next` leaves the rest. -/
theorem settled_current (h : Settled iter) :
    ∃ key value, iter.current = some (key, some value) ∧
      iter.yields = (key, some value) :: iter.advance.yields ∧ iter.advance.size < iter.size := by
  unfold Settled at h
  cases hp : iter.parent with
  | nil =>
    rw [hp] at h
    cases hc : iter.cache.current with
    | none => simp [hc] at h
    | some item =>
      obtain ⟨keyC, valueC⟩ := item
      cases valueC with
      | none => simp [hc] at h
      | some value =>
        -- the parent is done: the cache's item
        refine ⟨keyC, value, by simp [current, hp, hc], ?_, ?_⟩
        · simp [yields, advance, hp, hc, MemIterator.order_of_current hc]
        · simp [size, advance, hp, hc, MemIterator.length_next_lt hc]
  | cons e rest =>
    obtain ⟨keyP, valueP⟩ := e
    cases hc : iter.cache.current with
    | none =>
      -- the cache is done: the parent's entry
      refine ⟨keyP, valueP, by simp [current, hp, hc], ?_, ?_⟩
      · simp [yields, advance, hp, hc, MemIterator.order_of_current_none hc]
      · simp [size, advance, hp, hc]
    | some item =>
      obtain ⟨keyC, valueC⟩ := item
      rw [hp, hc] at h
      have order := MemIterator.order_of_current hc
      cases hcmp : compareKeys iter.ascending keyP keyC with
      | lt =>
        -- the parent's key comes first
        have before := compareKeys_eq_lt.mp hcmp
        have notAfter : ¬Precedes iter.ascending keyC keyP := asymm_of _ before
        refine ⟨keyP, valueP, by simp [current, hp, hc, hcmp], ?_, ?_⟩
        · simp only [yields, advance, hp, hc, hcmp, order, List.map_cons,
            Assoc.union_of_gt notAfter before]
          simp
        · simp [size, advance, hp, hc, hcmp]
      | eq =>
        -- a tie: the cache's value, over the parent's
        have same := compareKeys_eq_eq.mp hcmp
        subst same
        cases valueC with
        | none => simp [hcmp] at h
        | some value =>
          have nlt : ¬Precedes iter.ascending keyP keyP := irrefl_of _ keyP
          refine ⟨keyP, value, by simp [current, hp, hc, hcmp], ?_, ?_⟩
          · simp only [yields, advance, hp, hc, hcmp, order, List.map_cons,
              Assoc.union_of_tie nlt nlt]
            simp
          · have shorter := MemIterator.length_next_le iter.cache
            simp only [size, advance, hp, hc, hcmp, List.length_cons]
            omega
      | gt =>
        -- the cache's key comes first
        have before := compareKeys_eq_gt.mp hcmp
        cases valueC with
        | none => simp [hcmp] at h
        | some value =>
          refine ⟨keyC, value, by simp [current, hp, hc, hcmp], ?_, ?_⟩
          · simp only [yields, advance, hp, hc, hcmp, order, List.map_cons,
              Assoc.union_of_lt before]
            simp
          · simp [size, advance, hp, hc, hcmp, MemIterator.length_next_lt hc]

/-- A client's loop, given more rounds than the two iterators have items, reads exactly what
the merge iterator yields. -/
theorem entries_eq_yields :
    ∀ (fuel : Nat) (iter : MergeIterator κ ν), iter.size < fuel → iter.entries fuel = .ok iter.yields
  | 0, _, enough => absurd enough (Nat.not_lt_zero _)
  | fuel + 1, iter, enough => by
    have round := skipped iter
    unfold entries valid
    generalize iter.skipUntilExistsOrInvalid = result at round
    obtain ⟨iter', valid⟩ := result
    dsimp only at round
    cases valid with
    | false =>
      -- nothing exists any more
      rw [round.done rfl]
      rfl
    | true =>
      -- one entry read, the rest by the loop's next rounds
      have settled := round.settled rfl
      obtain ⟨k, v, found, first, shorter⟩ := settled_current settled
      have smaller : iter'.advance.size < fuel := by
        have := round.size_le
        omega
      rw [← round.yields, first]
      simp [key, value, next, settle_of_settled settled, found, Fallible.bind_eq_ok,
        entries_eq_yields fuel iter'.advance smaller]

end Skip

end MergeIterator

end CacheKV
