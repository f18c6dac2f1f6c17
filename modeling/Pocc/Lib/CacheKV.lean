import Pocc.Lib.SortedMap
import Pocc.Lib.StoreProg

/-!
# Cache-wrapped key-value stores

A key-value store under a stack of write-back caches. A cache layer records, per key, the
value it last read or was given, whether the key was deleted, and whether the entry is dirty
(given in this layer and not yet written back). A read that misses a layer goes to the layer
below and is remembered there, clean; `write` replays the dirty entries of the top layer, in
ascending key order, into the layer below, and empties the top layer.

What a reader of the stack sees is its `view`: the layers' dirty entries replayed over the
base. The results:
* `get_view`, `view_set`, `view_delete`: each operation on the stack is the same operation on
  its view, as long as every clean entry agrees with the layers below (`Coherent`), which each
  operation keeps;
* `simulation`: hence every program run against the stack is the same program run against the
  plain map of its view (`run_view`);
* `view_pop_write`: writing the top layer back and dropping it leaves the view as it was;
* `view_pop_run_push`: dropping a pushed layer without writing it leaves the view below as it
  was before the layer was pushed, whatever program ran on the layer.
-/

namespace CacheKV

variable {κ ν : Type} [LinearOrder κ]

/-- A cached entry: its value (`none` if the key is absent), whether it was deleted, and
whether it is dirty. An entry is deleted exactly when it is dirty and has no value. -/
structure Entry (ν : Type) where
  value : Option ν
  deleted : Bool
  dirty : Bool
  deleted_iff : deleted = true ↔ dirty = true ∧ value = none

namespace Entry

/-- The entry a read leaves: the value found below, not dirty. -/
def clean (v : Option ν) : Entry ν := ⟨v, false, false, by simp⟩

/-- The entry a write leaves. -/
def written (v : ν) : Entry ν := ⟨some v, false, true, by simp⟩

/-- The entry a delete leaves. -/
def removed : Entry ν := ⟨none, true, true, by simp⟩

/-- What writing the entry of `k` back does to a plain map. -/
def applyTo (e : Entry ν) (m : SortedMap κ ν) (k : κ) : SortedMap κ ν :=
  if e.deleted then m.erase k
  else match e.value with
    | none => m
    | some v => m.insert k v

theorem find?_applyTo_of_dirty {e : Entry ν} (h : e.dirty = true) (m : SortedMap κ ν)
    (k k' : κ) : (e.applyTo m k).find? k' = if k = k' then e.value else m.find? k' := by
  obtain ⟨value, deleted, dirty, hdel⟩ := e
  simp only at h
  subst h
  unfold applyTo
  cases deleted with
  | true =>
    -- a deleted entry has no value
    have hv : value = none := (hdel.mp rfl).2
    simp [hv]
  | false =>
    cases value with
    | none => simp at hdel
    | some v => simp

end Entry

/-- A base store under a stack of cache layers. -/
inductive Stack (κ ν : Type) [LinearOrder κ] where
  | base (store : SortedMap κ ν)
  | cache (layer : SortedMap κ (Entry ν)) (parent : Stack κ ν)

namespace Stack

/-- Read `k`: from the top layer if it has an entry, else from below, remembering the value. -/
def get : Stack κ ν → κ → Option ν × Stack κ ν
  | base m, k => (m.find? k, base m)
  | cache c p, k =>
    match c.find? k with
    | some e => (e.value, cache c p)
    | none =>
      let (v, p') := get p k
      (v, cache (c.insert k (.clean v)) p')

/-- Write `v` at `k` in the top layer. -/
def set : Stack κ ν → κ → ν → Stack κ ν
  | base m, k, v => base (m.insert k v)
  | cache c p, k, v => cache (c.insert k (.written v)) p

/-- Delete `k` in the top layer. -/
def delete : Stack κ ν → κ → Stack κ ν
  | base m, k => base (m.erase k)
  | cache c p, k => cache (c.insert k .removed) p

/-- Write one dirty entry back: delete, set, or skip an entry whose key is already absent. -/
def writeEntry (s : Stack κ ν) (k : κ) (e : Entry ν) : Stack κ ν :=
  if e.deleted then s.delete k
  else match e.value with
    | none => s
    | some v => s.set k v

/-- The dirty entries of a layer, in ascending key order. -/
def dirtyEntries (c : SortedMap κ (Entry ν)) : List (κ × Entry ν) :=
  c.entries.filter fun e => e.2.dirty

/-- Write the top layer back into the layer below and empty it. -/
def write : Stack κ ν → Stack κ ν
  | base m => base m
  | cache c p => cache SortedMap.empty ((dirtyEntries c).foldl (fun s e => s.writeEntry e.1 e.2) p)

/-- Wrap the stack in a new, empty cache layer. -/
def push (s : Stack κ ν) : Stack κ ν := cache SortedMap.empty s

/-- Drop the top cache layer. -/
def pop : Stack κ ν → Stack κ ν
  | base m => base m
  | cache _ p => p

/-- What a reader of the stack sees: the dirty entries of each layer over the layer below. -/
def view : Stack κ ν → SortedMap κ ν
  | base m => m
  | cache c p => (dirtyEntries c).foldl (fun m e => e.2.applyTo m e.1) (view p)

/-- Every clean entry of every layer holds what the layers below it show. -/
def Coherent : Stack κ ν → Prop
  | base _ => True
  | cache c p => Coherent p ∧ ∀ k e, c.find? k = some e → e.dirty = false → e.value = (view p).find? k

/-! ## The view of a layer, key by key -/

/-- Replaying the dirty entries of an ascending list: a key with a dirty entry shows its value,
any other key what the map showed. -/
theorem find?_foldl_applyTo (k : κ) :
    ∀ (l : List (κ × Entry ν)) (m : SortedMap κ ν), SortedMap.Ascending l →
      ((l.filter fun e => e.2.dirty).foldl (fun m e => e.2.applyTo m e.1) m).find? k =
        match SortedMap.lookupEntry k l with
        | some e => if e.dirty then e.value else m.find? k
        | none => m.find? k
  | [], m, _ => rfl
  | d :: rest, m, hasc => by
    unfold SortedMap.Ascending at hasc
    rw [List.pairwise_cons] at hasc
    have ih := find?_foldl_applyTo k rest
    cases hdirty : d.2.dirty with
    | true =>
      simp only [List.filter_cons, hdirty, if_true, List.foldl_cons]
      rw [ih _ hasc.2, Entry.find?_applyTo_of_dirty hdirty]
      by_cases hk : d.1 = k
      · -- the head is the entry of `k`; the rest has greater keys only
        subst hk
        rw [SortedMap.lookupEntry_eq_none_of_lt hasc.1]
        simp [SortedMap.lookupEntry, hdirty]
      · simp [SortedMap.lookupEntry, hk]
    | false =>
      simp only [List.filter_cons, hdirty, Bool.false_eq_true, if_false]
      rw [ih m hasc.2]
      by_cases hk : d.1 = k
      · subst hk
        rw [SortedMap.lookupEntry_eq_none_of_lt hasc.1]
        simp [SortedMap.lookupEntry, hdirty]
      · simp [SortedMap.lookupEntry, hk]

theorem find?_view_cache (c : SortedMap κ (Entry ν)) (p : Stack κ ν) (k : κ) :
    (view (cache c p)).find? k =
      match c.find? k with
      | some e => if e.dirty then e.value else (view p).find? k
      | none => (view p).find? k :=
  find?_foldl_applyTo k c.entries (view p) c.ascending

/-- In a coherent stack the top layer's entry of a key, dirty or clean, is what the view shows. -/
theorem find?_view_cache_of_coherent {c : SortedMap κ (Entry ν)} {p : Stack κ ν}
    (h : Coherent (cache c p)) (k : κ) :
    (view (cache c p)).find? k =
      match c.find? k with
      | some e => e.value
      | none => (view p).find? k := by
  rw [find?_view_cache]
  cases hc : c.find? k with
  | none => rfl
  | some e =>
    dsimp only
    cases hd : e.dirty with
    | true => rfl
    | false => exact (h.2 k e hc hd).symm

@[simp] theorem view_push (s : Stack κ ν) : view (push s) = view s := rfl

@[simp] theorem pop_push (s : Stack κ ν) : pop (push s) = s := rfl

theorem coherent_push {s : Stack κ ν} (h : Coherent s) : Coherent (push s) :=
  ⟨h, fun k e he => by simp at he⟩

/-! ## Each operation on the stack is the operation on its view -/

theorem view_set (s : Stack κ ν) (k : κ) (v : ν) : view (s.set k v) = (view s).insert k v := by
  cases s with
  | base m => rfl
  | cache c p =>
    ext k'
    rw [set, find?_view_cache, SortedMap.find?_insert, SortedMap.find?_insert, find?_view_cache]
    by_cases hk : k = k' <;> simp [hk, Entry.written]

theorem view_delete (s : Stack κ ν) (k : κ) : view (s.delete k) = (view s).erase k := by
  cases s with
  | base m => rfl
  | cache c p =>
    ext k'
    rw [delete, find?_view_cache, SortedMap.find?_insert, SortedMap.find?_erase, find?_view_cache]
    by_cases hk : k = k' <;> simp [hk, Entry.removed]

theorem coherent_set {s : Stack κ ν} (h : Coherent s) (k : κ) (v : ν) : Coherent (s.set k v) := by
  cases s with
  | base m => trivial
  | cache c p =>
    refine ⟨h.1, fun k' e he hclean => ?_⟩
    rw [SortedMap.find?_insert] at he
    split at he
    · cases he
      simp [Entry.written] at hclean
    · exact h.2 k' e he hclean

theorem coherent_delete {s : Stack κ ν} (h : Coherent s) (k : κ) : Coherent (s.delete k) := by
  cases s with
  | base m => trivial
  | cache c p =>
    refine ⟨h.1, fun k' e he hclean => ?_⟩
    rw [SortedMap.find?_insert] at he
    split at he
    · cases he
      simp [Entry.removed] at hclean
    · exact h.2 k' e he hclean

theorem get_cache_of_hit {c : SortedMap κ (Entry ν)} {k : κ} {e : Entry ν} (p : Stack κ ν)
    (hc : c.find? k = some e) : (cache c p).get k = (e.value, cache c p) := by
  simp only [get, hc]

theorem get_cache_of_miss {c : SortedMap κ (Entry ν)} {k : κ} (p : Stack κ ν)
    (hc : c.find? k = none) :
    (cache c p).get k = ((p.get k).1, cache (c.insert k (.clean (p.get k).1)) (p.get k).2) := by
  simp only [get, hc]

/-- A read returns what the view shows, and leaves the view and the coherence as they were. -/
theorem get_view : ∀ {s : Stack κ ν}, Coherent s → ∀ k : κ,
    (s.get k).1 = (view s).find? k ∧ view (s.get k).2 = view s ∧ Coherent (s.get k).2
  | base m, _, k => ⟨rfl, rfl, trivial⟩
  | cache c p, h, k => by
    cases hc : c.find? k with
    | some e =>
      rw [get_cache_of_hit p hc]
      exact ⟨by rw [find?_view_cache_of_coherent h, hc], rfl, h⟩
    | none =>
      -- a miss reads the layer below and remembers the value there, clean
      obtain ⟨hv, hview, hcoh⟩ := get_view h.1 k
      rw [get_cache_of_miss p hc]
      have hview' : ∀ k', (view (cache (c.insert k (.clean (p.get k).1)) (p.get k).2)).find? k' =
          (view (cache c p)).find? k' := by
        intro k'
        rw [find?_view_cache, find?_view_cache, SortedMap.find?_insert, hview]
        by_cases hk : k = k'
        · subst hk
          simp [hc, Entry.clean]
        · simp [hk]
      refine ⟨by rw [find?_view_cache_of_coherent h, hc, hv], SortedMap.ext hview', hcoh, ?_⟩
      intro k' e he hclean
      rw [SortedMap.find?_insert] at he
      split at he
      · next hk =>
        cases he
        rw [hview, ← hk, ← hv]
        rfl
      · rw [hview]
        exact h.2 k' e he hclean

/-! ## Writing back and dropping layers -/

theorem view_writeEntry (s : Stack κ ν) (k : κ) (e : Entry ν) :
    view (s.writeEntry k e) = e.applyTo (view s) k := by
  unfold writeEntry Entry.applyTo
  split
  · exact view_delete s k
  · split
    · rfl
    · exact view_set s k _

theorem coherent_writeEntry {s : Stack κ ν} (h : Coherent s) (k : κ) (e : Entry ν) :
    Coherent (s.writeEntry k e) := by
  unfold writeEntry
  split
  · exact coherent_delete h k
  · split
    · exact h
    · exact coherent_set h k _

theorem view_foldl_writeEntry :
    ∀ (l : List (κ × Entry ν)) (s : Stack κ ν),
      view (l.foldl (fun s e => s.writeEntry e.1 e.2) s) = l.foldl (fun m e => e.2.applyTo m e.1) (view s)
  | [], _ => rfl
  | e :: rest, s => by
    rw [List.foldl_cons, List.foldl_cons, view_foldl_writeEntry rest, view_writeEntry]

theorem coherent_foldl_writeEntry :
    ∀ (l : List (κ × Entry ν)) {s : Stack κ ν}, Coherent s →
      Coherent (l.foldl (fun s e => s.writeEntry e.1 e.2) s)
  | [], _, h => h
  | e :: rest, _, h => coherent_foldl_writeEntry rest (coherent_writeEntry h e.1 e.2)

/-- Writing the top layer back and dropping it leaves the view as it was. -/
theorem view_pop_write (s : Stack κ ν) : view (pop (write s)) = view s := by
  cases s with
  | base m => rfl
  | cache c p => exact view_foldl_writeEntry (dirtyEntries c) p

theorem coherent_pop_write {s : Stack κ ν} (h : Coherent s) : Coherent (pop (write s)) := by
  cases s with
  | base m => trivial
  | cache c p => exact coherent_foldl_writeEntry (dirtyEntries c) h.1

theorem coherent_pop {s : Stack κ ν} (h : Coherent s) : Coherent (pop s) := by
  cases s with
  | base m => trivial
  | cache c p => exact h.1

/-! ## Programs run against a stack -/

/-- The stack's operations. -/
def ops : StoreOps (Stack κ ν) κ ν := ⟨get, set, delete⟩

end Stack

/-- The operations of a plain map: the store a program's meaning is stated against. -/
def mapOps : StoreOps (SortedMap κ ν) κ ν := ⟨fun m k => (m.find? k, m), SortedMap.insert, SortedMap.erase⟩

open Stack

/-- The view of a coherent stack simulates the plain map. -/
theorem simulation : StoreProg.Simulation (ops : StoreOps (Stack κ ν) κ ν) mapOps view Coherent where
  get s k h := by
    obtain ⟨hv, hview, hcoh⟩ := get_view h k
    exact ⟨by simp only [mapOps, ops, hv, hview], hcoh⟩
  set s k v h := ⟨view_set s k v, coherent_set h k v⟩
  delete s k h := ⟨view_delete s k, coherent_delete h k⟩

variable {σ π α : Type}

/-- A program run against a coherent stack is, seen through the view, the same program run
against the plain map. -/
theorem run_view (p : StoreProg κ ν σ π α) {s : Stack κ ν} (h : Coherent s) (c : σ) :
    StoreProg.run mapOps p (view s) c =
      ((StoreProg.run ops p s c).1, view (StoreProg.run ops p s c).2.1,
        (StoreProg.run ops p s c).2.2) :=
  (StoreProg.run_simulation simulation p s c h).1

theorem coherent_run (p : StoreProg κ ν σ π α) {s : Stack κ ν} (h : Coherent s) (c : σ) :
    Coherent (StoreProg.run ops p s c).2.1 :=
  (StoreProg.run_simulation simulation p s c h).2

/-- Whatever a program does on a pushed layer, the layers below keep their view: a read that
misses the layer only remembers, below, what was already there. -/
theorem view_pop_run_push (p : StoreProg κ ν σ π α) {s : Stack κ ν} (h : Coherent s) (c : σ) :
    view (pop (StoreProg.run ops p (push s) c).2.1) = view s ∧
      Coherent (pop (StoreProg.run ops p (push s) c).2.1) := by
  -- the invariant: a cache layer over a coherent stack with the view of `s`
  let P : Stack κ ν → Prop := fun t => ∃ l q, t = cache l q ∧ Coherent t ∧ view q = view s
  have hP : P (StoreProg.run ops p (push s) c).2.1 := by
    refine StoreProg.run_preserves ops P ?_ ?_ ?_ p (push s) c ⟨_, s, rfl, coherent_push h, rfl⟩
    · rintro _ k ⟨l, q, rfl, hcoh, hq⟩
      change P (Stack.get (cache l q) k).2
      have hcoh' := (get_view hcoh k).2.2
      cases hl : l.find? k with
      | some e =>
        rw [get_cache_of_hit q hl] at hcoh' ⊢
        exact ⟨l, q, rfl, hcoh', hq⟩
      | none =>
        rw [get_cache_of_miss q hl] at hcoh' ⊢
        exact ⟨_, _, rfl, hcoh', (get_view hcoh.1 k).2.1.trans hq⟩
    · rintro _ k v ⟨l, q, rfl, hcoh, hq⟩
      exact ⟨_, q, rfl, coherent_set hcoh k v, hq⟩
    · rintro _ k ⟨l, q, rfl, hcoh, hq⟩
      exact ⟨_, q, rfl, coherent_delete hcoh k, hq⟩
  obtain ⟨l, q, heq, hcoh, hq⟩ := hP
  rw [heq] at hcoh ⊢
  exact ⟨hq, hcoh.1⟩

/-- A program run on a pushed layer that is then written back and dropped leaves the view the
program leaves on the plain map. -/
theorem view_pop_write_run_push (p : StoreProg κ ν σ π α) {s : Stack κ ν} (h : Coherent s)
    (c : σ) :
    view (pop (write (StoreProg.run ops p (push s) c).2.1)) =
      (StoreProg.run mapOps p (view s) c).2.1 := by
  rw [view_pop_write, ← view_push s, run_view p (coherent_push h)]

end CacheKV
