import Pocc.Lib.CacheKV

/-!
# A cache store is a map overlay

store/cachekv/store.go seen by its client. A client calls `Get`, `Has`, `Set` and `Delete` on a
cache store over a parent, and may then `Write`. What the calls mean is a plain map `M`: the
parent's contents updated by the sets and deletes so far, in order. `cacheKV_overlay`: every
reply is the reply `M` gives, the parent's contents stay as they were until `Write`, and after
`Write` the cache is empty and the parent holds `M`. The parent may itself be a cache store,
at any depth, as long as it was built from a plain store by the same calls (`Built`), the way
cachemulti, `runTx` and `CacheContext` wrap their stores.

The calls are run against a stack by turning them into a store program (`program`), so that the
results of `Pocc/Lib/CacheKV` about programs apply to them.
-/

namespace CacheKV

variable {κ ν τ σ π : Type}

/-- A call of the `KVStore` interface. -/
inductive Op (κ ν : Type) where
  | get (key : κ)
  | has (key : κ)
  | set (key : κ) (value : ν)
  | delete (key : κ)
  deriving DecidableEq, Repr

/-- What a call returns: the value of `Get` (nil for an absent key), the answer of `Has`,
nothing for a write. -/
inductive Reply (ν : Type) where
  | value (v : Option ν)
  | present (found : Bool)
  | done
  deriving DecidableEq, Repr

/-- One call against a store with the operations `ops`; `Has` is a `Get` compared with nil. -/
def call (ops : StoreOps τ κ ν) (s : τ) : Op κ ν → Reply ν × τ
  | .get k => (.value (ops.get s k).1, (ops.get s k).2)
  | .has k => (.present (ops.get s k).1.isSome, (ops.get s k).2)
  | .set k v => (.done, ops.set s k v)
  | .delete k => (.done, ops.delete s k)

/-- A sequence of calls: the replies in order, and the store after the last. -/
def callAll (ops : StoreOps τ κ ν) (s : τ) : List (Op κ ν) → List (Reply ν) × τ
  | [] => ([], s)
  | op :: rest =>
    ((call ops s op).1 :: (callAll ops (call ops s op).2 rest).1,
      (callAll ops (call ops s op).2 rest).2)

/-! ## Calls as a store program -/

/-- The program of one call. -/
def Op.prog : Op κ ν → StoreProg κ ν σ π (Reply ν)
  | .get k => .get k fun v => .pure (.value v)
  | .has k => .get k fun v => .pure (.present v.isSome)
  | .set k v => .set k v (.pure .done)
  | .delete k => .delete k (.pure .done)

/-- The program of a sequence of calls, returning the replies. -/
def program : List (Op κ ν) → StoreProg κ ν σ π (List (Reply ν))
  | [] => .pure []
  | op :: rest =>
    StoreProg.bind op.prog fun r => StoreProg.bind (program rest) fun rs => .pure (r :: rs)

theorem run_prog (ops : StoreOps τ κ ν) (op : Op κ ν) (s : τ) (c : σ) :
    StoreProg.run ops (op.prog : StoreProg κ ν σ π (Reply ν)) s c =
      (.ok (call ops s op).1, (call ops s op).2, c) := by
  cases op <;> rfl

/-- Running the program of the calls is making the calls, against any store. -/
theorem run_program (ops : StoreOps τ κ ν) :
    ∀ (l : List (Op κ ν)) (s : τ) (c : σ),
      StoreProg.run ops (program l : StoreProg κ ν σ π (List (Reply ν))) s c =
        (.ok (callAll ops s l).1, (callAll ops s l).2, c)
  | [], _, _ => rfl
  | op :: rest, s, c => by
    rw [program, StoreProg.run_bind, run_prog]
    simp only [StoreProg.andThen]
    rw [StoreProg.run_bind, run_program ops rest]
    rfl

/-! ## Stacks built by the calls -/

open Stack

variable [LinearOrder κ]

/-- The stacks a client builds from a plain store: cache-wrapping, calls on the top store,
`Write` of the top cache, and dropping it. -/
inductive Built : Stack κ ν → Prop
  | base (m : SortedMap κ ν) : Built (.base m)
  | push {s : Stack κ ν} : Built s → Built (push s)
  | call {s : Stack κ ν} (op : Op κ ν) : Built s → Built (call Stack.ops s op).2
  | write {s : Stack κ ν} : Built s → Built (write s)
  | pop {s : Stack κ ν} : Built s → Built (pop s)

theorem coherent_call {s : Stack κ ν} (h : Coherent s) (op : Op κ ν) :
    Coherent (call Stack.ops s op).2 := by
  cases op with
  | get k => exact (get_view h k).2.2
  | has k => exact (get_view h k).2.2
  | set k v => exact coherent_set h k v
  | delete k => exact coherent_delete h k

theorem coherent_write {s : Stack κ ν} (h : Coherent s) : Coherent (write s) := by
  cases s with
  | base m => trivial
  | cache c p =>
    -- the layer left behind is empty, so it has no clean entry to check
    exact ⟨coherent_foldl_writeEntry (dirtyEntries c) h.1, fun k e he => by simp at he⟩

/-- Every stack a client builds keeps each clean entry equal to what the layers below show. -/
theorem Built.coherent {s : Stack κ ν} (h : Built s) : Coherent s := by
  induction h with
  | base m => trivial
  | push _ ih => exact coherent_push ih
  | call op _ ih => exact coherent_call ih op
  | write _ ih => exact coherent_write ih
  | pop _ ih => exact coherent_pop ih

/-- A sequence of calls on a cache layer leaves a cache layer. -/
theorem callAll_cache (c : SortedMap κ (Entry ν)) (p : Stack κ ν) (l : List (Op κ ν)) :
    ∃ c' p', (callAll Stack.ops (cache c p) l).2 = cache c' p' := by
  induction l generalizing c p with
  | nil => exact ⟨c, p, rfl⟩
  | cons op rest ih =>
    cases op with
    | get k | has k =>
      simp only [callAll, call]
      cases hc : c.find? k with
      | some e =>
        simp only [Stack.ops, get_cache_of_hit p hc]
        exact ih c p
      | none =>
        simp only [Stack.ops, get_cache_of_miss p hc]
        exact ih _ _
    | set k v => exact ih _ _
    | delete k => exact ih _ _

/-- The cache store over any stack the client built is the map overlay: the replies are those
of the plain map `M` of the parent's contents under the same calls; the parent's contents are
unchanged until `Write`; after `Write` the cache is empty and the parent holds `M`. -/
theorem cacheKV_overlay {s : Stack κ ν} (built : Built s) (l : List (Op κ ν)) :
    (callAll Stack.ops (push s) l).1 = (callAll mapOps (view s) l).1 ∧
      view (pop (callAll Stack.ops (push s) l).2) = view s ∧
      ∃ parent, write (callAll Stack.ops (push s) l).2 = cache SortedMap.empty parent ∧
        view parent = (callAll mapOps (view s) l).2 := by
  have coherent := built.coherent
  -- the calls as a program run against the pushed layer and against the plain map
  have hrun := run_view (program l : StoreProg κ ν Unit Empty _) (coherent_push coherent) ()
  have hpop := (view_pop_run_push (program l : StoreProg κ ν Unit Empty _) coherent ()).1
  have hwrite := view_pop_write_run_push (program l : StoreProg κ ν Unit Empty _) coherent ()
  rw [view_push, run_program, run_program] at hrun
  rw [run_program] at hpop
  rw [run_program, run_program] at hwrite
  obtain ⟨c', p', hcache⟩ := callAll_cache SortedMap.empty s l
  change (callAll Stack.ops (push s) l).2 = cache c' p' at hcache
  refine ⟨?_, hpop, pop (write (callAll Stack.ops (push s) l).2), ?_, hwrite⟩
  · have replies := congrArg Prod.fst hrun
    simp only [Except.ok.injEq] at replies
    exact replies.symm
  · rw [hcache]
    rfl

theorem cacheKV_overlay_nested :
    Built (push (.base (SortedMap.empty : SortedMap Nat Nat))) ∧
      (callAll Stack.ops (push (push (.base .empty))) [.set 1 7, .get 1, .delete 1, .has 1]).1 =
        (callAll mapOps (view (push (.base .empty))) [.set 1 7, .get 1, .delete 1, .has 1]).1 ∧
      view (pop (callAll Stack.ops (push (push (.base .empty)))
        [.set 1 7, .get 1, .delete 1, .has 1]).2) = view (push (.base .empty)) ∧
      ∃ parent, write (callAll Stack.ops (push (push (.base .empty)))
          [.set 1 7, .get 1, .delete 1, .has 1]).2 = cache SortedMap.empty parent ∧
        view parent = (callAll mapOps (view (push (.base (SortedMap.empty : SortedMap Nat Nat))))
          [.set 1 7, .get 1, .delete 1, .has 1]).2 :=
  ⟨.push (.base _), cacheKV_overlay (.push (.base _)) _⟩

end CacheKV
