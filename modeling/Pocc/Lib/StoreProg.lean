import Mathlib

/-!
# Programs against a key-value store

A program that reads, writes and deletes the keys of a store, reads and replaces a context
value, and may stop with a panic. Its meaning is given against any store that offers the three
operations (`StoreOps`), so that one program can be run against a plain map and against an
implementation of it, and the two runs compared.

A run always returns the store and the context it ends with, also when the program panics: a
panic unwinds the program, not the writes it already made.

Results:
* `run_bind`: a run of `p >>= f` is a run of `p` followed by a run of `f`;
* `run_simulation`: an abstraction of the store that commutes with each operation, under an
  invariant the operations keep, commutes with every run;
* `run_preserves`: a property of the store that each operation keeps holds after every run.
-/

/-- A program against a store with keys `κ` and values `ν`, a context `σ` and panics `π`. -/
inductive StoreProg (κ ν σ π α : Type) where
  | pure (a : α)
  | get (k : κ) (cont : Option ν → StoreProg κ ν σ π α)
  | set (k : κ) (v : ν) (next : StoreProg κ ν σ π α)
  | delete (k : κ) (next : StoreProg κ ν σ π α)
  | getCtx (cont : σ → StoreProg κ ν σ π α)
  | setCtx (c : σ) (next : StoreProg κ ν σ π α)
  | panic (p : π)

/-- The three operations of a store `τ`: a read returns the value and the store after it (a
cache may remember what it read). -/
structure StoreOps (τ κ ν : Type) where
  get : τ → κ → Option ν × τ
  set : τ → κ → ν → τ
  delete : τ → κ → τ

namespace StoreProg

variable {κ ν σ π α β τ τ' : Type}

/-- Run `p`, then the program that `f` makes of its value. -/
def bind : StoreProg κ ν σ π α → (α → StoreProg κ ν σ π β) → StoreProg κ ν σ π β
  | pure a, f => f a
  | get k cont, f => get k fun v => bind (cont v) f
  | set k v next, f => set k v (bind next f)
  | delete k next, f => delete k (bind next f)
  | getCtx cont, f => getCtx fun c => bind (cont c) f
  | setCtx c next, f => setCtx c (bind next f)
  | panic p, _ => panic p

instance : Monad (StoreProg κ ν σ π) where
  pure := pure
  bind := bind

/-- Read `k`. -/
def read (k : κ) : StoreProg κ ν σ π (Option ν) := get k pure

/-- Write `v` at `k`. -/
def write (k : κ) (v : ν) : StoreProg κ ν σ π Unit := set k v (pure ())

/-- Delete `k`. -/
def remove (k : κ) : StoreProg κ ν σ π Unit := delete k (pure ())

/-- Read the context. -/
def readCtx : StoreProg κ ν σ π σ := getCtx pure

/-- Replace the context. -/
def writeCtx (c : σ) : StoreProg κ ν σ π Unit := setCtx c (pure ())

/-- Run a program against a store: its value or its panic, and the store and context it ends
with. -/
def run (ops : StoreOps τ κ ν) : StoreProg κ ν σ π α → τ → σ → Except π α × τ × σ
  | pure a, s, c => (.ok a, s, c)
  | get k cont, s, c => run ops (cont (ops.get s k).1) (ops.get s k).2 c
  | set k v next, s, c => run ops next (ops.set s k v) c
  | delete k next, s, c => run ops next (ops.delete s k) c
  | getCtx cont, s, c => run ops (cont c) s c
  | setCtx c' next, s, _ => run ops next s c'
  | panic p, s, c => (.error p, s, c)

@[simp] theorem pure_eq (a : α) : (Pure.pure a : StoreProg κ ν σ π α) = pure a := rfl

@[simp] theorem bind_eq (p : StoreProg κ ν σ π α) (f : α → StoreProg κ ν σ π β) :
    p >>= f = bind p f := rfl

/-- Continue a finished run: with `f` of its value, or not at all after a panic. -/
def andThen (ops : StoreOps τ κ ν) (f : α → StoreProg κ ν σ π β) :
    Except π α × τ × σ → Except π β × τ × σ
  | (.ok a, s, c) => run ops (f a) s c
  | (.error p, s, c) => (.error p, s, c)

theorem run_bind (ops : StoreOps τ κ ν) (p : StoreProg κ ν σ π α) (f : α → StoreProg κ ν σ π β)
    (s : τ) (c : σ) : run ops (bind p f) s c = andThen ops f (run ops p s c) := by
  induction p generalizing s c with
  | pure a => rfl
  | get k cont ih => exact ih _ _ _
  | set k v next ih => exact ih _ _
  | delete k next ih => exact ih _ _
  | getCtx cont ih => exact ih _ _ _
  | setCtx c' next ih => exact ih _ _
  | panic p => rfl

section Simulation

variable (ops : StoreOps τ κ ν) (ops' : StoreOps τ' κ ν)

/-- `abs` maps the stores of `ops` to those of `ops'` so that each operation commutes with it,
on the stores that satisfy `inv`, and `inv` is kept. -/
structure Simulation (abs : τ → τ') (inv : τ → Prop) : Prop where
  get : ∀ s k, inv s →
    ops'.get (abs s) k = ((ops.get s k).1, abs (ops.get s k).2) ∧ inv (ops.get s k).2
  set : ∀ s k v, inv s → abs (ops.set s k v) = ops'.set (abs s) k v ∧ inv (ops.set s k v)
  delete : ∀ s k, inv s → abs (ops.delete s k) = ops'.delete (abs s) k ∧ inv (ops.delete s k)

variable {ops ops'}

/-- A run against the implementation, seen through the abstraction, is the run against the
abstract store; and the invariant holds after it. -/
theorem run_simulation {abs : τ → τ'} {inv : τ → Prop} (sim : Simulation ops ops' abs inv) :
    ∀ (p : StoreProg κ ν σ π α) (s : τ) (c : σ), inv s →
      run ops' p (abs s) c = ((run ops p s c).1, abs (run ops p s c).2.1, (run ops p s c).2.2) ∧
        inv (run ops p s c).2.1
  | pure a, s, c, _ => ⟨rfl, ‹_›⟩
  | get k cont, s, c, hs => by
    obtain ⟨hget, hinv⟩ := sim.get s k hs
    simp only [run, hget]
    exact run_simulation sim _ _ c hinv
  | set k v next, s, c, hs => by
    obtain ⟨hset, hinv⟩ := sim.set s k v hs
    simp only [run, ← hset]
    exact run_simulation sim next _ c hinv
  | delete k next, s, c, hs => by
    obtain ⟨hdel, hinv⟩ := sim.delete s k hs
    simp only [run, ← hdel]
    exact run_simulation sim next _ c hinv
  | getCtx cont, s, c, hs => run_simulation sim (cont c) s c hs
  | setCtx c' next, s, _, hs => run_simulation sim next s c' hs
  | panic p, s, c, hs => ⟨rfl, hs⟩

end Simulation

/-- A property of the store that every operation keeps holds after every run. -/
theorem run_preserves (ops : StoreOps τ κ ν) (P : τ → Prop)
    (hget : ∀ s k, P s → P (ops.get s k).2) (hset : ∀ s k v, P s → P (ops.set s k v))
    (hdel : ∀ s k, P s → P (ops.delete s k)) :
    ∀ (p : StoreProg κ ν σ π α) (s : τ) (c : σ), P s → P (run ops p s c).2.1
  | pure _, _, _, hs => hs
  | get k cont, s, c, hs => run_preserves ops P hget hset hdel (cont _) _ c (hget s k hs)
  | set k v next, s, c, hs => run_preserves ops P hget hset hdel next _ c (hset s k v hs)
  | delete k next, s, c, hs => run_preserves ops P hget hset hdel next _ c (hdel s k hs)
  | getCtx cont, s, c, hs => run_preserves ops P hget hset hdel (cont c) s c hs
  | setCtx c' next, s, _, hs => run_preserves ops P hget hset hdel next s c' hs
  | panic _, _, _, hs => hs

end StoreProg
