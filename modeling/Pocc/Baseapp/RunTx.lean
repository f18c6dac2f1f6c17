import Pocc.Lib.CacheKV
import Pocc.Store.Gas
import Pocc.Types.Error

/-!
# Running a transaction

baseapp/baseapp.go: `runTx`, `runMsgs` and the two states a transaction runs against. The
base app keeps a check state and a deliver state, each a cache-wrapped multistore over the
committed one with a context. `runTx` wraps the state's multistore in a cache for the ante
handler and writes it back only if the ante handler neither aborts nor panics; it then wraps
it in a second cache for the messages and writes that back only in DeliverTx and only if every
message passes. A panic anywhere is recovered into an error result by a deferred function,
after another deferred function has charged the transaction's gas to the block.

The ante handler and the message handlers are the app's; they are parameters here, any
program against the multistore. The multistore is one store whose keys stand for a store key
and a key within it: the stores of a multistore are written independently, so the order in
which `Write` visits them does not matter.

Results:
* `deliverSpec`: the multistore contents DeliverTx leaves, said phase by phase on plain maps,
  with no cache; its message phase (`handlersSpec`) runs the handlers one after the other and
  keeps their writes only if each has a route and passes;
* `runOn_runMsgsLoop`: the loop of `runMsgs` computes that phase;
* `view_runTxBody_deliver`, `view_runTx_deliver`: `runTx` meets that specification.
-/

namespace Pocc

open CacheKV

/-- `runTxMode`. -/
inductive RunTxMode where
  | check
  | simulate
  | deliver
  deriving DecidableEq, Repr

variable {κ μ τ : Type} [LinearOrder κ]

/-- `sdk.Handler`. -/
abbrev Handler (κ μ : Type) := μ → TxProg κ Result

/-- What an `sdk.AnteHandler` returns besides its context: whether the context it returns is
the zero context, its result, and whether to abort. -/
structure AnteResult where
  newCtxIsZero : Bool
  result : Result
  abort : Bool
  deriving DecidableEq, Repr

/-- `sdk.AnteHandler`, given whether its context is a CheckTx context, the transaction, and
whether it simulates. -/
abbrev AnteHandler (κ τ : Type) := Bool → τ → Bool → TxProg κ AnteResult

/-- What `runTx` calls on a transaction and its messages: `Tx.GetMsgs`, `Msg.Route` and
`Msg.ValidateBasic`. -/
structure TxCodec (μ τ : Type) where
  getMsgs : τ → List μ
  route : μ → String
  validateBasic : μ → Option SdkError

/-- `state`: the cache-wrapped multistore, over the committed store, and the meters of the
state's context. A multistore built by the base app has only clean entries that agree with
what lies below them. -/
structure TxState (κ : Type) [LinearOrder κ] where
  ms : Stack κ Bytes
  coherent : ms.Coherent
  gasMeter : GasMeter
  blockGasMeter : GasMeter

/-- The base app: its router, its ante handler and its two states. -/
structure BaseApp (κ μ τ : Type) [LinearOrder κ] where
  router : String → Option (Handler κ μ)
  anteHandler : Option (AnteHandler κ τ)
  checkState : TxState κ
  deliverState : TxState κ

namespace BaseApp

/-- `getState`. -/
def getState (app : BaseApp κ μ τ) : RunTxMode → TxState κ
  | .deliver => app.deliverState
  | _ => app.checkState

/-- The app with the state of `mode` replaced. -/
def setState (app : BaseApp κ μ τ) : RunTxMode → TxState κ → BaseApp κ μ τ
  | .deliver, st => { app with deliverState := st }
  | _, st => { app with checkState := st }

end BaseApp

variable (codec : TxCodec μ τ)

/-- `validateBasicTxMsgs`: at least one message, and the first error of a message's
`ValidateBasic`. -/
def validateBasicTxMsgs : List μ → Option SdkError
  | [] => some (.unknownRequest "Tx.GetMsgs() must return at least one message in list")
  | msgs => msgs.findSome? codec.validateBasic

variable (router : String → Option (Handler κ μ)) (mode : RunTxMode)

/-- The loop of `runMsgs` from the message it has reached, with the data gathered so far: it
stops at the first message that has no route or does not pass. -/
def runMsgsLoop : List μ → Bytes → TxProg κ Result
  | [], data => pure { data := data }
  | msg :: rest, data =>
    match router (codec.route msg) with
    | none => pure (SdkError.unknownRequest ("unrecognized Msg type: " ++ codec.route msg)).result
    | some handler => do
      -- CheckTx does not run the handlers
      let msgResult ← if mode = .check then pure {} else handler msg
      let data := data ++ msgResult.data
      if msgResult.isOK then runMsgsLoop rest data
      else pure { code := msgResult.code, codespace := msgResult.codespace, data := data }

/-- `runMsgs`. -/
def runMsgs (msgs : List μ) : TxProg κ Result := runMsgsLoop codec router mode msgs []

/-- What `runTx` holds when its body returns or panics: the result or the panic, `gasWanted`,
the multistore of its context and the context's meters. -/
structure TxEnd (κ : Type) [LinearOrder κ] where
  outcome : Except Panic Result
  gasWanted : Nat
  ms : Stack κ Bytes
  gas : GasCtx

/-- The messages' part of `runTx`: a new cache for the messages, written back in DeliverTx if
they all pass, dropped otherwise. -/
def runMsgsPhase (msgs : List μ) (ms : Stack κ Bytes) (gas : GasCtx) (gasWanted : Nat) : TxEnd κ :=
  match StoreProg.run Stack.ops (runMsgs codec router mode msgs) ms.push gas with
  | (.error p, msCache, gas) => ⟨.error p, gasWanted, msCache.pop, gas⟩
  | (.ok result, msCache, gas) =>
    let result := { result with gasWanted := gasWanted }
    if mode = .deliver ∧ result.isOK = true then ⟨.ok result, gasWanted, msCache.write.pop, gas⟩
    else ⟨.ok result, gasWanted, msCache.pop, gas⟩

/-- The body of `runTx` after the block gas check, on the multistore and meters of its context:
the messages' basic checks, the ante handler on a cache of its own, and the messages. -/
def runTxBody (anteHandler : Option (AnteHandler κ τ)) (tx : τ) (ms : Stack κ Bytes)
    (gas : GasCtx) : TxEnd κ :=
  let msgs := codec.getMsgs tx
  match validateBasicTxMsgs codec msgs with
  | some err => ⟨.ok err.result, 0, ms, gas⟩
  | none =>
    match anteHandler with
    | none => runMsgsPhase codec router mode msgs ms gas 0
    | some ante =>
      match StoreProg.run Stack.ops (ante (mode ≠ .deliver) tx (mode = .simulate)) ms.push gas with
      -- the context of `runTx` was not replaced: its meter is the one it was given
      | (.error p, msCache, anteGas) => ⟨.error p, 0, msCache.pop, ⟨anteGas.original, none⟩⟩
      | (.ok anteResult, msCache, anteGas) =>
        let gas : GasCtx :=
          if anteResult.newCtxIsZero then ⟨anteGas.original, none⟩ else anteGas
        if anteResult.abort then
          ⟨.ok anteResult.result, anteResult.result.gasWanted, msCache.pop, gas⟩
        else
          runMsgsPhase codec router mode msgs msCache.write.pop gas anteResult.result.gasWanted

/-- The deferred charge of a DeliverTx's gas to the block meter, with its overflow check. -/
def consumeBlockGas (blockGasMeter : GasMeter) (startingGas : Nat) (txGasMeter : GasMeter) :
    GasMeter × Option Panic :=
  match blockGasMeter.consumeGas txGasMeter.gasConsumedToLimit "block gas meter" with
  | (meter, some p) => (meter, some p)
  | (meter, none) =>
    if meter.gasConsumed < startingGas then (meter, some (.gasOverflow "tx gas summation"))
    else (meter, none)

/-- The deferred recover of `runTx`: out of gas, or an internal error for any other panic. -/
def recoverResult : Panic → Result
  | .outOfGas _ => (SdkError.outOfGas "out of gas in location").result
  | _ => (SdkError.internal "recovered").result

/-! ## The multistore after the body -/

section Coherence

variable {codec router mode}

theorem coherent_runMsgsPhase {msgs : List μ} {ms : Stack κ Bytes} (h : ms.Coherent)
    (gas : GasCtx) (gasWanted : Nat) :
    (runMsgsPhase codec router mode msgs ms gas gasWanted).ms.Coherent := by
  have hrun := coherent_run (runMsgs codec router mode msgs) (Stack.coherent_push h) gas
  unfold runMsgsPhase
  rcases hr : StoreProg.run Stack.ops (runMsgs codec router mode msgs) ms.push gas with
    ⟨_ | result, msCache, gas'⟩ <;> rw [hr] at hrun
  · exact Stack.coherent_pop hrun
  · dsimp only
    split
    · exact Stack.coherent_pop_write hrun
    · exact Stack.coherent_pop hrun

theorem coherent_runTxBody (anteHandler : Option (AnteHandler κ τ)) (tx : τ)
    {ms : Stack κ Bytes} (h : ms.Coherent) (gas : GasCtx) :
    (runTxBody codec router mode anteHandler tx ms gas).ms.Coherent := by
  unfold runTxBody
  dsimp only
  split
  · exact h
  · split
    · exact coherent_runMsgsPhase h gas 0
    · next ante =>
      have hrun := coherent_run (ante (mode ≠ .deliver) tx (mode = .simulate))
        (Stack.coherent_push h) gas
      rcases hr : StoreProg.run Stack.ops (ante (mode ≠ .deliver) tx (mode = .simulate)) ms.push gas
        with ⟨_ | anteResult, msCache, anteGas⟩ <;> rw [hr] at hrun
      · exact Stack.coherent_pop hrun
      · dsimp only
        split
        · exact Stack.coherent_pop hrun
        · exact coherent_runMsgsPhase (Stack.coherent_pop_write hrun) _ _

end Coherence

/-- `runTx`: the result, and the app with the state of `mode` updated. -/
def runTx (app : BaseApp κ μ τ) (tx : τ) : Result × BaseApp κ μ τ :=
  let st := app.getState mode
  if mode = .deliver ∧ st.blockGasMeter.isOutOfGas = true then
    ((SdkError.outOfGas "no block gas left to run tx").result, app)
  else
    -- a simulation runs on a cache of the check state that is never written
    let ms := if mode = .simulate then st.ms.push else st.ms
    have hms : ms.Coherent := by
      by_cases hsim : mode = .simulate
      · simp only [ms, hsim, if_true]
        exact Stack.coherent_push st.coherent
      · simp only [ms, hsim, if_false]
        exact st.coherent
    let e := runTxBody codec app.router mode app.anteHandler tx ms ⟨st.gasMeter, none⟩
    -- the deferred functions: the block gas charge of DeliverTx, then the recover
    let (blockGasMeter, blockPanic) :=
      if mode = .deliver then consumeBlockGas st.blockGasMeter st.blockGasMeter.gasConsumed e.gas.gasMeter
      else (st.blockGasMeter, none)
    let result := match blockPanic, e.outcome with
      | some p, _ => recoverResult p
      | none, .error p => recoverResult p
      | none, .ok result => result
    let result := { result with gasWanted := e.gasWanted, gasUsed := e.gas.gasMeter.gasConsumed }
    let ms' := if mode = .simulate then e.ms.pop else e.ms
    have hms' : ms'.Coherent := by
      have he : e.ms.Coherent := coherent_runTxBody app.anteHandler tx hms _
      by_cases hsim : mode = .simulate
      · simp only [ms', hsim, if_true]
        exact Stack.coherent_pop he
      · simp only [ms', hsim, if_false]
        exact he
    (result, app.setState mode ⟨ms', hms', e.gas.original, blockGasMeter⟩)

/-! ## What DeliverTx leaves, without caches -/

/-- Run a transaction's program on a plain map. -/
def runOn {α : Type} (p : TxProg κ α) (S : SortedMap κ Bytes) (gas : GasCtx) :
    Except Panic α × SortedMap κ Bytes × GasCtx :=
  StoreProg.run mapOps p S gas

/-- The handlers of the messages, one after the other on a plain map, each from the map and
meters the one before left: the map after the last, or nothing at the first message that has no
route, whose handler fails, or whose handler panics. -/
def handlersSpec : List μ → SortedMap κ Bytes → GasCtx → Option (SortedMap κ Bytes)
  | [], S, _ => some S
  | msg :: rest, S, gas =>
    match router (codec.route msg) with
    | none => none
    | some handler =>
      match runOn (handler msg) S gas with
      | (.ok result, S', gas') => if result.isOK then handlersSpec rest S' gas' else none
      | (.error _, _, _) => none

/-- The messages of a DeliverTx, on plain maps: all their handlers' writes if every message
passes, none if one fails or panics. -/
def msgsSpec (msgs : List μ) (S : SortedMap κ Bytes) (gas : GasCtx) : SortedMap κ Bytes :=
  (handlersSpec codec router msgs S gas).getD S

/-- The body of a DeliverTx, on plain maps: nothing if a message fails its basic check or the
ante handler aborts or panics; the ante handler's writes alone if a message fails or panics;
all writes otherwise. -/
def bodySpec (anteHandler : Option (AnteHandler κ τ)) (tx : τ) (S : SortedMap κ Bytes)
    (gas : GasCtx) : SortedMap κ Bytes :=
  let msgs := codec.getMsgs tx
  match validateBasicTxMsgs codec msgs with
  | some _ => S
  | none =>
    match anteHandler with
    | none => msgsSpec codec router msgs S gas
    | some ante =>
      match runOn (ante false tx false) S gas with
      | (.error _, _, _) => S
      | (.ok anteResult, anteS, anteGas) =>
        if anteResult.abort then S
        else
          msgsSpec codec router msgs anteS
            (if anteResult.newCtxIsZero then ⟨anteGas.original, none⟩ else anteGas)

/-- The multistore contents DeliverTx leaves: unchanged if the block has no gas left, else
what the body leaves. -/
def deliverSpec (app : BaseApp κ μ τ) (tx : τ) : SortedMap κ Bytes :=
  if app.deliverState.blockGasMeter.isOutOfGas then app.deliverState.ms.view
  else
    bodySpec codec app.router app.anteHandler tx app.deliverState.ms.view
      ⟨app.deliverState.gasMeter, none⟩

/-! ## `runTx` meets the specification -/

section Refinement

variable {codec router}

/-- The loop of `runMsgs` in DeliverTx, on a plain map, runs the handlers as `handlersSpec`
does: where every message passes, it passes and leaves the map the handlers leave; where one
does not, it fails or panics. The induction is on the messages, from any data gathered. -/
theorem runOn_runMsgsLoop (msgs : List μ) (data : Bytes) (S : SortedMap κ Bytes) (gas : GasCtx) :
    (∀ S', handlersSpec codec router msgs S gas = some S' →
      ∃ result gas', runOn (runMsgsLoop codec router .deliver msgs data) S gas =
        (.ok result, S', gas') ∧ result.isOK = true) ∧
    (handlersSpec codec router msgs S gas = none → ∀ result S' gas',
      runOn (runMsgsLoop codec router .deliver msgs data) S gas = (.ok result, S', gas') →
        result.isOK = false) := by
  induction msgs generalizing data S gas with
  | nil =>
    refine ⟨fun S' h => ⟨{ data := data }, gas, ?_, rfl⟩, fun h => by cases h⟩
    cases Option.some.inj h
    rfl
  | cons msg rest ih =>
    unfold handlersSpec
    cases hroute : router (codec.route msg) with
    | none =>
      -- no route: an error result on the map as it was
      refine ⟨fun S' h => (by cases h), fun _ result S' gas' h => ?_⟩
      simp only [runMsgsLoop, hroute, runOn, StoreProg.pure_eq, StoreProg.run] at h
      cases (Prod.mk.inj h).1
      rfl
    | some handler =>
      simp only [runMsgsLoop, hroute, runOn, if_neg (show RunTxMode.deliver ≠ .check by decide),
        StoreProg.bind_eq, StoreProg.run_bind]
      rcases hrun : StoreProg.run mapOps (handler msg) S gas with ⟨_ | msgResult, S₁, gas₁⟩
      · refine ⟨fun S' h => (by cases h), fun _ result S' gas' h => ?_⟩
        cases h
      · dsimp only [StoreProg.andThen]
        by_cases ok : msgResult.isOK = true
        · -- the message passes: the rest runs from the map and meters it left
          simp only [ok, if_true]
          exact ih _ S₁ gas₁
        · simp only [ok, Bool.false_eq_true, if_false]
          refine ⟨fun S' h => (by cases h), fun _ result S' gas' h => ?_⟩
          cases (Prod.mk.inj h).1
          simpa [Result.isOK] using ok

/-- Where the messages pass or fail, `msgsSpec` is the map `runMsgs` leaves or the map it
started from. -/
theorem msgsSpec_of_runOn_ok {msgs : List μ} {S S' : SortedMap κ Bytes} {gas gas' : GasCtx}
    {result : Result} (h : runOn (runMsgs codec router .deliver msgs) S gas = (.ok result, S', gas')) :
    msgsSpec codec router msgs S gas = if result.isOK then S' else S := by
  obtain ⟨passes, fails⟩ := runOn_runMsgsLoop msgs [] S gas
  unfold msgsSpec
  cases hspec : handlersSpec codec router msgs S gas with
  | none => rw [fails hspec result S' gas' h, Option.getD_none, if_neg Bool.false_ne_true]
  | some S'' =>
    obtain ⟨result', gas'', run, ok⟩ := passes S'' hspec
    rw [runMsgs, run] at h
    obtain ⟨same, rest⟩ := Prod.mk.inj h
    cases Except.ok.inj same
    rw [Option.getD_some, if_pos ok, (Prod.mk.inj rest).1]

/-- Where the messages panic, `msgsSpec` is the map they started from. -/
theorem msgsSpec_of_runOn_error {msgs : List μ} {S S' : SortedMap κ Bytes} {gas gas' : GasCtx}
    {p : Panic} (h : runOn (runMsgs codec router .deliver msgs) S gas = (.error p, S', gas')) :
    msgsSpec codec router msgs S gas = S := by
  obtain ⟨passes, -⟩ := runOn_runMsgsLoop msgs [] S gas
  unfold msgsSpec
  cases hspec : handlersSpec codec router msgs S gas with
  | none => rfl
  | some S'' =>
    obtain ⟨result', gas'', run, -⟩ := passes S'' hspec
    rw [runMsgs, run] at h
    cases (Prod.mk.inj h).1

theorem view_runMsgsPhase_deliver (msgs : List μ) {ms : Stack κ Bytes} (h : ms.Coherent)
    (gas : GasCtx) (gasWanted : Nat) :
    (runMsgsPhase codec router .deliver msgs ms gas gasWanted).ms.view =
      msgsSpec codec router msgs ms.view gas := by
  have hview := run_view (runMsgs codec router .deliver msgs) (Stack.coherent_push h) gas
  have hdrop := (view_pop_run_push (runMsgs codec router .deliver msgs) h gas).1
  rw [Stack.view_push] at hview
  unfold runMsgsPhase
  -- the run on the pushed cache decides both sides
  rcases hr : StoreProg.run Stack.ops (runMsgs codec router .deliver msgs) ms.push gas with
    ⟨_ | result, msCache, gas'⟩
  · rw [hr] at hdrop hview
    rw [msgsSpec_of_runOn_error hview]
    exact hdrop
  · rw [hr] at hdrop hview
    rw [msgsSpec_of_runOn_ok hview]
    dsimp only
    -- setting `gasWanted` leaves the code, so the result passes exactly when the run's does
    by_cases hok : result.isOK = true
    · have hwrite : RunTxMode.deliver = RunTxMode.deliver ∧
          ({ result with gasWanted := gasWanted } : Result).isOK = true := ⟨rfl, hok⟩
      rw [if_pos hwrite, if_pos hok]
      exact Stack.view_pop_write msCache
    · have hdiscard : ¬ (RunTxMode.deliver = RunTxMode.deliver ∧
          ({ result with gasWanted := gasWanted } : Result).isOK = true) := fun h' => hok h'.2
      rw [if_neg hdiscard, if_neg hok]
      exact hdrop

theorem view_runTxBody_deliver (anteHandler : Option (AnteHandler κ τ)) (tx : τ)
    {ms : Stack κ Bytes} (h : ms.Coherent) (gas : GasCtx) :
    (runTxBody codec router .deliver anteHandler tx ms gas).ms.view =
      bodySpec codec router anteHandler tx ms.view gas := by
  unfold runTxBody bodySpec
  dsimp only
  split
  · rfl
  · split
    · exact view_runMsgsPhase_deliver _ h gas 0
    · next ante =>
      have hview := run_view (ante false tx false) (Stack.coherent_push h) gas
      have hdrop := (view_pop_run_push (ante false tx false) h gas).1
      have hcoh := coherent_run (ante false tx false) (Stack.coherent_push h) gas
      rw [Stack.view_push] at hview
      simp only [ne_eq, not_true_eq_false, decide_false, reduceCtorEq, runOn, hview]
      rcases hr : StoreProg.run Stack.ops (ante false tx false) ms.push gas with
        ⟨_ | anteResult, msCache, anteGas⟩
      · rw [hr] at hdrop
        exact hdrop
      · rw [hr] at hdrop hcoh
        dsimp only
        by_cases habort : anteResult.abort = true
        · simp only [habort, if_true]
          exact hdrop
        · simp only [habort, Bool.false_eq_true, if_false]
          rw [view_runMsgsPhase_deliver _ (Stack.coherent_pop_write hcoh), Stack.view_pop_write]

theorem view_runTx_deliver (app : BaseApp κ μ τ) (tx : τ) :
    (runTx codec .deliver app tx).2.deliverState.ms.view = deliverSpec codec app tx := by
  unfold runTx deliverSpec
  by_cases hout : app.deliverState.blockGasMeter.isOutOfGas = true
  · simp [BaseApp.getState, hout]
  · simp only [BaseApp.getState, hout, and_false, if_false, Bool.false_eq_true,
      BaseApp.setState, reduceCtorEq]
    exact view_runTxBody_deliver app.anteHandler tx app.deliverState.coherent _

end Refinement

/-- DeliverTx is atomic phase by phase: the deliver state it leaves is `deliverSpec`, and
CheckTx and simulations leave the deliver state as it was. -/
theorem runTx_atomicity (app : BaseApp κ μ τ) (tx : τ) :
    (runTx codec .deliver app tx).2.deliverState.ms.view = deliverSpec codec app tx ∧
      ∀ mode, mode ≠ .deliver → (runTx codec mode app tx).2.deliverState = app.deliverState := by
  refine ⟨view_runTx_deliver app tx, fun mode hmode => ?_⟩
  cases mode with
  | deliver => exact absurd rfl hmode
  | check => simp [runTx, BaseApp.getState, BaseApp.setState]
  | simulate => simp [runTx, BaseApp.getState, BaseApp.setState]

end Pocc
