import Pocc.Staking.Handler

/-!
# The staking state along a chain

What moves the staking store from block to block: the five messages of handler.go, delivered
in transactions; the EndBlocker; and the calls the slashing module makes at the beginning of a
block, `Slash`, `Jail` and `Unjail`. A message is only delivered if its `ValidateBasic` passes,
and a message whose handler fails leaves the state as it was (`runTx` drops its writes), so
only successful events move the state. An EndBlocker or a slashing call that panics halts the
chain: it has no successor state.

`Reachable k` holds of every world a chain with keeper `k` can reach from an empty staking
store, with any accounts and any state of the modules behind the hooks, and block headers of
its own choosing. The slashing module is not modelled here: any call it could make, with any
arguments, is allowed, so what holds of `Reachable` holds of the chains with slashing.

A new chain starts from the empty store: `InitGenesis` of a genesis state without validators,
delegations or last total power writes only the parameters, and the genesis validators come in as gentxs
(x/genutil `DeliverGenTxs`), transactions of `MsgCreateValidator` delivered as any other and
followed by `ApplyAndReturnValidatorSetUpdates`. A chain restarted from an exported state,
whose `InitGenesis` writes validators, delegations and their entries directly, is not modelled:
`ValidateGenesis` checks neither that a validator's shares are those of its delegations nor
that the pools hold its tokens, so such a state need not meet the invariants proved here.
-/

namespace Pocc

namespace Staking

/-- A message of x/staking. -/
inductive Msg where
  | createValidator (msg : MsgCreateValidator)
  | editValidator (msg : MsgEditValidator)
  | delegate (msg : MsgDelegate)
  | beginRedelegate (msg : MsgBeginRedelegate)
  | undelegate (msg : MsgUndelegate)
  deriving DecidableEq, Repr

def Msg.validateBasic : Msg → Option SdkError
  | .createValidator msg => msg.validateBasic
  | .editValidator msg => msg.validateBasic
  | .delegate msg => msg.validateBasic
  | .beginRedelegate msg => msg.validateBasic
  | .undelegate msg => msg.validateBasic

/-- What happens to the staking state in a block. -/
inductive Event where
  /-- A transaction delivers a message. -/
  | deliver (msg : Msg)
  /-- The EndBlocker of x/staking. -/
  | endBlock
  /-- The slashing module slashes the validator of a consensus address. -/
  | slash (consAddr : ConsAddress) (infractionHeight power : Int) (slashFactor : Dec)
  /-- The slashing module jails it. -/
  | jail (consAddr : ConsAddress)
  /-- The slashing module unjails it. -/
  | unjail (consAddr : ConsAddress)
  deriving DecidableEq, Repr

namespace Keeper

variable {τ : Type} (k : Keeper τ) (ctx : Header)

/-- `NewHandler`: route a message to its handler. -/
def handle (w : World τ) : Msg → Except SdkError (World τ)
  | .createValidator msg => k.handleMsgCreateValidator ctx w msg
  | .editValidator msg => k.handleMsgEditValidator ctx w msg
  | .delegate msg => k.handleMsgDelegate ctx w msg
  | .beginRedelegate msg => k.handleMsgBeginRedelegate ctx w msg
  | .undelegate msg => k.handleMsgUndelegate ctx w msg

/-- The world after an event in a block with header `ctx`; an error is a rejected message or a
halted chain. -/
def applyEvent (w : World τ) : Event → Except SdkError (World τ)
  | .deliver msg =>
    match msg.validateBasic with
    | some err => throw err
    | none => k.handle ctx w msg
  | .endBlock => Prod.fst <$> k.endBlocker ctx w
  | .slash consAddr infractionHeight power slashFactor =>
    k.slash ctx w consAddr infractionHeight power slashFactor
  | .jail consAddr => jail w consAddr
  | .unjail consAddr => unjail w consAddr

/-- A run of events, each in the block of its header; the first that fails ends it. -/
def applyEvents (w : World τ) : List (Header × Event) → Except SdkError (World τ)
  | [] => pure w
  | (ctx, e) :: rest => do applyEvents (← k.applyEvent ctx w e) rest

/-- A keeper without hooks (`hooks == nil`, so every call of a hook does nothing), over the
supply keeper `supplyKeeper`. -/
def withoutHooks (supplyKeeper : SupplyKeeper) : Keeper Unit :=
  ⟨supplyKeeper, fun _ w _ => .ok (w.ledger, w.ext)⟩

end Keeper

/-- The worlds a chain reaches from an empty staking store. -/
inductive Reachable {τ : Type} (k : Keeper τ) : World τ → Prop
  | genesis (params : Params) (ledger : Ledger) (ext : τ) :
      Reachable k ⟨Store.empty params, ledger, ext⟩
  | step {w w' : World τ} (ctx : Header) (e : Event) :
      Reachable k w → k.applyEvent ctx w e = .ok w' → Reachable k w'

/-- A successful run of events from a reachable world ends in a reachable world. -/
theorem Reachable.applyEvents {τ : Type} {k : Keeper τ} :
    ∀ {w w' : World τ} {events : List (Header × Event)},
      Reachable k w → k.applyEvents w events = .ok w' → Reachable k w'
  | _, _, [], reach, h => by
    rw [Keeper.applyEvents, Fallible.pure_eq_ok] at h
    exact h ▸ reach
  | _, _, (ctx, e) :: rest, reach, h => by
    rw [Keeper.applyEvents] at h
    obtain ⟨w₁, happly, hrest⟩ := Fallible.bind_eq_ok.mp h
    exact Reachable.applyEvents (.step ctx e reach happly) hrest

/-- A property of the staking store that holds of the empty store and that every successful
event keeps holds of every reachable world. -/
theorem Reachable.store_induction {τ : Type} {k : Keeper τ} (P : Store → Prop)
    (genesis : ∀ params, P (Store.empty params))
    (step : ∀ (w w' : World τ) ctx e, P w.store → k.applyEvent ctx w e = .ok w' → P w'.store)
    {w : World τ} (h : Reachable k w) : P w.store := by
  induction h with
  | genesis params ledger ext => exact genesis params
  | step ctx e _ happly ih => exact step _ _ ctx e ih happly

/-! ## A chain from genesis

The chain that `slash_panics_on_removed_destination` slashes; its first four events already give
a world with two validators, one bonded, and three delegations, where the invariants of the
staking store are shown to say something. -/

namespace RemovedDestination

/-- The two staking pools, with the permissions the application gives them. -/
def pools : SupplyKeeper :=
  ⟨fun name => if name = bondedPoolName then [1] else if name = notBondedPoolName then [2] else [3],
    [(bondedPoolName, [burner, staking]), (notBondedPoolName, [burner, staking])]⟩

/-- The default parameters, with one validator slot. -/
def params : Params := { defaultParams with maxValidators := 1 }

/-- Three accounts: the operators of `[10]` and `[20]`, and the delegator `[30]`. -/
def ledger : Ledger :=
  ⟨((SortedMap.empty.insert [10] ⟨[⟨nativeToken, 2000000000000000000⟩], .base⟩).insert [20]
      ⟨[⟨nativeToken, 1000000000000000000⟩], .base⟩).insert [30]
      ⟨[⟨nativeToken, 1000000000000000000⟩], .base⟩,
    [⟨nativeToken, 4000000000000000000⟩]⟩

def genesis : World Unit := ⟨Store.empty params, ledger, ()⟩

/-- A validator operated by `operator`, self-delegating `amount` at a zero commission. -/
def createValidator (operator consAddr : Bytes) (amount : Int) : MsgCreateValidator :=
  { description := ⟨"validator", "", "", ""⟩, commission := ⟨0, 0, 0⟩, minSelfDelegation := 1,
    delegatorAddress := operator, validatorAddress := operator, pubKey := consAddr,
    value := ⟨nativeToken, amount⟩ }

/-- `[10]` takes the one slot; two years on, `[30]` delegates to it and redelegates to the
unbonded `[20]`, whose operator then undelegates all its own shares. -/
def trace : List (Header × Event) :=
  [(⟨1, 0⟩, .deliver (.createValidator (createValidator [10] [11] 2000000000000000000))),
   (⟨1, 0⟩, .deliver (.createValidator (createValidator [20] [21] 1000000000000000000))),
   (⟨1, 0⟩, .endBlock),
   (⟨10, 63072000⟩, .deliver (.delegate ⟨[30], [10], ⟨nativeToken, 1000000000000000000⟩⟩)),
   (⟨10, 63072000⟩,
     .deliver (.beginRedelegate ⟨[30], [10], [20], ⟨nativeToken, 1000000000000000000⟩⟩)),
   (⟨10, 63072000⟩, .deliver (.undelegate ⟨[20], [20], ⟨nativeToken, 1000000000000000000⟩⟩))]

end RemovedDestination

open RemovedDestination in
/-- The first four events of the trace: `[10]` and `[20]` create validators, the EndBlocker bonds
`[10]` in the one slot, and `[30]` delegates to `[10]`. -/
theorem reachable_two_validators :
    ∃ w, Reachable (Keeper.withoutHooks pools) w ∧
      (w.store.getValidator [10]).isSome ∧ (w.store.getValidator [20]).isSome ∧
      (w.store.getDelegation [10] [10]).isSome ∧ (w.store.getDelegation [30] [10]).isSome := by
  -- the model runs the four events in the kernel
  have run : ((Keeper.withoutHooks pools).applyEvents genesis (trace.take 4)).toOption.any
      (fun w => (w.store.getValidator [10]).isSome && (w.store.getValidator [20]).isSome &&
        (w.store.getDelegation [10] [10]).isSome && (w.store.getDelegation [30] [10]).isSome) =
      true := by
    decide +kernel
  obtain ⟨w, hrun, facts⟩ := (Option.any_eq_true _ _).mp run
  simp only [Bool.and_eq_true] at facts
  obtain ⟨⟨⟨first, second⟩, self⟩, delegated⟩ := facts
  exact ⟨w, (Reachable.genesis _ _ _).applyEvents (Fallible.toOption_eq_some.mp hrun), first,
    second, self, delegated⟩

end Staking

end Pocc
