import Pocc.Staking.Store
import Pocc.Supply.Keeper

/-!
# The staking keeper

x/staking/keeper: how a validator's tokens and shares change and how the indexes follow
(validator.go, val_state_change.go), the pools the tokens are held in (pool.go), and
delegating, unbonding and redelegating (delegation.go).

A keeper function reads the block header, and reads and writes a `World`: the staking store,
the accounts with the total supply, and the stores of the modules its hooks call into. Every
token or status change of a validator goes through `Store.updateValidator`, the three writes
`DeleteValidatorByPowerIndex` of the validator read, `SetValidator` and
`SetValidatorByPowerIndex` of the new one. The store keeps the power index by `powerIndexKey`;
the keeper functions compute the power of each key they delete or write as Go does, with
`TokensToConsensusPower`, which panics on a power outside an `int64`.

A hook (`StakingHooks`, set by the app) returns nothing in Go: here it returns the accounts and
the other modules' stores it wrote, or a panic. It is given the whole world but cannot write the
staking store.
-/

namespace Pocc

namespace Staking

/-- The fields of the block header a keeper function reads: `ctx.BlockHeight()` and
`ctx.BlockHeader().Time`. -/
structure Header where
  height : Int
  time : Int

/-- What a staking keeper function reads and writes. `τ` is the state of the modules behind the
hooks. -/
structure World (τ : Type) where
  store : Store
  ledger : Ledger
  ext : τ

/-- A call of `StakingHooks`. -/
inductive HookCall where
  | afterValidatorCreated (valAddr : ValAddress)
  | beforeValidatorModified (valAddr : ValAddress)
  | afterValidatorRemoved (consAddr : ConsAddress) (valAddr : ValAddress)
  | afterValidatorBonded (consAddr : ConsAddress) (valAddr : ValAddress)
  | afterValidatorBeginUnbonding (consAddr : ConsAddress) (valAddr : ValAddress)
  | beforeDelegationCreated (delAddr : AccAddress) (valAddr : ValAddress)
  | beforeDelegationSharesModified (delAddr : AccAddress) (valAddr : ValAddress)
  | beforeDelegationRemoved (delAddr : AccAddress) (valAddr : ValAddress)
  | afterDelegationModified (delAddr : AccAddress) (valAddr : ValAddress)
  | beforeValidatorSlashed (valAddr : ValAddress) (fraction : Dec)
  deriving DecidableEq, Repr

/-- The keeper: the supply keeper it moves coins with, and the hooks of the app. -/
structure Keeper (τ : Type) where
  supplyKeeper : SupplyKeeper
  hooks : Header → World τ → HookCall → Except SdkError (Ledger × τ)

variable {τ : Type}

namespace World

def withStore (w : World τ) (s : Store) : World τ := { w with store := s }

def withLedger (w : World τ) (ledger : Ledger) : World τ := { w with ledger := ledger }

end World

/-! ## Validator records -/

namespace Store

/-- The three writes with which the keeper stores a validator whose tokens or status change:
the power-index key of the record read is deleted, and the new record is stored and indexed. -/
def updateValidator (s : Store) (validator validator' : Validator) : Store :=
  ((s.deleteValidatorByPowerIndex validator).setValidator validator').setValidatorByPowerIndex
    validator'

/-- The power `SetValidatorByPowerIndex` computes for the key of a new record, unless the
validator is jailed and kept out of the index. -/
def indexedPower (validator : Validator) : Except SdkError Unit :=
  if validator.jailed then pure ()
  else do
    let _ ← tokensToConsensusPowerChecked validator.tokens

/-- `AddValidatorTokensAndShares`. -/
def addValidatorTokensAndShares (s : Store) (validator : Validator) (tokensToAdd : Int) :
    Except SdkError (Store × Validator × Dec) := do
  -- the key `DeleteValidatorByPowerIndex` deletes
  let _ ← tokensToConsensusPowerChecked validator.tokens
  let (validator', addedShares) ← validator.addTokensFromDel tokensToAdd
  indexedPower validator'
  pure (s.updateValidator validator validator', validator', addedShares)

/-- `RemoveValidatorTokensAndShares`. -/
def removeValidatorTokensAndShares (s : Store) (validator : Validator) (sharesToRemove : Dec) :
    Except SdkError (Store × Validator × Int) := do
  let _ ← tokensToConsensusPowerChecked validator.tokens
  let (validator', removedTokens) ← validator.removeDelShares sharesToRemove
  indexedPower validator'
  pure (s.updateValidator validator validator', validator', removedTokens)

/-- `RemoveValidatorTokens`. -/
def removeValidatorTokens (s : Store) (validator : Validator) (tokensToRemove : Int) :
    Except SdkError (Store × Validator) := do
  let _ ← tokensToConsensusPowerChecked validator.tokens
  let validator' ← validator.removeTokens tokensToRemove
  indexedPower validator'
  pure (s.updateValidator validator validator', validator')

/-- `jailValidator`: the jailed record is stored and its power-index key deleted. -/
def jailValidator (s : Store) (validator : Validator) : Except SdkError Store :=
  if validator.jailed then throw (.panic "cannot jail already jailed validator")
  else do
    let validator' := { validator with jailed := true }
    let _ ← tokensToConsensusPowerChecked validator'.tokens
    pure ((s.setValidator validator').deleteValidatorByPowerIndex validator')

/-- `unjailValidator`. -/
def unjailValidator (s : Store) (validator : Validator) : Except SdkError Store :=
  if !validator.jailed then throw (.panic "cannot unjail already unjailed validator")
  else do
    let validator' := { validator with jailed := false }
    indexedPower validator'
    pure ((s.setValidator validator').setValidatorByPowerIndex validator')

/-- `completeUnbondingValidator`: only the status changes, so the power index stays. -/
def completeUnbondingValidator (s : Store) (validator : Validator) : Store × Validator :=
  let validator' := validator.updateStatus .unbonded
  (s.setValidator validator', validator')

end Store

namespace Keeper

variable (k : Keeper τ) (ctx : Header)

/-- Call a hook: the accounts and the other modules' stores become what it wrote. A hook
cannot return an error, so one it raises is a panic. -/
def callHook (w : World τ) (call : HookCall) : Except SdkError (World τ) := do
  let (ledger, ext) ← SupplyKeeper.orPanic (k.hooks ctx w call)
  pure { w with ledger := ledger, ext := ext }

/-- `mustGetValidator`. -/
def mustGetValidator (w : World τ) (addr : ValAddress) : Except SdkError Validator :=
  match w.store.getValidator addr with
  | some validator => pure validator
  | none => throw (.panic "validator record not found for address")

/-- `mustGetValidatorByConsAddr`. -/
def mustGetValidatorByConsAddr (w : World τ) (consAddr : ConsAddress) :
    Except SdkError Validator :=
  match w.store.getValidatorByConsAddr consAddr with
  | some validator => pure validator
  | none => throw (.panic "validator with consensus-Address not found")

/-- `RemoveValidator`: only an unbonded validator without tokens is removed. The source checks
`Tokens.GT(ZeroInt())` a second time, after `Tokens.IsPositive()`; the second check never fires. -/
def removeValidator (w : World τ) (address : ValAddress) : Except SdkError (World τ) :=
  match w.store.getValidator address with
  | none => pure w
  | some validator =>
    if !validator.isUnbonded then
      throw (.panic "cannot call RemoveValidator on bonded or unbonding validators")
    else if 0 < validator.tokens then
      throw (.panic "attempting to remove a validator which still contains tokens")
    else do
      let _ ← tokensToConsensusPowerChecked validator.tokens
      k.callHook ctx (w.withStore (w.store.deleteValidator address validator))
        (.afterValidatorRemoved validator.consAddress validator.operatorAddress)

/-- `bondValidator`. -/
def bondValidator (w : World τ) (validator : Validator) : Except SdkError (World τ × Validator) := do
  let _ ← tokensToConsensusPowerChecked validator.tokens
  let validator' := validator.updateStatus .bonded
  Store.indexedPower validator'
  let s := (w.store.updateValidator validator validator').deleteValidatorQueue validator'
  let w ← k.callHook ctx (w.withStore s)
    (.afterValidatorBonded validator'.consAddress validator'.operatorAddress)
  pure (w, validator')

/-- `beginUnbondingValidator`: the validator enters the queue at the end of the unbonding
period. -/
def beginUnbondingValidator (w : World τ) (validator : Validator) :
    Except SdkError (World τ × Validator) := do
  -- the key `DeleteValidatorByPowerIndex` deletes, before the status is checked
  let _ ← tokensToConsensusPowerChecked validator.tokens
  if validator.status ≠ .bonded then throw (.panic "should not already be unbonded or unbonding")
  else do
    let validator' := { validator.updateStatus .unbonding with
      unbondingCompletionTime := ctx.time + w.store.params.unbondingTime
      unbondingHeight := ctx.height }
    Store.indexedPower validator'
    let s := (w.store.updateValidator validator validator').insertValidatorQueue validator'
    let w ← k.callHook ctx (w.withStore s)
      (.afterValidatorBeginUnbonding validator'.consAddress validator'.operatorAddress)
    pure (w, validator')

/-- `bondedToUnbonding`. -/
def bondedToUnbonding (w : World τ) (validator : Validator) :
    Except SdkError (World τ × Validator) :=
  if !validator.isBonded then throw (.panic "bad state transition bondedToUnbonding")
  else k.beginUnbondingValidator ctx w validator

/-- `unbondingToBonded`. -/
def unbondingToBonded (w : World τ) (validator : Validator) :
    Except SdkError (World τ × Validator) :=
  if !validator.isUnbonding then throw (.panic "bad state transition unbondingToBonded")
  else k.bondValidator ctx w validator

/-- `unbondedToBonded`. -/
def unbondedToBonded (w : World τ) (validator : Validator) :
    Except SdkError (World τ × Validator) :=
  if !validator.isUnbonded then throw (.panic "bad state transition unbondedToBonded")
  else k.bondValidator ctx w validator

/-- `unbondingToUnbonded`. -/
def unbondingToUnbonded (w : World τ) (validator : Validator) :
    Except SdkError (World τ × Validator) :=
  if !validator.isUnbonding then throw (.panic "bad state transition unbondingToBonded")
  else
    let (s, validator') := w.store.completeUnbondingValidator validator
    pure (w.withStore s, validator')

/-! ## The pools -/

/-- The transfers of pool.go between the two pool module accounts: `bondedTokensToNotBonded`
and `notBondedTokensToBonded`. -/
def moveTokensBetweenPools (fromPool toPool : String) (w : World τ) (tokens : Int) :
    Except SdkError (World τ) := do
  let coins ← Coins.newCoins [← Coins.newCoin w.store.params.bondDenom tokens]
  let ledger ← SupplyKeeper.orPanic
    (k.supplyKeeper.sendCoinsFromModuleToModule w.ledger ctx.time fromPool toPool coins)
  pure (w.withLedger ledger)

/-- `bondedTokensToNotBonded`. -/
def bondedTokensToNotBonded (w : World τ) (tokens : Int) : Except SdkError (World τ) :=
  k.moveTokensBetweenPools ctx bondedPoolName notBondedPoolName w tokens

/-- `notBondedTokensToBonded`. -/
def notBondedTokensToBonded (w : World τ) (tokens : Int) : Except SdkError (World τ) :=
  k.moveTokensBetweenPools ctx notBondedPoolName bondedPoolName w tokens

/-- `burnBondedTokens` and `burnNotBondedTokens`: nothing to burn unless the amount is
positive. They return the error of `BurnCoins`; every caller panics with it. -/
def burnPoolTokens (pool : String) (w : World τ) (amt : Int) : Except SdkError (World τ) :=
  if amt ≤ 0 then pure w
  else do
    let coins ← Coins.newCoins [← Coins.newCoin w.store.params.bondDenom amt]
    let ledger ← k.supplyKeeper.burnCoins w.ledger ctx.time pool coins
    pure (w.withLedger ledger)

/-- `burnBondedTokens`. -/
def burnBondedTokens (w : World τ) (amt : Int) : Except SdkError (World τ) :=
  k.burnPoolTokens ctx bondedPoolName w amt

/-- `burnNotBondedTokens`. -/
def burnNotBondedTokens (w : World τ) (amt : Int) : Except SdkError (World τ) :=
  k.burnPoolTokens ctx notBondedPoolName w amt

/-! ## Delegations -/

/-- The coins of `Delegate`: a delegation from an account pays into the pool of the
validator's status; a redelegation moves the tokens from the pool of the source status
`tokenSrc` to that of the validator, if they differ. -/
def fundDelegation (w : World τ) (delAddr : AccAddress) (bondAmt : Int) (tokenSrc : BondStatus)
    (validator : Validator) (subtractAccount : Bool) : Except SdkError (World τ) :=
  if subtractAccount then
    if tokenSrc = .bonded then throw (.panic "delegation token source cannot be bonded")
    else do
      let sendName := if validator.isBonded then bondedPoolName else notBondedPoolName
      let coins ← Coins.newCoins [← Coins.newCoin w.store.params.bondDenom bondAmt]
      let ledger ← k.supplyKeeper.delegateCoinsFromAccountToModule w.ledger ctx.time delAddr
        sendName coins
      pure (w.withLedger ledger)
  else if tokenSrc = .bonded then
    if validator.isBonded then pure w else k.bondedTokensToNotBonded ctx w bondAmt
  else if validator.isBonded then k.notBondedTokensToBonded ctx w bondAmt
  else pure w

/-- `Delegate`: the shares issued for `bondAmt` tokens, added to the delegation. -/
def delegate (w : World τ) (delAddr : AccAddress) (bondAmt : Int) (tokenSrc : BondStatus)
    (validator : Validator) (subtractAccount : Bool) : Except SdkError (World τ × Dec) :=
  if validator.invalidExRate then throw errDelegatorShareExRateInvalid
  else do
    let found := w.store.getDelegation delAddr validator.operatorAddress
    let delegation := found.getD ⟨delAddr, validator.operatorAddress, 0⟩
    let w ← k.callHook ctx w (match found with
      | some _ => .beforeDelegationSharesModified delAddr validator.operatorAddress
      | none => .beforeDelegationCreated delAddr validator.operatorAddress)
    let w ← k.fundDelegation ctx w delegation.delegatorAddress bondAmt tokenSrc validator
      subtractAccount
    let (s, _, newShares) ← w.store.addValidatorTokensAndShares validator bondAmt
    let delegation := { delegation with shares := delegation.shares + newShares }
    let w ← k.callHook ctx (w.withStore (s.setDelegation delegation))
      (.afterDelegationModified delegation.delegatorAddress delegation.validatorAddress)
    pure (w, newShares)

/-- `RemoveDelegation`: the hook, then the deletion. -/
def removeDelegation (w : World τ) (delegation : Delegation) : Except SdkError (World τ) := do
  let w ← k.callHook ctx w
    (.beforeDelegationRemoved delegation.delegatorAddress delegation.validatorAddress)
  pure (w.withStore (w.store.deleteDelegation delegation))

/-- The jail check of `unbond`: an operator whose own delegation falls below its minimum
self-delegation is jailed, and the validator read again. -/
def jailIfBelowMinSelfDelegation (w : World τ) (delegation : Delegation) (validator : Validator) :
    Except SdkError (World τ × Validator) :=
  if delegation.delegatorAddress = validator.operatorAddress && !validator.jailed &&
      decide ((validator.tokensFromShares delegation.shares).truncateInt <
        validator.minSelfDelegation) then do
    let w := w.withStore (← w.store.jailValidator validator)
    pure (w, ← mustGetValidator w validator.operatorAddress)
  else pure (w, validator)

/-- `unbond`: remove `shares` from the delegation and the validator; the tokens they were worth
leave the validator. A validator left unbonded without shares is removed. -/
def unbond (w : World τ) (delAddr : AccAddress) (valAddr : ValAddress) (shares : Dec) :
    Except SdkError (World τ × Int) :=
  match w.store.getDelegation delAddr valAddr with
  | none => throw errNoDelegatorForAddress
  | some delegation => do
    let w ← k.callHook ctx w (.beforeDelegationSharesModified delAddr valAddr)
    if delegation.shares < shares then
      throw (errNotEnoughDelegationShares delegation.shares.string)
    else
      match w.store.getValidator valAddr with
      | none => throw errNoValidatorFound
      | some validator => do
        let delegation := { delegation with shares := delegation.shares - shares }
        let (w, validator) ← jailIfBelowMinSelfDelegation w delegation validator
        let w ←
          (if delegation.shares.isZero then k.removeDelegation ctx w delegation
          else
            k.callHook ctx (w.withStore (w.store.setDelegation delegation))
              (.afterDelegationModified delegation.delegatorAddress delegation.validatorAddress))
        let (s, validator, amount) ← w.store.removeValidatorTokensAndShares validator shares
        let w := w.withStore s
        let w ←
          (if validator.delegatorShares.isZero ∧ validator.isUnbonded then
            k.removeValidator ctx w validator.operatorAddress
          else pure w)
        pure (w, amount)

/-- `getBeginInfo`: when a redelegation from `valSrcAddr` completes, at which height it counts
as begun, and whether it completes at once (from an unbonded validator). -/
def getBeginInfo (w : World τ) (valSrcAddr : ValAddress) : Int × Int × Bool :=
  match w.store.getValidator valSrcAddr with
  | some validator =>
    match validator.status with
    | .bonded => (ctx.time + w.store.params.unbondingTime, ctx.height, false)
    | .unbonded => (0, 0, true)
    | .unbonding => (validator.unbondingCompletionTime, validator.unbondingHeight, false)
  | none => (ctx.time + w.store.params.unbondingTime, ctx.height, false)

/-- `Undelegate`: unbond, move the tokens to the not-bonded pool, and record the unbonding
delegation entry that will pay them out. Returns the completion time. -/
def undelegate (w : World τ) (delAddr : AccAddress) (valAddr : ValAddress) (sharesAmount : Dec) :
    Except SdkError (World τ × Int) :=
  match w.store.getValidator valAddr with
  | none => throw errNoDelegatorForAddress
  | some validator =>
    if delAddr = valAddr ∧ ctx.time < validator.createTime + defaultFrozenTime then
      throw errStillInFrozen
    else if w.store.hasMaxUnbondingDelegationEntries delAddr valAddr then
      throw errMaxUnbondingDelegationEntries
    else do
      let (w, returnAmount) ← k.unbond ctx w delAddr valAddr sharesAmount
      let w ← (if validator.isBonded then k.bondedTokensToNotBonded ctx w returnAmount else pure w)
      let completionTime := ctx.time + w.store.params.unbondingTime
      let (s, ubd) := w.store.setUnbondingDelegationEntry delAddr valAddr ctx.height
        completionTime returnAmount
      pure (w.withStore (s.insertUBDQueue ubd completionTime), completionTime)

/-- The loop of `CompleteUnbonding` over the entries: a mature entry is dropped and its balance,
if not zero, paid from the not-bonded pool to the delegator; the others are kept. A payment
that fails ends the loop with its error and the payments made so far. -/
def completeUnbondingEntries (delegator : AccAddress) (w : World τ) :
    List UnbondingDelegationEntry →
      Except SdkError (World τ × List UnbondingDelegationEntry × Option SdkError)
  | [] => pure (w, [], none)
  | entry :: entries =>
    if entry.isMature ctx.time then
      if entry.balance = 0 then completeUnbondingEntries delegator w entries
      else do
        let amt ← Coins.newCoins [← Coins.newCoin w.store.params.bondDenom entry.balance]
        match k.supplyKeeper.undelegateCoinsFromModuleToAccount w.ledger notBondedPoolName
            delegator amt with
        | .error (.panic msg) => throw (.panic msg)
        | .error err => pure (w, entries, some err)
        | .ok ledger => completeUnbondingEntries delegator (w.withLedger ledger) entries
    else do
      let (w, kept, err) ← completeUnbondingEntries delegator w entries
      pure (w, entry :: kept, err)

/-- `CompleteUnbonding`: pay out the mature entries and store what is left. The error it
returns does not undo the payments made before it (the EndBlocker ignores it). -/
def completeUnbonding (w : World τ) (delAddr : AccAddress) (valAddr : ValAddress) :
    Except SdkError (World τ × Option SdkError) :=
  match w.store.getUnbondingDelegation delAddr valAddr with
  | none => pure (w, some errNoUnbondingDelegation)
  | some ubd => do
    let (w, entries, err) ← k.completeUnbondingEntries ctx ubd.delegatorAddress w ubd.entries
    match err with
    | some err => pure (w, some err)
    | none =>
      let ubd := { ubd with entries := entries }
      if entries = [] then pure (w.withStore (w.store.removeUnbondingDelegation ubd), none)
      else pure (w.withStore (w.store.setUnbondingDelegation ubd), none)

/-- `BeginRedelegation`: unbond from the source and delegate the tokens to the destination;
unless the source is unbonded, record the redelegation entry that slashing of the source can
still reach. Returns the completion time. -/
def beginRedelegation (w : World τ) (delAddr : AccAddress) (valSrcAddr valDstAddr : ValAddress)
    (sharesAmount : Dec) : Except SdkError (World τ × Int) :=
  if valSrcAddr = valDstAddr then throw errSelfRedelegation
  else match w.store.getValidator valDstAddr, w.store.getValidator valSrcAddr with
  | none, _ => throw errBadRedelegationDst
  | some _, none => throw errBadRedelegationDst
  | some dstValidator, some srcValidator =>
    if w.store.hasReceivingRedelegation delAddr valSrcAddr then throw errTransitiveRedelegation
    else if w.store.hasMaxRedelegationEntries delAddr valSrcAddr valDstAddr then
      throw errMaxRedelegationEntries
    else if delAddr = valSrcAddr ∧ ctx.time < srcValidator.createTime + defaultFrozenTime then
      throw errStillInFrozen
    else do
      let (w, returnAmount) ← k.unbond ctx w delAddr valSrcAddr sharesAmount
      if returnAmount = 0 then throw errVerySmallRedelegation
      else do
        let (w, sharesCreated) ← k.delegate ctx w delAddr returnAmount srcValidator.status
          dstValidator false
        let (completionTime, height, completeNow) := getBeginInfo ctx w valSrcAddr
        if completeNow then pure (w, completionTime)
        else
          let (s, red) := w.store.setRedelegationEntry delAddr valSrcAddr valDstAddr height
            completionTime returnAmount sharesCreated
          pure (w.withStore (s.insertRedelegationQueue red completionTime), completionTime)

/-- `CompleteRedelegation`: drop the mature entries. -/
def completeRedelegation (w : World τ) (delAddr : AccAddress) (valSrcAddr valDstAddr : ValAddress) :
    Except SdkError (World τ) :=
  match w.store.getRedelegation delAddr valSrcAddr valDstAddr with
  | none => throw errNoRedelegation
  | some red =>
    let red := { red with entries := red.entries.filter fun entry => !entry.isMature ctx.time }
    if red.entries = [] then pure (w.withStore (w.store.removeRedelegation red))
    else pure (w.withStore (w.store.setRedelegation red))

/-- `ValidateUnbondAmount`: the shares `amt` tokens are worth, capped at the delegation's. -/
def validateUnbondAmount (w : World τ) (delAddr : AccAddress) (valAddr : ValAddress) (amt : Int) :
    Except SdkError Dec :=
  match w.store.getValidator valAddr, w.store.getDelegation delAddr valAddr with
  | none, _ => throw errNoValidatorFound
  | some _, none => throw errNoDelegation
  | some validator, some del => do
    let shares ← validator.sharesFromTokens amt
    let sharesTruncated ← validator.sharesFromTokensTruncated amt
    if del.shares < sharesTruncated then throw errBadSharesAmount
    else pure (if del.shares < shares then del.shares else shares)

/-! ## What each function writes to the staking store

One lemma per function: from a successful run, the store it leaves as a term of the store it
was given. Hooks, pool transfers and burns write the accounts and other modules' stores only. -/

section StoreSpec

variable {k : Keeper τ} {ctx : Header} {w w' : World τ}

theorem callHook_store {call : HookCall} (h : k.callHook ctx w call = .ok w') :
    w'.store = w.store := by
  unfold callHook at h
  obtain ⟨⟨ledger, ext⟩, -, h⟩ := Fallible.bind_eq_ok.mp h
  rw [← Fallible.pure_eq_ok.mp h]

theorem mustGetValidator_eq_ok {addr : ValAddress} {validator : Validator} :
    mustGetValidator w addr = .ok validator ↔ w.store.getValidator addr = some validator := by
  unfold mustGetValidator
  cases w.store.getValidator addr with
  | none => simp
  | some v => simp

theorem mustGetValidatorByConsAddr_eq_ok {consAddr : ConsAddress} {validator : Validator} :
    mustGetValidatorByConsAddr w consAddr = .ok validator ↔
      w.store.getValidatorByConsAddr consAddr = some validator := by
  unfold mustGetValidatorByConsAddr
  cases w.store.getValidatorByConsAddr consAddr with
  | none => simp
  | some v => simp

/-- A transfer between the pools writes the accounts only. -/
theorem moveTokensBetweenPools_eq {fromPool toPool : String} {tokens : Int}
    (h : k.moveTokensBetweenPools ctx fromPool toPool w tokens = .ok w') :
    w' = w.withLedger w'.ledger := by
  unfold moveTokensBetweenPools at h
  obtain ⟨_, -, h⟩ := Fallible.bind_eq_ok.mp h
  obtain ⟨_, -, h⟩ := Fallible.bind_eq_ok.mp h
  obtain ⟨_, -, h⟩ := Fallible.bind_eq_ok.mp h
  rw [← Fallible.pure_eq_ok.mp h]
  rfl

theorem moveTokensBetweenPools_store {fromPool toPool : String} {tokens : Int}
    (h : k.moveTokensBetweenPools ctx fromPool toPool w tokens = .ok w') : w'.store = w.store := by
  rw [moveTokensBetweenPools_eq h]
  rfl

theorem bondedTokensToNotBonded_store {tokens : Int}
    (h : k.bondedTokensToNotBonded ctx w tokens = .ok w') : w'.store = w.store :=
  moveTokensBetweenPools_store h

theorem notBondedTokensToBonded_store {tokens : Int}
    (h : k.notBondedTokensToBonded ctx w tokens = .ok w') : w'.store = w.store :=
  moveTokensBetweenPools_store h

theorem burnPoolTokens_store {pool : String} {amt : Int}
    (h : k.burnPoolTokens ctx pool w amt = .ok w') : w'.store = w.store := by
  unfold burnPoolTokens at h
  split at h
  · rw [← Fallible.pure_eq_ok.mp h]
  · obtain ⟨_, -, h⟩ := Fallible.bind_eq_ok.mp h
    obtain ⟨_, -, h⟩ := Fallible.bind_eq_ok.mp h
    obtain ⟨_, -, h⟩ := Fallible.bind_eq_ok.mp h
    rw [← Fallible.pure_eq_ok.mp h]
    rfl

/-- The coins of `Delegate` move between accounts only. -/
theorem fundDelegation_eq {delAddr : AccAddress} {bondAmt : Int} {tokenSrc : BondStatus}
    {validator : Validator} {subtractAccount : Bool}
    (h : k.fundDelegation ctx w delAddr bondAmt tokenSrc validator subtractAccount = .ok w') :
    w' = w.withLedger w'.ledger := by
  unfold fundDelegation at h
  split at h
  · split at h
    · exact absurd h Fallible.throw_ne_ok
    · obtain ⟨_, -, h⟩ := Fallible.bind_eq_ok.mp h
      obtain ⟨_, -, h⟩ := Fallible.bind_eq_ok.mp h
      obtain ⟨_, -, h⟩ := Fallible.bind_eq_ok.mp h
      rw [← Fallible.pure_eq_ok.mp h]
      rfl
  · split at h
    · split at h
      · rw [← Fallible.pure_eq_ok.mp h]
        rfl
      · exact moveTokensBetweenPools_eq h
    · split at h
      · exact moveTokensBetweenPools_eq h
      · rw [← Fallible.pure_eq_ok.mp h]
        rfl

theorem fundDelegation_store {delAddr : AccAddress} {bondAmt : Int} {tokenSrc : BondStatus}
    {validator : Validator} {subtractAccount : Bool}
    (h : k.fundDelegation ctx w delAddr bondAmt tokenSrc validator subtractAccount = .ok w') :
    w'.store = w.store := by
  rw [fundDelegation_eq h]
  rfl

/-- `RemoveValidator` deletes the record found, which must be unbonded and without tokens, and
calls the hook of the removal. -/
theorem removeValidator_hook {address : ValAddress}
    (h : k.removeValidator ctx w address = .ok w') :
    (w.store.getValidator address = none ∧ w' = w) ∨
      ∃ validator, w.store.getValidator address = some validator ∧
        validator.isUnbonded = true ∧ validator.tokens ≤ 0 ∧
        k.callHook ctx (w.withStore (w.store.deleteValidator address validator))
          (.afterValidatorRemoved validator.consAddress validator.operatorAddress) = .ok w' := by
  unfold removeValidator at h
  split at h
  · next found => exact .inl ⟨found, (Fallible.pure_eq_ok.mp h).symm⟩
  · next validator found =>
    split at h
    · exact absurd h Fallible.throw_ne_ok
    · next bonded =>
      split at h
      · exact absurd h Fallible.throw_ne_ok
      · next tokens =>
        -- the power of the key deleted fits
        obtain ⟨_, -, h⟩ := Fallible.bind_eq_ok.mp h
        exact .inr ⟨validator, found, by simpa using bonded, by omega, h⟩

theorem removeValidator_store {address : ValAddress}
    (h : k.removeValidator ctx w address = .ok w') :
    (w.store.getValidator address = none ∧ w'.store = w.store) ∨
      ∃ validator, w.store.getValidator address = some validator ∧
        validator.isUnbonded = true ∧ validator.tokens ≤ 0 ∧
        w'.store = w.store.deleteValidator address validator := by
  rcases removeValidator_hook h with ⟨missing, rfl⟩ | ⟨validator, found, unbonded, tokens, hook⟩
  · exact .inl ⟨missing, rfl⟩
  · exact .inr ⟨validator, found, unbonded, tokens, callHook_store hook⟩

/-- `bondValidator`: the bonded record is stored and taken out of the queue, then the hook is
called. -/
theorem bondValidator_hook {validator validator' : Validator}
    (h : k.bondValidator ctx w validator = .ok (w', validator')) :
    validator' = validator.updateStatus .bonded ∧
      k.callHook ctx
        (w.withStore ((w.store.updateValidator validator validator').deleteValidatorQueue validator'))
        (.afterValidatorBonded validator'.consAddress validator'.operatorAddress) = .ok w' := by
  unfold bondValidator at h
  -- the powers of the keys deleted and written fit
  obtain ⟨_, -, h⟩ := Fallible.bind_eq_ok.mp h
  obtain ⟨_, -, h⟩ := Fallible.bind_eq_ok.mp h
  obtain ⟨w₁, hook, h⟩ := Fallible.bind_eq_ok.mp h
  obtain ⟨rfl, rfl⟩ := Prod.mk.inj (Fallible.pure_eq_ok.mp h)
  exact ⟨rfl, hook⟩

theorem bondValidator_store {validator validator' : Validator}
    (h : k.bondValidator ctx w validator = .ok (w', validator')) :
    validator' = validator.updateStatus .bonded ∧
      w'.store = (w.store.updateValidator validator validator').deleteValidatorQueue validator' := by
  obtain ⟨rfl, hook⟩ := bondValidator_hook h
  exact ⟨rfl, callHook_store hook⟩

/-- `beginUnbondingValidator`: the unbonding record is stored and queued, then the hook is
called. -/
theorem beginUnbondingValidator_hook {validator validator' : Validator}
    (h : k.beginUnbondingValidator ctx w validator = .ok (w', validator')) :
    validator.status = .bonded ∧
      validator' = { validator.updateStatus .unbonding with
        unbondingCompletionTime := ctx.time + w.store.params.unbondingTime
        unbondingHeight := ctx.height } ∧
      k.callHook ctx
        (w.withStore ((w.store.updateValidator validator validator').insertValidatorQueue validator'))
        (.afterValidatorBeginUnbonding validator'.consAddress validator'.operatorAddress) =
          .ok w' := by
  unfold beginUnbondingValidator at h
  obtain ⟨_, -, h⟩ := Fallible.bind_eq_ok.mp h
  split at h
  · exact absurd h Fallible.throw_ne_ok
  · next status =>
    obtain ⟨_, -, h⟩ := Fallible.bind_eq_ok.mp h
    obtain ⟨w₁, hook, h⟩ := Fallible.bind_eq_ok.mp h
    obtain ⟨rfl, rfl⟩ := Prod.mk.inj (Fallible.pure_eq_ok.mp h)
    exact ⟨not_not.mp status, rfl, hook⟩

theorem beginUnbondingValidator_store {validator validator' : Validator}
    (h : k.beginUnbondingValidator ctx w validator = .ok (w', validator')) :
    validator.status = .bonded ∧
      validator' = { validator.updateStatus .unbonding with
        unbondingCompletionTime := ctx.time + w.store.params.unbondingTime
        unbondingHeight := ctx.height } ∧
      w'.store = (w.store.updateValidator validator validator').insertValidatorQueue validator' := by
  obtain ⟨status, rfl, hook⟩ := beginUnbondingValidator_hook h
  exact ⟨status, rfl, callHook_store hook⟩

theorem unbondingToUnbonded_eq {validator validator' : Validator}
    (h : unbondingToUnbonded w validator = .ok (w', validator')) :
    validator.isUnbonding = true ∧ validator' = validator.updateStatus .unbonded ∧
      w' = w.withStore (w.store.setValidator validator') := by
  unfold unbondingToUnbonded at h
  split at h
  · exact absurd h Fallible.throw_ne_ok
  · next unbonding =>
    obtain ⟨rfl, rfl⟩ := Prod.mk.inj (Fallible.pure_eq_ok.mp h)
    exact ⟨by simpa using unbonding, rfl, rfl⟩

theorem addValidatorTokensAndShares_eq_ok {s s' : Store} {validator validator' : Validator}
    {tokensToAdd : Int} {addedShares : Dec}
    (h : s.addValidatorTokensAndShares validator tokensToAdd = .ok (s', validator', addedShares)) :
    validator.addTokensFromDel tokensToAdd = .ok (validator', addedShares) ∧
      s' = s.updateValidator validator validator' := by
  unfold Store.addValidatorTokensAndShares at h
  -- the powers of the keys deleted and written fit
  obtain ⟨_, -, h⟩ := Fallible.bind_eq_ok.mp h
  obtain ⟨⟨v, shares⟩, hadd, h⟩ := Fallible.bind_eq_ok.mp h
  obtain ⟨_, -, h⟩ := Fallible.bind_eq_ok.mp h
  obtain ⟨rfl, hv⟩ := Prod.mk.inj (Fallible.pure_eq_ok.mp h)
  obtain ⟨rfl, rfl⟩ := Prod.mk.inj hv
  exact ⟨hadd, rfl⟩

/-- `Delegate`, with its hooks: the hook before the delegation is created or its shares change,
the coins, then the validator with the tokens added and the delegation with the shares issued
for them, and the hook after. -/
theorem delegate_hooks {delAddr : AccAddress} {bondAmt : Int} {tokenSrc : BondStatus}
    {validator : Validator} {subtractAccount : Bool} {newShares : Dec}
    (h : k.delegate ctx w delAddr bondAmt tokenSrc validator subtractAccount = .ok (w', newShares)) :
    validator.invalidExRate = false ∧ ∃ (w₁ w₂ : World τ) (validator' : Validator),
      ((w.store.getDelegation delAddr validator.operatorAddress = none ∧
          k.callHook ctx w (.beforeDelegationCreated delAddr validator.operatorAddress) = .ok w₁) ∨
        (∃ delegation, w.store.getDelegation delAddr validator.operatorAddress = some delegation ∧
          k.callHook ctx w (.beforeDelegationSharesModified delAddr validator.operatorAddress) =
            .ok w₁)) ∧
      w₂.store = w.store ∧ w₂.ext = w₁.ext ∧
      validator.addTokensFromDel bondAmt = .ok (validator', newShares) ∧
      let delegation := (w.store.getDelegation delAddr validator.operatorAddress).getD
        ⟨delAddr, validator.operatorAddress, 0⟩
      k.callHook ctx (w₂.withStore ((w.store.updateValidator validator validator').setDelegation
          { delegation with shares := delegation.shares + newShares }))
        (.afterDelegationModified delegation.delegatorAddress delegation.validatorAddress) =
          .ok w' := by
  unfold delegate at h
  split at h
  · exact absurd h Fallible.throw_ne_ok
  · next exRate =>
    obtain ⟨w₁, hook₁, h⟩ := Fallible.bind_eq_ok.mp h
    obtain ⟨w₂, fund, h⟩ := Fallible.bind_eq_ok.mp h
    obtain ⟨⟨s, validator', shares⟩, hadd, h⟩ := Fallible.bind_eq_ok.mp h
    obtain ⟨w₃, hook₂, h⟩ := Fallible.bind_eq_ok.mp h
    obtain ⟨rfl, rfl⟩ := Prod.mk.inj (Fallible.pure_eq_ok.mp h)
    obtain ⟨hfrom, rfl⟩ := addValidatorTokensAndShares_eq_ok hadd
    have store₂ : w₂.store = w.store := by
      rw [fundDelegation_store fund, callHook_store hook₁]
    refine ⟨by simpa using exRate, w₁, w₂, _, ?_, store₂, by rw [fundDelegation_eq fund]; rfl,
      hfrom, by rw [store₂] at hook₂; exact hook₂⟩
    -- the hook before: the delegation is new, or its shares change
    cases found : w.store.getDelegation delAddr validator.operatorAddress with
    | none =>
      simp only [found] at hook₁
      exact .inl ⟨rfl, hook₁⟩
    | some delegation =>
      simp only [found] at hook₁
      exact .inr ⟨delegation, rfl, hook₁⟩

/-- `Delegate` stores the validator with the tokens added and the delegation with the shares
issued for them. -/
theorem delegate_store {delAddr : AccAddress} {bondAmt : Int} {tokenSrc : BondStatus}
    {validator : Validator} {subtractAccount : Bool} {newShares : Dec}
    (h : k.delegate ctx w delAddr bondAmt tokenSrc validator subtractAccount = .ok (w', newShares)) :
    validator.invalidExRate = false ∧ ∃ validator',
      validator.addTokensFromDel bondAmt = .ok (validator', newShares) ∧
      let delegation := (w.store.getDelegation delAddr validator.operatorAddress).getD
        ⟨delAddr, validator.operatorAddress, 0⟩
      w'.store = (w.store.updateValidator validator validator').setDelegation
        { delegation with shares := delegation.shares + newShares } := by
  obtain ⟨exRate, w₁, w₂, validator', -, -, -, hfrom, hook₂⟩ := delegate_hooks h
  refine ⟨exRate, validator', hfrom, ?_⟩
  rw [callHook_store hook₂]
  rfl

/-- `RemoveDelegation`: the hook, then the deletion. -/
theorem removeDelegation_hook {delegation : Delegation}
    (h : k.removeDelegation ctx w delegation = .ok w') :
    ∃ w₁, k.callHook ctx w
        (.beforeDelegationRemoved delegation.delegatorAddress delegation.validatorAddress) =
          .ok w₁ ∧
      w' = w₁.withStore (w.store.deleteDelegation delegation) := by
  unfold removeDelegation at h
  obtain ⟨w₁, hook, h⟩ := Fallible.bind_eq_ok.mp h
  rw [← Fallible.pure_eq_ok.mp h, ← callHook_store hook]
  exact ⟨w₁, hook, rfl⟩

theorem removeDelegation_store {delegation : Delegation}
    (h : k.removeDelegation ctx w delegation = .ok w') :
    w'.store = w.store.deleteDelegation delegation := by
  obtain ⟨w₁, -, rfl⟩ := removeDelegation_hook h
  rfl

theorem jailValidator_eq_ok {s s' : Store} {validator : Validator}
    (h : s.jailValidator validator = .ok s') :
    validator.jailed = false ∧
      s' = (s.setValidator { validator with jailed := true }).deleteValidatorByPowerIndex
        { validator with jailed := true } := by
  unfold Store.jailValidator at h
  split at h
  · exact absurd h Fallible.throw_ne_ok
  · next jailed =>
    obtain ⟨_, -, h⟩ := Fallible.bind_eq_ok.mp h
    exact ⟨by simpa using jailed, (Fallible.pure_eq_ok.mp h).symm⟩

theorem unjailValidator_eq_ok {s s' : Store} {validator : Validator}
    (h : s.unjailValidator validator = .ok s') :
    validator.jailed = true ∧
      s' = (s.setValidator { validator with jailed := false }).setValidatorByPowerIndex
        { validator with jailed := false } := by
  unfold Store.unjailValidator at h
  split at h
  · exact absurd h Fallible.throw_ne_ok
  · next jailed =>
    obtain ⟨_, -, h⟩ := Fallible.bind_eq_ok.mp h
    exact ⟨by simpa using jailed, (Fallible.pure_eq_ok.mp h).symm⟩

/-- The jail check of `unbond` either leaves the world, or jails the validator and returns the
jailed record. -/
theorem jailIfBelowMinSelfDelegation_eq {delegation : Delegation}
    {validator validator' : Validator}
    (h : jailIfBelowMinSelfDelegation w delegation validator = .ok (w', validator')) :
    (w' = w ∧ validator' = validator) ∨
      (validator.jailed = false ∧ validator' = { validator with jailed := true } ∧
        w' = w.withStore ((w.store.setValidator validator').deleteValidatorByPowerIndex
          validator')) := by
  unfold jailIfBelowMinSelfDelegation at h
  split at h
  · obtain ⟨s, hjail, h⟩ := Fallible.bind_eq_ok.mp h
    obtain ⟨v, hget, h⟩ := Fallible.bind_eq_ok.mp h
    obtain ⟨rfl, rfl⟩ := Prod.mk.inj (Fallible.pure_eq_ok.mp h)
    obtain ⟨jailed, rfl⟩ := jailValidator_eq_ok hjail
    -- the record read back is the jailed one just written
    have hget := mustGetValidator_eq_ok.mp hget
    simp only [World.withStore, Store.getValidator, Store.deleteValidatorByPowerIndex,
      Store.setValidator, SortedMap.find?_insert_self, Option.some.injEq] at hget
    exact .inr ⟨jailed, hget.symm, by rw [← hget]⟩
  · obtain ⟨rfl, rfl⟩ := Prod.mk.inj (Fallible.pure_eq_ok.mp h)
    exact .inl ⟨rfl, rfl⟩

theorem jailIfBelowMinSelfDelegation_store {delegation : Delegation}
    {validator validator' : Validator}
    (h : jailIfBelowMinSelfDelegation w delegation validator = .ok (w', validator')) :
    (w'.store = w.store ∧ validator' = validator) ∨
      (validator.jailed = false ∧ validator' = { validator with jailed := true } ∧
        w'.store = (w.store.setValidator validator').deleteValidatorByPowerIndex validator') := by
  rcases jailIfBelowMinSelfDelegation_eq h with ⟨rfl, rfl⟩ | ⟨jailed, rfl, rfl⟩
  · exact .inl ⟨rfl, rfl⟩
  · exact .inr ⟨jailed, rfl, rfl⟩

theorem removeValidatorTokensAndShares_eq_ok {s s' : Store} {validator validator' : Validator}
    {sharesToRemove : Dec} {removedTokens : Int}
    (h : s.removeValidatorTokensAndShares validator sharesToRemove =
      .ok (s', validator', removedTokens)) :
    validator.removeDelShares sharesToRemove = .ok (validator', removedTokens) ∧
      s' = s.updateValidator validator validator' := by
  unfold Store.removeValidatorTokensAndShares at h
  obtain ⟨_, -, h⟩ := Fallible.bind_eq_ok.mp h
  obtain ⟨⟨v, tokens⟩, hremove, h⟩ := Fallible.bind_eq_ok.mp h
  obtain ⟨_, -, h⟩ := Fallible.bind_eq_ok.mp h
  obtain ⟨rfl, hv⟩ := Prod.mk.inj (Fallible.pure_eq_ok.mp h)
  obtain ⟨rfl, rfl⟩ := Prod.mk.inj hv
  exact ⟨hremove, rfl⟩

theorem removeValidatorTokens_eq_ok {s s' : Store} {validator validator' : Validator}
    {tokensToRemove : Int}
    (h : s.removeValidatorTokens validator tokensToRemove = .ok (s', validator')) :
    validator.removeTokens tokensToRemove = .ok validator' ∧
      s' = s.updateValidator validator validator' := by
  unfold Store.removeValidatorTokens at h
  obtain ⟨_, -, h⟩ := Fallible.bind_eq_ok.mp h
  obtain ⟨v, hremove, h⟩ := Fallible.bind_eq_ok.mp h
  obtain ⟨_, -, h⟩ := Fallible.bind_eq_ok.mp h
  obtain ⟨rfl, rfl⟩ := Prod.mk.inj (Fallible.pure_eq_ok.mp h)
  exact ⟨hremove, rfl⟩

theorem getValidator_updateValidator_self (s : Store) (validator validator' : Validator) :
    (s.updateValidator validator validator').getValidator validator'.operatorAddress =
      some validator' := by
  unfold Store.updateValidator Store.setValidatorByPowerIndex
  split <;> simp [Store.getValidator, Store.setValidator, Store.setNewValidatorByPowerIndex,
    Store.deleteValidatorByPowerIndex]

/-- `unbond`, with its hooks: the hook before the shares change, the jail check, the delegation
deleted (after the hook of its removal) or written back (before the hook after it), the shares
off the validator, and the removal of a validator left unbonded without shares. -/
theorem unbond_hooks {delAddr : AccAddress} {valAddr : ValAddress} {shares : Dec} {amount : Int}
    (h : k.unbond ctx w delAddr valAddr shares = .ok (w', amount)) :
    ∃ (delegation : Delegation) (validator validator₁ validator₂ : Validator) (w₁ w₂ w₃ : World τ),
      w.store.getDelegation delAddr valAddr = some delegation ∧
      k.callHook ctx w (.beforeDelegationSharesModified delAddr valAddr) = .ok w₁ ∧
      ¬ delegation.shares < shares ∧ w.store.getValidator valAddr = some validator ∧
      jailIfBelowMinSelfDelegation w₁ { delegation with shares := delegation.shares - shares }
        validator = .ok (w₂, validator₁) ∧
      (if ({ delegation with shares := delegation.shares - shares } : Delegation).shares.isZero
        then k.removeDelegation ctx w₂ { delegation with shares := delegation.shares - shares }
        else k.callHook ctx
          (w₂.withStore (w₂.store.setDelegation { delegation with shares := delegation.shares - shares }))
          (.afterDelegationModified delegation.delegatorAddress delegation.validatorAddress)) =
        .ok w₃ ∧
      validator₁.removeDelShares shares = .ok (validator₂, amount) ∧
      (if validator₂.delegatorShares.isZero ∧ validator₂.isUnbonded = true then
          k.removeValidator ctx (w₃.withStore (w₃.store.updateValidator validator₁ validator₂))
            validator₂.operatorAddress
        else pure (w₃.withStore (w₃.store.updateValidator validator₁ validator₂))) = .ok w' := by
  unfold unbond at h
  split at h
  · exact absurd h Fallible.throw_ne_ok
  · next delegation found =>
    obtain ⟨w₁, hook, h⟩ := Fallible.bind_eq_ok.mp h
    split at h
    · exact absurd h Fallible.throw_ne_ok
    · next enough =>
      split at h
      · exact absurd h Fallible.throw_ne_ok
      · next validator hval =>
        rw [callHook_store hook] at hval
        obtain ⟨⟨w₂, validator₁⟩, hjail, h⟩ := Fallible.bind_eq_ok.mp h
        obtain ⟨w₃, hdel, h⟩ := Fallible.bind_eq_ok.mp h
        obtain ⟨⟨s₃, validator₂, amount'⟩, hremove, h⟩ := Fallible.bind_eq_ok.mp h
        obtain ⟨w₄, hempty, h⟩ := Fallible.bind_eq_ok.mp h
        obtain ⟨rfl, rfl⟩ := Prod.mk.inj (Fallible.pure_eq_ok.mp h)
        obtain ⟨hshares, rfl⟩ := removeValidatorTokensAndShares_eq_ok hremove
        exact ⟨delegation, validator, validator₁, validator₂, w₁, w₂, w₃, found, hook, enough, hval,
          hjail, hdel, hshares, hempty⟩

/-- `unbond`: the shares come off the delegation (deleted at zero) after the jail check, then
off the validator; a validator left unbonded without shares is deleted. -/
theorem unbond_store {delAddr : AccAddress} {valAddr : ValAddress} {shares : Dec} {amount : Int}
    (h : k.unbond ctx w delAddr valAddr shares = .ok (w', amount)) :
    ∃ (delegation : Delegation) (validator validator₁ validator₂ : Validator) (s₁ : Store),
      w.store.getDelegation delAddr valAddr = some delegation ∧ ¬ delegation.shares < shares ∧
      w.store.getValidator valAddr = some validator ∧
      ((s₁ = w.store ∧ validator₁ = validator) ∨
        (validator.jailed = false ∧ validator₁ = { validator with jailed := true } ∧
          s₁ = (w.store.setValidator validator₁).deleteValidatorByPowerIndex validator₁)) ∧
      validator₁.removeDelShares shares = .ok (validator₂, amount) ∧
      let delegation' := { delegation with shares := delegation.shares - shares }
      let s₂ := (if delegation'.shares.isZero then s₁.deleteDelegation delegation'
        else s₁.setDelegation delegation').updateValidator validator₁ validator₂
      (validator₂.delegatorShares.isZero ∧ validator₂.isUnbonded = true →
        validator₂.tokens ≤ 0 ∧ w'.store = s₂.deleteValidator validator₂.operatorAddress validator₂) ∧
      (¬ (validator₂.delegatorShares.isZero ∧ validator₂.isUnbonded = true) → w'.store = s₂) := by
  obtain ⟨delegation, validator, validator₁, validator₂, w₁, w₂, w₃, found, hook, enough, hval,
    hjail, hdel, hshares, hempty⟩ := unbond_hooks h
  -- the delegation is deleted or written back, with the hooks around it
  have store₃ : w₃.store =
      if ({ delegation with shares := delegation.shares - shares } : Delegation).shares.isZero
      then w₂.store.deleteDelegation { delegation with shares := delegation.shares - shares }
      else w₂.store.setDelegation { delegation with shares := delegation.shares - shares } := by
    split at hdel
    · next zero => rw [if_pos zero, removeDelegation_store hdel]
    · next nonzero => rw [if_neg nonzero, callHook_store hdel]; rfl
  refine ⟨delegation, validator, validator₁, validator₂, w₂.store, found, enough, hval, ?_,
    hshares, ?_, ?_⟩
  · rw [← callHook_store hook]
    exact jailIfBelowMinSelfDelegation_store hjail
  · intro empty
    rw [if_pos empty] at hempty
    rcases removeValidator_store hempty with ⟨missing, -⟩ | ⟨v, found₂, -, tokens, hstore⟩
    · rw [World.withStore, getValidator_updateValidator_self] at missing
      exact absurd missing (Option.some_ne_none _)
    · rw [World.withStore, getValidator_updateValidator_self, Option.some.injEq] at found₂
      subst found₂
      exact ⟨tokens, by rw [hstore, ← store₃]; rfl⟩
  · intro nonempty
    rw [if_neg nonempty] at hempty
    rw [← Fallible.pure_eq_ok.mp hempty, ← store₃]
    rfl

/-- `Undelegate`: `unbond`, then the tokens to the not-bonded pool, and the unbonding
delegation entry and its place in the queue; nothing else is written behind the hooks. -/
theorem undelegate_world {delAddr : AccAddress} {valAddr : ValAddress} {sharesAmount : Dec}
    {completionTime : Int}
    (h : k.undelegate ctx w delAddr valAddr sharesAmount = .ok (w', completionTime)) :
    ∃ validator w₁ returnAmount, w.store.getValidator valAddr = some validator ∧
      ¬ (delAddr = valAddr ∧ ctx.time < validator.createTime + defaultFrozenTime) ∧
      w.store.hasMaxUnbondingDelegationEntries delAddr valAddr = false ∧
      k.unbond ctx w delAddr valAddr sharesAmount = .ok (w₁, returnAmount) ∧
      completionTime = ctx.time + w₁.store.params.unbondingTime ∧ w'.ext = w₁.ext ∧
      let ubd := (w₁.store.setUnbondingDelegationEntry delAddr valAddr ctx.height completionTime
        returnAmount)
      w'.store = ubd.1.insertUBDQueue ubd.2 completionTime := by
  unfold undelegate at h
  split at h
  · exact absurd h Fallible.throw_ne_ok
  · next validator found =>
    split at h
    · exact absurd h Fallible.throw_ne_ok
    · next frozen =>
      split at h
      · exact absurd h Fallible.throw_ne_ok
      · next full =>
        obtain ⟨⟨w₁, returnAmount⟩, hunbond, h⟩ := Fallible.bind_eq_ok.mp h
        obtain ⟨w₂, hmove, h⟩ := Fallible.bind_eq_ok.mp h
        have moved : w₂ = w₁.withLedger w₂.ledger := by
          split at hmove
          · exact moveTokensBetweenPools_eq hmove
          · rw [← Fallible.pure_eq_ok.mp hmove]
            rfl
        obtain ⟨rfl, rfl⟩ := Prod.mk.inj (Fallible.pure_eq_ok.mp h)
        rw [moved]
        exact ⟨validator, w₁, returnAmount, found, frozen, by simpa using full, hunbond, rfl, rfl,
          rfl⟩

theorem undelegate_store {delAddr : AccAddress} {valAddr : ValAddress} {sharesAmount : Dec}
    {completionTime : Int}
    (h : k.undelegate ctx w delAddr valAddr sharesAmount = .ok (w', completionTime)) :
    ∃ validator w₁ returnAmount, w.store.getValidator valAddr = some validator ∧
      ¬ (delAddr = valAddr ∧ ctx.time < validator.createTime + defaultFrozenTime) ∧
      w.store.hasMaxUnbondingDelegationEntries delAddr valAddr = false ∧
      k.unbond ctx w delAddr valAddr sharesAmount = .ok (w₁, returnAmount) ∧
      completionTime = ctx.time + w₁.store.params.unbondingTime ∧
      let ubd := (w₁.store.setUnbondingDelegationEntry delAddr valAddr ctx.height completionTime
        returnAmount)
      w'.store = ubd.1.insertUBDQueue ubd.2 completionTime := by
  obtain ⟨validator, w₁, returnAmount, found, frozen, full, hunbond, time, -, store⟩ :=
    undelegate_world h
  exact ⟨validator, w₁, returnAmount, found, frozen, full, hunbond, time, store⟩

/-- What one round of the loop of `CompleteUnbonding` can do: skip a mature entry of zero
balance, pay a mature entry out and go on or stop at a failed payment, or keep an entry that is
not mature. -/
theorem completeUnbondingEntries_cons_eq_ok {delegator : AccAddress}
    {entry : UnbondingDelegationEntry} {entries : List UnbondingDelegationEntry}
    {r : World τ × List UnbondingDelegationEntry × Option SdkError}
    (h : k.completeUnbondingEntries ctx delegator w (entry :: entries) = .ok r) :
    (entry.isMature ctx.time = true ∧ entry.balance = 0 ∧
        k.completeUnbondingEntries ctx delegator w entries = .ok r) ∨
      (entry.isMature ctx.time = true ∧ entry.balance ≠ 0 ∧ ∃ coin amt,
        Coins.newCoin w.store.params.bondDenom entry.balance = .ok coin ∧
        Coins.newCoins [coin] = .ok amt ∧
        ((∃ err, k.supplyKeeper.undelegateCoinsFromModuleToAccount w.ledger notBondedPoolName
            delegator amt = .error err ∧ r = (w, entries, some err)) ∨
          ∃ ledger, k.supplyKeeper.undelegateCoinsFromModuleToAccount w.ledger notBondedPoolName
            delegator amt = .ok ledger ∧
            k.completeUnbondingEntries ctx delegator (w.withLedger ledger) entries = .ok r)) ∨
      (entry.isMature ctx.time = false ∧ ∃ w₁ kept err,
        k.completeUnbondingEntries ctx delegator w entries = .ok (w₁, kept, err) ∧
          r = (w₁, entry :: kept, err)) := by
  unfold completeUnbondingEntries at h
  split at h
  · next mature =>
    split at h
    · next zero => exact .inl ⟨mature, zero, h⟩
    · next nonzero =>
      obtain ⟨coin, hcoin, h⟩ := Fallible.bind_eq_ok.mp h
      obtain ⟨amt, hamt, h⟩ := Fallible.bind_eq_ok.mp h
      refine .inr (.inl ⟨mature, nonzero, coin, amt, hcoin, hamt, ?_⟩)
      split at h
      · exact absurd h Fallible.throw_ne_ok
      · next err _ failed => exact .inl ⟨err, failed, (Fallible.pure_eq_ok.mp h).symm⟩
      · next ledger paid => exact .inr ⟨ledger, paid, h⟩
  · next notMature =>
    obtain ⟨⟨w₁, kept, err⟩, hrest, h⟩ := Fallible.bind_eq_ok.mp h
    exact .inr (.inr ⟨by simpa using notMature, w₁, kept, err, hrest,
      (Fallible.pure_eq_ok.mp h).symm⟩)

/-- The loop of `CompleteUnbonding` pays from the pool and writes no record. -/
theorem completeUnbondingEntries_eq {delegator : AccAddress}
    {entries kept : List UnbondingDelegationEntry} {err : Option SdkError}
    (h : k.completeUnbondingEntries ctx delegator w entries = .ok (w', kept, err)) :
    w' = w.withLedger w'.ledger := by
  induction entries generalizing w kept err with
  | nil =>
    unfold completeUnbondingEntries at h
    obtain ⟨rfl, -⟩ := Prod.mk.inj (Fallible.pure_eq_ok.mp h)
    rfl
  | cons entry entries ih =>
    rcases completeUnbondingEntries_cons_eq_ok h with
      ⟨-, -, hrest⟩ | ⟨-, -, coin, amt, -, -, ⟨e, -, stopped⟩ | ⟨ledger, -, hrest⟩⟩ |
        ⟨-, w₁, kept₁, err₁, hrest, kept⟩
    · exact ih hrest
    · obtain ⟨rfl, -⟩ := Prod.mk.inj stopped
      rfl
    · -- a payment writes the accounts only
      rw [ih hrest]
      rfl
    · obtain ⟨rfl, -⟩ := Prod.mk.inj kept
      exact ih hrest

theorem completeUnbondingEntries_store {delegator : AccAddress}
    {entries kept : List UnbondingDelegationEntry} {err : Option SdkError}
    (h : k.completeUnbondingEntries ctx delegator w entries = .ok (w', kept, err)) :
    w'.store = w.store := by
  rw [completeUnbondingEntries_eq h]
  rfl

/-- `CompleteUnbonding` pays from the pool and writes only the unbonding delegation it
completes. -/
theorem completeUnbonding_eq {delAddr : AccAddress} {valAddr : ValAddress}
    {err : Option SdkError}
    (h : k.completeUnbonding ctx w delAddr valAddr = .ok (w', err)) :
    w' = w.withLedger w'.ledger ∨ ∃ ubd, w.store.getUnbondingDelegation delAddr valAddr = some ubd ∧
      (w' = (w.withStore (w.store.removeUnbondingDelegation ubd)).withLedger w'.ledger ∨
        ∃ entries, w' =
          (w.withStore (w.store.setUnbondingDelegation { ubd with entries := entries })).withLedger
            w'.ledger) := by
  unfold completeUnbonding at h
  split at h
  · obtain ⟨rfl, -⟩ := Prod.mk.inj (Fallible.pure_eq_ok.mp h)
    exact .inl rfl
  · next ubd found =>
    obtain ⟨⟨w₁, entries, err₁⟩, hloop, h⟩ := Fallible.bind_eq_ok.mp h
    have paid := completeUnbondingEntries_eq hloop
    rcases err₁ with _ | err₁
    · dsimp only at h
      split at h
      · obtain ⟨rfl, -⟩ := Prod.mk.inj (Fallible.pure_eq_ok.mp h)
        refine .inr ⟨ubd, found, .inl ?_⟩
        rw [paid]
        rfl
      · obtain ⟨rfl, -⟩ := Prod.mk.inj (Fallible.pure_eq_ok.mp h)
        refine .inr ⟨ubd, found, .inr ⟨entries, ?_⟩⟩
        rw [paid]
        rfl
    · obtain ⟨rfl, -⟩ := Prod.mk.inj (Fallible.pure_eq_ok.mp h)
      exact .inl paid

/-- `CompleteUnbonding` writes only the unbonding delegation it completes. -/
theorem completeUnbonding_store {delAddr : AccAddress} {valAddr : ValAddress}
    {err : Option SdkError}
    (h : k.completeUnbonding ctx w delAddr valAddr = .ok (w', err)) :
    w'.store = w.store ∨ ∃ ubd, w.store.getUnbondingDelegation delAddr valAddr = some ubd ∧
      (w'.store = w.store.removeUnbondingDelegation ubd ∨
        ∃ entries, w'.store = w.store.setUnbondingDelegation { ubd with entries := entries }) := by
  rcases completeUnbonding_eq h with paid | ⟨ubd, found, paid | ⟨entries, paid⟩⟩ <;> rw [paid]
  · exact .inl rfl
  · exact .inr ⟨ubd, found, .inl rfl⟩
  · exact .inr ⟨ubd, found, .inr ⟨entries, rfl⟩⟩

/-- `BeginRedelegation`: `unbond` from the source, `Delegate` to the destination as read before
the unbonding, then the redelegation entry unless the source is unbonded; nothing else is written
behind the hooks. -/
theorem beginRedelegation_world {delAddr : AccAddress} {valSrcAddr valDstAddr : ValAddress}
    {sharesAmount : Dec} {completionTime : Int}
    (h : k.beginRedelegation ctx w delAddr valSrcAddr valDstAddr sharesAmount =
      .ok (w', completionTime)) :
    ∃ dstValidator srcValidator w₁ w₂ returnAmount sharesCreated,
      valSrcAddr ≠ valDstAddr ∧
      w.store.getValidator valDstAddr = some dstValidator ∧
      w.store.getValidator valSrcAddr = some srcValidator ∧
      w.store.hasReceivingRedelegation delAddr valSrcAddr = false ∧
      k.unbond ctx w delAddr valSrcAddr sharesAmount = .ok (w₁, returnAmount) ∧
      returnAmount ≠ 0 ∧
      k.delegate ctx w₁ delAddr returnAmount srcValidator.status dstValidator false =
        .ok (w₂, sharesCreated) ∧
      w'.ext = w₂.ext ∧
      (w'.store = w₂.store ∨
        ∃ height,
          let red := w₂.store.setRedelegationEntry delAddr valSrcAddr valDstAddr height
            completionTime returnAmount sharesCreated
          w'.store = red.1.insertRedelegationQueue red.2 completionTime) := by
  unfold beginRedelegation at h
  split at h
  · exact absurd h Fallible.throw_ne_ok
  · next self =>
    split at h
    · exact absurd h Fallible.throw_ne_ok
    · exact absurd h Fallible.throw_ne_ok
    · next dstValidator srcValidator foundDst foundSrc =>
      split at h
      · exact absurd h Fallible.throw_ne_ok
      · next transitive =>
        split at h
        · exact absurd h Fallible.throw_ne_ok
        · split at h
          · exact absurd h Fallible.throw_ne_ok
          · obtain ⟨⟨w₁, returnAmount⟩, hunbond, h⟩ := Fallible.bind_eq_ok.mp h
            dsimp only at h
            split at h
            · exact absurd h Fallible.throw_ne_ok
            · next small =>
              obtain ⟨⟨w₂, sharesCreated⟩, hdelegate, h⟩ := Fallible.bind_eq_ok.mp h
              refine ⟨dstValidator, srcValidator, w₁, w₂, returnAmount, sharesCreated, self,
                foundDst, foundSrc, by simpa using transitive, hunbond, small, hdelegate, ?_⟩
              rcases info : getBeginInfo ctx w₂ valSrcAddr with ⟨time, height, completeNow⟩
              rw [info] at h
              dsimp only at h
              split at h
              · obtain ⟨rfl, rfl⟩ := Prod.mk.inj (Fallible.pure_eq_ok.mp h)
                exact ⟨rfl, .inl rfl⟩
              · obtain ⟨rfl, rfl⟩ := Prod.mk.inj (Fallible.pure_eq_ok.mp h)
                exact ⟨rfl, .inr ⟨height, rfl⟩⟩

theorem beginRedelegation_store {delAddr : AccAddress} {valSrcAddr valDstAddr : ValAddress}
    {sharesAmount : Dec} {completionTime : Int}
    (h : k.beginRedelegation ctx w delAddr valSrcAddr valDstAddr sharesAmount =
      .ok (w', completionTime)) :
    ∃ dstValidator srcValidator w₁ w₂ returnAmount sharesCreated,
      valSrcAddr ≠ valDstAddr ∧
      w.store.getValidator valDstAddr = some dstValidator ∧
      w.store.getValidator valSrcAddr = some srcValidator ∧
      w.store.hasReceivingRedelegation delAddr valSrcAddr = false ∧
      k.unbond ctx w delAddr valSrcAddr sharesAmount = .ok (w₁, returnAmount) ∧
      returnAmount ≠ 0 ∧
      k.delegate ctx w₁ delAddr returnAmount srcValidator.status dstValidator false =
        .ok (w₂, sharesCreated) ∧
      (w'.store = w₂.store ∨
        ∃ height,
          let red := w₂.store.setRedelegationEntry delAddr valSrcAddr valDstAddr height
            completionTime returnAmount sharesCreated
          w'.store = red.1.insertRedelegationQueue red.2 completionTime) := by
  obtain ⟨dstValidator, srcValidator, w₁, w₂, returnAmount, sharesCreated, distinct, foundDst,
    foundSrc, transitive, hunbond, small, hdelegate, -, store⟩ := beginRedelegation_world h
  exact ⟨dstValidator, srcValidator, w₁, w₂, returnAmount, sharesCreated, distinct, foundDst,
    foundSrc, transitive, hunbond, small, hdelegate, store⟩

/-- `CompleteRedelegation` writes back or deletes the redelegation found, less its mature
entries. -/
theorem completeRedelegation_eq {delAddr : AccAddress} {valSrcAddr valDstAddr : ValAddress}
    (h : completeRedelegation ctx w delAddr valSrcAddr valDstAddr = .ok w') :
    ∃ red, w.store.getRedelegation delAddr valSrcAddr valDstAddr = some red ∧
      let red' := { red with entries := red.entries.filter fun entry => !entry.isMature ctx.time }
      (w' = w.withStore (w.store.removeRedelegation red') ∨
        w' = w.withStore (w.store.setRedelegation red')) := by
  unfold completeRedelegation at h
  split at h
  · exact absurd h Fallible.throw_ne_ok
  · next red found =>
    refine ⟨red, found, ?_⟩
    dsimp only at h
    split at h
    · exact .inl (Fallible.pure_eq_ok.mp h).symm
    · exact .inr (Fallible.pure_eq_ok.mp h).symm

theorem completeRedelegation_store {delAddr : AccAddress} {valSrcAddr valDstAddr : ValAddress}
    (h : completeRedelegation ctx w delAddr valSrcAddr valDstAddr = .ok w') :
    ∃ red, w.store.getRedelegation delAddr valSrcAddr valDstAddr = some red ∧
      let red' := { red with entries := red.entries.filter fun entry => !entry.isMature ctx.time }
      (w'.store = w.store.removeRedelegation red' ∨ w'.store = w.store.setRedelegation red') := by
  obtain ⟨red, found, rfl | rfl⟩ := completeRedelegation_eq h
  · exact ⟨red, found, .inl rfl⟩
  · exact ⟨red, found, .inr rfl⟩

end StoreSpec

end Keeper

end Staking

end Pocc
