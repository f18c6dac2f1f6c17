import Pocc.Distribution.Allocation
import Pocc.Auth.Ante
import Pocc.Staking.Chain
import Pocc.Types.DecCoinTruncate
import Mathlib

/-!
# The distribution keeper: periods, reference counts and withdrawals

x/distribution/keeper: the F1 fee distribution (validator.go, delegation.go), the staking hooks
it implements (hooks.go), the withdrawals of its messages (keeper.go, handler.go) and the store
that holds its records (store.go).

A validator's rewards are cut into periods. `ValidatorCurrentRewards` holds the rewards of the
period that is running; `incrementValidatorPeriod` ends it and records, under its number, the
cumulative reward ratio so far in a `ValidatorHistoricalRewards`. A delegation remembers the
period it started after (`DelegatorStartingInfo`), a slash the period it ended
(`ValidatorSlashEvent`), and a validator the period before its current one: each historical
record counts these references, and is deleted when the last one goes. A delegation's rewards
are its stake times the growth of the ratio since its starting period, with the stake cut by
each slash on the way.

The keys of the store are modelled as tuples in lexicographic order: the Go keys are the
address followed by fixed-width big-endian numbers, so with the 20-byte addresses of the chain
their byte order is this order, and deleting the keys under the prefix of an address deletes
the entries of that address.
-/

namespace Pocc

namespace DecCoins

/-- `DecCoins.QuoDecTruncate`: every amount divided by `d`, truncated; the quotients that are
not zero are added, in order, to a new set. -/
def quoDecTruncate (coins : DecCoins) (d : Dec) : Except SdkError DecCoins :=
  if d.isZero then throw (.panic "invalid zero decimal") else pure (mulEach Dec.quoTruncate coins d)

/-- `DecCoins.Intersect`: the smaller of the two amounts of each denomination of `coins`, the
zeros removed. -/
def intersect (coins coinsB : DecCoins) : DecCoins :=
  CoinSet.removeZeroCoins
    (coins.map fun coin => ⟨coin.denom, min coin.amount (coinsB.amountOf coin.denom)⟩)

/-- `DecCoins.IsZero`. -/
def isZero (coins : DecCoins) : Bool := coins.all fun coin => decide coin.amount.isZero

end DecCoins

namespace Distribution

open Staking (Header World HookCall)

/-! ## Records -/

/-- `ValidatorHistoricalRewards`: the cumulative reward ratio at the end of a period, and the
number of references to it. -/
structure ValidatorHistoricalRewards where
  cumulativeRewardRatio : DecCoins
  referenceCount : Nat
  deriving DecidableEq, Repr

/-- `DelegatorStartingInfo`: the period a delegation started after, its stake then, and the
height it started at. -/
structure DelegatorStartingInfo where
  previousPeriod : Nat
  stake : Dec
  height : Nat
  deriving DecidableEq, Repr

/-- `ValidatorSlashEvent`: the period a slash ended, and the fraction slashed. -/
structure ValidatorSlashEvent where
  validatorPeriod : Nat
  fraction : Dec
  deriving DecidableEq, Repr

/-- The key of a historical record: the validator, then the period. -/
abbrev PeriodKey := Lex (ValAddress × Nat)

/-- The key of a starting info, `GetDelegatorStartingInfoKey`: the validator, then the
delegator. -/
abbrev StartingInfoKey := Lex (ValAddress × AccAddress)

/-- The key of a slash event, `GetValidatorSlashEventKey`: the validator, the height, the
period. -/
abbrev SlashEventKey := Lex (ValAddress × Lex (Nat × Nat))

/-- `uint64(ctx.BlockHeight())`. -/
def blockHeight (ctx : Header) : Nat := (UInt64.ofInt ctx.height).toNat

/-- The store of x/distribution, with the parameters it reads (`GetWithdrawAddrEnabled` and
those of `AllocateTokens`) and the proposer `BeginBlocker` records. -/
structure Store where
  rewards : RewardsStore
  feePool : FeePool
  historicalRewards : SortedMap PeriodKey ValidatorHistoricalRewards
  delegatorStartingInfos : SortedMap StartingInfoKey DelegatorStartingInfo
  slashEvents : SortedMap SlashEventKey ValidatorSlashEvent
  delegatorWithdrawAddrs : SortedMap AccAddress AccAddress
  previousProposer : Option ConsAddress
  params : Params
  withdrawAddrEnabled : Bool

namespace Store

/-- The store of a chain whose genesis has no validators yet. -/
def empty (feePool : FeePool) (params : Params) (withdrawAddrEnabled : Bool) : Store :=
  ⟨⟨.empty, .empty, .empty⟩, feePool, .empty, .empty, .empty, .empty, none, params,
    withdrawAddrEnabled⟩

variable (s : Store)

/-! ## The getters and setters of store.go -/

/-- `GetDelegatorWithdrawAddr`: the delegator itself unless another address is set. -/
def getDelegatorWithdrawAddr (delAddr : AccAddress) : AccAddress :=
  (s.delegatorWithdrawAddrs.find? delAddr).getD delAddr

/-- `SetDelegatorWithdrawAddr`. -/
def setDelegatorWithdrawAddr (delAddr withdrawAddr : AccAddress) : Store :=
  { s with delegatorWithdrawAddrs := s.delegatorWithdrawAddrs.insert delAddr withdrawAddr }

/-- `GetPreviousProposerConsAddr`. -/
def getPreviousProposerConsAddr : Except SdkError ConsAddress :=
  match s.previousProposer with
  | some consAddr => pure consAddr
  | none => throw (.panic "Previous proposer not set")

/-- `GetDelegatorStartingInfo`: a missing record decodes no bytes. -/
def getDelegatorStartingInfo (val : ValAddress) (del : AccAddress) :
    Except SdkError DelegatorStartingInfo :=
  match s.delegatorStartingInfos.find? (toLex (val, del)) with
  | some info => pure info
  | none => throw RewardsStore.errEmptyBytes

/-- `SetDelegatorStartingInfo`. -/
def setDelegatorStartingInfo (val : ValAddress) (del : AccAddress) (info : DelegatorStartingInfo) :
    Store :=
  { s with delegatorStartingInfos := s.delegatorStartingInfos.insert (toLex (val, del)) info }

/-- `HasDelegatorStartingInfo`. -/
def hasDelegatorStartingInfo (val : ValAddress) (del : AccAddress) : Bool :=
  (s.delegatorStartingInfos.find? (toLex (val, del))).isSome

/-- `DeleteDelegatorStartingInfo`. -/
def deleteDelegatorStartingInfo (val : ValAddress) (del : AccAddress) : Store :=
  { s with delegatorStartingInfos := s.delegatorStartingInfos.erase (toLex (val, del)) }

/-- `GetValidatorHistoricalRewards`: a missing record decodes no bytes. -/
def getValidatorHistoricalRewards (val : ValAddress) (period : Nat) :
    Except SdkError ValidatorHistoricalRewards :=
  match s.historicalRewards.find? (toLex (val, period)) with
  | some rewards => pure rewards
  | none => throw RewardsStore.errEmptyBytes

/-- `SetValidatorHistoricalRewards`. -/
def setValidatorHistoricalRewards (val : ValAddress) (period : Nat)
    (rewards : ValidatorHistoricalRewards) : Store :=
  { s with historicalRewards := s.historicalRewards.insert (toLex (val, period)) rewards }

/-- `DeleteValidatorHistoricalReward`: the record of one period. -/
def deleteValidatorHistoricalReward (val : ValAddress) (period : Nat) : Store :=
  { s with historicalRewards := s.historicalRewards.erase (toLex (val, period)) }

/-- `DeleteValidatorHistoricalRewards`: every record under the prefix of `val`. -/
def deleteValidatorHistoricalRewards (val : ValAddress) : Store :=
  { s with historicalRewards := s.historicalRewards.filter fun k _ => (ofLex k).1 ≠ val }

/-- `GetValidatorHistoricalReferenceCount`: the reference counts of all records, added. -/
def getValidatorHistoricalReferenceCount : Nat :=
  s.historicalRewards.sumBy fun _ rewards => rewards.referenceCount

/-- `DeleteValidatorCurrentRewards`. -/
def deleteValidatorCurrentRewards (val : ValAddress) : Store :=
  { s with rewards := { s.rewards with currentRewards := s.rewards.currentRewards.erase val } }

/-- `DeleteValidatorAccumulatedCommission`. -/
def deleteValidatorAccumulatedCommission (val : ValAddress) : Store :=
  { s with
    rewards := { s.rewards with
      accumulatedCommission := s.rewards.accumulatedCommission.erase val } }

/-- `DeleteValidatorOutstandingRewards`. -/
def deleteValidatorOutstandingRewards (val : ValAddress) : Store :=
  { s with
    rewards := { s.rewards with outstandingRewards := s.rewards.outstandingRewards.erase val } }

/-- `SetValidatorSlashEvent`. -/
def setValidatorSlashEvent (val : ValAddress) (height period : Nat) (event : ValidatorSlashEvent) :
    Store :=
  { s with slashEvents := s.slashEvents.insert (toLex (val, toLex (height, period))) event }

/-- `IterateValidatorSlashEventsBetween`: the slash events of `val` from `startingHeight` to
`endingHeight` inclusive, in the order of their keys, with their heights. -/
def iterateValidatorSlashEventsBetween (val : ValAddress) (startingHeight endingHeight : Nat) :
    List (Nat × ValidatorSlashEvent) :=
  (s.slashEvents.entries.filter fun e => (ofLex e.1).1 = val ∧
      startingHeight ≤ (ofLex (ofLex e.1).2).1 ∧ (ofLex (ofLex e.1).2).1 ≤ endingHeight).map
    fun e => ((ofLex (ofLex e.1).2).1, e.2)

/-- `DeleteValidatorSlashEvents`: every event under the prefix of `val`. -/
def deleteValidatorSlashEvents (val : ValAddress) : Store :=
  { s with slashEvents := s.slashEvents.filter fun k _ => (ofLex k).1 ≠ val }

/-- The community pool with `coins` added. -/
def addToCommunityPool (coins : DecCoins) : Store :=
  { s with feePool := { s.feePool with communityPool := s.feePool.communityPool.add coins } }

/-- `SetValidatorOutstandingRewards`, on the whole store. -/
def setValidatorOutstandingRewards (val : ValAddress) (rewards : DecCoins) : Store :=
  { s with rewards := s.rewards.setValidatorOutstandingRewards val rewards }

/-! ## Periods and reference counts (validator.go) -/

/-- `initializeValidator`: the historical record of period 0 with one reference, current
rewards from period 1, no commission and no outstanding rewards. -/
def initializeValidator (val : Staking.Validator) : Store :=
  let s := s.setValidatorHistoricalRewards val.operatorAddress 0 ⟨[], 1⟩
  let s := { s with
    rewards := ((s.rewards.setValidatorCurrentRewards val.operatorAddress ⟨[], 1⟩)
      |>.setValidatorAccumulatedCommission val.operatorAddress []) }
  s.setValidatorOutstandingRewards val.operatorAddress []

/-- `incrementReferenceCount`. -/
def incrementReferenceCount (valAddr : ValAddress) (period : Nat) : Except SdkError Store := do
  let historical ← s.getValidatorHistoricalRewards valAddr period
  if 2 < historical.referenceCount then throw (.panic "reference count should never exceed 2")
  else
    pure (s.setValidatorHistoricalRewards valAddr period
      { historical with referenceCount := historical.referenceCount + 1 })

/-- `decrementReferenceCount`: the record is deleted when no reference is left. -/
def decrementReferenceCount (valAddr : ValAddress) (period : Nat) : Except SdkError Store := do
  let historical ← s.getValidatorHistoricalRewards valAddr period
  if historical.referenceCount = 0 then throw (.panic "cannot set negative reference count")
  else
    let historical := { historical with referenceCount := historical.referenceCount - 1 }
    if historical.referenceCount = 0 then pure (s.deleteValidatorHistoricalReward valAddr period)
    else pure (s.setValidatorHistoricalRewards valAddr period historical)

/-- `incrementValidatorPeriod`: end the current period, returning its number. The rewards of a
validator without tokens go to the community pool; otherwise they are divided by its tokens,
truncated, and added to the ratio of the period before. -/
def incrementValidatorPeriod (val : Staking.Validator) : Except SdkError (Store × Nat) := do
  let rewards ← s.rewards.getValidatorCurrentRewards val.operatorAddress
  let (s, current) ←
    (if val.tokens = 0 then do
      let outstanding ← s.rewards.getValidatorOutstandingRewards val.operatorAddress
      let outstanding ← outstanding.sub rewards.rewards
      pure ((s.addToCommunityPool rewards.rewards).setValidatorOutstandingRewards
        val.operatorAddress outstanding, [])
    else do
      let current ← rewards.rewards.quoDecTruncate (Dec.ofInt val.tokens)
      pure (s, current))
  let historical ← s.getValidatorHistoricalRewards val.operatorAddress (rewards.period - 1)
  let s ← s.decrementReferenceCount val.operatorAddress (rewards.period - 1)
  let s := s.setValidatorHistoricalRewards val.operatorAddress rewards.period
    ⟨historical.cumulativeRewardRatio.add current, 1⟩
  let s := { s with
    rewards := s.rewards.setValidatorCurrentRewards val.operatorAddress ⟨[], rewards.period + 1⟩ }
  pure (s, rewards.period)

/-- `updateValidatorSlashFraction`: end the validator's period, and record the slash as a
reference to the period ended. A validator that is not stored is read as nil. -/
def updateValidatorSlashFraction (ctx : Header) (staking : Staking.Store) (valAddr : ValAddress)
    (fraction : Dec) : Except SdkError Store :=
  if Dec.oneDec < fraction ∨ fraction < 0 then
    let current := fraction.string
    throw (.panic s!"fraction must be >=0 and <=1, current fraction: {current}")
  else
    match staking.getValidator valAddr with
    | none => throw errNilPointer
    | some val => do
      let (s, newPeriod) ← s.incrementValidatorPeriod val
      let s ← s.incrementReferenceCount valAddr newPeriod
      pure (s.setValidatorSlashEvent valAddr (blockHeight ctx) newPeriod ⟨newPeriod, fraction⟩)

/-! ## Delegations (delegation.go) -/

/-- `initializeDelegation`: the delegation refers to the period just ended, with its stake in
tokens, truncated. -/
def initializeDelegation (ctx : Header) (staking : Staking.Store) (val : ValAddress)
    (del : AccAddress) : Except SdkError Store := do
  let current ← s.rewards.getValidatorCurrentRewards val
  let previousPeriod := current.period - 1
  let s ← s.incrementReferenceCount val previousPeriod
  match staking.getValidator val, staking.getDelegation del val with
  | none, _ => throw errNilPointer
  | some _, none => throw errNilPointer
  | some validator, some delegation =>
    let stake ← (delegation.shares.mulInt validator.tokens).quoTruncateChecked
      validator.delegatorShares
    pure (s.setDelegatorStartingInfo val del ⟨previousPeriod, stake, blockHeight ctx⟩)

/-- `calculateDelegationRewardsBetween`: the stake times the growth of the ratio between two
periods, truncated. -/
def calculateDelegationRewardsBetween (val : Staking.Validator) (startingPeriod endingPeriod : Nat)
    (stake : Dec) : Except SdkError DecCoins :=
  if endingPeriod < startingPeriod then
    throw (.panic "startingPeriod cannot be greater than endingPeriod")
  else if stake < 0 then throw (.panic "stake should not be negative")
  else do
    let starting ← s.getValidatorHistoricalRewards val.operatorAddress startingPeriod
    let ending ← s.getValidatorHistoricalRewards val.operatorAddress endingPeriod
    let difference ← ending.cumulativeRewardRatio.sub starting.cumulativeRewardRatio
    if CoinSet.isAnyNegative difference then throw (.panic "negative rewards should not be possible")
    else pure (difference.mulDecTruncate stake)

/-- `SmallestDec().MulInt64(3)`: how far the stake rebuilt over the periods may exceed the
current stake. -/
def marginOfErr : Dec := Dec.smallestDec.mulInt 3

/-- One slash event of the loop of `calculateDelegationRewards`: a slash that ended a period
after the starting one closes the rewards up to it and cuts the stake by its fraction. -/
def slashStep (val : Staking.Validator) (acc : DecCoins × Dec × Nat)
    (event : Nat × ValidatorSlashEvent) : Except SdkError (DecCoins × Dec × Nat) :=
  let (rewards, stake, startingPeriod) := acc
  let endingPeriod := event.2.validatorPeriod
  if startingPeriod < endingPeriod then do
    let between ← s.calculateDelegationRewardsBetween val startingPeriod endingPeriod stake
    pure (rewards.add between, stake.mulTruncate (Dec.oneDec - event.2.fraction), endingPeriod)
  else pure acc

end Store

/-- What the distribution keeper reads besides its store: the supply keeper it pays with, and
`AccAddress.String`, the bech32 text of an address, for its messages. -/
structure Keeper where
  supplyKeeper : SupplyKeeper
  accAddrString : AccAddress → String
  /-- `blacklistedAddrs`: the module accounts that may not receive external funds. -/
  blacklisted : AccAddress → Bool
  /-- The name of the fee collector module account, which `AllocateTokens` empties. -/
  feeCollectorName : String

/-- `ErrNoDelegationDistInfo`. -/
def errNoDelegationDistInfo : SdkError :=
  .error codespace (.module 104) "no delegation distribution info"

/-- `ErrNoValidatorDistInfo`. -/
def errNoValidatorDistInfo : SdkError :=
  .error codespace (.module 104) "no validator distribution info"

/-- `ErrNoValidatorCommission`. -/
def errNoValidatorCommission : SdkError :=
  .error codespace (.module 105) "no validator commission to withdraw"

/-- `ErrSetWithdrawAddrDisabled`. -/
def errSetWithdrawAddrDisabled : SdkError :=
  .error codespace (.module 106) "set withdraw address disabled"

namespace Keeper

variable (k : Keeper) (ctx : Header)

open Store

/-- `calculateDelegationRewards`: from the starting period, through the slash events since the
starting height, to `endingPeriod`. The stake rebuilt from the slashes may exceed the current
stake by `marginOfErr`, and is then taken as the current stake; by more, it panics. -/
def calculateDelegationRewards (s : Store) (val : Staking.Validator) (del : Staking.Delegation)
    (endingPeriod : Nat) : Except SdkError DecCoins := do
  let startingInfo ← s.getDelegatorStartingInfo del.validatorAddress del.delegatorAddress
  if startingInfo.height = blockHeight ctx then pure []
  else do
    let endingHeight := blockHeight ctx
    let (rewards, stake, startingPeriod) ←
      (if startingInfo.height < endingHeight then
        (s.iterateValidatorSlashEventsBetween del.validatorAddress startingInfo.height
          endingHeight).foldlM (s.slashStep val)
          ([], startingInfo.stake, startingInfo.previousPeriod)
      else pure ([], startingInfo.stake, startingInfo.previousPeriod))
    let currentStake ← (del.shares.mulInt val.tokens).quoChecked val.delegatorShares
    let stake ←
      (if currentStake < stake then
        if stake ≤ currentStake + marginOfErr then pure currentStake
        else
          let delegator := k.accAddrString del.delegatorAddress
          let final := stake.string
          let current := currentStake.string
          throw (.panic s!"calculated final stake for delegator {delegator} greater than current stake\n\tfinal stake:\t{final}\n\tcurrent stake:\t{current}")
      else pure stake)
    let final ← s.calculateDelegationRewardsBetween val startingPeriod endingPeriod stake
    pure (rewards.add final)

/-- `withdrawDelegationRewards`: end the validator's period, pay the delegation's rewards (at
most the outstanding rewards) in whole coins to the withdraw address, the fractions to the
community pool, and drop the starting info with its reference. The validator is read as nil
when it is not stored. -/
def withdrawDelegationRewards (L : Ledger) (s : Store) (val : Option Staking.Validator)
    (del : Staking.Delegation) : Except SdkError (Coins × Ledger × Store) :=
  if !s.hasDelegatorStartingInfo del.validatorAddress del.delegatorAddress then
    throw errNoDelegationDistInfo
  else
    match val with
    | none => throw errNilPointer
    | some val => do
      let (s, endingPeriod) ← s.incrementValidatorPeriod val
      let rewardsRaw ← k.calculateDelegationRewards ctx s val del endingPeriod
      let outstanding ← s.rewards.getValidatorOutstandingRewards del.validatorAddress
      let rewards := rewardsRaw.intersect outstanding
      let (coins, remainder) ← DecCoins.truncateDecimal rewards
      let L ←
        (if coins.isZero then pure L
        else
          k.supplyKeeper.sendCoinsFromModuleToAccount L ctx.time moduleName
            (s.getDelegatorWithdrawAddr del.delegatorAddress) coins)
      let s := s.setValidatorOutstandingRewards del.validatorAddress (← outstanding.sub rewards)
      let s := s.addToCommunityPool remainder
      let startingInfo ← s.getDelegatorStartingInfo del.validatorAddress del.delegatorAddress
      let s ← s.decrementReferenceCount del.validatorAddress startingInfo.previousPeriod
      pure (coins, L, s.deleteDelegatorStartingInfo del.validatorAddress del.delegatorAddress)

/-- `WithdrawValidatorCommission`: the whole coins of the accumulated commission go to the
validator's withdraw address and leave its outstanding rewards; the fractions stay. -/
def withdrawValidatorCommission (L : Ledger) (s : Store) (valAddr : ValAddress) :
    Except SdkError (Coins × Ledger × Store) := do
  let accumCommission := s.rewards.getValidatorAccumulatedCommission valAddr
  if accumCommission.isZero then throw errNoValidatorCommission
  else do
    let (commission, remainder) ← DecCoins.truncateDecimal accumCommission
    let s := { s with rewards := s.rewards.setValidatorAccumulatedCommission valAddr remainder }
    let outstanding ← s.rewards.getValidatorOutstandingRewards valAddr
    let s := s.setValidatorOutstandingRewards valAddr
      (← outstanding.sub (DecCoins.ofCoins commission))
    let L ←
      (if commission.isZero then pure L
      else
        k.supplyKeeper.sendCoinsFromModuleToAccount L ctx.time moduleName
          (s.getDelegatorWithdrawAddr valAddr) commission)
    pure (commission, L, s)

/-- `SetWithdrawAddr`. -/
def setWithdrawAddr (s : Store) (delegatorAddr withdrawAddr : AccAddress) :
    Except SdkError Store :=
  if k.blacklisted withdrawAddr then
    let addr := k.accAddrString withdrawAddr
    throw (SdkError.unauthorized s!"{addr} is blacklisted from receiving external funds")
  else if !s.withdrawAddrEnabled then throw errSetWithdrawAddrDisabled
  else pure (s.setDelegatorWithdrawAddr delegatorAddr withdrawAddr)

/-! ## The staking hooks (hooks.go) -/

/-- `AfterValidatorRemoved`: the commission is paid out (whole coins to the validator's
withdraw address, fractions to the community pool), the rest of the outstanding rewards goes
to the community pool, and every record of the validator is deleted. -/
def afterValidatorRemoved (L : Ledger) (s : Store) (valAddr : ValAddress) :
    Except SdkError (Ledger × Store) := do
  let outstanding ← s.rewards.getValidatorOutstandingRewards valAddr
  let commission := s.rewards.getValidatorAccumulatedCommission valAddr
  let (L, s, outstanding) ←
    (if commission.isZero then pure (L, s, outstanding)
    else do
      let outstanding ← outstanding.sub commission
      let (coins, remainder) ← DecCoins.truncateDecimal commission
      let s := s.addToCommunityPool remainder
      let L ←
        (if coins.isZero then pure L
        else
          SupplyKeeper.orPanic (k.supplyKeeper.sendCoinsFromModuleToAccount L ctx.time moduleName
            (s.getDelegatorWithdrawAddr valAddr) coins))
      pure (L, s, outstanding))
  let s := s.addToCommunityPool outstanding
  let s := ((((s.deleteValidatorOutstandingRewards valAddr).deleteValidatorAccumulatedCommission
    valAddr).deleteValidatorSlashEvents valAddr).deleteValidatorHistoricalRewards
    valAddr).deleteValidatorCurrentRewards valAddr
  pure (L, s)

/-- The distribution keeper's `StakingHooks`. The staking keeper's `Validator` and
`Delegation` read the staking store and give nil for a record that is not there; a hook that
gets an error panics. -/
def hooks (w : World Store) : HookCall → Except SdkError (Ledger × Store)
  | .afterValidatorCreated valAddr =>
    match w.store.getValidator valAddr with
    | none => throw errNilPointer
    | some val => pure (w.ledger, w.ext.initializeValidator val)
  | .afterValidatorRemoved _ valAddr => k.afterValidatorRemoved ctx w.ledger w.ext valAddr
  | .beforeDelegationCreated _ valAddr =>
    match w.store.getValidator valAddr with
    | none => throw errNilPointer
    | some val => do
      let (s, _) ← w.ext.incrementValidatorPeriod val
      pure (w.ledger, s)
  | .beforeDelegationSharesModified delAddr valAddr =>
    match w.store.getDelegation delAddr valAddr with
    | none => throw errNilPointer
    | some del => do
      let (_, L, s) ← SupplyKeeper.orPanic
        (k.withdrawDelegationRewards ctx w.ledger w.ext (w.store.getValidator valAddr) del)
      pure (L, s)
  | .afterDelegationModified delAddr valAddr => do
    let s ← w.ext.initializeDelegation ctx w.store valAddr delAddr
    pure (w.ledger, s)
  | .beforeValidatorSlashed valAddr fraction => do
    let s ← w.ext.updateValidatorSlashFraction ctx w.store valAddr fraction
    pure (w.ledger, s)
  | .beforeValidatorModified _ | .afterValidatorBonded _ _ | .afterValidatorBeginUnbonding _ _
  | .beforeDelegationRemoved _ _ => pure (w.ledger, w.ext)

/-- The staking keeper of an app whose staking hooks are the distribution keeper's, over the
same supply keeper. -/
def stakingKeeper : Staking.Keeper Store := ⟨k.supplyKeeper, k.hooks⟩

/-! ## Messages (handler.go) and the BeginBlocker (abci.go) -/

/-- `ErrNilDelegatorAddr`. -/
def errNilDelegatorAddr : SdkError := .error codespace (.module 103) "delegator address is nil"

/-- `ErrNilWithdrawAddr`. -/
def errNilWithdrawAddr : SdkError := .error codespace (.module 103) "withdraw address is nil"

/-- `ErrNilValidatorAddr`. -/
def errNilValidatorAddr : SdkError := .error codespace (.module 103) "validator address is nil"

end Keeper

/-- A message of x/distribution. -/
inductive Msg where
  | setWithdrawAddress (delegatorAddress withdrawAddress : AccAddress)
  | withdrawDelegatorReward (delegatorAddress : AccAddress) (validatorAddress : ValAddress)
  | withdrawValidatorCommission (validatorAddress : ValAddress)
  deriving DecidableEq, Repr

/-- The `ValidateBasic` of the three messages: the addresses they name are not empty. -/
def Msg.validateBasic : Msg → Option SdkError
  | .setWithdrawAddress delegatorAddress withdrawAddress =>
    if delegatorAddress = [] then some Keeper.errNilDelegatorAddr
    else if withdrawAddress = [] then some Keeper.errNilWithdrawAddr
    else none
  | .withdrawDelegatorReward delegatorAddress validatorAddress =>
    if delegatorAddress = [] then some Keeper.errNilDelegatorAddr
    else if validatorAddress = [] then some Keeper.errNilValidatorAddr
    else none
  | .withdrawValidatorCommission validatorAddress =>
    if validatorAddress = [] then some Keeper.errNilValidatorAddr else none

namespace Keeper

variable (k : Keeper) (ctx : Header)

/-- `handleMsgWithdrawDelegatorReward`, with the keeper's `WithdrawDelegationRewards` it calls:
the rewards are withdrawn and the delegation starts again from the period just ended. -/
def handleMsgWithdrawDelegatorReward (w : World Store) (delAddr : AccAddress)
    (valAddr : ValAddress) : Except SdkError (World Store) :=
  match w.store.getValidator valAddr with
  | none => throw errNoValidatorDistInfo
  | some val =>
    match w.store.getDelegation delAddr valAddr with
    | none => throw errNoDelegationDistInfo
    | some del => do
      let (_, L, s) ← k.withdrawDelegationRewards ctx w.ledger w.ext (some val) del
      let s ← s.initializeDelegation ctx w.store valAddr delAddr
      pure { w with ledger := L, ext := s }

/-- `NewHandler` of x/distribution. -/
def handle (w : World Store) : Msg → Except SdkError (World Store)
  | .setWithdrawAddress delegatorAddress withdrawAddress => do
    pure { w with ext := ← k.setWithdrawAddr w.ext delegatorAddress withdrawAddress }
  | .withdrawDelegatorReward delegatorAddress validatorAddress =>
    k.handleMsgWithdrawDelegatorReward ctx w delegatorAddress validatorAddress
  | .withdrawValidatorCommission validatorAddress => do
    let (_, L, s) ← k.withdrawValidatorCommission ctx w.ledger w.ext validatorAddress
    pure { w with ledger := L, ext := s }

/-- `BeginBlocker`: from the second block on, the fees of the last block are allocated to its
proposer and its voters; then the proposer of this block is recorded. A vote is the validator
with its power and whether it signed the last block. -/
def beginBlocker (w : World Store) (proposer : ConsAddress) (votes : List (VoteInfo × Bool)) :
    Except SdkError (World Store) := do
  let previousTotalPower := (votes.map fun vote => vote.1.power).sum
  let sumPreviousPrecommitPower := ((votes.filter fun vote => vote.2).map fun vote => vote.1.power).sum
  let w ←
    (if 1 < ctx.height then do
      let previousProposer ← w.ext.getPreviousProposerConsAddr
      let (L, feePool, rewards) ← allocateTokens k.supplyKeeper k.feeCollectorName w.store
        w.ext.params w.ledger w.ext.feePool w.ext.rewards ctx.time sumPreviousPrecommitPower
        previousTotalPower previousProposer (votes.map Prod.fst)
      pure { w with ledger := L, ext := { w.ext with feePool := feePool, rewards := rewards } }
    else pure w)
  pure { w with ext := { w.ext with previousProposer := some proposer } }

end Keeper

/-! ## The invariant of the reference counts (invariants.go) -/

/-- `FormatInvariant`. -/
def formatInvariant (module name msg : String) : String := s!"{module}: {name} invariant\n{msg}\n"

/-- `ReferenceCountInvariant`: one reference for each validator (its last period), each
delegation (its starting period) and each slash event (the period it ended). Returns the
message and whether the invariant is broken. -/
def referenceCountInvariant (w : World Store) : String × Bool :=
  let valCount := w.store.validators.entries.length
  let dels := w.store.delegations.entries.length
  let slashCount := w.ext.slashEvents.entries.length
  let expected := valCount + dels + slashCount
  let count := w.ext.getValidatorHistoricalReferenceCount
  (formatInvariant moduleName "reference count"
      s!"expected historical reference count: {expected} = {valCount} validators + {dels} delegations + {slashCount} slashes\ntotal validator historical reference count: {count}\n",
    count ≠ expected)

end Distribution

end Pocc
