import Pocc.Staking.Store
import Pocc.Distribution.FeePool
import Pocc.Types.DecCoin
import Pocc.Types.DecQuo
import Mathlib

/-!
# Allocating rewards to a validator

x/distribution/keeper/allocation.go, `AllocateTokensToValidator`: the tokens given to a
validator are split by its commission rate (`GetCommission`, the rate of its commission) into
the commission, `tokens.MulDec(rate)`, and the rewards shared with its delegators,
`tokens.Sub(commission)`. The commission is added to the validator's accumulated commission,
the shared part to its current rewards, and all the tokens to its outstanding rewards
(keeper/store.go).

The current and outstanding rewards of a validator are written when it is created
(`initializeValidator`); reading them for a validator without them decodes no bytes, which
panics in the source and here. `allocateTokensToValidator_ok`: with a rate in `[0, 1]` and
tokens sorted with non-negative amounts, that is the only way the function can fail. The
events it emits are not modelled.
-/

namespace Pocc

/-- A set of zero coins holds nothing. -/
theorem CoinSet.amt_eq_zero_of_amounts_zero {α : Type} [AddCommGroup α] [LinearOrder α]
    {coins : CoinSet α} (zero : ∀ c ∈ coins, c.amount = 0) (denom : String) :
    CoinSet.amt coins denom = 0 := by
  induction coins with
  | nil => rfl
  | cons c rest ih =>
    rw [CoinSet.amt_cons, zero c List.mem_cons_self,
      ih fun c' member => zero c' (List.mem_cons_of_mem c member)]
    simp

namespace Distribution

/-- `ValidatorCurrentRewards`. -/
structure ValidatorCurrentRewards where
  rewards : DecCoins
  period : Nat
  deriving DecidableEq, Repr

/-- The records of x/distribution that `AllocateTokensToValidator` reads and writes, by
operator address. -/
structure RewardsStore where
  accumulatedCommission : SortedMap ValAddress DecCoins
  currentRewards : SortedMap ValAddress ValidatorCurrentRewards
  outstandingRewards : SortedMap ValAddress DecCoins

namespace RewardsStore

/-- The panic of `MustUnmarshalBinaryLengthPrefixed` on a record that was never written. -/
def errEmptyBytes : SdkError := .panic "UnmarshalBinaryLengthPrefixed cannot decode empty bytes"

/-- `GetValidatorAccumulatedCommission`: nothing for a validator without a record. -/
def getValidatorAccumulatedCommission (s : RewardsStore) (val : ValAddress) : DecCoins :=
  (s.accumulatedCommission.find? val).getD []

/-- `SetValidatorAccumulatedCommission`: a commission of zero coins is stored as the empty
set. -/
def setValidatorAccumulatedCommission (s : RewardsStore) (val : ValAddress)
    (commission : DecCoins) : RewardsStore :=
  { s with
    accumulatedCommission := s.accumulatedCommission.insert val
      (if commission.all fun c => decide c.amount.isZero then [] else commission) }

/-- `GetValidatorCurrentRewards`. -/
def getValidatorCurrentRewards (s : RewardsStore) (val : ValAddress) :
    Except SdkError ValidatorCurrentRewards :=
  match s.currentRewards.find? val with
  | some rewards => pure rewards
  | none => throw errEmptyBytes

/-- `SetValidatorCurrentRewards`. -/
def setValidatorCurrentRewards (s : RewardsStore) (val : ValAddress)
    (rewards : ValidatorCurrentRewards) : RewardsStore :=
  { s with currentRewards := s.currentRewards.insert val rewards }

/-- `GetValidatorOutstandingRewards`. -/
def getValidatorOutstandingRewards (s : RewardsStore) (val : ValAddress) :
    Except SdkError DecCoins :=
  match s.outstandingRewards.find? val with
  | some rewards => pure rewards
  | none => throw errEmptyBytes

/-- `SetValidatorOutstandingRewards`. -/
def setValidatorOutstandingRewards (s : RewardsStore) (val : ValAddress) (rewards : DecCoins) :
    RewardsStore :=
  { s with outstandingRewards := s.outstandingRewards.insert val rewards }

end RewardsStore

open RewardsStore

/-- `AllocateTokensToValidator`. -/
def allocateTokensToValidator (s : RewardsStore) (val : Staking.Validator) (tokens : DecCoins) :
    Except SdkError RewardsStore := do
  let commission := tokens.mulDec val.commission.rate
  let shared ← tokens.sub commission
  let currentCommission := (s.getValidatorAccumulatedCommission val.operatorAddress).add commission
  let s := s.setValidatorAccumulatedCommission val.operatorAddress currentCommission
  let currentRewards ← s.getValidatorCurrentRewards val.operatorAddress
  let s := s.setValidatorCurrentRewards val.operatorAddress
    { currentRewards with rewards := currentRewards.rewards.add shared }
  let outstanding ← s.getValidatorOutstandingRewards val.operatorAddress
  pure (s.setValidatorOutstandingRewards val.operatorAddress (outstanding.add tokens))

/-- With a commission rate in `[0, 1]` and tokens sorted with non-negative amounts, the split
does not panic: `AllocateTokensToValidator` succeeds on a validator whose records exist. -/
theorem allocateTokensToValidator_ok {s : RewardsStore} {val : Staking.Validator}
    {tokens : DecCoins} (sorted : CoinSet.Sorted tokens) (nonneg : ∀ c ∈ tokens, 0 ≤ c.amount)
    (rate : 0 ≤ val.commission.rate) (rate₁ : val.commission.rate ≤ Dec.oneDec)
    {current : ValidatorCurrentRewards} {outstanding : DecCoins}
    (hcurrent : s.currentRewards.find? val.operatorAddress = some current)
    (houtstanding : s.outstandingRewards.find? val.operatorAddress = some outstanding) :
    ∃ s', allocateTokensToValidator s val tokens = .ok s' := by
  obtain ⟨shared, hsub, -⟩ := DecCoins.sub_mulDec sorted nonneg rate rate₁
  exact ⟨_, by
    simp only [allocateTokensToValidator, hsub, getValidatorCurrentRewards,
      setValidatorAccumulatedCommission, hcurrent, getValidatorOutstandingRewards,
      setValidatorCurrentRewards, houtstanding]
    rfl⟩

/-! ## What the split does to the rewards of all validators -/

namespace RewardsStore

/-- The outstanding rewards of all validators, at one denomination. -/
def totalOutstanding (s : RewardsStore) (denom : String) : Dec :=
  s.outstandingRewards.sumBy fun _ rewards => CoinSet.amt rewards denom

/-- The accumulated commission and the current rewards of all validators, at one
denomination: what their outstanding rewards are split into. -/
def totalSplit (s : RewardsStore) (denom : String) : Dec :=
  s.accumulatedCommission.sumBy (fun _ commission => CoinSet.amt commission denom) +
    s.currentRewards.sumBy fun _ rewards => CoinSet.amt rewards.rewards denom

/-- What `AllocateTokensToValidator` needs of a validator: a commission rate in `[0, 1]` and the
current and outstanding rewards its creation wrote. -/
structure Ready (s : RewardsStore) (val : Staking.Validator) : Prop where
  rate : 0 ≤ val.commission.rate
  rate_le : val.commission.rate ≤ Dec.oneDec
  current : (s.currentRewards.find? val.operatorAddress).isSome
  outstanding : (s.outstandingRewards.find? val.operatorAddress).isSome

theorem getValidatorCurrentRewards_eq_ok {s : RewardsStore} {val : ValAddress}
    {rewards : ValidatorCurrentRewards} :
    s.getValidatorCurrentRewards val = .ok rewards ↔ s.currentRewards.find? val = some rewards := by
  unfold getValidatorCurrentRewards
  cases s.currentRewards.find? val <;> simp [errEmptyBytes]

theorem getValidatorOutstandingRewards_eq_ok {s : RewardsStore} {val : ValAddress}
    {rewards : DecCoins} :
    s.getValidatorOutstandingRewards val = .ok rewards ↔
      s.outstandingRewards.find? val = some rewards := by
  unfold getValidatorOutstandingRewards
  cases s.outstandingRewards.find? val <;> simp [errEmptyBytes]

/-- A commission of zero coins, stored as the empty set, holds nothing either way. -/
theorem amt_commission_stored (commission : DecCoins) (denom : String) :
    CoinSet.amt (if commission.all fun c => decide c.amount.isZero then [] else commission) denom =
      CoinSet.amt commission denom := by
  split
  · next zero =>
    have each : ∀ c ∈ commission, c.amount = 0 := fun c member =>
      Dec.ext_int (of_decide_eq_true (List.all_eq_true.mp zero c member))
    rw [CoinSet.amt_nil, CoinSet.amt_eq_zero_of_amounts_zero each]
  · rfl

end RewardsStore

open RewardsStore

/-- `AllocateTokensToValidator` moves the tokens into the validator's outstanding rewards, split
between its commission and its current rewards: over all validators, both totals grow by the
tokens; and no record is removed. -/
theorem allocateTokensToValidator_spec {s s' : RewardsStore} {val : Staking.Validator}
    {tokens : DecCoins} (h : allocateTokensToValidator s val tokens = .ok s') :
    (∀ denom, s'.totalOutstanding denom = s.totalOutstanding denom + CoinSet.amt tokens denom) ∧
      (∀ denom, s'.totalSplit denom = s.totalSplit denom + CoinSet.amt tokens denom) ∧
      ∀ v, s.Ready v → s'.Ready v := by
  unfold allocateTokensToValidator at h
  obtain ⟨shared, hshared, h⟩ := Fallible.bind_eq_ok.mp h
  obtain ⟨current, hcurrent, h⟩ := Fallible.bind_eq_ok.mp h
  obtain ⟨outstanding, houtstanding, h⟩ := Fallible.bind_eq_ok.mp h
  cases Fallible.pure_eq_ok.mp h
  -- the commission is written first, and the reads see the records of `s`
  replace hcurrent : s.currentRewards.find? val.operatorAddress = some current :=
    getValidatorCurrentRewards_eq_ok.mp hcurrent
  replace houtstanding : s.outstandingRewards.find? val.operatorAddress = some outstanding :=
    getValidatorOutstandingRewards_eq_ok.mp houtstanding
  refine ⟨fun denom => ?_, fun denom => ?_, fun v ready => ?_⟩
  · show (s.outstandingRewards.insert val.operatorAddress (outstanding.add tokens)).sumBy _ = _
    rw [SortedMap.sumBy_insert_sub, houtstanding]
    simp only [Option.map_some, Option.getD_some, DecCoins.add, DecCoins.safeAdd,
      CoinSet.amt_safeAdd, totalOutstanding]
    abel
  · -- the commission and the shared rewards make up the tokens
    have split := DecCoins.amt_sub hshared denom
    show (s.accumulatedCommission.insert val.operatorAddress _).sumBy _ +
      (s.currentRewards.insert val.operatorAddress _).sumBy _ = _
    rw [SortedMap.sumBy_insert_sub, SortedMap.sumBy_insert_sub, hcurrent, amt_commission_stored]
    have commission : ((s.accumulatedCommission.find? val.operatorAddress).map
        fun commission => CoinSet.amt commission denom).getD 0 =
        CoinSet.amt (s.getValidatorAccumulatedCommission val.operatorAddress) denom := by
      unfold getValidatorAccumulatedCommission
      cases s.accumulatedCommission.find? val.operatorAddress <;> rfl
    rw [commission]
    simp only [Option.map_some, Option.getD_some, DecCoins.add, DecCoins.safeAdd,
      CoinSet.amt_safeAdd, split, totalSplit]
    abel
  · -- the records are only written
    refine ⟨ready.rate, ready.rate_le, ?_, ?_⟩
    · show ((s.currentRewards.insert val.operatorAddress _).find? v.operatorAddress).isSome
      rw [SortedMap.find?_insert]
      split
      · rfl
      · exact ready.current
    · show ((s.outstandingRewards.insert val.operatorAddress _).find? v.operatorAddress).isSome
      rw [SortedMap.find?_insert]
      split
      · rfl
      · exact ready.outstanding

/-! ## Allocating the collected fees -/

/-- `abci.VoteInfo`, what `AllocateTokens` reads of it: the consensus address and the power of
a validator of the last block. -/
structure VoteInfo where
  address : ConsAddress
  power : Int
  deriving DecidableEq, Repr

/-- The parameters of x/distribution that `AllocateTokens` reads. -/
structure Params where
  communityTax : Dec
  baseProposerReward : Dec
  bonusProposerReward : Dec
  deriving DecidableEq, Repr

/-- The panic of a method called on a nil account or validator. -/
def errNilPointer : SdkError :=
  .panic "runtime error: invalid memory address or nil pointer dereference"

/-- `proposerMultiplier`: the base proposer reward, plus the bonus for the fraction of the
power that signed the last block. -/
def proposerMultiplier (params : Params) (sumPreviousPrecommitPower totalPreviousPower : Int) :
    Dec :=
  let previousFractionVotes :=
    (Dec.ofInt sumPreviousPrecommitPower).quo (Dec.ofInt totalPreviousPower)
  params.baseProposerReward + params.bonusProposerReward.mulTruncate previousFractionVotes

/-- `voteMultiplier`: what is left for the votes after the proposer and the community tax. -/
def voteMultiplier (params : Params) (sumPreviousPrecommitPower totalPreviousPower : Int) : Dec :=
  Dec.oneDec - proposerMultiplier params sumPreviousPrecommitPower totalPreviousPower -
    params.communityTax

/-- The reward of a vote: its power's fraction of the total power, truncated, of the votes'
share of the fees. -/
def voteReward (feesCollected : DecCoins) (voteMultiplier : Dec) (totalPreviousPower : Int)
    (vote : VoteInfo) : DecCoins :=
  let powerFraction := (Dec.ofInt vote.power).quoTruncate (Dec.ofInt totalPreviousPower)
  (feesCollected.mulDecTruncate voteMultiplier).mulDecTruncate powerFraction

/-- One pass of the loop over the votes: the vote's reward goes to its validator and is taken
from what remains of the fees. A vote of a validator that is not stored calls a method on nil. -/
def allocateVote (staking : Staking.Store) (feesCollected : DecCoins) (voteMultiplier : Dec)
    (totalPreviousPower : Int) (acc : RewardsStore × DecCoins) (vote : VoteInfo) :
    Except SdkError (RewardsStore × DecCoins) :=
  match staking.getValidatorByConsAddr vote.address with
  | none => throw errNilPointer
  | some validator => do
    let reward := voteReward feesCollected voteMultiplier totalPreviousPower vote
    let s ← allocateTokensToValidator acc.1 validator reward
    pure (s, ← acc.2.sub reward)

/-- The previous proposer's reward, allocated to it and taken from the fees; a proposer that is
no longer stored gets nothing (the source logs an error). -/
def allocateProposer (staking : Staking.Store) (s : RewardsStore)
    (feesCollected proposerReward : DecCoins) (previousProposer : ConsAddress) :
    Except SdkError (RewardsStore × DecCoins) :=
  match staking.getValidatorByConsAddr previousProposer with
  | some proposerValidator => do
    let s ← allocateTokensToValidator s proposerValidator proposerReward
    pure (s, ← feesCollected.sub proposerReward)
  | none => pure (s, feesCollected)

/-- `AllocateTokens`: the fee collector's coins move to the distribution module account. With
no power voting they all go to the community pool; otherwise the previous proposer gets its
reward, every vote its validator's, and the community pool what remains. -/
def allocateTokens (sk : SupplyKeeper) (feeCollectorName : String) (staking : Staking.Store)
    (params : Params) (L : Ledger) (feePool : FeePool) (s : RewardsStore) (blockTime : Int)
    (sumPreviousPrecommitPower totalPreviousPower : Int) (previousProposer : ConsAddress)
    (previousVotes : List VoteInfo) : Except SdkError (Ledger × FeePool × RewardsStore) := do
  let (feeCollector, accounts) ← sk.getModuleAccount L.accounts feeCollectorName
  match feeCollector with
  | none => throw errNilPointer
  | some (_, feeCollector) =>
    let feesCollectedInt := feeCollector.coins
    let feesCollected := DecCoins.ofCoins feesCollectedInt
    let L ← sk.sendCoinsFromModuleToModule { L with accounts } blockTime feeCollectorName
      moduleName feesCollectedInt
    if totalPreviousPower = 0 then
      pure (L, { feePool with communityPool := feePool.communityPool.add feesCollected }, s)
    else
      let proposerMultiplier :=
        proposerMultiplier params sumPreviousPrecommitPower totalPreviousPower
      let proposerReward := feesCollected.mulDecTruncate proposerMultiplier
      let (s, remaining) ← allocateProposer staking s feesCollected proposerReward previousProposer
      let voteMultiplier := voteMultiplier params sumPreviousPrecommitPower totalPreviousPower
      let (s, remaining) ← previousVotes.foldlM
        (allocateVote staking feesCollected voteMultiplier totalPreviousPower) (s, remaining)
      pure (L, { feePool with communityPool := feePool.communityPool.add remaining }, s)

/-! ## The shares of the fees -/

section Shares

/-- `MulTruncate` of non-negative decimals drops the last 18 places of the product. -/
theorem mulTruncate_int {a b : Dec} (ha : 0 ≤ a.int) (hb : 0 ≤ b.int) :
    (a.mulTruncate b).int = a.int * b.int / precisionReuse :=
  chopPrecisionAndTruncate_of_nonneg (Int.mul_nonneg ha hb)

theorem mulTruncate_nonneg {a b : Dec} (ha : 0 ≤ a.int) (hb : 0 ≤ b.int) :
    0 ≤ (a.mulTruncate b).int := by
  rw [mulTruncate_int ha hb]
  exact Int.ediv_nonneg (Int.mul_nonneg ha hb) precisionReuse_pos.le

theorem mulTruncate_mul_le {a b : Dec} (ha : 0 ≤ a.int) (hb : 0 ≤ b.int) :
    (a.mulTruncate b).int * precisionReuse ≤ a.int * b.int := by
  rw [mulTruncate_int ha hb]
  exact Int.ediv_mul_le _ precisionReuse_pos.ne'

/-- A vote's power fraction, truncated, is at most its power over the total. -/
theorem powerFraction_mul_le {power total : Int} (nonneg : 0 ≤ power) (positive : 0 < total) :
    ((Dec.ofInt power).quoTruncate (Dec.ofInt total)).int * total ≤ power * precisionReuse := by
  have bound := Dec.quoTruncate_le (a := Dec.ofInt power) (b := Dec.ofInt total)
    (Int.mul_nonneg nonneg precisionReuse_pos.le) (Int.mul_pos positive precisionReuse_pos)
  refine le_of_mul_le_mul_right ?_ precisionReuse_pos
  calc ((Dec.ofInt power).quoTruncate (Dec.ofInt total)).int * total * precisionReuse
      = ((Dec.ofInt power).quoTruncate (Dec.ofInt total)).int * (Dec.ofInt total).int := by
        rw [mul_assoc]
        rfl
    _ ≤ (Dec.ofInt power).int * precisionReuse := bound
    _ = power * precisionReuse * precisionReuse := rfl

/-- The power fractions of votes whose powers add up to at most the total add up to at most
one. -/
theorem sum_powerFraction_le {votes : List VoteInfo} {total : Int} (positive : 0 < total)
    (powers : ∀ vote ∈ votes, 0 ≤ vote.power) (within : (votes.map VoteInfo.power).sum ≤ total) :
    (votes.map fun vote => ((Dec.ofInt vote.power).quoTruncate (Dec.ofInt total)).int).sum ≤
      precisionReuse := by
  refine le_of_mul_le_mul_right ?_ positive
  calc (votes.map fun vote => ((Dec.ofInt vote.power).quoTruncate (Dec.ofInt total)).int).sum *
        total
      = (votes.map fun vote =>
          ((Dec.ofInt vote.power).quoTruncate (Dec.ofInt total)).int * total).sum :=
        (List.sum_map_mul_right _ _ _).symm
    _ ≤ (votes.map fun vote => vote.power * precisionReuse).sum :=
        List.sum_le_sum fun vote member => powerFraction_mul_le (powers vote member) positive
    _ = (votes.map VoteInfo.power).sum * precisionReuse := List.sum_map_mul_right _ _ _
    _ ≤ total * precisionReuse := Int.mul_le_mul_of_nonneg_right within precisionReuse_pos.le
    _ = precisionReuse * total := Int.mul_comm _ _

/-- Truncated shares of `V` by fractions adding up to at most one add up to at most `V`. -/
theorem sum_mulTruncate_le {α : Type} {V : Dec} (nonneg : 0 ≤ V.int) (l : List α) (f : α → Dec)
    (fractions : ∀ a ∈ l, 0 ≤ (f a).int)
    (atMostOne : (l.map fun a => (f a).int).sum ≤ precisionReuse) :
    (l.map fun a => (V.mulTruncate (f a)).int).sum ≤ V.int := by
  refine le_of_mul_le_mul_right ?_ precisionReuse_pos
  calc (l.map fun a => (V.mulTruncate (f a)).int).sum * precisionReuse
      = (l.map fun a => (V.mulTruncate (f a)).int * precisionReuse).sum :=
        (List.sum_map_mul_right _ _ _).symm
    _ ≤ (l.map fun a => V.int * (f a).int).sum :=
        List.sum_le_sum fun a member => mulTruncate_mul_le nonneg (fractions a member)
    _ = V.int * (l.map fun a => (f a).int).sum := List.sum_map_mul_left _ _ _
    _ ≤ V.int * precisionReuse := Int.mul_le_mul_of_nonneg_left atMostOne nonneg

/-- With the three parameters non-negative and adding up to at most one, and at most the total
power signing, neither multiplier is negative and the two add up to at most one. -/
theorem multipliers_bounds {params : Params} {sum total : Int} (positive : 0 < total)
    (signed : 0 ≤ sum) (signed_le : sum ≤ total) (base : 0 ≤ params.baseProposerReward.int)
    (bonus : 0 ≤ params.bonusProposerReward.int) (tax : 0 ≤ params.communityTax.int)
    (atMostOne : params.baseProposerReward.int + params.bonusProposerReward.int +
      params.communityTax.int ≤ precisionReuse) :
    0 ≤ (proposerMultiplier params sum total).int ∧ 0 ≤ (voteMultiplier params sum total).int ∧
      (proposerMultiplier params sum total).int + (voteMultiplier params sum total).int ≤
        precisionReuse := by
  set fraction := (Dec.ofInt sum).quo (Dec.ofInt total)
  have fractionNonneg : 0 ≤ fraction.int := Dec.quo_nonneg signed positive
  have fractionLe : fraction.int ≤ precisionReuse := Dec.quo_le_oneDec signed signed_le positive
  -- the bonus is paid for at most all of the power: at most the bonus reward itself
  have share := mulTruncate_mul_le bonus fractionNonneg
  have shareNonneg := mulTruncate_nonneg bonus fractionNonneg
  have shareLe : (params.bonusProposerReward.mulTruncate fraction).int ≤
      params.bonusProposerReward.int := by
    refine le_of_mul_le_mul_right ?_ precisionReuse_pos
    exact le_trans share (Int.mul_le_mul_of_nonneg_left fractionLe bonus)
  have proposer : (proposerMultiplier params sum total).int =
      params.baseProposerReward.int + (params.bonusProposerReward.mulTruncate fraction).int := rfl
  have votes : (voteMultiplier params sum total).int =
      precisionReuse - (proposerMultiplier params sum total).int - params.communityTax.int := rfl
  refine ⟨by omega, by omega, by omega⟩

theorem powerFraction_nonneg {power total : Int} (nonneg : 0 ≤ power) (positive : 0 < total) :
    0 ≤ ((Dec.ofInt power).quoTruncate (Dec.ofInt total)).int := by
  have quotient := (Dec.quotient_spec (a := Dec.ofInt power) (b := Dec.ofInt total)
    (Int.mul_nonneg nonneg precisionReuse_pos.le) (Int.mul_pos positive precisionReuse_pos)).1
  rw [Dec.quoTruncate_int, chopPrecisionAndTruncate_of_nonneg quotient]
  exact Int.ediv_nonneg quotient precisionReuse_pos.le

/-- At every denomination of non-negative fees, the proposer's reward and the votes' share are
not negative and add up to at most the fees. -/
theorem shares_within {feesCollected : DecCoins} (sorted : CoinSet.Sorted feesCollected)
    {denom : String} (nonneg : 0 ≤ (CoinSet.amt feesCollected denom).int) {proposer votes : Dec}
    (proposerNonneg : 0 ≤ proposer.int) (votesNonneg : 0 ≤ votes.int)
    (atMostOne : proposer.int + votes.int ≤ precisionReuse) :
    0 ≤ (CoinSet.amt (feesCollected.mulDecTruncate proposer) denom).int ∧
      0 ≤ (CoinSet.amt (feesCollected.mulDecTruncate votes) denom).int ∧
      (CoinSet.amt (feesCollected.mulDecTruncate proposer) denom).int +
        (CoinSet.amt (feesCollected.mulDecTruncate votes) denom).int ≤
          (CoinSet.amt feesCollected denom).int := by
  rw [DecCoins.amt_mulDecTruncate sorted, DecCoins.amt_mulDecTruncate sorted]
  have proposerShare := mulTruncate_mul_le nonneg proposerNonneg
  have votesShare := mulTruncate_mul_le nonneg votesNonneg
  refine ⟨mulTruncate_nonneg nonneg proposerNonneg, mulTruncate_nonneg nonneg votesNonneg,
    le_of_mul_le_mul_right ?_ precisionReuse_pos⟩
  calc (((CoinSet.amt feesCollected denom).mulTruncate proposer).int +
        ((CoinSet.amt feesCollected denom).mulTruncate votes).int) * precisionReuse
      = ((CoinSet.amt feesCollected denom).mulTruncate proposer).int * precisionReuse +
        ((CoinSet.amt feesCollected denom).mulTruncate votes).int * precisionReuse :=
        Int.add_mul _ _ _
    _ ≤ (CoinSet.amt feesCollected denom).int * (proposer.int + votes.int) := by
        rw [Int.mul_add]
        exact Int.add_le_add proposerShare votesShare
    _ ≤ (CoinSet.amt feesCollected denom).int * precisionReuse :=
        Int.mul_le_mul_of_nonneg_left atMostOne nonneg

/-- The votes' rewards, each a truncated fraction of the votes' share of the fees, are not
negative and add up to at most that share. -/
theorem voteRewards_within {feesCollected : DecCoins} {multiplier : Dec} {denom : String}
    (share : 0 ≤ (CoinSet.amt (feesCollected.mulDecTruncate multiplier) denom).int)
    {total : Int} (positive : 0 < total) {votes : List VoteInfo}
    (powers : ∀ vote ∈ votes, 0 ≤ vote.power) (within : (votes.map VoteInfo.power).sum ≤ total) :
    (∀ vote ∈ votes, 0 ≤ (CoinSet.amt (voteReward feesCollected multiplier total vote) denom).int) ∧
      (votes.map fun vote =>
        (CoinSet.amt (voteReward feesCollected multiplier total vote) denom).int).sum ≤
          (CoinSet.amt (feesCollected.mulDecTruncate multiplier) denom).int := by
  have reward : ∀ vote, CoinSet.amt (voteReward feesCollected multiplier total vote) denom =
      (CoinSet.amt (feesCollected.mulDecTruncate multiplier) denom).mulTruncate
        ((Dec.ofInt vote.power).quoTruncate (Dec.ofInt total)) := fun vote =>
    DecCoins.amt_mulDecTruncate (DecCoins.sorted_mulDecTruncate _ _) _ denom
  simp only [reward]
  exact ⟨fun vote member => mulTruncate_nonneg share
      (powerFraction_nonneg (powers vote member) positive),
    sum_mulTruncate_le share votes _ (fun vote member =>
      powerFraction_nonneg (powers vote member) positive) (sum_powerFraction_le positive powers within)⟩

end Shares

/-! ## The loop over the votes -/

/-- Every validator of the staking store can be given rewards: what the distribution hooks and
the commission checks of staking keep. -/
def ValidatorsReady (staking : Staking.Store) (s : RewardsStore) : Prop :=
  ∀ addr validator, staking.getValidatorByConsAddr addr = some validator → s.Ready validator

/-- Tokens of non-negative amounts go to a ready validator without a panic. -/
theorem allocateTokensToValidator_ready {s : RewardsStore} {val : Staking.Validator}
    {tokens : DecCoins} (ready : s.Ready val) (sorted : CoinSet.Sorted tokens)
    (nonneg : ∀ denom, 0 ≤ (CoinSet.amt tokens denom).int) :
    ∃ s', allocateTokensToValidator s val tokens = .ok s' := by
  obtain ⟨current, hcurrent⟩ := Option.isSome_iff_exists.mp ready.current
  obtain ⟨outstanding, houtstanding⟩ := Option.isSome_iff_exists.mp ready.outstanding
  refine allocateTokensToValidator_ok sorted (fun c member => ?_) ready.rate ready.rate_le
    hcurrent houtstanding
  have held := nonneg c.denom
  rwa [CoinSet.amt_of_mem sorted member] at held

/-- One vote whose reward is within what remains: its validator gets the reward, which is taken
from what remains; the validators stay ready. -/
theorem allocateVote_ok {staking : Staking.Store} {feesCollected : DecCoins} {multiplier : Dec}
    {total : Int} {s : RewardsStore} {remaining : DecCoins} {vote : VoteInfo}
    (validators : ValidatorsReady staking s)
    (stored : (staking.getValidatorByConsAddr vote.address).isSome)
    (sorted : CoinSet.Sorted remaining)
    (nonneg : ∀ d, 0 ≤ (CoinSet.amt (voteReward feesCollected multiplier total vote) d).int)
    (within : ∀ d, (CoinSet.amt (voteReward feesCollected multiplier total vote) d).int ≤
      (CoinSet.amt remaining d).int) :
    ∃ s' remaining', allocateVote staking feesCollected multiplier total (s, remaining) vote =
        .ok (s', remaining') ∧ ValidatorsReady staking s' ∧ CoinSet.Sorted remaining' ∧
      ∀ d, CoinSet.amt remaining' d = CoinSet.amt remaining d -
          CoinSet.amt (voteReward feesCollected multiplier total vote) d ∧
        s'.totalOutstanding d = s.totalOutstanding d +
          CoinSet.amt (voteReward feesCollected multiplier total vote) d ∧
        s'.totalSplit d = s.totalSplit d +
          CoinSet.amt (voteReward feesCollected multiplier total vote) d := by
  obtain ⟨validator, found⟩ := Option.isSome_iff_exists.mp stored
  have rewardSorted : CoinSet.Sorted (voteReward feesCollected multiplier total vote) :=
    DecCoins.sorted_mulDecTruncate _ _
  obtain ⟨s', allocated⟩ := allocateTokensToValidator_ready (validators _ _ found) rewardSorted nonneg
  obtain ⟨outstanding', split', ready'⟩ := allocateTokensToValidator_spec allocated
  obtain ⟨remaining', taken, sorted', amounts⟩ :=
    DecCoins.sub_of_amt_le sorted rewardSorted within
  refine ⟨s', remaining', ?_, fun addr v stored' => ready' v (validators addr v stored'), sorted',
    fun d => ⟨amounts d, outstanding' d, split' d⟩⟩
  unfold allocateVote
  rw [found]
  exact Fallible.bind_eq_ok.mpr ⟨s', allocated, Fallible.bind_eq_ok.mpr ⟨remaining', taken, rfl⟩⟩

/-- The loop over votes whose rewards add up to at most what remains: every vote's validator
gets its reward, what remains shrinks by the rewards, and the outstanding rewards and their
split grow by them. The induction is on the votes, one pass a step. -/
theorem allocateVotes_ok {staking : Staking.Store} {feesCollected : DecCoins} {multiplier : Dec}
    {total : Int} :
    ∀ (votes : List VoteInfo) (s : RewardsStore) (remaining : DecCoins),
      ValidatorsReady staking s →
      (∀ vote ∈ votes, (staking.getValidatorByConsAddr vote.address).isSome) →
      CoinSet.Sorted remaining →
      (∀ vote ∈ votes, ∀ d,
        0 ≤ (CoinSet.amt (voteReward feesCollected multiplier total vote) d).int) →
      (∀ d, (votes.map fun vote =>
        (CoinSet.amt (voteReward feesCollected multiplier total vote) d).int).sum ≤
          (CoinSet.amt remaining d).int) →
      ∃ s' remaining', votes.foldlM (allocateVote staking feesCollected multiplier total)
          (s, remaining) = .ok (s', remaining') ∧ ValidatorsReady staking s' ∧
        ∀ d, CoinSet.amt remaining' d = CoinSet.amt remaining d -
            (votes.map fun vote => CoinSet.amt (voteReward feesCollected multiplier total vote) d).sum ∧
          s'.totalOutstanding d = s.totalOutstanding d +
            (votes.map fun vote => CoinSet.amt (voteReward feesCollected multiplier total vote) d).sum ∧
          s'.totalSplit d = s.totalSplit d +
            (votes.map fun vote => CoinSet.amt (voteReward feesCollected multiplier total vote) d).sum
  | [], s, remaining, ready, _, _, _, _ => ⟨s, remaining, rfl, ready, fun d => by simp⟩
  | vote :: votes, s, remaining, ready, stored, sorted, nonneg, within => by
    -- the later rewards are not negative, so this one is within what remains
    have later : ∀ d, 0 ≤ (votes.map fun vote =>
        (CoinSet.amt (voteReward feesCollected multiplier total vote) d).int).sum := by
      intro d
      refine List.sum_nonneg fun x member => ?_
      obtain ⟨v, hv, rfl⟩ := List.mem_map.mp member
      exact nonneg v (List.mem_cons_of_mem vote hv) d
    have first : ∀ d, (CoinSet.amt (voteReward feesCollected multiplier total vote) d).int ≤
        (CoinSet.amt remaining d).int := by
      intro d
      have bound := within d
      rw [List.map_cons, List.sum_cons] at bound
      linarith [later d]
    obtain ⟨s₁, remaining₁, step, ready₁, sorted₁, facts₁⟩ := allocateVote_ok ready
      (stored vote List.mem_cons_self) sorted (nonneg vote List.mem_cons_self) first
    obtain ⟨s', remaining', run, ready', facts'⟩ := allocateVotes_ok votes s₁ remaining₁ ready₁
      (fun v member => stored v (List.mem_cons_of_mem vote member)) sorted₁
      (fun v member => nonneg v (List.mem_cons_of_mem vote member)) (fun d => by
        have bound := within d
        rw [List.map_cons, List.sum_cons] at bound
        rw [(facts₁ d).1, Dec.sub_int]
        linarith)
    refine ⟨s', remaining', ?_, ready', fun d => ?_⟩
    · rw [List.foldlM_cons, step]
      exact run
    · obtain ⟨remaining₁d, outstanding₁d, split₁d⟩ := facts₁ d
      obtain ⟨remaining'd, outstanding'd, split'd⟩ := facts' d
      simp only [List.map_cons, List.sum_cons]
      refine ⟨?_, ?_, ?_⟩
      · rw [remaining'd, remaining₁d]
        abel
      · rw [outstanding'd, outstanding₁d]
        abel
      · rw [split'd, split₁d]
        abel

/-! ## The proposer and the whole block -/

/-- What the previous proposer is paid: its reward if it is still stored, nothing otherwise. -/
def proposerPaid (staking : Staking.Store) (proposerReward : DecCoins)
    (previousProposer : ConsAddress) (denom : String) : Dec :=
  if (staking.getValidatorByConsAddr previousProposer).isSome then
    CoinSet.amt proposerReward denom
  else 0

/-- The proposer's part, its reward within the fees: a stored proposer gets the reward, which is
taken from the fees; otherwise the fees stay whole. -/
theorem allocateProposer_ok {staking : Staking.Store} {s : RewardsStore}
    {feesCollected proposerReward : DecCoins} (previousProposer : ConsAddress)
    (validators : ValidatorsReady staking s) (sorted : CoinSet.Sorted feesCollected)
    (rewardSorted : CoinSet.Sorted proposerReward)
    (nonneg : ∀ d, 0 ≤ (CoinSet.amt proposerReward d).int)
    (within : ∀ d, (CoinSet.amt proposerReward d).int ≤ (CoinSet.amt feesCollected d).int) :
    ∃ s' remaining, allocateProposer staking s feesCollected proposerReward previousProposer =
        .ok (s', remaining) ∧ ValidatorsReady staking s' ∧ CoinSet.Sorted remaining ∧
      ∀ d, CoinSet.amt remaining d = CoinSet.amt feesCollected d -
          proposerPaid staking proposerReward previousProposer d ∧
        s'.totalOutstanding d = s.totalOutstanding d +
          proposerPaid staking proposerReward previousProposer d ∧
        s'.totalSplit d = s.totalSplit d + proposerPaid staking proposerReward previousProposer d := by
  unfold allocateProposer proposerPaid
  cases found : staking.getValidatorByConsAddr previousProposer with
  | none =>
    -- a forgotten proposer: nothing is allocated
    exact ⟨s, feesCollected, rfl, validators, sorted, fun d => by simp⟩
  | some proposer =>
    obtain ⟨s', allocated⟩ :=
      allocateTokensToValidator_ready (validators _ _ found) rewardSorted nonneg
    obtain ⟨outstanding', split', ready'⟩ := allocateTokensToValidator_spec allocated
    obtain ⟨remaining, taken, sorted', amounts⟩ :=
      DecCoins.sub_of_amt_le sorted rewardSorted within
    refine ⟨s', remaining, ?_, fun addr v stored => ready' v (validators addr v stored), sorted',
      fun d => ?_⟩
    · exact Fallible.bind_eq_ok.mpr ⟨s', allocated,
        Fallible.bind_eq_ok.mpr ⟨remaining, taken, rfl⟩⟩
    · simp only [Option.isSome_some, if_true]
      exact ⟨amounts d, outstanding' d, split' d⟩

/-- Fee allocation conserves the fees and does not panic. On a chain whose fee collector and
distribution module are registered at distinct addresses holding module accounts with valid
coins, whose validators can be given rewards, with votes of stored validators of non-negative
powers adding up to at most the total power, which is positive, at most that power signing,
and parameters non-negative and adding up to at most one: `AllocateTokens` succeeds, moves the
fee collector's coins to the distribution module without changing the supply or any total,
and the proposer's pay, the votes' rewards and the increment of the community pool add up to
exactly the fees, while the outstanding rewards of the validators, and their split into
commission and current rewards, grow by exactly the proposer's pay and the votes' rewards. -/
theorem allocate_tokens_conserves (sk : SupplyKeeper) (feeCollectorName : String)
    (staking : Staking.Store) (params : Params) (L : Ledger) (feePool : FeePool)
    (s : RewardsStore) (blockTime sumPreviousPrecommitPower totalPreviousPower : Int)
    (previousProposer : ConsAddress) (previousVotes : List VoteInfo)
    (feeCollector : sk.ModuleReady L.accounts feeCollectorName)
    (distribution : sk.ModuleReady L.accounts moduleName)
    (distinct : sk.moduleAddress feeCollectorName ≠ sk.moduleAddress moduleName)
    (validators : ValidatorsReady staking s)
    (stored : ∀ vote ∈ previousVotes, (staking.getValidatorByConsAddr vote.address).isSome)
    (powers : ∀ vote ∈ previousVotes, 0 ≤ vote.power)
    (within : (previousVotes.map VoteInfo.power).sum ≤ totalPreviousPower)
    (positive : 0 < totalPreviousPower) (signed : 0 ≤ sumPreviousPrecommitPower)
    (signed_le : sumPreviousPrecommitPower ≤ totalPreviousPower)
    (base : 0 ≤ params.baseProposerReward.int) (bonus : 0 ≤ params.bonusProposerReward.int)
    (tax : 0 ≤ params.communityTax.int)
    (atMostOne : params.baseProposerReward.int + params.bonusProposerReward.int +
      params.communityTax.int ≤ precisionReuse) :
    let fees := DecCoins.ofCoins (L.accounts.getCoins (sk.moduleAddress feeCollectorName))
    let proposerReward := fees.mulDecTruncate
      (proposerMultiplier params sumPreviousPrecommitPower totalPreviousPower)
    let rewards := fun d => (previousVotes.map fun vote => CoinSet.amt (voteReward fees
      (voteMultiplier params sumPreviousPrecommitPower totalPreviousPower) totalPreviousPower
        vote) d).sum
    ∃ L' feePool' s', allocateTokens sk feeCollectorName staking params L feePool s blockTime
        sumPreviousPrecommitPower totalPreviousPower previousProposer previousVotes =
        .ok (L', feePool', s') ∧
      L'.supply = L.supply ∧ (∀ d, L'.accounts.total d = L.accounts.total d) ∧
      ValidatorsReady staking s' ∧
      ∀ d, CoinSet.amt feePool'.communityPool d = CoinSet.amt feePool.communityPool d +
          (CoinSet.amt fees d - proposerPaid staking proposerReward previousProposer d -
            rewards d) ∧
        s'.totalOutstanding d = s.totalOutstanding d +
          proposerPaid staking proposerReward previousProposer d + rewards d ∧
        s'.totalSplit d = s.totalSplit d +
          proposerPaid staking proposerReward previousProposer d + rewards d := by
  intro fees proposerReward rewards
  obtain ⟨feeAcc, accounts₁, L₁, hget, coins, valid, hsend, supply₁, totals₁⟩ :=
    sk.sendCoinsFromModuleToModule_all feeCollector distribution distinct blockTime
  -- the fees, read as decimals, are sorted and not negative
  have feesSorted : CoinSet.Sorted fees :=
    DecCoins.sorted_ofCoins (CoinSet.sorted_of_isValid (coins ▸ valid))
  have feesNonneg : ∀ d, 0 ≤ (CoinSet.amt fees d).int := fun d => by
    rw [DecCoins.amt_ofCoins]
    exact Int.mul_nonneg (Coins.amt_nonneg_of_isValid (coins ▸ valid) d) precisionReuse_pos.le
  obtain ⟨proposerNonneg, votesNonneg, atMostOne'⟩ :=
    multipliers_bounds positive signed signed_le base bonus tax atMostOne
  have shares := fun d => shares_within feesSorted (feesNonneg d) proposerNonneg votesNonneg
    atMostOne'
  have voteShares := fun d => voteRewards_within (shares d).2.1 positive powers within
  -- the proposer is paid within the fees, and the votes within what it leaves
  obtain ⟨s₁, remaining₁, proposed, ready₁, sorted₁, facts₁⟩ :=
    allocateProposer_ok previousProposer validators feesSorted
      (DecCoins.sorted_mulDecTruncate _ _) (fun d => (shares d).1)
      (fun d => by linarith [(shares d).2.1, (shares d).2.2])
  have paidLe : ∀ d, (proposerPaid staking proposerReward previousProposer d).int ≤
      (CoinSet.amt proposerReward d).int := by
    intro d
    unfold proposerPaid
    split
    · exact le_refl _
    · exact (shares d).1
  obtain ⟨s', remaining', voted, ready', facts'⟩ := allocateVotes_ok previousVotes s₁ remaining₁
    ready₁ stored sorted₁ (fun vote member d => (voteShares d).1 vote member) (fun d => by
      rw [(facts₁ d).1, Dec.sub_int]
      linarith [(voteShares d).2, (shares d).2.2, paidLe d])
  refine ⟨L₁, { feePool with communityPool := feePool.communityPool.add remaining' }, s', ?_,
    supply₁, totals₁, ready', fun d => ?_⟩
  · unfold allocateTokens
    refine Fallible.bind_eq_ok.mpr ⟨_, hget, ?_⟩
    dsimp only
    rw [coins]
    refine Fallible.bind_eq_ok.mpr ⟨_, coins ▸ hsend, ?_⟩
    rw [if_neg positive.ne']
    refine Fallible.bind_eq_ok.mpr ⟨_, proposed, ?_⟩
    exact Fallible.bind_eq_ok.mpr ⟨_, voted, rfl⟩
  · obtain ⟨remaining₁d, outstanding₁d, split₁d⟩ := facts₁ d
    obtain ⟨remaining'd, outstanding'd, split'd⟩ := facts' d
    refine ⟨?_, by rw [outstanding'd, outstanding₁d], by rw [split'd, split₁d]⟩
    show CoinSet.amt (feePool.communityPool.add remaining') d = _
    rw [DecCoins.add, DecCoins.safeAdd, CoinSet.amt_safeAdd, remaining'd, remaining₁d]

/-- The parameters of the default genesis: a community tax of 0.2%, a base proposer reward of
1% and a bonus proposer reward of 4%. -/
def defaultGenesisParams : Params := ⟨⟨2 * 10 ^ 15⟩, ⟨10 ^ 16⟩, ⟨4 * 10 ^ 16⟩⟩

/-- A supply keeper with the fee collector at `[1]` and the distribution module at `[2]`. -/
def feeKeeper : SupplyKeeper :=
  ⟨fun name => if name = "fee_collector" then [1] else [2],
    [("fee_collector", []), (moduleName, [])]⟩

/-- A ledger whose fee collector holds ten `poc`. -/
def feeLedger : Ledger :=
  ⟨SortedMap.empty.insert [1] ⟨[⟨"poc", 10⟩], .module "fee_collector" []⟩, [⟨"poc", 10⟩]⟩

/-- Two validators without commission, under the consensus addresses `[2]` and `[4]`. -/
def firstValidator : Staking.Validator := Staking.Validator.newValidator [1] [2] ⟨"", "", "", ""⟩

def secondValidator : Staking.Validator := Staking.Validator.newValidator [3] [4] ⟨"", "", "", ""⟩

/-- A staking store holding the two validators. -/
def twoValidatorStore : Staking.Store :=
  ((((Staking.Store.empty Staking.defaultParams).setValidator firstValidator).setValidatorByConsAddr
    firstValidator).setValidator secondValidator).setValidatorByConsAddr secondValidator

/-- The records their creation writes for the two validators. -/
def twoValidatorRewards : RewardsStore :=
  ⟨SortedMap.empty, (SortedMap.empty.insert [1] ⟨[], 1⟩).insert [3] ⟨[], 1⟩,
    (SortedMap.empty.insert [1] []).insert [3] []⟩

theorem feeKeeper_ready :
    feeKeeper.ModuleReady feeLedger.accounts "fee_collector" ∧
      feeKeeper.ModuleReady feeLedger.accounts moduleName := by
  refine ⟨⟨rfl, fun acc stored => ?_⟩, ⟨rfl, fun acc stored => ?_⟩⟩
  · have found : feeLedger.accounts.getAccount (feeKeeper.moduleAddress "fee_collector") =
        some ⟨[⟨"poc", 10⟩], .module "fee_collector" []⟩ := rfl
    rw [found] at stored
    cases stored
    exact ⟨⟨_, _, rfl⟩, by decide +kernel⟩
  · have absent : feeLedger.accounts.getAccount (feeKeeper.moduleAddress moduleName) = none := rfl
    rw [absent] at stored
    cases stored

theorem twoValidatorStore_ready : ValidatorsReady twoValidatorStore twoValidatorRewards := by
  intro addr validator stored
  -- `secondValidator` is under `[4]`, `firstValidator` under `[2]`, and nothing else is stored
  simp only [Staking.Store.getValidatorByConsAddr, twoValidatorStore,
    Staking.Store.setValidatorByConsAddr, Staking.Store.setValidator, Staking.Store.getValidator,
    Staking.Store.empty, SortedMap.find?_insert, SortedMap.find?_empty] at stored
  split at stored
  · cases stored
    exact ⟨by decide, by decide, rfl, rfl⟩
  · split at stored
    · cases stored
      exact ⟨by decide, by decide, rfl, rfl⟩
    · cases stored

/-- Two votes, of powers 60 and 30 out of 100, both signed, with the first validator proposing. -/
def twoVotes : List VoteInfo := [⟨[2], 60⟩, ⟨[4], 30⟩]

theorem allocate_tokens_conserves_two_votes :
    let fees := DecCoins.ofCoins (feeLedger.accounts.getCoins (feeKeeper.moduleAddress "fee_collector"))
    let proposerReward := fees.mulDecTruncate (proposerMultiplier defaultGenesisParams 90 100)
    let rewards := fun d => (twoVotes.map fun vote => CoinSet.amt
      (voteReward fees (voteMultiplier defaultGenesisParams 90 100) 100 vote) d).sum
    (feeKeeper.ModuleReady feeLedger.accounts "fee_collector" ∧
      feeKeeper.ModuleReady feeLedger.accounts moduleName ∧
      feeKeeper.moduleAddress "fee_collector" ≠ feeKeeper.moduleAddress moduleName ∧
      ValidatorsReady twoValidatorStore twoValidatorRewards ∧
      (∀ vote ∈ twoVotes, (twoValidatorStore.getValidatorByConsAddr vote.address).isSome) ∧
      (∀ vote ∈ twoVotes, 0 ≤ vote.power) ∧
      (twoVotes.map VoteInfo.power).sum ≤ 100 ∧ (0 : Int) < 100 ∧
      (0 : Int) ≤ 90 ∧ (90 : Int) ≤ 100 ∧ 0 ≤ defaultGenesisParams.baseProposerReward.int ∧
      0 ≤ defaultGenesisParams.bonusProposerReward.int ∧
      0 ≤ defaultGenesisParams.communityTax.int ∧
      defaultGenesisParams.baseProposerReward.int + defaultGenesisParams.bonusProposerReward.int +
        defaultGenesisParams.communityTax.int ≤ precisionReuse) ∧
    ∃ L' feePool' s', allocateTokens feeKeeper "fee_collector" twoValidatorStore
        defaultGenesisParams feeLedger ⟨[]⟩ twoValidatorRewards 0 90 100 [2] twoVotes =
        .ok (L', feePool', s') ∧
      L'.supply = feeLedger.supply ∧ (∀ d, L'.accounts.total d = feeLedger.accounts.total d) ∧
      ValidatorsReady twoValidatorStore s' ∧
      ∀ d, CoinSet.amt feePool'.communityPool d = CoinSet.amt ([] : DecCoins) d +
          (CoinSet.amt fees d - proposerPaid twoValidatorStore proposerReward [2] d -
            rewards d) ∧
        s'.totalOutstanding d = twoValidatorRewards.totalOutstanding d +
          proposerPaid twoValidatorStore proposerReward [2] d + rewards d ∧
        s'.totalSplit d = twoValidatorRewards.totalSplit d +
          proposerPaid twoValidatorStore proposerReward [2] d + rewards d := by
  intro fees proposerReward rewards
  have stored : ∀ vote ∈ twoVotes, (twoValidatorStore.getValidatorByConsAddr vote.address).isSome := by
    intro vote member
    rcases List.mem_pair.mp member with rfl | rfl <;> rfl
  exact ⟨⟨feeKeeper_ready.1, feeKeeper_ready.2, by decide, twoValidatorStore_ready, stored,
      by decide, by decide, by decide, by decide, by decide, by decide, by decide, by decide,
      by decide⟩,
    allocate_tokens_conserves feeKeeper "fee_collector" twoValidatorStore defaultGenesisParams
      feeLedger ⟨[]⟩ twoValidatorRewards 0 90 100 [2] twoVotes feeKeeper_ready.1
      feeKeeper_ready.2 (by decide) twoValidatorStore_ready stored (by decide) (by decide)
      (by decide) (by decide) (by decide) (by decide) (by decide) (by decide) (by decide)⟩

end Distribution

end Pocc
