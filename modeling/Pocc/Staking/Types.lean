import Pocc.Token.Keeper
import Mathlib

/-!
# Staking types

x/staking/types: validators with their tokens and the shares issued on them, delegations,
unbonding delegations and redelegations, and the key under which the power index stores a
validator.

A validator's tokens are an `sdk.Int` and its delegator shares an `sdk.Dec`: a delegation of
`amount` tokens is issued `amount` shares on a validator without shares, and
`shares * amount / tokens` otherwise (`AddTokensFromDel`); shares are turned back into tokens
with `TokensFromShares`, rounded, and the integer part is paid out (`RemoveDelShares`).

A time is an integer (`time.Time` read as a count of some unit), and a duration is added to it.
The consensus public key of a validator is kept as its address (`ConsPubKey.Address()`,
computed by code outside the repository).
-/

namespace Pocc

/-- `sdk.ValAddress`. -/
abbrev ValAddress := Bytes

/-- `sdk.ConsAddress`. -/
abbrev ConsAddress := Bytes

/-- `sdk.BondStatus`. -/
inductive BondStatus where
  | unbonded
  | unbonding
  | bonded
  deriving DecidableEq, Repr

/-- `sdk.PowerReduction`: the tokens of one unit of consensus power. -/
def powerReduction : Int := 10 ^ 18

/-- `sdk.TokensToConsensusPower`. -/
def tokensToConsensusPower (tokens : Int) : Int := tokens.tdiv powerReduction

/-- `sdk.TokensToConsensusPower` as Go runs it: `Int64()` panics on a power outside an
`int64`. -/
def tokensToConsensusPowerChecked (tokens : Int) : Except SdkError Int :=
  if IsInt64 (tokensToConsensusPower tokens) then pure (tokensToConsensusPower tokens)
  else throw (.panic "Int64() out of bound")

/-- `sdk.TokensFromConsensusPower`. -/
def tokensFromConsensusPower (power : Int) : Int := power * powerReduction

namespace Staking

/-- `ModuleName` and `DefaultCodespace` of x/staking. -/
def codespace : String := "staking"

/-- `BondedPoolName`. -/
def bondedPoolName : String := "bonded_tokens_pool"

/-- `NotBondedPoolName`. -/
def notBondedPoolName : String := "not_bonded_tokens_pool"

/-- `DefaultFrozenTime` of pocc: an operator may not unbond its own delegation within two years
of creating its validator. In seconds. -/
def defaultFrozenTime : Int := 60 * 60 * 24 * 365 * 2

/-! ## Errors -/

/-- `sdk.NewError(DefaultCodespace, code, log)` for a code of x/staking. -/
def err (code : Nat) (log : String) : SdkError := .error codespace (.module code) log

def errNilValidatorAddr : SdkError := err 103 "validator address is nil"
def errBadValidatorAddr : SdkError :=
  .error codespace .invalidAddress "validator address is invalid"
def errNoValidatorFound : SdkError := err 101 "validator does not exist for that address"
def errValidatorOwnerExists : SdkError :=
  err 101 "validator already exist for this operator address, must use new validator operator address"
def errValidatorPubKeyExists : SdkError :=
  err 101 "validator already exist for this pubkey, must use new validator pubkey"
def errDescriptionLength (descriptor : String) (got max : Nat) : SdkError :=
  err 101 s!"bad description length for {descriptor}, got length {got}, max is {max}"
def errCommissionUpdateTime : SdkError := err 101 "commission cannot be changed more than once in 24h"
def errCommissionGTMaxChangeRate : SdkError :=
  err 101 "commission cannot be changed more than max change rate"
def errSelfDelegationBelowMinimum : SdkError :=
  err 101 "validator\x27s self delegation must be greater than their minimum self delegation"
def errMinSelfDelegationInvalid : SdkError := err 101 "minimum self delegation must be a positive integer"
def errMinSelfDelegationDecreased : SdkError := err 101 "minimum self delegation cannot be decrease"
def errNilDelegatorAddr : SdkError := err 103 "delegator address is nil"
def errBadDelegationAmount : SdkError := err 102 "amount must be > 0"
def errCommissionNegative : SdkError := err 101 "commission must be positive"
def errCommissionHuge : SdkError := err 101 "commission cannot be more than 100%"
def errCommissionGTMaxRate : SdkError := err 101 "commission cannot be more than the max rate"
def errCommissionChangeRateNegative : SdkError := err 101 "commission change rate must be positive"
def errCommissionChangeRateGTMaxRate : SdkError :=
  err 101 "commission change rate cannot be more than the max rate"
def errBadDenom : SdkError := err 102 "invalid coin denomination"
def errNoDelegation : SdkError := err 102 "no delegation for this (address, validator) pair"
def errNoDelegatorForAddress : SdkError := err 102 "delegator does not contain this delegation"
def errInsufficientShares : SdkError := err 102 "insufficient delegation shares"
def errNotEnoughDelegationShares (shares : String) : SdkError :=
  err 102 s!"not enough shares only have {shares}"
def errBadSharesAmount : SdkError := err 102 "shares must be > 0"
def errNoUnbondingDelegation : SdkError := err 102 "no unbonding delegation found"
def errMaxUnbondingDelegationEntries : SdkError :=
  err 102 "too many unbonding delegation entries in this delegator/validator duo, please wait for some entries to mature"
def errNoRedelegation : SdkError := err 102 "no redelegation found"
def errSelfRedelegation : SdkError := err 102 "cannot redelegate to the same validator"
def errVerySmallRedelegation : SdkError :=
  err 102 "too few tokens to redelegate, truncates to zero tokens"
def errBadRedelegationDst : SdkError := err 102 "redelegation validator not found"
def errTransitiveRedelegation : SdkError :=
  err 102 "redelegation to this validator already in progress, first redelegation to this validator must complete before next redelegation"
def errMaxRedelegationEntries : SdkError :=
  err 102 "too many redelegation entries in this delegator/src-validator/dst-validator trio, please wait for some entries to mature"
def errDelegatorShareExRateInvalid : SdkError :=
  err 102 "cannot delegate to validators with invalid (zero) ex-rate"

/-- `ErrStillInFrozen`: the one error of x/staking with a code of the root codespace. -/
def errStillInFrozen : SdkError :=
  .error codespace .unauthorized "cannot undelegate validator\x27s operate before 1 year\x27s frozen period"

/-! ## Validators -/

/-- `CommissionRates`: the rate charged to delegators and its bounds. -/
structure CommissionRates where
  rate : Dec
  maxRate : Dec
  maxChangeRate : Dec
  deriving DecidableEq, Repr

/-- `Commission`: the rates, and when the rate last changed. -/
structure Commission extends CommissionRates where
  updateTime : Int
  deriving DecidableEq, Repr

/-- `CommissionRates.Validate`. -/
def CommissionRates.validate (c : CommissionRates) : Option SdkError :=
  if c.maxRate < 0 then some errCommissionNegative
  else if Dec.oneDec < c.maxRate then some errCommissionHuge
  else if c.rate < 0 then some errCommissionNegative
  else if c.maxRate < c.rate then some errCommissionGTMaxRate
  else if c.maxChangeRate < 0 then some errCommissionChangeRateNegative
  else if c.maxRate < c.maxChangeRate then some errCommissionChangeRateGTMaxRate
  else none

/-- `Commission.ValidateNewRate`: at most one change a day (`Hours() < 24` of the time since the
last change, times in seconds), within the bounds. -/
def Commission.validateNewRate (c : Commission) (newRate : Dec) (blockTime : Int) :
    Option SdkError :=
  if blockTime - c.updateTime < 60 * 60 * 24 then some errCommissionUpdateTime
  else if newRate < 0 then some errCommissionNegative
  else if c.maxRate < newRate then some errCommissionGTMaxRate
  else if c.maxChangeRate < newRate - c.rate then some errCommissionGTMaxChangeRate
  else none

/-- `Description`. -/
structure Description where
  moniker : String
  identity : String
  website : String
  details : String
  deriving DecidableEq, Repr

/-- `DoNotModifyDesc`. -/
def doNotModifyDesc : String := "[do-not-modify]"

def maxMonikerLength : Nat := 70
def maxIdentityLength : Nat := 3000
def maxWebsiteLength : Nat := 140
def maxDetailsLength : Nat := 280

namespace Description

/-- `EnsureLength`: Go\x27s `len` counts the bytes of a string. -/
def ensureLength (d : Description) : Except SdkError Description :=
  if maxMonikerLength < d.moniker.utf8ByteSize then
    throw (errDescriptionLength "moniker" d.moniker.utf8ByteSize maxMonikerLength)
  else if maxIdentityLength < d.identity.utf8ByteSize then
    throw (errDescriptionLength "identity" d.identity.utf8ByteSize maxIdentityLength)
  else if maxWebsiteLength < d.website.utf8ByteSize then
    throw (errDescriptionLength "website" d.website.utf8ByteSize maxWebsiteLength)
  else if maxDetailsLength < d.details.utf8ByteSize then
    throw (errDescriptionLength "details" d.details.utf8ByteSize maxDetailsLength)
  else pure d

/-- `UpdateDescription`: a field given as `doNotModifyDesc` keeps its value. -/
def updateDescription (d d2 : Description) : Except SdkError Description :=
  let keep (old new : String) := if new = doNotModifyDesc then old else new
  ensureLength ⟨keep d.moniker d2.moniker, keep d.identity d2.identity, keep d.website d2.website,
    keep d.details d2.details⟩

end Description

/-- `Validator`. -/
structure Validator where
  operatorAddress : ValAddress
  /-- `ConsPubKey.Address()`. -/
  consAddress : ConsAddress
  jailed : Bool
  status : BondStatus
  tokens : Int
  delegatorShares : Dec
  unbondingHeight : Int
  unbondingCompletionTime : Int
  commission : Commission
  minSelfDelegation : Int
  createTime : Int
  description : Description
  deriving DecidableEq, Repr

namespace Validator

/-- `NewValidator`: unbonded, without tokens or shares, with a zero commission. -/
def newValidator (operator : ValAddress) (consAddress : ConsAddress) (description : Description) :
    Validator :=
  ⟨operator, consAddress, false, .unbonded, 0, 0, 0, 0, ⟨⟨0, 0, 0⟩, 0⟩, 1, 0, description⟩

/-- `SetInitialCommission`. -/
def setInitialCommission (v : Validator) (commission : Commission) : Except SdkError Validator :=
  match commission.validate with
  | some err => throw err
  | none => pure { v with commission := commission }

def isBonded (v : Validator) : Bool := v.status = .bonded
def isUnbonding (v : Validator) : Bool := v.status = .unbonding
def isUnbonded (v : Validator) : Bool := v.status = .unbonded

/-- `InvalidExRate`: the validator lost all its tokens while shares remain. -/
def invalidExRate (v : Validator) : Bool := v.tokens = 0 && decide (0 < v.delegatorShares.int)

/-- `TokensFromShares`. -/
def tokensFromShares (v : Validator) (shares : Dec) : Dec :=
  (shares.mulInt v.tokens).quo v.delegatorShares

/-- `TokensFromSharesTruncated`. -/
def tokensFromSharesTruncated (v : Validator) (shares : Dec) : Dec :=
  (shares.mulInt v.tokens).quoTruncate v.delegatorShares

/-- `TokensFromSharesRoundUp`. -/
def tokensFromSharesRoundUp (v : Validator) (shares : Dec) : Dec :=
  (shares.mulInt v.tokens).quoRoundUp v.delegatorShares

/-- `SharesFromTokens`. -/
def sharesFromTokens (v : Validator) (amt : Int) : Except SdkError Dec :=
  if v.tokens = 0 then throw errInsufficientShares
  else do
    -- `MulInt` checks its product; `QuoInt` checks nothing
    let product ← checkDec (v.delegatorShares.mulInt amt)
    pure (product.quoInt v.tokens)

/-- `SharesFromTokensTruncated`. -/
def sharesFromTokensTruncated (v : Validator) (amt : Int) : Except SdkError Dec :=
  if v.tokens = 0 then throw errInsufficientShares
  else pure ((v.delegatorShares.mulInt amt).quoTruncate (Dec.ofInt v.tokens))

/-- `PotentialConsensusPower`. -/
def potentialConsensusPower (v : Validator) : Int := tokensToConsensusPower v.tokens

/-- `ConsensusPower`: the potential power of a bonded validator, else zero. -/
def consensusPower (v : Validator) : Int := if v.isBonded then v.potentialConsensusPower else 0

/-- `BondedTokens`: the tokens of a bonded validator, else zero. -/
def bondedTokens (v : Validator) : Int := if v.isBonded then v.tokens else 0

/-- `UpdateStatus`. -/
def updateStatus (v : Validator) (newStatus : BondStatus) : Validator := { v with status := newStatus }

/-- `AddTokensFromDel`: the first delegation sets the exchange rate to one; a validator with
shares and no tokens panics. -/
def addTokensFromDel (v : Validator) (amount : Int) : Except SdkError (Validator × Dec) := do
  let issuedShares ←
    (if v.delegatorShares.int = 0 then pure (Dec.ofInt amount)
    else SupplyKeeper.orPanic (v.sharesFromTokens amount))
  let tokens ← checkInt "Int overflow" (v.tokens + amount)
  let delegatorShares ← checkDec (v.delegatorShares + issuedShares)
  pure ({ v with tokens, delegatorShares }, issuedShares)

/-- `RemoveTokens`. -/
def removeTokens (v : Validator) (tokens : Int) : Except SdkError Validator :=
  if tokens < 0 then throw (.panic s!"should not happen: trying to remove negative tokens {tokens}")
  else if v.tokens < tokens then
    throw (.panic s!"should not happen: only have {v.tokens} tokens, trying to remove {tokens}")
  else pure { v with tokens := v.tokens - tokens }

/-- `RemoveDelShares`: the last shares take every remaining token; otherwise the integer part
of their worth is paid and the fraction stays with the validator. -/
def removeDelShares (v : Validator) (delShares : Dec) : Except SdkError (Validator × Int) := do
  let remainingShares ← checkDec (v.delegatorShares - delShares)
  if remainingShares.int = 0 then
    pure ({ v with tokens := 0, delegatorShares := remainingShares }, v.tokens)
  else
    -- `TokensFromShares` checks its `MulInt` and its `Quo`; `TruncateInt` and `Sub` check theirs
    let product ← checkDec (delShares.mulInt v.tokens)
    let worth ← checkDec (product.quo v.delegatorShares)
    let issuedTokens ← checkInt "NewIntFromBigInt() out of bound" worth.truncateInt
    let tokens ← checkInt "Int overflow" (v.tokens - issuedTokens)
    if tokens < 0 then
      throw (.panic "attempting to remove more tokens than available in validator")
    else pure ({ v with tokens, delegatorShares := remainingShares }, issuedTokens)

/-! ### What the token functions return -/

theorem sharesFromTokens_eq_ok {v : Validator} {amt : Int} {shares : Dec}
    (h : v.sharesFromTokens amt = .ok shares) :
    shares = (v.delegatorShares.mulInt amt).quoInt v.tokens := by
  unfold sharesFromTokens at h
  split at h
  · exact absurd h Fallible.throw_ne_ok
  · obtain ⟨product, hproduct, h⟩ := Fallible.bind_eq_ok.mp h
    obtain ⟨-, rfl⟩ := checkDec_eq_ok hproduct
    exact (Fallible.pure_eq_ok.mp h).symm

theorem addTokensFromDel_eq_ok {v v' : Validator} {amount : Int} {issuedShares : Dec}
    (h : v.addTokensFromDel amount = .ok (v', issuedShares)) :
    issuedShares = (if v.delegatorShares.int = 0 then Dec.ofInt amount
      else (v.delegatorShares.mulInt amount).quoInt v.tokens) ∧
      (v.delegatorShares.int ≠ 0 → v.tokens ≠ 0) ∧
      v' = { v with
        tokens := v.tokens + amount, delegatorShares := v.delegatorShares + issuedShares } := by
  unfold addTokensFromDel at h
  obtain ⟨issued, hissued, h⟩ := Fallible.bind_eq_ok.mp h
  obtain ⟨tokens, htokens, h⟩ := Fallible.bind_eq_ok.mp h
  obtain ⟨shares, hshares, h⟩ := Fallible.bind_eq_ok.mp h
  obtain ⟨-, rfl⟩ := checkInt_eq_ok htokens
  obtain ⟨-, rfl⟩ := checkDec_eq_ok hshares
  obtain ⟨rfl, rfl⟩ := Prod.mk.inj (Fallible.pure_eq_ok.mp h)
  refine ⟨?_, fun shares => ?_, rfl⟩
  · split at hissued
    · next zero => rw [if_pos zero, ← Fallible.pure_eq_ok.mp hissued]
    · next nonzero =>
      rw [if_neg nonzero, sharesFromTokens_eq_ok (SupplyKeeper.orPanic_eq_ok hissued)]
  · rw [if_neg shares] at hissued
    have hshares := SupplyKeeper.orPanic_eq_ok hissued
    unfold sharesFromTokens at hshares
    split at hshares
    · exact absurd hshares Fallible.throw_ne_ok
    · assumption

theorem removeDelShares_eq_ok {v v' : Validator} {delShares : Dec} {removedTokens : Int}
    (h : v.removeDelShares delShares = .ok (v', removedTokens)) :
    ((v.delegatorShares - delShares).int = 0 ∧ removedTokens = v.tokens ∨
      (v.delegatorShares - delShares).int ≠ 0 ∧
        removedTokens = (v.tokensFromShares delShares).truncateInt ∧ removedTokens ≤ v.tokens) ∧
      v' = { v with
        tokens := v.tokens - removedTokens, delegatorShares := v.delegatorShares - delShares } := by
  unfold removeDelShares at h
  obtain ⟨remaining, hremaining, h⟩ := Fallible.bind_eq_ok.mp h
  obtain ⟨-, rfl⟩ := checkDec_eq_ok hremaining
  split at h
  · next zero =>
    obtain ⟨rfl, rfl⟩ := Prod.mk.inj (Fallible.pure_eq_ok.mp h)
    exact ⟨.inl ⟨zero, rfl⟩, by simp⟩
  · next nonzero =>
    obtain ⟨product, hproduct, h⟩ := Fallible.bind_eq_ok.mp h
    obtain ⟨worth, hworth, h⟩ := Fallible.bind_eq_ok.mp h
    obtain ⟨issued, hissued, h⟩ := Fallible.bind_eq_ok.mp h
    obtain ⟨tokens, htokens, h⟩ := Fallible.bind_eq_ok.mp h
    obtain ⟨-, rfl⟩ := checkDec_eq_ok hproduct
    obtain ⟨-, rfl⟩ := checkDec_eq_ok hworth
    obtain ⟨-, rfl⟩ := checkInt_eq_ok hissued
    obtain ⟨-, rfl⟩ := checkInt_eq_ok htokens
    split at h
    · exact absurd h Fallible.throw_ne_ok
    · next enough =>
      obtain ⟨rfl, rfl⟩ := Prod.mk.inj (Fallible.pure_eq_ok.mp h)
      exact ⟨.inr ⟨nonzero, rfl, by omega⟩, rfl⟩

theorem removeTokens_eq_ok {v v' : Validator} {tokens : Int}
    (h : v.removeTokens tokens = .ok v') :
    0 ≤ tokens ∧ tokens ≤ v.tokens ∧ v' = { v with tokens := v.tokens - tokens } := by
  unfold removeTokens at h
  split at h
  · exact absurd h Fallible.throw_ne_ok
  · next nonneg =>
    split at h
    · exact absurd h Fallible.throw_ne_ok
    · next enough => exact ⟨by omega, by omega, (Fallible.pure_eq_ok.mp h).symm⟩

end Validator

/-! ## The power index key -/

/-- The key of the power index: the potential consensus power as a big-endian `uint64`, then
the operator address with every bit flipped. The index is iterated backwards, so the greatest
power comes first and, between equal powers, the lower address. -/
abbrev PowerKey := Lex (Nat × Bytes)

/-- `GetValidatorsByPowerIndexKey`. -/
def powerIndexKey (v : Validator) : PowerKey :=
  toLex ((v.potentialConsensusPower % 2 ^ 64).toNat, v.operatorAddress.map fun b => ~~~b)

/-! ## Delegations -/

/-- `Delegation`. -/
structure Delegation where
  delegatorAddress : AccAddress
  validatorAddress : ValAddress
  shares : Dec
  deriving DecidableEq, Repr

/-- `UnbondingDelegationEntry`. -/
structure UnbondingDelegationEntry where
  creationHeight : Int
  completionTime : Int
  initialBalance : Int
  balance : Int
  deriving DecidableEq, Repr

/-- `IsMature`: the completion time is not after `currentTime`. -/
def UnbondingDelegationEntry.isMature (e : UnbondingDelegationEntry) (currentTime : Int) : Bool :=
  e.completionTime ≤ currentTime

/-- `UnbondingDelegation`. -/
structure UnbondingDelegation where
  delegatorAddress : AccAddress
  validatorAddress : ValAddress
  entries : List UnbondingDelegationEntry
  deriving DecidableEq, Repr

/-- `NewUnbondingDelegationEntry`: the balance starts at the initial balance. -/
def UnbondingDelegationEntry.new (creationHeight completionTime balance : Int) :
    UnbondingDelegationEntry :=
  ⟨creationHeight, completionTime, balance, balance⟩

/-- `RedelegationEntry`. -/
structure RedelegationEntry where
  creationHeight : Int
  completionTime : Int
  initialBalance : Int
  sharesDst : Dec
  deriving DecidableEq, Repr

def RedelegationEntry.isMature (e : RedelegationEntry) (currentTime : Int) : Bool :=
  e.completionTime ≤ currentTime

/-- `Redelegation`. -/
structure Redelegation where
  delegatorAddress : AccAddress
  validatorSrcAddress : ValAddress
  validatorDstAddress : ValAddress
  entries : List RedelegationEntry
  deriving DecidableEq, Repr

/-- The key of a delegation and of an unbonding delegation: delegator, then validator. -/
abbrev DVKey := Lex (AccAddress × ValAddress)

/-- The key of a redelegation: delegator, source validator, destination validator. -/
abbrev DVVKey := Lex (AccAddress × Lex (ValAddress × ValAddress))

def dvKey (delAddr : AccAddress) (valAddr : ValAddress) : DVKey := toLex (delAddr, valAddr)

def dvvKey (delAddr : AccAddress) (valSrcAddr valDstAddr : ValAddress) : DVVKey :=
  toLex (delAddr, toLex (valSrcAddr, valDstAddr))

/-- `Params` of x/staking; the unbonding time is in seconds. -/
structure Params where
  unbondingTime : Int
  maxValidators : Nat
  maxEntries : Nat
  bondDenom : String
  deriving DecidableEq, Repr

/-- `DefaultParams`: an unbonding time of one week. -/
def defaultParams : Params := ⟨60 * 60 * 24 * 7, 31, 7, nativeToken⟩

end Staking

end Pocc
