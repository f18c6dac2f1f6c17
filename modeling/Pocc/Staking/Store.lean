import Pocc.Staking.Types

/-!
# The staking store

The records x/staking keeps under its store key, and the getters and setters of its keeper
that read and write them one record at a time (keeper/validator.go, keeper/delegation.go,
keeper/keeper.go). A Go store is one ordered byte-keyed map; each prefix of it is a map here:

* `validators`, under `ValidatorsKey`, keyed by operator address;
* `validatorsByConsAddr`, the index from consensus address to operator address;
* `validatorsByPower`, the power index (`GetValidatorsByPowerIndexKey`);
* `delegations` and `unbondingDelegations`, keyed by delegator then validator;
* `redelegations`, keyed by delegator, source and destination validator;
* `lastValidatorPowers` and `lastTotalPower`, the validator set of the last block;
* the three queues of time slices, keyed by completion time.

The secondary indexes of unbonding delegations and redelegations (by validator, by source,
by destination) are written and deleted together with their record by `SetUnbondingDelegation`,
`RemoveUnbondingDelegation`, `SetRedelegation` and `RemoveRedelegation`, so they always list the
keys of the main map: the lookups through them filter the main map by the key's component.
-/

namespace Pocc

namespace Staking

/-- The staking store, with the module's parameters (`GetParams`). -/
structure Store where
  validators : SortedMap ValAddress Validator
  validatorsByConsAddr : SortedMap ConsAddress ValAddress
  validatorsByPower : SortedMap PowerKey ValAddress
  delegations : SortedMap DVKey Delegation
  unbondingDelegations : SortedMap DVKey UnbondingDelegation
  redelegations : SortedMap DVVKey Redelegation
  lastValidatorPowers : SortedMap ValAddress Int
  lastTotalPower : Int
  ubdQueue : SortedMap Int (List (AccAddress × ValAddress))
  redelegationQueue : SortedMap Int (List (AccAddress × ValAddress × ValAddress))
  validatorQueue : SortedMap Int (List ValAddress)
  params : Params

namespace Store

/-- The store of a chain with no validators yet. -/
def empty (params : Params) : Store :=
  ⟨.empty, .empty, .empty, .empty, .empty, .empty, .empty, 0, .empty, .empty, .empty, params⟩

/-! ## Validators and their indexes -/

/-- `GetValidator`. -/
def getValidator (s : Store) (addr : ValAddress) : Option Validator := s.validators.find? addr

/-- `SetValidator`. -/
def setValidator (s : Store) (v : Validator) : Store :=
  { s with validators := s.validators.insert v.operatorAddress v }

/-- `GetValidatorByConsAddr`. -/
def getValidatorByConsAddr (s : Store) (consAddr : ConsAddress) : Option Validator :=
  (s.validatorsByConsAddr.find? consAddr).bind s.getValidator

/-- `SetValidatorByConsAddr`. -/
def setValidatorByConsAddr (s : Store) (v : Validator) : Store :=
  { s with validatorsByConsAddr := s.validatorsByConsAddr.insert v.consAddress v.operatorAddress }

/-- `SetNewValidatorByPowerIndex`: index the validator whether or not it is jailed. -/
def setNewValidatorByPowerIndex (s : Store) (v : Validator) : Store :=
  { s with validatorsByPower := s.validatorsByPower.insert (powerIndexKey v) v.operatorAddress }

/-- `SetValidatorByPowerIndex`: jailed validators are not kept in the power index. -/
def setValidatorByPowerIndex (s : Store) (v : Validator) : Store :=
  if v.jailed then s else s.setNewValidatorByPowerIndex v

/-- `DeleteValidatorByPowerIndex`: delete the key computed from the validator given. -/
def deleteValidatorByPowerIndex (s : Store) (v : Validator) : Store :=
  { s with validatorsByPower := s.validatorsByPower.erase (powerIndexKey v) }

/-- The three deletions of `RemoveValidator`: the record under `address`, the consensus-address
index of the validator found there and its power-index key. -/
def deleteValidator (s : Store) (address : ValAddress) (v : Validator) : Store :=
  { s with
    validators := s.validators.erase address
    validatorsByConsAddr := s.validatorsByConsAddr.erase v.consAddress
    validatorsByPower := s.validatorsByPower.erase (powerIndexKey v) }

/-! ## Delegations -/

/-- `GetDelegation`. -/
def getDelegation (s : Store) (delAddr : AccAddress) (valAddr : ValAddress) : Option Delegation :=
  s.delegations.find? (dvKey delAddr valAddr)

/-- `SetDelegation`. -/
def setDelegation (s : Store) (d : Delegation) : Store :=
  { s with delegations := s.delegations.insert (dvKey d.delegatorAddress d.validatorAddress) d }

/-- The store write of `RemoveDelegation` (the keeper calls the hook first). -/
def deleteDelegation (s : Store) (d : Delegation) : Store :=
  { s with delegations := s.delegations.erase (dvKey d.delegatorAddress d.validatorAddress) }

/-! ## Unbonding delegations -/

/-- `GetUnbondingDelegation`. -/
def getUnbondingDelegation (s : Store) (delAddr : AccAddress) (valAddr : ValAddress) :
    Option UnbondingDelegation :=
  s.unbondingDelegations.find? (dvKey delAddr valAddr)

/-- `SetUnbondingDelegation`, with its index by validator. -/
def setUnbondingDelegation (s : Store) (ubd : UnbondingDelegation) : Store :=
  { s with
    unbondingDelegations :=
      s.unbondingDelegations.insert (dvKey ubd.delegatorAddress ubd.validatorAddress) ubd }

/-- `RemoveUnbondingDelegation`, with its index by validator. -/
def removeUnbondingDelegation (s : Store) (ubd : UnbondingDelegation) : Store :=
  { s with
    unbondingDelegations :=
      s.unbondingDelegations.erase (dvKey ubd.delegatorAddress ubd.validatorAddress) }

/-- `GetUnbondingDelegationsFromValidator`: the index by validator lists the unbonding
delegations of `valAddr` in the order of their delegators. -/
def getUnbondingDelegationsFromValidator (s : Store) (valAddr : ValAddress) :
    List UnbondingDelegation :=
  s.unbondingDelegations.entries.filterMap fun e =>
    if (ofLex e.1).2 = valAddr then some e.2 else none

/-- `HasMaxUnbondingDelegationEntries`. -/
def hasMaxUnbondingDelegationEntries (s : Store) (delAddr : AccAddress) (valAddr : ValAddress) :
    Bool :=
  match s.getUnbondingDelegation delAddr valAddr with
  | none => false
  | some ubd => decide (s.params.maxEntries ≤ ubd.entries.length)

/-- `SetUnbondingDelegationEntry`: append an entry, creating the record if there is none. -/
def setUnbondingDelegationEntry (s : Store) (delAddr : AccAddress) (valAddr : ValAddress)
    (creationHeight minTime balance : Int) : Store × UnbondingDelegation :=
  let entry := UnbondingDelegationEntry.new creationHeight minTime balance
  let ubd : UnbondingDelegation :=
    match s.getUnbondingDelegation delAddr valAddr with
    | some ubd => { ubd with entries := ubd.entries ++ [entry] }
    | none => ⟨delAddr, valAddr, [entry]⟩
  (s.setUnbondingDelegation ubd, ubd)

/-- `InsertUBDQueue`: append the pair to the time slice of `completionTime`. -/
def insertUBDQueue (s : Store) (ubd : UnbondingDelegation) (completionTime : Int) : Store :=
  let timeSlice := (s.ubdQueue.find? completionTime).getD []
  { s with
    ubdQueue := s.ubdQueue.insert completionTime
      (timeSlice ++ [(ubd.delegatorAddress, ubd.validatorAddress)]) }

/-- `DequeueAllMatureUBDQueue`: the pairs of every time slice up to `currTime`, oldest first,
and the queue without those slices. -/
def dequeueAllMatureUBDQueue (s : Store) (currTime : Int) :
    List (AccAddress × ValAddress) × Store :=
  let mature := s.ubdQueue.entries.filter fun e => e.1 ≤ currTime
  (mature.flatMap Prod.snd, { s with ubdQueue := mature.foldl (fun q e => q.erase e.1) s.ubdQueue })

/-! ## Redelegations -/

/-- `GetRedelegation`. -/
def getRedelegation (s : Store) (delAddr : AccAddress) (valSrcAddr valDstAddr : ValAddress) :
    Option Redelegation :=
  s.redelegations.find? (dvvKey delAddr valSrcAddr valDstAddr)

/-- `SetRedelegation`, with its indexes by source and by destination. -/
def setRedelegation (s : Store) (red : Redelegation) : Store :=
  { s with
    redelegations := s.redelegations.insert
      (dvvKey red.delegatorAddress red.validatorSrcAddress red.validatorDstAddress) red }

/-- `RemoveRedelegation`, with its indexes. -/
def removeRedelegation (s : Store) (red : Redelegation) : Store :=
  { s with
    redelegations := s.redelegations.erase
      (dvvKey red.delegatorAddress red.validatorSrcAddress red.validatorDstAddress) }

/-- `GetRedelegationsFromSrcValidator`: through the index by source validator. -/
def getRedelegationsFromSrcValidator (s : Store) (valAddr : ValAddress) : List Redelegation :=
  s.redelegations.entries.filterMap fun e =>
    if (ofLex (ofLex e.1).2).1 = valAddr then some e.2 else none

/-- `HasReceivingRedelegation`: the index by destination has a key of the delegator and
`valDstAddr`. -/
def hasReceivingRedelegation (s : Store) (delAddr : AccAddress) (valDstAddr : ValAddress) : Bool :=
  s.redelegations.entries.any fun e =>
    (ofLex e.1).1 = delAddr && (ofLex (ofLex e.1).2).2 = valDstAddr

/-- `HasMaxRedelegationEntries`. -/
def hasMaxRedelegationEntries (s : Store) (delAddr : AccAddress)
    (valSrcAddr valDstAddr : ValAddress) : Bool :=
  match s.getRedelegation delAddr valSrcAddr valDstAddr with
  | none => false
  | some red => decide (s.params.maxEntries ≤ red.entries.length)

/-- `SetRedelegationEntry`: append an entry, creating the record if there is none. The shares
taken from the source are not stored. -/
def setRedelegationEntry (s : Store) (delAddr : AccAddress) (valSrcAddr valDstAddr : ValAddress)
    (creationHeight minTime balance : Int) (sharesDst : Dec) : Store × Redelegation :=
  let entry : RedelegationEntry := ⟨creationHeight, minTime, balance, sharesDst⟩
  let red : Redelegation :=
    match s.getRedelegation delAddr valSrcAddr valDstAddr with
    | some red => { red with entries := red.entries ++ [entry] }
    | none => ⟨delAddr, valSrcAddr, valDstAddr, [entry]⟩
  (s.setRedelegation red, red)

/-- `InsertRedelegationQueue`. -/
def insertRedelegationQueue (s : Store) (red : Redelegation) (completionTime : Int) : Store :=
  let timeSlice := (s.redelegationQueue.find? completionTime).getD []
  { s with
    redelegationQueue := s.redelegationQueue.insert completionTime
      (timeSlice ++ [(red.delegatorAddress, red.validatorSrcAddress, red.validatorDstAddress)]) }

/-- `DequeueAllMatureRedelegationQueue`. -/
def dequeueAllMatureRedelegationQueue (s : Store) (currTime : Int) :
    List (AccAddress × ValAddress × ValAddress) × Store :=
  let mature := s.redelegationQueue.entries.filter fun e => e.1 ≤ currTime
  (mature.flatMap Prod.snd,
    { s with redelegationQueue := mature.foldl (fun q e => q.erase e.1) s.redelegationQueue })

/-! ## The validator queue and the last validator set -/

/-- `InsertValidatorQueue`: under the validator's unbonding completion time. -/
def insertValidatorQueue (s : Store) (v : Validator) : Store :=
  let timeSlice := (s.validatorQueue.find? v.unbondingCompletionTime).getD []
  { s with
    validatorQueue := s.validatorQueue.insert v.unbondingCompletionTime
      (timeSlice ++ [v.operatorAddress]) }

/-- `DeleteValidatorQueue`: drop the validator from the slice of its completion time, and the
slice if it becomes empty. -/
def deleteValidatorQueue (s : Store) (v : Validator) : Store :=
  let timeSlice := (s.validatorQueue.find? v.unbondingCompletionTime).getD []
  let newTimeSlice := timeSlice.filter fun addr => addr ≠ v.operatorAddress
  if newTimeSlice = [] then
    { s with validatorQueue := s.validatorQueue.erase v.unbondingCompletionTime }
  else
    { s with validatorQueue := s.validatorQueue.insert v.unbondingCompletionTime newTimeSlice }

/-- `SetLastValidatorPower`. -/
def setLastValidatorPower (s : Store) (operator : ValAddress) (power : Int) : Store :=
  { s with lastValidatorPowers := s.lastValidatorPowers.insert operator power }

/-- `DeleteLastValidatorPower`. -/
def deleteLastValidatorPower (s : Store) (operator : ValAddress) : Store :=
  { s with lastValidatorPowers := s.lastValidatorPowers.erase operator }

/-- `SetLastTotalPower`. -/
def setLastTotalPower (s : Store) (power : Int) : Store := { s with lastTotalPower := power }

end Store

end Staking

end Pocc
