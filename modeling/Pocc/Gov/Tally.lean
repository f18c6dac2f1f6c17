import Pocc.Staking.Store
import Pocc.Types.DecQuo
import Pocc.Types.DecCoin
import Pocc.Lib.KeyedSum
import Mathlib

/-!
# The tally of a proposal

x/gov/tally.go. `tally` puts the bonded validators of the power index into a map by operator
address, then reads the votes of the proposal in the order of their voters: a voter who
operates one of those validators gives it the voter's option, and each delegation of the voter
to one of them adds its shares to that validator's deductions and its voting power,
`shares * BondedTokens / DelegatorShares` rounded by one `Quo`, to the voter's option and to the
total. Each validator whose operator voted then adds the power of the shares that its voting
delegators did not deduct. The votes are deleted as they are read, and the quorum, the veto and
the threshold decide the outcome.

The loop over the votes only writes deductions and votes into the validators' map, so the map
at every step is the initial one with a deduction and a vote for each validator (`tracked`):
`tallyVotes_tracked` says what they are once the votes are read, and the voters' delegations,
read voter by voter, are regrouped by validator (`sum_delegationsOf`, `sum_powerOf`).

Go's `Dec` arithmetic panics on a result wider than 315 bits, and `TruncateInt` on one wider
than 255; the model checks where Go does. What the loops still have to add bounds each step's
results (`tallyDelegations_tracked`, `tallyValidators_ok`), and the total is known before the
loops run (`sumBy_validatorVotingPower`): the widths come down to one bound on the store
(`TallyFits`).

On a staking store where every validator's shares are those of the delegations to it
(`SharesBacked`), whose bonded validators have shares (`TallyReady`), whose numbers fit
(`TallyFits`), and whose stored votes hold one of the four options (`VotesStored`):

* `tallyVotingPower_ok`, `newTallyResultFromMap_ok`, `tallyOutcome_ok`: the tally does not panic,
  and its results add up to the total voting power;
* `tally_counts_shares_once`: the total is the sum over the bonded validators of their voting
  power, one rounding `Quo` a term; every delegation to a validator is counted once if its
  delegator or the validator's operator voted, so the shares counted are at most the
  validator's; and the total exceeds the bonded tokens of those validators by half a unit of
  `10 ^ -18` a term at most.

A bonded validator without shares whose operator voted makes `Quo` divide by zero:
`tally_panics_on_validator_without_shares`; one of `2 ^ 130` tokens and shares makes `MulInt`
overflow.
-/

namespace Pocc

namespace Gov

open Staking

/-! ## Votes and the results of a tally -/

/-- `VoteOption`. -/
inductive VoteOption where
  | empty
  | yes
  | abstain
  | no
  | noWithVeto
  deriving DecidableEq, Repr

/-- `Vote`. -/
structure Vote where
  proposalID : Nat
  voter : AccAddress
  option : VoteOption
  deriving DecidableEq, Repr

/-- The key of a vote, `VoteKey`: the proposal, then the voter. The proposal id is written
little-endian, so proposals are not in numeric order, but a tally reads the votes of one
proposal, in the order of their voters. -/
abbrev VoteKey := Lex (Nat × AccAddress)

def voteKey (proposalID : Nat) (voterAddr : AccAddress) : VoteKey := toLex (proposalID, voterAddr)

/-- `IterateVotes`: the votes under `VotesKey(proposalID)`. -/
def iterateVotes (votes : SortedMap VoteKey Vote) (proposalID : Nat) : List Vote :=
  (votes.entries.filter fun e => (ofLex e.1).1 = proposalID).map Prod.snd

/-- `deleteVote` of each vote read. -/
def deleteVotes (votes : SortedMap VoteKey Vote) (read : List Vote) : SortedMap VoteKey Vote :=
  read.foldl (fun m vote => m.erase (voteKey vote.proposalID vote.voter)) votes

/-- `TallyParams`. -/
structure TallyParams where
  quorum : Dec
  threshold : Dec
  veto : Dec
  deriving DecidableEq, Repr

/-- `TallyResult`. -/
structure TallyResult where
  yes : Int
  abstain : Int
  no : Int
  noWithVeto : Int
  deriving DecidableEq, Repr

/-- `NewTallyResultFromMap`: the results truncated to whole tokens, where `TruncateInt` panics
on one wider than an `sdk.Int`. -/
def newTallyResultFromMap (results : VoteOption → Dec) : Except SdkError TallyResult := do
  let yes ← (results .yes).truncateIntChecked
  let abstain ← (results .abstain).truncateIntChecked
  let no ← (results .no).truncateIntChecked
  let noWithVeto ← (results .noWithVeto).truncateIntChecked
  pure ⟨yes, abstain, no, noWithVeto⟩

/-- An addition to `results`, the map of `tally` with an entry of zero for each of the four
options. `OptionEmpty` has no entry, and adding to the nil `big.Int` read for it panics. -/
def addResult (results : VoteOption → Dec) (option : VoteOption) (votingPower : Dec) :
    Except SdkError (VoteOption → Dec) :=
  if option = .empty then
    throw (.panic "runtime error: invalid memory address or nil pointer dereference")
  else do
    let result ← checkDec (results option + votingPower)
    pure (Function.update results option result)

/-! ## The loops of `tally` -/

/-- `validatorGovInfo`. -/
structure ValidatorGovInfo where
  address : ValAddress
  bondedTokens : Int
  delegatorShares : Dec
  delegatorDeductions : Dec
  vote : VoteOption
  deriving DecidableEq, Repr

/-- `newValidatorGovInfo` of a validator, before any vote. -/
def govInfo (validator : Validator) : ValidatorGovInfo :=
  ⟨validator.operatorAddress, validator.bondedTokens, validator.delegatorShares, 0, .empty⟩

/-- `IterateBondedValidatorsByPower`: the validators of the power index from the greatest key
down, skipping those not bonded, until `maxValidators` bonded ones are met. -/
def iterateBondedValidatorsByPower (s : Store) (count : Nat) :
    List ValAddress → Except SdkError (List Validator)
  | [] => pure []
  | address :: rest =>
    if s.params.maxValidators ≤ count then pure []
    else
      match s.getValidator address with
      | none => throw (.panic "validator record not found for address")
      | some validator =>
        if validator.isBonded then do
          let bonded ← iterateBondedValidatorsByPower s (count + 1) rest
          pure (validator :: bonded)
        else iterateBondedValidatorsByPower s count rest

/-- The first loop of `tally`: the bonded validators by operator address. -/
def bondedValidators (s : Store) : Except SdkError (SortedMap ValAddress ValidatorGovInfo) := do
  let validators ← iterateBondedValidatorsByPower s 0
    (s.validatorsByPower.entries.map Prod.snd).reverse
  pure (validators.foldl (fun m v => m.insert v.operatorAddress (govInfo v)) .empty)

/-- `IterateDelegations`: the delegations under the delegator's prefix, by validator. -/
def delegationsOf (s : Store) (delAddr : AccAddress) : List Delegation :=
  (s.delegations.entries.filter fun e => (ofLex e.1).1 = delAddr).map Prod.snd

/-- What the loop over the votes carries. -/
structure TallyAcc where
  currValidators : SortedMap ValAddress ValidatorGovInfo
  results : VoteOption → Dec
  totalVotingPower : Dec

/-- The loop over a voter's delegations: a delegation to a tallied validator is deducted from
it, and its voting power goes to the voter's option. -/
def tallyDelegation (option : VoteOption) (acc : TallyAcc) (delegation : Delegation) :
    Except SdkError TallyAcc :=
  match acc.currValidators.find? delegation.validatorAddress with
  | none => pure acc
  | some val => do
    let delegatorDeductions ← checkDec (val.delegatorDeductions + delegation.shares)
    let currValidators := acc.currValidators.insert delegation.validatorAddress
      { val with delegatorDeductions }
    let product ← checkDec (delegation.shares.mulInt val.bondedTokens)
    let votingPower ← product.quoChecked val.delegatorShares
    let results ← addResult acc.results option votingPower
    let totalVotingPower ← checkDec (acc.totalVotingPower + votingPower)
    pure ⟨currValidators, results, totalVotingPower⟩

/-- The loop over the votes: a voter who operates a tallied validator records its vote there,
then the voter's delegations are tallied. -/
def tallyVote (s : Store) (acc : TallyAcc) (vote : Vote) : Except SdkError TallyAcc :=
  let currValidators :=
    match acc.currValidators.find? vote.voter with
    | some val => acc.currValidators.insert vote.voter { val with vote := vote.option }
    | none => acc.currValidators
  (delegationsOf s vote.voter).foldlM (tallyDelegation vote.option)
    { acc with currValidators := currValidators }

/-- The loop over the validators: one whose operator voted adds the power of the shares not
deducted. -/
def tallyValidator (acc : (VoteOption → Dec) × Dec) (val : ValidatorGovInfo) :
    Except SdkError ((VoteOption → Dec) × Dec) :=
  if val.vote = .empty then pure acc
  else do
    let sharesAfterDeductions ← checkDec (val.delegatorShares - val.delegatorDeductions)
    let product ← checkDec (sharesAfterDeductions.mulInt val.bondedTokens)
    let votingPower ← product.quoChecked val.delegatorShares
    let results ← addResult acc.1 val.vote votingPower
    let totalVotingPower ← checkDec (acc.2 + votingPower)
    pure (results, totalVotingPower)

/-- The loops of `tally`: the votes left, the results and the total voting power. Go ranges
over the validators' map in a random order; the sums do not depend on it, and the model takes
the order of the operator addresses. -/
def tallyVotingPower (s : Store) (votes : SortedMap VoteKey Vote) (proposalID : Nat) :
    Except SdkError (SortedMap VoteKey Vote × (VoteOption → Dec) × Dec) := do
  let currValidators ← bondedValidators s
  let read := iterateVotes votes proposalID
  let acc ← read.foldlM (tallyVote s) ⟨currValidators, fun _ => 0, 0⟩
  let (results, totalVotingPower) ← acc.currValidators.entries.foldlM
    (fun r e => tallyValidator r e.2) (acc.results, acc.totalVotingPower)
  pure (deleteVotes votes read, results, totalVotingPower)

/-- The decision of `tally`: whether the proposal passes and whether its deposits are burned.
`totalBondedTokens` is `TotalBondedTokens`, the bonded pool's balance of the bond denomination. -/
def tallyOutcome (tallyParams : TallyParams) (totalBondedTokens : Int)
    (results : VoteOption → Dec) (totalVotingPower : Dec) : Except SdkError (Bool × Bool) :=
  if totalBondedTokens = 0 then pure (false, false)
  else do
    let percentVoting ← totalVotingPower.quoChecked (Dec.ofInt totalBondedTokens)
    if percentVoting < tallyParams.quorum then pure (false, true)
    else do
      -- Go subtracts the abstentions again for the threshold: the same difference, which
      -- passes the same check
      let nonAbstaining ← checkDec (totalVotingPower - results .abstain)
      if nonAbstaining = 0 then pure (false, false)
      else do
        let vetoFraction ← (results .noWithVeto).quoChecked totalVotingPower
        if tallyParams.veto < vetoFraction then pure (false, true)
        else do
          let yesFraction ← (results .yes).quoChecked nonAbstaining
          pure (decide (tallyParams.threshold < yesFraction), false)

/-- `tally`: the votes left, whether the proposal passes, whether its deposits are burned, and
the results, which Go truncates before it decides. -/
def tally (s : Store) (votes : SortedMap VoteKey Vote) (proposalID : Nat)
    (tallyParams : TallyParams) (totalBondedTokens : Int) :
    Except SdkError (SortedMap VoteKey Vote × Bool × Bool × TallyResult) := do
  let (votes, results, totalVotingPower) ← tallyVotingPower s votes proposalID
  let tallyResults ← newTallyResultFromMap results
  let (passes, burnDeposits) ←
    tallyOutcome tallyParams totalBondedTokens results totalVotingPower
  pure (votes, passes, burnDeposits, tallyResults)

/-! ## The results -/

/-- What the results of a tally keep: nothing under `OptionEmpty`, no negative entry, and the
four options adding up to the total. -/
structure Tallied (results : VoteOption → Dec) (total : Dec) : Prop where
  empty : results .empty = 0
  nonneg : ∀ option, 0 ≤ (results option).int
  sum : results .yes + results .abstain + results .no + results .noWithVeto = total

theorem tallied_zero : Tallied (fun _ => 0) 0 where
  empty := rfl
  nonneg _ := le_refl _
  sum := by simp

/-- Adding a power that is not negative to one of the four options keeps the results tallied. -/
theorem Tallied.update {results : VoteOption → Dec} {total : Dec} (h : Tallied results total)
    {option : VoteOption} (valid : option ≠ .empty) {votingPower : Dec}
    (nonneg : 0 ≤ votingPower.int) :
    Tallied (Function.update results option (results option + votingPower))
      (total + votingPower) where
  empty := by
    rw [Function.update_of_ne (Ne.symm valid)]
    exact h.empty
  nonneg other := by
    by_cases same : other = option
    · subst same
      rw [Function.update_self, Dec.add_int]
      linarith [h.nonneg other]
    · rw [Function.update_of_ne same]
      exact h.nonneg other
  sum := by
    rw [← h.sum]
    cases option with
    | empty => exact absurd rfl valid
    | yes | abstain | no | noWithVeto =>
      simp only [Function.update_apply, reduceCtorEq, if_true, if_false]
      abel

/-- Each result is at most the total, which is not negative. -/
theorem Tallied.le_total {results : VoteOption → Dec} {total : Dec} (h : Tallied results total)
    (option : VoteOption) : 0 ≤ total.int ∧ (results option).int ≤ total.int := by
  have sum := congrArg Dec.int h.sum
  simp only [Dec.add_int] at sum
  have yes := h.nonneg .yes
  have abstain := h.nonneg .abstain
  have no := h.nonneg .no
  have veto := h.nonneg .noWithVeto
  cases option with
  | empty =>
    rw [h.empty, Dec.zero_int]
    omega
  | yes | abstain | no | noWithVeto => omega

/-- Adding a power that is not negative to one of the four options and to the total does not
panic while the new total fits a `Dec`: no result is above the total. -/
theorem Tallied.add_ok {results : VoteOption → Dec} {total : Dec} (h : Tallied results total)
    {option : VoteOption} (valid : option ≠ .empty) {votingPower : Dec}
    (nonneg : 0 ≤ votingPower.int) (fits : total.int + votingPower.int < 2 ^ maxDecBitLen) :
    addResult results option votingPower =
        .ok (Function.update results option (results option + votingPower)) ∧
      checkDec (total + votingPower) = .ok (total + votingPower) := by
  obtain ⟨totalNonneg, within⟩ := h.le_total option
  have entry := h.nonneg option
  refine ⟨?_, checkDec_of_nonneg (by rw [Dec.add_int]; omega) (by rw [Dec.add_int]; exact fits)⟩
  unfold addResult
  rw [if_neg valid, checkDec_of_nonneg (by rw [Dec.add_int]; omega)
    (by rw [Dec.add_int]; linarith)]
  rfl

/-- The product of at most a validator's shares with its tokens fits a `Dec` when that of all its
shares does. -/
theorem checkDec_mulInt_of_le {x shares : Dec} {tokens : Int} (nonneg : 0 ≤ x.int)
    (le : x.int ≤ shares.int) (tokensNonneg : 0 ≤ tokens)
    (product : shares.int * tokens < 2 ^ maxDecBitLen) :
    checkDec (x.mulInt tokens) = .ok (x.mulInt tokens) :=
  checkDec_of_nonneg (Int.mul_nonneg nonneg tokensNonneg)
    (lt_of_le_of_lt (Int.mul_le_mul_of_nonneg_right le tokensNonneg) product)

/-! ## The bonded validators -/

/-- The iteration of the power index does not panic when every entry names a stored validator,
and gives stored bonded validators. -/
theorem iterateBondedValidatorsByPower_ok {s : Store} :
    ∀ {addresses : List ValAddress}, (∀ a ∈ addresses, (s.getValidator a).isSome) →
      ∀ count, ∃ validators, iterateBondedValidatorsByPower s count addresses = .ok validators ∧
        ∀ v ∈ validators, v.isBonded ∧ ∃ a, s.getValidator a = some v
  | [], _, _ => ⟨[], rfl, by simp⟩
  | address :: rest, stored, count => by
    have storedRest : ∀ a ∈ rest, (s.getValidator a).isSome :=
      fun a member => stored a (List.mem_cons_of_mem address member)
    obtain ⟨validator, found⟩ := Option.isSome_iff_exists.mp (stored address List.mem_cons_self)
    simp only [iterateBondedValidatorsByPower]
    by_cases full : s.params.maxValidators ≤ count
    · exact ⟨[], by rw [if_pos full]; rfl, by simp⟩
    · simp only [if_neg full, found]
      by_cases bonded : validator.isBonded
      · obtain ⟨validators, iterated, each⟩ :=
          iterateBondedValidatorsByPower_ok storedRest (count + 1)
        refine ⟨validator :: validators, ?_, ?_⟩
        · rw [if_pos bonded, iterated]
          rfl
        · intro v member
          rcases List.mem_cons.mp member with rfl | later
          · exact ⟨bonded, address, found⟩
          · exact each v later
      · rw [if_neg bonded]
        exact iterateBondedValidatorsByPower_ok storedRest count

/-- An entry of a map built by inserting the gov info of validators comes from the map or from
one of them. -/
theorem find?_foldl_insert_govInfo {a : ValAddress} {info : ValidatorGovInfo} :
    ∀ (validators : List Validator) (m : SortedMap ValAddress ValidatorGovInfo),
      (validators.foldl (fun m v => m.insert v.operatorAddress (govInfo v)) m).find? a =
          some info →
        m.find? a = some info ∨ ∃ v ∈ validators, v.operatorAddress = a ∧ info = govInfo v
  | [], _, found => .inl found
  | v :: rest, m, found => by
    rcases find?_foldl_insert_govInfo rest _ found with inserted | later
    · rw [SortedMap.find?_insert] at inserted
      split at inserted
      · next same =>
        exact .inr ⟨v, List.mem_cons_self, same, (Option.some.inj inserted).symm⟩
      · exact .inl inserted
    · obtain ⟨v', member, address, rfl⟩ := later
      exact .inr ⟨v', List.mem_cons_of_mem v member, address, rfl⟩

/-- The validators' map a tally starts from: every validator has shares and no negative tokens,
and neither deductions nor a vote yet. -/
structure Fresh (curr₀ : SortedMap ValAddress ValidatorGovInfo) : Prop where
  shares : ∀ a info, curr₀.find? a = some info → 0 < info.delegatorShares.int
  tokens : ∀ a info, curr₀.find? a = some info → 0 ≤ info.bondedTokens
  blank : ∀ a info, curr₀.find? a = some info →
    info.delegatorDeductions = 0 ∧ info.vote = .empty

/-- The widths of the validators' map: every validator's shares, and their product with its
bonded tokens, fit a `Dec`. -/
structure Wide (curr₀ : SortedMap ValAddress ValidatorGovInfo) : Prop where
  shares : ∀ a info, curr₀.find? a = some info → info.delegatorShares.int < 2 ^ maxDecBitLen
  product : ∀ a info, curr₀.find? a = some info →
    info.delegatorShares.int * info.bondedTokens < 2 ^ maxDecBitLen

/-- What the tally needs of the staking store: the power index names stored validators, and
every bonded validator has shares and no negative tokens. -/
structure TallyReady (s : Store) : Prop where
  indexed : ∀ key a, s.validatorsByPower.find? key = some a → (s.getValidator a).isSome
  shares : ∀ a v, s.getValidator a = some v → v.isBonded → 0 < v.delegatorShares.int
  tokens : ∀ a v, s.getValidator a = some v → v.isBonded → 0 ≤ v.tokens

/-- The first loop does not panic, and gives a fresh map of stored bonded validators under
their operator addresses. -/
theorem bondedValidators_ok {s : Store} (ready : TallyReady s) :
    ∃ curr₀, bondedValidators s = .ok curr₀ ∧ Fresh curr₀ ∧
      ∀ a info, curr₀.find? a = some info →
        ∃ v, (∃ address, s.getValidator address = some v) ∧ v.isBonded ∧
          v.operatorAddress = a ∧ info = govInfo v := by
  have stored : ∀ a ∈ (s.validatorsByPower.entries.map Prod.snd).reverse,
      (s.getValidator a).isSome := by
    intro a member
    obtain ⟨e, entry, rfl⟩ := List.mem_map.mp (List.mem_reverse.mp member)
    exact ready.indexed e.1 e.2 (SortedMap.find?_of_mem entry)
  obtain ⟨validators, iterated, each⟩ := iterateBondedValidatorsByPower_ok stored 0
  have origin : ∀ a info,
      (validators.foldl (fun (m : SortedMap ValAddress ValidatorGovInfo) v =>
          m.insert v.operatorAddress (govInfo v)) .empty).find? a = some info →
      ∃ v, (∃ address, s.getValidator address = some v) ∧ v.isBonded ∧
        v.operatorAddress = a ∧ info = govInfo v := by
    intro a info found
    rcases find?_foldl_insert_govInfo validators _ found with absent | ⟨v, member, address, rfl⟩
    · simp at absent
    · obtain ⟨bonded, at_, found_v⟩ := each v member
      exact ⟨v, ⟨at_, found_v⟩, bonded, address, rfl⟩
  refine ⟨_, Fallible.bind_eq_ok.mpr ⟨validators, iterated, rfl⟩, ?_, origin⟩
  constructor
  · intro a info found
    obtain ⟨v, ⟨address, found_v⟩, bonded, -, rfl⟩ := origin a info found
    exact ready.shares address v found_v bonded
  · intro a info found
    obtain ⟨v, ⟨address, found_v⟩, bonded, -, rfl⟩ := origin a info found
    simp only [govInfo, Validator.bondedTokens, bonded, if_true]
    exact ready.tokens address v found_v bonded
  · intro a info found
    obtain ⟨v, -, -, -, rfl⟩ := origin a info found
    exact ⟨rfl, rfl⟩

/-! ## The validators' map while the votes are read

Only the deductions and the vote of a validator change in the loop over the votes, so the map at
every step is the initial one with a deduction and a vote for each validator (`tracked`). -/

section Tracked

variable {curr₀ : SortedMap ValAddress ValidatorGovInfo}

/-- The validators' map once `deduct a` of each validator's shares are deducted and `voted a`
is its vote. -/
def tracked (curr₀ : SortedMap ValAddress ValidatorGovInfo) (deduct : ValAddress → Dec)
    (voted : ValAddress → VoteOption) : SortedMap ValAddress ValidatorGovInfo :=
  curr₀.mapVal fun a info => { info with delegatorDeductions := deduct a, vote := voted a }

theorem find?_tracked (curr₀ : SortedMap ValAddress ValidatorGovInfo) (deduct : ValAddress → Dec)
    (voted : ValAddress → VoteOption) (a : ValAddress) :
    (tracked curr₀ deduct voted).find? a = (curr₀.find? a).map
      fun info => { info with delegatorDeductions := deduct a, vote := voted a } :=
  SortedMap.find?_mapVal _ _ a

theorem tracked_blank (fresh : Fresh curr₀) :
    tracked curr₀ (fun _ => 0) (fun _ => .empty) = curr₀ := by
  refine SortedMap.ext fun a => ?_
  rw [find?_tracked]
  cases found : curr₀.find? a with
  | none => rfl
  | some info =>
    obtain ⟨deductions, vote⟩ := fresh.blank a info found
    cases info
    simp only at deductions vote
    simp [deductions, vote]

/-- Deductions and votes matter only at the validators of the map. -/
theorem tracked_congr {deduct deduct' : ValAddress → Dec} {voted voted' : ValAddress → VoteOption}
    (sameDeduct : ∀ a, (curr₀.find? a).isSome → deduct a = deduct' a)
    (sameVote : ∀ a, (curr₀.find? a).isSome → voted a = voted' a) :
    tracked curr₀ deduct voted = tracked curr₀ deduct' voted' := by
  refine SortedMap.ext fun a => ?_
  rw [find?_tracked, find?_tracked]
  cases found : curr₀.find? a with
  | none => rfl
  | some info =>
    have present : (curr₀.find? a).isSome := by rw [found]; rfl
    rw [Option.map_some, Option.map_some, sameDeduct a present, sameVote a present]

/-- Writing a validator's deduction and vote is one more step of `tracked`. -/
theorem insert_tracked (deduct : ValAddress → Dec) (voted : ValAddress → VoteOption)
    {a : ValAddress} {info : ValidatorGovInfo} (found : curr₀.find? a = some info) (d : Dec)
    (o : VoteOption) :
    (tracked curr₀ deduct voted).insert a { info with delegatorDeductions := d, vote := o } =
      tracked curr₀ (Function.update deduct a d) (Function.update voted a o) := by
  refine SortedMap.ext fun a' => ?_
  rw [SortedMap.find?_insert, find?_tracked, find?_tracked]
  by_cases same : a = a'
  · subst same
    rw [if_pos rfl, found, Option.map_some, Function.update_self, Function.update_self]
  · rw [if_neg same, Function.update_of_ne (Ne.symm same), Function.update_of_ne (Ne.symm same)]

/-- The voting power of a delegation to a tallied validator, `shares * BondedTokens /
DelegatorShares` rounded by `Quo`; none for a delegation to another validator. -/
def powerOf (curr₀ : SortedMap ValAddress ValidatorGovInfo) (delegation : Delegation) : Dec :=
  match curr₀.find? delegation.validatorAddress with
  | none => 0
  | some info => (delegation.shares.mulInt info.bondedTokens).quo info.delegatorShares

theorem powerOf_nonneg (fresh : Fresh curr₀) {delegation : Delegation}
    (nonneg : 0 ≤ delegation.shares.int) : 0 ≤ (powerOf curr₀ delegation).int := by
  unfold powerOf
  cases found : curr₀.find? delegation.validatorAddress with
  | none => exact le_rfl
  | some info =>
    exact Dec.quo_int_nonneg (Int.mul_nonneg nonneg (fresh.tokens _ info found))
      (fresh.shares _ info found)

/-- Shares that are not negative add up, under every validator, to shares that are not
negative. -/
theorem eval_shares_nonneg {delegations : List Delegation}
    (nonneg : ∀ d ∈ delegations, 0 ≤ d.shares.int) (a : ValAddress) :
    0 ≤ (KeyedSum.eval Delegation.validatorAddress Delegation.shares delegations a).int :=
  Dec.int_sum_nonneg fun d member => by
    split
    · exact nonneg d member
    · exact le_rfl

/-- One delegation of a voter: its shares are deducted from the validator it is to, if tallied,
and its power is added, not negative. Nothing Go checks overflows while the deductions stay
within the validator's shares and the total within a `Dec`. -/
theorem tallyDelegation_tracked (fresh : Fresh curr₀) (wide : Wide curr₀) {option : VoteOption}
    (valid : option ≠ .empty) {acc : TallyAcc} {deduct : ValAddress → Dec}
    {voted : ValAddress → VoteOption} (tracks : acc.currValidators = tracked curr₀ deduct voted)
    (tallied : Tallied acc.results acc.totalVotingPower) (delegation : Delegation)
    (nonneg : 0 ≤ delegation.shares.int) (deducted : 0 ≤ (deduct delegation.validatorAddress).int)
    (room : ∀ info, curr₀.find? delegation.validatorAddress = some info →
      (deduct delegation.validatorAddress).int + delegation.shares.int ≤ info.delegatorShares.int)
    (budget : acc.totalVotingPower.int + (powerOf curr₀ delegation).int < 2 ^ maxDecBitLen) :
    ∃ acc', tallyDelegation option acc delegation = .ok acc' ∧
      acc'.currValidators = tracked curr₀ (fun a => deduct a +
        if delegation.validatorAddress = a then delegation.shares else 0) voted ∧
      acc'.totalVotingPower = acc.totalVotingPower + powerOf curr₀ delegation ∧
      Tallied acc'.results acc'.totalVotingPower := by
  have lookup := find?_tracked curr₀ deduct voted delegation.validatorAddress
  rw [← tracks] at lookup
  unfold tallyDelegation
  cases found : curr₀.find? delegation.validatorAddress with
  | none =>
    -- a delegation to a validator that is not tallied changes nothing
    have none : powerOf curr₀ delegation = 0 := by
      unfold powerOf
      rw [found]
    rw [found, Option.map_none] at lookup
    rw [lookup, none, add_zero]
    refine ⟨acc, rfl, tracks.trans (tracked_congr (fun a present => ?_) fun _ _ => rfl), rfl,
      tallied⟩
    have other : delegation.validatorAddress ≠ a := by
      rintro rfl
      rw [found] at present
      exact absurd present (by decide)
    rw [if_neg other, add_zero]
  | some info =>
    have power : powerOf curr₀ delegation =
        (delegation.shares.mulInt info.bondedTokens).quo info.delegatorShares := by
      unfold powerOf
      rw [found]
    rw [found, Option.map_some] at lookup
    rw [lookup, power]
    rw [power] at budget
    have positive := fresh.shares _ info found
    have tokens := fresh.tokens _ info found
    have within := room info found
    have totalNonneg := (tallied.le_total .yes).1
    have powerNonneg : 0 ≤ ((delegation.shares.mulInt info.bondedTokens).quo
        info.delegatorShares).int :=
      Dec.quo_int_nonneg (Int.mul_nonneg nonneg tokens) positive
    -- what Go checks fits: the deductions are within the validator's shares, and so are the
    -- delegation's; the power is within what the loops add
    have deductions : checkDec (deduct delegation.validatorAddress + delegation.shares) =
        .ok (deduct delegation.validatorAddress + delegation.shares) :=
      checkDec_of_nonneg (by rw [Dec.add_int]; omega)
        (by rw [Dec.add_int]; linarith [wide.shares _ info found])
    have product := checkDec_mulInt_of_le nonneg (by omega) tokens (wide.product _ info found)
    have productNonneg : 0 ≤ (delegation.shares.mulInt info.bondedTokens).int :=
      Int.mul_nonneg nonneg tokens
    have quotient := Dec.quoChecked_of_nonneg productNonneg positive (by linarith)
    obtain ⟨added, summed⟩ := tallied.add_ok valid powerNonneg budget
    refine ⟨_, Fallible.bind_eq_ok.mpr ⟨_, deductions, Fallible.bind_eq_ok.mpr ⟨_, product,
      Fallible.bind_eq_ok.mpr ⟨_, quotient, Fallible.bind_eq_ok.mpr ⟨_, added,
        Fallible.bind_eq_ok.mpr ⟨_, summed, rfl⟩⟩⟩⟩⟩, ?_, rfl,
      tallied.update valid powerNonneg⟩
    have written := insert_tracked deduct voted found
      (deduct delegation.validatorAddress + delegation.shares) (voted delegation.validatorAddress)
    rw [← tracks, Function.update_eq_self] at written
    refine written.trans (tracked_congr (fun a _ => ?_) fun _ _ => rfl)
    by_cases same : delegation.validatorAddress = a
    · subst same
      rw [Function.update_self, if_pos rfl]
    · rw [Function.update_of_ne (Ne.symm same), if_neg same, add_zero]

/-- The loop over a voter's delegations deducts the shares of each from its validator and adds
up their powers. What the loop has still to deduct and to add bounds each step's results: the
deductions of a validator stay within its shares, and the total within a `Dec`. -/
theorem tallyDelegations_tracked (fresh : Fresh curr₀) (wide : Wide curr₀) {option : VoteOption}
    (valid : option ≠ .empty) {voted : ValAddress → VoteOption} :
    ∀ (delegations : List Delegation), (∀ d ∈ delegations, 0 ≤ d.shares.int) →
      ∀ (acc : TallyAcc) (deduct : ValAddress → Dec),
        acc.currValidators = tracked curr₀ deduct voted →
        Tallied acc.results acc.totalVotingPower →
        (∀ a, 0 ≤ (deduct a).int) →
        (∀ a info, curr₀.find? a = some info → (deduct a).int +
          (KeyedSum.eval Delegation.validatorAddress Delegation.shares delegations a).int ≤
            info.delegatorShares.int) →
        acc.totalVotingPower.int + (delegations.map (powerOf curr₀)).sum.int <
          2 ^ maxDecBitLen →
        ∃ acc', delegations.foldlM (tallyDelegation option) acc = .ok acc' ∧
          acc'.currValidators = tracked curr₀ (fun a => deduct a +
            KeyedSum.eval Delegation.validatorAddress Delegation.shares delegations a) voted ∧
          acc'.totalVotingPower =
            acc.totalVotingPower + (delegations.map (powerOf curr₀)).sum ∧
          Tallied acc'.results acc'.totalVotingPower
  | [], _, acc, deduct, tracks, tallied, _, _, _ =>
    ⟨acc, rfl, by simpa using tracks, by simp, tallied⟩
  | d :: rest, nonneg, acc, deduct, tracks, tallied, deducted, room, budget => by
    have nonnegFirst := nonneg d List.mem_cons_self
    have nonnegRest : ∀ d' ∈ rest, 0 ≤ d'.shares.int :=
      fun d' member => nonneg d' (List.mem_cons_of_mem d member)
    have later := eval_shares_nonneg nonnegRest
    have laterPower : 0 ≤ (rest.map (powerOf curr₀)).sum.int :=
      Dec.int_sum_nonneg fun d' member => powerOf_nonneg fresh (nonnegRest d' member)
    simp only [KeyedSum.eval_cons, List.map_cons, List.sum_cons, Dec.add_int] at room budget
    -- the first delegation leaves room for the rest, which add no negative shares or power
    have roomFirst : ∀ info, curr₀.find? d.validatorAddress = some info →
        (deduct d.validatorAddress).int + d.shares.int ≤ info.delegatorShares.int := by
      intro info found
      have whole := room _ info found
      rw [if_pos rfl] at whole
      linarith [later d.validatorAddress]
    obtain ⟨acc₁, step, tracks₁, total₁, tallied₁⟩ := tallyDelegation_tracked fresh wide valid
      tracks tallied d nonnegFirst (deducted _) roomFirst (by linarith)
    have deducted₁ : ∀ a, 0 ≤ (deduct a + if d.validatorAddress = a then d.shares else 0).int := by
      intro a
      rw [Dec.add_int]
      split
      · linarith [deducted a]
      · rw [Dec.zero_int]
        linarith [deducted a]
    obtain ⟨acc', run, tracks', total', tallied'⟩ := tallyDelegations_tracked fresh wide valid
      rest nonnegRest acc₁ _ tracks₁ tallied₁ deducted₁
      (fun a info found => by rw [Dec.add_int]; linarith [room a info found])
      (by rw [total₁, Dec.add_int]; linarith)
    refine ⟨acc', by rw [List.foldlM_cons, step]; exact run, ?_, ?_, tallied'⟩
    · rw [tracks']
      congr 1
      funext a
      rw [KeyedSum.eval_cons, add_assoc]
    · rw [total', total₁, List.map_cons, List.sum_cons, add_assoc]

theorem mem_delegationsOf {s : Store} {delAddr : AccAddress} {d : Delegation}
    (member : d ∈ delegationsOf s delAddr) : ∃ k, s.delegations.find? k = some d := by
  obtain ⟨e, filtered, rfl⟩ := List.mem_map.mp member
  exact ⟨e.1, SortedMap.find?_of_mem (List.mem_filter.mp filtered).1⟩

/-- One vote: a voter who operates a tallied validator records the vote there, and the voter's
delegations are tallied. -/
theorem tallyVote_tracked (s : Store) (fresh : Fresh curr₀) (wide : Wide curr₀) {vote : Vote}
    (valid : vote.option ≠ .empty) (nonneg : ∀ d ∈ delegationsOf s vote.voter, 0 ≤ d.shares.int)
    {acc : TallyAcc} {deduct : ValAddress → Dec} {voted : ValAddress → VoteOption}
    (tracks : acc.currValidators = tracked curr₀ deduct voted)
    (tallied : Tallied acc.results acc.totalVotingPower) (deducted : ∀ a, 0 ≤ (deduct a).int)
    (room : ∀ a info, curr₀.find? a = some info → (deduct a).int + (KeyedSum.eval
      Delegation.validatorAddress Delegation.shares (delegationsOf s vote.voter) a).int ≤
        info.delegatorShares.int)
    (budget : acc.totalVotingPower.int +
      ((delegationsOf s vote.voter).map (powerOf curr₀)).sum.int < 2 ^ maxDecBitLen) :
    ∃ acc', tallyVote s acc vote = .ok acc' ∧
      acc'.currValidators = tracked curr₀ (fun a => deduct a +
          KeyedSum.eval Delegation.validatorAddress Delegation.shares (delegationsOf s vote.voter) a)
        (Function.update voted vote.voter vote.option) ∧
      acc'.totalVotingPower =
        acc.totalVotingPower + ((delegationsOf s vote.voter).map (powerOf curr₀)).sum ∧
      Tallied acc'.results acc'.totalVotingPower := by
  have lookup := find?_tracked curr₀ deduct voted vote.voter
  rw [← tracks] at lookup
  have recorded : (match acc.currValidators.find? vote.voter with
      | some val => acc.currValidators.insert vote.voter { val with vote := vote.option }
      | none => acc.currValidators) =
      tracked curr₀ deduct (Function.update voted vote.voter vote.option) := by
    cases found : curr₀.find? vote.voter with
    | none =>
      -- a voter who operates no tallied validator records nothing
      rw [found, Option.map_none] at lookup
      rw [lookup, tracks]
      refine tracked_congr (fun _ _ => rfl) fun a present => ?_
      have other : a ≠ vote.voter := by
        rintro rfl
        rw [found] at present
        exact absurd present (by decide)
      rw [Function.update_of_ne other]
    | some info =>
      rw [found, Option.map_some] at lookup
      rw [lookup, tracks]
      have written := insert_tracked deduct voted found (deduct vote.voter) vote.option
      rw [Function.update_eq_self] at written
      exact written
  exact tallyDelegations_tracked fresh wide valid _ nonneg { acc with currValidators := _ } deduct
    recorded tallied deducted room budget

/-- The loop over the votes: the deductions of each validator are the shares that the voters
delegated to it, a validator has a vote once its operator voted, and the total adds up the powers
of the voters' delegations. As for one voter, what the votes still to read deduct and add bounds
the results of each step. -/
theorem tallyVotes_tracked (s : Store) (fresh : Fresh curr₀) (wide : Wide curr₀)
    (nonneg : ∀ k d, s.delegations.find? k = some d → 0 ≤ d.shares.int) :
    ∀ (read : List Vote), (∀ vote ∈ read, vote.option ≠ .empty) →
      ∀ (acc : TallyAcc) (deduct : ValAddress → Dec) (voted : ValAddress → VoteOption),
        acc.currValidators = tracked curr₀ deduct voted →
        Tallied acc.results acc.totalVotingPower →
        (∀ a, 0 ≤ (deduct a).int) →
        (∀ a info, curr₀.find? a = some info → (deduct a).int + ((read.map fun vote =>
          KeyedSum.eval Delegation.validatorAddress Delegation.shares
            (delegationsOf s vote.voter) a).sum).int ≤ info.delegatorShares.int) →
        acc.totalVotingPower.int + ((read.map fun vote =>
          ((delegationsOf s vote.voter).map (powerOf curr₀)).sum).sum).int < 2 ^ maxDecBitLen →
        ∃ acc' voted', read.foldlM (tallyVote s) acc = .ok acc' ∧
          acc'.currValidators = tracked curr₀ (fun a => deduct a + (read.map fun vote =>
            KeyedSum.eval Delegation.validatorAddress Delegation.shares
              (delegationsOf s vote.voter) a).sum) voted' ∧
          (∀ a, voted' a = .empty ↔ voted a = .empty ∧ a ∉ read.map Vote.voter) ∧
          acc'.totalVotingPower = acc.totalVotingPower + (read.map fun vote =>
            ((delegationsOf s vote.voter).map (powerOf curr₀)).sum).sum ∧
          Tallied acc'.results acc'.totalVotingPower
  | [], _, acc, deduct, voted, tracks, tallied, _, _, _ =>
    ⟨acc, voted, rfl, by simpa using tracks, by simp, by simp, tallied⟩
  | vote :: rest, valid, acc, deduct, voted, tracks, tallied, deducted, room, budget => by
    have validVote := valid vote List.mem_cons_self
    have held : ∀ voter, ∀ d ∈ delegationsOf s voter, 0 ≤ d.shares.int :=
      fun _ d member => (mem_delegationsOf member).elim fun k found => nonneg k d found
    have laterHeld : ∀ a, 0 ≤ ((rest.map fun vote => KeyedSum.eval Delegation.validatorAddress
        Delegation.shares (delegationsOf s vote.voter) a).sum).int :=
      fun a => Dec.int_sum_nonneg fun v _ => eval_shares_nonneg (held v.voter) a
    have laterPower : 0 ≤ ((rest.map fun vote =>
        ((delegationsOf s vote.voter).map (powerOf curr₀)).sum).sum).int :=
      Dec.int_sum_nonneg fun v _ =>
        Dec.int_sum_nonneg fun d member => powerOf_nonneg fresh (held v.voter d member)
    simp only [List.map_cons, List.sum_cons, Dec.add_int] at room budget
    obtain ⟨acc₁, step, tracks₁, total₁, tallied₁⟩ := tallyVote_tracked s fresh wide validVote
      (held vote.voter) tracks tallied deducted
      (fun a info found => by linarith [room a info found, laterHeld a]) (by linarith)
    obtain ⟨acc', voted', run, tracks', votedIff, total', tallied'⟩ := tallyVotes_tracked s
      fresh wide nonneg rest (fun v member => valid v (List.mem_cons_of_mem vote member)) acc₁ _ _
      tracks₁ tallied₁
      (fun a => by
        rw [Dec.add_int]
        linarith [deducted a, eval_shares_nonneg (held vote.voter) a])
      (fun a info found => by rw [Dec.add_int]; linarith [room a info found])
      (by rw [total₁, Dec.add_int]; linarith)
    refine ⟨acc', voted', by rw [List.foldlM_cons, step]; exact run, ?_, fun a => ?_, ?_,
      tallied'⟩
    · rw [tracks']
      congr 1
      funext a
      rw [List.map_cons, List.sum_cons, add_assoc]
    · -- the vote of `vote.voter` is not empty, so a validator still without one was never voted
      rw [votedIff a, List.map_cons, List.mem_cons]
      by_cases same : a = vote.voter
      · subst same
        rw [Function.update_self]
        simp [validVote]
      · rw [Function.update_of_ne same]
        simp [same]
    · rw [total', total₁, List.map_cons, List.sum_cons, add_assoc]

end Tracked

/-! ## The validators whose operator voted -/

/-- What a validator adds in the last loop: the power of the shares not deducted, if its
operator voted. -/
def residual (val : ValidatorGovInfo) : Dec :=
  if val.vote = .empty then 0
  else ((val.delegatorShares - val.delegatorDeductions).mulInt val.bondedTokens).quo
    val.delegatorShares

/-- What the last loop needs of a validator: shares, no negative tokens, deductions within its
shares, and the widths of its shares and of their product with its tokens. -/
structure ValidatorGovInfo.Ready (val : ValidatorGovInfo) : Prop where
  positive : 0 < val.delegatorShares.int
  tokens : 0 ≤ val.bondedTokens
  deducted : 0 ≤ val.delegatorDeductions.int
  within : val.delegatorDeductions.int ≤ val.delegatorShares.int
  shares : val.delegatorShares.int < 2 ^ maxDecBitLen
  product : val.delegatorShares.int * val.bondedTokens < 2 ^ maxDecBitLen

theorem ValidatorGovInfo.Ready.residual_nonneg {val : ValidatorGovInfo} (ready : val.Ready) :
    0 ≤ (residual val).int := by
  have rest : 0 ≤ (val.delegatorShares - val.delegatorDeductions).int := by
    rw [Dec.sub_int]
    linarith [ready.within]
  unfold residual
  split
  · exact le_rfl
  · exact Dec.quo_int_nonneg (Int.mul_nonneg rest ready.tokens) ready.positive

/-- A validator in the last loop: nothing Go checks overflows while the total with its power fits
a `Dec`. -/
theorem tallyValidator_ok {acc : (VoteOption → Dec) × Dec} (tallied : Tallied acc.1 acc.2)
    {val : ValidatorGovInfo} (ready : val.Ready)
    (budget : acc.2.int + (residual val).int < 2 ^ maxDecBitLen) :
    ∃ acc', tallyValidator acc val = .ok acc' ∧ acc'.2 = acc.2 + residual val ∧
      Tallied acc'.1 acc'.2 := by
  have nonneg := ready.residual_nonneg
  unfold tallyValidator
  by_cases voted : val.vote = .empty
  · rw [if_pos voted]
    refine ⟨acc, rfl, ?_, tallied⟩
    rw [residual, if_pos voted, add_zero]
  · rw [if_neg voted]
    have power : residual val = ((val.delegatorShares - val.delegatorDeductions).mulInt
        val.bondedTokens).quo val.delegatorShares := if_neg voted
    rw [power] at nonneg budget
    have within := ready.within
    have deducted := ready.deducted
    have totalNonneg := (tallied.le_total .yes).1
    have restNonneg : 0 ≤ (val.delegatorShares - val.delegatorDeductions).int := by
      rw [Dec.sub_int]
      omega
    have restLe : (val.delegatorShares - val.delegatorDeductions).int ≤
        val.delegatorShares.int := by
      rw [Dec.sub_int]
      omega
    have rest : checkDec (val.delegatorShares - val.delegatorDeductions) =
        .ok (val.delegatorShares - val.delegatorDeductions) :=
      checkDec_of_nonneg restNonneg (lt_of_le_of_lt restLe ready.shares)
    have product := checkDec_mulInt_of_le restNonneg restLe ready.tokens ready.product
    have productNonneg : 0 ≤ ((val.delegatorShares - val.delegatorDeductions).mulInt
        val.bondedTokens).int :=
      Int.mul_nonneg restNonneg ready.tokens
    have quotient := Dec.quoChecked_of_nonneg productNonneg ready.positive (by linarith)
    obtain ⟨added, summed⟩ := tallied.add_ok voted nonneg budget
    exact ⟨_, Fallible.bind_eq_ok.mpr ⟨_, rest, Fallible.bind_eq_ok.mpr ⟨_, product,
      Fallible.bind_eq_ok.mpr ⟨_, quotient, Fallible.bind_eq_ok.mpr ⟨_, added,
        Fallible.bind_eq_ok.mpr ⟨_, summed, rfl⟩⟩⟩⟩⟩, by rw [power],
      tallied.update voted nonneg⟩

/-- The loop over the validators adds up what each adds, without panicking while the whole fits
a `Dec`. -/
theorem tallyValidators_ok :
    ∀ (entries : List (ValAddress × ValidatorGovInfo)), (∀ e ∈ entries, e.2.Ready) →
      ∀ (acc : (VoteOption → Dec) × Dec), Tallied acc.1 acc.2 →
        acc.2.int + (entries.map fun e => residual e.2).sum.int < 2 ^ maxDecBitLen →
        ∃ acc', entries.foldlM (fun r e => tallyValidator r e.2) acc = .ok acc' ∧
          acc'.2 = acc.2 + (entries.map fun e => residual e.2).sum ∧ Tallied acc'.1 acc'.2
  | [], _, acc, tallied, _ => ⟨acc, rfl, by simp, tallied⟩
  | e :: rest, each, acc, tallied, budget => by
    have later : 0 ≤ (rest.map fun e => residual e.2).sum.int :=
      Dec.int_sum_nonneg fun e' member =>
        (each e' (List.mem_cons_of_mem e member)).residual_nonneg
    simp only [List.map_cons, List.sum_cons, Dec.add_int] at budget
    obtain ⟨acc₁, step, total₁, tallied₁⟩ :=
      tallyValidator_ok tallied (each e List.mem_cons_self) (by linarith)
    obtain ⟨acc', run, total', tallied'⟩ := tallyValidators_ok rest
      (fun e' member => each e' (List.mem_cons_of_mem e member)) acc₁ tallied₁
      (by rw [total₁, Dec.add_int]; linarith)
    refine ⟨acc', by rw [List.foldlM_cons, step]; exact run, ?_, tallied'⟩
    rw [total', total₁, List.map_cons, List.sum_cons, add_assoc]

/-! ## The tally by validator

The loops read the voters' delegations voter by voter; grouped by the validator they are to,
they give each validator its shares counted and its voting power. -/

/-- The voters of a proposal. -/
def voters (votes : SortedMap VoteKey Vote) (proposalID : Nat) : List AccAddress :=
  (iterateVotes votes proposalID).map Vote.voter

/-- The delegations of the voters. -/
def votersDelegations (s : Store) (voters : List AccAddress) : List Delegation :=
  (s.delegations.entries.filter fun e => (ofLex e.1).1 ∈ voters).map Prod.snd

/-- The shares of validator `a` that voters hold: its deductions once the votes are read. -/
def deductions (s : Store) (voters : List AccAddress) (a : ValAddress) : Dec :=
  KeyedSum.eval Delegation.validatorAddress Delegation.shares (votersDelegations s voters) a

/-- The shares of validator `a` whose power the tally counts: those its voters hold and, if its
operator voted, the rest. -/
def countedShares (s : Store) (voters : List AccAddress) (a : ValAddress)
    (info : ValidatorGovInfo) : Dec :=
  deductions s voters a + if a ∈ voters then info.delegatorShares - deductions s voters a else 0

/-- The voting power the tally gives validator `a`: one rounding `Quo` for each delegation of a
voter to it, and one for the rest of its shares if its operator voted. -/
def validatorVotingPower (s : Store) (voters : List AccAddress) (a : ValAddress)
    (info : ValidatorGovInfo) : Dec :=
  (((votersDelegations s voters).filter fun d => d.validatorAddress = a).map fun d =>
      (d.shares.mulInt info.bondedTokens).quo info.delegatorShares).sum +
    if a ∈ voters then
      ((info.delegatorShares - deductions s voters a).mulInt info.bondedTokens).quo
        info.delegatorShares
    else 0

/-- The number of roundings in `validatorVotingPower`. -/
def roundings (s : Store) (voters : List AccAddress) (a : ValAddress) : Nat :=
  ((votersDelegations s voters).filter fun d => d.validatorAddress = a).length +
    if a ∈ voters then 1 else 0

/-- The power of the shares that no voter holds, at the validators whose operator voted. -/
def restPower (s : Store) (voters : List AccAddress)
    (curr₀ : SortedMap ValAddress ValidatorGovInfo) : Dec :=
  curr₀.sumBy fun a info => if a ∈ voters then
    ((info.delegatorShares - deductions s voters a).mulInt info.bondedTokens).quo
      info.delegatorShares
  else 0

/-- Reading the delegations of distinct voters one voter after another reads each delegation of
a voter once. -/
theorem sum_delegationsOf {M : Type*} [AddCommMonoid M] (s : Store) {voters : List AccAddress}
    (nodup : voters.Nodup) (f : Delegation → M) :
    (voters.map fun voter => ((delegationsOf s voter).map f).sum).sum =
      ((votersDelegations s voters).map f).sum := by
  have each : ∀ voter, ((delegationsOf s voter).map f).sum =
      KeyedSum.eval (fun e : DVKey × Delegation => (ofLex e.1).1) (fun e => f e.2)
        s.delegations.entries voter := by
    intro voter
    rw [KeyedSum.eval_eq_sum_filter, delegationsOf, List.map_map]
    rfl
  simp only [each]
  rw [KeyedSum.sum_eval_of_nodup _ _ nodup, votersDelegations, List.map_map]
  -- the two filters decide membership in the voters through different instances
  congr!

theorem powerOf_of_not_mem {curr₀ : SortedMap ValAddress ValidatorGovInfo} {d : Delegation}
    (absent : d.validatorAddress ∉ curr₀.entries.map Prod.fst) : powerOf curr₀ d = 0 := by
  unfold powerOf
  cases found : curr₀.find? d.validatorAddress with
  | none => rfl
  | some info => exact absurd (List.mem_map.mpr ⟨_, SortedMap.mem_of_find? found, rfl⟩) absent

/-- The powers of delegations, grouped by the tallied validator they are to. -/
theorem sum_powerOf (curr₀ : SortedMap ValAddress ValidatorGovInfo)
    (delegations : List Delegation) :
    (delegations.map (powerOf curr₀)).sum = curr₀.sumBy fun a info =>
      ((delegations.filter fun d => d.validatorAddress = a).map fun d =>
        (d.shares.mulInt info.bondedTokens).quo info.delegatorShares).sum := by
  have perValidator : ∀ a info, curr₀.find? a = some info →
      ((delegations.filter fun d => d.validatorAddress = a).map fun d =>
        (d.shares.mulInt info.bondedTokens).quo info.delegatorShares).sum =
      KeyedSum.eval Delegation.validatorAddress (powerOf curr₀) delegations a := by
    intro a info found
    rw [KeyedSum.eval_eq_sum_filter]
    congr 1
    refine List.map_congr_left fun d member => ?_
    have toA : d.validatorAddress = a := of_decide_eq_true (List.mem_filter.mp member).2
    unfold powerOf
    rw [toA, found]
  have byKey : curr₀.sumBy (fun a _ =>
      KeyedSum.eval Delegation.validatorAddress (powerOf curr₀) delegations a) =
      ((curr₀.entries.map Prod.fst).map
        (KeyedSum.eval Delegation.validatorAddress (powerOf curr₀) delegations)).sum := by
    rw [SortedMap.sumBy, SortedMap.sumEntries, List.map_map]
    rfl
  -- the delegations to validators that are not tallied have no power
  have untallied : ((delegations.filter fun d => ¬d.validatorAddress ∈
      curr₀.entries.map Prod.fst).map (powerOf curr₀)).sum = 0 := by
    refine List.sum_eq_zero fun x member => ?_
    obtain ⟨d, filtered, rfl⟩ := List.mem_map.mp member
    exact powerOf_of_not_mem (of_decide_eq_true (List.mem_filter.mp filtered).2)
  rw [SortedMap.sumBy_congr curr₀ perValidator, byKey,
    KeyedSum.sum_eval_of_nodup _ _ curr₀.nodup_keys,
    ← List.sum_map_filter_add_sum_map_filter_not (fun d => d.validatorAddress ∈
      curr₀.entries.map Prod.fst), untallied, add_zero]
  congr!

/-- The voting power of the validators: the powers of the voters' delegations, and the rest of
the shares of those whose operator voted. -/
theorem sumBy_validatorVotingPower (s : Store) (voters : List AccAddress)
    (curr₀ : SortedMap ValAddress ValidatorGovInfo) :
    curr₀.sumBy (validatorVotingPower s voters) =
      ((votersDelegations s voters).map (powerOf curr₀)).sum + restPower s voters curr₀ := by
  rw [sum_powerOf, restPower, ← SortedMap.sumBy_add]
  rfl

/-! ## What the tally reads -/

/-- The delegator-share invariant of the staking store: no delegation holds negative shares,
and the shares of every validator are those of the delegations to it. -/
structure SharesBacked (s : Store) : Prop where
  nonneg : ∀ k d, s.delegations.find? k = some d → 0 ≤ d.shares.int
  backed : ∀ a v, s.getValidator a = some v → v.delegatorShares =
    KeyedSum.eval Delegation.validatorAddress Delegation.shares
      (s.delegations.entries.map Prod.snd) v.operatorAddress

/-- The votes as `SetVote` stores them: under their own key, with one of the four options
(`AddVote` refuses the others). -/
structure VotesStored (votes : SortedMap VoteKey Vote) : Prop where
  keyed : ∀ k vote, votes.find? k = some vote → k = voteKey vote.proposalID vote.voter
  valid : ∀ k vote, votes.find? k = some vote → vote.option ≠ .empty

theorem VotesStored.key_of_mem {votes : SortedMap VoteKey Vote} (stored : VotesStored votes)
    {proposalID : Nat} {e : VoteKey × Vote}
    (member : e ∈ votes.entries.filter fun e => (ofLex e.1).1 = proposalID) :
    e.1 = voteKey proposalID e.2.voter := by
  obtain ⟨entry, ofProposal⟩ := List.mem_filter.mp member
  have key := stored.keyed e.1 e.2 (SortedMap.find?_of_mem entry)
  have proposal : e.2.proposalID = proposalID := by
    rw [key] at ofProposal
    exact of_decide_eq_true ofProposal
  rw [key, proposal]

/-- A proposal has one vote a voter: the votes read have distinct voters. -/
theorem nodup_voters {votes : SortedMap VoteKey Vote} (stored : VotesStored votes)
    (proposalID : Nat) : (voters votes proposalID).Nodup := by
  unfold voters iterateVotes
  rw [List.map_map]
  refine List.pairwise_map.mpr ((votes.ascending.filter _).imp_of_mem ?_)
  intro e e' member member' less sameVoter
  have keys : e.1 = e'.1 := by
    rw [stored.key_of_mem member, stored.key_of_mem member']
    exact congrArg (voteKey proposalID) sameVoter
  exact absurd keys (ne_of_lt less)

theorem valid_of_mem_iterateVotes {votes : SortedMap VoteKey Vote} (stored : VotesStored votes)
    {proposalID : Nat} : ∀ vote ∈ iterateVotes votes proposalID, vote.option ≠ .empty := by
  intro vote member
  obtain ⟨e, filtered, rfl⟩ := List.mem_map.mp member
  exact stored.valid e.1 e.2 (SortedMap.find?_of_mem (List.mem_filter.mp filtered).1)

/-- The widths of the tally's arithmetic: every bonded validator's shares, and their product with
its tokens, fit a `Dec`, and the bound the total of a tally obeys (`tally_counts_shares_once`),
the bonded tokens of the validators it reads and half a unit a rounding, is below `2 ^ 255` whole
tokens, in units of `10 ^ -18`. -/
structure TallyFits (s : Store) (voters : List AccAddress) : Prop where
  shares : ∀ a v, s.getValidator a = some v → v.isBonded →
    v.delegatorShares.int < 2 ^ maxDecBitLen
  product : ∀ a v, s.getValidator a = some v → v.isBonded →
    v.delegatorShares.int * v.tokens < 2 ^ maxDecBitLen
  total : ∀ curr₀, bondedValidators s = .ok curr₀ →
    (curr₀.sumBy fun a info => 2 * precisionReuse * info.bondedTokens + roundings s voters a) <
      2 * 2 ^ maxBitLen * precisionReuse

/-- The validators the tally reads are as wide as the store's bonded validators. -/
theorem TallyFits.wide {s : Store} {voters : List AccAddress} (fits : TallyFits s voters)
    {curr₀ : SortedMap ValAddress ValidatorGovInfo}
    (origin : ∀ a info, curr₀.find? a = some info →
      ∃ v, (∃ address, s.getValidator address = some v) ∧ v.isBonded ∧
        v.operatorAddress = a ∧ info = govInfo v) : Wide curr₀ where
  shares a info found := by
    obtain ⟨v, ⟨address, found_v⟩, bonded, -, rfl⟩ := origin a info found
    exact fits.shares address v found_v bonded
  product a info found := by
    obtain ⟨v, ⟨address, found_v⟩, bonded, -, rfl⟩ := origin a info found
    simp only [govInfo, Validator.bondedTokens, bonded, if_true]
    exact fits.product address v found_v bonded

/-- The integer of an amount of decimals is the amount of their integers. -/
theorem Dec.int_eval {ε κ : Type} [DecidableEq κ] (key : ε → κ) (val : ε → Dec) (l : List ε)
    (k : κ) : (KeyedSum.eval key val l k).int = KeyedSum.eval key (fun e => (val e).int) l k := by
  unfold KeyedSum.eval
  rw [Dec.int_sum]
  congr 1
  refine List.map_congr_left fun e _ => ?_
  split
  · rfl
  · rfl

/-- The shares of a tallied validator, read from the store: those of the delegations to it. -/
theorem delegatorShares_of_origin {s : Store} (backed : SharesBacked s) {a : ValAddress}
    {info : ValidatorGovInfo}
    (origin : ∃ v, (∃ address, s.getValidator address = some v) ∧ v.isBonded ∧
      v.operatorAddress = a ∧ info = govInfo v) :
    info.delegatorShares = KeyedSum.eval Delegation.validatorAddress Delegation.shares
      (s.delegations.entries.map Prod.snd) a := by
  obtain ⟨v, ⟨address, found⟩, -, rfl, rfl⟩ := origin
  exact backed.backed address v found

/-- The deductions of a validator are the shares of the delegations to it whose delegator
voted. -/
theorem deductions_eq (s : Store) (voters : List AccAddress) (a : ValAddress) :
    deductions s voters a = KeyedSum.eval (fun e : DVKey × Delegation => e.2.validatorAddress)
      (fun e => if (ofLex e.1).1 ∈ voters then e.2.shares else 0) s.delegations.entries a := by
  rw [deductions, votersDelegations, KeyedSum.eval_map, KeyedSum.eval_filter_eq_ite]

/-- What a validator's voters hold is none of its shares at least and all of them at most. -/
theorem deductions_within {s : Store} (backed : SharesBacked s) (voters : List AccAddress)
    {a : ValAddress} {info : ValidatorGovInfo}
    (shares : info.delegatorShares = KeyedSum.eval Delegation.validatorAddress Delegation.shares
      (s.delegations.entries.map Prod.snd) a) :
    0 ≤ (deductions s voters a).int ∧ (deductions s voters a).int ≤ info.delegatorShares.int := by
  have nonneg : ∀ e ∈ s.delegations.entries, 0 ≤ e.2.shares.int :=
    fun e member => backed.nonneg e.1 e.2 (SortedMap.find?_of_mem member)
  rw [deductions_eq, shares, KeyedSum.eval_map, Dec.int_eval, Dec.int_eval]
  constructor
  · have none : KeyedSum.eval (fun e : DVKey × Delegation => e.2.validatorAddress)
        (fun _ => (0 : Int)) s.delegations.entries a = 0 := by
      simp [KeyedSum.eval]
    rw [← none]
    refine KeyedSum.eval_mono _ (fun e member => ?_) a
    split
    · exact nonneg e member
    · exact le_rfl
  · refine KeyedSum.eval_mono _ (fun e member => ?_) a
    split
    · exact le_rfl
    · exact nonneg e member

/-- Each delegation to a validator is counted once if its delegator or the validator's operator
voted, and not at all otherwise: a validator operator's own delegations are not counted twice. -/
theorem countedShares_eq (s : Store) (voters : List AccAddress) {a : ValAddress}
    {info : ValidatorGovInfo}
    (shares : info.delegatorShares = KeyedSum.eval Delegation.validatorAddress Delegation.shares
      (s.delegations.entries.map Prod.snd) a) :
    countedShares s voters a info = KeyedSum.eval
      (fun e : DVKey × Delegation => e.2.validatorAddress)
      (fun e => if (ofLex e.1).1 ∈ voters ∨ a ∈ voters then e.2.shares else 0)
      s.delegations.entries a := by
  unfold countedShares
  by_cases voted : a ∈ voters
  · -- the operator voted: every share of the validator is counted, those of its voters first
    rw [if_pos voted, add_sub_cancel, shares, KeyedSum.eval_map]
    congr!
    simp [voted]
  · rw [if_neg voted, add_zero, deductions_eq]
    congr!
    simp [voted]

/-- The shares a tally counts for a validator are at most its shares. -/
theorem countedShares_le {s : Store} (backed : SharesBacked s) (voters : List AccAddress)
    {a : ValAddress} {info : ValidatorGovInfo}
    (shares : info.delegatorShares = KeyedSum.eval Delegation.validatorAddress Delegation.shares
      (s.delegations.entries.map Prod.snd) a) :
    (countedShares s voters a info).int ≤ info.delegatorShares.int := by
  unfold countedShares
  by_cases voted : a ∈ voters
  · rw [if_pos voted, add_sub_cancel]
  · rw [if_neg voted, add_zero]
    exact (deductions_within backed voters shares).2

/-! ## Rounding -/

/-- The powers `x * T / S` of a list of shares, each rounded by `Quo`, add up to at most the
power of their sum and half a unit a term, cross-multiplied by `S`. -/
theorem two_mul_sum_quo_le {T : Int} {S : Dec} (positive : 0 < S.int) (tokens : 0 ≤ T) :
    ∀ (l : List Dec), (∀ x ∈ l, 0 ≤ x.int) →
      2 * (l.map fun x : Dec => (x.mulInt T).quo S).sum.int * S.int ≤
        2 * l.sum.int * T * precisionReuse + l.length * S.int
  | [], _ => by simp
  | x :: rest, nonneg => by
    have head := Dec.two_mul_quo_mul_le (a := x.mulInt T)
      (Int.mul_nonneg (nonneg x List.mem_cons_self) tokens) positive
    have tail := two_mul_sum_quo_le positive tokens rest
      fun y member => nonneg y (List.mem_cons_of_mem x member)
    simp only [List.map_cons, List.sum_cons, Dec.add_int, List.length_cons, Dec.mulInt] at head tail ⊢
    push_cast
    linarith

/-- A validator's voting power exceeds its bonded tokens by half a unit a rounding at most. -/
theorem validatorVotingPower_le {s : Store} (backed : SharesBacked s) (voters : List AccAddress)
    {a : ValAddress} {info : ValidatorGovInfo} (positive : 0 < info.delegatorShares.int)
    (tokens : 0 ≤ info.bondedTokens)
    (shares : info.delegatorShares = KeyedSum.eval Delegation.validatorAddress Delegation.shares
      (s.delegations.entries.map Prod.snd) a) :
    2 * (validatorVotingPower s voters a info).int ≤
      2 * precisionReuse * info.bondedTokens + roundings s voters a := by
  have hP := precisionReuse_pos
  obtain ⟨-, within⟩ := deductions_within backed voters shares
  set held := ((votersDelegations s voters).filter fun d => d.validatorAddress = a).map
    Delegation.shares with held_def
  have heldSum : held.sum = deductions s voters a := by
    rw [held_def, deductions, KeyedSum.eval_eq_sum_filter]
  have heldNonneg : ∀ x ∈ held, 0 ≤ x.int := by
    intro x member
    obtain ⟨d, filtered, rfl⟩ := List.mem_map.mp member
    obtain ⟨e, entry, rfl⟩ := List.mem_map.mp (List.mem_filter.mp filtered).1
    exact backed.nonneg e.1 e.2 (SortedMap.find?_of_mem (List.mem_filter.mp entry).1)
  -- the delegations of the voters: one rounding each
  have delegated := two_mul_sum_quo_le positive tokens held heldNonneg
  rw [held_def, List.map_map, List.length_map] at delegated
  rw [← held_def, heldSum] at delegated
  unfold validatorVotingPower roundings
  refine le_of_mul_le_mul_right ?_ positive
  by_cases voted : a ∈ voters
  · -- and the rest of the shares, one more rounding
    rw [if_pos voted, if_pos voted]
    have rest := Dec.two_mul_quo_mul_le
      (a := (info.delegatorShares - deductions s voters a).mulInt info.bondedTokens)
      (Int.mul_nonneg (by rw [Dec.sub_int]; omega) tokens) positive
    simp only [Dec.add_int, Dec.mulInt, Dec.sub_int, Function.comp_def] at rest delegated ⊢
    push_cast
    linarith
  · rw [if_neg voted, if_neg voted, add_zero, add_zero]
    have below : 0 ≤ (info.delegatorShares.int - (deductions s voters a).int) *
        info.bondedTokens * precisionReuse :=
      Int.mul_nonneg (Int.mul_nonneg (by omega) tokens) hP.le
    simp only [Function.comp_def] at delegated ⊢
    linarith

/-! ## The total of the tally

What the loops add up to, known before they run: the powers of the voters' delegations and the
rests of the validators whose operator voted, neither negative, and together at most the bonded
tokens of the validators and half a unit a rounding. -/

section Total

variable {s : Store} {curr₀ : SortedMap ValAddress ValidatorGovInfo}

theorem votersPower_nonneg (backed : SharesBacked s) (voters : List AccAddress)
    (fresh : Fresh curr₀) : 0 ≤ ((votersDelegations s voters).map (powerOf curr₀)).sum.int :=
  Dec.int_sum_nonneg fun d member => by
    obtain ⟨e, filtered, rfl⟩ := List.mem_map.mp member
    exact powerOf_nonneg fresh
      (backed.nonneg e.1 e.2 (SortedMap.find?_of_mem (List.mem_filter.mp filtered).1))

theorem restPower_nonneg (backed : SharesBacked s) (voters : List AccAddress)
    (fresh : Fresh curr₀)
    (shares : ∀ a info, curr₀.find? a = some info → info.delegatorShares =
      KeyedSum.eval Delegation.validatorAddress Delegation.shares
        (s.delegations.entries.map Prod.snd) a) :
    0 ≤ (restPower s voters curr₀).int := by
  unfold restPower SortedMap.sumBy SortedMap.sumEntries
  refine Dec.int_sum_nonneg fun e member => ?_
  have found := SortedMap.find?_of_mem member
  obtain ⟨-, within⟩ := deductions_within backed voters (shares _ _ found)
  dsimp only
  split
  · exact Dec.quo_int_nonneg (Int.mul_nonneg (by rw [Dec.sub_int]; omega)
      (fresh.tokens _ _ found)) (fresh.shares _ _ found)
  · exact le_rfl

/-- The tally's total, validator by validator, exceeds their bonded tokens by half a unit a
rounding at most. -/
theorem two_mul_sumBy_validatorVotingPower_le (backed : SharesBacked s)
    (voters : List AccAddress) (fresh : Fresh curr₀)
    (shares : ∀ a info, curr₀.find? a = some info → info.delegatorShares =
      KeyedSum.eval Delegation.validatorAddress Delegation.shares
        (s.delegations.entries.map Prod.snd) a) :
    2 * (curr₀.sumBy (validatorVotingPower s voters)).int ≤ curr₀.sumBy fun a info =>
      2 * precisionReuse * info.bondedTokens + roundings s voters a := by
  have bound : ∀ e ∈ curr₀.entries, 2 * (validatorVotingPower s voters e.1 e.2).int ≤
      2 * precisionReuse * e.2.bondedTokens + roundings s voters e.1 := by
    intro e member
    have found := SortedMap.find?_of_mem member
    exact validatorVotingPower_le backed voters (fresh.shares _ _ found)
      (fresh.tokens _ _ found) (shares _ _ found)
  calc 2 * (curr₀.sumBy (validatorVotingPower s voters)).int
      = (curr₀.entries.map fun e => 2 * (validatorVotingPower s voters e.1 e.2).int).sum := by
        rw [SortedMap.sumBy, SortedMap.sumEntries, Dec.int_sum, List.sum_map_mul_left]
    _ ≤ (curr₀.entries.map fun e =>
          2 * precisionReuse * e.2.bondedTokens + roundings s voters e.1).sum :=
        List.sum_le_sum bound
    _ = _ := rfl

end Total

/-! ## The tally -/

/-- What a validator adds in the last loop, once the votes are read: the rest of its shares if
its operator voted. -/
theorem residual_of_voted {voters : List AccAddress} {a : ValAddress} {info : ValidatorGovInfo}
    {deducted : Dec} {vote : VoteOption} (notVoted : vote = .empty ↔ a ∉ voters) :
    residual { info with delegatorDeductions := deducted, vote := vote } =
      if a ∈ voters then
        ((info.delegatorShares - deducted).mulInt info.bondedTokens).quo info.delegatorShares
      else 0 := by
  unfold residual
  by_cases voted : a ∈ voters
  · rw [if_neg (fun empty => (notVoted.mp empty) voted), if_pos voted]
  · rw [if_pos (notVoted.mpr voted), if_neg voted]

/-- Once the votes are read, every validator is ready for the last loop: its shares are those
of the stored delegations, of which its voters' deductions are part. -/
theorem tracked_ready {s : Store} {curr₀ : SortedMap ValAddress ValidatorGovInfo}
    (backed : SharesBacked s) (voters : List AccAddress) (fresh : Fresh curr₀)
    (wide : Wide curr₀)
    (shares : ∀ a info, curr₀.find? a = some info →
      info.delegatorShares = KeyedSum.eval Delegation.validatorAddress Delegation.shares
        (s.delegations.entries.map Prod.snd) a)
    (voted : ValAddress → VoteOption) :
    ∀ e ∈ (tracked curr₀ (deductions s voters) voted).entries, e.2.Ready := by
  rintro ⟨a, val⟩ member
  have found := SortedMap.find?_of_mem member
  rw [find?_tracked] at found
  obtain ⟨info, found₀, rfl⟩ := Option.map_eq_some_iff.mp found
  obtain ⟨deductedNonneg, within⟩ := deductions_within backed voters (shares _ info found₀)
  exact ⟨fresh.shares _ info found₀, fresh.tokens _ info found₀, deductedNonneg, within,
    wide.shares _ info found₀, wide.product _ info found₀⟩

/-- The loops of the tally do not panic; their total is the sum over the bonded validators of
their voting power, below `2 ^ 255` whole tokens, and the results are tallied. -/
theorem tallyVotingPower_ok {s : Store} {votes : SortedMap VoteKey Vote} (proposalID : Nat)
    (backed : SharesBacked s) (ready : TallyReady s) (stored : VotesStored votes)
    (fits : TallyFits s (voters votes proposalID)) :
    ∃ curr₀ results totalVotingPower, bondedValidators s = .ok curr₀ ∧ Fresh curr₀ ∧
      (∀ a info, curr₀.find? a = some info →
        ∃ v, (∃ address, s.getValidator address = some v) ∧ v.isBonded ∧
          v.operatorAddress = a ∧ info = govInfo v) ∧
      tallyVotingPower s votes proposalID =
        .ok (deleteVotes votes (iterateVotes votes proposalID), results, totalVotingPower) ∧
      totalVotingPower = curr₀.sumBy (validatorVotingPower s (voters votes proposalID)) ∧
      Tallied results totalVotingPower ∧
      totalVotingPower.int < 2 ^ maxBitLen * precisionReuse := by
  obtain ⟨curr₀, bonded, fresh, origin⟩ := bondedValidators_ok ready
  have wide := fits.wide origin
  have nodup := nodup_voters stored proposalID
  have shares := fun a info (found : curr₀.find? a = some info) =>
    delegatorShares_of_origin backed (origin a info found)
  -- what the loops add up to, within `2 ^ 255` whole tokens
  have split := congrArg Dec.int (sumBy_validatorVotingPower s (voters votes proposalID) curr₀)
  rw [Dec.add_int] at split
  have below : (curr₀.sumBy (validatorVotingPower s (voters votes proposalID))).int <
      2 ^ maxBitLen * precisionReuse := by
    have twice :=
      two_mul_sumBy_validatorVotingPower_le backed (voters votes proposalID) fresh shares
    have limit := fits.total curr₀ bonded
    linarith
  have wider := pow_maxBitLen_mul_precisionReuse_le
  have powersNonneg := votersPower_nonneg backed (voters votes proposalID) fresh
  have restsNonneg := restPower_nonneg backed (voters votes proposalID) fresh shares
  -- the voters' delegations, read voter by voter
  have held : ∀ a, ((iterateVotes votes proposalID).map fun vote =>
      KeyedSum.eval Delegation.validatorAddress Delegation.shares
        (delegationsOf s vote.voter) a).sum = deductions s (voters votes proposalID) a := by
    intro a
    rw [deductions, KeyedSum.eval, ← sum_delegationsOf s nodup, voters, List.map_map]
    rfl
  have powers : ((iterateVotes votes proposalID).map fun vote =>
      ((delegationsOf s vote.voter).map (powerOf curr₀)).sum).sum =
      ((votersDelegations s (voters votes proposalID)).map (powerOf curr₀)).sum := by
    rw [← sum_delegationsOf s nodup, voters, List.map_map]
    rfl
  obtain ⟨acc₁, voted, read, tracks, votedIff, total₁, tallied₁⟩ := tallyVotes_tracked s fresh
    wide backed.nonneg (iterateVotes votes proposalID) (valid_of_mem_iterateVotes stored)
    ⟨curr₀, fun _ => 0, 0⟩ (fun _ => 0) (fun _ => .empty) (tracked_blank fresh).symm tallied_zero
    (fun _ => le_rfl)
    (fun a info found => by
      rw [held, Dec.zero_int, zero_add]
      exact (deductions_within backed _ (shares a info found)).2)
    (by
      rw [powers, Dec.zero_int, zero_add]
      linarith)
  -- once the votes are read, each validator's deductions are what its voters hold
  have deducted : (fun a => (0 : Dec) + ((iterateVotes votes proposalID).map fun vote =>
      KeyedSum.eval Delegation.validatorAddress Delegation.shares
        (delegationsOf s vote.voter) a).sum) = deductions s (voters votes proposalID) := by
    funext a
    rw [zero_add, held]
  rw [deducted] at tracks
  have notVoted : ∀ a, voted a = .empty ↔ a ∉ voters votes proposalID := fun a => by
    simpa [voters] using votedIff a
  have each : ∀ e ∈ acc₁.currValidators.entries, e.2.Ready := by
    rw [tracks]
    exact tracked_ready backed (voters votes proposalID) fresh wide shares voted
  have total : acc₁.totalVotingPower =
      ((votersDelegations s (voters votes proposalID)).map (powerOf curr₀)).sum := by
    rw [total₁, zero_add, powers]
  have rests : (acc₁.currValidators.entries.map fun e => residual e.2).sum =
      restPower s (voters votes proposalID) curr₀ := by
    change acc₁.currValidators.sumBy (fun _ val => residual val) = _
    rw [tracks, tracked, SortedMap.sumBy_mapVal]
    exact SortedMap.sumBy_congr _ fun a info _ => residual_of_voted (notVoted a)
  obtain ⟨acc₂, validators, total₂, tallied₂⟩ :=
    tallyValidators_ok _ each (acc₁.results, acc₁.totalVotingPower) tallied₁ (by
      dsimp only
      rw [total, rests]
      linarith)
  have final : acc₂.2 = curr₀.sumBy (validatorVotingPower s (voters votes proposalID)) := by
    rw [total₂, total, rests, sumBy_validatorVotingPower]
  refine ⟨curr₀, acc₂.1, acc₂.2, bonded, fresh, origin, ?_, final, tallied₂,
    by rw [final]; exact below⟩
  unfold tallyVotingPower
  exact Fallible.bind_eq_ok.mpr ⟨curr₀, bonded, Fallible.bind_eq_ok.mpr ⟨acc₁, read,
    Fallible.bind_eq_ok.mpr ⟨acc₂, validators, rfl⟩⟩⟩

/-- Truncating tallied results below `2 ^ 255` whole tokens does not panic. -/
theorem newTallyResultFromMap_ok {results : VoteOption → Dec} {total : Dec}
    (tallied : Tallied results total) (fits : total.int < 2 ^ maxBitLen * precisionReuse) :
    ∃ tallyResult, newTallyResultFromMap results = .ok tallyResult := by
  have each : ∀ option,
      (results option).truncateIntChecked = .ok (results option).truncateInt := fun option =>
    Dec.truncateIntChecked_of_nonneg (tallied.nonneg option)
      (lt_of_le_of_lt (tallied.le_total option).2 fits)
  unfold newTallyResultFromMap
  rw [each, each, each, each]
  exact ⟨_, rfl⟩

/-- The decision of a tally with tallied results below `2 ^ 255` whole tokens does not panic: it
divides by the bonded tokens only when there are some, by the total only when someone voted
other than abstain, and each fraction it takes is at most one. -/
theorem tallyOutcome_ok {results : VoteOption → Dec} {totalVotingPower : Dec}
    (tallied : Tallied results totalVotingPower)
    (fits : totalVotingPower.int < 2 ^ maxBitLen * precisionReuse) (tallyParams : TallyParams)
    {totalBondedTokens : Int} (bondedNonneg : 0 ≤ totalBondedTokens) :
    ∃ outcome, tallyOutcome tallyParams totalBondedTokens results totalVotingPower =
      .ok outcome := by
  have totalNonneg := (tallied.le_total .yes).1
  have wider := pow_maxBitLen_mul_precisionReuse_le
  unfold tallyOutcome
  by_cases noBonded : totalBondedTokens = 0
  · exact ⟨_, by rw [if_pos noBonded]; rfl⟩
  rw [if_neg noBonded]
  have bonded : 0 < (Dec.ofInt totalBondedTokens).int :=
    Int.mul_pos (by omega) precisionReuse_pos
  -- the part of the bonded tokens that voted is at most the total
  have scaled : totalVotingPower.int * precisionReuse ≤
      totalVotingPower.int * (Dec.ofInt totalBondedTokens).int := by
    have once : precisionReuse ≤ (Dec.ofInt totalBondedTokens).int :=
      le_mul_of_one_le_left precisionReuse_pos.le (by omega)
    exact Int.mul_le_mul_of_nonneg_left once totalNonneg
  have percent := Dec.quo_le_of_mul_le totalNonneg bonded scaled
  refine Fallible.exists_bind_ok (Dec.quoChecked_of_nonneg totalNonneg bonded (by linarith)) ?_
  by_cases quorum : (totalVotingPower.quo (Dec.ofInt totalBondedTokens)) < tallyParams.quorum
  · exact ⟨_, by rw [if_pos quorum]; rfl⟩
  rw [if_neg quorum]
  have abstain := tallied.le_total .abstain
  have abstainNonneg := tallied.nonneg .abstain
  have difference : checkDec (totalVotingPower - results .abstain) =
      .ok (totalVotingPower - results .abstain) :=
    checkDec_of_nonneg (by rw [Dec.sub_int]; omega) (by rw [Dec.sub_int]; linarith)
  refine Fallible.exists_bind_ok difference ?_
  by_cases abstained : totalVotingPower - results .abstain = 0
  · exact ⟨_, by rw [if_pos abstained]; rfl⟩
  rw [if_neg abstained]
  have voted : 0 < (totalVotingPower - results .abstain).int := by
    have nonzero : (totalVotingPower - results .abstain).int ≠ 0 :=
      fun zero => abstained (Dec.ext_int (by rw [zero, Dec.zero_int]))
    rw [Dec.sub_int] at nonzero ⊢
    omega
  have positive : 0 < totalVotingPower.int := by
    rw [Dec.sub_int] at voted
    omega
  refine Fallible.exists_bind_ok (Dec.quoChecked_of_le (tallied.nonneg _) positive
    (tallied.le_total _).2) ?_
  by_cases vetoed : tallyParams.veto < (results .noWithVeto).quo totalVotingPower
  · exact ⟨_, by rw [if_pos vetoed]; rfl⟩
  rw [if_neg vetoed]
  -- the yes votes are among the votes other than abstain
  have yes : (results .yes).int ≤ (totalVotingPower - results .abstain).int := by
    have sum := congrArg Dec.int tallied.sum
    simp only [Dec.add_int] at sum
    rw [Dec.sub_int]
    linarith [tallied.nonneg .no, tallied.nonneg .noWithVeto]
  exact Fallible.exists_bind_ok (Dec.quoChecked_of_le (tallied.nonneg _) voted yes) ⟨_, rfl⟩

/-- The tally of a proposal counts every share once and rounds each term once. On a staking store
where every validator's shares are those of the delegations to it, none negative, where the
power index names stored validators and every bonded validator has shares and no negative
tokens, whose numbers are as wide as Go's arithmetic allows, and with the votes stored under
their keys with one of the four options: the tally does not panic; its total voting power is
the sum over the bonded validators of their voting power, one rounding `Quo` for each delegation
of a voter and one for the rest of the shares if the operator voted; the shares counted for a
validator are those of each delegation to it whose delegator or whose validator's operator
voted, once, and at most its shares; the results of the four options add up to the total; and
the total exceeds the bonded tokens of those validators by half a unit of `10 ^ -18` a rounding
at most. -/
theorem tally_counts_shares_once (s : Store) (votes : SortedMap VoteKey Vote) (proposalID : Nat)
    (tallyParams : TallyParams) (totalBondedTokens : Int) (backed : SharesBacked s)
    (ready : TallyReady s) (stored : VotesStored votes)
    (fits : TallyFits s (voters votes proposalID)) (bondedNonneg : 0 ≤ totalBondedTokens) :
    let voters := voters votes proposalID
    ∃ currValidators results totalVotingPower passes burnDeposits tallyResult,
      bondedValidators s = .ok currValidators ∧
      tallyVotingPower s votes proposalID =
        .ok (deleteVotes votes (iterateVotes votes proposalID), results, totalVotingPower) ∧
      newTallyResultFromMap results = .ok tallyResult ∧
      tally s votes proposalID tallyParams totalBondedTokens =
        .ok (deleteVotes votes (iterateVotes votes proposalID), passes, burnDeposits,
          tallyResult) ∧
      totalVotingPower = currValidators.sumBy (validatorVotingPower s voters) ∧
      (∀ a info, currValidators.find? a = some info →
        countedShares s voters a info = KeyedSum.eval
          (fun e : DVKey × Delegation => e.2.validatorAddress)
          (fun e => if (ofLex e.1).1 ∈ voters ∨ a ∈ voters then e.2.shares else 0)
          s.delegations.entries a ∧
        (countedShares s voters a info).int ≤ info.delegatorShares.int) ∧
      results .yes + results .abstain + results .no + results .noWithVeto = totalVotingPower ∧
      2 * totalVotingPower.int ≤ currValidators.sumBy fun a info =>
        2 * precisionReuse * info.bondedTokens + roundings s voters a := by
  intro voters
  obtain ⟨curr₀, results, total, bonded, fresh, origin, loops, sum, tallied, below⟩ :=
    tallyVotingPower_ok proposalID backed ready stored fits
  obtain ⟨tallyResult, truncated⟩ := newTallyResultFromMap_ok tallied below
  obtain ⟨⟨passes, burnDeposits⟩, decided⟩ :=
    tallyOutcome_ok tallied below tallyParams bondedNonneg
  have shares := fun a info (found : curr₀.find? a = some info) =>
    delegatorShares_of_origin backed (origin a info found)
  refine ⟨curr₀, results, total, passes, burnDeposits, tallyResult, bonded, loops, truncated, ?_,
    sum, fun a info found => ⟨countedShares_eq s voters (shares a info found),
      countedShares_le backed voters (shares a info found)⟩, tallied.sum, ?_⟩
  · unfold tally
    exact Fallible.bind_eq_ok.mpr ⟨_, loops, Fallible.bind_eq_ok.mpr ⟨_, truncated,
      Fallible.bind_eq_ok.mpr ⟨_, decided, rfl⟩⟩⟩
  · rw [sum]
    exact two_mul_sumBy_validatorVotingPower_le backed voters fresh shares

/-- The tally parameters of `DefaultGenesisState`: a quorum and a veto of `0.334`, a threshold
of `0.5`. -/
def defaultTallyParams : TallyParams :=
  ⟨⟨334 * 10 ^ 15⟩, ⟨5 * 10 ^ 17⟩, ⟨334 * 10 ^ 15⟩⟩

/-- A bonded validator holding `tokens`, all of whose shares its operator delegated. -/
def selfBondedValidator (tokens : Int) : Validator :=
  { Validator.newValidator [1] [2] ⟨"", "", "", ""⟩ with
    status := .bonded, tokens, delegatorShares := Dec.ofInt tokens }

/-- A store with that validator, in the power index, and its operator's delegation. -/
def selfBondedStore (tokens : Int) : Store :=
  { Store.empty defaultParams with
    validators := SortedMap.empty.insert [1] (selfBondedValidator tokens)
    validatorsByPower := SortedMap.empty.insert (powerIndexKey (selfBondedValidator tokens)) [1]
    delegations := SortedMap.empty.insert (dvKey [1] [1]) ⟨[1], [1], Dec.ofInt tokens⟩ }

/-- The operator's vote for the first proposal. -/
def operatorVote : SortedMap VoteKey Vote :=
  SortedMap.empty.insert (voteKey 0 [1]) ⟨0, [1], .yes⟩

theorem getValidator_selfBondedStore {tokens : Int} {a : ValAddress} {v : Validator}
    (found : (selfBondedStore tokens).getValidator a = some v) : v = selfBondedValidator tokens := by
  simp only [Store.getValidator, selfBondedStore, SortedMap.find?_insert,
    SortedMap.find?_empty] at found
  split at found
  · exact (Option.some.inj found).symm
  · cases found

theorem selfBondedStore_backed {tokens : Int} (nonneg : 0 ≤ tokens) :
    SharesBacked (selfBondedStore tokens) where
  nonneg k d found := by
    simp only [selfBondedStore, SortedMap.find?_insert, SortedMap.find?_empty] at found
    split at found
    · cases found
      exact Int.mul_nonneg nonneg precisionReuse_pos.le
    · cases found
  backed a v found := by
    rw [getValidator_selfBondedStore found]
    -- the one delegation holds all of the validator's shares
    show Dec.ofInt tokens = KeyedSum.eval Delegation.validatorAddress Delegation.shares
      [⟨[1], [1], Dec.ofInt tokens⟩] [1]
    rw [KeyedSum.eval_cons, if_pos rfl, KeyedSum.eval_nil, add_zero]

theorem selfBondedStore_ready {tokens : Int} (positive : 0 < tokens) :
    TallyReady (selfBondedStore tokens) where
  indexed key a found := by
    simp only [selfBondedStore, SortedMap.find?_insert, SortedMap.find?_empty] at found
    split at found
    · cases found
      rfl
    · cases found
  shares a v found _ := by
    rw [getValidator_selfBondedStore found]
    exact Int.mul_pos positive precisionReuse_pos
  tokens a v found _ := by
    rw [getValidator_selfBondedStore found]
    exact positive.le

theorem operatorVote_stored : VotesStored operatorVote where
  keyed k vote found := by
    simp only [operatorVote, SortedMap.find?_insert, SortedMap.find?_empty] at found
    split at found
    · next same =>
      cases found
      exact same.symm
    · cases found
  valid k vote found := by
    simp only [operatorVote, SortedMap.find?_insert, SortedMap.find?_empty] at found
    split at found
    · cases found
      decide
    · cases found

/-- One token is far within the widths of the tally. -/
theorem selfBondedStore_fits : TallyFits (selfBondedStore 1) (voters operatorVote 0) where
  shares a v found _ := by
    rw [getValidator_selfBondedStore found]
    decide +kernel
  product a v found _ := by
    rw [getValidator_selfBondedStore found]
    decide +kernel
  total curr₀ bonded := by
    have run : (bondedValidators (selfBondedStore 1)).toOption.any (fun curr =>
        decide ((curr.sumBy fun a info => 2 * precisionReuse * info.bondedTokens +
          (roundings (selfBondedStore 1) (voters operatorVote 0) a : Int)) <
            2 * 2 ^ maxBitLen * precisionReuse)) = true := by
      decide +kernel
    rw [bonded] at run
    exact of_decide_eq_true run

theorem tally_counts_shares_once_self_bonded :
    (SharesBacked (selfBondedStore 1) ∧ TallyReady (selfBondedStore 1) ∧
      VotesStored operatorVote ∧ TallyFits (selfBondedStore 1) (voters operatorVote 0) ∧
      (0 : Int) ≤ 1) ∧
    let voters := voters operatorVote 0
    ∃ currValidators results totalVotingPower passes burnDeposits tallyResult,
      bondedValidators (selfBondedStore 1) = .ok currValidators ∧
      tallyVotingPower (selfBondedStore 1) operatorVote 0 =
        .ok (deleteVotes operatorVote (iterateVotes operatorVote 0), results, totalVotingPower) ∧
      newTallyResultFromMap results = .ok tallyResult ∧
      tally (selfBondedStore 1) operatorVote 0 defaultTallyParams 1 =
        .ok (deleteVotes operatorVote (iterateVotes operatorVote 0), passes, burnDeposits,
          tallyResult) ∧
      totalVotingPower = currValidators.sumBy (validatorVotingPower (selfBondedStore 1) voters) ∧
      (∀ a info, currValidators.find? a = some info →
        countedShares (selfBondedStore 1) voters a info = KeyedSum.eval
          (fun e : DVKey × Delegation => e.2.validatorAddress)
          (fun e => if (ofLex e.1).1 ∈ voters ∨ a ∈ voters then e.2.shares else 0)
          (selfBondedStore 1).delegations.entries a ∧
        (countedShares (selfBondedStore 1) voters a info).int ≤ info.delegatorShares.int) ∧
      results .yes + results .abstain + results .no + results .noWithVeto = totalVotingPower ∧
      2 * totalVotingPower.int ≤ currValidators.sumBy fun a info =>
        2 * precisionReuse * info.bondedTokens + roundings (selfBondedStore 1) voters a :=
  ⟨⟨selfBondedStore_backed (by decide), selfBondedStore_ready (by decide), operatorVote_stored,
      selfBondedStore_fits, by decide⟩,
    tally_counts_shares_once (selfBondedStore 1) operatorVote 0 defaultTallyParams 1
      (selfBondedStore_backed (by decide)) (selfBondedStore_ready (by decide))
      operatorVote_stored selfBondedStore_fits (by decide)⟩

-- Without the widths the tally panics: at `2 ^ 130` tokens and shares, the product of the
-- operator's shares with the tokens is wider than a `Dec`.
example : SharesBacked (selfBondedStore (2 ^ 130)) ∧ TallyReady (selfBondedStore (2 ^ 130)) ∧
    tally (selfBondedStore (2 ^ 130)) operatorVote 0 defaultTallyParams (2 ^ 130) =
      .error (.panic "Int overflow") :=
  ⟨selfBondedStore_backed (by positivity), selfBondedStore_ready (by positivity),
    by decide +kernel⟩

/-- A bonded validator without tokens or shares, still in the power index. -/
def sharelessValidator : Validator :=
  { Validator.newValidator [1] [2] ⟨"", "", "", ""⟩ with status := .bonded }

def sharelessStore : Store :=
  { Store.empty defaultParams with
    validators := SortedMap.empty.insert [1] sharelessValidator
    validatorsByPower := SortedMap.empty.insert (powerIndexKey sharelessValidator) [1] }

theorem sharelessStore_backed : SharesBacked sharelessStore where
  nonneg k d found := by
    simp [sharelessStore, Store.empty] at found
  backed a v found := by
    simp only [Store.getValidator, sharelessStore, SortedMap.find?_insert,
      SortedMap.find?_empty] at found
    split at found
    · cases found
      rfl
    · cases found

/-- The delegator-share invariant and stored votes do not keep the tally from panicking: a
bonded validator without shares whose operator voted makes the last loop divide by zero. -/
theorem tally_panics_on_validator_without_shares :
    SharesBacked sharelessStore ∧ VotesStored operatorVote ∧
      tally sharelessStore operatorVote 0 defaultTallyParams 0 =
        .error (.panic "division by zero") :=
  ⟨sharelessStore_backed, operatorVote_stored, by decide +kernel⟩

end Gov

end Pocc
