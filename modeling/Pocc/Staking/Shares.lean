import Pocc.Staking.PowerIndex
import Pocc.Types.DecCoin
import Pocc.Types.DecQuo
import Mathlib

/-!
# Delegator shares over a chain

invariants.go registers two checks on delegations: `PositiveDelegationInvariant`, that every
stored delegation has positive shares, and `DelegatorSharesInvariant`, that each validator's
`DelegatorShares` is the sum of the shares of its delegations. Both hold in every reachable
world (`delegation_invariants_hold`).

They are carried by `Shares`, which adds what keeps them true from one write to the next: a
validator's tokens are at most its shares counted in units of `10 ^ -18` (`Validator.Backed`).
The exchange rate is then never below one unit of shares per token, so that

* a delegation of a positive amount is issued at least that many units of shares
  (`Validator.addTokensFromDel_backed`): truncating `shares * amount / tokens` never gives
  nothing;
* unbonding pays the rounded value of the shares, and what stays is still covered
  (`Validator.removeDelShares_backed`): the payout is at least the tokens the bound lets go, a
  whole number below the exact quotient.

A validator without shares then has no tokens and no delegation (`Shares.no_delegation`), so
`RemoveValidator` never deletes a validator a delegation still names.
-/

namespace Pocc

namespace Staking

/-! ## Tokens and shares of one validator -/

namespace Validator

/-- The tokens are not negative and at most the shares, counted in units of `10 ^ -18`. -/
structure Backed (v : Validator) : Prop where
  nonneg : 0 ≤ v.tokens
  le_shares : v.tokens ≤ v.delegatorShares.int

variable {v v' : Validator}

/-- Delegating a positive amount issues at least that many units of shares, and the new tokens
stay covered: the first delegation gets `10 ^ 18` units a token, a later one gets
`shares * amount / tokens` units truncated, and `shares ≥ tokens`. -/
theorem addTokensFromDel_backed {amount : Int} {issued : Dec} (backed : v.Backed)
    (pos : 0 < amount) (h : v.addTokensFromDel amount = .ok (v', issued)) :
    amount ≤ issued.int ∧ v'.Backed := by
  obtain ⟨rfl, nonzero, rfl⟩ := addTokensFromDel_eq_ok h
  have hP := precisionReuse_pos
  have tokens_le := backed.le_shares
  have tokens_nonneg := backed.nonneg
  have issued_ge : amount ≤ (if v.delegatorShares.int = 0 then Dec.ofInt amount
      else (v.delegatorShares.mulInt amount).quoInt v.tokens).int := by
    split
    · show amount ≤ amount * precisionReuse
      nlinarith
    · next shares =>
      have tokens_pos : 0 < v.tokens := by have := nonzero shares; omega
      show amount ≤ (v.delegatorShares.int * amount).tdiv v.tokens
      rw [Int.tdiv_eq_ediv_of_nonneg (by nlinarith)]
      exact (Int.le_ediv_iff_mul_le tokens_pos).mpr (by nlinarith)
  exact ⟨issued_ge, ⟨by dsimp only; omega, by dsimp only; rw [Dec.add_int]; omega⟩⟩

/-- Unbonding `0 ≤ shares ≤ delegatorShares` pays a non-negative amount and leaves the tokens
covered. The last shares take every token; otherwise the payout, `shares * tokens /
delegatorShares` rounded then truncated, is at least `tokens - (delegatorShares - shares)`,
since `(tokens - delegatorShares) * (delegatorShares - shares) ≤ 0`. -/
theorem removeDelShares_backed {shares : Dec} {removed : Int} (backed : v.Backed)
    (nonneg : 0 ≤ shares.int) (le : shares.int ≤ v.delegatorShares.int)
    (h : v.removeDelShares shares = .ok (v', removed)) : 0 ≤ removed ∧ v'.Backed := by
  obtain ⟨⟨zero, rfl⟩ | ⟨nonzero, rfl, enough⟩, rfl⟩ := removeDelShares_eq_ok h
  · exact ⟨backed.nonneg, ⟨by dsimp only; omega, by dsimp only; rw [zero]; omega⟩⟩
  · have hP := precisionReuse_pos
    have tokens_le := backed.le_shares
    have tokens_nonneg := backed.nonneg
    rw [Dec.sub_int] at nonzero
    have shares_pos : 0 < v.delegatorShares.int := by omega
    have product : 0 ≤ (shares.mulInt v.tokens).int := Int.mul_nonneg nonneg tokens_nonneg
    have quo_nonneg : 0 ≤ (v.tokensFromShares shares).int := Dec.quo_int_nonneg product shares_pos
    have paid_nonneg : 0 ≤ (v.tokensFromShares shares).truncateInt :=
      Dec.le_truncateInt quo_nonneg (by simpa using quo_nonneg)
    -- the payout covers what the shares left behind cannot
    have paid_ge : v.tokens - v.delegatorShares.int + shares.int ≤
        (v.tokensFromShares shares).truncateInt := by
      refine Dec.le_truncateInt quo_nonneg (Dec.le_quo_of_mul_le product shares_pos ?_)
      have cross : (v.tokens - v.delegatorShares.int + shares.int) * v.delegatorShares.int ≤
          shares.int * v.tokens := by nlinarith
      show (v.tokens - v.delegatorShares.int + shares.int) * precisionReuse *
        v.delegatorShares.int ≤ shares.int * v.tokens * precisionReuse
      nlinarith
    exact ⟨paid_nonneg, ⟨by dsimp only; omega, by dsimp only; rw [Dec.sub_int]; omega⟩⟩

/-- `RemoveTokens` keeps the shares and leaves the tokens covered. -/
theorem removeTokens_backed {tokens : Int} (backed : v.Backed) (h : v.removeTokens tokens = .ok v') :
    v'.delegatorShares = v.delegatorShares ∧ v'.Backed := by
  obtain ⟨nonneg, le, rfl⟩ := removeTokens_eq_ok h
  have tokens_le := backed.le_shares
  exact ⟨rfl, ⟨by dsimp only; omega, by dsimp only; omega⟩⟩

end Validator

/-! ## The delegation invariants of invariants.go -/

namespace Store

/-- `GetAllDelegations`: every delegation, in key order. -/
def getAllDelegations (s : Store) : List Delegation := s.delegations.entries.map Prod.snd

/-- `GetValidatorDelegations`: the delegations to `valAddr`, in key order. -/
def getValidatorDelegations (s : Store) (valAddr : ValAddress) : List Delegation :=
  s.getAllDelegations.filter fun delegation => delegation.validatorAddress = valAddr

/-- `GetAllValidators`. -/
def getAllValidators (s : Store) : List Validator := s.validators.entries.map Prod.snd

/-- The shares of the delegations to `a`, as a sum over the store. -/
def delegatedShares (s : Store) (a : ValAddress) : Dec :=
  s.delegations.sumBy fun _ d => if d.validatorAddress = a then d.shares else 0

end Store

/-- `PositiveDelegationInvariant`: the count of delegations with negative or zero shares, and
whether the invariant is broken. The message listing them is left out. -/
def positiveDelegationInvariant (s : Store) : Nat × Bool :=
  let count := s.getAllDelegations.foldl (fun count delegation =>
    count + (if delegation.shares.isNegative then 1 else 0) +
      (if delegation.shares.isZero then 1 else 0)) 0
  (count, count ≠ 0)

/-- `DelegatorSharesInvariant`: broken if a validator's shares differ from the sum of the shares
of its delegations. The message is left out. -/
def delegatorSharesInvariant (s : Store) : Bool :=
  s.getAllValidators.foldl (fun broken validator =>
    let totalDelShares := (s.getValidatorDelegations validator.operatorAddress).foldl
      (fun total delegation => total + delegation.shares) 0
    broken || validator.delegatorShares ≠ totalDelShares) false

/-! ## The invariant -/

/-- What the keeper keeps true of delegations and of the validators' shares and tokens. -/
structure Shares (s : Store) : Prop where
  /-- A delegation is stored under its delegator and validator. -/
  keyed : ∀ key d, s.delegations.find? key = some d →
    key = dvKey d.delegatorAddress d.validatorAddress
  positive : ∀ key d, s.delegations.find? key = some d → 0 < d.shares.int
  /-- A delegation names a stored validator. -/
  stored : ∀ key d, s.delegations.find? key = some d → (s.getValidator d.validatorAddress).isSome
  /-- A validator's shares are those of its delegations. -/
  sum : ∀ a v, s.getValidator a = some v → v.delegatorShares = s.delegatedShares a
  backed : ∀ a v, s.getValidator a = some v → v.Backed
  /-- A redelegation entry records the shares it created at the destination, never negative. -/
  sharesDst : ∀ key red, s.redelegations.find? key = some red →
    ∀ entry ∈ red.entries, 0 ≤ entry.sharesDst.int

theorem dvKey_inj {d d' : AccAddress} {v v' : ValAddress} (h : dvKey d v = dvKey d' v') :
    d = d' ∧ v = v' := by
  unfold dvKey at h
  simpa only [toLex_inj, Prod.mk.injEq] using h

theorem Dec.int_sumBy {κ ν : Type} [LinearOrder κ] (m : SortedMap κ ν) (f : κ → ν → Dec) :
    (m.sumBy f).int = m.sumBy fun k v => (f k v).int :=
  Dec.int_sum m.entries _

namespace Store

variable (s : Store)

@[simp] theorem delegations_updateValidator (v v' : Validator) :
    (s.updateValidator v v').delegations = s.delegations := by
  unfold updateValidator setValidatorByPowerIndex
  split <;> rfl

theorem delegatedShares_int (a : ValAddress) :
    (s.delegatedShares a).int =
      s.delegations.sumBy fun _ d => if d.validatorAddress = a then d.shares.int else 0 := by
  rw [delegatedShares, Dec.int_sumBy]
  refine SortedMap.sumBy_congr _ fun _ d _ => ?_
  split <;> rfl

end Store

namespace Shares

variable {s : Store}

/-- A delegation's shares are at most its validator's. -/
theorem delegation_le (h : Shares s) {a : ValAddress} {v : Validator}
    (found : s.getValidator a = some v) {key : DVKey} {d : Delegation}
    (stored : s.delegations.find? key = some d) (named : d.validatorAddress = a) :
    d.shares.int ≤ v.delegatorShares.int := by
  have nonneg : ∀ k d', s.delegations.find? k = some d' →
      0 ≤ (if d'.validatorAddress = a then d'.shares.int else 0) := by
    intro k d' found'
    split
    · exact (h.positive k d' found').le
    · exact le_rfl
  have term := SortedMap.le_sumBy s.delegations nonneg stored
  rw [if_pos named] at term
  rwa [h.sum a v found, Store.delegatedShares_int]

/-- A validator without shares has no delegation. -/
theorem no_delegation (h : Shares s) {a : ValAddress} {v : Validator}
    (found : s.getValidator a = some v) (zero : v.delegatorShares.isZero) {key : DVKey}
    {d : Delegation} (stored : s.delegations.find? key = some d) : d.validatorAddress ≠ a := by
  intro named
  have le := h.delegation_le found stored named
  have pos := h.positive key d stored
  unfold Dec.isZero at zero
  omega

/-- The delegation stored under the key of `d` counts towards `a` only if `d`'s validator is
`a`: the key names the validator. -/
theorem term_at_key (h : Shares s) (d : Delegation) (a : ValAddress) :
    ((s.delegations.find? (dvKey d.delegatorAddress d.validatorAddress)).map
        fun old => if old.validatorAddress = a then old.shares else 0).getD 0 =
      if d.validatorAddress = a then
        ((s.getDelegation d.delegatorAddress d.validatorAddress).map Delegation.shares).getD 0
      else 0 := by
  cases found : s.delegations.find? (dvKey d.delegatorAddress d.validatorAddress) with
  | none => simp [Store.getDelegation, found]
  | some old =>
    have same := (dvKey_inj (h.keyed _ old found)).2
    simp [Store.getDelegation, found, ← same]

theorem delegatedShares_setDelegation (h : Shares s) (d : Delegation) (a : ValAddress) :
    (s.setDelegation d).delegatedShares a =
      if d.validatorAddress = a then
        s.delegatedShares a -
          ((s.getDelegation d.delegatorAddress d.validatorAddress).map Delegation.shares).getD 0 +
          d.shares
      else s.delegatedShares a := by
  rw [Store.delegatedShares, Store.setDelegation, SortedMap.sumBy_insert_sub, h.term_at_key d a]
  split <;> simp [Store.delegatedShares]

theorem delegatedShares_deleteDelegation (h : Shares s) (d : Delegation) (a : ValAddress) :
    (s.deleteDelegation d).delegatedShares a =
      if d.validatorAddress = a then
        s.delegatedShares a -
          ((s.getDelegation d.delegatorAddress d.validatorAddress).map Delegation.shares).getD 0
      else s.delegatedShares a := by
  rw [Store.delegatedShares, Store.deleteDelegation, SortedMap.sumBy_erase, h.term_at_key d a]
  split <;> simp [Store.delegatedShares]

/-- A write that keeps the delegations and redelegations, and the shares of every validator it
keeps, keeps the invariant if it leaves tokens covered and deletes no validator a delegation
names. -/
theorem of_validators (h : Shares s) {s' : Store} (delegations : s'.delegations = s.delegations)
    (redelegations : s'.redelegations = s.redelegations)
    (validators : ∀ a v', s'.getValidator a = some v' →
      ∃ v, s.getValidator a = some v ∧ v'.delegatorShares = v.delegatorShares ∧ v'.Backed)
    (kept : ∀ key d, s.delegations.find? key = some d →
      (s'.getValidator d.validatorAddress).isSome) : Shares s' where
  keyed key d found := h.keyed key d (by rwa [delegations] at found)
  positive key d found := h.positive key d (by rwa [delegations] at found)
  stored key d found := kept key d (by rwa [delegations] at found)
  sum a v' found := by
    obtain ⟨v, found₀, shares, -⟩ := validators a v' found
    rw [shares, h.sum a v found₀, Store.delegatedShares, Store.delegatedShares, delegations]
  backed a v' found := by
    obtain ⟨v, -, -, backed⟩ := validators a v' found
    exact backed
  sharesDst key red found := h.sharesDst key red (by rwa [redelegations] at found)

/-- A write to what the invariant does not read. -/
theorem of_eq (h : Shares s) {s' : Store} (validators : s'.validators = s.validators)
    (delegations : s'.delegations = s.delegations)
    (redelegations : s'.redelegations = s.redelegations) : Shares s' := by
  have same : ∀ a, s'.getValidator a = s.getValidator a := fun a => by
    rw [Store.getValidator, validators]
    rfl
  refine h.of_validators delegations redelegations (fun a v' found => ?_) (fun key d found => ?_)
  · rw [same] at found
    exact ⟨v', found, rfl, h.backed a v' found⟩
  · rw [same]
    exact h.stored key d found

/-- A record written over the stored one at its address, with the same shares and covered
tokens. -/
theorem writeValidator (h : Shares s) {s' : Store} {v v' : Validator}
    (validators : ∀ a, s'.getValidator a = if v'.operatorAddress = a then some v' else s.getValidator a)
    (delegations : s'.delegations = s.delegations)
    (redelegations : s'.redelegations = s.redelegations)
    (current : s.getValidator v'.operatorAddress = some v)
    (shares : v'.delegatorShares = v.delegatorShares) (backed : v'.Backed) : Shares s' := by
  refine h.of_validators delegations redelegations (fun a u found => ?_) (fun key d found => ?_)
  · rw [validators] at found
    split at found
    · next here =>
      cases found
      exact ⟨v, here ▸ current, shares, backed⟩
    · exact ⟨u, found, rfl, h.backed a u found⟩
  · rw [validators]
    split
    · rfl
    · exact h.stored key d found

theorem updateValidator (h : Shares s) (v₀ v' : Validator) {v : Validator}
    (current : s.getValidator v'.operatorAddress = some v)
    (shares : v'.delegatorShares = v.delegatorShares) (backed : v'.Backed) :
    Shares (s.updateValidator v₀ v') :=
  h.writeValidator (Store.getValidator_updateValidator s v₀ v') (by simp) (by simp) current shares
    backed

theorem setValidator (h : Shares s) (v' : Validator) {v : Validator}
    (current : s.getValidator v'.operatorAddress = some v)
    (shares : v'.delegatorShares = v.delegatorShares) (backed : v'.Backed) :
    Shares (s.setValidator v') :=
  h.writeValidator (Store.getValidator_setValidator s v') rfl rfl current shares backed

/-- A delegation to the stored validator `v` written under its key, with `v`'s shares moved by
the change of the delegation's shares. -/
theorem moveDelegation (h : Shares s) {s' : Store} {v v' : Validator} {d : Delegation}
    (validators : ∀ a, s'.getValidator a = if v'.operatorAddress = a then some v' else s.getValidator a)
    (delegations : s'.delegations = (s.setDelegation d).delegations)
    (redelegations : s'.redelegations = s.redelegations)
    (current : s.getValidator v.operatorAddress = some v)
    (address : v'.operatorAddress = v.operatorAddress)
    (validator : d.validatorAddress = v.operatorAddress) (positive : 0 < d.shares.int)
    (shares : v'.delegatorShares = v.delegatorShares -
      ((s.getDelegation d.delegatorAddress d.validatorAddress).map Delegation.shares).getD 0 +
        d.shares)
    (backed : v'.Backed) : Shares s' where
  keyed key d' found := by
    rw [delegations] at found
    simp only [Store.setDelegation, SortedMap.find?_insert] at found
    split at found
    · next here =>
      cases found
      exact here.symm
    · exact h.keyed key d' found
  positive key d' found := by
    rw [delegations] at found
    simp only [Store.setDelegation, SortedMap.find?_insert] at found
    split at found
    · cases found
      exact positive
    · exact h.positive key d' found
  stored key d' found := by
    rw [delegations] at found
    simp only [Store.setDelegation, SortedMap.find?_insert] at found
    rw [validators]
    split
    · rfl
    · split at found
      · cases found
        exact absurd (address.trans validator.symm) ‹_›
      · exact h.stored key d' found
  sum a u found := by
    have moved : s'.delegatedShares a = (s.setDelegation d).delegatedShares a := by
      rw [Store.delegatedShares, Store.delegatedShares, delegations]
    rw [moved, h.delegatedShares_setDelegation d a]
    rw [validators] at found
    split at found
    · next here =>
      cases found
      rw [if_pos (validator.trans (address.symm.trans here)), ← here, address,
        ← h.sum _ v current]
      exact shares
    · next other =>
      rw [if_neg fun named => other (address.trans (validator.symm.trans named))]
      exact h.sum a u found
  backed a u found := by
    rw [validators] at found
    split at found
    · cases found
      exact backed
    · exact h.backed a u found
  sharesDst key red found := h.sharesDst key red (by rwa [redelegations] at found)

/-- The delegation of `d`'s key deleted, with the shares of its validator `v` moved by what it
had. -/
theorem dropDelegation (h : Shares s) {s' : Store} {v v' : Validator} {d : Delegation}
    (validators : ∀ a, s'.getValidator a = if v'.operatorAddress = a then some v' else s.getValidator a)
    (delegations : s'.delegations = (s.deleteDelegation d).delegations)
    (redelegations : s'.redelegations = s.redelegations)
    (current : s.getValidator v.operatorAddress = some v)
    (address : v'.operatorAddress = v.operatorAddress)
    (validator : d.validatorAddress = v.operatorAddress)
    (shares : v'.delegatorShares = v.delegatorShares -
      ((s.getDelegation d.delegatorAddress d.validatorAddress).map Delegation.shares).getD 0)
    (backed : v'.Backed) : Shares s' where
  keyed key d' found := by
    rw [delegations] at found
    simp only [Store.deleteDelegation, SortedMap.find?_erase] at found
    split at found
    · cases found
    · exact h.keyed key d' found
  positive key d' found := by
    rw [delegations] at found
    simp only [Store.deleteDelegation, SortedMap.find?_erase] at found
    split at found
    · cases found
    · exact h.positive key d' found
  stored key d' found := by
    rw [delegations] at found
    simp only [Store.deleteDelegation, SortedMap.find?_erase] at found
    split at found
    · cases found
    · rw [validators]
      split
      · rfl
      · exact h.stored key d' found
  sum a u found := by
    have moved : s'.delegatedShares a = (s.deleteDelegation d).delegatedShares a := by
      rw [Store.delegatedShares, Store.delegatedShares, delegations]
    rw [moved, h.delegatedShares_deleteDelegation d a]
    rw [validators] at found
    split at found
    · next here =>
      cases found
      rw [if_pos (validator.trans (address.symm.trans here)), ← here, address,
        ← h.sum _ v current]
      exact shares
    · next other =>
      rw [if_neg fun named => other (address.trans (validator.symm.trans named))]
      exact h.sum a u found
  backed a u found := by
    rw [validators] at found
    split at found
    · cases found
      exact backed
    · exact h.backed a u found
  sharesDst key red found := h.sharesDst key red (by rwa [redelegations] at found)

/-- `RemoveValidator` of a validator without shares. -/
theorem deleteValidator (h : Shares s) {a : ValAddress} {v : Validator}
    (found : s.getValidator a = some v) (zero : v.delegatorShares.isZero) :
    Shares (s.deleteValidator a v) := by
  refine h.of_validators rfl rfl (fun b u found' => ?_) (fun key d stored => ?_)
  · rw [Store.getValidator_deleteValidator] at found'
    split at found'
    · cases found'
    · exact ⟨u, found', rfl, h.backed b u found'⟩
  · rw [Store.getValidator_deleteValidator, if_neg (h.no_delegation found zero stored).symm]
    exact h.stored key d stored

/-- A new validator without tokens or shares, at a fresh address: no delegation names it, since
every delegation names a stored validator. -/
theorem create (h : Shares s) {v : Validator} (fresh : s.getValidator v.operatorAddress = none)
    (tokens : v.tokens = 0) (shares : v.delegatorShares = 0) :
    Shares (((s.setValidator v).setValidatorByConsAddr v).setNewValidatorByPowerIndex v) where
  keyed := h.keyed
  positive := h.positive
  stored key d found := by
    simp only [Store.getValidator_setNewValidatorByPowerIndex,
      Store.getValidator_setValidatorByConsAddr, Store.getValidator_setValidator]
    split
    · rfl
    · exact h.stored key d found
  sum a u found := by
    simp only [Store.getValidator_setNewValidatorByPowerIndex,
      Store.getValidator_setValidatorByConsAddr, Store.getValidator_setValidator] at found
    split at found
    · next here =>
      cases found
      rw [shares, ← here]
      refine (SortedMap.sumBy_eq_zero _ fun key d stored => if_neg fun same => ?_).symm
      have named := h.stored key d stored
      rw [same, fresh] at named
      cases named
    · exact h.sum a u found
  backed a u found := by
    simp only [Store.getValidator_setNewValidatorByPowerIndex,
      Store.getValidator_setValidatorByConsAddr, Store.getValidator_setValidator] at found
    split at found
    · cases found
      exact ⟨by omega, by rw [tokens, shares]; rfl⟩
    · exact h.backed a u found
  sharesDst := h.sharesDst

/-- Writing a redelegation whose entries record non-negative shares. -/
theorem setRedelegation (h : Shares s) {red : Redelegation}
    (entries : ∀ entry ∈ red.entries, 0 ≤ entry.sharesDst.int) : Shares (s.setRedelegation red) where
  keyed := h.keyed
  positive := h.positive
  stored := h.stored
  sum := h.sum
  backed := h.backed
  sharesDst key red' found := by
    simp only [Store.setRedelegation, SortedMap.find?_insert] at found
    split at found
    · cases found
      exact entries
    · exact h.sharesDst key red' found

theorem removeRedelegation (h : Shares s) (red : Redelegation) :
    Shares (s.removeRedelegation red) where
  keyed := h.keyed
  positive := h.positive
  stored := h.stored
  sum := h.sum
  backed := h.backed
  sharesDst key red' found := by
    simp only [Store.removeRedelegation, SortedMap.find?_erase] at found
    split at found
    · cases found
    · exact h.sharesDst key red' found

/-- Some of the entries of a stored redelegation written back. -/
theorem redelegation_entries (h : Shares s) {delAddr : AccAddress}
    {valSrcAddr valDstAddr : ValAddress} {red : Redelegation}
    (found : s.getRedelegation delAddr valSrcAddr valDstAddr = some red)
    {entries : List RedelegationEntry} (sub : ∀ entry ∈ entries, entry ∈ red.entries) :
    Shares (s.setRedelegation { red with entries := entries }) :=
  h.setRedelegation fun entry mem => h.sharesDst _ red found entry (sub entry mem)

theorem setRedelegationEntry (h : Shares s) {delAddr : AccAddress}
    {valSrcAddr valDstAddr : ValAddress} (creationHeight minTime balance : Int) {sharesDst : Dec}
    (nonneg : 0 ≤ sharesDst.int) :
    Shares (s.setRedelegationEntry delAddr valSrcAddr valDstAddr creationHeight minTime
      balance sharesDst).1 := by
  unfold Store.setRedelegationEntry
  split
  · next red found =>
    refine h.setRedelegation fun entry mem => ?_
    rcases List.mem_append.mp mem with old | new
    · exact h.sharesDst _ red found entry old
    · rw [List.mem_singleton.mp new]
      exact nonneg
  · refine h.setRedelegation fun entry mem => ?_
    rw [List.mem_singleton.mp mem]
    exact nonneg

/-- The writes of `unbond` after the jail check: the delegation deleted or written back with
`shares` fewer, and the validator's record with those shares and their tokens off. -/
theorem unbondDelegation (h : Shares s) {delegation : Delegation} {v v' : Validator}
    {shares : Dec} {amount : Int} (current : s.getValidator v.operatorAddress = some v)
    (found : s.getDelegation delegation.delegatorAddress delegation.validatorAddress =
      some delegation)
    (named : delegation.validatorAddress = v.operatorAddress)
    (enough : ¬ delegation.shares < shares) (nonneg : 0 ≤ shares.int)
    (hremove : v.removeDelShares shares = .ok (v', amount)) :
    0 ≤ amount ∧
      Shares ((if ({ delegation with shares := delegation.shares - shares } : Delegation).shares.isZero
        then s.deleteDelegation { delegation with shares := delegation.shares - shares }
        else s.setDelegation { delegation with shares := delegation.shares - shares }).updateValidator
          v v') := by
  have le : shares.int ≤ v.delegatorShares.int :=
    le_trans (not_lt.mp enough) (h.delegation_le current found named)
  obtain ⟨paid, backed⟩ := Validator.removeDelShares_backed (h.backed _ _ current) nonneg le hremove
  obtain ⟨-, rfl⟩ := Validator.removeDelShares_eq_ok hremove
  have old : ((s.getDelegation delegation.delegatorAddress delegation.validatorAddress).map
      Delegation.shares).getD 0 = delegation.shares := by
    rw [found]
    rfl
  refine ⟨paid, ?_⟩
  split
  · next zero =>
    -- the last shares of the delegation: it is deleted
    have all : shares = delegation.shares := by
      apply Dec.ext_int
      simp only [Dec.isZero, Dec.sub_int] at zero
      omega
    refine h.dropDelegation (d := { delegation with shares := delegation.shares - shares })
      (Store.getValidator_updateValidator _ v _) (by simp) (by simp; rfl) current rfl named ?_
      backed
    rw [old, all]
  · next rest =>
    have pos : 0 < (delegation.shares - shares).int := by
      simp only [Dec.isZero, Dec.sub_int] at rest
      rw [Dec.sub_int]
      have := (Dec.lt_iff _ _).not.mp enough
      omega
    refine h.moveDelegation (d := { delegation with shares := delegation.shares - shares })
      (Store.getValidator_updateValidator _ v _) (by simp) (by simp; rfl) current rfl named pos
      ?_ backed
    rw [old]
    exact Dec.ext_int (by simp only [Dec.add_int, Dec.sub_int]; ring)

/-- What no write of the EndBlocker to the validator queue reads. -/
theorem deleteValidatorQueue (h : Shares s) (v : Validator) : Shares (s.deleteValidatorQueue v) := by
  unfold Store.deleteValidatorQueue
  dsimp only
  split <;> exact h.of_eq rfl rfl rfl

end Shares

/-! ## The keeper's functions -/

namespace Keeper

section SharesKept

variable {τ : Type} {k : Keeper τ} {ctx : Header} {w w' : World τ}

/-- `Delegate` of a positive amount to the stored record issues at least that many units of
shares and keeps the invariant. -/
theorem delegate_shares {delAddr : AccAddress} {bondAmt : Int} {tokenSrc : BondStatus}
    {validator : Validator} {subtractAccount : Bool} {newShares : Dec} (hs : Shares w.store)
    (current : w.store.getValidator validator.operatorAddress = some validator) (pos : 0 < bondAmt)
    (h : k.delegate ctx w delAddr bondAmt tokenSrc validator subtractAccount = .ok (w', newShares)) :
    bondAmt ≤ newShares.int ∧ Shares w'.store := by
  obtain ⟨-, validator', hadd, store⟩ := delegate_store h
  obtain ⟨issued, backed⟩ := Validator.addTokensFromDel_backed (hs.backed _ _ current) pos hadd
  obtain ⟨-, -, rfl⟩ := Validator.addTokensFromDel_eq_ok hadd
  refine ⟨issued, ?_⟩
  rw [store]
  -- the delegation as stored, or a new one without shares
  obtain ⟨delegation, hdelegation, names, named, old_nonneg, old⟩ :
      ∃ delegation, (w.store.getDelegation delAddr validator.operatorAddress).getD
          ⟨delAddr, validator.operatorAddress, 0⟩ = delegation ∧
        delegation.delegatorAddress = delAddr ∧
        delegation.validatorAddress = validator.operatorAddress ∧ 0 ≤ delegation.shares.int ∧
        ((w.store.getDelegation delAddr validator.operatorAddress).map Delegation.shares).getD 0 =
          delegation.shares := by
    cases found : w.store.getDelegation delAddr validator.operatorAddress with
    | none => exact ⟨_, rfl, rfl, rfl, le_rfl, rfl⟩
    | some d =>
      obtain ⟨names, named⟩ := dvKey_inj (hs.keyed _ d found)
      exact ⟨d, rfl, names.symm, named.symm, (hs.positive _ d found).le, rfl⟩
  rw [hdelegation]
  refine hs.moveDelegation (v := validator)
    (d := { delegation with shares := delegation.shares + newShares })
    (fun a => Store.getValidator_updateValidator _ _ _ a) (by simp [Store.setDelegation])
    (by simp [Store.setDelegation]) current rfl named ?_ ?_ backed
  · rw [Dec.add_int]
    omega
  · rw [names, named, old]
    exact Dec.ext_int (by simp only [Dec.add_int, Dec.sub_int]; ring)

/-- `unbond` of non-negative shares pays a non-negative amount and keeps the invariant. -/
theorem unbond_shares {delAddr : AccAddress} {valAddr : ValAddress} {shares : Dec} {amount : Int}
    (hs : Shares w.store) (hst : Structural w.store) (nonneg : 0 ≤ shares.int)
    (h : k.unbond ctx w delAddr valAddr shares = .ok (w', amount)) :
    0 ≤ amount ∧ Shares w'.store := by
  obtain ⟨delegation, validator, validator₁, validator₂, s₁, found, enough, hval, jail, hremove,
    removed, kept⟩ := unbond_store h
  have address : validator.operatorAddress = valAddr := hst.keyed _ _ hval
  subst address
  obtain ⟨names, named⟩ := dvKey_inj (hs.keyed _ _ found)
  -- the jail check changes neither tokens nor shares
  obtain ⟨shares₁, current₁, address₁, delegations₁⟩ : Shares s₁ ∧
      s₁.getValidator validator₁.operatorAddress = some validator₁ ∧
      validator₁.operatorAddress = validator.operatorAddress ∧ s₁.delegations = w.store.delegations := by
    rcases jail with ⟨rfl, rfl⟩ | ⟨-, rfl, rfl⟩
    · exact ⟨hs, hval, rfl, rfl⟩
    · rw [Store.jail_eq_updateValidator]
      have backed := hs.backed _ _ hval
      have jailed : Shares (w.store.updateValidator validator { validator with jailed := true }) :=
        hs.updateValidator validator { validator with jailed := true } hval rfl
          ⟨backed.nonneg, backed.le_shares⟩
      exact ⟨jailed, getValidator_updateValidator_self _ _ _, rfl, by simp⟩
  have found₁ : s₁.getDelegation delegation.delegatorAddress delegation.validatorAddress =
      some delegation := by
    rw [Store.getDelegation, delegations₁, ← names, ← named]
    exact found
  obtain ⟨paid, shares₂⟩ := shares₁.unbondDelegation current₁ found₁ (named.symm.trans address₁.symm)
    enough nonneg hremove
  refine ⟨paid, ?_⟩
  -- a validator left unbonded without shares is removed
  by_cases empty : validator₂.delegatorShares.isZero ∧ validator₂.isUnbonded = true
  · obtain ⟨-, store⟩ := removed empty
    rw [store]
    exact shares₂.deleteValidator (getValidator_updateValidator_self _ _ _) empty.1
  · rw [kept empty]
    exact shares₂

/-- The shares `ValidateUnbondAmount` returns for a positive amount are not negative: those of
the delegation, or `shares * amount / tokens` of a validator whose tokens its shares cover. -/
theorem validateUnbondAmount_nonneg {delAddr : AccAddress} {valAddr : ValAddress} {amt : Int}
    {shares : Dec} (hs : Shares w.store) (pos : 0 < amt)
    (h : validateUnbondAmount w delAddr valAddr amt = .ok shares) : 0 ≤ shares.int := by
  unfold validateUnbondAmount at h
  cases hval : w.store.getValidator valAddr with
  | none =>
    rw [hval] at h
    exact absurd h Fallible.throw_ne_ok
  | some validator =>
    cases hdel : w.store.getDelegation delAddr valAddr with
    | none =>
      rw [hval, hdel] at h
      exact absurd h Fallible.throw_ne_ok
    | some del =>
      rw [hval, hdel] at h
      obtain ⟨sh, hsh, h⟩ := Fallible.bind_eq_ok.mp h
      obtain ⟨truncated, -, h⟩ := Fallible.bind_eq_ok.mp h
      rw [if_neg fun short => Fallible.throw_ne_ok (by rwa [if_pos short] at h)] at h
      rw [← Fallible.pure_eq_ok.mp h]
      have backed := hs.backed _ _ hval
      rw [Validator.sharesFromTokens_eq_ok hsh]
      split
      · exact (hs.positive _ _ hdel).le
      · exact Int.tdiv_nonneg (Int.mul_nonneg (backed.nonneg.trans backed.le_shares) pos.le)
          backed.nonneg

/-- `Undelegate` of non-negative shares keeps the invariant. -/
theorem undelegate_shares {delAddr : AccAddress} {valAddr : ValAddress} {sharesAmount : Dec}
    {completionTime : Int} (hs : Shares w.store) (hst : Structural w.store)
    (nonneg : 0 ≤ sharesAmount.int)
    (h : k.undelegate ctx w delAddr valAddr sharesAmount = .ok (w', completionTime)) :
    Shares w'.store := by
  obtain ⟨validator, w₁, returnAmount, -, -, -, hunbond, -, store⟩ := undelegate_store h
  obtain ⟨-, shares₁⟩ := unbond_shares hs hst nonneg hunbond
  dsimp only at store
  rw [store]
  exact shares₁.of_eq rfl rfl rfl

/-- `BeginRedelegation` of non-negative shares keeps the invariant: the tokens unbonded from the
source are positive, so the destination issues positive shares, which the entry records. -/
theorem beginRedelegation_shares {delAddr : AccAddress} {valSrcAddr valDstAddr : ValAddress}
    {sharesAmount : Dec} {completionTime : Int} (hs : Shares w.store) (hst : Structural w.store)
    (nonneg : 0 ≤ sharesAmount.int)
    (h : k.beginRedelegation ctx w delAddr valSrcAddr valDstAddr sharesAmount =
      .ok (w', completionTime)) :
    Shares w'.store := by
  obtain ⟨dstValidator, srcValidator, w₁, w₂, returnAmount, sharesCreated, distinct, foundDst, -, -,
    hunbond, returned, hdelegate, store⟩ := beginRedelegation_store h
  obtain ⟨paid, shares₁⟩ := unbond_shares hs hst nonneg hunbond
  obtain ⟨-, frame₁⟩ := unbond_keeps hst hunbond
  have currentDst : w₁.store.getValidator dstValidator.operatorAddress = some dstValidator := by
    rw [hst.keyed _ _ foundDst, frame₁ valDstAddr (Ne.symm distinct)]
    exact foundDst
  obtain ⟨issued, shares₂⟩ := delegate_shares shares₁ currentDst (by omega) hdelegate
  rcases store with store | ⟨height, store⟩
  · rw [store]
    exact shares₂
  · dsimp only at store
    rw [store]
    exact (shares₂.setRedelegationEntry _ _ _ (by omega)).of_eq rfl rfl rfl

theorem completeUnbonding_shares {delAddr : AccAddress} {valAddr : ValAddress}
    {err : Option SdkError} (hs : Shares w.store)
    (h : k.completeUnbonding ctx w delAddr valAddr = .ok (w', err)) : Shares w'.store := by
  rcases completeUnbonding_store h with store | ⟨ubd, -, store | ⟨entries, store⟩⟩ <;>
    rw [store] <;> exact hs.of_eq rfl rfl rfl

theorem completeRedelegation_shares {delAddr : AccAddress} {valSrcAddr valDstAddr : ValAddress}
    (hs : Shares w.store)
    (h : completeRedelegation ctx w delAddr valSrcAddr valDstAddr = .ok w') : Shares w'.store := by
  obtain ⟨red, found, store | store⟩ := completeRedelegation_store h
  · rw [store]
    exact hs.removeRedelegation _
  · rw [store]
    exact hs.redelegation_entries found fun entry mem => (List.mem_filter.mp mem).1

/-- `Slash` keeps the invariant: the scan unbonds non-negative shares from the destinations of
redelegations (the delegation's, or the slash factor times the entry's), and the slashed
validator loses tokens only. -/
theorem slash_shares {consAddr : ConsAddress} {infractionHeight power : Int} {slashFactor : Dec}
    (hs : Shares w.store) (hst : Structural w.store)
    (h : k.slash ctx w consAddr infractionHeight power slashFactor = .ok w') :
    Shares w'.store := by
  rcases slash_store h with store | ⟨validator, w₁, remaining, validator', factor, found, -, -, scan,
    hremove, store⟩
  · rw [store]
    exact hs
  · have current := hst.current_of_getValidatorByConsAddr found
    obtain ⟨shares₁, current₁⟩ : Shares w₁.store ∧
        w₁.store.getValidator validator.operatorAddress = some validator := by
      rcases scan with same | ⟨w₀, store₀, hscan⟩
      · rw [same]
        exact ⟨hs, current⟩
      · have scanned := slashUnbondingsAndRedelegations_induction
          (fun w₂ : World τ => Shares w₂.store ∧ w.store.Keeps w₂.store ∧
            w₂.store.getValidator validator.operatorAddress = some validator)
          (fun _ _ hR => hR)
          (fun _ _ _ ⟨hs₂, keeps, found'⟩ => ⟨hs₂.of_eq rfl rfl rfl, keeps.frame rfl rfl rfl, found'⟩)
          ?_ (by rw [store₀]; exact ⟨hs, .refl hst, current⟩) hscan
        · exact ⟨scanned.1, scanned.2.2⟩
        · -- an unbonding from a destination, of non-negative shares, leaves the slashed validator
          rintro red mem entry mem' w₂ w₃ delegation amount ⟨hs₂, keeps, found'⟩ hdel hunbond
          rw [store₀] at mem
          have nonneg : 0 ≤ (if delegation.shares < slashFactor.mul entry.sharesDst then
              delegation.shares else slashFactor.mul entry.sharesDst).int := by
            split
            · exact (hs₂.positive _ _ hdel).le
            · obtain ⟨key, stored, -⟩ := w.store.mem_getRedelegationsFromSrcValidator mem
              exact Dec.mul_nonneg factor (hs.sharesDst key red stored entry mem')
          obtain ⟨-, hs₃⟩ := unbond_shares hs₂ keeps.structural nonneg hunbond
          obtain ⟨keeps', frame'⟩ := unbond_keeps keeps.structural hunbond
          refine ⟨hs₃, keeps.trans keeps', ?_⟩
          rw [frame' _ (hst.dst_ne_of_mem_getRedelegationsFromSrcValidator mem).symm]
          exact found'
    obtain ⟨same, backed⟩ := Validator.removeTokens_backed (shares₁.backed _ _ current₁) hremove
    obtain ⟨-, -, hv'⟩ := Validator.removeTokens_eq_ok hremove
    have address : validator'.operatorAddress = validator.operatorAddress := by rw [hv']
    rw [store]
    exact shares₁.updateValidator validator validator' (by rw [address]; exact current₁) same backed

theorem jail_shares {consAddr : ConsAddress} (hs : Shares w.store) (hst : Structural w.store)
    (h : jail w consAddr = .ok w') : Shares w'.store := by
  obtain ⟨validator, found, hjail⟩ := jail_store h
  obtain ⟨-, store⟩ := jailValidator_eq_ok hjail
  have current := hst.current_of_getValidatorByConsAddr found
  have backed := hs.backed _ _ current
  rw [store, Store.jail_eq_updateValidator]
  exact hs.updateValidator validator { validator with jailed := true } current rfl
    ⟨backed.nonneg, backed.le_shares⟩

theorem unjail_shares {consAddr : ConsAddress} (hs : Shares w.store) (hst : Structural w.store)
    (h : unjail w consAddr = .ok w') : Shares w'.store := by
  obtain ⟨validator, found, hunjail⟩ := unjail_store h
  obtain ⟨jailed, store⟩ := unjailValidator_eq_ok hunjail
  have current := hst.current_of_getValidatorByConsAddr found
  have backed := hs.backed _ _ current
  rw [store, hst.unjail_eq_updateValidator current jailed]
  exact hs.updateValidator validator { validator with jailed := false } current rfl
    ⟨backed.nonneg, backed.le_shares⟩

/-- Every write of the EndBlocker keeps the invariant together with `Structural`: status changes
keep tokens and shares, and the validators it removes have no shares. -/
theorem endBlockClosed_shares : EndBlockClosed fun s => Shares s ∧ Structural s where
  bond s a v hP found notJailed notBonded := by
    have current := hP.2.current_of_getValidator found
    have backed := hP.1.backed _ _ current
    exact ⟨(hP.1.updateValidator v (v.updateStatus .bonded) current rfl
      ⟨backed.nonneg, backed.le_shares⟩).deleteValidatorQueue _, ((endBlockClosed_keeps s).bond s a v (.refl hP.2) found notJailed notBonded).structural⟩
  setLastPower s a power hP :=
    ⟨hP.1.of_eq rfl rfl rfl, ((endBlockClosed_keeps s).setLastPower s a power (.refl hP.2)).structural⟩
  beginUnbonding s a v time height hP found bonded := by
    have current := hP.2.current_of_getValidator found
    have backed := hP.1.backed _ _ current
    exact ⟨(hP.1.updateValidator v { v.updateStatus .unbonding with
      unbondingCompletionTime := time, unbondingHeight := height } current rfl
      ⟨backed.nonneg, backed.le_shares⟩).of_eq rfl rfl rfl,
      ((endBlockClosed_keeps s).beginUnbonding s a v time height (.refl hP.2) found
        bonded).structural⟩
  deleteLastPower s a hP :=
    ⟨hP.1.of_eq rfl rfl rfl, ((endBlockClosed_keeps s).deleteLastPower s a (.refl hP.2)).structural⟩
  setLastTotalPower s power hP :=
    ⟨hP.1.of_eq rfl rfl rfl,
      ((endBlockClosed_keeps s).setLastTotalPower s power (.refl hP.2)).structural⟩
  completeUnbonding s a v hP found unbonding := by
    have current := hP.2.current_of_getValidator found
    have backed := hP.1.backed _ _ current
    exact ⟨hP.1.setValidator (v.updateStatus .unbonded) current rfl ⟨backed.nonneg, backed.le_shares⟩,
      ((endBlockClosed_keeps s).completeUnbonding s a v (.refl hP.2) found unbonding).structural⟩
  remove s a v hP found unbonded tokens zero :=
    ⟨hP.1.deleteValidator found zero,
      ((endBlockClosed_keeps s).remove s a v (.refl hP.2) found unbonded tokens zero).structural⟩
  eraseValidatorQueue s time hP :=
    ⟨hP.1.of_eq rfl rfl rfl,
      ((endBlockClosed_keeps s).eraseValidatorQueue s time (.refl hP.2)).structural⟩
  dequeueUBD s time hP :=
    ⟨hP.1.of_eq rfl rfl rfl, ((endBlockClosed_keeps s).dequeueUBD s time (.refl hP.2)).structural⟩
  completeUBD s delAddr valAddr ubd entries hP found :=
    have keeps := (endBlockClosed_keeps s).completeUBD s delAddr valAddr ubd entries (.refl hP.2) found
    ⟨⟨hP.1.of_eq rfl rfl rfl, keeps.1.structural⟩, ⟨hP.1.of_eq rfl rfl rfl, keeps.2.structural⟩⟩
  dequeueRedelegations s time hP :=
    ⟨hP.1.of_eq rfl rfl rfl,
      ((endBlockClosed_keeps s).dequeueRedelegations s time (.refl hP.2)).structural⟩
  completeRedelegation s delAddr valSrcAddr valDstAddr red time hP found :=
    have keeps := (endBlockClosed_keeps s).completeRedelegation s delAddr valSrcAddr valDstAddr red
      time (.refl hP.2) found
    ⟨⟨hP.1.removeRedelegation _, keeps.1.structural⟩,
      ⟨hP.1.redelegation_entries found fun entry mem => (List.mem_filter.mp mem).1,
        keeps.2.structural⟩⟩

end SharesKept

/-! ## The handlers and every event -/

theorem validateDelegationMsg_amount_pos {delegatorAddress : AccAddress}
    {validatorAddresses : List ValAddress} {amount : Int} {errAmount : SdkError}
    (h : validateDelegationMsg delegatorAddress validatorAddresses amount errAmount = none) :
    0 < amount := by
  unfold validateDelegationMsg at h
  split_ifs at h with nonpos
  omega

theorem MsgCreateValidator.amount_pos {msg : MsgCreateValidator} (h : msg.validateBasic = none) :
    0 < msg.value.amount := by
  unfold MsgCreateValidator.validateBasic at h
  split_ifs at h <;> first | cases h | omega

section SharesHandlers

variable {τ : Type} {k : Keeper τ} {ctx : Header} {w w' : World τ}

/-- `MsgCreateValidator` stores a validator without tokens or shares, then delegates a positive
amount to it. -/
theorem handleMsgCreateValidator_shares {msg : MsgCreateValidator} (hs : Shares w.store)
    (valid : msg.validateBasic = none) (h : k.handleMsgCreateValidator ctx w msg = .ok w') :
    Shares w'.store := by
  obtain ⟨fresh, -, -, -, w₁, shares, store₁, hdelegate⟩ := handleMsgCreateValidator_store h
  have created : Shares w₁.store := by
    rw [store₁]
    exact hs.create (v := createdValidator ctx msg) fresh rfl rfl
  have current : w₁.store.getValidator (createdValidator ctx msg).operatorAddress =
      some (createdValidator ctx msg) := by
    rw [store₁]
    simp
  exact (delegate_shares created current (MsgCreateValidator.amount_pos valid) hdelegate).2

/-- `MsgEditValidator` keeps the tokens and shares of the record it writes over. -/
theorem handleMsgEditValidator_shares {msg : MsgEditValidator} (hs : Shares w.store)
    (hst : Structural w.store) (h : k.handleMsgEditValidator ctx w msg = .ok w') :
    Shares w'.store := by
  obtain ⟨validator, description, commission, minSelfDelegation, found, -, -, -, store⟩ :=
    handleMsgEditValidator_store h
  have current := hst.current_of_getValidator found
  have backed := hs.backed _ _ current
  rw [store]
  exact hs.setValidator { validator with
    description := description, commission := commission,
    minSelfDelegation := minSelfDelegation } current rfl ⟨backed.nonneg, backed.le_shares⟩

theorem handleMsgDelegate_shares {msg : MsgDelegate} (hs : Shares w.store)
    (hst : Structural w.store) (valid : msg.validateBasic = none)
    (h : k.handleMsgDelegate ctx w msg = .ok w') : Shares w'.store := by
  obtain ⟨validator, shares, found, -, hdelegate⟩ := handleMsgDelegate_store h
  exact (delegate_shares hs (hst.current_of_getValidator found)
    (validateDelegationMsg_amount_pos valid) hdelegate).2

theorem handleMsgUndelegate_shares {msg : MsgUndelegate} (hs : Shares w.store)
    (hst : Structural w.store) (valid : msg.validateBasic = none)
    (h : k.handleMsgUndelegate ctx w msg = .ok w') : Shares w'.store := by
  obtain ⟨shares, completionTime, hshares, hundelegate⟩ := handleMsgUndelegate_store h
  exact undelegate_shares hs hst
    (validateUnbondAmount_nonneg hs (validateDelegationMsg_amount_pos valid) hshares) hundelegate

theorem handleMsgBeginRedelegate_shares {msg : MsgBeginRedelegate} (hs : Shares w.store)
    (hst : Structural w.store) (valid : msg.validateBasic = none)
    (h : k.handleMsgBeginRedelegate ctx w msg = .ok w') : Shares w'.store := by
  obtain ⟨shares, completionTime, hshares, hredelegate⟩ := handleMsgBeginRedelegate_store h
  exact beginRedelegation_shares hs hst
    (validateUnbondAmount_nonneg hs (validateDelegationMsg_amount_pos valid) hshares) hredelegate

/-- Every successful event keeps the invariant, in a store with the structure of
`Structural`. -/
theorem applyEvent_shares {e : Event} (hs : Shares w.store) (hst : Structural w.store)
    (h : k.applyEvent ctx w e = .ok w') : Shares w'.store := by
  cases e with
  | deliver msg =>
    dsimp only [applyEvent] at h
    split at h
    · exact absurd h Fallible.throw_ne_ok
    · next valid =>
      cases msg with
      | createValidator msg => exact handleMsgCreateValidator_shares hs valid h
      | editValidator msg => exact handleMsgEditValidator_shares hs hst h
      | delegate msg => exact handleMsgDelegate_shares hs hst valid h
      | beginRedelegate msg => exact handleMsgBeginRedelegate_shares hs hst valid h
      | undelegate msg => exact handleMsgUndelegate_shares hs hst valid h
  | endBlock =>
    obtain ⟨⟨w₁, updates⟩, hend, rfl⟩ := Fallible.map_eq_ok.mp h
    exact (endBlocker_preserves endBlockClosed_shares ⟨hs, hst⟩ hend).1
  | slash consAddr infractionHeight power slashFactor => exact slash_shares hs hst h
  | jail consAddr => exact jail_shares hs hst h
  | unjail consAddr => exact unjail_shares hs hst h

end SharesHandlers

end Keeper

theorem Shares.empty (params : Params) : Shares (Store.empty params) where
  keyed _ _ found := by cases found
  positive _ _ found := by cases found
  stored _ _ found := by cases found
  sum _ _ found := by cases found
  backed _ _ found := by cases found
  sharesDst _ _ found := by cases found

/-- Every reachable store has `Shares`. -/
theorem Reachable.shares {τ : Type} {k : Keeper τ} {w : World τ} (reach : Reachable k w) :
    Shares w.store := by
  have both := reach.store_induction (fun s => Shares s ∧ Structural s)
    (fun params => ⟨Shares.empty params, Structural.empty params⟩)
    fun _ _ _ _ hP h => ⟨Keeper.applyEvent_shares hP.1 hP.2 h, Keeper.applyEvent_structural hP.2 h⟩
  exact both.1

/-! ## What invariants.go computes -/

namespace Shares

variable {s : Store}

/-- `PositiveDelegationInvariant` counts no delegation. -/
theorem positiveDelegationInvariant_eq (h : Shares s) : positiveDelegationInvariant s = (0, false) := by
  have none_counted : ∀ c, ∀ delegation ∈ s.getAllDelegations,
      c + (if delegation.shares.isNegative then 1 else 0) +
        (if delegation.shares.isZero then 1 else 0) = c := by
    intro c delegation mem
    obtain ⟨e, stored, rfl⟩ := List.mem_map.mp mem
    have pos := h.positive e.1 e.2 (SortedMap.find?_of_mem stored)
    rw [if_neg (by unfold Dec.isNegative; omega), if_neg (by unfold Dec.isZero; omega)]
    rfl
  unfold positiveDelegationInvariant
  rw [List.foldl_ext _ (fun c _ => c) 0 none_counted, List.foldl_fixed' (fun _ => rfl)]
  rfl

/-- Adding up the shares of the delegations to `a` in key order is the sum over the store. -/
theorem foldl_shares (a : ValAddress) (c : Dec) :
    ∀ l : List (DVKey × Delegation),
      ((l.map Prod.snd).filter fun delegation => delegation.validatorAddress = a).foldl
          (fun total delegation => total + delegation.shares) c =
        c + SortedMap.sumEntries (fun _ d => if d.validatorAddress = a then d.shares else 0) l
  | [] => by simp [SortedMap.sumEntries]
  | e :: l => by
    by_cases named : e.2.validatorAddress = a
    · simp [named, SortedMap.sumEntries_cons, foldl_shares a (c + e.2.shares) l, add_assoc]
    · simp [named, SortedMap.sumEntries_cons, foldl_shares a c l]

/-- `DelegatorSharesInvariant` finds every validator's shares equal to those of its
delegations. -/
theorem delegatorSharesInvariant_eq (h : Shares s) (hst : Structural s) :
    delegatorSharesInvariant s = false := by
  have agree : ∀ broken, ∀ validator ∈ s.getAllValidators,
      (broken || decide (validator.delegatorShares ≠
        (s.getValidatorDelegations validator.operatorAddress).foldl
          (fun total delegation => total + delegation.shares) 0)) = broken := by
    intro broken validator mem
    obtain ⟨e, stored, rfl⟩ := List.mem_map.mp mem
    have found := SortedMap.find?_of_mem stored
    have address := hst.keyed e.1 e.2 found
    have total := foldl_shares e.2.operatorAddress 0 s.delegations.entries
    rw [zero_add] at total
    have same : e.2.delegatorShares = SortedMap.sumEntries
        (fun _ d => if d.validatorAddress = e.1 then d.shares else 0) s.delegations.entries :=
      h.sum _ _ found
    rw [Store.getValidatorDelegations, Store.getAllDelegations, total, address, ← same]
    simp
  unfold delegatorSharesInvariant
  rw [List.foldl_ext _ (fun broken _ => broken) false agree, List.foldl_fixed' (fun _ => rfl)]

end Shares

/-- In every reachable world neither `PositiveDelegationInvariant` nor `DelegatorSharesInvariant`
is broken, and every validator's tokens are covered by its shares, so that a validator without
shares has no tokens. -/
theorem delegation_invariants_hold {τ : Type} {k : Keeper τ} {w : World τ} (reach : Reachable k w) :
    positiveDelegationInvariant w.store = (0, false) ∧ delegatorSharesInvariant w.store = false ∧
      ∀ a v, w.store.getValidator a = some v → 0 ≤ v.tokens ∧ v.tokens ≤ v.delegatorShares.int := by
  have hs := reach.shares
  refine ⟨hs.positiveDelegationInvariant_eq, hs.delegatorSharesInvariant_eq reach.structural,
    fun a v found => ?_⟩
  have backed := hs.backed a v found
  exact ⟨backed.nonneg, backed.le_shares⟩

open RemovedDestination in
theorem delegation_invariants_hold_two_validators :
    ∃ w, Reachable (Keeper.withoutHooks pools) w ∧
      (w.store.getValidator [10]).isSome ∧ (w.store.getValidator [20]).isSome ∧
      (w.store.getDelegation [10] [10]).isSome ∧ (w.store.getDelegation [30] [10]).isSome ∧
      (positiveDelegationInvariant w.store = (0, false) ∧ delegatorSharesInvariant w.store = false ∧
        ∀ a v, w.store.getValidator a = some v → 0 ≤ v.tokens ∧ v.tokens ≤ v.delegatorShares.int) := by
  obtain ⟨w, reach, first, second, self, delegated⟩ := reachable_two_validators
  exact ⟨w, reach, first, second, self, delegated, delegation_invariants_hold reach⟩

end Staking

end Pocc
