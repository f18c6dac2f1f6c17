import Pocc.Staking.Chain

/-!
# The structure of the staking store

What the keeper keeps true of its validator records from one write to the next:

* `Structural`: the records are keyed by operator address; the power index has, for each
  non-jailed validator, its key `GetValidatorsByPowerIndexKey` with its address, and no other
  entry; every commission is within the bounds `CommissionRates.Validate` checks; every
  redelegation is keyed and runs between two distinct validators;
* `Store.Evolves s s'`: every validator of `s'` was already in `s` under its address, with the
  same configuration (consensus address, commission, minimum self-delegation, creation time,
  description): only `MsgCreateValidator` and `MsgEditValidator` set those.

Each is proved here for the writes the keeper makes, when the validator written over is the
record stored at its address. The keeper always writes over the record it read; that the
record is still the stored one when it writes is what the proofs of the keeper's functions,
in `Pocc/Staking/PowerIndex`, check.
-/

namespace Pocc

namespace Staking

/-! ## Reading the validators after each write -/

namespace Store

variable (s : Store)

@[simp] theorem getValidator_setValidator (v : Validator) (a : ValAddress) :
    (s.setValidator v).getValidator a = if v.operatorAddress = a then some v else s.getValidator a := by
  simp only [getValidator, setValidator, SortedMap.find?_insert]
  -- the two conditions differ only in their decidability instances
  congr

@[simp] theorem getValidator_deleteValidatorByPowerIndex (v : Validator) (a : ValAddress) :
    (s.deleteValidatorByPowerIndex v).getValidator a = s.getValidator a := rfl

@[simp] theorem getValidator_setNewValidatorByPowerIndex (v : Validator) (a : ValAddress) :
    (s.setNewValidatorByPowerIndex v).getValidator a = s.getValidator a := rfl

@[simp] theorem getValidator_setValidatorByPowerIndex (v : Validator) (a : ValAddress) :
    (s.setValidatorByPowerIndex v).getValidator a = s.getValidator a := by
  unfold setValidatorByPowerIndex
  split <;> rfl

@[simp] theorem getValidator_setValidatorByConsAddr (v : Validator) (a : ValAddress) :
    (s.setValidatorByConsAddr v).getValidator a = s.getValidator a := rfl

@[simp] theorem getValidator_deleteValidator (a b : ValAddress) (v : Validator) :
    (s.deleteValidator a v).getValidator b = if a = b then none else s.getValidator b := by
  simp only [getValidator, deleteValidator, SortedMap.find?_erase]
  congr

theorem getValidator_updateValidator (v v' : Validator) (a : ValAddress) :
    (s.updateValidator v v').getValidator a =
      if v'.operatorAddress = a then some v' else s.getValidator a := by
  simp [updateValidator]

/-- `updateValidator` writes the records and the power index only. -/
@[simp] theorem redelegations_updateValidator (v v' : Validator) :
    (s.updateValidator v v').redelegations = s.redelegations := by
  unfold updateValidator setValidatorByPowerIndex
  split <;> rfl

/-- The power index after `updateValidator`: the key of the new record if it is not jailed,
none at the key of the old one, the rest as before. -/
theorem find?_validatorsByPower_updateValidator (v v' : Validator) (key : PowerKey) :
    (s.updateValidator v v').validatorsByPower.find? key =
      if v'.jailed = false ∧ powerIndexKey v' = key then some v'.operatorAddress
      else if powerIndexKey v = key then none else s.validatorsByPower.find? key := by
  unfold updateValidator setValidatorByPowerIndex
  split
  · next jailed =>
    simp [deleteValidatorByPowerIndex, setValidator, jailed]
  · next notJailed =>
    simp only [setNewValidatorByPowerIndex, deleteValidatorByPowerIndex, setValidator,
      SortedMap.find?_insert, SortedMap.find?_erase, Bool.not_eq_true] at notJailed ⊢
    simp only [notJailed, true_and]
    congr

/-- `jailValidator`'s writes are an `updateValidator`: the key it deletes, computed from the
jailed record, is that of the record read, since the key does not read the jail flag. -/
theorem jail_eq_updateValidator (v : Validator) :
    (s.setValidator { v with jailed := true }).deleteValidatorByPowerIndex
      { v with jailed := true } = s.updateValidator v { v with jailed := true } := rfl

end Store

/-- The power-index key names its validator's address. -/
theorem operatorAddress_eq_of_powerIndexKey_eq {v v' : Validator}
    (h : powerIndexKey v = powerIndexKey v') : v.operatorAddress = v'.operatorAddress := by
  have flipped := congrArg (fun key => (ofLex key).2) h
  simp only [powerIndexKey, ofLex_toLex] at flipped
  exact List.map_injective_iff.mpr (fun a b hab => by simpa using congrArg (~~~·) hab) flipped

/-! ## Commission bounds -/

/-- The bounds `CommissionRates.Validate` checks. -/
def CommissionRates.Bounded (c : CommissionRates) : Prop :=
  0 ≤ c.rate ∧ c.rate ≤ c.maxRate ∧ c.maxRate ≤ Dec.oneDec ∧ 0 ≤ c.maxChangeRate ∧
    c.maxChangeRate ≤ c.maxRate

theorem CommissionRates.bounded_of_validate {c : CommissionRates} (h : c.validate = none) :
    c.Bounded := by
  unfold validate at h
  split_ifs at h with maxNeg maxHuge rateNeg rateHigh changeNeg changeHigh
  exact ⟨not_lt.mp rateNeg, not_lt.mp rateHigh, not_lt.mp maxHuge, not_lt.mp changeNeg,
    not_lt.mp changeHigh⟩

/-- A new rate that `ValidateNewRate` accepts keeps the bounds. -/
theorem Commission.bounded_of_validateNewRate {c : Commission} {newRate : Dec} {blockTime : Int}
    (bounded : c.Bounded) (h : c.validateNewRate newRate blockTime = none) :
    ({ c with rate := newRate, updateTime := blockTime } : Commission).Bounded := by
  unfold validateNewRate at h
  split_ifs at h with early rateNeg rateHigh changeHigh
  obtain ⟨-, -, maxLe, changeNonneg, changeLe⟩ := bounded
  exact ⟨not_lt.mp rateNeg, not_lt.mp rateHigh, maxLe, changeNonneg, changeLe⟩

/-! ## The invariant -/

/-- What the keeper keeps true of the validator records, the power index and the
redelegations. -/
structure Structural (s : Store) : Prop where
  keyed : ∀ a v, s.getValidator a = some v → v.operatorAddress = a
  indexed : ∀ a v, s.getValidator a = some v → v.jailed = false →
    s.validatorsByPower.find? (powerIndexKey v) = some a
  sound : ∀ key a, s.validatorsByPower.find? key = some a →
    ∃ v, s.getValidator a = some v ∧ v.jailed = false ∧ powerIndexKey v = key
  commission : ∀ a v, s.getValidator a = some v → v.commission.Bounded
  redelegations : ∀ key red, s.redelegations.find? key = some red →
    key = dvvKey red.delegatorAddress red.validatorSrcAddress red.validatorDstAddress ∧
      red.validatorSrcAddress ≠ red.validatorDstAddress

/-- What only `MsgCreateValidator` and `MsgEditValidator` set. -/
def Validator.config (v : Validator) : ConsAddress × Commission × Int × Int × Description :=
  (v.consAddress, v.commission, v.minSelfDelegation, v.createTime, v.description)

/-- Every validator of `s'` was in `s` under the same address, with the same configuration. -/
def Store.Evolves (s s' : Store) : Prop :=
  ∀ a v', s'.getValidator a = some v' → ∃ v, s.getValidator a = some v ∧ v'.config = v.config

theorem Store.Evolves.refl (s : Store) : s.Evolves s := fun _ v' h => ⟨v', h, rfl⟩

theorem Store.Evolves.trans {s₁ s₂ s₃ : Store} (h₁₂ : s₁.Evolves s₂) (h₂₃ : s₂.Evolves s₃) :
    s₁.Evolves s₃ := by
  intro a v₃ found₃
  obtain ⟨v₂, found₂, config₂⟩ := h₂₃ a v₃ found₃
  obtain ⟨v₁, found₁, config₁⟩ := h₁₂ a v₂ found₂
  exact ⟨v₁, found₁, config₂.trans config₁⟩

theorem Store.evolves_of_validators_eq {s s' : Store} (h : s'.validators = s.validators) :
    s.Evolves s' := fun a v' found => ⟨v', by rwa [Store.getValidator, h] at found, rfl⟩

namespace Structural

variable {s : Store}

/-- A write to what the invariant does not read keeps it. -/
theorem of_eq (h : Structural s) {s' : Store} (validators : s'.validators = s.validators)
    (byPower : s'.validatorsByPower = s.validatorsByPower)
    (redelegations : s'.redelegations = s.redelegations) : Structural s' where
  keyed a v found := h.keyed a v (by rwa [Store.getValidator, validators] at found)
  indexed a v found notJailed := by
    rw [byPower]
    exact h.indexed a v (by rwa [Store.getValidator, validators] at found) notJailed
  sound key a found := by
    rw [byPower] at found
    simpa only [Store.getValidator, validators] using h.sound key a found
  commission a v found := h.commission a v (by rwa [Store.getValidator, validators] at found)
  redelegations key red found := h.redelegations key red (by rwa [redelegations] at found)

/-- The record stored at an address is the one of its key in the index, if not jailed. -/
theorem find?_powerIndexKey (h : Structural s) {a : ValAddress} {v : Validator}
    (found : s.getValidator a = some v) (key : PowerKey) (hkey : powerIndexKey v = key) :
    s.validatorsByPower.find? key = if v.jailed = false then some a else none := by
  split
  · next notJailed => exact hkey ▸ h.indexed a v found notJailed
  · next jailed =>
    cases hfind : s.validatorsByPower.find? key with
    | none => rfl
    | some a' =>
      -- an entry at the key of `v` names `v`'s address, whose record is `v`, jailed
      obtain ⟨v', found', notJailed', hkey'⟩ := h.sound key a' hfind
      have same : a' = a := by
        rw [← h.keyed a' v' found', ← h.keyed a v found]
        exact operatorAddress_eq_of_powerIndexKey_eq (hkey'.trans hkey.symm)
      subst same
      rw [found] at found'
      cases found'
      exact absurd notJailed' jailed

/-- `updateValidator` over the stored record keeps the invariant. -/
theorem updateValidator (h : Structural s) {v v' : Validator}
    (current : s.getValidator v.operatorAddress = some v)
    (address : v'.operatorAddress = v.operatorAddress) (bounded : v'.commission.Bounded) :
    Structural (s.updateValidator v v') where
  keyed a u found := by
    rw [Store.getValidator_updateValidator] at found
    split at found
    · next here =>
      cases found
      exact here
    · exact h.keyed a u found
  indexed a u found notJailed := by
    rw [Store.getValidator_updateValidator] at found
    rw [Store.find?_validatorsByPower_updateValidator]
    split at found
    · next here =>
      cases found
      simp [notJailed, here]
    · next elsewhere =>
      -- another validator's key is neither the new key nor the old one
      have ne : ∀ x : Validator, x.operatorAddress = v.operatorAddress →
          powerIndexKey x ≠ powerIndexKey u := fun x hx same => elsewhere (by
            rw [address, ← hx, operatorAddress_eq_of_powerIndexKey_eq same]
            exact h.keyed a u found)
      rw [if_neg (fun both => ne v' address both.2), if_neg (ne v rfl)]
      exact h.indexed a u found notJailed
  sound key a found := by
    rw [Store.find?_validatorsByPower_updateValidator] at found
    split at found
    · next fresh =>
      cases found
      exact ⟨v', Store.getValidator_updateValidator s v v' _ ▸ if_pos rfl, fresh.1, fresh.2⟩
    · split at found
      · cases found
      · next notOld =>
        obtain ⟨u, stored, notJailed, hkey⟩ := h.sound key a found
        -- the old record's address is not `a`, since its key is not `key`
        have elsewhere : v'.operatorAddress ≠ a := by
          intro here
          rw [address] at here
          subst here
          rw [current] at stored
          cases stored
          exact notOld hkey
        refine ⟨u, ?_, notJailed, hkey⟩
        rw [Store.getValidator_updateValidator, if_neg elsewhere]
        exact stored
  commission a u found := by
    rw [Store.getValidator_updateValidator] at found
    split at found
    · cases found
      exact bounded
    · exact h.commission a u found
  redelegations key red found := by
    rw [Store.redelegations_updateValidator] at found
    exact h.redelegations key red found

/-- Storing a record with the key and jail flag of the stored one is an `updateValidator`. -/
theorem setValidator_eq_updateValidator (h : Structural s) {v v' : Validator}
    (current : s.getValidator v.operatorAddress = some v)
    (address : v'.operatorAddress = v.operatorAddress) (key : powerIndexKey v' = powerIndexKey v)
    (jailed : v'.jailed = v.jailed) : s.setValidator v' = s.updateValidator v v' := by
  -- the index entry deleted is the one written back
  have byPower : (s.updateValidator v v').validatorsByPower = s.validatorsByPower := by
    refine SortedMap.ext fun k => ?_
    rw [Store.find?_validatorsByPower_updateValidator]
    by_cases hk : powerIndexKey v = k
    · rw [h.find?_powerIndexKey current k hk]
      subst hk
      simp [key, jailed, address]
    · have hk' : powerIndexKey v' ≠ k := key ▸ hk
      simp [hk, hk']
  calc s.setValidator v'
      = { s.updateValidator v v' with validatorsByPower := s.validatorsByPower } := by
        unfold Store.updateValidator Store.setValidatorByPowerIndex
        split <;> rfl
    _ = { s.updateValidator v v' with
          validatorsByPower := (s.updateValidator v v').validatorsByPower } := by rw [byPower]
    _ = s.updateValidator v v' := rfl

/-- A jailed record has no entry in the index, so deleting its key writes nothing. -/
theorem deleteValidatorByPowerIndex_of_jailed (h : Structural s) {v : Validator}
    (current : s.getValidator v.operatorAddress = some v) (jailed : v.jailed = true) :
    s.deleteValidatorByPowerIndex v = s := by
  have absent := h.find?_powerIndexKey current (powerIndexKey v) rfl
  rw [if_neg (by simp [jailed])] at absent
  suffices byPower : s.validatorsByPower.erase (powerIndexKey v) = s.validatorsByPower by
    simp only [Store.deleteValidatorByPowerIndex, byPower]
  refine SortedMap.ext fun k => ?_
  rw [SortedMap.find?_erase]
  split
  · next same => rw [← same, absent]
  · rfl

/-- `unjailValidator`'s writes over the stored jailed record are an `updateValidator`. -/
theorem unjail_eq_updateValidator (h : Structural s) {v : Validator}
    (current : s.getValidator v.operatorAddress = some v) (jailed : v.jailed = true) :
    (s.setValidator { v with jailed := false }).setValidatorByPowerIndex { v with jailed := false } =
      s.updateValidator v { v with jailed := false } := by
  rw [Store.updateValidator, h.deleteValidatorByPowerIndex_of_jailed current jailed]

/-- `RemoveValidator`'s deletions of the stored record keep the invariant. -/
theorem deleteValidator (h : Structural s) {a : ValAddress} {v : Validator}
    (found : s.getValidator a = some v) : Structural (s.deleteValidator a v) where
  keyed b u found' := by
    rw [Store.getValidator_deleteValidator] at found'
    split at found'
    · cases found'
    · exact h.keyed b u found'
  indexed b u found' notJailed := by
    rw [Store.getValidator_deleteValidator] at found'
    split at found'
    · cases found'
    · next other =>
      -- `u` is stored at another address, so its key is not the one deleted
      have ne : powerIndexKey v ≠ powerIndexKey u := fun same => other (by
        rw [← h.keyed a v found, ← h.keyed b u found']
        exact operatorAddress_eq_of_powerIndexKey_eq same)
      simp only [Store.deleteValidator, SortedMap.find?_erase, ne, if_false]
      exact h.indexed b u found' notJailed
  sound key b found' := by
    simp only [Store.deleteValidator, SortedMap.find?_erase] at found'
    split at found'
    · cases found'
    · next other =>
      obtain ⟨u, stored, notJailed, hkey⟩ := h.sound key b found'
      -- the entry does not name `a`, whose record `v` has the deleted key
      have ne : a ≠ b := by
        rintro rfl
        rw [found] at stored
        cases stored
        exact other hkey
      exact ⟨u, by rwa [Store.getValidator_deleteValidator, if_neg ne], notJailed, hkey⟩
  commission b u found' := by
    rw [Store.getValidator_deleteValidator] at found'
    split at found'
    · cases found'
    · exact h.commission b u found'
  redelegations := h.redelegations

/-- `MsgCreateValidator`'s writes of a new, unjailed validator keep the invariant. -/
theorem create (h : Structural s) {v : Validator} (fresh : s.getValidator v.operatorAddress = none)
    (notJailed : v.jailed = false) (bounded : v.commission.Bounded) :
    Structural (((s.setValidator v).setValidatorByConsAddr v).setNewValidatorByPowerIndex v) where
  keyed a u found := by
    simp only [Store.getValidator_setNewValidatorByPowerIndex,
      Store.getValidator_setValidatorByConsAddr, Store.getValidator_setValidator] at found
    split at found
    · next here =>
      cases found
      exact here
    · exact h.keyed a u found
  indexed a u found notJailed' := by
    simp only [Store.getValidator_setNewValidatorByPowerIndex,
      Store.getValidator_setValidatorByConsAddr, Store.getValidator_setValidator] at found
    simp only [Store.setNewValidatorByPowerIndex, SortedMap.find?_insert]
    split at found
    · next here =>
      cases found
      simp [here]
    · next other =>
      have ne : powerIndexKey v ≠ powerIndexKey u := fun same => other (by
        rw [← h.keyed a u found]
        exact operatorAddress_eq_of_powerIndexKey_eq same)
      rw [if_neg ne]
      exact h.indexed a u found notJailed'
  sound key a found := by
    simp only [Store.setNewValidatorByPowerIndex, SortedMap.find?_insert] at found
    simp only [Store.getValidator_setNewValidatorByPowerIndex,
      Store.getValidator_setValidatorByConsAddr, Store.getValidator_setValidator]
    split at found
    · next here =>
      cases found
      exact ⟨v, by simp, notJailed, here⟩
    · obtain ⟨u, stored, notJailed', hkey⟩ := h.sound key a found
      -- the entry names a stored validator, so not the new one
      have ne : v.operatorAddress ≠ a := by
        rintro rfl
        rw [fresh] at stored
        cases stored
      exact ⟨u, by rwa [if_neg ne], notJailed', hkey⟩
  commission a u found := by
    simp only [Store.getValidator_setNewValidatorByPowerIndex,
      Store.getValidator_setValidatorByConsAddr, Store.getValidator_setValidator] at found
    split at found
    · cases found
      exact bounded
    · exact h.commission a u found
  redelegations := h.redelegations

/-- Writing a redelegation under its own key, between two distinct validators, keeps the
invariant. -/
theorem setRedelegation (h : Structural s) {red : Redelegation}
    (distinct : red.validatorSrcAddress ≠ red.validatorDstAddress) :
    Structural (s.setRedelegation red) where
  keyed := h.keyed
  indexed := h.indexed
  sound := h.sound
  commission := h.commission
  redelegations key red' found := by
    simp only [Store.setRedelegation, SortedMap.find?_insert] at found
    split at found
    · next here =>
      cases found
      exact ⟨here.symm, distinct⟩
    · exact h.redelegations key red' found

theorem removeRedelegation (h : Structural s) (red : Redelegation) :
    Structural (s.removeRedelegation red) where
  keyed := h.keyed
  indexed := h.indexed
  sound := h.sound
  commission := h.commission
  redelegations key red' found := by
    simp only [Store.removeRedelegation, SortedMap.find?_erase] at found
    split at found
    · cases found
    · exact h.redelegations key red' found

/-- A stored redelegation with other entries is still keyed and between distinct validators. -/
theorem redelegation_entries (h : Structural s) {delAddr : AccAddress}
    {valSrcAddr valDstAddr : ValAddress} {red : Redelegation}
    (found : s.getRedelegation delAddr valSrcAddr valDstAddr = some red)
    (entries : List RedelegationEntry) :
    Structural (s.setRedelegation { red with entries := entries }) :=
  h.setRedelegation (h.redelegations _ red found).2

/-- `SetRedelegationEntry` between two distinct validators keeps the invariant. -/
theorem setRedelegationEntry (h : Structural s) {delAddr : AccAddress}
    {valSrcAddr valDstAddr : ValAddress} (distinct : valSrcAddr ≠ valDstAddr)
    (creationHeight minTime balance : Int) (sharesDst : Dec) :
    Structural (s.setRedelegationEntry delAddr valSrcAddr valDstAddr creationHeight minTime
      balance sharesDst).1 := by
  unfold Store.setRedelegationEntry
  split
  · next red found => exact h.redelegation_entries found _
  · exact h.setRedelegation distinct

end Structural

/-! ## What a keeper function keeps -/

/-- What a change of a validator's tokens, shares, status or jail flag keeps of it. -/
structure Validator.Retains (v v' : Validator) : Prop where
  address : v'.operatorAddress = v.operatorAddress
  config : v'.config = v.config

theorem Validator.Retains.commission {v v' : Validator} (r : v.Retains v') :
    v'.commission = v.commission :=
  congrArg (fun config => config.2.1) r.config

/-- What a keeper function keeps from the store it is given to the store it leaves. -/
structure Store.Keeps (s s' : Store) : Prop where
  structural : Structural s'
  evolves : s.Evolves s'

namespace Store.Keeps

variable {s₁ s₂ s₃ : Store}

theorem refl (h : Structural s₁) : s₁.Keeps s₁ := ⟨h, Evolves.refl s₁⟩

theorem trans (h₁₂ : s₁.Keeps s₂) (h₂₃ : s₂.Keeps s₃) : s₁.Keeps s₃ :=
  ⟨h₂₃.structural, h₁₂.evolves.trans h₂₃.evolves⟩

/-- A write to what neither part reads. -/
theorem frame (h : s₁.Keeps s₂) {s₃ : Store} (validators : s₃.validators = s₂.validators)
    (byPower : s₃.validatorsByPower = s₂.validatorsByPower)
    (redelegations : s₃.redelegations = s₂.redelegations) : s₁.Keeps s₃ :=
  h.trans ⟨h.structural.of_eq validators byPower redelegations,
    evolves_of_validators_eq validators⟩

end Store.Keeps

namespace Structural

variable {s : Store}

theorem keeps_updateValidator (h : Structural s) {v v' : Validator}
    (current : s.getValidator v.operatorAddress = some v) (r : v.Retains v') :
    s.Keeps (s.updateValidator v v') := by
  refine ⟨h.updateValidator current r.address
    (r.commission ▸ h.commission _ v current), ?_⟩
  intro a u found
  rw [Store.getValidator_updateValidator] at found
  split at found
  · next here =>
    cases found
    exact ⟨v, by rwa [← here, r.address], r.config⟩
  · exact ⟨u, found, rfl⟩

theorem keeps_deleteValidator (h : Structural s) {a : ValAddress} {v : Validator}
    (found : s.getValidator a = some v) : s.Keeps (s.deleteValidator a v) := by
  refine ⟨h.deleteValidator found, ?_⟩
  intro b u found'
  rw [Store.getValidator_deleteValidator] at found'
  split at found'
  · cases found'
  · exact ⟨u, found', rfl⟩

end Structural

end Staking

end Pocc
