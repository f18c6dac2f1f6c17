import Pocc.Distribution.Keeper
import Mathlib

/-!
# Reference counts of the historical rewards

validator.go keeps, in each historical record of a validator's rewards, the number of things
that refer to it: the validator's current rewards refer to the period before theirs, a
delegation's starting info to the period it started after, a slash event to the period it
ended. A record is deleted when its count reaches zero.

`Accounted` states that every count is the number of references to its record
(`Store.references`), with what keeps this true from one write to the next: current periods are
positive, and every starting info and slash event refers to a period before the current one of
its validator. The record a new period writes is then one nothing refers to yet, and the key of
a new slash event is free.

Results:
1. `Accounted.total`: the counts add up to the number of current rewards, starting infos and
   slash events, the sum `ReferenceCountInvariant` expects.
2. One lemma per function of validator.go and delegation.go and per hook that writes the
   records, each keeping `Accounted` and saying which keys it adds or deletes:
   `Accounted.initializeValidator`, `Accounted.incrementValidatorPeriod`,
   `Accounted.initializeDelegation`, `Accounted.withdrawDelegationRewards`,
   `Accounted.updateValidatorSlashFraction`, `Accounted.afterValidatorRemoved`, and
   `Accounted.of_periods` for the writes that leave the periods alone.
-/

namespace Pocc

namespace Distribution

open Staking (Header World HookCall)

/-- The record the current rewards of `val` refer to: the period before them. -/
def currentRef (val : ValAddress) (current : ValidatorCurrentRewards) : PeriodKey :=
  toLex (val, current.period - 1)

/-- The record a starting info refers to: the period of its validator the delegation started
after. -/
def startRef (key : StartingInfoKey) (info : DelegatorStartingInfo) : PeriodKey :=
  toLex ((ofLex key).1, info.previousPeriod)

/-- The record a slash event refers to: the period of its validator it ended. -/
def slashRef (key : SlashEventKey) : PeriodKey := toLex ((ofLex key).1, (ofLex (ofLex key).2).2)

theorem periodKey_eq_iff {a b : ValAddress} {p q : Nat} :
    (toLex (a, p) : PeriodKey) = toLex (b, q) ↔ a = b ∧ p = q := by
  simp

namespace Store

variable (s : Store)

/-- The number of references to the record of `key`. -/
def references (key : PeriodKey) : Nat :=
  s.rewards.currentRewards.sumBy (fun val current => if currentRef val current = key then 1 else 0) +
    s.delegatorStartingInfos.sumBy (fun k info => if startRef k info = key then 1 else 0) +
    s.slashEvents.sumBy (fun k _ => if slashRef k = key then 1 else 0)

/-- The reference count of the record of `key`, zero if there is none. -/
def referenceCount (key : PeriodKey) : Nat :=
  ((s.historicalRewards.find? key).map ValidatorHistoricalRewards.referenceCount).getD 0

theorem referenceCount_setValidatorHistoricalRewards (val : ValAddress) (period : Nat)
    (rewards : ValidatorHistoricalRewards) (key : PeriodKey) :
    (s.setValidatorHistoricalRewards val period rewards).referenceCount key =
      if toLex (val, period) = key then rewards.referenceCount else s.referenceCount key := by
  unfold referenceCount setValidatorHistoricalRewards
  rw [SortedMap.find?_insert]
  split <;> rfl

theorem referenceCount_deleteValidatorHistoricalReward (val : ValAddress) (period : Nat)
    (key : PeriodKey) :
    (s.deleteValidatorHistoricalReward val period).referenceCount key =
      if toLex (val, period) = key then 0 else s.referenceCount key := by
  unfold referenceCount deleteValidatorHistoricalReward
  rw [SortedMap.find?_erase]
  split <;> rfl

/-! ## The references after a write -/

variable {s} {s' : Store}

/-- Current rewards written for `val`: the reference of the ones they replace moves to the
period before theirs. -/
theorem references_setCurrent {val : ValAddress} {current : ValidatorCurrentRewards}
    (currents : s'.rewards.currentRewards = s.rewards.currentRewards.insert val current)
    (starts : s'.delegatorStartingInfos = s.delegatorStartingInfos)
    (slashes : s'.slashEvents = s.slashEvents) (key : PeriodKey) :
    s'.references key + ((s.rewards.currentRewards.find? val).map
        fun old => if currentRef val old = key then 1 else 0).getD 0 =
      s.references key + if currentRef val current = key then 1 else 0 := by
  have moved : (s.rewards.currentRewards.insert val current).sumBy
      (fun v c => if currentRef v c = key then 1 else 0) +
      ((s.rewards.currentRewards.find? val).map fun old =>
        if currentRef val old = key then 1 else 0).getD 0 =
      s.rewards.currentRewards.sumBy (fun v c => if currentRef v c = key then 1 else 0) +
        if currentRef val current = key then 1 else 0 :=
    SortedMap.sumBy_insert_add _ _ _ _
  unfold references
  rw [currents, starts, slashes]
  omega

/-- The current rewards of `val` deleted. -/
theorem references_eraseCurrent {val : ValAddress}
    (currents : s'.rewards.currentRewards = s.rewards.currentRewards.erase val)
    (starts : s'.delegatorStartingInfos = s.delegatorStartingInfos)
    (slashes : s'.slashEvents = s.slashEvents) (key : PeriodKey) :
    s'.references key + ((s.rewards.currentRewards.find? val).map
        fun old => if currentRef val old = key then 1 else 0).getD 0 = s.references key := by
  have dropped : (s.rewards.currentRewards.erase val).sumBy
      (fun v c => if currentRef v c = key then 1 else 0) +
      ((s.rewards.currentRewards.find? val).map fun old =>
        if currentRef val old = key then 1 else 0).getD 0 =
      s.rewards.currentRewards.sumBy (fun v c => if currentRef v c = key then 1 else 0) :=
    SortedMap.sumBy_erase_add _ _ _
  unfold references
  rw [currents, starts, slashes]
  omega

/-- A starting info written under `k`. -/
theorem references_setStart {k : StartingInfoKey} {info : DelegatorStartingInfo}
    (currents : s'.rewards.currentRewards = s.rewards.currentRewards)
    (starts : s'.delegatorStartingInfos = s.delegatorStartingInfos.insert k info)
    (slashes : s'.slashEvents = s.slashEvents) (key : PeriodKey) :
    s'.references key + ((s.delegatorStartingInfos.find? k).map
        fun old => if startRef k old = key then 1 else 0).getD 0 =
      s.references key + if startRef k info = key then 1 else 0 := by
  have moved : (s.delegatorStartingInfos.insert k info).sumBy
      (fun k' i => if startRef k' i = key then 1 else 0) +
      ((s.delegatorStartingInfos.find? k).map fun old =>
        if startRef k old = key then 1 else 0).getD 0 =
      s.delegatorStartingInfos.sumBy (fun k' i => if startRef k' i = key then 1 else 0) +
        if startRef k info = key then 1 else 0 :=
    SortedMap.sumBy_insert_add _ _ _ _
  unfold references
  rw [currents, starts, slashes]
  omega

/-- The starting info under `k` deleted. -/
theorem references_eraseStart {k : StartingInfoKey}
    (currents : s'.rewards.currentRewards = s.rewards.currentRewards)
    (starts : s'.delegatorStartingInfos = s.delegatorStartingInfos.erase k)
    (slashes : s'.slashEvents = s.slashEvents) (key : PeriodKey) :
    s'.references key + ((s.delegatorStartingInfos.find? k).map
        fun old => if startRef k old = key then 1 else 0).getD 0 = s.references key := by
  have dropped : (s.delegatorStartingInfos.erase k).sumBy
      (fun k' i => if startRef k' i = key then 1 else 0) +
      ((s.delegatorStartingInfos.find? k).map fun old =>
        if startRef k old = key then 1 else 0).getD 0 =
      s.delegatorStartingInfos.sumBy (fun k' i => if startRef k' i = key then 1 else 0) :=
    SortedMap.sumBy_erase_add _ _ _
  unfold references
  rw [currents, starts, slashes]
  omega

/-- A slash event written under `k`. -/
theorem references_setSlash {k : SlashEventKey} {event : ValidatorSlashEvent}
    (currents : s'.rewards.currentRewards = s.rewards.currentRewards)
    (starts : s'.delegatorStartingInfos = s.delegatorStartingInfos)
    (slashes : s'.slashEvents = s.slashEvents.insert k event) (key : PeriodKey) :
    s'.references key + ((s.slashEvents.find? k).map
        fun _ => if slashRef k = key then 1 else 0).getD 0 =
      s.references key + if slashRef k = key then 1 else 0 := by
  have moved : (s.slashEvents.insert k event).sumBy
      (fun k' (_ : ValidatorSlashEvent) => if slashRef k' = key then 1 else 0) +
      ((s.slashEvents.find? k).map fun _ => if slashRef k = key then 1 else 0).getD 0 =
      s.slashEvents.sumBy (fun k' (_ : ValidatorSlashEvent) => if slashRef k' = key then 1 else 0) +
        if slashRef k = key then 1 else 0 :=
    SortedMap.sumBy_insert_add _ _ _ _
  unfold references
  rw [currents, starts, slashes]
  omega

end Store

/-! ## The invariant -/

/-- Every reference count is the number of references to its record; current periods are
positive, and starting infos and slash events refer to periods before the current one of their
validator. -/
structure Accounted (s : Store) : Prop where
  counted : ∀ key, s.referenceCount key = s.references key
  period_pos : ∀ val current, s.rewards.currentRewards.find? val = some current →
    0 < current.period
  startBelow : ∀ key info, s.delegatorStartingInfos.find? key = some info →
    ∃ current, s.rewards.currentRewards.find? (ofLex key).1 = some current ∧
      info.previousPeriod < current.period
  slashBelow : ∀ key event, s.slashEvents.find? key = some event →
    ∃ current, s.rewards.currentRewards.find? (ofLex key).1 = some current ∧
      (ofLex (ofLex key).2).2 < current.period

namespace Accounted

variable {s s' : Store}

/-- Nothing refers to a period of `val` at or past its current one, nor to any period of a
validator without current rewards. -/
theorem references_eq_zero (h : Accounted s) {val : ValAddress} {period : Nat}
    (above : ∀ current, s.rewards.currentRewards.find? val = some current →
      current.period ≤ period) :
    s.references (toLex (val, period)) = 0 := by
  have currents : s.rewards.currentRewards.sumBy
      (fun v c => if currentRef v c = toLex (val, period) then 1 else 0) = 0 := by
    refine SortedMap.sumBy_eq_zero _ fun v c found => if_neg fun same => ?_
    obtain ⟨rfl, hp⟩ := periodKey_eq_iff.mp same
    have := above c found
    have := h.period_pos _ c found
    omega
  have starts : s.delegatorStartingInfos.sumBy
      (fun k info => if startRef k info = toLex (val, period) then 1 else 0) = 0 := by
    refine SortedMap.sumBy_eq_zero _ fun k info found => if_neg fun same => ?_
    obtain ⟨hv, hp⟩ := periodKey_eq_iff.mp same
    obtain ⟨current, hcurrent, below⟩ := h.startBelow k info found
    rw [hv] at hcurrent
    have := above current hcurrent
    omega
  have slashes : s.slashEvents.sumBy
      (fun k (_ : ValidatorSlashEvent) => if slashRef k = toLex (val, period) then 1 else 0) = 0 := by
    refine SortedMap.sumBy_eq_zero _ fun k event found => if_neg fun same => ?_
    obtain ⟨hv, hp⟩ := periodKey_eq_iff.mp same
    obtain ⟨current, hcurrent, below⟩ := h.slashBelow k event found
    rw [hv] at hcurrent
    have := above current hcurrent
    omega
  unfold Store.references
  rw [currents, starts, slashes]

/-- A write that keeps every starting info and slash event it does not drop, and moves no
current period back, keeps them below the current periods. -/
theorem startBelow_of_grow (h : Accounted s)
    (grow : ∀ val current, s.rewards.currentRewards.find? val = some current →
      ∃ current', s'.rewards.currentRewards.find? val = some current' ∧
        current.period ≤ current'.period)
    (starts : ∀ key info, s'.delegatorStartingInfos.find? key = some info →
      s.delegatorStartingInfos.find? key = some info) :
    ∀ key info, s'.delegatorStartingInfos.find? key = some info →
      ∃ current, s'.rewards.currentRewards.find? (ofLex key).1 = some current ∧
        info.previousPeriod < current.period := by
  intro key info found
  obtain ⟨current, hcurrent, below⟩ := h.startBelow key info (starts key info found)
  obtain ⟨current', hcurrent', le⟩ := grow _ current hcurrent
  exact ⟨current', hcurrent', by omega⟩

theorem slashBelow_of_grow (h : Accounted s)
    (grow : ∀ val current, s.rewards.currentRewards.find? val = some current →
      ∃ current', s'.rewards.currentRewards.find? val = some current' ∧
        current.period ≤ current'.period)
    (slashes : ∀ key event, s'.slashEvents.find? key = some event →
      s.slashEvents.find? key = some event) :
    ∀ key event, s'.slashEvents.find? key = some event →
      ∃ current, s'.rewards.currentRewards.find? (ofLex key).1 = some current ∧
        (ofLex (ofLex key).2).2 < current.period := by
  intro key event found
  obtain ⟨current, hcurrent, below⟩ := h.slashBelow key event (slashes key event found)
  obtain ⟨current', hcurrent', le⟩ := grow _ current hcurrent
  exact ⟨current', hcurrent', by omega⟩

/-- A write that leaves the current rewards as they are keeps their periods positive and
moves none back. -/
theorem period_pos_of_eq (h : Accounted s)
    (currents : s'.rewards.currentRewards = s.rewards.currentRewards) :
    ∀ val current, s'.rewards.currentRewards.find? val = some current → 0 < current.period :=
  fun val current found => h.period_pos val current (by rwa [currents] at found)

theorem grow_of_eq (currents : s'.rewards.currentRewards = s.rewards.currentRewards) :
    ∀ val current, s.rewards.currentRewards.find? val = some current →
      ∃ current', s'.rewards.currentRewards.find? val = some current' ∧
        current.period ≤ current'.period :=
  fun _ current found => ⟨current, by rw [currents]; exact found, le_rfl⟩

/-- The counts stay exact when they and the references move by the same amounts. -/
theorem counted_of_change (h : Accounted s) (X Y : PeriodKey → Nat)
    (counts : ∀ key, s'.referenceCount key + X key = s.referenceCount key + Y key)
    (refs : ∀ key, s'.references key + X key = s.references key + Y key) (key : PeriodKey) :
    s'.referenceCount key = s'.references key := by
  have := counts key
  have := refs key
  have := h.counted key
  omega

end Accounted

/-! ## What each function writes -/

namespace Store

variable {s s' : Store}

theorem getValidatorHistoricalRewards_eq_ok {val : ValAddress} {period : Nat}
    {rewards : ValidatorHistoricalRewards} :
    s.getValidatorHistoricalRewards val period = .ok rewards ↔
      s.historicalRewards.find? (toLex (val, period)) = some rewards := by
  unfold getValidatorHistoricalRewards
  cases s.historicalRewards.find? (toLex (val, period)) <;> simp [RewardsStore.errEmptyBytes]

theorem getDelegatorStartingInfo_eq_ok {val : ValAddress} {del : AccAddress}
    {info : DelegatorStartingInfo} :
    s.getDelegatorStartingInfo val del = .ok info ↔
      s.delegatorStartingInfos.find? (toLex (val, del)) = some info := by
  unfold getDelegatorStartingInfo
  cases s.delegatorStartingInfos.find? (toLex (val, del)) <;> simp [RewardsStore.errEmptyBytes]

/-- `incrementReferenceCount` adds one to the count of a record that exists. -/
theorem incrementReferenceCount_eq {val : ValAddress} {period : Nat}
    (h : s.incrementReferenceCount val period = .ok s') :
    (∀ key, s'.referenceCount key = s.referenceCount key +
      if toLex (val, period) = key then 1 else 0) ∧
      s'.rewards = s.rewards ∧ s'.delegatorStartingInfos = s.delegatorStartingInfos ∧
      s'.slashEvents = s.slashEvents := by
  unfold incrementReferenceCount at h
  obtain ⟨historical, found, h⟩ := Fallible.bind_eq_ok.mp h
  rw [getValidatorHistoricalRewards_eq_ok] at found
  split at h
  · exact absurd h Fallible.throw_ne_ok
  · cases Fallible.pure_eq_ok.mp h
    refine ⟨fun key => ?_, rfl, rfl, rfl⟩
    rw [referenceCount_setValidatorHistoricalRewards]
    split
    · next same => simp [referenceCount, ← same, found]
    · simp

/-- `decrementReferenceCount` takes one off the count of a record that has some, deleting the
record at zero. -/
theorem decrementReferenceCount_eq {val : ValAddress} {period : Nat}
    (h : s.decrementReferenceCount val period = .ok s') :
    (∀ key, s'.referenceCount key + (if toLex (val, period) = key then 1 else 0) =
      s.referenceCount key) ∧
      s'.rewards = s.rewards ∧ s'.delegatorStartingInfos = s.delegatorStartingInfos ∧
      s'.slashEvents = s.slashEvents := by
  unfold decrementReferenceCount at h
  obtain ⟨historical, found, h⟩ := Fallible.bind_eq_ok.mp h
  rw [getValidatorHistoricalRewards_eq_ok] at found
  have count : s.referenceCount (toLex (val, period)) = historical.referenceCount := by
    simp [referenceCount, found]
  split at h
  · exact absurd h Fallible.throw_ne_ok
  · next positive =>
    dsimp only at h
    split at h
    · next last =>
      cases Fallible.pure_eq_ok.mp h
      refine ⟨fun key => ?_, rfl, rfl, rfl⟩
      rw [referenceCount_deleteValidatorHistoricalReward]
      split
      · next same =>
        rw [← same, count]
        omega
      · simp
    · next rest =>
      cases Fallible.pure_eq_ok.mp h
      refine ⟨fun key => ?_, rfl, rfl, rfl⟩
      rw [referenceCount_setValidatorHistoricalRewards]
      split
      · next same =>
        rw [← same, count]
        dsimp only
        omega
      · simp

/-- `incrementValidatorPeriod`: the current period `period` of the validator ends; the count
of the period before it drops by one, the record of `period` is written with one reference,
and the current rewards start period `period + 1`. The branch on the tokens writes the
community pool and the outstanding rewards only. -/
theorem incrementValidatorPeriod_eq {val : Staking.Validator} {period : Nat}
    (h : s.incrementValidatorPeriod val = .ok (s', period)) :
    ∃ (current : ValidatorCurrentRewards) (s₁ : Store) (ratio : DecCoins),
      s.rewards.currentRewards.find? val.operatorAddress = some current ∧
      current.period = period ∧
      (∀ key, s₁.referenceCount key +
        (if toLex (val.operatorAddress, period - 1) = key then 1 else 0) = s.referenceCount key) ∧
      s'.historicalRewards =
        s₁.historicalRewards.insert (toLex (val.operatorAddress, period)) ⟨ratio, 1⟩ ∧
      s'.rewards.currentRewards =
        s.rewards.currentRewards.insert val.operatorAddress ⟨[], period + 1⟩ ∧
      s'.delegatorStartingInfos = s.delegatorStartingInfos ∧ s'.slashEvents = s.slashEvents := by
  unfold incrementValidatorPeriod at h
  obtain ⟨current, found, h⟩ := Fallible.bind_eq_ok.mp h
  rw [RewardsStore.getValidatorCurrentRewards_eq_ok] at found
  obtain ⟨⟨s₀, ratio⟩, branch, h⟩ := Fallible.bind_eq_ok.mp h
  -- both branches leave the records, the current rewards and the references as they were
  obtain ⟨historical₀, currents₀, starts₀, slashes₀⟩ : s₀.historicalRewards = s.historicalRewards ∧
      s₀.rewards.currentRewards = s.rewards.currentRewards ∧
      s₀.delegatorStartingInfos = s.delegatorStartingInfos ∧ s₀.slashEvents = s.slashEvents := by
    split at branch
    · obtain ⟨outstanding, -, branch⟩ := Fallible.bind_eq_ok.mp branch
      obtain ⟨outstanding', -, branch⟩ := Fallible.bind_eq_ok.mp branch
      cases Fallible.pure_eq_ok.mp branch
      exact ⟨rfl, rfl, rfl, rfl⟩
    · obtain ⟨ratio', -, branch⟩ := Fallible.bind_eq_ok.mp branch
      cases Fallible.pure_eq_ok.mp branch
      exact ⟨rfl, rfl, rfl, rfl⟩
  dsimp only at h
  obtain ⟨historical, -, h⟩ := Fallible.bind_eq_ok.mp h
  obtain ⟨s₁, decremented, h⟩ := Fallible.bind_eq_ok.mp h
  obtain ⟨counts₁, rewards₁, starts₁, slashes₁⟩ := decrementReferenceCount_eq decremented
  cases Fallible.pure_eq_ok.mp h
  refine ⟨current, s₁, historical.cumulativeRewardRatio.add ratio, found, rfl,
    fun key => ?_, rfl, ?_, starts₁.trans starts₀, slashes₁.trans slashes₀⟩
  · rw [counts₁ key]
    simp only [referenceCount, historical₀]
  · show s₁.rewards.currentRewards.insert _ _ = _
    rw [rewards₁, currents₀]

/-- `initializeDelegation`: a reference to the period before the current one, then the
starting info that holds it. -/
theorem initializeDelegation_eq {ctx : Header} {staking : Staking.Store} {val : ValAddress}
    {del : AccAddress} (h : s.initializeDelegation ctx staking val del = .ok s') :
    ∃ (current : ValidatorCurrentRewards) (s₁ : Store) (stake : Dec),
      s.rewards.currentRewards.find? val = some current ∧
      s.incrementReferenceCount val (current.period - 1) = .ok s₁ ∧
      s' = s₁.setDelegatorStartingInfo val del ⟨current.period - 1, stake, blockHeight ctx⟩ := by
  unfold initializeDelegation at h
  obtain ⟨current, found, h⟩ := Fallible.bind_eq_ok.mp h
  rw [RewardsStore.getValidatorCurrentRewards_eq_ok] at found
  obtain ⟨s₁, incremented, h⟩ := Fallible.bind_eq_ok.mp h
  cases hval : staking.getValidator val with
  | none =>
    rw [hval] at h
    exact absurd h Fallible.throw_ne_ok
  | some validator =>
    cases hdel : staking.getDelegation del val with
    | none =>
      rw [hval, hdel] at h
      exact absurd h Fallible.throw_ne_ok
    | some delegation =>
      rw [hval, hdel] at h
      obtain ⟨stake, -, h⟩ := Fallible.bind_eq_ok.mp h
      exact ⟨current, s₁, stake, found, incremented, (Fallible.pure_eq_ok.mp h).symm⟩

/-- `updateValidatorSlashFraction` of a stored validator: its period ends, and the slash event
keyed by the height and the period ended holds a new reference to it. -/
theorem updateValidatorSlashFraction_eq {ctx : Header} {staking : Staking.Store}
    {valAddr : ValAddress} {fraction : Dec}
    (h : s.updateValidatorSlashFraction ctx staking valAddr fraction = .ok s') :
    ∃ (val : Staking.Validator) (s₁ s₂ : Store) (period : Nat),
      staking.getValidator valAddr = some val ∧
      s.incrementValidatorPeriod val = .ok (s₁, period) ∧
      s₁.incrementReferenceCount valAddr period = .ok s₂ ∧
      s' = s₂.setValidatorSlashEvent valAddr (blockHeight ctx) period ⟨period, fraction⟩ := by
  unfold updateValidatorSlashFraction at h
  split at h
  · exact absurd h Fallible.throw_ne_ok
  · cases hval : staking.getValidator valAddr with
    | none =>
      rw [hval] at h
      exact absurd h Fallible.throw_ne_ok
    | some val =>
      rw [hval] at h
      obtain ⟨⟨s₁, period⟩, incremented, h⟩ := Fallible.bind_eq_ok.mp h
      obtain ⟨s₂, referenced, h⟩ := Fallible.bind_eq_ok.mp h
      exact ⟨val, s₁, s₂, period, rfl, incremented, referenced, (Fallible.pure_eq_ok.mp h).symm⟩

end Store

/-! ## Each function keeps the counts exact -/

namespace Accounted

variable {s s' : Store}

/-- A write that keeps the records, the starting infos, the slash events, and the keys and
periods of the current rewards: the outstanding rewards, the commission, the community pool,
the rewards of the current period. -/
theorem of_periods (h : Accounted s) (historical : s'.historicalRewards = s.historicalRewards)
    (periods : ∀ val, (s'.rewards.currentRewards.find? val).map ValidatorCurrentRewards.period =
      (s.rewards.currentRewards.find? val).map ValidatorCurrentRewards.period)
    (starts : s'.delegatorStartingInfos = s.delegatorStartingInfos)
    (slashes : s'.slashEvents = s.slashEvents) : Accounted s' := by
  have grow : ∀ val current, s.rewards.currentRewards.find? val = some current →
      ∃ current', s'.rewards.currentRewards.find? val = some current' ∧
        current.period ≤ current'.period := by
    intro val current found
    have same := periods val
    rw [found] at same
    cases found' : s'.rewards.currentRewards.find? val with
    | none =>
      rw [found'] at same
      cases same
    | some current' =>
      rw [found'] at same
      exact ⟨current', rfl, (Option.some.inj same).ge⟩
  -- the references read the current rewards through their periods only
  have currents : ∀ key, s'.rewards.currentRewards.sumBy
      (fun v c => if currentRef v c = key then 1 else 0) =
      s.rewards.currentRewards.sumBy (fun v c => if currentRef v c = key then 1 else 0) := by
    intro key
    have mapped : s'.rewards.currentRewards.mapVal (fun _ c => c.period) =
        s.rewards.currentRewards.mapVal (fun _ c => c.period) :=
      SortedMap.ext fun val => by simpa [SortedMap.find?_mapVal] using periods val
    have summed := congrArg
      (fun m => m.sumBy fun v p => if (toLex (v, p - 1) : PeriodKey) = key then 1 else 0) mapped
    simp only [SortedMap.sumBy_mapVal] at summed
    exact summed
  refine ⟨fun key => ?_, fun val current' found => ?_,
    h.startBelow_of_grow grow fun key info found => by rwa [starts] at found,
    h.slashBelow_of_grow grow fun key event found => by rwa [slashes] at found⟩
  · have refs : s'.references key = s.references key := by
      unfold Store.references
      rw [currents key, starts, slashes]
    rw [refs, ← h.counted key]
    simp only [Store.referenceCount, historical]
  · have same := periods val
    rw [found] at same
    cases found₀ : s.rewards.currentRewards.find? val with
    | none =>
      rw [found₀] at same
      cases same
    | some current =>
      rw [found₀] at same
      rw [Option.some.inj same]
      exact h.period_pos val current found₀

/-- `initializeValidator` of a validator without current rewards: the record of period 0 with
the one reference of the current period 1. -/
theorem initializeValidator (h : Accounted s) {val : Staking.Validator}
    (fresh : s.rewards.currentRewards.find? val.operatorAddress = none) :
    Accounted (s.initializeValidator val) := by
  have currents : (s.initializeValidator val).rewards.currentRewards =
      s.rewards.currentRewards.insert val.operatorAddress ⟨[], 1⟩ := rfl
  have refs := Store.references_setCurrent currents rfl rfl
  have counts : ∀ key, (s.initializeValidator val).referenceCount key =
      if toLex (val.operatorAddress, 0) = key then 1 else s.referenceCount key :=
    s.referenceCount_setValidatorHistoricalRewards val.operatorAddress 0 ⟨[], 1⟩
  have nothing : s.references (toLex (val.operatorAddress, 0)) = 0 :=
    h.references_eq_zero fun current found => by
      rw [fresh] at found
      cases found
  have grow : ∀ v current, s.rewards.currentRewards.find? v = some current →
      ∃ current', (s.initializeValidator val).rewards.currentRewards.find? v = some current' ∧
        current.period ≤ current'.period := by
    intro v current found
    have other : val.operatorAddress ≠ v := by
      rintro rfl
      rw [fresh] at found
      cases found
    exact ⟨current, by rw [currents, SortedMap.find?_insert, if_neg other]; exact found, le_rfl⟩
  refine ⟨h.counted_of_change (fun _ => 0)
      (fun key => if toLex (val.operatorAddress, 0) = key then 1 else 0) (fun key => ?_)
      (fun key => ?_),
    fun v current found => ?_, h.startBelow_of_grow grow fun _ _ found => found,
    h.slashBelow_of_grow grow fun _ _ found => found⟩
  · rw [counts]
    split
    · next same =>
      rw [← same, h.counted, nothing]
    · rfl
  · have moved := refs key
    simp only [fresh, Option.map_none, Option.getD_none, currentRef] at moved
    simpa using moved
  · rw [currents, SortedMap.find?_insert] at found
    split at found
    · cases found
      exact Nat.one_pos
    · exact h.period_pos v current found

/-- `incrementValidatorPeriod`: the reference of the current rewards moves from the period
before to the period ended, whose record is new; nothing referred to it. -/
theorem incrementValidatorPeriod (h : Accounted s) {val : Staking.Validator} {period : Nat}
    (hinc : s.incrementValidatorPeriod val = .ok (s', period)) : Accounted s' := by
  obtain ⟨current, s₁, ratio, found, rfl, counts₁, historical', currents', starts', slashes'⟩ :=
    Store.incrementValidatorPeriod_eq hinc
  have pos := h.period_pos _ current found
  have refs := Store.references_setCurrent currents' starts' slashes'
  have counts' : ∀ key, s'.referenceCount key =
      if toLex (val.operatorAddress, current.period) = key then 1 else s₁.referenceCount key := by
    intro key
    unfold Store.referenceCount
    rw [historical', SortedMap.find?_insert]
    split <;> rfl
  have nothing : s.references (toLex (val.operatorAddress, current.period)) = 0 :=
    h.references_eq_zero fun c hc => by
      rw [found] at hc
      cases hc
      exact le_rfl
  have grow : ∀ v c, s.rewards.currentRewards.find? v = some c →
      ∃ c', s'.rewards.currentRewards.find? v = some c' ∧ c.period ≤ c'.period := by
    intro v c hc
    rw [currents', SortedMap.find?_insert]
    split
    · next same =>
      rw [← same, found] at hc
      cases hc
      exact ⟨_, rfl, Nat.le_succ _⟩
    · exact ⟨c, hc, le_rfl⟩
  refine ⟨h.counted_of_change
      (fun key => if toLex (val.operatorAddress, current.period - 1) = key then 1 else 0)
      (fun key => if toLex (val.operatorAddress, current.period) = key then 1 else 0)
      (fun key => ?_) (fun key => ?_),
    fun v c hc => ?_, h.startBelow_of_grow grow fun _ _ hi => by rwa [starts'] at hi,
    h.slashBelow_of_grow grow fun _ _ he => by rwa [slashes'] at he⟩
  · -- the record of the period ended has the one new reference
    have ended := counts₁ key
    rw [counts']
    split
    · next same =>
      rw [← same] at ended ⊢
      rw [if_neg fun back => by have := (periodKey_eq_iff.mp back).2; omega] at ended ⊢
      rw [h.counted, nothing]
    · omega
  · have moved := refs key
    rw [found] at moved
    simp only [Option.map_some, Option.getD_some, currentRef, Nat.add_sub_cancel] at moved
    exact moved
  · rw [currents', SortedMap.find?_insert] at hc
    split at hc
    · cases hc
      exact Nat.succ_pos _
    · exact h.period_pos v c hc

/-- `initializeDelegation` of a delegation without a starting info: the reference it adds to
the period before the current one is the one its starting info holds. -/
theorem initializeDelegation (h : Accounted s) {ctx : Header} {staking : Staking.Store}
    {val : ValAddress} {del : AccAddress}
    (fresh : s.delegatorStartingInfos.find? (toLex (val, del)) = none)
    (hinit : s.initializeDelegation ctx staking val del = .ok s') : Accounted s' := by
  obtain ⟨current, s₁, stake, found, incremented, rfl⟩ := Store.initializeDelegation_eq hinit
  obtain ⟨counts₁, rewards₁, starts₁, slashes₁⟩ := Store.incrementReferenceCount_eq incremented
  have pos := h.period_pos _ current found
  have currents : (s₁.setDelegatorStartingInfo val del
      ⟨current.period - 1, stake, blockHeight ctx⟩).rewards.currentRewards =
        s.rewards.currentRewards := by
    rw [← rewards₁]; rfl
  have refs := Store.references_setStart (k := toLex (val, del)) currents
    (by rw [← starts₁]; rfl) (by rw [← slashes₁]; rfl)
  rw [fresh] at refs
  refine ⟨h.counted_of_change (fun _ => 0)
      (fun key => if toLex (val, current.period - 1) = key then 1 else 0)
      (fun key => counts₁ key) (fun key => ?_), h.period_pos_of_eq currents,
    fun key info hi => ?_,
    h.slashBelow_of_grow (grow_of_eq currents) fun key event he => by rwa [← slashes₁]⟩
  · have moved := refs key
    simp only [Option.map_none, Option.getD_none, startRef, ofLex_toLex] at moved
    exact moved
  · change (s₁.delegatorStartingInfos.insert (toLex (val, del)) _).find? key = some info at hi
    rw [SortedMap.find?_insert] at hi
    rw [currents]
    split at hi
    · next here =>
      cases hi
      rw [← here]
      exact ⟨current, found, by dsimp only; omega⟩
    · exact h.startBelow key info (by rwa [starts₁] at hi)

end Accounted

/-! ## Allocation keeps the periods

The fees go into the rewards of the current periods, which keep their keys and periods. -/

theorem allocateTokensToValidator_periods {s s' : RewardsStore} {val : Staking.Validator}
    {tokens : DecCoins} (h : allocateTokensToValidator s val tokens = .ok s') (a : ValAddress) :
    (s'.currentRewards.find? a).map ValidatorCurrentRewards.period =
      (s.currentRewards.find? a).map ValidatorCurrentRewards.period := by
  unfold allocateTokensToValidator at h
  obtain ⟨shared, -, h⟩ := Fallible.bind_eq_ok.mp h
  obtain ⟨current, hcurrent, h⟩ := Fallible.bind_eq_ok.mp h
  obtain ⟨outstanding, -, h⟩ := Fallible.bind_eq_ok.mp h
  cases Fallible.pure_eq_ok.mp h
  replace hcurrent : s.currentRewards.find? val.operatorAddress = some current :=
    RewardsStore.getValidatorCurrentRewards_eq_ok.mp hcurrent
  show ((s.currentRewards.insert val.operatorAddress _).find? a).map _ = _
  rw [SortedMap.find?_insert]
  split
  · next same =>
    rw [← same, hcurrent]
    rfl
  · rfl

theorem allocateVote_periods {staking : Staking.Store} {feesCollected : DecCoins}
    {multiplier : Dec} {total : Int} {acc acc' : RewardsStore × DecCoins} {vote : VoteInfo}
    (h : allocateVote staking feesCollected multiplier total acc vote = .ok acc') (a : ValAddress) :
    (acc'.1.currentRewards.find? a).map ValidatorCurrentRewards.period =
      (acc.1.currentRewards.find? a).map ValidatorCurrentRewards.period := by
  unfold allocateVote at h
  cases found : staking.getValidatorByConsAddr vote.address with
  | none =>
    rw [found] at h
    exact absurd h Fallible.throw_ne_ok
  | some validator =>
    rw [found] at h
    obtain ⟨s₁, allocated, h⟩ := Fallible.bind_eq_ok.mp h
    obtain ⟨remaining, -, h⟩ := Fallible.bind_eq_ok.mp h
    cases Fallible.pure_eq_ok.mp h
    exact allocateTokensToValidator_periods allocated a

theorem allocateProposer_periods {staking : Staking.Store} {s : RewardsStore}
    {feesCollected proposerReward : DecCoins} {previousProposer : ConsAddress}
    {acc' : RewardsStore × DecCoins}
    (h : allocateProposer staking s feesCollected proposerReward previousProposer = .ok acc')
    (a : ValAddress) :
    (acc'.1.currentRewards.find? a).map ValidatorCurrentRewards.period =
      (s.currentRewards.find? a).map ValidatorCurrentRewards.period := by
  unfold allocateProposer at h
  cases found : staking.getValidatorByConsAddr previousProposer with
  | none =>
    rw [found] at h
    cases Fallible.pure_eq_ok.mp h
    rfl
  | some validator =>
    rw [found] at h
    obtain ⟨s₁, allocated, h⟩ := Fallible.bind_eq_ok.mp h
    obtain ⟨remaining, -, h⟩ := Fallible.bind_eq_ok.mp h
    cases Fallible.pure_eq_ok.mp h
    exact allocateTokensToValidator_periods allocated a

/-- `AllocateTokens` keeps the keys and periods of the current rewards: the proposer's reward,
then each vote's, go into the rewards of the current period. -/
theorem allocateTokens_periods {sk : SupplyKeeper} {feeCollectorName : String}
    {staking : Staking.Store} {params : Params} {L L' : Ledger} {feePool feePool' : FeePool}
    {s s' : RewardsStore} {blockTime sumPreviousPrecommitPower totalPreviousPower : Int}
    {previousProposer : ConsAddress} {previousVotes : List VoteInfo}
    (h : allocateTokens sk feeCollectorName staking params L feePool s blockTime
      sumPreviousPrecommitPower totalPreviousPower previousProposer previousVotes =
        .ok (L', feePool', s')) (a : ValAddress) :
    (s'.currentRewards.find? a).map ValidatorCurrentRewards.period =
      (s.currentRewards.find? a).map ValidatorCurrentRewards.period := by
  unfold allocateTokens at h
  obtain ⟨⟨feeCollector, accounts⟩, -, h⟩ := Fallible.bind_eq_ok.mp h
  dsimp only at h
  cases feeCollector with
  | none => exact absurd h Fallible.throw_ne_ok
  | some entry =>
    dsimp only at h
    obtain ⟨L₁, -, h⟩ := Fallible.bind_eq_ok.mp h
    split at h
    · cases Fallible.pure_eq_ok.mp h
      rfl
    · obtain ⟨⟨s₁, remaining⟩, proposed, h⟩ := Fallible.bind_eq_ok.mp h
      dsimp only at h
      obtain ⟨⟨s₂, remaining₂⟩, voted, h⟩ := Fallible.bind_eq_ok.mp h
      cases Fallible.pure_eq_ok.mp h
      -- the votes, one at a time, from the proposer's allocation
      have votes := Fallible.foldlM_ok_induction _
        (fun acc : RewardsStore × DecCoins => ∀ a, (acc.1.currentRewards.find? a).map
          ValidatorCurrentRewards.period = (s₁.currentRewards.find? a).map
            ValidatorCurrentRewards.period)
        (fun _ _ _ before step a => (allocateVote_periods step a).trans (before a))
        previousVotes _ _ (fun _ => rfl) voted
      exact (votes a).trans (allocateProposer_periods proposed a)

/-! ## The keeper's writes -/

/-- What a reference points at: a period of the validator of its key. -/
theorem currentRef_val {val : ValAddress} {current : ValidatorCurrentRewards} {key : PeriodKey}
    (h : currentRef val current = key) : val = (ofLex key).1 := by
  rw [← h]
  rfl

theorem startRef_val {k : StartingInfoKey} {info : DelegatorStartingInfo} {key : PeriodKey}
    (h : startRef k info = key) : (ofLex k).1 = (ofLex key).1 := by
  rw [← h]
  rfl

theorem slashRef_val {k : SlashEventKey} {key : PeriodKey} (h : slashRef k = key) :
    (ofLex k).1 = (ofLex key).1 := by
  rw [← h]
  rfl

namespace Keeper

variable {k : Keeper} {ctx : Header} {L L' : Ledger} {s s' : Store}

/-- `withdrawDelegationRewards` of a stored validator: its period ends, the outstanding rewards
and the community pool take the rewards, and the starting info is dropped with its
reference. -/
theorem withdrawDelegationRewards_eq {val : Option Staking.Validator} {del : Staking.Delegation}
    {coins : Coins} (h : k.withdrawDelegationRewards ctx L s val del = .ok (coins, L', s')) :
    ∃ (v : Staking.Validator) (s₁ s₂ s₃ : Store) (period : Nat) (info : DelegatorStartingInfo),
      val = some v ∧ s.incrementValidatorPeriod v = .ok (s₁, period) ∧
      s₂.historicalRewards = s₁.historicalRewards ∧
      s₂.rewards.currentRewards = s₁.rewards.currentRewards ∧
      s₂.delegatorStartingInfos = s₁.delegatorStartingInfos ∧ s₂.slashEvents = s₁.slashEvents ∧
      s₂.delegatorStartingInfos.find? (toLex (del.validatorAddress, del.delegatorAddress)) =
        some info ∧
      s₂.decrementReferenceCount del.validatorAddress info.previousPeriod = .ok s₃ ∧
      s' = s₃.deleteDelegatorStartingInfo del.validatorAddress del.delegatorAddress := by
  unfold withdrawDelegationRewards at h
  split at h
  · exact absurd h Fallible.throw_ne_ok
  · cases val with
    | none => exact absurd h Fallible.throw_ne_ok
    | some v =>
      dsimp only at h
      obtain ⟨⟨s₁, period⟩, incremented, h⟩ := Fallible.bind_eq_ok.mp h
      dsimp only at h
      obtain ⟨rewardsRaw, -, h⟩ := Fallible.bind_eq_ok.mp h
      obtain ⟨outstanding, -, h⟩ := Fallible.bind_eq_ok.mp h
      obtain ⟨⟨paid, remainder⟩, -, h⟩ := Fallible.bind_eq_ok.mp h
      dsimp only at h
      obtain ⟨L₁, -, h⟩ := Fallible.bind_eq_ok.mp h
      obtain ⟨left, -, h⟩ := Fallible.bind_eq_ok.mp h
      obtain ⟨info, found, h⟩ := Fallible.bind_eq_ok.mp h
      obtain ⟨s₃, decremented, h⟩ := Fallible.bind_eq_ok.mp h
      cases Fallible.pure_eq_ok.mp h
      exact ⟨v, s₁, (s₁.setValidatorOutstandingRewards del.validatorAddress left).addToCommunityPool
        remainder, s₃, period, info, rfl, incremented, rfl, rfl, rfl, rfl,
        Store.getDelegatorStartingInfo_eq_ok.mp found, decremented, rfl⟩

/-- `AfterValidatorRemoved` deletes the records, the current rewards and the slash events of
the validator; the payouts before write the pools only. -/
theorem afterValidatorRemoved_eq {valAddr : ValAddress}
    (h : k.afterValidatorRemoved ctx L s valAddr = .ok (L', s')) :
    s'.historicalRewards = s.historicalRewards.filter (fun key _ => (ofLex key).1 ≠ valAddr) ∧
      s'.rewards.currentRewards = s.rewards.currentRewards.erase valAddr ∧
      s'.delegatorStartingInfos = s.delegatorStartingInfos ∧
      s'.slashEvents = s.slashEvents.filter (fun key _ => (ofLex key).1 ≠ valAddr) := by
  unfold afterValidatorRemoved at h
  obtain ⟨outstanding, -, h⟩ := Fallible.bind_eq_ok.mp h
  obtain ⟨⟨L₁, s₁, left⟩, paid, h⟩ := Fallible.bind_eq_ok.mp h
  -- paying the commission out writes the community pool only
  obtain ⟨historical₁, currents₁, starts₁, slashes₁⟩ : s₁.historicalRewards = s.historicalRewards ∧
      s₁.rewards.currentRewards = s.rewards.currentRewards ∧
      s₁.delegatorStartingInfos = s.delegatorStartingInfos ∧ s₁.slashEvents = s.slashEvents := by
    split at paid
    · cases Fallible.pure_eq_ok.mp paid
      exact ⟨rfl, rfl, rfl, rfl⟩
    · obtain ⟨_, -, paid⟩ := Fallible.bind_eq_ok.mp paid
      obtain ⟨⟨coins, remainder⟩, -, paid⟩ := Fallible.bind_eq_ok.mp paid
      dsimp only at paid
      obtain ⟨L₂, -, paid⟩ := Fallible.bind_eq_ok.mp paid
      cases Fallible.pure_eq_ok.mp paid
      exact ⟨rfl, rfl, rfl, rfl⟩
  dsimp only at h
  cases Fallible.pure_eq_ok.mp h
  exact ⟨by rw [← historical₁]; rfl, by rw [← currents₁]; rfl, starts₁, by rw [← slashes₁]; rfl⟩

end Keeper

namespace Accounted

variable {s s' : Store}

/-- A starting info dropped with its reference. -/
theorem releaseStart (h : Accounted s) {val : ValAddress} {del : AccAddress}
    {info : DelegatorStartingInfo} {s₁ : Store}
    (found : s.delegatorStartingInfos.find? (toLex (val, del)) = some info)
    (hdec : s.decrementReferenceCount val info.previousPeriod = .ok s₁) :
    Accounted (s₁.deleteDelegatorStartingInfo val del) := by
  obtain ⟨counts₁, rewards₁, starts₁, slashes₁⟩ := Store.decrementReferenceCount_eq hdec
  have currents : (s₁.deleteDelegatorStartingInfo val del).rewards.currentRewards =
      s.rewards.currentRewards := by
    rw [← rewards₁]; rfl
  have refs := Store.references_eraseStart (k := toLex (val, del)) currents
    (by rw [← starts₁]; rfl) (by rw [← slashes₁]; rfl)
  refine ⟨h.counted_of_change (fun key => if toLex (val, info.previousPeriod) = key then 1 else 0)
      (fun _ => 0) (fun key => counts₁ key) (fun key => ?_), h.period_pos_of_eq currents,
    h.startBelow_of_grow (grow_of_eq currents) fun key info' hi => ?_,
    h.slashBelow_of_grow (grow_of_eq currents) fun key event he => ?_⟩
  · have moved := refs key
    simp only [found, Option.map_some, Option.getD_some, startRef, ofLex_toLex] at moved
    exact moved
  · change (s₁.delegatorStartingInfos.erase (toLex (val, del))).find? key = some info' at hi
    rw [SortedMap.find?_erase] at hi
    split at hi
    · cases hi
    · rwa [starts₁] at hi
  · change s₁.slashEvents.find? key = some event at he
    rwa [slashes₁] at he

/-- `withdrawDelegationRewards`: the period ends, then the starting info goes with its
reference. -/
theorem withdrawDelegationRewards (h : Accounted s) {k : Keeper} {ctx : Header} {L L' : Ledger}
    {val : Option Staking.Validator} {del : Staking.Delegation} {coins : Coins}
    (hw : k.withdrawDelegationRewards ctx L s val del = .ok (coins, L', s')) : Accounted s' := by
  obtain ⟨v, s₁, s₂, s₃, period, info, -, incremented, historical₂, currents₂, starts₂, slashes₂,
    found, decremented, rfl⟩ := Keeper.withdrawDelegationRewards_eq hw
  have h₂ : Accounted s₂ := (h.incrementValidatorPeriod incremented).of_periods historical₂
    (fun a => by rw [currents₂]) starts₂ slashes₂
  exact h₂.releaseStart found decremented

/-- A slash event under a fresh key, referring to a period before the current one, with the
count of that period raised for it. -/
theorem recordSlash (h : Accounted s) {val : ValAddress} {height period : Nat}
    {event : ValidatorSlashEvent} {s₁ : Store}
    (below : ∃ c, s.rewards.currentRewards.find? val = some c ∧ period < c.period)
    (fresh : s.slashEvents.find? (toLex (val, toLex (height, period))) = none)
    (hinc : s.incrementReferenceCount val period = .ok s₁) :
    Accounted (s₁.setValidatorSlashEvent val height period event) := by
  obtain ⟨counts₁, rewards₁, starts₁, slashes₁⟩ := Store.incrementReferenceCount_eq hinc
  have currents : (s₁.setValidatorSlashEvent val height period event).rewards.currentRewards =
      s.rewards.currentRewards := by
    rw [← rewards₁]; rfl
  have refs := Store.references_setSlash (k := toLex (val, toLex (height, period))) currents
    (by rw [← starts₁]; rfl) (by rw [← slashes₁]; rfl)
  rw [fresh] at refs
  refine ⟨h.counted_of_change (fun _ => 0) (fun key => if toLex (val, period) = key then 1 else 0)
      (fun key => counts₁ key) (fun key => ?_), h.period_pos_of_eq currents,
    h.startBelow_of_grow (grow_of_eq currents) fun key info hi => by rwa [← starts₁],
    fun key e he => ?_⟩
  · have moved := refs key
    simp only [Option.map_none, Option.getD_none, slashRef, ofLex_toLex] at moved
    exact moved
  · change (s₁.slashEvents.insert (toLex (val, toLex (height, period))) event).find? key =
      some e at he
    rw [SortedMap.find?_insert] at he
    rw [currents]
    split at he
    · next here =>
      rw [← here]
      simpa only [ofLex_toLex] using below
    · exact h.slashBelow key e (by rwa [slashes₁] at he)

/-- `updateValidatorSlashFraction` of a validator stored under its own address: its period
ends, and the slash event refers to the period ended, which no event of the validator did. -/
theorem updateValidatorSlashFraction (h : Accounted s) {ctx : Header} {staking : Staking.Store}
    {valAddr : ValAddress} {fraction : Dec}
    (keyed : ∀ v, staking.getValidator valAddr = some v → v.operatorAddress = valAddr)
    (hup : s.updateValidatorSlashFraction ctx staking valAddr fraction = .ok s') :
    Accounted s' := by
  obtain ⟨val, s₁, s₂, period, found, incremented, referenced, rfl⟩ :=
    Store.updateValidatorSlashFraction_eq hup
  have address := keyed val found
  subst address
  obtain ⟨current, s₀, ratio, hcurrent, rfl, -, -, currents₁, -, slashes₁⟩ :=
    Store.incrementValidatorPeriod_eq incremented
  refine (h.incrementValidatorPeriod incremented).recordSlash
    ⟨⟨[], current.period + 1⟩, by rw [currents₁, SortedMap.find?_insert_self], Nat.lt_succ_self _⟩
    ?_ referenced
  -- an event of the validator at this period would lie below its current period
  rw [slashes₁]
  cases stored : s.slashEvents.find?
      (toLex (val.operatorAddress, toLex (blockHeight ctx, current.period))) with
  | none => rfl
  | some event =>
    obtain ⟨c, hc, below⟩ := h.slashBelow _ event stored
    simp only [ofLex_toLex] at hc below
    rw [hcurrent] at hc
    cases hc
    omega

/-- With no starting info of `valAddr` and its current rewards and slash events deleted,
nothing refers to a period of `valAddr`, and the references to the periods of the other
validators stay. -/
theorem references_removed {valAddr : ValAddress}
    (undelegated : ∀ key info, s.delegatorStartingInfos.find? key = some info →
      (ofLex key).1 ≠ valAddr)
    (currents : s'.rewards.currentRewards = s.rewards.currentRewards.erase valAddr)
    (starts : s'.delegatorStartingInfos = s.delegatorStartingInfos)
    (slashes : s'.slashEvents = s.slashEvents.filter (fun key _ => (ofLex key).1 ≠ valAddr))
    (key : PeriodKey) :
    ((ofLex key).1 = valAddr → s'.references key = 0) ∧
      ((ofLex key).1 ≠ valAddr → s'.references key = s.references key) := by
  unfold Store.references
  rw [currents, starts, slashes, SortedMap.sumBy_filter]
  constructor
  · intro same
    have currents₀ : (s.rewards.currentRewards.erase valAddr).sumBy
        (fun v c => if currentRef v c = key then 1 else 0) = 0 :=
      SortedMap.sumBy_eq_zero _ fun v c found => if_neg fun hr => by
        rw [SortedMap.find?_erase, if_pos ((currentRef_val hr).trans same).symm] at found
        cases found
    have starts₀ : s.delegatorStartingInfos.sumBy
        (fun k info => if startRef k info = key then 1 else 0) = 0 :=
      SortedMap.sumBy_eq_zero _ fun k info found => if_neg fun hr =>
        undelegated k info found ((startRef_val hr).trans same)
    have slashes₀ : s.slashEvents.sumBy (fun k (e : ValidatorSlashEvent) =>
        if decide ((ofLex k).1 ≠ valAddr) = true then (if slashRef k = key then 1 else 0)
        else 0) = 0 := by
      refine SortedMap.sumBy_eq_zero _ fun k e _ => ?_
      split
      · next kept => exact if_neg fun hr => of_decide_eq_true kept ((slashRef_val hr).trans same)
      · rfl
    rw [currents₀, starts₀, slashes₀]
  · intro other
    have currents₁ : (s.rewards.currentRewards.erase valAddr).sumBy
        (fun v c => if currentRef v c = key then 1 else 0) =
        s.rewards.currentRewards.sumBy (fun v c => if currentRef v c = key then 1 else 0) := by
      have dropped := SortedMap.sumBy_erase_add s.rewards.currentRewards
        (fun v c => if currentRef v c = key then 1 else 0) valAddr
      have zero : ((s.rewards.currentRewards.find? valAddr).map
          (fun c => if currentRef valAddr c = key then 1 else 0)).getD 0 = 0 := by
        cases s.rewards.currentRewards.find? valAddr with
        | none => rfl
        | some c => exact if_neg fun hr => other (currentRef_val hr).symm
      rw [zero, Nat.add_zero] at dropped
      exact dropped
    have slashes₁ : s.slashEvents.sumBy (fun k (e : ValidatorSlashEvent) =>
        if decide ((ofLex k).1 ≠ valAddr) = true then (if slashRef k = key then 1 else 0)
        else 0) = s.slashEvents.sumBy (fun k _ => if slashRef k = key then 1 else 0) := by
      refine SortedMap.sumBy_congr _ fun k e _ => ?_
      by_cases dropped : (ofLex k).1 = valAddr
      · rw [if_neg (by simpa using dropped),
          if_neg fun hr => other ((slashRef_val hr).symm.trans dropped)]
      · rw [if_pos (by simpa using dropped)]
    rw [currents₁, slashes₁]

/-- `AfterValidatorRemoved` of a validator without starting infos: its current rewards, slash
events and records go, and with them every reference to its periods. -/
theorem afterValidatorRemoved (h : Accounted s) {k : Keeper} {ctx : Header} {L L' : Ledger}
    {valAddr : ValAddress}
    (undelegated : ∀ key info, s.delegatorStartingInfos.find? key = some info →
      (ofLex key).1 ≠ valAddr)
    (hr : k.afterValidatorRemoved ctx L s valAddr = .ok (L', s')) : Accounted s' := by
  obtain ⟨historical', currents', starts', slashes'⟩ := Keeper.afterValidatorRemoved_eq hr
  have counts : ∀ key, s'.referenceCount key =
      if (ofLex key).1 = valAddr then 0 else s.referenceCount key := by
    intro key
    unfold Store.referenceCount
    rw [historical', SortedMap.find?_filter]
    by_cases same : (ofLex key).1 = valAddr
    · simp [same]
    · rw [if_neg same]
      cases s.historicalRewards.find? key with
      | none => rfl
      | some r => simp [same, Option.filter]
  refine ⟨fun key => ?_, fun v c hc => ?_, fun key info hi => ?_, fun key e he => ?_⟩
  · rw [counts]
    split
    · next same => exact ((references_removed undelegated currents' starts' slashes' key).1
        same).symm
    · next other => rw [h.counted, (references_removed undelegated currents' starts' slashes'
        key).2 other]
  · rw [currents', SortedMap.find?_erase] at hc
    split at hc
    · cases hc
    · exact h.period_pos v c hc
  · rw [starts'] at hi
    obtain ⟨c, hc, below⟩ := h.startBelow key info hi
    refine ⟨c, ?_, below⟩
    rw [currents', SortedMap.find?_erase, if_neg (Ne.symm (undelegated key info hi))]
    exact hc
  · rw [slashes', SortedMap.find?_filter, Option.filter_eq_some_iff] at he
    obtain ⟨stored, other⟩ := he
    obtain ⟨c, hc, below⟩ := h.slashBelow key e stored
    refine ⟨c, ?_, below⟩
    rw [currents', SortedMap.find?_erase, if_neg (Ne.symm (of_decide_eq_true other))]
    exact hc

/-! ## The total of the counts -/

/-- A reference held by current rewards, a starting info or a slash event counts. -/
theorem references_pos_of_current {val : ValAddress} {current : ValidatorCurrentRewards}
    (found : s.rewards.currentRewards.find? val = some current) :
    0 < s.references (currentRef val current) := by
  have held := SortedMap.one_le_sumBy_indicator _ currentRef found
  unfold Store.references
  omega

theorem references_pos_of_start {key : StartingInfoKey} {info : DelegatorStartingInfo}
    (found : s.delegatorStartingInfos.find? key = some info) :
    0 < s.references (startRef key info) := by
  have held := SortedMap.one_le_sumBy_indicator _ startRef found
  unfold Store.references
  omega

theorem references_pos_of_slash {key : SlashEventKey} {event : ValidatorSlashEvent}
    (found : s.slashEvents.find? key = some event) : 0 < s.references (slashRef key) := by
  have held := SortedMap.one_le_sumBy_indicator _ (fun k (_ : ValidatorSlashEvent) => slashRef k)
    found
  unfold Store.references
  omega

/-- Every period something refers to has its record. -/
theorem recorded (h : Accounted s) {key : PeriodKey} (pos : 0 < s.references key) :
    (s.historicalRewards.find? key).isSome := by
  have count := h.counted key
  unfold Store.referenceCount at count
  cases found : s.historicalRewards.find? key with
  | none =>
    rw [found, Option.map_none, Option.getD_none] at count
    omega
  | some rewards => rfl

/-- The counts add up to one for each current rewards, starting info and slash event: each
record counts its references, and each reference points at a record. -/
theorem total (h : Accounted s) :
    s.getValidatorHistoricalReferenceCount = s.rewards.currentRewards.entries.length +
      s.delegatorStartingInfos.entries.length + s.slashEvents.entries.length := by
  have each : s.getValidatorHistoricalReferenceCount =
      s.historicalRewards.sumBy fun key _ => s.references key := by
    refine SortedMap.sumBy_congr _ fun key rewards found => ?_
    have count := h.counted key
    simp only [Store.referenceCount, found, Option.map_some, Option.getD_some] at count
    exact count
  have currents := SortedMap.sumBy_count_of_mem s.historicalRewards s.rewards.currentRewards
    currentRef fun v c found => h.recorded (references_pos_of_current found)
  have starts := SortedMap.sumBy_count_of_mem s.historicalRewards s.delegatorStartingInfos
    startRef fun k info found => h.recorded (references_pos_of_start found)
  have slashes := SortedMap.sumBy_count_of_mem s.historicalRewards s.slashEvents
    (fun k _ => slashRef k) fun k event found => h.recorded (references_pos_of_slash found)
  rw [each]
  unfold Store.references
  rw [SortedMap.sumBy_add, SortedMap.sumBy_add, currents, starts, slashes, SortedMap.sumBy_one,
    SortedMap.sumBy_one, SortedMap.sumBy_one]

end Accounted

end Distribution

end Pocc
