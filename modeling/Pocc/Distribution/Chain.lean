import Mathlib
import Pocc.Distribution.References
import Pocc.Staking.Shares

/-!
# The staking and distribution stores kept in step

The hooks keep one record of x/distribution for each record of x/staking: current rewards for
each validator, a starting info for each delegation (`Follows`). With the counts exact
(`Accounted`), the total `ReferenceCountInvariant` expects is the one it finds.

Each staking call is taken with the hooks it makes, since between a write of x/staking and its
hook the two stores differ by one validator or one delegation; `Follows` names that record. The
chain interleaves the events of x/staking with the messages and the BeginBlocker of
x/distribution in any order, so what holds of `Reachable` holds of the app's chains
(`reference_counts_hold`).
-/

namespace Pocc

namespace Distribution

open Staking (Header World HookCall)

/-! ## What each hook does to the keys -/

namespace Store

variable {s s' : Store}

theorem incrementValidatorPeriod_keys {val : Staking.Validator} {period : Nat}
    (h : s.incrementValidatorPeriod val = .ok (s', period)) :
    (∀ a, (s'.rewards.currentRewards.find? a).isSome = (s.rewards.currentRewards.find? a).isSome) ∧
      s'.delegatorStartingInfos = s.delegatorStartingInfos := by
  obtain ⟨current, s₁, ratio, found, -, -, -, currents', starts', -⟩ := incrementValidatorPeriod_eq h
  refine ⟨fun a => ?_, starts'⟩
  rw [currents', SortedMap.find?_insert]
  split
  · next same => rw [← same, found]; rfl
  · rfl

theorem initializeDelegation_keys {ctx : Header} {staking : Staking.Store} {val : ValAddress}
    {del : AccAddress} (h : s.initializeDelegation ctx staking val del = .ok s') :
    s'.rewards.currentRewards = s.rewards.currentRewards ∧
      ∃ info, s'.delegatorStartingInfos = s.delegatorStartingInfos.insert (toLex (val, del)) info := by
  obtain ⟨current, s₁, stake, -, incremented, rfl⟩ := initializeDelegation_eq h
  obtain ⟨-, rewards₁, starts₁, -⟩ := incrementReferenceCount_eq incremented
  exact ⟨by rw [← rewards₁]; rfl, _, by rw [← starts₁]; rfl⟩

theorem updateValidatorSlashFraction_keys {ctx : Header} {staking : Staking.Store}
    {valAddr : ValAddress} {fraction : Dec}
    (h : s.updateValidatorSlashFraction ctx staking valAddr fraction = .ok s') :
    (∀ a, (s'.rewards.currentRewards.find? a).isSome = (s.rewards.currentRewards.find? a).isSome) ∧
      s'.delegatorStartingInfos = s.delegatorStartingInfos := by
  obtain ⟨val, s₁, s₂, period, -, incremented, referenced, rfl⟩ := updateValidatorSlashFraction_eq h
  obtain ⟨currents₁, starts₁⟩ := incrementValidatorPeriod_keys incremented
  obtain ⟨-, rewards₂, starts₂, -⟩ := incrementReferenceCount_eq referenced
  refine ⟨fun a => ?_, ?_⟩
  · show (s₂.rewards.currentRewards.find? a).isSome = _
    rw [rewards₂, currents₁]
  · show s₂.delegatorStartingInfos = _
    rw [starts₂, starts₁]

end Store

theorem Keeper.withdrawDelegationRewards_keys {k : Keeper} {ctx : Header} {L L' : Ledger}
    {s s' : Store} {val : Option Staking.Validator} {del : Staking.Delegation} {coins : Coins}
    (h : k.withdrawDelegationRewards ctx L s val del = .ok (coins, L', s')) :
    (∀ a, (s'.rewards.currentRewards.find? a).isSome = (s.rewards.currentRewards.find? a).isSome) ∧
      s'.delegatorStartingInfos =
        s.delegatorStartingInfos.erase (toLex (del.validatorAddress, del.delegatorAddress)) := by
  obtain ⟨v, s₁, s₂, s₃, period, info, -, incremented, -, currents₂, starts₂, -, -, decremented,
    rfl⟩ := Keeper.withdrawDelegationRewards_eq h
  obtain ⟨currents₁, starts₁⟩ := Store.incrementValidatorPeriod_keys incremented
  obtain ⟨-, rewards₃, starts₃, -⟩ := Store.decrementReferenceCount_eq decremented
  refine ⟨fun a => ?_, ?_⟩
  · show (s₃.rewards.currentRewards.find? a).isSome = _
    rw [rewards₃, currents₂, currents₁]
  · show s₃.delegatorStartingInfos.erase _ = _
    rw [starts₃, starts₂, starts₁]

/-! ## The two stores in step -/

/-- The distribution store follows the staking store: current rewards for exactly the stored
validators and a starting info for exactly the stored delegations, save one validator and one
delegation that a staking call has written and whose hook has not yet run. -/
structure Follows (staking : Staking.Store) (s : Store) (exceptVal : Option ValAddress)
    (exceptDel : Option (AccAddress × ValAddress)) : Prop where
  validators : ∀ a, exceptVal ≠ some a →
    (staking.getValidator a).isSome = (s.rewards.currentRewards.find? a).isSome
  delegations : ∀ d a, exceptDel ≠ some (d, a) →
    (staking.getDelegation d a).isSome = (s.delegatorStartingInfos.find? (toLex (a, d))).isSome

namespace Follows

variable {staking staking' : Staking.Store} {s s' : Store} {ev : Option ValAddress}
  {ed : Option (AccAddress × ValAddress)} {a : ValAddress} {d : AccAddress}

/-- A staking write that keeps the keys of validators and delegations. -/
theorem of_staking (h : Follows staking s ev ed)
    (vals : ∀ a, (staking'.getValidator a).isSome = (staking.getValidator a).isSome)
    (dels : ∀ d a, (staking'.getDelegation d a).isSome = (staking.getDelegation d a).isSome) :
    Follows staking' s ev ed :=
  ⟨fun a ne => (vals a).trans (h.validators a ne),
    fun d a ne => (dels d a).trans (h.delegations d a ne)⟩

/-- A distribution write that keeps the keys of the current rewards and the starting infos. -/
theorem of_dist (h : Follows staking s ev ed)
    (currents : ∀ a, (s'.rewards.currentRewards.find? a).isSome =
      (s.rewards.currentRewards.find? a).isSome)
    (starts : s'.delegatorStartingInfos = s.delegatorStartingInfos) : Follows staking s' ev ed :=
  ⟨fun a ne => (h.validators a ne).trans (currents a).symm,
    fun d a ne => by rw [starts]; exact h.delegations d a ne⟩

/-- As many current rewards as validators. -/
theorem length_validators (h : Follows staking s none ed) :
    staking.validators.entries.length = s.rewards.currentRewards.entries.length := by
  refine SortedMap.length_eq_of_keys _ _ id Function.injective_id
    (fun a found => ?_) (fun a found => ⟨a, rfl, ?_⟩)
  · change (staking.getValidator a).isSome
    rw [h.validators a (by simp)]
    exact found
  · rw [← h.validators a (by simp)]
    exact found

/-- As many starting infos as delegations: the key of a starting info is that of its
delegation, the other way round. -/
theorem length_delegations (h : Follows staking s ev none) :
    staking.delegations.entries.length = s.delegatorStartingInfos.entries.length := by
  refine SortedMap.length_eq_of_keys _ _ (fun k : StartingInfoKey => Staking.dvKey (ofLex k).2 (ofLex k).1)
    (fun k k' same => ?_) (fun k found => ?_) (fun k found => ?_)
  · obtain ⟨d, a⟩ := Staking.dvKey_inj same
    rw [← toLex_ofLex k, ← toLex_ofLex k', Prod.ext a d]
  · change (staking.getDelegation (ofLex k).2 (ofLex k).1).isSome
    rw [h.delegations _ _ (by simp)]
    simpa only [Prod.mk.eta, toLex_ofLex] using found
  · refine ⟨toLex ((ofLex k).2, (ofLex k).1), by simp [Staking.dvKey], ?_⟩
    rw [← h.delegations _ _ (by simp)]
    simpa only [Staking.Store.getDelegation, Staking.dvKey, Prod.mk.eta, toLex_ofLex] using found

/-- A validator stored under a new address, before the hook of its creation. -/
theorem create (h : Follows staking s none ed) {a : ValAddress}
    (vals : ∀ b, b ≠ a → (staking'.getValidator b).isSome = (staking.getValidator b).isSome)
    (dels : ∀ d b, (staking'.getDelegation d b).isSome = (staking.getDelegation d b).isSome) :
    Follows staking' s (some a) ed :=
  ⟨fun b ne => (vals b fun same => ne (by rw [same])).trans (h.validators b (by simp)),
    fun d b ne => (dels d b).trans (h.delegations d b ne)⟩

/-- The hook of a creation gives the new validator its current rewards. -/
theorem initializeValidator (h : Follows staking s (some a) ed) {v : Staking.Validator}
    (stored : staking.getValidator a = some v) (keyed : v.operatorAddress = a) :
    Follows staking (s.initializeValidator v) none ed := by
  refine ⟨fun b _ => ?_, fun d b ne => h.delegations d b ne⟩
  change _ = ((s.rewards.currentRewards.insert v.operatorAddress ⟨[], 1⟩).find? b).isSome
  rw [SortedMap.find?_insert, keyed]
  split
  · next same => rw [← same, stored]; rfl
  · next other => exact h.validators b fun same => other (Option.some.inj same)

/-- A delegation whose starting info is gone, before the hook that writes it again. -/
theorem dropStart (h : Follows staking s ev none) {d : AccAddress} {a : ValAddress}
    (starts : s'.delegatorStartingInfos = s.delegatorStartingInfos.erase (toLex (a, d)))
    (currents : ∀ b, (s'.rewards.currentRewards.find? b).isSome =
      (s.rewards.currentRewards.find? b).isSome) :
    Follows staking s' ev (some (d, a)) := by
  refine ⟨fun b ne => (h.validators b ne).trans (currents b).symm, fun d' b ne => ?_⟩
  rw [starts, SortedMap.find?_erase, if_neg fun same => ne ?_]
  · exact h.delegations d' b (by simp)
  · obtain ⟨rfl, rfl⟩ := Prod.mk.inj (toLex_inj.mp same)
    rfl

/-- The delegation written under its own key, before the hook after it. -/
theorem setDelegation (h : Follows staking s ev (some (d, a))) {del : Staking.Delegation}
    (keyed : del.delegatorAddress = d ∧ del.validatorAddress = a) :
    Follows (staking.setDelegation del) s ev (some (d, a)) := by
  refine ⟨fun b ne => h.validators b ne, fun d' b ne => ?_⟩
  change ((staking.delegations.insert (Staking.dvKey del.delegatorAddress del.validatorAddress)
    del).find? (Staking.dvKey d' b)).isSome = _
  rw [SortedMap.find?_insert, keyed.1, keyed.2, if_neg fun same => ne ?_]
  · exact h.delegations d' b ne
  · obtain ⟨rfl, rfl⟩ := Staking.dvKey_inj same
    rfl

/-- The delegation deleted whose starting info is gone. -/
theorem deleteDelegation (h : Follows staking s ev (some (d, a))) {del : Staking.Delegation}
    (keyed : del.delegatorAddress = d ∧ del.validatorAddress = a)
    (absent : s.delegatorStartingInfos.find? (toLex (a, d)) = none) :
    Follows (staking.deleteDelegation del) s ev none := by
  refine ⟨fun b ne => h.validators b ne, fun d' b _ => ?_⟩
  change ((staking.delegations.erase (Staking.dvKey del.delegatorAddress del.validatorAddress)).find?
    (Staking.dvKey d' b)).isSome = _
  rw [SortedMap.find?_erase, keyed.1, keyed.2]
  split
  · next same =>
    obtain ⟨rfl, rfl⟩ := Staking.dvKey_inj same
    rw [absent]
    rfl
  · next other => exact h.delegations d' b fun same => other (by
      obtain ⟨rfl, rfl⟩ := Prod.mk.inj (Option.some.inj same)
      rfl)

/-- The hook after the delegation is written gives it its starting info. -/
theorem initializeDelegation (h : Follows staking s ev (some (d, a)))
    (stored : (staking.getDelegation d a).isSome) {ctx : Header}
    (hinit : s.initializeDelegation ctx staking a d = .ok s') : Follows staking s' ev none := by
  obtain ⟨currents, info, starts⟩ := Store.initializeDelegation_keys hinit
  refine ⟨fun b ne => by rw [currents]; exact h.validators b ne, fun d' b _ => ?_⟩
  rw [starts, SortedMap.find?_insert]
  split
  · next same =>
    obtain ⟨rfl, rfl⟩ := Prod.mk.inj (toLex_inj.mp same)
    exact stored
  · next other => exact h.delegations d' b fun same => other (by
      obtain ⟨rfl, rfl⟩ := Prod.mk.inj (Option.some.inj same)
      rfl)

/-- A validator written over a stored one. -/
theorem updateValidator (h : Follows staking s ev ed) {v v' : Staking.Validator}
    (stored : (staking.getValidator v'.operatorAddress).isSome) :
    Follows (staking.updateValidator v v') s ev ed := by
  refine h.of_staking (fun b => ?_) (fun d b => ?_)
  · rw [Staking.Store.getValidator_updateValidator]
    split
    · next same => rw [← same, stored]; rfl
    · rfl
  · simp only [Staking.Store.getDelegation, Staking.Store.delegations_updateValidator]

/-- A validator written over a stored one under its own address. -/
theorem setValidator (h : Follows staking s ev ed) {v : Staking.Validator}
    (stored : (staking.getValidator v.operatorAddress).isSome) :
    Follows (staking.setValidator v) s ev ed := by
  refine h.of_staking (fun b => ?_) (fun d b => rfl)
  rw [Staking.Store.getValidator_setValidator]
  split
  · next same => rw [← same, stored]; rfl
  · rfl

theorem deleteValidatorQueue (h : Follows staking s ev ed) (v : Staking.Validator) :
    Follows (staking.deleteValidatorQueue v) s ev ed := by
  unfold Staking.Store.deleteValidatorQueue
  dsimp only
  split <;> exact h.of_staking (fun _ => rfl) (fun _ _ => rfl)

/-- A validator removed, before the hook of its removal. -/
theorem deleteValidator (h : Follows staking s none ed) (a : ValAddress) (v : Staking.Validator) :
    Follows (staking.deleteValidator a v) s (some a) ed := by
  refine ⟨fun b ne => ?_, fun d b ne => h.delegations d b ne⟩
  rw [Staking.Store.getValidator_deleteValidator, if_neg fun same => ne (by rw [same])]
  exact h.validators b (by simp)

/-- The hook of a removal deletes the current rewards of the validator removed. -/
theorem afterValidatorRemoved (h : Follows staking s (some a) ed)
    (absent : staking.getValidator a = none) {k : Keeper} {ctx : Header} {L L' : Ledger}
    (hr : k.afterValidatorRemoved ctx L s a = .ok (L', s')) : Follows staking s' none ed := by
  obtain ⟨-, currents, starts, -⟩ := Keeper.afterValidatorRemoved_eq hr
  refine ⟨fun b _ => ?_, fun d b ne => by rw [starts]; exact h.delegations d b ne⟩
  rw [currents, SortedMap.find?_erase]
  split
  · next same => rw [← same, absent]; rfl
  · next other => exact h.validators b fun same => other (Option.some.inj same)

/-- A validator without delegations has no starting infos. -/
theorem no_starts (h : Follows staking s ev none)
    (undelegated : ∀ d, staking.getDelegation d a = none) :
    ∀ key info, s.delegatorStartingInfos.find? key = some info → (ofLex key).1 ≠ a := by
  intro key info found same
  have paired := h.delegations (ofLex key).2 a (by simp)
  rw [undelegated, ← same, Prod.mk.eta, toLex_ofLex, found] at paired
  cases paired

end Follows

/-- A validator that is not stored has no delegations: every delegation names a stored
validator. -/
theorem undelegated_of_absent {staking : Staking.Store} (hs : Staking.Shares staking)
    {a : ValAddress} (absent : staking.getValidator a = none) (d : AccAddress) :
    staking.getDelegation d a = none := by
  cases found : staking.getDelegation d a with
  | none => rfl
  | some del =>
    have stored := hs.stored _ _ found
    obtain ⟨-, named⟩ := Staking.dvKey_inj (hs.keyed _ _ found)
    rw [← named, absent] at stored
    cases stored

/-- With the counts exact and the records in step, `ReferenceCountInvariant` is not broken:
one reference for each validator, delegation and slash event. -/
theorem referenceCountInvariant_of_follows {w : World Store} (ha : Accounted w.ext)
    (hf : Follows w.store w.ext none none) : (referenceCountInvariant w).2 = false := by
  unfold referenceCountInvariant
  simp only [ha.total, hf.length_validators, hf.length_delegations, ne_eq, not_true_eq_false,
    decide_false]

/-! ## The hooks, one call at a time -/

namespace Keeper

variable {k : Keeper} {ctx : Header} {w w' : World Store} {L : Ledger} {s' : Store}

/-- A hook the staking keeper calls writes the ledger and the distribution store only. -/
theorem stakingKeeper_callHook {call : HookCall}
    (h : k.stakingKeeper.callHook ctx w call = .ok w') :
    k.hooks ctx w call = .ok (w'.ledger, w'.ext) ∧ w'.store = w.store := by
  unfold Staking.Keeper.callHook at h
  obtain ⟨⟨ledger, ext⟩, hook, h⟩ := Fallible.bind_eq_ok.mp h
  cases Fallible.pure_eq_ok.mp h
  exact ⟨SupplyKeeper.orPanic_eq_ok hook, rfl⟩

theorem hooks_afterValidatorCreated {a : ValAddress}
    (h : k.hooks ctx w (.afterValidatorCreated a) = .ok (L, s')) :
    ∃ v, w.store.getValidator a = some v ∧ s' = w.ext.initializeValidator v := by
  dsimp only [hooks] at h
  cases found : w.store.getValidator a with
  | none =>
    rw [found] at h
    exact absurd h Fallible.throw_ne_ok
  | some v =>
    rw [found] at h
    cases Fallible.pure_eq_ok.mp h
    exact ⟨v, rfl, rfl⟩

theorem hooks_beforeDelegationCreated {d : AccAddress} {a : ValAddress}
    (h : k.hooks ctx w (.beforeDelegationCreated d a) = .ok (L, s')) :
    ∃ v period, w.store.getValidator a = some v ∧ w.ext.incrementValidatorPeriod v = .ok (s', period) := by
  dsimp only [hooks] at h
  cases found : w.store.getValidator a with
  | none =>
    rw [found] at h
    exact absurd h Fallible.throw_ne_ok
  | some v =>
    rw [found] at h
    obtain ⟨⟨s₁, period⟩, incremented, h⟩ := Fallible.bind_eq_ok.mp h
    cases Fallible.pure_eq_ok.mp h
    exact ⟨v, period, rfl, incremented⟩

theorem hooks_beforeDelegationSharesModified {d : AccAddress} {a : ValAddress}
    (h : k.hooks ctx w (.beforeDelegationSharesModified d a) = .ok (L, s')) :
    ∃ del coins, w.store.getDelegation d a = some del ∧
      k.withdrawDelegationRewards ctx w.ledger w.ext (w.store.getValidator a) del =
        .ok (coins, L, s') := by
  dsimp only [hooks] at h
  cases found : w.store.getDelegation d a with
  | none =>
    rw [found] at h
    exact absurd h Fallible.throw_ne_ok
  | some del =>
    rw [found] at h
    obtain ⟨⟨coins, L₁, s₁⟩, withdrawn, h⟩ := Fallible.bind_eq_ok.mp h
    cases Fallible.pure_eq_ok.mp h
    exact ⟨del, coins, rfl, SupplyKeeper.orPanic_eq_ok withdrawn⟩

theorem hooks_afterDelegationModified {d : AccAddress} {a : ValAddress}
    (h : k.hooks ctx w (.afterDelegationModified d a) = .ok (L, s')) :
    w.ext.initializeDelegation ctx w.store a d = .ok s' := by
  dsimp only [hooks] at h
  obtain ⟨s₁, initialized, h⟩ := Fallible.bind_eq_ok.mp h
  cases Fallible.pure_eq_ok.mp h
  exact initialized

theorem hooks_beforeValidatorSlashed {a : ValAddress} {fraction : Dec}
    (h : k.hooks ctx w (.beforeValidatorSlashed a fraction) = .ok (L, s')) :
    w.ext.updateValidatorSlashFraction ctx w.store a fraction = .ok s' := by
  dsimp only [hooks] at h
  obtain ⟨s₁, updated, h⟩ := Fallible.bind_eq_ok.mp h
  cases Fallible.pure_eq_ok.mp h
  exact updated

theorem hooks_afterValidatorRemoved {consAddr : ConsAddress} {a : ValAddress}
    (h : k.hooks ctx w (.afterValidatorRemoved consAddr a) = .ok (L, s')) :
    k.afterValidatorRemoved ctx w.ledger w.ext a = .ok (L, s') := h

end Keeper


/-! ## The staking calls, with their hooks -/

/-- What the hooks keep between the two stores: exact counts, and the records in step. -/
structure Joint (w : World Store) : Prop where
  accounted : Accounted w.ext
  follows : Follows w.store w.ext none none

theorem Follows.exceptDel {staking : Staking.Store} {s : Store} {ev : Option ValAddress}
    (h : Follows staking s ev none) (d : AccAddress) (a : ValAddress) :
    Follows staking s ev (some (d, a)) :=
  ⟨h.validators, fun d' b _ => h.delegations d' b (by simp)⟩

/-- A validator written over itself, with nothing of x/distribution written. -/
theorem Joint.updateValidator {w : World Store} (hj : Joint w) {v v' : Staking.Validator}
    (stored : (w.store.getValidator v'.operatorAddress).isSome) :
    Joint (w.withStore (w.store.updateValidator v v')) :=
  ⟨hj.accounted, hj.follows.updateValidator stored⟩

namespace Keeper

variable {k : Keeper} {ctx : Header} {w w' : World Store}

/-- The rewards of a stored delegation withdrawn: the counts stay exact, and its starting info is
gone, the delegation left aside. -/
theorem withdrawDelegationRewards_joint (hs : Staking.Shares w.store) (hj : Joint w)
    {d : AccAddress} {a : ValAddress} {del : Staking.Delegation}
    (found : w.store.getDelegation d a = some del) {L L' : Ledger} {s' : Store}
    {val : Option Staking.Validator} {coins : Coins}
    (withdrawn : k.withdrawDelegationRewards ctx L w.ext val del = .ok (coins, L', s')) :
    Accounted s' ∧ Follows w.store s' none (some (d, a)) ∧
      s'.delegatorStartingInfos.find? (toLex (a, d)) = none := by
  obtain ⟨names, named⟩ := Staking.dvKey_inj (hs.keyed _ _ found)
  obtain ⟨currents, starts⟩ := withdrawDelegationRewards_keys withdrawn
  rw [← names, ← named] at starts
  refine ⟨hj.accounted.withdrawDelegationRewards withdrawn, hj.follows.dropStart starts currents, ?_⟩
  rw [starts, SortedMap.find?_erase, if_pos rfl]

/-- The hook before a delegation is created or its shares change: the counts stay exact, the
validator is stored, and the starting info of the delegation is gone, its delegation left
aside. -/
theorem beforeDelegation_joint (hs : Staking.Shares w.store) (hj : Joint w) {d : AccAddress}
    {a : ValAddress} {w₁ : World Store}
    (hook : (w.store.getDelegation d a = none ∧
        k.stakingKeeper.callHook ctx w (.beforeDelegationCreated d a) = .ok w₁) ∨
      (∃ delegation, w.store.getDelegation d a = some delegation ∧
        k.stakingKeeper.callHook ctx w (.beforeDelegationSharesModified d a) = .ok w₁)) :
    Accounted w₁.ext ∧ Follows w₁.store w₁.ext none (some (d, a)) ∧
      w₁.ext.delegatorStartingInfos.find? (toLex (a, d)) = none ∧
      (w.store.getValidator a).isSome ∧ w₁.store = w.store := by
  rcases hook with ⟨absent, hook⟩ | ⟨-, -, hook⟩
  · obtain ⟨hhook, store₁⟩ := stakingKeeper_callHook hook
    obtain ⟨v, period, stored, incremented⟩ := hooks_beforeDelegationCreated hhook
    obtain ⟨currents, starts⟩ := Store.incrementValidatorPeriod_keys incremented
    have paired := hj.follows.delegations d a (by simp)
    rw [absent] at paired
    refine ⟨hj.accounted.incrementValidatorPeriod incremented, ?_, ?_, by rw [stored]; rfl,
      store₁⟩
    · rw [store₁]
      exact (hj.follows.of_dist currents starts).exceptDel d a
    · rw [starts]
      cases found : w.ext.delegatorStartingInfos.find? (toLex (a, d)) with
      | none => rfl
      | some info => rw [found] at paired; cases paired
  · obtain ⟨hhook, store₁⟩ := stakingKeeper_callHook hook
    obtain ⟨del, coins, found, withdrawn⟩ := hooks_beforeDelegationSharesModified hhook
    obtain ⟨v, -, -, -, -, -, stored, -⟩ := withdrawDelegationRewards_eq withdrawn
    obtain ⟨ha₁, hf₁, fresh₁⟩ := withdrawDelegationRewards_joint hs hj found withdrawn
    exact ⟨ha₁, by rw [store₁]; exact hf₁, fresh₁, by rw [stored]; rfl, store₁⟩

/-- The hook after a delegation is written, its starting info gone: it is written again. -/
theorem afterDelegation_joint {w₀ : World Store} {d : AccAddress} {a : ValAddress}
    (ha : Accounted w₀.ext) (hf : Follows w₀.store w₀.ext none (some (d, a)))
    (fresh : w₀.ext.delegatorStartingInfos.find? (toLex (a, d)) = none)
    (stored : (w₀.store.getDelegation d a).isSome)
    (hook : k.stakingKeeper.callHook ctx w₀ (.afterDelegationModified d a) = .ok w') : Joint w' := by
  obtain ⟨hhook, store'⟩ := stakingKeeper_callHook hook
  have hinit := hooks_afterDelegationModified hhook
  refine ⟨ha.initializeDelegation fresh hinit, ?_⟩
  rw [store']
  exact hf.initializeDelegation stored hinit

/-- `Delegate`, with its two hooks, keeps the stores in step. -/
theorem delegate_joint (hs : Staking.Shares w.store) (hj : Joint w) {delAddr : AccAddress}
    {bondAmt : Int} {tokenSrc : BondStatus} {validator : Staking.Validator}
    {subtractAccount : Bool} {newShares : Dec}
    (h : k.stakingKeeper.delegate ctx w delAddr bondAmt tokenSrc validator subtractAccount =
      .ok (w', newShares)) : Joint w' := by
  obtain ⟨-, w₁, w₂, validator', first, store₂, ext₂, hadd, hook₂⟩ :=
    Staking.Keeper.delegate_hooks h
  obtain ⟨ha₁, hf₁, fresh₁, stored, store₁⟩ := beforeDelegation_joint hs hj first
  -- the delegation is written under its own key, new or not
  have keyed : ((w.store.getDelegation delAddr validator.operatorAddress).getD
      ⟨delAddr, validator.operatorAddress, 0⟩).delegatorAddress = delAddr ∧
      ((w.store.getDelegation delAddr validator.operatorAddress).getD
        ⟨delAddr, validator.operatorAddress, 0⟩).validatorAddress = validator.operatorAddress := by
    cases found : w.store.getDelegation delAddr validator.operatorAddress with
    | none => exact ⟨rfl, rfl⟩
    | some del =>
      obtain ⟨names, named⟩ := Staking.dvKey_inj (hs.keyed _ _ found)
      exact ⟨names.symm, named.symm⟩
  have address := (Staking.Validator.retains_addTokensFromDel hadd).address
  dsimp only at hook₂
  rw [keyed.1, keyed.2] at hook₂
  refine afterDelegation_joint (by show Accounted w₂.ext; rw [ext₂]; exact ha₁) ?_
    (by show w₂.ext.delegatorStartingInfos.find? _ = none; rw [ext₂]; exact fresh₁) ?_ hook₂
  · show Follows ((w.store.updateValidator validator validator').setDelegation _) w₂.ext none _
    rw [ext₂]
    rw [store₁] at hf₁
    exact (hf₁.updateValidator (by rw [address]; exact stored)).setDelegation ⟨rfl, rfl⟩
  · simp [World.withStore, Staking.Store.getDelegation, Staking.Store.setDelegation]

/-- A hook that x/distribution does not implement writes nothing. -/
theorem quietHook_eq {call : HookCall}
    (quiet : ∀ w : World Store, k.hooks ctx w call = .ok (w.ledger, w.ext))
    (hook : k.stakingKeeper.callHook ctx w call = .ok w') : w'.ext = w.ext ∧ w'.store = w.store := by
  obtain ⟨hhook, store'⟩ := stakingKeeper_callHook hook
  rw [quiet] at hhook
  exact ⟨(Prod.mk.inj (Except.ok.inj hhook)).2.symm, store'⟩

/-- A staking write that keeps the keys of validators and delegations, with a hook that writes
nothing. -/
theorem quietHook_joint {w₀ : World Store} (hj : Joint w₀) {staking : Staking.Store}
    {call : HookCall} (quiet : ∀ w : World Store, k.hooks ctx w call = .ok (w.ledger, w.ext))
    (hook : k.stakingKeeper.callHook ctx (w₀.withStore staking) call = .ok w')
    (follows : Follows staking w₀.ext none none) : Joint w' := by
  obtain ⟨ext', store'⟩ := quietHook_eq quiet hook
  exact ⟨by rw [ext']; exact hj.accounted, by rw [ext', store']; exact follows⟩

/-- A validator deleted, with the hook of its removal: its current rewards go, and no starting
info refers to it, since every delegation names a stored validator. -/
theorem deleteValidator_joint {w₀ : World Store} {a : ValAddress} {v : Staking.Validator}
    (hj : Joint w₀) (keyed : v.operatorAddress = a)
    (hs' : Staking.Shares (w₀.store.deleteValidator a v))
    (hook : k.stakingKeeper.callHook ctx (w₀.withStore (w₀.store.deleteValidator a v))
      (.afterValidatorRemoved v.consAddress v.operatorAddress) = .ok w') : Joint w' := by
  obtain ⟨hhook, store'⟩ := stakingKeeper_callHook hook
  have removed := hooks_afterValidatorRemoved hhook
  have hf := hj.follows.deleteValidator a v
  have absent : (w₀.store.deleteValidator a v).getValidator a = none := by
    rw [Staking.Store.getValidator_deleteValidator, if_pos rfl]
  rw [keyed] at removed
  refine ⟨hj.accounted.afterValidatorRemoved (hf.no_starts (undelegated_of_absent hs' absent))
    removed, ?_⟩
  rw [store']
  exact hf.afterValidatorRemoved absent removed

/-- `RemoveValidator` of a validator left without shares, with its hook. -/
theorem removeValidator_joint {w₀ : World Store} {a : ValAddress} (hj : Joint w₀)
    (keyed : ∀ v, w₀.store.getValidator a = some v → v.operatorAddress = a)
    (hs' : Staking.Shares w'.store)
    (h : k.stakingKeeper.removeValidator ctx w₀ a = .ok w') : Joint w' := by
  rcases Staking.Keeper.removeValidator_hook h with ⟨-, rfl⟩ | ⟨v, found, -, -, hook⟩
  · exact hj
  · have store' : w'.store = w₀.store.deleteValidator a v := Staking.Keeper.callHook_store hook
    exact deleteValidator_joint hj (keyed v found) (by rw [← store']; exact hs') hook

/-- `unbond`, with its hooks: the starting info goes before the shares change and comes back
with the delegation written, or not at all with the delegation deleted; a validator left
unbonded without shares goes with its current rewards. -/
theorem unbond_joint (hs : Staking.Shares w.store) (hst : Staking.Structural w.store)
    (hj : Joint w) {delAddr : AccAddress} {valAddr : ValAddress} {shares : Dec} {amount : Int}
    (nonneg : 0 ≤ shares.int)
    (h : k.stakingKeeper.unbond ctx w delAddr valAddr shares = .ok (w', amount)) : Joint w' := by
  obtain ⟨delegation, validator, validator₁, validator₂, w₁, w₂, w₃, found, hook, -, hval, hjail,
    hdel, hremove, hempty⟩ := Staking.Keeper.unbond_hooks h
  obtain ⟨-, hs'⟩ := Staking.Keeper.unbond_shares hs hst nonneg h
  obtain ⟨ha₁, hf₁, fresh₁, stored, store₁⟩ := beforeDelegation_joint hs hj (.inr ⟨_, found, hook⟩)
  obtain ⟨names, named⟩ := Staking.dvKey_inj (hs.keyed _ _ found)
  have address := hst.keyed _ _ hval
  -- the jail check writes the validator over itself
  obtain ⟨hf₂, ext₂, stored₂, address₁⟩ : Follows w₂.store w₂.ext none (some (delAddr, valAddr)) ∧
      w₂.ext = w₁.ext ∧ (w₂.store.getValidator valAddr).isSome ∧
      validator₁.operatorAddress = valAddr := by
    rcases Staking.Keeper.jailIfBelowMinSelfDelegation_eq hjail with ⟨rfl, rfl⟩ | ⟨-, rfl, rfl⟩
    · exact ⟨hf₁, rfl, by rw [store₁]; exact stored, address⟩
    · refine ⟨?_, rfl, ?_, address⟩
      · show Follows (w₁.store.updateValidator validator { validator with jailed := true }) w₁.ext
          none _
        exact hf₁.updateValidator (by rw [store₁, address]; exact stored)
      · show ((w₁.store.updateValidator validator { validator with jailed := true }).getValidator
          valAddr).isSome
        rw [Staking.Store.getValidator_updateValidator, if_pos address]
        rfl
  have ha₂ : Accounted w₂.ext := by rw [ext₂]; exact ha₁
  have fresh₂ : w₂.ext.delegatorStartingInfos.find? (toLex (valAddr, delAddr)) = none := by
    rw [ext₂]; exact fresh₁
  -- the delegation deleted or written back, with its hook
  have hj₃ : Joint w₃ ∧ (w₃.store.getValidator valAddr).isSome := by
    split at hdel
    · obtain ⟨w₄, hook₄, rfl⟩ := Staking.Keeper.removeDelegation_hook hdel
      obtain ⟨ext₄, -⟩ := quietHook_eq (fun _ => rfl) hook₄
      refine ⟨⟨?_, ?_⟩, stored₂⟩
      · show Accounted w₄.ext
        rw [ext₄]
        exact ha₂
      · show Follows (w₂.store.deleteDelegation _) w₄.ext none none
        rw [ext₄]
        exact hf₂.deleteDelegation ⟨names.symm, named.symm⟩ fresh₂
    · rw [← names, ← named] at hdel
      refine ⟨afterDelegation_joint ?_ ?_ ?_ ?_ hdel, ?_⟩
      · exact ha₂
      · exact hf₂.setDelegation ⟨rfl, rfl⟩
      · exact fresh₂
      · simp [World.withStore, Staking.Store.getDelegation, Staking.Store.setDelegation]
      · rw [Staking.Keeper.callHook_store hdel]
        exact stored₂
  -- the shares off the validator, and its removal if it is left unbonded without any
  obtain ⟨⟨ha₃, hf₃⟩, stored₃⟩ := hj₃
  have address₂ : validator₂.operatorAddress = valAddr :=
    (Staking.Validator.retains_removeDelShares hremove).address.trans address₁
  have hj₄ : Joint (w₃.withStore (w₃.store.updateValidator validator₁ validator₂)) :=
    ⟨ha₃, hf₃.updateValidator (by rw [address₂]; exact stored₃)⟩
  split at hempty
  · refine removeValidator_joint hj₄ (fun v found => ?_) hs' hempty
    rw [World.withStore, Staking.Keeper.getValidator_updateValidator_self] at found
    rw [← Option.some.inj found]
  · rw [← Fallible.pure_eq_ok.mp hempty]
    exact hj₄

/-- `Undelegate`: `unbond`, then an unbonding entry, which x/distribution does not read. -/
theorem undelegate_joint (hs : Staking.Shares w.store) (hst : Staking.Structural w.store)
    (hj : Joint w) {delAddr : AccAddress} {valAddr : ValAddress} {sharesAmount : Dec}
    {completionTime : Int} (nonneg : 0 ≤ sharesAmount.int)
    (h : k.stakingKeeper.undelegate ctx w delAddr valAddr sharesAmount =
      .ok (w', completionTime)) : Joint w' := by
  obtain ⟨validator, w₁, returnAmount, -, -, -, hunbond, -, ext, store⟩ :=
    Staking.Keeper.undelegate_world h
  have hj₁ := unbond_joint hs hst hj nonneg hunbond
  dsimp only at store
  refine ⟨by rw [ext]; exact hj₁.accounted, ?_⟩
  rw [ext, store]
  exact hj₁.follows.of_staking (fun _ => rfl) (fun _ _ => rfl)

/-- `BeginRedelegation`: `unbond` from the source, `Delegate` to the destination, and a
redelegation entry, which x/distribution does not read. -/
theorem beginRedelegation_joint (hs : Staking.Shares w.store) (hst : Staking.Structural w.store)
    (hj : Joint w) {delAddr : AccAddress} {valSrcAddr valDstAddr : ValAddress}
    {sharesAmount : Dec} {completionTime : Int} (nonneg : 0 ≤ sharesAmount.int)
    (h : k.stakingKeeper.beginRedelegation ctx w delAddr valSrcAddr valDstAddr sharesAmount =
      .ok (w', completionTime)) : Joint w' := by
  obtain ⟨dstValidator, srcValidator, w₁, w₂, returnAmount, sharesCreated, -, -, -, -,
    hunbond, -, hdelegate, ext, store⟩ := Staking.Keeper.beginRedelegation_world h
  obtain ⟨-, hs₁⟩ := Staking.Keeper.unbond_shares hs hst nonneg hunbond
  have hj₂ := delegate_joint hs₁ (unbond_joint hs hst hj nonneg hunbond) hdelegate
  refine ⟨by rw [ext]; exact hj₂.accounted, ?_⟩
  rw [ext]
  rcases store with store | ⟨height, store⟩
  · rw [store]
    exact hj₂.follows
  · dsimp only at store
    rw [store]
    exact hj₂.follows.of_staking (fun _ => rfl) (fun _ _ => rfl)

/-- The slashing module's jail writes the validator over itself. -/
theorem jail_joint {consAddr : ConsAddress} (hst : Staking.Structural w.store) (hj : Joint w)
    (h : Staking.Keeper.jail w consAddr = .ok w') : Joint w' := by
  unfold Staking.Keeper.jail at h
  obtain ⟨validator, hget, h⟩ := Fallible.bind_eq_ok.mp h
  obtain ⟨s, hjail, h⟩ := Fallible.bind_eq_ok.mp h
  obtain ⟨-, rfl⟩ := Staking.Keeper.jailValidator_eq_ok hjail
  have current := hst.current_of_getValidatorByConsAddr
    (Staking.Keeper.mustGetValidatorByConsAddr_eq_ok.mp hget)
  rw [← Fallible.pure_eq_ok.mp h, Staking.Store.jail_eq_updateValidator]
  exact hj.updateValidator (by dsimp only; rw [current]; rfl)

/-- And its unjail too. -/
theorem unjail_joint {consAddr : ConsAddress} (hst : Staking.Structural w.store) (hj : Joint w)
    (h : Staking.Keeper.unjail w consAddr = .ok w') : Joint w' := by
  unfold Staking.Keeper.unjail at h
  obtain ⟨validator, hget, h⟩ := Fallible.bind_eq_ok.mp h
  obtain ⟨s, hunjail, h⟩ := Fallible.bind_eq_ok.mp h
  obtain ⟨jailed, rfl⟩ := Staking.Keeper.unjailValidator_eq_ok hunjail
  have current := hst.current_of_getValidatorByConsAddr
    (Staking.Keeper.mustGetValidatorByConsAddr_eq_ok.mp hget)
  rw [← Fallible.pure_eq_ok.mp h, hst.unjail_eq_updateValidator current jailed]
  exact hj.updateValidator (by dsimp only; rw [current]; rfl)

/-- `MsgEditValidator` writes the validator over itself; its hook writes nothing. -/
theorem handleMsgEditValidator_joint {msg : Staking.MsgEditValidator}
    (hst : Staking.Structural w.store) (hj : Joint w)
    (h : k.stakingKeeper.handleMsgEditValidator ctx w msg = .ok w') : Joint w' := by
  obtain ⟨validator, description, commission, minSelfDelegation, found, -, -, -, w₁, hook, rfl⟩ :=
    Staking.Keeper.handleMsgEditValidator_hooks h
  have current := hst.current_of_getValidator found
  have ext₁ : w₁.ext = w.ext := by
    rcases hook with rfl | hook
    · rfl
    · exact (quietHook_eq (fun _ => rfl) hook).1
  refine ⟨by show Accounted w₁.ext; rw [ext₁]; exact hj.accounted, ?_⟩
  show Follows (w.store.setValidator _) w₁.ext none none
  rw [ext₁]
  exact hj.follows.setValidator (by dsimp only; rw [current]; rfl)

/-- `MsgCreateValidator`: a validator under a new address, given its current rewards by the
hook of its creation, then `Delegate`. -/
theorem handleMsgCreateValidator_joint {msg : Staking.MsgCreateValidator}
    (hs : Staking.Shares w.store) (hj : Joint w)
    (h : k.stakingKeeper.handleMsgCreateValidator ctx w msg = .ok w') : Joint w' := by
  obtain ⟨fresh, -, -, -, w₁, shares, hook, hdelegate⟩ :=
    Staking.Keeper.handleMsgCreateValidator_hooks h
  obtain ⟨hhook, store₁⟩ := stakingKeeper_callHook hook
  obtain ⟨v, stored, ext₁⟩ := hooks_afterValidatorCreated hhook
  have created : v = Staking.Keeper.createdValidator ctx msg := by
    simp only [World.withStore, Staking.Store.getValidator_setNewValidatorByPowerIndex,
      Staking.Store.getValidator_setValidatorByConsAddr, Staking.Store.getValidator_setValidator]
      at stored
    exact (Option.some.inj stored).symm
  subst created
  have absent : w.ext.rewards.currentRewards.find? msg.validatorAddress = none := by
    have paired := hj.follows.validators msg.validatorAddress (by simp)
    rw [fresh] at paired
    exact Option.not_isSome_iff_eq_none.mp (by rw [← paired]; simp)
  have hf : Follows (((w.store.setValidator (Staking.Keeper.createdValidator ctx msg)).setValidatorByConsAddr
      (Staking.Keeper.createdValidator ctx msg)).setNewValidatorByPowerIndex
      (Staking.Keeper.createdValidator ctx msg)) w.ext (some msg.validatorAddress) none :=
    hj.follows.create (fun b ne => by simp [Staking.Keeper.createdValidator, Staking.Validator.newValidator, ne.symm])
    (fun _ _ => rfl)
  have hj₁ : Joint w₁ := by
    refine ⟨by rw [ext₁]; exact hj.accounted.initializeValidator absent, ?_⟩
    rw [store₁, ext₁]
    exact hf.initializeValidator stored rfl
  have hs₁ : Staking.Shares w₁.store := by
    rw [store₁]
    exact hs.create (v := Staking.Keeper.createdValidator ctx msg) fresh rfl rfl
  exact delegate_joint hs₁ hj₁ hdelegate

/-- The hook before a validator changes writes nothing. -/
theorem beforeValidatorModified_joint (hj : Joint w) {a : ValAddress}
    (hook : k.stakingKeeper.callHook ctx w (.beforeValidatorModified a) = .ok w') : Joint w' := by
  obtain ⟨ext', store'⟩ := quietHook_eq (fun _ => rfl) hook
  exact ⟨by rw [ext']; exact hj.accounted, by rw [ext', store']; exact hj.follows⟩

/-- The hook before a slash records a slash event at a new period of the validator. -/
theorem beforeValidatorSlashed_joint (hst : Staking.Structural w.store) (hj : Joint w)
    {a : ValAddress} {fraction : Dec}
    (hook : k.stakingKeeper.callHook ctx w (.beforeValidatorSlashed a fraction) = .ok w') :
    Joint w' := by
  obtain ⟨hhook, store'⟩ := stakingKeeper_callHook hook
  have hupdate := hooks_beforeValidatorSlashed hhook
  obtain ⟨currents, starts⟩ := Store.updateValidatorSlashFraction_keys hupdate
  refine ⟨hj.accounted.updateValidatorSlashFraction (hst.keyed a) hupdate, ?_⟩
  rw [store']
  exact hj.follows.of_dist currents starts

/-- `Slash`: the scan of a past infraction unbonds from the destinations of redelegations, each
with its hooks; the hook before the slash records it; the validator loses tokens only. -/
theorem slash_joint {consAddr : ConsAddress} {infractionHeight power : Int} {slashFactor : Dec}
    (hs : Staking.Shares w.store) (hst : Staking.Structural w.store) (hj : Joint w)
    (h : k.stakingKeeper.slash ctx w consAddr infractionHeight power slashFactor = .ok w') :
    Joint w' := by
  rcases Staking.Keeper.slash_hooks h with rfl | ⟨validator, w₀, w₁, w₂, remaining, validator',
    factor, found, -, -, hook₀, scan, slashed, hremove, burned⟩
  · exact hj
  have current := hst.current_of_getValidatorByConsAddr found
  have store₀ := Staking.Keeper.callHook_store hook₀
  have start : Joint w₀ ∧ Staking.Shares w₀.store ∧ w.store.Keeps w₀.store ∧
      w₀.store.getValidator validator.operatorAddress = some validator := by
    rw [store₀]
    exact ⟨beforeValidatorModified_joint hj hook₀, hs, .refl hst, current⟩
  -- the scan keeps the stores in step, and the slashed validator as it was
  obtain ⟨hj₁, -, keeps₁, current₁⟩ : Joint w₁ ∧ Staking.Shares w₁.store ∧
      w.store.Keeps w₁.store ∧ w₁.store.getValidator validator.operatorAddress = some validator := by
    rcases scan with rfl | hscan
    · exact start
    refine Staking.Keeper.slashUnbondingsAndRedelegations_induction
      (fun w₂ : World Store => Joint w₂ ∧ Staking.Shares w₂.store ∧ w.store.Keeps w₂.store ∧
        w₂.store.getValidator validator.operatorAddress = some validator)
      (fun _ _ ⟨hj₂, rest⟩ => ⟨⟨hj₂.accounted, hj₂.follows⟩, rest⟩)
      (fun _ _ _ ⟨hj₂, hs₂, keeps, found'⟩ =>
        ⟨⟨hj₂.accounted, hj₂.follows.of_staking (fun _ => rfl) (fun _ _ => rfl)⟩,
          hs₂.of_eq rfl rfl rfl, keeps.frame rfl rfl rfl, found'⟩)
      ?_ start hscan
    rintro red mem entry mem' w₂ w₃ delegation amount ⟨hj₂, hs₂, keeps, found'⟩ hdel hunbond
    rw [store₀] at mem
    have nonneg : 0 ≤ (if delegation.shares < slashFactor.mul entry.sharesDst then
        delegation.shares else slashFactor.mul entry.sharesDst).int := by
      split
      · exact (hs₂.positive _ _ hdel).le
      · obtain ⟨key, stored, -⟩ := w.store.mem_getRedelegationsFromSrcValidator mem
        exact Dec.mul_nonneg factor (hs.sharesDst key red stored entry mem')
    obtain ⟨-, hs₃⟩ := Staking.Keeper.unbond_shares hs₂ keeps.structural nonneg hunbond
    obtain ⟨keeps', frame'⟩ := Staking.Keeper.unbond_keeps keeps.structural hunbond
    refine ⟨unbond_joint hs₂ keeps.structural hj₂ nonneg hunbond, hs₃, keeps.trans keeps', ?_⟩
    rw [frame' _ (hst.dst_ne_of_mem_getRedelegationsFromSrcValidator mem).symm]
    exact found'
  -- the slash event, then the validator written over itself
  obtain ⟨hj₂, store₂⟩ : Joint w₂ ∧ w₂.store = w₁.store := by
    rcases slashed with rfl | ⟨fraction, hook₁⟩
    · exact ⟨hj₁, rfl⟩
    · exact ⟨beforeValidatorSlashed_joint keeps₁.structural hj₁ hook₁,
        Staking.Keeper.callHook_store hook₁⟩
  obtain ⟨-, -, rfl⟩ := Staking.Validator.removeTokens_eq_ok hremove
  have hj' : Joint (w₂.withStore (w₂.store.updateValidator validator
      { validator with tokens := validator.tokens - max (min remaining validator.tokens) 0 })) :=
    hj₂.updateValidator (by dsimp only; rw [store₂, current₁]; rfl)
  rw [burned]
  exact ⟨hj'.accounted, hj'.follows⟩

/-- What the EndBlocker keeps: the stores in step, with the invariants of the staking store that
a removal needs. -/
theorem endBlockHooksClosed_joint :
    Staking.Keeper.EndBlockHooksClosed k.stakingKeeper ctx
      fun w => Joint w ∧ Staking.Shares w.store ∧ Staking.Structural w.store := by
  have c : Staking.Keeper.EndBlockHooksClosed k.stakingKeeper ctx
      fun w => Staking.Shares w.store ∧ Staking.Structural w.store :=
    Staking.Keeper.EndBlockClosed.hooks Staking.Keeper.endBlockClosed_shares
  -- the writes that keep the keys of validators and delegations
  have kept : ∀ (w : World Store) (staking : Staking.Store), Joint w →
      (∀ a, staking.getValidator a = w.store.getValidator a) →
      (∀ d a, staking.getDelegation d a = w.store.getDelegation d a) →
      Joint (w.withStore staking) := fun w _ hj vals dels =>
    ⟨hj.accounted, hj.follows.of_staking (fun a => congrArg Option.isSome (vals a))
      (fun d a => congrArg Option.isSome (dels d a))⟩
  refine
    { ledger := fun w L ⟨hj, hP⟩ => ⟨⟨hj.accounted, hj.follows⟩, c.ledger w L hP⟩
      bond := fun w w' a v ⟨hj, hP⟩ found notJailed status hook => by
        have address : (v.updateStatus .bonded).operatorAddress = a := hP.2.keyed a v found
        have hf : Follows (w.store.updateValidator v (v.updateStatus .bonded)) w.ext none none :=
          hj.follows.updateValidator (by rw [address, found]; rfl)
        exact ⟨quietHook_joint hj (fun _ => rfl) hook (hf.deleteValidatorQueue _),
          c.bond w w' a v hP found notJailed status hook⟩
      setLastPower := fun w a power ⟨hj, hP⟩ =>
        ⟨kept w _ hj (fun _ => rfl) (fun _ _ => rfl), c.setLastPower w a power hP⟩
      beginUnbonding := fun w w' a v time height ⟨hj, hP⟩ found status hook => by
        let v' := { v.updateStatus .unbonding with
          unbondingCompletionTime := time, unbondingHeight := height }
        have address : v'.operatorAddress = a := hP.2.keyed a v found
        have hf : Follows (w.store.updateValidator v v') w.ext none none :=
          hj.follows.updateValidator (by rw [address, found]; rfl)
        exact ⟨quietHook_joint hj (fun _ => rfl) hook (hf.of_staking (fun _ => rfl) (fun _ _ => rfl)),
          c.beginUnbonding w w' a v time height hP found status hook⟩
      deleteLastPower := fun w a ⟨hj, hP⟩ =>
        ⟨kept w _ hj (fun _ => rfl) (fun _ _ => rfl), c.deleteLastPower w a hP⟩
      setLastTotalPower := fun w power ⟨hj, hP⟩ =>
        ⟨kept w _ hj (fun _ => rfl) (fun _ _ => rfl), c.setLastTotalPower w power hP⟩
      completeUnbonding := fun w a v ⟨hj, hP⟩ found unbonding => by
        have address : (v.updateStatus .unbonded).operatorAddress = a := hP.2.keyed a v found
        exact ⟨⟨hj.accounted, hj.follows.setValidator (by rw [address, found]; rfl)⟩,
          c.completeUnbonding w a v hP found unbonding⟩
      remove := fun w w' a v ⟨hj, hP⟩ found unbonded tokens zero hook =>
        ⟨deleteValidator_joint hj (hP.2.keyed a v found)
          (Staking.Keeper.endBlockClosed_shares.remove _ a v hP found unbonded tokens zero).1 hook,
          c.remove w w' a v hP found unbonded tokens zero hook⟩
      eraseValidatorQueue := fun w time ⟨hj, hP⟩ =>
        ⟨kept w _ hj (fun _ => rfl) (fun _ _ => rfl), c.eraseValidatorQueue w time hP⟩
      dequeueUBD := fun w time ⟨hj, hP⟩ =>
        ⟨kept w _ hj (fun _ => rfl) (fun _ _ => rfl), c.dequeueUBD w time hP⟩
      completeUBD := fun w delAddr valAddr ubd entries ⟨hj, hP⟩ found =>
        ⟨⟨kept w _ hj (fun _ => rfl) (fun _ _ => rfl),
            (c.completeUBD w delAddr valAddr ubd entries hP found).1⟩,
          ⟨kept w _ hj (fun _ => rfl) (fun _ _ => rfl),
            (c.completeUBD w delAddr valAddr ubd entries hP found).2⟩⟩
      dequeueRedelegations := fun w time ⟨hj, hP⟩ =>
        ⟨kept w _ hj (fun _ => rfl) (fun _ _ => rfl), c.dequeueRedelegations w time hP⟩
      completeRedelegation := fun w delAddr valSrcAddr valDstAddr red time ⟨hj, hP⟩ found =>
        ⟨⟨kept w _ hj (fun _ => rfl) (fun _ _ => rfl),
            (c.completeRedelegation w delAddr valSrcAddr valDstAddr red time hP found).1⟩,
          ⟨kept w _ hj (fun _ => rfl) (fun _ _ => rfl),
            (c.completeRedelegation w delAddr valSrcAddr valDstAddr red time hP found).2⟩⟩ }

theorem endBlocker_joint (hs : Staking.Shares w.store) (hst : Staking.Structural w.store)
    (hj : Joint w) {updates : List Staking.ValidatorUpdate}
    (h : k.stakingKeeper.endBlocker ctx w = .ok (w', updates)) : Joint w' :=
  (Staking.Keeper.endBlocker_induction endBlockHooksClosed_joint ⟨hj, hs, hst⟩ h).1

theorem handleMsgDelegate_joint {msg : Staking.MsgDelegate} (hs : Staking.Shares w.store)
    (hj : Joint w) (h : k.stakingKeeper.handleMsgDelegate ctx w msg = .ok w') : Joint w' := by
  obtain ⟨validator, shares, -, -, hdelegate⟩ := Staking.Keeper.handleMsgDelegate_store h
  exact delegate_joint hs hj hdelegate

theorem handleMsgUndelegate_joint {msg : Staking.MsgUndelegate} (hs : Staking.Shares w.store)
    (hst : Staking.Structural w.store) (hj : Joint w) (valid : msg.validateBasic = none)
    (h : k.stakingKeeper.handleMsgUndelegate ctx w msg = .ok w') : Joint w' := by
  obtain ⟨shares, completionTime, hshares, hundelegate⟩ := Staking.Keeper.handleMsgUndelegate_store h
  exact undelegate_joint hs hst hj (Staking.Keeper.validateUnbondAmount_nonneg hs
    (Staking.Keeper.validateDelegationMsg_amount_pos valid) hshares) hundelegate

theorem handleMsgBeginRedelegate_joint {msg : Staking.MsgBeginRedelegate}
    (hs : Staking.Shares w.store) (hst : Staking.Structural w.store) (hj : Joint w)
    (valid : msg.validateBasic = none)
    (h : k.stakingKeeper.handleMsgBeginRedelegate ctx w msg = .ok w') : Joint w' := by
  obtain ⟨shares, completionTime, hshares, hredelegate⟩ :=
    Staking.Keeper.handleMsgBeginRedelegate_store h
  exact beginRedelegation_joint hs hst hj (Staking.Keeper.validateUnbondAmount_nonneg hs
    (Staking.Keeper.validateDelegationMsg_amount_pos valid) hshares) hredelegate

/-- Every successful staking event, with the distribution keeper's hooks, keeps the two stores in
step, from a staking store with its own invariants. -/
theorem stakingEvent_joint {e : Staking.Event} (hs : Staking.Shares w.store)
    (hst : Staking.Structural w.store) (hj : Joint w)
    (h : k.stakingKeeper.applyEvent ctx w e = .ok w') : Joint w' := by
  cases e with
  | deliver msg =>
    dsimp only [Staking.Keeper.applyEvent] at h
    split at h
    · exact absurd h Fallible.throw_ne_ok
    · next valid =>
      cases msg with
      | createValidator msg => exact handleMsgCreateValidator_joint hs hj h
      | editValidator msg => exact handleMsgEditValidator_joint hst hj h
      | delegate msg => exact handleMsgDelegate_joint hs hj h
      | beginRedelegate msg => exact handleMsgBeginRedelegate_joint hs hst hj valid h
      | undelegate msg => exact handleMsgUndelegate_joint hs hst hj valid h
  | endBlock =>
    obtain ⟨⟨w₁, updates⟩, hend, rfl⟩ := Fallible.map_eq_ok.mp h
    exact endBlocker_joint hs hst hj hend
  | slash consAddr infractionHeight power slashFactor => exact slash_joint hs hst hj h
  | jail consAddr => exact jail_joint hst hj h
  | unjail consAddr => exact unjail_joint hst hj h

/-! ## The messages and the BeginBlocker of x/distribution -/

/-- A write of x/distribution that keeps the records, the starting infos, the slash events, and
the keys and periods of the current rewards. -/
theorem periods_joint (hj : Joint w) {L : Ledger} {s' : Store}
    (historical : s'.historicalRewards = w.ext.historicalRewards)
    (periods : ∀ val, (s'.rewards.currentRewards.find? val).map ValidatorCurrentRewards.period =
      (w.ext.rewards.currentRewards.find? val).map ValidatorCurrentRewards.period)
    (starts : s'.delegatorStartingInfos = w.ext.delegatorStartingInfos)
    (slashes : s'.slashEvents = w.ext.slashEvents) : Joint { w with ledger := L, ext := s' } := by
  have currents : ∀ a, (s'.rewards.currentRewards.find? a).isSome =
      (w.ext.rewards.currentRewards.find? a).isSome := fun a => by
    simpa only [Option.isSome_map] using congrArg Option.isSome (periods a)
  exact ⟨hj.accounted.of_periods historical periods starts slashes,
    hj.follows.of_dist currents starts⟩

theorem setWithdrawAddr_eq {s s' : Store} {delegatorAddr withdrawAddr : AccAddress}
    (h : k.setWithdrawAddr s delegatorAddr withdrawAddr = .ok s') :
    s' = s.setDelegatorWithdrawAddr delegatorAddr withdrawAddr := by
  unfold setWithdrawAddr at h
  -- the two failures are closed by the split
  split_ifs at h
  exact (Fallible.pure_eq_ok.mp h).symm

/-- `WithdrawValidatorCommission` writes the commission and the outstanding rewards only. -/
theorem withdrawValidatorCommission_keeps {L L' : Ledger} {s s' : Store} {valAddr : ValAddress}
    {commission : Coins}
    (h : k.withdrawValidatorCommission ctx L s valAddr = .ok (commission, L', s')) :
    s'.historicalRewards = s.historicalRewards ∧
      s'.rewards.currentRewards = s.rewards.currentRewards ∧
      s'.delegatorStartingInfos = s.delegatorStartingInfos ∧ s'.slashEvents = s.slashEvents := by
  unfold withdrawValidatorCommission at h
  dsimp only at h
  split at h
  · exact absurd h Fallible.throw_ne_ok
  · obtain ⟨⟨commission₁, remainder⟩, -, h⟩ := Fallible.bind_eq_ok.mp h
    obtain ⟨outstanding, -, h⟩ := Fallible.bind_eq_ok.mp h
    obtain ⟨rest, -, h⟩ := Fallible.bind_eq_ok.mp h
    obtain ⟨L₁, -, h⟩ := Fallible.bind_eq_ok.mp h
    obtain ⟨-, paid⟩ := Prod.mk.inj (Fallible.pure_eq_ok.mp h)
    obtain ⟨-, rfl⟩ := Prod.mk.inj paid
    exact ⟨rfl, rfl, rfl, rfl⟩

/-- `MsgWithdrawDelegatorReward`: the starting info goes with the rewards withdrawn and comes
back at the period just ended. -/
theorem handleMsgWithdrawDelegatorReward_joint (hs : Staking.Shares w.store) (hj : Joint w)
    {delAddr : AccAddress} {valAddr : ValAddress}
    (h : k.handleMsgWithdrawDelegatorReward ctx w delAddr valAddr = .ok w') :
    Joint w' ∧ w'.store = w.store := by
  unfold handleMsgWithdrawDelegatorReward at h
  split at h
  · exact absurd h Fallible.throw_ne_ok
  split at h
  · exact absurd h Fallible.throw_ne_ok
  next del found =>
  obtain ⟨⟨coins, L, s₁⟩, withdrawn, h⟩ := Fallible.bind_eq_ok.mp h
  obtain ⟨s₂, hinit, h⟩ := Fallible.bind_eq_ok.mp h
  rw [← Fallible.pure_eq_ok.mp h]
  obtain ⟨ha₁, hf₁, fresh₁⟩ := withdrawDelegationRewards_joint hs hj found withdrawn
  exact ⟨⟨ha₁.initializeDelegation fresh₁ hinit,
    hf₁.initializeDelegation (by rw [found]; rfl) hinit⟩, rfl⟩

/-- Every message of x/distribution writes its own store only, and keeps it in step. -/
theorem handle_joint {msg : Msg} (hs : Staking.Shares w.store) (hj : Joint w)
    (h : k.handle ctx w msg = .ok w') : Joint w' ∧ w'.store = w.store := by
  cases msg with
  | setWithdrawAddress delegatorAddress withdrawAddress =>
    obtain ⟨s', hset, h⟩ := Fallible.bind_eq_ok.mp h
    rw [← Fallible.pure_eq_ok.mp h, setWithdrawAddr_eq hset]
    exact ⟨periods_joint hj rfl (fun _ => rfl) rfl rfl, rfl⟩
  | withdrawDelegatorReward delegatorAddress validatorAddress =>
    exact handleMsgWithdrawDelegatorReward_joint hs hj h
  | withdrawValidatorCommission validatorAddress =>
    obtain ⟨⟨commission, L, s'⟩, withdrawn, h⟩ := Fallible.bind_eq_ok.mp h
    rw [← Fallible.pure_eq_ok.mp h]
    obtain ⟨historical, currents, starts, slashes⟩ := withdrawValidatorCommission_keeps withdrawn
    exact ⟨periods_joint hj historical (fun val => by rw [currents]) starts slashes, rfl⟩

/-- The BeginBlocker allocates the fees of the last block into the rewards of the current
periods, and records the proposer. -/
theorem beginBlocker_joint (hj : Joint w) {proposer : ConsAddress} {votes : List (VoteInfo × Bool)}
    (h : k.beginBlocker ctx w proposer votes = .ok w') : Joint w' ∧ w'.store = w.store := by
  unfold beginBlocker at h
  obtain ⟨w₁, hallocate, h⟩ := Fallible.bind_eq_ok.mp h
  rw [← Fallible.pure_eq_ok.mp h]
  obtain ⟨hj₁, store₁⟩ : Joint w₁ ∧ w₁.store = w.store := by
    split at hallocate
    · obtain ⟨previousProposer, -, hallocate⟩ := Fallible.bind_eq_ok.mp hallocate
      obtain ⟨⟨L, feePool, rewards⟩, allocated, hallocate⟩ := Fallible.bind_eq_ok.mp hallocate
      rw [← Fallible.pure_eq_ok.mp hallocate]
      exact ⟨periods_joint hj rfl (allocateTokens_periods allocated) rfl rfl, rfl⟩
    · rw [← Fallible.pure_eq_ok.mp hallocate]
      exact ⟨hj, rfl⟩
  exact ⟨periods_joint hj₁ rfl (fun _ => rfl) rfl rfl, store₁⟩

end Keeper

/-! ## Chains of the two modules -/

/-- What happens to the two stores in a block: a staking event, with the distribution keeper's
hooks; a message of x/distribution in a transaction; or the BeginBlocker of x/distribution. -/
inductive Event where
  | staking (e : Staking.Event)
  | deliver (msg : Msg)
  | beginBlock (proposer : ConsAddress) (votes : List (VoteInfo × Bool))
  deriving DecidableEq, Repr

/-- The world after an event in a block with header `ctx`; a message whose `ValidateBasic`
fails is not delivered. -/
def Keeper.applyEvent (k : Keeper) (ctx : Header) (w : World Store) :
    Event → Except SdkError (World Store)
  | .staking e => k.stakingKeeper.applyEvent ctx w e
  | .deliver msg =>
    match msg.validateBasic with
    | some err => throw err
    | none => k.handle ctx w msg
  | .beginBlock proposer votes => k.beginBlocker ctx w proposer votes

/-- A run of events, each in the block of its header; the first that fails ends it. -/
def Keeper.applyEvents (k : Keeper) (w : World Store) :
    List (Header × Event) → Except SdkError (World Store)
  | [] => pure w
  | (ctx, e) :: rest => do k.applyEvents (← k.applyEvent ctx w e) rest

/-- The worlds a chain of the two modules reaches from empty stores, its events in any order. -/
inductive Reachable (k : Keeper) : World Store → Prop
  | genesis (params : Staking.Params) (ledger : Ledger) (feePool : FeePool) (distrParams : Params)
      (withdrawAddrEnabled : Bool) :
      Reachable k
        ⟨Staking.Store.empty params, ledger, Store.empty feePool distrParams withdrawAddrEnabled⟩
  | step {w w' : World Store} (ctx : Header) (e : Event) :
      Reachable k w → k.applyEvent ctx w e = .ok w' → Reachable k w'

/-- A successful run of events from a reachable world ends in a reachable world. -/
theorem Reachable.applyEvents {k : Keeper} :
    ∀ {w w' : World Store} {events : List (Header × Event)},
      Reachable k w → k.applyEvents w events = .ok w' → Reachable k w'
  | _, _, [], reach, h => by
    rw [Keeper.applyEvents, Fallible.pure_eq_ok] at h
    exact h ▸ reach
  | _, _, (ctx, e) :: rest, reach, h => by
    rw [Keeper.applyEvents] at h
    obtain ⟨w₁, happly, hrest⟩ := Fallible.bind_eq_ok.mp h
    exact Reachable.applyEvents (.step ctx e reach happly) hrest

theorem Accounted.empty (feePool : FeePool) (params : Params) (withdrawAddrEnabled : Bool) :
    Accounted (Store.empty feePool params withdrawAddrEnabled) where
  counted _ := rfl
  period_pos _ _ found := by cases found
  startBelow _ _ found := by cases found
  slashBelow _ _ found := by cases found

theorem Follows.empty (params : Staking.Params) (feePool : FeePool) (distrParams : Params)
    (withdrawAddrEnabled : Bool) :
    Follows (Staking.Store.empty params) (Store.empty feePool distrParams withdrawAddrEnabled)
      none none :=
  ⟨fun _ _ => rfl, fun _ _ _ => rfl⟩

namespace Keeper

variable {k : Keeper} {ctx : Header} {w w' : World Store}

/-- Every successful event keeps the two stores in step, and the invariants of the staking store
that the steps need. -/
theorem applyEvent_joint {e : Event} (hs : Staking.Shares w.store)
    (hst : Staking.Structural w.store) (hj : Joint w) (h : k.applyEvent ctx w e = .ok w') :
    Joint w' ∧ Staking.Shares w'.store ∧ Staking.Structural w'.store := by
  cases e with
  | staking e =>
    exact ⟨stakingEvent_joint hs hst hj h, Staking.Keeper.applyEvent_shares hs hst h,
      Staking.Keeper.applyEvent_structural hst h⟩
  | deliver msg =>
    dsimp only [applyEvent] at h
    split at h
    · exact absurd h Fallible.throw_ne_ok
    · obtain ⟨hj', store'⟩ := handle_joint hs hj h
      rw [store']
      exact ⟨hj', hs, hst⟩
  | beginBlock proposer votes =>
    obtain ⟨hj', store'⟩ := beginBlocker_joint hj h
    rw [store']
    exact ⟨hj', hs, hst⟩

end Keeper

/-- The run lemma: by induction on the chain, from the empty stores. -/
theorem Reachable.joint {k : Keeper} {w : World Store} (reach : Reachable k w) :
    Joint w ∧ Staking.Shares w.store ∧ Staking.Structural w.store := by
  induction reach with
  | genesis params ledger feePool distrParams withdrawAddrEnabled =>
    exact ⟨⟨Accounted.empty _ _ _, Follows.empty _ _ _ _⟩, Staking.Shares.empty params,
      Staking.Structural.empty params⟩
  | step ctx e _ happly ih =>
    obtain ⟨hj, hs, hst⟩ := ih
    exact Keeper.applyEvent_joint hs hst hj happly

/-- In every world a chain of x/staking and x/distribution reaches, every historical reference
count is the number of current rewards, starting infos and slash events that refer to its
period, and so `ReferenceCountInvariant` is not broken. -/
theorem reference_counts_hold {k : Keeper} {w : World Store} (reach : Reachable k w) :
    (∀ key, w.ext.referenceCount key = w.ext.references key) ∧
      (referenceCountInvariant w).2 = false := by
  obtain ⟨hj, -⟩ := reach.joint
  exact ⟨hj.accounted.counted, referenceCountInvariant_of_follows hj.accounted hj.follows⟩

/-- The distribution keeper of the chain of `Staking.RemovedDestination`, over its staking
pools, naming no address and blacklisting none. -/
def poolKeeper : Keeper := ⟨Staking.RemovedDestination.pools, fun _ => "", fun _ => false, "fee_collector"⟩

/-- That chain's genesis, with an empty distribution store. -/
def poolGenesis : World Store :=
  ⟨Staking.Store.empty Staking.RemovedDestination.params, Staking.RemovedDestination.ledger,
    Store.empty ⟨[]⟩ defaultGenesisParams true⟩

/-- The first four staking events of that chain, with the distribution keeper's hooks: `[10]` and
`[20]` create validators, the EndBlocker bonds `[10]`, and `[30]` delegates to `[10]`. -/
theorem reachable_with_delegations :
    ∃ w, Reachable poolKeeper w ∧
      (w.store.getValidator [10]).isSome ∧ (w.store.getValidator [20]).isSome ∧
      (w.store.getDelegation [10] [10]).isSome ∧ (w.store.getDelegation [30] [10]).isSome := by
  -- the model runs the four events and their hooks in the kernel
  have run : (poolKeeper.applyEvents poolGenesis
      ((Staking.RemovedDestination.trace.take 4).map fun e => (e.1, .staking e.2))).toOption.any
      (fun w => (w.store.getValidator [10]).isSome && (w.store.getValidator [20]).isSome &&
        (w.store.getDelegation [10] [10]).isSome && (w.store.getDelegation [30] [10]).isSome) =
      true := by
    decide +kernel
  obtain ⟨w, hrun, facts⟩ := (Option.any_eq_true _ _).mp run
  simp only [Bool.and_eq_true] at facts
  obtain ⟨⟨⟨first, second⟩, self⟩, delegated⟩ := facts
  exact ⟨w, (Reachable.genesis _ _ _ _ _).applyEvents (Fallible.toOption_eq_some.mp hrun), first,
    second, self, delegated⟩

theorem reference_counts_hold_with_delegations :
    ∃ w, Reachable poolKeeper w ∧
      (w.store.getValidator [10]).isSome ∧ (w.store.getValidator [20]).isSome ∧
      (w.store.getDelegation [10] [10]).isSome ∧ (w.store.getDelegation [30] [10]).isSome ∧
      ((∀ key, w.ext.referenceCount key = w.ext.references key) ∧
        (referenceCountInvariant w).2 = false) := by
  obtain ⟨w, reach, first, second, self, delegated⟩ := reachable_with_delegations
  exact ⟨w, reach, first, second, self, delegated, reference_counts_hold reach⟩

/-- In every world a chain of the two modules reaches, the hooks keep one record of
x/distribution for each record of x/staking: current rewards for exactly the stored validators,
and a starting info for exactly the stored delegations, from a period its validator has ended. -/
theorem records_follow_staking {k : Keeper} {w : World Store} (reach : Reachable k w) :
    (∀ a, (w.store.getValidator a).isSome = (w.ext.rewards.currentRewards.find? a).isSome) ∧
      (∀ d a, (w.store.getDelegation d a).isSome =
        (w.ext.delegatorStartingInfos.find? (toLex (a, d))).isSome) ∧
      ∀ d a info, w.ext.delegatorStartingInfos.find? (toLex (a, d)) = some info →
        ∃ current, w.ext.rewards.currentRewards.find? a = some current ∧
          info.previousPeriod < current.period := by
  obtain ⟨hj, -⟩ := reach.joint
  refine ⟨fun a => hj.follows.validators a (by simp), fun d a => hj.follows.delegations d a (by simp),
    fun d a info found => ?_⟩
  exact hj.accounted.startBelow _ info found

theorem records_follow_staking_with_delegations :
    ∃ w, Reachable poolKeeper w ∧
      (w.store.getValidator [10]).isSome ∧ (w.store.getValidator [20]).isSome ∧
      (w.store.getDelegation [10] [10]).isSome ∧ (w.store.getDelegation [30] [10]).isSome ∧
      ((∀ a, (w.store.getValidator a).isSome = (w.ext.rewards.currentRewards.find? a).isSome) ∧
        (∀ d a, (w.store.getDelegation d a).isSome =
          (w.ext.delegatorStartingInfos.find? (toLex (a, d))).isSome) ∧
        ∀ d a info, w.ext.delegatorStartingInfos.find? (toLex (a, d)) = some info →
          ∃ current, w.ext.rewards.currentRewards.find? a = some current ∧
            info.previousPeriod < current.period) := by
  obtain ⟨w, reach, first, second, self, delegated⟩ := reachable_with_delegations
  exact ⟨w, reach, first, second, self, delegated, records_follow_staking reach⟩

end Distribution

end Pocc
