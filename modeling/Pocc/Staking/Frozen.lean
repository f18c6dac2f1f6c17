import Pocc.Staking.Commission

/-!
# The frozen self-delegation of an operator

`Undelegate` and `BeginRedelegation` (x/staking/keeper/delegation.go) refuse, with
`ErrStillInFrozen`, to move a delegation of a validator's operator account to that validator
before `DefaultFrozenTime` (two years) has passed since the validator's `CreateTime`. The check
compares the delegator with the account of the validator address the message names; the
validator stored under that address has it as its operator address (`Structural.keyed`), so in
every reachable world the check catches exactly the operator's own delegation.

`CreateTime` is written once, by `MsgCreateValidator`, to the block time: a validator that an
event adds to the store was added by `MsgCreateValidator` (`applyEvent_created`), and every
event keeps the creation time of the validators it does not create (`CommissionStep`).

Result: `operator_self_delegation_lock`.
-/

namespace Pocc

namespace Staking

namespace Keeper

variable {τ : Type} {k : Keeper τ} {ctx : Header} {w w' : World τ}

/-! ## The two checks -/

section Lock

variable {valAddr : ValAddress} {v : Validator}
  (found : w.store.getValidator valAddr = some v)
  (frozen : ctx.time < v.createTime + defaultFrozenTime)

include found frozen

/-- `Undelegate` of a validator's own account from it, before the end of the frozen time. -/
theorem undelegate_frozen (sharesAmount : Dec) :
    k.undelegate ctx w valAddr valAddr sharesAmount = throw errStillInFrozen := by
  simp [undelegate, found, frozen]

/-- `BeginRedelegation` of a validator's own account from it, before the end of the frozen
time: the frozen check, or one of the checks before it, fails. -/
theorem beginRedelegation_frozen (valDstAddr : ValAddress) (sharesAmount : Dec)
    (r : World τ × Int) :
    k.beginRedelegation ctx w valAddr valAddr valDstAddr sharesAmount ≠ .ok r := by
  unfold beginRedelegation
  -- with the frozen check true, every branch up to it throws
  cases w.store.getValidator valDstAddr <;> simp only [found, frozen, and_self, if_true] <;>
    split_ifs <;> exact Fallible.throw_ne_ok

/-- `MsgUndelegate` of a validator's own account from it fails before the end of the frozen
time, whatever its amount. -/
theorem handleMsgUndelegate_frozen {msg : MsgUndelegate}
    (delegator : msg.delegatorAddress = valAddr) (validator : msg.validatorAddress = valAddr) :
    k.handleMsgUndelegate ctx w msg ≠ .ok w' := by
  intro h
  obtain ⟨shares, -, h⟩ := Fallible.bind_eq_ok.mp h
  split at h
  · exact Fallible.throw_ne_ok h
  · obtain ⟨⟨w₁, completionTime⟩, undelegated, -⟩ := Fallible.bind_eq_ok.mp h
    rw [delegator, validator, undelegate_frozen found frozen] at undelegated
    exact Fallible.throw_ne_ok undelegated

/-- `MsgBeginRedelegate` of a validator's own account from it fails before the end of the
frozen time, whatever its destination and amount. -/
theorem handleMsgBeginRedelegate_frozen {msg : MsgBeginRedelegate}
    (delegator : msg.delegatorAddress = valAddr) (source : msg.validatorSrcAddress = valAddr) :
    k.handleMsgBeginRedelegate ctx w msg ≠ .ok w' := by
  intro h
  obtain ⟨shares, -, h⟩ := Fallible.bind_eq_ok.mp h
  split at h
  · exact Fallible.throw_ne_ok h
  · obtain ⟨r, redelegated, -⟩ := Fallible.bind_eq_ok.mp h
    rw [delegator, source] at redelegated
    exact beginRedelegation_frozen found frozen _ _ r redelegated

end Lock

/-! ## Where validators come from -/

/-- A validator that an event adds to the store was added by `MsgCreateValidator`: every other
event only rewrites the records it finds. -/
theorem applyEvent_created {e : Event} (hs : Structural w.store)
    (h : k.applyEvent ctx w e = .ok w') {a : ValAddress} {v' : Validator}
    (found' : w'.store.getValidator a = some v') (missing : w.store.getValidator a = none) :
    ∃ msg, e = .deliver (.createValidator msg) := by
  -- an event that keeps every record's configuration adds none
  have kept : w.store.Evolves w'.store → False := fun evolves => by
    obtain ⟨v, found, -⟩ := evolves a v' found'
    rw [missing] at found
    cases found
  cases e with
  | deliver msg =>
    dsimp only [applyEvent] at h
    split at h
    · exact absurd h Fallible.throw_ne_ok
    · cases msg with
      | createValidator msg => exact ⟨msg, rfl⟩
      | editValidator msg =>
        -- the edit writes back the record found at the message's address
        obtain ⟨validator, description, commission, minSelfDelegation, found, -, -, -, store⟩ :=
          handleMsgEditValidator_store h
        rw [store, Store.getValidator_setValidator] at found'
        split at found'
        · next here =>
          rw [← here, hs.keyed _ validator found, found] at missing
          cases missing
        · rw [missing] at found'
          cases found'
      | delegate msg => exact (kept (handleMsgDelegate_keeps hs h).evolves).elim
      | beginRedelegate msg => exact (kept (handleMsgBeginRedelegate_keeps hs h).evolves).elim
      | undelegate msg => exact (kept (handleMsgUndelegate_keeps hs h).evolves).elim
  | endBlock =>
    obtain ⟨⟨w₁, updates⟩, hend, rfl⟩ := Fallible.map_eq_ok.mp h
    exact (kept (endBlocker_keeps hs hend).evolves).elim
  | slash consAddr infractionHeight power slashFactor =>
    exact (kept (slash_keeps hs h).evolves).elim
  | jail consAddr => exact (kept (jail_keeps hs h).evolves).elim
  | unjail consAddr => exact (kept (unjail_keeps hs h).evolves).elim

end Keeper

/-- The operator lock in every reachable world: before `DefaultFrozenTime` has passed since a
stored validator's creation, neither `Undelegate` nor `BeginRedelegation` of its operator's
account from it succeeds, as keeper calls or as delivered messages, so they leave the
operator's delegation as it is; and every event keeps the creation time of each validator it
does not add, and a validator is added only by `MsgCreateValidator`, with the block time as its
creation time. -/
theorem operator_self_delegation_lock {τ : Type} {k : Keeper τ} {w : World τ}
    (reach : Reachable k w) :
    (∀ (ctx : Header) valAddr v, w.store.getValidator valAddr = some v →
      ctx.time < v.createTime + defaultFrozenTime →
      (∀ sharesAmount r, k.undelegate ctx w v.operatorAddress valAddr sharesAmount ≠ .ok r) ∧
      (∀ valDstAddr sharesAmount r,
        k.beginRedelegation ctx w v.operatorAddress valAddr valDstAddr sharesAmount ≠ .ok r) ∧
      (∀ msg : MsgUndelegate, msg.delegatorAddress = v.operatorAddress →
        msg.validatorAddress = valAddr →
        ∀ w', k.applyEvent ctx w (.deliver (.undelegate msg)) ≠ .ok w') ∧
      ∀ msg : MsgBeginRedelegate, msg.delegatorAddress = v.operatorAddress →
        msg.validatorSrcAddress = valAddr →
        ∀ w', k.applyEvent ctx w (.deliver (.beginRedelegate msg)) ≠ .ok w') ∧
    ∀ ctx e w', k.applyEvent ctx w e = .ok w' → ∀ a v', w'.store.getValidator a = some v' →
      (∃ v, w.store.getValidator a = some v ∧ v'.createTime = v.createTime) ∨
        (w.store.getValidator a = none ∧ v'.createTime = ctx.time ∧
          ∃ msg, e = .deliver (.createValidator msg)) := by
  have hs := reach.structural
  refine ⟨fun ctx valAddr v found frozen => ?_, fun ctx e w' h a v' found' => ?_⟩
  · -- the validator found under `valAddr` has it as its operator address
    rw [hs.keyed valAddr v found]
    refine ⟨fun sharesAmount r => ?_, Keeper.beginRedelegation_frozen found frozen,
      fun msg delegator validator w' h => ?_, fun msg delegator source w' h => ?_⟩
    · rw [Keeper.undelegate_frozen found frozen]
      exact Fallible.throw_ne_ok
    · simp only [Keeper.applyEvent] at h
      split at h
      · exact Fallible.throw_ne_ok h
      · exact Keeper.handleMsgUndelegate_frozen found frozen delegator validator h
    · simp only [Keeper.applyEvent] at h
      split at h
      · exact Fallible.throw_ne_ok h
      · exact Keeper.handleMsgBeginRedelegate_frozen found frozen delegator source h
  · rcases Keeper.applyEvent_commissionStep hs h a v' found' with
      ⟨missing, created, -⟩ | ⟨v, found, same, -⟩
    · exact .inr ⟨missing, created, Keeper.applyEvent_created hs h found' missing⟩
    · exact .inl ⟨v, found, same⟩

open RemovedDestination in
theorem operator_self_delegation_lock_two_validators :
    ∃ w, Reachable (Keeper.withoutHooks pools) w ∧
      (w.store.getValidator [10]).isSome ∧ (w.store.getDelegation [10] [10]).isSome ∧
      ((∀ (ctx : Header) valAddr v, w.store.getValidator valAddr = some v →
        ctx.time < v.createTime + defaultFrozenTime →
        (∀ sharesAmount r,
          (Keeper.withoutHooks pools).undelegate ctx w v.operatorAddress valAddr sharesAmount ≠
            .ok r) ∧
        (∀ valDstAddr sharesAmount r, (Keeper.withoutHooks pools).beginRedelegation ctx w
          v.operatorAddress valAddr valDstAddr sharesAmount ≠ .ok r) ∧
        (∀ msg : MsgUndelegate, msg.delegatorAddress = v.operatorAddress →
          msg.validatorAddress = valAddr →
          ∀ w', (Keeper.withoutHooks pools).applyEvent ctx w (.deliver (.undelegate msg)) ≠ .ok w') ∧
        ∀ msg : MsgBeginRedelegate, msg.delegatorAddress = v.operatorAddress →
          msg.validatorSrcAddress = valAddr → ∀ w',
            (Keeper.withoutHooks pools).applyEvent ctx w (.deliver (.beginRedelegate msg)) ≠
              .ok w') ∧
      ∀ ctx e w', (Keeper.withoutHooks pools).applyEvent ctx w e = .ok w' →
        ∀ a v', w'.store.getValidator a = some v' →
          (∃ v, w.store.getValidator a = some v ∧ v'.createTime = v.createTime) ∨
          (w.store.getValidator a = none ∧ v'.createTime = ctx.time ∧
            ∃ msg, e = .deliver (.createValidator msg))) := by
  obtain ⟨w, reach, first, -, self, -⟩ := reachable_two_validators
  exact ⟨w, reach, first, self, operator_self_delegation_lock reach⟩

end Staking

end Pocc
