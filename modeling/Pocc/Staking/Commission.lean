import Pocc.Staking.PowerIndex
import Pocc.Distribution.Allocation

/-!
# Commission rates over a chain

A validator's commission is set by `MsgCreateValidator`, checked by `CommissionRates.Validate`,
and its rate is changed by `MsgEditValidator` under `Commission.ValidateNewRate`; no other
event writes it (`Store.Evolves`). So in every reachable world (`commission_bounds`):

* every stored validator has `0 ≤ rate ≤ maxRate ≤ 1` and `0 ≤ maxChangeRate ≤ maxRate`;
* every event keeps the creation time, the maximum rate and the maximum change rate of each
  validator it does not create, and changes a rate only a day or more after the time of the
  last change, by an increase of at most the maximum change rate, recording the time of the
  change (`CommissionStep`); a validator it creates has the block time as its creation time
  and as the time of its last change, so its first change also comes a day after its creation;
* so the split of `AllocateTokensToValidator` by the rate of any stored validator,
  `tokens.Sub(tokens.MulDec(rate))`, does not panic on tokens sorted with non-negative amounts.
-/

namespace Pocc

namespace Staking

/-- How a commission may change in an event at block time `time`: the bounds stay; the rate
and the time of its last change stay, or the rate changes a day or more after that time, up by
at most the maximum change rate, and the block time becomes the time of the last change. -/
structure Commission.Step (time : Int) (c c' : Commission) : Prop where
  maxRate : c'.maxRate = c.maxRate
  maxChangeRate : c'.maxChangeRate = c.maxChangeRate
  change : c' = c ∨
    c.updateTime + 60 * 60 * 24 ≤ time ∧ c'.rate - c.rate ≤ c.maxChangeRate ∧ c'.updateTime = time

theorem Commission.Step.refl (time : Int) (c : Commission) : c.Step time c :=
  ⟨rfl, rfl, .inl rfl⟩

/-- A new rate that `ValidateNewRate` accepts at block time `time` is a step. -/
theorem Commission.step_of_validateNewRate {c : Commission} {newRate : Dec} {time : Int}
    (h : c.validateNewRate newRate time = none) :
    c.Step time { c with rate := newRate, updateTime := time } := by
  unfold Commission.validateNewRate at h
  split_ifs at h with early rateNeg rateHigh changeHigh
  exact ⟨rfl, rfl, .inr ⟨by omega, not_lt.mp changeHigh, rfl⟩⟩

/-- What an event at block time `time` may do to the validator stored at each address: create
it at `time`, or keep its creation time and change its commission by a step. -/
def CommissionStep (time : Int) (s s' : Store) : Prop :=
  ∀ a v', s'.getValidator a = some v' →
    (s.getValidator a = none ∧ v'.createTime = time ∧ v'.commission.updateTime = time) ∨
      ∃ v, s.getValidator a = some v ∧ v'.createTime = v.createTime ∧
        v.commission.Step time v'.commission

/-- A record with the configuration of another has its creation time and its commission. -/
theorem Validator.step_of_config {v v' : Validator} (config : v'.config = v.config) (time : Int) :
    v'.createTime = v.createTime ∧ v.commission.Step time v'.commission := by
  have commission : v'.commission = v.commission := congrArg (fun config => config.2.1) config
  refine ⟨congrArg (fun config => config.2.2.2.1) config, ?_⟩
  rw [commission]
  exact .refl time _

/-- An event that writes no validator's configuration changes no commission. -/
theorem Store.Evolves.commissionStep {s s' : Store} (h : s.Evolves s') (time : Int) :
    CommissionStep time s s' := by
  intro a v' found'
  obtain ⟨v, found, config⟩ := h a v' found'
  exact .inr ⟨v, found, Validator.step_of_config config time⟩

namespace Keeper

variable {τ : Type} {k : Keeper τ} {ctx : Header} {w w' : World τ}

/-- `MsgCreateValidator` creates its validator at the block time, with the block time as the
time of its last commission change, and changes no other commission. -/
theorem handleMsgCreateValidator_commissionStep {msg : MsgCreateValidator}
    (hs : Structural w.store) (h : k.handleMsgCreateValidator ctx w msg = .ok w') :
    CommissionStep ctx.time w.store w'.store := by
  obtain ⟨fresh, keeps⟩ := handleMsgCreateValidator_keeps hs h
  intro a v' found'
  obtain ⟨v, found, config⟩ := keeps.evolves a v' found'
  simp only [Store.getValidator_setNewValidatorByPowerIndex,
    Store.getValidator_setValidatorByConsAddr, Store.getValidator_setValidator] at found
  split at found
  · next here =>
    -- the new record: its creation and commission times are the block time
    cases found
    refine .inl ⟨here ▸ fresh, congrArg (fun config => config.2.2.2.1) config, ?_⟩
    exact congrArg (fun config => config.2.1.updateTime) config
  · exact .inr ⟨v, found, Validator.step_of_config config ctx.time⟩

/-- `MsgEditValidator` changes only the commission of the validator it edits, by a step. -/
theorem handleMsgEditValidator_commissionStep {msg : MsgEditValidator} (hs : Structural w.store)
    (h : k.handleMsgEditValidator ctx w msg = .ok w') :
    CommissionStep ctx.time w.store w'.store := by
  obtain ⟨validator, description, commission, minSelfDelegation, found, -, rate, -, store⟩ :=
    handleMsgEditValidator_store h
  intro a v' found'
  rw [store, Store.getValidator_setValidator] at found'
  split at found'
  · next here =>
    cases found'
    refine .inr ⟨validator, by rw [← here]; exact hs.current_of_getValidator found, rfl, ?_⟩
    rcases rate with ⟨-, rfl⟩ | ⟨newRate, -, valid, rfl⟩
    · exact .refl _ _
    · exact Commission.step_of_validateNewRate valid
  · exact .inr ⟨v', found', rfl, .refl _ _⟩

/-- Every successful event is a `CommissionStep` at the block time. -/
theorem applyEvent_commissionStep {e : Event} (hs : Structural w.store)
    (h : k.applyEvent ctx w e = .ok w') : CommissionStep ctx.time w.store w'.store := by
  cases e with
  | deliver msg =>
    dsimp only [applyEvent] at h
    split at h
    · exact absurd h Fallible.throw_ne_ok
    · cases msg with
      | createValidator msg => exact handleMsgCreateValidator_commissionStep hs h
      | editValidator msg => exact handleMsgEditValidator_commissionStep hs h
      | delegate msg => exact (handleMsgDelegate_keeps hs h).evolves.commissionStep _
      | beginRedelegate msg => exact (handleMsgBeginRedelegate_keeps hs h).evolves.commissionStep _
      | undelegate msg => exact (handleMsgUndelegate_keeps hs h).evolves.commissionStep _
  | endBlock =>
    obtain ⟨⟨w₁, updates⟩, hend, rfl⟩ := Fallible.map_eq_ok.mp h
    exact (endBlocker_keeps hs hend).evolves.commissionStep _
  | slash consAddr infractionHeight power slashFactor =>
    exact (slash_keeps hs h).evolves.commissionStep _
  | jail consAddr => exact (jail_keeps hs h).evolves.commissionStep _
  | unjail consAddr => exact (unjail_keeps hs h).evolves.commissionStep _

end Keeper

/-- In every reachable world: every commission is within its bounds; every event changes a
commission only by a step at its block time, or creates the validator at that time; and the
commission split of `AllocateTokensToValidator` by the rate of any stored validator does not
panic on tokens sorted with non-negative amounts. -/
theorem commission_bounds {τ : Type} {k : Keeper τ} {w : World τ} (reach : Reachable k w) :
    (∀ a v, w.store.getValidator a = some v → v.commission.Bounded) ∧
      (∀ ctx e w', k.applyEvent ctx w e = .ok w' → CommissionStep ctx.time w.store w'.store) ∧
      ∀ a v, w.store.getValidator a = some v → ∀ tokens : DecCoins, CoinSet.Sorted tokens →
        (∀ c ∈ tokens, 0 ≤ c.amount) →
        ∃ shared, tokens.sub (tokens.mulDec v.commission.rate) = .ok shared := by
  have hs := reach.structural
  refine ⟨hs.commission, fun ctx e w' h => Keeper.applyEvent_commissionStep hs h, ?_⟩
  intro a v found tokens sorted nonneg
  obtain ⟨rateNonneg, rateLe, maxLe, -, -⟩ := hs.commission a v found
  obtain ⟨shared, hsub, -⟩ := DecCoins.sub_mulDec sorted nonneg rateNonneg (rateLe.trans maxLe)
  exact ⟨shared, hsub⟩

open RemovedDestination in
theorem commission_bounds_two_validators :
    ∃ w, Reachable (Keeper.withoutHooks pools) w ∧
      (w.store.getValidator [10]).isSome ∧ (w.store.getValidator [20]).isSome ∧
      ((∀ a v, w.store.getValidator a = some v → v.commission.Bounded) ∧
        (∀ ctx e w', (Keeper.withoutHooks pools).applyEvent ctx w e = .ok w' →
          CommissionStep ctx.time w.store w'.store) ∧
        ∀ a v, w.store.getValidator a = some v → ∀ tokens : DecCoins, CoinSet.Sorted tokens →
          (∀ c ∈ tokens, 0 ≤ c.amount) →
          ∃ shared, tokens.sub (tokens.mulDec v.commission.rate) = .ok shared) := by
  obtain ⟨w, reach, first, second, -, -⟩ := reachable_two_validators
  exact ⟨w, reach, first, second, commission_bounds reach⟩

end Staking

end Pocc
