import Pocc.Staking.Commission

/-!
# Slashing a redelegation whose destination `unbond` removes

x/staking/keeper/slash.go, `slashRedelegation`: for each entry of a redelegation from the
slashed validator, the slashed shares are unbonded from the destination validator, and the
destination is read back to choose the pool to burn their tokens from:

    tokensToBurn, err := k.unbond(ctx, redelegation.DelegatorAddress, redelegation.ValidatorDstAddress, sharesToUnbond)
    ...
    dstValidator, found := k.GetValidator(ctx, redelegation.ValidatorDstAddress)
    if !found {
        panic("destination validator not found")
    }

But `unbond` removes a validator left unbonded without delegator shares
(`unbond_removes_iff`). So an entry whose unbond takes the last shares of an unbonded
destination panics (`unbondRedelegationEntry_panics`), and with it `Slash` and the
BeginBlocker that calls it.

`slash_panics_on_removed_destination` reaches such a world from genesis with no hooks, in one
validator slot: a delegator redelegates from the bonded validator to the unbonded one, whose
operator then undelegates all its own shares (after the frozen period), so the redelegated
shares are the last ones. Slashing the source for an infraction at the height of the
redelegation, with factor one, unbonds them and panics.
-/

namespace Pocc

namespace Staking

namespace Keeper

variable {τ : Type} {k : Keeper τ} {ctx : Header} {w w' : World τ}

/-- After a successful `unbond`, the validator is gone exactly when the unbond left it unbonded
without delegator shares. -/
theorem unbond_removes_iff {delAddr : AccAddress} {valAddr : ValAddress} {shares : Dec}
    {amount : Int} (hs : Structural w.store)
    (h : k.unbond ctx w delAddr valAddr shares = .ok (w', amount)) :
    w'.store.getValidator valAddr = none ↔ ∃ v, w.store.getValidator valAddr = some v ∧
      (v.delegatorShares - shares).isZero ∧ v.isUnbonded = true := by
  obtain ⟨delegation, validator, validator₁, validator₂, s₁, -, -, found, jail, hremove, removed,
    kept⟩ := unbond_store h
  have address : validator.operatorAddress = valAddr := hs.keyed _ _ found
  obtain ⟨-, rfl⟩ := Validator.removeDelShares_eq_ok hremove
  -- the jail check changes neither the shares nor the status
  obtain ⟨shares₁, status₁, address₁⟩ : validator₁.delegatorShares = validator.delegatorShares ∧
      validator₁.status = validator.status ∧ validator₁.operatorAddress = validator.operatorAddress := by
    rcases jail with ⟨-, rfl⟩ | ⟨-, rfl, -⟩ <;> exact ⟨rfl, rfl, rfl⟩
  have iff : (validator₁.delegatorShares - shares).isZero ∧ validator₁.isUnbonded = true ↔
      ∃ v, w.store.getValidator valAddr = some v ∧
        (v.delegatorShares - shares).isZero ∧ v.isUnbonded = true := by
    simp only [found, shares₁, Validator.isUnbonded, status₁, Option.some.injEq, exists_eq_left']
  by_cases empty : (validator₁.delegatorShares - shares).isZero ∧ validator₁.isUnbonded = true
  · obtain ⟨-, store⟩ := removed empty
    rw [store, Store.getValidator_deleteValidator, if_pos (address₁.trans address)]
    exact ⟨fun _ => iff.mp empty, fun _ => rfl⟩
  · obtain ⟨v', stored⟩ : ∃ v', w'.store.getValidator valAddr = some v' := by
      rw [kept empty, ← address, ← address₁]
      exact ⟨_, getValidator_updateValidator_self _ _ _⟩
    rw [stored]
    exact ⟨fun h => absurd h (Option.some_ne_none _), fun h => absurd (iff.mpr h) empty⟩

/-- One entry of `slashRedelegation` panics whenever the `unbond` it makes succeeds and takes
the last delegator shares of an unbonded destination: `unbond` removes the destination, and
the entry reads it back to choose the pool to burn from. -/
theorem unbondRedelegationEntry_panics {red : Redelegation} {sharesToUnbond : Dec}
    {delegation : Delegation} {dst : Validator} {amount : Int} (hs : Structural w.store)
    (nonzero : ¬ sharesToUnbond.isZero)
    (found : w.store.getDelegation red.delegatorAddress red.validatorDstAddress = some delegation)
    (foundDst : w.store.getValidator red.validatorDstAddress = some dst)
    (unbonded : dst.isUnbonded = true)
    (hunbond : k.unbond ctx w red.delegatorAddress red.validatorDstAddress
      (if delegation.shares < sharesToUnbond then delegation.shares else sharesToUnbond) =
        .ok (w', amount))
    (empty : (dst.delegatorShares -
      (if delegation.shares < sharesToUnbond then delegation.shares else sharesToUnbond)).isZero) :
    k.unbondRedelegationEntry ctx red sharesToUnbond w =
      throw (.panic "destination validator not found") := by
  have removed : w'.store.getValidator red.validatorDstAddress = none :=
    (unbond_removes_iff hs hunbond).mpr ⟨dst, foundDst, empty, unbonded⟩
  unfold unbondRedelegationEntry
  rw [if_neg nonzero]
  -- the unbond succeeds; the destination is read back after it
  simp only [found, SupplyKeeper.orPanic, hunbond, bind, Except.bind, removed]

end Keeper

/-! ## A reachable world where `Slash` panics

The chain of `RemovedDestination.trace` (Staking/Chain.lean), then the slash. -/

open RemovedDestination in
/-- After the trace, slashing the bonded validator `[11]` at height 11 for an infraction at
height 10, with factor one, panics. -/
theorem slash_panics_on_removed_destination :
    ∃ w, Reachable (Keeper.withoutHooks pools) w ∧
      ∃ v, w.store.getValidatorByConsAddr [11] = some v ∧ v.isUnbonded = false ∧
        (Keeper.withoutHooks pools).slash ⟨11, 63072000⟩ w [11] 10 2 Dec.oneDec =
          throw (.panic "destination validator not found") := by
  -- the model runs the trace and the slash in the kernel
  have run : ((Keeper.withoutHooks pools).applyEvents genesis trace).toOption.any (fun w =>
      (w.store.getValidatorByConsAddr [11]).any fun v =>
        !v.isUnbonded && decide ((fun _ => ()) <$>
          (Keeper.withoutHooks pools).slash ⟨11, 63072000⟩ w [11] 10 2 Dec.oneDec =
            .error (.panic "destination validator not found"))) = true := by
    decide +kernel
  obtain ⟨w, hrun, found⟩ := (Option.any_eq_true _ _).mp run
  obtain ⟨v, found, checks⟩ := (Option.any_eq_true _ _).mp found
  obtain ⟨bonded, panics⟩ := (Bool.and_eq_true _ _).mp checks
  have reached : Reachable (Keeper.withoutHooks pools) w :=
    (Reachable.genesis _ _ _).applyEvents (Fallible.toOption_eq_some.mp hrun)
  exact ⟨w, reached, v, found, by simpa using bonded,
    Fallible.map_eq_error.mp (of_decide_eq_true panics)⟩

end Staking

end Pocc
