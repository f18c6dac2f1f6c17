import Pocc.Staking.Slash

/-!
# What the staking keeper writes behind its hooks

The staking keeper never writes the stores of the modules behind its hooks (the `ext` of a
`World`) itself: only the hooks it calls do. So whatever every hook call keeps, every keeper
function keeps. `Keeper.HooksWithin k R` says that each hook call of `k` relates the state
before and after it by `R`; then `Slash` and `Jail` relate the state they start from and the
state they end in by the reflexive-transitive closure of `R` (`slash_ext`, `jail_ext`). The
slashing module uses this for the signing infos and the missed-block bits, which its own
hooks never change.
-/

namespace Pocc

namespace Staking

open Relation

namespace Keeper

variable {τ : Type}

/-- Every hook call of `k` relates the state behind the hooks before and after it by `R`. -/
def HooksWithin (k : Keeper τ) (R : τ → τ → Prop) : Prop :=
  ∀ ctx (w : World τ) call ledger t, k.hooks ctx w call = .ok (ledger, t) → R w.ext t

variable {k : Keeper τ} {R : τ → τ → Prop} {ctx : Header} {w w' : World τ}

section Ext

variable (hk : k.HooksWithin R)
include hk

theorem callHook_ext {call : HookCall} (h : k.callHook ctx w call = .ok w') :
    ReflTransGen R w.ext w'.ext := by
  unfold callHook at h
  obtain ⟨⟨ledger, t⟩, hook, h⟩ := Fallible.bind_eq_ok.mp h
  rw [← Fallible.pure_eq_ok.mp h]
  exact .single (hk ctx w call ledger t (SupplyKeeper.orPanic_eq_ok hook))

theorem removeValidator_ext {address : ValAddress} (h : k.removeValidator ctx w address = .ok w') :
    ReflTransGen R w.ext w'.ext := by
  rcases removeValidator_hook h with ⟨-, rfl⟩ | ⟨validator, -, -, -, hook⟩
  · rfl
  · have hooked := callHook_ext hk hook
    exact hooked

theorem removeDelegation_ext {delegation : Delegation}
    (h : k.removeDelegation ctx w delegation = .ok w') : ReflTransGen R w.ext w'.ext := by
  obtain ⟨w₁, hook, rfl⟩ := removeDelegation_hook h
  -- the deletion writes the staking store only
  have hooked := callHook_ext hk hook
  exact hooked

end Ext

theorem jailIfBelowMinSelfDelegation_ext {delegation : Delegation}
    {validator validator' : Validator}
    (h : jailIfBelowMinSelfDelegation w delegation validator = .ok (w', validator')) :
    w'.ext = w.ext := by
  rcases jailIfBelowMinSelfDelegation_eq h with ⟨rfl, -⟩ | ⟨-, -, rfl⟩ <;> rfl

theorem jail_ext {consAddr : ConsAddress} (h : jail w consAddr = .ok w') : w'.ext = w.ext := by
  unfold jail at h
  obtain ⟨validator, -, h⟩ := Fallible.bind_eq_ok.mp h
  obtain ⟨s, -, h⟩ := Fallible.bind_eq_ok.mp h
  rw [← Fallible.pure_eq_ok.mp h]
  rfl

section Ext

variable (hk : k.HooksWithin R)
include hk

/-- `unbond` calls the hooks of the delegation and, for a validator it removes, of the
removal. -/
theorem unbond_ext {delAddr : AccAddress} {valAddr : ValAddress} {shares : Dec} {amount : Int}
    (h : k.unbond ctx w delAddr valAddr shares = .ok (w', amount)) :
    ReflTransGen R w.ext w'.ext := by
  obtain ⟨delegation, validator, validator₁, validator₂, w₁, w₂, w₃, -, hook, -, -, hjail, hdel, -,
    hempty⟩ := unbond_hooks h
  -- the delegation is removed or written back, each with its hook
  have ext₃ : ReflTransGen R w₂.ext w₃.ext := by
    split at hdel
    · exact removeDelegation_ext hk hdel
    · have hooked := callHook_ext hk hdel
      exact hooked
  -- a validator left without shares is removed, with its hook
  have ext' : ReflTransGen R w₃.ext w'.ext := by
    split at hempty
    · have removed := removeValidator_ext hk hempty
      exact removed
    · rw [← Fallible.pure_eq_ok.mp hempty]
      rfl
  rw [jailIfBelowMinSelfDelegation_ext hjail] at ext₃
  exact (callHook_ext hk hook).trans (ext₃.trans ext')

/-- The scan of a past infraction writes behind the hooks only through the hooks of its
`unbond`s. -/
theorem slashUnbondingsAndRedelegations_ext {operatorAddress : ValAddress}
    {infractionHeight : Int} {slashFactor : Dec} {remaining remaining' : Int}
    (h : k.slashUnbondingsAndRedelegations ctx w operatorAddress infractionHeight slashFactor
      remaining = .ok (w', remaining')) :
    ReflTransGen R w.ext w'.ext :=
  slashUnbondingsAndRedelegations_induction (fun w₁ => ReflTransGen R w.ext w₁.ext)
    (fun _ _ before => before) (fun _ _ _ before => before)
    (fun _ _ _ _ _ _ _ _ before _ hunbond => before.trans (unbond_ext hk hunbond)) .refl h

/-- `Slash` writes behind the hooks only through them. -/
theorem slash_ext {consAddr : ConsAddress} {infractionHeight power : Int} {slashFactor : Dec}
    (h : k.slash ctx w consAddr infractionHeight power slashFactor = .ok w') :
    ReflTransGen R w.ext w'.ext := by
  rcases slash_hooks h with rfl | ⟨validator, w₀, w₁, w₂, remaining, validator', -, -, -, -, hook₀,
    scan, slashed, -, burned⟩
  · rfl
  · -- the scan of the unbondings and redelegations, at a past infraction only
    have ext₁ : ReflTransGen R w₀.ext w₁.ext := by
      rcases scan with rfl | scan
      · rfl
      · exact slashUnbondingsAndRedelegations_ext hk scan
    -- the hook of the slash, for a validator with tokens
    have ext₂ : ReflTransGen R w₁.ext w₂.ext := by
      rcases slashed with rfl | ⟨fraction, hook₁⟩
      · rfl
      · exact callHook_ext hk hook₁
    rw [burned]
    exact (callHook_ext hk hook₀).trans (ext₁.trans ext₂)

end Ext

end Keeper

end Staking

end Pocc
