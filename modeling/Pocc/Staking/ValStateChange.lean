import Pocc.Staking.Slash

/-!
# The validator set at the end of a block

x/staking/keeper/val_state_change.go and the validator queue of validator.go:
`ApplyAndReturnValidatorSetUpdates` walks the power index from the greatest power down, bonds
the first `MaxValidators` validators of positive power, unbonds the validators of the last set
that are no longer among them, and moves the netted difference of their tokens between the two
pools; `UnbondAllMatureValidatorQueue` completes the unbonding of the validators whose
unbonding period has ended. The EndBlocker of x/staking (handler.go) runs both and then the
mature unbonding delegations and redelegations.

The walk reads the power index as it was when the walk began: every write to the index during
the walk deletes and writes again the key of the validator being visited.
-/

namespace Pocc

namespace Staking

/-- A validator update for Tendermint: the consensus address stands for the public key. -/
abbrev ValidatorUpdate := ConsAddress × Int

/-- What the walk over the power index accumulates. -/
structure BondedWalk where
  /-- The last validator set, less the validators met. -/
  last : SortedMap ValAddress Int
  updates : List ValidatorUpdate
  totalPower : Int
  amtFromNotBondedToBonded : Int

namespace Keeper

variable {τ : Type} (k : Keeper τ) (ctx : Header)

/-- The state change of a validator met in the walk: an unbonded or unbonding validator is
bonded, and its tokens are to move to the bonded pool. -/
def bondMet (w : World τ) (validator : Validator) : Except SdkError (World τ × Validator × Int) :=
  match validator.status with
  | .unbonded => do
    let (w, validator) ← k.unbondedToBonded ctx w validator
    pure (w, validator, validator.tokens)
  | .unbonding => do
    let (w, validator) ← k.unbondingToBonded ctx w validator
    pure (w, validator, validator.tokens)
  | .bonded => pure (w, validator, 0)

/-- The first loop of `ApplyAndReturnValidatorSetUpdates`, over the operator addresses of the
power index from the greatest key down; it stops after `maxValidators` validators or at the
first one of zero power. -/
def applyBonded (maxValidators : Nat) (w : World τ) (acc : BondedWalk) (count : Nat) :
    List ValAddress → Except SdkError (World τ × BondedWalk)
  | [] => pure (w, acc)
  | valAddr :: rest =>
    if maxValidators ≤ count then pure (w, acc)
    else do
      let validator ← mustGetValidator w valAddr
      if validator.jailed then
        throw (.panic "should never retrieve a jailed validator from the power store")
      else do
        -- `PotentialConsensusPower`, which panics outside an `int64`
        let potentialPower ← tokensToConsensusPowerChecked validator.tokens
        if potentialPower = 0 then pure (w, acc)
        else do
          let (w, validator, moved) ← k.bondMet ctx w validator
          let newPower := validator.consensusPower
          let (w, updates) :=
            if acc.last.find? valAddr = some newPower then (w, acc.updates)
            else (w.withStore (w.store.setLastValidatorPower valAddr newPower),
              acc.updates ++ [(validator.consAddress, newPower)])
          applyBonded maxValidators w
            ⟨acc.last.erase valAddr, updates, acc.totalPower + newPower,
              acc.amtFromNotBondedToBonded + moved⟩ (count + 1) rest

/-- The second loop: every validator of the last set not met begins unbonding, leaves the last
set, and is reported with power zero; its tokens are to move to the not-bonded pool. -/
def applyUnbonded (w : World τ) (updates : List ValidatorUpdate) (amtFromBondedToNotBonded : Int) :
    List ValAddress → Except SdkError (World τ × List ValidatorUpdate × Int)
  | [] => pure (w, updates, amtFromBondedToNotBonded)
  | valAddr :: rest => do
    let validator ← mustGetValidator w valAddr
    let (w, validator) ← k.bondedToUnbonding ctx w validator
    let w := w.withStore (w.store.deleteLastValidatorPower validator.operatorAddress)
    applyUnbonded w (updates ++ [(validator.consAddress, 0)])
      (amtFromBondedToNotBonded + validator.tokens) rest

/-- `ApplyAndReturnValidatorSetUpdates`. The validators no longer bonded are taken in the order
of their addresses (`sortNoLongerBonded`), the order of the map. -/
def applyAndReturnValidatorSetUpdates (w : World τ) :
    Except SdkError (World τ × List ValidatorUpdate) := do
  let maxValidators := w.store.params.maxValidators
  let powerIndex := (w.store.validatorsByPower.entries.map Prod.snd).reverse
  let (w, acc) ← k.applyBonded ctx maxValidators w ⟨w.store.lastValidatorPowers, [], 0, 0⟩ 0
    powerIndex
  let (w, updates, amtFromBondedToNotBonded) ←
    k.applyUnbonded ctx w acc.updates 0 (acc.last.entries.map Prod.fst)
  let w ←
    (if amtFromBondedToNotBonded < acc.amtFromNotBondedToBonded then
      k.notBondedTokensToBonded ctx w (acc.amtFromNotBondedToBonded - amtFromBondedToNotBonded)
    else if acc.amtFromNotBondedToBonded < amtFromBondedToNotBonded then
      k.bondedTokensToNotBonded ctx w (amtFromBondedToNotBonded - acc.amtFromNotBondedToBonded)
    else pure w)
  if updates = [] then pure (w, updates)
  else pure (w.withStore (w.store.setLastTotalPower acc.totalPower), updates)

/-- One address of a mature time slice of `UnbondAllMatureValidatorQueue`: the validator
completes its unbonding, and is removed if it has no shares left. -/
def unbondMatureValidator (w : World τ) (valAddr : ValAddress) : Except SdkError (World τ) :=
  match w.store.getValidator valAddr with
  | none => throw (.panic "validator in the unbonding queue was not found")
  | some val =>
    if !val.isUnbonding then
      throw (.panic "unexpected validator in unbonding queue; status was not unbonding")
    else do
      let (w, val) ← unbondingToUnbonded w val
      if val.delegatorShares.isZero then k.removeValidator ctx w val.operatorAddress else pure w

/-- `UnbondAllMatureValidatorQueue`: every time slice up to the block time, oldest first, each
deleted after its validators are done. -/
def unbondAllMatureValidatorQueue (w : World τ) : Except SdkError (World τ) :=
  (w.store.validatorQueue.entries.filter fun e => e.1 ≤ ctx.time).foldlM
    (fun w timeslice => do
      let w ← timeslice.2.foldlM (k.unbondMatureValidator ctx) w
      pure (w.withStore
        { w.store with validatorQueue := w.store.validatorQueue.erase timeslice.1 }))
    w

/-- The EndBlocker of x/staking. An error of `CompleteUnbonding` or `CompleteRedelegation` is
skipped, with what was written before it. -/
def endBlocker (w : World τ) : Except SdkError (World τ × List ValidatorUpdate) := do
  let (w, validatorUpdates) ← k.applyAndReturnValidatorSetUpdates ctx w
  let w ← k.unbondAllMatureValidatorQueue ctx w
  let (matureUnbonds, s) := w.store.dequeueAllMatureUBDQueue ctx.time
  let w ← matureUnbonds.foldlM
    (fun w dvPair => do
      let (w, _) ← k.completeUnbonding ctx w dvPair.1 dvPair.2
      pure w)
    (w.withStore s)
  let (matureRedelegations, s) := w.store.dequeueAllMatureRedelegationQueue ctx.time
  let w := matureRedelegations.foldl
    (fun w dvvTriplet =>
      match completeRedelegation ctx w dvvTriplet.1 dvvTriplet.2.1 dvvTriplet.2.2 with
      | .ok w' => w'
      | .error _ => w)
    (w.withStore s)
  pure (w, validatorUpdates)

/-! ## What the EndBlocker writes to the staking store

The EndBlocker writes the store through a few kinds of writes, each made knowing some facts
about the validator it writes (`EndBlockClosed`): a property of the store closed under each of
them, with those facts, holds after the EndBlocker. -/

/-- The store writes of the EndBlocker, each with what the keeper knows when it makes it. -/
structure EndBlockClosed (P : Store → Prop) : Prop where
  /-- `bondValidator` of a validator of the power index: stored, not jailed, not bonded. -/
  bond : ∀ s (a : ValAddress) (v : Validator), P s → s.getValidator a = some v →
    v.jailed = false → v.status ≠ .bonded →
    P ((s.updateValidator v (v.updateStatus .bonded)).deleteValidatorQueue (v.updateStatus .bonded))
  setLastPower : ∀ s a power, P s → P (s.setLastValidatorPower a power)
  /-- `beginUnbondingValidator` of a stored bonded validator. -/
  beginUnbonding : ∀ s (a : ValAddress) (v : Validator) (time height : Int), P s →
    s.getValidator a = some v → v.status = .bonded →
    P ((s.updateValidator v { v.updateStatus .unbonding with
        unbondingCompletionTime := time, unbondingHeight := height }).insertValidatorQueue
      { v.updateStatus .unbonding with unbondingCompletionTime := time, unbondingHeight := height })
  deleteLastPower : ∀ s a, P s → P (s.deleteLastValidatorPower a)
  setLastTotalPower : ∀ s power, P s → P (s.setLastTotalPower power)
  /-- `completeUnbondingValidator` of a stored unbonding validator. -/
  completeUnbonding : ∀ s (a : ValAddress) (v : Validator), P s → s.getValidator a = some v →
    v.isUnbonding = true → P (s.setValidator (v.updateStatus .unbonded))
  /-- `RemoveValidator` of a stored unbonded validator without tokens or shares. -/
  remove : ∀ s (a : ValAddress) (v : Validator), P s → s.getValidator a = some v →
    v.isUnbonded = true → v.tokens ≤ 0 → v.delegatorShares.isZero → P (s.deleteValidator a v)
  eraseValidatorQueue : ∀ s time, P s →
    P { s with validatorQueue := s.validatorQueue.erase time }
  dequeueUBD : ∀ s time, P s → P (s.dequeueAllMatureUBDQueue time).2
  /-- `CompleteUnbonding` keeps some entries of a stored unbonding delegation. -/
  completeUBD : ∀ s delAddr valAddr ubd entries, P s →
    s.getUnbondingDelegation delAddr valAddr = some ubd →
    P (s.removeUnbondingDelegation ubd) ∧ P (s.setUnbondingDelegation { ubd with entries := entries })
  dequeueRedelegations : ∀ s time, P s → P (s.dequeueAllMatureRedelegationQueue time).2
  /-- `CompleteRedelegation` keeps the immature entries of a stored redelegation. -/
  completeRedelegation : ∀ s delAddr valSrcAddr valDstAddr red time, P s →
    s.getRedelegation delAddr valSrcAddr valDstAddr = some red →
    let red' := { red with entries := red.entries.filter fun entry => !entry.isMature time }
    P (s.removeRedelegation red') ∧ P (s.setRedelegation red')

/-- The same writes on whole worlds, with the hook each state change calls and the transfers
between accounts; `R` is a property of the world, for instance of the staking store together with
the stores behind the hooks. -/
structure EndBlockHooksClosed (k : Keeper τ) (ctx : Header) (R : World τ → Prop) : Prop where
  /-- The pool transfers and the payouts of mature unbonding entries. -/
  ledger : ∀ (w : World τ) ledger, R w → R (w.withLedger ledger)
  bond : ∀ (w w' : World τ) (a : ValAddress) (v : Validator), R w → w.store.getValidator a = some v →
    v.jailed = false → v.status ≠ .bonded →
    k.callHook ctx (w.withStore ((w.store.updateValidator v (v.updateStatus .bonded)).deleteValidatorQueue
        (v.updateStatus .bonded)))
      (.afterValidatorBonded (v.updateStatus .bonded).consAddress
        (v.updateStatus .bonded).operatorAddress) = .ok w' → R w'
  setLastPower : ∀ (w : World τ) a power, R w →
    R (w.withStore (w.store.setLastValidatorPower a power))
  beginUnbonding : ∀ (w w' : World τ) (a : ValAddress) (v : Validator) (time height : Int), R w →
    w.store.getValidator a = some v → v.status = .bonded →
    k.callHook ctx (w.withStore ((w.store.updateValidator v { v.updateStatus .unbonding with
        unbondingCompletionTime := time, unbondingHeight := height }).insertValidatorQueue
        { v.updateStatus .unbonding with unbondingCompletionTime := time, unbondingHeight := height }))
      (.afterValidatorBeginUnbonding v.consAddress v.operatorAddress) = .ok w' → R w'
  deleteLastPower : ∀ (w : World τ) a, R w → R (w.withStore (w.store.deleteLastValidatorPower a))
  setLastTotalPower : ∀ (w : World τ) power, R w →
    R (w.withStore (w.store.setLastTotalPower power))
  completeUnbonding : ∀ (w : World τ) (a : ValAddress) (v : Validator), R w →
    w.store.getValidator a = some v → v.isUnbonding = true →
    R (w.withStore (w.store.setValidator (v.updateStatus .unbonded)))
  /-- `RemoveValidator` of a stored unbonded validator without tokens or shares, and its hook. -/
  remove : ∀ (w w' : World τ) (a : ValAddress) (v : Validator), R w →
    w.store.getValidator a = some v → v.isUnbonded = true → v.tokens ≤ 0 →
    v.delegatorShares.isZero →
    k.callHook ctx (w.withStore (w.store.deleteValidator a v))
      (.afterValidatorRemoved v.consAddress v.operatorAddress) = .ok w' → R w'
  eraseValidatorQueue : ∀ (w : World τ) time, R w →
    R (w.withStore { w.store with validatorQueue := w.store.validatorQueue.erase time })
  dequeueUBD : ∀ (w : World τ) time, R w → R (w.withStore (w.store.dequeueAllMatureUBDQueue time).2)
  completeUBD : ∀ (w : World τ) delAddr valAddr ubd entries, R w →
    w.store.getUnbondingDelegation delAddr valAddr = some ubd →
    R (w.withStore (w.store.removeUnbondingDelegation ubd)) ∧
      R (w.withStore (w.store.setUnbondingDelegation { ubd with entries := entries }))
  dequeueRedelegations : ∀ (w : World τ) time, R w →
    R (w.withStore (w.store.dequeueAllMatureRedelegationQueue time).2)
  completeRedelegation : ∀ (w : World τ) delAddr valSrcAddr valDstAddr red time, R w →
    w.store.getRedelegation delAddr valSrcAddr valDstAddr = some red →
    let red' := { red with entries := red.entries.filter fun entry => !entry.isMature time }
    R (w.withStore (w.store.removeRedelegation red')) ∧ R (w.withStore (w.store.setRedelegation red'))

section WorldSpec

variable {k : Keeper τ} {ctx : Header} {w w' : World τ}

/-- `bondMet`: a validator not yet bonded is bonded, with its hook, and its tokens are to move;
a bonded one is left as it is. -/
theorem bondMet_hook {validator validator' : Validator} {moved : Int}
    (h : k.bondMet ctx w validator = .ok (w', validator', moved)) :
    (validator.status ≠ .bonded ∧ validator' = validator.updateStatus .bonded ∧
        moved = validator'.tokens ∧
        k.callHook ctx
          (w.withStore ((w.store.updateValidator validator validator').deleteValidatorQueue validator'))
          (.afterValidatorBonded validator'.consAddress validator'.operatorAddress) = .ok w') ∨
      (validator.status = .bonded ∧ validator' = validator ∧ moved = 0 ∧ w' = w) := by
  unfold bondMet at h
  split at h
  · next status =>
    obtain ⟨⟨w₁, v₁⟩, hbond, h⟩ := Fallible.bind_eq_ok.mp h
    obtain ⟨rfl, hv⟩ := Prod.mk.inj (Fallible.pure_eq_ok.mp h)
    obtain ⟨rfl, rfl⟩ := Prod.mk.inj hv
    unfold unbondedToBonded at hbond
    split at hbond
    · exact absurd hbond Fallible.throw_ne_ok
    · obtain ⟨rfl, hook⟩ := bondValidator_hook hbond
      exact .inl ⟨by simp [status], rfl, rfl, hook⟩
  · next status =>
    obtain ⟨⟨w₁, v₁⟩, hbond, h⟩ := Fallible.bind_eq_ok.mp h
    obtain ⟨rfl, hv⟩ := Prod.mk.inj (Fallible.pure_eq_ok.mp h)
    obtain ⟨rfl, rfl⟩ := Prod.mk.inj hv
    unfold unbondingToBonded at hbond
    split at hbond
    · exact absurd hbond Fallible.throw_ne_ok
    · obtain ⟨rfl, hook⟩ := bondValidator_hook hbond
      exact .inl ⟨by simp [status], rfl, rfl, hook⟩
  · next status =>
    obtain ⟨rfl, hv⟩ := Prod.mk.inj (Fallible.pure_eq_ok.mp h)
    obtain ⟨rfl, rfl⟩ := Prod.mk.inj hv
    exact .inr ⟨status, rfl, rfl, rfl⟩

theorem bondMet_store {validator validator' : Validator} {moved : Int}
    (h : k.bondMet ctx w validator = .ok (w', validator', moved)) :
    (validator.status ≠ .bonded ∧ validator' = validator.updateStatus .bonded ∧
        moved = validator'.tokens ∧
        w'.store = (w.store.updateValidator validator validator').deleteValidatorQueue validator') ∨
      (validator.status = .bonded ∧ validator' = validator ∧ moved = 0 ∧ w' = w) := by
  rcases bondMet_hook h with ⟨status, rfl, moved, hook⟩ | bonded
  · exact .inl ⟨status, rfl, moved, callHook_store hook⟩
  · exact .inr bonded

variable {R : World τ → Prop}

/-- The first loop keeps what its bonds and power records keep. -/
theorem applyBonded_induction (c : EndBlockHooksClosed k ctx R) {maxValidators : Nat} :
    ∀ (addrs : List ValAddress) (w : World τ) (acc : BondedWalk) (count : Nat)
      {w' : World τ} {acc' : BondedWalk},
      R w → k.applyBonded ctx maxValidators w acc count addrs = .ok (w', acc') → R w'
  | [], w, acc, count, w', acc', hR, h => by
    unfold applyBonded at h
    obtain ⟨rfl, -⟩ := Prod.mk.inj (Fallible.pure_eq_ok.mp h)
    exact hR
  | valAddr :: rest, w, acc, count, w', acc', hR, h => by
    unfold applyBonded at h
    split at h
    · obtain ⟨rfl, -⟩ := Prod.mk.inj (Fallible.pure_eq_ok.mp h)
      exact hR
    · obtain ⟨validator, hget, h⟩ := Fallible.bind_eq_ok.mp h
      split at h
      · exact absurd h Fallible.throw_ne_ok
      · next notJailed =>
        obtain ⟨_, -, h⟩ := Fallible.bind_eq_ok.mp h
        split at h
        · obtain ⟨rfl, -⟩ := Prod.mk.inj (Fallible.pure_eq_ok.mp h)
          exact hR
        · obtain ⟨⟨w₁, validator₁, moved⟩, hmet, h⟩ := Fallible.bind_eq_ok.mp h
          have hR₁ : R w₁ := by
            rcases bondMet_hook hmet with ⟨status, rfl, -, hook⟩ | ⟨-, -, -, rfl⟩
            · exact c.bond _ _ valAddr _ hR (mustGetValidator_eq_ok.mp hget)
                (by simpa using notJailed) status hook
            · exact hR
          -- the power is recorded only when it changed
          dsimp only at h
          by_cases same : acc.last.find? valAddr = some validator₁.consensusPower
          · rw [if_pos same] at h
            exact applyBonded_induction c rest _ _ _ hR₁ h
          · rw [if_neg same] at h
            exact applyBonded_induction c rest _ _ _ (c.setLastPower _ _ _ hR₁) h

/-- The second loop keeps what its unbondings and deletions of power records keep. -/
theorem applyUnbonded_induction (c : EndBlockHooksClosed k ctx R) :
    ∀ (addrs : List ValAddress) (w : World τ) (updates : List ValidatorUpdate) (amt : Int)
      {w' : World τ} {updates' : List ValidatorUpdate} {amt' : Int},
      R w → k.applyUnbonded ctx w updates amt addrs = .ok (w', updates', amt') → R w'
  | [], w, updates, amt, w', updates', amt', hR, h => by
    unfold applyUnbonded at h
    obtain ⟨rfl, -⟩ := Prod.mk.inj (Fallible.pure_eq_ok.mp h)
    exact hR
  | valAddr :: rest, w, updates, amt, w', updates', amt', hR, h => by
    unfold applyUnbonded at h
    obtain ⟨validator, hget, h⟩ := Fallible.bind_eq_ok.mp h
    obtain ⟨⟨w₁, validator₁⟩, hunbond, h⟩ := Fallible.bind_eq_ok.mp h
    unfold bondedToUnbonding at hunbond
    split at hunbond
    · exact absurd hunbond Fallible.throw_ne_ok
    · obtain ⟨status, rfl, hook⟩ := beginUnbondingValidator_hook hunbond
      have hR₁ : R w₁ :=
        c.beginUnbonding _ _ valAddr _ _ _ hR (mustGetValidator_eq_ok.mp hget) status hook
      exact applyUnbonded_induction c rest _ _ _ (c.deleteLastPower _ _ hR₁) h

theorem applyAndReturnValidatorSetUpdates_induction (c : EndBlockHooksClosed k ctx R)
    {updates : List ValidatorUpdate} (hR : R w)
    (h : k.applyAndReturnValidatorSetUpdates ctx w = .ok (w', updates)) : R w' := by
  unfold applyAndReturnValidatorSetUpdates at h
  obtain ⟨⟨w₁, acc⟩, hbonded, h⟩ := Fallible.bind_eq_ok.mp h
  obtain ⟨⟨w₂, updates₂, amt⟩, hunbonded, h⟩ := Fallible.bind_eq_ok.mp h
  obtain ⟨w₃, hmove, h⟩ := Fallible.bind_eq_ok.mp h
  have hR₂ := applyUnbonded_induction c _ _ _ _ (applyBonded_induction c _ _ _ _ hR hbonded)
    hunbonded
  -- the netted transfer between the pools writes the accounts only
  have hR₃ : R w₃ := by
    split at hmove
    · rw [moveTokensBetweenPools_eq hmove]
      exact c.ledger _ _ hR₂
    · split at hmove
      · rw [moveTokensBetweenPools_eq hmove]
        exact c.ledger _ _ hR₂
      · rw [← Fallible.pure_eq_ok.mp hmove]
        exact hR₂
  split at h
  · obtain ⟨rfl, -⟩ := Prod.mk.inj (Fallible.pure_eq_ok.mp h)
    exact hR₃
  · obtain ⟨rfl, -⟩ := Prod.mk.inj (Fallible.pure_eq_ok.mp h)
    exact c.setLastTotalPower _ _ hR₃

theorem unbondMatureValidator_induction (c : EndBlockHooksClosed k ctx R) {valAddr : ValAddress}
    (hR : R w) (h : k.unbondMatureValidator ctx w valAddr = .ok w') : R w' := by
  unfold unbondMatureValidator at h
  split at h
  · exact absurd h Fallible.throw_ne_ok
  · next val found =>
    split at h
    · exact absurd h Fallible.throw_ne_ok
    · obtain ⟨⟨w₁, val₁⟩, hcomplete, h⟩ := Fallible.bind_eq_ok.mp h
      obtain ⟨unbonding, rfl, rfl⟩ := unbondingToUnbonded_eq hcomplete
      have hR₁ := c.completeUnbonding _ valAddr _ hR found unbonding
      dsimp only at h
      split at h
      · next zero =>
        -- the record `RemoveValidator` reads back is the one just written
        rcases removeValidator_hook h with ⟨-, rfl⟩ | ⟨v, hget, unbonded, tokens, hook⟩
        · exact hR₁
        · have hv : v = val.updateStatus .unbonded := by
            simpa [World.withStore, Store.getValidator, Store.setValidator] using hget.symm
          subst hv
          exact c.remove _ _ _ _ hR₁ hget unbonded tokens zero hook
      · rw [← Fallible.pure_eq_ok.mp h]
        exact hR₁

theorem unbondAllMatureValidatorQueue_induction (c : EndBlockHooksClosed k ctx R) (hR : R w)
    (h : k.unbondAllMatureValidatorQueue ctx w = .ok w') : R w' := by
  unfold unbondAllMatureValidatorQueue at h
  refine Fallible.foldlM_ok_induction _ R ?_ _ _ _ hR h
  rintro w₀ timeslice w₂ hR₀ hstep
  obtain ⟨w₁, hslice, hstep⟩ := Fallible.bind_eq_ok.mp hstep
  rw [← Fallible.pure_eq_ok.mp hstep]
  refine c.eraseValidatorQueue _ _ ?_
  exact Fallible.foldlM_ok_induction _ R
    (fun _ _ _ hR h => unbondMatureValidator_induction c hR h) _ _ _ hR₀ hslice

/-- The EndBlocker keeps every property of the world closed under its writes and hook calls. -/
theorem endBlocker_induction (c : EndBlockHooksClosed k ctx R) {updates : List ValidatorUpdate}
    (hR : R w) (h : k.endBlocker ctx w = .ok (w', updates)) : R w' := by
  unfold endBlocker at h
  obtain ⟨⟨w₁, updates₁⟩, happly, h⟩ := Fallible.bind_eq_ok.mp h
  obtain ⟨w₂, hqueue, h⟩ := Fallible.bind_eq_ok.mp h
  obtain ⟨w₃, hubds, h⟩ := Fallible.bind_eq_ok.mp h
  obtain ⟨rfl, -⟩ := Prod.mk.inj (Fallible.pure_eq_ok.mp h)
  have hR₂ := unbondAllMatureValidatorQueue_induction c
    (applyAndReturnValidatorSetUpdates_induction c hR happly) hqueue
  -- each mature unbonding delegation is completed in turn
  have hR₃ : R w₃ := by
    refine Fallible.foldlM_ok_induction _ R ?_ _ _ _ (c.dequeueUBD _ _ hR₂) hubds
    rintro w₀ dvPair w₄ hR₀ hstep
    obtain ⟨⟨w₅, err⟩, hcomplete, hstep⟩ := Fallible.bind_eq_ok.mp hstep
    rw [← Fallible.pure_eq_ok.mp hstep]
    rcases completeUnbonding_eq hcomplete with paid | ⟨ubd, found, paid | ⟨entries, paid⟩⟩ <;>
      rw [paid] <;> refine c.ledger _ _ ?_
    · exact hR₀
    · exact (c.completeUBD _ _ _ _ [] hR₀ found).1
    · exact (c.completeUBD _ _ _ _ entries hR₀ found).2
  -- then each mature redelegation; one that fails is skipped with the world it was given
  refine List.foldlRecOn (motive := R) _ _ (c.dequeueRedelegations _ _ hR₃) fun w₀ hR₀ dvv _ => ?_
  split
  · next w₅ hcomplete =>
    obtain ⟨red, found, rfl | rfl⟩ := completeRedelegation_eq hcomplete
    · exact (c.completeRedelegation _ _ _ _ _ ctx.time hR₀ found).1
    · exact (c.completeRedelegation _ _ _ _ _ ctx.time hR₀ found).2
  · exact hR₀

/-- A property of the staking store closed under the writes of the EndBlocker is closed under its
writes and hooks on whole worlds: the hooks do not write the staking store. -/
theorem EndBlockClosed.hooks {P : Store → Prop} (c : EndBlockClosed P) :
    EndBlockHooksClosed k ctx fun w => P w.store where
  ledger _ _ hP := hP
  bond w _ a v hP found notJailed status hook := by
    rw [callHook_store hook]
    exact c.bond _ a v hP found notJailed status
  setLastPower _ a power hP := c.setLastPower _ a power hP
  beginUnbonding w _ a v time height hP found status hook := by
    rw [callHook_store hook]
    exact c.beginUnbonding _ a v time height hP found status
  deleteLastPower _ a hP := c.deleteLastPower _ a hP
  setLastTotalPower _ power hP := c.setLastTotalPower _ power hP
  completeUnbonding _ a v hP found unbonding := c.completeUnbonding _ a v hP found unbonding
  remove w _ a v hP found unbonded tokens zero hook := by
    rw [callHook_store hook]
    exact c.remove _ a v hP found unbonded tokens zero
  eraseValidatorQueue _ time hP := c.eraseValidatorQueue _ time hP
  dequeueUBD _ time hP := c.dequeueUBD _ time hP
  completeUBD _ delAddr valAddr ubd entries hP found :=
    c.completeUBD _ delAddr valAddr ubd entries hP found
  dequeueRedelegations _ time hP := c.dequeueRedelegations _ time hP
  completeRedelegation _ delAddr valSrcAddr valDstAddr red time hP found :=
    c.completeRedelegation _ delAddr valSrcAddr valDstAddr red time hP found

/-- The EndBlocker keeps every property of the staking store closed under its writes. -/
theorem endBlocker_preserves {P : Store → Prop} (c : EndBlockClosed P)
    {updates : List ValidatorUpdate} (hP : P w.store) (h : k.endBlocker ctx w = .ok (w', updates)) :
    P w'.store :=
  endBlocker_induction (R := fun w => P w.store) c.hooks hP h

end WorldSpec

end Keeper

end Staking

end Pocc
