import Pocc.Staking.Keeper

/-!
# Slashing a validator

x/staking/keeper/slash.go. `Slash` burns a fraction of the stake a validator had at the height
of an infraction: first from the unbonding delegations and redelegations that left it since
(their entries created at or after that height and not yet mature), then the rest, up to its
tokens, from the validator itself. Every burn is taken from the pool that holds the tokens:
the not-bonded pool for unbonding entries, the pool of the destination validator's status for
redelegated tokens, the pool of the validator's status for its own tokens.

`Jail` and `Unjail` are the keeper's entry points for the slashing module.
-/

namespace Pocc

namespace Staking

namespace Keeper

variable {τ : Type} (k : Keeper τ) (ctx : Header)

/-- One entry of `slashUnbondingDelegation`: the entry after the slash, the slash it owes
(its share of the stake at the infraction) and what is burned from its balance. Entries created
before the infraction or already mature owe nothing. -/
def slashUnbondingEntry (now infractionHeight : Int) (slashFactor : Dec)
    (entry : UnbondingDelegationEntry) : UnbondingDelegationEntry × Int × Int :=
  if entry.creationHeight < infractionHeight ∨ entry.isMature now then (entry, 0, 0)
  else
    let slashAmount := (slashFactor.mulInt entry.initialBalance).truncateInt
    let unbondingSlashAmount := min slashAmount entry.balance
    if unbondingSlashAmount = 0 then (entry, slashAmount, 0)
    else ({ entry with balance := entry.balance - unbondingSlashAmount }, slashAmount,
      unbondingSlashAmount)

/-- `slashUnbondingDelegation`: slash each entry, store the record if an entry changed, burn
the sum from the not-bonded pool, and return what the entries owed. -/
def slashUnbondingDelegation (w : World τ) (ubd : UnbondingDelegation) (infractionHeight : Int)
    (slashFactor : Dec) : Except SdkError (World τ × Int) := do
  let results := ubd.entries.map (slashUnbondingEntry ctx.time infractionHeight slashFactor)
  let totalSlashAmount := (results.map fun r => r.2.1).sum
  let burnedAmount := (results.map fun r => r.2.2).sum
  let w :=
    if results.any fun r => r.2.2 ≠ 0 then
      w.withStore (w.store.setUnbondingDelegation { ubd with entries := results.map Prod.fst })
    else w
  let w ← SupplyKeeper.orPanic (k.burnNotBondedTokens ctx w burnedAmount)
  pure (w, totalSlashAmount)

/-- The unbonding of one redelegation entry in `slashRedelegation`: the shares to unbond, capped
at the delegation to the destination, are unbonded, and the tokens they were worth are to be
burned from the pool of the destination's status (bonded, not bonded). -/
def unbondRedelegationEntry (red : Redelegation) (sharesToUnbond : Dec) (w : World τ) :
    Except SdkError (World τ × Int × Int) :=
  if sharesToUnbond.isZero then pure (w, 0, 0)
  else
    match w.store.getDelegation red.delegatorAddress red.validatorDstAddress with
    | none => pure (w, 0, 0)
    | some delegation => do
      let sharesToUnbond :=
        if delegation.shares < sharesToUnbond then delegation.shares else sharesToUnbond
      let (w, tokensToBurn) ← SupplyKeeper.orPanic
        (k.unbond ctx w red.delegatorAddress red.validatorDstAddress sharesToUnbond)
      match w.store.getValidator red.validatorDstAddress with
      | none => throw (.panic "destination validator not found")
      | some dstValidator =>
        if dstValidator.isBonded then pure (w, tokensToBurn, 0) else pure (w, 0, tokensToBurn)

/-- The loop of `slashRedelegation` over the entries: the world, what the entries owed, and the
tokens to burn from the bonded and from the not-bonded pool. -/
def slashRedelegationEntries (red : Redelegation) (infractionHeight : Int) (slashFactor : Dec)
    (w : World τ) : List RedelegationEntry → Except SdkError (World τ × Int × Int × Int)
  | [] => pure (w, 0, 0, 0)
  | entry :: entries =>
    if entry.creationHeight < infractionHeight ∨ entry.isMature ctx.time then
      slashRedelegationEntries red infractionHeight slashFactor w entries
    else do
      let slashAmount := (slashFactor.mulInt entry.initialBalance).truncateInt
      let (w, bonded, notBonded) ←
        k.unbondRedelegationEntry ctx red (slashFactor.mul entry.sharesDst) w
      let (w, total, bondedRest, notBondedRest) ←
        slashRedelegationEntries red infractionHeight slashFactor w entries
      pure (w, slashAmount + total, bonded + bondedRest, notBonded + notBondedRest)

/-- `slashRedelegation`: unbond the slashed shares from the destination, burn their tokens, and
return what the entries owed. -/
def slashRedelegation (w : World τ) (red : Redelegation) (infractionHeight : Int)
    (slashFactor : Dec) : Except SdkError (World τ × Int) := do
  let (w, totalSlashAmount, bondedBurnedAmount, notBondedBurnedAmount) ←
    k.slashRedelegationEntries ctx red infractionHeight slashFactor w red.entries
  let w ← SupplyKeeper.orPanic (k.burnBondedTokens ctx w bondedBurnedAmount)
  let w ← SupplyKeeper.orPanic (k.burnNotBondedTokens ctx w notBondedBurnedAmount)
  pure (w, totalSlashAmount)

/-- The scan of `Slash` for a past infraction: the unbonding delegations from the validator,
then the redelegations from it (read after the first loop), each slashed in turn; what they
owed is taken off the slash amount. -/
def slashUnbondingsAndRedelegations (w : World τ) (operatorAddress : ValAddress)
    (infractionHeight : Int) (slashFactor : Dec) (remainingSlashAmount : Int) :
    Except SdkError (World τ × Int) := do
  let (w, remainingSlashAmount) ←
    (w.store.getUnbondingDelegationsFromValidator operatorAddress).foldlM
      (fun (acc : World τ × Int) ubd => do
        let (w, amountSlashed) ← k.slashUnbondingDelegation ctx acc.1 ubd infractionHeight slashFactor
        pure (w, acc.2 - amountSlashed))
      (w, remainingSlashAmount)
  (w.store.getRedelegationsFromSrcValidator operatorAddress).foldlM
    (fun (acc : World τ × Int) red => do
      let (w, amountSlashed) ← k.slashRedelegation ctx acc.1 red infractionHeight slashFactor
      pure (w, acc.2 - amountSlashed))
    (w, remainingSlashAmount)

/-- `Slash`: burn `slashFactor` of the stake of `power` at `infractionHeight`. A validator not
found (removed after being slashed to nothing) is ignored. -/
def slash (w : World τ) (consAddr : ConsAddress) (infractionHeight power : Int)
    (slashFactor : Dec) : Except SdkError (World τ) :=
  if slashFactor < 0 then throw (.panic "attempted to slash with a negative slash factor")
  else
    let amount := tokensFromConsensusPower power
    let slashAmount := ((Dec.ofInt amount).mul slashFactor).truncateInt
    match w.store.getValidatorByConsAddr consAddr with
    | none => pure w
    | some validator =>
      if validator.isUnbonded then throw (.panic "should not be slashing unbonded validator")
      else do
        let operatorAddress := validator.operatorAddress
        let w ← k.callHook ctx w (.beforeValidatorModified operatorAddress)
        let (w, remainingSlashAmount) ←
          (if ctx.height < infractionHeight then
            throw (.panic "impossible attempt to slash future infraction")
          else if infractionHeight = ctx.height then pure (w, slashAmount)
          else
            k.slashUnbondingsAndRedelegations ctx w operatorAddress infractionHeight slashFactor
              slashAmount)
        let tokensToBurn := max (min remainingSlashAmount validator.tokens) 0
        let w ←
          (if 0 < validator.tokens then
            let effectiveFraction :=
              (Dec.ofInt tokensToBurn).quoRoundUp (Dec.ofInt validator.tokens)
            k.callHook ctx w (.beforeValidatorSlashed operatorAddress
              (if Dec.oneDec < effectiveFraction then Dec.oneDec else effectiveFraction))
          else pure w)
        let (s, validator) ← w.store.removeValidatorTokens validator tokensToBurn
        let w := w.withStore s
        SupplyKeeper.orPanic
          (if validator.isBonded then k.burnBondedTokens ctx w tokensToBurn
          else k.burnNotBondedTokens ctx w tokensToBurn)

/-- `Jail`. -/
def jail (w : World τ) (consAddr : ConsAddress) : Except SdkError (World τ) := do
  let validator ← mustGetValidatorByConsAddr w consAddr
  pure (w.withStore (← w.store.jailValidator validator))

/-- `Unjail`. -/
def unjail (w : World τ) (consAddr : ConsAddress) : Except SdkError (World τ) := do
  let validator ← mustGetValidatorByConsAddr w consAddr
  pure (w.withStore (← w.store.unjailValidator validator))

/-! ## What each function writes to the staking store -/

section StoreSpec

variable {k : Keeper τ} {ctx : Header} {w w' : World τ}

/-- A burn that did not panic writes the accounts only. -/
theorem orPanic_burnPoolTokens_eq {pool : String} {amt : Int}
    (h : SupplyKeeper.orPanic (k.burnPoolTokens ctx pool w amt) = .ok w') :
    w' = w.withLedger w'.ledger := by
  have h := SupplyKeeper.orPanic_eq_ok h
  unfold burnPoolTokens at h
  split at h
  · rw [← Fallible.pure_eq_ok.mp h]
    rfl
  · obtain ⟨_, -, h⟩ := Fallible.bind_eq_ok.mp h
    obtain ⟨_, -, h⟩ := Fallible.bind_eq_ok.mp h
    obtain ⟨_, -, h⟩ := Fallible.bind_eq_ok.mp h
    rw [← Fallible.pure_eq_ok.mp h]
    rfl

theorem orPanic_burnPoolTokens_store {pool : String} {amt : Int}
    (h : SupplyKeeper.orPanic (k.burnPoolTokens ctx pool w amt) = .ok w') : w'.store = w.store := by
  rw [orPanic_burnPoolTokens_eq h]
  rfl

/-- `slashUnbondingDelegation` writes at most the record it slashes, under the same key, and
burns from the not-bonded pool. -/
theorem slashUnbondingDelegation_eq {ubd : UnbondingDelegation} {infractionHeight : Int}
    {slashFactor : Dec} {totalSlashAmount : Int}
    (h : k.slashUnbondingDelegation ctx w ubd infractionHeight slashFactor =
      .ok (w', totalSlashAmount)) :
    w' = w.withLedger w'.ledger ∨ ∃ entries,
      w' = (w.withStore (w.store.setUnbondingDelegation { ubd with entries := entries })).withLedger
        w'.ledger := by
  unfold slashUnbondingDelegation at h
  obtain ⟨w₁, hburn, h⟩ := Fallible.bind_eq_ok.mp h
  obtain ⟨rfl, -⟩ := Prod.mk.inj (Fallible.pure_eq_ok.mp h)
  have burned := orPanic_burnPoolTokens_eq hburn
  split at burned
  · exact .inr ⟨_, burned⟩
  · exact .inl burned

/-- One entry of `slashRedelegation` does nothing, or unbonds from the destination the shares it
was given, capped at the delegation there. -/
theorem unbondRedelegationEntry_unbond {red : Redelegation} {sharesToUnbond : Dec}
    {bonded notBonded : Int}
    (h : k.unbondRedelegationEntry ctx red sharesToUnbond w = .ok (w', bonded, notBonded)) :
    w' = w ∨ ∃ delegation amount,
      w.store.getDelegation red.delegatorAddress red.validatorDstAddress = some delegation ∧
      k.unbond ctx w red.delegatorAddress red.validatorDstAddress
        (if delegation.shares < sharesToUnbond then delegation.shares else sharesToUnbond) =
          .ok (w', amount) := by
  unfold unbondRedelegationEntry at h
  split at h
  · exact .inl (Prod.mk.inj (Fallible.pure_eq_ok.mp h)).1.symm
  · split at h
    · exact .inl (Prod.mk.inj (Fallible.pure_eq_ok.mp h)).1.symm
    · next delegation found =>
      obtain ⟨⟨w₁, tokens⟩, hunbond, h⟩ := Fallible.bind_eq_ok.mp h
      dsimp only at h
      split at h
      · exact absurd h Fallible.throw_ne_ok
      · split at h <;>
        · obtain ⟨rfl, -⟩ := Prod.mk.inj (Fallible.pure_eq_ok.mp h)
          exact .inr ⟨delegation, _, found, SupplyKeeper.orPanic_eq_ok hunbond⟩

/-! ### The scan over whole worlds

The scan of a past infraction writes the unbonding delegations it slashes, burns from the pools,
and unbonds from the destinations of the redelegations it slashes, with the hooks of `unbond`. A
property of the world that each of these keeps, the scan keeps: for the staking store, for the
stores behind the hooks, or for both together. -/

/-- The loop of `slashRedelegation` keeps what every `unbond` of the slashed shares of one of its
entries keeps. -/
theorem slashRedelegationEntries_induction (R : World τ → Prop) {red : Redelegation}
    {infractionHeight : Int} {slashFactor : Dec} {entries : List RedelegationEntry}
    (unbondStep : ∀ entry ∈ entries, ∀ (w w' : World τ) (delegation : Delegation) amount, R w →
      w.store.getDelegation red.delegatorAddress red.validatorDstAddress = some delegation →
      k.unbond ctx w red.delegatorAddress red.validatorDstAddress
        (if delegation.shares < slashFactor.mul entry.sharesDst then delegation.shares
          else slashFactor.mul entry.sharesDst) = .ok (w', amount) → R w')
    {total bonded notBonded : Int} (hR : R w)
    (h : k.slashRedelegationEntries ctx red infractionHeight slashFactor w entries =
      .ok (w', total, bonded, notBonded)) :
    R w' := by
  induction entries generalizing w total bonded notBonded with
  | nil =>
    unfold slashRedelegationEntries at h
    obtain ⟨rfl, -⟩ := Prod.mk.inj (Fallible.pure_eq_ok.mp h)
    exact hR
  | cons entry entries ih =>
    unfold slashRedelegationEntries at h
    have rest := fun entry' mem => unbondStep entry' (List.mem_cons_of_mem entry mem)
    split at h
    · exact ih rest hR h
    · obtain ⟨⟨w₁, bonded₁, notBonded₁⟩, hentry, h⟩ := Fallible.bind_eq_ok.mp h
      obtain ⟨⟨w₂, total₂, bonded₂, notBonded₂⟩, hrest, h⟩ := Fallible.bind_eq_ok.mp h
      obtain ⟨rfl, -⟩ := Prod.mk.inj (Fallible.pure_eq_ok.mp h)
      have hR₁ : R w₁ := by
        rcases unbondRedelegationEntry_unbond hentry with rfl | ⟨delegation, amount, found, hunbond⟩
        · exact hR
        · exact unbondStep entry List.mem_cons_self w w₁ delegation amount hR found hunbond
      exact ih rest hR₁ hrest

/-- The scan of `Slash`, over whole worlds. -/
theorem slashUnbondingsAndRedelegations_induction (R : World τ → Prop)
    {operatorAddress : ValAddress} {infractionHeight : Int} {slashFactor : Dec}
    {remaining remaining' : Int}
    (ledgerStep : ∀ (w : World τ) ledger, R w → R (w.withLedger ledger))
    (ubdStep : ∀ (w : World τ) (ubd : UnbondingDelegation) entries, R w →
      R (w.withStore (w.store.setUnbondingDelegation { ubd with entries := entries })))
    (unbondStep : ∀ red ∈ w.store.getRedelegationsFromSrcValidator operatorAddress,
      ∀ entry ∈ red.entries, ∀ (w₁ w₂ : World τ) (delegation : Delegation) amount, R w₁ →
        w₁.store.getDelegation red.delegatorAddress red.validatorDstAddress = some delegation →
        k.unbond ctx w₁ red.delegatorAddress red.validatorDstAddress
          (if delegation.shares < slashFactor.mul entry.sharesDst then delegation.shares
            else slashFactor.mul entry.sharesDst) = .ok (w₂, amount) → R w₂)
    (hR : R w)
    (h : k.slashUnbondingsAndRedelegations ctx w operatorAddress infractionHeight slashFactor
      remaining = .ok (w', remaining')) :
    R w' := by
  unfold slashUnbondingsAndRedelegations at h
  obtain ⟨⟨w₁, remaining₁⟩, hubds, h⟩ := Fallible.bind_eq_ok.mp h
  -- the first loop writes unbonding delegations only, so the redelegations read after it are
  -- those of the store it began with
  have hw₁ : R w₁ ∧ w₁.store.redelegations = w.store.redelegations := by
    refine Fallible.foldlM_ok_induction _
      (fun acc : World τ × Int => R acc.1 ∧ acc.1.store.redelegations = w.store.redelegations)
      ?_ _ (w, remaining) _ ⟨hR, rfl⟩ hubds
    rintro ⟨w₀, r₀⟩ ubd ⟨w₂, r₂⟩ ⟨hR₀, hred₀⟩ hstep
    obtain ⟨⟨w₃, amountSlashed⟩, hslash, hstep⟩ := Fallible.bind_eq_ok.mp hstep
    obtain ⟨rfl, -⟩ := Prod.mk.inj (Fallible.pure_eq_ok.mp hstep)
    rcases slashUnbondingDelegation_eq hslash with slashed | ⟨entries, slashed⟩ <;> rw [slashed]
    · exact ⟨ledgerStep _ _ hR₀, hred₀⟩
    · exact ⟨ledgerStep _ _ (ubdStep _ _ _ hR₀), hred₀⟩
  have reds : w₁.store.getRedelegationsFromSrcValidator operatorAddress =
      w.store.getRedelegationsFromSrcValidator operatorAddress := by
    simp only [Store.getRedelegationsFromSrcValidator, hw₁.2]
  dsimp only at h
  rw [reds] at h
  refine Fallible.foldlM_ok_induction_mem _ (fun acc : World τ × Int => R acc.1) _ ?_ _ _
    hw₁.1 h
  rintro ⟨w₀, r₀⟩ red ⟨w₂, r₂⟩ hred hR₀ hstep
  obtain ⟨⟨w₃, amountSlashed⟩, hslash, hstep⟩ := Fallible.bind_eq_ok.mp hstep
  obtain ⟨rfl, -⟩ := Prod.mk.inj (Fallible.pure_eq_ok.mp hstep)
  -- `slashRedelegation`: the loop over the entries, then the two burns
  unfold slashRedelegation at hslash
  obtain ⟨⟨w₄, total, bonded, notBonded⟩, hloop, hslash⟩ := Fallible.bind_eq_ok.mp hslash
  obtain ⟨w₅, hburn₁, hslash⟩ := Fallible.bind_eq_ok.mp hslash
  obtain ⟨w₆, hburn₂, hslash⟩ := Fallible.bind_eq_ok.mp hslash
  obtain ⟨rfl, -⟩ := Prod.mk.inj (Fallible.pure_eq_ok.mp hslash)
  have hR₄ := slashRedelegationEntries_induction R (unbondStep red hred) hR₀ hloop
  rw [orPanic_burnPoolTokens_eq hburn₂, orPanic_burnPoolTokens_eq hburn₁]
  exact ledgerStep _ _ (ledgerStep _ _ hR₄)

/-- What every write of an unbonding delegation keeps, and every `unbond` from the destination
of a redelegation from the validator, the scan of `Slash` keeps. -/
theorem slashUnbondingsAndRedelegations_preserves (P : Store → Prop)
    {operatorAddress : ValAddress} {infractionHeight : Int} {slashFactor : Dec}
    {remaining remaining' : Int}
    (ubdStep : ∀ (s : Store) (ubd : UnbondingDelegation) entries, P s →
      P (s.setUnbondingDelegation { ubd with entries := entries }))
    (unbondStep : ∀ red ∈ w.store.getRedelegationsFromSrcValidator operatorAddress,
      ∀ (w₁ w₂ : World τ) shares amount, P w₁.store →
        k.unbond ctx w₁ red.delegatorAddress red.validatorDstAddress shares = .ok (w₂, amount) →
        P w₂.store)
    (hP : P w.store)
    (h : k.slashUnbondingsAndRedelegations ctx w operatorAddress infractionHeight slashFactor
      remaining = .ok (w', remaining')) :
    P w'.store :=
  slashUnbondingsAndRedelegations_induction (fun w => P w.store) (fun _ _ hP => hP)
    (fun _ ubd entries hP => ubdStep _ ubd entries hP)
    (fun red mem _ _ w₁ w₂ _ amount hP _ hunbond => unbondStep red mem w₁ w₂ _ amount hP hunbond)
    hP h

/-- `Slash`, with its hooks: nothing, or the hook before the validator changes, the scan of the
unbondings and redelegations for a past infraction, the hook of the slash for a validator with
tokens, and the removal of the rest of the slash from the validator as read at the start, with
its burn. -/
theorem slash_hooks {consAddr : ConsAddress} {infractionHeight power : Int} {slashFactor : Dec}
    (h : k.slash ctx w consAddr infractionHeight power slashFactor = .ok w') :
    w' = w ∨
      ∃ (validator : Validator) (w₀ w₁ w₂ : World τ) (remaining : Int) (validator' : Validator),
        0 ≤ slashFactor ∧ w.store.getValidatorByConsAddr consAddr = some validator ∧
        validator.isUnbonded = false ∧ infractionHeight ≤ ctx.height ∧
        k.callHook ctx w (.beforeValidatorModified validator.operatorAddress) = .ok w₀ ∧
        (w₁ = w₀ ∨ k.slashUnbondingsAndRedelegations ctx w₀ validator.operatorAddress
          infractionHeight slashFactor
          (((Dec.ofInt (tokensFromConsensusPower power)).mul slashFactor).truncateInt) =
            .ok (w₁, remaining)) ∧
        (w₂ = w₁ ∨ ∃ fraction,
          k.callHook ctx w₁ (.beforeValidatorSlashed validator.operatorAddress fraction) =
            .ok w₂) ∧
        validator.removeTokens (max (min remaining validator.tokens) 0) = .ok validator' ∧
        w' = (w₂.withStore (w₂.store.updateValidator validator validator')).withLedger
          w'.ledger := by
  unfold slash at h
  split at h
  · exact absurd h Fallible.throw_ne_ok
  · next factor =>
    dsimp only at h
    split at h
    · exact .inl (Fallible.pure_eq_ok.mp h).symm
    · next validator found =>
      split at h
      · exact absurd h Fallible.throw_ne_ok
      · next unbonded =>
        obtain ⟨w₀, hook₀, h⟩ := Fallible.bind_eq_ok.mp h
        obtain ⟨⟨w₁, remaining⟩, hscan, h⟩ := Fallible.bind_eq_ok.mp h
        obtain ⟨w₂, hook₁, h⟩ := Fallible.bind_eq_ok.mp h
        obtain ⟨⟨s₃, validator'⟩, hremove₀, h⟩ := Fallible.bind_eq_ok.mp h
        obtain ⟨hremove, rfl⟩ := removeValidatorTokens_eq_ok hremove₀
        have slashed : w₂ = w₁ ∨ ∃ fraction,
            k.callHook ctx w₁ (.beforeValidatorSlashed validator.operatorAddress fraction) =
              .ok w₂ := by
          split at hook₁
          · exact .inr ⟨_, hook₁⟩
          · exact .inl (Fallible.pure_eq_ok.mp hook₁).symm
        have burned : w' = (w₂.withStore (w₂.store.updateValidator validator validator')).withLedger
            w'.ledger := by
          dsimp only at h
          split at h <;> exact orPanic_burnPoolTokens_eq h
        -- the infraction is not in the future; at the current height nothing is scanned
        split at hscan
        · exact absurd hscan Fallible.throw_ne_ok
        · next future =>
          split at hscan
          · obtain ⟨rfl, rfl⟩ := Prod.mk.inj (Fallible.pure_eq_ok.mp hscan)
            exact .inr ⟨validator, w₀, w₀, w₂, _, validator', not_lt.mp factor, found,
              by simpa using unbonded, not_lt.mp future, hook₀, .inl rfl, slashed, hremove, burned⟩
          · exact .inr ⟨validator, w₀, w₁, w₂, remaining, validator', not_lt.mp factor, found,
              by simpa using unbonded, not_lt.mp future, hook₀, .inr hscan, slashed, hremove,
              burned⟩

/-- `Slash`: nothing, or the scan of the unbondings and redelegations followed by the removal of
the rest of the slash from the validator as read at the start. -/
theorem slash_store {consAddr : ConsAddress} {infractionHeight power : Int} {slashFactor : Dec}
    (h : k.slash ctx w consAddr infractionHeight power slashFactor = .ok w') :
    w'.store = w.store ∨
      ∃ (validator : Validator) (w₁ : World τ) (remaining : Int) (validator' : Validator),
        0 ≤ slashFactor ∧ w.store.getValidatorByConsAddr consAddr = some validator ∧
        validator.isUnbonded = false ∧ infractionHeight ≤ ctx.height ∧
        (w₁.store = w.store ∨ ∃ w₀ : World τ, w₀.store = w.store ∧
          k.slashUnbondingsAndRedelegations ctx w₀ validator.operatorAddress infractionHeight
            slashFactor (((Dec.ofInt (tokensFromConsensusPower power)).mul slashFactor).truncateInt)
            = .ok (w₁, remaining)) ∧
        validator.removeTokens (max (min remaining validator.tokens) 0) = .ok validator' ∧
        w'.store = w₁.store.updateValidator validator validator' := by
  rcases slash_hooks h with rfl | ⟨validator, w₀, w₁, w₂, remaining, validator', factor, found,
    unbonded, past, hook₀, scan, slashed, hremove, burned⟩
  · exact .inl rfl
  · refine .inr ⟨validator, w₁, remaining, validator', factor, found, unbonded, past, ?_, hremove,
      ?_⟩
    · rcases scan with rfl | scan
      · exact .inl (callHook_store hook₀)
      · exact .inr ⟨w₀, callHook_store hook₀, scan⟩
    · have store₂ : w₂.store = w₁.store := by
        rcases slashed with rfl | ⟨fraction, hook₁⟩
        · rfl
        · exact callHook_store hook₁
      rw [burned]
      change w₂.store.updateValidator validator validator' = _
      rw [store₂]

theorem jail_store {consAddr : ConsAddress} (h : jail w consAddr = .ok w') :
    ∃ validator, w.store.getValidatorByConsAddr consAddr = some validator ∧
      w.store.jailValidator validator = .ok w'.store := by
  unfold jail at h
  obtain ⟨validator, hget, h⟩ := Fallible.bind_eq_ok.mp h
  obtain ⟨s, hjail, h⟩ := Fallible.bind_eq_ok.mp h
  rw [← Fallible.pure_eq_ok.mp h]
  exact ⟨validator, mustGetValidatorByConsAddr_eq_ok.mp hget, hjail⟩

theorem unjail_store {consAddr : ConsAddress} (h : unjail w consAddr = .ok w') :
    ∃ validator, w.store.getValidatorByConsAddr consAddr = some validator ∧
      w.store.unjailValidator validator = .ok w'.store := by
  unfold unjail at h
  obtain ⟨validator, hget, h⟩ := Fallible.bind_eq_ok.mp h
  obtain ⟨s, hjail, h⟩ := Fallible.bind_eq_ok.mp h
  rw [← Fallible.pure_eq_ok.mp h]
  exact ⟨validator, mustGetValidatorByConsAddr_eq_ok.mp hget, hjail⟩

end StoreSpec

end Keeper

end Staking

end Pocc
