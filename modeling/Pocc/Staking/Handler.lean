import Pocc.Staking.ValStateChange

/-!
# The messages of x/staking

types/msg.go and handler.go: creating and editing a validator, delegating, redelegating and
undelegating. `ValidateBasic` runs before the handler (baseapp's `validateBasicTxMsgs`); a
handler that returns an error has its writes discarded by `runTx`.

Left out: the check of the consensus key type against the consensus parameters (Tendermint's
key encoding), and the comparison `msg.Commission == (CommissionRates{})` of `ValidateBasic`,
which compares the three `big.Int` pointers of the rates with nil and so never holds for a
decoded message.
-/

namespace Pocc

namespace Staking

/-- `MsgCreateValidator`; the consensus public key is given by its address. -/
structure MsgCreateValidator where
  description : Description
  commission : CommissionRates
  minSelfDelegation : Int
  delegatorAddress : AccAddress
  validatorAddress : ValAddress
  pubKey : ConsAddress
  value : Coin
  deriving DecidableEq, Repr

/-- `MsgEditValidator`: a commission rate and a minimum self-delegation that are not given stay. -/
structure MsgEditValidator where
  description : Description
  validatorAddress : ValAddress
  commissionRate : Option Dec
  minSelfDelegation : Option Int
  deriving DecidableEq, Repr

/-- `MsgDelegate`. -/
structure MsgDelegate where
  delegatorAddress : AccAddress
  validatorAddress : ValAddress
  amount : Coin
  deriving DecidableEq, Repr

/-- `MsgBeginRedelegate`. -/
structure MsgBeginRedelegate where
  delegatorAddress : AccAddress
  validatorSrcAddress : ValAddress
  validatorDstAddress : ValAddress
  amount : Coin
  deriving DecidableEq, Repr

/-- `MsgUndelegate`. -/
structure MsgUndelegate where
  delegatorAddress : AccAddress
  validatorAddress : ValAddress
  amount : Coin
  deriving DecidableEq, Repr

/-- The description with four empty fields, `Description{}`. -/
def emptyDescription : Description := ⟨"", "", "", ""⟩

def MsgCreateValidator.validateBasic (msg : MsgCreateValidator) : Option SdkError :=
  if msg.delegatorAddress = [] then some errNilDelegatorAddr
  else if msg.validatorAddress = [] then some errNilValidatorAddr
  else if msg.validatorAddress ≠ msg.delegatorAddress then some errBadValidatorAddr
  else if msg.value.amount ≤ 0 then some errBadDelegationAmount
  else if msg.description = emptyDescription then some (err 103 "description must be included")
  else match msg.commission.validate with
  | some e => some e
  | none =>
    if msg.minSelfDelegation ≤ 0 then some errMinSelfDelegationInvalid
    else if msg.value.amount < msg.minSelfDelegation then some errSelfDelegationBelowMinimum
    else none

def MsgEditValidator.validateBasic (msg : MsgEditValidator) : Option SdkError :=
  if msg.validatorAddress = [] then some (err 103 "nil validator address")
  else if msg.description = emptyDescription then
    some (err 103 "transaction must include some information to modify")
  else if msg.minSelfDelegation.any (· ≤ 0) then some errMinSelfDelegationInvalid
  else if msg.commissionRate.any fun rate => Dec.oneDec < rate ∨ rate < 0 then
    some (err 103 "commission rate must be between 0 and 1, inclusive")
  else none

/-- The `ValidateBasic` of the three messages that move a delegation: a delegator, a validator
(both, for a redelegation) and a positive amount. -/
def validateDelegationMsg (delegatorAddress : AccAddress) (validatorAddresses : List ValAddress)
    (amount : Int) (errAmount : SdkError) : Option SdkError :=
  if delegatorAddress = [] then some errNilDelegatorAddr
  else if validatorAddresses.any (· = []) then some errNilValidatorAddr
  else if amount ≤ 0 then some errAmount
  else none

def MsgDelegate.validateBasic (msg : MsgDelegate) : Option SdkError :=
  validateDelegationMsg msg.delegatorAddress [msg.validatorAddress] msg.amount.amount
    errBadDelegationAmount

def MsgBeginRedelegate.validateBasic (msg : MsgBeginRedelegate) : Option SdkError :=
  validateDelegationMsg msg.delegatorAddress [msg.validatorSrcAddress, msg.validatorDstAddress]
    msg.amount.amount errBadSharesAmount

def MsgUndelegate.validateBasic (msg : MsgUndelegate) : Option SdkError :=
  validateDelegationMsg msg.delegatorAddress [msg.validatorAddress] msg.amount.amount
    errBadSharesAmount

namespace Keeper

variable {τ : Type} (k : Keeper τ) (ctx : Header)

/-- `handleMsgCreateValidator`: the validator is stored and indexed, then the self-delegation
is made from the delegator's account. -/
def handleMsgCreateValidator (w : World τ) (msg : MsgCreateValidator) :
    Except SdkError (World τ) :=
  if (w.store.getValidator msg.validatorAddress).isSome then throw errValidatorOwnerExists
  else if (w.store.getValidatorByConsAddr msg.pubKey).isSome then throw errValidatorPubKeyExists
  else if msg.value.denom ≠ w.store.params.bondDenom then throw errBadDenom
  else do
    let _ ← msg.description.ensureLength
    let validator := { Validator.newValidator msg.validatorAddress msg.pubKey msg.description with
      createTime := ctx.time }
    let validator ← validator.setInitialCommission ⟨msg.commission, ctx.time⟩
    let validator := { validator with minSelfDelegation := msg.minSelfDelegation }
    let s := ((w.store.setValidator validator).setValidatorByConsAddr validator)
      |>.setNewValidatorByPowerIndex validator
    let w ← k.callHook ctx (w.withStore s) (.afterValidatorCreated validator.operatorAddress)
    let (w, _) ← k.delegate ctx w msg.delegatorAddress msg.value.amount .unbonded validator true
    pure w

/-- `UpdateValidatorCommission`. -/
def updateValidatorCommission (validator : Validator) (newRate : Dec) :
    Except SdkError Commission :=
  match validator.commission.validateNewRate newRate ctx.time with
  | some err => throw err
  | none => pure { validator.commission with rate := newRate, updateTime := ctx.time }

/-- `handleMsgEditValidator`: the description, the commission rate and the minimum
self-delegation; the tokens do not change, so the power index stays. -/
def handleMsgEditValidator (w : World τ) (msg : MsgEditValidator) : Except SdkError (World τ) :=
  match w.store.getValidator msg.validatorAddress with
  | none => throw errNoValidatorFound
  | some validator => do
    let description ← validator.description.updateDescription msg.description
    let validator := { validator with description := description }
    let (w, validator) ← (match msg.commissionRate with
      | none => pure (w, validator)
      | some newRate => do
        let commission ← updateValidatorCommission ctx validator newRate
        let w ← k.callHook ctx w (.beforeValidatorModified msg.validatorAddress)
        pure (w, { validator with commission := commission }))
    let validator ← (match msg.minSelfDelegation with
      | none => pure validator
      | some minSelfDelegation =>
        if minSelfDelegation ≤ validator.minSelfDelegation then throw errMinSelfDelegationDecreased
        else if validator.tokens < minSelfDelegation then throw errSelfDelegationBelowMinimum
        else pure { validator with minSelfDelegation := minSelfDelegation })
    pure (w.withStore (w.store.setValidator validator))

/-- `handleMsgDelegate`: from the delegator's account, whose funds are unbonded. -/
def handleMsgDelegate (w : World τ) (msg : MsgDelegate) : Except SdkError (World τ) :=
  match w.store.getValidator msg.validatorAddress with
  | none => throw errNoValidatorFound
  | some validator =>
    if msg.amount.denom ≠ w.store.params.bondDenom then throw errBadDenom
    else do
      let (w, _) ← k.delegate ctx w msg.delegatorAddress msg.amount.amount .unbonded validator true
      pure w

/-- `handleMsgUndelegate`. -/
def handleMsgUndelegate (w : World τ) (msg : MsgUndelegate) : Except SdkError (World τ) := do
  let shares ← validateUnbondAmount w msg.delegatorAddress msg.validatorAddress msg.amount.amount
  if msg.amount.denom ≠ w.store.params.bondDenom then throw errBadDenom
  else do
    let (w, _) ← k.undelegate ctx w msg.delegatorAddress msg.validatorAddress shares
    pure w

/-- `handleMsgBeginRedelegate`. -/
def handleMsgBeginRedelegate (w : World τ) (msg : MsgBeginRedelegate) :
    Except SdkError (World τ) := do
  let shares ← validateUnbondAmount w msg.delegatorAddress msg.validatorSrcAddress
    msg.amount.amount
  if msg.amount.denom ≠ w.store.params.bondDenom then throw errBadDenom
  else do
    let (w, _) ← k.beginRedelegation ctx w msg.delegatorAddress msg.validatorSrcAddress
      msg.validatorDstAddress shares
    pure w

/-! ## What each handler writes to the staking store -/

section StoreSpec

variable {k : Keeper τ} {ctx : Header} {w w' : World τ}

/-- The validator `MsgCreateValidator` stores: new, created now, with the commission of the
message from now on and its minimum self-delegation. -/
def createdValidator (ctx : Header) (msg : MsgCreateValidator) : Validator :=
  { Validator.newValidator msg.validatorAddress msg.pubKey msg.description with
    createTime := ctx.time
    commission := ⟨msg.commission, ctx.time⟩
    minSelfDelegation := msg.minSelfDelegation }

/-- `MsgCreateValidator`, with its hooks: the new record is stored and indexed, the hook of the
creation is called, then the self-delegation is made. -/
theorem handleMsgCreateValidator_hooks {msg : MsgCreateValidator}
    (h : k.handleMsgCreateValidator ctx w msg = .ok w') :
    w.store.getValidator msg.validatorAddress = none ∧
      w.store.getValidatorByConsAddr msg.pubKey = none ∧
      msg.value.denom = w.store.params.bondDenom ∧ msg.commission.validate = none ∧
      ∃ (w₁ : World τ) (shares : Dec),
        k.callHook ctx (w.withStore (((w.store.setValidator (createdValidator ctx msg)).setValidatorByConsAddr
          (createdValidator ctx msg)).setNewValidatorByPowerIndex (createdValidator ctx msg)))
          (.afterValidatorCreated (createdValidator ctx msg).operatorAddress) = .ok w₁ ∧
        k.delegate ctx w₁ msg.delegatorAddress msg.value.amount .unbonded
          (createdValidator ctx msg) true = .ok (w', shares) := by
  unfold handleMsgCreateValidator at h
  split at h
  · exact absurd h Fallible.throw_ne_ok
  · next owner =>
    split at h
    · exact absurd h Fallible.throw_ne_ok
    · next pubKey =>
      split at h
      · exact absurd h Fallible.throw_ne_ok
      · next denom =>
        obtain ⟨_, -, h⟩ := Fallible.bind_eq_ok.mp h
        obtain ⟨validator, hcommission, h⟩ := Fallible.bind_eq_ok.mp h
        unfold Validator.setInitialCommission at hcommission
        split at hcommission
        · exact absurd hcommission Fallible.throw_ne_ok
        · next valid =>
          obtain rfl := (Fallible.pure_eq_ok.mp hcommission).symm
          obtain ⟨w₁, hook, h⟩ := Fallible.bind_eq_ok.mp h
          obtain ⟨⟨w₂, shares⟩, hdelegate, h⟩ := Fallible.bind_eq_ok.mp h
          obtain rfl := (Fallible.pure_eq_ok.mp h).symm
          exact ⟨by simpa using owner, by simpa using pubKey, by simpa using denom, valid, w₁,
            shares, hook, hdelegate⟩

theorem handleMsgCreateValidator_store {msg : MsgCreateValidator}
    (h : k.handleMsgCreateValidator ctx w msg = .ok w') :
    w.store.getValidator msg.validatorAddress = none ∧
      w.store.getValidatorByConsAddr msg.pubKey = none ∧
      msg.value.denom = w.store.params.bondDenom ∧ msg.commission.validate = none ∧
      ∃ (w₁ : World τ) (shares : Dec),
        w₁.store = ((w.store.setValidator (createdValidator ctx msg)).setValidatorByConsAddr
          (createdValidator ctx msg)).setNewValidatorByPowerIndex (createdValidator ctx msg) ∧
        k.delegate ctx w₁ msg.delegatorAddress msg.value.amount .unbonded
          (createdValidator ctx msg) true = .ok (w', shares) := by
  obtain ⟨owner, pubKey, denom, valid, w₁, shares, hook, hdelegate⟩ :=
    handleMsgCreateValidator_hooks h
  exact ⟨owner, pubKey, denom, valid, w₁, shares, callHook_store hook, hdelegate⟩

/-- `MsgEditValidator` stores the validator it found with a new description and, if the
message gives them, a commission rate changed under `ValidateNewRate` (after the hook before the
validator changes) and a raised minimum self-delegation that its tokens cover. -/
theorem handleMsgEditValidator_hooks {msg : MsgEditValidator}
    (h : k.handleMsgEditValidator ctx w msg = .ok w') :
    ∃ (validator : Validator) (description : Description) (commission : Commission)
      (minSelfDelegation : Int),
      w.store.getValidator msg.validatorAddress = some validator ∧
      validator.description.updateDescription msg.description = .ok description ∧
      ((msg.commissionRate = none ∧ commission = validator.commission) ∨
        ∃ newRate, msg.commissionRate = some newRate ∧
          validator.commission.validateNewRate newRate ctx.time = none ∧
          commission = { validator.commission with rate := newRate, updateTime := ctx.time }) ∧
      ((msg.minSelfDelegation = none ∧ minSelfDelegation = validator.minSelfDelegation) ∨
        (msg.minSelfDelegation = some minSelfDelegation ∧
          validator.minSelfDelegation < minSelfDelegation ∧
          minSelfDelegation ≤ validator.tokens)) ∧
      ∃ w₁ : World τ,
        (w₁ = w ∨ k.callHook ctx w (.beforeValidatorModified msg.validatorAddress) = .ok w₁) ∧
        w' = w₁.withStore (w.store.setValidator { validator with
          description := description, commission := commission,
          minSelfDelegation := minSelfDelegation }) := by
  unfold handleMsgEditValidator at h
  split at h
  · exact absurd h Fallible.throw_ne_ok
  · next validator found =>
    obtain ⟨description, hdesc, h⟩ := Fallible.bind_eq_ok.mp h
    obtain ⟨⟨w₁, validator₁⟩, hrate, h⟩ := Fallible.bind_eq_ok.mp h
    obtain ⟨validator₂, hmin, h⟩ := Fallible.bind_eq_ok.mp h
    obtain rfl := (Fallible.pure_eq_ok.mp h).symm
    -- the commission: kept, or changed after the hook
    obtain ⟨commission, rate, hv₁, hook₁⟩ : ∃ commission,
        ((msg.commissionRate = none ∧ commission = validator.commission) ∨
          ∃ newRate, msg.commissionRate = some newRate ∧
            validator.commission.validateNewRate newRate ctx.time = none ∧
            commission = { validator.commission with rate := newRate, updateTime := ctx.time }) ∧
        validator₁ = { validator with description := description, commission := commission } ∧
        (w₁ = w ∨ k.callHook ctx w (.beforeValidatorModified msg.validatorAddress) = .ok w₁) := by
      split at hrate
      · next none =>
        obtain ⟨rfl, rfl⟩ := Prod.mk.inj (Fallible.pure_eq_ok.mp hrate)
        exact ⟨validator.commission, .inl ⟨none, rfl⟩, rfl, .inl rfl⟩
      · next newRate some =>
        obtain ⟨commission, hupdate, hrate⟩ := Fallible.bind_eq_ok.mp hrate
        obtain ⟨w₃, hook, hrate⟩ := Fallible.bind_eq_ok.mp hrate
        obtain ⟨rfl, rfl⟩ := Prod.mk.inj (Fallible.pure_eq_ok.mp hrate)
        unfold updateValidatorCommission at hupdate
        split at hupdate
        · exact absurd hupdate Fallible.throw_ne_ok
        · next valid =>
          obtain rfl := (Fallible.pure_eq_ok.mp hupdate).symm
          exact ⟨_, .inr ⟨newRate, some, valid, rfl⟩, rfl, .inr hook⟩
    have store₁ : w₁.store = w.store := by
      rcases hook₁ with rfl | hook
      · rfl
      · exact callHook_store hook
    subst hv₁
    split at hmin
    · next none =>
      obtain rfl := (Fallible.pure_eq_ok.mp hmin).symm
      exact ⟨validator, description, commission, validator.minSelfDelegation, found, hdesc, rate,
        .inl ⟨none, rfl⟩, w₁, hook₁, by rw [store₁]⟩
    · next minSelfDelegation some =>
      split at hmin
      · exact absurd hmin Fallible.throw_ne_ok
      · next raised =>
        split at hmin
        · exact absurd hmin Fallible.throw_ne_ok
        · next covered =>
          obtain rfl := (Fallible.pure_eq_ok.mp hmin).symm
          exact ⟨validator, description, commission, minSelfDelegation, found, hdesc, rate,
            .inr ⟨some, not_le.mp raised, not_lt.mp covered⟩, w₁, hook₁, by rw [store₁]⟩

theorem handleMsgEditValidator_store {msg : MsgEditValidator}
    (h : k.handleMsgEditValidator ctx w msg = .ok w') :
    ∃ (validator : Validator) (description : Description) (commission : Commission)
      (minSelfDelegation : Int),
      w.store.getValidator msg.validatorAddress = some validator ∧
      validator.description.updateDescription msg.description = .ok description ∧
      ((msg.commissionRate = none ∧ commission = validator.commission) ∨
        ∃ newRate, msg.commissionRate = some newRate ∧
          validator.commission.validateNewRate newRate ctx.time = none ∧
          commission = { validator.commission with rate := newRate, updateTime := ctx.time }) ∧
      ((msg.minSelfDelegation = none ∧ minSelfDelegation = validator.minSelfDelegation) ∨
        (msg.minSelfDelegation = some minSelfDelegation ∧
          validator.minSelfDelegation < minSelfDelegation ∧
          minSelfDelegation ≤ validator.tokens)) ∧
      w'.store = w.store.setValidator { validator with
        description := description, commission := commission,
        minSelfDelegation := minSelfDelegation } := by
  obtain ⟨validator, description, commission, minSelfDelegation, found, hdesc, rate, min, w₁, -,
    rfl⟩ := handleMsgEditValidator_hooks h
  exact ⟨validator, description, commission, minSelfDelegation, found, hdesc, rate, min, rfl⟩

theorem handleMsgDelegate_store {msg : MsgDelegate} (h : k.handleMsgDelegate ctx w msg = .ok w') :
    ∃ validator shares, w.store.getValidator msg.validatorAddress = some validator ∧
      msg.amount.denom = w.store.params.bondDenom ∧
      k.delegate ctx w msg.delegatorAddress msg.amount.amount .unbonded validator true =
        .ok (w', shares) := by
  unfold handleMsgDelegate at h
  split at h
  · exact absurd h Fallible.throw_ne_ok
  · next validator found =>
    split at h
    · exact absurd h Fallible.throw_ne_ok
    · next denom =>
      obtain ⟨⟨w₁, shares⟩, hdelegate, h⟩ := Fallible.bind_eq_ok.mp h
      obtain rfl := (Fallible.pure_eq_ok.mp h).symm
      exact ⟨validator, shares, found, by simpa using denom, hdelegate⟩

theorem handleMsgUndelegate_store {msg : MsgUndelegate}
    (h : k.handleMsgUndelegate ctx w msg = .ok w') :
    ∃ shares completionTime,
      validateUnbondAmount w msg.delegatorAddress msg.validatorAddress msg.amount.amount =
        .ok shares ∧
      k.undelegate ctx w msg.delegatorAddress msg.validatorAddress shares =
        .ok (w', completionTime) := by
  unfold handleMsgUndelegate at h
  obtain ⟨shares, hshares, h⟩ := Fallible.bind_eq_ok.mp h
  split at h
  · exact absurd h Fallible.throw_ne_ok
  · obtain ⟨⟨w₁, completionTime⟩, hundelegate, h⟩ := Fallible.bind_eq_ok.mp h
    obtain rfl := (Fallible.pure_eq_ok.mp h).symm
    exact ⟨shares, completionTime, hshares, hundelegate⟩

theorem handleMsgBeginRedelegate_store {msg : MsgBeginRedelegate}
    (h : k.handleMsgBeginRedelegate ctx w msg = .ok w') :
    ∃ shares completionTime,
      validateUnbondAmount w msg.delegatorAddress msg.validatorSrcAddress msg.amount.amount =
        .ok shares ∧
      k.beginRedelegation ctx w msg.delegatorAddress msg.validatorSrcAddress
        msg.validatorDstAddress shares = .ok (w', completionTime) := by
  unfold handleMsgBeginRedelegate at h
  obtain ⟨shares, hshares, h⟩ := Fallible.bind_eq_ok.mp h
  split at h
  · exact absurd h Fallible.throw_ne_ok
  · obtain ⟨⟨w₁, completionTime⟩, hredelegate, h⟩ := Fallible.bind_eq_ok.mp h
    obtain rfl := (Fallible.pure_eq_ok.mp h).symm
    exact ⟨shares, completionTime, hshares, hredelegate⟩

end StoreSpec

end Keeper

end Staking

end Pocc
