import Pocc.Staking.Invariant

/-!
# The power index over a chain

`Structural` holds in every reachable world (`Reachable.structural`), so the power index
`ValidatorsByPowerIndex` has, for each stored validator that is not jailed, exactly one entry,
at the key of its current tokens and naming it, and no entry for a jailed or removed validator
(`powerIndex_consistent`).

The proof checks each keeper function against `Store.Keeps`: every token or status change
writes over the record the keeper read (`updateValidator`), and that record is still the stored
one when it writes. The one place where it could be stale is `Slash`, which reads its validator
before the scan of redelegations unbonds from other validators; those are the destinations of
redelegations from it, never itself (`dst_ne_of_mem_getRedelegationsFromSrcValidator`).
-/

namespace Pocc

namespace Staking

/-! ## Reading the store -/

namespace Store

variable (s : Store)

theorem getValidator_updateValidator_of_ne {v v' : Validator} {a : ValAddress}
    (ne : v'.operatorAddress ≠ a) : (s.updateValidator v v').getValidator a = s.getValidator a := by
  rw [getValidator_updateValidator, if_neg ne]

theorem stored_of_getValidatorByConsAddr {consAddr : ConsAddress} {v : Validator}
    (h : s.getValidatorByConsAddr consAddr = some v) : ∃ a, s.getValidator a = some v := by
  unfold getValidatorByConsAddr at h
  obtain ⟨a, -, found⟩ := Option.bind_eq_some_iff.mp h
  exact ⟨a, found⟩

/-- The lookup through the index by source validator finds stored redelegations whose key has
that source. -/
theorem mem_getRedelegationsFromSrcValidator {valAddr : ValAddress} {red : Redelegation}
    (h : red ∈ s.getRedelegationsFromSrcValidator valAddr) :
    ∃ key, s.redelegations.find? key = some red ∧ (ofLex (ofLex key).2).1 = valAddr := by
  unfold getRedelegationsFromSrcValidator at h
  obtain ⟨e, mem, he⟩ := List.mem_filterMap.mp h
  split at he
  · next src =>
    cases he
    exact ⟨e.1, SortedMap.find?_of_mem mem, src⟩
  · cases he

/-- Every validator other than the one at `addr` is as it was. -/
def Frame (addr : ValAddress) (s s' : Store) : Prop :=
  ∀ a, a ≠ addr → s'.getValidator a = s.getValidator a

theorem Frame.refl (addr : ValAddress) : Frame addr s s := fun _ _ => rfl

theorem Frame.trans {addr : ValAddress} {s₁ s₂ s₃ : Store} (h₁₂ : Frame addr s₁ s₂)
    (h₂₃ : Frame addr s₂ s₃) : Frame addr s₁ s₃ :=
  fun a ne => (h₂₃ a ne).trans (h₁₂ a ne)

theorem frame_updateValidator {addr : ValAddress} {v v' : Validator}
    (address : v'.operatorAddress = addr) : Frame addr s (s.updateValidator v v') :=
  fun _ ne => s.getValidator_updateValidator_of_ne (address ▸ Ne.symm ne)

theorem frame_deleteValidator (a : ValAddress) (v : Validator) : Frame a s (s.deleteValidator a v) :=
  fun _ ne => by rw [getValidator_deleteValidator, if_neg (Ne.symm ne)]

end Store

namespace Structural

variable {s : Store}

theorem current_of_getValidator (h : Structural s) {a : ValAddress} {v : Validator}
    (found : s.getValidator a = some v) : s.getValidator v.operatorAddress = some v := by
  rwa [h.keyed a v found]

theorem current_of_getValidatorByConsAddr (h : Structural s) {consAddr : ConsAddress}
    {v : Validator} (found : s.getValidatorByConsAddr consAddr = some v) :
    s.getValidator v.operatorAddress = some v := by
  obtain ⟨a, stored⟩ := s.stored_of_getValidatorByConsAddr found
  exact h.current_of_getValidator stored

/-- A redelegation from a validator goes to another one. -/
theorem dst_ne_of_mem_getRedelegationsFromSrcValidator (h : Structural s) {valAddr : ValAddress}
    {red : Redelegation} (mem : red ∈ s.getRedelegationsFromSrcValidator valAddr) :
    red.validatorDstAddress ≠ valAddr := by
  obtain ⟨key, found, src⟩ := s.mem_getRedelegationsFromSrcValidator mem
  obtain ⟨rfl, distinct⟩ := h.redelegations key red found
  rw [← src]
  exact distinct.symm

end Structural

theorem Structural.keeps_setRedelegationEntry {s : Store} (h : Structural s)
    {delAddr : AccAddress} {valSrcAddr valDstAddr : ValAddress} (distinct : valSrcAddr ≠ valDstAddr)
    (creationHeight minTime balance : Int) (sharesDst : Dec) :
    s.Keeps (s.setRedelegationEntry delAddr valSrcAddr valDstAddr creationHeight minTime balance
      sharesDst).1 :=
  ⟨h.setRedelegationEntry distinct _ _ _ _, Store.evolves_of_validators_eq rfl⟩

theorem Store.Keeps.deleteValidatorQueue {s₁ s₂ : Store} (h : s₁.Keeps s₂) (v : Validator) :
    s₁.Keeps (s₂.deleteValidatorQueue v) := by
  unfold Store.deleteValidatorQueue
  dsimp only
  split <;> exact h.frame rfl rfl rfl

/-! ## The token functions keep the validator's configuration -/

namespace Validator

variable {v v' : Validator}

theorem retains_addTokensFromDel {amount : Int} {issuedShares : Dec}
    (h : v.addTokensFromDel amount = .ok (v', issuedShares)) : v.Retains v' := by
  obtain ⟨-, -, rfl⟩ := addTokensFromDel_eq_ok h
  exact ⟨rfl, rfl⟩

theorem retains_removeDelShares {delShares : Dec} {removedTokens : Int}
    (h : v.removeDelShares delShares = .ok (v', removedTokens)) : v.Retains v' := by
  obtain ⟨-, rfl⟩ := removeDelShares_eq_ok h
  exact ⟨rfl, rfl⟩

theorem retains_removeTokens {tokens : Int} (h : v.removeTokens tokens = .ok v') :
    v.Retains v' := by
  obtain ⟨-, -, rfl⟩ := removeTokens_eq_ok h
  exact ⟨rfl, rfl⟩

end Validator

/-! ## The keeper's functions -/

namespace Keeper

section Keeps

variable {τ : Type} {k : Keeper τ} {ctx : Header} {w w' : World τ}

/-- `Delegate` to the stored record keeps the invariant and no other validator changes. -/
theorem delegate_keeps {delAddr : AccAddress} {bondAmt : Int} {tokenSrc : BondStatus}
    {validator : Validator} {subtractAccount : Bool} {newShares : Dec} (hs : Structural w.store)
    (current : w.store.getValidator validator.operatorAddress = some validator)
    (h : k.delegate ctx w delAddr bondAmt tokenSrc validator subtractAccount = .ok (w', newShares)) :
    w.store.Keeps w'.store ∧ Store.Frame validator.operatorAddress w.store w'.store := by
  obtain ⟨-, validator', hadd, store⟩ := delegate_store h
  have retains := Validator.retains_addTokensFromDel hadd
  rw [store]
  exact ⟨(hs.keeps_updateValidator current retains).frame rfl rfl rfl,
    (w.store.frame_updateValidator retains.address).trans fun _ _ => rfl⟩

/-- `unbond` keeps the invariant, and changes or removes only the validator it unbonds from. -/
theorem unbond_keeps {delAddr : AccAddress} {valAddr : ValAddress} {shares : Dec} {amount : Int}
    (hs : Structural w.store) (h : k.unbond ctx w delAddr valAddr shares = .ok (w', amount)) :
    w.store.Keeps w'.store ∧ Store.Frame valAddr w.store w'.store := by
  obtain ⟨delegation, validator, validator₁, validator₂, s₁, -, -, found, jail, hremove, removed,
    kept⟩ := unbond_store h
  have address : validator.operatorAddress = valAddr := hs.keyed _ _ found
  subst address
  have current := hs.current_of_getValidator found
  -- the jail check: the store as it was, or the jailed record written over the one read
  obtain ⟨keeps₁, frame₁, found₁, address₁⟩ : w.store.Keeps s₁ ∧
      Store.Frame validator.operatorAddress w.store s₁ ∧
      s₁.getValidator validator.operatorAddress = some validator₁ ∧
      validator₁.operatorAddress = validator.operatorAddress := by
    rcases jail with ⟨rfl, rfl⟩ | ⟨-, rfl, rfl⟩
    · exact ⟨.refl hs, .refl _ _, current, rfl⟩
    · rw [Store.jail_eq_updateValidator]
      exact ⟨hs.keeps_updateValidator current ⟨rfl, rfl⟩, w.store.frame_updateValidator rfl,
        getValidator_updateValidator_self _ _ _, rfl⟩
  have retains₂ := Validator.retains_removeDelShares hremove
  have address₂ : validator₂.operatorAddress = validator.operatorAddress :=
    retains₂.address.trans address₁
  -- the delegation is written back or deleted; the validators stay
  generalize hd : (if ({ delegation with shares := delegation.shares - shares } : Delegation).shares.isZero
      then s₁.deleteDelegation { delegation with shares := delegation.shares - shares }
      else s₁.setDelegation { delegation with shares := delegation.shares - shares }) = d
    at removed kept
  have validators : d.validators = s₁.validators := by
    rw [← hd]
    split <;> rfl
  have keeps₂ : w.store.Keeps d := keeps₁.frame validators (by rw [← hd]; split <;> rfl)
    (by rw [← hd]; split <;> rfl)
  have current₂ : d.getValidator validator₁.operatorAddress = some validator₁ := by
    rw [Store.getValidator, validators, address₁]
    exact found₁
  have keeps₃ := keeps₂.trans (keeps₂.structural.keeps_updateValidator current₂ retains₂)
  have frame₃ : Store.Frame validator.operatorAddress w.store
      (d.updateValidator validator₁ validator₂) := by
    refine frame₁.trans (fun a ne => ?_)
    rw [Store.getValidator_updateValidator_of_ne _ (by rw [address₂]; exact Ne.symm ne),
      Store.getValidator, validators]
    rfl
  -- a validator left unbonded without shares is removed
  by_cases empty : validator₂.delegatorShares.isZero ∧ validator₂.isUnbonded = true
  · obtain ⟨-, store⟩ := removed empty
    rw [store]
    refine ⟨keeps₃.trans (keeps₃.structural.keeps_deleteValidator
      (getValidator_updateValidator_self _ _ _)), ?_⟩
    rw [address₂]
    exact frame₃.trans (Store.frame_deleteValidator _ _ _)
  · rw [kept empty]
    exact ⟨keeps₃, frame₃⟩

/-- `Undelegate` keeps the invariant, and changes or removes only the validator it unbonds
from. -/
theorem undelegate_keeps {delAddr : AccAddress} {valAddr : ValAddress} {sharesAmount : Dec}
    {completionTime : Int} (hs : Structural w.store)
    (h : k.undelegate ctx w delAddr valAddr sharesAmount = .ok (w', completionTime)) :
    w.store.Keeps w'.store ∧ Store.Frame valAddr w.store w'.store := by
  obtain ⟨validator, w₁, returnAmount, -, -, -, hunbond, -, store⟩ := undelegate_store h
  obtain ⟨keeps, frame⟩ := unbond_keeps hs hunbond
  dsimp only at store
  rw [store]
  exact ⟨keeps.frame rfl rfl rfl, frame.trans fun _ _ => rfl⟩

/-- `BeginRedelegation` keeps the invariant: the destination it read before unbonding from the
source is still the stored record when it delegates to it. -/
theorem beginRedelegation_keeps {delAddr : AccAddress} {valSrcAddr valDstAddr : ValAddress}
    {sharesAmount : Dec} {completionTime : Int} (hs : Structural w.store)
    (h : k.beginRedelegation ctx w delAddr valSrcAddr valDstAddr sharesAmount =
      .ok (w', completionTime)) :
    w.store.Keeps w'.store := by
  obtain ⟨dstValidator, srcValidator, w₁, w₂, returnAmount, sharesCreated, distinct, foundDst, -, -,
    hunbond, -, hdelegate, store⟩ := beginRedelegation_store h
  obtain ⟨keeps₁, frame₁⟩ := unbond_keeps hs hunbond
  have currentDst : w₁.store.getValidator dstValidator.operatorAddress = some dstValidator := by
    rw [hs.keyed _ _ foundDst, frame₁ valDstAddr (Ne.symm distinct)]
    exact foundDst
  have keeps₂ := keeps₁.trans (delegate_keeps keeps₁.structural currentDst hdelegate).1
  rcases store with store | ⟨height, store⟩
  · rw [store]
    exact keeps₂
  · dsimp only at store
    rw [store]
    exact keeps₂.trans ((keeps₂.structural.keeps_setRedelegationEntry distinct _ _ _ _).frame
      rfl rfl rfl)

theorem completeUnbonding_keeps {delAddr : AccAddress} {valAddr : ValAddress}
    {err : Option SdkError} (hs : Structural w.store)
    (h : k.completeUnbonding ctx w delAddr valAddr = .ok (w', err)) : w.store.Keeps w'.store := by
  rcases completeUnbonding_store h with store | ⟨ubd, -, store | ⟨entries, store⟩⟩ <;>
    rw [store] <;> exact (Store.Keeps.refl hs).frame rfl rfl rfl

theorem completeRedelegation_keeps {delAddr : AccAddress} {valSrcAddr valDstAddr : ValAddress}
    (hs : Structural w.store)
    (h : completeRedelegation ctx w delAddr valSrcAddr valDstAddr = .ok w') :
    w.store.Keeps w'.store := by
  obtain ⟨red, found, store | store⟩ := completeRedelegation_store h
  · rw [store]
    exact ⟨hs.removeRedelegation _, Store.evolves_of_validators_eq rfl⟩
  · rw [store]
    exact ⟨hs.redelegation_entries found _, Store.evolves_of_validators_eq rfl⟩

/-- `Slash` keeps the invariant: the validator it read is still the stored record when it
removes the tokens, since the scan only unbonds from other validators. -/
theorem slash_keeps {consAddr : ConsAddress} {infractionHeight power : Int} {slashFactor : Dec}
    (hs : Structural w.store)
    (h : k.slash ctx w consAddr infractionHeight power slashFactor = .ok w') :
    w.store.Keeps w'.store := by
  rcases slash_store h with store | ⟨validator, w₁, remaining, validator', -, found, -, -, scan,
    hremove, store⟩
  · rw [store]
    exact .refl hs
  · have current := hs.current_of_getValidatorByConsAddr found
    obtain ⟨keeps₁, current₁⟩ : w.store.Keeps w₁.store ∧
        w₁.store.getValidator validator.operatorAddress = some validator := by
      rcases scan with same | ⟨w₀, store₀, hscan⟩
      · rw [same]
        exact ⟨.refl hs, current⟩
      · refine slashUnbondingsAndRedelegations_preserves
          (fun s => w.store.Keeps s ∧ s.getValidator validator.operatorAddress = some validator)
          ?_ ?_ (by simp only [store₀]; exact ⟨.refl hs, current⟩) hscan
        · -- a slashed unbonding delegation is written under its own key
          rintro s ubd entries ⟨keeps, found'⟩
          exact ⟨keeps.frame rfl rfl rfl, found'⟩
        · -- an unbonding from a destination leaves the validator slashed
          rintro red mem w₂ w₃ shares amount ⟨keeps, found'⟩ hunbond
          rw [store₀] at mem
          obtain ⟨keeps', frame'⟩ := unbond_keeps keeps.structural hunbond
          refine ⟨keeps.trans keeps', ?_⟩
          rw [frame' _ (hs.dst_ne_of_mem_getRedelegationsFromSrcValidator mem).symm]
          exact found'
    rw [store]
    exact keeps₁.trans
      (keeps₁.structural.keeps_updateValidator current₁ (Validator.retains_removeTokens hremove))

theorem jail_keeps {consAddr : ConsAddress} (hs : Structural w.store)
    (h : jail w consAddr = .ok w') : w.store.Keeps w'.store := by
  obtain ⟨validator, found, hjail⟩ := jail_store h
  obtain ⟨-, store⟩ := jailValidator_eq_ok hjail
  rw [store, Store.jail_eq_updateValidator]
  exact hs.keeps_updateValidator (hs.current_of_getValidatorByConsAddr found) ⟨rfl, rfl⟩

theorem unjail_keeps {consAddr : ConsAddress} (hs : Structural w.store)
    (h : unjail w consAddr = .ok w') : w.store.Keeps w'.store := by
  obtain ⟨validator, found, hunjail⟩ := unjail_store h
  obtain ⟨jailed, store⟩ := unjailValidator_eq_ok hunjail
  have current := hs.current_of_getValidatorByConsAddr found
  rw [store, hs.unjail_eq_updateValidator current jailed]
  exact hs.keeps_updateValidator current ⟨rfl, rfl⟩

/-- Every write of the EndBlocker keeps `Keeps` from a given store. -/
theorem endBlockClosed_keeps (s₀ : Store) : EndBlockClosed s₀.Keeps where
  bond s a v hP found _ _ :=
    (hP.trans (hP.structural.keeps_updateValidator (hP.structural.current_of_getValidator found)
      (⟨rfl, rfl⟩ : v.Retains (v.updateStatus .bonded)))).deleteValidatorQueue _
  setLastPower _ _ _ hP := hP.frame rfl rfl rfl
  beginUnbonding s a v time height hP found _ :=
    (hP.trans (hP.structural.keeps_updateValidator (hP.structural.current_of_getValidator found)
      (⟨rfl, rfl⟩ : v.Retains { v.updateStatus .unbonding with
        unbondingCompletionTime := time, unbondingHeight := height }))).frame rfl rfl rfl
  deleteLastPower _ _ hP := hP.frame rfl rfl rfl
  setLastTotalPower _ _ hP := hP.frame rfl rfl rfl
  completeUnbonding s a v hP found _ := by
    have current := hP.structural.current_of_getValidator found
    -- the status change keeps the key and the jail flag
    rw [hP.structural.setValidator_eq_updateValidator current
      (rfl : (v.updateStatus .unbonded).operatorAddress = _) rfl rfl]
    exact hP.trans (hP.structural.keeps_updateValidator current ⟨rfl, rfl⟩)
  remove _ _ _ hP found _ _ _ := hP.trans (hP.structural.keeps_deleteValidator found)
  eraseValidatorQueue _ _ hP := hP.frame rfl rfl rfl
  dequeueUBD _ _ hP := hP.frame rfl rfl rfl
  completeUBD _ _ _ _ _ hP _ := ⟨hP.frame rfl rfl rfl, hP.frame rfl rfl rfl⟩
  dequeueRedelegations _ _ hP := hP.frame rfl rfl rfl
  completeRedelegation _ _ _ _ _ _ hP found :=
    ⟨hP.trans ⟨hP.structural.removeRedelegation _, Store.evolves_of_validators_eq rfl⟩,
      hP.trans ⟨hP.structural.redelegation_entries found _, Store.evolves_of_validators_eq rfl⟩⟩

theorem endBlocker_keeps {updates : List ValidatorUpdate} (hs : Structural w.store)
    (h : k.endBlocker ctx w = .ok (w', updates)) : w.store.Keeps w'.store :=
  endBlocker_preserves (endBlockClosed_keeps w.store) (.refl hs) h

end Keeps

/-! ## The handlers -/

section Handlers

variable {τ : Type} {k : Keeper τ} {ctx : Header} {w w' : World τ}

/-- `MsgCreateValidator` writes the new record, then delegates to it; the delegation keeps
`Keeps` from the store with the new record. -/
theorem handleMsgCreateValidator_keeps {msg : MsgCreateValidator} (hs : Structural w.store)
    (h : k.handleMsgCreateValidator ctx w msg = .ok w') :
    w.store.getValidator msg.validatorAddress = none ∧
      (((w.store.setValidator (createdValidator ctx msg)).setValidatorByConsAddr
        (createdValidator ctx msg)).setNewValidatorByPowerIndex (createdValidator ctx msg)).Keeps
        w'.store := by
  obtain ⟨fresh, -, -, valid, w₁, shares, store₁, hdelegate⟩ := handleMsgCreateValidator_store h
  have created : Structural w₁.store := by
    rw [store₁]
    exact hs.create fresh rfl (CommissionRates.bounded_of_validate valid)
  have current : w₁.store.getValidator (createdValidator ctx msg).operatorAddress =
      some (createdValidator ctx msg) := by
    rw [store₁]
    simp
  rw [← store₁]
  exact ⟨fresh, (delegate_keeps created current hdelegate).1⟩

theorem handleMsgCreateValidator_structural {msg : MsgCreateValidator} (hs : Structural w.store)
    (h : k.handleMsgCreateValidator ctx w msg = .ok w') : Structural w'.store :=
  (handleMsgCreateValidator_keeps hs h).2.structural

/-- `MsgEditValidator` writes over the stored record with the same tokens and jail flag, so its
key in the index stays; a new rate that `ValidateNewRate` accepts stays within the bounds. -/
theorem handleMsgEditValidator_structural {msg : MsgEditValidator} (hs : Structural w.store)
    (h : k.handleMsgEditValidator ctx w msg = .ok w') : Structural w'.store := by
  obtain ⟨validator, description, commission, minSelfDelegation, found, -, rate, -, store⟩ :=
    handleMsgEditValidator_store h
  have current := hs.current_of_getValidator found
  rw [store, hs.setValidator_eq_updateValidator current (rfl : ({ validator with
    description := description, commission := commission,
    minSelfDelegation := minSelfDelegation } : Validator).operatorAddress = _) rfl rfl]
  refine hs.updateValidator current rfl ?_
  rcases rate with ⟨-, rfl⟩ | ⟨newRate, -, valid, rfl⟩
  · exact (hs.commission _ _ current : validator.commission.Bounded)
  · exact Commission.bounded_of_validateNewRate (hs.commission _ _ current) valid

theorem handleMsgDelegate_keeps {msg : MsgDelegate} (hs : Structural w.store)
    (h : k.handleMsgDelegate ctx w msg = .ok w') : w.store.Keeps w'.store := by
  obtain ⟨validator, shares, found, -, hdelegate⟩ := handleMsgDelegate_store h
  exact (delegate_keeps hs (hs.current_of_getValidator found) hdelegate).1

theorem handleMsgUndelegate_keeps {msg : MsgUndelegate} (hs : Structural w.store)
    (h : k.handleMsgUndelegate ctx w msg = .ok w') : w.store.Keeps w'.store := by
  obtain ⟨shares, completionTime, -, hundelegate⟩ := handleMsgUndelegate_store h
  exact (undelegate_keeps hs hundelegate).1

theorem handleMsgBeginRedelegate_keeps {msg : MsgBeginRedelegate} (hs : Structural w.store)
    (h : k.handleMsgBeginRedelegate ctx w msg = .ok w') : w.store.Keeps w'.store := by
  obtain ⟨shares, completionTime, -, hredelegate⟩ := handleMsgBeginRedelegate_store h
  exact beginRedelegation_keeps hs hredelegate

end Handlers

/-! ## Every event -/

section Events

variable {τ : Type} {k : Keeper τ} {ctx : Header} {w w' : World τ}

/-- Every successful event keeps the invariant. -/
theorem applyEvent_structural {e : Event} (hs : Structural w.store)
    (h : k.applyEvent ctx w e = .ok w') : Structural w'.store := by
  cases e with
  | deliver msg =>
    dsimp only [applyEvent] at h
    split at h
    · exact absurd h Fallible.throw_ne_ok
    · cases msg with
      | createValidator msg => exact handleMsgCreateValidator_structural hs h
      | editValidator msg => exact handleMsgEditValidator_structural hs h
      | delegate msg => exact (handleMsgDelegate_keeps hs h).structural
      | beginRedelegate msg => exact (handleMsgBeginRedelegate_keeps hs h).structural
      | undelegate msg => exact (handleMsgUndelegate_keeps hs h).structural
  | endBlock =>
    obtain ⟨⟨w₁, updates⟩, hend, rfl⟩ := Fallible.map_eq_ok.mp h
    exact (endBlocker_keeps hs hend).structural
  | slash consAddr infractionHeight power slashFactor => exact (slash_keeps hs h).structural
  | jail consAddr => exact (jail_keeps hs h).structural
  | unjail consAddr => exact (unjail_keeps hs h).structural

end Events

end Keeper

theorem Structural.empty (params : Params) : Structural (Store.empty params) where
  keyed _ _ found := by cases found
  indexed _ _ found := by cases found
  sound _ _ found := by cases found
  commission _ _ found := by cases found
  redelegations _ _ found := by cases found

/-- Every reachable store has the structure of `Structural`. -/
theorem Reachable.structural {τ : Type} {k : Keeper τ} {w : World τ} (reach : Reachable k w) :
    Structural w.store :=
  reach.store_induction Structural Structural.empty
    fun _ _ _ _ hs h => Keeper.applyEvent_structural hs h

/-- In every reachable state, an entry of the power index names a stored validator that is not
jailed, at the key of its current tokens; and every such validator has its entry. So each has
exactly one entry, and jailed or removed validators have none. -/
theorem powerIndex_consistent {τ : Type} {k : Keeper τ} {w : World τ} (reach : Reachable k w)
    (key : PowerKey) (a : ValAddress) :
    w.store.validatorsByPower.find? key = some a ↔
      ∃ v, w.store.getValidator a = some v ∧ v.jailed = false ∧ powerIndexKey v = key := by
  have hs := reach.structural
  constructor
  · exact hs.sound key a
  · rintro ⟨v, found, notJailed, rfl⟩
    exact hs.indexed a v found notJailed

open RemovedDestination in
theorem powerIndex_consistent_two_validators :
    ∃ w, Reachable (Keeper.withoutHooks pools) w ∧
      (w.store.getValidator [10]).isSome ∧ (w.store.getValidator [20]).isSome ∧
      ∀ key a, (w.store.validatorsByPower.find? key = some a ↔
        ∃ v, w.store.getValidator a = some v ∧ v.jailed = false ∧ powerIndexKey v = key) := by
  obtain ⟨w, reach, first, second, -, -⟩ := reachable_two_validators
  exact ⟨w, reach, first, second, fun key a => powerIndex_consistent reach key a⟩

end Staking

end Pocc
