import Pocc.Staking.Hooks

/-!
# The slashing keeper

x/slashing. The keeper keeps, by consensus address, the relation from an address to its public
key (written when a validator is created, deleted when it is removed), a signing info, and the
missed-block bit array of its liveness window (signing_info.go); its parameters live in its
params subspace (params.go). It is the state behind the hooks of the staking keeper
(hooks.go), and calls back into the staking keeper to slash and jail (keeper.go):

* `HandleValidatorSignature` is called once per block for each validator of the last commit:
  the bit of the block's position in the window is updated with the counter of missed blocks
  that tracks the sum of the bits, and a validator past its first window that missed more
  than the window allows is slashed, jailed and given a fresh window;
* `HandleDoubleSign` slashes and jails a validator for evidence of a double sign, and
  tombstones its signing info;
* `handleMsgUnjail` (handler.go) unjails a validator whose jail time is over.

Heights, the offset into the window and the counter of missed blocks are Go `int64`s, whose
sums wrap (`int64`); `MinSignedPerWindow` panics past the widths of `MulInt64` and
`RoundInt64`. Times are exact seconds: a block time plus a jail duration (an `int64` of
nanoseconds) stays far inside what a Go `time.Time` holds. The age of evidence is the exact
difference of two times; Go's `Time.Sub` saturates at about 292 years, which changes its
comparison with `MaxEvidenceAge` only when that parameter is the longest duration.

A public key is modelled by its address. Logs that the source formats from an address keep
their fixed text. A consensus address has a fixed length, so the key prefix of one address's
bits is the prefix of no other's, and the bits are kept by address, then by index.
-/

namespace Pocc

namespace Slashing

open Staking

/-- The slashing parameters. Durations and times are in seconds, as the staking keeper's. -/
structure Params where
  maxEvidenceAge : Int
  signedBlocksWindow : Int
  minSignedPerWindow : Dec
  downtimeJailDuration : Int
  slashFractionDoubleSign : Dec
  slashFractionDowntime : Dec
  deriving DecidableEq, Repr

/-- `DefaultParams`. -/
def defaultParams : Params :=
  ⟨60 * 2, 100, ⟨500000000000000000⟩, 60 * 10, ⟨50000000000000000⟩, ⟨10000000000000000⟩⟩

/-- `MinSignedPerWindow`: the fraction of the window, rounded to an integer. -/
def Params.minSignedPerWindowBlocks (p : Params) : Int :=
  (p.minSignedPerWindow.mulInt p.signedBlocksWindow).roundInt

/-- `MinSignedPerWindow` as Go runs it: `MulInt64` panics past 315 bits and `RoundInt64`
outside an `int64`. -/
def Params.minSignedPerWindowChecked (p : Params) : Except SdkError Int := do
  let product ← checkDec (p.minSignedPerWindow.mulInt p.signedBlocksWindow)
  product.roundInt64

/-- `ValidatorSigningInfo`. -/
structure ValidatorSigningInfo where
  address : ConsAddress
  startHeight : Int
  indexOffset : Int
  jailedUntil : Int
  tombstoned : Bool
  missedBlocksCounter : Int
  deriving DecidableEq, Repr

/-- `DoubleSignJailEndTime`: the last second Amino encodes. -/
def doubleSignJailEndTime : Int := 253402300799

/-- `ValidatorUpdateDelay` (types/staking.go). -/
def validatorUpdateDelay : Int := 1

/-- The slashing store. -/
structure Store where
  params : Params
  addrPubkeyRelation : SortedMap ConsAddress ConsAddress
  signingInfos : SortedMap ConsAddress ValidatorSigningInfo
  missedBlockBitArray : SortedMap ConsAddress (SortedMap Int Bool)

namespace Store

def empty (params : Params) : Store := ⟨params, .empty, .empty, .empty⟩

variable (s : Store)

/-- `addPubkey`, through `setAddrPubkeyRelation`. -/
def addPubkey (pubkey : ConsAddress) : Store :=
  { s with addrPubkeyRelation := s.addrPubkeyRelation.insert pubkey pubkey }

/-- `getPubkey`: an address without a relation has no key. -/
def getPubkey (address : ConsAddress) : Option ConsAddress := s.addrPubkeyRelation.find? address

/-- `deleteAddrPubkeyRelation`. -/
def deleteAddrPubkeyRelation (address : ConsAddress) : Store :=
  { s with addrPubkeyRelation := s.addrPubkeyRelation.erase address }

/-- `getValidatorSigningInfo`. -/
def getValidatorSigningInfo (address : ConsAddress) : Option ValidatorSigningInfo :=
  s.signingInfos.find? address

/-- `SetValidatorSigningInfo`. -/
def setValidatorSigningInfo (address : ConsAddress) (info : ValidatorSigningInfo) : Store :=
  { s with signingInfos := s.signingInfos.insert address info }

/-- `getValidatorMissedBlockBitArray`: a bit never written reads as not missed. -/
def getValidatorMissedBlockBitArray (address : ConsAddress) (index : Int) : Bool :=
  match s.missedBlockBitArray.find? address with
  | some bits => (bits.find? index).getD false
  | none => false

/-- `setValidatorMissedBlockBitArray`. -/
def setValidatorMissedBlockBitArray (address : ConsAddress) (index : Int) (missed : Bool) : Store :=
  let bits := (s.missedBlockBitArray.find? address).getD .empty
  { s with missedBlockBitArray := s.missedBlockBitArray.insert address (bits.insert index missed) }

/-- `clearValidatorMissedBlockBitArray`: every bit of the address is deleted. -/
def clearValidatorMissedBlockBitArray (address : ConsAddress) : Store :=
  { s with missedBlockBitArray := s.missedBlockBitArray.erase address }

/-! ### Reading after each write -/

@[simp] theorem getValidatorSigningInfo_setValidatorSigningInfo (a b : ConsAddress)
    (info : ValidatorSigningInfo) :
    (s.setValidatorSigningInfo a info).getValidatorSigningInfo b =
      if a = b then some info else s.getValidatorSigningInfo b := by
  simp only [getValidatorSigningInfo, setValidatorSigningInfo, SortedMap.find?_insert]
  congr

@[simp] theorem getValidatorSigningInfo_setValidatorMissedBlockBitArray (a b : ConsAddress)
    (index : Int) (missed : Bool) :
    (s.setValidatorMissedBlockBitArray a index missed).getValidatorSigningInfo b =
      s.getValidatorSigningInfo b := rfl

@[simp] theorem getValidatorSigningInfo_clearValidatorMissedBlockBitArray (a b : ConsAddress) :
    (s.clearValidatorMissedBlockBitArray a).getValidatorSigningInfo b =
      s.getValidatorSigningInfo b := rfl

@[simp] theorem getValidatorMissedBlockBitArray_setValidatorMissedBlockBitArray
    (a b : ConsAddress) (i j : Int) (missed : Bool) :
    (s.setValidatorMissedBlockBitArray a i missed).getValidatorMissedBlockBitArray b j =
      if a = b ∧ i = j then missed else s.getValidatorMissedBlockBitArray b j := by
  unfold getValidatorMissedBlockBitArray setValidatorMissedBlockBitArray
  by_cases same : a = b
  · subst same
    by_cases at_index : i = j
    · subst at_index
      simp
    · cases s.missedBlockBitArray.find? a <;> simp [at_index]
  · simp [same]

@[simp] theorem getValidatorMissedBlockBitArray_clearValidatorMissedBlockBitArray
    (a b : ConsAddress) (j : Int) :
    (s.clearValidatorMissedBlockBitArray a).getValidatorMissedBlockBitArray b j =
      if a = b then false else s.getValidatorMissedBlockBitArray b j := by
  unfold getValidatorMissedBlockBitArray clearValidatorMissedBlockBitArray
  by_cases same : a = b <;> simp [same]

@[simp] theorem getValidatorMissedBlockBitArray_setValidatorSigningInfo (a b : ConsAddress)
    (info : ValidatorSigningInfo) (j : Int) :
    (s.setValidatorSigningInfo a info).getValidatorMissedBlockBitArray b j =
      s.getValidatorMissedBlockBitArray b j := rfl

@[simp] theorem params_setValidatorSigningInfo (a : ConsAddress) (info : ValidatorSigningInfo) :
    (s.setValidatorSigningInfo a info).params = s.params := rfl

@[simp] theorem params_setValidatorMissedBlockBitArray (a : ConsAddress) (index : Int)
    (missed : Bool) : (s.setValidatorMissedBlockBitArray a index missed).params = s.params := rfl

@[simp] theorem params_clearValidatorMissedBlockBitArray (a : ConsAddress) :
    (s.clearValidatorMissedBlockBitArray a).params = s.params := rfl

end Store

/-! ## The hooks -/

/-- `AfterValidatorBonded`: a validator bonded for the first time gets a signing info that
starts at the block height. -/
def Store.afterValidatorBonded (s : Store) (ctx : Header) (address : ConsAddress) : Store :=
  match s.getValidatorSigningInfo address with
  | some _ => s
  | none => s.setValidatorSigningInfo address ⟨address, ctx.height, 0, 0, false, 0⟩

/-- The hooks of the slashing keeper, the state behind the staking hooks. `AfterValidatorCreated`
reads the new validator's key through the staking keeper's `Validator`, which is nil for an
address without a validator. -/
def hooks (ctx : Header) (w : World Store) : HookCall → Except SdkError (Ledger × Store)
  | .afterValidatorBonded consAddr _ => pure (w.ledger, w.ext.afterValidatorBonded ctx consAddr)
  | .afterValidatorCreated valAddr =>
    match w.store.getValidator valAddr with
    | some validator => pure (w.ledger, w.ext.addPubkey validator.consAddress)
    | none => throw (.panic "runtime error: invalid memory address or nil pointer dereference")
  | .afterValidatorRemoved consAddr _ =>
    pure (w.ledger, w.ext.deleteAddrPubkeyRelation consAddr)
  | _ => pure (w.ledger, w.ext)

/-- The staking keeper of an app whose staking hooks are the slashing keeper's. -/
def stakingKeeper (supplyKeeper : SupplyKeeper) : Staking.Keeper Store := ⟨supplyKeeper, hooks⟩

/-! ## Liveness -/

/-- The switch of `HandleValidatorSignature` on the bit at `index`: a bit that changes is
written, and the counter of missed blocks follows it. -/
def Store.updateMissedBlock (s : Store) (address : ConsAddress) (index : Int) (missed : Bool)
    (signInfo : ValidatorSigningInfo) : Store × ValidatorSigningInfo :=
  let previous := s.getValidatorMissedBlockBitArray address index
  if !previous && missed then
    (s.setValidatorMissedBlockBitArray address index true,
      { signInfo with missedBlocksCounter := int64 (signInfo.missedBlocksCounter + 1) })
  else if previous && !missed then
    (s.setValidatorMissedBlockBitArray address index false,
      { signInfo with missedBlocksCounter := int64 (signInfo.missedBlocksCounter - 1) })
  else (s, signInfo)

variable (k : Staking.Keeper Store) (ctx : Header)

/-- The downtime branch of `HandleValidatorSignature`, past the first window with too many
missed blocks: a validator found and not jailed is slashed at the height of the stake that
signed the block and jailed, and its window starts again. -/
def downtimeSlash (w : World Store) (addr : ConsAddress) (power : Int)
    (signInfo : ValidatorSigningInfo) : Except SdkError (World Store) :=
  match w.store.getValidatorByConsAddr addr with
  | some validator =>
    if !validator.jailed then do
      let distributionHeight := int64 (ctx.height - validatorUpdateDelay - 1)
      let w ← k.slash ctx w addr distributionHeight power w.ext.params.slashFractionDowntime
      let w ← Staking.Keeper.jail w addr
      let signInfo := { signInfo with
        jailedUntil := ctx.time + w.ext.params.downtimeJailDuration, missedBlocksCounter := 0,
        indexOffset := 0 }
      pure { w with
        ext := (w.ext.clearValidatorMissedBlockBitArray addr).setValidatorSigningInfo addr signInfo }
    else pure { w with ext := w.ext.setValidatorSigningInfo addr signInfo }
  | none => pure { w with ext := w.ext.setValidatorSigningInfo addr signInfo }

/-- `HandleValidatorSignature`. The index into the window is Go's `%`, which panics on a zero
window; heights, the offset and the counter are `int64`s, whose sums wrap. -/
def handleValidatorSignature (w : World Store) (addr : ConsAddress) (power : Int)
    (signed : Bool) : Except SdkError (World Store) :=
  match w.ext.getPubkey addr with
  | none => throw (.panic "Validator consensus-address not found")
  | some _ =>
    match w.ext.getValidatorSigningInfo addr with
    | none => throw (.panic "Expected signing info for validator but not found")
    | some signInfo =>
      let window := w.ext.params.signedBlocksWindow
      if window = 0 then throw (.panic "runtime error: integer divide by zero")
      else do
        let index := signInfo.indexOffset.tmod window
        let signInfo := { signInfo with indexOffset := int64 (signInfo.indexOffset + 1) }
        let (s, signInfo) := w.ext.updateMissedBlock addr index (!signed) signInfo
        let w := { w with ext := s }
        let minSigned ← s.params.minSignedPerWindowChecked
        let minHeight := int64 (signInfo.startHeight + window)
        let maxMissed := int64 (window - minSigned)
        if minHeight < ctx.height ∧ maxMissed < signInfo.missedBlocksCounter then
          downtimeSlash k ctx w addr power signInfo
        else pure { w with ext := s.setValidatorSigningInfo addr signInfo }

/-! ## Double signs -/

/-- `HandleDoubleSign`: evidence of an address without a key, too old, of a validator not
found or unbonded, or already tombstoned, is ignored. -/
def handleDoubleSign (w : World Store) (addr : ConsAddress) (infractionHeight timestamp power : Int) :
    Except SdkError (World Store) :=
  let age := ctx.time - timestamp
  match w.ext.getPubkey addr with
  | none => pure w
  | some _ =>
    if w.ext.params.maxEvidenceAge < age then pure w
    else
      match w.store.getValidatorByConsAddr addr with
      | none => pure w
      | some validator =>
        if validator.isUnbonded then pure w
        else
          match w.ext.getValidatorSigningInfo addr with
          | none => throw (.panic "Expected signing info for validator but not found")
          | some signInfo =>
            if signInfo.tombstoned then pure w
            else do
              let distributionHeight := int64 (infractionHeight - validatorUpdateDelay)
              let fraction := w.ext.params.slashFractionDoubleSign
              let w ← k.slash ctx w addr distributionHeight power fraction
              let w ← if !validator.jailed then Staking.Keeper.jail w addr else pure w
              let signInfo := { signInfo with
                tombstoned := true, jailedUntil := doubleSignJailEndTime }
              pure { w with ext := w.ext.setValidatorSigningInfo addr signInfo }

/-! ## Unjailing -/

/-- The module's codespace. -/
def codespace : String := "slashing"

def err (code : Nat) (log : String) : SdkError := .error codespace (.module code) log

def errNoValidatorForAddress : SdkError :=
  err 101 "that address is not associated with any known validator"
def errBadValidatorAddr : SdkError := err 101 "validator does not exist for that address"
def errValidatorJailed : SdkError := err 102 "validator still jailed, cannot yet be unjailed"
def errValidatorNotJailed : SdkError := err 103 "validator not jailed, cannot be unjailed"
def errMissingSelfDelegation : SdkError :=
  err 104 "validator has no self-delegation; cannot be unjailed"
/-- `ErrSelfDelegationTooLowToUnjail`, with the code of `ErrValidatorNotJailed`. -/
def errSelfDelegationTooLowToUnjail : SdkError :=
  err 103 "validator\x27s self delegation less than MinSelfDelegation, cannot be unjailed"

/-- `MsgUnjail.ValidateBasic`. -/
def validateBasicUnjail (validatorAddr : ValAddress) : Option SdkError :=
  if validatorAddr.isEmpty then some errBadValidatorAddr else none

/-- `handleMsgUnjail`: the operator's own delegation must be worth its minimum, and a
validator with a signing info must not be tombstoned and must be past its jail time. A jailed
validator without a signing info (never bonded) is unjailed. -/
def handleMsgUnjail (w : World Store) (validatorAddr : ValAddress) :
    Except SdkError (World Store) :=
  match w.store.getValidator validatorAddr with
  | none => throw errNoValidatorForAddress
  | some validator =>
    match w.store.getDelegation validatorAddr validatorAddr with
    | none => throw errMissingSelfDelegation
    | some selfDel =>
      if (validator.tokensFromShares selfDel.shares).truncateInt < validator.minSelfDelegation then
        throw errSelfDelegationTooLowToUnjail
      else if !validator.jailed then throw errValidatorNotJailed
      else
        let consAddr := validator.consAddress
        match w.ext.getValidatorSigningInfo consAddr with
        | some info =>
          if info.tombstoned then throw errValidatorJailed
          else if ctx.time < info.jailedUntil then throw errValidatorJailed
          else Staking.Keeper.unjail w consAddr
        | none => Staking.Keeper.unjail w consAddr

end Slashing

end Pocc
