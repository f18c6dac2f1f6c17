import Pocc.Slashing.Keeper
import Pocc.Lib.Ring

/-!
# Liveness bookkeeping

`HandleValidatorSignature` keeps, per consensus address, a window of `SignedBlocksWindow` bits,
one per block the validator should have signed, at the index `IndexOffset % SignedBlocksWindow`,
and `MissedBlocksCounter`, which "just tracks the sum of the bit array". A downtime slash jails
the validator and clears its bits and counter.

Heights, the offset and the counter are Go `int64`s, whose `+`, `-`, `++` and `--` wrap
(`int64`).

* Over every sequence of calls, each address's counter is, as an `int64`, the number of its
  set bits (`Counted`): every call moves the counter by the change of the one bit it writes,
  and the slash clears both. Below `2^63` set bits the two are equal.
* From a fresh window (a new signing info, or one just reset), the bits are the ring of the
  address's missed flags (`Ring.slot`), and the counter is the number of missed blocks among
  the last `min(IndexOffset, SignedBlocksWindow)` calls for it (`Window`); so it lies in
  `[0, SignedBlocksWindow]`. This needs the window to be an `int64` and fewer than `2^63` calls,
  so that neither the offset nor the counter wraps.
* A call takes the downtime branch exactly when, past `StartHeight + SignedBlocksWindow`, the
  counter exceeds `SignedBlocksWindow - MinSignedPerWindow` and the validator is found and not
  jailed (`handleValidatorSignature_eq_ok`), both bounds computed as `int64`s. A validator
  already jailed is not slashed again, however many blocks it misses
  (`jailed_validator_not_slashed`); and under a window of `2^63 - 1` the end of the first window
  wraps below every height, so a validator is slashed at the first block it misses.

The staking keeper's `Slash` and `Jail` run inside the downtime branch and call the staking
hooks; what is proved holds for every keeper whose hooks keep the slashing store as the
slashing hooks do (`Keeps`, `hooks_keeps`).
-/

namespace Pocc

namespace Slashing

open Staking Relation

/-! ## Counting the missed blocks -/

namespace Store

variable (s : Store)

/-- The number of set bits of an address in the missed-block bit array. -/
def missedCount (address : ConsAddress) : Int :=
  match s.missedBlockBitArray.find? address with
  | some bits => bits.sumBy fun _ missed => (Ring.bit missed : Int)
  | none => 0

/-- The missed-blocks counter of an address; zero without a signing info. -/
def counter (address : ConsAddress) : Int :=
  match s.getValidatorSigningInfo address with
  | some info => info.missedBlocksCounter
  | none => 0

theorem missedCount_setValidatorMissedBlockBitArray (a b : ConsAddress) (index : Int)
    (missed : Bool) :
    (s.setValidatorMissedBlockBitArray a index missed).missedCount b =
      if a = b then
        s.missedCount a - Ring.bit (s.getValidatorMissedBlockBitArray a index) + Ring.bit missed
      else s.missedCount b := by
  unfold missedCount setValidatorMissedBlockBitArray getValidatorMissedBlockBitArray
  by_cases same : a = b
  · subst same
    rw [SortedMap.find?_insert_self, if_pos rfl]
    dsimp only
    rw [SortedMap.sumBy_insert_sub]
    -- the bit replaced is the one the count held, or nothing
    cases s.missedBlockBitArray.find? a with
    | none => simp [SortedMap.sumBy_empty, Ring.bit]
    | some bits => cases found : bits.find? index <;> simp [found, Ring.bit]
  · simp [same]

theorem missedCount_clearValidatorMissedBlockBitArray (a b : ConsAddress) :
    (s.clearValidatorMissedBlockBitArray a).missedCount b = if a = b then 0 else s.missedCount b := by
  unfold missedCount clearValidatorMissedBlockBitArray
  by_cases same : a = b <;> simp [same]

@[simp] theorem missedCount_setValidatorSigningInfo (a b : ConsAddress)
    (info : ValidatorSigningInfo) :
    (s.setValidatorSigningInfo a info).missedCount b = s.missedCount b := rfl

@[simp] theorem counter_setValidatorSigningInfo (a b : ConsAddress) (info : ValidatorSigningInfo) :
    (s.setValidatorSigningInfo a info).counter b =
      if a = b then info.missedBlocksCounter else s.counter b := by
  unfold counter
  by_cases same : a = b <;> simp [same]

@[simp] theorem counter_clearValidatorMissedBlockBitArray (a b : ConsAddress) :
    (s.clearValidatorMissedBlockBitArray a).counter b = s.counter b := rfl

end Store

theorem Store.missedCount_nonneg (s : Store) (address : ConsAddress) : 0 ≤ s.missedCount address := by
  unfold Store.missedCount
  split
  · exact SortedMap.sumBy_nonneg _ fun _ _ _ => Int.natCast_nonneg _
  · exact le_rfl

/-- Every address's counter is, as an `int64`, the number of its set bits. -/
def Counted (s : Store) : Prop := ∀ address, s.counter address = int64 (s.missedCount address)

/-- Below `2 ^ 63` set bits, the counter is their number. -/
theorem Counted.counter_eq {s : Store} (counted : Counted s) {address : ConsAddress}
    (fits : s.missedCount address < 2 ^ 63) : s.counter address = s.missedCount address := by
  have nonneg := s.missedCount_nonneg address
  rw [counted address, int64_of_isInt64 ⟨by omega, fits⟩]

/-! ## What the hooks may do -/

/-- What the slashing hooks do to the slashing store, as far as the liveness window sees:
the parameters and bits stay, a signing info stays, and a new one starts with no missed
blocks. -/
structure Keeps (t t' : Store) : Prop where
  params : t'.params = t.params
  bits : t'.missedBlockBitArray = t.missedBlockBitArray
  signingInfo : ∀ a info, t.getValidatorSigningInfo a = some info →
    t'.getValidatorSigningInfo a = some info
  counter : ∀ a, t'.counter a = t.counter a

namespace Keeps

theorem refl (t : Store) : Keeps t t := ⟨rfl, rfl, fun _ _ => id, fun _ => rfl⟩

theorem trans {t₁ t₂ t₃ : Store} (h₁ : Keeps t₁ t₂) (h₂ : Keeps t₂ t₃) : Keeps t₁ t₃ :=
  ⟨h₂.params.trans h₁.params, h₂.bits.trans h₁.bits,
    fun a info found => h₂.signingInfo a info (h₁.signingInfo a info found),
    fun a => (h₂.counter a).trans (h₁.counter a)⟩

theorem of_reflTransGen {t t' : Store} (h : ReflTransGen Keeps t t') : Keeps t t' := by
  induction h with
  | refl => exact refl t
  | tail _ step ih => exact ih.trans step

theorem missedCount {t t' : Store} (h : Keeps t t') (a : ConsAddress) :
    t'.missedCount a = t.missedCount a := by
  unfold Store.missedCount
  rw [h.bits]

theorem counted {t t' : Store} (h : Keeps t t') (counted : Counted t) : Counted t' := fun a => by
  rw [h.counter, h.missedCount]
  exact counted a

end Keeps

theorem Keeps.afterValidatorBonded (t : Store) (ctx : Header) (address : ConsAddress) :
    Keeps t (t.afterValidatorBonded ctx address) := by
  unfold Store.afterValidatorBonded
  split
  · exact .refl t
  · next fresh =>
    refine ⟨rfl, rfl, fun a info found => ?_, fun a => ?_⟩
    · -- the new signing info is written where there was none
      have other : address ≠ a := fun same => by rw [same, found] at fresh; cases fresh
      rw [Store.getValidatorSigningInfo_setValidatorSigningInfo, if_neg other]
      exact found
    · rw [Store.counter_setValidatorSigningInfo]
      split
      · next same => subst same; simp [Store.counter, fresh]
      · rfl

/-- The slashing hooks keep the slashing store. -/
theorem hooks_keeps (supplyKeeper : SupplyKeeper) :
    (stakingKeeper supplyKeeper).HooksWithin Keeps := by
  intro ctx w call ledger t h
  cases call with
  | afterValidatorBonded consAddr valAddr =>
    obtain ⟨-, rfl⟩ := Prod.mk.inj (Fallible.pure_eq_ok.mp h)
    exact .afterValidatorBonded _ _ _
  | afterValidatorCreated valAddr =>
    dsimp only [stakingKeeper, hooks] at h
    split at h
    · obtain ⟨-, rfl⟩ := Prod.mk.inj (Fallible.pure_eq_ok.mp h)
      exact ⟨rfl, rfl, fun _ _ => id, fun _ => rfl⟩
    · exact absurd h Fallible.throw_ne_ok
  | afterValidatorRemoved consAddr valAddr =>
    obtain ⟨-, rfl⟩ := Prod.mk.inj (Fallible.pure_eq_ok.mp h)
    exact ⟨rfl, rfl, fun _ _ => id, fun _ => rfl⟩
  | _ =>
    obtain ⟨-, rfl⟩ := Prod.mk.inj (Fallible.pure_eq_ok.mp h)
    exact .refl _

/-! ## One call -/

/-- The switch on the bit: the bit at `index` becomes the flag, and the counter moves by the
change of that bit. -/
theorem Store.updateMissedBlock_spec {s s' : Store} {address : ConsAddress} {index : Int}
    {missed : Bool} {info info' : ValidatorSigningInfo}
    (h : s.updateMissedBlock address index missed info = (s', info')) :
    (∀ b j, s'.getValidatorMissedBlockBitArray b j =
      if address = b ∧ index = j then missed else s.getValidatorMissedBlockBitArray b j) ∧
    (∀ b, s'.missedCount b = if address = b then
      s.missedCount address - Ring.bit (s.getValidatorMissedBlockBitArray address index) +
        Ring.bit missed else s.missedCount b) ∧
    (∀ b, s'.getValidatorSigningInfo b = s.getValidatorSigningInfo b) ∧ s'.params = s.params ∧
    info' = { info with
      missedBlocksCounter :=
        if s.getValidatorMissedBlockBitArray address index = missed then info.missedBlocksCounter
        else int64 (info.missedBlocksCounter +
          (Ring.bit missed - Ring.bit (s.getValidatorMissedBlockBitArray address index))) } := by
  unfold updateMissedBlock at h
  dsimp only at h
  split_ifs at h with set cleared <;> obtain ⟨rfl, rfl⟩ := Prod.mk.inj h
  · -- a block missed where the bit was clear
    obtain ⟨clear, rfl⟩ : s.getValidatorMissedBlockBitArray address index = false ∧ missed = true := by
      simpa using set
    refine ⟨fun b j => by simp, fun b => s.missedCount_setValidatorMissedBlockBitArray _ _ _ _,
      fun b => rfl, rfl, ?_⟩
    simp [clear, Ring.bit]
  · -- a block signed where the bit was set
    obtain ⟨was, rfl⟩ : s.getValidatorMissedBlockBitArray address index = true ∧ missed = false := by
      simpa using cleared
    refine ⟨fun b j => by simp, fun b => s.missedCount_setValidatorMissedBlockBitArray _ _ _ _,
      fun b => rfl, rfl, ?_⟩
    simp [was, Ring.bit, Int.sub_eq_add_neg]
  · -- the bit already holds the flag
    have same : s.getValidatorMissedBlockBitArray address index = missed := by
      revert set cleared
      cases s.getValidatorMissedBlockBitArray address index <;> cases missed <;> simp
    refine ⟨fun b j => ?_, fun b => ?_, fun b => rfl, rfl, by rw [if_pos same]⟩
    · split
      · next at_index => obtain ⟨rfl, rfl⟩ := at_index; exact same
      · rfl
    · split
      · next here => subst here; rw [same]; omega
      · rfl

/-- A `MinSignedPerWindow` that does not panic is the rounded fraction of the window. -/
theorem Params.minSignedPerWindowChecked_eq_ok {p : Params} {minSigned : Int}
    (h : p.minSignedPerWindowChecked = .ok minSigned) : minSigned = p.minSignedPerWindowBlocks := by
  obtain ⟨product, checked, rounded⟩ := Fallible.bind_eq_ok.mp h
  obtain ⟨-, rfl⟩ := checkDec_eq_ok checked
  exact (Dec.roundInt64_eq_ok rounded).2

section Call

variable {k : Staking.Keeper Store} {ctx : Header} {w w' : World Store}

/-- `HandleValidatorSignature`: the signing info of a known address advances one block, with
the bit of its index written. Past the first window with too many missed blocks, a validator
found and not jailed is slashed, jailed, and its window reset; in every other case the staking
state stays. -/
theorem handleValidatorSignature_eq_ok {addr : ConsAddress} {power : Int} {signed : Bool}
    (h : handleValidatorSignature k ctx w addr power signed = .ok w') :
    ∃ info s₁ info₁, (w.ext.getPubkey addr).isSome ∧
      w.ext.getValidatorSigningInfo addr = some info ∧ w.ext.params.signedBlocksWindow ≠ 0 ∧
      w.ext.updateMissedBlock addr (info.indexOffset.tmod w.ext.params.signedBlocksWindow)
        (!signed) { info with indexOffset := int64 (info.indexOffset + 1) } = (s₁, info₁) ∧
      s₁.params.minSignedPerWindowChecked = .ok s₁.params.minSignedPerWindowBlocks ∧
      ((int64 (info₁.startHeight + w.ext.params.signedBlocksWindow) < ctx.height ∧
          int64 (w.ext.params.signedBlocksWindow - s₁.params.minSignedPerWindowBlocks) <
            info₁.missedBlocksCounter ∧
          (∃ v, w.store.getValidatorByConsAddr addr = some v ∧ v.jailed = false) ∧
          ∃ w₁ w₂, k.slash ctx { w with ext := s₁ } addr
              (int64 (ctx.height - validatorUpdateDelay - 1)) power
              s₁.params.slashFractionDowntime = .ok w₁ ∧
            Staking.Keeper.jail w₁ addr = .ok w₂ ∧
            w' = { w₂ with
              ext := (w₂.ext.clearValidatorMissedBlockBitArray addr).setValidatorSigningInfo addr
                { info₁ with
                  jailedUntil := ctx.time + w₂.ext.params.downtimeJailDuration,
                  missedBlocksCounter := 0, indexOffset := 0 } }) ∨
        (¬ (int64 (info₁.startHeight + w.ext.params.signedBlocksWindow) < ctx.height ∧
            int64 (w.ext.params.signedBlocksWindow - s₁.params.minSignedPerWindowBlocks) <
              info₁.missedBlocksCounter ∧
            ∃ v, w.store.getValidatorByConsAddr addr = some v ∧ v.jailed = false) ∧
          w' = { w with ext := s₁.setValidatorSigningInfo addr info₁ })) := by
  unfold handleValidatorSignature at h
  split at h
  · exact absurd h Fallible.throw_ne_ok
  · next pubkey found =>
    split at h
    · exact absurd h Fallible.throw_ne_ok
    · next info hinfo =>
      dsimp only at h
      split at h
      · exact absurd h Fallible.throw_ne_ok
      · next window =>
        rcases hupdate : w.ext.updateMissedBlock addr
          (info.indexOffset.tmod w.ext.params.signedBlocksWindow) (!signed)
          { info with indexOffset := int64 (info.indexOffset + 1) } with ⟨s₁, info₁⟩
        rw [hupdate] at h
        dsimp only at h
        -- `MinSignedPerWindow` did not panic
        obtain ⟨minSigned, checked, h⟩ := Fallible.bind_eq_ok.mp h
        have rounded := Params.minSignedPerWindowChecked_eq_ok checked
        subst rounded
        refine ⟨info, s₁, info₁, by rw [found]; rfl, hinfo, window, hupdate, checked, ?_⟩
        split at h
        · next downtime =>
          -- the downtime branch: slash and jail a validator found and not jailed
          unfold downtimeSlash at h
          split at h
          · next v hv =>
            split at h
            · next unjailed =>
              obtain ⟨w₁, hslash, h⟩ := Fallible.bind_eq_ok.mp h
              obtain ⟨w₂, hjail, h⟩ := Fallible.bind_eq_ok.mp h
              exact .inl ⟨downtime.1, downtime.2, ⟨v, hv, by simpa using unjailed⟩, w₁, w₂, hslash,
                hjail, (Fallible.pure_eq_ok.mp h).symm⟩
            · next jailed =>
              refine .inr ⟨fun ⟨_, _, v', hv', unjailed⟩ => ?_, (Fallible.pure_eq_ok.mp h).symm⟩
              rw [hv] at hv'
              cases hv'
              simp [unjailed] at jailed
          · next hv =>
            refine .inr ⟨fun ⟨_, _, v', hv', _⟩ => ?_, (Fallible.pure_eq_ok.mp h).symm⟩
            rw [hv] at hv'
            cases hv'
        · next quiet =>
          exact .inr ⟨fun ⟨past, beyond, _⟩ => quiet ⟨past, beyond⟩, (Fallible.pure_eq_ok.mp h).symm⟩

/-- What a call leaves in the slashing store: the bit and counter update `s₁`, `info₁` of the
address, then either its signing info written, or, after a slash whose hooks keep the store, its
bits cleared and a fresh window written. -/
theorem handleValidatorSignature_ext (hk : k.HooksWithin Keeps) {addr : ConsAddress}
    {power : Int} {signed : Bool} (h : handleValidatorSignature k ctx w addr power signed = .ok w') :
    ∃ info s₁ info₁, w.ext.getValidatorSigningInfo addr = some info ∧
      w.ext.updateMissedBlock addr (info.indexOffset.tmod w.ext.params.signedBlocksWindow)
        (!signed) { info with indexOffset := int64 (info.indexOffset + 1) } = (s₁, info₁) ∧
      ((∃ t jailedUntil, Keeps s₁ t ∧
          w'.ext = (t.clearValidatorMissedBlockBitArray addr).setValidatorSigningInfo addr
            { info₁ with jailedUntil := jailedUntil, missedBlocksCounter := 0, indexOffset := 0 }) ∨
        w'.ext = s₁.setValidatorSigningInfo addr info₁) := by
  obtain ⟨info, s₁, info₁, -, found, -, hupdate, -, slashed | quiet⟩ :=
    handleValidatorSignature_eq_ok h
  · obtain ⟨-, -, -, w₁, w₂, hslash, hjail, rfl⟩ := slashed
    -- the hooks that `Slash` calls keep the store; `Jail` calls none
    have keeps : Keeps s₁ w₂.ext := by
      rw [Keeper.jail_ext hjail]
      exact Keeps.of_reflTransGen (Keeper.slash_ext hk hslash)
    exact ⟨info, s₁, info₁, found, hupdate, .inl ⟨w₂.ext, _, keeps, rfl⟩⟩
  · exact ⟨info, s₁, info₁, found, hupdate, .inr (by rw [quiet.2])⟩

/-- A call changes no parameter. -/
theorem handleValidatorSignature_params (hk : k.HooksWithin Keeps) {addr : ConsAddress}
    {power : Int} {signed : Bool} (h : handleValidatorSignature k ctx w addr power signed = .ok w') :
    w'.ext.params = w.ext.params := by
  obtain ⟨info, s₁, info₁, -, hupdate, written⟩ := handleValidatorSignature_ext hk h
  have params₁ := (Store.updateMissedBlock_spec hupdate).2.2.2.1
  rcases written with ⟨t, jailedUntil, keeps, ext⟩ | ext
  · rw [ext, Store.params_setValidatorSigningInfo, Store.params_clearValidatorMissedBlockBitArray,
      keeps.params, params₁]
  · rw [ext, Store.params_setValidatorSigningInfo, params₁]

/-- Every call keeps each address's counter equal to its number of set bits. -/
theorem handleValidatorSignature_counted (hk : k.HooksWithin Keeps) {addr : ConsAddress}
    {power : Int} {signed : Bool} (counted : Counted w.ext)
    (h : handleValidatorSignature k ctx w addr power signed = .ok w') : Counted w'.ext := by
  obtain ⟨info, s₁, info₁, found, hupdate, written⟩ := handleValidatorSignature_ext hk h
  obtain ⟨-, count₁, infos₁, -, rfl⟩ := Store.updateMissedBlock_spec hupdate
  have counter₁ : ∀ b, s₁.counter b = w.ext.counter b := fun b => by
    unfold Store.counter
    rw [infos₁]
  intro b
  rcases written with ⟨t, jailedUntil, keeps, ext⟩ | ext
  · -- a fresh window: no counter and no bits for the address, the others as they were
    rw [ext, Store.counter_setValidatorSigningInfo, Store.missedCount_setValidatorSigningInfo,
      Store.missedCount_clearValidatorMissedBlockBitArray, Store.counter_clearValidatorMissedBlockBitArray]
    split
    · rfl
    · rw [keeps.counter, keeps.missedCount, counter₁, count₁, if_neg ‹_›]
      exact counted b
  · -- the counter moves with the bit of the address
    rw [ext, Store.counter_setValidatorSigningInfo, Store.missedCount_setValidatorSigningInfo,
      count₁]
    split
    · next here =>
      subst here
      have before := counted addr
      simp only [Store.counter, found] at before
      dsimp only
      rw [before]
      -- the counter moves, as an `int64`, only when the bit changes
      split
      · next same => rw [same, Int.sub_add_cancel]
      · rw [int64_int64_add]
        congr 1
        omega
    · rw [counter₁]
      exact counted b

/-! ## The window of one address -/

/-- The window of `addr` after the missed flags `recent` of its calls since the last reset,
newest first: one per block in `IndexOffset`, the bits the ring of those flags, and the
counter the number of missed blocks among the last `SignedBlocksWindow` of them. -/
structure Window (s : Store) (addr : ConsAddress) (recent : List Bool) : Prop where
  info : ∃ info, s.getValidatorSigningInfo addr = some info ∧
    info.indexOffset = recent.length ∧
    info.missedBlocksCounter = ((recent.take s.params.signedBlocksWindow.toNat).count true : Int)
  bits : ∀ j, s.getValidatorMissedBlockBitArray addr j = Ring.slot s.params.signedBlocksWindow recent j

/-- A window is read through the signing info and the bits of its address and the
parameters only. -/
theorem Window.congr {t t' : Store} {addr : ConsAddress} {recent : List Bool}
    (win : Window t addr recent)
    (info : t'.getValidatorSigningInfo addr = t.getValidatorSigningInfo addr)
    (bits : ∀ j, t'.getValidatorMissedBlockBitArray addr j = t.getValidatorMissedBlockBitArray addr j)
    (params : t'.params = t.params) : Window t' addr recent := by
  obtain ⟨i, found, offset, count⟩ := win.info
  exact ⟨⟨i, info.trans found, offset, by rw [params]; exact count⟩,
    fun j => by rw [params, bits j]; exact win.bits j⟩

theorem Window.keeps {t t' : Store} {addr : ConsAddress} {recent : List Bool}
    (win : Window t addr recent) (h : Keeps t t') : Window t' addr recent := by
  obtain ⟨info, found, -, -⟩ := win.info
  refine win.congr (by rw [h.signingInfo addr info found, found]) (fun j => ?_) h.params
  unfold Store.getValidatorMissedBlockBitArray
  rw [h.bits]

/-- A fresh window: no block yet, no missed block, no bit set. -/
theorem Window.fresh {s : Store} {addr : ConsAddress} {info : ValidatorSigningInfo}
    (found : s.getValidatorSigningInfo addr = some info) (offset : info.indexOffset = 0)
    (count : info.missedBlocksCounter = 0)
    (bits : ∀ j, s.getValidatorMissedBlockBitArray addr j = false) : Window s addr [] :=
  ⟨⟨info, found, offset, by simp [count]⟩, fun j => by simp [bits]⟩

/-- One call, under a window that is a positive `int64`: a call for `addr` adds its missed
flag to the window, or, with a downtime slash, starts a fresh one; a call for another address
leaves it. The offset of a call for `addr` must not wrap. -/
theorem handleValidatorSignature_window (hk : k.HooksWithin Keeps) {a addr : ConsAddress}
    {power : Int} {signed : Bool} {recent : List Bool} (hW : 0 < w.ext.params.signedBlocksWindow)
    (hW64 : w.ext.params.signedBlocksWindow < 2 ^ 63) (short : a = addr → recent.length + 1 < 2 ^ 63)
    (win : Window w.ext addr recent)
    (h : handleValidatorSignature k ctx w a power signed = .ok w') :
    Window w'.ext addr (if a = addr then (!signed) :: recent else recent) ∨
      (a = addr ∧ Window w'.ext addr []) := by
  obtain ⟨info, s₁, info₁, found, hupdate, written⟩ := handleValidatorSignature_ext hk h
  obtain ⟨bits₁, -, infos₁, params₁, rfl⟩ := Store.updateMissedBlock_spec hupdate
  by_cases here : a = addr
  · subst here
    obtain ⟨info₀, found₀, offset, count⟩ := win.info
    rw [found] at found₀
    cases found₀
    -- the call writes the slot of its position in the window
    have index : info.indexOffset.tmod w.ext.params.signedBlocksWindow =
        (recent.length : Int) % w.ext.params.signedBlocksWindow := by
      rw [offset, Int.tmod_eq_emod_of_nonneg (Int.natCast_nonneg _)]
    rcases written with ⟨t, jailedUntil, keeps, ext⟩ | ext
    · refine .inr ⟨rfl, ⟨⟨_, by rw [ext, Store.getValidatorSigningInfo_setValidatorSigningInfo,
        if_pos rfl], rfl, by simp⟩, fun j => by simp [ext]⟩⟩
    · refine .inl ?_
      rw [if_pos rfl]
      have params' : w'.ext.params = w.ext.params := by
        rw [ext, Store.params_setValidatorSigningInfo, params₁]
      refine ⟨⟨_, by rw [ext, Store.getValidatorSigningInfo_setValidatorSigningInfo, if_pos rfl],
        ?_, ?_⟩, fun j => ?_⟩
      · -- the offset counts one more call, short of the `int64` bound
        have fits := short rfl
        dsimp only
        rw [offset, int64_of_isInt64 ⟨by omega, by omega⟩, List.length_cons, Nat.cast_succ]
      · -- the counter gains the new flag and loses the one its slot held, and stays within the
        -- window, so its `int64` does not wrap
        have ring := Ring.count_take_cons hW (!signed) recent
        rw [← win.bits, ← index] at ring
        have within := Ring.count_take_le (W := w.ext.params.signedBlocksWindow) ((!signed) :: recent)
        rw [params']
        dsimp only
        rw [count]
        split
        · next same =>
          rw [same] at ring
          omega
        · rw [int64_of_isInt64 ⟨by omega, by omega⟩]
          omega
      · rw [params', ext, Store.getValidatorMissedBlockBitArray_setValidatorSigningInfo, bits₁,
          index, Ring.slot_cons, win.bits]
        simp
  · rw [if_neg here]
    refine .inl ?_
    -- the writes are at another address
    have win₁ : Window s₁ addr recent :=
      win.congr (infos₁ addr) (fun j => by rw [bits₁, if_neg (fun both => here both.1)]) params₁
    rcases written with ⟨t, jailedUntil, keeps, ext⟩ | ext
    · refine (win₁.keeps keeps).congr ?_ (fun j => ?_) ?_
      · rw [ext, Store.getValidatorSigningInfo_setValidatorSigningInfo, if_neg here]
        rfl
      · rw [ext, Store.getValidatorMissedBlockBitArray_setValidatorSigningInfo,
          Store.getValidatorMissedBlockBitArray_clearValidatorMissedBlockBitArray, if_neg here]
      · rw [ext]
        rfl
    · refine win₁.congr ?_ (fun j => by rw [ext]; rfl) (by rw [ext]; rfl)
      rw [ext, Store.getValidatorSigningInfo_setValidatorSigningInfo, if_neg here]

end Call

/-! ## Sequences of calls -/

/-- One call of `HandleValidatorSignature`, at its block. -/
structure SignatureCall where
  ctx : Header
  addr : ConsAddress
  power : Int
  signed : Bool

/-- The calls one after another, each on the world the one before left. -/
def handleSignatures (k : Staking.Keeper Store) (w : World Store) :
    List SignatureCall → Except SdkError (World Store)
  | [] => pure w
  | c :: calls => do
    let w ← handleValidatorSignature k c.ctx w c.addr c.power c.signed
    handleSignatures k w calls

/-- The missed flags of the calls for `addr`, oldest first. -/
def missedFlags (addr : ConsAddress) (calls : List SignatureCall) : List Bool :=
  (calls.filter fun c => c.addr = addr).map fun c => !c.signed

@[simp] theorem missedFlags_nil (addr : ConsAddress) : missedFlags addr [] = [] := rfl

@[simp] theorem missedFlags_cons (addr : ConsAddress) (c : SignatureCall)
    (calls : List SignatureCall) :
    missedFlags addr (c :: calls) =
      if c.addr = addr then (!c.signed) :: missedFlags addr calls else missedFlags addr calls := by
  unfold missedFlags
  by_cases here : c.addr = addr <;> simp [here]

section Run

variable {k : Staking.Keeper Store} (hk : k.HooksWithin Keeps)
include hk

theorem handleSignatures_counted :
    ∀ {w w' : World Store} (calls : List SignatureCall), Counted w.ext →
      handleSignatures k w calls = .ok w' → Counted w'.ext
  | _, _, [], counted, h => by
    rw [← Fallible.pure_eq_ok.mp h]
    exact counted
  | _, _, c :: calls, counted, h => by
    obtain ⟨w₁, hcall, hrest⟩ := Fallible.bind_eq_ok.mp h
    exact handleSignatures_counted calls (handleValidatorSignature_counted hk counted hcall) hrest

theorem handleSignatures_params :
    ∀ {w w' : World Store} (calls : List SignatureCall),
      handleSignatures k w calls = .ok w' → w'.ext.params = w.ext.params
  | _, _, [], h => by rw [← Fallible.pure_eq_ok.mp h]
  | _, _, c :: calls, h => by
    obtain ⟨w₁, hcall, hrest⟩ := Fallible.bind_eq_ok.mp h
    rw [handleSignatures_params calls hrest, handleValidatorSignature_params hk hcall]

/-- Over a run, the window of `addr` holds the flags of its calls since the last reset: a
prefix, newest first, of its flags in the run followed by those it held before. -/
theorem handleSignatures_window {addr : ConsAddress} :
    ∀ {w w' : World Store} (calls : List SignatureCall) {recent : List Bool},
      0 < w.ext.params.signedBlocksWindow → w.ext.params.signedBlocksWindow < 2 ^ 63 →
      recent.length + (missedFlags addr calls).length < 2 ^ 63 → Window w.ext addr recent →
      handleSignatures k w calls = .ok w' →
      ∃ recent', Window w'.ext addr recent' ∧
        List.IsPrefix recent' ((missedFlags addr calls).reverse ++ recent)
  | _, _, [], recent, _, _, _, win, h => by
    rw [← Fallible.pure_eq_ok.mp h]
    exact ⟨recent, win, by simp⟩
  | _, _, c :: calls, recent, hW, hW64, short, win, h => by
    obtain ⟨w₁, hcall, hrest⟩ := Fallible.bind_eq_ok.mp h
    have params₁ := handleValidatorSignature_params hk hcall
    have hW₁ : 0 < w₁.ext.params.signedBlocksWindow := by rw [params₁]; exact hW
    have hW64₁ : w₁.ext.params.signedBlocksWindow < 2 ^ 63 := by rw [params₁]; exact hW64
    rw [missedFlags_cons] at short ⊢
    -- the offset of `addr` stays below the calls for it, so it never wraps
    have short₀ : c.addr = addr → recent.length + 1 < 2 ^ 63 := fun here => by
      rw [if_pos here, List.length_cons] at short
      omega
    have short₁ : (if c.addr = addr then (!c.signed) :: recent else recent).length +
        (missedFlags addr calls).length < 2 ^ 63 := by
      split
      · next here =>
        rw [if_pos here, List.length_cons] at short
        rw [List.length_cons]
        omega
      · next other => rwa [if_neg other] at short
    rcases handleValidatorSignature_window hk hW hW64 short₀ win hcall with win₁ | ⟨here, win₁⟩
    · -- the call adds its flag to the window of `addr`, or is for another address
      obtain ⟨recent', win', earlier⟩ := handleSignatures_window calls hW₁ hW64₁ short₁ win₁ hrest
      refine ⟨recent', win', ?_⟩
      split
      · next here =>
        rw [if_pos here] at earlier
        simpa using earlier
      · next other =>
        rw [if_neg other] at earlier
        exact earlier
    · -- a downtime slash: the window starts again from this call
      have shortNil : ([] : List Bool).length + (missedFlags addr calls).length < 2 ^ 63 := by
        rw [if_pos here, List.length_cons] at short
        rw [List.length_nil]
        omega
      obtain ⟨recent', win', earlier⟩ := handleSignatures_window calls hW₁ hW64₁ shortNil win₁ hrest
      refine ⟨recent', win', earlier.trans ?_⟩
      rw [if_pos here, List.append_nil, List.reverse_cons, List.append_assoc]
      exact List.prefix_append _ _

end Run

/-- A call for an address whose validator is not found or already jailed does not slash: it
leaves the staking state. -/
theorem handleValidatorSignature_store_of_jailed {k : Staking.Keeper Store} {ctx : Header}
    {w w' : World Store} {addr : ConsAddress} {power : Int} {signed : Bool}
    (jailed : ∀ v, w.store.getValidatorByConsAddr addr = some v → v.jailed = true)
    (h : handleValidatorSignature k ctx w addr power signed = .ok w') : w'.store = w.store := by
  obtain ⟨_, _, _, _, _, _, _, _, slashed | quiet⟩ := handleValidatorSignature_eq_ok h
  · obtain ⟨_, _, ⟨v, found, unjailed⟩, _⟩ := slashed
    rw [jailed v found] at unjailed
    cases unjailed
  · rw [quiet.2]

/-- A validator that is not found or already jailed is not slashed for downtime, however many
blocks it misses: a run of calls for it leaves the staking state. -/
theorem handleSignatures_store_of_jailed {k : Staking.Keeper Store} {addr : ConsAddress} :
    ∀ {w w' : World Store} (calls : List SignatureCall), (∀ c ∈ calls, c.addr = addr) →
      (∀ v, w.store.getValidatorByConsAddr addr = some v → v.jailed = true) →
      handleSignatures k w calls = .ok w' → w'.store = w.store
  | _, _, [], _, _, h => by rw [← Fallible.pure_eq_ok.mp h]
  | _, _, c :: calls, same, jailed, h => by
    obtain ⟨w₁, hcall, hrest⟩ := Fallible.bind_eq_ok.mp h
    have kept : w₁.store = _ :=
      handleValidatorSignature_store_of_jailed (by rw [same c (.head _)]; exact jailed) hcall
    -- the validator stays jailed, since the call left the staking state
    rw [handleSignatures_store_of_jailed calls (fun c' mem => same c' (.tail _ mem))
      (by rw [kept]; exact jailed) hrest, kept]

/-- Liveness bookkeeping, for every keeper whose hooks keep the slashing store as the slashing
hooks do:

* every sequence of calls keeps each address's `MissedBlocksCounter` equal, as an `int64`, to
  its number of set bits, so equal to it below `2^63` set bits;
* from a fresh window of `addr` under a `SignedBlocksWindow` that is a positive `int64`, over
  fewer than `2^63` calls for it, its counter after the calls is the number of missed blocks
  among the last `min(IndexOffset, SignedBlocksWindow)` calls for it, and lies in
  `[0, SignedBlocksWindow]`;
* a call runs `MinSignedPerWindow` without a panic, and slashes, jails and resets the window
  exactly when, past `StartHeight + SignedBlocksWindow`, the counter exceeds
  `SignedBlocksWindow - MinSignedPerWindow` (both `int64` sums, which wrap) and the validator is
  found and not jailed; in every other case the staking state stays and the window advances. -/
theorem liveness_bookkeeping {k : Staking.Keeper Store} (hk : k.HooksWithin Keeps) :
    (∀ (w w' : World Store) (calls : List SignatureCall), Counted w.ext →
      handleSignatures k w calls = .ok w' →
      Counted w'.ext ∧
        ∀ a, w'.ext.missedCount a < 2 ^ 63 → w'.ext.counter a = w'.ext.missedCount a) ∧
    (∀ (w w' : World Store) (calls : List SignatureCall) (addr : ConsAddress)
        (info : ValidatorSigningInfo),
      0 < w.ext.params.signedBlocksWindow → w.ext.params.signedBlocksWindow < 2 ^ 63 →
      w.ext.getValidatorSigningInfo addr = some info →
      info.indexOffset = 0 → info.missedBlocksCounter = 0 →
      (∀ j, w.ext.getValidatorMissedBlockBitArray addr j = false) →
      (missedFlags addr calls).length < 2 ^ 63 →
      handleSignatures k w calls = .ok w' →
      ∃ info', w'.ext.getValidatorSigningInfo addr = some info' ∧
        0 ≤ info'.indexOffset ∧ info'.indexOffset ≤ (missedFlags addr calls).length ∧
        info'.missedBlocksCounter = (((missedFlags addr calls).reverse.take
          (min info'.indexOffset.toNat w.ext.params.signedBlocksWindow.toNat)).count true : Int) ∧
        0 ≤ info'.missedBlocksCounter ∧
        info'.missedBlocksCounter ≤ w.ext.params.signedBlocksWindow) ∧
    (∀ (ctx : Header) (w w' : World Store) (addr : ConsAddress) (power : Int) (signed : Bool),
      handleValidatorSignature k ctx w addr power signed = .ok w' →
      ∃ info s₁ info₁, (w.ext.getPubkey addr).isSome ∧
        w.ext.getValidatorSigningInfo addr = some info ∧ w.ext.params.signedBlocksWindow ≠ 0 ∧
        w.ext.updateMissedBlock addr (info.indexOffset.tmod w.ext.params.signedBlocksWindow)
          (!signed) { info with indexOffset := int64 (info.indexOffset + 1) } = (s₁, info₁) ∧
        s₁.params.minSignedPerWindowChecked = .ok s₁.params.minSignedPerWindowBlocks ∧
        ((int64 (info₁.startHeight + w.ext.params.signedBlocksWindow) < ctx.height ∧
            int64 (w.ext.params.signedBlocksWindow - s₁.params.minSignedPerWindowBlocks) <
              info₁.missedBlocksCounter ∧
            (∃ v, w.store.getValidatorByConsAddr addr = some v ∧ v.jailed = false) ∧
            ∃ w₁ w₂, k.slash ctx { w with ext := s₁ } addr
                (int64 (ctx.height - validatorUpdateDelay - 1)) power
                s₁.params.slashFractionDowntime = .ok w₁ ∧
              Staking.Keeper.jail w₁ addr = .ok w₂ ∧
              w' = { w₂ with
                ext := (w₂.ext.clearValidatorMissedBlockBitArray addr).setValidatorSigningInfo addr
                  { info₁ with
                    jailedUntil := ctx.time + w₂.ext.params.downtimeJailDuration,
                    missedBlocksCounter := 0, indexOffset := 0 } }) ∨
          (¬ (int64 (info₁.startHeight + w.ext.params.signedBlocksWindow) < ctx.height ∧
              int64 (w.ext.params.signedBlocksWindow - s₁.params.minSignedPerWindowBlocks) <
                info₁.missedBlocksCounter ∧
              ∃ v, w.store.getValidatorByConsAddr addr = some v ∧ v.jailed = false) ∧
            w' = { w with ext := s₁.setValidatorSigningInfo addr info₁ }))) := by
  refine ⟨fun w w' calls counted h => ?_, ?_,
    fun ctx w w' addr power signed h => handleValidatorSignature_eq_ok h⟩
  · have counted' := handleSignatures_counted hk calls counted h
    exact ⟨counted', fun a fits => counted'.counter_eq fits⟩
  intro w w' calls addr info hW hW64 found offset count bits few h
  obtain ⟨recent, win, earlier⟩ := handleSignatures_window hk calls hW hW64
    (by rw [List.length_nil, Nat.zero_add]; exact few) (Window.fresh found offset count bits) h
  rw [List.append_nil] at earlier
  obtain ⟨info', found', offset', count'⟩ := win.info
  -- the flags since the reset are the newest of the run's
  have taken := List.prefix_iff_eq_take.mp earlier
  have length : recent.length ≤ (missedFlags addr calls).length := by
    simpa using earlier.length_le
  have params := handleSignatures_params hk calls h
  have bound := Ring.count_take_le (W := w.ext.params.signedBlocksWindow) recent
  refine ⟨info', found', by omega, by omega, ?_, by omega, ?_⟩
  · rw [count', params, offset', Int.toNat_natCast]
    nth_rewrite 1 [taken]
    rw [List.take_take, Nat.min_comm]
  · rw [count', params]
    omega

/-! ## A jailed validator past its allowed misses -/

namespace JailedValidator

/-- A window of ten blocks, at least five of which must be signed. -/
def params : Params := { defaultParams with signedBlocksWindow := 10 }

/-- The validator operated by `[10]` with consensus address `[11]`, bonded and jailed. -/
def validator : Validator :=
  { Validator.newValidator [10] [11] ⟨"validator", "", "", ""⟩ with
    jailed := true, status := .bonded }

/-- The validator, and a fresh window for `[11]` from height zero. -/
def world : World Store :=
  ⟨((Staking.Store.empty Staking.defaultParams).setValidator validator).setValidatorByConsAddr
      validator,
    ⟨.empty, []⟩,
    ((Store.empty params).addPubkey [11]).setValidatorSigningInfo [11] ⟨[11], 0, 0, 0, false, 0⟩⟩

/-- `[11]` misses the six blocks from height 15 to 20. -/
def misses : List SignatureCall :=
  (List.range 6).map fun i => ⟨⟨15 + (i : Int), 0⟩, [11], 1, false⟩

/-- The slashing keeper, over a supply keeper with no module accounts. -/
def keeper : Staking.Keeper Store := stakingKeeper ⟨fun _ => [], []⟩

theorem world_counted : Counted world.ext := by
  intro address
  simp only [world, Store.counter_setValidatorSigningInfo, Store.missedCount_setValidatorSigningInfo]
  split <;> rfl

end JailedValidator

open JailedValidator in
theorem liveness_bookkeeping_jailed_run :
    keeper.HooksWithin Keeps ∧
      ∃ w', handleSignatures keeper world misses = .ok w' ∧ Counted w'.ext := by
  have run : (match handleSignatures keeper world misses with
      | .ok _ => true
      | .error _ => false) = true := by
    decide +kernel
  split at run
  · next w' hrun =>
    exact ⟨hooks_keeps _, w', hrun,
      ((liveness_bookkeeping (hooks_keeps _)).1 world w' misses world_counted hrun).1⟩
  · exact absurd run Bool.false_ne_true

open JailedValidator in
/-- A bonded validator that misses six blocks of a ten-block window in which five must be
signed, past its first window, is not slashed when it is already jailed: the staking state is
unchanged although, at the last call, its counter exceeds the misses allowed. -/
theorem jailed_validator_not_slashed :
    (∃ v, world.store.getValidatorByConsAddr [11] = some v ∧ v.jailed = true ∧
      v.status = .bonded) ∧
    ∃ w', handleSignatures keeper world misses = .ok w' ∧ w'.store = world.store ∧
      ∃ info, w'.ext.getValidatorSigningInfo [11] = some info ∧
        info.startHeight + w'.ext.params.signedBlocksWindow < 20 ∧
        w'.ext.params.signedBlocksWindow - w'.ext.params.minSignedPerWindowBlocks <
          info.missedBlocksCounter := by
  have found : world.store.getValidatorByConsAddr [11] = some validator := by decide +kernel
  have jailed : ∀ v, world.store.getValidatorByConsAddr [11] = some v → v.jailed = true := by
    intro v hv
    rw [found, Option.some.injEq] at hv
    rw [← hv]
    rfl
  -- the model runs the six calls in the kernel
  have run : (match handleSignatures keeper world misses with
      | .ok w' =>
        match w'.ext.getValidatorSigningInfo [11] with
        | some info => decide (info.startHeight + w'.ext.params.signedBlocksWindow < 20 ∧
            w'.ext.params.signedBlocksWindow - w'.ext.params.minSignedPerWindowBlocks <
              info.missedBlocksCounter)
        | none => false
      | .error _ => false) = true := by
    decide +kernel
  refine ⟨⟨validator, found, rfl, rfl⟩, ?_⟩
  split at run
  · next w' hrun =>
    split at run
    · next info hinfo =>
      have kept := handleSignatures_store_of_jailed misses (by simp [misses]) jailed hrun
      exact ⟨w', hrun, kept, info, hinfo, of_decide_eq_true run⟩
    · exact absurd run Bool.false_ne_true
  · exact absurd run Bool.false_ne_true

/-! ## A window at the top of `int64` -/

namespace WrappedWindow

/-- The widest window, all of whose blocks must be signed. -/
def params : Params :=
  { defaultParams with signedBlocksWindow := 2 ^ 63 - 1, minSignedPerWindow := Dec.oneDec }

/-- The validator operated by `[10]` with consensus address `[11]`, bonded and not jailed. -/
def validator : Validator :=
  { Validator.newValidator [10] [11] ⟨"validator", "", "", ""⟩ with status := .bonded }

/-- The validator, and a fresh window for `[11]` from height one. -/
def world : World Store :=
  ⟨((Staking.Store.empty Staking.defaultParams).setValidator validator).setValidatorByConsAddr
      validator,
    ⟨.empty, []⟩,
    ((Store.empty params).addPubkey [11]).setValidatorSigningInfo [11] ⟨[11], 1, 0, 0, false, 0⟩⟩

end WrappedWindow

open WrappedWindow in
-- `StartHeight + SignedBlocksWindow` wraps to `-2^63`, so the first block missed, at height 2,
-- is already past the first window: the validator is jailed and its window reset
example : (handleValidatorSignature JailedValidator.keeper ⟨2, 0⟩ world [11] 1 false).toOption.any
    (fun w' => decide ((w'.store.getValidatorByConsAddr [11]).any (·.jailed) ∧
      (w'.ext.getValidatorSigningInfo [11]).any (·.missedBlocksCounter = 0))) = true := by
  decide +kernel

end Slashing

end Pocc
