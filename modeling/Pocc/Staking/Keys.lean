import Pocc.Staking.Types
import Pocc.Lib.ByteOrder
import Mathlib

/-!
# The byte keys of the staking store

x/staking/types/keys.go: the keys under which the keeper stores its records in the one ordered
byte-keyed store of the module. The rest of the model keeps each prefix of that store as a map
of its own (`Store`); this module gives the bytes and shows that they order and separate the
records as those maps assume.

The power index key (`GetValidatorsByPowerIndexKey`) is the prefix `0x23`, the potential
consensus power as a big-endian `uint64`, and the operator address with every bit flipped,
copied into 20 bytes. The index is iterated from the end, so a greater power comes first and,
between equal powers, the lower address. `TokensToConsensusPower` panics on a power outside an
`int64` (`tokensToConsensusPowerChecked`), which the keeper functions run before they delete or
write a key; the order below is stated for powers in `[0, 2^63)`.

Results:
* `getValidatorPowerRank_lt_iff_powerIndexKey`: the bytes order as the model's `powerIndexKey`;
* `power_rank_key_order`: the order of the keys by power and then by address, their
  distinctness, and `ParseValidatorPowerRankKey` reading the address back.
-/

namespace Pocc

namespace Staking

open Bytes

/-- `sdk.AddrLen`: the length of a valid address. -/
def addrLen : Nat := 20

/-- `ValidatorsKey`. -/
def validatorsKey : Bytes := [0x21]

/-- `GetValidatorKey`. -/
def getValidatorKey (operatorAddr : ValAddress) : Bytes := validatorsKey ++ operatorAddr

theorem getValidatorKey_injective : Function.Injective getValidatorKey :=
  fun _ _ same => List.append_cancel_left same

/-- `ValidatorsByPowerIndexKey`. -/
def validatorsByPowerIndexKey : Bytes := [0x23]

/-- `getValidatorPowerRank`. Go copies the flipped address into the last 20 bytes of a zeroed
key, so a longer address is cut and a shorter one padded. -/
def getValidatorPowerRank (validator : Validator) : Bytes :=
  let consensusPower := tokensToConsensusPower validator.tokens
  -- `binary.BigEndian.PutUint64(consensusPowerBytes, uint64(consensusPower))`
  let powerBytes := bigEndian 8 (consensusPower % 2 ^ 64).toNat
  validatorsByPowerIndexKey ++ (powerBytes ++ copyPadded addrLen (complement validator.operatorAddress))

/-- `GetValidatorsByPowerIndexKey`. -/
def getValidatorsByPowerIndexKey (validator : Validator) : Bytes := getValidatorPowerRank validator

/-- `ParseValidatorPowerRankKey`: the last 20 bytes with every bit flipped back. -/
def parseValidatorPowerRankKey (key : Bytes) : Except SdkError Bytes :=
  let powerBytesLen := 8
  if key.length ≠ 1 + powerBytesLen + addrLen then
    throw (.panic "Invalid validator power rank key length")
  else pure (complement (key.drop (powerBytesLen + 1)))

/-! ## The power index key -/

/-- The `uint64` of the power, as the key holds it. -/
def powerRankWord (validator : Validator) : Nat :=
  (tokensToConsensusPower validator.tokens % 2 ^ 64).toNat

theorem powerRankWord_lt (validator : Validator) : powerRankWord validator < 256 ^ 8 := by
  unfold powerRankWord
  have bound := Int.emod_lt_of_pos (tokensToConsensusPower validator.tokens)
    (by decide : (0 : Int) < 2 ^ 64)
  have nonneg := Int.emod_nonneg (tokensToConsensusPower validator.tokens)
    (by decide : (2 : Int) ^ 64 ≠ 0)
  omega

/-- The key of a validator with a valid address: the prefix, the power and the flipped
address, with nothing cut or padded. -/
theorem getValidatorPowerRank_eq {validator : Validator}
    (valid : validator.operatorAddress.length = addrLen) :
    getValidatorPowerRank validator = validatorsByPowerIndexKey ++
      (bigEndian 8 (powerRankWord validator) ++ complement validator.operatorAddress) := by
  rw [getValidatorPowerRank, copyPadded_of_length (by rw [length_complement, valid])]
  rfl

/-- Keys of valid addresses order by power, and then by the flipped addresses. -/
theorem getValidatorPowerRank_lt_iff {v₁ v₂ : Validator}
    (valid₁ : v₁.operatorAddress.length = addrLen) (valid₂ : v₂.operatorAddress.length = addrLen) :
    getValidatorPowerRank v₁ < getValidatorPowerRank v₂ ↔
      powerRankWord v₁ < powerRankWord v₂ ∨ powerRankWord v₁ = powerRankWord v₂ ∧
        complement v₁.operatorAddress < complement v₂.operatorAddress := by
  rw [getValidatorPowerRank_eq valid₁, getValidatorPowerRank_eq valid₂,
    append_lt_append_iff rfl, append_lt_append_iff (by simp),
    bigEndian_lt_bigEndian_iff (powerRankWord_lt v₁) (powerRankWord_lt v₂),
    bigEndian_eq_bigEndian_iff (powerRankWord_lt v₁) (powerRankWord_lt v₂)]
  simp

/-- The bytes of the power index order as the model's `powerIndexKey`, for valid addresses. -/
theorem getValidatorPowerRank_lt_iff_powerIndexKey {v₁ v₂ : Validator}
    (valid₁ : v₁.operatorAddress.length = addrLen) (valid₂ : v₂.operatorAddress.length = addrLen) :
    getValidatorPowerRank v₁ < getValidatorPowerRank v₂ ↔ powerIndexKey v₁ < powerIndexKey v₂ := by
  rw [getValidatorPowerRank_lt_iff valid₁ valid₂, powerIndexKey, powerIndexKey, Prod.Lex.toLex_lt_toLex]
  rfl

/-- For non-negative powers that fit in an `int64`, the `uint64` of the key is the power. -/
theorem powerRankWord_lt_iff {v₁ v₂ : Validator}
    (nonneg₁ : 0 ≤ tokensToConsensusPower v₁.tokens) (nonneg₂ : 0 ≤ tokensToConsensusPower v₂.tokens)
    (fits₁ : tokensToConsensusPower v₁.tokens < 2 ^ 63)
    (fits₂ : tokensToConsensusPower v₂.tokens < 2 ^ 63) :
    (powerRankWord v₁ < powerRankWord v₂ ↔
      tokensToConsensusPower v₁.tokens < tokensToConsensusPower v₂.tokens) ∧
    (powerRankWord v₁ = powerRankWord v₂ ↔
      tokensToConsensusPower v₁.tokens = tokensToConsensusPower v₂.tokens) := by
  unfold powerRankWord
  rw [Int.emod_eq_of_lt nonneg₁ (by omega), Int.emod_eq_of_lt nonneg₂ (by omega)]
  omega

theorem tokensToConsensusPower_nonneg {tokens : Int} (nonneg : 0 ≤ tokens) :
    0 ≤ tokensToConsensusPower tokens :=
  Int.tdiv_nonneg nonneg (by decide)

/-- The power index keys of validators with non-negative tokens, a power that fits in an
`int64` and 20-byte addresses: a key is below another iff its power is lower, or the powers
are equal and its address is above the other's; distinct operators have distinct keys; and
`ParseValidatorPowerRankKey` reads the operator back. -/
theorem power_rank_key_order (v₁ v₂ : Validator) (nonneg₁ : 0 ≤ v₁.tokens)
    (nonneg₂ : 0 ≤ v₂.tokens) (fits₁ : tokensToConsensusPower v₁.tokens < 2 ^ 63)
    (fits₂ : tokensToConsensusPower v₂.tokens < 2 ^ 63)
    (valid₁ : v₁.operatorAddress.length = addrLen) (valid₂ : v₂.operatorAddress.length = addrLen) :
    (getValidatorsByPowerIndexKey v₁ < getValidatorsByPowerIndexKey v₂ ↔
      tokensToConsensusPower v₁.tokens < tokensToConsensusPower v₂.tokens ∨
        tokensToConsensusPower v₁.tokens = tokensToConsensusPower v₂.tokens ∧
          v₂.operatorAddress < v₁.operatorAddress) ∧
      (v₁.operatorAddress ≠ v₂.operatorAddress →
        getValidatorsByPowerIndexKey v₁ ≠ getValidatorsByPowerIndexKey v₂) ∧
      parseValidatorPowerRankKey (getValidatorsByPowerIndexKey v₁) = .ok v₁.operatorAddress := by
  obtain ⟨less, same⟩ := powerRankWord_lt_iff (tokensToConsensusPower_nonneg nonneg₁)
    (tokensToConsensusPower_nonneg nonneg₂) fits₁ fits₂
  refine ⟨?_, ?_, ?_⟩
  · -- flipping the bits of equal-length addresses reverses their order
    rw [getValidatorsByPowerIndexKey, getValidatorsByPowerIndexKey,
      getValidatorPowerRank_lt_iff valid₁ valid₂, less, same,
      complement_lt_complement_iff (valid₁.trans valid₂.symm)]
  · -- the keys end with the flipped addresses
    intro distinct equal
    rw [getValidatorsByPowerIndexKey, getValidatorsByPowerIndexKey,
      getValidatorPowerRank_eq valid₁, getValidatorPowerRank_eq valid₂] at equal
    have tails := List.append_cancel_left equal
    have lengths : (bigEndian 8 (powerRankWord v₁)).length =
        (bigEndian 8 (powerRankWord v₂)).length := by simp
    exact distinct (complement_injective (List.append_inj tails lengths).2)
  · have length : (getValidatorPowerRank v₁).length = 1 + 8 + addrLen := by
      rw [getValidatorPowerRank_eq valid₁]
      simp only [validatorsByPowerIndexKey, List.length_append, List.length_singleton,
        length_bigEndian, length_complement, valid₁]
      omega
    have tail : (getValidatorPowerRank v₁).drop (8 + 1) = complement v₁.operatorAddress := by
      rw [getValidatorPowerRank_eq valid₁, ← List.append_assoc, List.drop_left']
      simp [validatorsByPowerIndexKey]
    simp [parseValidatorPowerRankKey, getValidatorsByPowerIndexKey, length, tail, addrLen]

/-- Of two new validators, of equal power, the one with the lower address has the greater
key, so that the reverse iteration of the index meets it first. -/
theorem power_rank_lower_address_first :
    getValidatorsByPowerIndexKey (Validator.newValidator (List.replicate 20 2) [] ⟨"", "", "", ""⟩) <
      getValidatorsByPowerIndexKey
        (Validator.newValidator (List.replicate 20 1) [] ⟨"", "", "", ""⟩) :=
  (power_rank_key_order _ _ (by decide) (by decide) (by decide) (by decide) rfl rfl).1.mpr
    (.inr ⟨rfl, by decide⟩)

end Staking

end Pocc
