import Mathlib

/-!
# Byte strings

Keys of an ordered key-value store are byte strings compared as Go's `bytes.Compare`
does: byte by byte as unsigned numbers, a proper prefix first. `List UInt8` with the
lexicographic order is that order; this module gives `UInt8` the linear order it needs,
built on the core `<` and `≤` so that no second comparison on bytes arises.
-/

instance uint8LinearOrder : LinearOrder UInt8 where
  le := (· ≤ ·)
  lt := (· < ·)
  le_refl a := by simp
  le_trans a b c := by
    simp only [UInt8.le_iff_toNat_le]
    omega
  le_antisymm a b := by
    simp only [UInt8.le_iff_toNat_le]
    intro hab hba
    exact UInt8.toNat_inj.mp (by omega)
  le_total a b := by
    simp only [UInt8.le_iff_toNat_le]
    omega
  lt_iff_le_not_ge a b := by
    simp only [UInt8.le_iff_toNat_le, UInt8.lt_iff_toNat_lt]
    omega
  toDecidableLE := inferInstance
  toDecidableLT := inferInstance
  toDecidableEq := inferInstance

/-- A byte string, as Go's `[]byte`. -/
abbrev Bytes := List UInt8

/-- Membership in a list of byte strings is decided through this one instance, so that every
definition that tests it refers to the same proof. -/
instance bytesLawfulBEq : LawfulBEq Bytes := inferInstance
