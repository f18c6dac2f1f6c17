import Mathlib
import Pocc.Types.Error
import Pocc.Lib.Fallible

/-!
# `sdk.Dec`: fixed-point decimals

A `Dec` is a big integer read with `Precision = 18` decimal places (types/decimal.go).
Addition and subtraction act on the integers exactly; a product or a quotient carries 36
places and is brought back to 18 by `chopPrecisionAndRound` (banker's rounding),
`chopPrecisionAndTruncate` or `chopPrecisionAndRoundUp`. Go's `big.Int.Quo` truncates toward
zero, which is `Int.tdiv`.

The operations compute exact results. Go's panics on a result wider than 315 bits for a `Dec`
(255 for an `sdk.Int`) are `checkDec` and `checkInt`, which the functions of the model whose
panics the results rest on make where their source does. Not modelled: the panic of a division
by zero (here `Int.tdiv _ 0 = 0`); callers that rely on a non-zero divisor state it.

Go's `int64` arithmetic wraps modulo `2^64` (`int64`), and `RoundInt64` panics outside an
`int64` (`Dec.roundInt64`).
-/

namespace Pocc

/-- The number of decimal places of a `Dec`. -/
def Precision : Nat := 18

/-- `precisionReuse`: `10 ^ Precision`, the integer that stands for `1`. -/
def precisionReuse : Int := 10 ^ Precision

/-- `sdk.Dec`: the integer `int` stands for `int / 10 ^ 18`. -/
structure Dec where
  int : Int
  deriving DecidableEq, Repr

namespace Dec

instance : Zero Dec := ⟨⟨0⟩⟩
instance : Add Dec := ⟨fun a b => ⟨a.int + b.int⟩⟩
instance : Neg Dec := ⟨fun a => ⟨-a.int⟩⟩
instance : Sub Dec := ⟨fun a b => ⟨a.int - b.int⟩⟩
instance : SMul ℕ Dec := ⟨fun n a => ⟨n * a.int⟩⟩
instance : SMul ℤ Dec := ⟨fun n a => ⟨n * a.int⟩⟩

@[simp] theorem zero_int : (0 : Dec).int = 0 := rfl
@[simp] theorem add_int (a b : Dec) : (a + b).int = a.int + b.int := rfl
@[simp] theorem neg_int (a : Dec) : (-a).int = -a.int := rfl
@[simp] theorem sub_int (a b : Dec) : (a - b).int = a.int - b.int := rfl

theorem int_injective : Function.Injective Dec.int := fun a b h => by
  cases a
  cases b
  cases h
  rfl

instance : AddCommGroup Dec :=
  int_injective.addCommGroup _ rfl (fun _ _ => rfl) (fun _ => rfl) (fun _ _ => rfl)
    (fun a n => show (n : ℤ) * a.int = n • a.int by rw [Int.nsmul_eq_mul])
    (fun a n => show n * a.int = n • a.int by rfl)

instance : LinearOrder Dec := LinearOrder.lift' Dec.int int_injective

theorem le_iff (a b : Dec) : a ≤ b ↔ a.int ≤ b.int := Iff.rfl
theorem lt_iff (a b : Dec) : a < b ↔ a.int < b.int := Iff.rfl

theorem ext_int {a b : Dec} (h : a.int = b.int) : a = b := int_injective h

/-- `ZeroDec`. -/
def zeroDec : Dec := 0
/-- `OneDec`: the integer `10 ^ 18`. -/
def oneDec : Dec := ⟨precisionReuse⟩
/-- `SmallestDec`: `10 ^ -18`. -/
def smallestDec : Dec := ⟨1⟩

/-- `NewDecFromInt`, `Int.ToDec`: an integer read as a decimal. -/
def ofInt (i : Int) : Dec := ⟨i * precisionReuse⟩

def isZero (d : Dec) : Prop := d.int = 0
def isPositive (d : Dec) : Prop := 0 < d.int
def isNegative (d : Dec) : Prop := d.int < 0

instance (d : Dec) : Decidable d.isZero := inferInstanceAs (Decidable (d.int = 0))
instance (d : Dec) : Decidable d.isPositive := inferInstanceAs (Decidable (0 < d.int))
instance (d : Dec) : Decidable d.isNegative := inferInstanceAs (Decidable (d.int < 0))

end Dec

/-- `chopPrecisionAndRound`: drop 18 places with banker's rounding on the dropped digits;
a negative input is rounded as its absolute value. -/
def chopPrecisionAndRound (d : Int) : Int :=
  if d < 0 then -chopNonNeg (-d) else chopNonNeg d
where
  chopNonNeg (d : Int) : Int :=
    let quo := d.tdiv precisionReuse
    let rem := d.tmod precisionReuse
    if rem = 0 then quo
    else if rem < precisionReuse / 2 then quo
    else if precisionReuse / 2 < rem then quo + 1
    -- a remainder of exactly one half rounds to the even neighbour
    else if quo % 2 = 0 then quo else quo + 1

/-- `chopPrecisionAndTruncate`: drop 18 places, truncating toward zero. -/
def chopPrecisionAndTruncate (d : Int) : Int := d.tdiv precisionReuse

/-- `chopPrecisionAndRoundUp`: drop 18 places, rounding a non-negative input up and
truncating a negative one. -/
def chopPrecisionAndRoundUp (d : Int) : Int :=
  if d < 0 then -chopPrecisionAndTruncate (-d)
  else
    let quo := d.tdiv precisionReuse
    if d.tmod precisionReuse = 0 then quo else quo + 1

namespace Dec

/-- `Dec.Mul`. -/
def mul (d d2 : Dec) : Dec := ⟨chopPrecisionAndRound (d.int * d2.int)⟩
/-- `Dec.MulTruncate`. -/
def mulTruncate (d d2 : Dec) : Dec := ⟨chopPrecisionAndTruncate (d.int * d2.int)⟩
/-- `Dec.MulInt`. -/
def mulInt (d : Dec) (i : Int) : Dec := ⟨d.int * i⟩
/-- `Dec.Quo`. -/
def quo (d d2 : Dec) : Dec :=
  ⟨chopPrecisionAndRound ((d.int * precisionReuse * precisionReuse).tdiv d2.int)⟩
/-- `Dec.QuoTruncate`. -/
def quoTruncate (d d2 : Dec) : Dec :=
  ⟨chopPrecisionAndTruncate ((d.int * precisionReuse * precisionReuse).tdiv d2.int)⟩
/-- `Dec.QuoRoundUp`. -/
def quoRoundUp (d d2 : Dec) : Dec :=
  ⟨chopPrecisionAndRoundUp ((d.int * precisionReuse * precisionReuse).tdiv d2.int)⟩
/-- `Dec.QuoInt`. -/
def quoInt (d : Dec) (i : Int) : Dec := ⟨d.int.tdiv i⟩
/-- `Dec.String`: the integer part, a point and all 18 decimal places, after a minus sign for a
negative value. -/
def string (d : Dec) : String :=
  let abs := d.int.natAbs
  let frac := toString (abs % precisionReuse.toNat)
  (if d.int < 0 then "-" else "") ++ toString (abs / precisionReuse.toNat) ++ "." ++
    "".pushn '0' (Precision - frac.length) ++ frac

/-- `Dec.TruncateInt`. -/
def truncateInt (d : Dec) : Int := chopPrecisionAndTruncate d.int
/-- `Dec.RoundInt`. -/
def roundInt (d : Dec) : Int := chopPrecisionAndRound d.int

end Dec

/-! ## Go's bit-length checks -/

/-- `255 + DecimalPrecisionBits`: the widest `Dec` result Go's arithmetic returns. -/
def maxDecBitLen : Nat := 255 + 60

/-- `maxBitLen`: the widest `sdk.Int`. -/
def maxBitLen : Nat := 255

/-- The check Go's `Dec` arithmetic makes of its result: `BitLen() > 255+DecimalPrecisionBits`
panics with "Int overflow". -/
def checkDec (d : Dec) : Except SdkError Dec :=
  if 2 ^ maxDecBitLen ≤ d.int.natAbs then throw (.panic "Int overflow") else pure d

/-- The check of an `sdk.Int` result, `BitLen() > maxBitLen`, with the panic of the function
that makes it. -/
def checkInt (msg : String) (i : Int) : Except SdkError Int :=
  if 2 ^ maxBitLen ≤ i.natAbs then throw (.panic msg) else pure i

/-- `Dec.TruncateInt` as Go runs it: `NewIntFromBigInt` panics on an integer wider than an
`sdk.Int`. -/
def Dec.truncateIntChecked (d : Dec) : Except SdkError Int :=
  checkInt "NewIntFromBigInt() out of bound" d.truncateInt

/-! ## Go's `int64` arithmetic -/

/-- The integers an `int64` holds. -/
def IsInt64 (i : Int) : Prop := -2 ^ 63 ≤ i ∧ i < 2 ^ 63

instance instDecidablePredIsInt64 : DecidablePred IsInt64 := fun i =>
  inferInstanceAs (Decidable (-2 ^ 63 ≤ i ∧ i < 2 ^ 63))

/-- Go's conversion to `int64`, and the result of its `int64` arithmetic (`+`, `-`, `++`, `--`),
which wraps around modulo `2^64`. -/
def int64 (i : Int) : Int := i.bmod (2 ^ 64)

/-- `Dec.RoundInt64`: the rounded integer, which panics outside an `int64`. -/
def Dec.roundInt64 (d : Dec) : Except SdkError Int :=
  if IsInt64 d.roundInt then pure d.roundInt else throw (.panic "Int64() out of bound")

theorem checkDec_of_lt {d : Dec} (fits : d.int.natAbs < 2 ^ maxDecBitLen) : checkDec d = .ok d := by
  unfold checkDec
  rw [if_neg (not_le.mpr fits)]
  rfl

theorem checkDec_eq_ok {d d' : Dec} (h : checkDec d = .ok d') :
    d.int.natAbs < 2 ^ maxDecBitLen ∧ d' = d := by
  unfold checkDec at h
  split at h
  · exact absurd h Fallible.throw_ne_ok
  · next fits => exact ⟨not_le.mp fits, (Fallible.pure_eq_ok.mp h).symm⟩

theorem checkDec_of_nonneg {d : Dec} (nonneg : 0 ≤ d.int) (fits : d.int < 2 ^ maxDecBitLen) :
    checkDec d = .ok d :=
  checkDec_of_lt (by unfold maxDecBitLen at *; omega)

theorem checkInt_of_lt {msg : String} {i : Int} (fits : i.natAbs < 2 ^ maxBitLen) :
    checkInt msg i = .ok i := by
  unfold checkInt
  rw [if_neg (not_le.mpr fits)]
  rfl

theorem checkInt_of_nonneg {msg : String} {i : Int} (nonneg : 0 ≤ i) (fits : i < 2 ^ maxBitLen) :
    checkInt msg i = .ok i :=
  checkInt_of_lt (by unfold maxBitLen at *; omega)

theorem checkInt_eq_ok {msg : String} {i i' : Int} (h : checkInt msg i = .ok i') :
    i.natAbs < 2 ^ maxBitLen ∧ i' = i := by
  unfold checkInt at h
  split at h
  · exact absurd h Fallible.throw_ne_ok
  · next fits => exact ⟨not_le.mp fits, (Fallible.pure_eq_ok.mp h).symm⟩

theorem int64_of_isInt64 {i : Int} (h : IsInt64 i) : int64 i = i :=
  Int.bmod_eq_of_le (by have := h.1; omega) (by have := h.2; omega)

/-- Wrapping before an addition wraps the same as after it. -/
@[simp] theorem int64_int64_add (a b : Int) : int64 (int64 a + b) = int64 (a + b) :=
  Int.bmod_add_bmod

theorem Dec.roundInt64_eq_ok {d : Dec} {i : Int} (h : d.roundInt64 = .ok i) :
    IsInt64 d.roundInt ∧ i = d.roundInt := by
  unfold Dec.roundInt64 at h
  split at h
  · next fits => exact ⟨fits, (Fallible.pure_eq_ok.mp h).symm⟩
  · exact absurd h Fallible.throw_ne_ok

end Pocc
