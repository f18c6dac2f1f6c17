import Pocc.Types.Dec
import Pocc.Types.Error
import Mathlib

/-!
# Dividing decimals

`Quo`, `QuoTruncate` and `QuoRoundUp` (types/decimal.go) multiply the dividend by `10 ^ 36`,
divide the integers truncating, and only then bring the result back to 18 places, by banker's
rounding, truncation or rounding up. `quotient` is that quotient with 36 places; for a
non-negative dividend and a positive divisor it is the exact quotient rounded down. Read as
rationals, `a / b` is `a.int / b.int`, and every bound here is stated on the integers,
cross-multiplied:

* `quoTruncate_le`, `lt_quoTruncate_add_one`: `QuoTruncate` is `a / b` rounded down;
* `lt_quoRoundUp_add`: `QuoRoundUp` is above `a / b` less `10 ^ -36`, and not more: the digits
  that the first truncation drops are lost, so it can be below `a / b`;
* `quoTruncate_le_quo`, `quo_le_quoRoundUp`, `quoRoundUp_le_quoTruncate_add_one`,
  `quo_near_quotient`: `Quo` lies between the two, within half a unit of `quotient`, which is
  what it rounds;
* `le_quoRoundUp_ofInt`: for whole numbers `x ≥ 0` and `0 < y ≤ 10 ^ 18`, as `Slash` divides
  the tokens it burns by the tokens of the validator, `QuoRoundUp` is at least `x / y`.
-/

namespace Pocc

/-- `Dec.Quo` as Go runs it: dividing a `big.Int` by zero panics, and so does a quotient wider
than a `Dec`. -/
def Dec.quoChecked (d d2 : Dec) : Except SdkError Dec :=
  if d2.int = 0 then throw (.panic "division by zero") else checkDec (d.quo d2)

/-- `Dec.QuoTruncate` as Go runs it. -/
def Dec.quoTruncateChecked (d d2 : Dec) : Except SdkError Dec :=
  if d2.int = 0 then throw (.panic "division by zero") else checkDec (d.quoTruncate d2)

theorem precisionReuse_eq : precisionReuse = 1000000000000000000 := by decide

theorem precisionReuse_pos : 0 < precisionReuse := by decide

/-- Fewer than `2 ^ 255` whole units, written with 18 places, fit a `Dec`. -/
theorem pow_maxBitLen_mul_precisionReuse_le :
    (2 : Int) ^ maxBitLen * precisionReuse ≤ 2 ^ maxDecBitLen := by
  have small : precisionReuse ≤ 2 ^ 60 := by
    rw [precisionReuse_eq]
    norm_num
  calc (2 : Int) ^ maxBitLen * precisionReuse ≤ 2 ^ maxBitLen * 2 ^ 60 :=
        Int.mul_le_mul_of_nonneg_left small (by positivity)
    _ = 2 ^ maxDecBitLen := by
        rw [← pow_add]
        rfl

/-! ## Bringing a non-negative integer back to 18 places -/

section Chop

variable {x : Int}

theorem chopPrecisionAndTruncate_of_nonneg (hx : 0 ≤ x) :
    chopPrecisionAndTruncate x = x / precisionReuse :=
  Int.tdiv_eq_ediv_of_nonneg hx

/-- Rounding up covers `x`, and is at most one unit above truncating. -/
theorem chopPrecisionAndRoundUp_spec (hx : 0 ≤ x) :
    x ≤ chopPrecisionAndRoundUp x * precisionReuse ∧
      chopPrecisionAndRoundUp x ≤ chopPrecisionAndTruncate x + 1 := by
  unfold chopPrecisionAndRoundUp chopPrecisionAndTruncate
  rw [if_neg (not_lt.mpr hx), precisionReuse_eq, Int.tdiv_eq_ediv_of_nonneg hx,
    Int.tmod_eq_emod_of_nonneg hx]
  dsimp only
  split_ifs <;> omega

/-- Banker's rounding lies between truncating and rounding up, within half a unit of `x`. -/
theorem chopPrecisionAndRound_spec (hx : 0 ≤ x) :
    chopPrecisionAndTruncate x ≤ chopPrecisionAndRound x ∧
      chopPrecisionAndRound x ≤ chopPrecisionAndRoundUp x ∧
      |2 * (chopPrecisionAndRound x * precisionReuse - x)| ≤ precisionReuse := by
  unfold chopPrecisionAndRound chopPrecisionAndRound.chopNonNeg chopPrecisionAndRoundUp
    chopPrecisionAndTruncate
  rw [if_neg (not_lt.mpr hx), if_neg (not_lt.mpr hx), abs_le, precisionReuse_eq,
    Int.tdiv_eq_ediv_of_nonneg hx, Int.tmod_eq_emod_of_nonneg hx]
  dsimp only
  split_ifs <;> omega

end Chop

namespace Dec

/-- The quotient with 36 places that `Quo`, `QuoTruncate` and `QuoRoundUp` bring back to 18. -/
def quotient (d d2 : Dec) : Int := (d.int * precisionReuse * precisionReuse).tdiv d2.int

theorem quo_int (d d2 : Dec) : (d.quo d2).int = chopPrecisionAndRound (d.quotient d2) := rfl

theorem quoTruncate_int (d d2 : Dec) :
    (d.quoTruncate d2).int = chopPrecisionAndTruncate (d.quotient d2) := rfl

theorem quoRoundUp_int (d d2 : Dec) :
    (d.quoRoundUp d2).int = chopPrecisionAndRoundUp (d.quotient d2) := rfl

section Bounds

variable {a b : Dec}

/-- The quotient with 36 places is `a / b` rounded down. -/
theorem quotient_spec (ha : 0 ≤ a.int) (hb : 0 < b.int) :
    0 ≤ a.quotient b ∧ a.quotient b * b.int ≤ a.int * precisionReuse * precisionReuse ∧
      a.int * precisionReuse * precisionReuse < (a.quotient b + 1) * b.int := by
  have num : 0 ≤ a.int * precisionReuse * precisionReuse :=
    Int.mul_nonneg (Int.mul_nonneg ha precisionReuse_pos.le) precisionReuse_pos.le
  unfold quotient
  rw [Int.tdiv_eq_ediv_of_nonneg num]
  exact ⟨Int.ediv_nonneg num hb.le, Int.ediv_mul_le _ hb.ne', Int.lt_ediv_add_one_mul_self _ hb⟩

/-- `QuoTruncate` is at most `a / b`. -/
theorem quoTruncate_le (ha : 0 ≤ a.int) (hb : 0 < b.int) :
    (a.quoTruncate b).int * b.int ≤ a.int * precisionReuse := by
  obtain ⟨nonneg, below, -⟩ := quotient_spec ha hb
  have chopped : (a.quoTruncate b).int * precisionReuse ≤ a.quotient b := by
    rw [quoTruncate_int, chopPrecisionAndTruncate_of_nonneg nonneg]
    exact Int.ediv_mul_le _ precisionReuse_pos.ne'
  refine le_of_mul_le_mul_right ?_ precisionReuse_pos
  calc (a.quoTruncate b).int * b.int * precisionReuse
      = (a.quoTruncate b).int * precisionReuse * b.int := by ring
    _ ≤ a.quotient b * b.int := Int.mul_le_mul_of_nonneg_right chopped hb.le
    _ ≤ a.int * precisionReuse * precisionReuse := below

/-- `QuoTruncate` is above `a / b` less one unit: it is `a / b` rounded down. -/
theorem lt_quoTruncate_add_one (ha : 0 ≤ a.int) (hb : 0 < b.int) :
    a.int * precisionReuse < ((a.quoTruncate b).int + 1) * b.int := by
  obtain ⟨nonneg, -, above⟩ := quotient_spec ha hb
  have chopped : a.quotient b + 1 ≤ ((a.quoTruncate b).int + 1) * precisionReuse := by
    rw [quoTruncate_int, chopPrecisionAndTruncate_of_nonneg nonneg]
    exact Int.lt_ediv_add_one_mul_self _ precisionReuse_pos
  refine lt_of_mul_lt_mul_right ?_ precisionReuse_pos.le
  calc a.int * precisionReuse * precisionReuse < (a.quotient b + 1) * b.int := above
    _ ≤ ((a.quoTruncate b).int + 1) * precisionReuse * b.int :=
        Int.mul_le_mul_of_nonneg_right chopped hb.le
    _ = ((a.quoTruncate b).int + 1) * b.int * precisionReuse := by ring

/-- `QuoRoundUp` is above `a / b` less `10 ^ -36`. -/
theorem lt_quoRoundUp_add (ha : 0 ≤ a.int) (hb : 0 < b.int) :
    a.int * precisionReuse * precisionReuse <
      ((a.quoRoundUp b).int * precisionReuse + 1) * b.int := by
  obtain ⟨nonneg, -, above⟩ := quotient_spec ha hb
  have covered : a.quotient b ≤ (a.quoRoundUp b).int * precisionReuse := by
    rw [quoRoundUp_int]
    exact (chopPrecisionAndRoundUp_spec nonneg).1
  calc a.int * precisionReuse * precisionReuse < (a.quotient b + 1) * b.int := above
    _ ≤ ((a.quoRoundUp b).int * precisionReuse + 1) * b.int :=
        Int.mul_le_mul_of_nonneg_right (by omega) hb.le

theorem quoTruncate_le_quo (ha : 0 ≤ a.int) (hb : 0 < b.int) :
    (a.quoTruncate b).int ≤ (a.quo b).int :=
  (chopPrecisionAndRound_spec (quotient_spec ha hb).1).1

theorem quo_le_quoRoundUp (ha : 0 ≤ a.int) (hb : 0 < b.int) :
    (a.quo b).int ≤ (a.quoRoundUp b).int :=
  (chopPrecisionAndRound_spec (quotient_spec ha hb).1).2.1

theorem quoRoundUp_le_quoTruncate_add_one (ha : 0 ≤ a.int) (hb : 0 < b.int) :
    (a.quoRoundUp b).int ≤ (a.quoTruncate b).int + 1 :=
  (chopPrecisionAndRoundUp_spec (quotient_spec ha hb).1).2

/-- `Quo` is within half a unit of the quotient with 36 places, which it rounds. -/
theorem quo_near_quotient (ha : 0 ≤ a.int) (hb : 0 < b.int) :
    |2 * ((a.quo b).int * precisionReuse - a.quotient b)| ≤ precisionReuse :=
  (chopPrecisionAndRound_spec (quotient_spec ha hb).1).2.2

theorem quo_int_nonneg (ha : 0 ≤ a.int) (hb : 0 < b.int) : 0 ≤ (a.quo b).int := by
  have nonneg := (quotient_spec ha hb).1
  have truncated : 0 ≤ (a.quoTruncate b).int := by
    rw [quoTruncate_int, chopPrecisionAndTruncate_of_nonneg nonneg]
    exact Int.ediv_nonneg nonneg precisionReuse_pos.le
  exact le_trans truncated (quoTruncate_le_quo ha hb)

/-- `Quo` does not round past a whole number of units `k` that is at least `a / b`: the
quotient with 36 places is at most `k` units, and rounding moves it by half a unit at most. -/
theorem quo_le_of_mul_le (ha : 0 ≤ a.int) (hb : 0 < b.int) {k : Int}
    (bound : a.int * precisionReuse ≤ k * b.int) : (a.quo b).int ≤ k := by
  have hP := precisionReuse_pos
  obtain ⟨-, below, -⟩ := quotient_spec ha hb
  have quotient_le : a.quotient b ≤ k * precisionReuse := by
    refine le_of_mul_le_mul_right ?_ hb
    calc a.quotient b * b.int ≤ a.int * precisionReuse * precisionReuse := below
      _ ≤ k * b.int * precisionReuse := Int.mul_le_mul_of_nonneg_right bound hP.le
      _ = k * precisionReuse * b.int := by ring
  have near := (abs_le.mp (quo_near_quotient ha hb)).2
  have below_next : (a.quo b).int * (2 * precisionReuse) < (k + 1) * (2 * precisionReuse) := by
    linarith
  have := lt_of_mul_lt_mul_right below_next (by omega)
  omega

/-- `Quo` is at least a whole number of units `k` that is at most `a / b`: so is the quotient
with 36 places, and banker's rounding does not go below truncation. -/
theorem le_quo_of_mul_le (ha : 0 ≤ a.int) (hb : 0 < b.int) {k : Int}
    (bound : k * b.int ≤ a.int * precisionReuse) : k ≤ (a.quo b).int := by
  have hP := precisionReuse_pos
  obtain ⟨nonneg, -, above⟩ := quotient_spec ha hb
  have quotient_ge : k * precisionReuse ≤ a.quotient b := by
    have below_next : k * precisionReuse * b.int < (a.quotient b + 1) * b.int :=
      calc k * precisionReuse * b.int = k * b.int * precisionReuse := by ring
        _ ≤ a.int * precisionReuse * precisionReuse := Int.mul_le_mul_of_nonneg_right bound hP.le
        _ < (a.quotient b + 1) * b.int := above
    have := lt_of_mul_lt_mul_right below_next hb.le
    omega
  have truncated : k ≤ (a.quoTruncate b).int := by
    rw [quoTruncate_int, chopPrecisionAndTruncate_of_nonneg nonneg]
    exact (Int.le_ediv_iff_mul_le hP).mpr quotient_ge
  exact truncated.trans (quoTruncate_le_quo ha hb)

/-- `Quo` adds half a unit at most to `a / b`, cross-multiplied: `2 * quo * b ≤ 2 * a + b` in
units of `10 ^ -18`. -/
theorem two_mul_quo_mul_le (ha : 0 ≤ a.int) (hb : 0 < b.int) :
    2 * (a.quo b).int * b.int ≤ 2 * a.int * precisionReuse + b.int := by
  have hP := precisionReuse_pos
  obtain ⟨-, below, -⟩ := quotient_spec ha hb
  have near := (abs_le.mp (quo_near_quotient ha hb)).2
  refine le_of_mul_le_mul_right ?_ hP
  calc 2 * (a.quo b).int * b.int * precisionReuse
      = 2 * ((a.quo b).int * precisionReuse) * b.int := by ring
    _ ≤ (2 * a.quotient b + precisionReuse) * b.int :=
        Int.mul_le_mul_of_nonneg_right (by linarith) hb.le
    _ = 2 * (a.quotient b * b.int) + precisionReuse * b.int := by ring
    _ ≤ 2 * (a.int * precisionReuse * precisionReuse) + precisionReuse * b.int := by linarith
    _ = (2 * a.int * precisionReuse + b.int) * precisionReuse := by ring

end Bounds

/-- `TruncateInt` of a non-negative decimal of at least `m` units is at least `m`. -/
theorem le_truncateInt {d : Dec} {m : Int} (hd : 0 ≤ d.int) (h : m * precisionReuse ≤ d.int) :
    m ≤ d.truncateInt := by
  rw [truncateInt, chopPrecisionAndTruncate_of_nonneg hd]
  exact (Int.le_ediv_iff_mul_le precisionReuse_pos).mpr h

/-- `TruncateInt` of a non-negative decimal below `2 ^ 255` whole units does not panic. -/
theorem truncateIntChecked_of_nonneg {d : Dec} (hd : 0 ≤ d.int)
    (fits : d.int < 2 ^ maxBitLen * precisionReuse) : d.truncateIntChecked = .ok d.truncateInt := by
  have truncated : d.truncateInt = d.int / precisionReuse := by
    rw [truncateInt, chopPrecisionAndTruncate_of_nonneg hd]
  refine checkInt_of_nonneg (by rw [truncated]; exact Int.ediv_nonneg hd precisionReuse_pos.le) ?_
  rw [truncated]
  exact Int.ediv_lt_of_lt_mul precisionReuse_pos fits

/-- `Quo` of a non-negative dividend by a positive divisor panics only when the quotient is wider
than a `Dec`. -/
theorem quoChecked_of_nonneg {a b : Dec} (ha : 0 ≤ a.int) (hb : 0 < b.int)
    (fits : (a.quo b).int < 2 ^ maxDecBitLen) : a.quoChecked b = .ok (a.quo b) := by
  unfold quoChecked
  rw [if_neg hb.ne']
  exact checkDec_of_nonneg (quo_int_nonneg ha hb) fits

/-- `Quo` of a fraction at most one does not panic: it is at most one. -/
theorem quoChecked_of_le {a b : Dec} (ha : 0 ≤ a.int) (hb : 0 < b.int) (le : a.int ≤ b.int) :
    a.quoChecked b = .ok (a.quo b) := by
  have scaled : a.int * precisionReuse ≤ precisionReuse * b.int := by
    rw [mul_comm]
    exact Int.mul_le_mul_of_nonneg_left le precisionReuse_pos.le
  have one : (a.quo b).int ≤ precisionReuse := quo_le_of_mul_le ha hb scaled
  refine quoChecked_of_nonneg ha hb (lt_of_le_of_lt one ?_)
  rw [precisionReuse_eq]
  unfold maxDecBitLen
  omega

/-- A `Quo` that does not panic is the quotient, by a non-zero divisor. -/
theorem quoChecked_eq_ok {a b c : Dec} (h : a.quoChecked b = .ok c) : b.int ≠ 0 ∧ c = a.quo b := by
  unfold quoChecked at h
  split at h
  · exact absurd h Fallible.throw_ne_ok
  · next nonzero => exact ⟨nonzero, (checkDec_eq_ok h).2⟩

/-- The quotient of two whole numbers read as decimals: the factor `10 ^ 18` of both cancels. -/
theorem quotient_ofInt (x y : Int) (hx : 0 ≤ x) :
    (ofInt x).quotient (ofInt y) = x * precisionReuse * precisionReuse / y := by
  have num : 0 ≤ x * precisionReuse * precisionReuse * precisionReuse :=
    Int.mul_nonneg (Int.mul_nonneg (Int.mul_nonneg hx precisionReuse_pos.le)
      precisionReuse_pos.le) precisionReuse_pos.le
  simp only [quotient, ofInt]
  rw [Int.tdiv_eq_ediv_of_nonneg num, Int.mul_ediv_mul_of_pos_left _ _ precisionReuse_pos]

/-- Rounding a quotient of whole numbers `x / y` up loses nothing when `y ≤ 10 ^ 18`: the
remainder of `x * 10 ^ 18 / y`, if any, is at least `1 / y ≥ 10 ^ -18` of a unit, and so
shows in the quotient with 36 places. -/
theorem le_quoRoundUp_ofInt {x y : Int} (hx : 0 ≤ x) (hy : 0 < y) (small : y ≤ precisionReuse) :
    x * precisionReuse ≤ ((ofInt x).quoRoundUp (ofInt y)).int * y := by
  have hP := precisionReuse_pos
  have dividend : 0 ≤ (ofInt x).int := Int.mul_nonneg hx hP.le
  have divisor : 0 < (ofInt y).int := Int.mul_pos hy hP
  have covered : x * precisionReuse * precisionReuse / y ≤
      ((ofInt x).quoRoundUp (ofInt y)).int * precisionReuse := by
    rw [← quotient_ofInt x y hx, quoRoundUp_int]
    exact (chopPrecisionAndRoundUp_spec (quotient_spec dividend divisor).1).1
  set up := ((ofInt x).quoRoundUp (ofInt y)).int
  -- divide `x * 10 ^ 18` by `y`, with quotient `q` and remainder `r`
  set q := x * precisionReuse / y
  set r := x * precisionReuse % y
  have split : y * q + r = x * precisionReuse := Int.mul_ediv_add_emod _ _
  have hr : 0 ≤ r := Int.emod_nonneg _ hy.ne'
  have hr' : r < y := Int.emod_lt_of_pos _ hy
  rcases hr.eq_or_lt with exact | remainder
  · -- no remainder: the quotient with 36 places is `q * 10 ^ 18`, so `up` is at least `q`
    have whole : x * precisionReuse * precisionReuse / y = q * precisionReuse := by
      rw [← split, ← exact, add_zero, mul_assoc, Int.mul_ediv_cancel_left _ hy.ne']
    rw [whole] at covered
    have hq : q ≤ up := le_of_mul_le_mul_right covered hP
    calc x * precisionReuse = y * q := by rw [← split, ← exact, add_zero]
      _ ≤ up * y := by nlinarith
  · -- a remainder of at least one, times `10 ^ 18 ≥ y`, lifts the quotient above `q * 10 ^ 18`
    have raised : q * precisionReuse + 1 ≤ x * precisionReuse * precisionReuse / y := by
      rw [Int.le_ediv_iff_mul_le hy]
      calc (q * precisionReuse + 1) * y = y * q * precisionReuse + y := by ring
        _ ≤ y * q * precisionReuse + r * precisionReuse := by nlinarith
        _ = x * precisionReuse * precisionReuse := by rw [← split]; ring
    have hq : q + 1 ≤ up := by
      have : q * precisionReuse < up * precisionReuse := by linarith
      have := lt_of_mul_lt_mul_right this hP.le
      omega
    calc x * precisionReuse = y * q + r := split.symm
      _ ≤ up * y := by nlinarith

/-- Division of decimals `a ≥ 0` by `b > 0`, read as rationals and cross-multiplied:
`QuoTruncate` is `a / b` rounded down to 18 places; `QuoRoundUp` is above `a / b` less
`10 ^ -36` and at most one unit above `QuoTruncate`; `Quo` lies between the two, within half a
unit of the quotient with 36 places that all three round; and for whole numbers, `x ≥ 0` tokens
burned of `0 < y ≤ 10 ^ 18`, the effective fraction of `Slash` is at least `x / y`. -/
theorem dec_division_bounds (a b : Dec) (ha : 0 ≤ a.int) (hb : 0 < b.int) :
    (a.quoTruncate b).int * b.int ≤ a.int * precisionReuse ∧
      a.int * precisionReuse < ((a.quoTruncate b).int + 1) * b.int ∧
      a.int * precisionReuse * precisionReuse <
        ((a.quoRoundUp b).int * precisionReuse + 1) * b.int ∧
      (a.quoTruncate b).int ≤ (a.quo b).int ∧ (a.quo b).int ≤ (a.quoRoundUp b).int ∧
      (a.quoRoundUp b).int ≤ (a.quoTruncate b).int + 1 ∧
      |2 * ((a.quo b).int * precisionReuse - a.quotient b)| ≤ precisionReuse ∧
      ∀ x y : Int, 0 ≤ x → 0 < y → y ≤ precisionReuse →
        x * precisionReuse ≤ ((ofInt x).quoRoundUp (ofInt y)).int * y :=
  ⟨quoTruncate_le ha hb, lt_quoTruncate_add_one ha hb, lt_quoRoundUp_add ha hb,
    quoTruncate_le_quo ha hb, quo_le_quoRoundUp ha hb, quoRoundUp_le_quoTruncate_add_one ha hb,
    quo_near_quotient ha hb, fun _ _ hx hy small => le_quoRoundUp_ofInt hx hy small⟩

theorem dec_division_bounds_one_by_two :
    (0 ≤ oneDec.int ∧ 0 < (ofInt 2).int) ∧
      ((oneDec.quoTruncate (ofInt 2)).int * (ofInt 2).int ≤ oneDec.int * precisionReuse ∧
      oneDec.int * precisionReuse < ((oneDec.quoTruncate (ofInt 2)).int + 1) * (ofInt 2).int ∧
      oneDec.int * precisionReuse * precisionReuse <
        ((oneDec.quoRoundUp (ofInt 2)).int * precisionReuse + 1) * (ofInt 2).int ∧
      (oneDec.quoTruncate (ofInt 2)).int ≤ (oneDec.quo (ofInt 2)).int ∧
      (oneDec.quo (ofInt 2)).int ≤ (oneDec.quoRoundUp (ofInt 2)).int ∧
      (oneDec.quoRoundUp (ofInt 2)).int ≤ (oneDec.quoTruncate (ofInt 2)).int + 1 ∧
      |2 * ((oneDec.quo (ofInt 2)).int * precisionReuse - oneDec.quotient (ofInt 2))| ≤
        precisionReuse ∧
      ∀ x y : Int, 0 ≤ x → 0 < y → y ≤ precisionReuse →
        x * precisionReuse ≤ ((ofInt x).quoRoundUp (ofInt y)).int * y) :=
  ⟨⟨by decide, by decide⟩, dec_division_bounds _ _ (by decide) (by decide)⟩

/-- The first truncation loses what the rounding would need. `QuoRoundUp(1, 1.000000000000000001)`
is `0.999999999999999999`, below the quotient `0.999999999999999999000…0999…`; the same division
of whole numbers is the effective fraction of `Slash` for `10 ^ 18` tokens burned of
`10 ^ 18 + 1`; and `Quo(10 ^ -18, 1.999999999999999999)` is zero, where the quotient, above half
of `10 ^ -18`, rounds to `10 ^ -18`. -/
theorem quo_rounds_truncated_quotient :
    (oneDec.quoRoundUp ⟨10 ^ 18 + 1⟩).int * (10 ^ 18 + 1) < oneDec.int * precisionReuse ∧
      ((ofInt (10 ^ 18)).quoRoundUp (ofInt (10 ^ 18 + 1))).int * (10 ^ 18 + 1) <
        10 ^ 18 * precisionReuse ∧
      (smallestDec.quo ⟨2 * 10 ^ 18 - 1⟩).int = 0 ∧
      2 * 10 ^ 18 - 1 < 2 * smallestDec.int * precisionReuse := by
  decide +kernel

end Dec

end Pocc
