import Pocc.Lib.ByteOrder
import Pocc.Lib.Calendar

/-!
# `FormatTimeBytes`

types/utils.go: `FormatTimeBytes` writes a time in UTC in the layout `SortableTimeFormat`,
"2006-01-02T15:04:05.000000000", so that store keys made from times order as the times do.
Go's `time.Format` is taken to produce the layout: each field written by `appendInt`, padded
with zeros to its width, and the nanoseconds by `formatNano`. The model's times are whole seconds
counted from 1970-01-01 UTC, so the nine digits of the fraction are zeros.

The year is padded to four digits but not cut to them, and written after a minus sign when
negative, so the order holds for the years 0 to 9999 only.

Results:
* `formatTimeBytes_eq`: for such a year, every field has its fixed width;
* `formatTimeBytes_lt_iff`, `formatTimeBytes_eq_iff`, `formatTimeBytes_le_iff`: between two such
  times the bytes order as the times, and are equal only for equal times.
-/

namespace Pocc

open Bytes

/-- The decimal digits of `u`, most significant first, without leading zeros: what the loop of
`appendInt` assembles in reverse. -/
def decimalDigits (u : Nat) : Bytes :=
  if u < 10 then [UInt8.ofNat (48 + u)] else decimalDigits (u / 10) ++ [UInt8.ofNat (48 + u % 10)]
termination_by u
decreasing_by omega

/-- `appendInt` of Go's time package: the decimal form of `x`, after a minus sign if `x` is
negative, its digits padded with zeros to `width`. -/
def appendInt (x : Int) (width : Nat) : Bytes :=
  let digits := decimalDigits x.natAbs
  (if x < 0 then [45] else []) ++ List.replicate (width - digits.length) 48 ++ digits

/-- `formatNano` without trimming: a point and the first `n` of the nine digits of `nanosec`. -/
def formatNano (nanosec n : Nat) : Bytes := [46] ++ (decimal 9 nanosec).take n

/-- The civil date of a time, in seconds from 1970-01-01 UTC. -/
def civilDate (t : Int) : Int × Nat × Nat := Calendar.civilFromDays (t / 86400)

/-- The seconds of the day of a time. -/
def secondOfDay (t : Int) : Nat := (t % 86400).toNat

/-- `FormatTimeBytes`: `t.UTC().Round(0).Format(SortableTimeFormat)`, that is
`2006-01-02T15:04:05.000000000`. -/
def formatTimeBytes (t : Int) : Bytes :=
  let (year, month, day) := civilDate t
  let secs := secondOfDay t
  let (hour, min, sec) := (secs / 3600, secs % 3600 / 60, secs % 60)
  appendInt year 4 ++ [45] ++ appendInt month 2 ++ [45] ++ appendInt day 2 ++ [84] ++
    appendInt hour 2 ++ [58] ++ appendInt min 2 ++ [58] ++ appendInt sec 2 ++ formatNano 0 9

/-! ## Fixed widths -/

theorem decimalDigits_of_lt {u : Nat} (small : u < 10) : decimalDigits u = [UInt8.ofNat (48 + u)] := by
  rw [decimalDigits, if_pos small]

theorem decimalDigits_of_ge {u : Nat} (large : 10 ≤ u) :
    decimalDigits u = decimalDigits (u / 10) ++ [UInt8.ofNat (48 + u % 10)] := by
  rw [decimalDigits, if_neg (by omega)]

theorem decimal_zero (w : Nat) : decimal w 0 = List.replicate w 48 := by
  induction w with
  | zero => rfl
  | succ w ih =>
    simp only [decimal, digitsBE] at ih ⊢
    rw [ih, List.replicate_succ']
    rfl

/-- The digits of a number below `10 ^ w`, padded to `w`, are its `w` low decimal digits. -/
theorem padded_decimalDigits {w u : Nat} (positive : 0 < w) (small : u < 10 ^ w) :
    List.replicate (w - (decimalDigits u).length) 48 ++ decimalDigits u = decimal w u := by
  induction w generalizing u with
  | zero => omega
  | succ w ih =>
    by_cases digit : u < 10
    · -- one digit, after `w` zeros
      rw [decimalDigits_of_lt digit]
      simp only [decimal, digitsBE, List.length_singleton, Nat.add_sub_cancel,
        Nat.div_eq_of_lt digit, Nat.mod_eq_of_lt digit]
      rw [← decimal, decimal_zero]
    · -- the digits of `u / 10`, then the last one
      have high : u / 10 < 10 ^ w := Nat.div_lt_of_lt_mul (by rwa [Nat.mul_comm, ← Nat.pow_succ])
      have wide : 0 < w := Nat.pos_of_ne_zero fun zero => by subst zero; omega
      rw [decimalDigits_of_ge (by omega), List.length_append, List.length_singleton,
        Nat.add_sub_add_right, ← List.append_assoc, ih wide high]
      rfl

theorem appendInt_of_lt {x : Int} {w : Nat} (positive : 0 < w) (nonneg : 0 ≤ x)
    (small : x < 10 ^ w) : appendInt x w = decimal w x.toNat := by
  have natural : x.natAbs = x.toNat := by omega
  have below : x.toNat < 10 ^ w := by
    have : (x.toNat : Int) < ((10 ^ w : Nat) : Int) := by push_cast; omega
    exact_mod_cast this
  simp only [appendInt, if_neg (not_lt.mpr nonneg), List.nil_append, natural]
  exact padded_decimalDigits positive below

/-- A time whose year `FormatTimeBytes` writes in four digits. -/
def FourDigitYear (t : Int) : Prop := 0 ≤ (civilDate t).1 ∧ (civilDate t).1 ≤ 9999

instance : DecidablePred FourDigitYear := fun t =>
  inferInstanceAs (Decidable (0 ≤ (civilDate t).1 ∧ (civilDate t).1 ≤ 9999))

theorem secondOfDay_lt (t : Int) : secondOfDay t < 86400 := by
  unfold secondOfDay
  omega

theorem civilDate_bounds (t : Int) :
    1 ≤ (civilDate t).2.1 ∧ (civilDate t).2.1 ≤ 12 ∧ 1 ≤ (civilDate t).2.2 ∧
      (civilDate t).2.2 ≤ 31 :=
  Calendar.civilFromDays_bounds (t / 86400)

/-- For a year of four digits every field has its fixed width. -/
theorem formatTimeBytes_eq {t : Int} (year : FourDigitYear t) :
    formatTimeBytes t =
      decimal 4 (civilDate t).1.toNat ++ ([45] ++ (decimal 2 (civilDate t).2.1 ++ ([45] ++
        (decimal 2 (civilDate t).2.2 ++ ([84] ++ (decimal 2 (secondOfDay t / 3600) ++ ([58] ++
          (decimal 2 (secondOfDay t % 3600 / 60) ++ ([58] ++
            (decimal 2 (secondOfDay t % 60) ++ formatNano 0 9)))))))))) := by
  obtain ⟨-, month, -, day⟩ := civilDate_bounds t
  have secs := secondOfDay_lt t
  have field : ∀ n : Nat, n < 100 → appendInt n 2 = decimal 2 n := fun n small => by
    rw [appendInt_of_lt (by norm_num) (by omega) (by norm_num; omega), Int.toNat_natCast]
  have fourDigits : appendInt (civilDate t).1 4 = decimal 4 (civilDate t).1.toNat :=
    appendInt_of_lt (by norm_num) year.1 (by have := year.2; norm_num; omega)
  simp only [formatTimeBytes, List.append_assoc]
  rw [fourDigits, field (civilDate t).2.1 (by omega), field (civilDate t).2.2 (by omega),
    field (secondOfDay t / 3600) (by omega), field (secondOfDay t % 3600 / 60) (by omega),
    field (secondOfDay t % 60) (by omega)]

/-- A field of `w` digits, a separator and the rest: the fields are compared first. -/
theorem field_lt_field_iff {w a a' : Nat} (ha : a < 10 ^ w) (ha' : a' < 10 ^ w) (sep : Bytes)
    {rest rest' : Bytes} :
    decimal w a ++ (sep ++ rest) < decimal w a' ++ (sep ++ rest') ↔
      a < a' ∨ a = a' ∧ rest < rest' := by
  rw [append_lt_append_iff (by simp [decimal]), decimal_lt_decimal_iff ha ha',
    decimal_eq_decimal_iff ha ha', append_lt_append_left_iff]

/-! ## The order of times -/

/-- The hour, minute and second of the day are its digits in the bases 24, 60 and 60. -/
theorem clock_lt_iff {s s' : Nat} :
    (s / 3600 < s' / 3600 ∨ s / 3600 = s' / 3600 ∧ (s % 3600 / 60 < s' % 3600 / 60 ∨
        s % 3600 / 60 = s' % 3600 / 60 ∧ s % 60 < s' % 60)) ↔ s < s' := by
  have whole : s = 3600 * (s / 3600) + 60 * (s % 3600 / 60) + s % 60 := by omega
  have whole' : s' = 3600 * (s' / 3600) + 60 * (s' % 3600 / 60) + s' % 60 := by omega
  constructor
  · rintro (less | ⟨same, less | ⟨same', less⟩⟩) <;> omega
  · intro less
    omega

/-- Dates compared field by field, and then by what follows them, as `civilKey` orders them. -/
theorem date_lt_iff {a b : Int × Nat × Nat} (P : Prop) (ha : 0 ≤ a.1) (hb : 0 ≤ b.1)
    (bounds : 1 ≤ a.2.1 ∧ a.2.1 ≤ 12 ∧ 1 ≤ a.2.2 ∧ a.2.2 ≤ 31)
    (bounds' : 1 ≤ b.2.1 ∧ b.2.1 ≤ 12 ∧ 1 ≤ b.2.2 ∧ b.2.2 ≤ 31) :
    (a.1.toNat < b.1.toNat ∨ a.1.toNat = b.1.toNat ∧ (a.2.1 < b.2.1 ∨ a.2.1 = b.2.1 ∧
      (a.2.2 < b.2.2 ∨ a.2.2 = b.2.2 ∧ P))) ↔
      Calendar.civilKey a < Calendar.civilKey b ∨ Calendar.civilKey a = Calendar.civilKey b ∧ P := by
  obtain ⟨y, m, d⟩ := a
  obtain ⟨y', m', d'⟩ := b
  simp only [Calendar.civilKey] at *
  by_cases holds : P
  · simp only [holds, and_true]
    constructor
    · rintro (less | ⟨same, less | ⟨same', less | same''⟩⟩) <;> omega
    · intro less
      omega
  · simp only [holds, and_false, or_false]
    constructor
    · rintro (less | ⟨same, less | ⟨same', less⟩⟩) <;> omega
    · intro less
      omega

/-- Times compare as their dates, and within a day as their seconds. -/
theorem lt_iff_civilKey {t t' : Int} :
    t < t' ↔ Calendar.civilKey (civilDate t) < Calendar.civilKey (civilDate t') ∨
      Calendar.civilKey (civilDate t) = Calendar.civilKey (civilDate t') ∧
        secondOfDay t < secondOfDay t' := by
  have mono := Calendar.civilKey_strictMono
  have split : ∀ u : Int, u = 86400 * (u / 86400) + secondOfDay u := fun u => by
    unfold secondOfDay
    omega
  have whole := split t
  have whole' := split t'
  have secs := secondOfDay_lt t
  have secs' := secondOfDay_lt t'
  unfold civilDate
  constructor
  · intro earlier
    rcases lt_trichotomy (t / 86400) (t' / 86400) with before | same | after
    · exact .inl (mono before)
    · exact .inr ⟨by rw [same], by omega⟩
    · omega
  · rintro (before | ⟨same, later⟩)
    · have : t / 86400 < t' / 86400 := mono.lt_iff_lt.mp before
      omega
    · have : t / 86400 = t' / 86400 := mono.injective same
      omega

/-- Between times with four-digit years, `FormatTimeBytes` orders as the times. -/
theorem formatTimeBytes_lt_iff {t t' : Int} (year : FourDigitYear t) (year' : FourDigitYear t') :
    formatTimeBytes t < formatTimeBytes t' ↔ t < t' := by
  obtain ⟨-, month, -, day⟩ := civilDate_bounds t
  obtain ⟨-, month', -, day'⟩ := civilDate_bounds t'
  have secs := secondOfDay_lt t
  have secs' := secondOfDay_lt t'
  have digits : ∀ u : Int, 0 ≤ u → u ≤ 9999 → u.toNat < 10 ^ 4 := fun u low high => by omega
  -- compare field by field; the fractions are equal
  rw [formatTimeBytes_eq year, formatTimeBytes_eq year',
    field_lt_field_iff (digits _ year.1 year.2) (digits _ year'.1 year'.2),
    field_lt_field_iff (by norm_num; omega) (by norm_num; omega),
    field_lt_field_iff (by norm_num; omega) (by norm_num; omega),
    field_lt_field_iff (by norm_num; omega) (by norm_num; omega),
    field_lt_field_iff (by norm_num; omega) (by norm_num; omega),
    append_lt_append_iff (by simp [decimal]),
    decimal_lt_decimal_iff (by norm_num; omega) (by norm_num; omega),
    decimal_eq_decimal_iff (by norm_num; omega) (by norm_num; omega), lt_self_iff_false, and_false,
    or_false, clock_lt_iff, date_lt_iff _ year.1 year'.1 (civilDate_bounds t)
      (civilDate_bounds t')]
  exact lt_iff_civilKey.symm

/-- Between times with four-digit years, `FormatTimeBytes` is equal only for equal times. -/
theorem formatTimeBytes_eq_iff {t t' : Int} (year : FourDigitYear t) (year' : FourDigitYear t') :
    formatTimeBytes t = formatTimeBytes t' ↔ t = t' := by
  constructor
  · intro same
    rcases lt_trichotomy t t' with less | equal | more
    · have := (formatTimeBytes_lt_iff year year').mpr less
      rw [same] at this
      exact absurd this (lt_irrefl _)
    · exact equal
    · have := (formatTimeBytes_lt_iff year' year).mpr more
      rw [same] at this
      exact absurd this (lt_irrefl _)
  · intro same
    rw [same]

theorem formatTimeBytes_le_iff {t t' : Int} (year : FourDigitYear t) (year' : FourDigitYear t') :
    formatTimeBytes t ≤ formatTimeBytes t' ↔ t ≤ t' := by
  rw [le_iff_lt_or_eq, le_iff_lt_or_eq, formatTimeBytes_lt_iff year year',
    formatTimeBytes_eq_iff year year']

end Pocc
