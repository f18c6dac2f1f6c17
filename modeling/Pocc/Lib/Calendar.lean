import Mathlib

/-!
# The proleptic Gregorian calendar

The civil date of a day, for days counted from 1970-01-01 as Unix time counts them. Years are
counted from March inside 400-year eras that start on 0000-03-01, so that a leap day is the last
day of its year: an era of 146097 days splits into four centuries of 36524 days, the last one
taking the era's extra day; a century into cycles of four years (1461 days); a cycle into four
years of 365 days, the last one taking the leap day. From March the months have 31, 30, 31, 30,
31, 31, 30, 31, 30, 31, 31 days and February what is left, so the `doy`-th day of the year falls
in month `(5 * doy + 2) / 153`.

Dates are compared through `civilKey`, which orders them as (year, month, day) are ordered
lexicographically. Results:
* `civilFromDays_bounds`: months lie in 1..12 and days in 1..31;
* `civilKey_strictMono`: a later day has a later date.
-/

namespace Calendar

/-- `x` days as whole periods of `len` days, at most `cap` of them, and the days left over. -/
def splitCapped (len cap x : Nat) : Nat × Nat := (min (x / len) cap, x - len * min (x / len) cap)

/-- The year of the era, counted from March, and the day of that year. -/
def yearAndDay (doe : Nat) : Nat × Nat :=
  let (c, doc) := splitCapped 36524 3 doe
  let (n, doy) := splitCapped 365 3 (doc % 1461)
  (100 * c + 4 * (doc / 1461) + n, doy)

/-- The month of the year counted from March (0 is March, 11 is February), and the day of the
month. -/
def monthAndDay (doy : Nat) : Nat × Nat :=
  let mp := (5 * doy + 2) / 153
  (mp, doy - (153 * mp + 2) / 5 + 1)

/-- The 400-year era of a day counted from 1970-01-01. -/
def eraOf (days : Int) : Int := (days + 719468) / 146097

/-- The day of its era of a day counted from 1970-01-01. -/
def dayOfEra (days : Int) : Nat := ((days + 719468) % 146097).toNat

/-- The civil date of a day counted from 1970-01-01: the year, the month (1 to 12) and the day
of the month (1 to 31). -/
def civilFromDays (days : Int) : Int × Nat × Nat :=
  let (yoe, doy) := yearAndDay (dayOfEra days)
  let (mp, d) := monthAndDay doy
  let m := if mp < 10 then mp + 3 else mp - 9
  (400 * eraOf days + yoe + (if m ≤ 2 then 1 else 0), m, d)

/-- A number that orders dates as (year, month, day) are ordered. -/
def civilKey (date : Int × Nat × Nat) : Int := 32 * (12 * date.1 + date.2.1 - 1) + date.2.2

/-! ## The periods of an era -/

/-- One day later is one more day of the same period, or the first day of the next period after
the last day of this one. -/
theorem splitCapped_succ {len cap x : Nat} (positive : 0 < len) :
    splitCapped len cap (x + 1) = ((splitCapped len cap x).1, (splitCapped len cap x).2 + 1) ∨
      (splitCapped len cap (x + 1) = ((splitCapped len cap x).1 + 1, 0) ∧
        (splitCapped len cap x).2 = len - 1) := by
  -- `x` is `q` whole periods and `r` days
  obtain ⟨q, r, below, rfl⟩ : ∃ q r, r < len ∧ x = len * q + r :=
    ⟨x / len, x % len, Nat.mod_lt x positive, (Nat.div_add_mod x len).symm⟩
  have quotient : ∀ s < len, (len * q + s) / len = q := fun s small => by
    rw [Nat.add_comm, Nat.add_mul_div_left _ _ positive, Nat.div_eq_of_lt small, zero_add]
  unfold splitCapped
  rw [quotient r below]
  by_cases last : r + 1 = len
  · -- the next day starts period `q + 1`, unless the periods are used up
    have next : (len * q + r + 1) / len = q + 1 := by
      rw [add_assoc, last, ← Nat.mul_succ, Nat.mul_div_cancel_left _ positive]
    rw [next]
    by_cases capped : cap ≤ q
    · left
      rw [min_eq_right capped, min_eq_right (capped.trans (Nat.le_succ q))]
      simp only [Prod.mk.injEq, true_and]
      have : len * cap ≤ len * q := Nat.mul_le_mul_left _ capped
      omega
    · right
      rw [min_eq_left (by omega : q + 1 ≤ cap), min_eq_left (by omega : q ≤ cap), Nat.mul_succ]
      simp only [Prod.mk.injEq, true_and]
      omega
  · left
    rw [show len * q + r + 1 = len * q + (r + 1) by omega, quotient (r + 1) (by omega)]
    simp only [Prod.mk.injEq, true_and]
    have : len * min q cap ≤ len * q := Nat.mul_le_mul_left _ (min_le_left _ _)
    omega

/-- The position of a day in its century: its four-year cycle and its year and day there. -/
def cycleKey (doc : Nat) : Nat :=
  366 * (4 * (doc / 1461) + (splitCapped 365 3 (doc % 1461)).1) +
    (splitCapped 365 3 (doc % 1461)).2

theorem cycleKey_succ (doc : Nat) : cycleKey doc < cycleKey (doc + 1) := by
  unfold cycleKey
  by_cases last : doc % 1461 = 1460
  · -- the last day of a cycle, the leap day, is followed by the first of the next cycle
    have next : (doc + 1) / 1461 = doc / 1461 + 1 ∧ (doc + 1) % 1461 = 0 := by omega
    rw [next.1, next.2, last]
    simp only [splitCapped]
    omega
  · have same : (doc + 1) / 1461 = doc / 1461 ∧ (doc + 1) % 1461 = doc % 1461 + 1 := by omega
    rw [same.1, same.2]
    rcases @splitCapped_succ 365 3 (doc % 1461) (by norm_num) with day | ⟨year, lastDay⟩
    · rw [day]
      omega
    · rw [year]
      omega

/-- The position of a day in its era. -/
theorem yearAndDay_key (doe : Nat) :
    366 * (yearAndDay doe).1 + (yearAndDay doe).2 =
      366 * (100 * (splitCapped 36524 3 doe).1) + cycleKey (splitCapped 36524 3 doe).2 := by
  simp only [yearAndDay, cycleKey]
  omega

theorem yearAndDay_succ (doe : Nat) :
    366 * (yearAndDay doe).1 + (yearAndDay doe).2 <
      366 * (yearAndDay (doe + 1)).1 + (yearAndDay (doe + 1)).2 := by
  rw [yearAndDay_key, yearAndDay_key]
  rcases @splitCapped_succ 36524 3 doe (by norm_num) with day | ⟨century, lastDay⟩
  · rw [day]
    exact Nat.add_lt_add_left (cycleKey_succ _) _
  · -- the last day of a century is followed by the first of the next
    have lastKey : cycleKey 36523 = 36598 := by decide
    have firstKey : cycleKey 0 = 0 := by decide
    rw [century, lastDay, firstKey]
    simp only [Nat.reduceSub, lastKey]
    omega

theorem yearAndDay_bounds {doe : Nat} (within : doe < 146097) :
    (yearAndDay doe).1 ≤ 399 ∧ (yearAndDay doe).2 ≤ 365 := by
  simp only [yearAndDay, splitCapped]
  omega

theorem yearAndDay_last : yearAndDay 146096 = (399, 365) := by decide

theorem yearAndDay_zero : yearAndDay 0 = (0, 0) := by decide

/-! ## Months -/

/-- The position of a day in its year: its month and its day there. -/
def monthKey (doy : Nat) : Nat := 32 * (monthAndDay doy).1 + (monthAndDay doy).2

theorem monthAndDay_bounds {doy : Nat} (within : doy ≤ 365) :
    (monthAndDay doy).1 ≤ 11 ∧ 1 ≤ (monthAndDay doy).2 ∧ (monthAndDay doy).2 ≤ 31 := by
  simp only [monthAndDay]
  omega

theorem monthKey_succ {doy : Nat} (within : doy < 365) : monthKey doy < monthKey (doy + 1) := by
  simp only [monthKey, monthAndDay]
  -- the month of the next day is this one or the next
  obtain ⟨k, month⟩ : ∃ k, (5 * doy + 2) / 153 = k := ⟨_, rfl⟩
  obtain ⟨k', month'⟩ : ∃ k, (5 * (doy + 1) + 2) / 153 = k := ⟨_, rfl⟩
  have small : k ≤ 11 := by omega
  have next : k' = k ∨ k' = k + 1 := by omega
  rw [month, month']
  interval_cases k <;> rcases next with rfl | rfl <;> omega

theorem monthKey_lt_monthKey {doy doy' : Nat} (earlier : doy < doy') (within : doy' ≤ 365) :
    monthKey doy < monthKey doy' := by
  induction doy', earlier using Nat.le_induction with
  | base => exact monthKey_succ (by omega)
  | succ n _ ih => exact (ih (by omega)).trans (monthKey_succ (by omega))

/-! ## Dates -/

theorem civilFromDays_bounds (days : Int) :
    1 ≤ (civilFromDays days).2.1 ∧ (civilFromDays days).2.1 ≤ 12 ∧
      1 ≤ (civilFromDays days).2.2 ∧ (civilFromDays days).2.2 ≤ 31 := by
  have era : dayOfEra days < 146097 := by unfold dayOfEra; omega
  obtain ⟨-, yearDay⟩ := yearAndDay_bounds era
  obtain ⟨month, dayLow, dayHigh⟩ := monthAndDay_bounds yearDay
  simp only [civilFromDays]
  split_ifs <;> omega

/-- The year counted from March of a day, over all eras. -/
def marchYear (days : Int) : Int := 400 * eraOf days + (yearAndDay (dayOfEra days)).1

/-- The key of a date is that of its year counted from March and its day there: the months
January and February close the year before. -/
theorem civilKey_civilFromDays (days : Int) :
    civilKey (civilFromDays days) =
      32 * (12 * marchYear days + (monthAndDay (yearAndDay (dayOfEra days)).2).1 + 2) +
        (monthAndDay (yearAndDay (dayOfEra days)).2).2 := by
  have era : dayOfEra days < 146097 := by unfold dayOfEra; omega
  have month := (monthAndDay_bounds (yearAndDay_bounds era).2).1
  simp only [civilKey, civilFromDays, marchYear]
  split_ifs <;> omega

/-- Later in the (year, day) order of the March years is later in the (year, month, day)
order. -/
theorem civilKey_lt_of_march {Y Y' : Int} {doy doy' : Nat} (within : doy ≤ 365)
    (within' : doy' ≤ 365) (earlier : 366 * Y + doy < 366 * Y' + doy') :
    32 * (12 * Y + (monthAndDay doy).1 + 2) + (monthAndDay doy).2 <
      32 * (12 * Y' + (monthAndDay doy').1 + 2) + (monthAndDay doy').2 := by
  obtain ⟨month, -, day⟩ := monthAndDay_bounds within
  obtain ⟨-, day', -⟩ := monthAndDay_bounds within'
  rcases lt_or_eq_of_le (show Y ≤ Y' by omega) with later | same
  · omega
  · -- the same year: the later day of the year
    subst same
    have := monthKey_lt_monthKey (show doy < doy' by omega) within'
    simp only [monthKey] at this
    omega

/-- The next day is in the same era, one day later, or starts the next era. -/
theorem dayOfEra_succ (days : Int) :
    (eraOf (days + 1) = eraOf days ∧ dayOfEra (days + 1) = dayOfEra days + 1) ∨
      (eraOf (days + 1) = eraOf days + 1 ∧ dayOfEra (days + 1) = 0 ∧ dayOfEra days = 146096) := by
  unfold eraOf dayOfEra
  omega

theorem marchKey_succ (days : Int) :
    366 * marchYear days + (yearAndDay (dayOfEra days)).2 <
      366 * marchYear (days + 1) + (yearAndDay (dayOfEra (days + 1))).2 := by
  unfold marchYear
  rcases dayOfEra_succ days with ⟨era, day⟩ | ⟨era, first, last⟩
  · rw [era, day]
    have := yearAndDay_succ (dayOfEra days)
    omega
  · rw [era, first, last, yearAndDay_last, yearAndDay_zero]
    omega

/-- A later day has a later date. -/
theorem civilKey_strictMono : StrictMono fun days => civilKey (civilFromDays days) := by
  refine strictMono_int_of_lt_succ fun days => ?_
  have era : dayOfEra days < 146097 := by unfold dayOfEra; omega
  have era' : dayOfEra (days + 1) < 146097 := by unfold dayOfEra; omega
  simp only [civilKey_civilFromDays]
  exact civilKey_lt_of_march (yearAndDay_bounds era).2 (yearAndDay_bounds era').2
    (marchKey_succ days)

end Calendar
