import Pocc.Types.CoinAlgebra

/-!
# `DecCoins.MulDec` and the commission split

`DecCoins.MulDec` (types/dec_coin.go) multiplies every amount by a decimal, rounding each
product with `Dec.Mul`, and adds the products that are not zero into a new set. A product of a
non-negative amount by a factor in `[0, 1]` is at most the amount (`Dec.mul_le_self`), even
after rounding; so on a sorted set with non-negative amounts, taking the products away from
the set never leaves a negative amount, and `Sub` does not panic (`sub_mulDec`). This is the
split of `AllocateTokensToValidator` into commission and shared rewards.
-/

namespace Pocc

/-! ## Rounding a product of a non-negative amount by a factor of at most one -/

theorem chopNonNeg_le {x a : Int} (hx : 0 ≤ x) (hle : x ≤ a * precisionReuse) :
    chopPrecisionAndRound.chopNonNeg x ≤ a := by
  unfold chopPrecisionAndRound.chopNonNeg
  have hP : precisionReuse = 1000000000000000000 := by decide
  rw [hP] at hle ⊢
  rw [Int.tdiv_eq_ediv_of_nonneg hx, Int.tmod_eq_emod_of_nonneg hx]
  dsimp only
  -- rounding up happens only with a remainder, so below a multiple of one
  split_ifs <;> omega

theorem chopNonNeg_nonneg {x : Int} (hx : 0 ≤ x) : 0 ≤ chopPrecisionAndRound.chopNonNeg x := by
  unfold chopPrecisionAndRound.chopNonNeg
  have hP : precisionReuse = 1000000000000000000 := by decide
  rw [hP, Int.tdiv_eq_ediv_of_nonneg hx, Int.tmod_eq_emod_of_nonneg hx]
  dsimp only
  split_ifs <;> omega

/-- Rounding to nearest, ties to even, keeps the order. -/
theorem chopNonNeg_mono {x y : Int} (hx : 0 ≤ x) (hxy : x ≤ y) :
    chopPrecisionAndRound.chopNonNeg x ≤ chopPrecisionAndRound.chopNonNeg y := by
  have hy : 0 ≤ y := le_trans hx hxy
  unfold chopPrecisionAndRound.chopNonNeg
  have hP : precisionReuse = 1000000000000000000 := by decide
  rw [hP, Int.tdiv_eq_ediv_of_nonneg hx, Int.tmod_eq_emod_of_nonneg hx,
    Int.tdiv_eq_ediv_of_nonneg hy, Int.tmod_eq_emod_of_nonneg hy]
  dsimp only
  split_ifs <;> omega

/-- A whole number of units loses nothing. -/
theorem chopNonNeg_mul {a : Int} (ha : 0 ≤ a) :
    chopPrecisionAndRound.chopNonNeg (a * precisionReuse) = a := by
  unfold chopPrecisionAndRound.chopNonNeg
  have hP : precisionReuse = 1000000000000000000 := by decide
  have hx : 0 ≤ a * 1000000000000000000 := by omega
  rw [hP, Int.tdiv_eq_ediv_of_nonneg hx, Int.tmod_eq_emod_of_nonneg hx]
  dsimp only
  split_ifs <;> omega

namespace Dec

@[simp] theorem zero_mul (r : Dec) : (0 : Dec).mul r = 0 := by
  simp [mul, chopPrecisionAndRound, chopPrecisionAndRound.chopNonNeg]
  rfl

theorem mul_nonneg {a r : Dec} (ha : 0 ≤ a) (hr : 0 ≤ r) : 0 ≤ a.mul r := by
  have hx : 0 ≤ a.int * r.int := Int.mul_nonneg ha hr
  change 0 ≤ chopPrecisionAndRound (a.int * r.int)
  rw [chopPrecisionAndRound, if_neg (not_lt.mpr hx)]
  exact chopNonNeg_nonneg hx

/-- A non-negative amount times a factor of at most one, rounded, is at most the amount. -/
theorem mul_le_self {a r : Dec} (ha : 0 ≤ a) (hr : 0 ≤ r) (hr₁ : r ≤ oneDec) : a.mul r ≤ a := by
  have hx : 0 ≤ a.int * r.int := Int.mul_nonneg ha hr
  have hle : a.int * r.int ≤ a.int * precisionReuse := Int.mul_le_mul_of_nonneg_left hr₁ ha
  change chopPrecisionAndRound (a.int * r.int) ≤ a.int
  rw [chopPrecisionAndRound, if_neg (not_lt.mpr hx)]
  exact chopNonNeg_le hx hle

/-! ## Rounding keeps the order -/

theorem ofInt_nonneg {i : Int} (hi : 0 ≤ i) : 0 ≤ ofInt i :=
  Int.mul_nonneg hi (by decide)

theorem roundInt_nonneg {a : Dec} (ha : 0 ≤ a) : 0 ≤ a.roundInt := by
  change 0 ≤ chopPrecisionAndRound a.int
  rw [chopPrecisionAndRound, if_neg (not_lt.mpr (show 0 ≤ a.int from ha))]
  exact chopNonNeg_nonneg ha

theorem roundInt_mono {a b : Dec} (ha : 0 ≤ a) (hab : a ≤ b) : a.roundInt ≤ b.roundInt := by
  have hb : 0 ≤ b.int := le_trans (show 0 ≤ a.int from ha) hab
  change chopPrecisionAndRound a.int ≤ chopPrecisionAndRound b.int
  rw [chopPrecisionAndRound, if_neg (not_lt.mpr (show 0 ≤ a.int from ha)), chopPrecisionAndRound,
    if_neg (not_lt.mpr hb)]
  exact chopNonNeg_mono ha hab

theorem roundInt_ofInt {i : Int} (hi : 0 ≤ i) : (ofInt i).roundInt = i := by
  change chopPrecisionAndRound (i * precisionReuse) = i
  rw [chopPrecisionAndRound, if_neg (not_lt.mpr (show 0 ≤ i * precisionReuse from ofInt_nonneg hi))]
  exact chopNonNeg_mul hi

theorem mul_mono_right {a r r' : Dec} (ha : 0 ≤ a) (hr : 0 ≤ r) (hrr' : r ≤ r') :
    a.mul r ≤ a.mul r' := by
  have hx : 0 ≤ a.int * r.int := Int.mul_nonneg ha hr
  have hle : a.int * r.int ≤ a.int * r'.int := Int.mul_le_mul_of_nonneg_left hrr' ha
  change chopPrecisionAndRound (a.int * r.int) ≤ chopPrecisionAndRound (a.int * r'.int)
  rw [chopPrecisionAndRound, if_neg (not_lt.mpr hx), chopPrecisionAndRound,
    if_neg (not_lt.mpr (le_trans hx hle))]
  exact chopNonNeg_mono hx hle

/-- The quotient of two whole numbers, `x * 10 ^ 36 / y` before its last rounding. -/
def quoOfInt (x y : Int) : Int :=
  (x * precisionReuse * precisionReuse * precisionReuse) / (y * precisionReuse)

theorem quo_ofInt_int {x : Int} (y : Int) (hx : 0 ≤ x) :
    (quo (ofInt x) (ofInt y)).int = chopPrecisionAndRound (quoOfInt x y) := by
  have hP : 0 ≤ precisionReuse := by decide
  have num : 0 ≤ x * precisionReuse * precisionReuse * precisionReuse :=
    Int.mul_nonneg (Int.mul_nonneg (Int.mul_nonneg hx hP) hP) hP
  simp only [quo, ofInt, quoOfInt]
  rw [Int.tdiv_eq_ediv_of_nonneg num]

theorem quoOfInt_nonneg {x y : Int} (hx : 0 ≤ x) (hy : 0 < y) : 0 ≤ quoOfInt x y := by
  have hP : 0 ≤ precisionReuse := by decide
  exact Int.ediv_nonneg (Int.mul_nonneg (Int.mul_nonneg (Int.mul_nonneg hx hP) hP) hP)
    (Int.mul_nonneg hy.le hP)

theorem quoOfInt_mono {x x' : Int} (y : Int) (hxx' : x ≤ x') (hy : 0 < y) :
    quoOfInt x y ≤ quoOfInt x' y := by
  have hP : 0 ≤ precisionReuse := by decide
  have hP' : 0 < precisionReuse := by decide
  apply Int.ediv_le_ediv (Int.mul_pos hy hP')
  exact Int.mul_le_mul_of_nonneg_right
    (Int.mul_le_mul_of_nonneg_right (Int.mul_le_mul_of_nonneg_right hxx' hP) hP) hP

/-- A quotient of a whole number by a larger one is at most `10 ^ 36`, one unit with its
18 places. -/
theorem quoOfInt_le {x y : Int} (hxy : x ≤ y) (hy : 0 < y) :
    quoOfInt x y ≤ precisionReuse * precisionReuse := by
  have hP : 0 ≤ precisionReuse := by decide
  have hP' : 0 < precisionReuse := by decide
  apply Int.ediv_le_of_le_mul (Int.mul_pos hy hP')
  calc x * precisionReuse * precisionReuse * precisionReuse
      ≤ y * precisionReuse * precisionReuse * precisionReuse :=
        Int.mul_le_mul_of_nonneg_right
          (Int.mul_le_mul_of_nonneg_right (Int.mul_le_mul_of_nonneg_right hxy hP) hP) hP
    _ = precisionReuse * precisionReuse * (y * precisionReuse) := by ac_rfl

theorem quo_nonneg {x y : Int} (hx : 0 ≤ x) (hy : 0 < y) : 0 ≤ quo (ofInt x) (ofInt y) := by
  have num := quoOfInt_nonneg hx hy
  change 0 ≤ (quo (ofInt x) (ofInt y)).int
  rw [quo_ofInt_int y hx, chopPrecisionAndRound, if_neg (not_lt.mpr num)]
  exact chopNonNeg_nonneg num

theorem quo_mono {x x' y : Int} (hx : 0 ≤ x) (hxx' : x ≤ x') (hy : 0 < y) :
    quo (ofInt x) (ofInt y) ≤ quo (ofInt x') (ofInt y) := by
  have num := quoOfInt_nonneg hx hy
  have le := quoOfInt_mono y hxx' hy
  change (quo (ofInt x) (ofInt y)).int ≤ (quo (ofInt x') (ofInt y)).int
  rw [quo_ofInt_int y hx, quo_ofInt_int y (le_trans hx hxx'), chopPrecisionAndRound,
    if_neg (not_lt.mpr num), chopPrecisionAndRound, if_neg (not_lt.mpr (le_trans num le))]
  exact chopNonNeg_mono num le

/-- A quotient of a whole number by a larger one is at most one. -/
theorem quo_le_oneDec {x y : Int} (hx : 0 ≤ x) (hxy : x ≤ y) (hy : 0 < y) :
    quo (ofInt x) (ofInt y) ≤ oneDec := by
  have num := quoOfInt_nonneg hx hy
  change (quo (ofInt x) (ofInt y)).int ≤ precisionReuse
  rw [quo_ofInt_int y hx, chopPrecisionAndRound, if_neg (not_lt.mpr num)]
  exact chopNonNeg_le num (quoOfInt_le hxy hy)

end Dec

namespace DecCoins

/-- `DecCoins.MulDec`: every amount times `d`; the products that are not zero are added, in
order, to a new set. -/
def mulDec (coins : DecCoins) (d : Dec) : DecCoins :=
  coins.foldl (fun res coin =>
    let product : DecCoin := ⟨coin.denom, coin.amount.mul d⟩
    if product.amount.isZero then res else res.add [product]) []

/-! ## `MulDec` and `MulDecTruncate`, for any product -/

/-- The loop of `MulDec` and `MulDecTruncate`, with the product `mul` of each: every amount
times `d`; the products that are not zero are added, in order, to a new set. `MulDec` is this
loop for `Dec.Mul` (`mulDec_eq_mulEach`). -/
def mulEach (mul : Dec → Dec → Dec) (coins : DecCoins) (d : Dec) : DecCoins :=
  coins.foldl (fun res coin =>
    let product : DecCoin := ⟨coin.denom, mul coin.amount d⟩
    if product.amount.isZero then res else res.add [product]) []

/-- `DecCoins.MulDecTruncate`: `MulDec` with every product truncated. -/
def mulDecTruncate (coins : DecCoins) (d : Dec) : DecCoins := mulEach Dec.mulTruncate coins d

theorem mulDec_eq_mulEach (coins : DecCoins) (d : Dec) : mulDec coins d = mulEach Dec.mul coins d :=
  rfl

section MulEach

variable (mul : Dec → Dec → Dec) (d : Dec)

/-- The loop of `mulEach` adds the products to the set it starts from. -/
theorem foldl_mulEach :
    ∀ (coins res : DecCoins), CoinSet.Sorted res →
      let out := coins.foldl (fun res coin =>
        let product : DecCoin := ⟨coin.denom, mul coin.amount d⟩
        if product.amount.isZero then res else res.add [product]) res
      CoinSet.Sorted out ∧ ∀ denom, CoinSet.amt out denom =
        CoinSet.amt res denom + CoinSet.amt (coins.map fun c => ⟨c.denom, mul c.amount d⟩) denom
  | [], res, sorted => ⟨sorted, fun _ => by simp⟩
  | coin :: coins, res, sorted => by
    dsimp only [List.foldl_cons]
    split
    · next zero =>
      -- a zero product is dropped, and adds nothing
      obtain ⟨sorted', amt'⟩ := foldl_mulEach coins res sorted
      refine ⟨sorted', fun denom => ?_⟩
      have dropped : mul coin.amount d = 0 := Dec.ext_int zero
      rw [amt', List.map_cons, CoinSet.amt_cons, dropped]
      split <;> simp
    · obtain ⟨sorted', amt'⟩ := foldl_mulEach coins (res.add [⟨coin.denom, mul coin.amount d⟩])
        (CoinSet.sorted_safeAdd sorted (List.pairwise_singleton _ _))
      refine ⟨sorted', fun denom => ?_⟩
      rw [amt', add, safeAdd, CoinSet.amt_safeAdd, List.map_cons, CoinSet.amt_cons,
        CoinSet.amt_cons, CoinSet.amt_nil]
      abel

theorem sorted_mulEach (coins : DecCoins) : CoinSet.Sorted (mulEach mul coins d) :=
  (foldl_mulEach mul d coins [] List.Pairwise.nil).1

/-- On a sorted set, `mulEach` holds at each denomination the product of the amount there, for
a product that takes zero to zero. -/
theorem amt_mulEach {coins : DecCoins} (sorted : CoinSet.Sorted coins) (zero : mul 0 d = 0)
    (denom : String) : CoinSet.amt (mulEach mul coins d) denom = mul (CoinSet.amt coins denom) d := by
  rw [mulEach, (foldl_mulEach mul d coins [] List.Pairwise.nil).2, CoinSet.amt_nil, zero_add]
  have sortedProducts : CoinSet.Sorted (coins.map fun c => (⟨c.denom, mul c.amount d⟩ : DecCoin)) :=
    List.pairwise_map.mpr sorted
  by_cases present : ∃ c ∈ coins, c.denom = denom
  · obtain ⟨c, hc, rfl⟩ := present
    have mem : (⟨c.denom, mul c.amount d⟩ : DecCoin) ∈
        coins.map fun c => (⟨c.denom, mul c.amount d⟩ : DecCoin) :=
      List.mem_map.mpr ⟨c, hc, rfl⟩
    rw [CoinSet.amt_of_mem sorted hc, CoinSet.amt_of_mem sortedProducts mem]
  · have absent : ∀ c ∈ coins.map fun c => (⟨c.denom, mul c.amount d⟩ : DecCoin),
        c.denom ≠ denom := by
      intro c hc same
      obtain ⟨c', hc', rfl⟩ := List.mem_map.mp hc
      exact present ⟨c', hc', same⟩
    rw [CoinSet.amt_eq_zero_of_forall_ne absent,
      CoinSet.amt_eq_zero_of_forall_ne fun c hc same => present ⟨c, hc, same⟩, zero]

end MulEach

theorem sorted_mulDec (coins : DecCoins) (d : Dec) : CoinSet.Sorted (mulDec coins d) :=
  sorted_mulEach Dec.mul d coins

theorem amt_mulDec {coins : DecCoins} (sorted : CoinSet.Sorted coins) (d : Dec) (denom : String) :
    CoinSet.amt (mulDec coins d) denom = (CoinSet.amt coins denom).mul d :=
  amt_mulEach Dec.mul d sorted (Dec.zero_mul d) denom

/-- The split of a sorted set with non-negative amounts by a factor in `[0, 1]`: taking the
products of `MulDec` away does not panic, and leaves at each denomination the amount less its
product. -/
theorem sub_mulDec {coins : DecCoins} (sorted : CoinSet.Sorted coins)
    (nonneg : ∀ c ∈ coins, 0 ≤ c.amount) {r : Dec} (hr : 0 ≤ r) (hr₁ : r ≤ Dec.oneDec) :
    ∃ shared, sub coins (mulDec coins r) = .ok shared ∧
      ∀ denom, CoinSet.amt shared denom =
        CoinSet.amt coins denom - (CoinSet.amt coins denom).mul r := by
  have amount_nonneg : ∀ denom, 0 ≤ CoinSet.amt coins denom := by
    intro denom
    by_cases present : ∃ c ∈ coins, c.denom = denom
    · obtain ⟨c, hc, rfl⟩ := present
      rw [CoinSet.amt_of_mem sorted hc]
      exact nonneg c hc
    · rw [CoinSet.amt_eq_zero_of_forall_ne fun c hc same => present ⟨c, hc, same⟩]
  unfold sub
  rw [CoinSet.sort_of_sorted sorted, CoinSet.sort_of_sorted (sorted_mulDec coins r)]
  -- no denomination of the difference is negative
  have noNeg : (safeSub coins (mulDec coins r)).2 = false := by
    change CoinSet.isAnyNegative (CoinSet.safeSub coins (mulDec coins r)).1 = false
    rw [Bool.eq_false_iff, ne_eq, CoinSet.isAnyNegative_iff
      (CoinSet.sorted_safeSub sorted (sorted_mulDec coins r))]
    rintro ⟨denom, neg⟩
    rw [CoinSet.amt_safeSub, amt_mulDec sorted] at neg
    have le := Dec.mul_le_self (amount_nonneg denom) hr hr₁
    rw [Dec.lt_iff] at neg
    rw [Dec.le_iff] at le
    simp only [Dec.sub_int, Dec.zero_int] at neg
    omega
  refine ⟨(safeSub coins (mulDec coins r)).1, ?_, fun denom => ?_⟩
  · rcases hsub : safeSub coins (mulDec coins r) with ⟨diff, hasNeg⟩
    rw [hsub] at noNeg
    dsimp only at noNeg ⊢
    rw [noNeg]
    rfl
  · rw [safeSub, CoinSet.amt_safeSub, amt_mulDec sorted]


theorem sorted_mulDecTruncate (coins : DecCoins) (d : Dec) :
    CoinSet.Sorted (mulDecTruncate coins d) :=
  sorted_mulEach Dec.mulTruncate d coins

theorem amt_mulDecTruncate {coins : DecCoins} (sorted : CoinSet.Sorted coins) (d : Dec)
    (denom : String) :
    CoinSet.amt (mulDecTruncate coins d) denom = (CoinSet.amt coins denom).mulTruncate d :=
  amt_mulEach Dec.mulTruncate d sorted
    (Dec.ext_int (by simp [Dec.mulTruncate, chopPrecisionAndTruncate])) denom

/-- `Sub` of sorted sets, the second below the first everywhere, does not panic and leaves
the difference at every denomination. -/
theorem sub_of_amt_le {coins coinsB : DecCoins} (sorted : CoinSet.Sorted coins)
    (sortedB : CoinSet.Sorted coinsB)
    (below : ∀ denom, CoinSet.amt coinsB denom ≤ CoinSet.amt coins denom) :
    ∃ diff, sub coins coinsB = .ok diff ∧ CoinSet.Sorted diff ∧
      ∀ denom, CoinSet.amt diff denom = CoinSet.amt coins denom - CoinSet.amt coinsB denom := by
  have noNeg : (safeSub coins coinsB).2 = false := by
    change CoinSet.isAnyNegative (CoinSet.safeSub coins coinsB).1 = false
    rw [Bool.eq_false_iff, ne_eq, CoinSet.isAnyNegative_iff (CoinSet.sorted_safeSub sorted sortedB)]
    rintro ⟨denom, negative⟩
    rw [CoinSet.amt_safeSub, Dec.lt_iff] at negative
    have le := below denom
    rw [Dec.le_iff] at le
    simp only [Dec.sub_int, Dec.zero_int] at negative
    omega
  refine ⟨(safeSub coins coinsB).1, ?_, CoinSet.sorted_safeSub sorted sortedB,
    fun denom => CoinSet.amt_safeSub coins coinsB denom⟩
  unfold sub
  rw [CoinSet.sort_of_sorted sorted, CoinSet.sort_of_sorted sortedB]
  rcases hsub : safeSub coins coinsB with ⟨diff, hasNeg⟩
  rw [hsub] at noNeg
  dsimp only at noNeg ⊢
  rw [noNeg]
  rfl

/-- `Sub` leaves the difference at every denomination, whatever the order of its inputs: it
sorts copies of both first. -/
theorem amt_sub {coins coinsB diff : DecCoins} (h : sub coins coinsB = .ok diff)
    (denom : String) :
    CoinSet.amt diff denom = CoinSet.amt coins denom - CoinSet.amt coinsB denom := by
  unfold sub at h
  rcases hsub : safeSub (CoinSet.sort coins) (CoinSet.sort coinsB) with ⟨result, hasNeg⟩
  rw [hsub] at h
  cases hasNeg with
  | true => exact absurd h Fallible.throw_ne_ok
  | false =>
    obtain rfl : result = diff := Fallible.pure_eq_ok.mp h
    have amounts : CoinSet.amt (safeSub (CoinSet.sort coins) (CoinSet.sort coinsB)).1 denom =
        CoinSet.amt coins denom - CoinSet.amt coinsB denom := by
      rw [safeSub, CoinSet.amt_safeSub, CoinSet.amt_sort, CoinSet.amt_sort]
    rw [hsub] at amounts
    exact amounts

/-- `NewDecCoins` keeps every amount, as a decimal. -/
theorem amt_ofCoins (coins : Coins) (denom : String) :
    CoinSet.amt (ofCoins coins) denom = Dec.ofInt (CoinSet.amt coins denom) := by
  induction coins with
  | nil => exact Dec.ext_int (by simp [ofCoins, Dec.ofInt])
  | cons c rest ih =>
    simp only [ofCoins, List.map_cons] at ih ⊢
    rw [CoinSet.amt_cons, CoinSet.amt_cons, ih]
    apply Dec.ext_int
    split <;> simp [Dec.ofInt, Int.add_mul]

theorem sorted_ofCoins {coins : Coins} (sorted : CoinSet.Sorted coins) :
    CoinSet.Sorted (ofCoins coins) :=
  List.pairwise_map.mpr sorted

end DecCoins

namespace Dec

/-- The integer of a sum of decimals is the sum of their integers. -/
theorem int_sum {α : Type} (l : List α) (f : α → Dec) :
    (l.map f).sum.int = (l.map fun a => (f a).int).sum := by
  induction l with
  | nil => rfl
  | cons a l ih => rw [List.map_cons, List.sum_cons, add_int, ih, List.map_cons, List.sum_cons]

theorem int_sum_nonneg {α : Type} {l : List α} {f : α → Dec} (nonneg : ∀ a ∈ l, 0 ≤ (f a).int) :
    0 ≤ (l.map f).sum.int := by
  rw [int_sum]
  exact List.sum_nonneg fun x mapped => by
    obtain ⟨a, member, rfl⟩ := List.mem_map.mp mapped
    exact nonneg a member

end Dec

end Pocc
