import Pocc.Types.Coin

/-!
# The algebra of valid coin sets

types/coin.go promises that `Add` and `Sub` of valid sets are valid ("CONTRACT: Add will never
return Coins where one Coin has a non-positive amount"). The results here:

* `safeAdd` never returns a zero coin, and a sorted set without zero coins is determined by its
  amounts (`eq_of_amt_eq`); so on sorted sets `Add` is commutative and associative;
* the sum of two valid sets is valid (`isValid_add`): its first denomination is the first of one
  of the two sets, so it passes `validateDenom`;
* `SafeSub` reports a negative amount exactly when some denomination of the second set
  exceeds the first (`safeSub_hasNeg_iff`).

`removeZeroCoins` in Go shifts the coins of its argument in place; on a set without zero coins
it moves nothing, so on valid sets it leaves the caller's coins as they were.
-/

set_option linter.unusedSectionVars false

namespace Pocc

namespace CoinSet

variable {α : Type} [AddCommGroup α] [LinearOrder α]

/-- Rewriting the coins of a sorted set in place, each at its own denomination, keeps it
sorted. -/
theorem sorted_map (F : CoinOf α → CoinOf α) (same : ∀ c, (F c).denom = c.denom)
    {coins : CoinSet α} (sorted : Sorted coins) : Sorted (coins.map F) :=
  List.pairwise_map.mpr (sorted.imp fun {a b} lt => by rwa [same a, same b])

/-! ## No zero coins -/

theorem amount_ne_zero_of_mem_removeZeroCoins {c : CoinOf α} {coins : CoinSet α}
    (h : c ∈ removeZeroCoins coins) : c.amount ≠ 0 := by
  simpa [removeZeroCoins] using (List.mem_filter.mp h).2

theorem amount_ne_zero_of_mem_nonZero {c d : CoinOf α} (h : d ∈ nonZero c) : d.amount ≠ 0 := by
  unfold nonZero at h
  split at h
  · simp at h
  · next nonzero =>
    rw [List.mem_singleton.mp h]
    exact nonzero

/-- The walk of `safeAdd` appends no zero coin, provided the continuation does not. -/
theorem amount_ne_zero_safeAddStep (ca : CoinOf α) (ta : CoinSet α)
    (rest : CoinSet α → CoinSet α) (hrest : ∀ coinsB, ∀ c ∈ rest coinsB, c.amount ≠ 0) :
    ∀ coinsB, ∀ c ∈ safeAddStep ca ta rest coinsB, c.amount ≠ 0
  | [] => fun _ hc => amount_ne_zero_of_mem_removeZeroCoins hc
  | cb :: tb => by
    intro c hc
    unfold safeAddStep at hc
    split at hc
    all_goals rcases List.mem_append.mp hc with hc | hc
    all_goals first
      | exact amount_ne_zero_of_mem_nonZero hc
      | exact hrest _ c hc
      | exact amount_ne_zero_safeAddStep ca ta rest hrest tb c hc

/-- `Add` returns no zero coin, whatever its inputs. -/
theorem amount_ne_zero_safeAdd :
    ∀ (coins coinsB : CoinSet α), ∀ c ∈ safeAdd coins coinsB, c.amount ≠ 0
  | [], _ => fun _ hc => amount_ne_zero_of_mem_removeZeroCoins hc
  | ca :: ta, coinsB =>
    amount_ne_zero_safeAddStep ca ta (safeAdd ta) (amount_ne_zero_safeAdd ta) coinsB

/-! ## A sorted set without zero coins is its amounts -/

theorem exists_mem_of_amt_ne_zero {coins : CoinSet α} {denom : String}
    (h : amt coins denom ≠ 0) : ∃ c ∈ coins, c.denom = denom := by
  by_contra absent
  exact h (amt_eq_zero_of_forall_ne fun c hc same => absent ⟨c, hc, same⟩)

theorem denom_le_of_mem {c d : CoinOf α} {coins : CoinSet α} (h : Sorted (c :: coins))
    (hd : d ∈ c :: coins) : c.denom ≤ d.denom := by
  rcases List.mem_cons.mp hd with rfl | hd
  · exact le_refl _
  · exact le_of_lt ((List.pairwise_cons.mp h).1 d hd)

/-- The amount at a denomination below the first of a sorted set is zero. -/
theorem amt_eq_zero_of_lt_head {c : CoinOf α} {coins : CoinSet α} (h : Sorted (c :: coins))
    {denom : String} (hlt : denom < c.denom) : amt (c :: coins) denom = 0 :=
  amt_eq_zero_of_forall_ne fun _ hd => (lt_of_lt_of_le hlt (denom_le_of_mem h hd)).ne'

/-- Sorted sets without zero coins that hold the same amount of every denomination are equal.
The induction is on the first set; its first coin is met by the first coin of the second,
since neither set holds anything below its own first denomination. -/
theorem eq_of_amt_eq :
    ∀ {coins coinsB : CoinSet α}, Sorted coins → Sorted coinsB →
      (∀ c ∈ coins, c.amount ≠ 0) → (∀ c ∈ coinsB, c.amount ≠ 0) →
      (∀ denom, amt coins denom = amt coinsB denom) → coins = coinsB
  | [], [], _, _, _, _, _ => rfl
  | [], cb :: tb, _, hb, _, nzB, same => by
    have hcb := amt_of_mem hb List.mem_cons_self
    rw [← same, amt_nil] at hcb
    exact absurd hcb.symm (nzB cb List.mem_cons_self)
  | ca :: ta, [], ha, _, nz, _, same => by
    have hca := amt_of_mem ha List.mem_cons_self
    rw [same, amt_nil] at hca
    exact absurd hca.symm (nz ca List.mem_cons_self)
  | ca :: ta, cb :: tb, ha, hb, nz, nzB, same => by
    have hca := amt_of_mem ha List.mem_cons_self
    have hcb := amt_of_mem hb List.mem_cons_self
    rcases lt_trichotomy ca.denom cb.denom with hlt | heq | hgt
    · rw [same, amt_eq_zero_of_lt_head hb hlt] at hca
      exact absurd hca.symm (nz ca List.mem_cons_self)
    · -- the two first coins share a denomination, hence an amount
      have hamount : ca.amount = cb.amount := by rw [← hca, same, heq, hcb]
      have hhead : ca = cb := by
        cases ca
        cases cb
        simp_all
      subst hhead
      have tails : ∀ denom, amt ta denom = amt tb denom := fun denom => by
        have h := same denom
        rw [amt_cons, amt_cons] at h
        exact add_left_cancel h
      rw [eq_of_amt_eq (List.pairwise_cons.mp ha).2 (List.pairwise_cons.mp hb).2
        (fun c hc => nz c (List.mem_cons_of_mem _ hc))
        (fun c hc => nzB c (List.mem_cons_of_mem _ hc)) tails]
    · rw [← same, amt_eq_zero_of_lt_head ha hgt] at hcb
      exact absurd hcb.symm (nzB cb List.mem_cons_self)

theorem sorted_safeSub {coins coinsB : CoinSet α} (sorted : Sorted coins)
    (sortedB : Sorted coinsB) : Sorted (safeSub coins coinsB).1 :=
  sorted_safeAdd sorted (sorted_negative sortedB)

/-- On a sorted set, a negative coin is a denomination of negative amount. -/
theorem isAnyNegative_iff {coins : CoinSet α} (sorted : Sorted coins) :
    isAnyNegative coins = true ↔ ∃ denom, amt coins denom < 0 := by
  simp only [isAnyNegative, List.any_eq_true, decide_eq_true_eq]
  constructor
  · rintro ⟨c, hc, neg⟩
    exact ⟨c.denom, by rwa [amt_of_mem sorted hc]⟩
  · rintro ⟨denom, neg⟩
    obtain ⟨c, hc, rfl⟩ := exists_mem_of_amt_ne_zero neg.ne
    exact ⟨c, hc, by rwa [amt_of_mem sorted hc] at neg⟩

end CoinSet

namespace Coins

/-! ## Valid sets of `Int` coins -/

theorem amt_pos_of_mem_add {coins coinsB : Coins} (nonneg : ∀ c ∈ coins, 0 ≤ c.amount)
    (nonnegB : ∀ c ∈ coinsB, 0 ≤ c.amount) (sorted : CoinSet.Sorted coins)
    (sortedB : CoinSet.Sorted coinsB) {c : Coin} (hc : c ∈ add coins coinsB) : 0 < c.amount := by
  have sum := CoinSet.amt_of_mem (sorted_add sorted sortedB) hc
  rw [amt_add] at sum
  have ha := amt_nonneg nonneg c.denom
  have hb := amt_nonneg nonnegB c.denom
  have nz := CoinSet.amount_ne_zero_safeAdd coins coinsB c hc
  omega

/-- The first coin of a sum of valid sets has the first denomination of one of them: it is at
or below each of them, since each is held in the sum, and it comes from one of the sets. -/
theorem head_denom_add {coins coinsB : Coins} (valid : isValid coins = true)
    (validB : isValid coinsB = true) {h : Coin} {rest : Coins}
    (head : add coins coinsB = h :: rest) :
    (∃ c ∈ coins.head?, c.denom = h.denom) ∨ ∃ c ∈ coinsB.head?, c.denom = h.denom := by
  obtain ⟨pos, sorted⟩ := CoinSet.isValid_spec valid
  obtain ⟨posB, sortedB⟩ := CoinSet.isValid_spec validB
  have sortedSum : CoinSet.Sorted (h :: rest) := head ▸ sorted_add sorted sortedB
  -- a first coin `c` of either set is held in the sum, so the sum's first coin is not above it
  have below : ∀ (c : Coin) (l : Coins), c.amount > 0 → CoinSet.amt l c.denom ≥ 0 →
      CoinSet.amt (h :: rest) c.denom = c.amount + CoinSet.amt l c.denom → h.denom ≤ c.denom := by
    intro c l cpos lnonneg sum
    obtain ⟨d, hd, hdc⟩ := CoinSet.exists_mem_of_amt_ne_zero (by omega : CoinSet.amt (h :: rest) c.denom ≠ 0)
    exact hdc ▸ CoinSet.denom_le_of_mem sortedSum hd
  have mem : h ∈ add coins coinsB := by
    rw [head]
    exact List.mem_cons_self
  obtain ⟨d, hd, hdh⟩ := CoinSet.denom_mem_safeAdd coins coinsB h mem
  rcases List.mem_append.mp hd with hd | hd
  · cases coins with
    | nil => cases hd
    | cons ca ta =>
      refine .inl ⟨ca, rfl, le_antisymm ?_ (below ca coinsB (pos ca List.mem_cons_self)
        (amt_nonneg (fun c hc => le_of_lt (posB c hc)) _) ?_)⟩
      · exact hdh ▸ CoinSet.denom_le_of_mem sorted hd
      · rw [← head, amt_add, CoinSet.amt_of_mem sorted List.mem_cons_self]
  · cases coinsB with
    | nil => cases hd
    | cons cb tb =>
      refine .inr ⟨cb, rfl, le_antisymm ?_ (below cb coins (posB cb List.mem_cons_self)
        (amt_nonneg (fun c hc => le_of_lt (pos c hc)) _) ?_)⟩
      · exact hdh ▸ CoinSet.denom_le_of_mem sortedB hd
      · rw [← head, amt_add, CoinSet.amt_of_mem sortedB List.mem_cons_self, add_comm]

/-- `Add` of valid sets is valid. -/
theorem isValid_add {coins coinsB : Coins} (valid : isValid coins = true)
    (validB : isValid coinsB = true) : isValid (add coins coinsB) = true := by
  obtain ⟨coinsOk, sorted, first⟩ := CoinSet.isValid_iff.mp valid
  obtain ⟨coinsOkB, sortedB, firstB⟩ := CoinSet.isValid_iff.mp validB
  refine CoinSet.isValid_iff.mpr ⟨fun c hc => ⟨?_, ?_⟩, sorted_add sorted sortedB, ?_⟩
  · exact amt_pos_of_mem_add (fun c hc => le_of_lt (coinsOk c hc).1)
      (fun c hc => le_of_lt (coinsOkB c hc).1) sorted sortedB hc
  · -- every denomination of the sum is one of the two sets'
    obtain ⟨d, hd, hdc⟩ := CoinSet.denom_mem_safeAdd coins coinsB c hc
    rw [← hdc]
    rcases List.mem_append.mp hd with hd | hd
    · exact (coinsOk d hd).2
    · exact (coinsOkB d hd).2
  · intro h hh
    cases hsum : add coins coinsB with
    | nil => simp [hsum] at hh
    | cons h' rest =>
      obtain rfl : h' = h := by simpa [hsum] using hh
      rcases head_denom_add valid validB hsum with ⟨c, hc, hden⟩ | ⟨c, hc, hden⟩
      · exact hden ▸ first c hc
      · exact hden ▸ firstB c hc

/-- `SafeSub` reports a negative amount exactly where the second set holds more. -/
theorem safeSub_hasNeg_iff {coins coinsB : Coins} (sorted : CoinSet.Sorted coins)
    (sortedB : CoinSet.Sorted coinsB) :
    (safeSub coins coinsB).2 = true ↔
      ∃ denom, CoinSet.amt coins denom < CoinSet.amt coinsB denom := by
  change CoinSet.isAnyNegative (CoinSet.safeSub coins coinsB).1 = true ↔ _
  rw [CoinSet.isAnyNegative_iff (CoinSet.sorted_safeSub sorted sortedB)]
  simp only [CoinSet.amt_safeSub]
  exact exists_congr fun denom => by omega

/-- Where `SafeSub` reports no negative amount, the second set is below the first in every
denomination, sorted or not. -/
theorem amt_le_of_safeSub {coins coinsB : Coins} (h : (safeSub coins coinsB).2 = false)
    (denom : String) : CoinSet.amt coinsB denom ≤ CoinSet.amt coins denom := by
  have nonneg : ∀ c ∈ (safeSub coins coinsB).1, 0 ≤ c.amount := by
    intro c member
    change CoinSet.isAnyNegative (CoinSet.safeSub coins coinsB).1 = false at h
    simpa [CoinSet.isAnyNegative] using List.any_eq_false.mp h c member
  have diff := amt_nonneg nonneg denom
  change 0 ≤ CoinSet.amt (CoinSet.safeSub coins coinsB).1 denom at diff
  rw [CoinSet.amt_safeSub] at diff
  omega

/-- `Sub` panics exactly when `SafeSub` reports a negative amount. -/
theorem sub_eq_panic_iff (coins coinsB : Coins) :
    sub coins coinsB = throw (.panic "negative coin amount") ↔ (safeSub coins coinsB).2 = true := by
  unfold sub
  rcases safeSub coins coinsB with ⟨diff, hasNeg⟩
  cases hasNeg with
  | true => simp
  | false =>
    simp only [Bool.false_eq_true, if_false, iff_false]
    exact fun h => Fallible.throw_ne_ok h.symm

/-- A successful `Sub` of sorted sets took no denomination below zero. -/
theorem amt_le_of_sub {coins coinsB diff : Coins} (h : sub coins coinsB = .ok diff)
    (sorted : CoinSet.Sorted coins) (sortedB : CoinSet.Sorted coinsB) (denom : String) :
    CoinSet.amt coinsB denom ≤ CoinSet.amt coins denom := by
  refine not_lt.mp fun above => ?_
  have panics := (sub_eq_panic_iff coins coinsB).mpr
    ((safeSub_hasNeg_iff sorted sortedB).mpr ⟨denom, above⟩)
  rw [panics] at h
  exact Fallible.throw_ne_ok h

/-- `Sub` of sorted sets succeeds when the second set is below the first everywhere. -/
theorem sub_exists_ok {coins coinsB : Coins} (sorted : CoinSet.Sorted coins)
    (sortedB : CoinSet.Sorted coinsB)
    (below : ∀ denom, CoinSet.amt coinsB denom ≤ CoinSet.amt coins denom) :
    ∃ diff, sub coins coinsB = .ok diff := by
  have noNeg : (safeSub coins coinsB).2 = false := by
    rw [Bool.eq_false_iff, ne_eq, safeSub_hasNeg_iff sorted sortedB]
    rintro ⟨denom, above⟩
    exact absurd (below denom) (not_le.mpr above)
  refine ⟨(safeSub coins coinsB).1, ?_⟩
  unfold sub
  rcases hsafe : safeSub coins coinsB with ⟨diff, hasNeg⟩
  rw [hsafe] at noNeg
  cases noNeg
  rfl

/-- A valid set holds no negative amount. -/
theorem isAnyNegative_of_isValid {coins : Coins} (valid : isValid coins = true) :
    isAnyNegative coins = false := by
  rw [Bool.eq_false_iff, ne_eq, isAnyNegative,
    CoinSet.isAnyNegative_iff (CoinSet.sorted_of_isValid valid)]
  rintro ⟨denom, negative⟩
  exact absurd (amt_nonneg_of_isValid valid denom) (not_le.mpr negative)

/-- `Add` of nothing leaves a valid set as it is. -/
theorem add_nil {coins : Coins} (valid : isValid coins = true) : add coins [] = coins := by
  obtain ⟨pos, sorted⟩ := CoinSet.isValid_spec valid
  refine CoinSet.eq_of_amt_eq (sorted_add sorted List.Pairwise.nil) sorted
    (CoinSet.amount_ne_zero_safeAdd _ _) (fun c hc => (pos c hc).ne') fun denom => ?_
  rw [amt_add, CoinSet.amt_nil, add_zero]

/-- `Add` to nothing gives a valid set as it is. -/
theorem nil_add {coins : Coins} (valid : isValid coins = true) : add [] coins = coins := by
  obtain ⟨pos, sorted⟩ := CoinSet.isValid_spec valid
  refine CoinSet.eq_of_amt_eq (sorted_add List.Pairwise.nil sorted) sorted
    (CoinSet.amount_ne_zero_safeAdd _ _) (fun c hc => (pos c hc).ne') fun denom => ?_
  rw [amt_add, CoinSet.amt_nil, zero_add]

/-- Taking back from a valid set what was added to it gives the set. -/
theorem sub_add_self {coins coinsB : Coins} (valid : isValid coins = true)
    (validB : isValid coinsB = true) : sub (add coins coinsB) coinsB = .ok coins := by
  obtain ⟨pos, sorted⟩ := CoinSet.isValid_spec valid
  have sortedB := CoinSet.sorted_of_isValid validB
  have sortedSum := sorted_add sorted sortedB
  obtain ⟨diff, hdiff⟩ := sub_exists_ok sortedSum sortedB fun denom => by
    have held := amt_nonneg_of_isValid valid denom
    rw [amt_add]
    omega
  -- the difference holds every amount of `coins` and no zero coin, so it is `coins`
  have same : diff = coins := by
    refine CoinSet.eq_of_amt_eq (sorted_sub hdiff sortedSum sortedB) sorted ?_
      (fun c hc => (pos c hc).ne') fun denom => ?_
    · rw [sub_eq_ok hdiff]
      exact CoinSet.amount_ne_zero_safeAdd _ _
    · rw [amt_sub hdiff, amt_add, add_sub_cancel_right]
  rw [hdiff, same]

/-- Taking from valid coins of valid denominations a valid set of valid denominations that it
covers in every denomination: `SafeSub` reports no negative amount, and the difference is again
valid coins of valid denominations. Without the second condition the difference may lose the
first coin and start with a denomination that only passed the lower-case check. -/
theorem isValid_safeSub {coins coinsB : Coins} (valid : isValid coins = true)
    (validB : isValid coinsB = true) (denoms : ∀ c ∈ coins, validateDenom c.denom = true)
    (denomsB : ∀ c ∈ coinsB, validateDenom c.denom = true)
    (below : ∀ denom, CoinSet.amt coinsB denom ≤ CoinSet.amt coins denom) :
    (safeSub coins coinsB).2 = false ∧ isValid (safeSub coins coinsB).1 = true ∧
      ∀ c ∈ (safeSub coins coinsB).1, validateDenom c.denom = true := by
  have sorted := CoinSet.sorted_of_isValid valid
  have sortedB := CoinSet.sorted_of_isValid validB
  have noNeg : (safeSub coins coinsB).2 = false := by
    rw [Bool.eq_false_iff, ne_eq, safeSub_hasNeg_iff sorted sortedB]
    rintro ⟨denom, above⟩
    exact absurd (below denom) (not_le.mpr above)
  -- every denomination of the difference is one of the two sets'
  have denomsDiff : ∀ c ∈ (safeSub coins coinsB).1, validateDenom c.denom = true := by
    intro c member
    obtain ⟨d, hd, same⟩ := CoinSet.denom_mem_safeAdd coins (CoinSet.negative coinsB) c member
    rcases List.mem_append.mp hd with hd | hd
    · exact same ▸ denoms d hd
    · obtain ⟨b, hb, rfl⟩ := List.mem_map.mp hd
      exact same ▸ denomsB b hb
  -- and its amounts are neither zero nor negative
  have pos : ∀ c ∈ (safeSub coins coinsB).1, 0 < c.amount := by
    intro c member
    have nonzero := CoinSet.amount_ne_zero_safeAdd coins (CoinSet.negative coinsB) c member
    have nonneg : ¬ c.amount < 0 := by
      change CoinSet.isAnyNegative (CoinSet.safeSub coins coinsB).1 = false at noNeg
      simpa [CoinSet.isAnyNegative] using List.any_eq_false.mp noNeg c member
    omega
  refine ⟨noNeg, CoinSet.isValid_iff.mpr ⟨fun c hc => ⟨pos c hc, ?_⟩, ?_, fun c hc => ?_⟩,
    denomsDiff⟩
  · exact CoinSet.toLower_of_validateDenom (denomsDiff c hc)
  · exact CoinSet.sorted_safeSub sorted sortedB
  · exact denomsDiff c (List.mem_of_mem_head? hc)

/-- One coin of a valid denomination and a positive amount is a valid set. -/
theorem isValid_singleton {denom : String} {amount : Int} (valid : validateDenom denom = true)
    (pos : 0 < amount) : isValid [(⟨denom, amount⟩ : Coin)] = true := by
  simp only [isValid, CoinSet.isValid, CoinSet.isValid.isValidAfter, valid, Bool.true_and,
    Bool.and_true, decide_eq_true_eq]
  exact pos

/-- `NewCoins` of one coin of a valid denomination and a non-negative amount: the coin, or
nothing for a zero amount. -/
theorem newCoins_singleton {denom : String} {amount : Int} (valid : validateDenom denom = true)
    (nonneg : 0 ≤ amount) :
    newCoins [⟨denom, amount⟩] = .ok (CoinSet.nonZero ⟨denom, amount⟩) := by
  unfold newCoins CoinSet.nonZero
  by_cases zero : amount = 0
  · subst zero
    rfl
  · have kept : CoinSet.removeZeroCoins [(⟨denom, amount⟩ : Coin)] = [⟨denom, amount⟩] := by
      simp [CoinSet.removeZeroCoins, zero]
    have single := isValid_singleton valid (lt_of_le_of_ne nonneg (Ne.symm zero))
    simp only [kept, CoinSet.sort_of_sorted (List.pairwise_singleton _ _), single, zero]
    rfl

/-- What `NewCoins` returns is valid. -/
theorem isValid_newCoins {coins result : Coins} (h : newCoins coins = .ok result) :
    isValid result = true := by
  unfold newCoins at h
  dsimp only at h
  split at h
  · cases Fallible.pure_eq_ok.mp h
    rfl
  · split at h
    · exact absurd h Fallible.throw_ne_ok
    · split at h
      · exact absurd h Fallible.throw_ne_ok
      · next valid =>
        cases Fallible.pure_eq_ok.mp h
        simpa using valid

/-- Rewriting the coins of a set in place, each at its own denomination and to no more than
it held, leaves every denomination at no more than it held. -/
theorem amt_map_le (F : Coin → Coin) :
    ∀ {coins : Coins}, (∀ c ∈ coins, (F c).denom = c.denom ∧ (F c).amount ≤ c.amount) →
      ∀ denom, CoinSet.amt (coins.map F) denom ≤ CoinSet.amt coins denom
  | [], _, denom => le_refl _
  | c :: rest, hF, denom => by
    obtain ⟨same, le⟩ := hF c List.mem_cons_self
    have hrest := amt_map_le F (fun c' hc' => hF c' (List.mem_cons_of_mem c hc')) denom
    rw [List.map_cons, CoinSet.amt_cons, CoinSet.amt_cons, same]
    split <;> omega

end Coins

end Pocc
