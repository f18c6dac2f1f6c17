import Pocc.Types.DecCoin

/-!
# Truncating decimal coins

`DecCoins.TruncateDecimal` (types/dec_coin.go) splits every coin into its integral part, a
`Coin` made by `NewCoin`, and its change, and adds the parts that are not zero into two sets.
A reward withdrawal pays the integral parts and leaves the change to the community pool.

The loop adds one-coin sets with the merge of `Add`. Each part comes after every part added
before it, so the merge only appends (`CoinSet.safeAdd_singleton_of_lt`), and on a sorted set
of non-negative coins whose every denomination passes `validateDenom` the two results are the
integral parts and the changes in order, without the zeros (`DecCoins.truncateDecimal_eq`).
Both are then valid, every change lies strictly between zero and one, and the two halves add
back to the set, denomination by denomination (`dec_coins_truncate_split`).

`NewCoin` panics on a denomination that fails `validateDenom`, so the loop succeeds exactly
when every denomination passes it (`truncateDecimal_exists_ok_iff`). `DecCoins.IsValid` checks
only the first denomination, and a valid set whose second coin is `b` makes `TruncateDecimal`
panic (`truncateDecimal_panics_on_unchecked_denom`).

Not modelled: the panic of `NewIntFromBigInt` on an integral part wider than 255 bits.
-/

namespace Pocc

/-! ## The model -/

namespace DecCoin

/-- `DecCoin.TruncateDecimal`: the integral part as a `Coin`, through `NewCoin`, and the
change, which may be zero. -/
def truncateDecimal (coin : DecCoin) : Except SdkError (Coin × DecCoin) := do
  let truncated := coin.amount.truncateInt
  let change := coin.amount - Dec.ofInt truncated
  let truncatedCoin ← Coins.newCoin coin.denom truncated
  pure (truncatedCoin, ⟨coin.denom, change⟩)

/-- The integral part of a coin, as `TruncateDecimal` computes it. -/
def integralPart (coin : DecCoin) : Coin := ⟨coin.denom, coin.amount.truncateInt⟩

/-- The change of a coin: its amount less the integral part. -/
def changePart (coin : DecCoin) : DecCoin :=
  ⟨coin.denom, coin.amount - Dec.ofInt coin.amount.truncateInt⟩

end DecCoin

namespace DecCoins

/-- One round of the loop of `DecCoins.TruncateDecimal`: split the coin, and add each part that
is not zero to its set. -/
def truncateDecimalStep : Coins × DecCoins → DecCoin → Except SdkError (Coins × DecCoins)
  | (truncatedCoins, changeCoins), coin => do
    let (truncated, change) ← DecCoin.truncateDecimal coin
    let truncatedCoins :=
      if truncated.amount ≠ 0 then Coins.add truncatedCoins [truncated] else truncatedCoins
    let changeCoins := if ¬ change.amount.isZero then add changeCoins [change] else changeCoins
    pure (truncatedCoins, changeCoins)

/-- `DecCoins.TruncateDecimal`: the integral parts and the changes that are not zero. -/
def truncateDecimal (coins : DecCoins) : Except SdkError (Coins × DecCoins) :=
  coins.foldlM truncateDecimalStep ([], [])

end DecCoins

/-! ## One coin -/

namespace Dec

theorem ofInt_add (a b : Int) : ofInt (a + b) = ofInt a + ofInt b :=
  ext_int (by simp [ofInt, Int.add_mul])

theorem ofInt_zero : ofInt 0 = 0 := ext_int (by simp [ofInt])

/-- The integral part of a non-negative decimal is the floor of its integer by `10 ^ 18`. -/
theorem truncateInt_of_nonneg {d : Dec} (nonneg : 0 ≤ d) : d.truncateInt = d.int / precisionReuse :=
  Int.tdiv_eq_ediv_of_nonneg nonneg

end Dec

namespace DecCoin

@[simp] theorem integralPart_denom (coin : DecCoin) : (integralPart coin).denom = coin.denom := rfl

@[simp] theorem changePart_denom (coin : DecCoin) : (changePart coin).denom = coin.denom := rfl

/-- A coin is its integral part and its change. -/
theorem ofInt_integralPart_add_changePart (coin : DecCoin) :
    Dec.ofInt (integralPart coin).amount + (changePart coin).amount = coin.amount :=
  add_sub_cancel _ _

theorem integralPart_nonneg {coin : DecCoin} (nonneg : 0 ≤ coin.amount) :
    0 ≤ (integralPart coin).amount := by
  rw [integralPart, Dec.truncateInt_of_nonneg nonneg]
  exact Int.ediv_nonneg nonneg (by decide)

/-- The change of a non-negative coin is the remainder of its integer by `10 ^ 18`. -/
theorem changePart_int {coin : DecCoin} (nonneg : 0 ≤ coin.amount) :
    (changePart coin).amount.int = coin.amount.int % precisionReuse := by
  rw [changePart, Dec.truncateInt_of_nonneg nonneg, Dec.sub_int, Int.emod_def]
  simp only [Dec.ofInt, Int.mul_comm]

/-- The change of a non-negative coin lies in `[0, 1)`. -/
theorem changePart_nonneg_lt_one {coin : DecCoin} (nonneg : 0 ≤ coin.amount) :
    0 ≤ (changePart coin).amount ∧ (changePart coin).amount < Dec.oneDec := by
  have positive : (0 : Int) < precisionReuse := by decide
  rw [Dec.le_iff, Dec.lt_iff, changePart_int nonneg, Dec.oneDec]
  exact ⟨Int.emod_nonneg _ positive.ne', Int.emod_lt_of_pos _ positive⟩

/-- `TruncateDecimal` of a coin of a valid denomination and a non-negative amount: its integral
part and its change. -/
theorem truncateDecimal_eq {coin : DecCoin} (valid : validateDenom coin.denom = true)
    (nonneg : 0 ≤ coin.amount) :
    truncateDecimal coin = .ok (integralPart coin, changePart coin) := by
  have truncated : ¬ coin.amount.truncateInt < 0 := not_lt.mpr (integralPart_nonneg nonneg)
  simp [truncateDecimal, Coins.newCoin, valid, truncated, integralPart, changePart, pure,
    Except.pure, bind, Except.bind]

/-- `TruncateDecimal` of a coin whose denomination fails `validateDenom` panics in `NewCoin`. -/
theorem truncateDecimal_eq_panic {denom : String} {amount : Dec}
    (invalid : validateDenom denom = false) :
    truncateDecimal ⟨denom, amount⟩ = throw (.panic s!"invalid denom: {denom}") := by
  simp [truncateDecimal, Coins.newCoin, invalid, bind, Except.bind, throw, throwThe,
    MonadExceptOf.throw]

/-- `TruncateDecimal` of a coin succeeds exactly when `NewCoin` accepts its integral part. -/
theorem truncateDecimal_exists_ok_iff (coin : DecCoin) :
    (∃ parts, truncateDecimal coin = .ok parts) ↔
      validateDenom coin.denom = true ∧ 0 ≤ coin.amount.truncateInt := by
  unfold truncateDecimal Coins.newCoin
  by_cases valid : validateDenom coin.denom = true
  · by_cases negative : coin.amount.truncateInt < 0
    · simp [valid, negative, bind, Except.bind, throw, throwThe, MonadExceptOf.throw]
    · simp [valid, negative, bind, Except.bind, pure, Except.pure]
      omega
  · simp [valid, bind, Except.bind, throw, throwThe, MonadExceptOf.throw]

end DecCoin

/-! ## The loop -/

namespace CoinSet

variable {α : Type} [AddCommGroup α] [LinearOrder α]

theorem removeZeroCoins_cons (c : CoinOf α) (coins : CoinSet α) :
    removeZeroCoins (c :: coins) = nonZero c ++ removeZeroCoins coins := by
  by_cases zero : c.amount = 0 <;> simp [removeZeroCoins, nonZero, zero]

/-- Adding one coin above every denomination of a set without zero coins appends it. -/
theorem safeAdd_singleton_of_lt {c : CoinOf α} (nonzero : c.amount ≠ 0) :
    ∀ {coins : CoinSet α}, (∀ a ∈ coins, a.amount ≠ 0) → (∀ a ∈ coins, a.denom < c.denom) →
      safeAdd coins [c] = coins ++ [c]
  | [], _, _ => by simp [safeAdd, removeZeroCoins, nonzero]
  | a :: rest, nonzeros, below => by
    have before : compare a.denom c.denom = .lt :=
      compare_lt_iff_lt.mpr (below a List.mem_cons_self)
    have restAdded := safeAdd_singleton_of_lt nonzero
      (fun b hb => nonzeros b (List.mem_cons_of_mem a hb))
      (fun b hb => below b (List.mem_cons_of_mem a hb))
    simp only [safeAdd, safeAddStep, before, nonZero, nonzeros a List.mem_cons_self, if_false,
      restAdded, List.nil_append, List.cons_append]

/-- A sorted set of non-negative coins whose every denomination passes `validateDenom` is valid
once its zero coins are dropped. -/
theorem isValid_removeZeroCoins {coins : CoinSet α} (sorted : Sorted coins)
    (denoms : ∀ c ∈ coins, validateDenom c.denom = true) (nonneg : ∀ c ∈ coins, 0 ≤ c.amount) :
    isValid (removeZeroCoins coins) = true := by
  refine isValid_iff.mpr ⟨fun c kept => ⟨?_, ?_⟩, sorted_removeZeroCoins sorted, ?_⟩
  · have nonzero : c.amount ≠ 0 := by simpa [removeZeroCoins] using (List.mem_filter.mp kept).2
    exact lt_of_le_of_ne (nonneg c (mem_removeZeroCoins kept)) nonzero.symm
  · exact toLower_of_validateDenom (denoms c (mem_removeZeroCoins kept))
  · intro c first
    exact denoms c (mem_removeZeroCoins (List.mem_of_mem_head? first))

end CoinSet

namespace DecCoins

open DecCoin

/-- One round of the loop on a coin above both sets: each part that is not zero is appended. -/
theorem truncateDecimalStep_eq {coin : DecCoin} {t : Coins} {r : DecCoins}
    (valid : validateDenom coin.denom = true) (nonneg : 0 ≤ coin.amount)
    (tNonzero : ∀ a ∈ t, a.amount ≠ 0) (rNonzero : ∀ a ∈ r, a.amount ≠ 0)
    (tBelow : ∀ a ∈ t, a.denom < coin.denom) (rBelow : ∀ a ∈ r, a.denom < coin.denom) :
    truncateDecimalStep (t, r) coin =
      .ok (t ++ CoinSet.nonZero (integralPart coin), r ++ CoinSet.nonZero (changePart coin)) := by
  have integral : (if (integralPart coin).amount ≠ 0 then Coins.add t [integralPart coin] else t) =
      t ++ CoinSet.nonZero (integralPart coin) := by
    unfold CoinSet.nonZero
    by_cases zero : (integralPart coin).amount = 0
    · simp [zero]
    · simp only [ne_eq, zero, not_false_eq_true, if_true, if_false]
      exact CoinSet.safeAdd_singleton_of_lt zero tNonzero tBelow
  have change : (if ¬ (changePart coin).amount.isZero then add r [changePart coin] else r) =
      r ++ CoinSet.nonZero (changePart coin) := by
    unfold CoinSet.nonZero Dec.isZero
    by_cases zero : (changePart coin).amount = 0
    · simp [zero]
    · have notZero : ¬ (changePart coin).amount.int = 0 := fun h => zero (Dec.ext_int h)
      simp only [notZero, not_false_eq_true, if_true, zero, if_false]
      exact CoinSet.safeAdd_singleton_of_lt zero rNonzero rBelow
  rw [truncateDecimalStep, DecCoin.truncateDecimal_eq valid nonneg]
  simp only [bind, Except.bind, pure, Except.pure]
  rw [integral, change]

/-- The loop from two sets below every coin left: the sets with the parts of those coins that
are not zero appended in order. The induction is on the coins left; the sets grow by one round
of parts each step, and sortedness keeps every later coin above them. -/
theorem foldlM_truncateDecimalStep :
    ∀ {coins : DecCoins} {t : Coins} {r : DecCoins}, CoinSet.Sorted coins →
      (∀ c ∈ coins, validateDenom c.denom = true) → (∀ c ∈ coins, 0 ≤ c.amount) →
      (∀ a ∈ t, a.amount ≠ 0) → (∀ a ∈ r, a.amount ≠ 0) →
      (∀ a ∈ t, ∀ c ∈ coins, a.denom < c.denom) → (∀ a ∈ r, ∀ c ∈ coins, a.denom < c.denom) →
      coins.foldlM truncateDecimalStep (t, r) =
        .ok (t ++ CoinSet.removeZeroCoins (coins.map integralPart),
          r ++ CoinSet.removeZeroCoins (coins.map changePart))
  | [], t, r, _, _, _, _, _, _, _ => by simp [pure, Except.pure, CoinSet.removeZeroCoins]
  | c :: rest, t, r, sorted, denoms, nonneg, tNonzero, rNonzero, tBelow, rBelow => by
    have inRest {p : DecCoin → Prop} (h : ∀ d ∈ c :: rest, p d) : ∀ d ∈ rest, p d :=
      fun d hd => h d (List.mem_cons_of_mem c hd)
    have above : ∀ d ∈ rest, c.denom < d.denom := (List.pairwise_cons.mp sorted).1
    -- the parts of `c` are not zero where kept, and below every later coin
    have appended {β : Type} [AddCommGroup β] [LinearOrder β] {s : CoinSet β} {p : CoinOf β}
        (same : p.denom = c.denom) (nonzero : ∀ a ∈ s, a.amount ≠ 0)
        (below : ∀ a ∈ s, ∀ d ∈ c :: rest, a.denom < d.denom) :
        (∀ a ∈ s ++ CoinSet.nonZero p, a.amount ≠ 0) ∧
          ∀ a ∈ s ++ CoinSet.nonZero p, ∀ d ∈ rest, a.denom < d.denom := by
      constructor
      · intro a member
        rcases List.mem_append.mp member with old | new
        · exact nonzero a old
        · exact CoinSet.amount_ne_zero_of_mem_nonZero new
      · intro a member d later
        rcases List.mem_append.mp member with old | new
        · exact below a old d (List.mem_cons_of_mem c later)
        · rw [CoinSet.mem_nonZero new, same]
          exact above d later
    have step := truncateDecimalStep_eq (denoms c List.mem_cons_self) (nonneg c List.mem_cons_self)
      tNonzero rNonzero (fun a ha => tBelow a ha c List.mem_cons_self)
      (fun a ha => rBelow a ha c List.mem_cons_self)
    obtain ⟨tNonzero', tBelow'⟩ := appended (integralPart_denom c) tNonzero tBelow
    obtain ⟨rNonzero', rBelow'⟩ := appended (changePart_denom c) rNonzero rBelow
    rw [List.foldlM_cons, step]
    refine Fallible.bind_eq_ok.mpr ⟨_, rfl, ?_⟩
    rw [foldlM_truncateDecimalStep (sorted.sublist (List.sublist_cons_self c rest))
      (inRest denoms) (inRest nonneg) tNonzero' rNonzero' tBelow' rBelow']
    simp only [List.map_cons, CoinSet.removeZeroCoins_cons, List.append_assoc]

/-- `TruncateDecimal` of a sorted set of non-negative coins whose every denomination passes
`validateDenom`: the integral parts and the changes, in order, without the zeros. -/
theorem truncateDecimal_eq {coins : DecCoins} (sorted : CoinSet.Sorted coins)
    (denoms : ∀ c ∈ coins, validateDenom c.denom = true) (nonneg : ∀ c ∈ coins, 0 ≤ c.amount) :
    truncateDecimal coins = .ok (CoinSet.removeZeroCoins (coins.map integralPart),
      CoinSet.removeZeroCoins (coins.map changePart)) :=
  foldlM_truncateDecimalStep sorted denoms nonneg (by simp) (by simp) (by simp) (by simp)

/-- A round of the loop succeeds exactly when `TruncateDecimal` of its coin does. -/
theorem truncateDecimalStep_exists_ok_iff (acc : Coins × DecCoins) (coin : DecCoin) :
    (∃ acc', truncateDecimalStep acc coin = .ok acc') ↔
      validateDenom coin.denom = true ∧ 0 ≤ coin.amount.truncateInt := by
  rw [← DecCoin.truncateDecimal_exists_ok_iff]
  obtain ⟨t, r⟩ := acc
  cases split : DecCoin.truncateDecimal coin with
  | error e => simp [truncateDecimalStep, split, bind, Except.bind]
  | ok parts => simp [truncateDecimalStep, split, bind, Except.bind, pure, Except.pure]

/-- `TruncateDecimal` of a set of non-negative coins succeeds exactly when every denomination
passes `validateDenom`. -/
theorem truncateDecimal_exists_ok_iff {coins : DecCoins} (nonneg : ∀ c ∈ coins, 0 ≤ c.amount) :
    (∃ parts, truncateDecimal coins = .ok parts) ↔ ∀ c ∈ coins, validateDenom c.denom = true := by
  rw [truncateDecimal,
    Fallible.foldlM_exists_ok_iff _ _ truncateDecimalStep_exists_ok_iff coins ([], [])]
  exact forall₂_congr fun c member => and_iff_left (integralPart_nonneg (nonneg c member))

/-- Integral parts and changes add back to the set, denomination by denomination. -/
theorem amt_integralParts_add_changeParts (coins : DecCoins) (denom : String) :
    Dec.ofInt (CoinSet.amt (coins.map integralPart) denom) +
      CoinSet.amt (coins.map changePart) denom = CoinSet.amt coins denom := by
  induction coins with
  | nil => simp [Dec.ofInt_zero]
  | cons c rest ih =>
    simp only [List.map_cons, CoinSet.amt_cons, integralPart_denom, changePart_denom]
    by_cases same : c.denom = denom
    · simp only [same, if_true, Dec.ofInt_add]
      rw [add_add_add_comm, ofInt_integralPart_add_changePart, ih]
    · simp only [same, if_false, zero_add]
      exact ih

/-! ## The split -/

section Split

variable {coins : DecCoins} (valid : isValid coins = true)
  (denoms : ∀ c ∈ coins, validateDenom c.denom = true)

include valid denoms

theorem isValid_integralParts :
    Coins.isValid (CoinSet.removeZeroCoins (coins.map integralPart)) = true := by
  obtain ⟨positive, sorted⟩ := CoinSet.isValid_spec valid
  exact CoinSet.isValid_removeZeroCoins (List.pairwise_map.mpr sorted)
    (List.forall_mem_map.mpr denoms)
    (List.forall_mem_map.mpr fun c member => integralPart_nonneg (le_of_lt (positive c member)))

theorem isValid_changeParts : isValid (CoinSet.removeZeroCoins (coins.map changePart)) = true := by
  obtain ⟨positive, sorted⟩ := CoinSet.isValid_spec valid
  exact CoinSet.isValid_removeZeroCoins (List.pairwise_map.mpr sorted)
    (List.forall_mem_map.mpr denoms)
    (List.forall_mem_map.mpr fun c member =>
      (changePart_nonneg_lt_one (le_of_lt (positive c member))).1)

omit denoms in
/-- Every change kept lies strictly between zero and one. -/
theorem changeParts_pos_lt_one :
    ∀ c ∈ CoinSet.removeZeroCoins (coins.map changePart), 0 < c.amount ∧ c.amount < Dec.oneDec := by
  intro c kept
  have nonzero : c.amount ≠ 0 := by
    simpa [CoinSet.removeZeroCoins] using (List.mem_filter.mp kept).2
  obtain ⟨coin, member, rfl⟩ := List.mem_map.mp (CoinSet.mem_removeZeroCoins kept)
  obtain ⟨nonneg, below⟩ :=
    changePart_nonneg_lt_one (le_of_lt ((CoinSet.isValid_spec valid).1 coin member))
  exact ⟨lt_of_le_of_ne nonneg nonzero.symm, below⟩

end Split

/-- `Add` and `SafeSub` of valid sets add and subtract every denomination. -/
theorem amountOf_add_safeSub {coinsA coinsB : DecCoins} (validA : isValid coinsA = true)
    (validB : isValid coinsB = true) (denom : String) :
    amountOf (add coinsA coinsB) denom = amountOf coinsA denom + amountOf coinsB denom ∧
      amountOf (safeSub coinsA coinsB).1 denom = amountOf coinsA denom - amountOf coinsB denom := by
  have sortedA := CoinSet.sorted_of_isValid validA
  have sortedB := CoinSet.sorted_of_isValid validB
  constructor
  · rw [amountOf, amountOf, amountOf, add, safeAdd,
      CoinSet.amountOf_eq_amt (CoinSet.sorted_safeAdd sortedA sortedB),
      CoinSet.amountOf_eq_amt sortedA, CoinSet.amountOf_eq_amt sortedB, CoinSet.amt_safeAdd]
  · rw [amountOf, amountOf, amountOf, safeSub,
      CoinSet.amountOf_eq_amt (CoinSet.sorted_safeSub sortedA sortedB),
      CoinSet.amountOf_eq_amt sortedA, CoinSet.amountOf_eq_amt sortedB, CoinSet.amt_safeSub]

/-- The split of `DecCoins.TruncateDecimal` on a valid set whose every denomination passes
`validateDenom`: the integral parts form a valid `Coins`, the changes a valid `DecCoins` of
amounts strictly between zero and one, and the two add back to the set in every denomination;
and `Add` and `SafeSub` of valid sets add and subtract every denomination. -/
theorem dec_coins_truncate_split {coins : DecCoins} (valid : isValid coins = true)
    (denoms : ∀ c ∈ coins, validateDenom c.denom = true) :
    (∃ truncated change, truncateDecimal coins = .ok (truncated, change) ∧
      Coins.isValid truncated = true ∧ isValid change = true ∧
      (∀ c ∈ change, 0 < c.amount ∧ c.amount < Dec.oneDec) ∧
      ∀ denom, amountOf (ofCoins truncated) denom + amountOf change denom = amountOf coins denom) ∧
    ∀ coinsA coinsB : DecCoins, isValid coinsA = true → isValid coinsB = true → ∀ denom,
      amountOf (add coinsA coinsB) denom = amountOf coinsA denom + amountOf coinsB denom ∧
        amountOf (safeSub coinsA coinsB).1 denom =
          amountOf coinsA denom - amountOf coinsB denom := by
  obtain ⟨positive, sorted⟩ := CoinSet.isValid_spec valid
  have truncatedValid := isValid_integralParts valid denoms
  have changeValid := isValid_changeParts valid denoms
  refine ⟨⟨_, _, truncateDecimal_eq sorted denoms fun c member => le_of_lt (positive c member),
    truncatedValid, changeValid, changeParts_pos_lt_one valid, fun denom => ?_⟩,
    fun coinsA coinsB validA validB => amountOf_add_safeSub validA validB⟩
  -- on the sorted sets `AmountOf` is the keyed sum, and the parts add back coin by coin
  rw [amountOf, amountOf, amountOf,
    CoinSet.amountOf_eq_amt (sorted_ofCoins (CoinSet.sorted_of_isValid truncatedValid)),
    CoinSet.amountOf_eq_amt (CoinSet.sorted_of_isValid changeValid), CoinSet.amountOf_eq_amt sorted,
    amt_ofCoins, CoinSet.amt_removeZeroCoins, CoinSet.amt_removeZeroCoins]
  exact amt_integralParts_add_changeParts coins denom

/-- One and a half `atom` splits into one `atom` and half an `atom` of change. -/
theorem truncate_split_of_one_and_a_half_atom :
    isValid [⟨"atom", ⟨1500000000000000000⟩⟩] = true ∧
      (∀ c ∈ ([⟨"atom", ⟨1500000000000000000⟩⟩] : DecCoins), validateDenom c.denom = true) ∧
      ((∃ truncated change,
        truncateDecimal [⟨"atom", ⟨1500000000000000000⟩⟩] = .ok (truncated, change) ∧
        Coins.isValid truncated = true ∧ isValid change = true ∧
        (∀ c ∈ change, 0 < c.amount ∧ c.amount < Dec.oneDec) ∧
        ∀ denom, amountOf (ofCoins truncated) denom + amountOf change denom =
          amountOf [⟨"atom", ⟨1500000000000000000⟩⟩] denom) ∧
      ∀ coinsA coinsB : DecCoins, isValid coinsA = true → isValid coinsB = true → ∀ denom,
        amountOf (add coinsA coinsB) denom = amountOf coinsA denom + amountOf coinsB denom ∧
          amountOf (safeSub coinsA coinsB).1 denom =
            amountOf coinsA denom - amountOf coinsB denom) :=
  ⟨by decide, by decide, dec_coins_truncate_split (by decide) (by decide)⟩

/-- A valid set whose second denomination is too short for `validateDenom`. -/
def uncheckedDenomCoins : DecCoins :=
  [⟨"atom", ⟨1500000000000000000⟩⟩, ⟨"b", ⟨2500000000000000000⟩⟩]

/-- `DecCoins.IsValid` accepts a second coin `b`, which `NewCoin` rejects: `TruncateDecimal`
panics on it. -/
theorem truncateDecimal_panics_on_unchecked_denom :
    isValid uncheckedDenomCoins = true ∧
      truncateDecimal uncheckedDenomCoins = throw (.panic "invalid denom: b") := by
  refine ⟨by decide +kernel, ?_⟩
  have first := @truncateDecimalStep_eq ⟨"atom", ⟨1500000000000000000⟩⟩ [] [] (by decide)
    (by decide) (by simp) (by simp) (by simp) (by simp)
  have second : DecCoin.truncateDecimal ⟨"b", ⟨2500000000000000000⟩⟩ =
      throw (.panic "invalid denom: b") :=
    truncateDecimal_eq_panic (by decide)
  rw [truncateDecimal, uncheckedDenomCoins, List.foldlM_cons, first]
  simp [truncateDecimalStep, second, bind, Except.bind, throw, throwThe, MonadExceptOf.throw]

end DecCoins

end Pocc
