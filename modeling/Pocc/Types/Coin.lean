import Pocc.Lib.KeyedSum
import Pocc.Types.Error
import Pocc.Lib.Fallible
import Pocc.Types.Dec
import Mathlib

/-!
# Coins and decimal coins

`sdk.Coins` (types/coin.go) and `sdk.DecCoins` (types/dec_coin.go) are lists of a denomination
and an amount, an `Int` for the one and a `Dec` for the other. Their operations are written
twice in the source, line for line the same; here each is one definition over `CoinSet α`,
and the source's two functions are that definition at `Int` and at `Dec`.

The amounts a coin set holds are read in two ways: `amountOf` is the source's `AmountOf`, a
binary search that is right only on a set sorted by denomination; `amt` is the keyed sum of
`KeyedSum`, which is defined on every list. The laws of the arithmetic (`amt_safeAdd`,
`amt_negative`, `amt_safeSub`) hold for every input; `amountOf_eq_amt` carries them to
`AmountOf` on sorted sets, and `sorted_safeAdd` says `Add` keeps a set sorted.

Not modelled: the panic of `AmountOf` on a malformed denomination (every call below passes the
denomination of a coin it already holds), and `strings.ToLower` beyond ASCII.
-/

set_option linter.unusedSectionVars false

namespace Pocc

/-- A denomination with an amount: `sdk.Coin` at `Int`, `sdk.DecCoin` at `Dec`. -/
structure CoinOf (α : Type) where
  denom : String
  amount : α
  deriving DecidableEq, Repr

/-- `sdk.Coin`. -/
abbrev Coin := CoinOf Int
/-- `sdk.DecCoin`. -/
abbrev DecCoin := CoinOf Dec

/-- A list of coins: `sdk.Coins` at `Int`, `sdk.DecCoins` at `Dec`. -/
abbrev CoinSet (α : Type) := List (CoinOf α)

/-- `sdk.Coins`. -/
abbrev Coins := CoinSet Int
/-- `sdk.DecCoins`. -/
abbrev DecCoins := CoinSet Dec

/-- `validateDenom`: the denomination matches `^[a-z][a-z0-9]{2,15}$`. -/
def validateDenom (denom : String) : Bool :=
  match denom.toList with
  | [] => false
  | c :: rest =>
    c.isLower && 3 ≤ denom.length && denom.length ≤ 16 &&
      rest.all fun c => c.isLower || c.isDigit

namespace CoinSet

variable {α : Type} [AddCommGroup α] [LinearOrder α]

/-- The amount held under `denom`, as a keyed sum. -/
def amt (coins : CoinSet α) (denom : String) : α :=
  KeyedSum.eval CoinOf.denom CoinOf.amount coins denom

/-- A set sorted strictly by denomination. -/
def Sorted (coins : CoinSet α) : Prop :=
  coins.Pairwise fun a b => a.denom < b.denom

/-- `removeZeroCoins`. -/
def removeZeroCoins (coins : CoinSet α) : CoinSet α :=
  coins.filter fun c => !decide (c.amount = 0)

/-- The coin as a one-element list, or nothing when its amount is zero: the
`if !coin.IsZero() { sum = append(sum, coin) }` steps of `safeAdd`. -/
def nonZero (c : CoinOf α) : CoinSet α :=
  if c.amount = 0 then [] else [c]

/-- One pass of the `safeAdd` loop once the first set is at its coin `ca` with tail `ta`:
walk the second set; `rest` continues the loop on `ta`. -/
def safeAddStep (ca : CoinOf α) (ta : CoinSet α) (rest : CoinSet α → CoinSet α) :
    CoinSet α → CoinSet α
  | [] => removeZeroCoins (ca :: ta)
  | cb :: tb =>
    match compare ca.denom cb.denom with
    | .lt => nonZero ca ++ rest (cb :: tb)
    | .eq => nonZero ⟨ca.denom, ca.amount + cb.amount⟩ ++ rest tb
    | .gt => nonZero cb ++ safeAddStep ca ta rest tb

/-- `safeAdd`: merge two sets by denomination, adding the amounts of a common denomination and
dropping zero amounts. The source's loop advances an index into each set; here the first set
is recursed on and `safeAddStep` walks the second. -/
def safeAdd : CoinSet α → CoinSet α → CoinSet α
  | [], coinsB => removeZeroCoins coinsB
  | ca :: ta, coinsB => safeAddStep ca ta (safeAdd ta) coinsB

/-- `negative`. -/
def negative (coins : CoinSet α) : CoinSet α :=
  coins.map fun c => ⟨c.denom, -c.amount⟩

/-- `IsAnyNegative`. -/
def isAnyNegative (coins : CoinSet α) : Bool :=
  coins.any fun c => decide (c.amount < 0)

/-- `SafeSub`: the difference, and whether some amount of it is negative. -/
def safeSub (coins coinsB : CoinSet α) : CoinSet α × Bool :=
  let diff := safeAdd coins (negative coinsB)
  (diff, isAnyNegative diff)

/-- `AmountOf`: a binary search, by the denomination of the middle coin. -/
def amountOf (coins : CoinSet α) (denom : String) : α :=
  if hlen : coins.length < 2 then
    match coins with
    | [c] => if c.denom = denom then c.amount else 0
    | _ => 0
  else
    let midIdx := coins.length / 2
    let coin := coins.get ⟨midIdx, by omega⟩
    if denom < coin.denom then amountOf (coins.take midIdx) denom
    else if denom = coin.denom then coin.amount
    else amountOf (coins.drop (midIdx + 1)) denom
termination_by coins.length
decreasing_by
  · simp only [List.length_take]
    omega
  · simp only [List.length_drop]
    omega

/-- `IsValid`: the first denomination passes `validateDenom`, every later one is lower case and
greater than the one before, and every amount is positive. -/
def isValid : CoinSet α → Bool
  | [] => true
  | c :: rest => validateDenom c.denom && decide (0 < c.amount) && isValidAfter c.denom rest
where
  /-- The loop over `coins[1:]`, with `lowDenom` the denomination before. -/
  isValidAfter (lowDenom : String) : CoinSet α → Bool
    | [] => true
    | c :: rest =>
      c.denom.toLower == c.denom && decide (lowDenom < c.denom) && decide (0 < c.amount) &&
        isValidAfter c.denom rest

/-- `Sort`: order the coins by denomination. Go's `sort.Sort` is not stable, but on a set without
a repeated denomination, the only sets whose order matters here, every sort gives the same
order. -/
def sort (coins : CoinSet α) : CoinSet α :=
  coins.insertionSort fun a b => a.denom ≤ b.denom

/-- `IsEqual`: equal lengths, and after sorting the same amount at each place; a place whose
denominations differ panics (`Coin.IsEqual`). -/
def isEqual (coins coinsB : CoinSet α) : Except SdkError Bool :=
  if coins.length ≠ coinsB.length then pure false
  else go (sort coins) (sort coinsB)
where
  go : CoinSet α → CoinSet α → Except SdkError Bool
    | a :: as, b :: bs =>
      if a.denom ≠ b.denom then
        throw (.panic s!"invalid coin denominations; {a.denom}, {b.denom}")
      else if a.amount ≠ b.amount then pure false
      else go as bs
    | _, _ => pure true

end CoinSet

/-! ## The source's two families -/

namespace Coins

/-- `Coins.safeAdd`. -/
def safeAdd (coins coinsB : Coins) : Coins := CoinSet.safeAdd coins coinsB
/-- `Coins.Add`. -/
def add (coins coinsB : Coins) : Coins := safeAdd coins coinsB

/-- One pass of the loop of `Coins.Add` as Go runs it, `CoinSet.safeAddStep` where `Coin.Add` of
two coins of one denomination adds their amounts with `Int.Add`, which panics on a sum wider
than an `sdk.Int`. -/
def addCheckedStep (ca : Coin) (ta : Coins) (rest : Coins → Except SdkError Coins) :
    Coins → Except SdkError Coins
  | [] => pure (CoinSet.removeZeroCoins (ca :: ta))
  | cb :: tb =>
    match compare ca.denom cb.denom with
    | .lt => do pure (CoinSet.nonZero ca ++ (← rest (cb :: tb)))
    | .eq => do
      let amount ← checkInt "Int overflow" (ca.amount + cb.amount)
      pure (CoinSet.nonZero ⟨ca.denom, amount⟩ ++ (← rest tb))
    | .gt => do pure (CoinSet.nonZero cb ++ (← addCheckedStep ca ta rest tb))

/-- `Coins.Add` as Go runs it: `safeAdd`, with the panic of `Int.Add` on amounts of one
denomination whose sum is wider than an `sdk.Int`. -/
def addChecked : Coins → Coins → Except SdkError Coins
  | [], coinsB => pure (CoinSet.removeZeroCoins coinsB)
  | ca :: ta, coinsB => addCheckedStep ca ta (addChecked ta) coinsB
/-- `Coins.SafeSub`. -/
def safeSub (coins coinsB : Coins) : Coins × Bool := CoinSet.safeSub coins coinsB
/-- `Coins.Sub`: the difference, or the panic `negative coin amount`. -/
def sub (coins coinsB : Coins) : Except SdkError Coins :=
  let (diff, hasNeg) := safeSub coins coinsB
  if hasNeg then throw (.panic "negative coin amount") else pure diff
/-- `Coins.AmountOf`. -/
def amountOf (coins : Coins) (denom : String) : Int := CoinSet.amountOf coins denom
/-- `Coins.IsValid`. -/
def isValid (coins : Coins) : Bool := CoinSet.isValid coins
/-- `Coins.IsEqual`. -/
def isEqual (coins coinsB : Coins) : Except SdkError Bool := CoinSet.isEqual coins coinsB
/-- `Coins.IsAnyNegative`. -/
def isAnyNegative (coins : Coins) : Bool := CoinSet.isAnyNegative coins
/-- `NewCoin`: a coin of a valid denomination and a non-negative amount, or a panic. -/
def newCoin (denom : String) (amount : Int) : Except SdkError Coin :=
  if !validateDenom denom then throw (.panic s!"invalid denom: {denom}")
  else if amount < 0 then throw (.panic s!"negative coin amount: {amount}")
  else pure ⟨denom, amount⟩
/-- `NewCoins`: drop the zero coins and sort; a duplicate denomination or an invalid set
panics. -/
def newCoins (coins : Coins) : Except SdkError Coins :=
  let newCoins := CoinSet.removeZeroCoins coins
  if newCoins = [] then pure []
  else
    let sorted := CoinSet.sort newCoins
    if !(sorted.map CoinOf.denom).Nodup then throw (.panic "find duplicate denom")
    else if !isValid sorted then throw (.panic "invalid coin set")
    else pure sorted
/-- `Coins.String`: each coin as its amount then its denomination, joined by commas. -/
def string (coins : Coins) : String :=
  ",".intercalate (coins.map fun c => toString c.amount ++ c.denom)

end Coins

namespace DecCoins

/-- `DecCoins.safeAdd`. -/
def safeAdd (coins coinsB : DecCoins) : DecCoins := CoinSet.safeAdd coins coinsB
/-- `DecCoins.Add`. -/
def add (coins coinsB : DecCoins) : DecCoins := safeAdd coins coinsB
/-- `DecCoins.SafeSub`. -/
def safeSub (coins coinsB : DecCoins) : DecCoins × Bool := CoinSet.safeSub coins coinsB
/-- `DecCoins.Sub`: unlike `Coins.Sub` it sorts copies of both sets before subtracting. -/
def sub (coins coinsB : DecCoins) : Except SdkError DecCoins :=
  let (diff, hasNeg) := safeSub (CoinSet.sort coins) (CoinSet.sort coinsB)
  if hasNeg then throw (.panic "negative coin amount") else pure diff
/-- `DecCoins.AmountOf`. -/
def amountOf (coins : DecCoins) (denom : String) : Dec := CoinSet.amountOf coins denom
/-- `DecCoins.IsValid`. -/
def isValid (coins : DecCoins) : Bool := CoinSet.isValid coins
/-- `NewDecCoins`: each coin's amount read as a decimal. -/
def ofCoins (coins : Coins) : DecCoins :=
  coins.map fun c => ⟨c.denom, Dec.ofInt c.amount⟩

end DecCoins

namespace CoinSet

variable {α : Type} [AddCommGroup α] [LinearOrder α]

/-! ## The amounts of a coin set -/

@[simp] theorem amt_nil (denom : String) : amt ([] : CoinSet α) denom = 0 := rfl

@[simp] theorem amt_cons (c : CoinOf α) (coins : CoinSet α) (denom : String) :
    amt (c :: coins) denom = (if c.denom = denom then c.amount else 0) + amt coins denom :=
  KeyedSum.eval_cons _ _ c coins denom

@[simp] theorem amt_append (coins coinsB : CoinSet α) (denom : String) :
    amt (coins ++ coinsB) denom = amt coins denom + amt coinsB denom :=
  KeyedSum.eval_append _ _ coins coinsB denom

@[simp] theorem amt_removeZeroCoins (coins : CoinSet α) (denom : String) :
    amt (removeZeroCoins coins) denom = amt coins denom :=
  KeyedSum.eval_filter _ _ _ (fun c hc => by simpa using hc) coins denom

@[simp] theorem amt_nonZero (c : CoinOf α) (denom : String) :
    amt (nonZero c) denom = if c.denom = denom then c.amount else 0 := by
  unfold nonZero
  split
  · next h => simp [h]
  · simp

/-- The inner walk of `safeAdd` adds the amounts of both sets, provided the continuation on
the tail of the first set does. -/
theorem amt_safeAddStep (ca : CoinOf α) (ta : CoinSet α) (rest : CoinSet α → CoinSet α)
    (denom : String) (hrest : ∀ coinsB, amt (rest coinsB) denom = amt ta denom + amt coinsB denom) :
    ∀ coinsB, amt (safeAddStep ca ta rest coinsB) denom = amt (ca :: ta) denom + amt coinsB denom
  | [] => by simp [safeAddStep]
  | cb :: tb => by
    unfold safeAddStep
    split
    · simp only [amt_append, hrest, amt_nonZero, amt_cons]
      abel
    · next _ hcmp =>
      -- a common denomination: the two coins are added into one
      have hden : ca.denom = cb.denom := compare_eq_iff_eq.mp hcmp
      simp only [amt_append, hrest, amt_nonZero, amt_cons, hden]
      split_ifs <;> abel
    · simp only [amt_append, amt_safeAddStep ca ta rest denom hrest tb, amt_nonZero, amt_cons]
      abel

/-- `Add` adds the amounts of every denomination, for every pair of lists. -/
theorem amt_safeAdd (denom : String) :
    ∀ coins coinsB : CoinSet α, amt (safeAdd coins coinsB) denom = amt coins denom + amt coinsB denom
  | [], coinsB => by simp [safeAdd]
  | ca :: ta, coinsB => amt_safeAddStep ca ta (safeAdd ta) denom (amt_safeAdd denom ta) coinsB

@[simp] theorem amt_negative (coins : CoinSet α) (denom : String) :
    amt (negative coins) denom = -amt coins denom := by
  unfold amt negative
  rw [← KeyedSum.eval_neg]
  induction coins with
  | nil => rfl
  | cons c coins ih => simp [ih]

theorem amt_safeSub (coins coinsB : CoinSet α) (denom : String) :
    amt (safeSub coins coinsB).1 denom = amt coins denom - amt coinsB denom := by
  simp [safeSub, amt_safeAdd, sub_eq_add_neg]

/-! ## Sorted sets -/

theorem mem_removeZeroCoins {c : CoinOf α} {coins : CoinSet α} (h : c ∈ removeZeroCoins coins) :
    c ∈ coins :=
  List.mem_of_mem_filter h

theorem sorted_removeZeroCoins {coins : CoinSet α} (h : Sorted coins) :
    Sorted (removeZeroCoins coins) :=
  List.Pairwise.filter _ h

theorem mem_nonZero {c d : CoinOf α} (h : d ∈ nonZero c) : d = c := by
  unfold nonZero at h
  split at h
  · simp at h
  · simpa using h

/-- Every denomination in the walk of `safeAdd` comes from one of the two sets, provided every
denomination of the continuation does. -/
theorem denom_mem_safeAddStep (ca : CoinOf α) (ta : CoinSet α) (rest : CoinSet α → CoinSet α)
    (hrest : ∀ coinsB, ∀ c ∈ rest coinsB, ∃ d ∈ ta ++ coinsB, d.denom = c.denom) :
    ∀ coinsB, ∀ c ∈ safeAddStep ca ta rest coinsB, ∃ d ∈ (ca :: ta) ++ coinsB, d.denom = c.denom
  | [] => fun c hc => ⟨c, by simpa using mem_removeZeroCoins hc, rfl⟩
  | cb :: tb => by
    intro c hc
    unfold safeAddStep at hc
    split at hc
    · rcases List.mem_append.mp hc with hc | hc
      · exact ⟨ca, by simp, (mem_nonZero hc).symm ▸ rfl⟩
      · obtain ⟨d, hd, hdc⟩ := hrest _ c hc
        exact ⟨d, by simp only [List.mem_append, List.mem_cons] at hd ⊢; tauto, hdc⟩
    · rcases List.mem_append.mp hc with hc | hc
      · exact ⟨ca, by simp, (mem_nonZero hc).symm ▸ rfl⟩
      · obtain ⟨d, hd, hdc⟩ := hrest _ c hc
        exact ⟨d, by simp only [List.mem_append, List.mem_cons] at hd ⊢; tauto, hdc⟩
    · rcases List.mem_append.mp hc with hc | hc
      · exact ⟨cb, by simp, (mem_nonZero hc).symm ▸ rfl⟩
      · obtain ⟨d, hd, hdc⟩ := denom_mem_safeAddStep ca ta rest hrest tb c hc
        exact ⟨d, by simp only [List.mem_append, List.mem_cons] at hd ⊢; tauto, hdc⟩

theorem denom_mem_safeAdd :
    ∀ (coins coinsB : CoinSet α), ∀ c ∈ safeAdd coins coinsB,
      ∃ d ∈ coins ++ coinsB, d.denom = c.denom
  | [], coinsB => fun c hc => ⟨c, by simpa using mem_removeZeroCoins hc, rfl⟩
  | ca :: ta, coinsB => denom_mem_safeAddStep ca ta (safeAdd ta) (denom_mem_safeAdd ta) coinsB

/-- A denomination that bounds every coin of both sets from below bounds every coin of the
sum. -/
theorem lt_denom_safeAdd {lo : String} {coins coinsB : CoinSet α}
    (h : ∀ c ∈ coins, lo < c.denom) (hB : ∀ c ∈ coinsB, lo < c.denom) :
    ∀ c ∈ safeAdd coins coinsB, lo < c.denom := by
  intro c hc
  obtain ⟨d, hd, hdc⟩ := denom_mem_safeAdd coins coinsB c hc
  rw [← hdc]
  rcases List.mem_append.mp hd with hd | hd
  · exact h d hd
  · exact hB d hd

theorem sorted_safeAddStep (ca : CoinOf α) (ta : CoinSet α)
    (hta : Sorted (ca :: ta))
    (hrest : ∀ coinsB, Sorted coinsB → Sorted (safeAdd ta coinsB)) :
    ∀ coinsB, Sorted coinsB → Sorted (safeAddStep ca ta (safeAdd ta) coinsB)
  | [], _ => sorted_removeZeroCoins hta
  | cb :: tb, hb => by
    have ha := List.pairwise_cons.mp hta
    have hb' := List.pairwise_cons.mp hb
    unfold safeAddStep
    split
    · next _ hcmp =>
      have hlt : ca.denom < cb.denom := compare_lt_iff_lt.mp hcmp
      refine List.pairwise_append.mpr ⟨?_, hrest _ hb, fun x hx y hy => ?_⟩
      · unfold nonZero; split <;> simp
      · rw [mem_nonZero hx]
        refine lt_denom_safeAdd ha.1 (fun c hc => ?_) y hy
        rcases List.mem_cons.mp hc with rfl | hc
        · exact hlt
        · exact lt_trans hlt (hb'.1 c hc)
    · next _ hcmp =>
      have heq : ca.denom = cb.denom := compare_eq_iff_eq.mp hcmp
      refine List.pairwise_append.mpr ⟨?_, hrest _ hb'.2, fun x hx y hy => ?_⟩
      · unfold nonZero; split <;> simp
      · rw [mem_nonZero hx]
        exact lt_denom_safeAdd ha.1 (fun c hc => heq ▸ hb'.1 c hc) y hy
    · next _ hcmp =>
      have hgt : cb.denom < ca.denom := compare_gt_iff_gt.mp hcmp
      refine List.pairwise_append.mpr
        ⟨?_, sorted_safeAddStep ca ta hta hrest tb hb'.2, fun x hx y hy => ?_⟩
      · unfold nonZero; split <;> simp
      · rw [mem_nonZero hx]
        obtain ⟨d, hd, hdy⟩ := denom_mem_safeAddStep ca ta (safeAdd ta) (denom_mem_safeAdd ta)
          tb y hy
        rw [← hdy]
        rcases List.mem_append.mp hd with hd | hd
        · rcases List.mem_cons.mp hd with rfl | hd
          · exact hgt
          · exact lt_trans hgt (ha.1 d hd)
        · exact hb'.1 d hd

/-- `Add` keeps sets sorted. -/
theorem sorted_safeAdd :
    ∀ {coins coinsB : CoinSet α}, Sorted coins → Sorted coinsB → Sorted (safeAdd coins coinsB)
  | [], _, _, hb => sorted_removeZeroCoins hb
  | ca :: ta, coinsB, ha, hb =>
    sorted_safeAddStep ca ta ha (fun _ h => sorted_safeAdd (List.pairwise_cons.mp ha).2 h)
      coinsB hb

theorem sorted_negative {coins : CoinSet α} (h : Sorted coins) : Sorted (negative coins) := by
  unfold Sorted negative
  exact List.pairwise_map.mpr h

/-! ## `AmountOf` on sorted sets -/

theorem amt_eq_zero_of_forall_ne {coins : CoinSet α} {denom : String}
    (h : ∀ c ∈ coins, c.denom ≠ denom) : amt coins denom = 0 :=
  KeyedSum.eval_of_forall_ne _ _ h

/-- On a sorted set, the amount at the denomination of one of its coins is that coin's. -/
theorem amt_of_mem {coins : CoinSet α} (h : Sorted coins) {c : CoinOf α} (hc : c ∈ coins) :
    amt coins c.denom = c.amount :=
  KeyedSum.eval_eq_of_unique _ _ (h.imp ne_of_lt) hc

theorem eq_take_append_get_cons {coins : CoinSet α} {i : Nat} (hi : i < coins.length) :
    coins = coins.take i ++ coins.get ⟨i, hi⟩ :: coins.drop (i + 1) := by
  simp

/-- Split a set at its `i`-th coin: everything before is below its denomination, everything
after above. -/
theorem sorted_split {coins : CoinSet α} (h : Sorted coins) {i : Nat} (hi : i < coins.length) :
    (∀ c ∈ coins.take i, c.denom < (coins.get ⟨i, hi⟩).denom) ∧
      ∀ c ∈ coins.drop (i + 1), (coins.get ⟨i, hi⟩).denom < c.denom := by
  have h' : Sorted (coins.take i ++ coins.get ⟨i, hi⟩ :: coins.drop (i + 1)) :=
    eq_take_append_get_cons hi ▸ h
  obtain ⟨-, hright, hacross⟩ := List.pairwise_append.mp h'
  exact ⟨fun c hc => hacross c hc _ List.mem_cons_self,
    fun c hc => (List.pairwise_cons.mp hright).1 c hc⟩

theorem amt_split {coins : CoinSet α} {i : Nat} (hi : i < coins.length) (denom : String) :
    amt coins denom = amt (coins.take i) denom + amt [coins.get ⟨i, hi⟩] denom +
      amt (coins.drop (i + 1)) denom := by
  conv_lhs => rw [eq_take_append_get_cons hi]
  rw [amt_append, ← List.singleton_append, amt_append, add_assoc]

theorem amountOf_nil (denom : String) : amountOf ([] : CoinSet α) denom = 0 := by
  rw [amountOf]
  simp

theorem amountOf_singleton (c : CoinOf α) (denom : String) :
    amountOf [c] denom = if c.denom = denom then c.amount else 0 := by
  rw [amountOf]
  simp

/-- The binary search reads the keyed sum: on a sorted set, `AmountOf` is `amt`. The induction
follows the search; each step splits the set at its middle coin, and sortedness puts the
denomination sought on one side of it only. -/
theorem amountOf_eq_amt {coins : CoinSet α} (h : Sorted coins) (denom : String) :
    amountOf coins denom = amt coins denom := by
  fun_induction amountOf coins denom with
  | case1 c => simp_all
  | case2 c hne => simp_all
  | case3 coins _ hlen hne =>
    -- a set of fewer than two coins that is not a singleton is empty
    rcases coins with _ | ⟨c, _ | ⟨d, t⟩⟩
    · rfl
    · exact (hne c hlen rfl HEq.rfl).elim
    · exact absurd ‹(c :: d :: t).length < 2› (by simp)
  | case4 coins hlen midIdx coin hlt ih =>
    have hi : midIdx < coins.length := by omega
    obtain ⟨-, hafter⟩ := sorted_split h hi
    have hmid : amt [coin] denom = 0 := amt_eq_zero_of_forall_ne (by simpa using hlt.ne')
    rw [ih (h.sublist (List.take_sublist _ _)), amt_split hi denom, hmid,
      amt_eq_zero_of_forall_ne fun c hc => (lt_trans hlt (hafter c hc)).ne']
    simp
  | case5 coins hlen midIdx coin hnlt heq =>
    subst heq
    exact (amt_of_mem h (List.get_mem _ _)).symm
  | case6 coins hlen midIdx coin hnlt hne ih =>
    have hi : midIdx < coins.length := by omega
    have hgt : coin.denom < denom := lt_of_le_of_ne (not_lt.mp hnlt) (Ne.symm hne)
    obtain ⟨hbefore, -⟩ := sorted_split h hi
    have hmid : amt [coin] denom = 0 := amt_eq_zero_of_forall_ne (by simpa using hgt.ne)
    rw [ih (h.sublist (List.drop_sublist _ _)), amt_split hi denom, hmid,
      amt_eq_zero_of_forall_ne fun c hc => (lt_trans (hbefore c hc) hgt).ne]
    simp

/-! ## Valid sets -/

/-- `strings.ToLower` leaves a lower-case letter or a digit as it is. -/
theorem toLower_of_isLower_or_isDigit {c : Char} (h : (c.isLower || c.isDigit) = true) :
    c.toLower = c := by
  unfold Char.toLower
  rw [dif_neg]
  simp only [Char.isLower, Char.isDigit, Bool.or_eq_true, Bool.and_eq_true, decide_eq_true_eq] at h
  simp only [UInt32.le_iff_toNat_le, ge_iff_le, not_and, not_le] at h ⊢
  intro hA
  -- 'a' is above 'Z', and '9' below 'A'
  rcases h with ⟨lower, -⟩ | ⟨-, digit⟩
  · have ha : 'a'.val.toNat = 97 := rfl
    have hZ : 'Z'.val.toNat = 90 := rfl
    omega
  · have h9 : '9'.val.toNat = 57 := rfl
    have hA' : 'A'.val.toNat = 65 := rfl
    omega

/-- A denomination that passes `validateDenom` is its own lower case. -/
theorem toLower_of_validateDenom {denom : String} (h : validateDenom denom = true) :
    denom.toLower = denom := by
  apply String.toList_injective
  rw [String.toLower, String.toList_map]
  unfold validateDenom at h
  split at h
  · cases h
  · next c rest chars =>
    simp only [Bool.and_eq_true, List.all_eq_true] at h
    obtain ⟨⟨⟨first, -⟩, -⟩, later⟩ := h
    rw [chars, List.map_cons, toLower_of_isLower_or_isDigit (by simp [first]),
      List.map_congr_left fun d hd => toLower_of_isLower_or_isDigit (later d hd), List.map_id']

/-- The loop of `IsValid` over `coins[1:]` accepts exactly the sorted sets above `lowDenom` of
positive coins with lower-case denominations. -/
theorem isValidAfter_iff {lowDenom : String} {coins : CoinSet α} :
    isValid.isValidAfter lowDenom coins = true ↔
      (∀ c ∈ coins, lowDenom < c.denom ∧ 0 < c.amount ∧ c.denom.toLower = c.denom) ∧
        Sorted coins := by
  induction coins generalizing lowDenom with
  | nil => simp [isValid.isValidAfter, Sorted]
  | cons c rest ih =>
    simp only [isValid.isValidAfter, Bool.and_eq_true, decide_eq_true_eq, beq_iff_eq, ih, Sorted,
      List.pairwise_cons, List.forall_mem_cons]
    constructor
    · rintro ⟨⟨⟨lower, low⟩, pos⟩, above, sorted⟩
      exact ⟨⟨⟨low, pos, lower⟩, fun d hd => ⟨lt_trans low (above d hd).1, (above d hd).2⟩⟩,
        fun d hd => (above d hd).1, sorted⟩
    · rintro ⟨⟨⟨low, pos, lower⟩, others⟩, above, sorted⟩
      exact ⟨⟨⟨lower, low⟩, pos⟩, fun d hd => ⟨above d hd, (others d hd).2⟩, sorted⟩

/-- `IsValid`, read off: positive coins with lower-case denominations, sorted, and the first
denomination passing `validateDenom` (the later ones are only checked for lower case). -/
theorem isValid_iff {coins : CoinSet α} :
    isValid coins = true ↔
      (∀ c ∈ coins, 0 < c.amount ∧ c.denom.toLower = c.denom) ∧ Sorted coins ∧
        ∀ c ∈ coins.head?, validateDenom c.denom = true := by
  cases coins with
  | nil => simp [isValid, Sorted]
  | cons c rest =>
    simp only [isValid, Bool.and_eq_true, decide_eq_true_eq, isValidAfter_iff, Sorted,
      List.pairwise_cons, List.forall_mem_cons, List.head?_cons, Option.mem_def,
      Option.some.injEq, forall_eq']
    constructor
    · rintro ⟨⟨denom, pos⟩, others, sorted⟩
      exact ⟨⟨⟨pos, toLower_of_validateDenom denom⟩, fun d hd => (others d hd).2⟩,
        ⟨fun d hd => (others d hd).1, sorted⟩, denom⟩
    · rintro ⟨⟨⟨pos, -⟩, others⟩, ⟨above, sorted⟩, denom⟩
      exact ⟨⟨denom, pos⟩, fun d hd => ⟨above d hd, others d hd⟩, sorted⟩

/-- A valid set is sorted and holds positive amounts only. -/
theorem isValid_spec {coins : CoinSet α} (valid : isValid coins = true) :
    (∀ c ∈ coins, 0 < c.amount) ∧ Sorted coins :=
  ⟨fun c hc => ((isValid_iff.mp valid).1 c hc).1, (isValid_iff.mp valid).2.1⟩

theorem sorted_of_isValid {coins : CoinSet α} (valid : isValid coins = true) : Sorted coins :=
  (isValid_spec valid).2

/-- A set is the sum of its coins, one at a time. -/
theorem sum_amt_singleton (coins : CoinSet α) (denom : String) :
    (coins.map fun c => amt [c] denom).sum = amt coins denom := by
  induction coins with
  | nil => rfl
  | cons c coins ih =>
    rw [List.map_cons, List.sum_cons, ih, amt_cons, amt_cons, amt_nil, add_zero]

end CoinSet

namespace Coins

theorem sub_eq_ok {coins coinsB diff : Coins} (h : sub coins coinsB = .ok diff) :
    diff = CoinSet.safeAdd coins (CoinSet.negative coinsB) := by
  simp only [sub, safeSub, CoinSet.safeSub] at h
  cases hneg : CoinSet.isAnyNegative (CoinSet.safeAdd coins (CoinSet.negative coinsB)) with
  | true => simp [hneg] at h
  | false =>
    simp only [hneg, Bool.false_eq_true, if_false] at h
    exact (Fallible.pure_eq_ok.mp h).symm

/-- What `Sub` returns holds, denomination by denomination, the difference. -/
theorem amt_sub {coins coinsB diff : Coins} (h : sub coins coinsB = .ok diff) (denom : String) :
    CoinSet.amt diff denom = CoinSet.amt coins denom - CoinSet.amt coinsB denom := by
  rw [sub_eq_ok h, CoinSet.amt_safeAdd, CoinSet.amt_negative, sub_eq_add_neg]

theorem sorted_sub {coins coinsB diff : Coins} (h : sub coins coinsB = .ok diff)
    (sorted : CoinSet.Sorted coins) (sortedB : CoinSet.Sorted coinsB) : CoinSet.Sorted diff := by
  rw [sub_eq_ok h]
  exact CoinSet.sorted_safeAdd sorted (CoinSet.sorted_negative sortedB)

theorem sorted_add {coins coinsB : Coins} (sorted : CoinSet.Sorted coins)
    (sortedB : CoinSet.Sorted coinsB) : CoinSet.Sorted (Coins.add coins coinsB) :=
  CoinSet.sorted_safeAdd sorted sortedB

@[simp] theorem amt_add (coins coinsB : Coins) (denom : String) :
    CoinSet.amt (Coins.add coins coinsB) denom =
      CoinSet.amt coins denom + CoinSet.amt coinsB denom :=
  CoinSet.amt_safeAdd denom coins coinsB

/-! ### `Add` with the width of `sdk.Int` -/

/-- A pass of the checked loop either gives the pass of `safeAdd` or panics on a sum, when the
rest of the loop does. -/
theorem addCheckedStep_cases {ca : Coin} {ta : Coins} {rest : Coins → Except SdkError Coins}
    {restSum : Coins → Coins}
    (restCases : ∀ tb, rest tb = .ok (restSum tb) ∨ rest tb = .error (.panic "Int overflow")) :
    ∀ coinsB : Coins,
      addCheckedStep ca ta rest coinsB = .ok (CoinSet.safeAddStep ca ta restSum coinsB) ∨
        addCheckedStep ca ta rest coinsB = .error (.panic "Int overflow")
  | [] => .inl rfl
  | cb :: tb => by
    simp only [addCheckedStep, CoinSet.safeAddStep]
    cases order : compare ca.denom cb.denom with
    | lt =>
      rcases restCases (cb :: tb) with summed | panicked
      · left
        rw [summed]
        rfl
      · right
        rw [panicked]
        rfl
    | eq =>
      by_cases wide : 2 ^ maxBitLen ≤ (ca.amount + cb.amount).natAbs
      · right
        rw [checkInt, if_pos wide]
        rfl
      · rcases restCases tb with summed | panicked
        · left
          rw [checkInt_of_lt (not_le.mp wide), summed]
          rfl
        · right
          rw [checkInt_of_lt (not_le.mp wide), panicked]
          rfl
    | gt =>
      rcases addCheckedStep_cases restCases tb with summed | panicked
      · left
        rw [summed]
        rfl
      · right
        rw [panicked]
        rfl

/-- `Add` as Go runs it is `safeAdd`, or the panic `Int overflow`. -/
theorem addChecked_cases : ∀ coins coinsB : Coins,
    addChecked coins coinsB = .ok (add coins coinsB) ∨
      addChecked coins coinsB = .error (.panic "Int overflow")
  | [], _ => .inl rfl
  | _ :: ta, coinsB => addCheckedStep_cases (addChecked_cases ta) coinsB

/-- A pass of the checked loop does not panic while the coin at hand and the coins of its
denomination add up within an `sdk.Int`, and the rest of the loop does not panic. -/
theorem addCheckedStep_eq_ok {ca : Coin} {ta : Coins} {rest : Coins → Except SdkError Coins}
    {restSum : Coins → Coins} :
    ∀ {coinsB : Coins}, (∀ tb, tb.Sublist coinsB → rest tb = .ok (restSum tb)) →
      (∀ cb ∈ coinsB, ca.denom = cb.denom → (ca.amount + cb.amount).natAbs < 2 ^ maxBitLen) →
      addCheckedStep ca ta rest coinsB = .ok (CoinSet.safeAddStep ca ta restSum coinsB)
  | [], _, _ => rfl
  | cb :: tb, restOk, fits => by
    simp only [addCheckedStep, CoinSet.safeAddStep]
    cases order : compare ca.denom cb.denom with
    | lt =>
      rw [restOk (cb :: tb) (List.Sublist.refl _)]
      rfl
    | eq =>
      have same : ca.denom = cb.denom := compare_eq_iff_eq.mp order
      rw [checkInt_of_lt (fits cb List.mem_cons_self same),
        restOk tb (List.sublist_cons_self cb tb)]
      rfl
    | gt =>
      rw [addCheckedStep_eq_ok (fun tb' sub => restOk tb' (sub.cons cb))
        (fun cb' member same => fits cb' (List.mem_cons_of_mem cb member) same)]
      rfl

/-- `Add` does not panic when no two coins of one denomination, one of each set, add up to more
than an `sdk.Int` holds. -/
theorem addChecked_eq_ok : ∀ {coins coinsB : Coins},
    (∀ ca ∈ coins, ∀ cb ∈ coinsB, ca.denom = cb.denom →
      (ca.amount + cb.amount).natAbs < 2 ^ maxBitLen) →
    addChecked coins coinsB = .ok (add coins coinsB)
  | [], _, _ => rfl
  | ca :: _, _, fits =>
    addCheckedStep_eq_ok
      (fun _ sub => addChecked_eq_ok fun c member cb memberB same =>
        fits c (List.mem_cons_of_mem ca member) cb (sub.subset memberB) same)
      (fun cb member same => fits ca List.mem_cons_self cb member same)

end Coins

namespace CoinSet

variable {α : Type} [AddCommGroup α] [LinearOrder α]

theorem amt_sort (coins : CoinSet α) (denom : String) : amt (sort coins) denom = amt coins denom :=
  KeyedSum.eval_perm _ _ (List.perm_insertionSort _ _) denom

/-- `Sort` of a sorted set leaves it as it is. -/
theorem sort_of_sorted {coins : CoinSet α} (sorted : Sorted coins) : sort coins = coins :=
  List.Pairwise.insertionSort_eq (sorted.imp le_of_lt)

theorem isEqual.go_eq_ok_true :
    ∀ {coins coinsB : CoinSet α}, coins.length = coinsB.length →
      isEqual.go coins coinsB = .ok true → coins = coinsB
  | [], [], _, _ => rfl
  | a :: as, b :: bs, hlen, h => by
    simp only [isEqual.go] at h
    split at h
    · exact absurd h Fallible.throw_ne_ok
    · split at h
      · simp at h
      · next hden hamt =>
        have hab : a = b := by
          cases a
          cases b
          simp_all
        rw [hab, isEqual.go_eq_ok_true (by simpa using hlen) h]

/-- Sets that `IsEqual` finds equal hold the same amount of every denomination. -/
theorem amt_eq_of_isEqual {coins coinsB : CoinSet α} (h : isEqual coins coinsB = .ok true)
    (denom : String) : amt coins denom = amt coinsB denom := by
  unfold isEqual at h
  split at h
  · simp at h
  · next hlen =>
    have hsorted :=
      isEqual.go_eq_ok_true (by simpa [sort, List.length_insertionSort] using not_not.mp hlen) h
    rw [← amt_sort coins, hsorted, amt_sort]

end CoinSet

namespace Coins

/-- On a sorted set the source's `AmountOf` is the keyed sum of the amounts. -/
theorem amountOf_eq_amt {coins : Coins} (sorted : CoinSet.Sorted coins) (denom : String) :
    amountOf coins denom = CoinSet.amt coins denom :=
  CoinSet.amountOf_eq_amt sorted denom

theorem newCoin_eq_ok {denom : String} {amount : Int} {c : Coin} (h : newCoin denom amount = .ok c) :
    validateDenom denom = true ∧ 0 ≤ amount ∧ c = ⟨denom, amount⟩ := by
  unfold newCoin at h
  split at h
  · exact absurd h Fallible.throw_ne_ok
  · next hdenom =>
    split at h
    · exact absurd h Fallible.throw_ne_ok
    · next hneg =>
      refine ⟨by simpa using hdenom, by omega, (Fallible.pure_eq_ok.mp h).symm⟩

/-- `NewCoins` keeps every amount: it only drops the zero coins and sorts. -/
theorem amt_newCoins {coins result : Coins} (h : newCoins coins = .ok result) (denom : String) :
    CoinSet.amt result denom = CoinSet.amt coins denom := by
  unfold newCoins at h
  dsimp only at h
  split at h
  · next hempty =>
    cases Fallible.pure_eq_ok.mp h
    rw [← CoinSet.amt_removeZeroCoins coins, hempty]
  · split at h
    · exact absurd h Fallible.throw_ne_ok
    · split at h
      · exact absurd h Fallible.throw_ne_ok
      · cases Fallible.pure_eq_ok.mp h
        rw [CoinSet.amt_sort, CoinSet.amt_removeZeroCoins]

/-- A set of non-negative coins holds no negative amount of any denomination. -/
theorem amt_nonneg {coins : Coins} (nonneg : ∀ c ∈ coins, 0 ≤ c.amount) (denom : String) :
    0 ≤ CoinSet.amt coins denom := by
  induction coins with
  | nil => exact le_refl 0
  | cons c rest ih =>
    rw [CoinSet.amt_cons]
    have hc : 0 ≤ c.amount := nonneg c List.mem_cons_self
    have hrest := ih fun d hd => nonneg d (List.mem_cons_of_mem c hd)
    split <;> omega

theorem amt_nonneg_of_isValid {coins : Coins} (valid : isValid coins = true) (denom : String) :
    0 ≤ CoinSet.amt coins denom :=
  amt_nonneg (fun c hc => le_of_lt ((CoinSet.isValid_spec valid).1 c hc)) denom

end Coins

end Pocc
