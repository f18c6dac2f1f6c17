import Pocc.Bank.Keeper
import Pocc.Types.CoinAlgebra

/-!
# Validating a multi-send

`ValidateInputsOutputs` (x/bank/internal/types/msgs.go) validates every input, then every
output, adding their coins into two sums, and compares the sums with `Coins.IsEqual`
(types/coin.go). `IsEqual` sorts both sets and compares them place by place with
`Coin.IsEqual`, which panics when the two coins of a place have different denominations; the
test `TestEqualCoins` expects that panic.

`Coins.Add` adds the amounts of a denomination with `Int.Add`, which panics on a sum wider than
an `sdk.Int` (`Coins.addChecked`). On inputs, and outputs, whose amounts of every denomination
add up within that width (`TransfersFit`), the sums bound every sum the loops make
(`foldlM_addTransfer_of_fits`), and:

* `validateInputsOutputs_eq_ok_iff`: the validation returns `nil` exactly when every input and
  output is valid and the two sums hold as much of every denomination;
* `validateInputsOutputs_eq_error`: otherwise it returns the first failed `ValidateBasic`, the
  mismatch error, or the panic of `IsEqual` on two sums of as many coins with different
  denominations;
* `Coins.isEqual_eq_ok_true_iff`, `CoinSet.isEqual_no_panic`: on valid sets `IsEqual` is true
  exactly on equal amounts, and it does not panic on sets of different lengths or of the same
  denominations.
-/

set_option linter.unusedSectionVars false

namespace Pocc

namespace CoinSet

variable {α : Type} [AddCommGroup α] [LinearOrder α]

/-! ## `Coins.IsEqual` -/

theorem isEqual.go_self : ∀ coins : CoinSet α, isEqual.go coins coins = .ok true
  | [] => rfl
  | c :: rest => by
    simp only [isEqual.go, ne_eq, not_true_eq_false, ↓reduceIte]
    exact isEqual.go_self rest

/-- `IsEqual` of a set with itself is true. -/
theorem isEqual_self (coins : CoinSet α) : isEqual coins coins = .ok true := by
  unfold isEqual
  rw [if_neg (not_not.mpr rfl)]
  exact isEqual.go_self (sort coins)

/-- Place by place, sets of the same denominations are compared on their amounts only. -/
theorem isEqual.go_of_denoms :
    ∀ {coins coinsB : CoinSet α}, coins.map CoinOf.denom = coinsB.map CoinOf.denom →
      ∃ b, isEqual.go coins coinsB = .ok b
  | [], [], _ => ⟨true, rfl⟩
  | [], _ :: _, same => by simp at same
  | _ :: _, [], same => by simp at same
  | a :: as, b :: bs, same => by
    simp only [List.map_cons, List.cons.injEq] at same
    obtain ⟨sameHead, sameRest⟩ := same
    simp only [isEqual.go, sameHead, ne_eq, not_true_eq_false, ↓reduceIte]
    split
    · exact ⟨false, rfl⟩
    · exact isEqual.go_of_denoms sameRest

/-- The only error of `go` is the panic of `Coin.IsEqual` on two denominations. -/
theorem isEqual.go_eq_error :
    ∀ {coins coinsB : CoinSet α} {e : SdkError}, isEqual.go coins coinsB = .error e →
      ∃ a b : String, a ≠ b ∧ e = .panic s!"invalid coin denominations; {a}, {b}"
  | [], [], _, h => by simp [isEqual.go, pure, Except.pure] at h
  | [], _ :: _, _, h => by simp [isEqual.go, pure, Except.pure] at h
  | _ :: _, [], _, h => by simp [isEqual.go, pure, Except.pure] at h
  | a :: as, b :: bs, e, h => by
    simp only [isEqual.go] at h
    split at h
    · next differ =>
      exact ⟨a.denom, b.denom, differ, (Except.error.inj h).symm⟩
    · split at h
      · simp [pure, Except.pure] at h
      · exact isEqual.go_eq_error h

/-- `IsEqual` panics only on sets of one length whose sorted denominations differ. -/
theorem isEqual_eq_error {coins coinsB : CoinSet α} {e : SdkError}
    (h : isEqual coins coinsB = .error e) :
    coins.length = coinsB.length ∧
      (sort coins).map CoinOf.denom ≠ (sort coinsB).map CoinOf.denom ∧
      ∃ a b : String, a ≠ b ∧ e = .panic s!"invalid coin denominations; {a}, {b}" := by
  unfold isEqual at h
  split at h
  · simp [pure, Except.pure] at h
  · next sameLength =>
    refine ⟨not_not.mp sameLength, fun same => ?_, isEqual.go_eq_error h⟩
    obtain ⟨b, hb⟩ := isEqual.go_of_denoms same
    rw [hb] at h
    cases h

/-- On sorted sets, which `Sort` leaves as they are, `IsEqual` panics only on sets of one
length with different denominations. -/
theorem isEqual_eq_error_of_sorted {coins coinsB : CoinSet α} (sorted : Sorted coins)
    (sortedB : Sorted coinsB) {e : SdkError} (h : isEqual coins coinsB = .error e) :
    coins.length = coinsB.length ∧ coins.map CoinOf.denom ≠ coinsB.map CoinOf.denom ∧
      ∃ a b : String, a ≠ b ∧ e = .panic s!"invalid coin denominations; {a}, {b}" := by
  obtain ⟨sameLength, differ, message⟩ := isEqual_eq_error h
  rw [sort_of_sorted sorted, sort_of_sorted sortedB] at differ
  exact ⟨sameLength, differ, message⟩

/-- On sorted sets `IsEqual` does not panic when the lengths differ or the denominations are
the same. -/
theorem isEqual_no_panic {coins coinsB : CoinSet α} (sorted : Sorted coins)
    (sortedB : Sorted coinsB)
    (h : coins.length ≠ coinsB.length ∨ coins.map CoinOf.denom = coinsB.map CoinOf.denom) :
    ∃ b, isEqual coins coinsB = .ok b := by
  cases hresult : isEqual coins coinsB with
  | ok b => exact ⟨b, rfl⟩
  | error e =>
    obtain ⟨sameLength, differ, -⟩ := isEqual_eq_error_of_sorted sorted sortedB hresult
    rcases h with differentLength | same
    · exact absurd sameLength differentLength
    · exact absurd same differ

end CoinSet

namespace Coins

/-- On valid sets `IsEqual` is true exactly when the two hold the same amount of every
denomination: a valid set is sorted without zero coins, so it is its amounts. -/
theorem isEqual_eq_ok_true_iff {coins coinsB : Coins} (valid : isValid coins = true)
    (validB : isValid coinsB = true) :
    isEqual coins coinsB = .ok true ↔ ∀ denom, amountOf coins denom = amountOf coinsB denom := by
  obtain ⟨pos, sorted⟩ := CoinSet.isValid_spec valid
  obtain ⟨posB, sortedB⟩ := CoinSet.isValid_spec validB
  simp only [amountOf_eq_amt sorted, amountOf_eq_amt sortedB]
  constructor
  · exact CoinSet.amt_eq_of_isEqual
  · intro same
    have equal : coins = coinsB := CoinSet.eq_of_amt_eq sorted sortedB
      (fun c hc => (pos c hc).ne') (fun c hc => (posB c hc).ne') same
    rw [equal]
    exact CoinSet.isEqual_self coinsB

end Coins

namespace Bank

/-! ## The two sums -/

theorem Transfer.validateBasic_eq_ok {t : Transfer} :
    t.validateBasic = .ok () ↔
      t.address.isEmpty = false ∧ Coins.isValid t.coins = true ∧
        Coins.isAllPositive t.coins = true := by
  unfold Transfer.validateBasic
  split_ifs <;> simp_all [pure, Except.pure]

/-- A sum that returned added up valid transfers. -/
theorem valid_of_sumTransfers_eq_ok {ts : List Transfer} {total : Coins}
    (h : sumTransfers ts = .ok total) : ∀ t ∈ ts, t.validateBasic = .ok () := by
  intro t member
  obtain ⟨_, _, added⟩ := Fallible.foldlM_ok_step _ ts [] total h t member
  exact (addTransfer_eq_ok added).1

/-- A failed sum failed on the `ValidateBasic` of one of its transfers, or on the width of a sum
of amounts. -/
theorem sumTransfers_eq_error {ts : List Transfer} {e : SdkError}
    (h : sumTransfers ts = .error e) :
    (∃ t ∈ ts, t.validateBasic = .error e) ∨ e = .panic "Int overflow" := by
  obtain ⟨t, ht, total, failed⟩ := Fallible.foldlM_eq_error _ ts [] h
  rcases Fallible.bind_eq_error.mp failed with invalid | ⟨_, -, added⟩
  · exact .inl ⟨t, ht, invalid⟩
  · rcases Coins.addChecked_cases total t.coins with summed | panicked
    · rw [summed] at added
      cases added
    · rw [panicked] at added
      exact .inr (Except.error.inj added).symm

/-- The sum of valid transfers is a valid set. -/
theorem isValid_sumTransfers {ts : List Transfer} {total : Coins}
    (h : sumTransfers ts = .ok total) : Coins.isValid total = true := by
  refine Fallible.foldlM_ok_induction _ (fun total : Coins => Coins.isValid total = true)
    (fun total t total' valid step => ?_) ts [] total rfl h
  obtain ⟨validT, rfl⟩ := addTransfer_eq_ok step
  exact Coins.isValid_add valid (Transfer.validateBasic_eq_ok.mp validT).2.1

/-- The widths `ValidateInputsOutputs` needs of its inputs, or of its outputs: for every
denomination, their amounts, taken without sign, add up to less than an `sdk.Int` holds. -/
def TransfersFit (ts : List Transfer) : Prop :=
  ∀ denom, (ts.map fun t => |CoinSet.amt t.coins denom|).sum < 2 ^ maxBitLen

/-- A valid transfer whose amounts fit beside a valid sum is added without a panic. -/
theorem addTransfer_of_fits {total : Coins} {t : Transfer}
    (validTotal : Coins.isValid total = true) (valid : t.validateBasic = .ok ())
    (fits : ∀ denom, CoinSet.amt total denom + CoinSet.amt t.coins denom < 2 ^ maxBitLen) :
    addTransfer total t = .ok (Coins.add total t.coins) := by
  obtain ⟨pos, sorted⟩ := CoinSet.isValid_spec validTotal
  obtain ⟨posT, sortedT⟩ := CoinSet.isValid_spec (Transfer.validateBasic_eq_ok.mp valid).2.1
  -- two coins of one denomination hold the two sets' amounts of it, both positive
  have pairs : ∀ ca ∈ total, ∀ cb ∈ t.coins, ca.denom = cb.denom →
      (ca.amount + cb.amount).natAbs < 2 ^ maxBitLen := by
    intro ca memberA cb memberB same
    have sum := fits ca.denom
    rw [CoinSet.amt_of_mem sorted memberA, same, CoinSet.amt_of_mem sortedT memberB] at sum
    have positiveA := pos ca memberA
    have positiveB := posT cb memberB
    unfold maxBitLen at *
    omega
  unfold addTransfer
  rw [valid]
  exact Coins.addChecked_eq_ok pairs

/-- Over transfers whose amounts fit beside a valid sum, the loop fails only on the
`ValidateBasic` of a transfer, and succeeds on valid transfers: the sum so far holds the
amounts of the transfers before, so the bound on the whole list bounds every sum it makes. -/
theorem foldlM_addTransfer_of_fits :
    ∀ (ts : List Transfer) (total : Coins), Coins.isValid total = true →
      (∀ denom, CoinSet.amt total denom + (ts.map fun t => |CoinSet.amt t.coins denom|).sum <
        2 ^ maxBitLen) →
      ((∀ t ∈ ts, t.validateBasic = .ok ()) →
        ∃ total', ts.foldlM addTransfer total = .ok total') ∧
      ∀ e, ts.foldlM addTransfer total = .error e → ∃ t ∈ ts, t.validateBasic = .error e
  | [], total, _, _ => ⟨fun _ => ⟨total, rfl⟩, fun e h => by simp [pure, Except.pure] at h⟩
  | t :: rest, total, validTotal, fits => by
    cases valid : t.validateBasic with
    | error invalid =>
      -- the loop stops at the first invalid transfer
      have stopped : (t :: rest).foldlM addTransfer total = .error invalid := by
        rw [List.foldlM_cons, addTransfer, valid]
        rfl
      refine ⟨fun all => ?_, fun e h => ?_⟩
      · have validT := all t List.mem_cons_self
        rw [valid] at validT
        cases validT
      · rw [stopped] at h
        cases h
        exact ⟨t, List.mem_cons_self, valid⟩
    | ok _ =>
      have later : ∀ denom, 0 ≤ (rest.map fun t => |CoinSet.amt t.coins denom|).sum :=
        fun denom => List.sum_nonneg fun x member => by
          obtain ⟨t', -, rfl⟩ := List.mem_map.mp member
          exact abs_nonneg _
      simp only [List.map_cons, List.sum_cons] at fits
      have step := addTransfer_of_fits validTotal valid fun denom => by
        linarith [fits denom, later denom, le_abs_self (CoinSet.amt t.coins denom)]
      obtain ⟨ok, failed⟩ := foldlM_addTransfer_of_fits rest (Coins.add total t.coins)
        (Coins.isValid_add validTotal (Transfer.validateBasic_eq_ok.mp valid).2.1)
        fun denom => by
          rw [Coins.amt_add]
          linarith [fits denom, le_abs_self (CoinSet.amt t.coins denom)]
      refine ⟨fun all => ?_, fun e h => ?_⟩
      · obtain ⟨total', run⟩ := ok fun t' member => all t' (List.mem_cons_of_mem t member)
        exact ⟨total', by rw [List.foldlM_cons, step]; exact run⟩
      · rw [List.foldlM_cons, step] at h
        obtain ⟨t', member, invalid⟩ := failed e h
        exact ⟨t', List.mem_cons_of_mem t member, invalid⟩

/-- The sum of transfers that fit adds up valid transfers without a panic, and fails only on a
`ValidateBasic`. -/
theorem sumTransfers_of_fits {ts : List Transfer} (fits : TransfersFit ts) :
    ((∀ t ∈ ts, t.validateBasic = .ok ()) → ∃ total, sumTransfers ts = .ok total) ∧
      ∀ e, sumTransfers ts = .error e → ∃ t ∈ ts, t.validateBasic = .error e :=
  foldlM_addTransfer_of_fits ts [] rfl fun denom => by
    rw [CoinSet.amt_nil, zero_add]
    exact fits denom

/-- On valid transfers the source's `AmountOf` is the keyed sum of the amounts. -/
theorem sum_amountOf {ts : List Transfer} (valid : ∀ t ∈ ts, t.validateBasic = .ok ())
    (denom : String) :
    (ts.map fun t => Coins.amountOf t.coins denom).sum =
      (ts.map fun t => CoinSet.amt t.coins denom).sum := by
  congr 1
  refine List.map_congr_left fun t ht => ?_
  exact Coins.amountOf_eq_amt
    (CoinSet.sorted_of_isValid (Transfer.validateBasic_eq_ok.mp (valid t ht)).2.1) denom

/-! ## `ValidateInputsOutputs` -/

/-- `ValidateInputsOutputs` of inputs and outputs that fit returns `nil` exactly on valid ones
that hold the same amount of every denomination. -/
theorem validateInputsOutputs_eq_ok_iff {inputs outputs : List Transfer}
    (fitsIn : TransfersFit inputs) (fitsOut : TransfersFit outputs) :
    validateInputsOutputs inputs outputs = .ok () ↔
      (∀ t ∈ inputs ++ outputs, t.validateBasic = .ok ()) ∧
        ∀ denom, (inputs.map fun t => Coins.amountOf t.coins denom).sum =
          (outputs.map fun t => Coins.amountOf t.coins denom).sum := by
  constructor
  · intro h
    unfold validateInputsOutputs at h
    obtain ⟨totalIn, hin, rest⟩ := Fallible.bind_eq_ok.mp h
    obtain ⟨totalOut, hout, -⟩ := Fallible.bind_eq_ok.mp rest
    have validIn := valid_of_sumTransfers_eq_ok hin
    have validOut := valid_of_sumTransfers_eq_ok hout
    refine ⟨fun t ht => (List.mem_append.mp ht).elim (validIn t) (validOut t), fun denom => ?_⟩
    rw [sum_amountOf validIn, sum_amountOf validOut]
    exact validateInputsOutputs_balanced h denom
  · rintro ⟨valid, balanced⟩
    have validIn : ∀ t ∈ inputs, t.validateBasic = .ok () :=
      fun t ht => valid t (List.mem_append_left outputs ht)
    have validOut : ∀ t ∈ outputs, t.validateBasic = .ok () :=
      fun t ht => valid t (List.mem_append_right inputs ht)
    obtain ⟨totalIn, hin⟩ := (sumTransfers_of_fits fitsIn).1 validIn
    obtain ⟨totalOut, hout⟩ := (sumTransfers_of_fits fitsOut).1 validOut
    -- the two sums are valid sets with the same amounts, so `IsEqual` finds them equal
    have equal : Coins.isEqual totalIn totalOut = .ok true := by
      refine (Coins.isEqual_eq_ok_true_iff (isValid_sumTransfers hin)
        (isValid_sumTransfers hout)).mpr fun denom => ?_
      rw [Coins.amountOf_eq_amt (CoinSet.sorted_of_isValid (isValid_sumTransfers hin)),
        Coins.amountOf_eq_amt (CoinSet.sorted_of_isValid (isValid_sumTransfers hout)),
        amt_sumTransfers hin, amt_sumTransfers hout, ← sum_amountOf validIn,
        ← sum_amountOf validOut]
      exact balanced denom
    unfold validateInputsOutputs
    rw [hin, hout]
    change (Coins.isEqual totalIn totalOut >>= fun b => if !b then throw errInputOutputMismatch
      else pure ()) = .ok ()
    rw [equal]
    rfl

/-- The errors of `ValidateInputsOutputs` of inputs and outputs that fit: a failed
`ValidateBasic`, the mismatch, or the panic of `Coin.IsEqual` when the two sums have as many
coins and different denominations. -/
theorem validateInputsOutputs_eq_error {inputs outputs : List Transfer} {e : SdkError}
    (fitsIn : TransfersFit inputs) (fitsOut : TransfersFit outputs)
    (h : validateInputsOutputs inputs outputs = .error e) :
    (∃ t ∈ inputs ++ outputs, t.validateBasic = .error e) ∨ e = errInputOutputMismatch ∨
      ∃ totalIn totalOut, sumTransfers inputs = .ok totalIn ∧
        sumTransfers outputs = .ok totalOut ∧ totalIn.length = totalOut.length ∧
        totalIn.map CoinOf.denom ≠ totalOut.map CoinOf.denom ∧
        ∃ a b : String, a ≠ b ∧ e = .panic s!"invalid coin denominations; {a}, {b}" := by
  unfold validateInputsOutputs at h
  rcases Fallible.bind_eq_error.mp h with failedIn | ⟨totalIn, hin, h⟩
  · obtain ⟨t, ht, failed⟩ := (sumTransfers_of_fits fitsIn).2 e failedIn
    exact .inl ⟨t, List.mem_append_left outputs ht, failed⟩
  rcases Fallible.bind_eq_error.mp h with failedOut | ⟨totalOut, hout, h⟩
  · obtain ⟨t, ht, failed⟩ := (sumTransfers_of_fits fitsOut).2 e failedOut
    exact .inl ⟨t, List.mem_append_right inputs ht, failed⟩
  rcases Fallible.bind_eq_error.mp h with panicked | ⟨equal, -, h⟩
  · -- the sums are sorted, so `IsEqual` compares them as they are
    obtain ⟨sameLength, differ, message⟩ := CoinSet.isEqual_eq_error_of_sorted
      (CoinSet.sorted_of_isValid (isValid_sumTransfers hin))
      (CoinSet.sorted_of_isValid (isValid_sumTransfers hout)) panicked
    exact .inr (.inr ⟨totalIn, totalOut, hin, hout, sameLength, differ, message⟩)
  · cases equal with
    | false => exact .inr (.inl (Except.error.inj h).symm)
    | true => simp [pure, Except.pure] at h

/-- On inputs and outputs whose amounts of each denomination add up within an `sdk.Int`,
`ValidateInputsOutputs` returns `nil` exactly on valid inputs and outputs whose sums agree on
every denomination; its other results are the first failed `ValidateBasic`, the mismatch
error, and the panic of `Coin.IsEqual` when the two sums have as many coins and different
denominations. `Coins.IsEqual` on valid sets is true exactly on equal amounts, does not panic
on sets of different lengths or of the same denominations, and panics only on sets of one
length with different denominations. -/
theorem inputs_outputs_validation (inputs outputs : List Transfer)
    (fitsIn : TransfersFit inputs) (fitsOut : TransfersFit outputs) :
    (validateInputsOutputs inputs outputs = .ok () ↔
      (∀ t ∈ inputs ++ outputs, t.validateBasic = .ok ()) ∧
        ∀ denom, (inputs.map fun t => Coins.amountOf t.coins denom).sum =
          (outputs.map fun t => Coins.amountOf t.coins denom).sum) ∧
    (∀ e, validateInputsOutputs inputs outputs = .error e →
      (∃ t ∈ inputs ++ outputs, t.validateBasic = .error e) ∨ e = errInputOutputMismatch ∨
      ∃ totalIn totalOut, sumTransfers inputs = .ok totalIn ∧
        sumTransfers outputs = .ok totalOut ∧ totalIn.length = totalOut.length ∧
        totalIn.map CoinOf.denom ≠ totalOut.map CoinOf.denom ∧
        ∃ a b : String, a ≠ b ∧ e = .panic s!"invalid coin denominations; {a}, {b}") ∧
    ∀ coins coinsB : Coins, Coins.isValid coins = true → Coins.isValid coinsB = true →
      (Coins.isEqual coins coinsB = .ok true ↔
        ∀ denom, Coins.amountOf coins denom = Coins.amountOf coinsB denom) ∧
      (coins.length ≠ coinsB.length ∨ coins.map CoinOf.denom = coinsB.map CoinOf.denom →
        ∃ b, Coins.isEqual coins coinsB = .ok b) ∧
      ∀ e, Coins.isEqual coins coinsB = .error e →
        coins.length = coinsB.length ∧ coins.map CoinOf.denom ≠ coinsB.map CoinOf.denom := by
  refine ⟨validateInputsOutputs_eq_ok_iff fitsIn fitsOut,
    fun e h => validateInputsOutputs_eq_error fitsIn fitsOut h, fun coins coinsB valid validB => ?_⟩
  have sorted := CoinSet.sorted_of_isValid valid
  have sortedB := CoinSet.sorted_of_isValid validB
  refine ⟨Coins.isEqual_eq_ok_true_iff valid validB, CoinSet.isEqual_no_panic sorted sortedB,
    fun e h => ?_⟩
  obtain ⟨sameLength, differ, -⟩ := CoinSet.isEqual_eq_error_of_sorted sorted sortedB h
  exact ⟨sameLength, differ⟩

/-- A multi-send of `2aaa` from one input to two outputs of `1aaa`. -/
def splitInputs : List Transfer := [⟨[1], [⟨"aaa", 2⟩]⟩]

def splitOutputs : List Transfer := [⟨[2], [⟨"aaa", 1⟩]⟩, ⟨[3], [⟨"aaa", 1⟩]⟩]

theorem splitInputs_fit : TransfersFit splitInputs := by
  intro denom
  simp only [splitInputs, List.map_cons, List.map_nil, List.sum_cons, List.sum_nil,
    CoinSet.amt_cons, CoinSet.amt_nil]
  unfold maxBitLen
  split_ifs <;> norm_num

theorem splitOutputs_fit : TransfersFit splitOutputs := by
  intro denom
  simp only [splitOutputs, List.map_cons, List.map_nil, List.sum_cons, List.sum_nil,
    CoinSet.amt_cons, CoinSet.amt_nil]
  unfold maxBitLen
  split_ifs <;> norm_num

theorem inputs_outputs_validation_split :
    (TransfersFit splitInputs ∧ TransfersFit splitOutputs) ∧
    (validateInputsOutputs splitInputs splitOutputs = .ok () ↔
      (∀ t ∈ splitInputs ++ splitOutputs, t.validateBasic = .ok ()) ∧
        ∀ denom, (splitInputs.map fun t => Coins.amountOf t.coins denom).sum =
          (splitOutputs.map fun t => Coins.amountOf t.coins denom).sum) ∧
    (∀ e, validateInputsOutputs splitInputs splitOutputs = .error e →
      (∃ t ∈ splitInputs ++ splitOutputs, t.validateBasic = .error e) ∨
        e = errInputOutputMismatch ∨
      ∃ totalIn totalOut, sumTransfers splitInputs = .ok totalIn ∧
        sumTransfers splitOutputs = .ok totalOut ∧ totalIn.length = totalOut.length ∧
        totalIn.map CoinOf.denom ≠ totalOut.map CoinOf.denom ∧
        ∃ a b : String, a ≠ b ∧ e = .panic s!"invalid coin denominations; {a}, {b}") ∧
    ∀ coins coinsB : Coins, Coins.isValid coins = true → Coins.isValid coinsB = true →
      (Coins.isEqual coins coinsB = .ok true ↔
        ∀ denom, Coins.amountOf coins denom = Coins.amountOf coinsB denom) ∧
      (coins.length ≠ coinsB.length ∨ coins.map CoinOf.denom = coinsB.map CoinOf.denom →
        ∃ b, Coins.isEqual coins coinsB = .ok b) ∧
      ∀ e, Coins.isEqual coins coinsB = .error e →
        coins.length = coinsB.length ∧ coins.map CoinOf.denom ≠ coinsB.map CoinOf.denom :=
  ⟨⟨splitInputs_fit, splitOutputs_fit⟩,
    inputs_outputs_validation splitInputs splitOutputs splitInputs_fit splitOutputs_fit⟩

-- Without the widths, `Int.Add` panics: two inputs of `3 * 2 ^ 253` of one denomination add up
-- to more than an `sdk.Int` holds.
example : validateInputsOutputs [⟨[1], [⟨"aaa", 3 * 2 ^ 253⟩]⟩, ⟨[2], [⟨"aaa", 3 * 2 ^ 253⟩]⟩]
    [⟨[3], [⟨"aaa", 3 * 2 ^ 253⟩]⟩, ⟨[4], [⟨"aaa", 3 * 2 ^ 253⟩]⟩] =
      throw (.panic "Int overflow") := by
  decide +kernel

/-- Inputs `{1aaa}` and outputs `{1bbb}`: both sums are valid and have one coin, so `IsEqual`
meets two denominations at its first place and panics, where a clean mismatch error was
expected. -/
theorem multisend_panics_on_other_denom :
    Coins.isValid [⟨"aaa", 1⟩] = true ∧ Coins.isValid [⟨"bbb", 1⟩] = true ∧
      Coins.isEqual [⟨"aaa", 1⟩] [⟨"bbb", 1⟩] =
        throw (.panic "invalid coin denominations; aaa, bbb") ∧
      validateInputsOutputs [⟨[1], [⟨"aaa", 1⟩]⟩] [⟨[2], [⟨"bbb", 1⟩]⟩] =
        throw (.panic "invalid coin denominations; aaa, bbb") := by
  decide +kernel

end Bank

end Pocc
