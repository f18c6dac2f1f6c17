import Pocc.Bank.Keeper
import Pocc.Types.DecCoin

/-!
# The balance invariant of vesting accounts

x/auth/types/account.go: a vesting account delegates its vesting coins first
(`trackDelegation`: `X := min(max(V - DV, 0), D)`), takes an undelegation back into its free
delegation first (`TrackUndelegation`: `X := min(DF, D)`, `Y := min(DV, D - X)`), and may
spend `min((BC + DV) - V, BC)` of each coin it holds, where `V` is what is still vesting at the
block time.

The elapsed time and the length of a continuous schedule are Go `int64` differences, which
wrap; a schedule shorter than `2^63` seconds (`ScheduleFits`) keeps them exact, and then the
elapsed fraction lies in `[0, 1]`.

`VestingAccount.Sound` is what makes these formulas safe, per denomination: the schedule fits,
both delegated amounts stay non-negative, and the coins held with the vesting part of the
delegation cover what is still vesting, `V ≤ BC + DV`. A new vesting account whose schedule
fits is sound at every time, and every step of `Vesting.Step` keeps every account of the store
sound: the two tracking functions, `SubtractCoins` within what is spendable, `AddCoins`, and
the block time moving on, since what is still vesting never grows (`vestingAmount_antitone`).
So `spendableCoins` gives no coin a negative amount and never more than is held, and
`TrackUndelegation` never takes more than is delegated (`vesting_balance_invariant`, along a
run that delegates, waits and spends in `vesting_balance_invariant_delegation_run`).

`Coins.IsValid` checks only the first denomination against `validateDenom`, so `AddCoins`
can give an account a coin that `NewCoin` rejects, and `spendableCoins` then panics on it
(`spendableCoins_panics_on_unchecked_denom`).
-/

namespace Pocc

/-! ## What vests, per denomination -/

namespace VestingAccount

/-- The amount of one denomination of a continuous schedule vested at `blockTime`, strictly
inside the schedule: `GetVestedCoins` scales the original amount by the elapsed fraction of
the schedule, both `int64` differences, then rounds. -/
def continuousVested (amount startTime endTime blockTime : Int) : Int :=
  Dec.roundInt (Dec.mul (Dec.ofInt amount)
    (Dec.quo (Dec.ofInt (int64 (blockTime - startTime))) (Dec.ofInt (int64 (endTime - startTime)))))

/-- A continuous schedule is shorter than `2^63` seconds, so that the `int64` differences of
`GetVestedCoins` do not wrap; a delayed one always is. -/
def ScheduleFits (v : VestingAccount) : Prop :=
  ∀ startTime, v.schedule = .continuous startTime → v.endTime - startTime < 2 ^ 63

/-- The amount of `denom` vested at `blockTime`: `GetVestedCoins`, read per denomination. -/
def vestedAmount (v : VestingAccount) (blockTime : Int) (denom : String) : Int :=
  match v.schedule with
  | .continuous startTime =>
    if blockTime ≤ startTime then 0
    else if v.endTime ≤ blockTime then CoinSet.amt v.originalVesting denom
    else continuousVested (CoinSet.amt v.originalVesting denom) startTime v.endTime blockTime
  | .delayed => if v.endTime ≤ blockTime then CoinSet.amt v.originalVesting denom else 0

/-- The amount of `denom` still vesting at `blockTime`. -/
def vestingAmount (v : VestingAccount) (blockTime : Int) (denom : String) : Int :=
  CoinSet.amt v.originalVesting denom - v.vestedAmount blockTime denom

section Continuous

variable {amount startTime endTime : Int}

/-- Inside a schedule shorter than `2^63` seconds neither difference wraps. -/
theorem int64_elapsed {blockTime : Int} (hstart : startTime < blockTime)
    (hend : blockTime < endTime) (span : endTime - startTime < 2 ^ 63) :
    int64 (blockTime - startTime) = blockTime - startTime ∧
      int64 (endTime - startTime) = endTime - startTime :=
  ⟨int64_of_isInt64 ⟨by omega, by omega⟩, int64_of_isInt64 ⟨by omega, by omega⟩⟩

theorem continuousVested_of_span {blockTime : Int} (hstart : startTime < blockTime)
    (hend : blockTime < endTime) (span : endTime - startTime < 2 ^ 63) :
    continuousVested amount startTime endTime blockTime =
      Dec.roundInt (Dec.mul (Dec.ofInt amount)
        (Dec.quo (Dec.ofInt (blockTime - startTime)) (Dec.ofInt (endTime - startTime)))) := by
  obtain ⟨elapsed, length⟩ := int64_elapsed hstart hend span
  rw [continuousVested, elapsed, length]

theorem continuousVested_zero (startTime endTime blockTime : Int) :
    continuousVested 0 startTime endTime blockTime = 0 := by
  have zero : Dec.ofInt 0 = 0 := Dec.ext_int (Int.zero_mul _)
  rw [continuousVested, zero, Dec.zero_mul, ← zero, Dec.roundInt_ofInt (le_refl 0)]

theorem continuousVested_nonneg {blockTime : Int} (ha : 0 ≤ amount)
    (hstart : startTime < blockTime) (hend : blockTime < endTime)
    (span : endTime - startTime < 2 ^ 63) :
    0 ≤ continuousVested amount startTime endTime blockTime := by
  rw [continuousVested_of_span hstart hend span]
  exact Dec.roundInt_nonneg (Dec.mul_nonneg (Dec.ofInt_nonneg ha)
    (Dec.quo_nonneg (by omega) (by omega)))

/-- The elapsed fraction is at most one, so no more than the amount vests. -/
theorem continuousVested_le {blockTime : Int} (ha : 0 ≤ amount)
    (hstart : startTime < blockTime) (hend : blockTime < endTime)
    (span : endTime - startTime < 2 ^ 63) :
    continuousVested amount startTime endTime blockTime ≤ amount := by
  have fraction := Dec.quo_le_oneDec (x := blockTime - startTime) (y := endTime - startTime)
    (by omega) (by omega) (by omega)
  rw [continuousVested_of_span hstart hend span]
  calc _
      ≤ (Dec.ofInt amount).roundInt :=
        Dec.roundInt_mono (Dec.mul_nonneg (Dec.ofInt_nonneg ha)
            (Dec.quo_nonneg (by omega) (by omega)))
          (Dec.mul_le_self (Dec.ofInt_nonneg ha) (Dec.quo_nonneg (by omega) (by omega)) fraction)
    _ = amount := Dec.roundInt_ofInt ha

theorem continuousVested_mono {blockTime blockTime' : Int} (ha : 0 ≤ amount)
    (hstart : startTime < blockTime) (later : blockTime ≤ blockTime')
    (hend : blockTime' < endTime) (span : endTime - startTime < 2 ^ 63) :
    continuousVested amount startTime endTime blockTime ≤
      continuousVested amount startTime endTime blockTime' := by
  rw [continuousVested_of_span hstart (by omega) span,
    continuousVested_of_span (by omega) hend span]
  exact Dec.roundInt_mono
    (Dec.mul_nonneg (Dec.ofInt_nonneg ha) (Dec.quo_nonneg (by omega) (by omega)))
    (Dec.mul_mono_right (Dec.ofInt_nonneg ha) (Dec.quo_nonneg (by omega) (by omega))
      (Dec.quo_mono (by omega) (by omega) (by omega)))

end Continuous

section Schedule

variable {v : VestingAccount} {denom : String} (fits : v.ScheduleFits)
include fits

theorem vestedAmount_nonneg (original : 0 ≤ CoinSet.amt v.originalVesting denom)
    (blockTime : Int) : 0 ≤ v.vestedAmount blockTime denom := by
  unfold vestedAmount
  split
  · next startTime schedule =>
    split_ifs with before after
    · exact le_refl 0
    · exact original
    · exact continuousVested_nonneg original (by omega) (by omega) (fits startTime schedule)
  · split_ifs
    · exact original
    · exact le_refl 0

theorem vestedAmount_le (original : 0 ≤ CoinSet.amt v.originalVesting denom)
    (blockTime : Int) : v.vestedAmount blockTime denom ≤ CoinSet.amt v.originalVesting denom := by
  unfold vestedAmount
  split
  · next startTime schedule =>
    split_ifs with before after
    · exact original
    · exact le_refl _
    · exact continuousVested_le original (by omega) (by omega) (fits startTime schedule)
  · split_ifs
    · exact le_refl _
    · exact original

/-- What has vested never shrinks as the block time moves on. -/
theorem vestedAmount_mono (original : 0 ≤ CoinSet.amt v.originalVesting denom)
    {blockTime blockTime' : Int} (later : blockTime ≤ blockTime') :
    v.vestedAmount blockTime denom ≤ v.vestedAmount blockTime' denom := by
  have low := vestedAmount_nonneg fits original blockTime'
  have high := vestedAmount_le fits original blockTime
  unfold vestedAmount at low high ⊢
  cases schedule : v.schedule with
  | continuous startTime =>
    simp only [schedule] at low high ⊢
    -- before the start nothing has vested, and after the end everything has
    by_cases before : blockTime ≤ startTime
    · rw [if_pos before] at high ⊢
      exact low
    by_cases after : v.endTime ≤ blockTime'
    · rw [if_neg before] at high ⊢
      rw [if_neg (show ¬ blockTime' ≤ startTime by omega), if_pos after]
      exact high
    · rw [if_neg before, if_neg (by omega), if_neg (by omega), if_neg after]
      exact continuousVested_mono original (by omega) later (by omega) (fits startTime schedule)
  | delayed =>
    simp only [schedule] at low high ⊢
    split_ifs at high low ⊢ <;> omega

/-- What is still vesting never grows as the block time moves on. -/
theorem vestingAmount_antitone (original : 0 ≤ CoinSet.amt v.originalVesting denom)
    {blockTime blockTime' : Int} (later : blockTime ≤ blockTime') :
    v.vestingAmount blockTime' denom ≤ v.vestingAmount blockTime denom := by
  have grows := vestedAmount_mono fits original later
  unfold vestingAmount
  omega

theorem vestingAmount_le (original : 0 ≤ CoinSet.amt v.originalVesting denom)
    (blockTime : Int) : v.vestingAmount blockTime denom ≤ CoinSet.amt v.originalVesting denom := by
  have vested := vestedAmount_nonneg fits original blockTime
  unfold vestingAmount
  omega

end Schedule

/-! ## `GetVestedCoins` and `GetVestingCoins` per denomination -/

/-- Rewriting every amount of a sorted set by a function that keeps zero rewrites the amount of
every denomination by it. -/
theorem amt_map_amount {coins : Coins} (sorted : CoinSet.Sorted coins) (f : Int → Int)
    (zero : f 0 = 0) (denom : String) :
    CoinSet.amt (coins.map fun c => (⟨c.denom, f c.amount⟩ : Coin)) denom =
      f (CoinSet.amt coins denom) := by
  have sortedMap := CoinSet.sorted_map (fun c => (⟨c.denom, f c.amount⟩ : Coin)) (fun _ => rfl)
    sorted
  by_cases held : ∃ c ∈ coins, c.denom = denom
  · obtain ⟨c, mem, rfl⟩ := held
    rw [CoinSet.amt_of_mem sorted mem]
    exact CoinSet.amt_of_mem sortedMap (List.mem_map_of_mem mem)
  · have absent : ∀ c ∈ coins, c.denom ≠ denom := fun c mem same => held ⟨c, mem, same⟩
    rw [CoinSet.amt_eq_zero_of_forall_ne absent, zero]
    refine CoinSet.amt_eq_zero_of_forall_ne fun c' mem' => ?_
    obtain ⟨c, mem, rfl⟩ := List.mem_map.mp mem'
    exact absent c mem

/-- A coin `GetVestedCoins` builds keeps the denomination and rounds the scaled amount. -/
theorem vestedCoin_eq_ok {s : Dec} {ovc c : Coin} (h : vestedCoin s ovc = .ok c) :
    c = ⟨ovc.denom, (Dec.mul (Dec.ofInt ovc.amount) s).roundInt⟩ := by
  obtain ⟨vested, checked, h⟩ := Fallible.bind_eq_ok.mp h
  obtain ⟨-, rfl⟩ := checkDec_eq_ok checked
  obtain ⟨amt, rounded, h⟩ := Fallible.bind_eq_ok.mp h
  obtain ⟨-, rfl⟩ := checkInt_eq_ok rounded
  exact (Coins.newCoin_eq_ok h).2.2

/-- `GetVestedCoins` of a sorted original vesting is sorted, and holds of each denomination
what `vestedAmount` says. -/
theorem getVestedCoins_spec {v : VestingAccount} {blockTime : Int} {vested : Coins}
    (sorted : CoinSet.Sorted v.originalVesting) (h : v.getVestedCoins blockTime = .ok vested) :
    CoinSet.Sorted vested ∧ ∀ denom, CoinSet.amt vested denom = v.vestedAmount blockTime denom := by
  unfold getVestedCoins at h
  unfold vestedAmount
  -- a case split on the schedule, in the goal and in `h` alike
  cases schedule : v.schedule with
  | continuous startTime =>
    simp only [schedule] at h ⊢
    split_ifs at h ⊢ with before after
    · rw [← Fallible.pure_eq_ok.mp h]
      exact ⟨List.Pairwise.nil, fun _ => rfl⟩
    · rw [← Fallible.pure_eq_ok.mp h]
      exact ⟨sorted, fun _ => rfl⟩
    · -- every coin of the original vesting is scaled on its own, by the fraction `Quo` gave
      obtain ⟨scalar, quotient, h⟩ := Fallible.bind_eq_ok.mp h
      obtain ⟨-, rfl⟩ := Dec.quoChecked_eq_ok quotient
      have scaled := Fallible.mapM_eq_ok _
        (fun c : Coin => (⟨c.denom, continuousVested c.amount startTime v.endTime blockTime⟩ : Coin))
        (fun c c' hc => vestedCoin_eq_ok hc) v.originalVesting vested h
      rw [scaled]
      exact ⟨CoinSet.sorted_map
          (fun c : Coin => (⟨c.denom, continuousVested c.amount startTime v.endTime blockTime⟩ : Coin))
          (fun _ => rfl) sorted, fun denom =>
        amt_map_amount sorted (fun a => continuousVested a startTime v.endTime blockTime)
          (continuousVested_zero startTime v.endTime blockTime) denom⟩
  | delayed =>
    simp only [schedule] at h ⊢
    rw [← Fallible.pure_eq_ok.mp h]
    split_ifs
    · exact ⟨sorted, fun _ => rfl⟩
    · exact ⟨List.Pairwise.nil, fun _ => rfl⟩

/-- `GetVestingCoins` of a sorted original vesting is sorted, and holds of each denomination
what `vestingAmount` says. -/
theorem getVestingCoins_spec {v : VestingAccount} {blockTime : Int} {vesting : Coins}
    (sorted : CoinSet.Sorted v.originalVesting) (h : v.getVestingCoins blockTime = .ok vesting) :
    CoinSet.Sorted vesting ∧ ∀ denom, CoinSet.amt vesting denom = v.vestingAmount blockTime denom := by
  obtain ⟨vested, hvested, hsub⟩ := Fallible.bind_eq_ok.mp h
  obtain ⟨sortedVested, amounts⟩ := getVestedCoins_spec sorted hvested
  refine ⟨Coins.sorted_sub hsub sorted sortedVested, fun denom => ?_⟩
  rw [Coins.amt_sub hsub, amounts, vestingAmount]

/-! ## The invariant -/

/-- A vesting account holding `coins` is sound at `blockTime`: its sets are sorted and hold no
negative amount, and the coins held with the vesting part of the delegation cover what is
still vesting, denomination by denomination. -/
structure Sound (v : VestingAccount) (coins : Coins) (blockTime : Int) : Prop where
  scheduleFits : v.ScheduleFits
  originalSorted : CoinSet.Sorted v.originalVesting
  originalNonneg : ∀ denom, 0 ≤ CoinSet.amt v.originalVesting denom
  coinsSorted : CoinSet.Sorted coins
  coinsNonneg : ∀ denom, 0 ≤ CoinSet.amt coins denom
  freeSorted : CoinSet.Sorted v.delegatedFree
  vestingSorted : CoinSet.Sorted v.delegatedVesting
  freeNonneg : ∀ denom, 0 ≤ CoinSet.amt v.delegatedFree denom
  vestingNonneg : ∀ denom, 0 ≤ CoinSet.amt v.delegatedVesting denom
  covered : ∀ denom,
    v.vestingAmount blockTime denom ≤ CoinSet.amt coins denom + CoinSet.amt v.delegatedVesting denom

/-- Time moving on keeps an account sound: what is still vesting only shrinks. -/
theorem Sound.advance {v : VestingAccount} {coins : Coins} {blockTime blockTime' : Int}
    (sound : v.Sound coins blockTime) (later : blockTime ≤ blockTime') :
    v.Sound coins blockTime' :=
  { sound with
    covered := fun denom =>
      le_trans (vestingAmount_antitone sound.scheduleFits (sound.originalNonneg denom) later)
        (sound.covered denom) }

/-- `addDelegated` adds `x` to the delegated vesting and `y` to the delegated free amount of
`denom`; both are non-negative when it succeeds. -/
theorem addDelegated_spec {v v' : VestingAccount} {denom : String} {x y : Int}
    (h : v.addDelegated denom x y = .ok v') :
    ∃ vesting free, v' = { v with delegatedVesting := vesting, delegatedFree := free } ∧
      0 ≤ x ∧ 0 ≤ y ∧
      (∀ d, CoinSet.amt vesting d = CoinSet.amt v.delegatedVesting d + CoinSet.amt [⟨denom, x⟩] d) ∧
      (∀ d, CoinSet.amt free d = CoinSet.amt v.delegatedFree d + CoinSet.amt [⟨denom, y⟩] d) ∧
      (CoinSet.Sorted v.delegatedVesting → CoinSet.Sorted vesting) ∧
      (CoinSet.Sorted v.delegatedFree → CoinSet.Sorted free) := by
  unfold addDelegated at h
  dsimp only at h
  -- the free part is recorded over what the vesting part left, a zero part not at all
  have freePart : ∀ v₁ : VestingAccount,
      (if y ≠ 0 then do
          let yCoin ← Coins.newCoin denom y
          pure { v₁ with delegatedFree := Coins.add v₁.delegatedFree [yCoin] }
        else pure v₁) = .ok v' →
      ∃ free, v' = { v₁ with delegatedFree := free } ∧ 0 ≤ y ∧
        (∀ d, CoinSet.amt free d = CoinSet.amt v₁.delegatedFree d + CoinSet.amt [⟨denom, y⟩] d) ∧
        (CoinSet.Sorted v₁.delegatedFree → CoinSet.Sorted free) := by
    intro v₁ hfree
    split at hfree
    · obtain ⟨yCoin, hcoin, hfree⟩ := Fallible.bind_eq_ok.mp hfree
      obtain ⟨-, hy, rfl⟩ := Coins.newCoin_eq_ok hcoin
      exact ⟨_, (Fallible.pure_eq_ok.mp hfree).symm, hy, Coins.amt_add _ _,
        fun sorted => Coins.sorted_add sorted (List.pairwise_singleton _ _)⟩
    · next zero =>
      have zero : y = 0 := by simpa using zero
      exact ⟨v₁.delegatedFree, (Fallible.pure_eq_ok.mp hfree).symm, le_of_eq zero.symm,
        fun d => by simp [zero], id⟩
  split at h
  · obtain ⟨xCoin, hcoin, h⟩ := Fallible.bind_eq_ok.mp h
    obtain ⟨-, hx, rfl⟩ := Coins.newCoin_eq_ok hcoin
    obtain ⟨v₁, h₁, h⟩ := Fallible.bind_eq_ok.mp h
    obtain rfl := Fallible.pure_eq_ok.mp h₁
    obtain ⟨free, rfl, hy, amtFree, sortedFree⟩ := freePart _ h
    exact ⟨_, free, rfl, hx, hy, Coins.amt_add _ _, amtFree,
      fun sorted => Coins.sorted_add sorted (List.pairwise_singleton _ _), sortedFree⟩
  · next zero =>
    obtain rfl : x = 0 := by simpa using zero
    obtain ⟨v₁, h₁, h⟩ := Fallible.bind_eq_ok.mp h
    obtain rfl := Fallible.pure_eq_ok.mp h₁
    obtain ⟨free, rfl, hy, amtFree, sortedFree⟩ := freePart _ h
    exact ⟨v.delegatedVesting, free, rfl, le_refl 0, hy, fun d => by simp, amtFree, id, sortedFree⟩

/-- `subDelegated` takes `x` from the delegated free and `y` from the delegated vesting amount
of `denom`; both are non-negative when it succeeds. -/
theorem subDelegated_spec {v v' : VestingAccount} {denom : String} {x y : Int}
    (h : v.subDelegated denom x y = .ok v') :
    ∃ free vesting, v' = { v with delegatedFree := free, delegatedVesting := vesting } ∧
      0 ≤ x ∧ 0 ≤ y ∧
      (∀ d, CoinSet.amt free d = CoinSet.amt v.delegatedFree d - CoinSet.amt [⟨denom, x⟩] d) ∧
      (∀ d, CoinSet.amt vesting d = CoinSet.amt v.delegatedVesting d - CoinSet.amt [⟨denom, y⟩] d) ∧
      (CoinSet.Sorted v.delegatedFree → CoinSet.Sorted free) ∧
      (CoinSet.Sorted v.delegatedVesting → CoinSet.Sorted vesting) := by
  unfold subDelegated at h
  dsimp only at h
  -- the vesting part is given back from what the free part left, a zero part not at all
  have vestingPart : ∀ v₁ : VestingAccount,
      (if y ≠ 0 then do
          let yCoin ← Coins.newCoin denom y
          let diff ← Coins.sub v₁.delegatedVesting [yCoin]
          pure { v₁ with delegatedVesting := diff }
        else pure v₁) = .ok v' →
      ∃ vesting, v' = { v₁ with delegatedVesting := vesting } ∧ 0 ≤ y ∧
        (∀ d, CoinSet.amt vesting d =
          CoinSet.amt v₁.delegatedVesting d - CoinSet.amt [⟨denom, y⟩] d) ∧
        (CoinSet.Sorted v₁.delegatedVesting → CoinSet.Sorted vesting) := by
    intro v₁ hvesting
    split at hvesting
    · obtain ⟨yCoin, hcoin, hvesting⟩ := Fallible.bind_eq_ok.mp hvesting
      obtain ⟨-, hy, rfl⟩ := Coins.newCoin_eq_ok hcoin
      obtain ⟨diff, hdiff, hvesting⟩ := Fallible.bind_eq_ok.mp hvesting
      exact ⟨diff, (Fallible.pure_eq_ok.mp hvesting).symm, hy, Coins.amt_sub hdiff,
        fun sorted => Coins.sorted_sub hdiff sorted (List.pairwise_singleton _ _)⟩
    · next zero =>
      have zero : y = 0 := by simpa using zero
      exact ⟨v₁.delegatedVesting, (Fallible.pure_eq_ok.mp hvesting).symm, le_of_eq zero.symm,
        fun d => by simp [zero], id⟩
  split at h
  · obtain ⟨xCoin, hcoin, h⟩ := Fallible.bind_eq_ok.mp h
    obtain ⟨-, hx, rfl⟩ := Coins.newCoin_eq_ok hcoin
    obtain ⟨diff, hdiff, h⟩ := Fallible.bind_eq_ok.mp h
    obtain ⟨v₁, h₁, h⟩ := Fallible.bind_eq_ok.mp h
    obtain rfl := Fallible.pure_eq_ok.mp h₁
    obtain ⟨vesting, rfl, hy, amtVesting, sortedVesting⟩ := vestingPart _ h
    exact ⟨diff, vesting, rfl, hx, hy, Coins.amt_sub hdiff, amtVesting,
      fun sorted => Coins.sorted_sub hdiff sorted (List.pairwise_singleton _ _), sortedVesting⟩
  · next zero =>
    obtain rfl : x = 0 := by simpa using zero
    obtain ⟨v₁, h₁, h⟩ := Fallible.bind_eq_ok.mp h
    obtain rfl := Fallible.pure_eq_ok.mp h₁
    obtain ⟨vesting, rfl, hy, amtVesting, sortedVesting⟩ := vestingPart _ h
    exact ⟨v.delegatedFree, vesting, rfl, le_refl 0, hy, fun d => by simp, amtVesting, id,
      sortedVesting⟩

/-- One coin of `trackDelegation` keeps the account sound: the vesting part
`X = min(max(V - DV, 0), D)` moves into the delegated vesting amount, so `BC + DV` loses
`D - X`, which `BC - D ≥ 0` and `X ≥ V - DV` make up for. -/
theorem trackDelegationCoin_sound {bc vestingCoins coins coins' : Coins} {w w' : VestingAccount}
    {coin : Coin} {blockTime : Int}
    (vesting : ∀ denom, Coins.amountOf vestingCoins denom = w.vestingAmount blockTime denom)
    (sound : w.Sound coins blockTime)
    (h : trackDelegationCoin bc vestingCoins (w, coins) coin = .ok (w', coins')) :
    w'.Sound coins' blockTime ∧ w'.vestingAmount = w.vestingAmount := by
  simp only [trackDelegationCoin] at h
  split at h
  · exact absurd h Fallible.throw_ne_ok
  obtain ⟨w₁, hadd, h⟩ := Fallible.bind_eq_ok.mp h
  obtain ⟨diff, hsub, h⟩ := Fallible.bind_eq_ok.mp h
  obtain ⟨rfl, rfl⟩ := Prod.ext_iff.mp (Fallible.pure_eq_ok.mp h)
  obtain ⟨vested, free, rfl, hx, hy, amtVested, amtFree, sortedVested, sortedFree⟩ :=
    addDelegated_spec hadd
  have taken := Coins.amt_sub hsub
  have within := Coins.amt_le_of_sub hsub sound.coinsSorted (List.pairwise_singleton _ _)
  have delVesting : Coins.amountOf w.delegatedVesting coin.denom =
      CoinSet.amt w.delegatedVesting coin.denom := CoinSet.amountOf_eq_amt sound.vestingSorted _
  have vestingAmt := vesting coin.denom
  refine ⟨⟨sound.scheduleFits, sound.originalSorted, sound.originalNonneg,
    Coins.sorted_sub hsub sound.coinsSorted (List.pairwise_singleton _ _), fun d => ?_,
    sortedFree sound.freeSorted, sortedVested sound.vestingSorted, fun d => ?_, fun d => ?_,
    fun d => ?_⟩, rfl⟩
  all_goals
    have enough := within d
    have freeNonneg := sound.freeNonneg d
    have vestingNonneg := sound.vestingNonneg d
    have cov := sound.covered d
    simp only [CoinSet.amt_cons, CoinSet.amt_nil, add_zero] at enough taken amtFree amtVested ⊢
  · rw [taken]
    omega
  · rw [amtFree]
    split <;> omega
  · rw [amtVested]
    split <;> omega
  · -- only the coin's own denomination moves
    show w.vestingAmount blockTime d ≤ _
    rw [taken, amtVested]
    by_cases same : coin.denom = d
    · subst same
      simp only [if_true] at enough ⊢
      omega
    · simp only [same, if_false] at enough ⊢
      omega

/-- One coin of `TrackUndelegation` keeps the account sound: it takes at most the delegated
free amount and then at most the delegated vesting amount, and the whole coin comes back. -/
theorem trackUndelegationCoin_sound {coins coins' : Coins} {w w' : VestingAccount}
    {coin : Coin} {blockTime : Int} (sound : w.Sound coins blockTime)
    (h : trackUndelegationCoin (w, coins) coin = .ok (w', coins')) :
    w'.Sound coins' blockTime ∧ w'.vestingAmount = w.vestingAmount := by
  simp only [trackUndelegationCoin] at h
  split at h
  · exact absurd h Fallible.throw_ne_ok
  obtain ⟨w₁, hsub, h⟩ := Fallible.bind_eq_ok.mp h
  obtain ⟨rfl, rfl⟩ := Prod.ext_iff.mp (Fallible.pure_eq_ok.mp h)
  obtain ⟨free, vested, rfl, hx, hy, amtFree, amtVested, sortedFree, sortedVested⟩ :=
    subDelegated_spec hsub
  have delFree : Coins.amountOf w.delegatedFree coin.denom =
      CoinSet.amt w.delegatedFree coin.denom := CoinSet.amountOf_eq_amt sound.freeSorted _
  have delVesting : Coins.amountOf w.delegatedVesting coin.denom =
      CoinSet.amt w.delegatedVesting coin.denom := CoinSet.amountOf_eq_amt sound.vestingSorted _
  refine ⟨⟨sound.scheduleFits, sound.originalSorted, sound.originalNonneg,
    Coins.sorted_add sound.coinsSorted (List.pairwise_singleton _ _), fun d => ?_,
    sortedFree sound.freeSorted, sortedVested sound.vestingSorted, fun d => ?_, fun d => ?_,
    fun d => ?_⟩, rfl⟩
  all_goals
    have coinsNonneg := sound.coinsNonneg d
    have freeNonneg := sound.freeNonneg d
    have vestingNonneg := sound.vestingNonneg d
    have cov := sound.covered d
    simp only [delFree, delVesting, Coins.amt_add, CoinSet.amt_cons, CoinSet.amt_nil, add_zero]
      at hx hy amtFree amtVested ⊢
  · split <;> omega
  · rw [amtFree]
    split
    · next same =>
      subst same
      omega
    · omega
  · rw [amtVested]
    split
    · next same =>
      subst same
      omega
    · omega
  · show w.vestingAmount blockTime d ≤ _
    rw [amtVested]
    split
    · next same =>
      subst same
      omega
    · omega

/-- `trackDelegation` keeps the account sound, given what is vesting at the block time. -/
theorem trackDelegation_sound {v v' : VestingAccount} {coins coins' vestingCoins amount : Coins}
    {blockTime : Int}
    (vesting : ∀ denom, Coins.amountOf vestingCoins denom = v.vestingAmount blockTime denom)
    (sound : v.Sound coins blockTime)
    (h : v.trackDelegation coins vestingCoins amount = .ok (v', coins')) :
    v'.Sound coins' blockTime ∧ v'.vestingAmount = v.vestingAmount := by
  refine Fallible.foldlM_ok_induction _
    (fun r : VestingAccount × Coins => r.1.Sound r.2 blockTime ∧ r.1.vestingAmount = v.vestingAmount)
    (fun ⟨w, c⟩ coin ⟨w', c'⟩ ⟨hs, hv⟩ hstep => ?_) amount (v, coins) (v', coins') ⟨sound, rfl⟩ h
  obtain ⟨sound', same⟩ := trackDelegationCoin_sound (fun d => by rw [vesting d, hv]) hs hstep
  exact ⟨sound', same.trans hv⟩

theorem trackUndelegation_sound {v v' : VestingAccount} {coins coins' amount : Coins}
    {blockTime : Int} (sound : v.Sound coins blockTime)
    (h : v.trackUndelegation coins amount = .ok (v', coins')) : v'.Sound coins' blockTime :=
  (Fallible.foldlM_ok_induction _ (fun r : VestingAccount × Coins => r.1.Sound r.2 blockTime)
    (fun ⟨_, _⟩ _ ⟨_, _⟩ hs hstep => (trackUndelegationCoin_sound hs hstep).1)
    amount (v, coins) (v', coins') sound h)

/-- A new vesting account, holding what it vests with nothing delegated, is sound at every
block time when its schedule fits. -/
theorem new_sound {coins : Coins} (sorted : CoinSet.Sorted coins)
    (nonneg : ∀ c ∈ coins, 0 ≤ c.amount) (endTime : Int) (schedule : VestingSchedule)
    (fits : ScheduleFits ⟨coins, [], [], endTime, schedule⟩) (blockTime : Int) :
    (⟨coins, [], [], endTime, schedule⟩ : VestingAccount).Sound coins blockTime where
  scheduleFits := fits
  originalSorted := sorted
  originalNonneg := Coins.amt_nonneg nonneg
  coinsSorted := sorted
  coinsNonneg := Coins.amt_nonneg nonneg
  freeSorted := List.Pairwise.nil
  vestingSorted := List.Pairwise.nil
  freeNonneg := fun _ => le_refl 0
  vestingNonneg := fun _ => le_refl 0
  covered := fun denom => by
    have le := vestingAmount_le fits (Coins.amt_nonneg nonneg denom) blockTime
    simpa using le

/-! ## What may be spent -/

/-- The coin `spendableCoins` computes for a coin held: `min((BC + DV) - V, BC)` of its
denomination. -/
def spendableCoin (v : VestingAccount) (vestingCoins : Coins) (coin : Coin) : Coin :=
  ⟨coin.denom, min (coin.amount + Coins.amountOf v.delegatedVesting coin.denom -
    Coins.amountOf vestingCoins coin.denom) coin.amount⟩

/-- `spendableCoins` holds of each denomination what the coin it computes for that
denomination holds; a zero coin it leaves out adds nothing. -/
theorem spendableCoins_amt {v : VestingAccount} {coins vestingCoins spendable : Coins}
    (h : v.spendableCoins coins vestingCoins = .ok spendable) (denom : String) :
    CoinSet.amt spendable denom =
      CoinSet.amt (coins.map (spendableCoin v vestingCoins)) denom := by
  have sum := Fallible.foldlM_ok_sum _ (fun s : Coins => CoinSet.amt s denom)
    (fun c => CoinSet.amt [spendableCoin v vestingCoins c] denom) (fun s c s' hstep => by
      dsimp only at hstep
      obtain ⟨sc, hsc, hstep⟩ := Fallible.bind_eq_ok.mp hstep
      obtain ⟨-, -, rfl⟩ := Coins.newCoin_eq_ok hsc
      rw [← Fallible.pure_eq_ok.mp hstep]
      dsimp only
      split
      · next zero =>
        -- a zero coin is left out, and adds nothing
        simp only [spendableCoin, CoinSet.amt_cons, CoinSet.amt_nil, zero, ite_self, add_zero]
      · rw [Coins.amt_add]
        rfl) coins [] spendable h
  rw [sum, CoinSet.amt_nil, zero_add, ← CoinSet.sum_amt_singleton _ denom, List.map_map]
  rfl

theorem sorted_spendableCoins {v : VestingAccount} {coins vestingCoins spendable : Coins}
    (h : v.spendableCoins coins vestingCoins = .ok spendable) : CoinSet.Sorted spendable :=
  Fallible.foldlM_ok_induction _ CoinSet.Sorted (fun s c s' sorted hstep => by
      obtain ⟨sc, -, hstep⟩ := Fallible.bind_eq_ok.mp hstep
      rw [← Fallible.pure_eq_ok.mp hstep]
      split
      · exact sorted
      · exact Coins.sorted_add sorted (List.pairwise_singleton _ _))
    coins [] spendable List.Pairwise.nil h

/-- No denomination is more spendable than it is held. -/
theorem spendableCoins_le_coins {v : VestingAccount} {coins vestingCoins spendable : Coins}
    (h : v.spendableCoins coins vestingCoins = .ok spendable) (denom : String) :
    CoinSet.amt spendable denom ≤ CoinSet.amt coins denom := by
  rw [spendableCoins_amt h]
  exact Coins.amt_map_le (spendableCoin v vestingCoins) (fun c _ => ⟨rfl, min_le_right _ _⟩) denom

/-- A denomination spendable at all is spendable only as far as `(BC + DV) - V` goes. -/
theorem spendableCoins_le_cover {v : VestingAccount} {coins vestingCoins spendable : Coins}
    (sorted : CoinSet.Sorted coins) (h : v.spendableCoins coins vestingCoins = .ok spendable)
    (denom : String) :
    CoinSet.amt spendable denom ≤ max 0 (CoinSet.amt coins denom +
      Coins.amountOf v.delegatedVesting denom - Coins.amountOf vestingCoins denom) := by
  rw [spendableCoins_amt h]
  by_cases held : ∃ c ∈ coins, c.denom = denom
  · obtain ⟨c, mem, rfl⟩ := held
    have sortedMap := CoinSet.sorted_map (spendableCoin v vestingCoins) (fun _ => rfl) sorted
    have inMap : CoinSet.amt (coins.map (spendableCoin v vestingCoins)) c.denom =
        (spendableCoin v vestingCoins c).amount :=
      CoinSet.amt_of_mem sortedMap (List.mem_map_of_mem mem)
    rw [inMap, CoinSet.amt_of_mem sorted mem]
    exact le_trans (min_le_left _ _) (le_max_right _ _)
  · have absent : ∀ c ∈ coins.map (spendableCoin v vestingCoins), c.denom ≠ denom := by
      intro c' mem'
      obtain ⟨c, mem, rfl⟩ := List.mem_map.mp mem'
      exact fun same => held ⟨c, mem, same⟩
    rw [CoinSet.amt_eq_zero_of_forall_ne absent]
    exact le_max_left _ _

theorem newCoin_of_valid {denom : String} {amount : Int} (valid : validateDenom denom = true)
    (nonneg : 0 ≤ amount) : Coins.newCoin denom amount = .ok ⟨denom, amount⟩ := by
  unfold Coins.newCoin
  rw [if_neg (by simp [valid]), if_neg (not_lt.mpr nonneg)]
  rfl

/-- `spendableCoins` succeeds when every coin it computes has a valid denomination and a
non-negative amount. -/
theorem spendableCoins_exists_ok {v : VestingAccount} {coins vestingCoins : Coins}
    (valid : ∀ c ∈ coins, validateDenom c.denom = true)
    (nonneg : ∀ c ∈ coins, 0 ≤ (spendableCoin v vestingCoins c).amount) :
    ∃ spendable, v.spendableCoins coins vestingCoins = .ok spendable := by
  unfold spendableCoins
  refine Fallible.foldlM_exists_ok _ (fun _ => True) coins (fun s c mem _ => ?_) [] trivial
  have hnew : Coins.newCoin c.denom (min (c.amount + Coins.amountOf v.delegatedVesting c.denom -
      Coins.amountOf vestingCoins c.denom) c.amount) = .ok (spendableCoin v vestingCoins c) :=
    newCoin_of_valid (valid c mem) (nonneg c mem)
  dsimp only
  rw [hnew]
  exact ⟨_, rfl, trivial⟩

section Consequences

variable {v : VestingAccount} {coins vestingCoins : Coins} {blockTime : Int}

/-- In a sound account every coin `spendableCoins` computes has a non-negative amount. -/
theorem Sound.spendableCoin_nonneg (sound : v.Sound coins blockTime)
    (h : v.getVestingCoins blockTime = .ok vestingCoins) :
    ∀ c ∈ coins, 0 ≤ (spendableCoin v vestingCoins c).amount := by
  intro c mem
  obtain ⟨sortedVesting, amounts⟩ := getVestingCoins_spec sound.originalSorted h
  have held := CoinSet.amt_of_mem sound.coinsSorted mem
  have cov := sound.covered c.denom
  have delVesting : Coins.amountOf v.delegatedVesting c.denom =
      CoinSet.amt v.delegatedVesting c.denom := CoinSet.amountOf_eq_amt sound.vestingSorted _
  have vesting : Coins.amountOf vestingCoins c.denom = v.vestingAmount blockTime c.denom :=
    (CoinSet.amountOf_eq_amt sortedVesting _).trans (amounts _)
  have nonneg := sound.coinsNonneg c.denom
  simp only [spendableCoin, delVesting, vesting]
  omega

/-- `subDelegated` succeeds when it takes no more than is delegated. -/
theorem subDelegated_exists_ok {denom : String} {x y : Int} (valid : validateDenom denom = true)
    (hx : 0 ≤ x) (hy : 0 ≤ y) (sortedFree : CoinSet.Sorted v.delegatedFree)
    (sortedVesting : CoinSet.Sorted v.delegatedVesting)
    (freeEnough : ∀ d, CoinSet.amt [⟨denom, x⟩] d ≤ CoinSet.amt v.delegatedFree d)
    (vestingEnough : ∀ d, CoinSet.amt [⟨denom, y⟩] d ≤ CoinSet.amt v.delegatedVesting d) :
    ∃ v', v.subDelegated denom x y = .ok v' := by
  obtain ⟨free, hfree⟩ := Coins.sub_exists_ok sortedFree (List.pairwise_singleton _ _) freeEnough
  obtain ⟨vesting, hvesting⟩ :=
    Coins.sub_exists_ok sortedVesting (List.pairwise_singleton _ _) vestingEnough
  unfold subDelegated
  dsimp only
  by_cases zx : x = 0 <;> by_cases zy : y = 0 <;>
    simp [zx, zy, newCoin_of_valid valid hx, newCoin_of_valid valid hy, hfree, hvesting, bind,
      Except.bind, pure, Except.pure]

/-- One coin of `TrackUndelegation` succeeds on a sound account when it is positive and of a
valid denomination. -/
theorem trackUndelegationCoin_exists_ok {coin : Coin} (sound : v.Sound coins blockTime)
    (positive : 0 < coin.amount) (valid : validateDenom coin.denom = true) :
    ∃ r, trackUndelegationCoin (v, coins) coin = .ok r := by
  have delFree : Coins.amountOf v.delegatedFree coin.denom =
      CoinSet.amt v.delegatedFree coin.denom := CoinSet.amountOf_eq_amt sound.freeSorted _
  have delVesting : Coins.amountOf v.delegatedVesting coin.denom =
      CoinSet.amt v.delegatedVesting coin.denom := CoinSet.amountOf_eq_amt sound.vestingSorted _
  -- `X = min(DF, D)` and `Y = min(DV, D - X)` are within the two delegated amounts
  obtain ⟨v', hsub⟩ := subDelegated_exists_ok (v := v)
    (x := min (Coins.amountOf v.delegatedFree coin.denom) coin.amount)
    (y := min (Coins.amountOf v.delegatedVesting coin.denom)
      (coin.amount - min (Coins.amountOf v.delegatedFree coin.denom) coin.amount))
    valid (by have := sound.freeNonneg coin.denom; omega)
    (by have := sound.vestingNonneg coin.denom; omega) sound.freeSorted sound.vestingSorted
    (fun d => by
      have := sound.freeNonneg d
      simp only [CoinSet.amt_cons, CoinSet.amt_nil, add_zero]
      split
      · next same => subst same; omega
      · omega)
    (fun d => by
      have := sound.vestingNonneg d
      simp only [CoinSet.amt_cons, CoinSet.amt_nil, add_zero]
      split
      · next same => subst same; omega
      · omega)
  refine ⟨(v', Coins.add coins [coin]), ?_⟩
  simp only [trackUndelegationCoin]
  rw [if_neg (ne_of_gt positive), hsub]
  rfl

/-- `TrackUndelegation` of positive coins of valid denominations succeeds on a sound
account: it never takes more than is delegated. -/
theorem Sound.trackUndelegation_exists_ok (sound : v.Sound coins blockTime) (amount : Coins)
    (positive : ∀ c ∈ amount, 0 < c.amount ∧ validateDenom c.denom = true) :
    ∃ result, v.trackUndelegation coins amount = .ok result :=
  Fallible.foldlM_exists_ok _ (fun r : VestingAccount × Coins => r.1.Sound r.2 blockTime) amount
    (fun ⟨w, c⟩ coin mem hs => by
      obtain ⟨r, hr⟩ := trackUndelegationCoin_exists_ok hs (positive coin mem).1
        (positive coin mem).2
      obtain ⟨w', c'⟩ := r
      exact ⟨(w', c'), hr, (trackUndelegationCoin_sound hs hr).1⟩)
    (v, coins) sound

end Consequences

/-! ## `GetVestedCoins` and `GetVestingCoins` do not panic -/

/-- The coin of an amount of a valid denomination in `[0, 2^255)` at a fraction in `[0, 1]` is
built without a panic: the product is at most the amount, so neither `Mul` nor `RoundInt`
overflows, and its rounding is not negative. -/
theorem vestedCoin_of_le_one {s : Dec} {ovc : Coin} (valid : validateDenom ovc.denom = true)
    (nonneg : 0 ≤ ovc.amount) (wide : ovc.amount < 2 ^ maxBitLen) (scalar : 0 ≤ s)
    (atMostOne : s ≤ Dec.oneDec) :
    vestedCoin s ovc = .ok ⟨ovc.denom, (Dec.mul (Dec.ofInt ovc.amount) s).roundInt⟩ := by
  have product := Dec.mul_nonneg (Dec.ofInt_nonneg nonneg) scalar
  have below := Dec.mul_le_self (Dec.ofInt_nonneg nonneg) scalar atMostOne
  have productFits : (Dec.mul (Dec.ofInt ovc.amount) s).int < 2 ^ maxDecBitLen :=
    calc (Dec.mul (Dec.ofInt ovc.amount) s).int
        ≤ ovc.amount * precisionReuse := below
      _ < 2 ^ maxBitLen * precisionReuse := Int.mul_lt_mul_of_pos_right wide precisionReuse_pos
      _ ≤ 2 ^ maxDecBitLen := pow_maxBitLen_mul_precisionReuse_le
  have rounded := Dec.roundInt_mono product below
  rw [Dec.roundInt_ofInt nonneg] at rounded
  have roundedNonneg := Dec.roundInt_nonneg product
  unfold vestedCoin
  exact Fallible.bind_eq_ok.mpr ⟨_, checkDec_of_nonneg product productFits,
    Fallible.bind_eq_ok.mpr ⟨_, checkInt_of_nonneg roundedNonneg (lt_of_le_of_lt rounded wide),
      newCoin_of_valid valid roundedNonneg⟩⟩

/-- `GetVestedCoins` succeeds on an original vesting of valid denominations and amounts in
`[0, 2^255)` under a schedule that fits: the elapsed fraction is in `[0, 1]`, so `Quo` does
not panic, and neither does any coin it builds. -/
theorem getVestedCoins_exists_ok {v : VestingAccount} (fits : v.ScheduleFits)
    (denoms : ∀ c ∈ v.originalVesting, validateDenom c.denom = true)
    (nonneg : ∀ c ∈ v.originalVesting, 0 ≤ c.amount)
    (wide : ∀ c ∈ v.originalVesting, c.amount < 2 ^ maxBitLen) (blockTime : Int) :
    ∃ vested, v.getVestedCoins blockTime = .ok vested := by
  unfold getVestedCoins
  split
  · next startTime schedule =>
    split_ifs with before after
    · exact ⟨[], rfl⟩
    · exact ⟨v.originalVesting, rfl⟩
    · -- inside a schedule that fits neither difference wraps
      obtain ⟨elapsed, length⟩ := int64_elapsed (show startTime < blockTime by omega)
        (show blockTime < v.endTime by omega) (fits startTime schedule)
      rw [elapsed, length]
      have scalar := Dec.quo_nonneg (x := blockTime - startTime) (y := v.endTime - startTime)
        (by omega) (by omega)
      have atMostOne := Dec.quo_le_oneDec (x := blockTime - startTime) (y := v.endTime - startTime)
        (by omega) (by omega) (by omega)
      have quotient := Dec.quoChecked_of_le (a := Dec.ofInt (blockTime - startTime))
        (b := Dec.ofInt (v.endTime - startTime))
        (Int.mul_nonneg (by omega) precisionReuse_pos.le) (Int.mul_pos (by omega) precisionReuse_pos)
        (Int.mul_le_mul_of_nonneg_right (by omega) precisionReuse_pos.le)
      exact Fallible.exists_bind_ok quotient (Fallible.mapM_exists_ok _ v.originalVesting
        fun c mem => ⟨_, vestedCoin_of_le_one (denoms c mem) (nonneg c mem) (wide c mem) scalar
          atMostOne⟩)
  · exact ⟨_, rfl⟩

/-- `GetVestingCoins` succeeds on a valid original vesting of valid denominations: what has
vested is below the original vesting in every denomination, so `Sub` does not panic. -/
theorem getVestingCoins_exists_ok {v : VestingAccount} (fits : v.ScheduleFits)
    (valid : Coins.isValid v.originalVesting = true)
    (denoms : ∀ c ∈ v.originalVesting, validateDenom c.denom = true)
    (wide : ∀ c ∈ v.originalVesting, c.amount < 2 ^ maxBitLen) (blockTime : Int) :
    ∃ vesting, v.getVestingCoins blockTime = .ok vesting := by
  obtain ⟨pos, sorted⟩ := CoinSet.isValid_spec valid
  obtain ⟨vested, hvested⟩ :=
    getVestedCoins_exists_ok fits denoms (fun c mem => (pos c mem).le) wide blockTime
  obtain ⟨sortedVested, amounts⟩ := getVestedCoins_spec sorted hvested
  obtain ⟨vesting, hsub⟩ := Coins.sub_exists_ok sorted sortedVested fun denom => by
    rw [amounts]
    exact vestedAmount_le fits (Coins.amt_nonneg_of_isValid valid denom) blockTime
  refine ⟨vesting, ?_⟩
  unfold getVestingCoins
  rw [hvested]
  exact hsub

/-- A continuous vesting account whose original vesting is a valid set of valid denominations
and amounts below `2^255`, with `StartTime < EndTime` less than `2^63` seconds apart: nothing
has vested up to the start and everything from the end;
`GetVestedCoins` and `GetVestingCoins` never panic; of every denomination, what has vested is
between zero and the original amount and never shrinks as the block time moves on, and what
is still vesting is the rest, and never grows. -/
theorem continuous_vesting_bounds {v : VestingAccount} {startTime : Int}
    (continuous : v.schedule = .continuous startTime) (ordered : startTime < v.endTime)
    (span : v.endTime - startTime < 2 ^ 63) (valid : Coins.isValid v.originalVesting = true)
    (denoms : ∀ c ∈ v.originalVesting, validateDenom c.denom = true)
    (wide : ∀ c ∈ v.originalVesting, c.amount < 2 ^ maxBitLen) :
    (∀ t, t ≤ startTime → v.getVestedCoins t = .ok []) ∧
      (∀ t, v.endTime ≤ t → v.getVestedCoins t = .ok v.originalVesting) ∧
      (∀ t, ∃ vested vesting, v.getVestedCoins t = .ok vested ∧
        v.getVestingCoins t = .ok vesting ∧
        ∀ denom, 0 ≤ Coins.amountOf vested denom ∧
          Coins.amountOf vested denom ≤ Coins.amountOf v.originalVesting denom ∧
          Coins.amountOf vesting denom =
            Coins.amountOf v.originalVesting denom - Coins.amountOf vested denom) ∧
      ∀ t₁ t₂ vested₁ vested₂ vesting₁ vesting₂, t₁ ≤ t₂ →
        v.getVestedCoins t₁ = .ok vested₁ → v.getVestedCoins t₂ = .ok vested₂ →
        v.getVestingCoins t₁ = .ok vesting₁ → v.getVestingCoins t₂ = .ok vesting₂ →
        ∀ denom, Coins.amountOf vested₁ denom ≤ Coins.amountOf vested₂ denom ∧
          Coins.amountOf vesting₂ denom ≤ Coins.amountOf vesting₁ denom := by
  obtain ⟨pos, sorted⟩ := CoinSet.isValid_spec valid
  have original := Coins.amt_nonneg_of_isValid valid
  have fits : v.ScheduleFits := fun start schedule => by
    rw [continuous, VestingSchedule.continuous.injEq] at schedule
    rw [← schedule]
    exact span
  -- every result is sorted, so `AmountOf` reads it as the keyed sums of `vestedAmount`
  have vestedOf {t : Int} {vested : Coins} (h : v.getVestedCoins t = .ok vested) (denom : String) :
      Coins.amountOf vested denom = v.vestedAmount t denom := by
    obtain ⟨sortedVested, amounts⟩ := getVestedCoins_spec sorted h
    rw [Coins.amountOf_eq_amt sortedVested, amounts]
  have vestingOf {t : Int} {vesting : Coins} (h : v.getVestingCoins t = .ok vesting)
      (denom : String) : Coins.amountOf vesting denom = v.vestingAmount t denom := by
    obtain ⟨sortedVesting, amounts⟩ := getVestingCoins_spec sorted h
    rw [Coins.amountOf_eq_amt sortedVesting, amounts]
  refine ⟨fun t before => ?_, fun t after => ?_, fun t => ?_, ?_⟩
  · simp only [getVestedCoins, continuous, if_pos before]
    rfl
  · simp only [getVestedCoins, continuous, if_neg (show ¬ t ≤ startTime by omega), if_pos after]
    rfl
  · obtain ⟨vested, hvested⟩ :=
      getVestedCoins_exists_ok fits denoms (fun c mem => (pos c mem).le) wide t
    obtain ⟨vesting, hvesting⟩ := getVestingCoins_exists_ok fits valid denoms wide t
    refine ⟨vested, vesting, hvested, hvesting, fun denom => ?_⟩
    rw [vestedOf hvested, vestingOf hvesting, Coins.amountOf_eq_amt sorted]
    exact ⟨vestedAmount_nonneg fits (original denom) t, vestedAmount_le fits (original denom) t,
      rfl⟩
  · intro t₁ t₂ vested₁ vested₂ vesting₁ vesting₂ later h₁ h₂ h₁' h₂' denom
    rw [vestedOf h₁, vestedOf h₂, vestingOf h₁', vestingOf h₂']
    exact ⟨vestedAmount_mono fits (original denom) later,
      vestingAmount_antitone fits (original denom) later⟩

/-- Ten `aaa` vesting from time 0 to 100. -/
def tenVesting : VestingAccount := ⟨[⟨"aaa", 10⟩], [], [], 100, .continuous 0⟩

theorem continuous_vesting_bounds_ten :
    (tenVesting.schedule = .continuous 0 ∧ 0 < tenVesting.endTime ∧
      tenVesting.endTime - 0 < 2 ^ 63 ∧ Coins.isValid tenVesting.originalVesting = true ∧
      (∀ c ∈ tenVesting.originalVesting, validateDenom c.denom = true) ∧
      ∀ c ∈ tenVesting.originalVesting, c.amount < 2 ^ maxBitLen) ∧
    ((∀ t, t ≤ 0 → tenVesting.getVestedCoins t = .ok []) ∧
      (∀ t, tenVesting.endTime ≤ t → tenVesting.getVestedCoins t = .ok tenVesting.originalVesting) ∧
      (∀ t, ∃ vested vesting, tenVesting.getVestedCoins t = .ok vested ∧
        tenVesting.getVestingCoins t = .ok vesting ∧
        ∀ denom, 0 ≤ Coins.amountOf vested denom ∧
          Coins.amountOf vested denom ≤ Coins.amountOf tenVesting.originalVesting denom ∧
          Coins.amountOf vesting denom =
            Coins.amountOf tenVesting.originalVesting denom - Coins.amountOf vested denom) ∧
      ∀ t₁ t₂ vested₁ vested₂ vesting₁ vesting₂, t₁ ≤ t₂ →
        tenVesting.getVestedCoins t₁ = .ok vested₁ → tenVesting.getVestedCoins t₂ = .ok vested₂ →
        tenVesting.getVestingCoins t₁ = .ok vesting₁ →
        tenVesting.getVestingCoins t₂ = .ok vesting₂ →
        ∀ denom, Coins.amountOf vested₁ denom ≤ Coins.amountOf vested₂ denom ∧
          Coins.amountOf vesting₂ denom ≤ Coins.amountOf vesting₁ denom) := by
  have valid : Coins.isValid tenVesting.originalVesting = true := by decide +kernel
  have denoms : ∀ c ∈ tenVesting.originalVesting, validateDenom c.denom = true := by
    decide +kernel
  have wide : ∀ c ∈ tenVesting.originalVesting, c.amount < 2 ^ maxBitLen := by
    simp [tenVesting, maxBitLen]
  exact ⟨⟨rfl, by decide, by decide, valid, denoms, wide⟩,
    continuous_vesting_bounds rfl (by decide) (by decide) valid denoms wide⟩

end VestingAccount

/-! ## Accounts and the account store -/

namespace Account

/-- An account is sound at `blockTime` when, if it vests, its vesting fields are sound with the
coins it holds; a base or module account always is. -/
def Sound (acc : Account) (blockTime : Int) : Prop :=
  ∀ v, acc.kind = .vesting v → v.Sound acc.coins blockTime

variable {acc acc' : Account} {blockTime : Int}

theorem newContinuousVestingAccount_sound {coins : Coins} (sorted : CoinSet.Sorted coins)
    (nonneg : ∀ c ∈ coins, 0 ≤ c.amount) {startTime endTime : Int}
    (span : endTime - startTime < 2 ^ 63) (blockTime : Int) :
    (newContinuousVestingAccount coins startTime endTime).Sound blockTime := by
  intro v kind
  cases kind
  refine VestingAccount.new_sound sorted nonneg endTime _ (fun start schedule => ?_) blockTime
  cases schedule
  exact span

theorem newDelayedVestingAccount_sound {coins : Coins} (sorted : CoinSet.Sorted coins)
    (nonneg : ∀ c ∈ coins, 0 ≤ c.amount) (endTime blockTime : Int) :
    (newDelayedVestingAccount coins endTime).Sound blockTime := by
  intro v kind
  cases kind
  exact VestingAccount.new_sound sorted nonneg endTime _ (fun _ schedule => by cases schedule)
    blockTime

theorem Sound.advance (sound : acc.Sound blockTime) {blockTime' : Int}
    (later : blockTime ≤ blockTime') : acc.Sound blockTime' :=
  fun v kind => (sound v kind).advance later

/-- Valid coins that still cover what is vesting keep an account sound. -/
theorem Sound.withCoins (sound : acc.Sound blockTime) {coins : Coins}
    (valid : Coins.isValid coins = true)
    (covers : ∀ v, acc.kind = .vesting v → ∀ denom,
      v.vestingAmount blockTime denom ≤ CoinSet.amt coins denom + CoinSet.amt v.delegatedVesting denom) :
    ({ acc with coins } : Account).Sound blockTime :=
  fun v kind =>
    { sound v kind with
      coinsSorted := CoinSet.sorted_of_isValid valid
      coinsNonneg := Coins.amt_nonneg_of_isValid valid
      covered := covers v kind }

theorem Sound.trackDelegation (sound : acc.Sound blockTime) {amt : Coins}
    (h : Pocc.trackDelegation acc blockTime amt = .ok acc') : acc'.Sound blockTime := by
  unfold Pocc.trackDelegation at h
  split at h
  · next v kind =>
    obtain ⟨vestingCoins, hvesting, h⟩ := Fallible.bind_eq_ok.mp h
    obtain ⟨⟨v', coins⟩, hloop, h⟩ := Fallible.bind_eq_ok.mp h
    rw [← Fallible.pure_eq_ok.mp h]
    intro v'' kind''
    obtain rfl : v' = v'' := AccountKind.vesting.inj kind''
    have vestingSound := sound v kind
    -- the loop reads what is vesting at the block time
    obtain ⟨sorted, amounts⟩ := VestingAccount.getVestingCoins_spec vestingSound.originalSorted
      hvesting
    exact (VestingAccount.trackDelegation_sound
      (fun d => (CoinSet.amountOf_eq_amt sorted d).trans (amounts d)) vestingSound hloop).1
  · next notVesting =>
    obtain ⟨diff, -, h⟩ := Fallible.bind_eq_ok.mp h
    rw [← Fallible.pure_eq_ok.mp h]
    exact fun v kind => absurd kind (notVesting v)

theorem Sound.trackUndelegation (sound : acc.Sound blockTime) {amt : Coins}
    (h : Pocc.trackUndelegation acc amt = .ok acc') : acc'.Sound blockTime := by
  unfold Pocc.trackUndelegation at h
  split at h
  · next v kind =>
    obtain ⟨⟨v', coins⟩, hloop, h⟩ := Fallible.bind_eq_ok.mp h
    rw [← Fallible.pure_eq_ok.mp h]
    intro v'' kind''
    obtain rfl : v' = v'' := AccountKind.vesting.inj kind''
    exact VestingAccount.trackUndelegation_sound (sound v kind) hloop
  · next notVesting =>
    rw [← Fallible.pure_eq_ok.mp h]
    exact fun v kind => absurd kind (notVesting v)

end Account

namespace AccountStore

/-- Every account of the store is sound at `blockTime`. -/
def VestingSound (accounts : AccountStore) (blockTime : Int) : Prop :=
  ∀ addr acc, accounts.getAccount addr = some acc → acc.Sound blockTime

variable {accounts accounts' : AccountStore} {blockTime : Int}

theorem VestingSound.setAccount (sound : accounts.VestingSound blockTime) {addr : AccAddress}
    {acc : Account} (accSound : acc.Sound blockTime) :
    (accounts.setAccount addr acc).VestingSound blockTime := by
  intro addr' acc' found
  rw [getAccount_setAccount] at found
  split at found
  · cases found
    exact accSound
  · exact sound addr' acc' found

/-- The account `SetCoins` starts from: the one stored, or a new base account. -/
theorem VestingSound.stored (sound : accounts.VestingSound blockTime) (addr : AccAddress) :
    ((accounts.getAccount addr).getD Account.newAccountWithAddress).Sound blockTime := by
  cases found : accounts.getAccount addr with
  | none => exact fun v kind => by cases kind
  | some acc => exact sound addr acc found

theorem getCoins_eq_stored (addr : AccAddress) :
    accounts.getCoins addr = ((accounts.getAccount addr).getD Account.newAccountWithAddress).coins := by
  unfold getCoins
  cases accounts.getAccount addr <;> rfl

theorem VestingSound.advance (sound : accounts.VestingSound blockTime) {blockTime' : Int}
    (later : blockTime ≤ blockTime') : accounts.VestingSound blockTime' :=
  fun addr acc found => (sound addr acc found).advance later

/-- `AddCoins` only adds to what covers the vesting coins. -/
theorem VestingSound.addCoins (sound : accounts.VestingSound blockTime) {addr : AccAddress}
    {amt newCoins : Coins} (h : Bank.addCoins accounts addr amt = .ok (newCoins, accounts')) :
    accounts'.VestingSound blockTime := by
  obtain ⟨valid, rfl, hset⟩ := Bank.addCoins_eq_ok h
  obtain ⟨validNew, rfl⟩ := Bank.setCoins_eq_ok hset
  refine sound.setAccount ((sound.stored addr).withCoins validNew fun v kind d => ?_)
  have cov := (sound.stored addr v kind).covered d
  have added := Coins.amt_nonneg_of_isValid valid d
  rw [Coins.amt_add, getCoins_eq_stored]
  omega

/-- What `SubtractCoins` reads before it writes: the coins spendable at `addr` cover the
amount. -/
theorem subtractCoins_spendable {addr : AccAddress} {amt newCoins : Coins} {acc : Account}
    (h : Bank.subtractCoins accounts blockTime addr amt = .ok (newCoins, accounts'))
    (found : accounts.getAccount addr = some acc) :
    ∃ spendable, acc.spendableCoins blockTime = .ok spendable ∧
      (Coins.safeSub spendable amt).2 = false := by
  unfold Bank.subtractCoins at h
  split at h
  · exact absurd h Fallible.throw_ne_ok
  obtain ⟨⟨old, spendable⟩, hread, h⟩ := Fallible.bind_eq_ok.mp h
  simp only [Bank.oldAndSpendableCoins, found] at hread
  obtain ⟨sp, hsp, hread⟩ := Fallible.bind_eq_ok.mp hread
  obtain ⟨-, rfl⟩ := Prod.ext_iff.mp (Fallible.pure_eq_ok.mp hread)
  dsimp only at h
  split at h
  · exact absurd h Fallible.throw_ne_ok
  · next noNeg => exact ⟨sp, hsp, by simpa using noNeg⟩

/-- `SubtractCoins` takes no more of a denomination than is spendable, so what is left with
the vesting part of the delegation still covers what is vesting. -/
theorem VestingSound.subtractCoins (sound : accounts.VestingSound blockTime) {addr : AccAddress}
    {amt newCoins : Coins}
    (h : Bank.subtractCoins accounts blockTime addr amt = .ok (newCoins, accounts')) :
    accounts'.VestingSound blockTime := by
  obtain ⟨valid, hsub, hset⟩ := Bank.subtractCoins_eq_ok h
  obtain ⟨validNew, rfl⟩ := Bank.setCoins_eq_ok hset
  refine sound.setAccount ((sound.stored addr).withCoins validNew fun v kind d => ?_)
  cases found : accounts.getAccount addr with
  | none =>
    rw [found] at kind
    cases kind
  | some acc =>
    rw [found] at kind
    have vestingSound := sound addr acc found v kind
    obtain ⟨spendable, hspendable, noNeg⟩ := subtractCoins_spendable h found
    have stored : acc.kind = .vesting v := kind
    unfold Account.spendableCoins at hspendable
    simp only [stored] at hspendable
    obtain ⟨vestingCoins, hvesting, hspendable⟩ := Fallible.bind_eq_ok.mp hspendable
    obtain ⟨sortedVesting, amounts⟩ :=
      VestingAccount.getVestingCoins_spec vestingSound.originalSorted hvesting
    -- the amount is within what is spendable, and that within `(BC + DV) - V`
    have within : CoinSet.amt amt d ≤ CoinSet.amt spendable d := by
      refine not_lt.mp fun above => ?_
      have hasNeg := (Coins.safeSub_hasNeg_iff (VestingAccount.sorted_spendableCoins hspendable)
        (CoinSet.sorted_of_isValid valid)).mpr ⟨d, above⟩
      rw [noNeg] at hasNeg
      exact Bool.false_ne_true hasNeg
    have cover := VestingAccount.spendableCoins_le_cover vestingSound.coinsSorted hspendable d
    have delVesting : Coins.amountOf v.delegatedVesting d = CoinSet.amt v.delegatedVesting d :=
      CoinSet.amountOf_eq_amt vestingSound.vestingSorted d
    have vesting : Coins.amountOf vestingCoins d = v.vestingAmount blockTime d :=
      (CoinSet.amountOf_eq_amt sortedVesting d).trans (amounts d)
    have cov := vestingSound.covered d
    have positive := Coins.amt_nonneg_of_isValid valid d
    rw [Coins.amt_sub hsub, getCoins_eq_stored, found]
    rw [delVesting, vesting] at cover
    dsimp only [Option.getD]
    omega

end AccountStore

/-! ## Runs -/

namespace Vesting

/-- What an account store goes through, at a block time: an account tracks a delegation or an
undelegation, `SubtractCoins` and `AddCoins` move coins, or the block time moves on. -/
inductive Step : AccountStore × Int → AccountStore × Int → Prop
  | trackDelegation {accounts : AccountStore} {blockTime : Int} {addr : AccAddress}
      {acc acc' : Account} {amt : Coins} (found : accounts.getAccount addr = some acc)
      (tracked : Pocc.trackDelegation acc blockTime amt = .ok acc') :
      Step (accounts, blockTime) (accounts.setAccount addr acc', blockTime)
  | trackUndelegation {accounts : AccountStore} {blockTime : Int} {addr : AccAddress}
      {acc acc' : Account} {amt : Coins} (found : accounts.getAccount addr = some acc)
      (tracked : Pocc.trackUndelegation acc amt = .ok acc') :
      Step (accounts, blockTime) (accounts.setAccount addr acc', blockTime)
  | subtractCoins {accounts accounts' : AccountStore} {blockTime : Int} {addr : AccAddress}
      {amt newCoins : Coins}
      (subtracted : Bank.subtractCoins accounts blockTime addr amt = .ok (newCoins, accounts')) :
      Step (accounts, blockTime) (accounts', blockTime)
  | addCoins {accounts accounts' : AccountStore} {blockTime : Int} {addr : AccAddress}
      {amt newCoins : Coins} (added : Bank.addCoins accounts addr amt = .ok (newCoins, accounts')) :
      Step (accounts, blockTime) (accounts', blockTime)
  | advance {accounts : AccountStore} {blockTime blockTime' : Int}
      (later : blockTime ≤ blockTime') : Step (accounts, blockTime) (accounts, blockTime')

theorem step_sound {s s' : AccountStore × Int} (sound : s.1.VestingSound s.2)
    (step : Step s s') : s'.1.VestingSound s'.2 := by
  cases step with
  | trackDelegation found tracked => exact sound.setAccount ((sound _ _ found).trackDelegation tracked)
  | trackUndelegation found tracked =>
    exact sound.setAccount ((sound _ _ found).trackUndelegation tracked)
  | subtractCoins subtracted => exact sound.subtractCoins subtracted
  | addCoins added => exact sound.addCoins added
  | advance later => exact sound.advance later

theorem run_sound {s s' : AccountStore × Int} (sound : s.1.VestingSound s.2)
    (run : Relation.ReflTransGen Step s s') : s'.1.VestingSound s'.2 := by
  induction run with
  | refl => exact sound
  | tail _ step ih => exact step_sound ih step

/-- `SendCoins`, and so `DeductFees` and every transfer between accounts, is a `SubtractCoins`
then an `AddCoins`. -/
theorem sendCoins_run {accounts accounts' : AccountStore} {blockTime : Int}
    {fromAddr toAddr : AccAddress} {amt : Coins}
    (h : Bank.sendCoins accounts blockTime fromAddr toAddr amt = .ok accounts') :
    Relation.ReflTransGen Step (accounts, blockTime) (accounts', blockTime) := by
  obtain ⟨⟨left, accounts₁⟩, hsub, h⟩ := Fallible.bind_eq_ok.mp h
  obtain ⟨⟨added, accounts₂⟩, hadd, h⟩ := Fallible.bind_eq_ok.mp h
  rw [← Fallible.pure_eq_ok.mp h]
  exact (Relation.ReflTransGen.single (Step.subtractCoins hsub)).tail (Step.addCoins hadd)

/-- `DelegateCoins` is a `trackDelegation` of the delegator's account, then an `AddCoins` to
the module account. -/
theorem delegateCoins_run {accounts accounts' : AccountStore} {blockTime : Int}
    {delegatorAddr moduleAccAddr : AccAddress} {amt : Coins}
    (h : Bank.delegateCoins accounts blockTime delegatorAddr moduleAccAddr amt = .ok accounts') :
    Relation.ReflTransGen Step (accounts, blockTime) (accounts', blockTime) := by
  unfold Bank.delegateCoins at h
  split at h
  · exact absurd h Fallible.throw_ne_ok
  · exact absurd h Fallible.throw_ne_ok
  · next delegatorAcc _ found _ =>
    split at h
    · exact absurd h Fallible.throw_ne_ok
    dsimp only at h
    split at h
    · exact absurd h Fallible.throw_ne_ok
    obtain ⟨tracked, htracked, h⟩ := Fallible.bind_eq_ok.mp h
    obtain ⟨⟨added, accounts₂⟩, hadd, h⟩ := Fallible.bind_eq_ok.mp h
    rw [← Fallible.pure_eq_ok.mp h]
    exact (Relation.ReflTransGen.single (Step.trackDelegation found htracked)).tail
      (Step.addCoins hadd)

/-- The balance invariant of vesting accounts:

* a new delayed vesting account, or a continuous one whose schedule is shorter than `2^63`
  seconds, over sorted non-negative coins, is sound at every block time;
* every run of `TrackDelegation`, `TrackUndelegation`, `SubtractCoins` (within what is
  spendable, hence `DeductFees` and `SendCoins`), `AddCoins` and non-decreasing block times
  keeps every account of the store sound;
* in a sound account both delegated amounts are non-negative, the coins held with the vesting
  part of the delegation cover `GetVestingCoins`, `spendableCoins` asks `NewCoin` for no
  negative amount, spends no more than is held, and succeeds when every denomination held is
  valid; and `TrackUndelegation` of positive coins of valid denominations succeeds, taking no
  more than is delegated. -/
theorem vesting_balance_invariant :
    (∀ (coins : Coins) (startTime endTime blockTime : Int), CoinSet.Sorted coins →
      (∀ c ∈ coins, 0 ≤ c.amount) →
      (endTime - startTime < 2 ^ 63 →
        (Account.newContinuousVestingAccount coins startTime endTime).Sound blockTime) ∧
        (Account.newDelayedVestingAccount coins endTime).Sound blockTime) ∧
    (∀ s s' : AccountStore × Int, s.1.VestingSound s.2 → Relation.ReflTransGen Step s s' →
      s'.1.VestingSound s'.2) ∧
    (∀ (v : VestingAccount) (coins : Coins) (blockTime : Int), v.Sound coins blockTime →
      (∀ denom, 0 ≤ CoinSet.amt v.delegatedFree denom ∧
        0 ≤ CoinSet.amt v.delegatedVesting denom) ∧
      (∀ vestingCoins, v.getVestingCoins blockTime = .ok vestingCoins →
        (∀ denom, CoinSet.amt vestingCoins denom ≤
          CoinSet.amt coins denom + CoinSet.amt v.delegatedVesting denom) ∧
        (∀ c ∈ coins, 0 ≤ min (c.amount + Coins.amountOf v.delegatedVesting c.denom -
          Coins.amountOf vestingCoins c.denom) c.amount) ∧
        (∀ spendable, v.spendableCoins coins vestingCoins = .ok spendable →
          ∀ denom, CoinSet.amt spendable denom ≤ CoinSet.amt coins denom) ∧
        ((∀ c ∈ coins, validateDenom c.denom = true) →
          ∃ spendable, v.spendableCoins coins vestingCoins = .ok spendable)) ∧
      (∀ amount : Coins, (∀ c ∈ amount, 0 < c.amount ∧ validateDenom c.denom = true) →
        ∃ result, v.trackUndelegation coins amount = .ok result)) := by
  refine ⟨fun coins startTime endTime blockTime sorted nonneg =>
      ⟨fun span => Account.newContinuousVestingAccount_sound sorted nonneg span blockTime,
        Account.newDelayedVestingAccount_sound sorted nonneg endTime blockTime⟩,
    fun s s' sound run => run_sound sound run,
    fun v coins blockTime sound => ⟨fun denom => ⟨sound.freeNonneg denom, sound.vestingNonneg denom⟩,
      fun vestingCoins h => ?_, fun amount positive => sound.trackUndelegation_exists_ok amount positive⟩⟩
  obtain ⟨-, amounts⟩ := VestingAccount.getVestingCoins_spec sound.originalSorted h
  refine ⟨fun denom => ?_, sound.spendableCoin_nonneg h,
    fun spendable hs denom => VestingAccount.spendableCoins_le_coins hs denom,
    fun valid => VestingAccount.spendableCoins_exists_ok valid (sound.spendableCoin_nonneg h)⟩
  rw [amounts]
  exact sound.covered denom

/-! ## A coin `NewCoin` rejects -/

namespace UncheckedDenom

/-- A continuous vesting account at `[1]`, ten `aaa` vesting from time 0 to 100. -/
def accounts : AccountStore :=
  AccountStore.setAccount SortedMap.empty [1]
    (Account.newContinuousVestingAccount [⟨"aaa", 10⟩] 0 100)

/-- One `aaa` and one `b`: `Coins.IsValid` holds `b` only to lower case and the order, since it
checks no denomination but the first against `validateDenom`. -/
def amount : Coins := [⟨"aaa", 1⟩, ⟨"b", 1⟩]

theorem accounts_sound : accounts.VestingSound 0 := by
  intro addr acc found
  rw [accounts, AccountStore.getAccount_setAccount] at found
  split at found
  · cases found
    exact Account.newContinuousVestingAccount_sound (List.pairwise_singleton _ _)
      (by simp) (by decide) 0
  · cases found

end UncheckedDenom

open UncheckedDenom in
/-- From a store of sound accounts, `AddCoins` gives the vesting account a `b` coin, and
`SpendableCoins` then panics in `NewCoin`. -/
theorem spendableCoins_panics_on_unchecked_denom :
    accounts.VestingSound 0 ∧
      ∃ accounts' acc, Relation.ReflTransGen Step (accounts, 0) (accounts', 0) ∧
        accounts'.getAccount [1] = some acc ∧
        acc.spendableCoins 0 = throw (.panic "invalid denom: b") := by
  -- the model runs `AddCoins` and `SpendableCoins` in the kernel
  have run : ((Bank.addCoins accounts [1] amount).toOption.bind fun r => r.2.getAccount [1]).any
      (fun acc => decide (acc.spendableCoins 0 = throw (.panic "invalid denom: b"))) = true := by
    decide +kernel
  obtain ⟨acc, found, panics⟩ := (Option.any_eq_true _ _).mp run
  obtain ⟨⟨newCoins, accounts'⟩, added, found⟩ := Option.bind_eq_some_iff.mp found
  have step : Step (accounts, 0) (accounts', 0) :=
    Step.addCoins (Fallible.toOption_eq_some.mp added)
  exact ⟨accounts_sound, accounts', acc, .single step, found, of_decide_eq_true panics⟩

/-- An original vesting `{1aaa, 1b}` passes `Coins.IsValid` and the genesis checks, which read
no denomination, but `b` fails `validateDenom`: halfway through the schedule `GetVestedCoins`
builds a `b` coin with `NewCoin`, and `GetVestingCoins` panics. -/
theorem getVestingCoins_panics_on_unchecked_denom :
    Coins.isValid UncheckedDenom.amount = true ∧
      (⟨UncheckedDenom.amount, [], [], 2, .continuous 0⟩ : VestingAccount).getVestingCoins 1 =
        throw (.panic "invalid denom: b") := by
  decide +kernel

namespace DelegationRun

/-- The vesting account of `UncheckedDenom.accounts` once it has delegated four `aaa`. -/
def delegated : VestingAccount := ⟨[⟨"aaa", 10⟩], [], [⟨"aaa", 4⟩], 100, .continuous 0⟩

end DelegationRun

open UncheckedDenom DelegationRun in
/-- The balance invariant along a run of the vesting account of ten `aaa`: it delegates four
at time 0, the block time moves to 50, and it spends one of the five it may. Every account
stays sound, and at time 50 the five `aaa` still vesting are covered by the five it holds and
the four it delegated, and what it may spend is within what it holds. -/
theorem vesting_balance_invariant_delegation_run :
    ∃ accounts', Relation.ReflTransGen Step (accounts, 0) (accounts', 50) ∧
      accounts'.VestingSound 50 ∧
      accounts'.getAccount [1] = some ⟨[⟨"aaa", 5⟩], .vesting delegated⟩ ∧
      delegated.getVestingCoins 50 = .ok [⟨"aaa", 5⟩] ∧
      (∀ denom, CoinSet.amt [⟨"aaa", 5⟩] denom ≤
        CoinSet.amt [⟨"aaa", 5⟩] denom + CoinSet.amt delegated.delegatedVesting denom) ∧
      ∃ spendable, delegated.spendableCoins [⟨"aaa", 5⟩] [⟨"aaa", 5⟩] = .ok spendable ∧
        ∀ denom, CoinSet.amt spendable denom ≤ CoinSet.amt [⟨"aaa", 5⟩] denom := by
  have found : accounts.getAccount [1] =
      some (Account.newContinuousVestingAccount [⟨"aaa", 10⟩] 0 100) := by decide +kernel
  have tracked : Pocc.trackDelegation (Account.newContinuousVestingAccount [⟨"aaa", 10⟩] 0 100) 0
      [⟨"aaa", 4⟩] = .ok ⟨[⟨"aaa", 6⟩], .vesting delegated⟩ := by decide +kernel
  -- the model runs the spend in the kernel
  have run : ((Bank.subtractCoins (accounts.setAccount [1] ⟨[⟨"aaa", 6⟩], .vesting delegated⟩) 50
      [1] [⟨"aaa", 1⟩]).toOption.bind fun r => r.2.getAccount [1]).any
      (fun acc => decide (acc = ⟨[⟨"aaa", 5⟩], .vesting delegated⟩)) = true := by
    decide +kernel
  obtain ⟨acc, spent, same⟩ := (Option.any_eq_true _ _).mp run
  obtain ⟨⟨newCoins, accounts'⟩, subtracted, stored⟩ := Option.bind_eq_some_iff.mp spent
  have steps : Relation.ReflTransGen Step (accounts, 0) (accounts', 50) :=
    ((Relation.ReflTransGen.single (Step.trackDelegation found tracked)).tail
      (Step.advance (by decide))).tail (Step.subtractCoins (Fallible.toOption_eq_some.mp subtracted))
  obtain ⟨-, stepsSound, balance⟩ := vesting_balance_invariant
  have sound := stepsSound _ _ accounts_sound steps
  rw [of_decide_eq_true same] at stored
  have vesting : delegated.getVestingCoins 50 = .ok [⟨"aaa", 5⟩] := by decide +kernel
  obtain ⟨covered, -, within, succeeds⟩ :=
    (balance delegated [⟨"aaa", 5⟩] 50 (sound [1] _ stored delegated rfl)).2.1 _ vesting
  obtain ⟨spendable, hspendable⟩ := succeeds (by decide)
  exact ⟨accounts', steps, sound, stored, vesting, covered, spendable, hspendable,
    within spendable hspendable⟩

end Vesting

end Pocc
