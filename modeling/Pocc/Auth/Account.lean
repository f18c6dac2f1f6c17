import Pocc.Lib.Bytes
import Pocc.Lib.SortedMap
import Pocc.Types.Coin
import Pocc.Types.DecQuo

/-!
# Accounts

The account store of x/auth: a map from address to account. `SetAccount` stores an account
under its own address and every account is read by that address, so the model keeps the
address as the key only. An account is a base account,
a vesting account (x/auth/types/account.go: continuous or delayed) or a module account
(x/supply); every kind holds `coins`, and a vesting account also tracks how much of what
it delegated was vesting or free.

Not modelled: public keys, account numbers and sequences (read by the ante handler only).
Block times are Unix seconds, and the times of a vesting schedule Go's `int64`s, whose
differences wrap (`int64`).
-/

namespace Pocc

/-- `sdk.AccAddress`. -/
abbrev AccAddress := Bytes

/-- How a vesting account vests: linearly from `startTime` to its end time
(`ContinuousVestingAccount`), or all at once at its end time (`DelayedVestingAccount`). -/
inductive VestingSchedule where
  | continuous (startTime : Int)
  | delayed
  deriving DecidableEq, Repr

/-- The fields `BaseVestingAccount` adds to a base account. -/
structure VestingAccount where
  originalVesting : Coins
  delegatedFree : Coins
  delegatedVesting : Coins
  endTime : Int
  schedule : VestingSchedule
  deriving DecidableEq, Repr

inductive AccountKind where
  | base
  | vesting (v : VestingAccount)
  /-- `ModuleAccount`: the module's name and its permissions (`minter`, `burner`, `staking`). -/
  | module (name : String) (permissions : List String)
  deriving DecidableEq, Repr

/-- `exported.Account`, less its address: the key it is stored under. -/
structure Account where
  coins : Coins
  kind : AccountKind
  deriving DecidableEq, Repr

namespace VestingAccount

/-- The coin of `ovc.denom` vested at the scalar `s`: `ovc.Amount.ToDec().Mul(s).RoundInt()`,
where `Mul` and `RoundInt` panic past their widths. -/
def vestedCoin (s : Dec) (ovc : Coin) : Except SdkError Coin := do
  let vested ← checkDec (Dec.mul (Dec.ofInt ovc.amount) s)
  Coins.newCoin ovc.denom (← checkInt "NewIntFromBigInt() out of bound" vested.roundInt)

/-- `GetVestedCoins` of both schedules. The elapsed time and the length of a continuous
schedule are `int64` differences. -/
def getVestedCoins (v : VestingAccount) (blockTime : Int) : Except SdkError Coins :=
  match v.schedule with
  | .continuous startTime =>
    if blockTime ≤ startTime then pure []
    else if v.endTime ≤ blockTime then pure v.originalVesting
    else do
      let x := int64 (blockTime - startTime)
      let y := int64 (v.endTime - startTime)
      let s ← Dec.quoChecked (Dec.ofInt x) (Dec.ofInt y)
      v.originalVesting.mapM (vestedCoin s)
  | .delayed => pure (if v.endTime ≤ blockTime then v.originalVesting else [])

/-- `GetVestingCoins`: what has not vested yet. -/
def getVestingCoins (v : VestingAccount) (blockTime : Int) : Except SdkError Coins := do
  Coins.sub v.originalVesting (← v.getVestedCoins blockTime)

/-- `spendableCoins`: per coin held, `min((BC + DV) - V, BC)`, zeros dropped. -/
def spendableCoins (v : VestingAccount) (coins vestingCoins : Coins) :
    Except SdkError Coins :=
  List.foldlM (fun spendable coin => do
      let baseAmt := coin.amount
      let vestingAmt := Coins.amountOf vestingCoins coin.denom
      let delVestingAmt := Coins.amountOf v.delegatedVesting coin.denom
      let spendableCoin ←
        Coins.newCoin coin.denom (min (baseAmt + delVestingAmt - vestingAmt) baseAmt)
      pure (if spendableCoin.amount = 0 then spendable else Coins.add spendable [spendableCoin]))
    [] coins

/-- Record that a delegation of `x + y` coins of `denom` took `x` vesting and `y` free coins;
a zero part is not recorded. -/
def addDelegated (v : VestingAccount) (denom : String) (x y : Int) :
    Except SdkError VestingAccount := do
  let v ← if x ≠ 0 then do
      let xCoin ← Coins.newCoin denom x
      pure { v with delegatedVesting := Coins.add v.delegatedVesting [xCoin] }
    else pure v
  if y ≠ 0 then do
    let yCoin ← Coins.newCoin denom y
    pure { v with delegatedFree := Coins.add v.delegatedFree [yCoin] }
  else pure v

/-- The body of the loop of `trackDelegation` for one coin of the amount; `bc` are the coins
held before the loop. -/
def trackDelegationCoin (bc vestingCoins : Coins) (acc : VestingAccount × Coins) (coin : Coin) :
    Except SdkError (VestingAccount × Coins) :=
  let (v, coins) := acc
  let baseAmt := Coins.amountOf bc coin.denom
  let vestingAmt := Coins.amountOf vestingCoins coin.denom
  let delVestingAmt := Coins.amountOf v.delegatedVesting coin.denom
  if coin.amount = 0 ∨ baseAmt < coin.amount then
    throw (.panic "delegation attempt with zero coins or insufficient funds")
  else do
    let x := min (max (vestingAmt - delVestingAmt) 0) coin.amount
    let v ← v.addDelegated coin.denom x (coin.amount - x)
    pure (v, ← Coins.sub coins [coin])

/-- `trackDelegation`: the vesting fields and the coins after delegating `amount`. -/
def trackDelegation (v : VestingAccount) (coins vestingCoins amount : Coins) :
    Except SdkError (VestingAccount × Coins) :=
  amount.foldlM (trackDelegationCoin coins vestingCoins) (v, coins)

/-- Record that an undelegation gave back `x` free and `y` vesting coins of `denom`. -/
def subDelegated (v : VestingAccount) (denom : String) (x y : Int) :
    Except SdkError VestingAccount := do
  let v ← if x ≠ 0 then do
      let xCoin ← Coins.newCoin denom x
      pure { v with delegatedFree := ← Coins.sub v.delegatedFree [xCoin] }
    else pure v
  if y ≠ 0 then do
    let yCoin ← Coins.newCoin denom y
    pure { v with delegatedVesting := ← Coins.sub v.delegatedVesting [yCoin] }
  else pure v

/-- The body of the loop of `TrackUndelegation` for one coin of the amount. -/
def trackUndelegationCoin (acc : VestingAccount × Coins) (coin : Coin) :
    Except SdkError (VestingAccount × Coins) :=
  let (v, coins) := acc
  if coin.amount = 0 then throw (.panic "undelegation attempt with zero coins")
  else do
    let x := min (Coins.amountOf v.delegatedFree coin.denom) coin.amount
    let y := min (Coins.amountOf v.delegatedVesting coin.denom) (coin.amount - x)
    let v ← v.subDelegated coin.denom x y
    pure (v, Coins.add coins [coin])

/-- `TrackUndelegation`. -/
def trackUndelegation (v : VestingAccount) (coins amount : Coins) :
    Except SdkError (VestingAccount × Coins) :=
  amount.foldlM trackUndelegationCoin (v, coins)

end VestingAccount

namespace Account

/-- `SpendableCoins`: all the coins of a base or module account. -/
def spendableCoins (acc : Account) (blockTime : Int) : Except SdkError Coins :=
  match acc.kind with
  | .vesting v => do v.spendableCoins acc.coins (← v.getVestingCoins blockTime)
  | _ => pure acc.coins

/-- `NewAccountWithAddress`: a base account with no coins. -/
def newAccountWithAddress : Account := ⟨[], .base⟩

/-- `NewContinuousVestingAccount`: the coins of the base account vest linearly from
`startTime` to `endTime`, with nothing delegated. -/
def newContinuousVestingAccount (coins : Coins) (startTime endTime : Int) : Account :=
  ⟨coins, .vesting ⟨coins, [], [], endTime, .continuous startTime⟩⟩

/-- `NewDelayedVestingAccount`: the coins of the base account vest at `endTime`, with nothing
delegated. -/
def newDelayedVestingAccount (coins : Coins) (endTime : Int) : Account :=
  ⟨coins, .vesting ⟨coins, [], [], endTime, .delayed⟩⟩

end Account

/-- The bank keeper's `trackDelegation`: a vesting account tracks the delegation, any other
account just loses the coins. -/
def trackDelegation (acc : Account) (blockTime : Int) (amt : Coins) : Except SdkError Account :=
  match acc.kind with
  | .vesting v => do
    let (v', coins) ← v.trackDelegation acc.coins (← v.getVestingCoins blockTime) amt
    pure { acc with coins, kind := .vesting v' }
  | _ => do pure { acc with coins := ← Coins.sub acc.coins amt }

/-- The bank keeper's `trackUndelegation`. -/
def trackUndelegation (acc : Account) (amt : Coins) : Except SdkError Account :=
  match acc.kind with
  | .vesting v => do
    let (v', coins) ← v.trackUndelegation acc.coins amt
    pure { acc with coins, kind := .vesting v' }
  | _ => pure { acc with coins := Coins.add acc.coins amt }

/-- The account store of x/auth, keyed by address. -/
abbrev AccountStore := SortedMap AccAddress Account

namespace AccountStore

/-- `GetAccount`. -/
def getAccount (accounts : AccountStore) (addr : AccAddress) : Option Account :=
  accounts.find? addr

/-- `SetAccount`: store the account under its address. -/
def setAccount (accounts : AccountStore) (addr : AccAddress) (acc : Account) : AccountStore :=
  accounts.insert addr acc

/-- `GetCoins`: the coins of the account at `addr`, none if there is no account. -/
def getCoins (accounts : AccountStore) (addr : AccAddress) : Coins :=
  match accounts.getAccount addr with
  | none => []
  | some acc => acc.coins

/-- The amount of `denom` held over all accounts: what `TotalSupply` adds up. -/
def total (accounts : AccountStore) (denom : String) : Int :=
  accounts.sumBy fun _ acc => CoinSet.amt acc.coins denom

end AccountStore

/-! ## What the account functions do to the coins -/

theorem sum_neg_amt_singleton (amount : Coins) (denom : String) :
    (amount.map fun c => -CoinSet.amt [c] denom).sum = -CoinSet.amt amount denom := by
  rw [← CoinSet.sum_amt_singleton, List.sum_neg, List.map_map]
  rfl

namespace VestingAccount

theorem trackDelegationCoin_amt {bc vestingCoins : Coins} {acc acc' : VestingAccount × Coins}
    {coin : Coin} (h : trackDelegationCoin bc vestingCoins acc coin = .ok acc') (denom : String) :
    CoinSet.amt acc'.2 denom = CoinSet.amt acc.2 denom + -CoinSet.amt [coin] denom := by
  obtain ⟨v, coins⟩ := acc
  simp only [trackDelegationCoin] at h
  split at h
  · exact absurd h Fallible.throw_ne_ok
  · obtain ⟨v', -, h⟩ := Fallible.bind_eq_ok.mp h
    obtain ⟨diff, hdiff, h⟩ := Fallible.bind_eq_ok.mp h
    rw [← Fallible.pure_eq_ok.mp h, Coins.amt_sub hdiff, sub_eq_add_neg]

theorem trackUndelegationCoin_amt {acc acc' : VestingAccount × Coins} {coin : Coin}
    (h : trackUndelegationCoin acc coin = .ok acc') (denom : String) :
    CoinSet.amt acc'.2 denom = CoinSet.amt acc.2 denom + CoinSet.amt [coin] denom := by
  obtain ⟨v, coins⟩ := acc
  simp only [trackUndelegationCoin] at h
  split at h
  · exact absurd h Fallible.throw_ne_ok
  · obtain ⟨v', -, h⟩ := Fallible.bind_eq_ok.mp h
    rw [← Fallible.pure_eq_ok.mp h, Coins.amt_add]

/-- The loop of `trackDelegation` takes the whole amount out of the coins. -/
theorem trackDelegation_amt {v : VestingAccount} {coins vestingCoins amount : Coins}
    {result : VestingAccount × Coins} (h : v.trackDelegation coins vestingCoins amount = .ok result)
    (denom : String) :
    CoinSet.amt result.2 denom = CoinSet.amt coins denom - CoinSet.amt amount denom := by
  have loop := Fallible.foldlM_ok_sum _ (fun acc : VestingAccount × Coins => CoinSet.amt acc.2 denom)
    (fun c => -CoinSet.amt [c] denom) (fun _ _ _ hstep => trackDelegationCoin_amt hstep denom)
    amount (v, coins) result h
  rw [loop, sum_neg_amt_singleton, sub_eq_add_neg]

theorem trackUndelegation_amt {v : VestingAccount} {coins amount : Coins}
    {result : VestingAccount × Coins} (h : v.trackUndelegation coins amount = .ok result)
    (denom : String) :
    CoinSet.amt result.2 denom = CoinSet.amt coins denom + CoinSet.amt amount denom := by
  have loop := Fallible.foldlM_ok_sum _ (fun acc : VestingAccount × Coins => CoinSet.amt acc.2 denom)
    (fun c => CoinSet.amt [c] denom) (fun _ _ _ hstep => trackUndelegationCoin_amt hstep denom)
    amount (v, coins) result h
  rw [loop, CoinSet.sum_amt_singleton]

end VestingAccount

/-- Delegating takes the amount out of the coins, for every kind of account. -/
theorem amt_trackDelegation {acc acc' : Account} {blockTime : Int} {amt : Coins}
    (h : trackDelegation acc blockTime amt = .ok acc') (denom : String) :
    CoinSet.amt acc'.coins denom = CoinSet.amt acc.coins denom - CoinSet.amt amt denom := by
  unfold trackDelegation at h
  split at h
  · obtain ⟨vestingCoins, -, h⟩ := Fallible.bind_eq_ok.mp h
    obtain ⟨⟨v', coins⟩, hloop, h⟩ := Fallible.bind_eq_ok.mp h
    rw [← Fallible.pure_eq_ok.mp h]
    exact VestingAccount.trackDelegation_amt hloop denom
  · obtain ⟨diff, hdiff, h⟩ := Fallible.bind_eq_ok.mp h
    rw [← Fallible.pure_eq_ok.mp h]
    exact Coins.amt_sub hdiff denom

theorem amt_trackUndelegation {acc acc' : Account} {amt : Coins}
    (h : trackUndelegation acc amt = .ok acc') (denom : String) :
    CoinSet.amt acc'.coins denom = CoinSet.amt acc.coins denom + CoinSet.amt amt denom := by
  unfold trackUndelegation at h
  split at h
  · obtain ⟨⟨v', coins⟩, hloop, h⟩ := Fallible.bind_eq_ok.mp h
    rw [← Fallible.pure_eq_ok.mp h]
    exact VestingAccount.trackUndelegation_amt hloop denom
  · rw [← Fallible.pure_eq_ok.mp h]
    exact Coins.amt_add _ _ denom

/-- An account that is not a vesting one tracks an undelegation by adding the coins. -/
theorem trackUndelegation_of_not_vesting {acc : Account} (notVesting : ∀ v, acc.kind ≠ .vesting v)
    (amt : Coins) : trackUndelegation acc amt = .ok { acc with coins := Coins.add acc.coins amt } := by
  unfold trackUndelegation
  split
  · next v vesting => exact absurd vesting (notVesting v)
  · rfl

theorem sorted_trackDelegation {acc acc' : Account} {blockTime : Int} {amt : Coins}
    (h : trackDelegation acc blockTime amt = .ok acc') (sorted : CoinSet.Sorted acc.coins)
    (sortedAmt : CoinSet.Sorted amt) : CoinSet.Sorted acc'.coins := by
  unfold trackDelegation at h
  split at h
  · obtain ⟨vestingCoins, -, h⟩ := Fallible.bind_eq_ok.mp h
    obtain ⟨⟨v', coins⟩, hloop, h⟩ := Fallible.bind_eq_ok.mp h
    rw [← Fallible.pure_eq_ok.mp h]
    -- each pass of the loop subtracts one coin, a sorted set of one
    refine Fallible.foldlM_ok_induction _ (fun acc : VestingAccount × Coins => CoinSet.Sorted acc.2)
      (fun ⟨v, coins⟩ coin result hsorted hstep => ?_) amt _ _ sorted hloop
    simp only [VestingAccount.trackDelegationCoin] at hstep
    split at hstep
    · exact absurd hstep Fallible.throw_ne_ok
    · obtain ⟨v', -, hstep⟩ := Fallible.bind_eq_ok.mp hstep
      obtain ⟨diff, hdiff, hstep⟩ := Fallible.bind_eq_ok.mp hstep
      rw [← Fallible.pure_eq_ok.mp hstep]
      exact Coins.sorted_sub hdiff hsorted (List.pairwise_singleton _ _)
  · obtain ⟨diff, hdiff, h⟩ := Fallible.bind_eq_ok.mp h
    rw [← Fallible.pure_eq_ok.mp h]
    exact Coins.sorted_sub hdiff sorted sortedAmt

theorem sorted_trackUndelegation {acc acc' : Account} {amt : Coins}
    (h : trackUndelegation acc amt = .ok acc') (sorted : CoinSet.Sorted acc.coins)
    (sortedAmt : CoinSet.Sorted amt) : CoinSet.Sorted acc'.coins := by
  unfold trackUndelegation at h
  split at h
  · obtain ⟨⟨v', coins⟩, hloop, h⟩ := Fallible.bind_eq_ok.mp h
    rw [← Fallible.pure_eq_ok.mp h]
    refine Fallible.foldlM_ok_induction _ (fun acc : VestingAccount × Coins => CoinSet.Sorted acc.2)
      (fun ⟨v, coins⟩ coin result hsorted hstep => ?_) amt _ _ sorted hloop
    simp only [VestingAccount.trackUndelegationCoin] at hstep
    split at hstep
    · exact absurd hstep Fallible.throw_ne_ok
    · obtain ⟨v', -, hstep⟩ := Fallible.bind_eq_ok.mp hstep
      rw [← Fallible.pure_eq_ok.mp hstep]
      exact Coins.sorted_add hsorted (List.pairwise_singleton _ _)
  · rw [← Fallible.pure_eq_ok.mp h]
    exact Coins.sorted_add sorted sortedAmt

namespace AccountStore

/-- Writing an account moves the total of a denomination by its coins less those of the
account it replaces. -/
theorem total_setAccount (accounts : AccountStore) (addr : AccAddress) (acc : Account)
    (denom : String) :
    (accounts.setAccount addr acc).total denom =
      accounts.total denom - CoinSet.amt (accounts.getCoins addr) denom +
        CoinSet.amt acc.coins denom := by
  unfold total setAccount getCoins getAccount
  rw [SortedMap.sumBy_insert_sub]
  cases accounts.find? addr <;> simp

theorem getAccount_setAccount (accounts : AccountStore) (addr addr' : AccAddress) (acc : Account) :
    (accounts.setAccount addr acc).getAccount addr' =
      if addr = addr' then some acc else accounts.getAccount addr' := by
  unfold getAccount setAccount
  by_cases same : addr = addr'
  · subst same
    simp
  · simp [same]

theorem getCoins_setAccount (accounts : AccountStore) (addr addr' : AccAddress) (acc : Account) :
    (accounts.setAccount addr acc).getCoins addr' =
      if addr = addr' then acc.coins else accounts.getCoins addr' := by
  unfold getCoins
  rw [getAccount_setAccount]
  by_cases same : addr = addr' <;> simp [same]

/-- Writing back the account just read changes nothing. -/
theorem setAccount_of_getAccount {accounts : AccountStore} {addr : AccAddress} {acc : Account}
    (h : accounts.getAccount addr = some acc) : accounts.setAccount addr acc = accounts :=
  SortedMap.insert_of_find? h

/-- Every stored account holds a set sorted by denomination, as `AmountOf` needs. -/
def CoinsSorted (accounts : AccountStore) : Prop :=
  ∀ addr acc, accounts.getAccount addr = some acc → CoinSet.Sorted acc.coins

theorem coinsSorted_setAccount {accounts : AccountStore} (sorted : accounts.CoinsSorted)
    (addr : AccAddress) {acc : Account} (hacc : CoinSet.Sorted acc.coins) :
    (accounts.setAccount addr acc).CoinsSorted := by
  intro addr' acc' found
  rw [getAccount_setAccount] at found
  split at found
  · cases found
    exact hacc
  · exact sorted addr' acc' found

theorem sorted_getCoins {accounts : AccountStore} (sorted : accounts.CoinsSorted)
    (addr : AccAddress) : CoinSet.Sorted (accounts.getCoins addr) := by
  unfold getCoins
  split
  · exact List.Pairwise.nil
  · next acc found => exact sorted addr acc found

theorem getCoins_of_getAccount {accounts : AccountStore} {addr : AccAddress} {acc : Account}
    (h : accounts.getAccount addr = some acc) : accounts.getCoins addr = acc.coins := by
  simp [getCoins, h]

end AccountStore

end Pocc
