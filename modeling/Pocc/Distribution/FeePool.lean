import Pocc.Supply.Keeper

/-!
# The community pool

x/distribution/keeper/fee_pool.go. The community pool is bookkeeping in decimal coins; the
coins it stands for are held by the distribution module account, so every change of the pool
goes with a transfer to or from that account.
-/

namespace Pocc

/-- `FeePool`. -/
structure FeePool where
  communityPool : DecCoins
  deriving DecidableEq, Repr

namespace Distribution

/-- `ModuleName` of x/distribution: the name of its module account. -/
def moduleName : String := "distribution"

/-- `DefaultCodespace` of x/distribution. -/
def codespace : String := "distr"

/-- `ErrBadDistribution`. -/
def errBadDistribution : SdkError :=
  .error codespace (.module 103) "community pool does not have sufficient coins to distribute"

variable (sk : SupplyKeeper)

/-- `DistributeFromFeePool`: the pool shrinks by `amount` and the module account pays it to
`receiveAddr`. -/
def distributeFromFeePool (L : Ledger) (feePool : FeePool) (blockTime : Int) (amount : Coins)
    (receiveAddr : AccAddress) : Except SdkError (Ledger × FeePool) :=
  let (newPool, negative) := DecCoins.safeSub feePool.communityPool (DecCoins.ofCoins amount)
  if negative then throw errBadDistribution
  else do
    let L ← sk.sendCoinsFromModuleToAccount L blockTime moduleName receiveAddr amount
    pure (L, { feePool with communityPool := newPool })

/-- `AddCoinsFromAccountToFeePool`: the pool grows by `amount` and `senderAddr` pays it to the
module account. -/
def addCoinsFromAccountToFeePool (L : Ledger) (feePool : FeePool) (blockTime : Int)
    (senderAddr : AccAddress) (amount : Coins) : Except SdkError (Ledger × FeePool) := do
  let newPool := DecCoins.add feePool.communityPool (DecCoins.ofCoins amount)
  let L ← sk.sendCoinsFromAccountToModule L blockTime senderAddr moduleName amount
  pure (L, { feePool with communityPool := newPool })

theorem distributeFromFeePool_spec {L L' : Ledger} {feePool feePool' : FeePool} {blockTime : Int}
    {amount : Coins} {receiveAddr : AccAddress}
    (h : distributeFromFeePool sk L feePool blockTime amount receiveAddr = .ok (L', feePool')) :
    L'.supply = L.supply ∧ (∀ denom, L'.accounts.total denom = L.accounts.total denom) ∧
      (L.accounts.CoinsSorted → L'.accounts.CoinsSorted) := by
  unfold distributeFromFeePool at h
  dsimp only at h
  split at h
  · exact absurd h Fallible.throw_ne_ok
  · obtain ⟨L₁, hsend, h⟩ := Fallible.bind_eq_ok.mp h
    cases Fallible.pure_eq_ok.mp h
    exact sk.sendCoinsFromModuleToAccount_spec hsend

theorem addCoinsFromAccountToFeePool_spec {L L' : Ledger} {feePool feePool' : FeePool}
    {blockTime : Int} {senderAddr : AccAddress} {amount : Coins}
    (h : addCoinsFromAccountToFeePool sk L feePool blockTime senderAddr amount = .ok (L', feePool')) :
    L'.supply = L.supply ∧ (∀ denom, L'.accounts.total denom = L.accounts.total denom) ∧
      (L.accounts.CoinsSorted → L'.accounts.CoinsSorted) := by
  unfold addCoinsFromAccountToFeePool at h
  obtain ⟨L₁, hsend, h⟩ := Fallible.bind_eq_ok.mp h
  cases Fallible.pure_eq_ok.mp h
  exact sk.sendCoinsFromAccountToModule_spec hsend

end Distribution

end Pocc
