import Pocc.Mint.Abci
import Pocc.Types.DecCoin
import Mathlib

/-!
# The mint schedule over a run of blocks

The chain calls the mint module's `BeginBlocker` at the heights `1, 2, …` with fixed
parameters. Starting from the minter `(0, A0)`, the heights `1..h` leave the year index
`h / B` and the annual provisions `A0 · f[min(1, L-1)] ⋯ f[min(h / B, L-1)]`
(`scheduledMinter`), mint at each height the block provision of its year, and so grow the
supply of the mint denomination by exactly the sum of those provisions; the heights of one
year mint no more than its annual provisions (`mint_schedule`).

What the run needs of the chain is `MintReady`: the mint module's account, which its
`InitGenesis` creates, is a module account with the minter permission, and the fee collector is
registered at another address. One block keeps it (`beginBlocker_ready`).

The schedule holds only for `B < 2 ^ 63`, a valid mint denomination and non-negative
provisions: `BlocksPerYear` is cast to `int64`, so a larger `B` divides the height by a negative
number (`mint_schedule_wraps`), and a negative provision panics in `NewCoin`.
-/

namespace Pocc

namespace Mint

open AccountStore

/-- What the mint module's block needs of the chain: the mint module and the fee collector are
registered at distinct addresses; the mint module's account is a module account with the
minter permission; an account at the fee collector's address is a module account; and both
hold valid coins. -/
structure MintReady (sk : SupplyKeeper) (L : Ledger) : Prop where
  mintRegistered : (sk.permAddrs.lookup moduleName).isSome
  feeCollectorRegistered : (sk.permAddrs.lookup feeCollectorName).isSome
  distinct : sk.moduleAddress moduleName ≠ sk.moduleAddress feeCollectorName
  mintAccount : ∃ acc name perms, L.accounts.getAccount (sk.moduleAddress moduleName) = some acc ∧
    acc.kind = .module name perms ∧ perms.contains minter = true ∧ Coins.isValid acc.coins = true
  feeAccount : ∀ acc, L.accounts.getAccount (sk.moduleAddress feeCollectorName) = some acc →
    (∃ name perms, acc.kind = .module name perms) ∧ Coins.isValid acc.coins = true

section Block

variable {sk : SupplyKeeper} {L : Ledger}

/-- `MintCoins` of x/mint puts a valid amount into the mint module's account and the supply. -/
theorem mintCoins_ready {acc : Account} {name : String} {perms : List String} {minted : Coins}
    (registered : (sk.permAddrs.lookup moduleName).isSome)
    (found : L.accounts.getAccount (sk.moduleAddress moduleName) = some acc)
    (module : acc.kind = .module name perms) (canMint : perms.contains minter = true)
    (held : Coins.isValid acc.coins = true) (valid : Coins.isValid minted = true) :
    ∃ L₁, mintCoins sk L minted = .ok L₁ ∧
      L₁.accounts = L.accounts.setAccount (sk.moduleAddress moduleName)
        { acc with coins := Coins.add acc.coins minted } ∧
      ∀ denom, CoinSet.amt L₁.supply denom = CoinSet.amt L.supply denom + CoinSet.amt minted denom := by
  unfold mintCoins
  split
  · -- nothing to mint: no call, and the account already holds its coins plus nothing
    next empty =>
    obtain rfl : minted = [] := List.isEmpty_iff.mp empty
    refine ⟨L, rfl, ?_, fun denom => by rw [CoinSet.amt_nil, add_zero]⟩
    rw [Coins.add_nil held]
    exact (setAccount_of_getAccount found).symm
  · refine ⟨⟨L.accounts.setAccount (sk.moduleAddress moduleName)
      { acc with coins := Coins.add acc.coins minted }, Coins.add L.supply minted⟩, ?_, rfl,
      fun denom => Coins.amt_add _ _ denom⟩
    unfold SupplyKeeper.mintCoins
    rw [sk.getModuleAccount_of_module registered found module]
    refine Fallible.bind_eq_ok.mpr ⟨_, rfl, ?_⟩
    have permitted : SupplyKeeper.hasPermission acc minter = true := by
      rw [SupplyKeeper.hasPermission, module]
      exact canMint
    dsimp only
    rw [if_neg (by simp [permitted]), Bank.addCoins_of_isValid valid
      (by rw [getCoins_of_getAccount found]; exact held)]
    simp only [found, getCoins_of_getAccount found, Option.getD_some]
    rfl

/-- A module account's coins are all spendable. -/
theorem spendableCoins_of_module {acc : Account} {name : String} {perms : List String}
    (module : acc.kind = .module name perms) (blockTime : Int) :
    acc.spendableCoins blockTime = .ok acc.coins := by
  unfold Account.spendableCoins
  rw [module]
  rfl

/-- `AddCollectedFees`: sending what the mint module's account holds on top of valid coins to
the fee collector succeeds, keeps the supply, and leaves the chain ready for the next block. -/
theorem sendCollected_ready (ready : MintReady sk L) {acc : Account} {rest minted : Coins}
    (found : L.accounts.getAccount (sk.moduleAddress moduleName) = some acc)
    (holds : acc.coins = Coins.add rest minted) (validRest : Coins.isValid rest = true)
    (valid : Coins.isValid minted = true) (blockTime : Int) :
    ∃ L', sk.sendCoinsFromModuleToModule L blockTime moduleName feeCollectorName minted = .ok L' ∧
      L'.supply = L.supply ∧ MintReady sk L' := by
  obtain ⟨acc₀, name, perms, found₀, module, canMint, -⟩ := ready.mintAccount
  obtain rfl : acc = acc₀ := Option.some.inj (found.symm.trans found₀)
  -- the fee collector's account: the stored one, or a new empty one
  obtain ⟨feeAcc, accounts₂, hget, origin⟩ := sk.getModuleAccount_exists
    ready.feeCollectorRegistered fun acc' stored => (ready.feeAccount acc' stored).1
  obtain ⟨feeFound, ⟨feeName, feePerms, feeModule⟩, others⟩ := sk.getModuleAccount_found hget
  have feeHeld : Coins.isValid (accounts₂.getCoins (sk.moduleAddress feeCollectorName)) = true := by
    rw [getCoins_of_getAccount feeFound]
    rcases origin with stored | ⟨-, empty⟩
    · exact (ready.feeAccount feeAcc stored).2
    · rw [empty]
      rfl
  have mintFound : accounts₂.getAccount (sk.moduleAddress moduleName) = some acc := by
    rw [others _ ready.distinct]
    exact found
  obtain ⟨accounts', hsend, senderAfter, recipientAfter, -⟩ := Bank.sendCoins_of_add mintFound
    (spendableCoins_of_module module blockTime) holds validRest valid ready.distinct feeHeld
  have senderAddr : sk.getModuleAddress moduleName = some (sk.moduleAddress moduleName) := by
    obtain ⟨mintPerms, hperms⟩ := Option.isSome_iff_exists.mp ready.mintRegistered
    simp [SupplyKeeper.getModuleAddress, hperms]
  refine ⟨{ L with accounts := accounts' }, ?_, rfl, ⟨ready.mintRegistered,
    ready.feeCollectorRegistered, ready.distinct, ⟨_, name, perms, senderAfter, module, canMint,
    validRest⟩, fun acc' stored => ?_⟩⟩
  · unfold SupplyKeeper.sendCoinsFromModuleToModule
    rw [senderAddr]
    refine Fallible.bind_eq_ok.mpr ⟨_, hget, ?_⟩
    exact Fallible.bind_eq_ok.mpr ⟨_, hsend, rfl⟩
  · -- the fee collector now holds its coins plus the minted ones
    rw [recipientAfter, feeFound, getCoins_of_getAccount feeFound] at stored
    cases stored
    exact ⟨⟨feeName, feePerms, feeModule⟩, Coins.isValid_add (by
      rw [getCoins_of_getAccount feeFound] at feeHeld; exact feeHeld) valid⟩

/-- One block of the mint module: on a ready chain, minting a non-negative provision of a valid
denomination succeeds, grows the supply of that denomination by the provision and of no other,
and leaves the chain ready. -/
theorem beginBlocker_ready (ready : MintReady sk L) (blockTime : Int) {mintDenom : String}
    {provision : Int} (denom : validateDenom mintDenom = true) (nonneg : 0 ≤ provision) :
    ∃ L', beginBlocker sk L blockTime mintDenom provision = .ok L' ∧ MintReady sk L' ∧
      ∀ d, CoinSet.amt L'.supply d =
        CoinSet.amt L.supply d + if mintDenom = d then provision else 0 := by
  have hcoin : Coins.newCoin mintDenom provision = .ok ⟨mintDenom, provision⟩ := by
    unfold Coins.newCoin
    rw [if_neg (by simp [denom]), if_neg (by omega)]
    rfl
  have hcoins := Coins.newCoins_singleton denom nonneg
  have valid := Coins.isValid_newCoins hcoins
  obtain ⟨acc, name, perms, found, module, canMint, held⟩ := ready.mintAccount
  obtain ⟨L₁, hmint, accounts₁, supply₁⟩ :=
    mintCoins_ready ready.mintRegistered found module canMint held valid
  -- after minting, the mint module's account holds its coins plus the minted ones
  have found₁ : L₁.accounts.getAccount (sk.moduleAddress moduleName) =
      some { acc with coins := Coins.add acc.coins (CoinSet.nonZero ⟨mintDenom, provision⟩) } := by
    rw [accounts₁, getAccount_setAccount, if_pos rfl]
  have ready₁ : MintReady sk L₁ := by
    refine ⟨ready.mintRegistered, ready.feeCollectorRegistered, ready.distinct,
      ⟨_, name, perms, found₁, module, canMint, Coins.isValid_add held valid⟩,
      fun acc' stored => ready.feeAccount acc' ?_⟩
    rwa [accounts₁, getAccount_setAccount, if_neg ready.distinct] at stored
  obtain ⟨L', hsend, supply', ready'⟩ := sendCollected_ready ready₁ found₁ rfl held valid blockTime
  refine ⟨L', ?_, ready', fun d => ?_⟩
  · unfold beginBlocker
    exact Fallible.bind_eq_ok.mpr ⟨_, hcoin, Fallible.bind_eq_ok.mpr ⟨_, hcoins,
      Fallible.bind_eq_ok.mpr ⟨_, hmint, hsend⟩⟩⟩
  · rw [supply', supply₁, Token.amt_newCoins_newCoin hcoin hcoins]

end Block

/-! ## The run of the heights `1..h` -/

/-- The chain running the mint module's `BeginBlocker` at the heights `1..h` in order, from the
ledger and minter `s`, the height `j` at the time `blockTime j`. -/
def runHeights (sk : SupplyKeeper) (params : Params) (blockTime : Nat → Int)
    (s : Ledger × Minter) : Nat → Except SdkError (Ledger × Minter)
  | 0 => pure s
  | h + 1 => do
    let (L, minter) ← runHeights sk params blockTime s h
    abciBeginBlocker sk L (blockTime (h + 1)) (h + 1 : Nat) params minter

section Run

variable {sk : SupplyKeeper} {params : Params}

theorem scheduledMinter_zero (a0 : Dec) : scheduledMinter params a0 0 = ⟨0, a0⟩ := by
  simp only [scheduledMinter, Nat.zero_div]
  rfl

/-- With factors and starting provisions non-negative, so are the provisions of every year. -/
theorem scheduledProvisions_nonneg {factors : List Dec} {a0 : Dec} (start : 0 ≤ a0.int)
    (nonneg : ∀ f ∈ factors, 0 ≤ f.int) : ∀ k, 0 ≤ (scheduledProvisions factors a0 k).int
  | 0 => start
  | k + 1 => by
    have factor : 0 ≤ (factors.getD (min (k + 1) (factors.length - 1)) 0).int := by
      rw [List.getD_eq_getElem?_getD]
      cases found : factors[min (k + 1) (factors.length - 1)]? with
      | none => exact le_refl 0
      | some f => exact nonneg f (List.mem_of_getElem? found)
    exact Dec.mul_nonneg (scheduledProvisions_nonneg start nonneg k) factor

/-- A year's block provision, the annual provisions divided by `B` and truncated, is not
negative, and `B` of them are at most the annual provisions. -/
theorem blockProvision_bounds {m : Minter} (blocks : 0 < params.blocksPerYear.toNat)
    (fits : params.blocksPerYear.toNat < 2 ^ 63) (nonneg : 0 ≤ m.annualProvisions.int) :
    0 ≤ m.blockProvision params ∧
      (params.blocksPerYear.toNat : Int) * m.blockProvision params * precisionReuse ≤
        m.annualProvisions.int := by
  set B : Int := (params.blocksPerYear.toNat : Int)
  have positive : 0 < B := by omega
  have share : (m.annualProvisions.quoInt (toSigned params.blocksPerYear)).int =
      m.annualProvisions.int / B := by
    rw [toSigned_of_lt fits]
    exact Int.tdiv_eq_ediv_of_nonneg nonneg
  have shareNonneg : 0 ≤ m.annualProvisions.int / B := Int.ediv_nonneg nonneg positive.le
  have provision : m.blockProvision params = m.annualProvisions.int / B / precisionReuse := by
    unfold Minter.blockProvision Dec.truncateInt
    rw [chopPrecisionAndTruncate_of_nonneg (share ▸ shareNonneg), share]
  refine ⟨provision ▸ Int.ediv_nonneg shareNonneg precisionReuse_pos.le, ?_⟩
  calc B * m.blockProvision params * precisionReuse
      = B * (m.annualProvisions.int / B / precisionReuse * precisionReuse) := by
        rw [provision, mul_assoc]
    _ ≤ B * (m.annualProvisions.int / B) :=
        Int.mul_le_mul_of_nonneg_left (Int.ediv_mul_le _ precisionReuse_pos.ne') positive.le
    _ ≤ m.annualProvisions.int := Int.mul_ediv_self_le positive.ne'

/-- The run of the heights `1..h` from the minter `(0, A0)` on a ready chain: every block
succeeds, the minter is the scheduled one, the chain stays ready, and the supply of the mint
denomination has grown by the block provisions of the heights `1..h`, that of every other
denomination not at all. The induction is on `h`, one block a step. -/
theorem runHeights_scheduled (blocks : 0 < params.blocksPerYear.toNat)
    (fits : params.blocksPerYear.toNat < 2 ^ 63) (nonempty : params.inflationFactorPerYear ≠ [])
    {a0 : Dec} (start : 0 ≤ a0.int) (factors : ∀ f ∈ params.inflationFactorPerYear, 0 ≤ f.int)
    (denom : validateDenom params.mintDenom = true) (blockTime : Nat → Int) {L : Ledger}
    (ready : MintReady sk L) :
    ∀ h, h < 2 ^ 63 → ∃ L', runHeights sk params blockTime (L, ⟨0, a0⟩) h =
        .ok (L', scheduledMinter params a0 h) ∧ MintReady sk L' ∧
      ∀ d, CoinSet.amt L'.supply d = CoinSet.amt L.supply d +
        if params.mintDenom = d then
          ∑ j ∈ Finset.Icc 1 h, (scheduledMinter params a0 j).blockProvision params else 0 := by
  intro h
  induction h with
  | zero =>
    intro _
    refine ⟨L, by rw [scheduledMinter_zero]; rfl, ready, fun d => ?_⟩
    simp
  | succ h ih =>
    intro height
    obtain ⟨L₁, run₁, ready₁, supply₁⟩ := ih (by omega)
    have provision := (blockProvision_bounds (m := scheduledMinter params a0 (h + 1)) blocks fits
      (scheduledProvisions_nonneg start factors _)).1
    obtain ⟨L', block, ready', supply'⟩ :=
      beginBlocker_ready ready₁ (blockTime (h + 1)) denom provision
    refine ⟨L', ?_, ready', fun d => ?_⟩
    · -- the year turns, or not, as scheduled; then the block mints its provision
      unfold runHeights
      refine Fallible.bind_eq_ok.mpr ⟨_, run₁, ?_⟩
      unfold abciBeginBlocker
      refine Fallible.bind_eq_ok.mpr ⟨_, newYear_scheduled blocks fits nonempty a0 height, ?_⟩
      exact Fallible.bind_eq_ok.mpr ⟨_, block, rfl⟩
    · rw [supply', supply₁, Finset.sum_Icc_succ_top (by omega)]
      split_ifs <;> ring

/-- The heights of the year `k` mint no more than its annual provisions: there are at most `B`
of them, and each mints the year's block provision. -/
theorem yearMinted_le (blocks : 0 < params.blocksPerYear.toNat)
    (fits : params.blocksPerYear.toNat < 2 ^ 63) {a0 : Dec} (start : 0 ≤ a0.int)
    (factors : ∀ f ∈ params.inflationFactorPerYear, 0 ≤ f.int) (h k : Nat) :
    (∑ j ∈ (Finset.Icc 1 h).filter (fun j => j / params.blocksPerYear.toNat = k),
        (scheduledMinter params a0 j).blockProvision params) * precisionReuse ≤
      (scheduledProvisions params.inflationFactorPerYear a0 k).int := by
  set B := params.blocksPerYear.toNat
  set year := (Finset.Icc 1 h).filter (fun j => j / B = k)
  -- the minter of the year `k`: every height of the year mints its block provision
  set m : Minter := ⟨UInt64.ofNat k, scheduledProvisions params.inflationFactorPerYear a0 k⟩
  have constant : ∀ j ∈ year,
      (scheduledMinter params a0 j).blockProvision params = m.blockProvision params := by
    intro j member
    have inYear : j / B = k := (Finset.mem_filter.mp member).2
    unfold Minter.blockProvision scheduledMinter
    rw [inYear]
  have few : year.card ≤ B := by
    calc year.card ≤ (Finset.Ico (k * B) (k * B + B)).card := by
          refine Finset.card_le_card fun j member => ?_
          have inYear : j / B = k := (Finset.mem_filter.mp member).2
          rw [Finset.mem_Ico, ← inYear]
          exact ⟨Nat.div_mul_le_self j B, Nat.lt_div_mul_add blocks⟩
      _ = B := by simp
  obtain ⟨nonneg, bound⟩ :=
    blockProvision_bounds (m := m) blocks fits (scheduledProvisions_nonneg start factors k)
  rw [Finset.sum_congr rfl constant, Finset.sum_const, nsmul_eq_mul]
  calc (year.card : Int) * m.blockProvision params * precisionReuse
      ≤ (B : Int) * m.blockProvision params * precisionReuse := by
        have fewer : (year.card : Int) ≤ B := by exact_mod_cast few
        exact Int.mul_le_mul_of_nonneg_right (Int.mul_le_mul_of_nonneg_right fewer nonneg)
          precisionReuse_pos.le
    _ ≤ m.annualProvisions.int := bound

/-- The mint schedule: with `0 < B < 2 ^ 63`, a non-empty list of non-negative factors,
non-negative starting provisions and a valid mint denomination, on a ready chain and below the
height `2 ^ 63`, the heights `1..h` from the minter `(0, A0)` succeed and leave the year index
`h / B` with the scheduled annual provisions; each height `j` mints the annual provisions of
its year divided by `B` and truncated; the supply of the mint denomination grows by exactly
what the heights `1..h` mint, that of every other denomination not at all; and the heights of
any year mint no more than its annual provisions. -/
theorem mint_schedule (sk : SupplyKeeper) (params : Params) (a0 : Dec) (blockTime : Nat → Int)
    (L : Ledger) (blocks : 0 < params.blocksPerYear.toNat)
    (fits : params.blocksPerYear.toNat < 2 ^ 63) (nonempty : params.inflationFactorPerYear ≠ [])
    (start : 0 ≤ a0.int) (factors : ∀ f ∈ params.inflationFactorPerYear, 0 ≤ f.int)
    (denom : validateDenom params.mintDenom = true) (ready : MintReady sk L) (h : Nat)
    (height : h < 2 ^ 63) :
    ∃ L', runHeights sk params blockTime (L, ⟨0, a0⟩) h = .ok (L', scheduledMinter params a0 h) ∧
      (scheduledMinter params a0 h).currentYearIndex.toNat = h / params.blocksPerYear.toNat ∧
      (∀ j, (scheduledMinter params a0 j).blockProvision params =
        ((scheduledProvisions params.inflationFactorPerYear a0 (j / params.blocksPerYear.toNat)).quoInt
          params.blocksPerYear.toNat).truncateInt) ∧
      CoinSet.amt L'.supply params.mintDenom = CoinSet.amt L.supply params.mintDenom +
        ∑ j ∈ Finset.Icc 1 h, (scheduledMinter params a0 j).blockProvision params ∧
      (∀ d, d ≠ params.mintDenom → CoinSet.amt L'.supply d = CoinSet.amt L.supply d) ∧
      ∀ k, (∑ j ∈ (Finset.Icc 1 h).filter (fun j => j / params.blocksPerYear.toNat = k),
          (scheduledMinter params a0 j).blockProvision params) * precisionReuse ≤
        (scheduledProvisions params.inflationFactorPerYear a0 k).int := by
  obtain ⟨L', run, -, supply⟩ :=
    runHeights_scheduled blocks fits nonempty start factors denom blockTime ready h height
  have index : h / params.blocksPerYear.toNat < 2 ^ 64 := by
    have := Nat.div_le_self h params.blocksPerYear.toNat
    omega
  refine ⟨L', run, toNat_ofNat_of_lt index, fun j => ?_, ?_, fun d other => ?_,
    yearMinted_le blocks fits start factors h⟩
  · -- the `int64` cast of `B` is `B` itself
    unfold Minter.blockProvision scheduledMinter
    rw [toSigned_of_lt fits]
  · rw [supply, if_pos rfl]
  · rw [supply, if_neg (Ne.symm other), add_zero]

/-- A supply keeper with the mint module at `[1]` and the fee collector at `[2]`. -/
def mintKeeper : SupplyKeeper :=
  ⟨fun name => if name = moduleName then [1] else [2],
    [(moduleName, [minter]), (feeCollectorName, [])]⟩

/-- The ledger after the mint module's `InitGenesis`: its account, without coins. -/
def mintGenesis : Ledger :=
  ⟨SortedMap.empty.insert [1] ⟨[], .module moduleName [minter]⟩, []⟩

theorem mintGenesis_ready : MintReady mintKeeper mintGenesis := by
  refine ⟨rfl, rfl, by decide, ⟨_, moduleName, [minter], rfl, rfl, rfl, rfl⟩,
    fun acc stored => ?_⟩
  have none : mintGenesis.accounts.getAccount (mintKeeper.moduleAddress feeCollectorName) = none :=
    rfl
  rw [none] at stored
  cases stored

theorem mint_schedule_default :
    (0 < defaultParams.blocksPerYear.toNat ∧ defaultParams.blocksPerYear.toNat < 2 ^ 63 ∧
      defaultParams.inflationFactorPerYear ≠ [] ∧ 0 ≤ defaultMinter.annualProvisions.int ∧
      (∀ f ∈ defaultParams.inflationFactorPerYear, 0 ≤ f.int) ∧
      validateDenom defaultParams.mintDenom = true ∧ MintReady mintKeeper mintGenesis ∧
      1 < 2 ^ 63) ∧
    ∃ L', runHeights mintKeeper defaultParams (fun _ => 0)
        (mintGenesis, ⟨0, defaultMinter.annualProvisions⟩) 1 =
        .ok (L', scheduledMinter defaultParams defaultMinter.annualProvisions 1) ∧
      (scheduledMinter defaultParams defaultMinter.annualProvisions 1).currentYearIndex.toNat =
        1 / defaultParams.blocksPerYear.toNat ∧
      (∀ j, (scheduledMinter defaultParams defaultMinter.annualProvisions j).blockProvision
          defaultParams =
        ((scheduledProvisions defaultParams.inflationFactorPerYear defaultMinter.annualProvisions
          (j / defaultParams.blocksPerYear.toNat)).quoInt
            defaultParams.blocksPerYear.toNat).truncateInt) ∧
      CoinSet.amt L'.supply defaultParams.mintDenom =
        CoinSet.amt mintGenesis.supply defaultParams.mintDenom +
        ∑ j ∈ Finset.Icc 1 1, (scheduledMinter defaultParams defaultMinter.annualProvisions
          j).blockProvision defaultParams ∧
      (∀ d, d ≠ defaultParams.mintDenom →
        CoinSet.amt L'.supply d = CoinSet.amt mintGenesis.supply d) ∧
      ∀ k, (∑ j ∈ (Finset.Icc 1 1).filter (fun j => j / defaultParams.blocksPerYear.toNat = k),
          (scheduledMinter defaultParams defaultMinter.annualProvisions j).blockProvision
            defaultParams) * precisionReuse ≤
        (scheduledProvisions defaultParams.inflationFactorPerYear
          defaultMinter.annualProvisions k).int := by
  have blocks : 0 < defaultParams.blocksPerYear.toNat := by decide
  have fits : defaultParams.blocksPerYear.toNat < 2 ^ 63 := by decide
  have nonempty : defaultParams.inflationFactorPerYear ≠ [] := by decide
  have start : 0 ≤ defaultMinter.annualProvisions.int := by decide
  have factors : ∀ f ∈ defaultParams.inflationFactorPerYear, 0 ≤ f.int := by decide
  have denom : validateDenom defaultParams.mintDenom = true := by decide +kernel
  exact ⟨⟨blocks, fits, nonempty, start, factors, denom, mintGenesis_ready, by decide⟩,
    mint_schedule mintKeeper defaultParams defaultMinter.annualProvisions (fun _ => 0) mintGenesis
      blocks fits nonempty start factors denom mintGenesis_ready 1 (by decide)⟩

/-- With `BlocksPerYear = 2 ^ 64 - 1`, which the source casts to the `int64` `-1`, the first
height divides to the year index `2 ^ 64 - 1` and indexes the factors at `-1`: the block panics,
where the schedule has the year index `0`. And a negative provision panics in `NewCoin`. -/
theorem mint_schedule_wraps (sk : SupplyKeeper) (L : Ledger) (blockTime : Nat → Int) (a0 : Dec) :
    0 < ({ defaultParams with blocksPerYear := 18446744073709551615 } : Params).blocksPerYear.toNat ∧
      runHeights sk { defaultParams with blocksPerYear := 18446744073709551615 } blockTime
        (L, ⟨0, a0⟩) 1 = throw (.panic "runtime error: index out of range") ∧
      runHeights sk defaultParams blockTime (L, ⟨0, ⟨-(6311520 * 10 ^ 18)⟩⟩) 1 =
        throw (.panic "negative coin amount: -1") :=
  ⟨by decide, rfl, rfl⟩

/-- On the chain of `mintGenesis`, from the default minter: `ValidateParams` accepts
`BlocksPerYear = 2 ^ 64 - 1` and `ValidateMinter` the minter, and yet the first block panics. -/
theorem mint_schedule_wraps_genesis :
    validateParams { defaultParams with blocksPerYear := 18446744073709551615 } = none ∧
      validateMinter defaultMinter = none ∧
      runHeights mintKeeper { defaultParams with blocksPerYear := 18446744073709551615 }
        (fun _ => 0) (mintGenesis, defaultMinter) 1 =
        throw (.panic "runtime error: index out of range") :=
  ⟨by decide, by decide,
    (mint_schedule_wraps mintKeeper mintGenesis (fun _ => 0) defaultMinter.annualProvisions).2.1⟩

end Run

end Mint

end Pocc
