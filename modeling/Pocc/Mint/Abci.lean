import Pocc.Token.Authority
import Pocc.Types.DecQuo
import Mathlib

/-!
# The mint module's block

x/mint: at every block `BeginBlocker` (abci.go) divides the height by `BlocksPerYear` into a
year index; an index above the minter's starts a new year, whose annual provisions are the
last ones times the year's inflation factor, the last factor standing for every later year
(`newYear`). It then mints the block's provision, the annual provisions divided by
`BlocksPerYear` and truncated, and sends it to the fee collector (`Mint.beginBlocker`).

`BlocksPerYear` is a `uint64`, converted to `int64` for the divisions, and the year index is a
`uint64`, converted to `int` to index the factors. `BeginBlocker` runs without a recover, and
`ValidateParams` checks the signs and that the denomination is not empty, but not that
`BlocksPerYear` is positive, that there is a factor, or that the denomination is one `NewCoin`
accepts: each of the three panics (`mint_halts_on_validated_params`).

`scheduledProvisions` is the schedule of the annual provisions, year by year, and
`scheduledMinter` the minter the heights `1..h` should leave; `newYear_scheduled` says that one
height takes the one to the next, for `0 < B < 2 ^ 63` (Mint/Schedule.lean runs it).
-/

namespace Pocc

namespace Mint

/-- `Params` of x/mint. -/
structure Params where
  mintDenom : String
  initalInflationAmount : Dec
  inflationFactorPerYear : List Dec
  blocksPerYear : UInt64
  deriving DecidableEq, Repr

/-- `Minter`: the current year index and its annual provisions. -/
structure Minter where
  currentYearIndex : UInt64
  annualProvisions : Dec
  deriving DecidableEq, Repr

/-- `DefaultParams`: 81 million of the native token in the first year, then the factors
`0.85`, `0.85`, `0.85` and `0.9` for every later year, with a block every five seconds. -/
def defaultParams : Params :=
  ⟨nativeToken, Dec.ofInt (81000000 * 10 ^ 18),
    [Dec.ofInt 1, ⟨85 * 10 ^ 16⟩, ⟨85 * 10 ^ 16⟩, ⟨85 * 10 ^ 16⟩, ⟨9 * 10 ^ 17⟩],
    60 * 60 * 8766 / 5⟩

/-- `DefaultInitialMinter` of the default inflation amount: year zero. -/
def defaultMinter : Minter := ⟨0, defaultParams.initalInflationAmount⟩

/-- `ValidateParams`: the first error, if any. -/
def validateParams (params : Params) : Option String :=
  if params.initalInflationAmount.isNegative then
    some ("mint parameter InflationAmountInCurrentYear should NOT be negative, is " ++
      params.initalInflationAmount.string ++ " ")
  else
    match params.inflationFactorPerYear.find? fun factor => decide factor.isNegative with
    | some factor =>
      some ("mint parameter InflationFactorPerYear should NOT be negative, is " ++
        factor.string ++ " ")
    | none =>
      if params.mintDenom = "" then some "mint parameter MintDenom can't be an empty string"
      else none

/-- `ValidateMinter`. -/
def validateMinter (minter : Minter) : Option String :=
  if minter.annualProvisions.isNegative then
    some ("mint parameter AnnualProvisions should Not be negative, is " ++
      minter.annualProvisions.string)
  else none

/-- Go's conversion of a `uint64` to `int64` or `int`: the same 64 bits read as a signed
number. -/
def toSigned (n : UInt64) : Int := if n.toNat < 2 ^ 63 then n.toNat else n.toNat - 2 ^ 64

/-- The year index of a height, `uint64(NewInt(height).QuoRaw(int64(BlocksPerYear)).Int64())`:
Go's `big.Int.Quo` truncates and panics on a zero divisor. -/
def epochOf (height : Int) (blocksPerYear : UInt64) : Except SdkError UInt64 :=
  if toSigned blocksPerYear = 0 then throw (.panic "division by zero")
  else pure (UInt64.ofInt (height.tdiv (toSigned blocksPerYear)))

/-- `InflationFactorPerYear[idx]`: an index outside the list panics. -/
def factorAt (factors : List Dec) (idx : Int) : Except SdkError Dec :=
  if idx < 0 then throw (.panic "runtime error: index out of range")
  else
    match factors[idx.toNat]? with
    | some factor => pure factor
    | none => throw (.panic "runtime error: index out of range")

/-- `NextAnnualProvisions`. -/
def Minter.nextAnnualProvisions (m : Minter) (inflationFactor : Dec) : Dec :=
  m.annualProvisions.mul inflationFactor

/-- The amount of `BlockProvision`: the annual provisions divided by `int64(BlocksPerYear)`
(`QuoInt`), truncated. `BlockProvision` makes it a coin of the mint denomination with `NewCoin`,
the first step of `Mint.beginBlocker`. -/
def Minter.blockProvision (m : Minter) (params : Params) : Int :=
  (m.annualProvisions.quoInt (toSigned params.blocksPerYear)).truncateInt

/-- The first half of `BeginBlocker`: a year index above the minter's starts a new year. -/
def newYear (params : Params) (height : Int) (minter : Minter) : Except SdkError Minter := do
  let epoch ← epochOf height params.blocksPerYear
  if minter.currentYearIndex < epoch then
    let count : Int := params.inflationFactorPerYear.length
    let idx := if count ≤ toSigned epoch then count - 1 else toSigned epoch
    let factor ← factorAt params.inflationFactorPerYear idx
    pure ⟨epoch, minter.nextAnnualProvisions factor⟩
  else pure minter

/-- `BeginBlocker`: the new year, then the block's provision minted and sent to the fee
collector. -/
def abciBeginBlocker (sk : SupplyKeeper) (L : Ledger) (blockTime height : Int) (params : Params)
    (minter : Minter) : Except SdkError (Ledger × Minter) := do
  let minter ← newYear params height minter
  let L ← beginBlocker sk L blockTime params.mintDenom (minter.blockProvision params)
  pure (L, minter)

/-- The default parameters with `BlocksPerYear` zero, with no inflation factor, or with the
denomination `x` pass `ValidateParams`, and the default minter passes `ValidateMinter`; yet
`BeginBlocker` panics, whatever the ledger: at the first block on the division by zero, at the
first block of year one on the factor index `-1`, and at the first block in `NewCoin`. -/
theorem mint_halts_on_validated_params (sk : SupplyKeeper) (L : Ledger) (blockTime : Int) :
    validateMinter defaultMinter = none ∧
      validateParams { defaultParams with blocksPerYear := 0 } = none ∧
      abciBeginBlocker sk L blockTime 1 { defaultParams with blocksPerYear := 0 } defaultMinter =
        throw (.panic "division by zero") ∧
      validateParams { defaultParams with inflationFactorPerYear := [] } = none ∧
      abciBeginBlocker sk L blockTime 6311520 { defaultParams with inflationFactorPerYear := [] }
        defaultMinter = throw (.panic "runtime error: index out of range") ∧
      validateParams { defaultParams with mintDenom := "x" } = none ∧
      abciBeginBlocker sk L blockTime 1 { defaultParams with mintDenom := "x" } defaultMinter =
        throw (.panic "invalid denom: x") := by
  refine ⟨by decide, by decide, rfl, by decide, rfl, by decide, rfl⟩

/-! ## The schedule of the annual provisions -/

/-- The annual provisions of the year `k`, from `a0` at year zero: the year `k + 1` multiplies
those of the year `k` by the factor `min(k + 1, L - 1)` of the list, with `Dec.Mul`. -/
def scheduledProvisions (factors : List Dec) (a0 : Dec) : Nat → Dec
  | 0 => a0
  | k + 1 => (scheduledProvisions factors a0 k).mul
      (factors.getD (min (k + 1) (factors.length - 1)) 0)

/-- The minter that the heights `1..h` should leave: the year `h / B` and its annual
provisions. -/
def scheduledMinter (params : Params) (a0 : Dec) (h : Nat) : Minter :=
  ⟨UInt64.ofNat (h / params.blocksPerYear.toNat),
    scheduledProvisions params.inflationFactorPerYear a0 (h / params.blocksPerYear.toNat)⟩

theorem toSigned_of_lt {n : UInt64} (h : n.toNat < 2 ^ 63) : toSigned n = n.toNat := by
  unfold toSigned
  rw [if_pos h]

theorem toNat_ofNat_of_lt {n : Nat} (h : n < 2 ^ 64) : (UInt64.ofNat n).toNat = n := by
  rw [UInt64.toNat_ofNat', Nat.mod_eq_of_lt h]

theorem ofInt_natCast (n : Nat) : UInt64.ofInt n = UInt64.ofNat n := by
  apply UInt64.toNat_inj.mp
  simp [UInt64.ofInt, UInt64.toNat_ofNat']
  omega

section Schedule

variable {params : Params}

/-- With `0 < B < 2 ^ 63` the year index of a height is the height divided by `B`. -/
theorem epochOf_eq (blocks : 0 < params.blocksPerYear.toNat)
    (fits : params.blocksPerYear.toNat < 2 ^ 63) (height : Nat) :
    epochOf height params.blocksPerYear =
      .ok (UInt64.ofNat (height / params.blocksPerYear.toNat)) := by
  unfold epochOf
  rw [toSigned_of_lt fits, if_neg (by omega), Int.natCast_tdiv_eq_ediv, ← Int.natCast_ediv,
    ofInt_natCast]
  rfl

/-- The factor of a year index `e`: the last factor for every index past the list. -/
theorem factorAt_clamped {factors : List Dec} (nonempty : factors ≠ []) (e : Nat) :
    factorAt factors (if (factors.length : Int) ≤ e then factors.length - 1 else e) =
      .ok (factors.getD (min e (factors.length - 1)) 0) := by
  have positive : 0 < factors.length := List.length_pos_of_ne_nil nonempty
  have index : (if (factors.length : Int) ≤ e then (factors.length : Int) - 1 else e) =
      ((min e (factors.length - 1) : Nat) : Int) := by
    split_ifs <;> omega
  rw [index]
  unfold factorAt
  rw [if_neg (by omega), Int.toNat_natCast, List.getD_eq_getElem?_getD,
    List.getElem?_eq_getElem (by omega)]
  rfl

theorem newYear_of_epochOf {height : Int} {minter : Minter} {epoch : UInt64}
    (h : epochOf height params.blocksPerYear = .ok epoch) :
    newYear params height minter =
      if minter.currentYearIndex < epoch then
        (factorAt params.inflationFactorPerYear
            (if (params.inflationFactorPerYear.length : Int) ≤ toSigned epoch then
              params.inflationFactorPerYear.length - 1 else toSigned epoch)) >>= fun factor =>
          pure ⟨epoch, minter.nextAnnualProvisions factor⟩
      else pure minter := by
  unfold newYear
  rw [h]
  rfl

/-- One block of the schedule: at the height `j + 1`, `newYear` takes the minter of the heights
`1..j` to that of the heights `1..j + 1`. A new year starts exactly when `B` divides `j + 1`. -/
theorem newYear_scheduled (blocks : 0 < params.blocksPerYear.toNat)
    (fits : params.blocksPerYear.toNat < 2 ^ 63) (nonempty : params.inflationFactorPerYear ≠ [])
    (a0 : Dec) {j : Nat} (height : j + 1 < 2 ^ 63) :
    newYear params (j + 1 : Nat) (scheduledMinter params a0 j) =
      .ok (scheduledMinter params a0 (j + 1)) := by
  have below : (j + 1) / params.blocksPerYear.toNat ≤ j + 1 := Nat.div_le_self _ _
  have before : j / params.blocksPerYear.toNat ≤ (j + 1) / params.blocksPerYear.toNat :=
    Nat.div_le_div_right (Nat.le_succ j)
  rw [newYear_of_epochOf (epochOf_eq blocks fits (j + 1))]
  by_cases divides : params.blocksPerYear.toNat ∣ j + 1
  · -- the height opens the year `e`, whose factor is the one at `min(e, L - 1)`
    have next := Nat.succ_div_of_dvd divides
    have grows : (scheduledMinter params a0 j).currentYearIndex <
        UInt64.ofNat ((j + 1) / params.blocksPerYear.toNat) := by
      show UInt64.ofNat (j / params.blocksPerYear.toNat) < _
      rw [UInt64.lt_iff_toNat_lt, toNat_ofNat_of_lt (by omega), toNat_ofNat_of_lt (by omega)]
      omega
    rw [if_pos grows, toSigned_of_lt (by rw [toNat_ofNat_of_lt (by omega)]; omega),
      toNat_ofNat_of_lt (by omega), factorAt_clamped nonempty]
    simp only [scheduledMinter, next, scheduledProvisions, Minter.nextAnnualProvisions]
    rfl
  · -- the height stays in the year of the one before
    have same := Nat.succ_div_of_not_dvd divides
    have stays : ¬ (scheduledMinter params a0 j).currentYearIndex <
        UInt64.ofNat ((j + 1) / params.blocksPerYear.toNat) := by
      rw [same]
      exact UInt64.lt_irrefl _
    rw [if_neg stays]
    simp only [scheduledMinter, same]
    rfl

end Schedule

end Mint

end Pocc
