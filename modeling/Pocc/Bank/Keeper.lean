import Pocc.Auth.Account
import Pocc.Types.CoinAlgebra

/-!
# The bank keeper

x/bank/internal/keeper/keeper.go: moving coins between accounts of the account store.
`SubtractCoins` checks what the account may spend and `AddCoins` what the sum holds, and both
write through `SetCoins`, which refuses an invalid set and creates a missing account.
`DelegateCoins` and `UndelegateCoins` write the delegator's account as it was read before the
module account was written: the two are kept in that order here.

Each function returns the new store or the error; the events they emit are not modelled.
-/

namespace Pocc

namespace Coins

/-- `Coins.IsAllPositive`: not empty, and every amount positive. -/
def isAllPositive (coins : Coins) : Bool :=
  !coins.isEmpty && coins.all fun c => decide (0 < c.amount)

end Coins

namespace Bank

/-- `ModuleName` of x/bank, its codespace. -/
def moduleName : String := "bank"

/-- `ErrInputOutputMismatch`. -/
def errInputOutputMismatch : SdkError :=
  .error moduleName (.module 102) "sum inputs != sum outputs"

/-- `SetCoins`. -/
def setCoins (accounts : AccountStore) (addr : AccAddress) (amt : Coins) :
    Except SdkError AccountStore :=
  if !Coins.isValid amt then throw (.invalidCoins (Coins.string amt))
  else
    let acc := (accounts.getAccount addr).getD Account.newAccountWithAddress
    pure (accounts.setAccount addr { acc with coins := amt })

/-- What `SubtractCoins` reads of an account: its coins and what of them it may spend. -/
def oldAndSpendableCoins (accounts : AccountStore) (blockTime : Int) (addr : AccAddress) :
    Except SdkError (Coins × Coins) :=
  match accounts.getAccount addr with
  | none => pure ([], [])
  | some acc => do pure (acc.coins, ← acc.spendableCoins blockTime)

/-- `SubtractCoins`: the coins left at `addr`, and the store. -/
def subtractCoins (accounts : AccountStore) (blockTime : Int) (addr : AccAddress) (amt : Coins) :
    Except SdkError (Coins × AccountStore) :=
  if !Coins.isValid amt then throw (.invalidCoins (Coins.string amt))
  else do
    let (oldCoins, spendableCoins) ← oldAndSpendableCoins accounts blockTime addr
    if (Coins.safeSub spendableCoins amt).2 then
      throw (.insufficientCoins
        s!"insufficient account funds; {Coins.string spendableCoins} < {Coins.string amt}")
    else do
      -- should not panic: the spendable coins were checked
      let newCoins ← Coins.sub oldCoins amt
      let accounts ← setCoins accounts addr newCoins
      pure (newCoins, accounts)

/-- `AddCoins`: the coins now at `addr`, and the store. -/
def addCoins (accounts : AccountStore) (addr : AccAddress) (amt : Coins) :
    Except SdkError (Coins × AccountStore) :=
  if !Coins.isValid amt then throw (.invalidCoins (Coins.string amt))
  else
    let oldCoins := accounts.getCoins addr
    let newCoins := Coins.add oldCoins amt
    if Coins.isAnyNegative newCoins then
      throw (.insufficientCoins
        s!"insufficient account funds; {Coins.string oldCoins} < {Coins.string amt}")
    else do
      let accounts ← setCoins accounts addr newCoins
      pure (newCoins, accounts)

/-- `SendCoins`. -/
def sendCoins (accounts : AccountStore) (blockTime : Int) (fromAddr toAddr : AccAddress)
    (amt : Coins) : Except SdkError AccountStore := do
  let (_, accounts) ← subtractCoins accounts blockTime fromAddr amt
  let (_, accounts) ← addCoins accounts toAddr amt
  pure accounts

/-- `EscrowCoins`: the transfer of `SendCoins`, under another event. -/
def escrowCoins (accounts : AccountStore) (blockTime : Int) (fromAddr toAddr : AccAddress)
    (amt : Coins) : Except SdkError AccountStore :=
  sendCoins accounts blockTime fromAddr toAddr amt

/-- `Input` and `Output` of a multi-send: an address and the coins it gives or receives. -/
structure Transfer where
  address : AccAddress
  coins : Coins
  deriving DecidableEq, Repr

/-- `Input.ValidateBasic` and `Output.ValidateBasic`. -/
def Transfer.validateBasic (t : Transfer) : Except SdkError Unit :=
  if t.address.isEmpty then throw (.invalidAddress "")
  else if !Coins.isValid t.coins then throw (.invalidCoins (Coins.string t.coins))
  else if !Coins.isAllPositive t.coins then throw (.invalidCoins (Coins.string t.coins))
  else pure ()

/-- One input or output of `ValidateInputsOutputs`: validated, then its coins added to the sum
by `Coins.Add`. -/
def addTransfer (total : Coins) (t : Transfer) : Except SdkError Coins := do
  t.validateBasic
  Coins.addChecked total t.coins

/-- The sum of the coins of a list of inputs or outputs, each validated first. -/
def sumTransfers (ts : List Transfer) : Except SdkError Coins :=
  ts.foldlM addTransfer []

/-- `ValidateInputsOutputs`: every input and output is valid and the two sums are equal. -/
def validateInputsOutputs (inputs outputs : List Transfer) : Except SdkError Unit := do
  let totalIn ← sumTransfers inputs
  let totalOut ← sumTransfers outputs
  if !(← Coins.isEqual totalIn totalOut) then throw errInputOutputMismatch

/-- `InputOutputCoins`: take every input, then give every output. -/
def inputOutputCoins (accounts : AccountStore) (blockTime : Int)
    (inputs outputs : List Transfer) : Except SdkError AccountStore := do
  validateInputsOutputs inputs outputs
  let accounts ← inputs.foldlM
    (fun accounts i => do pure (← subtractCoins accounts blockTime i.address i.coins).2) accounts
  outputs.foldlM (fun accounts o => do pure (← addCoins accounts o.address o.coins).2) accounts

/-- `DelegateCoins`: the delegator's account tracks the delegation, then the module account
receives the coins. -/
def delegateCoins (accounts : AccountStore) (blockTime : Int)
    (delegatorAddr moduleAccAddr : AccAddress) (amt : Coins) : Except SdkError AccountStore :=
  match accounts.getAccount delegatorAddr, accounts.getAccount moduleAccAddr with
  | none, _ => throw (.unknownAddress "account does not exist")
  | some _, none => throw (.unknownAddress "module account does not exist")
  | some delegatorAcc, some _ =>
    if !Coins.isValid amt then throw (.invalidCoins (Coins.string amt))
    else
      let oldCoins := delegatorAcc.coins
      if (Coins.safeSub oldCoins amt).2 then
        throw (.insufficientCoins
          s!"insufficient account funds; {Coins.string oldCoins} < {Coins.string amt}")
      else do
        let delegatorAcc ← trackDelegation delegatorAcc blockTime amt
        let accounts := accounts.setAccount delegatorAddr delegatorAcc
        let (_, accounts) ← addCoins accounts moduleAccAddr amt
        pure accounts

/-- `UndelegateCoins`: the module account gives up the coins, then the delegator's account,
as read before that write, tracks the undelegation and is written back. -/
def undelegateCoins (accounts : AccountStore) (moduleAccAddr delegatorAddr : AccAddress)
    (amt : Coins) : Except SdkError AccountStore :=
  match accounts.getAccount delegatorAddr, accounts.getAccount moduleAccAddr with
  | none, _ => throw (.unknownAddress "account does not exist")
  | some _, none => throw (.unknownAddress "module account does not exist")
  | some delegatorAcc, some moduleAcc =>
    if !Coins.isValid amt then throw (.invalidCoins (Coins.string amt))
    else
      let oldCoins := moduleAcc.coins
      let (newCoins, hasNeg) := Coins.safeSub oldCoins amt
      if hasNeg then
        throw (.insufficientCoins
          s!"insufficient account funds; {Coins.string oldCoins} < {Coins.string amt}")
      else do
        let accounts ← setCoins accounts moduleAccAddr newCoins
        let delegatorAcc ← trackUndelegation delegatorAcc amt
        pure (accounts.setAccount delegatorAddr delegatorAcc)

/-! ## What each function does to the coins held -/

open AccountStore

theorem setCoins_eq_ok {accounts accounts' : AccountStore} {addr : AccAddress} {amt : Coins}
    (h : setCoins accounts addr amt = .ok accounts') :
    Coins.isValid amt = true ∧
      accounts' = accounts.setAccount addr
        { (accounts.getAccount addr).getD Account.newAccountWithAddress with coins := amt } := by
  unfold setCoins at h
  split at h
  · exact absurd h Fallible.throw_ne_ok
  · next valid =>
    exact ⟨by simpa using valid, (Fallible.pure_eq_ok.mp h).symm⟩

theorem total_setCoins {accounts accounts' : AccountStore} {addr : AccAddress} {amt : Coins}
    (h : setCoins accounts addr amt = .ok accounts') (denom : String) :
    accounts'.total denom =
      accounts.total denom - CoinSet.amt (accounts.getCoins addr) denom + CoinSet.amt amt denom := by
  rw [(setCoins_eq_ok h).2, total_setAccount]

theorem getCoins_setCoins {accounts accounts' : AccountStore} {addr : AccAddress} {amt : Coins}
    (h : setCoins accounts addr amt = .ok accounts') (addr' : AccAddress) :
    accounts'.getCoins addr' = if addr = addr' then amt else accounts.getCoins addr' := by
  rw [(setCoins_eq_ok h).2]
  unfold getCoins
  rw [getAccount_setAccount]
  by_cases same : addr = addr'
  · simp [same]
  · simp [same]

theorem oldAndSpendableCoins_fst {accounts : AccountStore} {blockTime : Int} {addr : AccAddress}
    {old spendable : Coins}
    (h : oldAndSpendableCoins accounts blockTime addr = .ok (old, spendable)) :
    old = accounts.getCoins addr := by
  unfold oldAndSpendableCoins at h
  unfold getCoins
  -- a case split on the account, in the goal and in `h` alike
  cases found : accounts.getAccount addr with
  | none =>
    simp only [found] at h
    exact (Prod.ext_iff.mp (Fallible.pure_eq_ok.mp h).symm).1
  | some acc =>
    simp only [found] at h
    obtain ⟨sp, -, h⟩ := Fallible.bind_eq_ok.mp h
    exact (Prod.ext_iff.mp (Fallible.pure_eq_ok.mp h).symm).1

/-- `SubtractCoins` takes exactly the amount out of the total. -/
theorem subtractCoins_eq_ok {accounts accounts' : AccountStore} {blockTime : Int}
    {addr : AccAddress} {amt newCoins : Coins}
    (h : subtractCoins accounts blockTime addr amt = .ok (newCoins, accounts')) :
    Coins.isValid amt = true ∧ Coins.sub (accounts.getCoins addr) amt = .ok newCoins ∧
      setCoins accounts addr newCoins = .ok accounts' := by
  unfold subtractCoins at h
  split at h
  · exact absurd h Fallible.throw_ne_ok
  · next valid =>
    obtain ⟨⟨old, spendable⟩, hread, h⟩ := Fallible.bind_eq_ok.mp h
    rw [oldAndSpendableCoins_fst hread] at h
    dsimp only at h
    split at h
    · exact absurd h Fallible.throw_ne_ok
    · obtain ⟨diff, hdiff, h⟩ := Fallible.bind_eq_ok.mp h
      obtain ⟨stored, hset, h⟩ := Fallible.bind_eq_ok.mp h
      obtain ⟨rfl, rfl⟩ := Prod.ext_iff.mp (Fallible.pure_eq_ok.mp h)
      exact ⟨by simpa using valid, hdiff, hset⟩

theorem total_subtractCoins {accounts accounts' : AccountStore} {blockTime : Int}
    {addr : AccAddress} {amt newCoins : Coins}
    (h : subtractCoins accounts blockTime addr amt = .ok (newCoins, accounts')) (denom : String) :
    accounts'.total denom = accounts.total denom - CoinSet.amt amt denom := by
  obtain ⟨-, hsub, hset⟩ := subtractCoins_eq_ok h
  rw [total_setCoins hset, Coins.amt_sub hsub]
  abel

theorem addCoins_eq_ok {accounts accounts' : AccountStore} {addr : AccAddress}
    {amt newCoins : Coins} (h : addCoins accounts addr amt = .ok (newCoins, accounts')) :
    Coins.isValid amt = true ∧ newCoins = Coins.add (accounts.getCoins addr) amt ∧
      setCoins accounts addr newCoins = .ok accounts' := by
  unfold addCoins at h
  split at h
  · exact absurd h Fallible.throw_ne_ok
  · next valid =>
    dsimp only at h
    split at h
    · exact absurd h Fallible.throw_ne_ok
    · obtain ⟨stored, hset, h⟩ := Fallible.bind_eq_ok.mp h
      obtain ⟨rfl, rfl⟩ := Prod.ext_iff.mp (Fallible.pure_eq_ok.mp h)
      exact ⟨by simpa using valid, rfl, hset⟩

/-- `AddCoins` puts exactly the amount into the total. -/
theorem total_addCoins {accounts accounts' : AccountStore} {addr : AccAddress}
    {amt newCoins : Coins} (h : addCoins accounts addr amt = .ok (newCoins, accounts'))
    (denom : String) :
    accounts'.total denom = accounts.total denom + CoinSet.amt amt denom := by
  obtain ⟨-, rfl, hset⟩ := addCoins_eq_ok h
  rw [total_setCoins hset, Coins.amt_add]
  abel

theorem total_sendCoins {accounts accounts' : AccountStore} {blockTime : Int}
    {fromAddr toAddr : AccAddress} {amt : Coins}
    (h : sendCoins accounts blockTime fromAddr toAddr amt = .ok accounts') (denom : String) :
    accounts'.total denom = accounts.total denom := by
  unfold sendCoins at h
  obtain ⟨⟨_, accounts₁⟩, hsub, h⟩ := Fallible.bind_eq_ok.mp h
  obtain ⟨⟨_, accounts₂⟩, hadd, h⟩ := Fallible.bind_eq_ok.mp h
  rw [← Fallible.pure_eq_ok.mp h, total_addCoins hadd, total_subtractCoins hsub]
  abel

theorem sendCoins_eq_ok {accounts accounts' : AccountStore} {blockTime : Int}
    {fromAddr toAddr : AccAddress} {amt : Coins}
    (h : sendCoins accounts blockTime fromAddr toAddr amt = .ok accounts') :
    ∃ accounts₁ newFrom newTo, subtractCoins accounts blockTime fromAddr amt = .ok (newFrom, accounts₁) ∧
      addCoins accounts₁ toAddr amt = .ok (newTo, accounts') := by
  unfold sendCoins at h
  obtain ⟨⟨newFrom, accounts₁⟩, hsub, h⟩ := Fallible.bind_eq_ok.mp h
  obtain ⟨⟨newTo, accounts₂⟩, hadd, h⟩ := Fallible.bind_eq_ok.mp h
  cases Fallible.pure_eq_ok.mp h
  exact ⟨accounts₁, newFrom, newTo, hsub, hadd⟩

/-! ## When the transfers succeed -/

theorem setCoins_of_isValid {accounts : AccountStore} {addr : AccAddress} {amt : Coins}
    (valid : Coins.isValid amt = true) :
    setCoins accounts addr amt = .ok (accounts.setAccount addr
      { (accounts.getAccount addr).getD Account.newAccountWithAddress with coins := amt }) := by
  unfold setCoins
  rw [if_neg (by simp [valid])]
  rfl

/-- `AddCoins` of a valid amount to an address holding valid coins succeeds: the account there,
or a new base account, holds the sum. -/
theorem addCoins_of_isValid {accounts : AccountStore} {addr : AccAddress} {amt : Coins}
    (valid : Coins.isValid amt = true) (held : Coins.isValid (accounts.getCoins addr) = true) :
    addCoins accounts addr amt = .ok (Coins.add (accounts.getCoins addr) amt,
      accounts.setAccount addr { (accounts.getAccount addr).getD Account.newAccountWithAddress with
        coins := Coins.add (accounts.getCoins addr) amt }) := by
  have sum := Coins.isValid_add held valid
  unfold addCoins
  rw [if_neg (by simp [valid])]
  dsimp only
  rw [if_neg (by simp [Coins.isAnyNegative_of_isValid sum])]
  exact Fallible.bind_eq_ok.mpr ⟨_, setCoins_of_isValid sum, rfl⟩

/-- `SubtractCoins` from an account whose coins are all spendable, of an amount it holds on top
of valid coins, leaves it those coins. -/
theorem subtractCoins_of_add {accounts : AccountStore} {blockTime : Int} {addr : AccAddress}
    {acc : Account} {rest amt : Coins} (found : accounts.getAccount addr = some acc)
    (spendable : acc.spendableCoins blockTime = .ok acc.coins)
    (holds : acc.coins = Coins.add rest amt) (validRest : Coins.isValid rest = true)
    (valid : Coins.isValid amt = true) :
    subtractCoins accounts blockTime addr amt =
      .ok (rest, accounts.setAccount addr { acc with coins := rest }) := by
  have read : oldAndSpendableCoins accounts blockTime addr = .ok (acc.coins, acc.coins) := by
    unfold oldAndSpendableCoins
    rw [found]
    exact Fallible.bind_eq_ok.mpr ⟨_, spendable, rfl⟩
  have back : Coins.sub acc.coins amt = .ok rest := by
    rw [holds]
    exact Coins.sub_add_self validRest valid
  have noNeg : (Coins.safeSub acc.coins amt).2 = false := by
    rw [Bool.eq_false_iff, ne_eq, ← Coins.sub_eq_panic_iff, back]
    exact fun h => Fallible.throw_ne_ok h.symm
  unfold subtractCoins
  rw [if_neg (by simp [valid])]
  refine Fallible.bind_eq_ok.mpr ⟨_, read, ?_⟩
  dsimp only
  rw [if_neg (by simp [noNeg])]
  refine Fallible.bind_eq_ok.mpr ⟨rest, back, Fallible.bind_eq_ok.mpr ⟨_, setCoins_of_isValid
    validRest, ?_⟩⟩
  simp [found]

/-- `SendCoins` out of an account whose coins are all spendable, of an amount it holds on top
of valid coins, to another address holding valid coins: the sender is left those coins, the
recipient holds the sum, and no other account changes. -/
theorem sendCoins_of_add {accounts : AccountStore} {blockTime : Int}
    {fromAddr toAddr : AccAddress} {acc : Account} {rest amt : Coins}
    (found : accounts.getAccount fromAddr = some acc)
    (spendable : acc.spendableCoins blockTime = .ok acc.coins)
    (holds : acc.coins = Coins.add rest amt) (validRest : Coins.isValid rest = true)
    (valid : Coins.isValid amt = true) (distinct : fromAddr ≠ toAddr)
    (held : Coins.isValid (accounts.getCoins toAddr) = true) :
    ∃ accounts', sendCoins accounts blockTime fromAddr toAddr amt = .ok accounts' ∧
      accounts'.getAccount fromAddr = some { acc with coins := rest } ∧
      accounts'.getAccount toAddr = some
        { (accounts.getAccount toAddr).getD Account.newAccountWithAddress with
          coins := Coins.add (accounts.getCoins toAddr) amt } ∧
      ∀ addr, addr ≠ fromAddr → addr ≠ toAddr → accounts'.getAccount addr = accounts.getAccount addr := by
  set accounts₁ := accounts.setAccount fromAddr { acc with coins := rest }
  -- the recipient's account is untouched by the subtraction
  have recipient : accounts₁.getAccount toAddr = accounts.getAccount toAddr := by
    rw [getAccount_setAccount, if_neg distinct]
  have recipientCoins : accounts₁.getCoins toAddr = accounts.getCoins toAddr := by
    unfold getCoins
    rw [recipient]
  refine ⟨accounts₁.setAccount toAddr
    { (accounts₁.getAccount toAddr).getD Account.newAccountWithAddress with
      coins := Coins.add (accounts₁.getCoins toAddr) amt }, ?_, ?_, ?_, fun addr other other' => ?_⟩
  · unfold sendCoins
    refine Fallible.bind_eq_ok.mpr ⟨_, subtractCoins_of_add found spendable holds validRest valid, ?_⟩
    refine Fallible.bind_eq_ok.mpr ⟨_, addCoins_of_isValid valid (recipientCoins ▸ held), rfl⟩
  · rw [getAccount_setAccount, if_neg (Ne.symm distinct), getAccount_setAccount, if_pos rfl]
  · rw [getAccount_setAccount, if_pos rfl, recipient, recipientCoins]
  · rw [getAccount_setAccount, if_neg (Ne.symm other'), getAccount_setAccount,
      if_neg (Ne.symm other)]

/-- `UndelegateCoins` of a valid amount that the module account covers, leaving it valid coins,
to a delegator whose stored account is not a vesting one: the module account is left the
difference and the delegator's account, as read before that write, the sum. -/
theorem undelegateCoins_of_le {accounts : AccountStore} {moduleAccAddr delegatorAddr : AccAddress}
    {moduleAcc delegatorAcc : Account} {amt : Coins}
    (hdelegator : accounts.getAccount delegatorAddr = some delegatorAcc)
    (hmodule : accounts.getAccount moduleAccAddr = some moduleAcc)
    (notVesting : ∀ v, delegatorAcc.kind ≠ .vesting v) (valid : Coins.isValid amt = true)
    (noNeg : (Coins.safeSub moduleAcc.coins amt).2 = false)
    (validRest : Coins.isValid (Coins.safeSub moduleAcc.coins amt).1 = true) :
    undelegateCoins accounts moduleAccAddr delegatorAddr amt =
      .ok ((accounts.setAccount moduleAccAddr
          { moduleAcc with coins := (Coins.safeSub moduleAcc.coins amt).1 }).setAccount
        delegatorAddr { delegatorAcc with coins := Coins.add delegatorAcc.coins amt }) := by
  unfold undelegateCoins
  rw [hdelegator, hmodule]
  dsimp only
  rw [if_neg (by simp [valid]), if_neg (by simp [noNeg])]
  refine Fallible.bind_eq_ok.mpr ⟨_, setCoins_of_isValid validRest, ?_⟩
  refine Fallible.bind_eq_ok.mpr ⟨_, trackUndelegation_of_not_vesting notVesting amt, ?_⟩
  simp [hmodule]

/-- `SetCoins` keeps the kind of every account it finds. -/
theorem kind_setCoins {accounts accounts' : AccountStore} {addr : AccAddress} {amt : Coins}
    (h : setCoins accounts addr amt = .ok accounts') {addr' : AccAddress} {acc : Account}
    (found : accounts.getAccount addr' = some acc) :
    ∃ acc', accounts'.getAccount addr' = some acc' ∧ acc'.kind = acc.kind := by
  rw [(setCoins_eq_ok h).2, getAccount_setAccount]
  by_cases same : addr = addr'
  · subst same
    simp [found]
  · simp [same, found]

/-- `SendCoins` keeps the kind of every account it finds. -/
theorem kind_sendCoins {accounts accounts' : AccountStore} {blockTime : Int}
    {fromAddr toAddr : AccAddress} {amt : Coins}
    (h : sendCoins accounts blockTime fromAddr toAddr amt = .ok accounts') {addr : AccAddress}
    {acc : Account} (found : accounts.getAccount addr = some acc) :
    ∃ acc', accounts'.getAccount addr = some acc' ∧ acc'.kind = acc.kind := by
  obtain ⟨accounts₁, _, _, hsub, hadd⟩ := sendCoins_eq_ok h
  obtain ⟨acc₁, found₁, kind₁⟩ := kind_setCoins (subtractCoins_eq_ok hsub).2.2 found
  obtain ⟨acc', found', kind'⟩ := kind_setCoins (addCoins_eq_ok hadd).2.2 found₁
  exact ⟨acc', found', kind'.trans kind₁⟩

/-- `SendCoins` to another address takes exactly the amount from the sender. -/
theorem amt_getCoins_sendCoins {accounts accounts' : AccountStore} {blockTime : Int}
    {fromAddr toAddr : AccAddress} {amt : Coins}
    (h : sendCoins accounts blockTime fromAddr toAddr amt = .ok accounts')
    (distinct : fromAddr ≠ toAddr) (denom : String) :
    CoinSet.amt (accounts'.getCoins fromAddr) denom =
      CoinSet.amt (accounts.getCoins fromAddr) denom - CoinSet.amt amt denom := by
  obtain ⟨accounts₁, newFrom, _, hsub, hadd⟩ := sendCoins_eq_ok h
  obtain ⟨-, hdiff, hset⟩ := subtractCoins_eq_ok hsub
  rw [getCoins_setCoins (addCoins_eq_ok hadd).2.2, if_neg (Ne.symm distinct),
    getCoins_setCoins hset, if_pos rfl, Coins.amt_sub hdiff]

/-- A transfer that was added was valid, and its coins were added exactly. -/
theorem addTransfer_eq_ok {total total' : Coins} {t : Transfer}
    (h : addTransfer total t = .ok total') :
    t.validateBasic = .ok () ∧ total' = Coins.add total t.coins := by
  obtain ⟨⟨⟩, valid, added⟩ := Fallible.bind_eq_ok.mp h
  refine ⟨valid, ?_⟩
  rcases Coins.addChecked_cases total t.coins with summed | panicked
  · rw [summed] at added
    exact (Except.ok.inj added).symm
  · rw [panicked] at added
    cases added

theorem amt_sumTransfers {ts : List Transfer} {total : Coins} (h : sumTransfers ts = .ok total)
    (denom : String) :
    CoinSet.amt total denom = (ts.map fun t => CoinSet.amt t.coins denom).sum := by
  have loop := Fallible.foldlM_ok_sum _ (fun total : Coins => CoinSet.amt total denom)
    (fun t => CoinSet.amt t.coins denom) (fun total t total' hstep => by
      obtain ⟨-, rfl⟩ := addTransfer_eq_ok hstep
      rw [Coins.amt_add]) ts [] total h
  rw [loop, CoinSet.amt_nil, zero_add]

/-- What `ValidateInputsOutputs` lets through gives as much of each denomination as it takes. -/
theorem validateInputsOutputs_balanced {inputs outputs : List Transfer}
    (h : validateInputsOutputs inputs outputs = .ok ()) (denom : String) :
    (inputs.map fun t => CoinSet.amt t.coins denom).sum =
      (outputs.map fun t => CoinSet.amt t.coins denom).sum := by
  unfold validateInputsOutputs at h
  obtain ⟨totalIn, hin, h⟩ := Fallible.bind_eq_ok.mp h
  obtain ⟨totalOut, hout, h⟩ := Fallible.bind_eq_ok.mp h
  obtain ⟨equal, hequal, h⟩ := Fallible.bind_eq_ok.mp h
  have hequal' : equal = true := by
    cases equal with
    | true => rfl
    | false => exact absurd h Fallible.throw_ne_ok
  subst hequal'
  rw [← amt_sumTransfers hin, ← amt_sumTransfers hout, CoinSet.amt_eq_of_isEqual hequal]

theorem total_inputOutputCoins {accounts accounts' : AccountStore} {blockTime : Int}
    {inputs outputs : List Transfer}
    (h : inputOutputCoins accounts blockTime inputs outputs = .ok accounts') (denom : String) :
    accounts'.total denom = accounts.total denom := by
  unfold inputOutputCoins at h
  obtain ⟨_, hvalid, h⟩ := Fallible.bind_eq_ok.mp h
  obtain ⟨accounts₁, hinputs, houtputs⟩ := Fallible.bind_eq_ok.mp h
  -- every input takes its coins out of the total, every output puts its coins in
  have taken := Fallible.foldlM_ok_sum _ (fun accounts : AccountStore => accounts.total denom)
    (fun i => -CoinSet.amt i.coins denom) (fun accounts i accounts' hstep => by
      obtain ⟨⟨_, stored⟩, hsub, hstep⟩ := Fallible.bind_eq_ok.mp hstep
      rw [← Fallible.pure_eq_ok.mp hstep, total_subtractCoins hsub, sub_eq_add_neg])
    inputs accounts accounts₁ hinputs
  have given := Fallible.foldlM_ok_sum _ (fun accounts : AccountStore => accounts.total denom)
    (fun o => CoinSet.amt o.coins denom) (fun accounts o accounts' hstep => by
      obtain ⟨⟨_, stored⟩, hadd, hstep⟩ := Fallible.bind_eq_ok.mp hstep
      rw [← Fallible.pure_eq_ok.mp hstep, total_addCoins hadd])
    outputs accounts₁ accounts' houtputs
  have balanced := validateInputsOutputs_balanced hvalid denom
  have negated : (inputs.map fun i => -CoinSet.amt i.coins denom).sum =
      -(inputs.map fun i => CoinSet.amt i.coins denom).sum := by
    rw [List.sum_neg, List.map_map]
    rfl
  rw [given, taken, negated, balanced]
  abel

/-- `DelegateCoins` moves the amount from the delegator to the module account: the total is
unchanged, also when the two addresses are one. -/
theorem total_delegateCoins {accounts accounts' : AccountStore} {blockTime : Int}
    {delegatorAddr moduleAccAddr : AccAddress} {amt : Coins}
    (h : delegateCoins accounts blockTime delegatorAddr moduleAccAddr amt = .ok accounts')
    (denom : String) :
    accounts'.total denom = accounts.total denom := by
  unfold delegateCoins at h
  split at h
  · exact absurd h Fallible.throw_ne_ok
  · exact absurd h Fallible.throw_ne_ok
  · next delegatorAcc moduleAcc hdelegator hmodule =>
    split at h
    · exact absurd h Fallible.throw_ne_ok
    · dsimp only at h
      split at h
      · exact absurd h Fallible.throw_ne_ok
      · obtain ⟨tracked, htrack, h⟩ := Fallible.bind_eq_ok.mp h
        obtain ⟨⟨_, accounts₂⟩, hadd, h⟩ := Fallible.bind_eq_ok.mp h
        rw [← Fallible.pure_eq_ok.mp h, total_addCoins hadd, total_setAccount,
          getCoins_of_getAccount hdelegator, amt_trackDelegation htrack]
        abel

/-- `UndelegateCoins` moves the amount from the module account to the delegator, except when
the delegator is the module account itself: its account, read before the module account was
written, is written back with the amount added, and the amount is created. -/
theorem total_undelegateCoins {accounts accounts' : AccountStore}
    {moduleAccAddr delegatorAddr : AccAddress} {amt : Coins}
    (h : undelegateCoins accounts moduleAccAddr delegatorAddr amt = .ok accounts')
    (denom : String) :
    accounts'.total denom =
      accounts.total denom + if moduleAccAddr = delegatorAddr then CoinSet.amt amt denom else 0 := by
  unfold undelegateCoins at h
  split at h
  · exact absurd h Fallible.throw_ne_ok
  · exact absurd h Fallible.throw_ne_ok
  · next delegatorAcc moduleAcc hdelegator hmodule =>
    split at h
    · exact absurd h Fallible.throw_ne_ok
    · dsimp only at h
      split at h
      · exact absurd h Fallible.throw_ne_ok
      · next hneg =>
        obtain ⟨accounts₁, hset, h⟩ := Fallible.bind_eq_ok.mp h
        obtain ⟨tracked, htrack, h⟩ := Fallible.bind_eq_ok.mp h
        have hsub : Coins.sub moduleAcc.coins amt = .ok (Coins.safeSub moduleAcc.coins amt).1 := by
          simp [Coins.sub, hneg]
        rw [← Fallible.pure_eq_ok.mp h, total_setAccount, total_setCoins hset,
          getCoins_setCoins hset, getCoins_of_getAccount hmodule, amt_trackUndelegation htrack]
        split
        · next same =>
          subst same
          have hacc : moduleAcc = delegatorAcc := Option.some.inj (hmodule.symm.trans hdelegator)
          subst hacc
          rw [Coins.amt_sub hsub]
          abel
        · next distinct =>
          rw [getCoins_of_getAccount hdelegator, Coins.amt_sub hsub]
          abel

/-- `UndelegateCoins` to another account takes the amount from the module account and gives it
to the delegator. -/
theorem getCoins_undelegateCoins {accounts accounts' : AccountStore}
    {moduleAccAddr delegatorAddr : AccAddress} {amt : Coins}
    (h : undelegateCoins accounts moduleAccAddr delegatorAddr amt = .ok accounts')
    (distinct : moduleAccAddr ≠ delegatorAddr) (denom : String) :
    CoinSet.amt (accounts'.getCoins moduleAccAddr) denom =
        CoinSet.amt (accounts.getCoins moduleAccAddr) denom - CoinSet.amt amt denom ∧
      CoinSet.amt (accounts'.getCoins delegatorAddr) denom =
        CoinSet.amt (accounts.getCoins delegatorAddr) denom + CoinSet.amt amt denom := by
  unfold undelegateCoins at h
  split at h
  · exact absurd h Fallible.throw_ne_ok
  · exact absurd h Fallible.throw_ne_ok
  · next delegatorAcc moduleAcc hdelegator hmodule =>
    split at h
    · exact absurd h Fallible.throw_ne_ok
    · dsimp only at h
      split at h
      · exact absurd h Fallible.throw_ne_ok
      · next hneg =>
        obtain ⟨accounts₁, hset, h⟩ := Fallible.bind_eq_ok.mp h
        obtain ⟨tracked, htrack, h⟩ := Fallible.bind_eq_ok.mp h
        have hsub : Coins.sub moduleAcc.coins amt = .ok (Coins.safeSub moduleAcc.coins amt).1 := by
          simp [Coins.sub, hneg]
        rw [← Fallible.pure_eq_ok.mp h, getCoins_setAccount, getCoins_setAccount,
          if_neg (Ne.symm distinct), if_pos rfl, getCoins_setCoins hset, if_pos rfl,
          Coins.amt_sub hsub, amt_trackUndelegation htrack, getCoins_of_getAccount hmodule,
          getCoins_of_getAccount hdelegator]
        exact ⟨rfl, rfl⟩

/-! ## Every stored set stays sorted -/

theorem coinsSorted_setCoins {accounts accounts' : AccountStore} {addr : AccAddress}
    {amt : Coins} (h : setCoins accounts addr amt = .ok accounts') (sorted : accounts.CoinsSorted) :
    accounts'.CoinsSorted := by
  obtain ⟨valid, rfl⟩ := setCoins_eq_ok h
  exact coinsSorted_setAccount sorted addr (CoinSet.sorted_of_isValid valid)

theorem coinsSorted_subtractCoins {accounts accounts' : AccountStore} {blockTime : Int}
    {addr : AccAddress} {amt newCoins : Coins}
    (h : subtractCoins accounts blockTime addr amt = .ok (newCoins, accounts'))
    (sorted : accounts.CoinsSorted) : accounts'.CoinsSorted :=
  coinsSorted_setCoins (subtractCoins_eq_ok h).2.2 sorted

theorem coinsSorted_addCoins {accounts accounts' : AccountStore} {addr : AccAddress}
    {amt newCoins : Coins} (h : addCoins accounts addr amt = .ok (newCoins, accounts'))
    (sorted : accounts.CoinsSorted) : accounts'.CoinsSorted :=
  coinsSorted_setCoins (addCoins_eq_ok h).2.2 sorted

theorem coinsSorted_sendCoins {accounts accounts' : AccountStore} {blockTime : Int}
    {fromAddr toAddr : AccAddress} {amt : Coins}
    (h : sendCoins accounts blockTime fromAddr toAddr amt = .ok accounts')
    (sorted : accounts.CoinsSorted) : accounts'.CoinsSorted := by
  unfold sendCoins at h
  obtain ⟨⟨_, accounts₁⟩, hsub, h⟩ := Fallible.bind_eq_ok.mp h
  obtain ⟨⟨_, accounts₂⟩, hadd, h⟩ := Fallible.bind_eq_ok.mp h
  rw [← Fallible.pure_eq_ok.mp h]
  exact coinsSorted_addCoins hadd (coinsSorted_subtractCoins hsub sorted)

theorem coinsSorted_inputOutputCoins {accounts accounts' : AccountStore} {blockTime : Int}
    {inputs outputs : List Transfer}
    (h : inputOutputCoins accounts blockTime inputs outputs = .ok accounts')
    (sorted : accounts.CoinsSorted) : accounts'.CoinsSorted := by
  unfold inputOutputCoins at h
  obtain ⟨_, -, h⟩ := Fallible.bind_eq_ok.mp h
  obtain ⟨accounts₁, hinputs, houtputs⟩ := Fallible.bind_eq_ok.mp h
  have sorted₁ := Fallible.foldlM_ok_induction _ AccountStore.CoinsSorted
    (fun accounts i accounts' hsorted hstep => by
      obtain ⟨⟨_, stored⟩, hsub, hstep⟩ := Fallible.bind_eq_ok.mp hstep
      rw [← Fallible.pure_eq_ok.mp hstep]
      exact coinsSorted_subtractCoins hsub hsorted)
    inputs accounts accounts₁ sorted hinputs
  exact Fallible.foldlM_ok_induction _ AccountStore.CoinsSorted
    (fun accounts o accounts' hsorted hstep => by
      obtain ⟨⟨_, stored⟩, hadd, hstep⟩ := Fallible.bind_eq_ok.mp hstep
      rw [← Fallible.pure_eq_ok.mp hstep]
      exact coinsSorted_addCoins hadd hsorted)
    outputs accounts₁ accounts' sorted₁ houtputs

theorem coinsSorted_delegateCoins {accounts accounts' : AccountStore} {blockTime : Int}
    {delegatorAddr moduleAccAddr : AccAddress} {amt : Coins}
    (h : delegateCoins accounts blockTime delegatorAddr moduleAccAddr amt = .ok accounts')
    (sorted : accounts.CoinsSorted) : accounts'.CoinsSorted := by
  unfold delegateCoins at h
  split at h
  · exact absurd h Fallible.throw_ne_ok
  · exact absurd h Fallible.throw_ne_ok
  · next delegatorAcc moduleAcc hdelegator hmodule =>
    split at h
    · exact absurd h Fallible.throw_ne_ok
    · next valid =>
      dsimp only at h
      split at h
      · exact absurd h Fallible.throw_ne_ok
      · obtain ⟨tracked, htrack, h⟩ := Fallible.bind_eq_ok.mp h
        obtain ⟨⟨_, accounts₂⟩, hadd, h⟩ := Fallible.bind_eq_ok.mp h
        rw [← Fallible.pure_eq_ok.mp h]
        have hamt : CoinSet.Sorted amt :=
          CoinSet.sorted_of_isValid (by simpa using valid : Coins.isValid amt = true)
        exact coinsSorted_addCoins hadd (coinsSorted_setAccount sorted delegatorAddr
          (sorted_trackDelegation htrack (sorted delegatorAddr delegatorAcc hdelegator) hamt))

theorem coinsSorted_undelegateCoins {accounts accounts' : AccountStore}
    {moduleAccAddr delegatorAddr : AccAddress} {amt : Coins}
    (h : undelegateCoins accounts moduleAccAddr delegatorAddr amt = .ok accounts')
    (sorted : accounts.CoinsSorted) : accounts'.CoinsSorted := by
  unfold undelegateCoins at h
  split at h
  · exact absurd h Fallible.throw_ne_ok
  · exact absurd h Fallible.throw_ne_ok
  · next delegatorAcc moduleAcc hdelegator hmodule =>
    split at h
    · exact absurd h Fallible.throw_ne_ok
    · next valid =>
      dsimp only at h
      split at h
      · exact absurd h Fallible.throw_ne_ok
      · obtain ⟨accounts₁, hset, h⟩ := Fallible.bind_eq_ok.mp h
        obtain ⟨tracked, htrack, h⟩ := Fallible.bind_eq_ok.mp h
        rw [← Fallible.pure_eq_ok.mp h]
        have hamt : CoinSet.Sorted amt :=
          CoinSet.sorted_of_isValid (by simpa using valid : Coins.isValid amt = true)
        exact coinsSorted_setAccount (coinsSorted_setCoins hset sorted) delegatorAddr
          (sorted_trackUndelegation htrack (sorted delegatorAddr delegatorAcc hdelegator) hamt)

end Bank

end Pocc
