import Pocc.Bank.Handler

/-!
# Conservation of the supply

The `TotalSupply` invariant of x/supply (invariants.go): for every denomination, the coins
held over all accounts are the total supply. Every operation that moves coins (the bank
messages, the token messages, the supply keeper's functions and the two community-pool
functions) does one of three things to the accounts and the supply: keeps both, grows both by
the minted coins, or shrinks both by the burned coins (`SupplyOp.Effect`). The one exception
is `UndelegateCoins` with the sending module account as its own delegator: the module
account's balance is read before the module's write and written back with the amount added,
so the amount is created out of nothing.

`Ledger.Invariant` is the invariant the proofs carry: sorted sets everywhere, and the
equality read with `amt`; on sorted sets `AmountOf` is `amt`, which gives the source's form.
-/

namespace Pocc

/-! ## The invariant -/

namespace Ledger

/-- `TotalSupply`, in the source's words: the sum over all accounts of `AmountOf` is the
supply's `AmountOf`, for every denomination. -/
def TotalSupply (L : Ledger) : Prop :=
  ∀ denom, (L.accounts.sumBy fun _ acc => Coins.amountOf acc.coins denom) =
    Coins.amountOf L.supply denom

/-- The invariant the proofs carry. -/
structure Invariant (L : Ledger) : Prop where
  coinsSorted : L.accounts.CoinsSorted
  supplySorted : CoinSet.Sorted L.supply
  conserved : ∀ denom, L.accounts.total denom = CoinSet.amt L.supply denom

theorem totalSupply_of_invariant {L : Ledger} (inv : L.Invariant) : L.TotalSupply := by
  intro denom
  have held : (L.accounts.sumBy fun _ acc => Coins.amountOf acc.coins denom) =
      L.accounts.total denom :=
    SortedMap.sumBy_congr _ fun addr acc found =>
      CoinSet.amountOf_eq_amt (inv.coinsSorted addr acc found) denom
  rw [held, inv.conserved, Coins.amountOf, CoinSet.amountOf_eq_amt inv.supplySorted]

/-- An operation that keeps the supply and every total keeps the invariant. -/
theorem Invariant.of_neutral {L L' : Ledger} (inv : L.Invariant) (supply : L'.supply = L.supply)
    (total : ∀ denom, L'.accounts.total denom = L.accounts.total denom)
    (sorted : L.accounts.CoinsSorted → L'.accounts.CoinsSorted) : L'.Invariant where
  coinsSorted := sorted inv.coinsSorted
  supplySorted := supply ▸ inv.supplySorted
  conserved denom := by rw [total, inv.conserved, supply]

/-- An operation that mints the same valid coins into the accounts and the supply keeps the
invariant. -/
theorem Invariant.of_mint {L L' : Ledger} {minted : Coins} (inv : L.Invariant)
    (valid : Coins.isValid minted = true) (supply : L'.supply = Coins.add L.supply minted)
    (total : ∀ denom, L'.accounts.total denom = L.accounts.total denom + CoinSet.amt minted denom)
    (sorted : L.accounts.CoinsSorted → L'.accounts.CoinsSorted) : L'.Invariant where
  coinsSorted := sorted inv.coinsSorted
  supplySorted := supply ▸ Coins.sorted_add inv.supplySorted (CoinSet.sorted_of_isValid valid)
  conserved denom := by rw [total, inv.conserved, supply, Coins.amt_add]

/-- An operation that burns the same valid coins from the accounts and the supply keeps the
invariant. -/
theorem Invariant.of_burn {L L' : Ledger} {burned : Coins} (inv : L.Invariant)
    (valid : Coins.isValid burned = true) (supply : Coins.sub L.supply burned = .ok L'.supply)
    (total : ∀ denom, L'.accounts.total denom = L.accounts.total denom - CoinSet.amt burned denom)
    (sorted : L.accounts.CoinsSorted → L'.accounts.CoinsSorted) : L'.Invariant where
  coinsSorted := sorted inv.coinsSorted
  supplySorted := Coins.sorted_sub supply inv.supplySorted (CoinSet.sorted_of_isValid valid)
  conserved denom := by rw [total, inv.conserved, Coins.amt_sub supply]

end Ledger

/-! ## Genesis -/

namespace Supply

/-- `InitGenesis` of x/supply: a genesis without a supply gets the sum of the accounts' coins,
added up in the order the accounts are iterated. -/
def initGenesis (accounts : AccountStore) (supply : Coins) : Ledger :=
  if supply.isEmpty then
    ⟨accounts, accounts.entries.foldl (fun total e => Coins.add total e.2.coins) []⟩
  else ⟨accounts, supply⟩

theorem amt_foldl_add (entries : List (AccAddress × Account)) (start : Coins) (denom : String) :
    CoinSet.amt (entries.foldl (fun total e => Coins.add total e.2.coins) start) denom =
      CoinSet.amt start denom + SortedMap.sumEntries (fun _ acc => CoinSet.amt acc.coins denom) entries := by
  induction entries generalizing start with
  | nil => simp [SortedMap.sumEntries]
  | cons e entries ih =>
    rw [List.foldl_cons, ih, Coins.amt_add, SortedMap.sumEntries_cons, add_assoc]

theorem sorted_foldl_add (entries : List (AccAddress × Account)) {start : Coins}
    (sorted : CoinSet.Sorted start) (each : ∀ e ∈ entries, CoinSet.Sorted e.2.coins) :
    CoinSet.Sorted (entries.foldl (fun total e => Coins.add total e.2.coins) start) := by
  induction entries generalizing start with
  | nil => exact sorted
  | cons e entries ih =>
    exact ih (Coins.sorted_add sorted (each e List.mem_cons_self))
      fun e' he' => each e' (List.mem_cons_of_mem _ he')

/-- A genesis without a supply starts in the invariant. -/
theorem invariant_initGenesis {accounts : AccountStore} (sorted : accounts.CoinsSorted) :
    (initGenesis accounts []).Invariant where
  coinsSorted := sorted
  supplySorted := sorted_foldl_add _ List.Pairwise.nil fun e he =>
    sorted e.1 e.2 (SortedMap.find?_of_mem he)
  conserved denom := by
    simp only [initGenesis, List.isEmpty_nil, if_true]
    rw [amt_foldl_add, CoinSet.amt_nil, zero_add]
    rfl

end Supply

/-! ## The operations that move coins -/

/-- The state the coin-moving operations read and write: the accounts and the supply, the
community pool, the token registry with its parameters, the bank's `SendEnabled` parameter
and the block time. -/
structure Bookkeeping where
  ledger : Ledger
  feePool : FeePool
  tokens : TokenStore
  tokenParams : TokenParams
  sendEnabled : Bool
  blockTime : Int

/-- The keepers of the app, as far as these operations use them. -/
structure Keepers where
  bk : Bank.BankKeeper
  tk : Token.TokenKeeper

/-- The operations: the bank and token messages, and the keeper functions other modules call. -/
inductive SupplyOp where
  | msgSend (msg : Bank.MsgSend)
  | msgMultiSend (msg : Bank.MsgMultiSend)
  | msgEscrow (msg : Bank.MsgSend)
  | msgBonusSend (msg : Bank.MsgMultiSend)
  | msgReclaimSend (msg : Bank.MsgMultiSend)
  | msgNewToken (msg : Token.MsgNewToken)
  | msgInflateToken (msg : Token.MsgInflateToken)
  | msgBurnToken (msg : Token.MsgBurnToken)
  | mintCoins (moduleName : String) (amt : Coins)
  | burnCoins (moduleName : String) (amt : Coins)
  | sendCoinsFromModuleToAccount (senderModule : String) (recipientAddr : AccAddress) (amt : Coins)
  | sendCoinsFromModuleToModule (senderModule recipientModule : String) (amt : Coins)
  | sendCoinsFromAccountToModule (senderAddr : AccAddress) (recipientModule : String) (amt : Coins)
  | delegateCoins (senderAddr : AccAddress) (recipientModule : String) (amt : Coins)
  | undelegateCoins (senderModule : String) (recipientAddr : AccAddress) (amt : Coins)
  | addCoinsFromAccountToFeePool (senderAddr : AccAddress) (amount : Coins)
  | distributeFromFeePool (amount : Coins) (receiveAddr : AccAddress)
  deriving DecidableEq, Repr

namespace Bookkeeping

def withAccounts (B : Bookkeeping) (accounts : AccountStore) : Bookkeeping :=
  { B with ledger := { B.ledger with accounts } }

def withLedger (B : Bookkeeping) (ledger : Ledger) : Bookkeeping := { B with ledger }

/-- What the bank handlers read of the state. -/
def sendContext (B : Bookkeeping) : Bank.SendContext := ⟨B.sendEnabled, B.tokens, B.blockTime⟩

end Bookkeeping

namespace SupplyOp

variable (k : Keepers)

/-- Run one operation. -/
def apply (B : Bookkeeping) : SupplyOp → Except SdkError Bookkeeping
  | msgSend msg => B.withAccounts <$> Bank.handleMsgSend k.bk B.sendContext B.ledger.accounts msg
  | msgMultiSend msg =>
    B.withAccounts <$> Bank.handleMsgMultiSend k.bk B.sendContext B.ledger.accounts msg
  | msgEscrow msg => B.withAccounts <$> Bank.handleMsgEscrow k.bk B.sendContext B.ledger.accounts msg
  | msgBonusSend msg =>
    B.withAccounts <$> Bank.handleMsgBonusSend k.bk B.sendContext B.ledger.accounts msg
  | msgReclaimSend msg =>
    B.withAccounts <$> Bank.handleMsgReclaimSend k.bk B.sendContext B.ledger.accounts msg
  | msgNewToken msg => do
    let (ledger, feePool, tokens) ←
      Token.handleMsgNewToken k.tk B.ledger B.feePool B.tokens B.tokenParams B.blockTime msg
    pure { B with ledger, feePool, tokens }
  | msgInflateToken msg =>
    B.withLedger <$> Token.handleMsgInflateToken k.tk B.ledger B.tokens B.blockTime msg
  | msgBurnToken msg => B.withLedger <$> Token.handleMsgBurnToken k.tk B.ledger B.tokens B.blockTime msg
  | mintCoins moduleName amt => B.withLedger <$> k.tk.sk.mintCoins B.ledger moduleName amt
  | burnCoins moduleName amt => B.withLedger <$> k.tk.sk.burnCoins B.ledger B.blockTime moduleName amt
  | sendCoinsFromModuleToAccount senderModule recipientAddr amt =>
    B.withLedger <$>
      k.tk.sk.sendCoinsFromModuleToAccount B.ledger B.blockTime senderModule recipientAddr amt
  | sendCoinsFromModuleToModule senderModule recipientModule amt =>
    B.withLedger <$>
      k.tk.sk.sendCoinsFromModuleToModule B.ledger B.blockTime senderModule recipientModule amt
  | sendCoinsFromAccountToModule senderAddr recipientModule amt =>
    B.withLedger <$>
      k.tk.sk.sendCoinsFromAccountToModule B.ledger B.blockTime senderAddr recipientModule amt
  | delegateCoins senderAddr recipientModule amt =>
    B.withLedger <$>
      k.tk.sk.delegateCoinsFromAccountToModule B.ledger B.blockTime senderAddr recipientModule amt
  | undelegateCoins senderModule recipientAddr amt =>
    B.withLedger <$> k.tk.sk.undelegateCoinsFromModuleToAccount B.ledger senderModule recipientAddr amt
  | addCoinsFromAccountToFeePool senderAddr amount => do
    let (ledger, feePool) ← Distribution.addCoinsFromAccountToFeePool k.tk.sk B.ledger B.feePool
      B.blockTime senderAddr amount
    pure { B with ledger, feePool }
  | distributeFromFeePool amount receiveAddr => do
    let (ledger, feePool) ← Distribution.distributeFromFeePool k.tk.sk B.ledger B.feePool
      B.blockTime amount receiveAddr
    pure { B with ledger, feePool }

/-- `UndelegateCoins` naming the sending module account as its own delegator. -/
def UndelegatesToItself : SupplyOp → Prop
  | undelegateCoins senderModule recipientAddr _ => k.tk.sk.moduleAddress senderModule = recipientAddr
  | _ => False

/-- What a successful operation does to the accounts and the supply. -/
inductive Effect (L L' : Ledger) : Prop where
  /-- Both stay as they were. -/
  | neutral (supply : L'.supply = L.supply)
    (total : ∀ denom, L'.accounts.total denom = L.accounts.total denom)
  /-- Both grow by the same valid coins. -/
  | mint (minted : Coins) (valid : Coins.isValid minted = true)
    (supply : L'.supply = Coins.add L.supply minted)
    (total : ∀ denom, L'.accounts.total denom = L.accounts.total denom + CoinSet.amt minted denom)
  /-- Both shrink by the same valid coins. -/
  | burn (burned : Coins) (valid : Coins.isValid burned = true)
    (supply : Coins.sub L.supply burned = .ok L'.supply)
    (total : ∀ denom, L'.accounts.total denom = L.accounts.total denom - CoinSet.amt burned denom)

open AccountStore

/-- What every successful operation does, unless it undelegates to the sending module account
itself. -/
theorem apply_effect {B B' : Bookkeeping} {op : SupplyOp} (h : op.apply k B = .ok B')
    (notSelf : ¬ op.UndelegatesToItself k) :
    Effect B.ledger B'.ledger ∧ (B.ledger.accounts.CoinsSorted → B'.ledger.accounts.CoinsSorted) := by
  cases op with
  | msgSend msg =>
    obtain ⟨accounts', hsend, rfl⟩ := Fallible.map_eq_ok.mp h
    replace hsend := Bank.handleTransfer_eq_ok k.bk hsend
    exact ⟨.neutral rfl (Bank.total_sendCoins hsend), Bank.coinsSorted_sendCoins hsend⟩
  | msgEscrow msg =>
    obtain ⟨accounts', hsend, rfl⟩ := Fallible.map_eq_ok.mp h
    replace hsend := Bank.handleTransfer_eq_ok k.bk hsend
    exact ⟨.neutral rfl (Bank.total_sendCoins hsend), Bank.coinsSorted_sendCoins hsend⟩
  | msgMultiSend msg =>
    obtain ⟨accounts', hsend, rfl⟩ := Fallible.map_eq_ok.mp h
    replace hsend := Bank.handleInputsOutputs_eq_ok k.bk hsend
    exact ⟨.neutral rfl (Bank.total_inputOutputCoins hsend),
      Bank.coinsSorted_inputOutputCoins hsend⟩
  | msgBonusSend msg =>
    obtain ⟨accounts', hsend, rfl⟩ := Fallible.map_eq_ok.mp h
    replace hsend := Bank.handleInputsOutputs_eq_ok k.bk hsend
    exact ⟨.neutral rfl (Bank.total_inputOutputCoins hsend),
      Bank.coinsSorted_inputOutputCoins hsend⟩
  | msgReclaimSend msg =>
    obtain ⟨accounts', hsend, rfl⟩ := Fallible.map_eq_ok.mp h
    replace hsend := Bank.handleInputsOutputs_eq_ok k.bk hsend
    exact ⟨.neutral rfl (Bank.total_inputOutputCoins hsend),
      Bank.coinsSorted_inputOutputCoins hsend⟩
  | msgNewToken msg =>
    obtain ⟨⟨L', feePool', tokens'⟩, hnew, h⟩ := Fallible.bind_eq_ok.mp h
    cases Fallible.pure_eq_ok.mp h
    obtain ⟨minted, valid, supply, total, sorted⟩ := Token.handleMsgNewToken_spec k.tk hnew
    exact ⟨.mint minted valid supply total, sorted⟩
  | msgInflateToken msg =>
    obtain ⟨L', hinflate, rfl⟩ := Fallible.map_eq_ok.mp h
    obtain ⟨minted, valid, supply, total, sorted⟩ := Token.handleMsgInflateToken_spec k.tk hinflate
    exact ⟨.mint minted valid supply total, sorted⟩
  | msgBurnToken msg =>
    obtain ⟨L', hburn, rfl⟩ := Fallible.map_eq_ok.mp h
    obtain ⟨supply, valid, total, sorted⟩ := Token.handleMsgBurnToken_spec k.tk hburn
    exact ⟨.burn msg.amount valid supply total, sorted⟩
  | mintCoins moduleName amt =>
    obtain ⟨L', hmint, rfl⟩ := Fallible.map_eq_ok.mp h
    obtain ⟨supply, total, sorted, valid⟩ := k.tk.sk.mintCoins_spec hmint
    exact ⟨.mint amt valid supply total, sorted⟩
  | burnCoins moduleName amt =>
    obtain ⟨L', hburn, rfl⟩ := Fallible.map_eq_ok.mp h
    obtain ⟨supply, total, sorted, valid⟩ := k.tk.sk.burnCoins_spec hburn
    exact ⟨.burn amt valid supply total, sorted⟩
  | sendCoinsFromModuleToAccount senderModule recipientAddr amt =>
    obtain ⟨L', hsend, rfl⟩ := Fallible.map_eq_ok.mp h
    obtain ⟨supply, total, sorted⟩ := k.tk.sk.sendCoinsFromModuleToAccount_spec hsend
    exact ⟨.neutral supply total, sorted⟩
  | sendCoinsFromModuleToModule senderModule recipientModule amt =>
    obtain ⟨L', hsend, rfl⟩ := Fallible.map_eq_ok.mp h
    obtain ⟨supply, total, sorted⟩ := k.tk.sk.sendCoinsFromModuleToModule_spec hsend
    exact ⟨.neutral supply total, sorted⟩
  | sendCoinsFromAccountToModule senderAddr recipientModule amt =>
    obtain ⟨L', hsend, rfl⟩ := Fallible.map_eq_ok.mp h
    obtain ⟨supply, total, sorted⟩ := k.tk.sk.sendCoinsFromAccountToModule_spec hsend
    exact ⟨.neutral supply total, sorted⟩
  | delegateCoins senderAddr recipientModule amt =>
    obtain ⟨L', hdelegate, rfl⟩ := Fallible.map_eq_ok.mp h
    obtain ⟨supply, total, sorted⟩ := k.tk.sk.delegateCoinsFromAccountToModule_spec hdelegate
    exact ⟨.neutral supply total, sorted⟩
  | undelegateCoins senderModule recipientAddr amt =>
    obtain ⟨L', hundelegate, rfl⟩ := Fallible.map_eq_ok.mp h
    obtain ⟨supply, total, sorted⟩ := k.tk.sk.undelegateCoinsFromModuleToAccount_spec hundelegate
    -- the recipient is not the sending module account, so nothing is created
    have distinct : k.tk.sk.moduleAddress senderModule ≠ recipientAddr := notSelf
    exact ⟨.neutral supply fun denom => (total denom).trans (by rw [if_neg distinct, add_zero]),
      sorted⟩
  | addCoinsFromAccountToFeePool senderAddr amount =>
    obtain ⟨⟨L', feePool'⟩, hadd, h⟩ := Fallible.bind_eq_ok.mp h
    cases Fallible.pure_eq_ok.mp h
    obtain ⟨supply, total, sorted⟩ := Distribution.addCoinsFromAccountToFeePool_spec k.tk.sk hadd
    exact ⟨.neutral supply total, sorted⟩
  | distributeFromFeePool amount receiveAddr =>
    obtain ⟨⟨L', feePool'⟩, hdistribute, h⟩ := Fallible.bind_eq_ok.mp h
    cases Fallible.pure_eq_ok.mp h
    obtain ⟨supply, total, sorted⟩ := Distribution.distributeFromFeePool_spec k.tk.sk hdistribute
    exact ⟨.neutral supply total, sorted⟩

end SupplyOp

namespace Ledger

theorem Invariant.of_effect {L L' : Ledger} (inv : L.Invariant) (effect : SupplyOp.Effect L L')
    (sorted : L.accounts.CoinsSorted → L'.accounts.CoinsSorted) : L'.Invariant := by
  cases effect with
  | neutral supply total => exact inv.of_neutral supply total sorted
  | mint minted valid supply total => exact inv.of_mint valid supply total sorted
  | burn burned valid supply total => exact inv.of_burn valid supply total sorted

end Ledger

namespace SupplyOp

variable (k : Keepers)

/-- One step keeps the invariant. -/
theorem invariant_apply {B B' : Bookkeeping} {op : SupplyOp} (inv : B.ledger.Invariant)
    (h : op.apply k B = .ok B') (notSelf : ¬ op.UndelegatesToItself k) : B'.ledger.Invariant :=
  let ⟨effect, sorted⟩ := apply_effect k h notSelf
  inv.of_effect effect sorted

/-- A run keeps the invariant; the induction is on the operations, one step at a time. -/
theorem invariant_run :
    ∀ {ops : List SupplyOp} {B B' : Bookkeeping}, B.ledger.Invariant →
      (∀ op ∈ ops, ¬ op.UndelegatesToItself k) → ops.foldlM (apply k) B = .ok B' →
      B'.ledger.Invariant
  | [], B, B', inv, _, run => by
    cases Fallible.pure_eq_ok.mp run
    exact inv
  | op :: ops, B, B', inv, notSelf, run => by
    rw [List.foldlM_cons] at run
    obtain ⟨B₁, hstep, hrest⟩ := Fallible.bind_eq_ok.mp run
    exact invariant_run (invariant_apply k inv hstep (notSelf op List.mem_cons_self))
      (fun op' mem => notSelf op' (List.mem_cons_of_mem _ mem)) hrest

end SupplyOp

/-! ## The supply is conserved -/

/-- Every successful operation keeps the accounts' total and the supply, or changes both by the
same minted or burned coins; hence, from any state in the invariant, every run of successful
operations ends in a state where `TotalSupply` holds, provided no `UndelegateCoins` in it names
the sending module account as its own delegator. -/
theorem supply_conservation (k : Keepers) :
    (∀ (B B' : Bookkeeping) (op : SupplyOp), op.apply k B = .ok B' →
      ¬ op.UndelegatesToItself k → SupplyOp.Effect B.ledger B'.ledger) ∧
    ∀ (B B' : Bookkeeping) (ops : List SupplyOp), B.ledger.Invariant →
      (∀ op ∈ ops, ¬ op.UndelegatesToItself k) →
      ops.foldlM (SupplyOp.apply k) B = .ok B' → B'.ledger.TotalSupply := by
  refine ⟨fun B B' op h notSelf => (SupplyOp.apply_effect k h notSelf).1, ?_⟩
  intro B B' ops inv notSelf run
  exact Ledger.totalSupply_of_invariant (SupplyOp.invariant_run k inv notSelf run)

/-- The app's keepers on one registered module account, `bonded_tokens_pool`, at address `[1]`. -/
def poolKeepers : Keepers :=
  ⟨⟨fun _ => false, fun _ => ""⟩,
    ⟨⟨fun _ => [1], [("bonded_tokens_pool", [burner, staking])]⟩, fun _ => ""⟩⟩

/-- The pool's module account holding `amount` poc. -/
def poolAccount (amount : Int) : Account :=
  ⟨[⟨"poc", amount⟩], .module "bonded_tokens_pool" [burner, staking]⟩

/-- A chain whose only account is the pool, holding `amount` of a supply of 5 poc. -/
def poolBook (amount : Int) : Bookkeeping :=
  ⟨⟨SortedMap.empty.insert [1] (poolAccount amount), [⟨"poc", 5⟩]⟩, ⟨[]⟩, SortedMap.empty, ⟨0, []⟩,
    true, 0⟩

theorem poolBook_invariant : (poolBook 5).ledger.Invariant where
  coinsSorted addr acc found := by
    simp only [poolBook, AccountStore.getAccount, SortedMap.find?_insert, SortedMap.find?_empty]
      at found
    split at found
    · cases found
      exact List.pairwise_singleton _ _
    · cases found
  supplySorted := List.pairwise_singleton _ _
  conserved denom := by
    simp [poolBook, poolAccount, AccountStore.total, SortedMap.sumBy, SortedMap.sumEntries,
      SortedMap.insert, SortedMap.empty, SortedMap.insertEntry]

/-- The pool pays 1 poc to the account `[2]`. -/
def poolPayout : SupplyOp := .sendCoinsFromModuleToAccount "bonded_tokens_pool" [2] [⟨"poc", 1⟩]

/-- After the payout. -/
def poolPaidBook : Bookkeeping :=
  (poolBook 5).withLedger
    ⟨(SortedMap.empty.insert [1] (poolAccount 4)).insert [2] ⟨[⟨"poc", 1⟩], .base⟩, [⟨"poc", 5⟩]⟩

theorem supply_conservation_module_payout : poolPaidBook.ledger.TotalSupply :=
  (supply_conservation poolKeepers).2 (poolBook 5) poolPaidBook [poolPayout] poolBook_invariant
    (fun op mem => by
      rw [List.mem_singleton.mp mem]
      exact not_false)
    rfl

/-- `UndelegateCoins` from the bonded pool to its own address: from a state in the invariant,
undelegating 1 poc succeeds, and since the pool's account is written back as it was read before
the debit, plus the amount, the accounts hold 6 poc against a supply of 5. -/
theorem undelegate_to_itself_breaks_totalSupply :
    (poolBook 5).ledger.TotalSupply ∧
      SupplyOp.apply poolKeepers (poolBook 5) (.undelegateCoins "bonded_tokens_pool" [1] [⟨"poc", 1⟩]) =
        .ok (poolBook 6) ∧
      ¬ (poolBook 6).ledger.TotalSupply := by
  refine ⟨Ledger.totalSupply_of_invariant poolBook_invariant, rfl, fun holds => ?_⟩
  have atPoc := holds "poc"
  simp [poolBook, poolAccount, Coins.amountOf, CoinSet.amountOf_singleton, SortedMap.sumBy,
    SortedMap.sumEntries, SortedMap.insert, SortedMap.empty, SortedMap.insertEntry] at atPoc

end Pocc
