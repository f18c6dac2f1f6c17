import Pocc.Distribution.FeePool

/-!
# The token module

x/token: the registry of token symbols, each with its issuer and whether it may be sent, and
the handlers that issue a token, inflate it and burn it. The total supply of a token is not
kept here but in the supply module, which the handlers reach through `MintCoins` and
`BurnCoins`.

A symbol is stored under `Symbol.String`, which is the empty string for a symbol that is not a
valid token name. An issuer is recorded as `AccAddress.String`, the bech32 text of the
address: code outside the repository, taken as a parameter of the keeper.
-/

namespace Pocc

/-- `NativeToken`. -/
def nativeToken : String := "poc"

/-- `TokenInfoWithoutSupply`. -/
structure TokenInfo where
  symbol : String
  issuer : String
  isSendEnabled : Bool
  decimals : Nat
  deriving DecidableEq, Repr

/-- The parameters of x/token that its handlers read. -/
structure TokenParams where
  newTokenFee : Int
  reservedSymbols : List String
  deriving DecidableEq, Repr

/-- `Symbol.String`: the symbol if it is a valid token name, else the empty string. -/
def symbolString (symbol : String) : String :=
  if validateDenom symbol then symbol else ""

/-- The token store, keyed by `Symbol.String`. -/
abbrev TokenStore := SortedMap String TokenInfo

namespace TokenStore

/-- `GetTokenInfoWithoutSupply`. -/
def getTokenInfo (tokens : TokenStore) (symbol : String) : Option TokenInfo :=
  tokens.find? (symbolString symbol)

/-- `SetTokenInfoWithoutSupply`. -/
def setTokenInfo (tokens : TokenStore) (ti : TokenInfo) : TokenStore :=
  tokens.insert (symbolString ti.symbol) ti

/-- `GetIssuer`: the empty string for a symbol that is not registered. -/
def getIssuer (tokens : TokenStore) (symbol : String) : String :=
  match tokens.getTokenInfo symbol with
  | none => ""
  | some ti => ti.issuer

/-- `IsSendEnabled`: false for a symbol that is not registered. -/
def isSendEnabled (tokens : TokenStore) (symbol : String) : Bool :=
  match tokens.getTokenInfo symbol with
  | none => false
  | some ti => ti.isSendEnabled

end TokenStore

namespace Token

/-- `ModuleName` of x/token: the name of its module account. -/
def moduleName : String := "token"

/-- `DefaultCodespace` of x/token. -/
def codespace : String := "token"

/-- `ErrSymbolReserved`. -/
def errSymbolReserved (log : String) : SdkError := .error codespace (.module 108) log

/-- `MsgNewToken`. -/
structure MsgNewToken where
  fromAddr : AccAddress
  toAddr : AccAddress
  symbol : String
  decimals : Nat
  totalSupply : Int
  deriving DecidableEq, Repr

/-- `MsgInflateToken`. -/
structure MsgInflateToken where
  fromAddr : AccAddress
  toAddr : AccAddress
  amount : Coins
  deriving DecidableEq, Repr

/-- `MsgBurnToken`. -/
structure MsgBurnToken where
  fromAddr : AccAddress
  amount : Coins
  deriving DecidableEq, Repr

/-- `MsgNewToken.ValidateBasic`. -/
def MsgNewToken.validateBasic (msg : MsgNewToken) : Option SdkError :=
  if msg.fromAddr = [] then some (.invalidAddress "from address can not be empty:")
  else if msg.toAddr = [] then some (.invalidAddress "to address can not be empty")
  else if !validateDenom msg.symbol then
    some (.invalidSymbol s!"symbol {symbolString msg.symbol} is invalid")
  else if msg.decimals > Precision then
    some (.tooMuchPrecision s!"maximum:{Precision}, provided:{msg.decimals}")
  else if msg.totalSupply ≤ 0 then
    some (.invalidAmount s!"totalSupply {msg.totalSupply} is not positive")
  else none

/-- `MsgInflateToken.ValidateBasic`. -/
def MsgInflateToken.validateBasic (msg : MsgInflateToken) : Option SdkError :=
  if msg.fromAddr = [] then some (.invalidAddress "from address can not be empty:")
  else if msg.toAddr = [] then some (.invalidAddress "to address can not be empty")
  else if msg.amount.length ≠ 1 then some (.invalidTx "inflate only ONE coin once")
  else if !Coins.isValid msg.amount then
    some (.invalidAmount s!"inflate {Coins.string msg.amount} is not positive")
  else none

/-- What a `MsgInflateToken` that passed `ValidateBasic` carries. -/
theorem MsgInflateToken.validateBasic_eq_none {msg : MsgInflateToken}
    (h : msg.validateBasic = none) :
    msg.fromAddr ≠ [] ∧ msg.toAddr ≠ [] ∧ msg.amount.length = 1 ∧ Coins.isValid msg.amount = true := by
  unfold validateBasic at h
  split_ifs at h with fromEmpty toEmpty length valid
  exact ⟨fromEmpty, toEmpty, not_not.mp length, by simpa using valid⟩

/-- The token keeper's fixed data: the supply keeper it mints through, and `AccAddress.String`. -/
structure TokenKeeper where
  sk : SupplyKeeper
  addrString : AccAddress → String

variable (tk : TokenKeeper)

/-- `handleMsgNewToken`: register an unregistered, unreserved symbol with the sender as its
issuer, charge the issue fee to the community pool, mint the supply and send it to `toAddr`. -/
def handleMsgNewToken (L : Ledger) (feePool : FeePool) (tokens : TokenStore) (params : TokenParams)
    (blockTime : Int) (msg : MsgNewToken) : Except SdkError (Ledger × FeePool × TokenStore) :=
  match tokens.getTokenInfo msg.symbol with
  | some _ => throw (.alreadyExitSymbol s!"token {symbolString msg.symbol} already exist")
  | none =>
    if params.reservedSymbols.contains (symbolString msg.symbol) then
      throw (errSymbolReserved s!"{symbolString msg.symbol} is reserved")
    else do
      let issueFee ← Coins.newCoins [← Coins.newCoin nativeToken params.newTokenFee]
      -- transfer the issue fee to the community pool
      let (L, feePool) ←
        Distribution.addCoinsFromAccountToFeePool tk.sk L feePool blockTime msg.fromAddr issueFee
      let tokens := tokens.setTokenInfo
        ⟨msg.symbol, tk.addrString msg.fromAddr, true, msg.decimals⟩
      let mintedCoins ← Coins.newCoins [← Coins.newCoin (symbolString msg.symbol) msg.totalSupply]
      let L ← tk.sk.mintCoins L moduleName mintedCoins
      let L ← tk.sk.sendCoinsFromModuleToAccount L blockTime moduleName msg.toAddr mintedCoins
      pure (L, feePool, tokens)

/-- `handleMsgInflateToken`: only the issuer of a send-enabled token may mint more of it. -/
def handleMsgInflateToken (L : Ledger) (tokens : TokenStore) (blockTime : Int)
    (msg : MsgInflateToken) : Except SdkError Ledger :=
  match msg.amount with
  | [] => throw (.panic "index out of range")
  | coin :: _ =>
    let symbol := coin.denom
    if !tokens.isSendEnabled symbol then
      throw (.transactionIsNotEnabled s!"{symbolString symbol} is not sendenable")
    else if tk.addrString msg.fromAddr ≠ tokens.getIssuer symbol then
      throw (.invalidAccount
        s!"{tk.addrString msg.fromAddr} is not allowed to inflate {symbolString symbol}")
    else do
      let inflatedCoins ← Coins.newCoins [coin]
      let L ← tk.sk.mintCoins L moduleName inflatedCoins
      tk.sk.sendCoinsFromModuleToAccount L blockTime moduleName msg.toAddr inflatedCoins

/-- `handleMsgBurnToken`: every coin must be send-enabled; the sender pays the coins to the
token module account, which burns them. -/
def handleMsgBurnToken (L : Ledger) (tokens : TokenStore) (blockTime : Int) (msg : MsgBurnToken) :
    Except SdkError Ledger :=
  match msg.amount.find? fun coin => !tokens.isSendEnabled coin.denom with
  | some coin => throw (.transactionIsNotEnabled s!"{coin.denom} is not sendenable")
  | none => do
    let L ← tk.sk.sendCoinsFromAccountToModule L blockTime msg.fromAddr moduleName msg.amount
    tk.sk.burnCoins L blockTime moduleName msg.amount

/-! ## What the handlers do to the accounts and the supply -/

open AccountStore

/-- Minting and then sending the minted coins away grows the supply and the accounts' total by
the same coins. -/
theorem mintThenSend_spec {L L₁ L' : Ledger} {blockTime : Int} {toAddr : AccAddress}
    {minted : Coins} (hmint : tk.sk.mintCoins L moduleName minted = .ok L₁)
    (hsend : tk.sk.sendCoinsFromModuleToAccount L₁ blockTime moduleName toAddr minted = .ok L') :
    Coins.isValid minted = true ∧ L'.supply = Coins.add L.supply minted ∧
      (∀ denom, L'.accounts.total denom = L.accounts.total denom + CoinSet.amt minted denom) ∧
      (L.accounts.CoinsSorted → L'.accounts.CoinsSorted) := by
  obtain ⟨supply₁, total₁, sorted₁, valid⟩ := tk.sk.mintCoins_spec hmint
  obtain ⟨supply₂, total₂, sorted₂⟩ := tk.sk.sendCoinsFromModuleToAccount_spec hsend
  exact ⟨valid, supply₂.trans supply₁, fun denom => (total₂ denom).trans (total₁ denom),
    fun sorted => sorted₂ (sorted₁ sorted)⟩

/-- The coins minted for `amount` of `denom`: `NewCoins(NewCoin(denom, amount))` holds that
amount of that denomination and nothing else. -/
theorem amt_newCoins_newCoin {denom : String} {amount : Int} {coin : Coin} {minted : Coins}
    (hcoin : Coins.newCoin denom amount = .ok coin) (hcoins : Coins.newCoins [coin] = .ok minted)
    (denom' : String) : CoinSet.amt minted denom' = if denom = denom' then amount else 0 := by
  obtain ⟨-, -, rfl⟩ := Coins.newCoin_eq_ok hcoin
  rw [Coins.amt_newCoins hcoins, CoinSet.amt_cons, CoinSet.amt_nil, add_zero]

/-- A successful `handleMsgNewToken` found the symbol unregistered and unreserved, registered it
with the sender as its issuer, and minted `totalSupply` of it and of no other denomination. -/
theorem handleMsgNewToken_eq_ok {L L' : Ledger} {feePool feePool' : FeePool}
    {tokens tokens' : TokenStore} {params : TokenParams} {blockTime : Int} {msg : MsgNewToken}
    (h : handleMsgNewToken tk L feePool tokens params blockTime msg = .ok (L', feePool', tokens')) :
    tokens.getTokenInfo msg.symbol = none ∧
      params.reservedSymbols.contains (symbolString msg.symbol) = false ∧
      validateDenom (symbolString msg.symbol) = true ∧
      tokens' = tokens.setTokenInfo ⟨msg.symbol, tk.addrString msg.fromAddr, true, msg.decimals⟩ ∧
      ∃ minted, Coins.isValid minted = true ∧ L'.supply = Coins.add L.supply minted ∧
        (∀ denom, CoinSet.amt minted denom =
          if symbolString msg.symbol = denom then msg.totalSupply else 0) ∧
        (∀ denom, L'.accounts.total denom = L.accounts.total denom + CoinSet.amt minted denom) ∧
        (L.accounts.CoinsSorted → L'.accounts.CoinsSorted) := by
  unfold handleMsgNewToken at h
  split at h
  · exact absurd h Fallible.throw_ne_ok
  · next unregistered =>
    split at h
    · exact absurd h Fallible.throw_ne_ok
    · next unreserved =>
      obtain ⟨feeCoin, -, h⟩ := Fallible.bind_eq_ok.mp h
      obtain ⟨issueFee, -, h⟩ := Fallible.bind_eq_ok.mp h
      obtain ⟨⟨L₁, feePool₁⟩, hfee, h⟩ := Fallible.bind_eq_ok.mp h
      obtain ⟨supply₁, total₁, sorted₁⟩ :=
        Distribution.addCoinsFromAccountToFeePool_spec tk.sk hfee
      obtain ⟨mintedCoin, hcoin, h⟩ := Fallible.bind_eq_ok.mp h
      obtain ⟨minted, hcoins, h⟩ := Fallible.bind_eq_ok.mp h
      obtain ⟨L₂, hmint, h⟩ := Fallible.bind_eq_ok.mp h
      obtain ⟨L₃, hsend, h⟩ := Fallible.bind_eq_ok.mp h
      cases Fallible.pure_eq_ok.mp h
      obtain ⟨valid, supply₃, total₃, sorted₃⟩ := mintThenSend_spec tk hmint hsend
      refine ⟨unregistered, by simpa using unreserved, (Coins.newCoin_eq_ok hcoin).1, rfl,
        minted, valid, by rw [supply₃, supply₁], amt_newCoins_newCoin hcoin hcoins,
        fun denom => by rw [total₃, total₁], fun sorted => sorted₃ (sorted₁ sorted)⟩

theorem handleMsgNewToken_spec {L L' : Ledger} {feePool feePool' : FeePool}
    {tokens tokens' : TokenStore} {params : TokenParams} {blockTime : Int} {msg : MsgNewToken}
    (h : handleMsgNewToken tk L feePool tokens params blockTime msg = .ok (L', feePool', tokens')) :
    ∃ minted, Coins.isValid minted = true ∧ L'.supply = Coins.add L.supply minted ∧
      (∀ denom, L'.accounts.total denom = L.accounts.total denom + CoinSet.amt minted denom) ∧
      (L.accounts.CoinsSorted → L'.accounts.CoinsSorted) := by
  obtain ⟨-, -, -, -, minted, valid, supply, -, total, sorted⟩ := handleMsgNewToken_eq_ok tk h
  exact ⟨minted, valid, supply, total, sorted⟩

/-- A successful `handleMsgInflateToken` minted the first coin of the message, of a
send-enabled token whose recorded issuer is the sender, and nothing else. -/
theorem handleMsgInflateToken_eq_ok {L L' : Ledger} {tokens : TokenStore} {blockTime : Int}
    {msg : MsgInflateToken} (h : handleMsgInflateToken tk L tokens blockTime msg = .ok L') :
    ∃ coin rest, msg.amount = coin :: rest ∧ tokens.isSendEnabled coin.denom = true ∧
      tk.addrString msg.fromAddr = tokens.getIssuer coin.denom ∧
      ∃ minted, Coins.isValid minted = true ∧ L'.supply = Coins.add L.supply minted ∧
        (∀ denom, CoinSet.amt minted denom = if coin.denom = denom then coin.amount else 0) ∧
        (∀ denom, L'.accounts.total denom = L.accounts.total denom + CoinSet.amt minted denom) ∧
        (L.accounts.CoinsSorted → L'.accounts.CoinsSorted) := by
  unfold handleMsgInflateToken at h
  split at h
  · exact absurd h Fallible.throw_ne_ok
  · next coin rest amount =>
    dsimp only at h
    split at h
    · exact absurd h Fallible.throw_ne_ok
    · next enabled =>
      split at h
      · exact absurd h Fallible.throw_ne_ok
      · next issuer =>
        obtain ⟨minted, hcoins, h⟩ := Fallible.bind_eq_ok.mp h
        obtain ⟨L₁, hmint, hsend⟩ := Fallible.bind_eq_ok.mp h
        -- the one coin is minted as given: the amount of each denomination is kept
        have amount' : ∀ denom, CoinSet.amt minted denom =
            if coin.denom = denom then coin.amount else 0 := fun denom => by
          rw [Coins.amt_newCoins hcoins, CoinSet.amt_cons, CoinSet.amt_nil, add_zero]
        obtain ⟨valid, supply, total, sorted⟩ := mintThenSend_spec tk hmint hsend
        exact ⟨coin, rest, amount, by simpa using enabled, by simpa using issuer, minted, valid,
          supply, amount', total, sorted⟩

theorem handleMsgInflateToken_spec {L L' : Ledger} {tokens : TokenStore} {blockTime : Int}
    {msg : MsgInflateToken} (h : handleMsgInflateToken tk L tokens blockTime msg = .ok L') :
    ∃ minted, Coins.isValid minted = true ∧ L'.supply = Coins.add L.supply minted ∧
      (∀ denom, L'.accounts.total denom = L.accounts.total denom + CoinSet.amt minted denom) ∧
      (L.accounts.CoinsSorted → L'.accounts.CoinsSorted) := by
  obtain ⟨-, -, -, -, -, minted, valid, supply, -, total, sorted⟩ :=
    handleMsgInflateToken_eq_ok tk h
  exact ⟨minted, valid, supply, total, sorted⟩

theorem handleMsgBurnToken_spec {L L' : Ledger} {tokens : TokenStore} {blockTime : Int}
    {msg : MsgBurnToken} (h : handleMsgBurnToken tk L tokens blockTime msg = .ok L') :
    Coins.sub L.supply msg.amount = .ok L'.supply ∧ Coins.isValid msg.amount = true ∧
      (∀ denom, L'.accounts.total denom = L.accounts.total denom - CoinSet.amt msg.amount denom) ∧
      (L.accounts.CoinsSorted → L'.accounts.CoinsSorted) := by
  unfold handleMsgBurnToken at h
  split at h
  · exact absurd h Fallible.throw_ne_ok
  · obtain ⟨L₁, hsend, hburn⟩ := Fallible.bind_eq_ok.mp h
    obtain ⟨supply₁, total₁, sorted₁⟩ := tk.sk.sendCoinsFromAccountToModule_spec hsend
    obtain ⟨supply₂, total₂, sorted₂, valid⟩ := tk.sk.burnCoins_spec hburn
    exact ⟨supply₁ ▸ supply₂, valid, fun denom => by rw [total₂, total₁],
      fun sorted => sorted₂ (sorted₁ sorted)⟩

end Token

end Pocc
