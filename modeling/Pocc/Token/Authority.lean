import Pocc.Supply.Conservation

/-!
# Who may create a token's supply

A token's supply is created by the token module's handlers only, through the supply keeper's
`MintCoins`: `MsgNewToken` registers an unregistered, unreserved symbol with its sender as
issuer and mints the initial supply; `MsgInflateToken` mints more of a send-enabled token, and
only for its recorded issuer. The issuer is recorded and compared as `AccAddress.String`, the
bech32 text of an address, which is empty for the empty address alone (types/address.go); the
native token is registered at genesis with the empty issuer, so no sender, whose address
`ValidateBasic` requires to be non-empty, is its issuer.

`MintCoins` has two callers in the repository: the token handlers and the mint module's
`BeginBlocker`, which mints the staking denomination each block. Besides `MsgNewToken`, the
token registry is written by token `InitGenesis` and by the two token proposals, which a
passed governance proposal runs; these only set whether a token may be sent, and refuse the
native token. The test-only `SetTokenInfo` and `DeleteTokenInfo` have no caller outside the
tests.

Results:
* `TokenStore.WellFormed`: every token is stored under its own symbol and the native token is
  registered with the empty issuer; a validated genesis has it and every step of the chain
  keeps it (`TokenInvariant.step`);
* `token_issuance_authority`: in a reachable state, an event grows the supply of a symbol only
  as a delivered message issuing it or its issuer inflating it, after which the symbol is
  registered and is not the native token, or as the `BeginBlocker` minting the mint
  denomination.
-/

namespace Pocc

/-! ## The token registry -/

/-- `TokenInfoWithoutSupply.IsValid`: a valid token name and at most `Precision` decimals. -/
def TokenInfo.isValid (ti : TokenInfo) : Bool :=
  validateDenom ti.symbol && decide (ti.decimals ≤ Precision)

theorem symbolString_eq_of_validateDenom {symbol : String} (h : validateDenom symbol = true) :
    symbolString symbol = symbol := by
  simp [symbolString, h]

/-- Only the native symbol itself is stored under the native token's key. -/
theorem eq_nativeToken_of_symbolString {symbol : String} (h : symbolString symbol = nativeToken) :
    symbol = nativeToken := by
  unfold symbolString at h
  split at h
  · exact h
  · exact absurd h (by decide)

namespace TokenStore

theorem getTokenInfo_setTokenInfo (tokens : TokenStore) (ti : TokenInfo) (symbol : String) :
    (tokens.setTokenInfo ti).getTokenInfo symbol =
      if symbolString ti.symbol = symbolString symbol then some ti else tokens.getTokenInfo symbol := by
  simp [getTokenInfo, setTokenInfo]

/-- What every reachable registry satisfies: each token is stored under its own symbol, and the
native token is registered with the empty issuer. -/
structure WellFormed (tokens : TokenStore) : Prop where
  keys : ∀ key ti, tokens.find? key = some ti → symbolString ti.symbol = key
  native : ∃ ti, tokens.find? nativeToken = some ti ∧ ti.issuer = ""

/-- `SetTokenInfoWithoutSupply` stores a token under its own symbol. -/
theorem keys_setTokenInfo {tokens : TokenStore}
    (keys : ∀ key ti, tokens.find? key = some ti → symbolString ti.symbol = key) (ti : TokenInfo) :
    ∀ key ti', (tokens.setTokenInfo ti).find? key = some ti' → symbolString ti'.symbol = key := by
  intro key ti' found
  simp only [setTokenInfo, SortedMap.find?_insert] at found
  split at found
  · next hkey =>
    cases found
    exact hkey
  · exact keys key ti' found

theorem WellFormed.setTokenInfo {tokens : TokenStore} (wf : tokens.WellFormed) {ti : TokenInfo}
    (other : symbolString ti.symbol ≠ nativeToken) : (tokens.setTokenInfo ti).WellFormed where
  keys := keys_setTokenInfo wf.keys ti
  native := by
    obtain ⟨native, found, issuer⟩ := wf.native
    exact ⟨native, by simp [TokenStore.setTokenInfo, other, found], issuer⟩

/-- In a well-formed registry the native token's issuer is the empty string. -/
theorem WellFormed.getIssuer_native {tokens : TokenStore} (wf : tokens.WellFormed) :
    tokens.getIssuer nativeToken = "" := by
  obtain ⟨native, found, issuer⟩ := wf.native
  have key : symbolString nativeToken = nativeToken := by decide
  simp [getIssuer, getTokenInfo, key, found, issuer]

theorem WellFormed.getTokenInfo_native {tokens : TokenStore} (wf : tokens.WellFormed) :
    (tokens.getTokenInfo nativeToken).isSome := by
  obtain ⟨native, found, -⟩ := wf.native
  have key : symbolString nativeToken = nativeToken := by decide
  simp [getTokenInfo, key, found]

theorem getTokenInfo_of_isSendEnabled {tokens : TokenStore} {symbol : String}
    (h : tokens.isSendEnabled symbol = true) : (tokens.getTokenInfo symbol).isSome := by
  unfold isSendEnabled at h
  split at h
  · cases h
  · next found => simp [found]

end TokenStore

namespace Token

/-! ## Genesis -/

/-- `GenesisState` of x/token. -/
structure GenesisState where
  genesisTokenInfos : List TokenInfo
  params : TokenParams

/-- The loop of `ValidateGenesis`, with the symbols seen so far: every token valid, no symbol
twice. The messages keep their fixed text. -/
def validateGenesisLoop : List String → List TokenInfo → Except String Unit
  | _, [] => pure ()
  | seen, ti :: rest =>
    if !ti.isValid then throw "is not valid"
    else if seen.contains (symbolString ti.symbol) then
      throw "invalid TokenInfoMap: duplicated token"
    else validateGenesisLoop (symbolString ti.symbol :: seen) rest

/-- `ValidateGenesis`. -/
def validateGenesis (data : GenesisState) : Except String Unit :=
  validateGenesisLoop [] data.genesisTokenInfos

/-- `InitGenesis`, on the module's empty store: every genesis token stored in turn. -/
def initGenesis (data : GenesisState) : TokenStore :=
  data.genesisTokenInfos.foldl TokenStore.setTokenInfo SortedMap.empty

theorem validateGenesisLoop_ok :
    ∀ {seen : List String} {infos : List TokenInfo}, validateGenesisLoop seen infos = .ok () →
      (infos.map fun ti => symbolString ti.symbol).Nodup ∧
        ∀ ti ∈ infos, symbolString ti.symbol ∉ seen
  | _, [], _ => ⟨List.nodup_nil, fun _ h => absurd h List.not_mem_nil⟩
  | seen, ti :: rest, h => by
    unfold validateGenesisLoop at h
    split at h
    · exact absurd h Fallible.throw_ne_ok
    · split at h
      · exact absurd h Fallible.throw_ne_ok
      · next unseen =>
        obtain ⟨nodup, fresh⟩ := validateGenesisLoop_ok h
        have unseen' : symbolString ti.symbol ∉ seen := by simpa using unseen
        refine ⟨List.nodup_cons.mpr ⟨fun mem => ?_, nodup⟩, fun ti' mem => ?_⟩
        · -- a later token with the same symbol would have met it among the seen ones
          obtain ⟨ti', mem', same⟩ := List.mem_map.mp mem
          exact fresh ti' mem' (same ▸ List.mem_cons_self)
        · rcases List.mem_cons.mp mem with rfl | mem
          · exact unseen'
          · exact fun seen' => fresh ti' mem (List.mem_cons_of_mem _ seen')

theorem find?_foldl_setTokenInfo_of_not_mem {key : String} :
    ∀ {infos : List TokenInfo} (m : TokenStore),
      key ∉ infos.map (fun ti => symbolString ti.symbol) →
        (infos.foldl TokenStore.setTokenInfo m).find? key = m.find? key
  | [], _, _ => rfl
  | ti :: rest, m, absent => by
    have other : symbolString ti.symbol ≠ key := fun h => absent (h ▸ List.mem_cons_self)
    rw [List.foldl_cons, find?_foldl_setTokenInfo_of_not_mem _
      fun mem => absent (List.mem_cons_of_mem _ mem)]
    simp [TokenStore.setTokenInfo, other]

theorem find?_foldl_setTokenInfo_of_mem :
    ∀ {infos : List TokenInfo} (m : TokenStore), (infos.map fun ti => symbolString ti.symbol).Nodup →
      ∀ ti ∈ infos, (infos.foldl TokenStore.setTokenInfo m).find? (symbolString ti.symbol) = some ti
  | [], _, _, _, mem => absurd mem List.not_mem_nil
  | first :: rest, m, nodup, ti, mem => by
    rw [List.map_cons, List.nodup_cons] at nodup
    rw [List.foldl_cons]
    rcases List.mem_cons.mp mem with rfl | mem
    · -- the later tokens have other symbols, so the first one's entry stays
      rw [find?_foldl_setTokenInfo_of_not_mem _ nodup.1]
      simp [TokenStore.setTokenInfo]
    · exact find?_foldl_setTokenInfo_of_mem _ nodup.2 ti mem

theorem keys_foldl_setTokenInfo :
    ∀ (infos : List TokenInfo) {m : TokenStore},
      (∀ key ti, m.find? key = some ti → symbolString ti.symbol = key) →
        ∀ key ti, (infos.foldl TokenStore.setTokenInfo m).find? key = some ti →
          symbolString ti.symbol = key
  | [], _, keys => keys
  | ti :: rest, _, keys => keys_foldl_setTokenInfo rest (TokenStore.keys_setTokenInfo keys ti)

/-- A validated genesis that registers the native token with the empty issuer is
well-formed. -/
theorem wellFormed_initGenesis {data : GenesisState} (valid : validateGenesis data = .ok ())
    (native : ∃ ti ∈ data.genesisTokenInfos, ti.symbol = nativeToken ∧ ti.issuer = "") :
    (initGenesis data).WellFormed where
  keys := keys_foldl_setTokenInfo _ fun key ti found => by simp at found
  native := by
    obtain ⟨ti, mem, symbol, issuer⟩ := native
    have key : symbolString ti.symbol = nativeToken := by
      rw [symbol]
      decide
    refine ⟨ti, ?_, issuer⟩
    rw [← key]
    exact find?_foldl_setTokenInfo_of_mem _ (validateGenesisLoop_ok valid).1 ti mem

/-! ## Token proposals -/

/-- A `ParamChange` of a token proposal. -/
structure ParamChange where
  key : String
  value : String
  deriving DecidableEq, Repr

/-- The content of a passed token proposal. -/
inductive TokenProposal where
  /-- `TokenParamsChangeProposal`. -/
  | paramsChange (symbol : String) (changes : List ParamChange)
  /-- `DisableTokenProposal`. -/
  | disableToken (symbol : String)
  deriving DecidableEq, Repr

/-- `sdk.KeyIsSendEnabled`. -/
def keyIsSendEnabled : String := "is_send_enabled"

/-- `ErrInvalidParameter`. -/
def errInvalidParameter (key value : String) : SdkError :=
  .error codespace (.module 103) s!"key:{key}, value:{value}"

section Proposals

/- The codec's `UnmarshalJSON` into a `bool`: code outside the repository. -/
variable (unmarshalBool : String → Except String Bool)

/-- `processChangeParam`: `is_send_enabled` is the only parameter of a token that may change. -/
def processChangeParam (key value : String) (ti : TokenInfo) : Except String TokenInfo :=
  if key = keyIsSendEnabled then
    (fun val => { ti with isSendEnabled := val }) <$> unmarshalBool value
  else throw s!"Unkonwn parameter:{key}"

/-- `handleTokenParamsChangeProposal`: the changes apply in turn, and the first that fails fails
the proposal. -/
def handleTokenParamsChangeProposal (tokens : TokenStore) (symbol : String)
    (changes : List ParamChange) : Except SdkError TokenStore :=
  if symbol = nativeToken then throw (.invalidTx "Not allowed to change native token\x27s params")
  else
    match tokens.getTokenInfo symbol with
    | none => throw (.unsupportToken s!"token {symbol} dose not exist")
    | some ti => do
      let ti ← changes.foldlM (fun ti pc =>
        (processChangeParam unmarshalBool pc.key pc.value ti).mapError fun _ =>
          errInvalidParameter pc.key pc.value) ti
      pure (tokens.setTokenInfo ti)

/-- `handleDisableTokenProposal`. -/
def handleDisableTokenProposal (tokens : TokenStore) (symbol : String) :
    Except SdkError TokenStore :=
  if symbol = nativeToken then throw (.invalidTx "Not allowed to disable native token")
  else
    match tokens.getTokenInfo symbol with
    | none => throw (.unsupportToken s!"token {symbol} does not exist")
    | some ti => pure (tokens.setTokenInfo { ti with isSendEnabled := false })

/-- `NewTokenProposalHandler`. The governance module runs it on a cached context and writes the
cache only when it succeeds, so a failed proposal leaves the registry as it was. -/
def handleTokenProposal (tokens : TokenStore) : TokenProposal → Except SdkError TokenStore
  | .paramsChange symbol changes => handleTokenParamsChangeProposal unmarshalBool tokens symbol changes
  | .disableToken symbol => handleDisableTokenProposal tokens symbol

theorem processChangeParam_symbol {key value : String} {ti ti' : TokenInfo}
    (h : processChangeParam unmarshalBool key value ti = .ok ti') : ti'.symbol = ti.symbol := by
  unfold processChangeParam at h
  split at h
  · obtain ⟨val, -, rfl⟩ := Fallible.map_eq_ok.mp h
    rfl
  · exact absurd h Fallible.throw_ne_ok

/-- A passed token proposal rewrites one registered token, other than the native one, and keeps
its symbol. -/
theorem handleTokenProposal_eq_ok {tokens tokens' : TokenStore} {proposal : TokenProposal}
    (h : handleTokenProposal unmarshalBool tokens proposal = .ok tokens') :
    ∃ symbol ti ti', symbol ≠ nativeToken ∧ tokens.getTokenInfo symbol = some ti ∧
      ti'.symbol = ti.symbol ∧ tokens' = tokens.setTokenInfo ti' := by
  cases proposal with
  | paramsChange symbol changes =>
    dsimp only [handleTokenProposal] at h
    unfold handleTokenParamsChangeProposal at h
    split at h
    · exact absurd h Fallible.throw_ne_ok
    · next other =>
      split at h
      · exact absurd h Fallible.throw_ne_ok
      · next ti found =>
        obtain ⟨ti', hfold, h⟩ := Fallible.bind_eq_ok.mp h
        -- each change keeps the symbol, so the fold does
        have same : ti'.symbol = ti.symbol :=
          Fallible.foldlM_ok_induction _ (fun ti'' => ti''.symbol = ti.symbol)
            (fun _ _ _ same step =>
              (processChangeParam_symbol unmarshalBool (Fallible.mapError_eq_ok.mp step)).trans same)
            changes ti ti' rfl hfold
        exact ⟨symbol, ti, ti', other, found, same, (Fallible.pure_eq_ok.mp h).symm⟩
  | disableToken symbol =>
    dsimp only [handleTokenProposal] at h
    unfold handleDisableTokenProposal at h
    split at h
    · exact absurd h Fallible.throw_ne_ok
    · next other =>
      split at h
      · exact absurd h Fallible.throw_ne_ok
      · next ti found =>
        exact ⟨symbol, ti, { ti with isSendEnabled := false }, other, found, rfl,
          (Fallible.pure_eq_ok.mp h).symm⟩

end Proposals

end Token

namespace TokenStore

/-- An unregistered symbol is not stored under the native token's key. -/
theorem WellFormed.symbolString_ne_nativeToken {tokens : TokenStore} (wf : tokens.WellFormed)
    {symbol : String} (unregistered : tokens.getTokenInfo symbol = none) :
    symbolString symbol ≠ nativeToken := by
  intro native
  obtain ⟨ti, found, -⟩ := wf.native
  rw [getTokenInfo, native, found] at unregistered
  exact Option.some_ne_none ti unregistered

theorem WellFormed.handleTokenProposal {tokens tokens' : TokenStore} (wf : tokens.WellFormed)
    {unmarshalBool : String → Except String Bool} {proposal : Token.TokenProposal}
    (h : Token.handleTokenProposal unmarshalBool tokens proposal = .ok tokens') : tokens'.WellFormed := by
  obtain ⟨symbol, ti, ti', other, found, same, rfl⟩ := Token.handleTokenProposal_eq_ok unmarshalBool h
  refine wf.setTokenInfo ?_
  -- the token is stored under its own symbol, which is not the native one
  rw [same, wf.keys _ ti found]
  exact fun native => other (eq_nativeToken_of_symbolString native)

end TokenStore

/-! ## The mint module -/

namespace Mint

/-- `ModuleName` of x/mint. -/
def moduleName : String := "mint"

/-- `auth.FeeCollectorName`: where the mint module sends what it mints. -/
def feeCollectorName : String := "fee_collector"

/-- `Keeper.MintCoins` of x/mint: nothing to mint is no call. -/
def mintCoins (sk : SupplyKeeper) (L : Ledger) (newCoins : Coins) : Except SdkError Ledger :=
  if newCoins.isEmpty then pure L else sk.mintCoins L moduleName newCoins

/-- What `BeginBlocker` does to the coins: it mints the block's provision of the mint
denomination and sends it to the fee collector; an error panics, which halts the chain. The
provision is computed by the minter in `Dec` from its annual provisions; here it is an input. -/
def beginBlocker (sk : SupplyKeeper) (L : Ledger) (blockTime : Int) (mintDenom : String)
    (provision : Int) : Except SdkError Ledger := do
  let mintedCoins ← Coins.newCoins [← Coins.newCoin mintDenom provision]
  let L ← mintCoins sk L mintedCoins
  sk.sendCoinsFromModuleToModule L blockTime moduleName feeCollectorName mintedCoins

/-- The mint module's block keeps the supply sorted and the supply of every other denomination
as it was. -/
theorem beginBlocker_supply {sk : SupplyKeeper} {L L' : Ledger} {blockTime : Int}
    {mintDenom : String} {provision : Int}
    (h : beginBlocker sk L blockTime mintDenom provision = .ok L') (sorted : CoinSet.Sorted L.supply) :
    CoinSet.Sorted L'.supply ∧
      ∀ denom, denom ≠ mintDenom → CoinSet.amt L'.supply denom = CoinSet.amt L.supply denom := by
  unfold beginBlocker at h
  obtain ⟨coin, hcoin, h⟩ := Fallible.bind_eq_ok.mp h
  obtain ⟨minted, hcoins, h⟩ := Fallible.bind_eq_ok.mp h
  obtain ⟨L₁, hmint, hsend⟩ := Fallible.bind_eq_ok.mp h
  rw [(sk.sendCoinsFromModuleToModule_spec hsend).1]
  unfold mintCoins at hmint
  split at hmint
  · cases Fallible.pure_eq_ok.mp hmint
    exact ⟨sorted, fun _ _ => rfl⟩
  · obtain ⟨supply, -, -, valid⟩ := sk.mintCoins_spec hmint
    refine ⟨supply ▸ Coins.sorted_add sorted (CoinSet.sorted_of_isValid valid), fun denom other => ?_⟩
    rw [supply, Coins.amt_add, Token.amt_newCoins_newCoin hcoin hcoins, if_neg (Ne.symm other),
      add_zero]

end Mint

/-! ## What the operations do to the registry and the supply -/

namespace SupplyOp

/-- The operations that call `MintCoins`. -/
def mints : SupplyOp → Bool
  | msgNewToken _ | msgInflateToken _ | mintCoins _ _ => true
  | _ => false

/-- The operations a delivered transaction may run: a token message that passed `ValidateBasic`,
a bank message, or a keeper function that another module's handler calls. No handler but the
token module's calls `MintCoins`. -/
def delivered : SupplyOp → Bool
  | msgNewToken msg => msg.validateBasic.isNone
  | msgInflateToken msg => msg.validateBasic.isNone
  | mintCoins _ _ => false
  | _ => true

variable (k : Keepers)

/-- Only `MsgNewToken` writes the token registry. -/
theorem tokens_apply {B B' : Bookkeeping} {op : SupplyOp} (h : op.apply k B = .ok B')
    (notNew : ∀ msg, op ≠ .msgNewToken msg) : B'.tokens = B.tokens := by
  cases op with
  | msgNewToken msg => exact absurd rfl (notNew msg)
  | addCoinsFromAccountToFeePool _ _ | distributeFromFeePool _ _ =>
    obtain ⟨_, _, h⟩ := Fallible.bind_eq_ok.mp h
    cases Fallible.pure_eq_ok.mp h
    rfl
  | _ =>
    obtain ⟨_, _, rfl⟩ := Fallible.map_eq_ok.mp h
    rfl

/-- An operation that does not mint keeps the supply or burns from it. -/
theorem supply_apply_of_not_mints {B B' : Bookkeeping} {op : SupplyOp} (h : op.apply k B = .ok B')
    (notMints : op.mints = false) :
    B'.ledger.supply = B.ledger.supply ∨
      ∃ burned, Coins.isValid burned = true ∧ Coins.sub B.ledger.supply burned = .ok B'.ledger.supply := by
  cases op with
  | msgNewToken _ | msgInflateToken _ | mintCoins _ _ => cases notMints
  | msgSend _ | msgMultiSend _ | msgEscrow _ | msgBonusSend _ | msgReclaimSend _ =>
    obtain ⟨_, _, rfl⟩ := Fallible.map_eq_ok.mp h
    exact .inl rfl
  | msgBurnToken msg =>
    obtain ⟨L', hburn, rfl⟩ := Fallible.map_eq_ok.mp h
    obtain ⟨supply, valid, -⟩ := Token.handleMsgBurnToken_spec k.tk hburn
    exact .inr ⟨msg.amount, valid, supply⟩
  | burnCoins _ amt =>
    obtain ⟨L', hburn, rfl⟩ := Fallible.map_eq_ok.mp h
    obtain ⟨supply, -, -, valid⟩ := k.tk.sk.burnCoins_spec hburn
    exact .inr ⟨amt, valid, supply⟩
  | sendCoinsFromModuleToAccount _ _ _ =>
    obtain ⟨L', hsend, rfl⟩ := Fallible.map_eq_ok.mp h
    exact .inl (k.tk.sk.sendCoinsFromModuleToAccount_spec hsend).1
  | sendCoinsFromModuleToModule _ _ _ =>
    obtain ⟨L', hsend, rfl⟩ := Fallible.map_eq_ok.mp h
    exact .inl (k.tk.sk.sendCoinsFromModuleToModule_spec hsend).1
  | sendCoinsFromAccountToModule _ _ _ =>
    obtain ⟨L', hsend, rfl⟩ := Fallible.map_eq_ok.mp h
    exact .inl (k.tk.sk.sendCoinsFromAccountToModule_spec hsend).1
  | delegateCoins _ _ _ =>
    obtain ⟨L', hdelegate, rfl⟩ := Fallible.map_eq_ok.mp h
    exact .inl (k.tk.sk.delegateCoinsFromAccountToModule_spec hdelegate).1
  | undelegateCoins _ _ _ =>
    obtain ⟨L', hundelegate, rfl⟩ := Fallible.map_eq_ok.mp h
    exact .inl (k.tk.sk.undelegateCoinsFromModuleToAccount_spec hundelegate).1
  | addCoinsFromAccountToFeePool _ _ =>
    obtain ⟨⟨L', feePool'⟩, hadd, h⟩ := Fallible.bind_eq_ok.mp h
    cases Fallible.pure_eq_ok.mp h
    exact .inl (Distribution.addCoinsFromAccountToFeePool_spec k.tk.sk hadd).1
  | distributeFromFeePool _ _ =>
    obtain ⟨⟨L', feePool'⟩, hdistribute, h⟩ := Fallible.bind_eq_ok.mp h
    cases Fallible.pure_eq_ok.mp h
    exact .inl (Distribution.distributeFromFeePool_spec k.tk.sk hdistribute).1

/-- An operation that mints adds valid coins to the supply. -/
theorem supply_apply_of_mints {B B' : Bookkeeping} {op : SupplyOp} (h : op.apply k B = .ok B')
    (mints : op.mints = true) :
    ∃ minted, Coins.isValid minted = true ∧ B'.ledger.supply = Coins.add B.ledger.supply minted := by
  cases op with
  | msgNewToken msg =>
    obtain ⟨⟨L', feePool', tokens'⟩, hnew, h⟩ := Fallible.bind_eq_ok.mp h
    cases Fallible.pure_eq_ok.mp h
    obtain ⟨minted, valid, supply, -⟩ := Token.handleMsgNewToken_spec k.tk hnew
    exact ⟨minted, valid, supply⟩
  | msgInflateToken msg =>
    obtain ⟨L', hinflate, rfl⟩ := Fallible.map_eq_ok.mp h
    obtain ⟨minted, valid, supply, -⟩ := Token.handleMsgInflateToken_spec k.tk hinflate
    exact ⟨minted, valid, supply⟩
  | mintCoins _ amt =>
    obtain ⟨L', hmint, rfl⟩ := Fallible.map_eq_ok.mp h
    obtain ⟨supply, -, -, valid⟩ := k.tk.sk.mintCoins_spec hmint
    exact ⟨amt, valid, supply⟩
  | _ => cases mints

theorem sorted_supply_apply {B B' : Bookkeeping} {op : SupplyOp} (h : op.apply k B = .ok B')
    (sorted : CoinSet.Sorted B.ledger.supply) : CoinSet.Sorted B'.ledger.supply := by
  cases mints : op.mints
  · rcases supply_apply_of_not_mints k h mints with same | ⟨burned, valid, sub⟩
    · exact same ▸ sorted
    · exact Coins.sorted_sub sub sorted (CoinSet.sorted_of_isValid valid)
  · obtain ⟨minted, valid, supply⟩ := supply_apply_of_mints k h mints
    exact supply ▸ Coins.sorted_add sorted (CoinSet.sorted_of_isValid valid)

/-- An operation that does not mint never grows the supply of a denomination. -/
theorem amt_supply_le_of_not_mints {B B' : Bookkeeping} {op : SupplyOp} (h : op.apply k B = .ok B')
    (notMints : op.mints = false) (denom : String) :
    CoinSet.amt B'.ledger.supply denom ≤ CoinSet.amt B.ledger.supply denom := by
  rcases supply_apply_of_not_mints k h notMints with same | ⟨burned, valid, sub⟩
  · rw [same]
  · rw [Coins.amt_sub sub]
    have nonneg := Coins.amt_nonneg_of_isValid valid denom
    omega

theorem wellFormed_apply {B B' : Bookkeeping} {op : SupplyOp} (wf : B.tokens.WellFormed)
    (h : op.apply k B = .ok B') : B'.tokens.WellFormed := by
  by_cases isNew : ∃ msg, op = .msgNewToken msg
  · obtain ⟨msg, rfl⟩ := isNew
    obtain ⟨⟨L', feePool', tokens'⟩, hnew, h⟩ := Fallible.bind_eq_ok.mp h
    cases Fallible.pure_eq_ok.mp h
    obtain ⟨unregistered, -, -, rfl, -⟩ := Token.handleMsgNewToken_eq_ok k.tk hnew
    exact wf.setTokenInfo (wf.symbolString_ne_nativeToken unregistered)
  · rw [tokens_apply k h fun msg same => isNew ⟨msg, same⟩]
    exact wf

/-- A `MsgNewToken` that grows the supply of `s` registered `s`, which was free and unreserved,
with the sender as issuer, and minted exactly its `totalSupply`. -/
theorem issues_of_msgNewToken {B B' : Bookkeeping} {msg : Token.MsgNewToken} {s : String}
    (wf : B.tokens.WellFormed) (h : (msgNewToken msg).apply k B = .ok B')
    (grows : CoinSet.amt B.ledger.supply s < CoinSet.amt B'.ledger.supply s) :
    symbolString msg.symbol = s ∧ B.tokens.getTokenInfo s = none ∧
      s ∉ B.tokenParams.reservedSymbols ∧
      B'.tokens.getTokenInfo s = some ⟨msg.symbol, k.tk.addrString msg.fromAddr, true, msg.decimals⟩ ∧
      CoinSet.amt B'.ledger.supply s = CoinSet.amt B.ledger.supply s + msg.totalSupply ∧
      s ≠ nativeToken := by
  obtain ⟨⟨L', feePool', tokens'⟩, hnew, h⟩ := Fallible.bind_eq_ok.mp h
  cases Fallible.pure_eq_ok.mp h
  obtain ⟨unregistered, unreserved, denom, rfl, minted, -, supply, amount, -, -⟩ :=
    Token.handleMsgNewToken_eq_ok k.tk hnew
  dsimp only at grows ⊢
  -- the supply of `s` grew, so `s` is the minted symbol
  have key : symbolString msg.symbol = s := by
    by_contra other
    rw [supply, Coins.amt_add, amount, if_neg other, add_zero] at grows
    exact lt_irrefl _ grows
  subst key
  have self : symbolString (symbolString msg.symbol) = symbolString msg.symbol :=
    symbolString_eq_of_validateDenom denom
  refine ⟨rfl, ?_, by simpa using unreserved, ?_, ?_, wf.symbolString_ne_nativeToken unregistered⟩
  · rw [TokenStore.getTokenInfo, self]
    exact unregistered
  · rw [TokenStore.getTokenInfo_setTokenInfo, self, if_pos rfl]
  · rw [supply, Coins.amt_add, amount, if_pos rfl]

/-- A delivered `MsgInflateToken` that grows the supply of `s` minted its one coin, of `s`, for
the recorded issuer of the send-enabled `s`; `s` is not the native token, whose issuer is the
empty string that no sender's address prints as. -/
theorem inflates_of_msgInflateToken (addrString_ne_empty : ∀ addr, addr ≠ [] → k.tk.addrString addr ≠ "")
    {B B' : Bookkeeping} {msg : Token.MsgInflateToken} {s : String} (wf : B.tokens.WellFormed)
    (valid : msg.validateBasic = none) (h : (msgInflateToken msg).apply k B = .ok B')
    (grows : CoinSet.amt B.ledger.supply s < CoinSet.amt B'.ledger.supply s) :
    ∃ coin, msg.amount = [coin] ∧ coin.denom = s ∧ B.tokens.isSendEnabled s = true ∧
      k.tk.addrString msg.fromAddr = B.tokens.getIssuer s ∧ B'.tokens = B.tokens ∧
      CoinSet.amt B'.ledger.supply s = CoinSet.amt B.ledger.supply s + coin.amount ∧
      s ≠ nativeToken := by
  obtain ⟨L', hinflate, rfl⟩ := Fallible.map_eq_ok.mp h
  obtain ⟨coin, rest, amount, enabled, issuer, minted, -, supply, mintedAmount, -, -⟩ :=
    Token.handleMsgInflateToken_eq_ok k.tk hinflate
  dsimp only [Bookkeeping.withLedger] at grows ⊢
  -- the supply of `s` grew, so `s` is the minted coin's denomination
  have key : coin.denom = s := by
    by_contra other
    rw [supply, Coins.amt_add, mintedAmount, if_neg other, add_zero] at grows
    exact lt_irrefl _ grows
  subst key
  obtain ⟨fromAddr, -, length, -⟩ := Token.MsgInflateToken.validateBasic_eq_none valid
  have one : rest = [] := by
    rw [amount, List.length_cons] at length
    exact List.eq_nil_of_length_eq_zero (by omega)
  refine ⟨coin, by rw [amount, one], rfl, enabled, issuer, rfl, ?_, ?_⟩
  · rw [supply, Coins.amt_add, mintedAmount, if_pos rfl]
  · intro native
    rw [native, wf.getIssuer_native] at issuer
    exact addrString_ne_empty _ fromAddr issuer

end SupplyOp

/-! ## The chain -/

/-- The state the token invariant is about: the coin bookkeeping, and the mint module's
`MintDenom`. -/
structure ChainState where
  book : Bookkeeping
  mintDenom : String

/-- The events of the chain that reach the supply or the token registry. -/
inductive ChainEvent where
  /-- A message of a delivered transaction, run through the keepers. -/
  | deliver (op : SupplyOp)
  /-- The mint module's `BeginBlocker`, with the block's provision. -/
  | beginBlock (provision : Int)
  /-- A passed token proposal. -/
  | tokenProposal (proposal : Token.TokenProposal)
  /-- A passed parameter change: the token parameters, the bank's `SendEnabled` and the mint
  denomination take any value. -/
  | paramChange (tokenParams : TokenParams) (sendEnabled : Bool) (mintDenom : String)
  /-- A new block time, and the community pool as the distribution module's bookkeeping left
  it. -/
  | newBlock (blockTime : Int) (feePool : FeePool)

namespace ChainEvent

variable (k : Keepers) (unmarshalBool : String → Except String Bool)

/-- Run an event; an event that fails leaves the state as it was. -/
def apply (S : ChainState) : ChainEvent → Except SdkError ChainState
  | deliver op => (fun book => { S with book }) <$> op.apply k S.book
  | beginBlock provision =>
    (fun ledger => { S with book := S.book.withLedger ledger }) <$>
      Mint.beginBlocker k.tk.sk S.book.ledger S.book.blockTime S.mintDenom provision
  | tokenProposal proposal =>
    (fun tokens => { S with book := { S.book with tokens } }) <$>
      Token.handleTokenProposal unmarshalBool S.book.tokens proposal
  | paramChange tokenParams sendEnabled mintDenom =>
    pure ⟨{ S.book with tokenParams, sendEnabled }, mintDenom⟩
  | newBlock blockTime feePool => pure { S with book := { S.book with blockTime, feePool } }

/-- Whether the event can happen at all: a delivered message is one a transaction may run. -/
def allowed : ChainEvent → Bool
  | deliver op => op.delivered
  | _ => true

end ChainEvent

/-- The states of a chain that starts from a genesis whose token registry passed
`ValidateGenesis` and registers the native token with the empty issuer, and whose supply is
sorted: the supply module's `ValidateGenesis` checks `Total.IsValid`, and a supply left empty is
the sum of the accounts' sorted sets (`Supply.invariant_initGenesis`). -/
inductive Reachable (k : Keepers) (unmarshalBool : String → Except String Bool) :
    ChainState → Prop where
  | genesis {S : ChainState} (gs : Token.GenesisState) (valid : Token.validateGenesis gs = .ok ())
      (native : ∃ ti ∈ gs.genesisTokenInfos, ti.symbol = nativeToken ∧ ti.issuer = "")
      (tokens : S.book.tokens = Token.initGenesis gs) (sorted : CoinSet.Sorted S.book.ledger.supply) :
      Reachable k unmarshalBool S
  | step {S S' : ChainState} (e : ChainEvent) (reach : Reachable k unmarshalBool S)
      (allowed : e.allowed = true) (h : e.apply k unmarshalBool S = .ok S') :
      Reachable k unmarshalBool S'

/-- What every reachable state satisfies. -/
structure TokenInvariant (S : ChainState) : Prop where
  wellFormed : S.book.tokens.WellFormed
  supplySorted : CoinSet.Sorted S.book.ledger.supply

section Invariant

variable (k : Keepers) (unmarshalBool : String → Except String Bool)

/-- Every event keeps the invariant. -/
theorem TokenInvariant.step {S S' : ChainState} {e : ChainEvent} (inv : TokenInvariant S)
    (h : e.apply k unmarshalBool S = .ok S') : TokenInvariant S' := by
  cases e with
  | deliver op =>
    obtain ⟨B', happly, rfl⟩ := Fallible.map_eq_ok.mp h
    exact ⟨SupplyOp.wellFormed_apply k inv.wellFormed happly,
      SupplyOp.sorted_supply_apply k happly inv.supplySorted⟩
  | beginBlock provision =>
    obtain ⟨L', hmint, rfl⟩ := Fallible.map_eq_ok.mp h
    exact ⟨inv.wellFormed, (Mint.beginBlocker_supply hmint inv.supplySorted).1⟩
  | tokenProposal proposal =>
    obtain ⟨tokens', hproposal, rfl⟩ := Fallible.map_eq_ok.mp h
    exact ⟨inv.wellFormed.handleTokenProposal hproposal, inv.supplySorted⟩
  | paramChange tokenParams sendEnabled mintDenom =>
    cases Fallible.pure_eq_ok.mp h
    exact ⟨inv.wellFormed, inv.supplySorted⟩
  | newBlock blockTime feePool =>
    cases Fallible.pure_eq_ok.mp h
    exact ⟨inv.wellFormed, inv.supplySorted⟩

/-- Every reachable state satisfies the invariant; the induction is on the run. -/
theorem Reachable.tokenInvariant {S : ChainState} (reach : Reachable k unmarshalBool S) :
    TokenInvariant S := by
  induction reach with
  | genesis gs valid native tokens sorted =>
    exact ⟨tokens ▸ Token.wellFormed_initGenesis valid native, sorted⟩
  | step e _ _ h ih => exact ih.step k unmarshalBool h

/-- On the sorted supply of a state in the invariant, `AmountOf` is `amt`. -/
theorem TokenInvariant.amountOf_supply {S : ChainState} (inv : TokenInvariant S) (denom : String) :
    Coins.amountOf S.book.ledger.supply denom = CoinSet.amt S.book.ledger.supply denom :=
  CoinSet.amountOf_eq_amt inv.supplySorted denom

end Invariant

/-- In a reachable state, an event that grows the supply of a symbol `s` is a delivered
`MsgNewToken` that registers `s`, free and unreserved before, with the sender as issuer, or a
delivered `MsgInflateToken` of one coin of `s` by the recorded issuer of the send-enabled `s`,
the supply growing by the amount of the message, `s` registered afterwards and not the native
token; or else it is the mint module's `BeginBlocker`, and `s` is the mint denomination. So the
native token grows only through the `BeginBlocker`, never through the token module. -/
theorem token_issuance_authority (k : Keepers) (unmarshalBool : String → Except String Bool)
    (addrString_ne_empty : ∀ addr, addr ≠ [] → k.tk.addrString addr ≠ "")
    {S S' : ChainState} {e : ChainEvent} {s : String} (reach : Reachable k unmarshalBool S)
    (allowed : e.allowed = true) (h : e.apply k unmarshalBool S = .ok S')
    (grows : Coins.amountOf S.book.ledger.supply s < Coins.amountOf S'.book.ledger.supply s) :
    (((∃ msg : Token.MsgNewToken, e = .deliver (.msgNewToken msg) ∧ symbolString msg.symbol = s ∧
        S.book.tokens.getTokenInfo s = none ∧ s ∉ S.book.tokenParams.reservedSymbols ∧
        S'.book.tokens.getTokenInfo s =
          some ⟨msg.symbol, k.tk.addrString msg.fromAddr, true, msg.decimals⟩ ∧
        Coins.amountOf S'.book.ledger.supply s = Coins.amountOf S.book.ledger.supply s + msg.totalSupply) ∨
      (∃ (msg : Token.MsgInflateToken) (coin : Coin), e = .deliver (.msgInflateToken msg) ∧
        msg.amount = [coin] ∧ coin.denom = s ∧ S.book.tokens.isSendEnabled s = true ∧
        k.tk.addrString msg.fromAddr = S.book.tokens.getIssuer s ∧ S'.book.tokens = S.book.tokens ∧
        Coins.amountOf S'.book.ledger.supply s = Coins.amountOf S.book.ledger.supply s + coin.amount)) ∧
      (S'.book.tokens.getTokenInfo s).isSome ∧ s ≠ nativeToken) ∨
    ∃ provision, e = .beginBlock provision ∧ s = S.mintDenom := by
  have inv := reach.tokenInvariant
  have inv' := inv.step k unmarshalBool h
  rw [inv.amountOf_supply, inv'.amountOf_supply] at grows ⊢
  cases e with
  | deliver op =>
    obtain ⟨B', happly, rfl⟩ := Fallible.map_eq_ok.mp h
    -- an operation that does not mint cannot grow a supply; of those that mint, only the token
    -- messages are delivered
    cases mints : op.mints
    · exact absurd grows (not_lt.mpr (SupplyOp.amt_supply_le_of_not_mints k happly mints s))
    · cases op with
      | msgNewToken msg =>
        obtain ⟨key, unregistered, unreserved, registered, amount, native⟩ :=
          SupplyOp.issues_of_msgNewToken k inv.wellFormed happly grows
        refine .inl ⟨.inl ⟨msg, rfl, key, unregistered, unreserved, registered, amount⟩, ?_, native⟩
        rw [registered]
        rfl
      | msgInflateToken msg =>
        obtain ⟨coin, one, denom, enabled, issuer, same, amount, native⟩ :=
          SupplyOp.inflates_of_msgInflateToken k addrString_ne_empty inv.wellFormed
            (Option.isNone_iff_eq_none.mp allowed) happly grows
        refine .inl ⟨.inr ⟨msg, coin, rfl, one, denom, enabled, issuer, same, amount⟩, ?_, native⟩
        rw [same]
        exact TokenStore.getTokenInfo_of_isSendEnabled enabled
      | mintCoins _ _ => exact absurd allowed Bool.false_ne_true
      | _ => cases mints
  | beginBlock provision =>
    -- the `BeginBlocker` mints the mint denomination and nothing else
    by_cases mintDenom : s = S.mintDenom
    · exact .inr ⟨provision, rfl, mintDenom⟩
    · obtain ⟨L', hmint, rfl⟩ := Fallible.map_eq_ok.mp h
      change CoinSet.amt S.book.ledger.supply s < CoinSet.amt L'.supply s at grows
      rw [(Mint.beginBlocker_supply hmint inv.supplySorted).2 s mintDenom] at grows
      exact absurd grows (lt_irrefl _)
  | tokenProposal proposal =>
    obtain ⟨tokens', -, rfl⟩ := Fallible.map_eq_ok.mp h
    exact absurd grows (lt_irrefl _)
  | paramChange tokenParams sendEnabled mintDenom =>
    cases Fallible.pure_eq_ok.mp h
    exact absurd grows (lt_irrefl _)
  | newBlock blockTime feePool =>
    cases Fallible.pure_eq_ok.mp h
    exact absurd grows (lt_irrefl _)

/-- The address of the first test vector of types/address_test.go. -/
def issuerAddr : AccAddress :=
  [0xB5, 0xAD, 0x24, 0xDD, 0x9E, 0x5D, 0x60, 0xE1, 0xF0, 0x73, 0x4A, 0xF2, 0xD8, 0x19, 0xFF, 0x9A,
    0x19, 0x8A, 0x2A, 0x38]

/-- The address of the second test vector of types/address_test.go. -/
def holderAddr : AccAddress :=
  [0x54, 0x9C, 0x15, 0x83, 0x13, 0x15, 0xAD, 0x56, 0xF8, 0x9C, 0x0E, 0xDD, 0xF9, 0xD8, 0x52, 0xB6,
    0xCB, 0x76, 0x05, 0xE3]

/-- `AccAddress.String`: the empty string for the empty address, and the bech32 text of the
test vectors for their addresses; any other address prints as some bech32 text, here the bare
prefix. -/
def vectorAddrString (addr : AccAddress) : String :=
  if addr = [] then ""
  else if addr = issuerAddr then "poc1kkkjfhv7t4swrurnftedsx0lngvc523cfa00s3"
  else if addr = holderAddr then "poc12jwptqcnzkk4d7yupmwlnkzjkm9hvp0rr0chxr"
  else "poc1"

theorem vectorAddrString_ne_empty (addr : AccAddress) (nonempty : addr ≠ []) :
    vectorAddrString addr ≠ "" := by
  unfold vectorAddrString
  rw [if_neg nonempty]
  split_ifs <;> decide

/-- `UnmarshalJSON` into a `bool`. -/
def jsonBool (value : String) : Except String Bool :=
  if value = "true" then .ok true
  else if value = "false" then .ok false
  else .error s!"cannot decode {value} as bool"

/-- Keepers with the token module account, a minter, at `[1]` and the distribution module
account at `[2]`. -/
def vectorKeepers : Keepers :=
  ⟨⟨fun _ => false, vectorAddrString⟩,
    ⟨⟨fun moduleName => if moduleName = Token.moduleName then [1] else [2],
      [(Token.moduleName, [minter]), (Distribution.moduleName, [])]⟩, vectorAddrString⟩⟩

/-- A token genesis with the native token alone, registered with the empty issuer, no issue fee
and `btc` reserved. -/
def issueGenesis : Token.GenesisState := ⟨[⟨nativeToken, "", true, 18⟩], ⟨0, ["btc"]⟩⟩

/-- The chain at that genesis, with no account yet. -/
def genesisChain : ChainState :=
  ⟨⟨⟨SortedMap.empty, []⟩, ⟨[]⟩, Token.initGenesis issueGenesis, issueGenesis.params, true, 0⟩,
    nativeToken⟩

/-- The first test vector's address issues 100 `abc` of 8 decimals to the second's. -/
def issueAbc : ChainEvent := .deliver (.msgNewToken ⟨issuerAddr, holderAddr, "abc", 8, 100⟩)

/-- The chain after the issue: the two module accounts, the holder with the 100 `abc`, the
issuer's account that paid the empty fee, and `abc` registered to the issuer. -/
def abcChain : ChainState :=
  ⟨⟨⟨(((SortedMap.empty.insert [1] ⟨[], .module Token.moduleName [minter]⟩).insert [2]
        ⟨[], .module Distribution.moduleName []⟩).insert holderAddr ⟨[⟨"abc", 100⟩], .base⟩).insert
        issuerAddr ⟨[], .base⟩, [⟨"abc", 100⟩]⟩,
    ⟨[]⟩,
    (Token.initGenesis issueGenesis).setTokenInfo
      ⟨"abc", "poc1kkkjfhv7t4swrurnftedsx0lngvc523cfa00s3", true, 8⟩,
    issueGenesis.params, true, 0⟩, nativeToken⟩

theorem abc_issuance_registers_abc :
    Reachable vectorKeepers jsonBool genesisChain ∧ issueAbc.allowed = true ∧
      issueAbc.apply vectorKeepers jsonBool genesisChain = .ok abcChain ∧
      Coins.amountOf genesisChain.book.ledger.supply "abc" <
        Coins.amountOf abcChain.book.ledger.supply "abc" ∧
      (abcChain.book.tokens.getTokenInfo "abc").isSome ∧ "abc" ≠ nativeToken := by
  have reach : Reachable vectorKeepers jsonBool genesisChain :=
    .genesis issueGenesis rfl ⟨_, List.mem_singleton_self _, rfl, rfl⟩ rfl List.Pairwise.nil
  have allowed : issueAbc.allowed = true := rfl
  have h : issueAbc.apply vectorKeepers jsonBool genesisChain = .ok abcChain := rfl
  have grows : Coins.amountOf genesisChain.book.ledger.supply "abc" <
      Coins.amountOf abcChain.book.ledger.supply "abc" := by
    change Coins.amountOf [] "abc" < Coins.amountOf [⟨"abc", 100⟩] "abc"
    rw [Coins.amountOf, Coins.amountOf, CoinSet.amountOf_nil, CoinSet.amountOf_singleton, if_pos rfl]
    decide
  rcases token_issuance_authority vectorKeepers jsonBool vectorAddrString_ne_empty reach allowed h
      grows with ⟨-, registered⟩ | ⟨provision, mint, -⟩
  · exact ⟨reach, allowed, h, grows, registered⟩
  · -- the issue is a delivered message, not the `BeginBlocker`
    simp [issueAbc] at mint

end Pocc
