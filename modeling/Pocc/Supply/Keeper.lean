import Pocc.Bank.Keeper

/-!
# The supply keeper

x/supply/internal/keeper: module accounts, and the total supply. A module account is found
by its name among the registered ones (`permAddrs`) and created on first use. Only
`MintCoins` and `BurnCoins` write the total supply; every other function moves coins between
accounts through the bank keeper.

The address of a module account is `crypto.AddressHash` of its name, code outside the
repository: the keeper takes it as a parameter.
-/

namespace Pocc

/-- The accounts and the total supply: the state the supply keeper reads and writes. -/
structure Ledger where
  accounts : AccountStore
  supply : Coins

/-- The supply keeper's fixed data: the registered module accounts with their permissions
(`maccPerms` of the app), and the address of a module account. -/
structure SupplyKeeper where
  moduleAddress : String → AccAddress
  permAddrs : List (String × List String)

/-- The permissions `MintCoins`, `BurnCoins` and the delegation functions check. -/
def minter : String := "minter"
def burner : String := "burner"
def staking : String := "staking"

namespace SupplyKeeper

variable (sk : SupplyKeeper)

/-- `GetModuleAddress`: the address of a registered module account. -/
def getModuleAddress (moduleName : String) : Option AccAddress :=
  (sk.permAddrs.lookup moduleName).map fun _ => sk.moduleAddress moduleName

/-- `GetModuleAccountAndPermissions` without the permissions: the module account, created
empty if it is registered and missing. An account at the address that is not a module account
panics. -/
def getModuleAccount (accounts : AccountStore) (moduleName : String) :
    Except SdkError (Option (AccAddress × Account) × AccountStore) :=
  match sk.permAddrs.lookup moduleName with
  | none => pure (none, accounts)
  | some perms =>
    let addr := sk.moduleAddress moduleName
    match accounts.getAccount addr with
    | some acc =>
      match acc.kind with
      | .module _ _ => pure (some (addr, acc), accounts)
      | _ => throw (.panic "account is not a module account")
    | none =>
      let macc : Account := ⟨[], .module moduleName perms⟩
      pure (some (addr, macc), accounts.setAccount addr macc)

/-- `HasPermission` of a module account. -/
def hasPermission (acc : Account) (permission : String) : Bool :=
  match acc.kind with
  | .module _ permissions => permissions.contains permission
  | _ => false

/-- `SendCoinsFromModuleToAccount`. -/
def sendCoinsFromModuleToAccount (L : Ledger) (blockTime : Int) (senderModule : String)
    (recipientAddr : AccAddress) (amt : Coins) : Except SdkError Ledger :=
  match sk.getModuleAddress senderModule with
  | none => throw (.unknownAddress s!"module account {senderModule} does not exist")
  | some senderAddr => do
    pure { L with accounts := ← Bank.sendCoins L.accounts blockTime senderAddr recipientAddr amt }

/-- `SendCoinsFromModuleToModule`. -/
def sendCoinsFromModuleToModule (L : Ledger) (blockTime : Int)
    (senderModule recipientModule : String) (amt : Coins) : Except SdkError Ledger :=
  match sk.getModuleAddress senderModule with
  | none => throw (.unknownAddress s!"module account {senderModule} does not exist")
  | some senderAddr => do
    match ← sk.getModuleAccount L.accounts recipientModule with
    | (none, _) => throw (.panic s!"module account {recipientModule} isn't able to be created")
    | (some (recipientAddr, _), accounts) =>
      pure { L with accounts := ← Bank.sendCoins accounts blockTime senderAddr recipientAddr amt }

/-- `SendCoinsFromAccountToModule`. -/
def sendCoinsFromAccountToModule (L : Ledger) (blockTime : Int) (senderAddr : AccAddress)
    (recipientModule : String) (amt : Coins) : Except SdkError Ledger := do
  match ← sk.getModuleAccount L.accounts recipientModule with
  | (none, _) => throw (.panic s!"module account {recipientModule} isn't able to be created")
  | (some (recipientAddr, _), accounts) =>
    pure { L with accounts := ← Bank.sendCoins accounts blockTime senderAddr recipientAddr amt }

/-- `DelegateCoinsFromAccountToModule`. -/
def delegateCoinsFromAccountToModule (L : Ledger) (blockTime : Int) (senderAddr : AccAddress)
    (recipientModule : String) (amt : Coins) : Except SdkError Ledger := do
  match ← sk.getModuleAccount L.accounts recipientModule with
  | (none, _) => throw (.panic s!"module account {recipientModule} isn't able to be created")
  | (some (recipientAddr, recipientAcc), accounts) =>
    if !hasPermission recipientAcc staking then
      throw (.panic s!"module account {recipientModule} does not have permissions to receive delegated coins")
    else
      pure { L with
        accounts := ← Bank.delegateCoins accounts blockTime senderAddr recipientAddr amt }

/-- `UndelegateCoinsFromModuleToAccount`. -/
def undelegateCoinsFromModuleToAccount (L : Ledger) (senderModule : String)
    (recipientAddr : AccAddress) (amt : Coins) : Except SdkError Ledger := do
  match ← sk.getModuleAccount L.accounts senderModule with
  | (none, _) => throw (.unknownAddress s!"module account {senderModule} does not exist")
  | (some (moduleAddr, acc), accounts) =>
    if !hasPermission acc staking then
      throw (.panic s!"module account {senderModule} does not have permissions to undelegate coins")
    else
      pure { L with accounts := ← Bank.undelegateCoins accounts moduleAddr recipientAddr amt }

/-- Turn an error into the panic the caller raises with it. -/
def orPanic {α : Type} : Except SdkError α → Except SdkError α
  | .error (.error _ _ log) => throw (.panic log)
  | r => r

/-- `MintCoins`: the module account receives the coins and the supply grows by them. -/
def mintCoins (L : Ledger) (moduleName : String) (amt : Coins) : Except SdkError Ledger := do
  match ← sk.getModuleAccount L.accounts moduleName with
  | (none, _) => throw (.unknownAddress s!"module account {moduleName} does not exist")
  | (some (moduleAddr, acc), accounts) =>
    if !hasPermission acc minter then
      throw (.panic s!"module account {moduleName} does not have permissions to mint tokens")
    else do
      let (_, accounts) ← orPanic (Bank.addCoins accounts moduleAddr amt)
      -- `Supply.Inflate`
      pure { accounts, supply := Coins.add L.supply amt }

/-- `BurnCoins`: the module account gives up the coins and the supply shrinks by them. -/
def burnCoins (L : Ledger) (blockTime : Int) (moduleName : String) (amt : Coins) :
    Except SdkError Ledger := do
  match ← sk.getModuleAccount L.accounts moduleName with
  | (none, _) => throw (.unknownAddress s!"module account {moduleName} does not exist")
  | (some (moduleAddr, acc), accounts) =>
    if !hasPermission acc burner then
      throw (.panic s!"module account {moduleName} does not have permissions to burn tokens")
    else do
      let (_, accounts) ← orPanic (Bank.subtractCoins accounts blockTime moduleAddr amt)
      -- `Supply.Deflate`
      pure { accounts, supply := ← Coins.sub L.supply amt }

/-! ## What each function does to the accounts and the supply -/

open AccountStore

/-- A call that succeeded under `orPanic` succeeded by itself. -/
theorem orPanic_eq_ok {α : Type} {x : Except SdkError α} {a : α} (h : orPanic x = .ok a) :
    x = .ok a := by
  unfold orPanic at h
  split at h
  · exact absurd h Fallible.throw_ne_ok
  · exact h

/-- Looking a module account up creates at most an empty account at its address. -/
theorem getModuleAccount_spec {accounts accounts' : AccountStore} {moduleName : String}
    {res : Option (AccAddress × Account)}
    (h : sk.getModuleAccount accounts moduleName = .ok (res, accounts')) :
    (∀ denom, accounts'.total denom = accounts.total denom) ∧
      (accounts.CoinsSorted → accounts'.CoinsSorted) ∧
      ∀ addr acc, res = some (addr, acc) → addr = sk.moduleAddress moduleName := by
  unfold getModuleAccount at h
  split at h
  · cases Fallible.pure_eq_ok.mp h
    exact ⟨fun _ => rfl, id, fun _ _ found => by cases found⟩
  · next perms _ =>
    dsimp only at h
    split at h
    · split at h
      · cases Fallible.pure_eq_ok.mp h
        exact ⟨fun _ => rfl, id, fun _ _ found => (Prod.ext_iff.mp (Option.some.inj found)).1.symm⟩
      · exact absurd h Fallible.throw_ne_ok
    · next missing =>
      cases Fallible.pure_eq_ok.mp h
      refine ⟨fun denom => ?_, fun sorted => coinsSorted_setAccount sorted _ List.Pairwise.nil,
        fun _ _ found => (Prod.ext_iff.mp (Option.some.inj found)).1.symm⟩
      rw [total_setAccount]
      simp [getCoins, missing]

/-- A module account that `getModuleAccount` returns is stored at the module's address as a
module account, and no other address changes. -/
theorem getModuleAccount_found {accounts accounts' : AccountStore} {moduleName : String}
    {addr : AccAddress} {acc : Account}
    (h : sk.getModuleAccount accounts moduleName = .ok (some (addr, acc), accounts')) :
    accounts'.getAccount addr = some acc ∧ (∃ name perms, acc.kind = .module name perms) ∧
      ∀ addr', addr' ≠ addr → accounts'.getAccount addr' = accounts.getAccount addr' := by
  unfold getModuleAccount at h
  split at h
  · cases Fallible.pure_eq_ok.mp h
  · next perms _ =>
    dsimp only at h
    split at h
    · next found =>
      split at h
      · next name modulePerms module =>
        cases Fallible.pure_eq_ok.mp h
        exact ⟨found, ⟨name, modulePerms, module⟩, fun _ _ => rfl⟩
      · exact absurd h Fallible.throw_ne_ok
    · cases Fallible.pure_eq_ok.mp h
      refine ⟨by simp [getAccount_setAccount], ⟨moduleName, perms, rfl⟩, fun addr' other => ?_⟩
      rw [getAccount_setAccount, if_neg (Ne.symm other)]

/-- Looking a module account up leaves the coins of every address as they were. -/
theorem getCoins_getModuleAccount {accounts accounts' : AccountStore} {moduleName : String}
    {res : Option (AccAddress × Account)}
    (h : sk.getModuleAccount accounts moduleName = .ok (res, accounts')) (addr : AccAddress) :
    accounts'.getCoins addr = accounts.getCoins addr := by
  unfold getModuleAccount at h
  split at h
  · cases Fallible.pure_eq_ok.mp h
    rfl
  · dsimp only at h
    split at h
    · split at h
      · cases Fallible.pure_eq_ok.mp h
        rfl
      · exact absurd h Fallible.throw_ne_ok
    · next missing =>
      -- the account created holds no coins, as the missing one did
      cases Fallible.pure_eq_ok.mp h
      rw [getCoins_setAccount]
      split
      · next same =>
        subst same
        simp [getCoins, missing]
      · rfl

/-- The module account stored at a registered module's address is what `getModuleAccount`
returns, and nothing is written. -/
theorem getModuleAccount_of_module {accounts : AccountStore} {moduleName name : String}
    {perms : List String} {acc : Account} (registered : (sk.permAddrs.lookup moduleName).isSome)
    (found : accounts.getAccount (sk.moduleAddress moduleName) = some acc)
    (module : acc.kind = .module name perms) :
    sk.getModuleAccount accounts moduleName =
      .ok (some (sk.moduleAddress moduleName, acc), accounts) := by
  obtain ⟨registeredPerms, hperms⟩ := Option.isSome_iff_exists.mp registered
  unfold getModuleAccount
  rw [hperms]
  dsimp only
  rw [found]
  dsimp only
  rw [module]
  rfl

/-- A registered module whose address holds nothing but a module account gets its account:
the one stored there, or a new one without coins. -/
theorem getModuleAccount_exists {accounts : AccountStore} {moduleName : String}
    (registered : (sk.permAddrs.lookup moduleName).isSome)
    (module : ∀ acc, accounts.getAccount (sk.moduleAddress moduleName) = some acc →
      ∃ name perms, acc.kind = .module name perms) :
    ∃ acc accounts', sk.getModuleAccount accounts moduleName =
        .ok (some (sk.moduleAddress moduleName, acc), accounts') ∧
      (accounts.getAccount (sk.moduleAddress moduleName) = some acc ∨
        accounts.getAccount (sk.moduleAddress moduleName) = none ∧ acc.coins = []) := by
  cases found : accounts.getAccount (sk.moduleAddress moduleName) with
  | some acc =>
    obtain ⟨name, perms, kind⟩ := module acc found
    exact ⟨acc, accounts, getModuleAccount_of_module sk registered found kind, .inl rfl⟩
  | none =>
    obtain ⟨perms, hperms⟩ := Option.isSome_iff_exists.mp registered
    refine ⟨⟨[], .module moduleName perms⟩,
      accounts.setAccount (sk.moduleAddress moduleName) ⟨[], .module moduleName perms⟩, ?_,
      .inr ⟨rfl, rfl⟩⟩
    unfold getModuleAccount
    rw [hperms]
    dsimp only
    rw [found]
    rfl

theorem sendCoinsFromAccountToModule_eq_ok {L L' : Ledger} {blockTime : Int}
    {senderAddr : AccAddress} {recipientModule : String} {amt : Coins}
    (h : sk.sendCoinsFromAccountToModule L blockTime senderAddr recipientModule amt = .ok L') :
    ∃ accounts₁ recipientAddr recipientAcc,
      sk.getModuleAccount L.accounts recipientModule =
        .ok (some (recipientAddr, recipientAcc), accounts₁) ∧
      Bank.sendCoins accounts₁ blockTime senderAddr recipientAddr amt = .ok L'.accounts := by
  unfold sendCoinsFromAccountToModule at h
  obtain ⟨⟨res, accounts₁⟩, hget, h⟩ := Fallible.bind_eq_ok.mp h
  rcases res with _ | ⟨recipientAddr, recipientAcc⟩
  · exact absurd h Fallible.throw_ne_ok
  · dsimp only at h
    obtain ⟨accounts₂, hsend, h⟩ := Fallible.bind_eq_ok.mp h
    cases Fallible.pure_eq_ok.mp h
    exact ⟨accounts₁, recipientAddr, recipientAcc, hget, hsend⟩

/-- The coin-moving functions of the supply keeper keep the supply and every total. -/
theorem sendCoinsFromModuleToAccount_spec {L L' : Ledger} {blockTime : Int}
    {senderModule : String} {recipientAddr : AccAddress} {amt : Coins}
    (h : sk.sendCoinsFromModuleToAccount L blockTime senderModule recipientAddr amt = .ok L') :
    L'.supply = L.supply ∧ (∀ denom, L'.accounts.total denom = L.accounts.total denom) ∧
      (L.accounts.CoinsSorted → L'.accounts.CoinsSorted) := by
  unfold sendCoinsFromModuleToAccount at h
  split at h
  · exact absurd h Fallible.throw_ne_ok
  · obtain ⟨accounts, hsend, h⟩ := Fallible.bind_eq_ok.mp h
    rw [← Fallible.pure_eq_ok.mp h]
    exact ⟨rfl, Bank.total_sendCoins hsend, Bank.coinsSorted_sendCoins hsend⟩

theorem sendCoinsFromModuleToModule_spec {L L' : Ledger} {blockTime : Int}
    {senderModule recipientModule : String} {amt : Coins}
    (h : sk.sendCoinsFromModuleToModule L blockTime senderModule recipientModule amt = .ok L') :
    L'.supply = L.supply ∧ (∀ denom, L'.accounts.total denom = L.accounts.total denom) ∧
      (L.accounts.CoinsSorted → L'.accounts.CoinsSorted) := by
  unfold sendCoinsFromModuleToModule at h
  split at h
  · exact absurd h Fallible.throw_ne_ok
  · obtain ⟨⟨res, accounts₁⟩, hget, h⟩ := Fallible.bind_eq_ok.mp h
    obtain ⟨total₁, sorted₁, -⟩ := sk.getModuleAccount_spec hget
    rcases res with _ | ⟨recipientAddr, recipientAcc⟩
    · exact absurd h Fallible.throw_ne_ok
    · dsimp only at h
      obtain ⟨accounts₂, hsend, h⟩ := Fallible.bind_eq_ok.mp h
      rw [← Fallible.pure_eq_ok.mp h]
      exact ⟨rfl, fun denom => (Bank.total_sendCoins hsend denom).trans (total₁ denom),
        fun sorted => Bank.coinsSorted_sendCoins hsend (sorted₁ sorted)⟩

theorem sendCoinsFromAccountToModule_spec {L L' : Ledger} {blockTime : Int}
    {senderAddr : AccAddress} {recipientModule : String} {amt : Coins}
    (h : sk.sendCoinsFromAccountToModule L blockTime senderAddr recipientModule amt = .ok L') :
    L'.supply = L.supply ∧ (∀ denom, L'.accounts.total denom = L.accounts.total denom) ∧
      (L.accounts.CoinsSorted → L'.accounts.CoinsSorted) := by
  unfold sendCoinsFromAccountToModule at h
  obtain ⟨⟨res, accounts₁⟩, hget, h⟩ := Fallible.bind_eq_ok.mp h
  obtain ⟨total₁, sorted₁, -⟩ := sk.getModuleAccount_spec hget
  rcases res with _ | ⟨moduleAddr, acc⟩
  · exact absurd h Fallible.throw_ne_ok
  · dsimp only at h
    obtain ⟨accounts₂, hsend, h⟩ := Fallible.bind_eq_ok.mp h
    rw [← Fallible.pure_eq_ok.mp h]
    exact ⟨rfl, fun denom => (Bank.total_sendCoins hsend denom).trans (total₁ denom),
      fun sorted => Bank.coinsSorted_sendCoins hsend (sorted₁ sorted)⟩

theorem delegateCoinsFromAccountToModule_spec {L L' : Ledger} {blockTime : Int}
    {senderAddr : AccAddress} {recipientModule : String} {amt : Coins}
    (h : sk.delegateCoinsFromAccountToModule L blockTime senderAddr recipientModule amt = .ok L') :
    L'.supply = L.supply ∧ (∀ denom, L'.accounts.total denom = L.accounts.total denom) ∧
      (L.accounts.CoinsSorted → L'.accounts.CoinsSorted) := by
  unfold delegateCoinsFromAccountToModule at h
  obtain ⟨⟨res, accounts₁⟩, hget, h⟩ := Fallible.bind_eq_ok.mp h
  obtain ⟨total₁, sorted₁, -⟩ := sk.getModuleAccount_spec hget
  rcases res with _ | ⟨moduleAddr, acc⟩
  · exact absurd h Fallible.throw_ne_ok
  · dsimp only at h
    split at h
    · exact absurd h Fallible.throw_ne_ok
    · obtain ⟨accounts₂, hdel, h⟩ := Fallible.bind_eq_ok.mp h
      rw [← Fallible.pure_eq_ok.mp h]
      exact ⟨rfl, fun denom => (Bank.total_delegateCoins hdel denom).trans (total₁ denom),
        fun sorted => Bank.coinsSorted_delegateCoins hdel (sorted₁ sorted)⟩

/-- `UndelegateCoinsFromModuleToAccount` keeps every total unless the recipient is the
sending module account itself, which gains the amount. -/
theorem undelegateCoinsFromModuleToAccount_spec {L L' : Ledger} {senderModule : String}
    {recipientAddr : AccAddress} {amt : Coins}
    (h : sk.undelegateCoinsFromModuleToAccount L senderModule recipientAddr amt = .ok L') :
    L'.supply = L.supply ∧
      (∀ denom, L'.accounts.total denom = L.accounts.total denom +
        if sk.moduleAddress senderModule = recipientAddr then CoinSet.amt amt denom else 0) ∧
      (L.accounts.CoinsSorted → L'.accounts.CoinsSorted) := by
  unfold undelegateCoinsFromModuleToAccount at h
  obtain ⟨⟨res, accounts₁⟩, hget, h⟩ := Fallible.bind_eq_ok.mp h
  obtain ⟨total₁, sorted₁, address⟩ := sk.getModuleAccount_spec hget
  rcases res with _ | ⟨moduleAddr, acc⟩
  · exact absurd h Fallible.throw_ne_ok
  · dsimp only at h
    split at h
    · exact absurd h Fallible.throw_ne_ok
    · obtain ⟨accounts₂, hundel, h⟩ := Fallible.bind_eq_ok.mp h
      rw [← Fallible.pure_eq_ok.mp h]
      refine ⟨rfl, fun denom => ?_, fun sorted => Bank.coinsSorted_undelegateCoins hundel
        (sorted₁ sorted)⟩
      rw [Bank.total_undelegateCoins hundel, total₁, address moduleAddr acc rfl]

/-- `UndelegateCoinsFromModuleToAccount` out of a registered module whose stored account may
undelegate is `UndelegateCoins` from the module's address. -/
theorem undelegateCoinsFromModuleToAccount_of_undelegateCoins {L : Ledger}
    {senderModule name : String} {perms : List String} {acc : Account}
    {recipientAddr : AccAddress} {amt : Coins} {accounts' : AccountStore}
    (registered : (sk.permAddrs.lookup senderModule).isSome)
    (found : L.accounts.getAccount (sk.moduleAddress senderModule) = some acc)
    (module : acc.kind = .module name perms) (permitted : perms.contains staking = true)
    (paid : Bank.undelegateCoins L.accounts (sk.moduleAddress senderModule) recipientAddr amt =
      .ok accounts') :
    sk.undelegateCoinsFromModuleToAccount L senderModule recipientAddr amt =
      .ok { L with accounts := accounts' } := by
  unfold undelegateCoinsFromModuleToAccount
  refine Fallible.bind_eq_ok.mpr ⟨_, sk.getModuleAccount_of_module registered found module, ?_⟩
  dsimp only
  rw [if_neg (by simpa [hasPermission, module] using permitted)]
  exact Fallible.bind_eq_ok.mpr ⟨_, paid, rfl⟩

/-- `UndelegateCoinsFromModuleToAccount` to another account takes the amount from the module
account and gives it to the recipient. -/
theorem getCoins_undelegateCoinsFromModuleToAccount {L L' : Ledger} {senderModule : String}
    {recipientAddr : AccAddress} {amt : Coins}
    (h : sk.undelegateCoinsFromModuleToAccount L senderModule recipientAddr amt = .ok L')
    (distinct : sk.moduleAddress senderModule ≠ recipientAddr) (denom : String) :
    CoinSet.amt (L'.accounts.getCoins (sk.moduleAddress senderModule)) denom =
        CoinSet.amt (L.accounts.getCoins (sk.moduleAddress senderModule)) denom -
          CoinSet.amt amt denom ∧
      CoinSet.amt (L'.accounts.getCoins recipientAddr) denom =
        CoinSet.amt (L.accounts.getCoins recipientAddr) denom + CoinSet.amt amt denom := by
  unfold undelegateCoinsFromModuleToAccount at h
  obtain ⟨⟨res, accounts₁⟩, hget, h⟩ := Fallible.bind_eq_ok.mp h
  obtain ⟨-, -, address⟩ := sk.getModuleAccount_spec hget
  rcases res with _ | ⟨moduleAddr, acc⟩
  · exact absurd h Fallible.throw_ne_ok
  · dsimp only at h
    split at h
    · exact absurd h Fallible.throw_ne_ok
    · obtain ⟨accounts₂, hundel, h⟩ := Fallible.bind_eq_ok.mp h
      rw [← Fallible.pure_eq_ok.mp h]
      obtain rfl := address moduleAddr acc rfl
      rw [← sk.getCoins_getModuleAccount hget, ← sk.getCoins_getModuleAccount hget recipientAddr]
      exact Bank.getCoins_undelegateCoins hundel distinct denom

theorem mintCoins_spec {L L' : Ledger} {moduleName : String} {amt : Coins}
    (h : sk.mintCoins L moduleName amt = .ok L') :
    L'.supply = Coins.add L.supply amt ∧
      (∀ denom, L'.accounts.total denom = L.accounts.total denom + CoinSet.amt amt denom) ∧
      (L.accounts.CoinsSorted → L'.accounts.CoinsSorted) ∧ Coins.isValid amt = true := by
  unfold mintCoins at h
  obtain ⟨⟨res, accounts₁⟩, hget, h⟩ := Fallible.bind_eq_ok.mp h
  obtain ⟨total₁, sorted₁, -⟩ := sk.getModuleAccount_spec hget
  rcases res with _ | ⟨moduleAddr, acc⟩
  · exact absurd h Fallible.throw_ne_ok
  · dsimp only at h
    split at h
    · exact absurd h Fallible.throw_ne_ok
    · obtain ⟨⟨_, accounts₂⟩, hadd, h⟩ := Fallible.bind_eq_ok.mp h
      replace hadd := orPanic_eq_ok hadd
      rw [← Fallible.pure_eq_ok.mp h]
      exact ⟨rfl, fun denom => by rw [Bank.total_addCoins hadd, total₁],
        fun sorted => Bank.coinsSorted_addCoins hadd (sorted₁ sorted),
        (Bank.addCoins_eq_ok hadd).1⟩

theorem burnCoins_spec {L L' : Ledger} {blockTime : Int} {moduleName : String} {amt : Coins}
    (h : sk.burnCoins L blockTime moduleName amt = .ok L') :
    Coins.sub L.supply amt = .ok L'.supply ∧
      (∀ denom, L'.accounts.total denom = L.accounts.total denom - CoinSet.amt amt denom) ∧
      (L.accounts.CoinsSorted → L'.accounts.CoinsSorted) ∧ Coins.isValid amt = true := by
  unfold burnCoins at h
  obtain ⟨⟨res, accounts₁⟩, hget, h⟩ := Fallible.bind_eq_ok.mp h
  obtain ⟨total₁, sorted₁, -⟩ := sk.getModuleAccount_spec hget
  rcases res with _ | ⟨moduleAddr, acc⟩
  · exact absurd h Fallible.throw_ne_ok
  · dsimp only at h
    split at h
    · exact absurd h Fallible.throw_ne_ok
    · obtain ⟨⟨_, accounts₂⟩, hsub, h⟩ := Fallible.bind_eq_ok.mp h
      replace hsub := orPanic_eq_ok hsub
      obtain ⟨supply, hsupply, h⟩ := Fallible.bind_eq_ok.mp h
      rw [← Fallible.pure_eq_ok.mp h]
      exact ⟨hsupply, fun denom => by rw [Bank.total_subtractCoins hsub, total₁],
        fun sorted => Bank.coinsSorted_subtractCoins hsub (sorted₁ sorted),
        (Bank.subtractCoins_eq_ok hsub).1⟩

/-! ## Moving all the coins of a module account -/

/-- A module registered with the supply keeper whose address holds, if anything, a module
account with valid coins. -/
structure ModuleReady (accounts : AccountStore) (moduleName : String) : Prop where
  registered : (sk.permAddrs.lookup moduleName).isSome
  stored : ∀ acc, accounts.getAccount (sk.moduleAddress moduleName) = some acc →
    (∃ name perms, acc.kind = .module name perms) ∧ Coins.isValid acc.coins = true

/-- A ready module's account, as `getModuleAccount` returns it: the module account holding the
coins stored at its address, valid ones; only its address may be written. -/
theorem ModuleReady.getModuleAccount {accounts : AccountStore} {moduleName : String}
    (ready : sk.ModuleReady accounts moduleName) :
    ∃ acc accounts', sk.getModuleAccount accounts moduleName =
        .ok (some (sk.moduleAddress moduleName, acc), accounts') ∧
      acc.coins = accounts.getCoins (sk.moduleAddress moduleName) ∧
      Coins.isValid acc.coins = true := by
  obtain ⟨acc, accounts', hget, origin⟩ := sk.getModuleAccount_exists ready.registered
    fun acc stored => (ready.stored acc stored).1
  refine ⟨acc, accounts', hget, ?_⟩
  rcases origin with stored | ⟨absent, empty⟩
  · exact ⟨(getCoins_of_getAccount stored).symm, (ready.stored acc stored).2⟩
  · refine ⟨?_, by rw [empty]; rfl⟩
    unfold getCoins
    rw [absent, empty]

/-- Sending all the coins of a ready module account to another ready module: the sender's
account, which the lookup may create, holds the coins stored at its address; the transfer of
all of them succeeds and keeps the supply and every total. -/
theorem sendCoinsFromModuleToModule_all {L : Ledger} {senderModule recipientModule : String}
    (sender : sk.ModuleReady L.accounts senderModule)
    (recipient : sk.ModuleReady L.accounts recipientModule)
    (distinct : sk.moduleAddress senderModule ≠ sk.moduleAddress recipientModule)
    (blockTime : Int) :
    ∃ acc accounts₁ L', sk.getModuleAccount L.accounts senderModule =
        .ok (some (sk.moduleAddress senderModule, acc), accounts₁) ∧
      acc.coins = L.accounts.getCoins (sk.moduleAddress senderModule) ∧
      Coins.isValid acc.coins = true ∧
      sk.sendCoinsFromModuleToModule { L with accounts := accounts₁ } blockTime senderModule
        recipientModule acc.coins = .ok L' ∧
      L'.supply = L.supply ∧ ∀ denom, L'.accounts.total denom = L.accounts.total denom := by
  obtain ⟨acc, accounts₁, hget, coins, valid⟩ := sender.getModuleAccount
  obtain ⟨found₁, ⟨name, perms, module⟩, others₁⟩ := sk.getModuleAccount_found hget
  obtain ⟨totals₁, -, -⟩ := sk.getModuleAccount_spec hget
  -- the recipient's address is untouched by the sender's lookup, so it is still ready
  have recipient₁ : sk.ModuleReady accounts₁ recipientModule := by
    refine ⟨recipient.registered, fun racc stored => recipient.stored racc ?_⟩
    rwa [others₁ _ (Ne.symm distinct)] at stored
  obtain ⟨racc, accounts₂, hget₂, rcoins, rvalid⟩ := recipient₁.getModuleAccount
  obtain ⟨-, -, others₂⟩ := sk.getModuleAccount_found hget₂
  have found₂ : accounts₂.getAccount (sk.moduleAddress senderModule) = some acc := by
    rw [others₂ _ distinct]
    exact found₁
  have spendable : acc.spendableCoins blockTime = .ok acc.coins := by
    unfold Account.spendableCoins
    rw [module]
    rfl
  have held : Coins.isValid (accounts₂.getCoins (sk.moduleAddress recipientModule)) = true := by
    rw [getCoins_of_getAccount (sk.getModuleAccount_found hget₂).1]
    exact rvalid
  obtain ⟨accounts', hsend, -⟩ := Bank.sendCoins_of_add found₂ spendable
    (Coins.nil_add valid).symm rfl valid distinct held
  have senderAddr : sk.getModuleAddress senderModule = some (sk.moduleAddress senderModule) := by
    obtain ⟨senderPerms, hperms⟩ := Option.isSome_iff_exists.mp sender.registered
    simp [getModuleAddress, hperms]
  have sent : sk.sendCoinsFromModuleToModule { L with accounts := accounts₁ } blockTime senderModule
      recipientModule acc.coins = .ok { L with accounts := accounts' } := by
    unfold sendCoinsFromModuleToModule
    rw [senderAddr]
    refine Fallible.bind_eq_ok.mpr ⟨_, hget₂, ?_⟩
    exact Fallible.bind_eq_ok.mpr ⟨_, hsend, rfl⟩
  obtain ⟨-, totals', -⟩ := sk.sendCoinsFromModuleToModule_spec sent
  exact ⟨acc, accounts₁, _, hget, coins, valid, sent, rfl,
    fun denom => (totals' denom).trans (totals₁ denom)⟩

end SupplyKeeper

end Pocc
