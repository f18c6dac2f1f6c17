import Pocc.Staking.Chain

/-!
# Completing an unbonding delegation

`CompleteUnbonding` (x/staking/keeper/delegation.go) walks the entries of an unbonding
delegation with an index. A mature entry is removed (`RemoveEntry(i)`, then `i--`, so that the
next round reads the entry that moved into place `i`), and its balance, when not zero, is paid
from the not-bonded pool to the delegator; a failed payment returns its error at once. What is
left is stored, or the record removed when nothing is left.

`completeUnbondingLoop` is that loop as the source writes it; the keeper model
(`completeUnbondingEntries`) recurses on the entries instead. The two agree from every index
(`completeUnbondingLoop_eq`): the loop leaves the entries before its index as they are and
treats the others as the recursion does.

Results:
* `completeUnbondingEntries_kept`: a run without a failed payment keeps exactly the entries
  that are not mature, in their order;
* `completeUnbondingEntries_paid`: it moves the sum of the mature balances, in the bond
  denomination, from the pool to the delegator, and leaves the supply as it was;
* `completeUnbondingEntries_succeeds`: from a pool that can pay the mature balances
  (`PoolCanPay`: a registered module account that may undelegate, holding valid coins of valid
  denominations and enough of the bond denomination, paying a stored account that is not a
  vesting one), no payment fails;
* `complete_unbonding_pays_mature_entries`: `CompleteUnbonding` then stores what is kept, or
  removes the record when nothing is, succeeds when the pool can pay, and after a failed payment
  leaves the store as it was.
-/

namespace Pocc

namespace Staking

variable {τ : Type}

namespace Keeper

variable (k : Keeper τ) (ctx : Header)

/-- The loop of `CompleteUnbonding` as the source writes it, from index `i` of the entries. -/
def completeUnbondingLoop (delegator : AccAddress) (w : World τ) (i : Nat)
    (entries : List UnbondingDelegationEntry) :
    Except SdkError (World τ × List UnbondingDelegationEntry × Option SdkError) :=
  if h : i < entries.length then
    let entry := entries[i]
    if entry.isMature ctx.time then
      -- `ubd.RemoveEntry(int64(i))` and `i--`: the next round reads index `i` again
      let entries := entries.eraseIdx i
      if entry.balance = 0 then completeUnbondingLoop delegator w i entries
      else do
        let amt ← Coins.newCoins [← Coins.newCoin w.store.params.bondDenom entry.balance]
        match k.supplyKeeper.undelegateCoinsFromModuleToAccount w.ledger notBondedPoolName
            delegator amt with
        | .error (.panic msg) => throw (.panic msg)
        | .error err => pure (w, entries, some err)
        | .ok ledger => completeUnbondingLoop delegator (w.withLedger ledger) i entries
    else completeUnbondingLoop delegator w (i + 1) entries
  else pure (w, entries, none)
termination_by 2 * entries.length - i
decreasing_by all_goals simp_all [List.length_eraseIdx]; omega

/-- The sum of the balances of the mature entries: what `CompleteUnbonding` pays out. -/
def matureBalance (entries : List UnbondingDelegationEntry) : Int :=
  ((entries.filter fun entry => entry.isMature ctx.time).map (·.balance)).sum

/-! ## The index loop and the recursion -/

section Loop

variable {k : Keeper τ} {ctx : Header}

/-- Removing the entry at `i` leaves the entries before it, and brings the entries after it
to `i`. -/
theorem take_drop_eraseIdx {entries : List UnbondingDelegationEntry} {i : Nat}
    (inRange : i < entries.length) :
    (entries.eraseIdx i).take i = entries.take i ∧
      (entries.eraseIdx i).drop i = entries.drop (i + 1) := by
  have before : (entries.take i).length = i := by
    rw [List.length_take]
    omega
  rw [List.eraseIdx_eq_take_drop_succ]
  exact ⟨List.take_left' before, List.drop_left' before⟩

/-- From every index the loop leaves the entries before it as they are and does what the
recursion does with the others. The induction follows the loop: a removed entry brings the
next one to the same index, a kept one moves the index on. -/
theorem completeUnbondingLoop_eq (delegator : AccAddress) (w : World τ) (i : Nat)
    (entries : List UnbondingDelegationEntry) :
    k.completeUnbondingLoop ctx delegator w i entries =
      (k.completeUnbondingEntries ctx delegator w (entries.drop i)).map
        fun r => (r.1, entries.take i ++ r.2.1, r.2.2) := by
  fun_induction k.completeUnbondingLoop ctx delegator w i entries with
  | case1 w i entries inRange entry mature rest zero ih =>
    obtain ⟨before, after⟩ := take_drop_eraseIdx inRange
    rw [ih, before, after, List.drop_eq_getElem_cons inRange, completeUnbondingEntries]
    simp only [entry] at mature zero
    simp only [mature, zero, if_true]
  | case2 w i entries inRange entry mature rest nonzero ih =>
    obtain ⟨before, after⟩ := take_drop_eraseIdx inRange
    rw [List.drop_eq_getElem_cons inRange, completeUnbondingEntries]
    simp only [entry] at mature nonzero
    simp only [mature, nonzero, if_true, if_false]
    have split : rest = entries.take i ++ entries.drop (i + 1) :=
      List.eraseIdx_eq_take_drop_succ entries i
    -- both sides make the same coin and the same payment; they differ only in what follows it
    simp only [bind, Except.bind]
    cases Coins.newCoin w.store.params.bondDenom entries[i].balance with
    | error e => rfl
    | ok coin =>
      dsimp only
      cases Coins.newCoins [coin] with
      | error e => rfl
      | ok amt =>
        dsimp only
        cases k.supplyKeeper.undelegateCoinsFromModuleToAccount w.ledger notBondedPoolName
          delegator amt with
        | error err =>
          -- a panic goes up; an error stops the loop with the entry removed
          cases err with
          | error codespace code log => simp [split, Except.map, pure, Except.pure]
          | panic msg => rfl
        | ok ledger =>
          dsimp only
          rw [ih ledger, before, after]
  | case3 w i entries inRange entry notMature ih =>
    rw [ih, List.drop_eq_getElem_cons inRange, completeUnbondingEntries]
    simp only [entry] at notMature
    simp only [notMature, Bool.false_eq_true, if_false]
    -- the entry kept joins the entries before the index
    have kept : entries.take (i + 1) = entries.take i ++ [entries[i]] := by
      rw [List.take_add_one, List.getElem?_eq_getElem inRange, Option.toList_some]
    generalize k.completeUnbondingEntries ctx delegator w (entries.drop (i + 1)) = result
    cases result with
    | error e => rfl
    | ok r =>
      obtain ⟨w', keptAfter, err⟩ := r
      simp only [Except.map, bind, Except.bind, pure, Except.pure, kept, List.append_assoc,
        List.singleton_append]
  | case4 w i entries outOfRange =>
    rw [List.drop_eq_nil_of_le (by omega), List.take_of_length_le (by omega),
      completeUnbondingEntries]
    simp [pure, Except.pure, Except.map]

end Loop

/-! ## What a run pays and keeps -/

section Run

variable {k : Keeper τ} {ctx : Header} {w w' : World τ}

theorem matureBalance_nil : matureBalance ctx [] = 0 := rfl

theorem matureBalance_cons (entry : UnbondingDelegationEntry)
    (entries : List UnbondingDelegationEntry) :
    matureBalance ctx (entry :: entries) =
      (if entry.isMature ctx.time then entry.balance else 0) + matureBalance ctx entries := by
  unfold matureBalance
  by_cases mature : entry.isMature ctx.time = true <;> simp [mature]

/-- The coins of one payment: the balance, in the bond denomination. -/
theorem amt_payment {bondDenom : String} {balance : Int} {coin : Coin} {amt : Coins}
    (hcoin : Coins.newCoin bondDenom balance = .ok coin) (hamt : Coins.newCoins [coin] = .ok amt)
    (denom : String) : CoinSet.amt amt denom = if bondDenom = denom then balance else 0 := by
  obtain ⟨-, -, rfl⟩ := Coins.newCoin_eq_ok hcoin
  rw [Coins.amt_newCoins hamt, CoinSet.amt_cons, CoinSet.amt_nil, add_zero]

/-- A run without a failed payment keeps exactly the entries that are not mature, in their
order. -/
theorem completeUnbondingEntries_kept {delegator : AccAddress}
    {entries kept : List UnbondingDelegationEntry}
    (h : k.completeUnbondingEntries ctx delegator w entries = .ok (w', kept, none)) :
    kept = entries.filter fun entry => !entry.isMature ctx.time := by
  induction entries generalizing w kept with
  | nil =>
    unfold completeUnbondingEntries at h
    simp only [Fallible.pure_eq_ok, Prod.mk.injEq] at h
    rw [← h.2.1, List.filter_nil]
  | cons entry entries ih =>
    rcases completeUnbondingEntries_cons_eq_ok h with
      ⟨mature, -, hrest⟩ | ⟨mature, -, coin, amt, -, -, ⟨e, -, stopped⟩ | ⟨ledger, -, hrest⟩⟩ |
        ⟨notMature, w₁, kept₁, err₁, hrest, result⟩
    · rw [List.filter_cons_of_neg (by simp [mature]), ih hrest]
    · -- a failed payment is reported, so it did not happen here
      simp at stopped
    · rw [List.filter_cons_of_neg (by simp [mature]), ih hrest]
    · simp only [Prod.mk.injEq] at result
      obtain ⟨rfl, rfl, rfl⟩ := result
      rw [List.filter_cons_of_pos (by simp [notMature]), ih hrest]

/-- A run without a failed payment moves the mature balances, in the bond denomination, from
the not-bonded pool to the delegator (when the delegator is not the pool itself), and leaves
the supply as it was. The induction is on the entries; each payment is one
`UndelegateCoinsFromModuleToAccount` of one entry's balance. -/
theorem completeUnbondingEntries_paid {delegator : AccAddress}
    {entries kept : List UnbondingDelegationEntry}
    (h : k.completeUnbondingEntries ctx delegator w entries = .ok (w', kept, none)) :
    w'.ledger.supply = w.ledger.supply ∧
      (k.supplyKeeper.moduleAddress notBondedPoolName ≠ delegator → ∀ denom,
        CoinSet.amt (w'.ledger.accounts.getCoins (k.supplyKeeper.moduleAddress notBondedPoolName))
            denom =
          CoinSet.amt (w.ledger.accounts.getCoins (k.supplyKeeper.moduleAddress notBondedPoolName))
              denom -
            (if w.store.params.bondDenom = denom then matureBalance ctx entries else 0) ∧
        CoinSet.amt (w'.ledger.accounts.getCoins delegator) denom =
          CoinSet.amt (w.ledger.accounts.getCoins delegator) denom +
            (if w.store.params.bondDenom = denom then matureBalance ctx entries else 0)) := by
  induction entries generalizing w kept with
  | nil =>
    unfold completeUnbondingEntries at h
    simp only [Fallible.pure_eq_ok, Prod.mk.injEq] at h
    obtain ⟨rfl, -, -⟩ := h
    simp [matureBalance_nil]
  | cons entry entries ih =>
    rcases completeUnbondingEntries_cons_eq_ok h with
      ⟨mature, zero, hrest⟩ | ⟨mature, -, coin, amt, hcoin, hamt, ⟨e, -, stopped⟩ |
        ⟨ledger, paid, hrest⟩⟩ | ⟨notMature, w₁, kept₁, err₁, hrest, result⟩
    · obtain ⟨supply, moved⟩ := ih hrest
      refine ⟨supply, fun distinct denom => ?_⟩
      rw [matureBalance_cons, mature, zero, if_pos rfl, zero_add]
      exact moved distinct denom
    · simp at stopped
    · -- the payment, then the rest of the run from the world it leaves
      obtain ⟨supply, moved⟩ := ih hrest
      have paidSpec := k.supplyKeeper.undelegateCoinsFromModuleToAccount_spec paid
      refine ⟨supply.trans paidSpec.1, fun distinct denom => ?_⟩
      obtain ⟨fromPool, toDelegator⟩ :=
        k.supplyKeeper.getCoins_undelegateCoinsFromModuleToAccount paid distinct denom
      obtain ⟨restFromPool, restToDelegator⟩ := moved distinct denom
      have payment := amt_payment hcoin hamt denom
      change CoinSet.amt (ledger.accounts.getCoins _) denom = _ at fromPool
      simp only [World.withLedger] at restFromPool restToDelegator
      rw [matureBalance_cons, mature, if_pos rfl]
      rw [restFromPool, restToDelegator, fromPool, toDelegator, payment]
      by_cases same : w.store.params.bondDenom = denom
      · simp only [same, if_true]
        omega
      · simp only [same, if_false]
        omega
    · simp only [Prod.mk.injEq] at result
      obtain ⟨rfl, rfl, rfl⟩ := result
      obtain ⟨supply, moved⟩ := ih hrest
      refine ⟨supply, fun distinct denom => ?_⟩
      rw [matureBalance_cons, notMature]
      simpa using moved distinct denom

end Run

/-! ## A pool that can pay -/

/-- What lets the not-bonded pool pay `due` tokens of the bond denomination to `delegator`: the
pool is a registered module whose stored account may undelegate and holds valid coins of valid
denominations, at least `due` of the bond denomination; the delegator has a stored account, not
a vesting one, at another address; and the bond denomination is valid. -/
structure PoolCanPay (k : Keeper τ) (accounts : AccountStore) (delegator : AccAddress)
    (bondDenom : String) (due : Int) : Prop where
  registered : (k.supplyKeeper.permAddrs.lookup notBondedPoolName).isSome
  pool : ∃ coins name perms,
    accounts.getAccount (k.supplyKeeper.moduleAddress notBondedPoolName) =
      some ⟨coins, .module name perms⟩ ∧
    perms.contains staking = true ∧ Coins.isValid coins = true ∧
    (∀ c ∈ coins, validateDenom c.denom = true) ∧ due ≤ CoinSet.amt coins bondDenom
  account : ∃ acc, accounts.getAccount delegator = some acc ∧ ∀ v, acc.kind ≠ .vesting v
  distinct : k.supplyKeeper.moduleAddress notBondedPoolName ≠ delegator
  validBondDenom : validateDenom bondDenom = true

section Pay

variable {k : Keeper τ} {ctx : Header} {w : World τ} {delegator : AccAddress} {bondDenom : String}

theorem PoolCanPay.mono {accounts : AccountStore} {due due' : Int}
    (canPay : k.PoolCanPay accounts delegator bondDenom due) (le : due' ≤ due) :
    k.PoolCanPay accounts delegator bondDenom due' := by
  obtain ⟨coins, name, perms, found, permitted, valid, denoms, funded⟩ := canPay.pool
  exact ⟨canPay.registered, ⟨coins, name, perms, found, permitted, valid, denoms, le.trans funded⟩,
    canPay.account, canPay.distinct, canPay.validBondDenom⟩

/-- One payment of `b` tokens, up to what is due: it succeeds, and the pool can still pay the
rest. -/
theorem PoolCanPay.pay {L : Ledger} {due b : Int}
    (canPay : k.PoolCanPay L.accounts delegator bondDenom due) (pos : 0 < b) (le : b ≤ due) :
    ∃ L', k.supplyKeeper.undelegateCoinsFromModuleToAccount L notBondedPoolName delegator
        [⟨bondDenom, b⟩] = .ok L' ∧ k.PoolCanPay L'.accounts delegator bondDenom (due - b) := by
  obtain ⟨coins, name, perms, found, permitted, valid, denoms, funded⟩ := canPay.pool
  obtain ⟨acc, hacc, notVesting⟩ := canPay.account
  have validAmt := Coins.isValid_singleton canPay.validBondDenom pos
  have below : ∀ denom, CoinSet.amt [(⟨bondDenom, b⟩ : Coin)] denom ≤ CoinSet.amt coins denom := by
    intro denom
    have held := Coins.amt_nonneg_of_isValid valid denom
    rw [CoinSet.amt_cons, CoinSet.amt_nil, add_zero]
    dsimp only
    split
    · next same =>
      rw [← same]
      omega
    · exact held
  obtain ⟨noNeg, validRest, denomsRest⟩ := Coins.isValid_safeSub valid validAmt denoms
    (by simpa using canPay.validBondDenom) below
  have paid := Bank.undelegateCoins_of_le hacc found notVesting validAmt noNeg validRest
  refine ⟨_, k.supplyKeeper.undelegateCoinsFromModuleToAccount_of_undelegateCoins
    canPay.registered found rfl permitted paid, canPay.registered, ?_, ?_, canPay.distinct,
    canPay.validBondDenom⟩
  · -- the pool keeps its kind and is left the difference
    refine ⟨_, name, perms, ?_, permitted, validRest, denomsRest, ?_⟩
    · rw [AccountStore.getAccount_setAccount, if_neg (Ne.symm canPay.distinct),
        AccountStore.getAccount_setAccount, if_pos rfl]
    · unfold Coins.safeSub
      rw [CoinSet.amt_safeSub, CoinSet.amt_cons, if_pos rfl, CoinSet.amt_nil, add_zero]
      dsimp only
      omega
  · -- the delegator's account, as read before the pool's write, with the payment added
    refine ⟨{ acc with coins := Coins.add acc.coins [⟨bondDenom, b⟩] }, ?_, notVesting⟩
    rw [AccountStore.getAccount_setAccount, if_pos rfl]

theorem matureBalance_nonneg {entries : List UnbondingDelegationEntry}
    (nonneg : ∀ entry ∈ entries, 0 ≤ entry.balance) : 0 ≤ matureBalance ctx entries := by
  refine List.sum_nonneg fun b member => ?_
  obtain ⟨entry, kept, rfl⟩ := List.mem_map.mp member
  exact nonneg entry (List.mem_of_mem_filter kept)

/-- The coins of a payment of a positive balance in a valid denomination: that one coin. -/
theorem newCoins_payment {balance : Int} (valid : validateDenom bondDenom = true)
    (pos : 0 < balance) :
    Coins.newCoin bondDenom balance = .ok ⟨bondDenom, balance⟩ ∧
      Coins.newCoins [⟨bondDenom, balance⟩] = .ok [⟨bondDenom, balance⟩] := by
  refine ⟨?_, ?_⟩
  · unfold Coins.newCoin
    rw [if_neg (by simp [valid]), if_neg (not_lt.mpr pos.le)]
    rfl
  · rw [Coins.newCoins_singleton valid pos.le, CoinSet.nonZero, if_neg pos.ne']

/-- A run over entries of non-negative balances, from a pool that can pay their mature balances,
pays every one of them and ends without a failed payment. The induction is on the entries; what
the pool can still pay covers what the entries left are due. -/
theorem completeUnbondingEntries_succeeds {entries : List UnbondingDelegationEntry}
    (nonneg : ∀ entry ∈ entries, 0 ≤ entry.balance)
    (canPay : k.PoolCanPay w.ledger.accounts delegator w.store.params.bondDenom
      (matureBalance ctx entries)) :
    ∃ w' kept, k.completeUnbondingEntries ctx delegator w entries = .ok (w', kept, none) := by
  induction entries generalizing w with
  | nil => exact ⟨w, [], rfl⟩
  | cons entry entries ih =>
    have restNonneg : ∀ e ∈ entries, 0 ≤ e.balance := fun e member =>
      nonneg e (List.mem_cons_of_mem entry member)
    have restDue : 0 ≤ matureBalance ctx entries := matureBalance_nonneg restNonneg
    by_cases mature : entry.isMature ctx.time = true
    · have due : matureBalance ctx (entry :: entries) = entry.balance + matureBalance ctx entries := by
        rw [matureBalance_cons, if_pos mature]
      by_cases zero : entry.balance = 0
      · obtain ⟨w', kept, run⟩ := ih restNonneg (canPay.mono (by omega))
        refine ⟨w', kept, ?_⟩
        rw [completeUnbondingEntries, if_pos mature, if_pos zero]
        exact run
      · -- the payment of this entry, then the rest from the ledger it leaves
        have pos : 0 < entry.balance :=
          lt_of_le_of_ne (nonneg entry List.mem_cons_self) (Ne.symm zero)
        obtain ⟨L', paid, canPay'⟩ := canPay.pay pos (by omega)
        obtain ⟨w', kept, run⟩ := ih (w := w.withLedger L') restNonneg (canPay'.mono (by omega))
        refine ⟨w', kept, ?_⟩
        rw [completeUnbondingEntries, if_pos mature, if_neg zero]
        obtain ⟨coin, single⟩ := newCoins_payment canPay.validBondDenom pos
        refine Fallible.bind_eq_ok.mpr ⟨_, coin, Fallible.bind_eq_ok.mpr ⟨_, single, ?_⟩⟩
        rw [paid]
        exact run
    · have due : matureBalance ctx (entry :: entries) = matureBalance ctx entries := by
        rw [matureBalance_cons, if_neg mature, zero_add]
      obtain ⟨w', kept, run⟩ := ih restNonneg (due ▸ canPay)
      refine ⟨w', entry :: kept, ?_⟩
      rw [completeUnbondingEntries, if_neg mature]
      exact Fallible.bind_eq_ok.mpr ⟨_, run, rfl⟩

end Pay

/-! ## `CompleteUnbonding` -/

section Complete

variable {k : Keeper τ} {ctx : Header} {w w' : World τ}

/-- `CompleteUnbonding` without an error: the loop ran without a failed payment, and what it
kept is stored, or the record removed when it kept nothing. -/
theorem completeUnbonding_eq_ok_none {delAddr : AccAddress} {valAddr : ValAddress}
    {ubd : UnbondingDelegation} (found : w.store.getUnbondingDelegation delAddr valAddr = some ubd)
    (h : k.completeUnbonding ctx w delAddr valAddr = .ok (w', none)) :
    ∃ w₁ entries,
      k.completeUnbondingEntries ctx ubd.delegatorAddress w ubd.entries = .ok (w₁, entries, none) ∧
        w' = w₁.withStore (if entries = []
          then w₁.store.removeUnbondingDelegation { ubd with entries := entries }
          else w₁.store.setUnbondingDelegation { ubd with entries := entries }) := by
  unfold completeUnbonding at h
  rw [found] at h
  obtain ⟨⟨w₁, entries, err⟩, hloop, h⟩ := Fallible.bind_eq_ok.mp h
  cases err with
  | some e => simp at h
  | none =>
    refine ⟨w₁, entries, hloop, ?_⟩
    dsimp only at h
    split at h
    · next empty =>
      rw [if_pos empty]
      exact (Prod.mk.inj (Fallible.pure_eq_ok.mp h)).1.symm
    · next nonempty =>
      rw [if_neg nonempty]
      exact (Prod.mk.inj (Fallible.pure_eq_ok.mp h)).1.symm

/-- `CompleteUnbonding` that reports an error leaves the store as it was: a missing record, or
a failed payment, after which nothing is written. -/
theorem completeUnbonding_eq_ok_some {delAddr : AccAddress} {valAddr : ValAddress}
    {err : SdkError} (h : k.completeUnbonding ctx w delAddr valAddr = .ok (w', some err)) :
    w'.store = w.store := by
  unfold completeUnbonding at h
  split at h
  · obtain ⟨rfl, -⟩ := Prod.mk.inj (Fallible.pure_eq_ok.mp h)
    rfl
  · obtain ⟨⟨w₁, entries, err₁⟩, hloop, h⟩ := Fallible.bind_eq_ok.mp h
    cases err₁ with
    | some e =>
      obtain ⟨rfl, -⟩ := Prod.mk.inj (Fallible.pure_eq_ok.mp h)
      exact completeUnbondingEntries_store hloop
    | none =>
      dsimp only at h
      split at h <;> simp at h

/-- `CompleteUnbonding` of a stored record whose entries have non-negative balances, from a pool
that can pay their mature balances, ends without an error. -/
theorem completeUnbonding_succeeds {delAddr : AccAddress} {valAddr : ValAddress}
    {ubd : UnbondingDelegation} (found : w.store.getUnbondingDelegation delAddr valAddr = some ubd)
    (nonneg : ∀ entry ∈ ubd.entries, 0 ≤ entry.balance)
    (canPay : k.PoolCanPay w.ledger.accounts ubd.delegatorAddress w.store.params.bondDenom
      (matureBalance ctx ubd.entries)) :
    ∃ w', k.completeUnbonding ctx w delAddr valAddr = .ok (w', none) := by
  obtain ⟨w₁, kept, run⟩ := completeUnbondingEntries_succeeds nonneg canPay
  unfold completeUnbonding
  rw [found]
  -- the record is then removed or stored, as the loop left it
  by_cases empty : kept = []
  · refine ⟨w₁.withStore (w₁.store.removeUnbondingDelegation { ubd with entries := kept }), ?_⟩
    refine Fallible.bind_eq_ok.mpr ⟨_, run, ?_⟩
    dsimp only
    rw [if_pos empty]
    rfl
  · refine ⟨w₁.withStore (w₁.store.setUnbondingDelegation { ubd with entries := kept }), ?_⟩
    refine Fallible.bind_eq_ok.mpr ⟨_, run, ?_⟩
    dsimp only
    rw [if_neg empty]
    rfl

end Complete

/-- `CompleteUnbonding` of a stored unbonding delegation: the source's index loop computes what
the recursion does; without an error it keeps exactly the entries that are not mature, in their
order, stores them or removes the record when none is left, and pays the delegator from the
not-bonded pool the sum of the mature balances in the bond denomination, with the supply
unchanged; after a failed payment the store is as it was. -/
theorem complete_unbonding_pays_mature_entries (w : World τ) (delAddr : AccAddress)
    (valAddr : ValAddress) (ubd : UnbondingDelegation)
    (found : w.store.getUnbondingDelegation delAddr valAddr = some ubd) :
    k.completeUnbondingLoop ctx ubd.delegatorAddress w 0 ubd.entries =
        k.completeUnbondingEntries ctx ubd.delegatorAddress w ubd.entries ∧
      (∀ w', k.completeUnbonding ctx w delAddr valAddr = .ok (w', none) →
        w'.store = (if ubd.entries.filter (fun entry => !entry.isMature ctx.time) = []
          then w.store.removeUnbondingDelegation
            { ubd with entries := ubd.entries.filter fun entry => !entry.isMature ctx.time }
          else w.store.setUnbondingDelegation
            { ubd with entries := ubd.entries.filter fun entry => !entry.isMature ctx.time }) ∧
        w'.ledger.supply = w.ledger.supply ∧
        (k.supplyKeeper.moduleAddress notBondedPoolName ≠ ubd.delegatorAddress → ∀ denom,
          CoinSet.amt (w'.ledger.accounts.getCoins (k.supplyKeeper.moduleAddress notBondedPoolName))
              denom =
            CoinSet.amt
                (w.ledger.accounts.getCoins (k.supplyKeeper.moduleAddress notBondedPoolName)) denom -
              (if w.store.params.bondDenom = denom then matureBalance ctx ubd.entries else 0) ∧
          CoinSet.amt (w'.ledger.accounts.getCoins ubd.delegatorAddress) denom =
            CoinSet.amt (w.ledger.accounts.getCoins ubd.delegatorAddress) denom +
              (if w.store.params.bondDenom = denom then matureBalance ctx ubd.entries else 0))) ∧
      ((∀ entry ∈ ubd.entries, 0 ≤ entry.balance) →
        k.PoolCanPay w.ledger.accounts ubd.delegatorAddress w.store.params.bondDenom
          (matureBalance ctx ubd.entries) →
        ∃ w', k.completeUnbonding ctx w delAddr valAddr = .ok (w', none)) ∧
      ∀ w' err, k.completeUnbonding ctx w delAddr valAddr = .ok (w', some err) →
        w'.store = w.store := by
  refine ⟨?_, fun w' h => ?_, fun nonneg canPay => completeUnbonding_succeeds found nonneg canPay,
    fun w' err h => completeUnbonding_eq_ok_some h⟩
  · -- from index zero the loop keeps no entry before its index
    rw [completeUnbondingLoop_eq, List.drop_zero, List.take_zero]
    generalize k.completeUnbondingEntries ctx ubd.delegatorAddress w ubd.entries = result
    cases result with
    | error e => rfl
    | ok r => simp [Except.map]
  · obtain ⟨w₁, entries, hloop, rfl⟩ := completeUnbonding_eq_ok_none found h
    have store := completeUnbondingEntries_store hloop
    obtain ⟨supply, moved⟩ := completeUnbondingEntries_paid hloop
    rw [← completeUnbondingEntries_kept hloop]
    exact ⟨by rw [World.withStore, store], supply, moved⟩

open RemovedDestination in
/-- At the end of the trace of `RemovedDestination`, `[20]` has undelegated its own shares into
one entry of 10^18 tokens, mature at 63676800, and the not-bonded pool holds them: completing the
record at that time pays the entry out of the pool and removes the record. -/
theorem complete_unbonding_after_undelegation :
    ∃ w, Reachable (Keeper.withoutHooks pools) w ∧ ∃ w',
      (Keeper.withoutHooks pools).completeUnbonding ⟨11, 63676800⟩ w [20] [20] = .ok (w', none) ∧
      w'.store = w.store.removeUnbondingDelegation ⟨[20], [20], []⟩ ∧
      CoinSet.amt (w'.ledger.accounts.getCoins [2]) nativeToken + 1000000000000000000 =
        CoinSet.amt (w.ledger.accounts.getCoins [2]) nativeToken := by
  -- the model runs the six events in the kernel
  have run : ((Keeper.withoutHooks pools).applyEvents genesis trace).toOption.any
      (fun w => decide (w.store.getUnbondingDelegation [20] [20] =
          some ⟨[20], [20], [⟨10, 63676800, 1000000000000000000, 1000000000000000000⟩]⟩) &&
        decide (w.ledger.accounts.getAccount (pools.moduleAddress notBondedPoolName) =
          some ⟨[⟨nativeToken, 2000000000000000000⟩], .module notBondedPoolName [burner, staking]⟩) &&
        decide (w.ledger.accounts.getAccount [20] = some ⟨[], .base⟩) &&
        decide (w.store.params.bondDenom = nativeToken)) = true := by
    decide +kernel
  obtain ⟨w, hrun, facts⟩ := (Option.any_eq_true _ _).mp run
  simp only [Bool.and_eq_true, decide_eq_true_eq] at facts
  obtain ⟨⟨⟨found, pool⟩, account⟩, bondDenom⟩ := facts
  have canPay : (Keeper.withoutHooks pools).PoolCanPay w.ledger.accounts [20]
      w.store.params.bondDenom
      (matureBalance ⟨11, 63676800⟩ [⟨10, 63676800, 1000000000000000000, 1000000000000000000⟩]) := by
    rw [bondDenom]
    exact ⟨by decide, ⟨_, _, _, pool, by decide, by decide +kernel, by decide +kernel,
      by decide +kernel⟩, ⟨_, account, by simp⟩, by decide, by decide +kernel⟩
  obtain ⟨-, paid, succeeds, -⟩ := complete_unbonding_pays_mature_entries
    (Keeper.withoutHooks pools) ⟨11, 63676800⟩ w [20] [20] _ found
  obtain ⟨w', ok⟩ := succeeds (by decide) canPay
  obtain ⟨store, -, moved⟩ := paid w' ok
  obtain ⟨fromPool, -⟩ := moved (by decide) nativeToken
  refine ⟨w, (Reachable.genesis _ _ _).applyEvents (Fallible.toOption_eq_some.mp hrun), w', ok,
    ?_, ?_⟩
  · -- the one entry is mature, so nothing is kept
    rw [store, if_pos (by decide)]
    rfl
  · have due : matureBalance ⟨11, 63676800⟩
        [⟨10, 63676800, 1000000000000000000, 1000000000000000000⟩] = 1000000000000000000 := by
      decide
    have address : (Keeper.withoutHooks pools).supplyKeeper.moduleAddress notBondedPoolName = [2] :=
      rfl
    rw [bondDenom, if_pos rfl, due, address] at fromPool
    omega

end Keeper

end Staking

end Pocc
