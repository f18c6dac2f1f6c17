import Pocc.Supply.Keeper
import Pocc.Baseapp.RunTx
import Pocc.Types.CoinAlgebra
import Mathlib

/-!
# The ante handler and DeliverTx on the accounts

x/auth/ante.go and x/auth/types/stdtx.go: `NewAnteHandler` as DeliverTx runs it (not a
CheckTx, not a simulation). The ante handler checks a transaction's signature count, its basic
form, its size and its memo, deducts the fee from the first signer through the supply keeper,
and then, signer by signer, checks the signature over the sign bytes, sets the account's public
key if it had none, and advances its sequence.

The account store of `Pocc.Auth.Account` keeps the coins and the kind of an account. The two
fields that only the ante handler reads and writes, the sequence and the public key, are kept
here in a second map by address (`AuthStore`); an address with no entry reads as sequence zero
and no key, as `NewAccountWithAddress` makes an account. An account number is fixed when the
account is created and never changes, so it is read from the context (`AnteCtx.accountNumber`).

Code outside the repository is a parameter (`AnteEnv`): each message's `GetSigners` and
`GetSignBytes`, and a public key's address and `VerifyBytes`; DeliverTx reads each message's
`ValidateBasic` through the codec of `runTx`. The sign bytes are the `StdSignDoc` itself: its
sorted JSON encoding determines it and is determined by it. The signature gas consumer is a
parameter of `NewAnteHandler` in the source too; the app's, `DefaultSigVerificationGasConsumer`,
is modelled with amino decoding as a parameter.

DeliverTx (`deliverTx`) is `runTx` of `Pocc.Baseapp.RunTx` in DeliverTx mode, read on these
accounts: the ante handler's writes are kept only if it passes, the messages' only if they
pass. What the messages do is a parameter of each delivery: a function of the ledger, since no
message handler writes a sequence or a key (they write accounts through the bank keeper, which
reads an account, sets its coins and writes it back).

Not modelled: the gas the account store charges for its reads and writes (one more way to run
out of gas, which fails the ante handler as any other way does), and transactions that are not
a `StdTx`.

Results:
* `anteHandler_spec`: a passing ante handler advances the sequence of each signer by one and
  no other, takes exactly the fee from the fee payer, and only when the payer's spendable coins
  cover it, and has checked each signer's signature over the sign bytes of its sequence;
* `deliverTx_sequence`, `deliverAll_sequence`: along a run, an account's sequence moves only
  when an ante handler it signs for passes;
* `signedDocs_sequence`, `signedDocs_nodup`: the sign bytes a signer's signatures were checked
  over along a run carry consecutive sequences, so no two are the same within `2 ^ 64` of them;
* `replay_protection` gathers these; `sequence_wraps_to_zero`: the sequence is a `uint64`, and
  from `2 ^ 64 - 1` it goes to zero.
-/

namespace Pocc

namespace Coins

/-- `Coins.IsZero`: every amount is zero. -/
def isZero (coins : Coins) : Bool :=
  coins.all fun c => decide (c.amount = 0)

theorem amt_of_isZero {coins : Coins} (zero : isZero coins = true) (denom : String) :
    CoinSet.amt coins denom = 0 := by
  induction coins with
  | nil => rfl
  | cons c rest ih =>
    simp only [isZero, List.all_cons, Bool.and_eq_true, decide_eq_true_eq] at zero
    rw [CoinSet.amt_cons, ih zero.2, zero.1]
    simp

end Coins

namespace Auth

/-- `FeeCollectorName`. -/
def feeCollectorName : String := "fee_collector"

/-- `Params` of x/auth. -/
structure Params where
  maxMemoCharacters : Nat
  txSigLimit : Nat
  txSizeCostPerByte : Nat
  sigVerifyCostED25519 : Nat
  sigVerifyCostSecp256k1 : Nat
  deriving DecidableEq, Repr

/-- `DefaultParams`. -/
def defaultParams : Params := ⟨256, 7, 10, 590, 1000⟩

/-- A public key of tendermint's crypto package, by its type: ed25519, secp256k1, a multisig
threshold key over a list of keys, or a key of any other type. -/
inductive PubKey where
  | ed25519 (bytes : Bytes)
  | secp256k1 (bytes : Bytes)
  | multisigThreshold (k : Nat) (pubKeys : List PubKey)
  | other (bytes : Bytes)
  deriving Repr

mutual

/-- `CountSubKeys`: the keys of a multisig key, counted through nested multisig keys. -/
def countSubKeys : PubKey → Nat
  | .multisigThreshold _ pubKeys => countSubKeysList pubKeys
  | _ => 1

/-- The loop of `CountSubKeys` over the keys of a multisig key. -/
def countSubKeysList : List PubKey → Nat
  | [] => 0
  | pubKey :: pubKeys => countSubKeys pubKey + countSubKeysList pubKeys

end

/-- `StdFee`. -/
structure StdFee where
  amount : Coins
  gas : Nat
  deriving DecidableEq, Repr

/-- `StdSignature`: the key is optional, the account's stored key is used when it has one. -/
structure StdSignature where
  pubKey : Option PubKey
  signature : Bytes
  deriving Repr

/-- `StdTx`, over the app's messages. -/
structure StdTx (Msg : Type) where
  msgs : List Msg
  fee : StdFee
  signatures : List StdSignature
  memo : String

/-- `StdSignDoc`: what a signer signs, with the messages as their own sign bytes. -/
structure StdSignDoc where
  accountNumber : UInt64
  chainID : String
  fee : StdFee
  memo : String
  msgs : List Bytes
  sequence : UInt64
  deriving DecidableEq, Repr

/-- `multisig.Multisignature`: which keys signed, and their signatures in order. -/
structure Multisignature where
  bitArray : List Bool
  sigs : List Bytes

/-- What the ante handler and DeliverTx call outside this repository: the messages' own
methods, and a public key's address and signature check. -/
structure AnteEnv (Msg : Type) where
  getSigners : Msg → List AccAddress
  getSignBytes : Msg → Bytes
  address : PubKey → AccAddress
  verifyBytes : PubKey → StdSignDoc → Bytes → Bool

/-- `maxGasWanted`. -/
def maxGasWanted : Nat := 2 ^ 63 - 1

/-- The fields of an account that only the ante handler reads and writes. -/
structure AuthFields where
  sequence : UInt64
  pubKey : Option PubKey
  deriving Repr

/-- The auth fields of the accounts, by address. -/
abbrev AuthStore := SortedMap AccAddress AuthFields

namespace AuthStore

/-- The auth fields at `addr`: those of a new account if none are stored. -/
def fields (auth : AuthStore) (addr : AccAddress) : AuthFields :=
  (auth.find? addr).getD ⟨0, none⟩

/-- `GetSequence`. -/
def getSequence (auth : AuthStore) (addr : AccAddress) : UInt64 :=
  (auth.fields addr).sequence

end AuthStore

/-- The accounts as DeliverTx reads and writes them: the supply keeper's ledger, and the auth
fields. -/
structure AuthState where
  ledger : Ledger
  auth : AuthStore

/-- What the ante handler reads of its context: the chain, the block, the transaction's bytes,
the parameters of x/auth, and the number of each account. -/
structure AnteCtx where
  chainID : String
  blockHeight : Int
  blockTime : Int
  txBytes : Bytes
  params : Params
  accountNumber : AccAddress → UInt64

/-! ## Checks on the transaction -/

variable {Msg : Type} (env : AnteEnv Msg)

/-- `StdTx.GetSigners`: the signers of the messages in order, each once. -/
def getSigners (tx : StdTx Msg) : List AccAddress :=
  (tx.msgs.flatMap env.getSigners).foldl
    (fun signers addr => if addr ∈ signers then signers else signers ++ [addr]) []

/-- `StdTx.ValidateBasic`. -/
def validateBasic (tx : StdTx Msg) : Except SdkError Unit :=
  if tx.fee.gas > maxGasWanted then
    throw (.gasOverflow s!"invalid gas supplied; {tx.fee.gas} > {maxGasWanted}")
  else if Coins.isAnyNegative tx.fee.amount then
    throw (.insufficientFee s!"invalid fee {Coins.string tx.fee.amount} amount provided")
  else if tx.signatures.isEmpty then throw (.noSignatures "no signers")
  else if tx.signatures.length ≠ (getSigners env tx).length then
    throw (.unauthorized "wrong number of signers")
  else pure ()

/-- `ValidateSigCount`: the running count of keys, a missing key counting one, stays within
the limit. -/
def validateSigCount (params : Params) (sigs : List StdSignature) : Except SdkError Unit :=
  go 0 sigs
where
  /-- The loop, with the count so far. -/
  go (sigCount : Nat) : List StdSignature → Except SdkError Unit
    | [] => pure ()
    | sig :: sigs =>
      let sigCount := sigCount + (sig.pubKey.map countSubKeys).getD 1
      if sigCount > params.txSigLimit then
        throw (.tooManySignatures s!"signatures: {sigCount}, limit: {params.txSigLimit}")
      else go sigCount sigs

/-- `ValidateMemo`: the memo's length in bytes. -/
def validateMemo (params : Params) (tx : StdTx Msg) : Except SdkError Unit :=
  let memoLength := tx.memo.utf8ByteSize
  if memoLength > params.maxMemoCharacters then
    throw (.memoTooLarge
      (s!"maximum number of characters is {params.maxMemoCharacters} " ++
        s!"but received {memoLength} characters"))
  else pure ()

/-! ## Gas -/

/-- `SetGasMeter` outside simulation: no limit at genesis, the fee's gas otherwise. -/
def setGasMeter (blockHeight : Int) (gasLimit : Nat) : GasMeter :=
  if blockHeight = 0 then .newInfiniteGasMeter else .newGasMeter gasLimit

/-- The deferred recover of the ante handler: running out of gas is an `ErrOutOfGas` result;
any other panic goes on to `runTx`. -/
def recoverOutOfGas (gasWanted : Nat) (meter : GasMeter) : Panic → SdkError
  | .outOfGas descriptor =>
    .outOfGas (s!"out of gas in location: {descriptor}; " ++
      s!"gasWanted: {gasWanted}, gasUsed: {meter.gasConsumed}")
  | .gasOverflow descriptor => .panic descriptor
  | .other msg => .panic msg

/-- `ConsumeGas` on the ante handler's meter. -/
def chargeGas (gasWanted : Nat) (meter : GasMeter) (amount : Nat) (descriptor : String) :
    Except SdkError GasMeter :=
  match meter.consumeGas amount descriptor with
  | (meter, none) => pure meter
  | (meter, some p) => throw (recoverOutOfGas gasWanted meter p)

/-- `SignatureVerificationGasConsumer`: the meter after its charges, and the panic it raised or
the error of its result (`none` for an OK result). -/
abbrev SigGasConsumer :=
  GasMeter → Bytes → PubKey → Params → GasMeter × Except Panic (Option SdkError)

section DefaultConsumer

variable (decodeMultisignature : Bytes → Option Multisignature)

mutual

/-- `DefaultSigVerificationGasConsumer`: a charge by the key's type; ed25519 and unknown types
are refused, and a multisig key charges for each key that signed. `MustUnmarshalBinaryBare`
panics on a signature that does not decode. -/
def defaultSigVerificationGasConsumer (meter : GasMeter) (sig : Bytes) (pubkey : PubKey)
    (params : Params) : GasMeter × Except Panic (Option SdkError) :=
  match pubkey with
  | .ed25519 _ =>
    match meter.consumeGas params.sigVerifyCostED25519 "ante verify: ed25519" with
    | (meter, some p) => (meter, .error p)
    | (meter, none) => (meter, .ok (some (.invalidPubKey "ED25519 public keys are unsupported")))
  | .secp256k1 _ =>
    match meter.consumeGas params.sigVerifyCostSecp256k1 "ante verify: secp256k1" with
    | (meter, some p) => (meter, .error p)
    | (meter, none) => (meter, .ok none)
  | .multisigThreshold _ pubKeys =>
    match decodeMultisignature sig with
    | none => (meter, .error (.other "MustUnmarshalBinaryBare"))
    | some multisignature =>
      match consumeMultisignatureVerificationGas meter multisignature.bitArray
          multisignature.sigs pubKeys params with
      | (meter, .error p) => (meter, .error p)
      | (meter, .ok ()) => (meter, .ok none)
  | .other _ => (meter, .ok (some (.invalidPubKey "unrecognized public key type")))

/-- `consumeMultisignatureVerificationGas`: the loop over the bit array, charging for the key
of each set bit with the next signature; what each charge returns is dropped. Indexing past
the keys or the signatures panics. -/
def consumeMultisignatureVerificationGas (meter : GasMeter) :
    List Bool → List Bytes → List PubKey → Params → GasMeter × Except Panic Unit
  | [], _, _, _ => (meter, .ok ())
  | false :: bits, sigs, _ :: pubKeys, params =>
    consumeMultisignatureVerificationGas meter bits sigs pubKeys params
  | true :: bits, sig :: sigs, pubKey :: pubKeys, params =>
    match defaultSigVerificationGasConsumer meter sig pubKey params with
    | (meter, .error p) => (meter, .error p)
    | (meter, .ok _) => consumeMultisignatureVerificationGas meter bits sigs pubKeys params
  | bits, _, [], _ =>
    if bits.any id then (meter, .error (.other "index out of range")) else (meter, .ok ())
  | true :: _, [], _ :: _, _ => (meter, .error (.other "index out of range"))

end

end DefaultConsumer

/-! ## Signatures -/

/-- `StdSignBytes`. -/
def stdSignBytes (chainID : String) (accnum sequence : UInt64) (fee : StdFee) (msgs : List Msg)
    (memo : String) : StdSignDoc :=
  ⟨accnum, chainID, fee, memo, msgs.map env.getSignBytes, sequence⟩

/-- `GetSignBytes`: at genesis the account number signed is zero. -/
def getSignBytes (chainID : String) (tx : StdTx Msg) (accountNumber sequence : UInt64)
    (genesis : Bool) : StdSignDoc :=
  stdSignBytes env chainID (if genesis then 0 else accountNumber) sequence tx.fee tx.msgs tx.memo

/-- `ProcessPubKey` outside simulation: the account's key, or, if it has none, the signature's,
which must stand for the signer's address. -/
def processPubKey (addr : AccAddress) (pubKey : Option PubKey) (sig : StdSignature) :
    Except SdkError PubKey :=
  match pubKey with
  | some pubKey => pure pubKey
  | none =>
    match sig.pubKey with
    | none => throw (.invalidPubKey "PubKey not found")
    | some pubKey =>
      if env.address pubKey ≠ addr then
        throw (.invalidPubKey "PubKey does not match Signer address")
      else pure pubKey

variable (sigGasConsumer : SigGasConsumer)

/-- `processSig` outside simulation, on the signer's account and its auth fields: the fields
with the key set and the sequence advanced, and the meter. -/
def processSig (gasWanted : Nat) (addr : AccAddress) (acc : Account) (fields : AuthFields)
    (sig : StdSignature) (signBytes : StdSignDoc) (params : Params) (meter : GasMeter) :
    Except SdkError (AuthFields × GasMeter) := do
  let pubKey ← processPubKey env addr fields.pubKey sig
  match acc.kind with
  -- `SetPubKey` of a module account refuses every key
  | .module _ _ => throw (.internal "setting PubKey on signer's account")
  | _ =>
    match sigGasConsumer meter sig.signature pubKey params with
    | (meter, .error p) => throw (recoverOutOfGas gasWanted meter p)
    | (_, .ok (some err)) => throw err
    | (meter, .ok none) =>
      if !env.verifyBytes pubKey signBytes sig.signature then
        throw (.unauthorized
          "signature verification failed; verify correct account sequence and chain-id")
      else pure (⟨fields.sequence + 1, some pubKey⟩, meter)

/-- `GetSignerAcc`. -/
def getSignerAcc (accounts : AccountStore) (addr : AccAddress) : Except SdkError Account :=
  match accounts.getAccount addr with
  | some acc => pure acc
  | none => throw (.unknownAddress "account does not exist")

/-- One turn of the signature loop on the signer's account `acc`: `processSig` over the sign
bytes of its current sequence, then `SetAccount` of the account with its new fields. -/
def signAndSet (ctx : AnteCtx) (tx : StdTx Msg) (st : AuthState × GasMeter) (addr : AccAddress)
    (acc : Account) (sig : StdSignature) : Except SdkError (AuthState × GasMeter) := do
  let (s, meter) := st
  let fields := s.auth.fields addr
  let signBytes := getSignBytes env ctx.chainID tx (ctx.accountNumber addr) fields.sequence
    (decide (ctx.blockHeight = 0))
  let (fields, meter) ←
    processSig env sigGasConsumer tx.fee.gas addr acc fields sig signBytes ctx.params meter
  pure (⟨{ s.ledger with accounts := s.ledger.accounts.setAccount addr acc },
    s.auth.insert addr fields⟩, meter)

/-- A turn of the loop after the fee payer: `GetSignerAcc`, then `signAndSet`. -/
def signNext (ctx : AnteCtx) (tx : StdTx Msg) (st : AuthState × GasMeter)
    (signer : AccAddress × StdSignature) : Except SdkError (AuthState × GasMeter) := do
  let acc ← getSignerAcc st.1.ledger.accounts signer.1
  signAndSet env sigGasConsumer ctx tx st signer.1 acc signer.2

/-! ## Fees -/

variable (sk : SupplyKeeper)

/-- `DeductFees`: the fee must be a valid set that the account's coins and its spendable coins
both cover; it goes to the fee collector through the supply keeper. -/
def deductFees (L : Ledger) (blockTime : Int) (addr : AccAddress) (acc : Account) (fees : Coins) :
    Except SdkError Ledger :=
  let coins := acc.coins
  if !Coins.isValid fees then throw (.insufficientFee s!"invalid fee amount: {Coins.string fees}")
  else if (Coins.safeSub coins fees).2 then
    throw (.insufficientFunds
      s!"insufficient funds to pay for fees; {Coins.string coins} < {Coins.string fees}")
  else do
    let spendableCoins ← acc.spendableCoins blockTime
    if (Coins.safeSub spendableCoins fees).2 then
      throw (.insufficientFunds
        s!"insufficient funds to pay for fees; {Coins.string spendableCoins} < {Coins.string fees}")
    else sk.sendCoinsFromAccountToModule L blockTime addr feeCollectorName fees

/-- The fee step of the ante handler: `DeductFees` unless the fee is zero, and then the payer's
account read again. -/
def payFee (blockTime : Int) (L : Ledger) (payer : AccAddress) (acc : Account) (fee : Coins) :
    Except SdkError (Ledger × Account) :=
  if Coins.isZero fee then pure (L, acc)
  else do
    let L ← deductFees sk L blockTime payer acc fee
    match L.accounts.getAccount payer with
    | some acc => pure (L, acc)
    | none => throw (.panic "invalid memory address or nil pointer dereference")

/-! ## The ante handler -/

/-- The ante handler of `NewAnteHandler` in DeliverTx: the accounts it leaves, or the error it
ends in (an abort, or a panic that `runTx` recovers). -/
def anteHandler (ctx : AnteCtx) (s : AuthState) (tx : StdTx Msg) : Except SdkError AuthState :=
  match sk.getModuleAddress feeCollectorName with
  | none => throw (.panic s!"{feeCollectorName} module account has not been set")
  | some _ => do
    let params := ctx.params
    let meter := setGasMeter ctx.blockHeight tx.fee.gas
    validateSigCount params tx.signatures
    validateBasic env tx
    let meter ← chargeGas tx.fee.gas meter
      (params.txSizeCostPerByte * ctx.txBytes.length % 2 ^ 64) "txSize"
    validateMemo params tx
    -- `ValidateBasic` has checked that there is a signature for each signer, and one at least
    match getSigners env tx, tx.signatures with
    | payer :: signers, sig :: sigs =>
      let acc ← getSignerAcc s.ledger.accounts payer
      let (ledger, acc) ← payFee sk ctx.blockTime s.ledger payer acc tx.fee.amount
      let st ← signAndSet env sigGasConsumer ctx tx (⟨ledger, s.auth⟩, meter) payer acc sig
      let (s, _) ← (signers.zip sigs).foldlM (signNext env sigGasConsumer ctx tx) st
      pure s
    | _, _ => throw (.panic "index out of range")

/-! ## DeliverTx -/

/-- A transaction delivered: the block's gas meter as the transaction finds it, the context of
its ante handler, the transaction, and what its messages do to the ledger. -/
structure Delivery (Msg : Type) where
  blockGasMeter : GasMeter
  ctx : AnteCtx
  tx : StdTx Msg
  runMsgs : Ledger → Except SdkError Ledger

variable (codec : TxCodec Msg (StdTx Msg))

/-- `runTx` in DeliverTx up to its ante handler: the accounts the ante handler leaves when it
runs and passes, none when the block has no gas left, a message fails its basic check, or the
ante handler fails. -/
def deliverAnte (d : Delivery Msg) (s : AuthState) : Option AuthState :=
  if d.blockGasMeter.isOutOfGas then none
  else
    match validateBasicTxMsgs codec d.tx.msgs with
    | some _ => none
    | none => (anteHandler env sigGasConsumer sk d.ctx s d.tx).toOption

/-- `runTx` in DeliverTx, on the accounts: nothing changes unless the ante handler passes; its
writes are kept, and the messages' writes too if they pass. -/
def deliverTx (d : Delivery Msg) (s : AuthState) : AuthState :=
  match deliverAnte env sigGasConsumer sk codec d s with
  | none => s
  | some s₁ =>
    match d.runMsgs s₁.ledger with
    | .ok ledger => { s₁ with ledger }
    | .error _ => s₁

/-- DeliverTx over a run of deliveries. -/
def deliverAll : AuthState → List (Delivery Msg) → AuthState
  | s, [] => s
  | s, d :: ds => deliverAll (deliverTx env sigGasConsumer sk codec d s) ds

/-- The sign bytes a signature of `addr` was checked over along a run, in order: those of each
delivery whose ante handler passes and that `addr` signs, at its sequence then. -/
def signedDocs (addr : AccAddress) : AuthState → List (Delivery Msg) → List StdSignDoc
  | _, [] => []
  | s, d :: ds =>
    let rest := signedDocs addr (deliverTx env sigGasConsumer sk codec d s) ds
    if (deliverAnte env sigGasConsumer sk codec d s).isSome ∧ addr ∈ getSigners env d.tx then
      getSignBytes env d.ctx.chainID d.tx (d.ctx.accountNumber addr) (s.auth.getSequence addr)
        (decide (d.ctx.blockHeight = 0)) :: rest
    else rest

/-! ## What a passing ante handler did -/

/-- `sig` checks over the sign bytes of `addr` at the sequence `auth` holds for it, under the key
`ProcessPubKey` takes: the one `auth` holds for `addr`, or, where it holds none, the
signature's own, which stands for `addr`. -/
def SignedWith (ctx : AnteCtx) (tx : StdTx Msg) (auth : AuthStore) (addr : AccAddress)
    (sig : StdSignature) : Prop :=
  ∃ pubKey, ((auth.fields addr).pubKey = some pubKey ∨
      (auth.fields addr).pubKey = none ∧ sig.pubKey = some pubKey ∧ env.address pubKey = addr) ∧
    env.verifyBytes pubKey
      (getSignBytes env ctx.chainID tx (ctx.accountNumber addr) (auth.getSequence addr)
        (decide (ctx.blockHeight = 0))) sig.signature = true

/-- The signature of the transaction at the index of `addr` among its signers checks as
`SignedWith` says. -/
def Signed (ctx : AnteCtx) (tx : StdTx Msg) (auth : AuthStore) (addr : AccAddress) : Prop :=
  ∃ (i : Nat) (sig : StdSignature), (getSigners env tx)[i]? = some addr ∧
    tx.signatures[i]? = some sig ∧
    SignedWith env ctx tx auth addr sig

/-- What a passing ante handler did, with `payer` the first signer, who pays the fee. -/
structure AntePassed (ctx : AnteCtx) (tx : StdTx Msg) (s s' : AuthState) (payer : AccAddress) :
    Prop where
  first : (getSigners env tx).head? = some payer
  /-- The sequence of each signer moved by one, and no other. -/
  sequence : ∀ a, s'.auth.getSequence a =
    if a ∈ getSigners env tx then s.auth.getSequence a + 1 else s.auth.getSequence a
  /-- The payer lost exactly the fee. -/
  feePaid : ∀ denom, CoinSet.amt (s'.ledger.accounts.getCoins payer) denom =
    CoinSet.amt (s.ledger.accounts.getCoins payer) denom - CoinSet.amt tx.fee.amount denom
  /-- A fee that is not zero was covered by the payer's spendable coins. -/
  feeCovered : Coins.isZero tx.fee.amount = true ∨
    ∃ acc spendable, s.ledger.accounts.getAccount payer = some acc ∧
      acc.spendableCoins ctx.blockTime = .ok spendable ∧
      ∀ denom, CoinSet.amt tx.fee.amount denom ≤ CoinSet.amt spendable denom
  /-- Each signer's own signature checked over the sign bytes of its sequence before the call,
  under its key. -/
  signed : ∀ a ∈ getSigners env tx, Signed env ctx tx s.auth a

/-! ## What one call does -/

section Spec

variable {env sigGasConsumer sk codec}

/-- The loop of `GetSigners` keeps its list free of repeats, and ends holding what it started
with and every address it walked. -/
theorem getSigners_loop :
    ∀ (addrs signers : List AccAddress), signers.Nodup →
      (addrs.foldl (fun signers addr => if addr ∈ signers then signers else signers ++ [addr])
        signers).Nodup ∧
      ∀ a, a ∈ addrs.foldl
          (fun signers addr => if addr ∈ signers then signers else signers ++ [addr]) signers ↔
        a ∈ signers ∨ a ∈ addrs
  | [], signers, nodup => ⟨nodup, fun a => by simp⟩
  | addr :: addrs, signers, nodup => by
    simp only [List.foldl_cons]
    split
    · next seen =>
      obtain ⟨nodup', mem⟩ := getSigners_loop addrs signers nodup
      refine ⟨nodup', fun a => ?_⟩
      rw [mem, List.mem_cons]
      constructor
      · rintro (old | walked)
        · exact .inl old
        · exact .inr (.inr walked)
      · rintro (old | rfl | walked)
        · exact .inl old
        · exact .inl seen
        · exact .inr walked
    · next fresh =>
      have nodup₁ : (signers ++ [addr]).Nodup :=
        List.nodup_append.mpr ⟨nodup, List.nodup_singleton addr,
          fun a old b single => by
            rw [List.mem_singleton] at single
            rintro rfl
            exact fresh (single ▸ old)⟩
      obtain ⟨nodup', mem⟩ := getSigners_loop addrs _ nodup₁
      refine ⟨nodup', fun a => ?_⟩
      rw [mem, List.mem_append, List.mem_singleton, List.mem_cons]
      tauto

theorem nodup_getSigners (tx : StdTx Msg) : (getSigners env tx).Nodup :=
  (getSigners_loop _ [] List.nodup_nil).1

/-- The signers of a transaction are the signers of its messages. -/
theorem mem_getSigners {tx : StdTx Msg} {a : AccAddress} :
    a ∈ getSigners env tx ↔ ∃ msg ∈ tx.msgs, a ∈ env.getSigners msg := by
  unfold getSigners
  rw [(getSigners_loop _ [] List.nodup_nil).2]
  simp

@[simp] theorem AuthStore.fields_insert (auth : AuthStore) (addr a : AccAddress) (f : AuthFields) :
    AuthStore.fields (auth.insert addr f) a = if addr = a then f else auth.fields a := by
  unfold AuthStore.fields
  by_cases same : addr = a <;> simp [same]

@[simp] theorem AuthStore.getSequence_insert (auth : AuthStore) (addr a : AccAddress)
    (f : AuthFields) :
    AuthStore.getSequence (auth.insert addr f) a =
      if addr = a then f.sequence else auth.getSequence a := by
  unfold AuthStore.getSequence
  rw [AuthStore.fields_insert]
  split <;> rfl

/-- A signature checks for `addr` alike over two stores that hold the same fields for it. -/
theorem SignedWith.of_fields_eq {ctx : AnteCtx} {tx : StdTx Msg} {auth auth' : AuthStore}
    {addr : AccAddress} {sig : StdSignature} (same : auth'.fields addr = auth.fields addr)
    (signed : SignedWith env ctx tx auth' addr sig) : SignedWith env ctx tx auth addr sig := by
  unfold SignedWith AuthStore.getSequence at *
  rwa [same] at signed

theorem validateBasic_eq_ok {tx : StdTx Msg} (h : validateBasic env tx = .ok ()) :
    tx.signatures.length = (getSigners env tx).length := by
  by_contra wrongNumber
  unfold validateBasic at h
  split_ifs at h

theorem getSignerAcc_eq_ok {accounts : AccountStore} {addr : AccAddress} {acc : Account}
    (h : getSignerAcc accounts addr = .ok acc) : accounts.getAccount addr = some acc := by
  unfold getSignerAcc at h
  split at h
  · next found => rw [found, Fallible.pure_eq_ok.mp h]
  · exact absurd h Fallible.throw_ne_ok

/-- The key `ProcessPubKey` takes: the one stored, or, where none is, the signature's, which
stands for the signer. -/
theorem processPubKey_eq_ok {addr : AccAddress} {stored : Option PubKey} {sig : StdSignature}
    {pubKey : PubKey} (h : processPubKey env addr stored sig = .ok pubKey) :
    stored = some pubKey ∨ stored = none ∧ sig.pubKey = some pubKey ∧ env.address pubKey = addr := by
  unfold processPubKey at h
  split at h
  · exact .inl (by rw [Fallible.pure_eq_ok.mp h])
  · split at h
    · exact absurd h Fallible.throw_ne_ok
    · next key sigKey =>
      split at h
      · exact absurd h Fallible.throw_ne_ok
      · next same =>
        cases Fallible.pure_eq_ok.mp h
        exact .inr ⟨rfl, sigKey, not_not.mp same⟩

/-- A passing `processSig` was given an account that is not a module account, set the key
`ProcessPubKey` took, whose signature checks over the sign bytes, and advanced the sequence by
one. -/
theorem processSig_eq_ok {gasWanted : Nat} {addr : AccAddress} {acc : Account}
    {fields fields' : AuthFields} {sig : StdSignature} {signBytes : StdSignDoc} {params : Params}
    {meter meter' : GasMeter}
    (h : processSig env sigGasConsumer gasWanted addr acc fields sig signBytes params meter =
      .ok (fields', meter')) :
    (∀ name perms, acc.kind ≠ .module name perms) ∧
      ∃ pubKey, fields' = ⟨fields.sequence + 1, some pubKey⟩ ∧
        (fields.pubKey = some pubKey ∨
          fields.pubKey = none ∧ sig.pubKey = some pubKey ∧ env.address pubKey = addr) ∧
        env.verifyBytes pubKey signBytes sig.signature = true := by
  unfold processSig at h
  obtain ⟨pubKey, hkey, h⟩ := Fallible.bind_eq_ok.mp h
  split at h
  · exact absurd h Fallible.throw_ne_ok
  · next notModule =>
    split at h
    · exact absurd h Fallible.throw_ne_ok
    · exact absurd h Fallible.throw_ne_ok
    · split at h
      · exact absurd h Fallible.throw_ne_ok
      · next verified =>
        cases Fallible.pure_eq_ok.mp h
        exact ⟨notModule, pubKey, rfl, processPubKey_eq_ok hkey, by simpa using verified⟩

/-- One turn of the signature loop on the account just read: the ledger is as it was, the
signer's fields alone change, its sequence by one, and its signature checked over the sign bytes
of its sequence before the turn, under its key. -/
theorem signAndSet_eq_ok {ctx : AnteCtx} {tx : StdTx Msg} {s s' : AuthState}
    {meter meter' : GasMeter} {addr : AccAddress} {acc : Account} {sig : StdSignature}
    (found : s.ledger.accounts.getAccount addr = some acc)
    (h : signAndSet env sigGasConsumer ctx tx (s, meter) addr acc sig = .ok (s', meter')) :
    s'.ledger = s.ledger ∧
      (∀ a, s'.auth.getSequence a =
        if addr = a then s.auth.getSequence addr + 1 else s.auth.getSequence a) ∧
      (∀ a, addr ≠ a → s'.auth.fields a = s.auth.fields a) ∧
      (∀ name perms, acc.kind ≠ .module name perms) ∧
      SignedWith env ctx tx s.auth addr sig := by
  unfold signAndSet at h
  obtain ⟨⟨fields, meter₁⟩, hsig, h⟩ := Fallible.bind_eq_ok.mp h
  obtain ⟨notModule, pubKey, rfl, key, verified⟩ := processSig_eq_ok hsig
  cases Fallible.pure_eq_ok.mp h
  refine ⟨?_, fun a => ?_, fun a other => ?_, notModule, pubKey, key, verified⟩
  · rw [AccountStore.setAccount_of_getAccount found]
  · simp only [AuthStore.getSequence_insert]
    rfl
  · rw [AuthStore.fields_insert, if_neg other]

/-- The loop after the fee payer, over signers with no repeats: the ledger is as it was, the
sequence of each signer moves by one and no other, and each signer's signature, the one paired
with it, checked over the sign bytes of its sequence before the loop, under its key. -/
theorem signNext_run {ctx : AnteCtx} {tx : StdTx Msg} :
    ∀ (signers : List (AccAddress × StdSignature)) {s s' : AuthState} {meter meter' : GasMeter},
      (signers.map Prod.fst).Nodup →
      signers.foldlM (signNext env sigGasConsumer ctx tx) (s, meter) = .ok (s', meter') →
      s'.ledger = s.ledger ∧
        (∀ a, s'.auth.getSequence a =
          if a ∈ signers.map Prod.fst then s.auth.getSequence a + 1 else s.auth.getSequence a) ∧
        ∀ p ∈ signers, SignedWith env ctx tx s.auth p.1 p.2
  | [], s, s', meter, meter', _, h => by
    cases Fallible.pure_eq_ok.mp h
    exact ⟨rfl, fun a => by simp, fun p member => by simp at member⟩
  | (addr, sig) :: signers, s, s', meter, meter', nodup, h => by
    rw [List.foldlM_cons] at h
    obtain ⟨⟨s₁, meter₁⟩, hstep, h⟩ := Fallible.bind_eq_ok.mp h
    unfold signNext at hstep
    obtain ⟨acc, hacc, hstep⟩ := Fallible.bind_eq_ok.mp hstep
    obtain ⟨ledger₁, sequence₁, fields₁, -, signed₁⟩ :=
      signAndSet_eq_ok (getSignerAcc_eq_ok hacc) hstep
    rw [List.map_cons, List.nodup_cons] at nodup
    obtain ⟨ledger', sequence', signed'⟩ := signNext_run signers nodup.2 h
    -- the signers after `addr` are other addresses, so their fields are still the first ones
    have other : ∀ a ∈ signers.map Prod.fst, addr ≠ a := fun a member same =>
      nodup.1 (same ▸ member)
    refine ⟨ledger'.trans ledger₁, fun a => ?_, fun p member => ?_⟩
    · rw [sequence', sequence₁]
      by_cases same : addr = a
      · subst same
        simp [nodup.1]
      · simp only [List.map_cons, List.mem_cons, Ne.symm same, false_or, same, if_false]
    · rcases List.mem_cons.mp member with rfl | later
      · exact signed₁
      · exact (signed' p later).of_fields_eq
          (fields₁ p.1 (other p.1 (List.mem_map_of_mem later)))

theorem deductFees_eq_ok {L L' : Ledger} {blockTime : Int} {addr : AccAddress} {acc : Account}
    {fees : Coins} (h : deductFees sk L blockTime addr acc fees = .ok L') :
    (∃ spendable, acc.spendableCoins blockTime = .ok spendable ∧
      ∀ denom, CoinSet.amt fees denom ≤ CoinSet.amt spendable denom) ∧
      sk.sendCoinsFromAccountToModule L blockTime addr feeCollectorName fees = .ok L' := by
  unfold deductFees at h
  dsimp only at h
  split at h
  · exact absurd h Fallible.throw_ne_ok
  · split at h
    · exact absurd h Fallible.throw_ne_ok
    · obtain ⟨spendable, hspendable, h⟩ := Fallible.bind_eq_ok.mp h
      split at h
      · exact absurd h Fallible.throw_ne_ok
      · next covered =>
        exact ⟨⟨spendable, hspendable, Coins.amt_le_of_safeSub (by simpa using covered)⟩, h⟩

/-- The fee step, from the payer's account as read: it is read again at its address; a zero fee
changes nothing; any other fee was covered by the spendable coins, and either it left the payer
by exactly its amount, or the payer is the fee collector's module account. -/
theorem payFee_eq_ok {blockTime : Int} {L L' : Ledger} {payer : AccAddress} {acc acc' : Account}
    {fee : Coins} (found : L.accounts.getAccount payer = some acc)
    (h : payFee sk blockTime L payer acc fee = .ok (L', acc')) :
    L'.accounts.getAccount payer = some acc' ∧ (Coins.isZero fee = true → L' = L) ∧
      (Coins.isZero fee = false →
        (∃ spendable, acc.spendableCoins blockTime = .ok spendable ∧
          ∀ denom, CoinSet.amt fee denom ≤ CoinSet.amt spendable denom) ∧
        ((∃ name perms, acc'.kind = .module name perms) ∨
          ∀ denom, CoinSet.amt (L'.accounts.getCoins payer) denom =
            CoinSet.amt (L.accounts.getCoins payer) denom - CoinSet.amt fee denom)) := by
  unfold payFee at h
  split at h
  · next zero =>
    cases Fallible.pure_eq_ok.mp h
    exact ⟨found, fun _ => rfl, fun nonzero => absurd zero (by simp [nonzero])⟩
  · next nonzero =>
    obtain ⟨L₁, hdeduct, h⟩ := Fallible.bind_eq_ok.mp h
    split at h
    · next reread =>
      cases Fallible.pure_eq_ok.mp h
      obtain ⟨covered, hsend⟩ := deductFees_eq_ok hdeduct
      refine ⟨reread, fun zero => absurd zero nonzero, fun _ => ⟨covered, ?_⟩⟩
      obtain ⟨accounts₁, collector, collectorAcc, hget, hmove⟩ :=
        SupplyKeeper.sendCoinsFromAccountToModule_eq_ok sk hsend
      obtain ⟨stored, module, others⟩ := sk.getModuleAccount_found hget
      by_cases same : payer = collector
      · -- the collector's account keeps its kind through the transfer
        subst same
        obtain ⟨acc₂, found₂, kind₂⟩ := Bank.kind_sendCoins hmove stored
        rw [found₂, Option.some.injEq] at reread
        obtain ⟨name, perms, kind⟩ := module
        exact .inl ⟨name, perms, reread ▸ kind₂.trans kind⟩
      · refine .inr fun denom => ?_
        rw [Bank.amt_getCoins_sendCoins hmove same denom]
        unfold AccountStore.getCoins
        rw [others payer same]
    · exact absurd h Fallible.throw_ne_ok

/-- The signer loop of a passing ante handler, from the payer's account `acc` as the fee step
left it: what `AntePassed` says of sequences and signatures, and the ledger of the fee step. -/
theorem signers_eq_ok {ctx : AnteCtx} {tx : StdTx Msg} {s s' : AuthState} {ledger : Ledger}
    {meter meter' : GasMeter} {st : AuthState × GasMeter} {payer : AccAddress}
    {signers : List AccAddress} {acc : Account} {sig : StdSignature} {sigs : List StdSignature}
    (hsigners : getSigners env tx = payer :: signers) (hsigs : tx.signatures = sig :: sigs)
    (lengths : sigs.length = signers.length) (found : ledger.accounts.getAccount payer = some acc)
    (hfirst :
      signAndSet env sigGasConsumer ctx tx (⟨ledger, s.auth⟩, meter) payer acc sig = .ok st)
    (h : (signers.zip sigs).foldlM (signNext env sigGasConsumer ctx tx) st = .ok (s', meter')) :
    s'.ledger = ledger ∧ (∀ name perms, acc.kind ≠ .module name perms) ∧
      (∀ a, s'.auth.getSequence a =
        if a ∈ getSigners env tx then s.auth.getSequence a + 1 else s.auth.getSequence a) ∧
      ∀ a ∈ getSigners env tx, Signed env ctx tx s.auth a := by
  obtain ⟨s₁, meter₁⟩ := st
  obtain ⟨ledger₁, sequence₁, fields₁, notModule, signed₁⟩ := signAndSet_eq_ok found hfirst
  have nodup : (getSigners env tx).Nodup := nodup_getSigners tx
  rw [hsigners, List.nodup_cons] at nodup
  have fsts : (signers.zip sigs).map Prod.fst = signers := List.map_fst_zip (by omega)
  obtain ⟨ledger', sequence', signed'⟩ := signNext_run (signers.zip sigs)
    (by rw [fsts]; exact nodup.2) h
  rw [fsts] at sequence'
  refine ⟨ledger'.trans ledger₁, notModule, fun a => ?_, fun a member => ?_⟩
  · rw [sequence', sequence₁, hsigners]
    by_cases same : payer = a
    · subst same
      simp [nodup.1]
    · simp [same, Ne.symm same]
  · rw [hsigners] at member
    rcases List.mem_cons.mp member with rfl | later
    · -- the payer is the first signer and signs with the first signature
      exact ⟨0, sig, by rw [hsigners]; rfl, by rw [hsigs]; rfl, signed₁⟩
    · -- a later signer at index `j` of the rest signs with the signature at the same index
      obtain ⟨j, at_j⟩ := List.mem_iff_getElem?.mp later
      have bound : j < sigs.length := by
        rw [lengths]
        exact (List.getElem?_eq_some_iff.mp at_j).1
      obtain ⟨sig', sig_j⟩ : ∃ sig', sigs[j]? = some sig' := ⟨_, List.getElem?_eq_getElem bound⟩
      have paired : (a, sig') ∈ signers.zip sigs :=
        List.mem_iff_getElem?.mpr ⟨j, List.getElem?_zip_eq_some.mpr ⟨at_j, sig_j⟩⟩
      have other : payer ≠ a := fun same => nodup.1 (same ▸ later)
      refine ⟨j + 1, sig', ?_, ?_, (signed' _ paired).of_fields_eq (fields₁ a other)⟩
      · rw [hsigners, List.getElem?_cons_succ, at_j]
      · rw [hsigs, List.getElem?_cons_succ, sig_j]

/-- A passing ante handler advanced the sequence of each signer by one and no other, took
exactly the fee from the first signer, and only if its spendable coins covered it, and checked
each signer's signature over the sign bytes of its sequence. -/
theorem anteHandler_spec {ctx : AnteCtx} {s s' : AuthState} {tx : StdTx Msg}
    (h : anteHandler env sigGasConsumer sk ctx s tx = .ok s') :
    ∃ payer, AntePassed env ctx tx s s' payer := by
  unfold anteHandler at h
  split at h
  · exact absurd h Fallible.throw_ne_ok
  · obtain ⟨_, -, h⟩ := Fallible.bind_eq_ok.mp h
    obtain ⟨_, hbasic, h⟩ := Fallible.bind_eq_ok.mp h
    obtain ⟨meter, -, h⟩ := Fallible.bind_eq_ok.mp h
    obtain ⟨_, -, h⟩ := Fallible.bind_eq_ok.mp h
    split at h
    · next payer signers sig sigs hsigners hsigs =>
      have lengths := validateBasic_eq_ok hbasic
      rw [hsigners, hsigs] at lengths
      obtain ⟨acc, hacc, h⟩ := Fallible.bind_eq_ok.mp h
      have found := getSignerAcc_eq_ok hacc
      obtain ⟨⟨ledger, acc'⟩, hfee, h⟩ := Fallible.bind_eq_ok.mp h
      obtain ⟨found', unchanged, deducted⟩ := payFee_eq_ok found hfee
      obtain ⟨st, hfirst, h⟩ := Fallible.bind_eq_ok.mp h
      obtain ⟨⟨s₂, meter₂⟩, hloop, h⟩ := Fallible.bind_eq_ok.mp h
      cases Fallible.pure_eq_ok.mp h
      obtain ⟨ledger₂, notModule, sequence, signed⟩ :=
        signers_eq_ok hsigners hsigs (by simpa using lengths) found' hfirst hloop
      refine ⟨payer, ⟨by simp [hsigners], sequence, fun denom => ?_, ?_, signed⟩⟩
      · rw [ledger₂]
        cases zero : Coins.isZero tx.fee.amount
        · rcases (deducted zero).2 with ⟨name, perms, module⟩ | paid
          · exact absurd module (notModule name perms)
          · exact paid denom
        · rw [unchanged zero, Coins.amt_of_isZero zero, sub_zero]
      · cases zero : Coins.isZero tx.fee.amount
        · obtain ⟨spendable, hspendable, covered⟩ := (deducted zero).1
          exact .inr ⟨acc, spendable, found, hspendable, covered⟩
        · exact .inl rfl
    · exact absurd h Fallible.throw_ne_ok

end Spec

/-! ## DeliverTx runs -/

section Runs

variable {env sigGasConsumer sk codec}

theorem deliverAnte_eq_some {d : Delivery Msg} {s s₁ : AuthState}
    (h : deliverAnte env sigGasConsumer sk codec d s = some s₁) :
    anteHandler env sigGasConsumer sk d.ctx s d.tx = .ok s₁ := by
  unfold deliverAnte at h
  split at h
  · cases h
  · split at h
    · cases h
    · cases hante : anteHandler env sigGasConsumer sk d.ctx s d.tx with
      | error _ => simp [hante, Except.toOption] at h
      | ok s₂ =>
        simp only [hante, Except.toOption, Option.some.injEq] at h
        rw [h]

/-- A delivery whose ante handler does not pass leaves every account as it was. -/
theorem deliverTx_of_deliverAnte_none {d : Delivery Msg} {s : AuthState}
    (h : deliverAnte env sigGasConsumer sk codec d s = none) :
    deliverTx env sigGasConsumer sk codec d s = s := by
  unfold deliverTx
  rw [h]

/-- The messages never write the auth fields: after a delivery they are those the ante
handler left, if it passed. -/
theorem deliverTx_auth (d : Delivery Msg) (s : AuthState) :
    (deliverTx env sigGasConsumer sk codec d s).auth =
      ((deliverAnte env sigGasConsumer sk codec d s).getD s).auth := by
  unfold deliverTx
  cases deliverAnte env sigGasConsumer sk codec d s with
  | none => rfl
  | some s₁ =>
    dsimp only
    split <;> rfl

/-- One delivery: an account's sequence moves, by one, exactly when the ante handler passes
on a transaction the account signs. -/
theorem deliverTx_sequence (d : Delivery Msg) (s : AuthState) (a : AccAddress) :
    (deliverTx env sigGasConsumer sk codec d s).auth.getSequence a =
      if (deliverAnte env sigGasConsumer sk codec d s).isSome ∧ a ∈ getSigners env d.tx then
        s.auth.getSequence a + 1
      else s.auth.getSequence a := by
  rw [deliverTx_auth]
  cases hante : deliverAnte env sigGasConsumer sk codec d s with
  | none => simp
  | some s₁ =>
    obtain ⟨_, passed⟩ := anteHandler_spec (deliverAnte_eq_some hante)
    simp [passed.sequence a]

/-- Along a run, an account's sequence has moved by the number of sign bytes its signatures
were checked over. -/
theorem deliverAll_sequence (a : AccAddress) :
    ∀ (ds : List (Delivery Msg)) (s : AuthState),
      (deliverAll env sigGasConsumer sk codec s ds).auth.getSequence a =
        s.auth.getSequence a +
          UInt64.ofNat (signedDocs env sigGasConsumer sk codec a s ds).length
  | [], s => by simp [deliverAll, signedDocs]
  | d :: ds, s => by
    rw [deliverAll, deliverAll_sequence a ds, deliverTx_sequence, signedDocs]
    split_ifs
    · simp only [List.length_cons, UInt64.ofNat_add, UInt64.ofNat_one]
      ac_rfl
    · rfl

/-- The sign bytes a signer's signatures were checked over along a run carry its sequences
one after the other, from the sequence it had at the start. -/
theorem signedDocs_sequence (a : AccAddress) :
    ∀ (ds : List (Delivery Msg)) (s : AuthState),
      (signedDocs env sigGasConsumer sk codec a s ds).map StdSignDoc.sequence =
        (List.range (signedDocs env sigGasConsumer sk codec a s ds).length).map
          fun i => s.auth.getSequence a + UInt64.ofNat i
  | [], s => by simp [signedDocs]
  | d :: ds, s => by
    have ih := signedDocs_sequence a ds (deliverTx env sigGasConsumer sk codec d s)
    have step : (deliverTx env sigGasConsumer sk codec d s).auth.getSequence a = _ :=
      deliverTx_sequence d s a
    rw [signedDocs]
    split_ifs at step ⊢
    · rw [List.map_cons, ih, step, List.length_cons, List.range_succ_eq_map, List.map_cons,
        List.map_map]
      congr 1
      · simp [getSignBytes, stdSignBytes]
      · refine List.map_congr_left fun i _ => ?_
        simp only [Function.comp, Nat.succ_eq_add_one, UInt64.ofNat_add, UInt64.ofNat_one]
        ac_rfl
    · rw [ih, step]

/-- Within `2 ^ 64` of them, the sign bytes a signer's signatures were checked over along a
run are all different. -/
theorem signedDocs_nodup {a : AccAddress} {ds : List (Delivery Msg)} {s : AuthState}
    (within : (signedDocs env sigGasConsumer sk codec a s ds).length ≤ 2 ^ 64) :
    (signedDocs env sigGasConsumer sk codec a s ds).Nodup := by
  apply List.Nodup.of_map StdSignDoc.sequence
  rw [signedDocs_sequence]
  refine List.nodup_range.map_on fun i hi j hj same => ?_
  rw [List.mem_range] at hi hj
  have equal := congrArg UInt64.toNat (add_left_cancel same)
  simp only [UInt64.toNat_ofNat'] at equal
  omega

/-- Each sign bytes in `signedDocs` had a signature of the transaction checked over it. -/
theorem signedDocs_checked (a : AccAddress) :
    ∀ (ds : List (Delivery Msg)) (s : AuthState),
      ∀ doc ∈ signedDocs env sigGasConsumer sk codec a s ds,
        ∃ pubKey sig, env.verifyBytes pubKey doc sig = true
  | [], s => by simp [signedDocs]
  | d :: ds, s => by
    intro doc member
    rw [signedDocs] at member
    split_ifs at member with passed
    · rcases List.mem_cons.mp member with rfl | later
      · obtain ⟨s₁, hante⟩ := Option.isSome_iff_exists.mp passed.1
        obtain ⟨_, result⟩ := anteHandler_spec (deliverAnte_eq_some hante)
        obtain ⟨-, sig, -, -, pubKey, -, verified⟩ := result.signed a passed.2
        exact ⟨pubKey, sig.signature, verified⟩
      · exact signedDocs_checked a ds _ doc later
    · exact signedDocs_checked a ds _ doc member

end Runs

/-! ## Replay protection -/

/-- Replay protection and fee payment, whatever the messages, the signature gas consumer, the
supply keeper and the codec: a passing ante handler did what `AntePassed` says; a delivery
whose ante handler does not pass changes no account; one delivery moves a sequence by one
exactly when the ante handler passes on a transaction the account signs; and along a run, an
account's sequence has moved by the number of sign bytes its signatures were checked over, those
sign bytes carry its sequences one after the other, and within `2 ^ 64` of them no two are the
same. -/
theorem replay_protection :
    (∀ (ctx : AnteCtx) (s s' : AuthState) (tx : StdTx Msg),
      anteHandler env sigGasConsumer sk ctx s tx = .ok s' →
        ∃ payer, AntePassed env ctx tx s s' payer) ∧
    (∀ (d : Delivery Msg) (s : AuthState),
      deliverAnte env sigGasConsumer sk codec d s = none →
        deliverTx env sigGasConsumer sk codec d s = s) ∧
    (∀ (d : Delivery Msg) (s : AuthState) (a : AccAddress),
      (deliverTx env sigGasConsumer sk codec d s).auth.getSequence a =
        if (deliverAnte env sigGasConsumer sk codec d s).isSome ∧ a ∈ getSigners env d.tx then
          s.auth.getSequence a + 1
        else s.auth.getSequence a) ∧
    ∀ (ds : List (Delivery Msg)) (s : AuthState) (a : AccAddress),
      (deliverAll env sigGasConsumer sk codec s ds).auth.getSequence a =
          s.auth.getSequence a +
            UInt64.ofNat (signedDocs env sigGasConsumer sk codec a s ds).length ∧
        (∀ doc ∈ signedDocs env sigGasConsumer sk codec a s ds,
          ∃ pubKey sig, env.verifyBytes pubKey doc sig = true) ∧
        (signedDocs env sigGasConsumer sk codec a s ds).map StdSignDoc.sequence =
          (List.range (signedDocs env sigGasConsumer sk codec a s ds).length).map
            (fun i => s.auth.getSequence a + UInt64.ofNat i) ∧
        ((signedDocs env sigGasConsumer sk codec a s ds).length ≤ 2 ^ 64 →
          (signedDocs env sigGasConsumer sk codec a s ds).Nodup) :=
  ⟨fun _ _ _ _ h => anteHandler_spec h, fun _ _ h => deliverTx_of_deliverAnte_none h,
    deliverTx_sequence, fun ds s a => ⟨deliverAll_sequence a ds s, signedDocs_checked a ds s,
      signedDocs_sequence a ds s, signedDocs_nodup⟩⟩

/-! An account whose sequence is `2 ^ 64 - 1`, as a genesis file may set it, signing a
transaction with no fee: one message signed by `[1]`, a secp256k1 key already stored, and a
signature that checks over sign bytes whose sequence ends in the byte it holds. -/

namespace SequenceAtMax

def oneSigner : AnteEnv Unit where
  getSigners _ := [[1]]
  getSignBytes _ := []
  address _ := [1]
  verifyBytes _ doc sig := decide (sig = [UInt8.ofNat doc.sequence.toNat])

def keeper : SupplyKeeper := ⟨fun _ => [2], [(feeCollectorName, [])]⟩

def state : AuthState :=
  ⟨⟨AccountStore.setAccount SortedMap.empty [1] Account.newAccountWithAddress, []⟩,
    SortedMap.empty.insert [1] ⟨0xFFFFFFFFFFFFFFFF, some (.secp256k1 [1])⟩⟩

def ctx : AnteCtx := ⟨"pocchain", 1, 0, [], defaultParams, fun _ => 0⟩

def tx : StdTx Unit := ⟨[()], ⟨[], 200000⟩, [⟨none, [255]⟩], ""⟩

end SequenceAtMax

open SequenceAtMax in
/-- The sequence is a `uint64` that `processSig` advances with `+ 1`: from `2 ^ 64 - 1` a
passing ante handler takes it to zero, not up by one. -/
theorem sequence_wraps_to_zero :
    state.auth.getSequence [1] = 0xFFFFFFFFFFFFFFFF ∧
      ∃ s', anteHandler oneSigner (defaultSigVerificationGasConsumer fun _ => none) keeper ctx
        state tx = .ok s' ∧ s'.auth.getSequence [1] = 0 := by
  have run : (match anteHandler oneSigner (defaultSigVerificationGasConsumer fun _ => none)
      keeper ctx state tx with
      | .ok s' => decide (s'.auth.getSequence [1] = 0)
      | .error _ => false) = true := by
    decide +kernel
  refine ⟨by decide +kernel, ?_⟩
  split at run
  · next s' hrun => exact ⟨s', hrun, of_decide_eq_true run⟩
  · exact absurd run Bool.false_ne_true

end Auth

end Pocc
