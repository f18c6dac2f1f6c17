import Pocc.Token.Keeper

/-!
# The bank handler

x/bank/handler.go. Every transfer message is refused while sending is disabled, or when one of
its coins is not send-enabled in the token registry, or when a recipient is a blacklisted
address (the app's module accounts). `MsgBonusSend` and `MsgReclaimSend` are handled as
`MsgMultiSend` is, under other events; `MsgEscrow` as `MsgSend` is; `MsgReclaim` only emits an
event.
-/

namespace Pocc

namespace Bank

/-- `MsgSend`, and `MsgEscrow`, which has the same fields. -/
structure MsgSend where
  fromAddress : AccAddress
  toAddress : AccAddress
  amount : Coins
  deriving DecidableEq, Repr

/-- `MsgMultiSend`, and `MsgBonusSend` and `MsgReclaimSend`, which have the same fields. -/
structure MsgMultiSend where
  inputs : List Transfer
  outputs : List Transfer
  deriving DecidableEq, Repr

/-- `ErrSendDisabled`. -/
def errSendDisabled : SdkError :=
  .error moduleName (.module 101) "send transactions are currently disabled"

/-- The bank keeper's fixed data: the blacklisted recipients it was built with, and
`AccAddress.String` (bech32, outside the repository) for its messages. -/
structure BankKeeper where
  blacklistedAddr : AccAddress → Bool
  addrString : AccAddress → String

/-- What a bank handler reads besides the accounts: the `SendEnabled` parameter and the token
registry. -/
structure SendContext where
  sendEnabled : Bool
  tokens : TokenStore
  blockTime : Int

/-- `IsCoinsSendEnabled`: every coin is send-enabled in the token registry. -/
def isCoinsSendEnabled (tokens : TokenStore) (coins : Coins) : Bool :=
  coins.all fun coin => tokens.isSendEnabled coin.denom

variable (bk : BankKeeper)

/-- `handleMsgSend` and `handleMsgEscrow`, given the keeper function that moves the coins. -/
def handleTransfer
    (transfer : AccountStore → Int → AccAddress → AccAddress → Coins → Except SdkError AccountStore)
    (ctx : SendContext) (accounts : AccountStore) (msg : MsgSend) : Except SdkError AccountStore :=
  if !ctx.sendEnabled then throw errSendDisabled
  else if !isCoinsSendEnabled ctx.tokens msg.amount then throw errSendDisabled
  else if bk.blacklistedAddr msg.toAddress then
    throw (.unauthorized s!"{bk.addrString msg.toAddress} is not allowed to receive transactions")
  else transfer accounts ctx.blockTime msg.fromAddress msg.toAddress msg.amount

/-- `handleMsgSend`. -/
def handleMsgSend (ctx : SendContext) (accounts : AccountStore) (msg : MsgSend) :
    Except SdkError AccountStore :=
  handleTransfer bk sendCoins ctx accounts msg

/-- `handleMsgEscrow`. -/
def handleMsgEscrow (ctx : SendContext) (accounts : AccountStore) (msg : MsgSend) :
    Except SdkError AccountStore :=
  handleTransfer bk escrowCoins ctx accounts msg

/-- `handleMsgMultiSend`, `handleMsgBonusSend` and `handleMsgReclaimSend`. -/
def handleInputsOutputs (ctx : SendContext) (accounts : AccountStore) (msg : MsgMultiSend) :
    Except SdkError AccountStore :=
  if !ctx.sendEnabled then throw errSendDisabled
  else if msg.inputs.any fun i => !isCoinsSendEnabled ctx.tokens i.coins then throw errSendDisabled
  else match msg.outputs.find? fun o => bk.blacklistedAddr o.address with
  | some o =>
    throw (.unauthorized s!"{bk.addrString o.address} is not allowed to receive transactions")
  | none => inputOutputCoins accounts ctx.blockTime msg.inputs msg.outputs

/-- `handleMsgMultiSend`. -/
def handleMsgMultiSend (ctx : SendContext) (accounts : AccountStore) (msg : MsgMultiSend) :
    Except SdkError AccountStore :=
  handleInputsOutputs bk ctx accounts msg

/-- `handleMsgBonusSend`. -/
def handleMsgBonusSend (ctx : SendContext) (accounts : AccountStore) (msg : MsgMultiSend) :
    Except SdkError AccountStore :=
  handleInputsOutputs bk ctx accounts msg

/-- `handleMsgReclaimSend`. -/
def handleMsgReclaimSend (ctx : SendContext) (accounts : AccountStore) (msg : MsgMultiSend) :
    Except SdkError AccountStore :=
  handleInputsOutputs bk ctx accounts msg

/-- `handleMsgReclaim`: it only records an event. -/
def handleMsgReclaim (accounts : AccountStore) (_msg : MsgSend) : Except SdkError AccountStore :=
  pure accounts

theorem handleTransfer_eq_ok {transfer} {ctx : SendContext} {accounts accounts' : AccountStore}
    {msg : MsgSend} (h : handleTransfer bk transfer ctx accounts msg = .ok accounts') :
    transfer accounts ctx.blockTime msg.fromAddress msg.toAddress msg.amount = .ok accounts' := by
  unfold handleTransfer at h
  split at h
  · exact absurd h Fallible.throw_ne_ok
  · split at h
    · exact absurd h Fallible.throw_ne_ok
    · split at h
      · exact absurd h Fallible.throw_ne_ok
      · exact h

theorem handleInputsOutputs_eq_ok {ctx : SendContext} {accounts accounts' : AccountStore}
    {msg : MsgMultiSend} (h : handleInputsOutputs bk ctx accounts msg = .ok accounts') :
    inputOutputCoins accounts ctx.blockTime msg.inputs msg.outputs = .ok accounts' := by
  unfold handleInputsOutputs at h
  split at h
  · exact absurd h Fallible.throw_ne_ok
  · split at h
    · exact absurd h Fallible.throw_ne_ok
    · split at h
      · exact absurd h Fallible.throw_ne_ok
      · exact h

end Bank

end Pocc
