import Pocc.Lib.Bytes

/-!
# Errors and panics

A keeper either returns an `sdk.Error` (types/errors.go): a codespace, a code and a log
line, or it panics, and `runTx` recovers the panic into an error result. The model keeps
both in one type, so that a keeper function is a function into `Except SdkError`.

Logs that the source formats from an account address are kept as their fixed text only: the
bech32 rendering of an address is code outside the repository.
-/

namespace Pocc

/-- The codes of types/errors.go that the modelled keepers return. -/
inductive CodeType where
  | ok
  | internal
  | unauthorized
  | unknownRequest
  | invalidAddress
  | unknownAddress
  | insufficientCoins
  | invalidCoins
  | outOfGas
  | tooMuchPrecision
  | insufficientFunds
  | invalidPubKey
  | memoTooLarge
  | insufficientFee
  | tooManySignatures
  | gasOverflow
  | noSignatures
  | invalidAccount
  | symbolAlreadyExist
  | invalidSymbol
  | unsupportToken
  | invalidTx
  | transactionIsNotEnabled
  | invalidAmount
  /-- A code of a module's own codespace, by its number. -/
  | module (code : Nat)
  deriving DecidableEq, Repr

/-- `CodespaceRoot`. -/
def codespaceRoot : String := "pocchain_base"

/-- An `sdk.Error` returned by a keeper, or a panic. -/
inductive SdkError where
  | error (codespace : String) (code : CodeType) (log : String)
  | panic (msg : String)
  deriving DecidableEq, Repr

namespace SdkError

def internal (log : String) : SdkError := error codespaceRoot .internal log
def unauthorized (log : String) : SdkError := error codespaceRoot .unauthorized log
def unknownRequest (log : String) : SdkError := error codespaceRoot .unknownRequest log
def invalidAddress (log : String) : SdkError := error codespaceRoot .invalidAddress log
def unknownAddress (log : String) : SdkError := error codespaceRoot .unknownAddress log
def insufficientCoins (log : String) : SdkError := error codespaceRoot .insufficientCoins log
def invalidCoins (log : String) : SdkError := error codespaceRoot .invalidCoins log
def invalidAccount (log : String) : SdkError := error codespaceRoot .invalidAccount log
def alreadyExitSymbol (log : String) : SdkError := error codespaceRoot .symbolAlreadyExist log
def transactionIsNotEnabled (log : String) : SdkError :=
  error codespaceRoot .transactionIsNotEnabled log
def outOfGas (log : String) : SdkError := error codespaceRoot .outOfGas log
def invalidTx (log : String) : SdkError := error codespaceRoot .invalidTx log
def unsupportToken (log : String) : SdkError := error codespaceRoot .unsupportToken log
def invalidSymbol (log : String) : SdkError := error codespaceRoot .invalidSymbol log
def tooMuchPrecision (log : String) : SdkError := error codespaceRoot .tooMuchPrecision log
def invalidAmount (log : String) : SdkError := error codespaceRoot .invalidAmount log
def insufficientFunds (log : String) : SdkError := error codespaceRoot .insufficientFunds log
def invalidPubKey (log : String) : SdkError := error codespaceRoot .invalidPubKey log
def memoTooLarge (log : String) : SdkError := error codespaceRoot .memoTooLarge log
def insufficientFee (log : String) : SdkError := error codespaceRoot .insufficientFee log
def tooManySignatures (log : String) : SdkError := error codespaceRoot .tooManySignatures log
def gasOverflow (log : String) : SdkError := error codespaceRoot .gasOverflow log
def noSignatures (log : String) : SdkError := error codespaceRoot .noSignatures log

end SdkError

/-- `sdk.Result`, without its log (JSON made by the codec) and its events. -/
structure Result where
  code : CodeType := .ok
  codespace : String := ""
  data : Bytes := []
  gasWanted : Nat := 0
  gasUsed : Nat := 0
  deriving DecidableEq, Repr

/-- `Result.IsOK`. -/
def Result.isOK (r : Result) : Bool := decide (r.code = .ok)

/-- `Error.Result()`; a panic is what `runTx` recovers it into, an internal error. -/
def SdkError.result : SdkError → Result
  | .error codespace code _ => { code := code, codespace := codespace }
  | .panic _ => { code := .internal, codespace := codespaceRoot }

end Pocc
