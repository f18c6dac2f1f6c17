import Pocc.Lib.StoreProg
import Pocc.Lib.Bytes

/-!
# Gas

store/types/gas.go and store/gaskv/store.go. A gas meter counts the gas a context consumes and
panics with `ErrorOutOfGas` past its limit, or with `ErrorGasOverflow` when the count would
leave `uint64`; a store reached through a context (`Context.KVStore`) charges the context's
meter before each read, write and delete.

A transaction's code is a `TxProg`: a program against the multistore whose context is the gas
of the transaction. A Go context is a value but its gas meter is a pointer, so two meters can
be live at once: the one of the context the transaction was given, and the one an ante handler
installs in the context it returns (`GasCtx`).
-/

namespace Pocc

/-- `math.MaxUint64`. -/
def maxUint64 : Nat := 2 ^ 64 - 1

/-- What a transaction's code may panic with: `ErrorOutOfGas`, `ErrorGasOverflow`, or any other
value. -/
inductive Panic where
  | outOfGas (descriptor : String)
  | gasOverflow (descriptor : String)
  | other (msg : String)
  deriving DecidableEq, Repr

/-- `addUint64Overflow`: the sum and whether it overflows, in which case the sum is zero. -/
def addUint64Overflow (a b : Nat) : Nat × Bool :=
  if maxUint64 - a < b then (0, true) else (a + b, false)

/-- A `GasMeter`: `basicGasMeter` with its limit and consumption, or `infiniteGasMeter`. -/
inductive GasMeter where
  | basic (limit consumed : Nat)
  | infinite (consumed : Nat)
  deriving DecidableEq, Repr

namespace GasMeter

/-- `NewGasMeter`. -/
def newGasMeter (limit : Nat) : GasMeter := basic limit 0

/-- `NewInfiniteGasMeter`. -/
def newInfiniteGasMeter : GasMeter := infinite 0

/-- `GasConsumed`. -/
def gasConsumed : GasMeter → Nat
  | basic _ consumed => consumed
  | infinite consumed => consumed

/-- `IsPastLimit`. -/
def isPastLimit : GasMeter → Bool
  | basic limit consumed => decide (consumed > limit)
  | infinite _ => false

/-- `IsOutOfGas`. -/
def isOutOfGas : GasMeter → Bool
  | basic limit consumed => decide (consumed ≥ limit)
  | infinite _ => false

/-- `GasConsumedToLimit`. -/
def gasConsumedToLimit : GasMeter → Nat
  | basic limit consumed => if consumed > limit then limit else consumed
  | infinite consumed => consumed

/-- `ConsumeGas`: the meter after the charge and the panic it raises, if any. The new count is
stored before the panic, as the source does. -/
def consumeGas (g : GasMeter) (amount : Nat) (descriptor : String) : GasMeter × Option Panic :=
  match g with
  | basic limit consumed =>
    let (consumed, overflow) := addUint64Overflow consumed amount
    if overflow then (basic limit consumed, some (.gasOverflow descriptor))
    else if consumed > limit then (basic limit consumed, some (.outOfGas descriptor))
    else (basic limit consumed, none)
  | infinite consumed =>
    let (consumed, overflow) := addUint64Overflow consumed amount
    if overflow then (infinite consumed, some (.gasOverflow descriptor))
    else (infinite consumed, none)

end GasMeter

/-- The meters a transaction's context reaches: the meter of the context it was given, and
the meter an ante handler installed in the context it returned, if it did. -/
structure GasCtx where
  original : GasMeter
  installed : Option GasMeter
  deriving DecidableEq, Repr

/-- `ctx.GasMeter()`. -/
def GasCtx.gasMeter (g : GasCtx) : GasMeter := g.installed.getD g.original

/-- The meters after the context's meter is replaced by `m`. -/
def GasCtx.withGasMeter (g : GasCtx) (m : GasMeter) : GasCtx :=
  match g.installed with
  | none => { g with original := m }
  | some _ => { g with installed := some m }

/-- A transaction's code, against the multistore with keys `κ`. -/
abbrev TxProg (κ α : Type) := StoreProg κ Bytes GasCtx Panic α

variable {κ : Type}

/-- `ctx.GasMeter().ConsumeGas(amount, descriptor)`. -/
def consumeGas (amount : Nat) (descriptor : String) : TxProg κ Unit :=
  .getCtx fun g =>
    let (m, p) := g.gasMeter.consumeGas amount descriptor
    .setCtx (g.withGasMeter m) (match p with
      | none => .pure ()
      | some p => .panic p)

/-- `GasConfig`. -/
structure GasConfig where
  hasCost : Nat
  deleteCost : Nat
  readCostFlat : Nat
  readCostPerByte : Nat
  writeCostFlat : Nat
  writeCostPerByte : Nat
  deriving DecidableEq, Repr

/-- `KVGasConfig`. -/
def kvGasConfig : GasConfig := ⟨1000, 1000, 1000, 3, 2000, 30⟩

namespace GasKV

variable (gasConfig : GasConfig)

/-- `Store.Get` of gaskv: a flat charge, the read, and a charge per byte read. -/
def get (key : κ) : TxProg κ (Option Bytes) := do
  consumeGas gasConfig.readCostFlat "ReadFlat"
  let value ← StoreProg.read key
  consumeGas (gasConfig.readCostPerByte * (value.map List.length).getD 0) "ReadPerByte"
  pure value

/-- `Store.Set` of gaskv. -/
def set (key : κ) (value : Bytes) : TxProg κ Unit := do
  consumeGas gasConfig.writeCostFlat "WriteFlat"
  consumeGas (gasConfig.writeCostPerByte * value.length) "WritePerByte"
  StoreProg.write key value

/-- `Store.Has` of gaskv. -/
def has (key : κ) : TxProg κ Bool := do
  consumeGas gasConfig.hasCost "Has"
  let value ← StoreProg.read key
  pure value.isSome

/-- `Store.Delete` of gaskv. -/
def delete (key : κ) : TxProg κ Unit := do
  consumeGas gasConfig.deleteCost "Delete"
  StoreProg.remove key

end GasKV

end Pocc
