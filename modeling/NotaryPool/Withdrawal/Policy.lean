/-!
# Fees and limits

A policy says which fee a transaction pays and which transactions are too big, and sees no more of
a transaction than its shape.

* `TxShape`, `TxPolicy`;
* `StandardPolicy`: a fee for each started kilobyte and a limit on the size;
* `LinearPolicy`: a fee for each part of a transaction and a limit on each count.
-/

namespace NotaryPool

/-- What a policy sees of a transaction: its size when all signatures are as long as they can be,
and its counts. -/
structure TxShape where
  size : Nat
  inputs : Nat
  outputs : Nat
deriving DecidableEq, Repr

/-- The fee and the limits of transactions. -/
structure TxPolicy where
  fee : TxShape → Nat
  isTooBig : TxShape → Bool

/-- A fee for each started kilobyte, and a size from which on a transaction is too big. -/
structure StandardPolicy where
  feeIncrement : Nat
  maxTxSize : Nat
deriving DecidableEq, Repr

namespace StandardPolicy

/-- The limit and the fee that are used unless the settings say otherwise. -/
def standard : StandardPolicy := ⟨1000, 100000⟩

/-- The policy as functions of the shape. -/
def toPolicy (p : StandardPolicy) : TxPolicy where
  fee shape := p.feeIncrement * (1 + shape.size / 1000)
  isTooBig shape := p.maxTxSize ≤ shape.size

end StandardPolicy

/-- A fee for each part of a transaction, and limits that a transaction may reach. -/
structure LinearPolicy where
  base : Nat
  perInput : Nat
  perOutput : Nat
  perByte : Nat
  maxSize : Option Nat
  maxInputs : Option Nat
  maxOutputs : Option Nat
deriving DecidableEq, Repr

/-- The policy as functions of the shape. -/
def LinearPolicy.toPolicy (p : LinearPolicy) : TxPolicy where
  fee shape :=
    p.base + p.perInput * shape.inputs + p.perOutput * shape.outputs + p.perByte * shape.size
  isTooBig shape :=
    p.maxSize.any (· < shape.size) || p.maxInputs.any (· < shape.inputs)
      || p.maxOutputs.any (· < shape.outputs)

end NotaryPool
