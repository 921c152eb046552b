import NotaryPool.Withdrawal.Credit
import NotaryPool.Withdrawal.Policy
import NotaryPool.Withdrawal.Request

/-!
# Transactions under construction

A draft keeps, beside the data of the transaction, the credits that it spends and the requests
that it pays.

* `Payment`, `Draft`: the data of a draft;
* `Draft.shape`, `Draft.isFunded`: what a policy says about a draft;
* `Draft.addChange`: closes a draft;
* `Draft.rollBack`: takes the last payment out, with the inputs that only it needed;
* `Draft.toTx`: the unsigned transaction.
-/

namespace NotaryPool

/-- Why an operation on a draft or a round is refused. -/
inductive PreconditionError where
  | rollbackNeedsTwoOutputs (outputs : Nat)
  | changeAlreadyAdded
  | nothingToSplit
  | oversizeWithoutOutputs
  | unsplittable (request : RequestId)
  | inconsistentFulfilment (request : RequestId) (fulfilled requested : Nat)
deriving DecidableEq, Repr

/-- The name of an error. -/
def PreconditionError.name : PreconditionError → String
  | .rollbackNeedsTwoOutputs _ => "RollbackNeedsTwoOutputs"
  | .changeAlreadyAdded => "ChangeAlreadyAdded"
  | .nothingToSplit => "NothingToSplit"
  | .oversizeWithoutOutputs => "OversizeWithoutOutputs"
  | .unsplittable _ => "Unsplittable"
  | .inconsistentFulfilment _ _ _ => "InconsistentFulfilment"

/-- The text of an error. -/
def PreconditionError.message : PreconditionError → String
  | .rollbackNeedsTwoOutputs outputs =>
    s!"unable to roll back the last output of a transaction having only {outputs} output(s)."
  | .changeAlreadyAdded => "change was already added to the transaction."
  | .nothingToSplit => "there is no output to split in the current transaction."
  | .oversizeWithoutOutputs => "oversized transaction has no outputs."
  | .unsplittable request =>
    s!"output for {request} can't fit into a transaction of the allowed size."
  | .inconsistentFulfilment request fulfilled requested =>
    s!"request {request} was fulfilled with {fulfilled} sats while {requested} sats were requested."

/-- An output that pays a request, or a part of it. -/
structure Payment where
  request : OutputRequest
  amount : Nat
  script : Bytes
deriving DecidableEq

/-- The output of a payment. -/
def Payment.output (p : Payment) : TxOut := ⟨p.amount, p.script⟩

/-- A transaction under construction. The fee is known once the draft is closed. -/
structure Draft where
  inputs : List PoolCredit
  payments : List Payment
  change : Option TxOut
  closed : Bool
  fee : Nat
deriving DecidableEq

namespace Draft

/-- A draft without inputs and payments. -/
def empty : Draft := ⟨[], [], none, false, 0⟩

instance : Inhabited Draft := ⟨empty⟩

/-! ## Sums -/

/-- The sum of the inputs. -/
def inputTotal (d : Draft) : Nat := PoolCredit.total d.inputs

/-- The sum of the payments. -/
def outputTotal (d : Draft) : Nat := Amount.total (d.payments.map (·.amount))

/-- The amount of the change output, zero if there is none. -/
def changeAmount (d : Draft) : Nat := (d.change.map (·.value)).getD 0

/-- The position of the change output, which is behind all payments. -/
def changeVout? (d : Draft) : Option Nat := d.change.map fun _ => d.payments.length

/-! ## Parts -/

/-- Adds an input. -/
def addInput (d : Draft) (credit : PoolCredit) : Draft :=
  { d with inputs := d.inputs ++ [credit] }

/-- Adds a payment of a whole request. -/
def addPayment (d : Draft) (request : OutputRequest) (script : Bytes) : Draft :=
  { d with payments := d.payments ++ [⟨request, request.amount, script⟩] }

/-- The draft without its last input, and that input. -/
def popInput? (d : Draft) : Option (PoolCredit × Draft) :=
  d.inputs.getLast?.map fun credit => (credit, { d with inputs := d.inputs.dropLast })

/-- The draft without its last payment, and that payment. -/
def popPayment? (d : Draft) : Option (Payment × Draft) :=
  d.payments.getLast?.map fun p => (p, { d with payments := d.payments.dropLast })

/-- The draft with another amount for its last payment. -/
def setLastAmount (d : Draft) (amount : Nat) : Draft :=
  { d with payments := d.payments.modify (d.payments.length - 1) fun p => { p with amount } }

/-! ## Shape, fee and funding -/

/-- The longest signature in a script, with the byte for its length. -/
def maxSignaturePush : Nat := 74

/-- The length of a signature script with the longest signatures for an address. -/
def maxScriptLength (a : PoolAddress) : Nat :=
  let redeem := a.redeem.length
  1 + maxSignaturePush * a.required.toNat + redeem + 1 + CompactSize.size redeem

/-- The lengths of the output scripts, with one for the change: while there is no change output,
that of the first payment stands in for it. -/
def outputScriptLengths (d : Draft) : List Nat :=
  let paid := d.payments.map (·.script.length)
  match d.change with
  | some change => paid ++ [change.script.length]
  | none => paid ++ paid.head?.toList

/-- The shape of the signed transaction, at most. -/
def shape (d : Draft) : TxShape :=
  let outputs := d.outputScriptLengths
  ⟨Tx.sizeWith (d.inputs.map fun c => maxScriptLength c.address) outputs,
    d.inputs.length, outputs.length⟩

/-- The fee that a policy asks for. -/
def requiredFee (P : TxPolicy) (d : Draft) : Nat := P.fee d.shape

/-- Whether a policy finds the draft too big. -/
def isTooBig (P : TxPolicy) (d : Draft) : Bool := P.isTooBig d.shape

/-- Whether the inputs cover the payments and the fee. -/
def isFunded (P : TxPolicy) (d : Draft) : Bool := d.outputTotal + d.requiredFee P ≤ d.inputTotal

/-- Closes a draft: what is left after the payments and the fee goes to a change output, if
anything is left, else to the fee. -/
def addChange (P : TxPolicy) (d : Draft) (script : Bytes) : Except PreconditionError Draft :=
  if d.closed then .error .changeAlreadyAdded
  else
    let fee := d.requiredFee P
    let spent := d.outputTotal + fee
    if spent < d.inputTotal then
      .ok { d with closed := true, fee, change := some ⟨d.inputTotal - spent, script⟩ }
    else .ok { d with closed := true, fee := d.inputTotal - d.outputTotal }

/-- Takes inputs out from the last one on while the rest still funds the payments; also gives the
inputs taken out, the last one first. The inputs are passed from the last one on. -/
def shed (P : TxPolicy) (d : Draft) : (reversed : List PoolCredit) → List PoolCredit × Draft
  | [] => ([], { d with inputs := [] })
  | credit :: rest =>
    let d' := { d with inputs := (credit :: rest).reverse }
    if d'.isFunded P then
      let (removed, d'') := shed P d rest
      (credit :: removed, d'')
    else ([], d')

/-- Takes out the last payment, and the inputs that the others do not need, the last one first.
One input is taken out too many and put back. -/
def rollBack (P : TxPolicy) (d : Draft) :
    Except PreconditionError (List PoolCredit × Payment × Draft) :=
  match d.popPayment? with
  | some (payment, d') =>
    if d'.payments.isEmpty then .error (.rollbackNeedsTwoOutputs d.payments.length)
    else
      let (removed, d'') := d'.shed P d'.inputs.reverse
      match removed.getLast? with
      | some credit => .ok (removed.dropLast, payment, d''.addInput credit)
      | none => .ok (removed, payment, d'')
  | none => .error (.rollbackNeedsTwoOutputs d.payments.length)

/-! ## The transaction -/

/-- The version of the transactions that the pool makes. -/
def txVersion : Int32 := 2

/-- The sequence number of all inputs. -/
def finalSequence : UInt32 := 0xffffffff

/-- The unsigned transaction: the payments in their order, then the change. -/
def toTx (d : Draft) : Tx where
  version := txVersion
  inputs := d.inputs.map fun c => ⟨c.outpoint, [], finalSequence⟩
  outputs := d.payments.map Payment.output ++ d.change.toList
  lockTime := 0

/-- The identifier of the transaction, signed or not. -/
def ntxid (d : Draft) : Hash256 := d.toTx.txid

end Draft

end NotaryPool
