import NotaryPool.OrderedMap
import NotaryPool.Withdrawal.Draft
import NotaryPool.Withdrawal.Signing

/-!
# The outcome of a round

* `OutputStatus`, `RequestOutcome`: what became of a request;
* `WithdrawalTx`: a transaction of a round, and what is needed to sign it;
* `RoundStatus`: the outcome as a whole;
* `WithdrawalTx.sign`, `RoundStatus.signTransactions`: signing with the entries of all members.
-/

namespace NotaryPool

/-! ## Requests -/

/-- What became of a request. -/
inductive OutputStatus where
  /-- Paid in full by one output. -/
  | success
  /-- Paid in full by outputs of more than one transaction. -/
  | split
  /-- Paid in part or not at all. -/
  | unpaid
  /-- The address is none of the network. -/
  | invalid
deriving DecidableEq, Repr

/-- The word for a status. -/
def OutputStatus.word : OutputStatus → String
  | .success => "success"
  | .split => "split"
  | .unpaid => "partial-"
  | .invalid => "invalid"

/-- An output that pays a request, or a part of it. -/
structure PaidOutpoint where
  ntxid : Hash256
  index : Nat
  amount : Nat
deriving DecidableEq

/-- The text of the place of the output. -/
def PaidOutpoint.toText (o : PaidOutpoint) : String := s!"{txidText o.ntxid}:{o.index}"

/-- A request, what became of it, and the outputs that pay it. -/
structure RequestOutcome where
  request : OutputRequest
  status : OutputStatus
  outpoints : List PaidOutpoint
deriving DecidableEq

namespace RequestOutcome

/-- The identity of the request. -/
def id (o : RequestOutcome) : RequestId := o.request.id

/-- The sum of the outputs that pay the request. -/
def fulfilled (o : RequestOutcome) : Nat := Amount.total (o.outpoints.map (·.amount))

end RequestOutcome

/-! ## Transactions -/

/-- A transaction of a round, with the addresses and the outputs that its inputs spend. -/
structure WithdrawalTx where
  tx : Tx
  ntxid : Hash256
  fee : Nat
  changeVout : Option Nat
  addresses : List PoolAddress
  prevouts : List TxOut
deriving DecidableEq

namespace WithdrawalTx

/-- The transaction of a draft. -/
def ofDraft (d : Draft) : WithdrawalTx where
  tx := d.toTx
  ntxid := d.ntxid
  fee := d.fee
  changeVout := d.changeVout?
  addresses := d.inputs.map (·.address)
  prevouts := d.inputs.map PoolCredit.prevout

/-- The change output. -/
def change? (w : WithdrawalTx) : Option TxOut := w.changeVout.bind fun vout => w.tx.outputs[vout]?

/-- Signs the inputs from number `no` on, one after the other. -/
def signFrom (K : KeyScheme) (prevouts : List TxOut) :
    (no : Nat) → List (PoolAddress × InputSignatures) → Tx → Except TxSigningError Tx
  | _, [], tx => .ok tx
  | no, (address, sigs) :: rest, tx =>
    match Signing.signInput K tx no prevouts address.redeem sigs with
    | .ok tx => signFrom K prevouts (no + 1) rest tx
    | .error e => .error e

/-- Signs all inputs and checks each. -/
def sign (K : KeyScheme) (w : WithdrawalTx) (sigs : TxSignatures) : Except TxSigningError Tx :=
  if sigs.length ≠ w.addresses.length then
    .error (.sigCountMismatch sigs.length w.addresses.length)
  else signFrom K w.prevouts 0 (w.addresses.zip sigs) w.tx

end WithdrawalTx

/-! ## The round -/

/-- The outcome of a round: the change address for the next one, the fees, what became of the
requests, and the transactions with the signatures of this member. -/
structure RoundStatus where
  roundId : UInt32
  nextChange : ChangeAddress
  fees : Nat
  outcomes : List RequestOutcome
  sigs : OrderedMap Hash256 TxSignatures
  transactions : OrderedMap Hash256 WithdrawalTx
deriving DecidableEq

namespace RoundStatus

/-- Signs a transaction with the entries for it. Without entries it cannot be signed. -/
def signTransaction (K : KeyScheme) (sigs : OrderedMap Hash256 TxSignatures) (ntxid : Hash256)
    (w : WithdrawalTx) : Except TxSigningError Tx :=
  match sigs.find? ntxid with
  | some entries => w.sign K entries
  | none => .error (.sigCountMismatch 0 w.addresses.length)

/-- Signs each transaction with the given entries; one that fails leaves the others alone. -/
def signTransactions (K : KeyScheme) (s : RoundStatus) (sigs : OrderedMap Hash256 TxSignatures) :
    List (Hash256 × Except TxSigningError Tx) :=
  s.transactions.entries.map fun (ntxid, w) => (ntxid, signTransaction K sigs ntxid w)

end RoundStatus

end NotaryPool
