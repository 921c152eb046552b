import NotaryPool.Withdrawal.Status

/-!
# A withdrawal round

A round distributes requests over transactions that credits fund. It keeps two queues, requests
still to be paid and credits still to be spent, and one transaction under construction. When a
transaction gets too big, or the credits run out, the last payment is moved or split.

* `RoundError`, `Halt`: why a round stops, and what it had reached;
* `Round`: the state of a round;
* `Round.splitLast`, `Round.finish`, `Round.relieve`, `Round.fund`: the parts of a turn;
* `Round.turn`: pays the next request;
* `Round.fulfil`: turns until all is paid or the credits are used up;
* `Round.run`: a whole round, with its signatures.
-/

namespace NotaryPool

/-- Why a round stops. -/
inductive RoundError where
  | precondition (error : PreconditionError)
  | derive (error : DeriveError)
  | rawSigning (error : RawSigningError)
  | duplicateRequest (request : RequestId)
deriving DecidableEq

/-- The name of an error, followed by that of the one inside. -/
def RoundError.name : RoundError → String
  | .precondition e => "Precondition." ++ e.name
  | .derive e => "Derive." ++ e.name
  | .rawSigning e => "RawSigning." ++ e.name
  | .duplicateRequest _ => "DuplicateRequest"

/-- The text of an error. -/
def RoundError.message : RoundError → String
  | .precondition e => e.message
  | .derive e => e.message
  | .rawSigning e => e.message
  | .duplicateRequest request => s!"output request {request} is present more than once."

/-! ## State -/

/-- A request still to be paid, and the output script that it is paid to. -/
structure DueRequest where
  request : OutputRequest
  script : Bytes
deriving DecidableEq

/-- The state of a round. -/
structure Round where
  pending : List DueRequest
  eligible : List PoolCredit
  current : Draft
  finalized : List Draft
  outcomes : List RequestOutcome
  nextChange : ChangeAddress
  fees : Nat
deriving DecidableEq

/-- A round that stopped: why, and what it had reached. -/
structure Halt where
  error : RoundError
  round : Round
deriving DecidableEq

namespace Round

/-- The outcome of a request before the round, and the request as one to be paid if its address is
one of the network. -/
def intake (network : AddressNetwork) (request : OutputRequest) :
    RequestOutcome × Option DueRequest :=
  match request.script network with
  | .ok script => (⟨request, .unpaid, []⟩, some ⟨request, script⟩)
  | .error _ => (⟨request, .invalid, []⟩, none)

/-- The first request with the identity of one before it. -/
def duplicate? : (seen : List RequestId) → List OutputRequest → Option RequestId
  | _, [] => none
  | seen, request :: rest =>
    if request.id ∈ seen then some request.id else duplicate? (request.id :: seen) rest

/-- A round that has not begun. -/
def new (network : AddressNetwork) (requests : List OutputRequest) (credits : List PoolCredit)
    (changeStart : ChangeAddress) : Except RoundError Round :=
  match duplicate? [] requests with
  | some id => .error (.duplicateRequest id)
  | none =>
    let entries := requests.map (intake network)
    .ok { pending := entries.filterMap (·.2)
          eligible := PoolCredit.sort credits
          current := .empty
          finalized := []
          outcomes := entries.map (·.1)
          nextChange := changeStart
          fees := 0 }

/-- The round with another status for a request. -/
def setStatus (r : Round) (id : RequestId) (status : OutputStatus) : Round :=
  { r with outcomes := r.outcomes.map fun o => if o.id = id then { o with status } else o }

/-! ## Requests that the credits cannot pay -/

/-- The sum of the requests still to be paid. -/
def requested (pending : List DueRequest) : Nat :=
  Amount.total (pending.map (·.request.amount))

/-- The order in which requests are dropped: larger amounts first. -/
def dropOrder (a b : DueRequest) : Ordering :=
  (compare b.request.amount a.request.amount).then (OutputRequest.order a.request b.request)

/-- Requests sorted by an order; equal ones stay as they came. -/
def sortBy (order : DueRequest → DueRequest → Ordering) (pending : List DueRequest) :
    List DueRequest :=
  pending.mergeSort fun a b => order a b != .gt

/-- Splits off requests from the front until the rest asks for no more than is available. -/
def splitAffordable (available : Nat) : (asked : Nat) → List DueRequest →
    List DueRequest × List DueRequest
  | _, [] => ([], [])
  | asked, due :: rest =>
    if available < asked then
      let (dropped, kept) := splitAffordable available (asked - due.request.amount) rest
      (due :: dropped, kept)
    else ([], due :: rest)

/-- Drops the largest requests while all together ask for more than the credits hold. -/
def dropUnaffordable (r : Round) : Round :=
  let available := PoolCredit.total r.eligible
  let asked := requested r.pending
  if asked ≤ available then r
  else
    let (dropped, kept) := splitAffordable available asked (sortBy dropOrder r.pending)
    dropped.foldl (fun r due => r.setStatus due.request.id .unpaid) { r with pending := kept }

/-! ## Parts of a turn -/

/-- Cuts the last payment down to what the inputs leave after the other payments and the fee, and
puts the rest of the request back in front. A payment for which nothing is left is removed. -/
def splitLast (P : TxPolicy) (r : Round) : Except Halt Round :=
  match r.current.popPayment? with
  | none => .error ⟨.precondition .nothingToSplit, r⟩
  | some (last, rest) =>
    let fee := r.current.requiredFee P
    let others := r.current.outputTotal - last.amount
    let unspent := r.current.inputTotal - (others + fee)
    if unspent = 0 then .ok ({ r with current := rest }.setStatus last.request.id .unpaid)
    else
      let remainder := last.request.withAmount (last.amount - unspent)
      let r := { r with current := r.current.setLastAmount unspent }.setStatus remainder.id .unpaid
      .ok { r with pending := ⟨remainder, last.script⟩ :: r.pending }

/-- Notes an output with an outcome. A request that counts as paid by one output must then be paid
in full. -/
def notePayment (ntxid : Hash256) (index : Nat) (p : Payment) (outcomes : List RequestOutcome) :
    List RequestOutcome :=
  outcomes.map fun o =>
    if o.id = p.request.id then
      { o with outpoints := o.outpoints ++ [⟨ntxid, index, p.amount⟩] }
    else o

/-- The fault of an outcome that counts as paid but is not paid in full. -/
def fulfilmentFault? (id : RequestId) (outcomes : List RequestOutcome) :
    Option PreconditionError :=
  match outcomes.find? (·.id = id) with
  | some o =>
    if o.status = .success ∧ o.fulfilled ≠ o.request.amount then
      some (.inconsistentFulfilment id o.fulfilled o.request.amount)
    else none
  | none => none

/-- Notes the payments of a transaction, from output `index` on, with their outcomes. -/
def notePayments (ntxid : Hash256) : (index : Nat) → List Payment → Round → Except Halt Round
  | _, [], r => .ok r
  | index, p :: rest, r =>
    let r := { r with outcomes := notePayment ntxid index p r.outcomes }
    match fulfilmentFault? p.request.id r.outcomes with
    | some e => .error ⟨.precondition e, r⟩
    | none => notePayments ntxid (index + 1) rest r

/-- Moves on to the next change address if a closed draft took the present one. -/
def advanceChange (K : KeyScheme) (draft : Draft) (r : Round) : Except Halt Round :=
  if draft.change.isSome then
    match r.nextChange.next K with
    | .ok nextChange => .ok { r with nextChange }
    | .error e => .error ⟨.derive e, r⟩
  else .ok r

/-- Closes the transaction under construction and begins a new one. One without payments stays. -/
def finish (K : KeyScheme) (P : TxPolicy) (r : Round) : Except Halt Round :=
  if r.current.payments.isEmpty then .ok r
  else
    let fresh := { r with current := .empty }
    match r.current.addChange P r.nextChange.script with
    | .error e => .error ⟨.precondition e, fresh⟩
    | .ok draft =>
      match advanceChange K draft fresh with
      | .error h => .error h
      | .ok r =>
        match notePayments draft.ntxid 0 draft.payments r with
        | .error h => .error h
        | .ok r => .ok { r with finalized := r.finalized ++ [draft] }

/-- Makes a transaction smaller that has become too big, and closes it. The only payment is split
after the last input went back to the queue; of several, the last one goes back to the queue. -/
def relieve (K : KeyScheme) (P : TxPolicy) (r : Round) : Except Halt Round :=
  match r.current.payments with
  | [] => .error ⟨.precondition .oversizeWithoutOutputs, r⟩
  | [only] =>
    let fault := RoundError.precondition (.unsplittable only.request.id)
    match r.current.popInput? with
    | none => .error ⟨fault, r⟩
    | some (credit, draft) =>
      let r := { r with current := draft, eligible := credit :: r.eligible }
      if draft.inputTotal ≤ draft.requiredFee P then .error ⟨fault, r⟩
      else
        match r.splitLast P with
        | .error h => .error h
        | .ok r => r.finish K P
  | _ =>
    match r.current.rollBack P with
    | .error e => .error ⟨.precondition e, r⟩
    | .ok (removed, payment, draft) =>
      finish K P
        { r with
          current := draft
          eligible := removed.reverse ++ r.eligible
          pending := ⟨payment.request, payment.script⟩ :: r.pending }

/-- Takes credits from the queue until they fund the payments. The last payment is split when the
credits run out. -/
def fundFrom (K : KeyScheme) (P : TxPolicy) : List PoolCredit → Round → Except Halt Round
  | [], r =>
    let r := { r with eligible := [] }
    if r.current.isFunded P then .ok r else r.splitLast P
  | credit :: rest, r =>
    if r.current.isFunded P then .ok { r with eligible := credit :: rest }
    else
      let r := { r with current := r.current.addInput credit, eligible := rest }
      if r.current.isTooBig P then r.relieve K P else fundFrom K P rest r

/-- Takes credits from the queue until they fund the payments. -/
def fund (K : KeyScheme) (P : TxPolicy) (r : Round) : Except Halt Round :=
  fundFrom K P r.eligible r

/-! ## The main loop -/

/-- Pays the next request. -/
def turn (K : KeyScheme) (P : TxPolicy) (r : Round) : Except Halt Round :=
  match r.pending with
  | [] => .ok r
  | due :: rest =>
    let r := { r with pending := rest }.setStatus due.request.id .success
    let r := { r with current := r.current.addPayment due.request due.script }
    if r.current.isTooBig P then r.relieve K P else r.fund K P

/-- Whether there is nothing left to pay with. -/
def isExhausted (P : TxPolicy) (r : Round) : Bool :=
  r.eligible.isEmpty && r.current.inputTotal ≤ r.current.outputTotal + r.current.requiredFee P

/-- At most `count` turns. The loop ends before when nothing is left to pay, or to pay with. -/
def turns (K : KeyScheme) (P : TxPolicy) : (count : Nat) → Round → Except Halt Round
  | 0, r => .ok r
  | count + 1, r =>
    if r.pending.isEmpty then .ok r
    else
      match r.turn K P with
      | .error h => .error h
      | .ok r => if r.isExhausted P then .ok r else turns K P count r

/-- As many turns as a round can take. A request counts twice, since it may be put back once for
each time that it is taken; a credit counts once, since each one put back closes a transaction. -/
def turnLimit (r : Round) : Nat :=
  2 * r.pending.length + r.current.payments.length + r.eligible.length + r.current.inputs.length
    + 1

/-- Turns until nothing is left to pay, or to pay with. -/
def payAll (K : KeyScheme) (P : TxPolicy) (r : Round) : Except Halt Round :=
  turns K P r.turnLimit r

/-- Marks what stays unpaid, tells requests paid by several outputs apart, and sums the fees. -/
def settle (r : Round) : Round :=
  let unpaid := r.pending.foldl (fun r due => r.setStatus due.request.id .unpaid)
    { r with pending := [] }
  { unpaid with
    outcomes := unpaid.outcomes.map fun o =>
      if o.status = .success ∧ 1 < o.outpoints.length then { o with status := .split } else o
    fees := Amount.total (r.finalized.map (·.fee)) }

/-- Distributes the requests over transactions. -/
def fulfil (K : KeyScheme) (P : TxPolicy) (r : Round) : Except Halt Round :=
  let r := r.dropUnaffordable
  let r := { r with
    pending := sortBy (fun a b => OutputRequest.order a.request b.request) r.pending }
  match r.payAll K P with
  | .error h => .error h
  | .ok r =>
    match r.finish K P with
    | .error h => .error h
    | .ok r => .ok r.settle

/-! ## A whole round -/

/-- Signs the finalized transactions with the private keys of a member. -/
def signAll (K : KeyScheme) (book : SeriesBook) (finalized : List Draft) :
    Except RawSigningError (List (WithdrawalTx × TxSignatures)) :=
  finalized.mapM fun draft => do
    let w := WithdrawalTx.ofDraft draft
    return (w, ← Signing.rawSignatures K book w.tx draft.inputs)

/-- The outcome of a round, with the signatures of a member. -/
def toStatus (K : KeyScheme) (book : SeriesBook) (roundId : UInt32) (r : Round) :
    Except RoundError RoundStatus :=
  match signAll K book r.finalized with
  | .error e => .error (.rawSigning e)
  | .ok signed =>
    .ok { roundId
          nextChange := r.nextChange
          fees := r.fees
          outcomes := r.outcomes
          sigs := .ofList (signed.map fun (w, sigs) => (w.ntxid, sigs))
          transactions := .ofList (signed.map fun (w, _) => (w.ntxid, w)) }

/-- A whole round: distributes the requests over transactions that spend the credits, and signs
these with the private keys in the book. -/
def run (K : KeyScheme) (P : TxPolicy) (book : SeriesBook) (roundId : UInt32)
    (requests : List OutputRequest) (credits : List PoolCredit) (changeStart : ChangeAddress) :
    Except RoundError RoundStatus :=
  match new book.network requests credits changeStart with
  | .error e => .error e
  | .ok r =>
    match r.fulfil K P with
    | .error h => .error h.error
    | .ok r => r.toStatus K book roundId

end Round

end NotaryPool
