import NotaryPool.Panic
import NotaryPool.Withdrawal.Round
import NotaryPool.Withdrawal.Selection

/-!
# Withdrawals with panics

The operations on credits, drafts and rounds that compute with words: heights in 32 bits, amounts
and fees in 64. Sums of amounts alone never panic, since they stop at the largest amount. The last
step of a round reads the keys of addresses by their positions.

* `Eligibility.Checked.allows`, `Selection.Checked.eligible`: credits that may be spent;
* `Draft.Checked.isFunded`, `Draft.Checked.addChange`, `Draft.Checked.rollBack`: drafts;
* `Round.Checked.splitLast`, `Round.Checked.turn`, `Round.Checked.fulfil`: the parts of a round;
* `Round.Checked.run`: a whole round.
-/

namespace NotaryPool

/-! ## Credits -/

namespace Eligibility.Checked

variable {ε : Type}

/-- How many blocks confirm an output. -/
def confirmations (height : Option Nat) (chainHeight : Nat) : Except (Stop ε) Nat :=
  match height with
  | some h => do
    if h ≤ chainHeight then Word.add 32 (← Word.sub chainHeight h) 1 else return 0
  | none => .ok 0

/-- Whether a credit may be spent. The confirmations of dust are not computed. -/
def allows (rules : Eligibility) (c : PoolCredit) : Except (Stop ε) Bool := do
  if rules.dustThreshold ≤ c.amount then
    let confirmed ← confirmations c.height rules.chainHeight
    return rules.minConfirmations ≤ confirmed && rules.charter != some c.outpoint
  else return false

/-- The credits that may be spent, as they came. -/
def allowed (rules : Eligibility) : List PoolCredit → Except (Stop ε) (List PoolCredit)
  | [] => .ok []
  | c :: rest => do
    let spendable ← allows rules c
    let others ← allowed rules rest
    return if spendable then c :: others else others

end Eligibility.Checked

namespace Selection.Checked

open Eligibility.Checked (allowed)

/-- The outputs at an address that may be spent, as they came. -/
def creditsAt {ε : Type} (address : PoolAddress) (unspent : List UnspentOutput)
    (rules : Eligibility) : Except (Stop ε) (List PoolCredit) :=
  let script := address.script
  let here := unspent.filter fun output => output.script = script
  allowed rules (here.map (PoolCredit.ofUnspent · address))

/-- The credits at the addresses of a range. -/
def creditsIn (K : KeyScheme) (book : SeriesBook) (unspent : List UnspentOutput)
    (rules : Eligibility) (range : AddressRange) : Except (Stop DeriveError) (List PoolCredit) :=
  range.collect fun branch index => do
    creditsAt (← Stop.lift (book.poolAddress K range.series branch index)) unspent rules

/-- The credits at the addresses of all ranges, as they are found. -/
def creditsInAll (K : KeyScheme) (book : SeriesBook) (unspent : List UnspentOutput)
    (rules : Eligibility) : List AddressRange → Except (Stop DeriveError) (List PoolCredit)
  | [] => .ok []
  | range :: rest => do
    let found ← creditsIn K book unspent rules range
    return found ++ (← creditsInAll K book unspent rules rest)

/-- All credits in the ranges that may be spent, in the order of spending. -/
def eligible (K : KeyScheme) (book : SeriesBook) (unspent : List UnspentOutput)
    (ranges : List AddressRange) (rules : Eligibility) :
    Except (Stop SelectionError) (List PoolCredit) :=
  match inputError? unspent ranges with
  | some e => .error (.error e)
  | none => do
    let found ← (creditsInAll K book unspent rules ranges).mapError (.map .derive)
    let credits := PoolCredit.sort found
    match Series.adjacent? (fun a b => PoolCredit.order a b == .eq) credits with
    | some credit => throw (.error (.duplicateCredit credit.outpoint))
    | none => return credits

end Selection.Checked

/-! ## Drafts -/

namespace Draft.Checked

variable {ε : Type}

/-- Adds an input to a draft that is not closed. -/
def addInput (d : Draft) (credit : PoolCredit) : Except (Stop ε) Draft :=
  if d.closed then .error (.panic .assertion) else .ok (d.addInput credit)

/-- Adds a payment of a whole request to a draft that is not closed. -/
def addPayment (d : Draft) (request : OutputRequest) (script : Bytes) : Except (Stop ε) Draft :=
  if d.closed then .error (.panic .assertion) else .ok (d.addPayment request script)

/-- The fee that a policy asks for. A policy adds and multiplies, so that one of its steps panics
just when the fee has no place in a word. -/
def requiredFee (P : TxPolicy) (d : Draft) : Except (Stop ε) Nat := Word.fit 64 (d.requiredFee P)

/-- What the payments and the fee take together. -/
def spent (P : TxPolicy) (d : Draft) : Except (Stop ε) Nat := do
  Word.add 64 d.outputTotal (← requiredFee P d)

/-- Whether the inputs cover the payments and the fee. -/
def isFunded (P : TxPolicy) (d : Draft) : Except (Stop ε) Bool := do
  return (← spent P d) ≤ d.inputTotal

/-- Closes a draft. -/
def addChange (P : TxPolicy) (d : Draft) (script : Bytes) : Except (Stop PreconditionError) Draft :=
  if d.closed then .error (.error .changeAlreadyAdded)
  else do
    let fee ← requiredFee P d
    let spent ← Word.add 64 d.outputTotal fee
    if spent < d.inputTotal then
      return { d with closed := true, fee, change := some ⟨d.inputTotal - spent, script⟩ }
    else return { d with closed := true, fee := d.inputTotal - d.outputTotal }

/-- Takes inputs out from the last one on while the rest still funds the payments. The draft without
inputs is asked, too. -/
def shed (P : TxPolicy) (d : Draft) :
    (reversed : List PoolCredit) → Except (Stop ε) (List PoolCredit × Draft)
  | [] => do
    let d' := { d with inputs := [] }
    let _ ← isFunded P d'
    return ([], d')
  | credit :: rest => do
    let d' := { d with inputs := (credit :: rest).reverse }
    if ← isFunded P d' then
      let (removed, d'') ← shed P d rest
      return (credit :: removed, d'')
    else return ([], d')

/-- Takes out the last payment, and the inputs that the others do not need. -/
def rollBack (P : TxPolicy) (d : Draft) :
    Except (Stop PreconditionError) (List PoolCredit × Payment × Draft) :=
  match d.popPayment? with
  | some (payment, d') =>
    if d'.payments.isEmpty then .error (.error (.rollbackNeedsTwoOutputs d.payments.length))
    else do
      let (removed, d'') ← shed P d' d'.inputs.reverse
      match removed.getLast? with
      | some credit => return (removed.dropLast, payment, d''.addInput credit)
      | none => return (removed, payment, d'')
  | none => .error (.error (.rollbackNeedsTwoOutputs d.payments.length))

end Draft.Checked

/-! ## Rounds -/

namespace Round.Checked

/-- Splits off requests from the front until the rest asks for no more than is available. -/
def splitAffordable {ε : Type} (available : Nat) : (asked : Nat) → List DueRequest →
    Except (Stop ε) (List DueRequest × List DueRequest)
  | _, [] => .ok ([], [])
  | asked, due :: rest => do
    if available < asked then
      let left ← Word.sub asked due.request.amount
      let (dropped, kept) ← splitAffordable available left rest
      return (due :: dropped, kept)
    else return ([], due :: rest)

/-- Drops the largest requests while all together ask for more than the credits hold. -/
def dropUnaffordable {ε : Type} (r : Round) : Except (Stop ε) Round := do
  let available := PoolCredit.total r.eligible
  let asked := requested r.pending
  if asked ≤ available then return r
  else
    let (dropped, kept) ← splitAffordable available asked (sortBy dropOrder r.pending)
    return dropped.foldl (fun r due => r.setStatus due.request.id .unpaid)
      { r with pending := kept }

/-- Cuts the last payment down to what the inputs leave after the other payments and the fee. -/
def splitLast (P : TxPolicy) (r : Round) : Except (Stop Halt) Round := do
  let fee ← Draft.Checked.requiredFee P r.current
  match r.current.popPayment? with
  | none => throw (.error ⟨.precondition .nothingToSplit, r⟩)
  | some (last, rest) =>
    let others ← Word.sub r.current.outputTotal last.amount
    let taken ← Word.add 64 others fee
    let unspent := r.current.inputTotal - taken
    if unspent = 0 then return { r with current := rest }.setStatus last.request.id .unpaid
    else
      let remainder := last.request.withAmount (← Word.sub last.amount unspent)
      let r := { r with current := r.current.setLastAmount unspent }.setStatus remainder.id .unpaid
      return { r with pending := ⟨remainder, last.script⟩ :: r.pending }

/-- Closes the transaction under construction and begins a new one. -/
def finish (K : KeyScheme) (P : TxPolicy) (r : Round) : Except (Stop Halt) Round := do
  if r.current.payments.isEmpty then return r
  else
    let fresh := { r with current := .empty }
    let draft ← (Draft.Checked.addChange P r.current r.nextChange.script).mapError
      (.map fun e => ⟨.precondition e, fresh⟩)
    let r ← Stop.lift (advanceChange K draft fresh)
    let r ← Stop.lift (notePayments draft.ntxid 0 draft.payments r)
    return { r with finalized := r.finalized ++ [draft] }

/-- Makes a transaction smaller that has become too big, and closes it. -/
def relieve (K : KeyScheme) (P : TxPolicy) (r : Round) : Except (Stop Halt) Round :=
  match r.current.payments with
  | [] => .error (.error ⟨.precondition .oversizeWithoutOutputs, r⟩)
  | [only] =>
    let fault := RoundError.precondition (.unsplittable only.request.id)
    match r.current.popInput? with
    | none => .error (.error ⟨fault, r⟩)
    | some (credit, draft) => do
      let r := { r with current := draft, eligible := credit :: r.eligible }
      let fee ← Draft.Checked.requiredFee P draft
      if draft.inputTotal ≤ fee then throw (.error ⟨fault, r⟩)
      else finish K P (← splitLast P r)
  | _ => do
    let (removed, payment, draft) ← (Draft.Checked.rollBack P r.current).mapError
      (.map fun e => ⟨.precondition e, r⟩)
    finish K P
      { r with
        current := draft
        eligible := removed.reverse ++ r.eligible
        pending := ⟨payment.request, payment.script⟩ :: r.pending }

/-- Takes credits from the queue until they fund the payments. -/
def fundFrom (K : KeyScheme) (P : TxPolicy) : List PoolCredit → Round → Except (Stop Halt) Round
  | [], r => do
    let r := { r with eligible := [] }
    if ← Draft.Checked.isFunded P r.current then return r else splitLast P r
  | credit :: rest, r => do
    if ← Draft.Checked.isFunded P r.current then return { r with eligible := credit :: rest }
    else
      let current ← Draft.Checked.addInput r.current credit
      let r := { r with current, eligible := rest }
      if r.current.isTooBig P then relieve K P r else fundFrom K P rest r

/-- Pays the next request. -/
def turn (K : KeyScheme) (P : TxPolicy) (r : Round) : Except (Stop Halt) Round :=
  match r.pending with
  | [] => .ok r
  | due :: rest => do
    let r := { r with pending := rest }.setStatus due.request.id .success
    let current ← Draft.Checked.addPayment r.current due.request due.script
    let r := { r with current }
    if r.current.isTooBig P then relieve K P r else fundFrom K P r.eligible r

/-- Whether there is nothing left to pay with. Nothing is computed while credits are left. -/
def isExhausted {ε : Type} (P : TxPolicy) (r : Round) : Except (Stop ε) Bool := do
  if r.eligible.isEmpty then return r.current.inputTotal ≤ (← Draft.Checked.spent P r.current)
  else return false

/-- At most `count` turns. -/
def turns (K : KeyScheme) (P : TxPolicy) : (count : Nat) → Round → Except (Stop Halt) Round
  | 0, r => .ok r
  | count + 1, r => do
    if r.pending.isEmpty then return r
    else
      let r ← turn K P r
      if ← isExhausted P r then return r else turns K P count r

/-- Distributes the requests over transactions. -/
def fulfil (K : KeyScheme) (P : TxPolicy) (r : Round) : Except (Stop Halt) Round := do
  let r ← dropUnaffordable r
  let r := { r with
    pending := sortBy (fun a b => OutputRequest.order a.request b.request) r.pending }
  let r ← turns K P r.turnLimit r
  let r ← finish K P r
  return r.settle

/-- How a round ends with an error, or with a panic where an address has too few keys. -/
def stop : RoundError → Stop RoundError
  | .rawSigning (.noAddressKey _) => .panic .bounds
  | e => .error e

/-- A whole round. -/
def run (K : KeyScheme) (P : TxPolicy) (book : SeriesBook) (roundId : UInt32)
    (requests : List OutputRequest) (credits : List PoolCredit) (changeStart : ChangeAddress) :
    Except (Stop RoundError) RoundStatus := do
  let r ← Stop.lift (new book.network requests credits changeStart)
  let r ← (fulfil K P r).mapError (.map Halt.error)
  (r.toStatus K book roundId).mapError stop

end Round.Checked

end NotaryPool
