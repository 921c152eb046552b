import NotaryPool.Withdrawal.Status

/-!
# The store of credits and rounds

The store keeps the unspent outputs of the pool and the rounds that were processed.

* `RoundParams`, `RoundRecord`, `RoundCommit`: a round as it is stored;
* `CreditStore`: unspent outputs and rounds, on a medium that may fail;
* `CreditStore.commit`: takes a round in as a whole or not at all.
-/

namespace NotaryPool

/-- Why the store refuses an operation. -/
inductive CreditStoreError where
  | roundExists (round : UInt32)
  | unknownOutput (outpoint : Outpoint)
  | duplicateOutput (outpoint : Outpoint)
  | backend (text : String)
deriving DecidableEq

/-- The name of an error. -/
def CreditStoreError.name : CreditStoreError → String
  | .roundExists _ => "RoundExists"
  | .unknownOutput _ => "UnknownOutput"
  | .duplicateOutput _ => "DuplicateOutput"
  | .backend _ => "Backend"

/-- The text of an error. -/
def CreditStoreError.message : CreditStoreError → String
  | .roundExists round => s!"withdrawal round {round.toNat} is already stored."
  | .unknownOutput o => s!"output {o.toText} is not known as unspent."
  | .duplicateOutput o => s!"output {o.toText} is already stored."
  | .backend text => s!"storage backend failure: {text}"

/-- What a round was asked to do. A round is repeated only with the same parameters. -/
structure RoundParams where
  requests : List OutputRequest
  ranges : List AddressRange
  changeStart : SeriesId × Index
  dustThreshold : Nat
  minConfirmations : Nat
deriving DecidableEq

/-- A processed round. -/
structure RoundRecord where
  params : RoundParams
  status : RoundStatus
deriving DecidableEq

/-- What a round changes: the outputs that it spends and the change outputs that it makes. -/
structure RoundCommit where
  roundId : UInt32
  record : RoundRecord
  spent : List Outpoint
  change : List UnspentOutput
deriving DecidableEq

/-- The operations of the store that currently fail, each with its text. -/
structure StoreFaults where
  unspent : Option String := none
  round : Option String := none
  commit : Option String := none
deriving DecidableEq, Repr

/-- Unspent outputs in the order in which they came, and processed rounds. -/
structure CreditStore where
  unspent : OrderedMap Outpoint UnspentOutput
  rounds : OrderedMap UInt32 RoundRecord
  faults : StoreFaults

namespace CreditStore

/-- A store that holds nothing. -/
def empty : CreditStore := ⟨.empty, .empty, {}⟩

/-- Takes an output in. One that is there keeps its place. -/
def addUnspent (s : CreditStore) (output : UnspentOutput) : CreditStore :=
  { s with unspent := s.unspent.insert output.outpoint output }

/-- The unspent outputs. -/
def unspentOutputs (s : CreditStore) : Except CreditStoreError (List UnspentOutput) :=
  match s.faults.unspent with
  | some text => .error (.backend text)
  | none => .ok s.unspent.values

/-- A processed round. -/
def round (s : CreditStore) (id : UInt32) : Except CreditStoreError (Option RoundRecord) :=
  match s.faults.round with
  | some text => .error (.backend text)
  | none => .ok (s.rounds.find? id)

/-- Takes outputs out that must be there. -/
def spend : List Outpoint → OrderedMap Outpoint UnspentOutput →
    Except CreditStoreError (OrderedMap Outpoint UnspentOutput)
  | [], unspent => .ok unspent
  | outpoint :: rest, unspent =>
    if unspent.contains outpoint then spend rest (unspent.erase outpoint)
    else .error (.unknownOutput outpoint)

/-- Takes outputs in that must not be there. -/
def receive : List UnspentOutput → OrderedMap Outpoint UnspentOutput →
    Except CreditStoreError (OrderedMap Outpoint UnspentOutput)
  | [], unspent => .ok unspent
  | output :: rest, unspent =>
    if unspent.contains output.outpoint then .error (.duplicateOutput output.outpoint)
    else receive rest (unspent.insert output.outpoint output)

/-- Takes a round in; also gives the store afterwards, which is unchanged after an error. -/
def commit (s : CreditStore) (c : RoundCommit) : Except CreditStoreError Unit × CreditStore :=
  match s.faults.commit with
  | some text => (.error (.backend text), s)
  | none =>
    if s.rounds.contains c.roundId then (.error (.roundExists c.roundId), s)
    else
      match (spend c.spent s.unspent).bind (receive c.change) with
      | .error e => (.error e, s)
      | .ok unspent => (.ok (), { s with unspent, rounds := s.rounds.insert c.roundId c.record })

end CreditStore

end NotaryPool
