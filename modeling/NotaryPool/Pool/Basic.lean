import NotaryPool.Pool.Error

/-!
# The pool

A pool is a registry of series together with the store of the credits that they control.

* `Pool`: the state of a pool;
* `Pool.create`, `Pool.replace`, `Pool.empower`: changes of the registry;
* `Pool.depositAddress`, `Pool.changeAddress`: addresses;
* `Pool.eligibleCredits`: credits that may be spent;
* `Pool.withdraw`: processes a round, once.
-/

namespace NotaryPool

/-- The state of a pool. The charter output is never spent. -/
structure Pool where
  registry : Registry
  credits : CreditStore
  settings : Settings
  charter : Option Outpoint

namespace Pool

/-- A pool without a charter. -/
def new (registry : Registry) (credits : CreditStore) (settings : Settings) : Pool :=
  ⟨registry, credits, settings, none⟩

/-! ## Series -/

/-- Takes over what a change of the registry gave. -/
def withRegistry (p : Pool) (changed : Except RegistryError Unit × Registry) :
    Except PoolError Unit × Pool :=
  (changed.1.mapError .registry, { p with registry := changed.2 })

/-- Creates a series. -/
def create (K : KeyScheme) (p : Pool) (version : UInt32) (id : SeriesId) (required : UInt8)
    (texts : List String) : Except PoolError Unit × Pool :=
  p.withRegistry (p.registry.create K version id required texts)

/-- Replaces the keys of a series that has no private keys yet. -/
def replace (K : KeyScheme) (p : Pool) (version : UInt32) (id : SeriesId) (required : UInt8)
    (texts : List String) : Except PoolError Unit × Pool :=
  p.withRegistry (p.registry.replace K version id required texts)

/-- Attaches a private key to a series. -/
def empower (K : KeyScheme) (p : Pool) (id : SeriesId) (text : String) :
    Except PoolError Unit × Pool :=
  p.withRegistry (p.registry.empower K id text)

/-! ## Addresses -/

/-- The address at a place. -/
def depositAddress (K : KeyScheme) (p : Pool) (id : SeriesId) (branch : Branch) (index : Index) :
    Except PoolError PoolAddress :=
  (p.registry.book.poolAddress K id branch index).mapError .derive

/-- The change address at a place. -/
def changeAddress (K : KeyScheme) (p : Pool) (id : SeriesId) (index : Index) :
    Except PoolError ChangeAddress :=
  (p.registry.book.changeAddress K id index).mapError .derive

/-! ## Withdrawals -/

/-- The credits in some ranges that may be spent when the chain has a given height. -/
def eligibleCredits (K : KeyScheme) (p : Pool) (ranges : List AddressRange) (chainHeight : Nat) :
    Except PoolError (List PoolCredit) := do
  let unspent ← p.credits.unspentOutputs.mapError .store
  let rules := p.settings.eligibility chainHeight p.charter
  (Selection.eligible K p.registry.book unspent ranges rules).mapError .selection

/-- What a round is asked to do. -/
def params (p : Pool) (requests : List OutputRequest) (ranges : List AddressRange)
    (changeStart : SeriesId × Index) : RoundParams :=
  ⟨requests, ranges, changeStart, p.settings.dustThreshold, p.settings.minConfirmations⟩

/-- The change output of a transaction that could be signed, as an unspent output. -/
def changeOutput? (status : RoundStatus) (ntxid : Hash256) (signed : Except TxSigningError Tx) :
    Option UnspentOutput := do
  let tx ← signed.toOption
  let w ← status.transactions.find? ntxid
  let vout ← w.changeVout
  let output ← w.change?
  return ⟨⟨tx.txid, UInt32.ofNat vout⟩, output.value, output.script, none⟩

/-- What a round changes in the store. Change can be spent on only once its transaction is signed,
since the signatures decide its identifier. -/
def commitOf (K : KeyScheme) (roundId : UInt32) (params : RoundParams) (status : RoundStatus) :
    RoundCommit where
  roundId := roundId
  record := ⟨params, status⟩
  spent := status.transactions.values.flatMap fun w => w.tx.inputs.map (·.prev)
  change := (status.signTransactions K status.sigs).filterMap fun (ntxid, signed) =>
    changeOutput? status ntxid signed

/-- Computes a round that is not in the store yet. -/
def newRound (K : KeyScheme) (p : Pool) (roundId : UInt32) (params : RoundParams)
    (chainHeight : Nat) : Except PoolError RoundStatus := do
  let changeStart ← p.changeAddress K params.changeStart.1 params.changeStart.2
  let credits ← p.eligibleCredits K params.ranges chainHeight
  (Round.run K p.settings.toStandardPolicy.toPolicy p.registry.book roundId params.requests credits
    changeStart).mapError .withdrawal

/-- Processes a round. One that is in the store is not processed again: asked for with the same
parameters it gives its stored outcome. -/
def withdraw (K : KeyScheme) (p : Pool) (roundId : UInt32) (requests : List OutputRequest)
    (ranges : List AddressRange) (changeStart : SeriesId × Index) (chainHeight : Nat) :
    Except PoolError RoundStatus × Pool :=
  let params := p.params requests ranges changeStart
  match p.credits.round roundId with
  | .error e => (.error (.store e), p)
  | .ok (some record) =>
    if record.params = params then (.ok record.status, p)
    else (.error (.roundMismatch roundId), p)
  | .ok none =>
    match p.newRound K roundId params chainHeight with
    | .error e => (.error e, p)
    | .ok status =>
      match p.credits.commit (commitOf K roundId params status) with
      | (.error e, credits) => (.error (.store e), { p with credits })
      | (.ok (), credits) => (.ok status, { p with credits })

end Pool

end NotaryPool
