import NotaryPool.Pool.Basic
import NotaryPool.Withdrawal.Checked

/-!
# Pools with panics

A call that panics gives no result and leaves no pool: what it had computed is lost.

* `Pool.Checked.eligibleCredits`: credits that may be spent;
* `Pool.Checked.withdraw`: processes a round, once.
-/

namespace NotaryPool.Pool.Checked

/-- The credits in some ranges that may be spent when the chain has a given height. -/
def eligibleCredits (K : KeyScheme) (p : Pool) (ranges : List AddressRange) (chainHeight : Nat) :
    Except (Stop PoolError) (List PoolCredit) := do
  let unspent ← Stop.lift (p.credits.unspentOutputs.mapError .store)
  let rules := p.settings.eligibility chainHeight p.charter
  (Selection.Checked.eligible K p.registry.book unspent ranges rules).mapError (.map .selection)

/-- Computes a round that is not in the store yet. -/
def newRound (K : KeyScheme) (p : Pool) (roundId : UInt32) (params : RoundParams)
    (chainHeight : Nat) : Except (Stop PoolError) RoundStatus := do
  let changeStart ← Stop.lift (p.changeAddress K params.changeStart.1 params.changeStart.2)
  let credits ← eligibleCredits K p params.ranges chainHeight
  (Round.Checked.run K p.settings.toStandardPolicy.toPolicy p.registry.book roundId params.requests
    credits changeStart).mapError (.map .withdrawal)

/-- Processes a round, unless it is in the store. -/
def withdraw (K : KeyScheme) (p : Pool) (roundId : UInt32) (requests : List OutputRequest)
    (ranges : List AddressRange) (changeStart : SeriesId × Index) (chainHeight : Nat) :
    Except Panic (Except PoolError RoundStatus × Pool) :=
  let params := p.params requests ranges changeStart
  match p.credits.round roundId with
  | .error e => .ok (.error (.store e), p)
  | .ok (some record) =>
    if record.params = params then .ok (.ok record.status, p)
    else .ok (.error (.roundMismatch roundId), p)
  | .ok none =>
    match newRound K p roundId params chainHeight with
    | .error (.panic cause) => .error cause
    | .error (.error e) => .ok (.error e, p)
    | .ok status =>
      match p.credits.commit (commitOf K roundId params status) with
      | (.error e, credits) => .ok (.error (.store e), { p with credits })
      | (.ok (), credits) => .ok (.ok status, { p with credits })

end NotaryPool.Pool.Checked
