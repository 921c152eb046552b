import NotaryPool.Chain.Amount
import NotaryPool.Series.PoolAddress

/-!
# Credits

A credit is an unspent output that lies at an address of the pool.

* `UnspentOutput`, `PoolCredit`: an output as the chain has it, and with its address;
* `PoolCredit.order`, `PoolCredit.sort`: the order in which all members spend credits;
* `confirmations`, `Eligibility`: which credits may be spent.
-/

namespace NotaryPool

/-- An unspent output, and the height of the block that holds it, once one does. -/
structure UnspentOutput where
  outpoint : Outpoint
  value : Nat
  script : Bytes
  height : Option Nat
deriving DecidableEq

/-- An unspent output at an address of the pool. -/
structure PoolCredit where
  outpoint : Outpoint
  amount : Nat
  height : Option Nat
  address : PoolAddress
deriving DecidableEq

namespace PoolCredit

/-- The credit of an output at an address. -/
def ofUnspent (output : UnspentOutput) (address : PoolAddress) : PoolCredit :=
  ⟨output.outpoint, output.value, output.height, address⟩

/-- The output that the credit spends. -/
def prevout (c : PoolCredit) : TxOut := ⟨c.amount, c.address.script⟩

/-- The order of credits: by series, index, branch, transaction and position in it. -/
def order (a b : PoolCredit) : Ordering :=
  (compare a.address.series.val b.address.series.val).then <|
  (compare a.address.index.val b.address.index.val).then <|
  (compare a.address.branch.val b.address.branch.val).then <|
  (Bytes.compare a.outpoint.txid.toList b.outpoint.txid.toList).then <|
  compare a.outpoint.vout b.outpoint.vout

/-- Credits in their order; equal ones stay as they came. -/
def sort (credits : List PoolCredit) : List PoolCredit :=
  credits.mergeSort fun a b => order a b != .gt

/-- The sum of the amounts. -/
def total (credits : List PoolCredit) : Nat := Amount.total (credits.map (·.amount))

end PoolCredit

/-- How many blocks confirm an output, its own included, when the chain has a given height. -/
def confirmations (height : Option Nat) (chainHeight : Nat) : Nat :=
  match height with
  | some h => if h ≤ chainHeight then chainHeight - h + 1 else 0
  | none => 0

/-- The rules for credits that may be spent. The charter output is never spent. -/
structure Eligibility where
  dustThreshold : Nat
  minConfirmations : Nat
  chainHeight : Nat
  charter : Option Outpoint
deriving DecidableEq

/-- Whether a credit may be spent. -/
def Eligibility.allows (rules : Eligibility) (c : PoolCredit) : Bool :=
  rules.dustThreshold ≤ c.amount
    && rules.minConfirmations ≤ confirmations c.height rules.chainHeight
    && rules.charter != some c.outpoint

end NotaryPool
