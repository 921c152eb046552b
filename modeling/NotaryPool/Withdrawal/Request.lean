import NotaryPool.Chain.Address

/-!
# Output requests

A server asks the pool to pay an amount to an address. The server's name and its number for the
payment identify the request.

* `RequestId`, `OutputRequest`: the data of a request;
* `OutputRequest.hash`, `OutputRequest.order`: the order in which all members process requests;
* `OutputRequest.script`: the output script that the request is paid to.
-/

namespace NotaryPool

/-- The server that asks, and its number for the payment. -/
structure RequestId where
  server : String
  transaction : UInt32
deriving DecidableEq, Repr

instance : ToString RequestId := ⟨fun id => s!"{id.server}:{id.transaction.toNat}"⟩

/-- A payment asked of the pool. -/
structure OutputRequest where
  address : String
  amount : Nat
  id : RequestId
deriving DecidableEq, Repr

/-- Why a request cannot be paid on a network. -/
inductive DestinationError where
  | parse (error : AddressError)
  | networkMismatch (address : Address)
deriving DecidableEq

/-- The name of an error. -/
def DestinationError.name : DestinationError → String
  | .parse _ => "Parse"
  | .networkMismatch _ => "NetworkMismatch"

/-- The text of an error. -/
def DestinationError.message : DestinationError → String
  | .parse e => e.message
  | .networkMismatch address => s!"address {address.toText} belongs to a different network."

/-- The hash by which requests are ordered: that of the server's name and the number. -/
def RequestId.hash (id : RequestId) : Hash256 :=
  Sha256.hash (Bytes.ofString (id.server ++ toString id.transaction.toNat))

/-- The order of identities: servers first, then numbers. -/
def RequestId.order (a b : RequestId) : Ordering :=
  (compare a.server b.server).then (compare a.transaction b.transaction)

namespace OutputRequest

instance : ToString OutputRequest := ⟨fun r => s!"{r.amount} sats to {r.address} ({r.id})"⟩

/-- The same request for another amount. -/
def withAmount (r : OutputRequest) (amount : Nat) : OutputRequest := { r with amount }

/-- The order in which requests are processed: by hash, then by identity. -/
def order (a b : OutputRequest) : Ordering :=
  (Bytes.compare a.id.hash.toList b.id.hash.toList).then (a.id.order b.id)

/-- The output script that a request is paid to on a network. -/
def script (r : OutputRequest) (network : AddressNetwork) : Except DestinationError Bytes :=
  match Address.parse r.address with
  | .error e => .error (.parse e)
  | .ok address =>
    if address.network.isTestnet ≠ network.isTestnet then .error (.networkMismatch address)
    else .ok address.destination.script

end OutputRequest

end NotaryPool
