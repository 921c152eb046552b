import NotaryPool.Chain.Address
import NotaryPool.Panic
import NotaryPool.Series.AddressRange
import NotaryPool.Series.Basic
import NotaryPool.Series.BranchOrder

/-!
# Addresses of the pool

An address of the pool pays to a redeem script over child keys of a series, in the order of the
branch.

* `DeriveError`: why there is no such address;
* `AddressRange.check`, `AddressRange.counted`: ranges that are refused, and the size of others;
* `childKey`: the child of a public key at an index;
* `PoolAddress`: an address with all that it was derived from, and its scripts;
* `PoolAddress.derive`, `PoolAddress.next`: deriving addresses;
* `ChangeAddress`: an address on the change branch.
-/

namespace NotaryPool

/-- Why an address cannot be derived. -/
inductive DeriveError where
  | unknownSeries (series : SeriesId)
  | branch (error : BranchError)
  | hardened (index : Index)
  | invalidChild (index : Index)
  | indexOverflow (branch : Branch)
  | invalidRange (range : AddressRange)
deriving DecidableEq

/-- The text for an index that only private keys can derive. -/
def hardenedMessage (index : Index) : String :=
  s!"provided index {index} is invalid: it lies outside allowed range 0..={Index.unhardenedCount}"

/-- The name of an error, followed by that of the one inside. -/
def DeriveError.name : DeriveError → String
  | .unknownSeries _ => "UnknownSeries"
  | .branch e => "Branch." ++ e.name
  | .hardened _ => "Index"
  | .invalidChild _ => "InvalidChild"
  | .indexOverflow _ => "IndexOverflow"
  | .invalidRange _ => "InvalidRange"

/-- The text of an error. -/
def DeriveError.message : DeriveError → String
  | .unknownSeries series => s!"series {series} is not known to the pool."
  | .branch e => e.message
  | .hardened index => hardenedMessage index
  | .invalidChild index =>
    s!"derivation of the child key at index {index} produced an invalid public key."
  | .indexOverflow b => s!"address indexes of branch {b} are exhausted."
  | .invalidRange range => s!"invalid address range {range}."

/-! ## Ranges -/

/-- Refuses a range with an inverted side. -/
def AddressRange.check (r : AddressRange) : Except DeriveError Unit :=
  if r.isProper then .ok () else .error (.invalidRange r)

/-- How many numbers a side has, as a 64-bit word. -/
def AddressRange.sideCount {ε : Type} (start stop : UInt32) : Except (Stop ε) Nat := do
  Word.add 64 (← Word.sub stop.toNat start.toNat) 1

/-- The number of addresses of a range that is not refused, as a 64-bit word. -/
def AddressRange.counted (r : AddressRange) : Except (Stop DeriveError) Nat := do
  Stop.lift r.check
  Word.mul 64 (← sideCount r.startBranch.val r.stopBranch.val)
    (← sideCount r.startIndex.val r.stopIndex.val)

/-! ## Child keys -/

/-- The child of a public key at an index. -/
def childKey (K : KeyScheme) (key : Xpub) (index : Index) : Except DeriveError PublicKey :=
  if index.isUnhardened then
    match K.childPublic? key index.val with
    | some child => .ok child
    | none => .error (.invalidChild index)
  else .error (.hardened index)

/-! ## Addresses -/

/-- An address of the pool: where it stands, the extended keys it comes from in the order of the
series, and its own keys in the order of the branch. -/
structure PoolAddress where
  series : SeriesId
  branch : Branch
  index : Index
  required : UInt8
  network : AddressNetwork
  xpubs : List Xpub
  keys : List PublicKey
deriving DecidableEq

namespace PoolAddress

instance : ToString PoolAddress := ⟨fun a => s!"{a.series}/{a.branch}/{a.index}"⟩

/-- The redeem script. -/
def redeem (a : PoolAddress) : Bytes := Multisig.encode a.required a.keys

/-- The output script. -/
def script (a : PoolAddress) : Bytes := ScriptHash.ofRedeem a.redeem

/-- The text of the address. -/
def text (a : PoolAddress) : String :=
  Address.toText ⟨.scriptHash (Ripemd160.keyHash a.redeem), a.network⟩

/-- The address over given extended keys. -/
def ofKeys (K : KeyScheme) (series : SeriesId) (required : UInt8) (xpubs : List Xpub)
    (branch : Branch) (index : Index) (network : AddressNetwork) :
    Except DeriveError PoolAddress :=
  match branchOrder xpubs branch with
  | .error e => .error (.branch e)
  | .ok ordered =>
    match ordered.mapM (childKey K · index) with
    | .error e => .error e
    | .ok keys => .ok ⟨series, branch, index, required, network, xpubs, keys⟩

/-- The address of a series at a branch and an index. -/
def derive (K : KeyScheme) (id : SeriesId) (series : Series) (branch : Branch) (index : Index)
    (network : AddressNetwork) : Except DeriveError PoolAddress :=
  ofKeys K id series.required series.pubs branch index network

/-- The address with the next index on the same branch. -/
def next (K : KeyScheme) (a : PoolAddress) : Except DeriveError PoolAddress :=
  match a.index.next? with
  | none => .error (.indexOverflow a.branch)
  | some index => ofKeys K a.series a.required a.xpubs a.branch index a.network

end PoolAddress

/-- An address on the change branch. -/
structure ChangeAddress where
  address : PoolAddress
deriving DecidableEq

namespace ChangeAddress

instance : ToString ChangeAddress := ⟨fun a => toString a.address⟩

/-- The output script. -/
def script (a : ChangeAddress) : Bytes := a.address.script

/-- The change address of a series at an index. -/
def derive (K : KeyScheme) (id : SeriesId) (series : Series) (index : Index)
    (network : AddressNetwork) : Except DeriveError ChangeAddress :=
  (PoolAddress.derive K id series .change index network).map .mk

/-- The change address with the next index. -/
def next (K : KeyScheme) (a : ChangeAddress) : Except DeriveError ChangeAddress :=
  (a.address.next K).map .mk

end ChangeAddress

end NotaryPool
