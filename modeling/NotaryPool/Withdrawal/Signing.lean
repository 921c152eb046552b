import NotaryPool.Script.Spend
import NotaryPool.Series.Registry
import NotaryPool.Withdrawal.Credit

/-!
# Signing transactions of the pool

Each member signs every input with the private keys that it holds, one entry for each key of the
input's address in the order of the branch. An entry is empty where the member has no key. The
signature scripts are put together from the entries of all members.

* `RawSigningError`, `TxSigningError`: why signatures cannot be made or used;
* `Signing.inputSignatures`, `Signing.rawSignatures`: the entries of one member;
* `Signing.script`: a signature script from entries;
* `Signing.signInput`: puts a signature script into an input and checks it.
-/

namespace NotaryPool

/-- The entries for one input, one for each key in the order of the branch. -/
abbrev InputSignatures := List RawSignature

/-- The entries for all inputs of a transaction. -/
abbrev TxSignatures := List InputSignatures

/-- Why signatures cannot be made. -/
inductive RawSigningError where
  | unknownSeries (series : SeriesId)
  | branch (error : BranchError)
  | hardened (index : Index)
  | keyMismatch (series : SeriesId) (address : String)
  | noAddressKey (position : Nat)
  | inputCountMismatch (inputs credits : Nat)
deriving DecidableEq

/-- The name of an error, followed by that of the one inside. -/
def RawSigningError.name : RawSigningError → String
  | .unknownSeries _ => "UnknownSeries"
  | .branch e => "Branch." ++ e.name
  | .hardened _ => "Index"
  | .keyMismatch _ _ => "KeyMismatch"
  | .noAddressKey _ => "NoAddressKey"
  | .inputCountMismatch _ _ => "InputCountMismatch"

/-- The text of an error. -/
def RawSigningError.message : RawSigningError → String
  | .unknownSeries series => s!"series {series} is not known to the pool."
  | .branch e => e.message
  | .hardened index => hardenedMessage index
  | .keyMismatch series address =>
    s!"private key of series {series} doesn't derive the public key used by address {address}."
  | .noAddressKey position => s!"address has no key at position {position}."
  | .inputCountMismatch inputs credits =>
    s!"transaction has {inputs} inputs while {credits} credits were provided."

/-- Why signatures cannot be used. -/
inductive TxSigningError where
  | insufficientSignatures (required : UInt8) (available : Nat)
  | sigCountMismatch (sigs inputs : Nat)
  | script (error : ScriptError)
deriving DecidableEq

/-- The name of an error, followed by that of the one inside. -/
def TxSigningError.name : TxSigningError → String
  | .insufficientSignatures _ _ => "InsufficientSignatures"
  | .sigCountMismatch _ _ => "SigCountMismatch"
  | .script e => "Script." ++ e.name

/-- The text of an error. -/
def TxSigningError.message : TxSigningError → String
  | .insufficientSignatures required available =>
    s!"not enough signatures: {required.toNat} required, but only {available} are present."
  | .sigCountMismatch sigs inputs =>
    s!"signatures cover {sigs} inputs while the transaction has {inputs}."
  | .script e => e.message

namespace Signing

/-! ## Making signatures -/

/-- The entry for a key of the series at its position in the order of the branch: empty if the
private key is not known, and refused if its child is not the address's key at the position. The
series may have got more keys than the address was made from, so there may be none. -/
def entry (K : KeyScheme) (series : Series) (address : PoolAddress) (message : Hash256)
    (key : Xpub) (position : Nat) : Except RawSigningError RawSignature :=
  match series.privateKeyFor? key with
  | none => .ok []
  | some priv =>
    let mismatch := RawSigningError.keyMismatch address.series (toString address)
    match K.childSecret? priv address.index.val with
    | none => .error mismatch
    | some child =>
      match address.keys[position]? with
      | none => .error (.noAddressKey position)
      | some expected =>
        if K.publicKey? child = some expected then
          .ok (RawSignature.ofSignature (K.sign child message))
        else .error mismatch

/-- The entries for an input. -/
def inputSignatures (K : KeyScheme) (book : SeriesBook) (tx : Tx) (no : Nat)
    (address : PoolAddress) : Except RawSigningError InputSignatures := do
  let some series := book.find? address.series | throw (.unknownSeries address.series)
  let keys ← (branchOrder series.pubs address.branch).mapError .branch
  if !address.index.isUnhardened then throw (.hardened address.index)
  let message := tx.sighash no address.redeem
  keys.zipIdx.mapM fun (key, position) => entry K series address message key position

/-- The entries for all inputs; `credits` says at which addresses they lie. -/
def rawSignatures (K : KeyScheme) (book : SeriesBook) (tx : Tx) (credits : List PoolCredit) :
    Except RawSigningError TxSignatures :=
  if tx.inputs.length ≠ credits.length then
    .error (.inputCountMismatch tx.inputs.length credits.length)
  else credits.zipIdx.mapM fun (credit, no) => inputSignatures K book tx no credit.address

/-! ## Using signatures -/

/-- The entries that are not empty. -/
def present (sigs : InputSignatures) : InputSignatures := sigs.filter (!·.isEmpty)

/-- A signature script: the dummy element, the first signatures as many as required, and the
redeem script. -/
def script (sigs : InputSignatures) (required : UInt8) (redeem : Bytes) :
    Except TxSigningError Bytes :=
  let present := present sigs
  if present.length < required.toNat then
    .error (.insufficientSignatures required present.length)
  else
    .ok (([] :: (present.take required.toNat ++ [redeem])).flatMap Push.encode)

/-- Puts a signature script into an input and checks it by all rules. -/
def signInput (K : KeyScheme) (tx : Tx) (index : Nat) (prevouts : List TxOut) (redeem : Bytes)
    (sigs : InputSignatures) : Except TxSigningError Tx := do
  let some prevout := prevouts[index]? | throw (.script (.noInput index))
  let some hash := ScriptHash.hash? prevout.script | throw (.script .notP2sh)
  if Ripemd160.keyHash redeem ≠ hash then throw (.script .scriptHashMismatch)
  if tx.inputs.length ≤ index then throw (.script (.noInput index))
  let multisig ← (Multisig.parse redeem).mapError .script
  let signed := tx.withScript index (← script sigs multisig.required redeem)
  (Spend.verify K signed index prevouts .standard).mapError .script
  return signed

end Signing

end NotaryPool
