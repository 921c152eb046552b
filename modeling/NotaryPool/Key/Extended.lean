import NotaryPool.Curve.Key
import NotaryPool.Text.Base58

/-!
# Extended keys

An extended key is a key together with its place in a tree of keys and with the chain code from
which its children are derived. It is stored as 78 bytes and shown as checked base-58 text.

* `Lineage`: what the public and the private form have in common;
* `Xpub`, `Xpriv`: the two forms;
* `Xpub.encode`, `Xpub.decode`, `Xpriv.encode`, `Xpriv.decode`: the 78 bytes;
* `Xpub.toText`, `Xpub.parse`, `Xpriv.toText`, `Xpriv.parse`: the text.
-/

namespace NotaryPool

/-- Why 78 bytes, or a text of them, are not an extended key. -/
inductive XkeyError where
  | base58 (error : Base58.Error)
  | length (found : Nat)
  | unknownKind
  | publicKey
  | secretTag (found : UInt8)
  | secretKey
deriving DecidableEq, Repr

/-- The name of an error. -/
def XkeyError.name : XkeyError → String
  | .base58 _ => "Base58"
  | _ => "Decode"

/-- The text of an error. -/
def XkeyError.message : XkeyError → String
  | .base58 e => "wrong Base58 encoding of extended pubkey data - " ++ e.message
  | .length found => s!"wrong length of extended pubkey data ({found})."
  | .unknownKind => "provided key is not a standard BIP-32 extended pubkey"
  | .publicKey => "extended pubkey contains invalid public key"
  | .secretTag found =>
    "xpriv contains invalid byte for the secret key type (0x"
      ++ Bytes.toHex [found] ++ ") which must be set to zero."
  | .secretKey => "xpriv contains invalid data with secret key value overflowing over field order."

/-- The place of a key in its tree, and its chain code. -/
structure Lineage where
  testnet : Bool
  depth : UInt8
  parent : UInt32
  child : UInt32
  chainCode : Hash256
deriving DecidableEq

namespace Lineage

/-- The bytes that follow the kind of the key. -/
def toBytes (l : Lineage) : Bytes :=
  l.depth :: (Bytes.ofNatBE 4 l.parent.toNat ++ Bytes.ofNatBE 4 l.child.toNat
    ++ l.chainCode.toList)

@[simp] theorem length_toBytes (l : Lineage) : l.toBytes.length = 41 := by simp [toBytes]

/-- Reads the bytes that follow the kind of the key. -/
def ofBytes (testnet : Bool) (bs : Bytes) : Lineage where
  testnet := testnet
  depth := bs.getD 0 0
  parent := UInt32.ofNat (Bytes.toNatBE ((bs.drop 1).take 4))
  child := UInt32.ofNat (Bytes.toNatBE ((bs.drop 5).take 4))
  chainCode := Vector.ofFn fun i => bs.getD (9 + i.val) 0

end Lineage

/-- An extended public key. -/
structure Xpub where
  lineage : Lineage
  key : PublicKey
deriving DecidableEq

/-- An extended private key. -/
structure Xpriv where
  lineage : Lineage
  key : SecretKey
deriving DecidableEq

/-- The number of bytes of an extended key. -/
def extendedKeyLength : Nat := 78

namespace Xpub

/-- The four bytes that mark an extended public key of a network. -/
def kind (testnet : Bool) : Bytes :=
  if testnet then [0x04, 0x35, 0x87, 0xcf] else [0x04, 0x88, 0xb2, 0x1e]

/-- The 78 bytes of the key. -/
def encode (k : Xpub) : Bytes := kind k.lineage.testnet ++ k.lineage.toBytes ++ k.key.toBytes

@[simp] theorem length_encode (k : Xpub) : k.encode.length = extendedKeyLength := by
  cases h : k.lineage.testnet <;> simp [encode, kind, h, extendedKeyLength]

/-- Reads the 78 bytes of a key. -/
def decode (bs : Bytes) : Except XkeyError Xpub :=
  if bs.length ≠ extendedKeyLength then .error (.length bs.length)
  else if bs.take 4 ≠ kind true ∧ bs.take 4 ≠ kind false then .error .unknownKind
  else
    match PublicKey.ofCompressed? (bs.drop 45) with
    | some key => .ok ⟨.ofBytes (bs.take 4 = kind true) (bs.drop 4), key⟩
    | none => .error .publicKey

/-- The text of the key. -/
def toText (k : Xpub) : String := Base58.encodeChecked k.encode

/-- Reads the text of a key. -/
def parse (text : String) : Except XkeyError Xpub :=
  match Base58.decodeChecked text with
  | .ok bs => decode bs
  | .error e => .error (.base58 e)

end Xpub

namespace Xpriv

/-- The four bytes that mark an extended private key of a network. -/
def kind (testnet : Bool) : Bytes :=
  if testnet then [0x04, 0x35, 0x83, 0x94] else [0x04, 0x88, 0xad, 0xe4]

/-- The 78 bytes of the key. -/
def encode (k : Xpriv) : Bytes :=
  kind k.lineage.testnet ++ k.lineage.toBytes ++ 0 :: k.key.toBytes

@[simp] theorem length_encode (k : Xpriv) : k.encode.length = extendedKeyLength := by
  cases h : k.lineage.testnet <;>
    simp [encode, kind, h, extendedKeyLength, SecretKey.toBytes]

/-- Reads the 78 bytes of a key. -/
def decode (bs : Bytes) : Except XkeyError Xpriv :=
  if bs.length ≠ extendedKeyLength then .error (.length bs.length)
  else if bs.take 4 ≠ kind true ∧ bs.take 4 ≠ kind false then .error .unknownKind
  else if bs.getD 45 0 ≠ 0 then .error (.secretTag (bs.getD 45 0))
  else
    match SecretKey.ofNat? (Bytes.toNatBE (bs.drop 46)) with
    | some key => .ok ⟨.ofBytes (bs.take 4 = kind true) (bs.drop 4), key⟩
    | none => .error .secretKey

/-- The text of the key. -/
def toText (k : Xpriv) : String := Base58.encodeChecked k.encode

/-- Reads the text of a key. -/
def parse (text : String) : Except XkeyError Xpriv :=
  match Base58.decodeChecked text with
  | .ok bs => decode bs
  | .error e => .error (.base58 e)

end Xpriv

end NotaryPool
