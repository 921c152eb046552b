import NotaryPool.Curve.Ecdsa
import NotaryPool.Hash.Ripemd160
import NotaryPool.Hash.Sha512
import NotaryPool.Key.Extended

/-!
# The key scheme

The pool needs a handful of operations on keys and signatures. They are gathered in one record, so
that the rules of the pool are stated over any scheme.

* `KeyScheme`: the operations;
* `KeyScheme.secp256k1`: the scheme of the chain, with child keys derived by a keyed hash.
-/

namespace NotaryPool

/-- The operations on keys and signatures that the pool relies on. A missing result means that an
operation led outside of the keys, which happens for no known input. -/
structure KeyScheme where
  /-- The public form of an extended private key. -/
  neuter? : Xpriv → Option Xpub
  /-- The key of the child of a public key with a given number. -/
  childPublic? : Xpub → UInt32 → Option PublicKey
  /-- The key of the child of a private key with a given number. -/
  childSecret? : Xpriv → UInt32 → Option SecretKey
  /-- The public key of a secret key. -/
  publicKey? : SecretKey → Option PublicKey
  /-- The signature of a message. -/
  sign : SecretKey → Hash256 → Signature
  /-- Whether a signature is one of the message under the key. -/
  verify : PublicKey → Hash256 → Signature → Bool

namespace KeyScheme

open Curve

/-- What is added to a key to get its child with a given number. -/
def childTweak? (chainCode : Hash256) (key : PublicKey) (number : UInt32) : Option Scalar :=
  let digest := Sha512.keyed chainCode.toList (key.toBytes ++ Bytes.ofNatBE 4 number.toNat)
  let n := Bytes.toNatBE (digest.take 32)
  if h : n < groupOrder then some ⟨n, h⟩ else none

/-- The scheme of the chain. -/
def secp256k1 : KeyScheme where
  neuter? k := k.key.publicKey?.map fun key => ⟨k.lineage, key⟩
  childPublic? k number := do
    let t ← childTweak? k.lineage.chainCode k.key number
    k.key.tweak? t
  childSecret? k number := do
    let key ← k.key.publicKey?
    let t ← childTweak? k.lineage.chainCode key number
    k.key.tweak? t
  publicKey? := SecretKey.publicKey?
  sign := Ecdsa.sign
  verify := Ecdsa.verify

end KeyScheme

end NotaryPool
