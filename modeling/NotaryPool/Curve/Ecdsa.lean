import NotaryPool.Curve.Key
import NotaryPool.Curve.Signature
import NotaryPool.Hash.Sha256

/-!
# Signing and checking

Signatures are deterministic: the nonce is drawn from the key and the message, so every run over
the same transaction gives the same signature.

* `Ecdsa.nonces`: the generator of the candidates for the nonce;
* `Ecdsa.sign`: the signature of a message under a secret key, in the lower half;
* `Ecdsa.verify`: the check of a signature. One in the upper half is refused.
-/

namespace NotaryPool.Ecdsa

open Curve

/-- A number modulo the number of points. -/
def toScalar (n : Nat) : Scalar := Fin.ofNat groupOrder n

/-- The message as a number modulo the number of points. -/
def messageScalar (message : Hash256) : Scalar := toScalar (Bytes.toNatBE message.toList)

/-- The state of the nonce generator: its key and its value. -/
structure Generator where
  key : Bytes
  value : Bytes

/-- Takes data into the generator. -/
def Generator.mix (g : Generator) (separator : UInt8) (data : Bytes) : Generator :=
  let key := Sha256.keyed g.key (g.value ++ separator :: data)
  ⟨key, Sha256.keyed key g.value⟩

/-- The generator for a key and a message. -/
def Generator.ofSeed (seed : Bytes) : Generator :=
  ((⟨List.replicate 32 0, List.replicate 32 1⟩ : Generator).mix 0 seed).mix 1 seed

/-- The first of the next `count` values of the generator that serves. -/
def Generator.search {α : Type} (serve? : Nat → Option α) : (count : Nat) → Generator → Option α
  | 0, _ => none
  | count + 1, g =>
    let value := Sha256.keyed g.key g.value
    match serve? (Bytes.toNatBE value) with
    | some a => some a
    | none => Generator.search serve? count ((⟨g.key, value⟩ : Generator).mix 0 [])

/-- The generator of the nonces for a key and a message. -/
def nonces (key : SecretKey) (message : Hash256) : Generator :=
  .ofSeed (key.toBytes ++ Bytes.ofNatBE 32 (messageScalar message).val)

/-- The signature with a given nonce, if the nonce is in range and neither number is zero. -/
def signWith? (key : SecretKey) (message : Hash256) (nonce : Nat) : Option Signature := do
  guard (0 < nonce ∧ nonce < groupOrder)
  let k := toScalar nonce
  let (x, _) ← (Point.generator.mul k).affine?
  let r := toScalar x.val
  let s := inverse k * (messageScalar message + r * key.value)
  guard (r ≠ 0 ∧ s ≠ 0)
  return Signature.lower ⟨r, s⟩

/-- The signature of a message. The first nonce serves unless it is out of range, which no known
message reaches; sixteen bad ones in a row give the pair of zeros, which no check accepts. -/
def sign (key : SecretKey) (message : Hash256) : Signature :=
  ((nonces key message).search (signWith? key message) 16).getD ⟨0, 0⟩

/-- Whether a signature in the lower half is one of the message under the key. -/
def verify (key : PublicKey) (message : Hash256) (sig : Signature) : Bool :=
  sig.r ≠ 0 && sig.s ≠ 0 && sig.isLow &&
    let w := inverse sig.s
    let p := (Point.generator.mul (messageScalar message * w)).add (key.toPoint.mul (sig.r * w))
    match p.affine? with
    | some (x, _) => toScalar x.val = sig.r
    | none => false

end NotaryPool.Ecdsa
