import NotaryPool.Bytes
import NotaryPool.Curve.Point

/-!
# Keys

A public key is a point of the curve other than the neutral one, a secret key a multiple of the
generator. Both types hold only valid keys.

* `PublicKey.toBytes`, `PublicKey.ofCompressed?`: the 33-byte form;
* `PublicKey.ofBytes?`: also reads the two 65-byte forms;
* `SecretKey.publicKey?`: the public key of a secret key;
* `PublicKey.tweak?`, `SecretKey.tweak?`: the key moved by a multiple of the generator.
-/

namespace NotaryPool

open Curve

/-- A point of the curve, given by its first coordinate and the parity of the second. -/
structure PublicKey where
  x : Field
  odd : Bool
  onCurve : (liftX? x odd).isSome

instance : DecidableEq PublicKey := fun a b =>
  decidable_of_iff (a.x = b.x ∧ a.odd = b.odd) (by cases a; cases b; simp)

/-- A secret multiple of the generator: positive and below the number of points. -/
structure SecretKey where
  value : Scalar
  nonzero : value ≠ 0

instance : DecidableEq SecretKey := fun a b =>
  decidable_of_iff (a.value = b.value) (by cases a; cases b; simp)

/-- The secret key with the given number, if it is in range. -/
def SecretKey.ofNat? (n : Nat) : Option SecretKey :=
  if h : n < groupOrder then
    if h0 : (⟨n, h⟩ : Scalar) ≠ 0 then some ⟨⟨n, h⟩, h0⟩ else none
  else none

/-- The 32 bytes of a secret key. -/
def SecretKey.toBytes (k : SecretKey) : Bytes := Bytes.ofNatBE 32 k.value.val

namespace PublicKey

/-- The key with the given coordinates, if they are those of a point. -/
def ofAffine? (x y : Field) : Option PublicKey :=
  if h : (liftX? x (y.val % 2 == 1)).isSome then
    if y * y = cubic x then some ⟨x, y.val % 2 == 1, h⟩ else none
  else none

/-- The key with the given first coordinate and parity, if there is such a point. -/
def ofX? (x : Nat) (odd : Bool) : Option PublicKey :=
  if hx : x < fieldPrime then
    if h : (liftX? ⟨x, hx⟩ odd).isSome then some ⟨⟨x, hx⟩, odd, h⟩ else none
  else none

/-- The point of a key. -/
def toPoint (k : PublicKey) : Point := .ofAffine k.x ((liftX? k.x k.odd).get k.onCurve)

/-- The key of a point; the neutral point has none. -/
def ofPoint? (p : Point) : Option PublicKey := do
  let (x, y) ← p.affine?
  ofAffine? x y

/-! ## Byte forms -/

/-- The 33-byte form: the parity and the first coordinate. -/
def toBytes (k : PublicKey) : Bytes := (if k.odd then 3 else 2) :: Bytes.ofNatBE 32 k.x.val

@[simp] theorem length_toBytes (k : PublicKey) : k.toBytes.length = 33 := by simp [toBytes]

/-- Reads the 33-byte form. -/
def ofCompressed? : Bytes → Option PublicKey
  | tag :: rest =>
    if rest.length = 32 then
      if tag = 2 then ofX? (Bytes.toNatBE rest) false
      else if tag = 3 then ofX? (Bytes.toNatBE rest) true
      else none
    else none
  | [] => none

/-- Reads a 65-byte form. Tag 4 says nothing of the parity; tags 6 and 7 must agree with it. -/
def ofUncompressed? : Bytes → Option PublicKey
  | tag :: rest =>
    if rest.length = 64 then
      let x := Bytes.toNatBE (rest.take 32)
      let y := Bytes.toNatBE (rest.drop 32)
      if h : x < fieldPrime ∧ y < fieldPrime then
        if tag = 4 ∨ (tag = 6 ∧ y % 2 = 0) ∨ (tag = 7 ∧ y % 2 = 1) then
          ofAffine? ⟨x, h.1⟩ ⟨y, h.2⟩
        else none
      else none
    else none
  | [] => none

/-- Reads a key in any of its forms. -/
def ofBytes? (bs : Bytes) : Option PublicKey :=
  if bs.length = 33 then ofCompressed? bs else ofUncompressed? bs

/-! ## Moving a key -/

/-- The key moved by a multiple of the generator. -/
def tweak? (k : PublicKey) (t : Scalar) : Option PublicKey :=
  ofPoint? (k.toPoint.add (Point.generator.mul t))

end PublicKey

namespace SecretKey

/-- The public key of a secret key. -/
def publicKey? (k : SecretKey) : Option PublicKey :=
  PublicKey.ofPoint? (Point.generator.mul k.value)

/-- The key moved by a multiple of the generator. -/
def tweak? (k : SecretKey) (t : Scalar) : Option SecretKey :=
  if h : k.value + t ≠ 0 then some ⟨k.value + t, h⟩ else none

end SecretKey

end NotaryPool
