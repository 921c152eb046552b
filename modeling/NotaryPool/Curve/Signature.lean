import NotaryPool.Bytes
import NotaryPool.Curve.Field

/-!
# Signatures and their byte form

A signature is a pair of numbers modulo the number of points. Its byte form (DER) is a sequence of
two integers.

* `Signature.isLow`: whether the second number is in the lower half, as relayed transactions need;
* `Signature.toDer`: the byte form;
* `Signature.ofDer?`: reads a byte form. An integer that is negative or out of range reads as zero,
  which no signature check accepts;
* `Signature.Der.takeLength?`, `Signature.Der.takeInteger?`: the two pieces of the format.
-/

namespace NotaryPool

open Curve

/-- A signature. -/
structure Signature where
  r : Scalar
  s : Scalar
deriving DecidableEq, Repr

namespace Signature

/-- Whether the second number is in the lower half of its range. -/
def isLow (sig : Signature) : Bool := decide (sig.s.val ≤ groupOrder / 2)

/-- The equally valid signature whose second number is in the lower half. -/
def lower (sig : Signature) : Signature := if sig.isLow then sig else ⟨sig.r, -sig.s⟩

/-! ## Writing -/

namespace Der

/-- The fewest bytes of a number that keep the sign bit clear. -/
def integerBytes (n : Nat) : Bytes :=
  let bytes := (Bytes.ofNatBE 33 n).dropWhile (· == 0)
  match bytes with
  | [] => [0]
  | b :: _ => if b < 0x80 then bytes else 0 :: bytes

/-- An integer with its tag and length. -/
def integer (n : Nat) : Bytes :=
  let bytes := integerBytes n
  2 :: UInt8.ofNat bytes.length :: bytes

/-! ## Reading -/

/-- The length at the front of a byte string and what follows it. A long form must be needed, have
no leading zero, and stay within what follows. -/
def takeLength? : Bytes → Option (Nat × Bytes)
  | [] => none
  | b :: rest =>
    if b < 0x80 then some (b.toNat, rest)
    else if b = 0x80 ∨ b = 0xff then none
    else
      let count := (b &&& 0x7f).toNat
      let size := Bytes.toNatBE (rest.take count)
      let rest' := rest.drop count
      if count ≤ rest.length ∧ count ≤ 8 ∧ rest.head? ≠ some 0 ∧ 128 ≤ size
          ∧ size ≤ rest'.length then
        some (size, rest')
      else none

/-- Whether a first byte only repeats the sign of the second one. -/
def isPadded : Bytes → Bool
  | a :: b :: _ => (a == 0 && decide (b < 0x80)) || (a == 0xff && decide (0x80 ≤ b))
  | _ => false

/-- The number held by the bytes of an integer; zero if it is negative or out of range. -/
def scalarOf (bytes : Bytes) : Scalar :=
  let n := Bytes.toNatBE bytes
  if bytes.head?.any (0x80 ≤ ·) then 0
  else if h : n < groupOrder then ⟨n, h⟩ else 0

/-- The integer at the front of a byte string and what follows it. -/
def takeInteger? : Bytes → Option (Scalar × Bytes)
  | 2 :: rest => do
    let (size, body) ← takeLength? rest
    let bytes := body.take size
    if size = 0 ∨ body.length < size ∨ isPadded bytes then none
    else some (scalarOf bytes, body.drop size)
  | _ => none

end Der

/-- The byte form of a signature. -/
def toDer (sig : Signature) : Bytes :=
  let body := Der.integer sig.r.val ++ Der.integer sig.s.val
  0x30 :: UInt8.ofNat body.length :: body

/-- Reads the byte form of a signature: a sequence of two integers and nothing else. -/
def ofDer? : Bytes → Option Signature
  | 0x30 :: rest => do
    let (size, body) ← Der.takeLength? rest
    guard (size = body.length)
    let (r, more) ← Der.takeInteger? body
    let (s, more) ← Der.takeInteger? more
    guard (more = [])
    return ⟨r, s⟩
  | _ => none

end Signature

end NotaryPool
