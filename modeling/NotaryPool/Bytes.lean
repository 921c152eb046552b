import NotaryPool.Arithmetic

/-!
# Byte strings

Scripts, keys, signatures and stored blobs are lists of bytes. This module has the two ways of
writing a number as bytes, hexadecimal text, and the lexicographic order.

* `Bytes.ofNatBE`, `Bytes.toNatBE`: numbers with the most significant byte first;
* `Bytes.ofNatLE`, `Bytes.toNatLE`: numbers with the least significant byte first;
* `Bytes.toHex`, `Bytes.ofHex?`: lower-case hexadecimal text;
* `Bytes.compare`: the first differing byte decides, a proper beginning is smaller.
-/

namespace NotaryPool

/-- A byte string. -/
abbrev Bytes := List UInt8

namespace Bytes

/-! ## Numbers as bytes -/

/-- The lowest `width` bytes of a number, least significant byte first. -/
def ofNatLE : (width : Nat) → Nat → Bytes
  | 0, _ => []
  | width + 1, n => UInt8.ofNat n :: ofNatLE width (n / 256)

/-- The number whose bytes are given least significant byte first. -/
def toNatLE : Bytes → Nat
  | [] => 0
  | b :: rest => b.toNat + 256 * toNatLE rest

/-- The lowest `width` bytes of a number, most significant byte first. -/
def ofNatBE (width n : Nat) : Bytes := (ofNatLE width n).reverse

/-- The number whose bytes are given most significant byte first. -/
def toNatBE (bs : Bytes) : Nat := bs.foldl (fun acc b => acc * 256 + b.toNat) 0

@[simp] theorem length_ofNatLE (width n : Nat) : (ofNatLE width n).length = width := by
  induction width generalizing n with
  | zero => rfl
  | succ width ih => simp [ofNatLE, ih]

@[simp] theorem length_ofNatBE (width n : Nat) : (ofNatBE width n).length = width := by
  simp [ofNatBE]

/-- Writing a number least significant byte first and reading it back keeps its lowest bytes. -/
theorem toNatLE_ofNatLE (width n : Nat) : toNatLE (ofNatLE width n) = n % 256 ^ width := by
  induction width generalizing n with
  | zero => simp [ofNatLE, toNatLE, Nat.mod_one]
  | succ width ih =>
    have byte : (UInt8.ofNat n).toNat = n % 256 := by simp
    simp only [ofNatLE, toNatLE, ih, byte]
    rw [Nat.pow_succ, Nat.mul_comm (256 ^ width) 256, Nat.mod_mul]

/-! ## Hexadecimal text -/

/-- The lower-case hexadecimal digit of a number below sixteen. -/
def hexDigit (n : Nat) : Char :=
  if n < 10 then Char.ofNat (48 + n) else Char.ofNat (87 + n)

/-- The value of a hexadecimal digit of either case. -/
def hexValue? (c : Char) : Option Nat :=
  if '0' ≤ c ∧ c ≤ '9' then some (c.toNat - 48)
  else if 'a' ≤ c ∧ c ≤ 'f' then some (c.toNat - 87)
  else if 'A' ≤ c ∧ c ≤ 'F' then some (c.toNat - 55)
  else none

/-- Two lower-case hexadecimal digits a byte. -/
def toHex (bs : Bytes) : String :=
  String.ofList (bs.flatMap fun b => [hexDigit (b.toNat / 16), hexDigit (b.toNat % 16)])

/-- Reads pairs of hexadecimal digits. -/
def ofHexDigits? : List Char → Option Bytes
  | [] => some []
  | [_] => none
  | hi :: lo :: rest => do
    let h ← hexValue? hi
    let l ← hexValue? lo
    let bs ← ofHexDigits? rest
    return UInt8.ofNat (16 * h + l) :: bs

/-- The bytes of a hexadecimal text, if it is one. -/
def ofHex? (s : String) : Option Bytes := ofHexDigits? s.toList

/-! ## Order -/

/-- Lexicographic order of byte strings. -/
protected def compare : Bytes → Bytes → Ordering
  | [], [] => .eq
  | [], _ :: _ => .lt
  | _ :: _, [] => .gt
  | a :: as, b :: bs => (Ord.compare a b).then (Bytes.compare as bs)

/-- The UTF-8 encoding of a text. -/
def ofString (s : String) : Bytes := s.toUTF8.toList

end Bytes

end NotaryPool
