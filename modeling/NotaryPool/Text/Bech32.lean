import NotaryPool.Bytes

/-!
# Bech32 text

Segregated-witness addresses are a readable part, the separator `1` and characters of five bits,
the last six of which are a checksum. Two constants of the checksum tell the two variants apart.

* `Bech32.encode`, `Bech32.decode?`: readable part and five-bit groups as text;
* `Bech32.regroup`, `Bech32.bytes?`: eight-bit bytes as five-bit groups and back.
-/

namespace NotaryPool.Bech32

/-- The variant of the checksum. -/
inductive Variant where
  | bech32
  | bech32m
deriving DecidableEq, Repr

/-- The name of a variant. -/
def Variant.name : Variant → String
  | .bech32 => "Bech32"
  | .bech32m => "Bech32m"

/-- The remainder that a text of the variant has. -/
def Variant.residue : Variant → Nat
  | .bech32 => 1
  | .bech32m => 0x2bc830a3

/-- The thirty-two characters, in the order of their values. -/
def alphabet : List Char := "qpzry9x8gf2tvdw0s3jn54khce6mua7l".toList

/-- Takes one more group into the running remainder. -/
def step (acc : Nat) (group : Nat) : Nat :=
  let top := acc >>> 25
  let shifted := ((acc &&& 0x1ffffff) <<< 5) ^^^ group
  [0x3b6a57b2, 0x26508e6d, 0x1ea119fa, 0x3d4233dd, 0x2a1462b3].zipIdx.foldl
    (fun acc gi => if top.testBit gi.2 then acc ^^^ gi.1 else acc) shifted

/-- The remainder of a sequence of groups. -/
def remainder (groups : List Nat) : Nat := groups.foldl step 1

/-- The readable part as groups: the high bits, a zero, the low bits. -/
def expand (readable : List Char) : List Nat :=
  readable.map (fun c => c.toNat >>> 5) ++ 0 :: readable.map (fun c => c.toNat &&& 31)

/-- The text of a readable part and groups. -/
def encode (variant : Variant) (readable : List Char) (groups : List Nat) : String :=
  let r := remainder (expand readable ++ groups ++ List.replicate 6 0) ^^^ variant.residue
  let check := [25, 20, 15, 10, 5, 0].map fun shift => (r >>> shift) &&& 31
  String.ofList (readable ++ '1' :: (groups ++ check).map fun g => alphabet.getD g 'q')

/-- Whether a character is a lower-case letter. -/
def isLower (c : Char) : Bool := decide ('a' ≤ c) && decide (c ≤ 'z')
/-- Whether a character is an upper-case letter. -/
def isUpper (c : Char) : Bool := decide ('A' ≤ c) && decide (c ≤ 'Z')

/-- The parts of a list before and after the last separator. -/
def splitLast? (separator : Char) (cs : List Char) : Option (List Char × List Char) :=
  let tail := (cs.reverse.takeWhile (· != separator)).reverse
  if tail.length < cs.length then some (cs.take (cs.length - tail.length - 1), tail) else none

/-- The readable part, in lower case, the groups without the checksum, and the variant. The text
may be in upper case as a whole, but may not mix the two cases. -/
def decode? (text : String) : Option (List Char × List Nat × Variant) := do
  let (readable, data) ← splitLast? '1' text.toList
  guard (!readable.isEmpty && decide (readable.length ≤ 83))
  guard (readable.all fun c => decide (33 ≤ c.toNat) && decide (c.toNat ≤ 126))
  let cased := readable ++ data
  guard (!(cased.any isLower && cased.any isUpper))
  let readable := readable.map Char.toLower
  let groups ← data.mapM fun c => alphabet.findIdx? (· == c.toLower)
  guard (decide (6 ≤ groups.length))
  let residue := remainder (expand readable ++ groups)
  let variant ←
    if residue = Variant.bech32.residue then some Variant.bech32
    else if residue = Variant.bech32m.residue then some Variant.bech32m
    else none
  return (readable, groups.take (groups.length - 6), variant)

/-- Bytes as groups of five bits, the last one filled up with zeros. -/
def regroup (bs : Bytes) : List Nat :=
  let bits := 8 * bs.length
  let count := (bits + 4) / 5
  let n := Bytes.toNatBE bs <<< (5 * count - bits)
  ((List.range count).map fun i => (n >>> (5 * i)) &&& 31).reverse

/-- The bytes held by groups of five bits. The bits left over must be fewer than five and zero. -/
def bytes? (groups : List Nat) : Option Bytes :=
  let bits := 5 * groups.length
  let n := groups.foldl (fun acc g => acc <<< 5 ||| g) 0
  let spare := bits % 8
  if spare < 5 ∧ n % 2 ^ spare = 0 then some (Bytes.ofNatBE (bits / 8) (n >>> spare)) else none

end NotaryPool.Bech32
