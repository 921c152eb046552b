import NotaryPool.Hash.Sha256

/-!
# RIPEMD-160

* `Ripemd160.hash`: the 20-byte digest of a message;
* `Ripemd160.keyHash`: the RIPEMD-160 digest of the SHA-256 digest, by which an output script
  commits to a key or to another script.
-/

namespace NotaryPool

/-- A 20-byte digest. -/
abbrev Hash160 := Vector UInt8 20

namespace Ripemd160

/-- The chaining state: five words. -/
structure State where
  a : UInt32
  b : UInt32
  c : UInt32
  d : UInt32
  e : UInt32

/-- The state before the first block. -/
def initial : State := ⟨0x67452301, 0xefcdab89, 0x98badcfe, 0x10325476, 0xc3d2e1f0⟩

/-- What a round of one line does: the mixing function, the added constant, and the sixteen pairs
of a word's position and a rotation. -/
structure Round where
  mix : UInt32 → UInt32 → UInt32 → UInt32
  constant : UInt32
  steps : List (Nat × UInt32)

/-- Rotation of a word to the left. -/
@[inline] def rotl (x : UInt32) (n : UInt32) : UInt32 := (x <<< n) ||| (x >>> (32 - n))

/-- Exclusive or of the three words. -/
def parity (x y z : UInt32) : UInt32 := x ^^^ y ^^^ z
/-- The second word where the first has a one, the third elsewhere. -/
def selectFirst (x y z : UInt32) : UInt32 := (x &&& y) ||| (~~~x &&& z)
/-- The mixing function of the middle round. -/
def orNot (x y z : UInt32) : UInt32 := (x ||| ~~~y) ^^^ z
/-- The first word where the third has a one, the second elsewhere. -/
def selectLast (x y z : UInt32) : UInt32 := (x &&& z) ||| (y &&& ~~~z)
/-- The mixing function opposite to `parity`. -/
def orNotLast (x y z : UInt32) : UInt32 := x ^^^ (y ||| ~~~z)

/-- The five rounds of the left line. -/
def leftRounds : List Round :=
  [ ⟨parity, 0x00000000,
      [0, 1, 2, 3, 4, 5, 6, 7, 8, 9, 10, 11, 12, 13, 14, 15].zip
      [11, 14, 15, 12, 5, 8, 7, 9, 11, 13, 14, 15, 6, 7, 9, 8]⟩,
    ⟨selectFirst, 0x5a827999,
      [7, 4, 13, 1, 10, 6, 15, 3, 12, 0, 9, 5, 2, 14, 11, 8].zip
      [7, 6, 8, 13, 11, 9, 7, 15, 7, 12, 15, 9, 11, 7, 13, 12]⟩,
    ⟨orNot, 0x6ed9eba1,
      [3, 10, 14, 4, 9, 15, 8, 1, 2, 7, 0, 6, 13, 11, 5, 12].zip
      [11, 13, 6, 7, 14, 9, 13, 15, 14, 8, 13, 6, 5, 12, 7, 5]⟩,
    ⟨selectLast, 0x8f1bbcdc,
      [1, 9, 11, 10, 0, 8, 12, 4, 13, 3, 7, 15, 14, 5, 6, 2].zip
      [11, 12, 14, 15, 14, 15, 9, 8, 9, 14, 5, 6, 8, 6, 5, 12]⟩,
    ⟨orNotLast, 0xa953fd4e,
      [4, 0, 5, 9, 7, 12, 2, 10, 14, 1, 3, 8, 11, 6, 15, 13].zip
      [9, 15, 5, 11, 6, 8, 13, 12, 5, 12, 13, 14, 11, 8, 5, 6]⟩ ]

/-- The five rounds of the right line. -/
def rightRounds : List Round :=
  [ ⟨orNotLast, 0x50a28be6,
      [5, 14, 7, 0, 9, 2, 11, 4, 13, 6, 15, 8, 1, 10, 3, 12].zip
      [8, 9, 9, 11, 13, 15, 15, 5, 7, 7, 8, 11, 14, 14, 12, 6]⟩,
    ⟨selectLast, 0x5c4dd124,
      [6, 11, 3, 7, 0, 13, 5, 10, 14, 15, 8, 12, 4, 9, 1, 2].zip
      [9, 13, 15, 7, 12, 8, 9, 11, 7, 7, 12, 7, 6, 15, 13, 11]⟩,
    ⟨orNot, 0x6d703ef3,
      [15, 5, 1, 3, 7, 14, 6, 9, 11, 8, 12, 2, 10, 0, 4, 13].zip
      [9, 7, 15, 11, 8, 6, 6, 14, 12, 13, 5, 14, 13, 13, 7, 5]⟩,
    ⟨selectFirst, 0x7a6d76e9,
      [8, 6, 4, 1, 3, 11, 15, 0, 5, 12, 2, 13, 9, 7, 10, 14].zip
      [15, 5, 8, 11, 14, 14, 6, 14, 6, 9, 12, 9, 12, 5, 15, 8]⟩,
    ⟨parity, 0x00000000,
      [12, 15, 10, 4, 1, 5, 8, 7, 6, 2, 13, 14, 0, 3, 9, 11].zip
      [8, 5, 12, 9, 12, 5, 14, 6, 8, 13, 6, 5, 15, 13, 11, 11]⟩ ]

/-- Little-endian words of a block. -/
def words : Bytes → List UInt32
  | b₀ :: b₁ :: b₂ :: b₃ :: rest =>
    (b₀.toUInt32 ||| b₁.toUInt32 <<< 8 ||| b₂.toUInt32 <<< 16 ||| b₃.toUInt32 <<< 24) :: words rest
  | _ => []

/-- One step of a round. -/
def step (block : Array UInt32) (round : Round) (s : State) (position : Nat × UInt32) : State :=
  let t := s.a + round.mix s.b s.c s.d + block.getD position.1 0 + round.constant
  ⟨s.e, rotl t position.2 + s.e, s.b, rotl s.c 10, s.d⟩

/-- The five rounds of a line. -/
def line (rounds : List Round) (block : Array UInt32) (s : State) : State :=
  rounds.foldl (fun s round => round.steps.foldl (step block round) s) s

/-- Folds a block into the state. -/
def compress (s : State) (block : Bytes) : State :=
  let w := (words block).toArray
  let l := line leftRounds w s
  let r := line rightRounds w s
  ⟨s.b + l.c + r.d, s.c + l.d + r.e, s.d + l.e + r.a, s.e + l.a + r.b, s.a + l.b + r.c⟩

/-- The number whose 20 little-endian bytes are the digest. -/
def State.value (s : State) : Nat :=
  [s.e, s.d, s.c, s.b, s.a].foldl (fun acc w => acc <<< 32 ||| w.toNat) 0

/-- The digest of a message. -/
def hash (message : Bytes) : Hash160 :=
  let n := (Hash.digest 64 (Bytes.ofNatLE 8) compress initial message).value
  ⟨(Bytes.ofNatLE 20 n).toArray, by simp⟩

/-- The digest by which output scripts commit to keys and to scripts. -/
def keyHash (message : Bytes) : Hash160 := hash (Sha256.hash message).toList

end Ripemd160

end NotaryPool
