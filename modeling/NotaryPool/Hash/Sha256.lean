import NotaryPool.Hash.Padding

/-!
# SHA-256

* `Sha256.hash`: the 32-byte digest of a message;
* `Sha256.hashTwice`: the digest of the digest, which identifies transactions and signed messages;
* `Sha256.keyed`: the keyed digest (HMAC) from which signature nonces are drawn.
-/

namespace NotaryPool

/-- A 32-byte digest, in the order in which the hash function writes it. -/
abbrev Hash256 := Vector UInt8 32

namespace Sha256

/-- The chaining state: eight words. -/
structure State where
  a : UInt32
  b : UInt32
  c : UInt32
  d : UInt32
  e : UInt32
  f : UInt32
  g : UInt32
  h : UInt32

/-- The state before the first block. -/
def initial : State :=
  ⟨0x6a09e667, 0xbb67ae85, 0x3c6ef372, 0xa54ff53a, 0x510e527f, 0x9b05688c, 0x1f83d9ab, 0x5be0cd19⟩

/-- The constants added in the sixty-four rounds. -/
def roundConstants : List UInt32 :=
  [
    0x428a2f98, 0x71374491, 0xb5c0fbcf, 0xe9b5dba5, 0x3956c25b, 0x59f111f1,
    0x923f82a4, 0xab1c5ed5, 0xd807aa98, 0x12835b01, 0x243185be, 0x550c7dc3,
    0x72be5d74, 0x80deb1fe, 0x9bdc06a7, 0xc19bf174, 0xe49b69c1, 0xefbe4786,
    0x0fc19dc6, 0x240ca1cc, 0x2de92c6f, 0x4a7484aa, 0x5cb0a9dc, 0x76f988da,
    0x983e5152, 0xa831c66d, 0xb00327c8, 0xbf597fc7, 0xc6e00bf3, 0xd5a79147,
    0x06ca6351, 0x14292967, 0x27b70a85, 0x2e1b2138, 0x4d2c6dfc, 0x53380d13,
    0x650a7354, 0x766a0abb, 0x81c2c92e, 0x92722c85, 0xa2bfe8a1, 0xa81a664b,
    0xc24b8b70, 0xc76c51a3, 0xd192e819, 0xd6990624, 0xf40e3585, 0x106aa070,
    0x19a4c116, 0x1e376c08, 0x2748774c, 0x34b0bcb5, 0x391c0cb3, 0x4ed8aa4a,
    0x5b9cca4f, 0x682e6ff3, 0x748f82ee, 0x78a5636f, 0x84c87814, 0x8cc70208,
    0x90befffa, 0xa4506ceb, 0xbef9a3f7, 0xc67178f2
  ]

/-- Rotation of a word to the right. -/
@[inline] def rotr (x : UInt32) (n : UInt32) : UInt32 := (x >>> n) ||| (x <<< (32 - n))

/-- Big-endian words of a block. -/
def words : Bytes → List UInt32
  | b₀ :: b₁ :: b₂ :: b₃ :: rest =>
    (b₀.toUInt32 <<< 24 ||| b₁.toUInt32 <<< 16 ||| b₂.toUInt32 <<< 8 ||| b₃.toUInt32) :: words rest
  | _ => []

/-- The next word of the message schedule, from the words before it. -/
def nextWord (w : Array UInt32) (t : Nat) : UInt32 :=
  let x := w.getD (t + 1) 0
  let y := w.getD (t + 14) 0
  let mixX := rotr x 7 ^^^ rotr x 18 ^^^ (x >>> 3)
  let mixY := rotr y 17 ^^^ rotr y 19 ^^^ (y >>> 10)
  w.getD t 0 + mixX + w.getD (t + 9) 0 + mixY

/-- The sixty-four words of the message schedule of a block. -/
def schedule (block : Bytes) : List UInt32 :=
  ((List.range 48).foldl (fun w t => w.push (nextWord w t)) (words block).toArray).toList

/-- One round, with the sum of its constant and its word of the schedule. -/
def round (s : State) (kw : UInt32 × UInt32) : State :=
  let mixE := rotr s.e 6 ^^^ rotr s.e 11 ^^^ rotr s.e 25
  let choice := (s.e &&& s.f) ^^^ (~~~s.e &&& s.g)
  let t₁ := s.h + mixE + choice + kw.1 + kw.2
  let mixA := rotr s.a 2 ^^^ rotr s.a 13 ^^^ rotr s.a 22
  let majority := (s.a &&& s.b) ^^^ (s.a &&& s.c) ^^^ (s.b &&& s.c)
  ⟨t₁ + (mixA + majority), s.a, s.b, s.c, s.d + t₁, s.e, s.f, s.g⟩

/-- Folds a block into the state. -/
def compress (s : State) (block : Bytes) : State :=
  let r := (roundConstants.zip (schedule block)).foldl round s
  ⟨s.a + r.a, s.b + r.b, s.c + r.c, s.d + r.d, s.e + r.e, s.f + r.f, s.g + r.g, s.h + r.h⟩

/-- The number whose 32 big-endian bytes are the digest. -/
def State.value (s : State) : Nat :=
  [s.a, s.b, s.c, s.d, s.e, s.f, s.g, s.h].foldl (fun acc w => acc <<< 32 ||| w.toNat) 0

/-- The digest of a message. -/
def hash (message : Bytes) : Hash256 :=
  let n := (Hash.digest 64 (Bytes.ofNatBE 8) compress initial message).value
  ⟨(Bytes.ofNatBE 32 n).toArray, by simp⟩

/-- The digest of the digest of a message. -/
def hashTwice (message : Bytes) : Hash256 := hash (hash message).toList

/-- The keyed digest of a message. -/
def keyed (key message : Bytes) : Bytes := Hash.keyed 64 (fun m => (hash m).toList) key message

end Sha256

end NotaryPool
