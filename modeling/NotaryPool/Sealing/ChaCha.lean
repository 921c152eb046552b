import NotaryPool.Bytes

/-!
# The ChaCha stream

A block of the stream is a permutation of sixteen words: four constants, a key of eight, and four
that number the block.

* `ChaCha.permute`: the twenty rounds;
* `ChaCha.block`: a block of the stream;
* `ChaCha.subkey`: the key for the second part of a long nonce;
* `ChaCha.stream`: encryption and decryption, which are the same.
-/

namespace NotaryPool.ChaCha

/-- The sixteen words of a block. -/
abbrev State := Vector UInt32 16

/-- Rotation of a word to the left. -/
@[inline] def rotl (x : UInt32) (n : UInt32) : UInt32 := (x <<< n) ||| (x >>> (32 - n))

/-- Mixes four of the words. -/
def quarter (s : State) (i j k l : Fin 16) : State :=
  let a := s[i] + s[j]
  let d := rotl (s[l] ^^^ a) 16
  let c := s[k] + d
  let b := rotl (s[j] ^^^ c) 12
  let a := a + b
  let d := rotl (d ^^^ a) 8
  let c := c + d
  let b := rotl (b ^^^ c) 7
  (((s.set i a).set j b).set k c).set l d

/-- A round over the columns and a round over the diagonals. -/
def doubleRound (s : State) : State :=
  let s := quarter s 0 4 8 12
  let s := quarter s 1 5 9 13
  let s := quarter s 2 6 10 14
  let s := quarter s 3 7 11 15
  let s := quarter s 0 5 10 15
  let s := quarter s 1 6 11 12
  let s := quarter s 2 7 8 13
  quarter s 3 4 9 14

/-- The twenty rounds. -/
def permute (s : State) : State := (List.range 10).foldl (fun s _ => doubleRound s) s

/-- Word `i` of a byte string, least significant byte first. -/
def word (bs : Bytes) (i : Nat) : UInt32 := UInt32.ofNat (Bytes.toNatLE ((bs.drop (4 * i)).take 4))

/-- The constants, the key and sixteen bytes more. -/
def start (key rest : Bytes) : State :=
  Vector.ofFn fun i =>
    if i.val < 4 then #v[0x61707865, 0x3320646e, 0x79622d32, 0x6b206574].getD i.val 0
    else if i.val < 12 then word key (i.val - 4)
    else word rest (i.val - 12)

/-- The bytes of some words. -/
def bytes (words : List UInt32) : Bytes := words.flatMap fun w => Bytes.ofNatLE 4 w.toNat

/-- A block of the stream for a key and a nonce of twelve bytes. -/
def block (key nonce : Bytes) (counter : Nat) : Bytes :=
  let s := start key (Bytes.ofNatLE 4 counter ++ nonce)
  bytes ((s.zipWith (· + ·) (permute s)).toList)

/-- The key for the rest of a long nonce, from the first sixteen bytes of it. -/
def subkey (key nonce : Bytes) : Bytes :=
  let s := (permute (start key nonce)).toList
  bytes (s.take 4 ++ s.drop 12)

/-- Combines a text with the stream from block `counter` on; `blocks` bounds their number. -/
def streamFrom (key nonce : Bytes) : (blocks : Nat) → (counter : Nat) → Bytes → Bytes
  | 0, _, text => text
  | blocks + 1, counter, text =>
    if text = [] then []
    else
      List.zipWith (· ^^^ ·) (text.take 64) (block key nonce counter)
        ++ streamFrom key nonce blocks (counter + 1) (text.drop 64)

/-- Combines a text with the stream after its first block. -/
def stream (key nonce text : Bytes) : Bytes :=
  streamFrom key nonce ((text.length + 63) / 64) 1 text

end NotaryPool.ChaCha
