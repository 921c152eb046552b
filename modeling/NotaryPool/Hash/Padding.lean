import NotaryPool.Bytes

/-!
# Padding and splitting of hashed messages

The hash functions used by the pool pad a message to whole blocks with a marker byte, zeros and
the length of the message in bits, and then fold the blocks into a chaining state.

* `Hash.zeroCount`: how many zeros complete the last block;
* `Hash.pad`: the padded message;
* `Hash.blocks`: the message cut into blocks of a given size;
* `Hash.digest`: the state after all blocks of a padded message;
* `Hash.keyed`: the keyed form (HMAC) of a hash function.
-/

namespace NotaryPool.Hash

/-- The number of zero bytes between the marker and the length field. -/
def zeroCount (block field size : Nat) : Nat :=
  (block - (size + 1 + field) % block) % block

/-- A message followed by the marker, zeros and the field which holds its length. -/
def pad (block : Nat) (field : Nat → Bytes) (message : Bytes) : Bytes :=
  let lengthField := field (8 * message.length)
  message ++ 0x80 :: (List.replicate (zeroCount block lengthField.length message.length) 0
    ++ lengthField)

/-- Cuts a message into `count` blocks of the given size. -/
def blocks (size : Nat) : (count : Nat) → Bytes → List Bytes
  | 0, _ => []
  | count + 1, message => message.take size :: blocks size count (message.drop size)

/-- Folds the blocks of a padded message into a chaining state. -/
def digest {State : Type} (block : Nat) (field : Nat → Bytes) (compress : State → Bytes → State)
    (initial : State) (message : Bytes) : State :=
  let padded := pad block field message
  (blocks block (padded.length / block) padded).foldl compress initial

/-- The keyed digest of a message. A key longer than a block is hashed first. -/
def keyed (block : Nat) (hash : Bytes → Bytes) (key message : Bytes) : Bytes :=
  let short := if key.length ≤ block then key else hash key
  let full := short ++ List.replicate (block - short.length) 0
  hash (full.map (· ^^^ 0x5c) ++ hash (full.map (· ^^^ 0x36) ++ message))

end NotaryPool.Hash
