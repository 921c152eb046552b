import NotaryPool.Bytes

/-!
# The Poly1305 tag

The tag of a message is a polynomial in a secret number, evaluated modulo a prime, with the
message cut into the coefficients.

* `Poly.tag`: the sixteen bytes of the tag under a one-time key.
-/

namespace NotaryPool.Poly

/-- The prime of the tag. -/
def modulus : Nat := 2 ^ 130 - 5

/-- The bits of the secret number that may be set. -/
def mask : Nat := 0x0ffffffc0ffffffc0ffffffc0fffffff

/-- Takes `count` more coefficients of sixteen bytes into the running value. A coefficient ends in
an extra one. -/
def evaluate (r : Nat) : (count : Nat) → Nat → Bytes → Nat
  | 0, acc, _ => acc
  | count + 1, acc, message =>
    let coefficient := Bytes.toNatLE (message.take 16 ++ [1])
    evaluate r count ((acc + coefficient) * r % modulus) (message.drop 16)

/-- The tag of a message under a one-time key of 32 bytes. -/
def tag (key message : Bytes) : Bytes :=
  let r := Bytes.toNatLE (key.take 16) &&& mask
  let s := Bytes.toNatLE (key.drop 16)
  Bytes.ofNatLE 16 (evaluate r ((message.length + 15) / 16) 0 message + s)

@[simp] theorem length_tag (key message : Bytes) : (tag key message).length = 16 := by simp [tag]

end NotaryPool.Poly
