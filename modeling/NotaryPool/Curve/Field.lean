import NotaryPool.Arithmetic

/-!
# The field of the curve

Arithmetic modulo the prime of the curve `y² = x³ + 7` on which the keys of the pool lie.

* `Curve.Field`: numbers below the prime;
* `Curve.power`: powers by repeated squaring;
* `Curve.sqrt?`: a square root, if there is one.
-/

namespace NotaryPool.Curve

/-- The prime over which the curve is defined. -/
def fieldPrime : Nat := 0xfffffffffffffffffffffffffffffffffffffffffffffffffffffffefffffc2f

/-- The number of points of the curve. -/
def groupOrder : Nat := 0xfffffffffffffffffffffffffffffffebaaedce6af48a03bbfd25e8cd0364141

instance : NeZero fieldPrime := ⟨by decide⟩
instance : NeZero groupOrder := ⟨by decide⟩

/-- A coordinate of a point. -/
abbrev Field := Fin fieldPrime

/-- A multiple of the generator, counted modulo the number of points. -/
abbrev Scalar := Fin groupOrder

/-- The lowest `width` bits of a number, most significant first. -/
def bits (width n : Nat) : List Bool := (List.range width).reverse.map n.testBit

/-- A power with an exponent below 2^256. -/
def power {n : Nat} [NeZero n] (x : Fin n) (exponent : Nat) : Fin n :=
  (bits 256 exponent).foldl (fun acc bit => if bit then acc * acc * x else acc * acc) 1

/-- The multiplicative inverse in a field of prime order; zero has none and gives zero. -/
def inverse {n : Nat} [NeZero n] (x : Fin n) : Fin n := power x (n - 2)

/-- A square root. The prime is three modulo four, so one power decides. -/
def sqrt? (x : Field) : Option Field :=
  let r := power x ((fieldPrime + 1) / 4)
  if r * r = x then some r else none

end NotaryPool.Curve
