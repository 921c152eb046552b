import NotaryPool.Curve.Field

/-!
# Points of the curve

Points are kept in projective form, so that sums need no division; a point is brought to its two
coordinates only at the end.

* `Point.double`, `Point.add`, `Point.mul`: the group operations;
* `Point.generator`: the fixed point whose multiples are the public keys;
* `Point.affine?`: the coordinates of a point other than the neutral one;
* `liftX?`: the point with a given first coordinate and parity of the second.
-/

namespace NotaryPool.Curve

/-- A point with coordinates `x / z²` and `y / z³`; the neutral point has `z = 0`. -/
structure Point where
  x : Field
  y : Field
  z : Field
deriving DecidableEq, Inhabited

namespace Point

/-- The neutral point. -/
def neutral : Point := ⟨1, 1, 0⟩

/-- The point with the given coordinates. -/
def ofAffine (x y : Field) : Point := ⟨x, y, 1⟩

/-- The sum of a point with itself. -/
def double (p : Point) : Point :=
  if p.z = 0 then neutral
  else
    let a := p.x * p.x
    let b := p.y * p.y
    let c := b * b
    let xb := p.x + b
    let d := xb * xb - a - c
    let d := d + d
    let e := a + a + a
    let x := e * e - d - d
    let c₂ := c + c
    let c₄ := c₂ + c₂
    let yz := p.y * p.z
    ⟨x, e * (d - x) - (c₄ + c₄), yz + yz⟩

/-- The sum of two points. -/
def add (p q : Point) : Point :=
  if p.z = 0 then q
  else if q.z = 0 then p
  else
    let pz := p.z * p.z
    let qz := q.z * q.z
    let u₁ := p.x * qz
    let u₂ := q.x * pz
    let s₁ := p.y * (q.z * qz)
    let s₂ := q.y * (p.z * pz)
    if u₁ = u₂ then
      if s₁ = s₂ then p.double else neutral
    else
      let h := u₂ - u₁
      let r := s₂ - s₁
      let hh := h * h
      let hhh := h * hh
      let v := u₁ * hh
      let x := r * r - hhh - (v + v)
      ⟨x, r * (v - x) - s₁ * hhh, p.z * q.z * h⟩

/-- The sum of `k` copies of a point. -/
def mul (k : Scalar) (p : Point) : Point :=
  (bits 256 k.val).foldl (fun acc bit => if bit then acc.double.add p else acc.double) neutral

/-- The generator of the group. -/
def generator : Point :=
  ofAffine 0x79be667ef9dcbbac55a06295ce870b07029bfcdb2dce28d959f2815b16f81798
    0x483ada7726a3c4655da4fbfc0e1108a8fd17b448a68554199c47d08ffb10d4b8

/-- The coordinates of a point; the neutral point has none. -/
def affine? (p : Point) : Option (Field × Field) :=
  if p.z = 0 then none
  else
    let w := inverse p.z
    let ww := w * w
    some (p.x * ww, p.y * (w * ww))

end Point

/-- The right side of the curve's equation. -/
def cubic (x : Field) : Field := x * x * x + 7

/-- The second coordinate, of the given parity, of the point with first coordinate `x`. -/
def liftX? (x : Field) (odd : Bool) : Option Field :=
  (sqrt? (cubic x)).map fun y => if (y.val % 2 == 1) = odd then y else -y

end NotaryPool.Curve
