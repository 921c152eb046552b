import NotaryPool.Arithmetic

/-!
# The shortest decimal text of a floating-point number

Among the decimals that read back as a number, the text uses the fewest digits and, among those,
the nearest to the number. The text is positional, without an exponent.

* `Shortest.decode`: a positive number as a whole number times a power of two;
* `Shortest.digits`: the digits and the power of ten of the shortest decimal;
* `Shortest.toText`: the text.
-/

namespace NotaryPool.Shortest

/-- A positive finite number from its bits: a whole number, a power of two, and whether the number
below it is nearer than the one above it. -/
def decode (bits : Nat) : Nat × Int × Bool :=
  let fraction : Nat := bits % 2 ^ 52
  let exponent : Nat := bits / 2 ^ 52 % 2 ^ 11
  if exponent = 0 then (fraction, (-1074 : Int), false)
  else (fraction + 2 ^ 52, (exponent : Int) - 1075, fraction = 0 && 1 < exponent)

/-- A number as a fraction, and the two halves of the gaps around it in the same unit: the
numerator, the lower half gap, the upper half gap, the denominator. -/
def scaled (m : Nat) (q : Int) (narrow : Bool) : Nat × Nat × Nat × Nat :=
  let (num, den) := if 0 ≤ q then (m * 2 ^ q.toNat, 1) else (m, 2 ^ (-q).toNat)
  let half := if 0 ≤ q then 2 ^ q.toNat else 1
  (4 * num, if narrow then half else 2 * half, 2 * half, 4 * den)

/-- The decimal `d · 10^k` nearest to a number that still reads back as it, if the grid of step
`10^k` has one. -/
def onGrid? (m : Nat) (q : Int) (narrow : Bool) (k : Int) : Option Nat :=
  let (num, below, above, den) := scaled m q narrow
  -- the step of the grid in the unit of the fraction, all multiplied out
  let (num, below, above, step) :=
    if 0 ≤ k then (num, below, above, den * 10 ^ k.toNat)
    else
      let t := 10 ^ (-k).toNat
      (num * t, below * t, above * t, den)
  let lower := num / step
  let even := m % 2 = 0
  let inside (d : Nat) : Bool :=
    let x := d * step
    if x ≤ num then num - x < below || (even && num - x = below)
    else x - num < above || (even && x - num = above)
  let far := (lower + 1) * step - num
  let near := num - lower * step
  match inside lower, inside (lower + 1) with
  | true, true => some (if near < far ∨ (near = far ∧ lower % 2 = 0) then lower else lower + 1)
  | true, false => some lower
  | false, true => some (lower + 1)
  | false, false => none

/-- The first of the grids from `10^k` on, each ten times finer, that has a decimal. -/
def search (m : Nat) (q : Int) (narrow : Bool) : (fuel : Nat) → (k : Int) → Nat × Int
  | 0, k => (m, k)
  | fuel + 1, k =>
    match onGrid? m q narrow k with
    | some d => if d = 0 then search m q narrow fuel (k - 1) else (d, k)
    | none => search m q narrow fuel (k - 1)

/-- The digits of the shortest decimal, and the power of ten that they are multiplied with. -/
def digits (m : Nat) (q : Int) (narrow : Bool) : Nat × Int :=
  search m q narrow 700 310

/-- A whole number times a power of ten, in positional notation. -/
def positional (d : Nat) (k : Int) : String :=
  if 0 ≤ k then toString (d * 10 ^ k.toNat)
  else
    let places := (-k).toNat
    let whole := d / 10 ^ places
    let fraction := toString (d % 10 ^ places)
    s!"{whole}." ++ String.ofList (List.replicate (places - fraction.length) '0') ++ fraction

/-- The text of a number. -/
def toText (x : Float) : String :=
  let bits := x.toBits.toNat
  let sign := if bits < 2 ^ 63 then "" else "-"
  let magnitude := bits % 2 ^ 63
  if 0x7ff * 2 ^ 52 < magnitude then "NaN"
  else if magnitude = 0x7ff * 2 ^ 52 then sign ++ "inf"
  else if magnitude = 0 then sign ++ "0"
  else
    let (m, q, narrow) := decode magnitude
    let (d, k) := digits m q narrow
    sign ++ positional d k

end NotaryPool.Shortest
