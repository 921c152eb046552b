import NotaryPool.Bytes
import NotaryPool.Settings.Toml.Value

/-!
# TOML numbers, words and moments

* `Toml.Scalar.parse?`: the value of an unquoted word: a boolean, an integer, a float, a date, a
  time of day, or both.
-/

namespace NotaryPool.Toml.Scalar

/-- The value of a decimal digit. -/
def decimal? (c : Char) : Option Nat := if c.isDigit then some (c.toNat - 48) else none

/-- The value of a digit of a base. -/
def digit? (base : Nat) (c : Char) : Option Nat := (Bytes.hexValue? c).filter (· < base)

/-- Digits of a base with single underscores between them, as a number and the count of digits;
`expect` says whether a digit must come next. -/
def digitsFrom (base : Nat) : (expect : Bool) → (acc : Nat × Nat) → List Char → Option (Nat × Nat)
  | expect, acc, [] => if expect then none else some acc
  | expect, acc, c :: rest =>
    if c = '_' then if expect then none else digitsFrom base true acc rest
    else
      match digit? base c with
      | some d => digitsFrom base false (acc.1 * base + d, acc.2 + 1) rest
      | none => none

/-- Digits of a base with single underscores between them. -/
def digits? (base : Nat) (cs : List Char) : Option (Nat × Nat) := digitsFrom base true (0, 0) cs

/-- A sign, if there is one, and what follows it. -/
def sign (cs : List Char) : Bool × List Char :=
  match cs with
  | '-' :: rest => (true, rest)
  | '+' :: rest => (false, rest)
  | _ => (false, cs)

/-- A decimal number without a zero in front. -/
def wholeNumber? (cs : List Char) : Option Nat :=
  match cs with
  | '0' :: _ :: _ => none
  | _ => (digits? 10 cs).map (·.1)

/-- Whether an integer fits into 64 bits. -/
def inRange (i : Int) : Bool := decide (-(2 ^ 63) ≤ i) && decide (i < 2 ^ 63)

/-- An integer in decimal, hexadecimal, octal or binary digits. -/
def integer? (cs : List Char) : Option Int :=
  let value? : Option Int :=
    match cs with
    | '0' :: 'x' :: rest => (digits? 16 rest).map fun n => (n.1 : Int)
    | '0' :: 'o' :: rest => (digits? 8 rest).map fun n => (n.1 : Int)
    | '0' :: 'b' :: rest => (digits? 2 rest).map fun n => (n.1 : Int)
    | _ =>
      let (negative, rest) := sign cs
      (wholeNumber? rest).map fun n => if negative then -(n : Int) else (n : Int)
  value?.filter inRange

/-- The exponent of a float, behind its letter. -/
def exponent? (cs : List Char) : Option Int :=
  let (negative, rest) := sign cs
  (digits? 10 rest).map fun n => if negative then -(n.1 : Int) else (n.1 : Int)

/-- The number with the given decimal digits, moved by a power of ten. One that no float is near
is refused. -/
def ofDecimal? (negative : Bool) (mantissa : Nat) (power : Int) : Option Float :=
  let magnitude :=
    if mantissa = 0 then 0
    else if power < -100000 then 0
    else if 100000 < power then 1 / 0
    else Float.ofScientific mantissa (power < 0) power.natAbs
  if magnitude.isInf then none else some (if negative then -magnitude else magnitude)

/-- A float: a whole number with a fraction, an exponent, or both; or one of the special ones. -/
def float? (cs : List Char) : Option Float :=
  let (negative, rest) := sign cs
  if rest = ['i', 'n', 'f'] then some (if negative then -(1 / 0) else 1 / 0)
  else if rest = ['n', 'a', 'n'] then some (0 / 0)
  else do
    let isMark (c : Char) : Bool := c == 'e' || c == 'E'
    let body := rest.takeWhile (!isMark ·)
    let tail := rest.dropWhile (!isMark ·)
    let whole := body.takeWhile (· != '.')
    let fraction := body.dropWhile (· != '.')
    guard (!(tail.isEmpty && fraction.isEmpty))
    let w ← wholeNumber? whole
    let f ← if fraction.isEmpty then some (0, 0) else digits? 10 (fraction.drop 1)
    let e ← if tail.isEmpty then some 0 else exponent? (tail.drop 1)
    ofDecimal? negative (w * 10 ^ f.2 + f.1) (e - f.2)

/-! ## Moments -/

/-- Two decimal digits. -/
def pair? (a b : Char) : Option Nat := do return 10 * (← decimal? a) + (← decimal? b)

/-- The number of days of a month. -/
def monthDays (year month : Nat) : Nat :=
  if month = 2 then
    if year % 4 = 0 ∧ (year % 100 ≠ 0 ∨ year % 400 = 0) then 29 else 28
  else if month = 4 ∨ month = 6 ∨ month = 9 ∨ month = 11 then 30 else 31

/-- A number with at least `width` digits. -/
def padded (width n : Nat) : String :=
  let text := toString n
  String.ofList (List.replicate (width - text.length) '0') ++ text

/-- A date at the front of a text, and what follows it. -/
def date? : List Char → Option (String × List Char)
  | y₁ :: y₂ :: y₃ :: y₄ :: '-' :: m₁ :: m₂ :: '-' :: d₁ :: d₂ :: rest => do
    let year := 100 * (← pair? y₁ y₂) + (← pair? y₃ y₄)
    let month ← pair? m₁ m₂
    let day ← pair? d₁ d₂
    guard (1 ≤ month && month ≤ 12 && 1 ≤ day && day ≤ monthDays year month)
    return (s!"{padded 4 year}-{padded 2 month}-{padded 2 day}", rest)
  | _ => none

/-- The text of a fraction of a second: nine digits at most, without zeros at the end. -/
def fractionText (digits : List Char) : String :=
  let kept := ((digits.take 9).reverse.dropWhile (· == '0')).reverse
  if kept.isEmpty then "" else "." ++ String.ofList kept

/-- A time of day at the front of a text, and what follows it. -/
def time? : List Char → Option (String × List Char)
  | h₁ :: h₂ :: ':' :: m₁ :: m₂ :: ':' :: s₁ :: s₂ :: rest => do
    let hour ← pair? h₁ h₂
    let minute ← pair? m₁ m₂
    let second ← pair? s₁ s₂
    guard (hour ≤ 23 && minute ≤ 59 && second ≤ 60)
    let text := s!"{padded 2 hour}:{padded 2 minute}:{padded 2 second}"
    match rest with
    | '.' :: more =>
      let digits := more.takeWhile Char.isDigit
      guard (!digits.isEmpty)
      return (text ++ fractionText digits, more.dropWhile Char.isDigit)
    | _ => return (text, rest)
  | _ => none

/-- The offset of a time from the standard one, which must end the text. -/
def offset? : List Char → Option String
  | [] => some ""
  | ['Z'] | ['z'] => some "Z"
  | [s, h₁, h₂, ':', m₁, m₂] => do
    guard (s == '+' || s == '-')
    let hour ← pair? h₁ h₂
    let minute ← pair? m₁ m₂
    guard (hour ≤ 23 && minute ≤ 59)
    return s!"{s}{padded 2 hour}:{padded 2 minute}"
  | _ => none

/-- A date, a time of day, or both with an offset or none. -/
def moment? (cs : List Char) : Option String :=
  match date? cs with
  | some (date, []) => some date
  | some (date, mark :: rest) => do
    guard (mark == 'T' || mark == 't' || mark == ' ')
    let (time, rest) ← time? rest
    return date ++ "T" ++ time ++ (← offset? rest)
  | none =>
    match time? cs with
    | some (time, []) => some time
    | _ => none

/-- The value of an unquoted word. -/
def parse? (cs : List Char) : Option Value :=
  if cs = "true".toList then some (.boolean true)
  else if cs = "false".toList then some (.boolean false)
  else
    match integer? cs with
    | some i => some (.integer i)
    | none =>
      match float? cs with
      | some f => some (.float f)
      | none => (moment? cs).map .moment

end NotaryPool.Toml.Scalar
