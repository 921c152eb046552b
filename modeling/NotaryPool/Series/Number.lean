import NotaryPool.Arithmetic

/-!
# Numbers of series, branches and addresses

A pool address has three numbers: its series, its branch and its index.

* `SeriesId`, `Branch`, `Index`: the three kinds of number;
* `parseNumber`: reads a 32-bit number.
-/

namespace NotaryPool

/-- Why a text is not a 32-bit number. -/
inductive NumberError where
  | empty
  | invalidDigit
  | overflow
deriving DecidableEq, Repr

/-- The text of an error. -/
def NumberError.message : NumberError → String
  | .empty => "cannot parse integer from empty string"
  | .invalidDigit => "invalid digit found in string"
  | .overflow => "number too large to fit in target type"

/-- Takes decimal digits into a number that must stay below `limit`. The first fault wins. -/
def takeDigits (limit : Nat) : (acc : Nat) → List Char → Except NumberError Nat
  | acc, [] => .ok acc
  | acc, c :: rest =>
    if '0' ≤ c ∧ c ≤ '9' then
      let next := 10 * acc + (c.toNat - 48)
      if next < limit then takeDigits limit next rest else .error .overflow
    else .error .invalidDigit

/-- Reads a number below `limit` in decimal digits, with a plus sign or none in front. -/
def parseNumber (limit : Nat) (text : String) : Except NumberError Nat :=
  match text.toList with
  | [] => .error .empty
  | ['+'] => .error .invalidDigit
  | '+' :: rest => takeDigits limit 0 rest
  | cs => takeDigits limit 0 cs

/-- Reads a 32-bit number. -/
def parseNumber32 (text : String) : Except NumberError UInt32 :=
  (parseNumber (2 ^ 32) text).map UInt32.ofNat

/-- The number of a series. Series are numbered from one on. -/
structure SeriesId where
  val : UInt32
deriving DecidableEq, Repr

/-- The number of a branch. Branch zero holds change addresses; the others put one of the keys in
front. -/
structure Branch where
  val : UInt32
deriving DecidableEq, Repr

/-- The number of an address within a branch. -/
structure Index where
  val : UInt32
deriving DecidableEq, Repr

instance : ToString SeriesId := ⟨fun i => toString i.val.toNat⟩
instance : ToString Branch := ⟨fun b => toString b.val.toNat⟩
instance : ToString Index := ⟨fun i => toString i.val.toNat⟩

/-- The number before, if there is one. -/
def SeriesId.prev? (i : SeriesId) : Option SeriesId :=
  if i.val = 0 then none else some ⟨i.val - 1⟩

/-- The branch of change addresses. -/
def Branch.change : Branch := ⟨0⟩

/-- Whether a branch is that of change addresses. -/
def Branch.isChange (b : Branch) : Bool := b.val == 0

/-- The number after, if there is one. -/
def Index.next? (i : Index) : Option Index :=
  if i.val = UInt32.ofNat (2 ^ 32 - 1) then none else some ⟨i.val + 1⟩

/-- How many children of a key can be derived without its private form. -/
def Index.unhardenedCount : Nat := 2 ^ 31

/-- Whether an address with this index can be derived without private keys. -/
def Index.isUnhardened (i : Index) : Bool := decide (i.val.toNat < unhardenedCount)

end NotaryPool
