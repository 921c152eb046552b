import NotaryPool.Arithmetic

/-!
# Panics

Numbers are kept in words of a fixed size. Where a sum, a difference or a product has no place in
its word, the program stops for good, as it does where a list is read behind its end. This is no
error: nothing is returned, and nothing of the operation is stored.

Most of the program is written down on natural numbers, without the sizes of words. Each operation
that can panic is there a second time in a namespace `Checked`, with the operations of `Word`.

* `Panic`, `Stop`: how a computation ends without a result;
* `Word.add`, `Word.sub`, `Word.mul`: operations that panic where the result has no place.
-/

namespace NotaryPool

/-- What stops the program for good. -/
inductive Panic where
  /-- A number has no place in its word. -/
  | overflow
  /-- A list is read behind its end. -/
  | bounds
  /-- A closed draft is changed. -/
  | assertion
deriving DecidableEq, Repr

/-- Why a computation has no result: an error, which the caller is told, or a panic. -/
inductive Stop (ε : Type) where
  | error (error : ε)
  | panic (cause : Panic)
deriving DecidableEq, Repr

namespace Stop

variable {ε δ α : Type}

/-- The same with another error. -/
def map (f : ε → δ) : Stop ε → Stop δ
  | .error e => .error (f e)
  | .panic cause => .panic cause

/-- A result that was computed without the chance of a panic. -/
def lift (result : Except ε α) : Except (Stop ε) α := result.mapError .error

end Stop

namespace Word

variable {ε : Type}

/-- A number, if it has a place in a word of so many bits. -/
def fit (bits n : Nat) : Except (Stop ε) Nat :=
  if n < 2 ^ bits then .ok n else .error (.panic .overflow)

/-- The sum of two words. -/
def add (bits a b : Nat) : Except (Stop ε) Nat := fit bits (a + b)

/-- The product of two words. -/
def mul (bits a b : Nat) : Except (Stop ε) Nat := fit bits (a * b)

/-- The difference of two words. -/
def sub (a b : Nat) : Except (Stop ε) Nat :=
  if b ≤ a then .ok (a - b) else .error (.panic .overflow)

end Word

end NotaryPool
