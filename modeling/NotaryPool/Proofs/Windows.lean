import NotaryPool.Bytes

/-!
# Reads within bounds

A reader that goes over its input by positions computes them from bytes of that input, so a test
that is missing or comes too late makes it read outside. A read is modelled here as one that may
have no result at all, which is told apart from any answer of the reader. That a reader always has a
result then says that it stays within its input.

## Contents

* `Bytes.window?`: a run of bytes, if all of them are there.
* `Bytes.window?_eq`: **a run that ends within the input is read.**
* `Bytes.drop_of_window?`, `Bytes.drop_eq_cons`: what stands from a position on.
-/

namespace NotaryPool.Bytes

/-- The bytes at `count` positions from `start` on; nothing if one of these is outside. -/
def window? (bs : Bytes) (start count : Nat) : Option Bytes :=
  if start + count ≤ bs.length then some ((bs.drop start).take count) else none

variable {bs : Bytes} {start count : Nat}

/-- **A run that ends within the input is read.** -/
theorem window?_eq (h : start + count ≤ bs.length) :
    bs.window? start count = some ((bs.drop start).take count) :=
  if_pos h

/-- A run that is read stands at its place. -/
theorem drop_of_window? {run : Bytes} (h : bs.window? start count = some run) :
    bs.drop start = run ++ bs.drop (start + count) := by
  unfold window? at h
  split at h
  · cases h
    rw [← List.drop_drop, List.take_append_drop]
  · cases h

/-- The byte at a position within the input is the first one from there on. -/
theorem drop_eq_cons {op : UInt8} (h : bs[start]? = some op) :
    bs.drop start = op :: bs.drop (start + 1) := by
  obtain ⟨hlt, rfl⟩ := List.getElem?_eq_some_iff.mp h
  exact List.drop_eq_getElem_cons hlt

end NotaryPool.Bytes
