import NotaryPool.Script.Error

/-!
# Push operations

A signature script is a sequence of operations each of which pushes bytes on the stack.

* `Push.encode`: the operation with the shortest header that pushes given bytes;
* `Push.take`: reads the first operation of a script;
* `Push.parse`: the stack that a script of pushes leaves, first push first.
-/

namespace NotaryPool.Push

/-- Pushes with up to this many bytes have their length as operation. -/
def directLimit : Nat := 75

/-- The operation that pushes the given bytes, with the shortest header for their length. -/
def encode (data : Bytes) : Bytes :=
  if data.length ≤ directLimit then UInt8.ofNat data.length :: data
  else if data.length < 0x100 then 0x4c :: (Bytes.ofNatLE 1 data.length ++ data)
  else if data.length < 0x10000 then 0x4d :: (Bytes.ofNatLE 2 data.length ++ data)
  else 0x4e :: (Bytes.ofNatLE 4 data.length ++ data)

/-- The first `count` bytes and the rest. -/
def takeData (count : Nat) (bs : Bytes) : Except ScriptError (Bytes × Bytes) :=
  if bs.length < count then .error .truncatedPush else .ok (bs.take count, bs.drop count)

/-- Bytes behind a length field of `width` bytes, and the rest. -/
def takeSized (width : Nat) (bs : Bytes) : Except ScriptError (Bytes × Bytes) :=
  if bs.length < width then .error .truncatedPush
  else takeData (Bytes.toNatLE (bs.take width)) (bs.drop width)

/-- What the operation `op` pushes, and the script after it. -/
def take (op : UInt8) (rest : Bytes) : Except ScriptError (Bytes × Bytes) :=
  if op.toNat ≤ directLimit then takeData op.toNat rest
  else if op = 0x4c then takeSized 1 rest
  else if op = 0x4d then takeSized 2 rest
  else if op = 0x4e then takeSized 4 rest
  else if op = 0x4f then .ok ([0x81], rest)
  else if 0x51 ≤ op ∧ op ≤ 0x60 then .ok ([op - 0x50], rest)
  else .error .sigPushOnly

theorem length_of_takeData {count : Nat} {bs data rest : Bytes}
    (h : takeData count bs = .ok (data, rest)) : rest.length ≤ bs.length := by
  simp only [takeData] at h
  split at h
  · cases h
  · injection h with h; injection h with _ h; rw [← h]; simp

theorem length_of_takeSized {width : Nat} {bs data rest : Bytes}
    (h : takeSized width bs = .ok (data, rest)) : rest.length ≤ bs.length := by
  simp only [takeSized] at h
  split at h
  · cases h
  · exact Nat.le_trans (length_of_takeData h) (by simp)

/-- An operation leaves no more than what stands behind it. -/
theorem length_of_take {op : UInt8} {bs data rest : Bytes} (h : take op bs = .ok (data, rest)) :
    rest.length ≤ bs.length := by
  simp only [take] at h
  repeat' split at h
  · exact length_of_takeData h
  · exact length_of_takeSized h
  · exact length_of_takeSized h
  · exact length_of_takeSized h
  · cases h; exact Nat.le_refl _
  · cases h; exact Nat.le_refl _
  · cases h

/-- The stack that a script of pushes leaves, first push first. -/
def parse (script : Bytes) : Except ScriptError (List Bytes) :=
  match script with
  | [] => .ok []
  | op :: tail =>
    match h : take op tail with
    | .error e => .error e
    | .ok (data, rest) =>
      have : rest.length < tail.length + 1 := Nat.lt_succ_of_le (length_of_take h)
      (parse rest).map (data :: ·)
termination_by script.length

end NotaryPool.Push
