import NotaryPool.Proofs.Script.Reading

/-!
# Signature scripts as sequences of pushes

The reader of a signature script cuts it by lengths that stand in the script. Which scripts it takes
is said here without a reader: a script is a sequence of complete operations, one for each element
of the stack.

## Contents

* `Push.Operation`: an operation and the bytes that it pushes.
* `Push.Pushes`: a sequence of operations and the stack that it leaves.
* `Push.take_eq_ok_iff`: **one operation is read just when one stands at the front.**
* `Push.parse_eq_ok_iff`: **a script is read just when it is a sequence of operations.**
-/

namespace NotaryPool.Push

/-- The operations with a length field behind them, and the number of bytes of that field. -/
def sizedOperations : List (UInt8 × Nat) := [(0x4c, 1), (0x4d, 2), (0x4e, 4)]

/-- An operation, with all that belongs to it, and the bytes that it pushes. -/
inductive Operation : Bytes → Bytes → Prop
  /-- The operation is the length of what it pushes. -/
  | direct {data : Bytes} (hfew : data.length ≤ directLimit) :
      Operation (UInt8.ofNat data.length :: data) data
  /-- The length stands behind the operation, least significant byte first. -/
  | sized {op : UInt8} {width : Nat} {size data : Bytes} (hop : (op, width) ∈ sizedOperations)
      (hwidth : size.length = width) (hsize : Bytes.toNatLE size = data.length) :
      Operation (op :: (size ++ data)) data
  /-- The number minus one. -/
  | negative : Operation [0x4f] [0x81]
  /-- A number from one to sixteen. -/
  | small {n : UInt8} (hpos : 1 ≤ n) (hle : n ≤ 16) : Operation [0x50 + n] [n]

/-- Operations one after the other, and the stack that they leave, first push first. -/
inductive Pushes : Bytes → List Bytes → Prop
  | nil : Pushes [] []
  | cons {operation data rest : Bytes} {stack : List Bytes} (hfirst : Operation operation data)
      (hrest : Pushes rest stack) : Pushes (operation ++ rest) (data :: stack)

variable {bs data rest : Bytes}

/-! ## The pieces of an operation -/

theorem takeData_eq_ok_iff {count : Nat} :
    takeData count bs = .ok (data, rest) ↔ bs = data ++ rest ∧ data.length = count := by
  constructor
  · intro h
    unfold takeData at h
    split at h
    · cases h
    · cases h
      refine ⟨(List.take_append_drop count bs).symm, ?_⟩
      rw [List.length_take]
      omega
  · rintro ⟨rfl, rfl⟩
    exact takeData_append data rest

theorem takeSized_eq_ok_iff {width : Nat} :
    takeSized width bs = .ok (data, rest)
      ↔ ∃ size, bs = size ++ data ++ rest ∧ size.length = width
          ∧ Bytes.toNatLE size = data.length := by
  unfold takeSized
  constructor
  · intro h
    split at h
    · cases h
    · obtain ⟨hdrop, hlength⟩ := takeData_eq_ok_iff.mp h
      refine ⟨bs.take width, ?_, ?_, hlength.symm⟩
      · rw [List.append_assoc, ← hdrop, List.take_append_drop]
      · rw [List.length_take]
        omega
  · rintro ⟨size, rfl, rfl, hsize⟩
    rw [if_neg (by simp), List.append_assoc, List.take_left, List.drop_left, hsize]
    exact takeData_append data rest

/-- The operations of the numbers from one to sixteen. -/
theorem exists_small_iff {op : UInt8} :
    (∃ n : UInt8, 1 ≤ n ∧ n ≤ 16 ∧ op = 0x50 + n) ↔ 0x51 ≤ op ∧ op ≤ 0x60 := by
  simp only [UInt8.le_iff_toNat_le]
  constructor
  · rintro ⟨n, hpos, hle, rfl⟩
    simp only [UInt8.toNat_add, UInt8.reduceToNat] at hpos hle ⊢
    omega
  · rintro ⟨hlow, hhigh⟩
    simp only [UInt8.reduceToNat] at hlow hhigh
    refine ⟨op - 0x50, ?_, ?_, ?_⟩
    · simp only [UInt8.toNat_sub, UInt8.reduceToNat]
      omega
    · simp only [UInt8.toNat_sub, UInt8.reduceToNat]
      omega
    · rw [UInt8.add_comm, UInt8.sub_add_cancel]

theorem take_small {n : UInt8} (hpos : 1 ≤ n) (hle : n ≤ 16) (rest : Bytes) :
    take (0x50 + n) rest = .ok ([n], rest) := by
  have hrange := exists_small_iff.mp ⟨n, hpos, hle, rfl⟩
  have hvalue : 0x50 + n - 0x50 = n := by rw [UInt8.add_comm, UInt8.add_sub_cancel]
  have hlow : 0x51 ≤ (0x50 + n).toNat := UInt8.le_iff_toNat_le.mp hrange.1
  have hother : ∀ op : UInt8, op.toNat < 0x51 → 0x50 + n ≠ op := by
    rintro op hop rfl
    omega
  -- it is none of the operations that are tried before
  unfold take
  rw [if_neg (by unfold directLimit; omega), if_neg (hother _ (by decide)),
    if_neg (hother _ (by decide)), if_neg (hother _ (by decide)), if_neg (hother _ (by decide)),
    if_pos hrange, hvalue]

/-! ## One operation -/

/-- An operation is not taken for another one: its first byte says which it is. -/
theorem take_eq_ok {op : UInt8} {body : Bytes} (h : Operation (op :: body) data) (rest : Bytes) :
    take op (body ++ rest) = .ok (data, rest) := by
  cases h with
  | direct hfew =>
      unfold take
      rw [toNat_direct hfew, if_pos hfew]
      exact takeData_append data rest
  | @sized _ width size _ hop hwidth hsize =>
      have hread : takeSized width (size ++ data ++ rest) = .ok (data, rest) :=
        takeSized_eq_ok_iff.mpr ⟨size, rfl, hwidth, hsize⟩
      simp only [sizedOperations, List.mem_cons, List.not_mem_nil, or_false, Prod.mk.injEq] at hop
      rcases hop with ⟨rfl, rfl⟩ | ⟨rfl, rfl⟩ | ⟨rfl, rfl⟩
      · exact hread
      · exact hread
      · exact hread
  | negative => rfl
  | small hpos hle => exact take_small hpos hle rest

/-- **One operation is read just when one stands at the front.** -/
theorem take_eq_ok_iff {op : UInt8} {tail : Bytes} :
    take op tail = .ok (data, rest)
      ↔ ∃ body, tail = body ++ rest ∧ Operation (op :: body) data := by
  constructor
  · intro h
    unfold take at h
    -- one case for each kind of operation
    split at h
    · rename_i hdirect
      obtain ⟨rfl, hlength⟩ := takeData_eq_ok_iff.mp h
      have hop : UInt8.ofNat data.length = op := by rw [hlength, UInt8.ofNat_toNat]
      refine ⟨data, rfl, ?_⟩
      rw [← hop]
      exact .direct (hlength ▸ hdirect)
    · have hsized : ∀ width, (op, width) ∈ sizedOperations →
          takeSized width tail = .ok (data, rest) →
          ∃ body, tail = body ++ rest ∧ Operation (op :: body) data := by
        intro width hop h
        obtain ⟨size, rfl, hwidth, hsize⟩ := takeSized_eq_ok_iff.mp h
        exact ⟨size ++ data, rfl, .sized hop hwidth hsize⟩
      split at h
      · rename_i hop
        exact hsized 1 (by simp [hop, sizedOperations]) h
      split at h
      · rename_i hop
        exact hsized 2 (by simp [hop, sizedOperations]) h
      split at h
      · rename_i hop
        exact hsized 4 (by simp [hop, sizedOperations]) h
      split at h
      · rename_i hop
        cases h
        exact ⟨[], rfl, hop ▸ .negative⟩
      split at h
      · rename_i hrange
        cases h
        obtain ⟨n, hpos, hle, rfl⟩ := exists_small_iff.mpr hrange
        refine ⟨[], rfl, ?_⟩
        rw [UInt8.add_comm 0x50 n, UInt8.add_sub_cancel, UInt8.add_comm n]
        exact .small hpos hle
      · cases h
  · rintro ⟨body, rfl, hoperation⟩
    exact take_eq_ok hoperation rest

/-! ## A script -/

/-- An operation has at least one byte. -/
theorem Operation.eq_cons {operation : Bytes} (h : Operation operation data) :
    ∃ op body, operation = op :: body := by
  cases h with
  | direct _ => exact ⟨_, _, rfl⟩
  | sized _ _ _ => exact ⟨_, _, rfl⟩
  | negative => exact ⟨_, _, rfl⟩
  | small _ _ => exact ⟨_, _, rfl⟩

theorem parse_of_pushes {script : Bytes} {stack : List Bytes} (h : Pushes script stack) :
    parse script = .ok stack := by
  induction h with
  | nil =>
      unfold parse
      rfl
  | @cons operation data rest stack hfirst _ ih =>
      obtain ⟨op, body, rfl⟩ := hfirst.eq_cons
      rw [List.cons_append, parse_of_take (take_eq_ok hfirst rest), ih]
      rfl

theorem pushes_of_parse {script : Bytes} {stack : List Bytes} (h : parse script = .ok stack) :
    Pushes script stack := by
  induction script using parse.induct generalizing stack with
  | case1 =>
      unfold parse at h
      cases h
      exact .nil
  | case2 op tail e htake =>
      rw [parse] at h
      split at h
      · cases h
      · rename_i hok
        rw [htake] at hok
        cases hok
  | case3 op tail data rest htake _ ih =>
      rw [parse_of_take htake] at h
      cases hrest : parse rest with
      | error e =>
          rw [hrest] at h
          cases h
      | ok others =>
          rw [hrest] at h
          cases h
          obtain ⟨body, rfl, hoperation⟩ := take_eq_ok_iff.mp htake
          exact .cons hoperation (ih hrest)

/-- **A script is read just when it is a sequence of operations**, and as the stack that they
leave. -/
theorem parse_eq_ok_iff {script : Bytes} {stack : List Bytes} :
    parse script = .ok stack ↔ Pushes script stack :=
  ⟨pushes_of_parse, parse_of_pushes⟩

end NotaryPool.Push
