import NotaryPool.Proofs.Script.Spending
import NotaryPool.Proofs.Windows

/-!
# What the reader of signature scripts answers

A script of pushes is cut by lengths that stand in it, and what is pushed may be any bytes, those of
operations among them. So a script has one reading only because the cuts are made from its front. It
is refused at the first place where no complete operation stands: a beginning of one that runs past
the end of the script, or a byte that begins none. A node reads the script at positions that it
moves forward by the lengths. It never reads behind the end, and it always arrives there or stops.

## Contents

* `Push.operation_encode`: what is written for a push is an operation.
* `Push.parse_isOk_iff`: **exactly the sequences of complete operations are read.**
* `Push.Refused`, `Push.parse_eq_error_iff`: **where a script is refused, and for what.**
* `Push.scan`, `Push.scan_eq`: **the reader that moves a position stays within the script.**
* `Push.script_faithful`: **signature scripts parse back to what was put in.**
-/

namespace NotaryPool.Push

variable {data rest script : Bytes} {stack : List Bytes}

/-! ## Complete operations -/

/-- What is written for a push is an operation, whichever header its length asks for. -/
theorem operation_encode (h : data.length < 2 ^ 32) : Operation (encode data) data := by
  have hsize : ∀ width, data.length < 256 ^ width →
      Bytes.toNatLE (Bytes.ofNatLE width data.length) = data.length := by
    intro width hwidth
    rw [Bytes.toNatLE_ofNatLE, Nat.mod_eq_of_lt hwidth]
  unfold encode
  split
  · rename_i hfew
    exact .direct hfew
  split
  · rename_i hshort
    exact .sized (by simp [sizedOperations]) (Bytes.length_ofNatLE 1 _) (hsize 1 hshort)
  split
  · rename_i hmedium
    exact .sized (by simp [sizedOperations]) (Bytes.length_ofNatLE 2 _) (hsize 2 hmedium)
  · exact .sized (by simp [sizedOperations]) (Bytes.length_ofNatLE 4 _) (hsize 4 h)

/-- A script of pushes is made of operations, one after the other. -/
theorem pushes_flatten {operations : List Bytes} (h : ∀ o ∈ operations, ∃ data, Operation o data) :
    ∃ stack, Pushes operations.flatten stack := by
  induction operations with
  | nil => exact ⟨[], .nil⟩
  | cons o others ih =>
      obtain ⟨hfirst, hothers⟩ := List.forall_mem_cons.mp h
      obtain ⟨data, hdata⟩ := hfirst
      obtain ⟨stack, hstack⟩ := ih hothers
      exact ⟨data :: stack, .cons hdata hstack⟩

theorem flatten_of_pushes (h : Pushes script stack) :
    ∃ operations : List Bytes, script = operations.flatten
      ∧ ∀ o ∈ operations, ∃ data, Operation o data := by
  induction h with
  | nil => exact ⟨[], rfl, by simp⟩
  | @cons operation data rest stack hfirst _ ih =>
      obtain ⟨operations, rfl, hoperations⟩ := ih
      refine ⟨operation :: operations, rfl, ?_⟩
      rw [List.forall_mem_cons]
      exact ⟨⟨data, hfirst⟩, hoperations⟩

/-- **Exactly the sequences of complete operations are read.** -/
theorem parse_isOk_iff (script : Bytes) :
    (∃ stack, parse script = .ok stack)
      ↔ ∃ operations : List Bytes, script = operations.flatten
          ∧ ∀ o ∈ operations, ∃ data, Operation o data := by
  constructor
  · rintro ⟨stack, h⟩
    exact flatten_of_pushes (pushes_of_parse h)
  · rintro ⟨operations, rfl, h⟩
    obtain ⟨stack, hstack⟩ := pushes_flatten h
    exact ⟨stack, parse_of_pushes hstack⟩

/-! ## Refused scripts -/

/-- The beginning of an operation the rest of which is missing. -/
def Cut (bs : Bytes) : Prop :=
  bs ≠ [] ∧ ∃ more data, more ≠ [] ∧ Operation (bs ++ more) data

/-- Why the bytes from a place on are refused there. -/
inductive Refused : Bytes → ScriptError → Prop
  /-- An operation runs past the end of the script. -/
  | cut {bs : Bytes} (hcut : Cut bs) : Refused bs .truncatedPush
  /-- No operation begins with the byte. -/
  | foreign {op : UInt8} {rest : Bytes} (hnone : ∀ body data, ¬ Operation (op :: body) data) :
      Refused (op :: rest) .sigPushOnly

variable {op : UInt8} {bs tail : Bytes}

/-- Bytes that are too few can be completed to as many as are asked for. -/
theorem exists_completion {count : Nat} (h : bs.length < count) :
    ∃ more, more ≠ [] ∧ (bs ++ more).length = count := by
  refine ⟨List.replicate (count - bs.length) 0, ?_, ?_⟩
  · rw [Ne, List.replicate_eq_nil_iff]
    omega
  · rw [List.length_append, List.length_replicate]
    omega

theorem takeData_eq_error_iff {count : Nat} {e : ScriptError} :
    takeData count bs = .error e ↔ bs.length < count ∧ e = .truncatedPush := by
  unfold takeData
  split
  · rename_i hshort
    rw [Except.error.injEq]
    exact ⟨fun h => ⟨hshort, h.symm⟩, fun h => h.2.symm⟩
  · rename_i henough
    simp [henough]

/-- A push behind a length field is refused for a field or for data that run past the end. -/
theorem cut_of_takeSized {width : Nat} {e : ScriptError} (hop : (op, width) ∈ sizedOperations)
    (h : takeSized width bs = .error e) : Cut (op :: bs) ∧ e = .truncatedPush := by
  unfold takeSized at h
  split at h
  · rename_i hshort
    cases h
    -- a field of any bytes, and as many bytes of data as it then asks for
    obtain ⟨more, hmore, hsize⟩ := exists_completion hshort
    refine ⟨⟨List.cons_ne_nil _ _, more ++ List.replicate (Bytes.toNatLE (bs ++ more)) 0,
      List.replicate (Bytes.toNatLE (bs ++ more)) 0, List.append_ne_nil_of_left_ne_nil hmore _, ?_⟩,
      rfl⟩
    rw [List.cons_append, ← List.append_assoc]
    exact .sized hop hsize List.length_replicate.symm
  · obtain ⟨hshort, rfl⟩ := takeData_eq_error_iff.mp h
    rename_i henough
    obtain ⟨more, hmore, hsize⟩ := exists_completion hshort
    refine ⟨⟨List.cons_ne_nil _ _, more, bs.drop width ++ more, hmore, ?_⟩, rfl⟩
    have hform : op :: bs ++ more = op :: (bs.take width ++ (bs.drop width ++ more)) := by
      rw [← List.append_assoc, List.take_append_drop, List.cons_append]
    rw [hform]
    exact .sized hop (List.length_take_of_le (Nat.not_lt.mp henough)) hsize.symm

/-- The bytes with which an operation begins. -/
theorem Operation.opens {body : Bytes} (h : Operation (op :: body) data) :
    op.toNat ≤ directLimit ∨ (∃ width, (op, width) ∈ sizedOperations) ∨ op = 0x4f
      ∨ (0x51 ≤ op ∧ op ≤ 0x60) := by
  cases h with
  | direct hfew =>
      left
      rwa [toNat_direct hfew]
  | sized hop _ _ => exact Or.inr (Or.inl ⟨_, hop⟩)
  | negative => exact Or.inr (Or.inr (Or.inl rfl))
  | small hpos hle => exact Or.inr (Or.inr (Or.inr (exists_small_iff.mp ⟨_, hpos, hle, rfl⟩)))

/-- **What is refused at a place** is a cut operation, or none at all. -/
theorem refused_of_take {e : ScriptError} (h : take op tail = .error e) :
    Refused (op :: tail) e := by
  unfold take at h
  -- one case for each kind of operation, and one for the bytes that begin none
  split at h
  · obtain ⟨hshort, rfl⟩ := takeData_eq_error_iff.mp h
    obtain ⟨more, hmore, hsize⟩ := exists_completion hshort
    rename_i hdirect
    refine .cut ⟨List.cons_ne_nil _ _, more, tail ++ more, hmore, ?_⟩
    have hoperation : Operation (UInt8.ofNat (tail ++ more).length :: (tail ++ more))
        (tail ++ more) := .direct (hsize ▸ hdirect)
    rwa [hsize, UInt8.ofNat_toNat] at hoperation
  rename_i hdirect
  have hsized : ∀ width, (op, width) ∈ sizedOperations → takeSized width tail = .error e →
      Refused (op :: tail) e := by
    intro width hop h
    obtain ⟨hcut, rfl⟩ := cut_of_takeSized hop h
    exact .cut hcut
  split at h
  · rename_i hop
    exact hsized 1 (by simp [hop, sizedOperations]) h
  rename_i hone
  split at h
  · rename_i hop
    exact hsized 2 (by simp [hop, sizedOperations]) h
  rename_i htwo
  split at h
  · rename_i hop
    exact hsized 4 (by simp [hop, sizedOperations]) h
  rename_i hfour
  split at h
  · cases h
  rename_i hnegative
  split at h
  · cases h
  rename_i hsmall
  cases h
  refine .foreign ?_
  intro body data hoperation
  rcases hoperation.opens with hother | ⟨width, hother⟩ | hother | hother
  · exact hdirect hother
  · simp only [sizedOperations, List.mem_cons, List.not_mem_nil, or_false, Prod.mk.injEq] at hother
    rcases hother with ⟨hother, -⟩ | ⟨hother, -⟩ | ⟨hother, -⟩
    · exact hone hother
    · exact htwo hother
    · exact hfour hother
  · exact hnegative hother
  · exact hsmall hother

/-- A cut operation is not a complete one with something behind it. -/
theorem Cut.not_prefix {operation : Bytes} (h : Cut (operation ++ rest))
    (hoperation : Operation operation data) : False := by
  obtain ⟨-, more, other, hmore, hother⟩ := h
  obtain ⟨op, body, rfl⟩ := hoperation.eq_cons
  -- the longer operation would be read with nothing left and with more left
  have hlong : take op (body ++ (rest ++ more)) = .ok (other, []) := by
    have hwhole : Operation (op :: (body ++ (rest ++ more))) other := by simpa using hother
    have hread := take_eq_ok hwhole []
    rwa [List.append_nil] at hread
  have hshort := take_eq_ok hoperation (rest ++ more)
  rw [hlong, Except.ok.injEq, Prod.mk.injEq] at hshort
  exact hmore (List.append_eq_nil_iff.mp hshort.2.symm).2

theorem take_of_refused {e : ScriptError} (h : Refused (op :: tail) e) :
    take op tail = .error e := by
  cases htake : take op tail with
  | ok read =>
      obtain ⟨data, rest⟩ := read
      obtain ⟨body, rfl, hoperation⟩ := take_eq_ok_iff.mp htake
      cases h with
      | cut hcut => exact (hcut.not_prefix hoperation).elim
      | foreign hnone => exact absurd hoperation (hnone body data)
  | error e' =>
      have hrefused := refused_of_take htake
      cases h with
      | cut hcut =>
          cases hrefused with
          | cut _ => rfl
          | foreign hnone =>
              obtain ⟨-, more, data, -, hoperation⟩ := hcut
              exact absurd hoperation (hnone (tail ++ more) data)
      | foreign hnone =>
          cases hrefused with
          | cut hcut =>
              obtain ⟨-, more, data, -, hoperation⟩ := hcut
              exact absurd hoperation (hnone (tail ++ more) data)
          | foreign _ => rfl

theorem parse_of_take_error {e : ScriptError} (h : take op tail = .error e) :
    parse (op :: tail) = .error e := by
  rw [parse]
  split
  · rename_i he
    rw [h] at he
    cases he
    rfl
  · rename_i hok
    rw [h] at hok
    cases hok

/-- Pushes at the front do not change what is refused behind them. -/
theorem parse_append {head : Bytes} (h : Pushes head stack) (tail : Bytes) :
    parse (head ++ tail) = (parse tail).map (stack ++ ·) := by
  induction h with
  | nil =>
      show parse tail = _
      cases parse tail <;> rfl
  | @cons operation data rest stack hfirst _ ih =>
      obtain ⟨op, body, rfl⟩ := hfirst.eq_cons
      rw [List.append_assoc, List.cons_append, parse_of_take (take_eq_ok hfirst _), ih]
      cases parse tail <;> rfl

theorem refused_of_parse {e : ScriptError} (h : parse script = .error e) :
    ∃ head tail stack, script = head ++ tail ∧ Pushes head stack ∧ Refused tail e := by
  induction script using parse.induct with
  | case1 =>
      unfold parse at h
      cases h
  | case2 op tail e' htake =>
      rw [parse_of_take_error htake] at h
      cases h
      exact ⟨[], op :: tail, [], rfl, .nil, refused_of_take htake⟩
  | case3 op tail data rest htake _ ih =>
      rw [parse_of_take htake] at h
      cases hrest : parse rest with
      | ok others =>
          rw [hrest] at h
          cases h
      | error e' =>
          rw [hrest] at h
          cases h
          obtain ⟨head, behind, stack, rfl, hhead, hrefused⟩ := ih hrest
          obtain ⟨body, rfl, hoperation⟩ := take_eq_ok_iff.mp htake
          exact ⟨op :: body ++ head, behind, data :: stack, by simp, .cons hoperation hhead,
            hrefused⟩

/-- **A script is refused at the first place without a complete operation**, and for what stands
there. -/
theorem parse_eq_error_iff {e : ScriptError} :
    parse script = .error e
      ↔ ∃ head tail stack, script = head ++ tail ∧ Pushes head stack ∧ Refused tail e := by
  constructor
  · exact refused_of_parse
  · rintro ⟨head, tail, stack, rfl, hhead, hrefused⟩
    obtain ⟨op, rest, rfl⟩ : ∃ op rest, tail = op :: rest := by
      cases hrefused with
      | cut hcut => exact List.exists_cons_of_ne_nil hcut.1
      | foreign _ => exact ⟨_, _, rfl⟩
    rw [parse_append hhead, parse_of_take_error (take_of_refused hrefused)]
    rfl

/-! ## The reader that moves a position -/

/-- What stands at a position, and the position behind it. A read outside of the script has no
result. -/
abbrev Reading (α : Type) := Option (Except ScriptError (α × Nat))

/-- As many bytes as are asked for, if the script has them. -/
def dataAt (script : Bytes) (count pos : Nat) : Reading Bytes :=
  if script.length < pos + count then some (.error .truncatedPush)
  else (script.window? pos count).map fun data => .ok (data, pos + count)

/-- Bytes behind a length field. -/
def sizedAt (script : Bytes) (width pos : Nat) : Reading Bytes :=
  if script.length < pos + width then some (.error .truncatedPush)
  else (script.window? pos width).bind fun size =>
    dataAt script (Bytes.toNatLE size) (pos + width)

/-- What the operation in front of a position pushes. -/
def operationAt (script : Bytes) (op : UInt8) (pos : Nat) : Reading Bytes :=
  if op.toNat ≤ directLimit then dataAt script op.toNat pos
  else if op = 0x4c then sizedAt script 1 pos
  else if op = 0x4d then sizedAt script 2 pos
  else if op = 0x4e then sizedAt script 4 pos
  else if op = 0x4f then some (.ok ([0x81], pos))
  else if 0x51 ≤ op ∧ op ≤ 0x60 then some (.ok ([op - 0x50], pos))
  else some (.error .sigPushOnly)

/-- How a reading without positions looks from a position on. -/
def placed (script : Bytes) (read : Except ScriptError (Bytes × Bytes)) :
    Except ScriptError (Bytes × Nat) :=
  read.map fun (data, rest) => (data, script.length - rest.length)

theorem dataAt_eq {count pos : Nat} (h : pos ≤ script.length) :
    dataAt script count pos = some (placed script (takeData count (script.drop pos))) := by
  unfold dataAt takeData
  rw [List.length_drop]
  by_cases hshort : script.length < pos + count
  · rw [if_pos hshort, if_pos (by omega)]
    rfl
  · rw [if_neg hshort, if_neg (by omega), Bytes.window?_eq (Nat.not_lt.mp hshort)]
    have hnext : script.length - ((script.drop pos).drop count).length = pos + count := by
      rw [List.length_drop, List.length_drop]
      omega
    show some (Except.ok ((script.drop pos).take count, pos + count)) = some (Except.ok (_, _))
    rw [hnext]

theorem sizedAt_eq {width pos : Nat} (h : pos ≤ script.length) :
    sizedAt script width pos = some (placed script (takeSized width (script.drop pos))) := by
  unfold sizedAt takeSized
  rw [List.length_drop]
  by_cases hshort : script.length < pos + width
  · rw [if_pos hshort, if_pos (by omega)]
    rfl
  · rw [if_neg hshort, if_neg (by omega), Bytes.window?_eq (Nat.not_lt.mp hshort),
      Option.bind_some, dataAt_eq (Nat.not_lt.mp hshort), List.drop_drop]

/-- **Reading an operation at a position** stays within the script. -/
theorem operationAt_eq {pos : Nat} (h : pos ≤ script.length) :
    operationAt script op pos = some (placed script (take op (script.drop pos))) := by
  have hstays : script.length - (script.drop pos).length = pos := by
    rw [List.length_drop]
    omega
  unfold operationAt take
  repeat' split
  · exact dataAt_eq h
  · exact sizedAt_eq h
  · exact sizedAt_eq h
  · exact sizedAt_eq h
  · show _ = some (Except.ok ([0x81], _))
    rw [hstays]
  · show _ = some (Except.ok ([op - 0x50], _))
    rw [hstays]
  · rfl

/-- An operation that is read ends behind its beginning and within the script, and what it leaves
stands from there on. -/
theorem operationAt_ok {pos next : Nat} (hpos : pos ≤ script.length)
    (h : operationAt script op pos = some (.ok (data, next))) :
    pos ≤ next ∧ next ≤ script.length
      ∧ take op (script.drop pos) = .ok (data, script.drop next) := by
  rw [operationAt_eq hpos, Option.some.injEq] at h
  obtain ⟨⟨read, rest⟩, htake, hplace⟩ := Except.map_eq_ok_iff.mp h
  cases hplace
  have hrest := length_of_take htake
  rw [List.length_drop] at hrest
  refine ⟨by omega, Nat.sub_le .., ?_⟩
  -- what is left is a suffix of the script, so its length says where it begins
  obtain ⟨body, hbody, -⟩ := take_eq_ok_iff.mp htake
  have hsuffix : rest <:+ script :=
    (List.suffix_append body rest).trans (hbody ▸ List.drop_suffix pos script)
  rw [htake, ← List.suffix_iff_eq_drop.mp hsuffix]

/-- Reads operations from a position on, behind those that left `stack`. -/
def scanFrom (script : Bytes) (pos : Nat) (stack : List Bytes) :
    Option (Except ScriptError (List Bytes)) :=
  if hmore : pos < script.length then
    match script[pos]? with
    | none => none
    | some op =>
      match h : operationAt script op (pos + 1) with
      | none => none
      | some (.error e) => some (.error e)
      | some (.ok (data, next)) =>
        have : script.length - next < script.length - pos := by
          have hnext := (operationAt_ok hmore h).1
          omega
        scanFrom script next (stack ++ [data])
  else some (.ok stack)
termination_by script.length - pos

/-- The stack that a script of pushes leaves, read by moving a position. -/
def scan (script : Bytes) : Option (Except ScriptError (List Bytes)) := scanFrom script 0 []

/-- **The reader that moves a position stays within the script**, and reads what is read without
positions. -/
theorem scanFrom_eq {pos : Nat} (hpos : pos ≤ script.length) (stack : List Bytes) :
    scanFrom script pos stack = some ((parse (script.drop pos)).map (stack ++ ·)) := by
  fun_induction scanFrom script pos stack with
  | case1 pos stack hmore hnone =>
      rw [List.getElem?_eq_none_iff] at hnone
      omega
  | case2 pos stack hmore op hop hoperation =>
      rw [operationAt_eq hmore] at hoperation
      cases hoperation
  | case3 pos stack hmore op hop e hoperation =>
      rw [operationAt_eq hmore, Option.some.injEq] at hoperation
      have htake := Except.map_eq_error_iff.mp hoperation
      rw [Bytes.drop_eq_cons hop, parse_of_take_error htake]
      rfl
  | case4 pos stack hmore op hop data next hoperation _ ih =>
      obtain ⟨-, hnext, htake⟩ := operationAt_ok hmore hoperation
      rw [ih hnext, Bytes.drop_eq_cons hop, parse_of_take htake]
      cases parse (script.drop next) with
      | error e => rfl
      | ok others => simp [Except.map]
  | case5 pos stack hend =>
      rw [List.drop_eq_nil_of_le (Nat.not_lt.mp hend), parse_of_pushes .nil, Except.map,
        List.append_nil]

theorem scan_eq (script : Bytes) : scan script = some (parse script) := by
  unfold scan
  rw [scanFrom_eq (Nat.zero_le _), List.drop_zero]
  cases parse script <;> rfl

/-! ## Signature scripts -/

/-- A signature script leaves the dummy element, the first entries that are not empty, and the
redeem script. -/
theorem parse_script {entries : InputSignatures} {required : UInt8} {redeem : Bytes}
    (hshort : ∀ data ∈ redeem :: (Signing.present entries).take required.toNat,
      data.length < 2 ^ 32)
    (h : Signing.script entries required redeem = .ok script) :
    parse script = .ok ([] :: ((Signing.present entries).take required.toNat ++ [redeem])) := by
  rw [Signing.script_eq] at h
  split at h
  · cases h
  · cases h
    apply parse_flatMap_encode
    intro data hdata
    simp only [Spend.stackOf, List.mem_cons, List.mem_append, List.not_mem_nil, or_false] at hdata
    rcases hdata with rfl | hentry | rfl
    · decide
    · exact hshort data (List.mem_cons_of_mem _ hentry)
    · exact hshort data List.mem_cons_self

/-- **Signature scripts parse back to what was put in.** Pushes of fewer than 2^32 bytes each read
back as the list of what they push, and a signature script as the empty dummy element, the first
entries that are not empty, as many as are required, and the redeem script. Any bytes whatever are
read just when they are complete operations one after the other. Otherwise they are refused at the
first place where an operation runs past the end or none begins. The reader that moves a position
gives the same answers, so that it always ends and never reads outside of the script. -/
theorem script_faithful :
    (∀ stack : List Bytes, (∀ data ∈ stack, data.length < 2 ^ 32) →
        parse (stack.flatMap encode) = .ok stack)
      ∧ (∀ (entries : InputSignatures) (required : UInt8) (redeem script : Bytes),
        (∀ data ∈ redeem :: (Signing.present entries).take required.toNat, data.length < 2 ^ 32) →
        Signing.script entries required redeem = .ok script →
        parse script = .ok ([] :: ((Signing.present entries).take required.toNat ++ [redeem])))
      ∧ (∀ script : Bytes, (∃ stack, parse script = .ok stack)
          ↔ ∃ operations : List Bytes, script = operations.flatten
            ∧ ∀ o ∈ operations, ∃ data, Operation o data)
      ∧ (∀ (script : Bytes) (e : ScriptError), parse script = .error e
          ↔ ∃ head tail stack, script = head ++ tail ∧ Pushes head stack ∧ Refused tail e)
      ∧ ∀ script : Bytes, scan script = some (parse script) := by
  refine ⟨?_, ?_, parse_isOk_iff, ?_, scan_eq⟩
  · intro stack hshort
    exact parse_flatMap_encode hshort
  · intro entries required redeem script hshort hscript
    exact parse_script hshort hscript
  · intro script e
    exact parse_eq_error_iff

/-- Two entries around the longest push without a length field, and a longer redeem script. -/
theorem script_faithful_mixed :
    ∃ script, Signing.script [[], .replicate 75 0xab, [], .replicate 76 0xcd] 2
        (.replicate 256 0xae) = .ok script
      ∧ parse script
        = .ok [[], .replicate 75 0xab, .replicate 76 0xcd, .replicate 256 0xae] := by
  have hpresent : (Signing.present [[], .replicate 75 0xab, [], .replicate 76 0xcd]).take 2
      = [.replicate 75 0xab, .replicate 76 0xcd] := rfl
  have hshort : ∀ data ∈ List.replicate 256 0xae :: (Signing.present
      [[], .replicate 75 0xab, [], .replicate 76 0xcd]).take 2, data.length < 2 ^ 32 := by
    intro data hdata
    rw [hpresent] at hdata
    simp only [List.mem_cons, List.not_mem_nil, or_false] at hdata
    rcases hdata with rfl | rfl | rfl <;> rw [List.length_replicate] <;> decide
  obtain ⟨-, hread, -⟩ := script_faithful
  exact ⟨_, rfl, hread [[], .replicate 75 0xab, [], .replicate 76 0xcd] 2 _ _ hshort rfl⟩

end NotaryPool.Push
