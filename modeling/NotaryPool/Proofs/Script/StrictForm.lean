import Mathlib.Data.Nat.Bitwise
import NotaryPool.Proofs.Script.Encoding
import NotaryPool.Proofs.Script.Spending

/-!
# The strict form of a signature

Nodes relay signatures in one byte form only: a sequence of two integers, each in the fewest bytes
that keep its sign bit clear, and one byte for what the signature covers. The lengths of the parts
stand among the bytes, which come from anybody. A node finds the parts by positions computed from
these lengths, and each test has to stand before the reads that rely on it.

## Contents

* `RawSignature.Shortest`, `RawSignature.StrictForm`: the form, written out.
* `RawSignature.isStrictDer_iff`: **the check accepts just this form.**
* `RawSignature.checkAt`, `RawSignature.checkAt_eq`: **reading at computed positions stays within
  the signature.**
* `RawSignature.strict_exact`: both.
-/

namespace NotaryPool.RawSignature

/-! ## The form -/

/-- The bytes of an integer that is not negative: at least one, the sign bit clear, and a zero in
front of others only if the next byte needs it. -/
structure Shortest (bytes : Bytes) : Prop where
  ne_nil : bytes ≠ []
  sign : ∀ b rest, bytes = b :: rest → b < 0x80
  needed : ∀ b rest, bytes = 0 :: b :: rest → 0x80 ≤ b

/-- A signature in the strict form, with the bytes of its two integers and the byte for what it
covers. -/
structure StrictForm (sig : RawSignature) (r s : Bytes) (type : UInt8) : Prop where
  form : sig = 0x30 :: UInt8.ofNat (sig.length - 3) :: 2 :: UInt8.ofNat r.length
    :: (r ++ 2 :: UInt8.ofNat s.length :: (s ++ [type]))
  least : 9 ≤ sig.length
  most : sig.length ≤ 73
  r : Shortest r
  s : Shortest s

theorem isShortest_iff {bytes : Bytes} : isShortest bytes = true ↔ Shortest bytes := by
  match bytes with
  | [] =>
      constructor
      · intro h
        cases h
      · intro h
        exact absurd rfl h.ne_nil
  | [b] =>
      simp only [isShortest, decide_eq_true_eq]
      constructor
      · intro hsign
        refine ⟨List.cons_ne_nil _ _, ?_, ?_⟩
        · rintro _ _ ⟨⟩
          exact hsign
        · rintro _ _ ⟨⟩
      · intro h
        exact h.sign b [] rfl
  | b :: b' :: rest =>
      simp only [isShortest, Bool.and_eq_true, decide_eq_true_eq, Bool.not_eq_true',
        Bool.and_eq_false_iff, beq_eq_false_iff_ne, decide_eq_false_iff_not, UInt8.not_lt]
      constructor
      · rintro ⟨hsign, hneeded⟩
        refine ⟨List.cons_ne_nil _ _, ?_, ?_⟩
        · rintro _ _ ⟨⟩
          exact hsign
        · rintro _ _ ⟨⟩
          exact hneeded.resolve_left fun hne => hne rfl
      · intro h
        refine ⟨h.sign b _ rfl, ?_⟩
        by_cases hzero : b = 0
        · subst hzero
          exact Or.inr (h.needed b' rest rfl)
        · exact Or.inl hzero

theorem isStrictDer_of_form {sig : RawSignature} {r s : Bytes} {type : UInt8}
    (h : StrictForm sig r s type) : isStrictDer sig = true := by
  have hlength : sig.length = r.length + s.length + 7 := by
    rw [h.form]
    simp only [List.length_cons, List.length_append, List.length_nil]
    omega
  have hmost := h.most
  have hstrict := isStrictDer_of_shortest (isShortest_iff.mpr h.r) (isShortest_iff.mpr h.s)
    (by omega) type
  have hform := h.form
  rw [hlength] at hform
  rw [hform]
  exact hstrict

theorem form_of_isStrictDer {sig : RawSignature} (h : isStrictDer sig = true) :
    ∃ r s type, StrictForm sig r s type := by
  have hbounds := length_of_isStrictDer h
  unfold isStrictDer at h
  split at h
  · rename_i tag total rTag rSize rest
    split at h
    · rename_i sTag sSize tail hdrop
      simp only [Bool.and_eq_true, decide_eq_true_eq, beq_iff_eq] at h
      obtain ⟨⟨⟨⟨⟨⟨⟨⟨-, -⟩, rfl⟩, htotal⟩, htail⟩, rfl⟩, hr⟩, rfl⟩, hs⟩ := h
      -- behind the second integer one byte is left
      obtain ⟨type, htype⟩ := List.length_eq_one_iff.mp
        (show (tail.drop sSize.toNat).length = 1 by rw [List.length_drop]; omega)
      have hrlength : (rest.take rSize.toNat).length = rSize.toNat := by
        have hmore := congrArg List.length hdrop
        rw [List.length_drop, List.length_cons] at hmore
        rw [List.length_take]
        omega
      have hslength : (tail.take sSize.toNat).length = sSize.toNat := by
        rw [List.length_take]
        omega
      refine ⟨rest.take rSize.toNat, tail.take sSize.toNat, type, ?_, hbounds.1, hbounds.2,
        isShortest_iff.mp hr, isShortest_iff.mp hs⟩
      rw [hrlength, hslength, ← htotal, UInt8.ofNat_toNat, UInt8.ofNat_toNat, UInt8.ofNat_toNat,
        ← htype, List.take_append_drop, ← hdrop, List.take_append_drop]
    · cases h
  · cases h

/-- **The check accepts just the strict form.** -/
theorem isStrictDer_iff {sig : RawSignature} :
    isStrictDer sig = true ↔ ∃ r s type, StrictForm sig r s type := by
  constructor
  · exact form_of_isStrictDer
  · rintro ⟨r, s, type, h⟩
    exact isStrictDer_of_form h

/-! ## Reads at computed positions -/

/-- Whether an integer of `size` bytes from `start` on is in its form, with the tag and the size in
front of it. There is no answer if a read leads outside of the signature. -/
def integerAt (sig : RawSignature) (start size : Nat) : Option Bool := do
  let tag ← sig[start - 2]?
  if tag ≠ 2 ∨ size = 0 then some false
  else do
    let first ← sig[start]?
    if first &&& 0x80 ≠ 0 then some false
    else if size = 1 ∨ first ≠ 0 then some true
    else do
      let second ← sig[start + 1]?
      some (second &&& 0x80 != 0)

/-- The check of the strict form by positions, which are computed from lengths that stand in the
signature. There is no answer if a read leads outside of it. -/
def checkAt (sig : RawSignature) : Option Bool :=
  if sig.length < 9 ∨ 73 < sig.length then some false
  else do
    let tag ← sig[0]?
    if tag ≠ 0x30 then some false
    else do
      let total ← sig[1]?
      if total.toNat ≠ sig.length - 3 then some false
      else do
        let rSize ← sig[3]?
        if sig.length ≤ 5 + rSize.toNat then some false
        else do
          let sSize ← sig[5 + rSize.toNat]?
          if rSize.toNat + sSize.toNat + 7 ≠ sig.length then some false
          else do
            let r ← integerAt sig 4 rSize.toNat
            if r then integerAt sig (6 + rSize.toNat) sSize.toNat else some false

/-- The sign bit of a byte. -/
theorem sign_clear_iff (b : UInt8) : b &&& 0x80 = 0 ↔ b < 0x80 := by
  have hb := b.toNat_lt
  rw [← UInt8.toNat_inj, UInt8.lt_iff_toNat_lt, UInt8.toNat_and]
  show b.toNat &&& 2 ^ 7 = 0 ↔ b.toNat < 128
  rw [Nat.and_two_pow, Nat.testBit_eq_decide_div_mod_eq]
  by_cases hbit : b.toNat / 2 ^ 7 % 2 = 1
  · simp [hbit]
    omega
  · simp [hbit]
    omega

/-- An integer that is in the signature is read without leaving it. -/
theorem integerAt_eq (front bytes after : Bytes) (tag mark : UInt8) :
    integerAt (front ++ tag :: mark :: (bytes ++ after)) (front.length + 2) bytes.length
      = some (tag == 2 && isShortest bytes) := by
  have hat : ∀ i, (front ++ tag :: mark :: (bytes ++ after))[front.length + i]?
      = (tag :: mark :: (bytes ++ after))[i]? := by
    intro i
    rw [List.getElem?_append_right (Nat.le_add_right ..), Nat.add_sub_cancel_left]
  have htag : (front ++ tag :: mark :: (bytes ++ after))[front.length + 2 - 2]? = some tag := by
    rw [Nat.add_sub_cancel]
    exact hat 0
  unfold integerAt
  rw [htag, hat 2, Nat.add_assoc, hat 3]
  by_cases htwo : tag = 2
  · subst htwo
    match bytes with
    | [] => rfl
    | [b] =>
        by_cases hsign : b < 0x80
        · simp [isShortest, hsign, (sign_clear_iff b).mpr hsign]
        · simp [isShortest, hsign, mt (sign_clear_iff b).mp hsign]
    | b :: b' :: rest =>
        by_cases hsign : b < 0x80
        · by_cases hzero : b = 0
          · by_cases hneeded : b' < 0x80
            · simp [isShortest, hzero, hneeded, (sign_clear_iff b').mpr hneeded]
            · simp [isShortest, hzero, hneeded, mt (sign_clear_iff b').mp hneeded]
          · simp [isShortest, hsign, hzero, (sign_clear_iff b).mpr hsign]
        · simp [isShortest, hsign, mt (sign_clear_iff b).mp hsign]
  · simp [htwo]

section Parts

variable {tag total rTag rSize sTag sSize : UInt8} {r tail : Bytes}

theorem length_parts : (tag :: total :: rTag :: rSize :: (r ++ sTag :: sSize :: tail)).length
    = r.length + tail.length + 6 := by
  simp only [List.length_cons, List.length_append]
  omega

theorem isStrictDer_parts (hr : rSize.toNat = r.length)
    (hbounds : 9 ≤ r.length + tail.length + 6 ∧ r.length + tail.length + 6 ≤ 73) :
    isStrictDer (tag :: total :: rTag :: rSize :: (r ++ sTag :: sSize :: tail))
      = (tag == 0x30 && total.toNat == r.length + tail.length + 6 - 3
        && tail.length == sSize.toNat + 1 && (rTag == 2 && isShortest r)
        && (sTag == 2 && isShortest (tail.take sSize.toNat))) := by
  unfold isStrictDer
  simp only [length_parts, hr, List.drop_left, List.take_left, decide_eq_true hbounds.1,
    decide_eq_true hbounds.2, Bool.true_and, Bool.and_assoc]

/-- The length of the second integer stands behind the first one and a tag. -/
theorem secondSizeAt_parts :
    (tag :: total :: rTag :: rSize :: (r ++ sTag :: sSize :: tail))[5 + r.length]?
      = some sSize := by
  have hplace : 5 + r.length = (tag :: total :: rTag :: rSize :: r).length + 1 := by
    simp only [List.length_cons]
    omega
  rw [hplace, ← List.cons_append, ← List.cons_append, ← List.cons_append, ← List.cons_append,
    List.getElem?_append_right (Nat.le_add_right ..), Nat.add_sub_cancel_left]
  rfl

theorem firstAt_parts :
    integerAt (tag :: total :: rTag :: rSize :: (r ++ sTag :: sSize :: tail)) 4 r.length
      = some (rTag == 2 && isShortest r) :=
  integerAt_eq [tag, total] r (sTag :: sSize :: tail) _ _

theorem secondAt_parts (htail : tail.length = sSize.toNat + 1) :
    integerAt (tag :: total :: rTag :: rSize :: (r ++ sTag :: sSize :: tail))
        (6 + r.length) sSize.toNat
      = some (sTag == 2 && isShortest (tail.take sSize.toNat)) := by
  have hread := integerAt_eq (tag :: total :: rTag :: rSize :: r) (tail.take sSize.toNat)
    (tail.drop sSize.toNat) sTag sSize
  rw [List.take_append_drop, List.length_take_of_le (by omega)] at hread
  rw [Nat.add_comm]
  exact hread

/-- Both integers are found where the lengths say that they are. -/
theorem checkAt_parts (hr : rSize.toNat = r.length)
    (hbounds : 9 ≤ r.length + tail.length + 6 ∧ r.length + tail.length + 6 ≤ 73) :
    checkAt (tag :: total :: rTag :: rSize :: (r ++ sTag :: sSize :: tail))
      = some (isStrictDer (tag :: total :: rTag :: rSize :: (r ++ sTag :: sSize :: tail))) := by
  unfold checkAt
  rw [isStrictDer_parts hr hbounds, length_parts, if_neg (by omega)]
  -- the tests stand in the order of the reads
  show (if tag ≠ 0x30 then some false
    else if total.toNat ≠ r.length + tail.length + 6 - 3 then some false
    else if r.length + tail.length + 6 ≤ 5 + rSize.toNat then some false
    else _) = _
  by_cases htag : tag = 0x30
  · rw [if_neg (not_not_intro htag)]
    by_cases htotal : total.toNat = r.length + tail.length + 6 - 3
    · rw [if_neg (not_not_intro htotal), if_neg (by omega), hr]
      simp only [secondSizeAt_parts, firstAt_parts, Option.bind_eq_bind, Option.bind_some]
      by_cases htail : tail.length = sSize.toNat + 1
      · rw [if_neg (by omega), secondAt_parts htail, beq_iff_eq.mpr htag, beq_iff_eq.mpr htotal,
          beq_iff_eq.mpr htail]
        cases rTag == 2 && isShortest r <;> rfl
      · rw [if_pos (by omega), beq_eq_false_iff_ne.mpr htail]
        simp only [Bool.and_false, Bool.false_and]
    · rw [if_pos htotal, beq_eq_false_iff_ne.mpr htotal]
      simp only [Bool.and_false, Bool.false_and]
  · rw [if_pos htag, beq_eq_false_iff_ne.mpr htag]
    simp only [Bool.false_and]

end Parts

/-- A signature that breaks off behind its first integer is refused before it is read there. -/
theorem checkAt_short {tag total rTag rSize : UInt8} {rest : Bytes}
    (hbounds : 9 ≤ rest.length + 4 ∧ rest.length + 4 ≤ 73)
    (hshort : rest.length ≤ rSize.toNat + 1) :
    checkAt (tag :: total :: rTag :: rSize :: rest) = some false := by
  unfold checkAt
  simp only [List.length_cons]
  rw [if_neg (by omega)]
  show (if tag ≠ 0x30 then some false
    else if total.toNat ≠ rest.length + 4 - 3 then some false
    else if rest.length + 4 ≤ 5 + rSize.toNat then some false
    else _) = _
  rw [if_pos (show rest.length + 4 ≤ 5 + rSize.toNat by omega), ite_self, ite_self]

/-- **Reading at computed positions stays within the signature**, and answers what the check
answers. -/
theorem checkAt_eq (sig : RawSignature) : checkAt sig = some (isStrictDer sig) := by
  by_cases hbounds : 9 ≤ sig.length ∧ sig.length ≤ 73
  · match sig with
    | [] | [_] | [_, _] | [_, _, _] =>
        simp only [List.length_cons, List.length_nil] at hbounds
        omega
    | tag :: total :: rTag :: rSize :: rest =>
        simp only [List.length_cons] at hbounds
        have hlength := List.length_drop (i := rSize.toNat) (l := rest)
        match hdrop : rest.drop rSize.toNat with
        | [] | [_] =>
            rw [hdrop] at hlength
            simp only [List.length_cons, List.length_nil] at hlength
            rw [checkAt_short hbounds (by omega)]
            unfold isStrictDer
            simp only [hdrop]
        | sTag :: sSize :: tail =>
            rw [hdrop] at hlength
            simp only [List.length_cons] at hlength
            have hr : (rest.take rSize.toNat).length = rSize.toNat :=
              List.length_take_of_le (by omega)
            have hrest : rest = rest.take rSize.toNat ++ sTag :: sSize :: tail := by
              rw [← hdrop, List.take_append_drop]
            rw [hrest]
            exact checkAt_parts hr.symm (by omega)
  · have hrefused : isStrictDer sig = false := by
      rw [Bool.eq_false_iff]
      exact fun hstrict => hbounds (length_of_isStrictDer hstrict)
    unfold checkAt
    rw [if_pos (by omega), hrefused]

/-- **The check accepts exactly the strict form, and stays within the signature.** Any bytes
whatever pass just when they are the tag of a sequence, the length of what follows but for the last
byte, two integers, each with its tag and its length in front, and one byte more, from nine to
seventy-three bytes together, and both integers have at least one byte, a clear sign bit, and no
zero in front that is not needed. The same answer is found by reading at positions that are computed
from the lengths, in the order of the tests, and none of these reads leads outside. -/
theorem strict_exact (sig : RawSignature) :
    (isStrictDer sig = true ↔ ∃ r s type, StrictForm sig r s type)
      ∧ checkAt sig = some (isStrictDer sig) :=
  ⟨isStrictDer_iff, checkAt_eq sig⟩

end NotaryPool.RawSignature
