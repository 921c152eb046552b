import Mathlib.Data.List.TakeWhile
import Mathlib.Tactic.Ring
import NotaryPool.Proofs.Script.Reading
import NotaryPool.Script.Spend

/-!
# The byte form of a signature

A signature is written as a sequence of two integers, each in the fewest bytes that keep its sign
bit clear. That is the one form that strict nodes relay, and it reads back as the signature.

## Contents

* `Signature.Der.Minimal`, `Signature.Der.minimal_integerBytes`: the bytes of an integer.
* `Signature.ofDer?_toDer`: **a signature reads back.**
* `RawSignature.isStrictDer_ofSignature`: **its byte form is strict.**
-/

namespace NotaryPool

open Curve

/-! ## Leading zeros -/

namespace Bytes

theorem foldl_eq_toNatBE (acc : Nat) (bs : Bytes) :
    bs.foldl (fun acc b => acc * 256 + b.toNat) acc = acc * 256 ^ bs.length + toNatBE bs := by
  induction bs generalizing acc with
  | nil => simp [toNatBE]
  | cons b rest ih =>
      have hread : toNatBE (b :: rest) = (0 * 256 + b.toNat) * 256 ^ rest.length + toNatBE rest :=
        ih (0 * 256 + b.toNat)
      rw [List.foldl_cons, ih, hread, List.length_cons, Nat.pow_succ]
      ring

theorem toNatBE_cons (b : UInt8) (rest : Bytes) :
    toNatBE (b :: rest) = b.toNat * 256 ^ rest.length + toNatBE rest := by
  have hread := foldl_eq_toNatBE (0 * 256 + b.toNat) rest
  rw [Nat.zero_mul, Nat.zero_add] at hread
  rw [← hread]
  simp [toNatBE]

theorem toNatBE_zero_cons (rest : Bytes) : toNatBE (0 :: rest) = toNatBE rest := by
  rw [toNatBE_cons]
  simp

theorem toNatBE_dropWhile (bs : Bytes) : toNatBE (bs.dropWhile (· == 0)) = toNatBE bs := by
  induction bs with
  | nil => rfl
  | cons b rest ih =>
      by_cases hzero : b = 0
      · rw [hzero, List.dropWhile_cons_of_pos (by rfl), ih, toNatBE_zero_cons]
      · rw [List.dropWhile_cons_of_neg (by simpa using hzero)]

/-- A number that does not begin with a zero byte has no more bytes than it needs. -/
theorem length_lt_of_toNatBE_lt {b : UInt8} {rest : Bytes} {width : Nat} (hb : b ≠ 0)
    (h : toNatBE (b :: rest) < 256 ^ width) : rest.length < width := by
  have hpos : 0 < b.toNat := by
    apply Nat.pos_of_ne_zero
    intro hzero
    exact hb (UInt8.toNat_inj.mp hzero)
  apply (Nat.pow_lt_pow_iff_right (by decide : 1 < 256)).mp
  calc 256 ^ rest.length
      ≤ b.toNat * 256 ^ rest.length := Nat.le_mul_of_pos_left _ hpos
    _ ≤ b.toNat * 256 ^ rest.length + toNatBE rest := Nat.le_add_right ..
    _ = toNatBE (b :: rest) := (toNatBE_cons b rest).symm
    _ < 256 ^ width := h

end Bytes

/-! ## Integers -/

namespace Signature.Der

/-- Bytes that are those of a number below 2^256, and the fewest for it. -/
structure Minimal (bytes : Bytes) (n : Nat) : Prop where
  value : Bytes.toNatBE bytes = n
  short : bytes.length ≤ 33
  shortest : RawSignature.isShortest bytes = true

theorem minimal_integerBytes {n : Nat} (h : n < 256 ^ 32) : Minimal (integerBytes n) n := by
  have hvalue : Bytes.toNatBE ((Bytes.ofNatBE 33 n).dropWhile (· == 0)) = n := by
    rw [Bytes.toNatBE_dropWhile]
    exact Bytes.toNatBE_ofNatBE (Nat.lt_trans h (by decide))
  have hfirst := List.dropWhile_get_zero_not (· == 0) (Bytes.ofNatBE 33 n)
  unfold integerBytes
  cases hbytes : (Bytes.ofNatBE 33 n).dropWhile (· == 0) with
  | nil =>
      rw [hbytes] at hvalue
      exact ⟨hvalue, by decide, rfl⟩
  | cons b rest =>
      rw [hbytes] at hvalue
      have hb : b ≠ 0 := by
        simpa [hbytes] using hfirst (by simp [hbytes])
      have hlength : rest.length < 32 := Bytes.length_lt_of_toNatBE_lt hb (hvalue ▸ h)
      by_cases hsign : b < 0x80
      · simp only [if_pos hsign]
        refine ⟨hvalue, by rw [List.length_cons]; omega, ?_⟩
        cases rest with
        | nil => simpa [RawSignature.isShortest] using hsign
        | cons b' rest => simp [RawSignature.isShortest, hsign, hb]
      · -- a zero in front clears the sign bit, and is needed for that
        simp only [if_neg hsign]
        refine ⟨by rw [Bytes.toNatBE_zero_cons, hvalue], ?_, ?_⟩
        · rw [List.length_cons, List.length_cons]
          omega
        · simp [RawSignature.isShortest, hsign]

theorem minimal_scalar (n : Scalar) : Minimal (integerBytes n.val) n.val :=
  minimal_integerBytes (Nat.lt_trans n.isLt (by decide))

/-- The fewest bytes of a number are some bytes, and their sign bit is clear. -/
theorem Minimal.sign {bytes : Bytes} {n : Nat} (h : Minimal bytes n) :
    ∃ b rest, bytes = b :: rest ∧ b < 0x80 := by
  have hshortest := h.shortest
  match bytes with
  | [] => cases hshortest
  | [b] => exact ⟨b, [], rfl, by simpa [RawSignature.isShortest] using hshortest⟩
  | b :: b' :: rest =>
      simp only [RawSignature.isShortest, Bool.and_eq_true, decide_eq_true_eq] at hshortest
      exact ⟨b, b' :: rest, rfl, hshortest.1⟩

/-- The first of the fewest bytes does not only repeat a sign. -/
theorem Minimal.not_padded {bytes : Bytes} {n : Nat} (h : Minimal bytes n) :
    isPadded bytes = false := by
  have hshortest := h.shortest
  match bytes with
  | [] => rfl
  | [b] => rfl
  | b :: b' :: rest =>
      simp only [RawSignature.isShortest, Bool.and_eq_true, decide_eq_true_eq,
        Bool.not_eq_true'] at hshortest
      have hsign : (b == 0xff) = false := by
        rw [beq_eq_false_iff_ne]
        rintro rfl
        exact absurd hshortest.1 (by decide)
      unfold isPadded
      simp only [hsign, hshortest.2, Bool.false_and, Bool.or_false]

theorem takeLength?_cons {size : Nat} (h : size < 0x80) (rest : Bytes) :
    takeLength? (UInt8.ofNat size :: rest) = some (size, rest) := by
  have htoNat : (UInt8.ofNat size).toNat = size :=
    UInt8.toNat_ofNat_of_lt (Nat.lt_trans h (by decide))
  have hlt : UInt8.ofNat size < 0x80 := by
    rw [UInt8.lt_iff_toNat_lt, htoNat]
    exact h
  simp only [takeLength?, if_pos hlt, htoNat]

/-- **An integer reads back**, and what follows it is left. -/
theorem takeInteger?_integer (n : Scalar) (rest : Bytes) :
    takeInteger? (integer n.val ++ rest) = some (n, rest) := by
  have hbytes := minimal_scalar n
  obtain ⟨b, tail, hcons, hsign⟩ := hbytes.sign
  have hscalar : scalarOf (integerBytes n.val) = n := by
    have hclear : ¬ (integerBytes n.val).head?.any (0x80 ≤ ·) = true := by
      rw [hcons]
      simpa using hsign
    unfold scalarOf
    simp only [hbytes.value, if_neg hclear, dif_pos n.isLt]
  have hform : integer n.val ++ rest = 2 :: (UInt8.ofNat (integerBytes n.val).length
      :: (integerBytes n.val ++ rest)) := rfl
  have hread := takeLength?_cons (Nat.lt_of_le_of_lt hbytes.short (by decide))
    (integerBytes n.val ++ rest)
  have hgiven : ¬ ((integerBytes n.val).length = 0
      ∨ (integerBytes n.val ++ rest).length < (integerBytes n.val).length
      ∨ isPadded (integerBytes n.val) = true) := by
    rw [hbytes.not_padded, List.length_append, hcons, List.length_cons]
    rintro (hnone | hshort | hpadded)
    · omega
    · omega
    · cases hpadded
  -- none of the objections to the bytes applies, and the number is in range
  rw [hform]
  simp only [takeInteger?, hread, Option.bind_eq_bind, Option.bind_some, List.take_left,
    List.drop_left]
  rw [if_neg hgiven, hscalar]

end Signature.Der

/-! ## Signatures -/

namespace Signature

theorem length_integer_le (n : Scalar) : (Der.integer n.val).length ≤ 35 := by
  have hshort := (Der.minimal_scalar n).short
  show (Der.integerBytes n.val).length + 1 + 1 ≤ 35
  omega

/-- **A signature reads back** from its byte form. -/
theorem ofDer?_toDer (s : Signature) : ofDer? s.toDer = some s := by
  have hr := length_integer_le s.r
  have hs := length_integer_le s.s
  have hsize : (Der.integer s.r.val ++ Der.integer s.s.val).length < 0x80 := by
    rw [List.length_append]
    omega
  have hlast := Der.takeInteger?_integer s.s []
  rw [List.append_nil] at hlast
  unfold toDer ofDer?
  simp only [Der.takeLength?_cons hsize, Der.takeInteger?_integer, hlast, Option.bind_some,
    Option.bind_eq_bind, guard, if_true]
  rfl

end Signature

namespace RawSignature

theorem parse_ofSignature (s : Signature) : parse (ofSignature s) = .ok (s, Tx.sighashAll) := by
  unfold parse ofSignature
  simp only [List.getLast?_concat, List.dropLast_concat, Signature.ofDer?_toDer]
  rfl

/-- Two integers in their fewest bytes make a strict form, if they are not too long. -/
theorem isStrictDer_of_shortest {r s : Bytes} (hr : isShortest r = true) (hs : isShortest s = true)
    (hlength : r.length + s.length ≤ 66) (type : UInt8) :
    isStrictDer (0x30 :: UInt8.ofNat (r.length + s.length + 4) :: 2 :: UInt8.ofNat r.length
      :: (r ++ 2 :: UInt8.ofNat s.length :: (s ++ [type]))) = true := by
  have htoNat : ∀ size < 256, (UInt8.ofNat size).toNat = size := fun size h =>
    UInt8.toNat_ofNat_of_lt h
  have hpos : ∀ bytes, isShortest bytes = true → 0 < bytes.length := by
    intro bytes hbytes
    cases bytes with
    | nil => cases hbytes
    | cons b rest => exact Nat.succ_pos _
  have hrpos := hpos r hr
  have hspos := hpos s hs
  unfold isStrictDer
  simp only [htoNat r.length (by omega), htoNat s.length (by omega),
    htoNat (r.length + s.length + 4) (by omega), List.drop_left, List.take_left, hr,
    hs, List.length_cons, List.length_append, List.length_nil, Bool.and_true,
    beq_self_eq_true, Bool.and_eq_true, decide_eq_true_eq, beq_iff_eq]
  omega

/-- **The byte form of a signature is strict.** -/
theorem isStrictDer_ofSignature (s : Signature) : isStrictDer (ofSignature s) = true := by
  have hr := Signature.Der.minimal_scalar s.r
  have hs := Signature.Der.minimal_scalar s.s
  have hstrict := isStrictDer_of_shortest hr.shortest hs.shortest
    (Nat.add_le_add hr.short hs.short) Tx.sighashAll
  have hform : ofSignature s = 0x30 :: UInt8.ofNat ((Signature.Der.integerBytes s.r.val).length
      + (Signature.Der.integerBytes s.s.val).length + 4) :: 2
      :: UInt8.ofNat (Signature.Der.integerBytes s.r.val).length
      :: (Signature.Der.integerBytes s.r.val
        ++ 2 :: UInt8.ofNat (Signature.Der.integerBytes s.s.val).length
          :: (Signature.Der.integerBytes s.s.val ++ [Tx.sighashAll])) := by
    have hsize : (Signature.Der.integer s.r.val ++ Signature.Der.integer s.s.val).length
        = (Signature.Der.integerBytes s.r.val).length
          + (Signature.Der.integerBytes s.s.val).length + 4 := by
      simp only [Signature.Der.integer, List.length_append, List.length_cons]
      omega
    unfold ofSignature Signature.toDer
    simp only [hsize]
    simp only [Signature.Der.integer, List.cons_append, List.append_assoc]
  rw [hform]
  exact hstrict

end RawSignature

end NotaryPool
