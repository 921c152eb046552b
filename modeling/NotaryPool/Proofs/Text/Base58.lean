import Mathlib.Data.List.Induction
import Mathlib.Data.Nat.Digits.Lemmas
import NotaryPool.Arithmetic
import NotaryPool.Proofs.Traversal
import NotaryPool.Text.Base58

/-!
# Base58 text is read back

The text of a byte string has one part for the zero bytes in front and one for the number that the
other bytes write. Both can be told apart in the text, since a number does not begin with the digit
zero, so each byte string is read back from its text, with or without the checksum.

## Contents

* `Bytes.ofString_ofList`: the bytes of a text of ASCII characters.
* `Base58.digits_eq`: the digits are those of the library, most significant first.
* `Base58.digits_toNatBE`: bytes as the digits of a number.
* `Base58.value_text`: what the characters of digits are read as.
* `Base58.decode_encode`, `Base58.decodeChecked_encodeChecked`: **the round trips.**
-/

namespace NotaryPool

/-! ## ASCII texts -/

namespace Bytes

theorem toList_loop (bs : ByteArray) (i : Nat) (acc : Bytes) :
    ByteArray.toList.loop bs i acc = acc.reverse ++ bs.data.toList.drop i := by
  unfold ByteArray.toList.loop
  split
  · rename_i hi
    have hlength : i < bs.data.toList.length := hi
    have hget : bs.get! i = bs.data.toList[i] := getElem!_pos bs.data i hi
    rw [toList_loop bs (i + 1), hget, List.reverse_cons, List.append_assoc,
      List.drop_eq_getElem_cons hlength]
    rfl
  · rename_i hi
    have hlength : bs.data.toList.length ≤ i := Nat.not_lt.mp hi
    rw [List.drop_eq_nil_of_le hlength, List.append_nil]
termination_by bs.size - i

theorem toList_toByteArray (bs : Bytes) : bs.toByteArray.toList = bs := by
  unfold ByteArray.toList
  rw [toList_loop, List.data_toByteArray]
  rfl

/-- The bytes of a text of ASCII characters. -/
theorem ofString_ofList {cs : List Char} (h : ∀ c ∈ cs, c.toNat ≤ 127) :
    ofString (String.ofList cs) = cs.map fun c => UInt8.ofNat c.toNat := by
  have hbytes : cs.flatMap String.utf8EncodeChar = cs.map fun c => UInt8.ofNat c.toNat := by
    rw [List.map_eq_flatMap]
    apply List.flatMap_congr
    intro c hc
    exact if_pos (h c hc)
  show (cs.flatMap String.utf8EncodeChar).toByteArray.toList = _
  rw [toList_toByteArray, hbytes]

/-- Zero bytes in front do not change the number. -/
theorem toNatBE_zeros (count : Nat) (bs : Bytes) :
    toNatBE (List.replicate count 0 ++ bs) = toNatBE bs := by
  induction count with
  | zero => rfl
  | succ count ih => exact ih

theorem toNatBE_eq_ofDigits (bs : Bytes) :
    toNatBE bs = Nat.ofDigits 256 (bs.map UInt8.toNat).reverse := by
  induction bs using List.reverseRecOn with
  | nil => rfl
  | append_singleton bs b ih =>
      unfold toNatBE at ih ⊢
      rw [List.foldl_append, ih, List.map_append, List.reverse_append]
      show _ * 256 + b.toNat = Nat.ofDigits 256 (b.toNat :: (bs.map UInt8.toNat).reverse)
      rw [Nat.ofDigits_cons, Nat.mul_comm, Nat.add_comm]

end Bytes

namespace Base58

/-! ## Digits -/

theorem digitsLE_eq {base fuel n : Nat} (hbase : 1 < base) (h : n < 2 ^ fuel) :
    digitsLE base fuel n = Nat.digits base n := by
  induction fuel generalizing n with
  | zero =>
      obtain rfl : n = 0 := by simpa using h
      exact (Nat.digits_zero base).symm
  | succ fuel ih =>
      unfold digitsLE
      by_cases hn : n = 0
      · rw [if_pos hn, hn, Nat.digits_zero]
      · have hless : n / base < 2 ^ fuel := by
          have hhalf : n / base ≤ n / 2 := Nat.div_le_div_left hbase (by decide)
          rw [Nat.pow_succ] at h
          omega
        rw [if_neg hn, ih hless, Nat.digits_def' hbase (Nat.pos_of_ne_zero hn)]

/-- The digits of a number, most significant first. -/
theorem digits_eq {base : Nat} (hbase : 1 < base) (n : Nat) :
    digits base n = (Nat.digits base n).reverse := by
  unfold digits
  rw [digitsLE_eq hbase Nat.lt_log2_self]

/-- Bytes without a zero in front are the digits of the number that they write. -/
theorem digits_toNatBE {bs : Bytes} (h : bs.head? ≠ some 0) :
    (digits 256 (Bytes.toNatBE bs)).map UInt8.ofNat = bs := by
  have hdigits : Nat.digits 256 (Nat.ofDigits 256 (bs.map UInt8.toNat).reverse)
      = (bs.map UInt8.toNat).reverse := by
    apply Nat.digits_ofDigits 256 (by decide)
    · intro d hd
      obtain ⟨b, -, rfl⟩ := List.mem_map.mp (List.mem_reverse.mp hd)
      exact b.toNat_lt
    · intro hsome
      cases bs with
      | nil => exact absurd rfl hsome
      | cons b rest =>
          simp only [List.map_cons, List.reverse_cons, List.getLast_append_singleton]
          intro hzero
          exact h (congrArg some (UInt8.toNat_inj.mp hzero))
  rw [digits_eq (by decide), Bytes.toNatBE_eq_ofDigits, hdigits, List.reverse_reverse, List.map_map]
  exact (List.map_congr_left fun b _ => UInt8.ofNat_toNat).trans (List.map_id bs)

/-! ## Characters -/

/-- The character of a digit. -/
def charOf (d : Nat) : Char := alphabet.getD d '1'

/-- The character of a digit as a byte. -/
def byteOf (d : Nat) : UInt8 := UInt8.ofNat (charOf d).toNat

theorem digit?_byteOf {d : Nat} (h : d < 58) : digit? (byteOf d) = some d := by
  have hall : ∀ d : Fin 58, digit? (byteOf d.val) = some d.val := by decide
  exact hall ⟨d, h⟩

theorem byteOf_eq_iff {d : Nat} (h : d < 58) : byteOf d = 49 ↔ d = 0 := by
  constructor
  · intro heq
    have hzero : digit? 49 = some 0 := by decide
    rw [← heq, digit?_byteOf h] at hzero
    exact Option.some.inj hzero
  · rintro rfl
    decide

theorem toNat_charOf_le (d : Nat) : (charOf d).toNat ≤ 127 := by
  have hall : ('1' :: alphabet).all (fun c => c.toNat ≤ 127) = true := by decide
  refine of_decide_eq_true (List.all_eq_true.mp hall _ ?_)
  unfold charOf
  rw [List.getD_eq_getElem?_getD]
  cases hget : alphabet[d]? with
  | none => exact List.mem_cons_self
  | some c => exact List.mem_cons_of_mem _ (List.mem_of_getElem? hget)

theorem value_text {ds : List Nat} (h : ∀ d ∈ ds, d < 58) (acc : Nat) :
    value acc (ds.map byteOf) = .ok (ds.foldl (fun acc d => acc * 58 + d) acc) := by
  induction ds generalizing acc with
  | nil => rfl
  | cons d rest ih =>
      obtain ⟨hd, hrest⟩ := List.forall_mem_cons.mp h
      rw [List.map_cons, value, digit?_byteOf hd]
      exact ih hrest _

/-- The digits of a number add up to it, whatever zeros are in front. -/
theorem foldl_digits (zeros n : Nat) :
    (List.replicate zeros 0 ++ digits 58 n).foldl (fun acc d => acc * 58 + d) 0 = n := by
  induction zeros with
  | zero =>
      have hvalue : (digits 58 n).foldl (fun acc d => acc * 58 + d) 0
          = Nat.ofDigits 58 (Nat.digits 58 n) := by
        rw [digits_eq (by decide), List.foldl_reverse, Nat.ofDigits_eq_foldr]
        congr 1
        funext d acc
        rw [Nat.mul_comm, Nat.add_comm]
        rfl
      exact hvalue.trans (Nat.ofDigits_digits 58 n)
  | succ zeros ih => exact ih

theorem digits_lt {d n : Nat} (h : d ∈ digits 58 n) : d < 58 := by
  rw [digits_eq (by decide), List.mem_reverse] at h
  exact Nat.digits_lt_base (by decide) h

theorem head?_digits (n : Nat) : (digits 58 n).head? ≠ some 0 := by
  rw [digits_eq (by decide), List.head?_reverse]
  by_cases hn : n = 0
  · rw [hn, Nat.digits_zero]
    simp
  · rw [List.getLast?_eq_some_getLast (Nat.digits_ne_nil_iff_ne_zero.mpr hn)]
    exact fun h => Nat.getLast_digit_ne_zero 58 hn (Option.some.inj h)

/-! ## The round trips -/

/-- How many copies of a thing with a property stand in front of the first one without it. -/
theorem length_takeWhile {α : Type} {p : α → Bool} {a : α} (ha : p a = true) (count : Nat)
    {rest : List α} (h : ∀ b, rest.head? = some b → p b = false) :
    ((List.replicate count a ++ rest).takeWhile p).length = count := by
  induction count with
  | zero =>
      cases rest with
      | nil => rfl
      | cons b rest => simp [h b rfl]
  | succ count ih =>
      rw [List.replicate_succ, List.cons_append, List.takeWhile_cons_of_pos ha, List.length_cons,
        ih]

/-- A byte string has zeros in front, and then a byte that is not zero, if any. -/
theorem exists_zeros (bs : Bytes) : ∃ zeros rest, bs = List.replicate zeros 0 ++ rest
    ∧ rest.head? ≠ some 0 := by
  induction bs with
  | nil => exact ⟨0, [], rfl, by simp⟩
  | cons b bs ih =>
      by_cases hb : b = 0
      · obtain ⟨zeros, rest, rfl, hrest⟩ := ih
        exact ⟨zeros + 1, rest, by rw [hb]; rfl, hrest⟩
      · exact ⟨0, b :: bs, rfl, by simpa using hb⟩

theorem encode_eq {zeros : Nat} {rest : Bytes} (h : rest.head? ≠ some 0) :
    encode (List.replicate zeros 0 ++ rest)
      = String.ofList ((List.replicate zeros 0 ++ digits 58 (Bytes.toNatBE rest)).map charOf) := by
  have hzeros : ((List.replicate zeros 0 ++ rest).takeWhile (· == 0)).length = zeros :=
    length_takeWhile rfl zeros fun b hb => by
      rw [hb] at h
      simpa using h
  unfold encode
  rw [hzeros, Bytes.toNatBE_zeros, List.map_append, List.map_replicate]
  rfl

theorem decode_encode (bs : Bytes) : decode (encode bs) = .ok bs := by
  obtain ⟨zeros, rest, rfl, hrest⟩ := exists_zeros bs
  have hsmall : ∀ d ∈ List.replicate zeros 0 ++ digits 58 (Bytes.toNatBE rest), d < 58 := by
    intro d hd
    rcases List.mem_append.mp hd with hzero | hdigit
    · rw [List.eq_of_mem_replicate hzero]
      decide
    · exact digits_lt hdigit
  have hbytes : Bytes.ofString (encode (List.replicate zeros 0 ++ rest))
      = (List.replicate zeros 0 ++ digits 58 (Bytes.toNatBE rest)).map byteOf := by
    rw [encode_eq hrest, Bytes.ofString_ofList, List.map_map]
    · rfl
    · intro c hc
      obtain ⟨d, -, rfl⟩ := List.mem_map.mp hc
      exact toNat_charOf_le d
  have hzeros : (((List.replicate zeros 0 ++ digits 58 (Bytes.toNatBE rest)).map byteOf).takeWhile
      (· == 49)).length = zeros := by
    rw [List.map_append, List.map_replicate]
    apply length_takeWhile (by decide)
    -- a number does not begin with the digit zero, so its first character is none of the zeros
    intro b hb
    rw [List.head?_map] at hb
    obtain ⟨d, hd, rfl⟩ := Option.map_eq_some_iff.mp hb
    have hne : d ≠ 0 := by
      rintro rfl
      exact head?_digits _ hd
    simpa [byteOf_eq_iff (digits_lt (List.mem_of_head? hd))] using hne
  unfold decode
  rw [hbytes]
  simp only [value_text hsmall, foldl_digits, hzeros, Except.ok_bind, digits_toNatBE hrest]
  rfl

theorem decodeChecked_encodeChecked (payload : Bytes) :
    decodeChecked (encodeChecked payload) = .ok payload := by
  have hlength : (checksum payload).length = 4 := by
    unfold checksum
    simp
  have hsplit : (payload ++ checksum payload).length - 4 = payload.length := by
    rw [List.length_append, hlength, Nat.add_sub_cancel]
  have hlong : ¬ (payload ++ checksum payload).length < 4 := by
    rw [List.length_append, hlength]
    omega
  unfold decodeChecked encodeChecked
  rw [decode_encode, Except.ok_bind, if_neg hlong]
  dsimp only
  rw [hsplit, List.take_left, List.drop_left, if_pos rfl]

end Base58

end NotaryPool
