import NotaryPool.Proofs.Script.Grammar
import NotaryPool.Proofs.Traversal

/-!
# The grammar of redeem scripts

The reader of a redeem script takes the threshold off its front and the number of keys off its end,
and walks over what is left. Which scripts it takes is said here without a reader. A key may stand
in a redeem script in any of its byte forms, so a threshold and keys have more than one script. The
pool writes one of them, with all keys in 33 bytes.

## Contents

* `Multisig.KeyPushes`, `Multisig.keyPushes_of_parseKeys`: keys one after the other.
* `Multisig.parse_frame_eq_ok_iff`: the places at which a script is read.
* `Multisig.Proper`, `Multisig.Written`: the grammar, and the bounds on the threshold and the keys.
* `Multisig.parse_encode`, `Multisig.encode_inj`: **what the pool writes reads back.**
* `Multisig.redeem_faithful`: **exactly the redeem scripts are read, and each as what it says.**
-/

namespace NotaryPool.Multisig

variable {script : Bytes} {required : UInt8} {keys : List PublicKey}

/-! ## Keys -/

/-- Keys one after the other, each in one of its byte forms behind the length of that form. -/
inductive KeyPushes : Bytes → List PublicKey → Prop
  | nil : KeyPushes [] []
  | cons {form rest : Bytes} {key : PublicKey} {keys : List PublicKey}
      (hsize : form.length = 33 ∨ form.length = 65)
      (hkey : PublicKey.ofBytes? form = some key) (hrest : KeyPushes rest keys) :
      KeyPushes (UInt8.ofNat form.length :: (form ++ rest)) (key :: keys)

theorem parseKeys_cons {form : Bytes} {key : PublicKey}
    (hsize : form.length = 33 ∨ form.length = 65) (hkey : PublicKey.ofBytes? form = some key)
    (rest : Bytes) :
    parseKeys (UInt8.ofNat form.length :: (form ++ rest)) = (parseKeys rest).map (key :: ·) := by
  have hbyte : (UInt8.ofNat form.length).toNat = form.length :=
    UInt8.toNat_ofNat_of_lt (by change form.length < 256; omega)
  have hop : UInt8.ofNat form.length = 33 ∨ UInt8.ofNat form.length = 65 := by
    rcases hsize with hsize | hsize <;> simp [hsize]
  rw [parseKeys, if_pos ⟨hop, by rw [hbyte, List.length_append]; omega⟩, hbyte, List.take_left,
    List.drop_left, hkey]

theorem parseKeys_of_keyPushes (h : KeyPushes script keys) : parseKeys script = .ok keys := by
  induction h with
  | nil =>
      unfold parseKeys
      rfl
  | @cons form rest key keys hsize hkey _ ih =>
      rw [parseKeys_cons hsize hkey rest, ih]
      rfl

theorem keyPushes_of_parseKeys (h : parseKeys script = .ok keys) : KeyPushes script keys := by
  induction script using parseKeys.induct generalizing keys with
  | case1 =>
      unfold parseKeys at h
      cases h
      exact .nil
  | case2 size rest hsize key hkey ih =>
      -- what is taken off the rest is as long as the byte in front of it says
      rw [parseKeys, if_pos hsize, hkey] at h
      obtain ⟨others, hothers, rfl⟩ := Except.map_eq_ok_iff.mp h
      have hlength : (rest.take size.toNat).length = size.toNat := List.length_take_of_le hsize.2
      have hform : (rest.take size.toNat).length = 33 ∨ (rest.take size.toNat).length = 65 := by
        rw [hlength]
        rcases hsize.1 with rfl | rfl <;> simp
      have hpush := KeyPushes.cons hform hkey (ih hothers)
      rwa [hlength, UInt8.ofNat_toNat, List.take_append_drop] at hpush
  | case3 size rest hsize hnone =>
      rw [parseKeys, if_pos hsize, hnone] at h
      cases h
  | case4 size rest hother =>
      rw [parseKeys, if_neg hother] at h
      cases h

/-- Each key takes up at most the longest of its byte forms and the length in front of it. -/
theorem KeyPushes.length_le (h : KeyPushes script keys) : script.length ≤ 66 * keys.length := by
  induction h with
  | nil => exact Nat.le_refl 0
  | cons hsize _ _ ih =>
      rw [List.length_cons, List.length_append, List.length_cons]
      omega

/-! ## The ends of a script -/

/-- A script is read at its first byte, at its last two bytes, and in between. -/
theorem parse_frame_eq_ok_iff {first count : UInt8} {pushes : Bytes} :
    parse (first :: (pushes ++ [count, checkMultisig])) = .ok ⟨required, keys⟩
      ↔ ∃ n, ofSmallNumber? first = some required ∧ ofSmallNumber? count = some n
          ∧ parseKeys pushes = .ok keys ∧ keys.length = n.toNat ∧ required ≤ n := by
  have hlength : (first :: (pushes ++ [count, checkMultisig])).length = pushes.length + 3 := by simp
  have hlast : (first :: (pushes ++ [count, checkMultisig])).getLast? = some checkMultisig := by
    simp [List.getLast?_cons, List.getLast?_append]
  have hfirst : (first :: (pushes ++ [count, checkMultisig])).getD 0 0 = first := rfl
  have hcount : (first :: (pushes ++ [count, checkMultisig])).getD (pushes.length + 1) 0
      = count := by
    simp
  have hpushes : ((first :: (pushes ++ [count, checkMultisig])).drop 1).take pushes.length
      = pushes := by
    simp
  have hbefore : pushes.length + 3 - 2 = pushes.length + 1 := rfl
  have hstart : ¬ (pushes.length + 3 < 3 ∨ some checkMultisig ≠ some checkMultisig) := by simp
  unfold parse
  simp only [hlength, hlast, hfirst, hbefore, hcount, Nat.add_sub_cancel, hpushes, if_neg hstart]
  constructor
  · intro h
    cases hrequired : ofSmallNumber? first with
    | none =>
        rw [hrequired] at h
        cases h
    | some m =>
    cases hn : ofSmallNumber? count with
    | none =>
        rw [hrequired, hn] at h
        cases h
    | some n =>
    simp only [hrequired, hn] at h
    obtain ⟨read, hread, h⟩ := Except.bind_eq_ok_iff.mp h
    obtain ⟨hfits, h⟩ := Except.of_guard h
    cases h
    rw [not_or, not_not, UInt8.not_lt] at hfits
    exact ⟨n, rfl, rfl, hread, hfits⟩
  · rintro ⟨n, hrequired, hn, hread, hcount, hle⟩
    simp only [hrequired, hn, hread, Except.ok_bind]
    exact if_neg (by rw [not_or, not_not, UInt8.not_lt]; exact ⟨hcount, hle⟩)

/-- What is read ends with the operation that checks signatures, and has two bytes besides. -/
theorem exists_frame {multisig : Multisig} (h : parse script = .ok multisig) :
    ∃ first pushes count, script = first :: (pushes ++ [count, checkMultisig]) := by
  unfold parse at h
  obtain ⟨hstart, -⟩ := Except.of_guard h
  rw [not_or, not_not] at hstart
  obtain ⟨hsize, hlast⟩ := hstart
  obtain ⟨front, rfl⟩ := List.getLast?_eq_some_iff.mp hlast
  cases front with
  | nil => simp at hsize
  | cons first rest =>
      rcases List.eq_nil_or_concat rest with rfl | ⟨pushes, count, rfl⟩
      · simp at hsize
      · exact ⟨first, pushes, count, by simp⟩

/-- The operations of the numbers from one to sixteen, and these numbers. -/
theorem ofSmallNumber?_eq_some_iff {op n : UInt8} :
    ofSmallNumber? op = some n ↔ 1 ≤ n ∧ n ≤ 16 ∧ op = 0x50 + n := by
  unfold ofSmallNumber?
  rw [Option.ite_none_right_eq_some, ← Push.exists_small_iff, Option.some.injEq]
  constructor
  · rintro ⟨⟨m, hpos, hle, rfl⟩, rfl⟩
    rw [UInt8.add_comm, UInt8.add_sub_cancel]
    exact ⟨hpos, hle, UInt8.add_comm ..⟩
  · rintro ⟨hpos, hle, rfl⟩
    exact ⟨⟨n, hpos, hle, rfl⟩, by rw [UInt8.add_comm, UInt8.add_sub_cancel]⟩

/-! ## Redeem scripts -/

/-- A threshold that the keys can meet, and no more keys than a small number can count. -/
structure Proper (required : UInt8) (keys : List PublicKey) : Prop where
  positive : required ≠ 0
  enough : required.toNat ≤ keys.length
  few : keys.length ≤ 16

namespace Proper

theorem pos (h : Proper required keys) : 0 < required.toNat := by
  apply Nat.pos_of_ne_zero
  intro hzero
  exact h.positive (UInt8.toNat_inj.mp hzero)

theorem toNat_count (h : Proper required keys) :
    (UInt8.ofNat keys.length).toNat = keys.length :=
  UInt8.toNat_ofNat_of_lt (Nat.lt_of_le_of_lt h.few (by decide))

/-- The threshold and the number of the keys are numbers from one to sixteen. -/
theorem bounds (h : Proper required keys) :
    (1 ≤ required ∧ required ≤ 16)
      ∧ (1 ≤ UInt8.ofNat keys.length ∧ UInt8.ofNat keys.length ≤ 16)
      ∧ required ≤ UInt8.ofNat keys.length := by
  simp only [UInt8.le_iff_toNat_le, h.toNat_count]
  exact ⟨⟨h.pos, Nat.le_trans h.enough h.few⟩, ⟨Nat.le_trans h.pos h.enough, h.few⟩, h.enough⟩

end Proper

/-- A redeem script: the threshold, the keys, their number, and the operation that checks
signatures. The threshold and the number are given by the operations of the small numbers. -/
structure Written (script : Bytes) (required : UInt8) (keys : List PublicKey) : Prop where
  proper : Proper required keys
  form : ∃ pushes, KeyPushes pushes keys
    ∧ script = (0x50 + required) :: (pushes ++ [0x50 + UInt8.ofNat keys.length, checkMultisig])

theorem parse_of_written (h : Written script required keys) :
    parse script = .ok ⟨required, keys⟩ := by
  obtain ⟨pushes, hpushes, rfl⟩ := h.form
  obtain ⟨hrequired, hcount, hle⟩ := h.proper.bounds
  exact parse_frame_eq_ok_iff.mpr ⟨UInt8.ofNat keys.length,
    ofSmallNumber?_eq_some_iff.mpr ⟨hrequired.1, hrequired.2, rfl⟩,
    ofSmallNumber?_eq_some_iff.mpr ⟨hcount.1, hcount.2, rfl⟩,
    parseKeys_of_keyPushes hpushes, h.proper.toNat_count.symm, hle⟩

theorem written_of_parse (h : parse script = .ok ⟨required, keys⟩) :
    Written script required keys := by
  obtain ⟨first, pushes, op, rfl⟩ := exists_frame h
  obtain ⟨n, hrequired, hn, hkeys, hcount, hle⟩ := parse_frame_eq_ok_iff.mp h
  obtain ⟨hpos, -, rfl⟩ := ofSmallNumber?_eq_some_iff.mp hrequired
  obtain ⟨-, hfew, rfl⟩ := ofSmallNumber?_eq_some_iff.mp hn
  have hcounted : UInt8.ofNat keys.length = n := by rw [hcount, UInt8.ofNat_toNat]
  refine ⟨⟨?_, ?_, ?_⟩, pushes, keyPushes_of_parseKeys hkeys, by rw [hcounted]⟩
  · rintro rfl
    exact absurd hpos (by decide)
  · rw [hcount]
    exact UInt8.le_iff_toNat_le.mp hle
  · rw [hcount]
    exact UInt8.le_iff_toNat_le.mp hfew

/-- A redeem script is short: it has no more than sixteen keys. -/
theorem Written.length_le (h : Written script required keys) : script.length ≤ 1059 := by
  obtain ⟨pushes, hpushes, rfl⟩ := h.form
  have hlength := hpushes.length_le
  have hfew := h.proper.few
  rw [List.length_cons, List.length_append]
  show pushes.length + 2 + 1 ≤ 1059
  omega

/-! ## The scripts of the pool -/

/-- The keys of a redeem script as the pool writes them. -/
def keyPushes (keys : List PublicKey) : Bytes := keys.flatMap fun k => 33 :: k.toBytes

theorem keyPushes_written (keys : List PublicKey) : KeyPushes (keyPushes keys) keys := by
  induction keys with
  | nil => exact .nil
  | cons k rest ih =>
      have hsize : k.toBytes.length = 33 := k.length_toBytes
      have hpush := KeyPushes.cons (Or.inl hsize) k.ofBytes?_toBytes ih
      rw [hsize] at hpush
      exact hpush

theorem written_encode (h : Proper required keys) :
    Written (encode required keys) required keys := by
  refine ⟨h, keyPushes keys, keyPushes_written keys, ?_⟩
  have hcount : UInt8.ofNat keys.length ≠ 0 := by
    intro hzero
    have hpositive := h.bounds.2.1.1
    rw [hzero] at hpositive
    exact absurd hpositive (by decide)
  have hform : encode required keys
      = smallNumber required
        :: (keyPushes keys ++ [smallNumber (UInt8.ofNat keys.length), checkMultisig]) := rfl
  rw [hform, smallNumber, if_neg h.positive, smallNumber, if_neg hcount]

/-- **A redeem script reads back** as the threshold and the keys that it was written for. -/
theorem parse_encode (h : Proper required keys) :
    parse (encode required keys) = .ok ⟨required, keys⟩ :=
  parse_of_written (written_encode h)

/-- Redeem scripts for different thresholds or keys differ. -/
theorem encode_inj {required' : UInt8} {keys' : List PublicKey} (h : Proper required keys)
    (h' : Proper required' keys') (heq : encode required keys = encode required' keys') :
    required = required' ∧ keys = keys' := by
  have hread := parse_encode h
  rw [heq, parse_encode h'] at hread
  cases hread
  exact ⟨rfl, rfl⟩

/-- **Exactly the redeem scripts are read, and each as what it says.** The scripts that are read are
the threshold, the keys, each in one of its byte forms behind its length, their number, and the
operation that checks signatures, with a threshold that is at least one and can be met by the keys,
and no more than sixteen of these. What the pool writes for a threshold and keys reads back just
within these bounds. Within them different thresholds or keys, or another order of the keys, give
different scripts. -/
theorem redeem_faithful :
    (∀ script required keys,
        parse script = .ok ⟨required, keys⟩ ↔ Written script required keys)
      ∧ (∀ required keys,
        parse (encode required keys) = .ok ⟨required, keys⟩ ↔ Proper required keys)
      ∧ ∀ required required' keys keys', Proper required keys → Proper required' keys' →
        encode required keys = encode required' keys' → required = required' ∧ keys = keys' := by
  refine ⟨?_, ?_, ?_⟩
  · intro script required keys
    exact ⟨written_of_parse, parse_of_written⟩
  · intro required keys
    constructor
    · intro h
      exact (written_of_parse h).proper
    · exact parse_encode
  · intro required required' keys keys' h h' heq
    exact encode_inj h h' heq

/-! ### Two keys with one first coordinate -/

namespace Sample

/-- One of the two points with the first coordinate one. -/
def key (odd : Bool) : PublicKey where
  x := ⟨1, by decide⟩
  odd := odd
  onCurve := by cases odd <;> decide +kernel

theorem proper_keys (odd odd' : Bool) : Proper 1 [key odd, key odd'] :=
  ⟨by decide, (by decide : 1 ≤ 2), (by decide : 2 ≤ 16)⟩

end Sample

/-- One of two keys has to sign, and the order of the keys matters. -/
theorem redeem_faithful_pair :
    parse (encode 1 [Sample.key false, Sample.key true])
        = .ok ⟨1, [Sample.key false, Sample.key true]⟩
      ∧ encode 1 [Sample.key false, Sample.key true]
        ≠ encode 1 [Sample.key true, Sample.key false] := by
  obtain ⟨-, hread, hdiffer⟩ := redeem_faithful
  refine ⟨(hread _ _).mpr (Sample.proper_keys false true), ?_⟩
  intro hsame
  obtain ⟨-, hkeys⟩ := hdiffer _ _ _ _ (Sample.proper_keys false true)
    (Sample.proper_keys true false) hsame
  cases hkeys

end NotaryPool.Multisig
