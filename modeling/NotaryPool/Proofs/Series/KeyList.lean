import NotaryPool.Proofs.Key.Extended
import NotaryPool.Series.Record

/-!
# Stored keys are read back, and only they

A series is stored as two texts of items that stand one after the other, without a count in front:
keys of 78 bytes, and slots of one byte or of 79. A text is read item by item, so what it may hold
is said by what may stand at its front. Nothing is read that would not be written again in the same
bytes, and a text that breaks off within an item, or has something else in it, is refused as a
whole.

## Contents

* `Series.parsePub_toText`, `Series.empower_toText`: **keys that are handed in as texts.**
* `KeyList.Reads`: a reader of items. `KeyList.Broken`: a text that is not made of them.
* `KeyList.Reads.eq_some_iff`, `KeyList.Reads.eq_none_iff`: **what is read, and what is refused.**
* `KeyList.decodePubs?_eq_some_iff`, `KeyList.decodePrivs?_eq_some_iff`: **lists of keys.**
-/

namespace NotaryPool

/-! ## Keys as texts -/

/-- **A public key is read back from its text.** -/
theorem Series.parsePub_toText (k : Xpub) : parsePub k.toText = .ok k := by
  unfold parsePub
  rw [Xpriv.parse_toText_pub, Xpub.parse_toText]

/-- **A private key is attached by its text**, at the place of its public form. -/
theorem Series.empower_toText {K : KeyScheme} {s : Series} {key : Xpriv} {position : Nat}
    (h : (K.neuter? key).bind s.position? = some position) :
    s.empower K key.toText = .ok (position, s.attach position key) := by
  unfold empower
  rw [Xpub.parse_toText_priv, Xpriv.parse_toText]
  dsimp only
  rw [h]

/-! ## Texts of items -/

namespace KeyList

section Items

variable {α : Type} {encode : α → Bytes} {decode? : Bytes → Option (List α)}

/-- **A reader of items** that stand one after the other up to the end of a text. -/
structure Reads (encode : α → Bytes) (decode? : Bytes → Option (List α)) : Prop where
  /-- At the end nothing is left to be read. -/
  nil : decode? [] = some []
  /-- An item at the front is read, and then what stands behind it. -/
  item (a : α) (rest : Bytes) : decode? (encode a ++ rest) = (decode? rest).map (a :: ·)
  /-- What does not begin with an item is refused. -/
  other {bs : Bytes} (hmore : bs ≠ []) (hnone : ∀ a, ¬ encode a <+: bs) : decode? bs = none

/-- A text that goes on behind some items with what does not begin with an item. -/
def Broken (encode : α → Bytes) (bs : Bytes) : Prop :=
  ∃ (items : List α) (tail : Bytes), bs = items.flatMap encode ++ tail ∧ tail ≠ []
    ∧ ∀ a, ¬ encode a <+: tail

/-- An item has at least one byte, else there would be no end to reading it. -/
theorem Reads.encode_ne_nil (h : Reads encode decode?) (a : α) : encode a ≠ [] := by
  intro hempty
  have hread := h.item a []
  rw [hempty, List.nil_append, h.nil] at hread
  cases hread

/-- A text is made of items all through, or it is broken. -/
theorem whole_or_broken (hitem : ∀ a, encode a ≠ []) (bs : Bytes) :
    (∃ items : List α, bs = items.flatMap encode) ∨ Broken encode bs := by
  induction hsize : bs.length using Nat.strongRecOn generalizing bs with
  | ind size ih =>
      by_cases hend : bs = []
      · exact Or.inl ⟨[], hend⟩
      by_cases hfirst : ∃ a, encode a <+: bs
      · obtain ⟨a, rest, rfl⟩ := hfirst
        have hshorter : rest.length < size := by
          have hpos := List.length_pos_iff.mpr (hitem a)
          rw [List.length_append] at hsize
          omega
        rcases ih _ hshorter rest rfl with ⟨items, rfl⟩ | ⟨items, tail, rfl, htail⟩
        · exact Or.inl ⟨a :: items, List.flatMap_cons.symm⟩
        · refine Or.inr ⟨a :: items, tail, ?_, htail⟩
          rw [List.flatMap_cons, List.append_assoc]
      · exact Or.inr ⟨[], bs, rfl, hend, not_exists.mp hfirst⟩

theorem Reads.append (h : Reads encode decode?) (items : List α) (rest : Bytes) :
    decode? (items.flatMap encode ++ rest) = (decode? rest).map (items ++ ·) := by
  induction items with
  | nil => cases hrest : decode? rest <;> simp [hrest]
  | cons a items ih =>
      rw [List.flatMap_cons, List.append_assoc, h.item, ih, Option.map_map]
      rfl

theorem Reads.whole (h : Reads encode decode?) (items : List α) :
    decode? (items.flatMap encode) = some items := by
  have hread := h.append items []
  rwa [List.append_nil, h.nil, Option.map_some, List.append_nil] at hread

variable {bs : Bytes}

theorem Reads.broken (h : Reads encode decode?) (hbroken : Broken encode bs) :
    decode? bs = none := by
  obtain ⟨items, tail, rfl, hmore, hnone⟩ := hbroken
  rw [h.append, h.other hmore hnone, Option.map_none]

/-- **Items are read from the one text that is written for them.** -/
theorem Reads.eq_some_iff {items : List α} (h : Reads encode decode?) :
    decode? bs = some items ↔ bs = items.flatMap encode := by
  constructor
  · intro hread
    rcases whole_or_broken h.encode_ne_nil bs with ⟨written, rfl⟩ | hbroken
    · rw [h.whole, Option.some.injEq] at hread
      rw [hread]
    · rw [h.broken hbroken] at hread
      cases hread
  · rintro rfl
    exact h.whole items

/-- **Broken texts are the ones that are refused.** -/
theorem Reads.eq_none_iff (h : Reads encode decode?) : decode? bs = none ↔ Broken encode bs := by
  constructor
  · intro hread
    rcases whole_or_broken h.encode_ne_nil bs with ⟨written, rfl⟩ | hbroken
    · rw [h.whole] at hread
      cases hread
    · exact hbroken
  · exact h.broken

end Items

/-! ## Lists of keys -/

theorem length_encodePubs (keys : List Xpub) :
    (encodePubs keys).length = extendedKeyLength * keys.length := by
  induction keys with
  | nil => rfl
  | cons key rest ih =>
      show (key.encode ++ encodePubs rest).length = _
      rw [List.length_append, key.length_encode, ih, List.length_cons, Nat.mul_succ, Nat.add_comm]

theorem length_encodePrivs_le (slots : List (Option Xpriv)) :
    (encodePrivs slots).length ≤ (extendedKeyLength + 1) * slots.length := by
  induction slots with
  | nil => exact Nat.zero_le _
  | cons slot rest ih =>
      have hslot : (encodeSlot slot).length ≤ extendedKeyLength + 1 := by
        cases slot with
        | none => decide
        | some key => exact Nat.le_of_eq (congrArg (· + 1) key.length_encode)
      show (encodeSlot slot ++ encodePrivs rest).length ≤ _
      rw [List.length_append, List.length_cons, Nat.mul_succ]
      omega

theorem decodePubs?_append (key : Xpub) (rest : Bytes) :
    decodePubs? (key.encode ++ rest) = (decodePubs? rest).map (key :: ·) := by
  have hlength := key.length_encode
  have hsome : key.encode ++ rest ≠ [] := by
    intro hempty
    rw [(List.append_eq_nil_iff.mp hempty).1] at hlength
    cases hlength
  rw [decodePubs?, if_neg hsome, dif_pos (by rw [List.length_append]; omega),
    List.take_left' hlength, List.drop_left' hlength, Xpub.decode_encode]

theorem decodePrivs?_append (slot : Option Xpriv) (rest : Bytes) :
    decodePrivs? (encodeSlot slot ++ rest) = (decodePrivs? rest).map (slot :: ·) := by
  cases slot with
  | none =>
      show decodePrivs? (0 :: rest) = _
      rw [decodePrivs?, if_pos rfl]
  | some key =>
      have hlength := key.length_encode
      show decodePrivs? (1 :: (key.encode ++ rest)) = _
      have hflag : (1 : UInt8) = 1 ∧ extendedKeyLength ≤ (key.encode ++ rest).length :=
        ⟨rfl, by rw [List.length_append, hlength]; exact Nat.le_add_right ..⟩
      rw [decodePrivs?, if_neg (by decide), if_pos hflag, List.take_left' hlength,
        List.drop_left' hlength, Xpriv.decode_encode]

variable {bs : Bytes}

theorem reads_pubs : Reads Xpub.encode decodePubs? where
  nil := by
    rw [decodePubs?]
    exact if_pos rfl
  item := decodePubs?_append
  other := by
    intro bs hmore hnone
    rw [decodePubs?, if_neg hmore]
    split
    · split
      · rename_i key hkey
        exact absurd (Xpub.decode_eq_ok_iff.mp hkey ▸ List.take_prefix ..) (hnone key)
      · rfl
    · rfl

theorem reads_privs : Reads encodeSlot decodePrivs? where
  nil := by rw [decodePrivs?]
  item := decodePrivs?_append
  other := by
    intro bs hmore hnone
    obtain ⟨flag, rest, rfl⟩ := List.exists_cons_of_ne_nil hmore
    rw [decodePrivs?]
    split
    · rename_i hfree
      subst hfree
      exact absurd ⟨rest, rfl⟩ (hnone none)
    · split
      · rename_i htaken
        obtain ⟨rfl, -⟩ := htaken
        split
        · rename_i key hkey
          have hslot : encodeSlot (some key) <+: 1 :: rest :=
            List.cons_prefix_cons.mpr
              ⟨rfl, Xpriv.decode_eq_ok_iff.mp hkey ▸ List.take_prefix ..⟩
          exact absurd hslot (hnone (some key))
        · rfl
      · rfl

/-- **Public keys are read from the bytes that are written for them**, and from no others. -/
theorem decodePubs?_eq_some_iff {keys : List Xpub} :
    decodePubs? bs = some keys ↔ bs = encodePubs keys :=
  reads_pubs.eq_some_iff

/-- **Slots are read from the bytes that are written for them**, and from no others. -/
theorem decodePrivs?_eq_some_iff {slots : List (Option Xpriv)} :
    decodePrivs? bs = some slots ↔ bs = encodePrivs slots :=
  reads_privs.eq_some_iff

theorem decodePubs?_encodePubs (keys : List Xpub) : decodePubs? (encodePubs keys) = some keys :=
  reads_pubs.whole keys

theorem decodePrivs?_encodePrivs (slots : List (Option Xpriv)) :
    decodePrivs? (encodePrivs slots) = some slots :=
  reads_privs.whole slots

end KeyList

end NotaryPool
