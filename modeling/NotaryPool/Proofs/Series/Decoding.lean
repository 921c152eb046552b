import NotaryPool.Proofs.Series.Lockstep
import NotaryPool.Proofs.Windows

/-!
# Stored series have one encoding

A record says of a series its version, whether it is active and its threshold, and has the keys in
two blobs. Which series a record is of can be said without reading it: the one that has all this and
whose keys are written in the texts in the blobs. There is at most one, and a record of which there
is none is refused.

## Contents

* `KeyList.scanSlots`, `KeyList.scanSlots_eq`: **reading by a position stays within the text.**
* `SeriesRecord.Describes`: the series of a record. `SeriesRecord.Refused`: why there is none.
* `Registry.ofRecord_exact`: **which records are series, and why all others are refused.**
-/

namespace NotaryPool

/-! ## Reading slots by a position -/

namespace KeyList

/-- Reads slots from a position on, behind those that are known. A read outside of the text has no
result at all, `some none` is the answer that the text is refused. -/
def scanSlots (text : Bytes) (pos : Nat) (slots : List (Option Xpriv)) :
    Option (Option (List (Option Xpriv))) :=
  if _hmore : pos < text.length then
    match text[pos]? with
    | none => none
    | some flag =>
      if flag = 0 then scanSlots text (pos + 1) (slots ++ [none])
      else if flag = 1 ∧ extendedKeyLength ≤ text.length - (pos + 1) then
        match text.window? (pos + 1) extendedKeyLength with
        | none => none
        | some bytes =>
          match Xpriv.decode bytes with
          | .ok key => scanSlots text (pos + 1 + extendedKeyLength) (slots ++ [some key])
          | .error _ => some none
      else some none
  else some (some slots)
termination_by text.length - pos

/-- **Reading by a position stays within the text**, ends, and gives what is read without
positions. -/
theorem scanSlots_eq {text : Bytes} {pos : Nat} (hpos : pos ≤ text.length)
    (slots : List (Option Xpriv)) :
    scanSlots text pos slots = some ((decodePrivs? (text.drop pos)).map (slots ++ ·)) := by
  fun_induction scanSlots text pos slots with
  | case1 pos slots hmore hnone =>
      rw [List.getElem?_eq_none_iff] at hnone
      omega
  | case2 pos slots hmore hflag ih =>
      have hform : text.drop pos = encodeSlot none ++ text.drop (pos + 1) :=
        Bytes.drop_eq_cons hflag
      rw [ih hmore, hform, decodePrivs?_append, Option.map_map]
      simp [Function.comp_def]
  | case3 pos slots hmore flag hflag hfree htaken hwindow =>
      rw [Bytes.window?_eq (by omega)] at hwindow
      cases hwindow
  | case4 pos slots hmore flag hflag hfree htaken bytes hwindow key hkey ih =>
      have hform : text.drop pos
          = encodeSlot (some key) ++ text.drop (pos + 1 + extendedKeyLength) := by
        rw [Bytes.drop_eq_cons hflag, htaken.1, Bytes.drop_of_window? hwindow,
          Xpriv.decode_eq_ok_iff.mp hkey]
        rfl
      rw [ih (by omega), hform, decodePrivs?_append, Option.map_map]
      simp [Function.comp_def]
  | case5 pos slots hmore flag hflag hfree htaken bytes hwindow e hkey =>
      have hbound : pos + 1 + extendedKeyLength ≤ text.length := by omega
      rw [Bytes.window?_eq hbound, Option.some.injEq] at hwindow
      rw [Bytes.drop_eq_cons hflag, decodePrivs?, if_neg hfree,
        if_pos ⟨htaken.1, by rw [List.length_drop]; exact htaken.2⟩, hwindow, hkey]
      rfl
  | case6 pos slots hmore flag hflag hfree hother =>
      rw [Bytes.drop_eq_cons hflag, decodePrivs?, if_neg hfree,
        if_neg (by rwa [List.length_drop]), Option.map_none]
  | case7 pos slots hend =>
      rw [List.drop_eq_nil_of_le (Nat.not_lt.mp hend), reads_privs.nil, Option.map_some,
        List.append_nil]

end KeyList

/-! ## Records -/

variable {K : KeyScheme} {id : SeriesId} {record : SeriesRecord} {publicText privateText : Bytes}
  {series : Series}

namespace SeriesRecord

/-- **A record describes a series** with the two texts in its blobs: the series keeps all rules, has
what stands in the record, and is written in exactly these texts. -/
structure Describes (K : KeyScheme) (record : SeriesRecord) (publicText privateText : Bytes)
    (series : Series) : Prop where
  canonical : series.Canonical K
  version : series.version = record.version
  active : series.active = record.active
  required : series.required = record.required
  pubs : publicText = KeyList.encodePubs series.pubs
  privs : privateText = KeyList.encodePrivs series.privs

/-- **Why a record is refused** although its blobs open. -/
inductive Refused (K : KeyScheme) (id : SeriesId) (record : SeriesRecord)
    (publicText privateText : Bytes) : RegistryError → Prop
  /-- One of the texts is not a list of what it should hold. -/
  | broken (hbroken : KeyList.Broken Xpub.encode publicText
        ∨ KeyList.Broken KeyList.encodeSlot privateText) :
      Refused K id record publicText privateText (.corruptedRecord id)
  /-- The keys in the texts break a rule of series. -/
  | unruly {pubs : List Xpub} {privs : List (Option Xpriv)} {e : SeriesError}
      (hpubs : publicText = KeyList.encodePubs pubs)
      (hprivs : privateText = KeyList.encodePrivs privs)
      (hrule : Series.ofParts K record.version record.active record.required pubs privs
        = .error e) :
      Refused K id record publicText privateText (.series e)

end SeriesRecord

namespace Registry

section Opened

variable {cipher : KeyCipher}
  (hpublic : cipher.decrypt .publicKeys record.publicBlob = .ok publicText)
  (hprivate : cipher.decrypt .privateKeys record.privateBlob = .ok privateText)
include hpublic hprivate

/-- Once both blobs are open, only the texts in them matter. -/
theorem ofRecord_eq :
    ofRecord K cipher id record
      = match KeyList.decodePubs? publicText, KeyList.decodePrivs? privateText with
        | some pubs, some privs =>
          (Series.ofParts K record.version record.active record.required pubs privs).mapError
            .series
        | _, _ => .error (.corruptedRecord id) := by
  unfold ofRecord
  simp only [hpublic, hprivate, Except.mapError, Except.ok_bind]
  cases KeyList.decodePubs? publicText <;> cases KeyList.decodePrivs? privateText <;> rfl

theorem ofRecord_eq_ok_iff :
    ofRecord K cipher id record = .ok series
      ↔ record.Describes K publicText privateText series := by
  rw [ofRecord_eq hpublic hprivate]
  constructor
  · intro h
    split at h
    · rename_i pubs privs hpubs hprivs
      obtain ⟨hcanonical, hversion, hactive, hrequired, rfl, rfl⟩ :=
        Series.ofParts_eq_ok_iff.mp (Except.mapError_eq_ok_iff.mp h)
      exact ⟨hcanonical, hversion, hactive, hrequired, KeyList.decodePubs?_eq_some_iff.mp hpubs,
        KeyList.decodePrivs?_eq_some_iff.mp hprivs⟩
    · cases h
  · rintro ⟨hcanonical, hversion, hactive, hrequired, hpubs, hprivs⟩
    rw [KeyList.decodePubs?_eq_some_iff.mpr hpubs, KeyList.decodePrivs?_eq_some_iff.mpr hprivs]
    exact Except.mapError_eq_ok_iff.mpr
      (Series.ofParts_eq_ok_iff.mpr ⟨hcanonical, hversion, hactive, hrequired, rfl, rfl⟩)

theorem refused_of_ofRecord {e : RegistryError} (h : ofRecord K cipher id record = .error e) :
    record.Refused K id publicText privateText e := by
  rw [ofRecord_eq hpublic hprivate] at h
  cases hpubs : KeyList.decodePubs? publicText with
  | none =>
      rw [hpubs] at h
      cases h
      exact .broken (Or.inl (KeyList.reads_pubs.eq_none_iff.mp hpubs))
  | some pubs =>
      cases hprivs : KeyList.decodePrivs? privateText with
      | none =>
          rw [hpubs, hprivs] at h
          cases h
          exact .broken (Or.inr (KeyList.reads_privs.eq_none_iff.mp hprivs))
      | some privs =>
          rw [hpubs, hprivs] at h
          obtain ⟨e', hrule, rfl⟩ := Except.mapError_eq_error_iff.mp h
          exact .unruly (KeyList.decodePubs?_eq_some_iff.mp hpubs)
            (KeyList.decodePrivs?_eq_some_iff.mp hprivs) hrule

theorem ofRecord_eq_error_iff {e : RegistryError} :
    ofRecord K cipher id record = .error e ↔ record.Refused K id publicText privateText e := by
  constructor
  · exact refused_of_ofRecord hpublic hprivate
  · intro h
    rw [ofRecord_eq hpublic hprivate]
    cases h with
    | broken hbroken =>
        rcases hbroken with hbroken | hbroken
        · rw [KeyList.reads_pubs.broken hbroken]
        · rw [KeyList.reads_privs.broken hbroken]
          split
          · rename_i hnone
            cases hnone
          · rfl
    | unruly hpubs hprivs hrule =>
        rw [KeyList.decodePubs?_eq_some_iff.mpr hpubs, KeyList.decodePrivs?_eq_some_iff.mpr hprivs]
        exact Except.mapError_eq_error_iff.mpr ⟨_, hrule, rfl⟩

/-- **Stored series have one encoding.** A record whose blobs open gives a series just when it
describes it, that is when the series keeps all rules, has the version, the mark and the threshold
of the record, and is written in exactly the texts in the blobs. Any other texts are refused, either
because one of them is broken or because the keys in them break a rule. The loop over the slots,
which moves a position, ends and never reads outside of its text. -/
theorem ofRecord_exact :
    (∀ series, ofRecord K cipher id record = .ok series
        ↔ record.Describes K publicText privateText series)
      ∧ (∀ e, ofRecord K cipher id record = .error e
        ↔ record.Refused K id publicText privateText e)
      ∧ ((¬ ∃ series, record.Describes K publicText privateText series) →
        ∃ e, ofRecord K cipher id record = .error e)
      ∧ KeyList.scanSlots privateText 0 [] = some (KeyList.decodePrivs? privateText) := by
  refine ⟨?_, ?_, ?_, ?_⟩
  · intro series
    exact ofRecord_eq_ok_iff hpublic hprivate
  · intro e
    exact ofRecord_eq_error_iff hpublic hprivate
  · intro hnone
    cases hread : ofRecord K cipher id record with
    | error e => exact ⟨e, rfl⟩
    | ok series => exact absurd ⟨series, (ofRecord_eq_ok_iff hpublic hprivate).mp hread⟩ hnone
  · rw [KeyList.scanSlots_eq (Nat.zero_le _), List.drop_zero]
    simp

end Opened

/-! ### A series of the sample -/

namespace Sample

/-- Blobs that are not sealed. -/
def bare : KeyCipher := ⟨fun _ text => .ok text, fun _ blob => .ok blob⟩

/-- The series with one private key, as it is stored with other texts for its slots. -/
def stored (privateText : Bytes) : SeriesRecord :=
  ⟨settled.version, settled.active, settled.required, KeyList.encodePubs settled.pubs, privateText⟩

end Sample

open Sample in
/-- The sample is read from its texts. With a byte more behind the slots, which begins none, it is
refused. -/
theorem ofRecord_exact_settled :
    ofRecord .secp256k1 bare ⟨1⟩ (stored (KeyList.encodePrivs settled.privs)) = .ok settled
      ∧ ofRecord .secp256k1 bare ⟨1⟩ (stored (KeyList.encodePrivs settled.privs ++ [2]))
        = .error (.corruptedRecord ⟨1⟩) := by
  have hneuter : KeyScheme.secp256k1.neuter? Round.Shared.first
      = some (Round.Shared.pub Round.Sample.key) := by
    decide +kernel
  have hpublic : ∀ text, bare.decrypt .publicKeys (stored text).publicBlob
      = .ok (KeyList.encodePubs settled.pubs) := fun _ => rfl
  have hprivate : ∀ text, bare.decrypt .privateKeys (stored text).privateBlob = .ok text :=
    fun _ => rfl
  constructor
  · obtain ⟨hok, -⟩ := ofRecord_exact (K := .secp256k1) (hpublic _) (hprivate _)
    exact (hok settled).mpr ⟨canonical_settled hneuter, rfl, rfl, rfl, rfl, rfl⟩
  · obtain ⟨-, herror, -⟩ := ofRecord_exact (K := .secp256k1) (hpublic _) (hprivate _)
    refine (herror _).mpr (.broken (Or.inr ⟨settled.privs, [2], rfl, List.cons_ne_nil _ _, ?_⟩))
    intro slot hslot
    -- the flag of a slot is zero or one
    cases slot with
    | none => exact absurd (List.cons_prefix_cons.mp hslot).1 (by decide)
    | some key => exact absurd (List.cons_prefix_cons.mp hslot).1 (by decide)

end Registry

end NotaryPool
