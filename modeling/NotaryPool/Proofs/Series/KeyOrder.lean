import Mathlib.Data.List.Perm.Basic
import NotaryPool.Proofs.Series.Lockstep

/-!
# The order in which keys are handed in does not matter

The members of a group hand in the same keys, each in an order of their own. The keys are sorted by
their texts, and no two keys have the same text, so nothing is left of the order that they came in.
A key that was handed in twice stands next to itself among the sorted keys, and is found there.
Distinct keys pass the check of their order, so that only their number, the threshold and the
version decide.

## Contents

* `Series.sortKeys_eq_of_perm`: **sorting forgets the order.**
* `Series.Acceptable`: what a new series is made of. `Series.ofGroup`: the series itself.
* `Series.ofKeys_eq_ok_iff`: **which texts make a series, and which one.**
* `Series.ofKeys_orderless`: **all orders of the texts make the same series, or none does.**
-/

namespace NotaryPool.Series

section Orders

variable {keys other : List Xpub}

/-! ## Sorted keys -/

theorem sortKeys_perm (keys : List Xpub) : (sortKeys keys).Perm keys := by
  have hsorted := (List.mergeSort_perm (keys.map fun k => (k.toText, k))
    fun a b => a.1 ≤ b.1).map (·.2)
  rwa [List.map_map, show (·.2) ∘ (fun k : Xpub => (k.toText, k)) = id from rfl, List.map_id]
    at hsorted

theorem pairwise_sortKeys (keys : List Xpub) :
    (sortKeys keys).Pairwise fun a b => a.toText ≤ b.toText := by
  have hsorted : ((keys.map fun k => (k.toText, k)).mergeSort fun a b => a.1 ≤ b.1).Pairwise
      fun a b => decide (a.1 ≤ b.1) = true := by
    apply List.pairwise_mergeSort
    · intro a b c hab hbc
      exact decide_eq_true (String.le_trans (of_decide_eq_true hab) (of_decide_eq_true hbc))
    · intro a b
      rw [Bool.or_eq_true, decide_eq_true_eq, decide_eq_true_eq]
      exact String.le_total a.1 b.1
  unfold sortKeys
  rw [List.pairwise_map]
  refine hsorted.imp_of_mem ?_
  intro a b ha hb hle
  -- each entry that is sorted has the text of its key
  have htext : ∀ entry ∈ (keys.map fun k => (k.toText, k)).mergeSort fun a b => a.1 ≤ b.1,
      entry.2.toText = entry.1 := by
    intro entry hentry
    obtain ⟨k, -, rfl⟩ := List.mem_map.mp (List.mem_mergeSort.mp hentry)
    rfl
  rw [htext a ha, htext b hb]
  exact of_decide_eq_true hle

/-- **Sorting forgets the order** that the keys were in. -/
theorem sortKeys_eq_of_perm (h : keys.Perm other) : sortKeys keys = sortKeys other := by
  refine List.Perm.eq_of_pairwise ?_ (pairwise_sortKeys keys) (pairwise_sortKeys other)
    ((sortKeys_perm keys).trans (h.trans (sortKeys_perm other).symm))
  intro a b _ _ hab hba
  exact Xpub.toText_injective (String.le_antisymm hab hba)

/-- The texts of distinct keys increase once they are sorted. -/
theorem increasing_sortKeys (h : keys.Nodup) :
    ((sortKeys keys).map Xpub.toText).Pairwise (· < ·) := by
  rw [List.pairwise_map]
  have hdistinct := (sortKeys_perm keys).nodup_iff.mpr h
  refine (List.pairwise_and_iff.mpr ⟨pairwise_sortKeys keys, hdistinct⟩).imp ?_
  rintro a b ⟨hle, hne⟩
  exact String.not_le.mp fun hge => hne (Xpub.toText_injective (String.le_antisymm hle hge))

/-! ## Groups of keys -/

variable {K : KeyScheme} {version : UInt32} {required : UInt8} {texts : List String} {s : Series}

/-- A public key is taken from a text that is read as one, and not as a private key. -/
theorem parsePub_eq_ok_iff {text : String} {key : Xpub} :
    parsePub text = .ok key
      ↔ (∀ secret, Xpriv.parse text ≠ .ok secret) ∧ Xpub.parse text = .ok key := by
  unfold parsePub
  cases hsecret : Xpriv.parse text with
  | ok secret => simp
  | error e => cases hpublic : Xpub.parse text <;> simp

/-- **What a new series is made of**: the texts of some distinct public keys, and a threshold that
so many keys can meet. -/
structure Acceptable (version : UInt32) (required : UInt8) (texts : List String)
    (keys : List Xpub) : Prop where
  known : version = knownVersion
  fewest : minKeys ≤ texts.length
  most : texts.length ≤ maxKeys
  positive : required ≠ 0
  enough : required.toNat ≤ texts.length
  notPrivate : ∀ text ∈ texts, ∀ secret, Xpriv.parse text ≠ .ok secret
  parsed : List.Forall₂ (fun text key => Xpub.parse text = .ok key) texts keys
  distinct : keys.Nodup

theorem Acceptable.parsePub (h : Acceptable version required texts keys) :
    List.Forall₂ (fun text key => Series.parsePub text = .ok key) texts keys := by
  simp only [parsePub_eq_ok_iff]
  exact (List.forall₂_and_left _ _).mpr ⟨h.notPrivate, h.parsed⟩

/-- The series of a group of keys, as long as none of its private keys is known. -/
def ofGroup (required : UInt8) (keys : List Xpub) : Series :=
  ⟨knownVersion, true, required, (sortKeys keys).map fun key => ⟨key, none⟩⟩

theorem pubs_ofGroup (required : UInt8) (keys : List Xpub) :
    (ofGroup required keys).pubs = sortKeys keys := by
  show ((sortKeys keys).map _).map _ = _
  rw [List.map_map]
  exact List.map_id _

theorem privs_ofGroup (required : UInt8) (keys : List Xpub) :
    (ofGroup required keys).privs = (sortKeys keys).map fun _ => none :=
  List.map_map ..

theorem ofGroup_eq_of_perm (required : UInt8) (h : keys.Perm other) :
    ofGroup required keys = ofGroup required other := by
  unfold ofGroup
  rw [sortKeys_eq_of_perm h]

theorem Acceptable.canonical (h : Acceptable version required texts keys) :
    (ofGroup required keys).Canonical K := by
  have hcount : (ofGroup required keys).keyCount = texts.length := by
    rw [← length_pubs, pubs_ofGroup, (sortKeys_perm keys).length_eq, h.parsed.length_eq]
  refine ⟨⟨?_, ?_, h.positive, ?_, ?_, ?_⟩, rfl, ?_⟩
  · rw [hcount]
    exact h.fewest
  · rw [hcount]
    exact h.most
  · rw [hcount]
    exact h.enough
  · rw [pubs_ofGroup]
    exact (sortKeys_perm keys).nodup_iff.mpr h.distinct
  · intro slot hslot priv hpriv
    obtain ⟨key, -, rfl⟩ := List.mem_map.mp hslot
    cases hpriv
  · rw [pubs_ofGroup]
    exact increasing_sortKeys h.distinct

theorem Acceptable.ofParts_eq (h : Acceptable version required texts keys) :
    ofParts K version true required (sortKeys keys) ((sortKeys keys).map fun _ => none)
      = .ok (ofGroup required keys) := by
  rw [h.known, ← privs_ofGroup required, ← pubs_ofGroup required]
  exact h.canonical.ofParts_eq

theorem Acceptable.ofKeys_eq (h : Acceptable version required texts keys) :
    ofKeys K version required texts = .ok (ofGroup required keys) := by
  rw [ofKeys_of_distinct h.parsePub ((sortKeys_perm keys).nodup_iff.mpr h.distinct)]
  exact h.ofParts_eq

/-- **Which texts make a series, and which one.** -/
theorem ofKeys_eq_ok_iff :
    ofKeys K version required texts = .ok s
      ↔ ∃ keys, Acceptable version required texts keys ∧ s = ofGroup required keys := by
  constructor
  · intro h
    obtain ⟨keys, hparsed, hparts⟩ := of_ofKeys h
    obtain ⟨hcanonical, hversion, -, hrequired, hpubs, -⟩ := canonical_ofParts hparts
    simp only [parsePub_eq_ok_iff] at hparsed
    obtain ⟨hnotPrivate, hread⟩ := (List.forall₂_and_left _ _).mp hparsed
    have hcount : s.keyCount = texts.length := by
      rw [← length_pubs, hpubs, (sortKeys_perm keys).length_eq, hread.length_eq]
    have hacceptable : Acceptable version required texts keys := {
      known := hversion.symm.trans hcanonical.known
      fewest := hcount ▸ hcanonical.fewest
      most := hcount ▸ hcanonical.most
      positive := hrequired ▸ hcanonical.positive
      enough := hcount ▸ hrequired ▸ hcanonical.enough
      notPrivate := hnotPrivate
      parsed := hread
      distinct := (sortKeys_perm keys).nodup_iff.mp (hpubs ▸ hcanonical.distinct) }
    exact ⟨keys, hacceptable, Except.ok.inj (hparts.symm.trans hacceptable.ofParts_eq)⟩
  · rintro ⟨keys, h, rfl⟩
    exact h.ofKeys_eq

/-- What one order of the texts makes, any other order makes too. -/
theorem Acceptable.reorder (h : Acceptable version required texts keys) {texts' : List String}
    (hperm : texts'.Perm texts) :
    ∃ keys', Acceptable version required texts' keys' ∧ keys'.Perm keys := by
  obtain ⟨keys', hparsed, hkeys⟩ := List.perm_comp_forall₂ hperm h.parsed
  have hcount := hperm.length_eq
  refine ⟨keys', ⟨h.known, ?_, ?_, h.positive, ?_, ?_, hparsed, ?_⟩, hkeys⟩
  · rw [hcount]
    exact h.fewest
  · rw [hcount]
    exact h.most
  · rw [hcount]
    exact h.enough
  · exact fun text htext => h.notPrivate text (hperm.mem_iff.mp htext)
  · exact hkeys.nodup_iff.mpr h.distinct

/-- **The order of the texts does not matter.** A series is made of them just when they are
acceptable, and then each order of them makes the same one, with the keys in the order of their
texts. -/
theorem ofKeys_orderless (K : KeyScheme) (version : UInt32) (required : UInt8)
    (texts : List String) :
    ((∃ s, ofKeys K version required texts = .ok s)
        ↔ ∃ keys, Acceptable version required texts keys)
      ∧ ∀ texts' : List String, texts'.Perm texts →
        (∃ e e', ofKeys K version required texts = .error e
            ∧ ofKeys K version required texts' = .error e')
          ∨ ∃ s keys, ofKeys K version required texts = .ok s
            ∧ ofKeys K version required texts' = .ok s
            ∧ List.Forall₂ (fun text key => Xpub.parse text = .ok key) texts keys
            ∧ s.pubs.Perm keys ∧ (s.pubs.map Xpub.toText).Pairwise (· < ·) := by
  refine ⟨⟨?_, fun ⟨_, h⟩ => ⟨_, h.ofKeys_eq⟩⟩, ?_⟩
  · rintro ⟨s, h⟩
    obtain ⟨keys, hkeys, -⟩ := ofKeys_eq_ok_iff.mp h
    exact ⟨keys, hkeys⟩
  · intro texts' hperm
    cases h : ofKeys K version required texts with
    | ok s =>
        obtain ⟨keys, hkeys, rfl⟩ := ofKeys_eq_ok_iff.mp h
        obtain ⟨keys', hkeys', hsame⟩ := hkeys.reorder hperm
        refine Or.inr ⟨_, keys, rfl, ?_, hkeys.parsed, ?_, ?_⟩
        · rw [hkeys'.ofKeys_eq, ofGroup_eq_of_perm required hsame]
        · rw [pubs_ofGroup]
          exact sortKeys_perm keys
        · rw [pubs_ofGroup]
          exact increasing_sortKeys hkeys.distinct
    | error e =>
        cases h' : ofKeys K version required texts' with
        | error e' => exact Or.inl ⟨e, e', rfl, rfl⟩
        | ok s' =>
            -- a series of the other order would be one of this order
            obtain ⟨keys', hkeys', -⟩ := ofKeys_eq_ok_iff.mp h'
            obtain ⟨keys, hkeys, -⟩ := hkeys'.reorder hperm.symm
            cases h.symm.trans hkeys.ofKeys_eq

end Orders

open Registry.Sample (keys texts plain ofKeys_texts) in
/-- Three texts make the same series when they are handed in backwards, and six texts of the same
three keys make none. -/
theorem ofKeys_orderless_reversed :
    ofKeys .secp256k1 1 2 texts = .ok plain ∧ ofKeys .secp256k1 1 2 texts.reverse = .ok plain
      ∧ (plain.pubs.map Xpub.toText).Pairwise (· < ·)
      ∧ ∀ s, ofKeys .secp256k1 1 2 (texts ++ texts) ≠ .ok s := by
  have hmade : ofKeys .secp256k1 1 2 texts = .ok plain := ofKeys_texts
  refine ⟨hmade, ?_⟩
  rcases (ofKeys_orderless .secp256k1 1 2 texts).2 texts.reverse (List.reverse_perm texts) with
    ⟨e, -, hrefused, -⟩ | ⟨s, parsed, hs, hreversed, -, -, hincreasing⟩
  · cases hmade.symm.trans hrefused
  cases hmade.symm.trans hs
  refine ⟨hreversed, hincreasing, ?_⟩
  intro s htwice
  -- the six texts are read as the three keys twice over
  obtain ⟨read, hread⟩ := (ofKeys_orderless .secp256k1 1 2 (texts ++ texts)).1.mp ⟨s, htwice⟩
  have hkeys : (texts ++ texts).mapM Xpub.parse = .ok (keys ++ keys) := by
    have hall : ∀ key ∈ keys ++ keys, Xpub.parse key.toText = .ok key :=
      fun key _ => key.parse_toText
    rw [mapM_eq_ok_iff]
    show List.Forall₂ _ (keys.map Xpub.toText ++ keys.map Xpub.toText) _
    rw [← List.map_append, List.forall₂_map_left_iff, List.forall₂_same]
    exact hall
  cases hkeys.symm.trans (mapM_eq_ok_iff.mpr hread.parsed)
  exact absurd hread.distinct (by decide)

end NotaryPool.Series
