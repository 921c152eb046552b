import NotaryPool.Proofs.Traversal
import NotaryPool.Series.Registry

/-!
# Series keep their rules

A series has from three to fifteen distinct keys and a threshold that they can meet, and each
private key stands in the slot of its public form. The rules are checked when a series is made, and
attaching a private key leaves them in force.

## Contents

* `Series.WellFormed`, `SeriesBook.WellFormed`: the rules, for a series and for all of a book.
* `Series.wellFormed_ofParts`: **parts that are accepted keep them.**
* `Series.WellFormed.attach`: **attaching the private key of a slot keeps them.**
-/

namespace NotaryPool

variable {K : KeyScheme}

/-! ## Series -/

namespace Series

/-- The rules that every series keeps. -/
structure WellFormed (K : KeyScheme) (s : Series) : Prop where
  fewest : minKeys ≤ s.keyCount
  most : s.keyCount ≤ maxKeys
  positive : s.required ≠ 0
  enough : s.required.toNat ≤ s.keyCount
  distinct : s.pubs.Nodup
  owned : ∀ slot ∈ s.slots, ∀ priv, slot.priv = some priv → K.neuter? priv = some slot.pub

theorem pairwise_of_isIncreasing {texts : List String} (h : isIncreasing texts = true) :
    texts.Pairwise (· < ·) := by
  apply List.isChain_iff_pairwise.mp
  induction texts with
  | nil => exact .nil
  | cons a rest ih =>
      cases rest with
      | nil => exact .singleton a
      | cons b rest =>
          simp only [isIncreasing, Bool.and_eq_true, decide_eq_true_eq] at h
          exact .cons_cons h.1 (ih h.2)

/-- Keys with increasing texts are distinct. -/
theorem nodup_of_isIncreasing {pubs : List Xpub}
    (h : isIncreasing (pubs.map Xpub.toText) = true) : pubs.Nodup := by
  have hpairwise := List.pairwise_map.mp (pairwise_of_isIncreasing h)
  refine hpairwise.imp ?_
  rintro a b hlt rfl
  exact String.lt_irrefl _ hlt

theorem pubs_zipWith {pubs : List Xpub} {privs : List (Option Xpriv)}
    (h : privs.length = pubs.length) : (List.zipWith Slot.mk pubs privs).map (·.pub) = pubs := by
  induction pubs generalizing privs with
  | nil => rfl
  | cons key rest ih =>
      cases privs with
      | nil => cases h
      | cons priv privs =>
          rw [List.zipWith_cons_cons, List.map_cons, ih (Nat.succ.inj h)]

/-- **Parts that are accepted make a well-formed series.** -/
theorem wellFormed_ofParts {version : UInt32} {active : Bool} {required : UInt8}
    {pubs : List Xpub} {privs : List (Option Xpriv)} {s : Series}
    (h : ofParts K version active required pubs privs = .ok s) :
    s.WellFormed K ∧ s.pubs = pubs := by
  unfold ofParts at h
  obtain ⟨-, h⟩ := Except.of_guard h
  obtain ⟨hfewest, h⟩ := Except.of_guard h
  obtain ⟨hmost, h⟩ := Except.of_guard h
  obtain ⟨hpositive, h⟩ := Except.of_guard h
  obtain ⟨henough, h⟩ := Except.of_guard h
  obtain ⟨hprivs, h⟩ := Except.of_guard h
  obtain ⟨hincreasing, h⟩ := Except.of_guard h
  obtain ⟨howned, h⟩ := Except.of_guard h
  cases h
  have hpubs := pubs_zipWith (not_not.mp hprivs)
  have hcount : (List.zipWith Slot.mk pubs privs).length = pubs.length := by
    rw [← congrArg List.length hpubs, List.length_map]
  refine ⟨⟨?_, ?_, hpositive, ?_, ?_, ?_⟩, hpubs⟩
  · show minKeys ≤ (List.zipWith Slot.mk pubs privs).length
    omega
  · show (List.zipWith Slot.mk pubs privs).length ≤ maxKeys
    omega
  · show required.toNat ≤ (List.zipWith Slot.mk pubs privs).length
    omega
  · show ((List.zipWith Slot.mk pubs privs).map (·.pub)).Nodup
    rw [hpubs]
    exact nodup_of_isIncreasing (by simpa using hincreasing)
  · intro slot hslot priv hpriv
    by_contra hother
    apply howned
    rw [List.any_eq_true]
    refine ⟨slot, hslot, ?_⟩
    rw [hpriv]
    exact decide_eq_true hother

/-- A series of texts is put together from their sorted keys. -/
theorem of_ofKeys {version : UInt32} {required : UInt8} {texts : List String} {s : Series}
    (h : ofKeys K version required texts = .ok s) :
    ∃ keys, List.Forall₂ (fun text key => parsePub text = .ok key) texts keys
      ∧ ofParts K version true required (sortKeys keys) ((sortKeys keys).map fun _ => none)
        = .ok s := by
  obtain ⟨keys, hparsed, h⟩ := Except.bind_eq_ok_iff.mp h
  dsimp only at h
  split at h
  · cases h
  · exact ⟨keys, mapM_eq_ok_iff.mp hparsed, h⟩

/-! ### Attaching a private key -/

variable {s : Series} {position : Nat} {key : Xpriv}

theorem pubs_attach (s : Series) (position : Nat) (key : Xpriv) :
    (s.attach position key).pubs = s.pubs := by
  unfold pubs attach
  apply map_modify_eq
  intro slot
  rfl

theorem keyCount_attach (s : Series) (position : Nat) (key : Xpriv) :
    (s.attach position key).keyCount = s.keyCount :=
  List.length_modify ..

/-- **A series stays well-formed** when a private key is attached where its public key stands. -/
theorem WellFormed.attach (h : s.WellFormed K) {pub : Xpub} (hkey : K.neuter? key = some pub)
    (hposition : s.position? pub = some position) : (s.attach position key).WellFormed K where
  fewest := by rw [keyCount_attach]; exact h.fewest
  most := by rw [keyCount_attach]; exact h.most
  positive := h.positive
  enough := by rw [keyCount_attach]; exact h.enough
  distinct := by rw [pubs_attach]; exact h.distinct
  owned := by
    intro slot hslot priv hpriv
    obtain ⟨no, hno⟩ := List.mem_iff_getElem?.mp hslot
    have hold : (s.slots.modify position fun slot => { slot with priv := some key })[no]?
        = some slot := hno
    rw [List.getElem?_modify] at hold
    obtain ⟨old, hsome, heq⟩ := Option.map_eq_some_iff.mp hold
    by_cases hat : position = no
    · -- the slot that the key was put into
      obtain ⟨hbound, hpub, -⟩ := List.findIdx?_eq_some_iff_getElem.mp hposition
      subst hat
      rw [List.getElem?_eq_getElem hbound] at hsome
      cases hsome
      rw [if_pos rfl] at heq
      subst heq
      cases hpriv
      rw [hkey]
      exact congrArg some (of_decide_eq_true hpub).symm
    · rw [if_neg hat] at heq
      subst heq
      exact h.owned old (List.mem_of_getElem? hsome) priv hpriv

end Series

/-! ## Books -/

/-- All series of a book keep the rules. -/
def SeriesBook.WellFormed (K : KeyScheme) (b : SeriesBook) : Prop :=
  ∀ id series, b.find? id = some series → series.WellFormed K

end NotaryPool
