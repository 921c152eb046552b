import NotaryPool.Proofs.Series.WellFormed

/-!
# The one form of a series

The keys of a series stand in the order of their texts, so a group of keys and a threshold have one
form. The checks that a series passes when it is made ask for this form and for nothing else, which
is why a stored series passes them again. Attaching a private key leaves the public keys alone.

## Contents

* `Series.Canonical`: the form. `Series.ofParts_eq_ok_iff`: **what the checks accept.**
* `Series.canonical_ofKeys`, `Series.Canonical.attach`: new and empowered series have it.
* `Series.Retains`, `Series.retains_attach`: **attached private keys stay where they are.**
-/

namespace NotaryPool

variable {K : KeyScheme}

namespace Series

variable {s s' : Series}

/-! ## The form -/

/-- A series keeps the rules, is of the known version, and its keys are in the order of their
texts. -/
structure Canonical (K : KeyScheme) (s : Series) : Prop extends s.WellFormed K where
  known : s.version = knownVersion
  increasing : (s.pubs.map Xpub.toText).Pairwise (· < ·)

theorem isIncreasing_of_pairwise {texts : List String} (h : texts.Pairwise (· < ·)) :
    isIncreasing texts = true := by
  induction texts with
  | nil => rfl
  | cons a rest ih =>
      obtain ⟨hfirst, hrest⟩ := List.pairwise_cons.mp h
      cases rest with
      | nil => rfl
      | cons b rest =>
          show (decide (a < b) && isIncreasing (b :: rest)) = true
          rw [ih hrest, Bool.and_true]
          exact decide_eq_true (hfirst b List.mem_cons_self)

theorem privs_zipWith {pubs : List Xpub} {privs : List (Option Xpriv)}
    (h : privs.length = pubs.length) :
    (List.zipWith Slot.mk pubs privs).map (·.priv) = privs := by
  induction privs generalizing pubs with
  | nil => rw [List.zipWith_nil_right, List.map_nil]
  | cons priv rest ih =>
      cases pubs with
      | nil => cases h
      | cons key pubs => rw [List.zipWith_cons_cons, List.map_cons, ih (Nat.succ.inj h)]

theorem zipWith_pubs_privs (s : Series) : List.zipWith Slot.mk s.pubs s.privs = s.slots := by
  unfold pubs privs
  induction s.slots with
  | nil => rfl
  | cons slot rest ih => rw [List.map_cons, List.map_cons, List.zipWith_cons_cons, ih]

theorem length_pubs (s : Series) : s.pubs.length = s.keyCount := List.length_map ..

theorem length_privs (s : Series) : s.privs.length = s.keyCount := List.length_map ..

/-! ## Making series -/

section Making

variable {version : UInt32} {active : Bool} {required : UInt8} {pubs : List Xpub}
  {privs : List (Option Xpriv)}

theorem canonical_ofParts (h : ofParts K version active required pubs privs = .ok s) :
    s.Canonical K ∧ s.version = version ∧ s.active = active ∧ s.required = required
      ∧ s.pubs = pubs ∧ s.privs = privs := by
  obtain ⟨hwellFormed, hpubs⟩ := wellFormed_ofParts h
  unfold ofParts at h
  obtain ⟨hknown, h⟩ := Except.of_guard h
  obtain ⟨-, h⟩ := Except.of_guard h
  obtain ⟨-, h⟩ := Except.of_guard h
  obtain ⟨-, h⟩ := Except.of_guard h
  obtain ⟨-, h⟩ := Except.of_guard h
  obtain ⟨hprivs, h⟩ := Except.of_guard h
  obtain ⟨hincreasing, h⟩ := Except.of_guard h
  obtain ⟨-, h⟩ := Except.of_guard h
  cases h
  refine ⟨⟨hwellFormed, not_not.mp hknown, ?_⟩, rfl, rfl, rfl, hpubs,
    privs_zipWith (not_not.mp hprivs)⟩
  rw [hpubs]
  exact pairwise_of_isIncreasing (by simpa using hincreasing)

/-- A series in the one form passes the checks. -/
theorem Canonical.ofParts_eq (h : s.Canonical K) :
    ofParts K s.version s.active s.required s.pubs s.privs = .ok s := by
  have hfewest := h.fewest
  have hmost := h.most
  have henough := h.enough
  have howned : ¬ (s.slots.any fun slot => slot.priv.any fun key => K.neuter? key ≠ some slot.pub)
      = true := by
    rw [List.any_eq_true]
    rintro ⟨slot, hslot, hother⟩
    obtain ⟨priv, hpriv, hneuter⟩ := (Option.any_eq_true _ _).mp hother
    exact of_decide_eq_true hneuter (h.owned slot hslot priv hpriv)
  unfold ofParts
  simp only [length_pubs, length_privs, zipWith_pubs_privs,
    isIncreasing_of_pairwise h.increasing, Bool.not_true, if_neg howned]
  rw [if_neg (not_not.mpr h.known), if_neg (by omega), if_neg (by omega), if_neg h.positive,
    if_neg (by omega), if_neg (not_not.mpr rfl), if_neg Bool.false_ne_true]
  rfl

/-- **Parts are accepted just when they are those of a series in the one form.** -/
theorem ofParts_eq_ok_iff :
    ofParts K version active required pubs privs = .ok s
      ↔ s.Canonical K ∧ s.version = version ∧ s.active = active ∧ s.required = required
          ∧ s.pubs = pubs ∧ s.privs = privs := by
  constructor
  · exact canonical_ofParts
  · rintro ⟨h, rfl, rfl, rfl, rfl, rfl⟩
    exact h.ofParts_eq

/-- **A new series is in the one form**, and has no private keys. -/
theorem canonical_ofKeys {texts : List String} (h : ofKeys K version required texts = .ok s) :
    s.Canonical K ∧ s.isEmpowered = false := by
  obtain ⟨keys, -, hparts⟩ := of_ofKeys h
  obtain ⟨hcanonical, -, -, -, -, hprivs⟩ := canonical_ofParts hparts
  refine ⟨hcanonical, ?_⟩
  unfold isEmpowered
  rw [List.any_eq_false]
  intro slot hslot
  have hpriv : slot.priv ∈ s.privs := List.mem_map.mpr ⟨slot, hslot, rfl⟩
  rw [hprivs] at hpriv
  obtain ⟨_, -, hnone⟩ := List.mem_map.mp hpriv
  rw [← hnone]
  exact Bool.false_ne_true

/-- Keys in the order of their texts stay as they are. -/
theorem sortKeys_of_increasing {keys : List Xpub}
    (h : (keys.map Xpub.toText).Pairwise (· < ·)) : sortKeys keys = keys := by
  have hsorted : (keys.map fun k => (k.toText, k)).Pairwise fun a b => decide (a.1 ≤ b.1) = true :=
    List.pairwise_map.mpr ((List.pairwise_map.mp h).imp fun hlt =>
      decide_eq_true (String.not_lt.mp (String.lt_asymm hlt)))
  unfold sortKeys
  rw [List.mergeSort_of_pairwise hsorted, List.map_map]
  exact List.map_id keys

/-- Where no two things are the same no neighbours are. -/
theorem adjacent?_eq_none {α : Type} {same : α → α → Bool} {as : List α}
    (h : as.Pairwise fun a b => same a b = false) : adjacent? same as = none := by
  induction as with
  | nil => rfl
  | cons a rest ih =>
      cases rest with
      | nil => rfl
      | cons b rest =>
          obtain ⟨hfirst, hrest⟩ := List.pairwise_cons.mp h
          unfold adjacent?
          rw [hfirst b List.mem_cons_self]
          exact ih hrest

/-- Texts of distinct keys are judged by the rules for the sorted keys. -/
theorem ofKeys_of_distinct {texts : List String} {keys : List Xpub}
    (hparsed : List.Forall₂ (fun text key => parsePub text = .ok key) texts keys)
    (hdistinct : (sortKeys keys).Nodup) :
    ofKeys K version required texts
      = ofParts K version true required (sortKeys keys) ((sortKeys keys).map fun _ => none) := by
  unfold ofKeys
  rw [mapM_eq_ok_iff.mpr hparsed, Except.ok_bind]
  dsimp only
  rw [adjacent?_eq_none (hdistinct.imp fun hne => decide_eq_false hne)]

/-- Texts that come in order are the parts of the new series. -/
theorem ofKeys_of_increasing {texts : List String} {keys : List Xpub}
    (hparsed : List.Forall₂ (fun text key => parsePub text = .ok key) texts keys)
    (hkeys : (keys.map Xpub.toText).Pairwise (· < ·)) :
    ofKeys K version required texts
      = ofParts K version true required keys (keys.map fun _ => none) := by
  have hdistinct := nodup_of_isIncreasing (isIncreasing_of_pairwise hkeys)
  rw [← sortKeys_of_increasing hkeys] at hdistinct
  rw [ofKeys_of_distinct hparsed hdistinct, sortKeys_of_increasing hkeys]

end Making

/-! ## Attaching private keys -/

variable {position : Nat} {key : Xpriv} {pub : Xpub} {text : String}

/-- A private key that is attached belongs to the public key at its position. -/
theorem of_empower (h : s.empower K text = .ok (position, s')) :
    ∃ key pub, Xpriv.parse text = .ok key ∧ K.neuter? key = some pub
      ∧ s.position? pub = some position ∧ s' = s.attach position key := by
  unfold empower at h
  split at h
  · cases h
  · split at h
    · cases h
    · rename_i key hparsed
      split at h
      · rename_i place hplace
        cases h
        obtain ⟨pub, hpub, hposition⟩ := Option.bind_eq_some_iff.mp hplace
        exact ⟨key, pub, hparsed, hpub, hposition, rfl⟩
      · cases h

theorem Canonical.attach (h : s.Canonical K) (hkey : K.neuter? key = some pub)
    (hposition : s.position? pub = some position) : (s.attach position key).Canonical K where
  toWellFormed := h.toWellFormed.attach hkey hposition
  known := h.known
  increasing := by
    rw [pubs_attach]
    exact h.increasing

/-- **A later state of a series**: its keys and its threshold are the same, and where a private key
was attached there is one that belongs to the same public key. -/
structure Retains (K : KeyScheme) (s s' : Series) : Prop where
  pubs : s'.pubs = s.pubs
  required : s'.required = s.required
  held : ∀ (no : Nat) key, s.privs[no]? = some (some key) →
    ∃ key', s'.privs[no]? = some (some key') ∧ K.neuter? key' = K.neuter? key

theorem Retains.refl (s : Series) : Retains K s s :=
  ⟨rfl, rfl, fun _ key h => ⟨key, h, rfl⟩⟩

theorem Retains.trans {s'' : Series} (h : Retains K s s') (h' : Retains K s' s'') :
    Retains K s s'' := by
  refine ⟨h'.pubs.trans h.pubs, h'.required.trans h.required, ?_⟩
  intro no key hkey
  obtain ⟨key', hkey', hsame⟩ := h.held no key hkey
  obtain ⟨key'', hkey'', hsame'⟩ := h'.held no key' hkey'
  exact ⟨key'', hkey'', hsame'.trans hsame⟩

/-- A series that has a private key still has one later. -/
theorem Retains.isEmpowered (h : Retains K s s') (hs : s.isEmpowered = true) :
    s'.isEmpowered = true := by
  obtain ⟨slot, hslot, hpriv⟩ := List.any_eq_true.mp hs
  obtain ⟨key, hkey⟩ := Option.isSome_iff_exists.mp hpriv
  obtain ⟨no, hno⟩ := List.mem_iff_getElem?.mp hslot
  have hheld : s.privs[no]? = some (some key) := by
    unfold privs
    rw [List.getElem?_map, hno, Option.map_some, hkey]
  obtain ⟨key', hkey', -⟩ := h.held no key hheld
  obtain ⟨slot', hslot', hpriv'⟩ := List.mem_map.mp (List.mem_of_getElem? hkey')
  exact List.any_eq_true.mpr ⟨slot', hslot', by rw [hpriv']; exact Option.isSome_some⟩

/-- **Attaching a private key removes none.** -/
theorem retains_attach (h : s.WellFormed K) (hkey : K.neuter? key = some pub)
    (hposition : s.position? pub = some position) : Retains K s (s.attach position key) := by
  refine ⟨pubs_attach .., rfl, ?_⟩
  intro no old hold
  unfold privs at hold
  rw [List.getElem?_map] at hold
  obtain ⟨slot, hslot, hpriv⟩ := Option.map_eq_some_iff.mp hold
  unfold privs attach
  rw [List.getElem?_map, List.getElem?_modify, hslot]
  by_cases hat : position = no
  · -- the slot that the key is put into was taken by a key of the same public key
    obtain ⟨hbound, hpub, -⟩ := List.findIdx?_eq_some_iff_getElem.mp hposition
    subst hat
    rw [List.getElem?_eq_getElem hbound] at hslot
    cases hslot
    refine ⟨key, by simp, ?_⟩
    rw [hkey, h.owned _ (List.getElem_mem hbound) old hpriv]
    exact congrArg some (of_decide_eq_true hpub).symm
  · exact ⟨old, by simp [hat, hpriv], rfl⟩

end Series

end NotaryPool
