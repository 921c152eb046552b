import NotaryPool.Proofs.Sealing.Opening
import NotaryPool.Proofs.Series.Canonical
import NotaryPool.Proofs.Series.Catalog

/-!
# The life of a registry

A registry lives through changes of its series and reloads from its store. Each change meets a
medium that may fail and seals its blobs in its own way. Whatever the change is, it either leaves
the registry as it was or takes over one series, in memory and in the store.

## Contents

* `Registry.Change`, `Registry.Event`, `Registry.after`: changes, and the registry after some.
* `Registry.Brings`: the series that a change brings about.
* `Registry.change_eq`: **a change is refused, or it takes over what it brings about.**
* `Registry.Brings.canonical`, `Registry.Brings.retains`: what such a series is like.
* `Registry.allCanonical_after`: **all series have the one form**, after any changes and reloads.
-/

namespace NotaryPool.Registry

variable {K : KeyScheme}

/-! ## Changes and reloads -/

/-- A change of the series of a registry. -/
inductive Change where
  | create (version : UInt32) (id : SeriesId) (required : UInt8) (texts : List String)
  | replace (version : UInt32) (id : SeriesId) (required : UInt8) (texts : List String)
  | empower (id : SeriesId) (text : String)

/-- Asks for a change. -/
def change (K : KeyScheme) (r : Registry) : Change → Except RegistryError Unit × Registry
  | .create version id required texts => r.create K version id required texts
  | .replace version id required texts => r.replace K version id required texts
  | .empower id text => r.empower K id text

/-- What a change meets: a medium that works or fails, and how blobs are sealed this time. -/
structure Conditions where
  failure : Option String
  sealing : BlobPurpose → Bytes → Except CipherError Bytes

/-- The registry as a change meets it. -/
def under (r : Registry) (c : Conditions) : Registry :=
  { r with
    cipher := { r.cipher with encrypt := c.sealing }
    store := { r.store with failure := c.failure } }

/-- What happens to a registry. -/
inductive Event where
  | call (conditions : Conditions) (change : Change)
  | reload (failure : Option String)

/-- The registry of what its own store holds. -/
def reloaded (K : KeyScheme) (r : Registry) (failure : Option String) :
    Except RegistryError Registry :=
  load K r.pool r.network r.cipher { r.store with failure }

/-- The registry after an event, whether it went well or not. -/
def apply (K : KeyScheme) (r : Registry) : Event → Registry
  | .call conditions change => ((r.under conditions).change K change).2
  | .reload failure => (r.reloaded K failure).toOption.getD r

/-- The registry after some events. -/
def after (K : KeyScheme) (r : Registry) (events : List Event) : Registry :=
  events.foldl (apply K) r

@[simp] theorem after_nil (r : Registry) : r.after K [] = r := rfl

@[simp] theorem after_cons (r : Registry) (event : Event) (rest : List Event) :
    r.after K (event :: rest) = (r.apply K event).after K rest :=
  List.foldl_cons ..

/-- The cipher opens what is sealed at an event. -/
def Event.Opens (cipher : KeyCipher) : Event → Prop
  | .call conditions _ => cipher.Opens conditions.sealing
  | .reload _ => True

/-! ## What a change does -/

variable {r : Registry} {id : SeriesId} {series : Series} {change : Change}

/-- The series that a change brings about, if it goes well. -/
inductive Brings (K : KeyScheme) (r : Registry) : Change → SeriesId → Series → Prop where
  | created {version : UInt32} {id : SeriesId} {required : UInt8} {texts : List String}
      {series : Series} (hfree : r.creationError? id = none)
      (hmade : r.seriesOfKeys K version id required texts = .ok series) :
      Brings K r (.create version id required texts) id series
  | replaced {version : UInt32} {id : SeriesId} {required : UInt8} {texts : List String}
      {old series : Series} (hfound : r.find? id = some old) (hbare : old.isEmpowered = false)
      (hmade : r.seriesOfKeys K version id required texts = .ok series) :
      Brings K r (.replace version id required texts) id series
  | empowered {id : SeriesId} {text : String} {old series : Series} {position : Nat}
      (hfound : r.find? id = some old) (hmade : old.empower K text = .ok (position, series)) :
      Brings K r (.empower id text) id series

/-- What a change meets does not matter for what it brings about. -/
theorem Brings.under (h : Brings K r change id series) (conditions : Conditions) :
    Brings K (r.under conditions) change id series := by
  cases h with
  | created hfree hmade => exact .created hfree hmade
  | replaced hfound hbare hmade => exact .replaced hfound hbare hmade
  | empowered hfound hmade => exact .empowered hfound hmade

/-- The registry that has taken over a series, with its record in the store. -/
def holding (r : Registry) (id : SeriesId) (series : Series) (record : SeriesRecord) : Registry :=
  { r with
    store := { r.store with
      pools := r.store.pools.insert r.pool (Catalog.insert id record (r.store.records r.pool)) }
    series := Catalog.insert id series r.series }

theorem save_eq (r : Registry) (id : SeriesId) (series : Series) :
    (∃ e, r.save id series = (.error e, r))
      ∨ ∃ record, r.toRecord series = .ok record ∧ r.store.failure = none
          ∧ r.save id series = (.ok (), r.holding id series record) := by
  unfold save SeriesStore.put
  split
  · exact Or.inl ⟨_, rfl⟩
  · rename_i record hrecord
    cases hfailure : r.store.failure with
    | some text => exact Or.inl ⟨_, rfl⟩
    | none =>
        refine Or.inr ⟨record, hrecord, rfl, ?_⟩
        unfold holding
        simp only [hfailure]

/-- A change that brings a series about ends in saving it, and any other leaves the registry as it
was. -/
theorem refused_or_saves (K : KeyScheme) (r : Registry) (change : Change) :
    (∃ e, r.change K change = (.error e, r))
      ∨ ∃ id series, Brings K r change id series ∧ r.change K change = r.save id series := by
  cases change with
  | create version id required texts =>
      show (∃ e, r.create K version id required texts = _) ∨ ∃ _ _, _ ∧ r.create .. = _
      unfold create
      split
      · exact Or.inl ⟨_, rfl⟩
      · rename_i hfree
        split
        · exact Or.inl ⟨_, rfl⟩
        · rename_i hmade
          exact Or.inr ⟨_, _, .created hfree hmade, rfl⟩
  | replace version id required texts =>
      show (∃ e, r.replace K version id required texts = _) ∨ ∃ _ _, _ ∧ r.replace .. = _
      unfold replace
      split
      · exact Or.inl ⟨_, rfl⟩
      · rename_i hfound
        split
        · exact Or.inl ⟨_, rfl⟩
        · rename_i hbare
          split
          · exact Or.inl ⟨_, rfl⟩
          · rename_i hmade
            exact Or.inr ⟨_, _, .replaced hfound (Bool.eq_false_iff.mpr hbare) hmade, rfl⟩
  | empower id text =>
      show (∃ e, r.empower K id text = _) ∨ ∃ _ _, _ ∧ r.empower .. = _
      unfold empower
      split
      · exact Or.inl ⟨_, rfl⟩
      · rename_i hfound
        split
        · exact Or.inl ⟨_, rfl⟩
        · rename_i hmade
          exact Or.inr ⟨_, _, .empowered hfound hmade, rfl⟩

/-- **A change is refused and leaves the registry as it was, or it takes over what it brings
about.** -/
theorem change_eq (K : KeyScheme) (r : Registry) (change : Change) :
    (∃ e, r.change K change = (.error e, r))
      ∨ ∃ id series record, Brings K r change id series ∧ r.toRecord series = .ok record
          ∧ r.store.failure = none
          ∧ r.change K change = (.ok (), r.holding id series record) := by
  rcases refused_or_saves K r change with hrefused | ⟨id, series, hbrings, hsaves⟩
  · exact Or.inl hrefused
  · rw [hsaves]
    exact (save_eq r id series).imp_right fun ⟨record, h⟩ => ⟨id, series, record, hbrings, h⟩

/-- What is brought about is taken over when it can be sealed and the medium works. -/
theorem Brings.change_eq (h : Brings K r change id series) {record : SeriesRecord}
    (hrecord : r.toRecord series = .ok record) (hworks : r.store.failure = none) :
    r.change K change = (.ok (), r.holding id series record) := by
  have hsaves : r.change K change = r.save id series := by
    cases h with
    | created hfree hmade => simp only [Registry.change, create, hfree, hmade]
    | replaced hfound hbare hmade =>
        simp only [Registry.change, replace, hfound, hbare, Bool.false_eq_true, if_false, hmade]
    | empowered hfound hmade => simp only [Registry.change, empower, hfound, hmade]
  rw [hsaves]
  rcases save_eq r id series with ⟨e, heq⟩ | ⟨record', hrecord', -, heq⟩
  · unfold save SeriesStore.put at heq
    simp [hrecord, hworks] at heq
  · cases hrecord.symm.trans hrecord'
    exact heq

/-- A medium that fails keeps each change away. -/
theorem apply_of_failure {conditions : Conditions} {text : String}
    (h : conditions.failure = some text) (change : Change) :
    r.apply K (.call conditions change) = r.under conditions := by
  show ((r.under conditions).change K change).2 = r.under conditions
  rcases Registry.change_eq K (r.under conditions) change with
    ⟨e, heq⟩ | ⟨_, _, _, -, -, hworks, -⟩
  · rw [heq]
  · cases h.symm.trans hworks

/-! ## What a change brings about -/

/-- A series may be created when its number is not zero and free, and the one before it is taken. -/
theorem creationError?_eq_none_iff :
    r.creationError? id = none
      ↔ id.val ≠ 0 ∧ r.find? id = none ∧ (id.val = 1 ∨ r.find? ⟨id.val - 1⟩ ≠ none) := by
  unfold creationError?
  by_cases hzero : id.val = 0
  · simp [hzero]
  · cases hfound : r.find? id with
    | some old => simp [hzero]
    | none =>
        by_cases hone : id.val = 1
        · simp [hone]
        · simp [hzero, hone]

theorem of_seriesOfKeys {version : UInt32} {required : UInt8} {texts : List String}
    (h : r.seriesOfKeys K version id required texts = .ok series) :
    series.Canonical K ∧ r.accepts series = true := by
  obtain ⟨made, hmade, h⟩ := Except.bind_eq_ok_iff.mp h
  obtain ⟨haccepts, h⟩ := Except.of_guard h
  cases h
  exact ⟨(Series.canonical_ofKeys (Except.mapError_eq_ok_iff.mp hmade)).1, by simpa using haccepts⟩

namespace Brings

/-- A series that is brought about has the one form, and its keys are of the network. -/
theorem canonical (h : Brings K r change id series)
    (hr : ∀ old, r.find? id = some old → old.Canonical K ∧ r.accepts old = true) :
    series.Canonical K ∧ r.accepts series = true := by
  cases h with
  | created _ hmade => exact of_seriesOfKeys hmade
  | replaced _ _ hmade => exact of_seriesOfKeys hmade
  | empowered hfound hmade =>
      obtain ⟨hcanonical, haccepts⟩ := hr _ hfound
      obtain ⟨key, pub, -, hkey, hposition, rfl⟩ := Series.of_empower hmade
      refine ⟨hcanonical.attach hkey hposition, ?_⟩
      unfold accepts
      rw [Series.pubs_attach]
      exact haccepts

/-- A series with private keys is changed by attaching one more, if at all. -/
theorem retains (h : Brings K r change id series) {old : Series} (hfound : r.find? id = some old)
    (hold : old.WellFormed K) (hempowered : old.isEmpowered = true) : old.Retains K series := by
  cases h with
  | created hfree _ =>
      cases hfound.symm.trans (creationError?_eq_none_iff.mp hfree).2.1
  | replaced hfound' hbare _ =>
      cases hfound.symm.trans hfound'
      rw [hempowered] at hbare
      cases hbare
  | empowered hfound' hmade =>
      cases hfound.symm.trans hfound'
      obtain ⟨key, pub, -, hkey, hposition, rfl⟩ := Series.of_empower hmade
      exact Series.retains_attach hold hkey hposition

/-- The series is one that the registry has, or the next one. -/
theorem known_or_next (h : Brings K r change id series) {count : Nat} (hcount : count < 2 ^ 32)
    (hids : Catalog.ids r.series = SeriesId.upTo count) :
    id ∈ Catalog.ids r.series ∨ id.val.toNat = count + 1 := by
  have hknown : ∀ {id old}, r.find? id = some old → id ∈ Catalog.ids r.series := fun hfound =>
    List.mem_map.mpr ⟨_, Catalog.mem_of_find? hfound, rfl⟩
  cases h with
  | replaced hfound _ _ => exact Or.inl (hknown hfound)
  | empowered hfound _ => exact Or.inl (hknown hfound)
  | created hfree _ =>
      right
      obtain ⟨hzero, hnew, hprev⟩ := creationError?_eq_none_iff.mp hfree
      -- the number is above those that are there, and the one before it is not
      have habove := Catalog.find?_eq_none_iff.mp hnew
      rw [hids, SeriesId.mem_upTo hcount] at habove
      have hpositive : id.val.toNat ≠ 0 := fun h => hzero (UInt32.toNat_inj.mp h)
      rcases hprev with hone | hprev
      · have hvalue : id.val.toNat = 1 := by rw [hone]; rfl
        omega
      · obtain ⟨before, hbefore⟩ := Option.ne_none_iff_exists'.mp hprev
        have hmem := hknown hbefore
        rw [hids] at hmem
        have hle : (id.val - 1).toNat ≤ count := ((SeriesId.mem_upTo hcount).mp hmem).2
        have hvalue : (id.val - 1).toNat = id.val.toNat - 1 :=
          UInt32.toNat_sub_of_le _ _ (UInt32.le_iff_toNat_le.mpr (Nat.pos_of_ne_zero hpositive))
        omega

end Brings

/-! ## All series have the one form -/

theorem canonical_ofRecord {cipher : KeyCipher} {record : SeriesRecord}
    (h : ofRecord K cipher id record = .ok series) : series.Canonical K := by
  obtain ⟨publicText, -, h⟩ := Except.bind_eq_ok_iff.mp h
  split at h
  · obtain ⟨privateText, -, h⟩ := Except.bind_eq_ok_iff.mp h
    split at h
    · exact (Series.canonical_ofParts (Except.mapError_eq_ok_iff.mp h)).1
    · cases h
  · cases h

/-- All series of a registry have the one form, and their keys are of its network. -/
def AllCanonical (K : KeyScheme) (r : Registry) : Prop :=
  ∀ e ∈ r.series, e.2.Canonical K ∧ r.accepts e.2 = true

theorem AllCanonical.of_find? (h : r.AllCanonical K) (hfound : r.find? id = some series) :
    series.Canonical K ∧ r.accepts series = true :=
  h (id, series) (Catalog.mem_of_find? hfound)

theorem AllCanonical.insert (h : r.AllCanonical K) (hcanonical : series.Canonical K)
    (haccepts : r.accepts series = true) :
    ∀ e ∈ Catalog.insert id series r.series, e.2.Canonical K ∧ r.accepts e.2 = true := by
  intro e he
  rcases Catalog.mem_insert he with rfl | hold
  · exact ⟨hcanonical, haccepts⟩
  · exact h e hold

theorem allCanonical_loadRecords {records : Catalog SeriesRecord} {loaded : Registry}
    (hr : r.AllCanonical K) (h : loadRecords K r records = .ok loaded) :
    loaded.AllCanonical K := by
  induction records generalizing r with
  | nil =>
      cases h
      exact hr
  | cons entry rest ih =>
      obtain ⟨series, hseries, h⟩ := Except.bind_eq_ok_iff.mp h
      obtain ⟨haccepts, h⟩ := Except.of_guard h
      have hnext : Registry.AllCanonical K
          { r with series := Catalog.insert entry.1 series r.series } :=
        hr.insert (canonical_ofRecord hseries) (by simpa using haccepts)
      exact ih hnext h

theorem allCanonical_apply (hr : r.AllCanonical K) (event : Event) :
    (r.apply K event).AllCanonical K := by
  cases event with
  | call conditions change =>
      have hunder : (r.under conditions).AllCanonical K := hr
      show ((r.under conditions).change K change).2.AllCanonical K
      rcases change_eq K (r.under conditions) change with
        ⟨e, heq⟩ | ⟨id, series, record, hbrings, -, -, heq⟩
      · rw [heq]
        exact hunder
      · obtain ⟨hcanonical, haccepts⟩ := hbrings.canonical fun _ => hunder.of_find?
        rw [heq]
        exact hunder.insert hcanonical haccepts
  | reload failure =>
      show ((r.reloaded K failure).toOption.getD r).AllCanonical K
      cases hloaded : r.reloaded K failure with
      | error e => exact hr
      | ok loaded =>
          obtain ⟨records, -, h⟩ := Except.bind_eq_ok_iff.mp hloaded
          exact allCanonical_loadRecords (fun _ h => absurd h List.not_mem_nil) h

/-- **All series have the one form**, whatever happened and whatever the cipher does. -/
theorem allCanonical_after (hr : r.AllCanonical K) (events : List Event) :
    (r.after K events).AllCanonical K := by
  induction events generalizing r with
  | nil => exact hr
  | cons event rest ih =>
      rw [after_cons]
      exact ih (allCanonical_apply hr event)

end NotaryPool.Registry
