import NotaryPool.Proofs.Series.Lockstep

/-!
# The rules of a registry over its life

Whatever happens to a registry that began with an empty store, its series are numbered without a
gap, they keep their rules, and a series that has got a private key is settled: from then on it only
gets more of them.

## Contents

* `KeyScheme.KeepsLineage`, `KeyScheme.Faithful`: what is said of private keys and their public
  forms. The first is proved of the scheme of the chain, the second one is not.
* `Registry.Mirrored.retains_apply`, `Registry.Mirrored.retains_after`: **a settled series keeps its
  keys**, over one event and over many.
* `Registry.reachable`: **all rules together.**
-/

namespace NotaryPool

variable {K : KeyScheme}

namespace KeyScheme

/-- The public form of a private key has the same place in the tree. -/
def KeepsLineage (K : KeyScheme) : Prop :=
  ∀ key pub, K.neuter? key = some pub → key.lineage = pub.lineage

/-- No other private key has the same public form. -/
def Faithful (K : KeyScheme) : Prop :=
  ∀ key key' pub, K.neuter? key = some pub → K.neuter? key' = some pub → key = key'

theorem keepsLineage_secp256k1 : secp256k1.KeepsLineage := by
  intro key pub hpub
  obtain ⟨_, -, rfl⟩ := Option.map_eq_some_iff.mp hpub
  rfl

variable {owned : List Xpriv}

theorem neuter?_keeping {key : Xpriv} {pub : Xpub} :
    (keeping owned).neuter? key = some pub
      ↔ key ∈ owned ∧ secp256k1.neuter? key = some pub := by
  simp [keeping]

theorem keepsLineage_keeping : (keeping owned).KeepsLineage :=
  fun key pub hpub => keepsLineage_secp256k1 key pub (neuter?_keeping.mp hpub).2

/-- The scheme of the chain for a few private keys is faithful when these have public forms of their
own. -/
theorem faithful_keeping (h : ∀ key ∈ owned, ∀ key' ∈ owned,
    secp256k1.neuter? key = secp256k1.neuter? key' → key = key') : (keeping owned).Faithful := by
  intro key key' pub hpub hpub'
  obtain ⟨hkey, hpub⟩ := neuter?_keeping.mp hpub
  obtain ⟨hkey', hpub'⟩ := neuter?_keeping.mp hpub'
  exact h key hkey key' hkey' (hpub.trans hpub'.symm)

end KeyScheme

namespace Series

variable {s s' : Series}

theorem WellFormed.neuter_of_privs (h : s.WellFormed K) {no : Nat} {key : Xpriv}
    (hkey : s.privs[no]? = some (some key)) : ∃ pub ∈ s.pubs, K.neuter? key = some pub := by
  unfold privs at hkey
  obtain ⟨slot, hslot, hpriv⟩ := List.mem_map.mp (List.mem_of_getElem? hkey)
  exact ⟨slot.pub, List.mem_map.mpr ⟨slot, hslot, rfl⟩, h.owned slot hslot key hpriv⟩

/-- Where a private key was attached, the very same one is later. -/
theorem Retains.same_keys (h : Retains K s s') (hs : s.WellFormed K) (hK : K.Faithful) (no : Nat)
    (key : Xpriv) (hkey : s.privs[no]? = some (some key)) : s'.privs[no]? = some (some key) := by
  obtain ⟨key', hkey', hsame⟩ := h.held no key hkey
  obtain ⟨pub, -, hpub⟩ := hs.neuter_of_privs hkey
  rw [hK key key' pub hpub (hsame.trans hpub)]
  exact hkey'

end Series

namespace Registry

variable {r : Registry} {id : SeriesId} {series : Series} {pool : String}
  {network : AddressNetwork} {cipher : KeyCipher}

/-- A settled series keeps its keys over one event. -/
theorem Mirrored.retains_apply (h : r.Mirrored K pool network cipher)
    (hfound : r.find? id = some series) (hempowered : series.isEmpowered = true) (event : Event) :
    ∃ series', (r.apply K event).find? id = some series' ∧ series.Retains K series' := by
  cases event with
  | call conditions change =>
      show ∃ series', ((r.under conditions).change K change).2.find? id = some series' ∧ _
      rcases change_eq K (r.under conditions) change with
        ⟨e, heq⟩ | ⟨id', series', record, hbrings, -, -, heq⟩
      · rw [heq]
        exact ⟨series, hfound, .refl series⟩
      · rw [heq]
        show ∃ later, Catalog.find? (Catalog.insert id' series' r.series) id = some later ∧ _
        rw [Catalog.find?_insert]
        by_cases hid : id = id'
        · -- the change is one of this series
          subst hid
          have hwellFormed := (h.canonical.of_find? hfound).1.toWellFormed
          exact ⟨series', if_pos rfl, hbrings.retains hfound hwellFormed hempowered⟩
        · rw [if_neg hid]
          exact ⟨series, hfound, .refl series⟩
  | reload failure =>
      refine ⟨series, ?_, .refl series⟩
      unfold find?
      rw [(h.reload failure).2]
      exact hfound

/-- **A settled series keeps its keys** over any events. -/
theorem Mirrored.retains_after (h : r.Mirrored K pool network cipher)
    (hfound : r.find? id = some series) (hempowered : series.isEmpowered = true)
    {later : List Event} (hopens : ∀ event ∈ later, event.Opens cipher) :
    ∃ series', (r.after K later).find? id = some series' ∧ series.Retains K series' := by
  induction later generalizing r series with
  | nil => exact ⟨series, hfound, .refl series⟩
  | cons event rest ih =>
      obtain ⟨next, hnext, hretains⟩ := h.retains_apply hfound hempowered event
      obtain ⟨last, hlast, hretains'⟩ := ih (mirrored_apply h (hopens event List.mem_cons_self))
        hnext (hretains.isEmpowered hempowered)
        fun other hother => hopens other (List.mem_cons_of_mem event hother)
      exact ⟨last, hlast, hretains.trans hretains'⟩

/-- **The rules of a registry over its life.** A registry that began with an empty store has the
series from one on without a gap. Each of them is of the known version, with three to fifteen keys
of the network in the order of their texts, a threshold that they can meet, and a slot for each of
them in which a private key belongs to the public key of the slot. Once a series has a private key,
its public keys and its threshold stay as they are, and no private key is removed. -/
theorem reachable {store : SeriesStore} (hstore : store.records pool = [])
    {events later : List Event} (hopens : ∀ event ∈ events ++ later, event.Opens cipher)
    (hr : (new pool network cipher store).after K events = r) :
    (∃ count < 2 ^ 32, Catalog.ids r.series = SeriesId.upTo count)
      ∧ (∀ id series, r.find? id = some series →
          series.Canonical K ∧ series.privs.length = series.pubs.length
            ∧ (∀ key ∈ series.pubs, key.lineage.testnet = network.isTestnet)
            ∧ (K.KeepsLineage → ∀ key, some key ∈ series.privs →
                key.lineage.testnet = network.isTestnet))
      ∧ ∀ id series, r.find? id = some series → series.isEmpowered = true →
          ∃ series', (r.after K later).find? id = some series' ∧ series.Retains K series'
            ∧ (K.Faithful → ∀ (no : Nat) key, series.privs[no]? = some (some key) →
                series'.privs[no]? = some (some key)) := by
  have hmirrored : r.Mirrored K pool network cipher := by
    rw [← hr]
    exact mirrored_after (mirrored_new hstore) fun event h =>
      hopens event (List.mem_append_left later h)
  refine ⟨hmirrored.numbered, ?_, ?_⟩
  · intro id series hfound
    obtain ⟨hcanonical, haccepts⟩ := hmirrored.canonical.of_find? hfound
    have hnetwork : ∀ key ∈ series.pubs, key.lineage.testnet = network.isTestnet := by
      unfold accepts at haccepts
      rw [hmirrored.network_eq] at haccepts
      exact fun key hkey => eq_of_beq (List.all_eq_true.mp haccepts key hkey)
    refine ⟨hcanonical, ?_, hnetwork, ?_⟩
    · rw [series.length_privs, series.length_pubs]
    · intro hK key hkey
      obtain ⟨no, hno⟩ := List.mem_iff_getElem?.mp hkey
      obtain ⟨pub, hpub, hneuter⟩ := hcanonical.neuter_of_privs hno
      rw [hK key pub hneuter]
      exact hnetwork pub hpub
  · intro id series hfound hempowered
    obtain ⟨series', hfound', hretains⟩ := hmirrored.retains_after hfound hempowered fun event h =>
      hopens event (List.mem_append_right events h)
    exact ⟨series', hfound', hretains,
      fun hK => hretains.same_keys (hmirrored.canonical.of_find? hfound).1.toWellFormed hK⟩

end Registry

namespace Registry.Sample

open Round

theorem faithful_scheme : Shared.scheme.Faithful := by
  apply KeyScheme.faithful_keeping
  decide +kernel

end Registry.Sample

open Registry Registry.Sample in
/-- A series with a private key outlives an attempt to replace its keys, and so does the private
key. -/
theorem Registry.reachable_replacing :
    let K := Round.Shared.scheme
    let r := start.after K events
    let replacing : Event := .call ⟨none, sealing 4⟩ (.replace 1 ⟨1⟩ 2 texts)
    r.find? ⟨1⟩ = some settled ∧ settled.isEmpowered = true ∧ K.KeepsLineage ∧ K.Faithful
      ∧ (∃ count < 2 ^ 32, Catalog.ids r.series = SeriesId.upTo count)
      ∧ settled.Canonical K ∧ Round.Shared.first.lineage.testnet = true
      ∧ ∃ series', (r.after K [replacing]).find? ⟨1⟩ = some series' ∧ settled.Retains K series'
          ∧ series'.privs[0]? = some (some Round.Shared.first) := by
  intro K r replacing
  have hopens : ∀ event ∈ events ++ [replacing], event.Opens secrets := by
    intro event hevent
    rcases List.mem_append.mp hevent with hevent | hlast
    · exact opens hevent
    · rw [List.mem_singleton.mp hlast]
      exact KeyCipher.xchacha_opens _ _ _ fun _ => List.length_replicate
  have hempty : SeriesStore.empty.records "pool" = [] := rfl
  have hfound : r.find? ⟨1⟩ = some settled := find?_after Round.Shared.neuter_first
  obtain ⟨hnumbered, hrules, hhistory⟩ := reachable hempty hopens (rfl : _ = r)
  obtain ⟨hcanonical, -, -, hnetwork⟩ := hrules ⟨1⟩ _ hfound
  obtain ⟨series', hlater, hretains, hkept⟩ := hhistory ⟨1⟩ _ hfound rfl
  have hlineage : K.KeepsLineage := KeyScheme.keepsLineage_keeping
  exact ⟨hfound, rfl, hlineage, faithful_scheme, hnumbered, hcanonical,
    hnetwork hlineage _ List.mem_cons_self, series', hlater, hretains,
    hkept faithful_scheme 0 _ rfl⟩

end NotaryPool
