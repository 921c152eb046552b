import Mathlib.Algebra.Group.Defs
import NotaryPool.Arithmetic
import NotaryPool.Proofs.Series.Changes
import NotaryPool.Proofs.Series.KeyList
import NotaryPool.Proofs.Signing.Threshold

/-!
# Memory and store stay in step

A registry writes a series before it takes the series over, so a medium that fails leaves both as
they were. What it writes opens again and passes the checks again, so the series in memory are at
any time those that a fresh registry would load.

## Contents

* `Registry.ofRecord_of_toRecord`: **a record is read back as the series it was made of.**
* `Registry.Mirrored`: each series in memory is the one that the store has.
* `Registry.mirrored_after`: **this holds after any changes and reloads.**
* `Registry.lockstep`: **so loading gives what is in memory, and a refused change has no effect.**
-/

namespace NotaryPool

variable {K : KeyScheme}

/-- The store on a medium that works. -/
def SeriesStore.working (s : SeriesStore) : SeriesStore := { s with failure := none }

namespace Registry

variable {r : Registry} {id : SeriesId} {series : Series} {pool : String}
  {network : AddressNetwork} {cipher : KeyCipher}

/-! ## Records -/

/-- **A record is read back** as the series that it was made of, under any cipher that opens what
the registry seals. -/
theorem ofRecord_of_toRecord {record : SeriesRecord} (hopens : cipher.Opens r.cipher.encrypt)
    (hseries : series.Canonical K) (h : r.toRecord series = .ok record) :
    ofRecord K cipher id record = .ok series := by
  obtain ⟨publicBlob, hpublic, h⟩ := Except.bind_eq_ok_iff.mp h
  obtain ⟨privateBlob, hprivate, h⟩ := Except.bind_eq_ok_iff.mp h
  cases h
  unfold ofRecord
  simp only [hopens _ _ _ hpublic, hopens _ _ _ hprivate, Except.mapError, Except.ok_bind,
    KeyList.decodePubs?_encodePubs, KeyList.decodePrivs?_encodePrivs, hseries.ofParts_eq]

/-- A well-formed series is never too long for its blobs. -/
theorem toRecord_isOk (hseries : series.WellFormed K)
    (hseals : ∀ purpose text, text.length ≤ KeyCipher.textLimit →
      ∃ blob, r.cipher.encrypt purpose text = .ok blob) :
    ∃ record, r.toRecord series = .ok record := by
  have hmost : series.keyCount ≤ 15 := hseries.most
  have hpubs := KeyList.length_encodePubs series.pubs
  have hprivs := KeyList.length_encodePrivs_le series.privs
  rw [Series.length_pubs] at hpubs
  rw [Series.length_privs] at hprivs
  have hlimit : (extendedKeyLength + 1) * 15 ≤ KeyCipher.textLimit := by decide
  unfold extendedKeyLength at hpubs hprivs hlimit
  obtain ⟨publicBlob, hpublic⟩ := hseals .publicKeys (KeyList.encodePubs series.pubs) (by omega)
  obtain ⟨privateBlob, hprivate⟩ := hseals .privateKeys (KeyList.encodePrivs series.privs)
    (by omega)
  unfold toRecord
  rw [hpublic, hprivate]
  exact ⟨_, rfl⟩

/-- A series of texts is accepted when its keys are those of the network. -/
theorem seriesOfKeys_of_ofKeys {version : UInt32} {required : UInt8} {texts : List String}
    (hkeys : Series.ofKeys K version required texts = .ok series)
    (haccepts : r.accepts series = true) (id : SeriesId) :
    r.seriesOfKeys K version id required texts = .ok series := by
  unfold seriesOfKeys
  rw [hkeys]
  show (if !r.accepts series then _ else _) = _
  rw [haccepts]
  rfl

/-- Reading a record takes nothing but the opening of blobs. -/
theorem ofRecord_congr {other : KeyCipher} (h : other.decrypt = cipher.decrypt) :
    ofRecord K other = ofRecord K cipher := by
  funext id record
  unfold ofRecord
  rw [h]

/-- A record that is kept for a series and read back as it. -/
def Keeps (K : KeyScheme) (cipher : KeyCipher) (e : SeriesId × Series)
    (kept : SeriesId × SeriesRecord) : Prop :=
  kept.1 = e.1 ∧ ofRecord K cipher e.1 kept.2 = .ok e.2

/-- Records are loaded one after the other into the catalog. -/
theorem loadRecords_eq (hdecrypt : r.cipher.decrypt = cipher.decrypt) {entries : Catalog Series}
    {records : Catalog SeriesRecord} (hkept : List.Forall₂ (Keeps K cipher) entries records)
    (haccepts : ∀ e ∈ entries, r.accepts e.2 = true)
    (hids : (Catalog.ids (r.series ++ entries)).Pairwise fun a b => a.val < b.val) :
    loadRecords K r records = .ok { r with series := r.series ++ entries } := by
  induction hkept generalizing r with
  | nil =>
      rw [List.append_nil]
      rfl
  | @cons e kept entries records hfirst hrest ih =>
      obtain ⟨id, record⟩ := kept
      obtain ⟨rfl, hread⟩ := hfirst
      -- the number of the entry is above those that are loaded already
      have hlast : Catalog.insert e.1 e.2 r.series = r.series ++ [e] := by
        apply Catalog.insert_of_above
        intro other hother
        unfold Catalog.ids at hids
        rw [List.map_append, List.pairwise_append] at hids
        exact hids.2.2 other hother e.1 List.mem_cons_self
      have happend : r.series ++ e :: entries = (r.series ++ [e]) ++ entries := by
        rw [List.append_assoc, List.singleton_append]
      rw [happend] at hids ⊢
      show (ofRecord K r.cipher e.1 record >>= _) = _
      rw [ofRecord_congr hdecrypt, hread, Except.ok_bind]
      dsimp only
      rw [haccepts e List.mem_cons_self, hlast]
      exact ih hdecrypt (fun e' he' => haccepts e' (List.mem_cons_of_mem e he')) hids

/-! ## Agreement -/

/-- **The store has a record for each series in memory**, and it is read back as that series. The
series are numbered from one on, and each of them would be accepted again. -/
structure Mirrored (K : KeyScheme) (pool : String) (network : AddressNetwork) (cipher : KeyCipher)
    (r : Registry) : Prop where
  pool_eq : r.pool = pool
  network_eq : r.network = network
  decrypt_eq : r.cipher.decrypt = cipher.decrypt
  numbered : ∃ count < 2 ^ 32, Catalog.ids r.series = SeriesId.upTo count
  canonical : r.AllCanonical K
  stored : List.Forall₂ (Keeps K cipher) r.series (r.store.records pool)

theorem mirrored_new {store : SeriesStore} (hstore : store.records pool = []) :
    (new pool network cipher store).Mirrored K pool network cipher where
  pool_eq := rfl
  network_eq := rfl
  decrypt_eq := rfl
  numbered := ⟨0, by decide, rfl⟩
  canonical _ h := absurd h List.not_mem_nil
  stored := by
    show List.Forall₂ _ [] (store.records pool)
    rw [hstore]
    exact .nil

theorem Mirrored.increasing (h : r.Mirrored K pool network cipher) :
    (Catalog.ids r.series).Pairwise fun a b => a.val < b.val := by
  obtain ⟨count, hcount, hids⟩ := h.numbered
  rw [hids]
  exact SeriesId.pairwise_upTo hcount

/-- What is loaded from an agreeing store is what is in memory. -/
theorem Mirrored.load_eq (h : r.Mirrored K pool network cipher) {c : KeyCipher}
    (hc : c.decrypt = cipher.decrypt) :
    load K pool network c r.store.working = .ok ⟨pool, network, c, r.store.working, r.series⟩ := by
  have haccepts : ∀ e ∈ r.series, (new pool network c r.store.working).accepts e.2 = true := by
    intro e he
    have haccepts := (h.canonical e he).2
    unfold accepts at haccepts ⊢
    rw [h.network_eq] at haccepts
    exact haccepts
  exact loadRecords_eq (r := new pool network c r.store.working) hc h.stored haccepts h.increasing

/-- Taking over a series with its record keeps memory and store in agreement. -/
theorem Mirrored.holding (h : r.Mirrored K pool network cipher) {change : Change}
    {record : SeriesRecord} (hbrings : Brings K r change id series)
    (hrecord : r.toRecord series = .ok record) (hopens : cipher.Opens r.cipher.encrypt) :
    (r.holding id series record).Mirrored K pool network cipher := by
  obtain ⟨hcanonical, haccepts⟩ := hbrings.canonical fun _ => h.canonical.of_find?
  refine ⟨h.pool_eq, h.network_eq, h.decrypt_eq, ?_, h.canonical.insert hcanonical haccepts, ?_⟩
  · obtain ⟨count, hcount, hids⟩ := h.numbered
    show ∃ count < 2 ^ 32, Catalog.ids (Catalog.insert id series r.series) = _
    -- a number that is known stays where it is, and the next one goes to the end
    rcases hbrings.known_or_next hcount hids with hknown | hnext
    · refine ⟨count, hcount, ?_⟩
      rw [Catalog.ids_insert_of_mem h.increasing hknown, hids]
    · refine ⟨count + 1, hnext ▸ id.val.toNat_lt, ?_⟩
      rw [Catalog.insert_of_above, SeriesId.upTo_succ, ← hids, ← hnext, UInt32.ofNat_toNat]
      · exact List.map_append ..
      · intro other hother
        rw [hids, SeriesId.mem_upTo hcount] at hother
        rw [UInt32.lt_iff_toNat_lt]
        omega
  · have hrecords : (r.holding id series record).store.records pool
        = Catalog.insert id record (r.store.records pool) := by
      unfold Registry.holding SeriesStore.records
      rw [h.pool_eq, OrderedMap.find?_insert, if_pos rfl]
      rfl
    rw [hrecords]
    exact Catalog.forall₂_insert And.left h.stored
      ⟨rfl, ofRecord_of_toRecord hopens hcanonical hrecord⟩

/-- A reload gives the series that were in memory before. -/
theorem Mirrored.reload (h : r.Mirrored K pool network cipher) (failure : Option String) :
    (r.apply K (.reload failure)).Mirrored K pool network cipher
      ∧ (r.apply K (.reload failure)).series = r.series := by
  show ((r.reloaded K failure).toOption.getD r).Mirrored K pool network cipher
    ∧ ((r.reloaded K failure).toOption.getD r).series = r.series
  cases failure with
  | some text => exact ⟨h, rfl⟩
  | none =>
      have hloaded : r.reloaded K none
          = .ok ⟨pool, network, r.cipher, r.store.working, r.series⟩ := by
        unfold reloaded
        rw [h.pool_eq, h.network_eq]
        exact h.load_eq h.decrypt_eq
      rw [hloaded]
      refine ⟨⟨rfl, rfl, h.decrypt_eq, h.numbered, ?_, h.stored⟩, rfl⟩
      rintro e he
      exact ⟨(h.canonical e he).1, h.network_eq ▸ (h.canonical e he).2⟩

theorem mirrored_apply (h : r.Mirrored K pool network cipher) {event : Event}
    (hopens : event.Opens cipher) : (r.apply K event).Mirrored K pool network cipher := by
  cases event with
  | call conditions change =>
      have hunder : (r.under conditions).Mirrored K pool network cipher :=
        ⟨h.pool_eq, h.network_eq, h.decrypt_eq, h.numbered, h.canonical, h.stored⟩
      show ((r.under conditions).change K change).2.Mirrored K pool network cipher
      rcases change_eq K (r.under conditions) change with
        ⟨e, heq⟩ | ⟨id, series, record, hbrings, hrecord, -, heq⟩
      · rw [heq]
        exact hunder
      · rw [heq]
        exact hunder.holding hbrings hrecord hopens
  | reload failure => exact (h.reload failure).1

/-- **Memory and store agree** after any changes and reloads. -/
theorem mirrored_after (h : r.Mirrored K pool network cipher) {events : List Event}
    (hopens : ∀ event ∈ events, event.Opens cipher) :
    (r.after K events).Mirrored K pool network cipher := by
  induction events generalizing r with
  | nil => exact h
  | cons event rest ih =>
      exact ih (mirrored_apply h (hopens event List.mem_cons_self))
        fun other hother => hopens other (List.mem_cons_of_mem event hother)

/-- **Memory and store stay in step.** Whatever happened to a registry that began with an empty
store, loading from its store gives the series that it has in memory, and a change that is refused
alters neither the series nor the store. -/
theorem lockstep {store : SeriesStore} (hstore : store.records pool = []) {events : List Event}
    (hopens : ∀ event ∈ events, event.Opens cipher)
    (hr : (new pool network cipher store).after K events = r) :
    load K pool network cipher r.store.working
        = .ok ⟨pool, network, cipher, r.store.working, r.series⟩
      ∧ ∀ conditions change e r', (r.under conditions).change K change = (.error e, r') →
          r'.series = r.series ∧ r'.store.pools = r.store.pools := by
  have hmirrored : r.Mirrored K pool network cipher := by
    rw [← hr]
    exact mirrored_after (mirrored_new hstore) hopens
  refine ⟨hmirrored.load_eq rfl, ?_⟩
  intro conditions change e r' hchange
  rcases change_eq K (r.under conditions) change with ⟨_, heq⟩ | ⟨_, _, _, -, -, -, heq⟩
  · cases hchange.symm.trans heq
    exact ⟨rfl, rfl⟩
  · cases hchange.symm.trans heq

end Registry

/-! ### A run with a failing medium -/

namespace Registry.Sample

open Round (Shared.pub Shared.second Shared.third Shared.series Shared.first)

def secrets : KeyCipher := .xchacha (.replicate 32 1) (.replicate 32 2) []

/-- Each change seals its blobs with a nonce of its own. -/
def sealing (nonce : UInt8) : BlobPurpose → Bytes → Except CipherError Bytes :=
  fun purpose => (KeyCipher.xchacha (.replicate 32 1) (.replicate 32 2)
    (.replicate KeyCipher.nonceLength nonce)).encrypt purpose

/-- Three keys in the order of their texts. -/
def keys : List Xpub :=
  [Shared.pub Round.Sample.key, Shared.pub Shared.second, Shared.pub Shared.third]

def texts : List String := keys.map Xpub.toText

def privateText : String := Shared.first.toText

def failing : Event := .call ⟨some "disk full", sealing 1⟩ (.create 1 ⟨1⟩ 2 texts)

def creating : Event := .call ⟨none, sealing 2⟩ (.create 1 ⟨1⟩ 2 texts)

def empowering : Event := .call ⟨none, sealing 3⟩ (.empower ⟨1⟩ privateText)

/-- The medium fails once, and the registry is loaded anew before a private key is attached. -/
def events : List Event := [failing, creating, .reload none, empowering]

def start : Registry := new "pool" .regtest secrets .empty

theorem opens {event : Event} (h : event ∈ events) : event.Opens secrets := by
  have hsealing : ∀ nonce, secrets.Opens (sealing nonce) := fun nonce =>
    KeyCipher.xchacha_opens _ _ _ fun _ => List.length_replicate
  simp only [events, List.mem_cons, List.not_mem_nil, or_false] at h
  rcases h with rfl | rfl | rfl | rfl
  · exact hsealing 1
  · exact hsealing 2
  · trivial
  · exact hsealing 3

def plain : Series := Shared.series none none

def settled : Series := Shared.series (some Shared.first) none

theorem parsed : List.Forall₂ (fun text key => Series.parsePub text = .ok key) texts keys :=
  List.forall₂_map_left_iff.mpr (List.forall₂_same.mpr fun key _ => Series.parsePub_toText key)

theorem isIncreasing_keys : Series.isIncreasing texts = true := by
  decide +kernel

theorem canonical_plain : plain.Canonical K where
  fewest := Nat.le_refl 3
  most := show 3 ≤ 15 by decide
  positive := show (2 : UInt8) ≠ 0 by decide
  enough := show 2 ≤ 3 by decide
  distinct := Series.nodup_of_isIncreasing isIncreasing_keys
  owned := by
    intro slot hslot priv hpriv
    have hnone : slot.priv ∈ [none, none, none] := List.mem_map.mpr ⟨slot, hslot, rfl⟩
    rw [hpriv] at hnone
    simp at hnone
  known := rfl
  increasing := Series.pairwise_of_isIncreasing isIncreasing_keys

theorem ofKeys_texts : Series.ofKeys K 1 2 texts = .ok plain := by
  rw [Series.ofKeys_of_increasing parsed (canonical_plain (K := K)).increasing]
  exact canonical_plain.ofParts_eq

theorem seriesOfKeys_texts {r : Registry} (hnetwork : r.network = .regtest) (id : SeriesId) :
    r.seriesOfKeys K 1 id 2 texts = .ok plain := by
  refine seriesOfKeys_of_ofKeys ofKeys_texts ?_ id
  unfold accepts
  rw [hnetwork]
  rfl

theorem toRecord_isOk {r : Registry} {nonce : UInt8} (hseals : r.cipher.encrypt = sealing nonce)
    {series : Series} (hseries : series.WellFormed K) :
    ∃ record, r.toRecord series = .ok record := by
  refine Registry.toRecord_isOk hseries ?_
  rw [hseals]
  exact fun purpose _ h => KeyCipher.encryptWith_isOk _ _ purpose h

/-- What is brought about on a medium that works is in memory afterwards. -/
theorem series_apply {r : Registry} {nonce : UInt8} {change : Change} {id : SeriesId}
    {series : Series} (h : Brings K r change id series) (hseries : series.WellFormed K) :
    (r.apply K (.call ⟨none, sealing nonce⟩ change)).series
      = Catalog.insert id series r.series := by
  obtain ⟨record, hrecord⟩ := toRecord_isOk (r := r.under ⟨none, sealing nonce⟩) rfl hseries
  show ((r.under ⟨none, sealing nonce⟩).change K change).2.series = _
  rw [(h.under ⟨none, sealing nonce⟩).change_eq hrecord rfl]
  rfl

theorem series_created : ((start.apply K failing).apply K creating).series = [(⟨1⟩, plain)] := by
  have hfailed : start.apply K failing = start.under ⟨some "disk full", sealing 1⟩ :=
    apply_of_failure rfl _
  rw [hfailed]
  exact series_apply (.created rfl (seriesOfKeys_texts rfl _)) canonical_plain.toWellFormed

section Empowered

variable (hneuter : K.neuter? Shared.first = some (Shared.pub Round.Sample.key))
include hneuter

theorem empower_privateText : plain.empower K privateText = .ok (0, settled) := by
  refine Series.empower_toText ?_
  rw [hneuter]
  show plain.position? (Shared.pub Round.Sample.key) = some 0
  decide

theorem canonical_settled : settled.Canonical K := by
  obtain ⟨key, pub, -, hkey, hposition, heq⟩ := Series.of_empower (empower_privateText hneuter)
  rw [heq]
  exact canonical_plain.attach hkey hposition

theorem series_after : (start.after K events).series = [(⟨1⟩, settled)] := by
  have hmirrored : ((start.apply K failing).apply K creating).Mirrored K "pool" .regtest secrets :=
    mirrored_apply (mirrored_apply (mirrored_new rfl) (opens (by simp [events])))
      (opens (by simp [events]))
  have hreloaded := (hmirrored.reload none).2.trans series_created
  generalize hloaded : ((start.apply K failing).apply K creating).apply K (.reload none) = loaded
    at hreloaded
  have hfound : loaded.find? ⟨1⟩ = some plain := by
    unfold find?
    rw [hreloaded]
    rfl
  rw [events, after_cons, after_cons, after_cons, after_cons, after_nil, hloaded, empowering,
    series_apply (.empowered hfound (empower_privateText hneuter))
      (canonical_settled hneuter).toWellFormed, hreloaded]
  rfl

theorem find?_after : (start.after K events).find? ⟨1⟩ = some settled := by
  unfold find?
  rw [series_after hneuter]
  rfl

end Empowered

end Registry.Sample

open Registry Registry.Sample in
/-- The medium failed once, and the rest of the run is in memory and in the store. -/
theorem Registry.lockstep_after_failure :
    let r := start.after .secp256k1 events
    r.series = [(⟨1⟩, settled)]
      ∧ load .secp256k1 "pool" .regtest secrets r.store.working
          = .ok ⟨"pool", .regtest, secrets, r.store.working, r.series⟩
      ∧ ∀ conditions change e r', (r.under conditions).change .secp256k1 change = (.error e, r') →
          r'.series = r.series ∧ r'.store.pools = r.store.pools := by
  have hempty : SeriesStore.empty.records "pool" = [] := rfl
  have hneuter : KeyScheme.secp256k1.neuter? Round.Shared.first
      = some (Round.Shared.pub Round.Sample.key) := by
    decide +kernel
  exact ⟨series_after hneuter, lockstep hempty (fun _ => opens) rfl⟩

end NotaryPool
