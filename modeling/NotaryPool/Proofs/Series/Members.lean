import NotaryPool.Proofs.Series.Branches
import NotaryPool.Proofs.Series.WellFormed

/-!
# The members of a pool

All members of a pool know the same series, each with the private keys of its own. An address of the
pool is therefore one for each of them, and its keys are children of the keys of the member's series
in the order of the branch.

## Contents

* `Series.Holds`: the keys whose private part is attached.
* `SeriesBook.MemberOf`: a member of a pool.
* `PoolAddress.proper_of_derive`: the redeem script of an address can be met.
* `SeriesBook.Derives`, `SeriesBook.MemberOf.derives`: **a member derives each address of the
  pool.**
-/

namespace NotaryPool

variable {K : KeyScheme}

/-! ## Private keys of a series -/

namespace Series

variable {s : Series} {key : Xpub}

/-- The private part of a public key is attached. -/
def Holds (s : Series) (key : Xpub) : Prop := ∃ slot ∈ s.slots, slot.pub = key ∧ slot.priv.isSome

/-- A private key that is found belongs to the public key. -/
theorem WellFormed.neuter_of_found (h : s.WellFormed K) {priv : Xpriv}
    (hfound : s.privateKeyFor? key = some priv) : K.neuter? priv = some key := by
  obtain ⟨slot, hslot, hpriv⟩ := Option.bind_eq_some_iff.mp hfound
  have hpub : slot.pub = key := by simpa using List.find?_some hslot
  rw [← hpub]
  exact h.owned slot (List.mem_of_find?_eq_some hslot) priv hpriv

/-- A private key is found just when it is attached. -/
theorem WellFormed.privateKeyFor?_eq_none_iff (h : s.WellFormed K) :
    s.privateKeyFor? key = none ↔ ¬ s.Holds key := by
  unfold privateKeyFor? Holds
  constructor
  · rintro hnone ⟨slot, hslot, rfl, hpriv⟩
    have hfound : s.slots.find? (·.pub = slot.pub) = some slot := find?_key h.distinct hslot
    rw [hfound] at hnone
    have hpriv' : slot.priv = none := hnone
    rw [hpriv'] at hpriv
    cases hpriv
  · intro hmissing
    apply Option.bind_eq_none_iff.mpr
    intro slot hslot
    by_contra hpriv
    exact hmissing ⟨slot, List.mem_of_find?_eq_some hslot, by simpa using List.find?_some hslot,
      Option.isSome_iff_ne_none.mpr hpriv⟩

end Series

/-! ## Public series -/

/-- A series without its private keys. -/
def Series.bare (s : Series) : Series :=
  { s with slots := s.slots.map fun slot => { slot with priv := none } }

theorem Series.pubs_bare (s : Series) : s.bare.pubs = s.pubs := by
  unfold Series.pubs Series.bare
  rw [List.map_map]
  rfl

namespace SeriesBook

variable {b pool : SeriesBook}

/-- A book without private keys. -/
def bare (b : SeriesBook) : SeriesBook := ⟨b.network, fun id => (b.find? id).map Series.bare⟩

/-- A member of a pool: its series keep their rules, and are those of the pool but for the private
keys that it has. -/
structure MemberOf (K : KeyScheme) (b pool : SeriesBook) : Prop where
  bare_eq : b.bare = pool
  wellFormed : b.WellFormed K

end SeriesBook

/-! ## Addresses -/

theorem childKey_eq_ok_iff {key : Xpub} {index : Index} {child : PublicKey} :
    childKey K key index = .ok child
      ↔ index.isUnhardened = true ∧ K.childPublic? key index.val = some child := by
  unfold childKey
  split
  · rename_i hindex
    cases K.childPublic? key index.val with
    | none => simp
    | some other => simp [hindex]
  · rename_i hindex
    simp [hindex]

/-- An address is made from the public keys of a series, one child for each. -/
theorem PoolAddress.ofKeys_eq_ok_iff {id : SeriesId} {required : UInt8} {xpubs : List Xpub}
    {branch : Branch} {index : Index} {network : AddressNetwork} {a : PoolAddress} :
    PoolAddress.ofKeys K id required xpubs branch index network = .ok a
      ↔ ∃ ordered keys, branchOrder xpubs branch = .ok ordered
        ∧ List.Forall₂ (fun key child => childKey K key index = .ok child) ordered keys
        ∧ a = ⟨id, branch, index, required, network, xpubs, keys⟩ := by
  unfold PoolAddress.ofKeys
  cases branchOrder xpubs branch with
  | error e => simp
  | ok ordered =>
      constructor
      · intro h
        dsimp only at h
        split at h
        · cases h
        · rename_i keys hkeys
          cases h
          exact ⟨ordered, keys, rfl, mapM_eq_ok_iff.mp hkeys, rfl⟩
      · rintro ⟨ordered', keys, horder, hkeys, rfl⟩
        cases horder
        simp only [mapM_eq_ok_iff.mpr hkeys]

/-- An address has the place and the keys that it was asked for with. -/
theorem SeriesBook.poolAddress_eq_ok_iff {b : SeriesBook} {id : SeriesId} {branch : Branch}
    {index : Index} {a : PoolAddress} :
    b.poolAddress K id branch index = .ok a
      ↔ ∃ series ordered keys, b.find? id = some series
          ∧ branchOrder series.pubs branch = .ok ordered
          ∧ List.Forall₂ (fun key child => childKey K key index = .ok child) ordered keys
          ∧ a = ⟨id, branch, index, series.required, b.network, series.pubs, keys⟩ := by
  unfold poolAddress PoolAddress.derive
  cases b.find? id with
  | none => simp
  | some series =>
      dsimp only
      rw [PoolAddress.ofKeys_eq_ok_iff]
      simp

/-- The threshold of a series can be met by the children of its keys, and a redeem script can count
them. -/
theorem Series.WellFormed.proper {s : Series} (h : s.WellFormed K) {branch : Branch}
    {ordered : List Xpub} {keys : List PublicKey} {R : Xpub → PublicKey → Prop}
    (horder : branchOrder s.pubs branch = .ok ordered) (hkeys : List.Forall₂ R ordered keys) :
    Multisig.Proper s.required keys := by
  have hcount : keys.length = s.keyCount := by
    rw [← hkeys.length_eq, (branchOrder_perm horder).length_eq]
    exact List.length_map ..
  refine ⟨h.positive, ?_, ?_⟩
  · rw [hcount]
    exact h.enough
  · rw [hcount]
    exact Nat.le_trans h.most (by decide)

/-- An address that a series derives has a redeem script that can be met. -/
theorem PoolAddress.proper_of_derive {id : SeriesId} {series : Series} {branch : Branch}
    {index : Index} {network : AddressNetwork} {a : PoolAddress} (h : series.WellFormed K)
    (ha : PoolAddress.derive K id series branch index network = .ok a) :
    Multisig.Proper a.required a.keys := by
  obtain ⟨ordered, keys, horder, hkeys, rfl⟩ := ofKeys_eq_ok_iff.mp ha
  exact h.proper horder hkeys

namespace SeriesBook

variable {b pool : SeriesBook} {a : PoolAddress}

/-- A book derives an address from a series of its own, whose keys stand in the given order. -/
structure Derives (K : KeyScheme) (b : SeriesBook) (a : PoolAddress) (series : Series)
    (ordered : List Xpub) : Prop where
  found : b.find? a.series = some series
  wellFormed : series.WellFormed K
  required : a.required = series.required
  order : branchOrder series.pubs a.branch = .ok ordered
  unhardened : a.index.isUnhardened = true
  children : List.Forall₂ (fun key child => K.childPublic? key a.index.val = some child) ordered
    a.keys

/-- **A member derives each address of the pool**, from the series that it has itself. -/
theorem MemberOf.derives (hmember : b.MemberOf K pool)
    (ha : pool.poolAddress K a.series a.branch a.index = .ok a) :
    ∃ series ordered, b.Derives K a series ordered := by
  obtain ⟨rfl, hwellFormed⟩ := hmember
  unfold poolAddress at ha
  split at ha
  · rename_i bared hbared
    obtain ⟨series, hfound, rfl⟩ := Option.map_eq_some_iff.mp hbared
    obtain ⟨ordered, keys, horder, hkeys, heq⟩ := PoolAddress.ofKeys_eq_ok_iff.mp ha
    have hrequired : a.required = series.required := congrArg PoolAddress.required heq
    obtain rfl : a.keys = keys := congrArg PoolAddress.keys heq
    rw [Series.pubs_bare] at horder
    have hseries := hwellFormed a.series series hfound
    have hpositive : ordered ≠ [] := by
      rintro rfl
      have hcount : [].length = series.pubs.length := (branchOrder_perm horder).length_eq
      have hfewest := hseries.fewest
      unfold Series.keyCount Series.minKeys at hfewest
      unfold Series.pubs at hcount
      rw [List.length_map, List.length_nil] at hcount
      omega
    refine ⟨series, ordered, hfound, hseries, hrequired, horder, ?_, ?_⟩
    · obtain ⟨key, rest, rfl⟩ := List.exists_cons_of_ne_nil hpositive
      obtain ⟨child, others, hfirst, -, -⟩ := List.forall₂_cons_left_iff.mp hkeys
      exact (childKey_eq_ok_iff.mp hfirst).1
    · exact hkeys.imp fun _ _ h => (childKey_eq_ok_iff.mp h).2
  · cases ha

namespace Derives

variable {series : Series} {ordered : List Xpub}

/-- The threshold of an address can be met, and its redeem script can count its keys. -/
theorem proper (h : b.Derives K a series ordered) : Multisig.Proper a.required a.keys := by
  rw [h.required]
  exact h.wellFormed.proper h.order h.children

end Derives

end SeriesBook

/-! ## Registries of members -/

namespace Registry

/-- A registry whose one series keeps the rules is that of a member. -/
theorem memberOf_single {r : Registry} {id : SeriesId} {series : Series}
    (hr : r.series = [(id, series)]) (hseries : series.WellFormed K) :
    r.book.MemberOf K r.book.bare := by
  refine ⟨rfl, ?_⟩
  intro other found hfound
  have hone : Catalog.find? r.series other = some found := hfound
  rw [hr] at hone
  obtain ⟨-, hsame⟩ := Option.ite_none_right_eq_some.mp hone
  rw [← Option.some.inj hsame]
  exact hseries

end Registry

end NotaryPool
