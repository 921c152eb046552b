import NotaryPool.Proofs.Series.Branches
import NotaryPool.Proofs.Series.KeyOrder
import NotaryPool.Proofs.Series.Members
import NotaryPool.Proofs.Withdrawal.Order
import NotaryPool.Proofs.Withdrawal.Selection

/-!
# Which outputs a selection offers twice

A selection refuses two credits for one output at one place. It does not refuse them at two places,
so the question is which two places of a pool have the same script. Unless a hash or the derivation
of keys collides, they list the same keys in the order of their branches, at the same index and with
the same threshold. The rules of series allow that in two ways. Two series may have the same keys,
and a series may have two extended keys that differ in their labels only: the place in a tree, which
has no part in their children. In both cases the outputs are offered twice.

## Contents

* `pairwise_lt_of_adjacent`: sorted things without equal neighbours are distinct.
* `Xpub.material`: what the children of a key depend on.
* `PoolAddress.HashClash`, `PoolAddress.ChildClash`, `PoolAddress.SharesKeys`: two places with one
  script.
* `SeriesBook.clash_or_shares_keys`: **there are no other such places.**
* `PoolAddress.Twins`, `PoolAddress.Copies`, `SeriesBook.twins_or_copies`: places that share keys.
* `Selection.offered_once_but_for_shared_keys`: **an output is offered once, but for these.**
* `Selection.offered_twice`: twins and copies do have their outputs offered twice.
-/

namespace NotaryPool

open Std

variable {K : KeyScheme}

/-! ## Sorted things without equal neighbours -/

/-- Sorted things of which no two neighbours are equal are strictly sorted. -/
theorem pairwise_lt_of_adjacent {α : Type} (cmp : α → α → Ordering) [TransCmp cmp] {as : List α}
    (hsorted : as.Pairwise fun a b => (cmp a b).isLE = true)
    (hadjacent : Series.adjacent? (fun a b => cmp a b == .eq) as = none) :
    as.Pairwise fun a b => cmp a b = .lt := by
  induction as with
  | nil => exact .nil
  | cons a rest ih =>
      cases rest with
      | nil => exact List.pairwise_singleton _ a
      | cons b rest =>
          obtain ⟨hfirst, hrest⟩ := List.pairwise_cons.mp hsorted
          unfold Series.adjacent? at hadjacent
          split at hadjacent
          · cases hadjacent
          · rename_i hother
            have hle := hfirst b List.mem_cons_self
            have hlt : cmp a b = .lt := by
              cases hab : cmp a b with
              | lt => rfl
              | eq => exact absurd (by rw [hab]; rfl) hother
              | gt =>
                  rw [hab] at hle
                  cases hle
            have hstrict := ih hrest hadjacent
            refine List.pairwise_cons.mpr ⟨?_, hstrict⟩
            intro c hc
            rcases List.mem_cons.mp hc with rfl | hlater
            · exact hlt
            · exact TransCmp.lt_trans hlt ((List.pairwise_cons.mp hstrict).1 c hlater)

/-- A selection that goes well has no two credits for one output at one place. -/
theorem Selection.pairwise_key_ne {book : SeriesBook} {unspent : List UnspentOutput}
    {ranges : List AddressRange} {rules : Eligibility} {credits : List PoolCredit}
    (h : eligible K book unspent ranges rules = .ok credits) :
    credits.Pairwise fun c c' => c.key ≠ c'.key := by
  obtain ⟨-, found, -, hadjacent, rfl⟩ := eligible_eq_ok_iff.mp h
  refine (pairwise_lt_of_adjacent PoolCredit.order
    (pairwise_mergeSort_of_transCmp PoolCredit.order found) hadjacent).imp ?_
  intro c c' hlt hkey
  rw [PoolCredit.order_of_key_eq hkey] at hlt
  cases hlt

/-! ## Places with the same script -/

/-- What the children of a key depend on: the key and its chain code, but not its labels. -/
def Xpub.material (key : Xpub) : PublicKey × Hash256 := (key.key, key.lineage.chainCode)

/-- In the scheme of the chain the labels of a key have no part in its children. -/
theorem childKey_congr_material {key key' : Xpub} (h : key.material = key'.material)
    (index : Index) : childKey .secp256k1 key index = childKey .secp256k1 key' index := by
  obtain ⟨hkey, hcode⟩ := Prod.mk.inj h
  unfold childKey KeyScheme.secp256k1
  simp only [hkey, hcode]

namespace PoolAddress

/-- Two redeem scripts that differ and have the same hash. -/
def HashClash (a b : PoolAddress) : Prop :=
  a.redeem ≠ b.redeem ∧ Ripemd160.keyHash a.redeem = Ripemd160.keyHash b.redeem

/-- Two keys at one place in the order of the branches, which have the same child although they or
the indexes of the children differ. Labels do not count as a difference. -/
def ChildClash (K : KeyScheme) (a b : PoolAddress) : Prop :=
  ∃ ordered ordered' : List Xpub, branchOrder a.xpubs a.branch = .ok ordered
    ∧ branchOrder b.xpubs b.branch = .ok ordered'
    ∧ ∃ (no : Nat) (key key' : Xpub), ordered[no]? = some key ∧ ordered'[no]? = some key'
        ∧ (key.material, a.index) ≠ (key'.material, b.index)
        ∧ ∃ child, childKey K key a.index = .ok child ∧ childKey K key' b.index = .ok child

/-- The same index and the same threshold, and but for their labels the same keys in the order of
the branches. -/
structure SharesKeys (a b : PoolAddress) : Prop where
  index : a.index = b.index
  required : a.required = b.required
  materials : ∃ ordered ordered' : List Xpub, branchOrder a.xpubs a.branch = .ok ordered
    ∧ branchOrder b.xpubs b.branch = .ok ordered'
    ∧ ordered.map Xpub.material = ordered'.map Xpub.material

/-- The same branch of two series that have the same keys. -/
structure Twins (a b : PoolAddress) : Prop where
  series : a.series ≠ b.series
  branch : a.branch = b.branch
  xpubs : a.xpubs = b.xpubs

/-- Different branches or series, with two keys that differ in their labels only. -/
structure Copies (a b : PoolAddress) : Prop where
  elsewhere : (a.series, a.branch) ≠ (b.series, b.branch)
  relabelled : ∃ key ∈ a.xpubs, ∃ key' ∈ b.xpubs, key ≠ key' ∧ key.material = key'.material

/-- Equal scripts come from equal redeem scripts, but for a clash of hashes. -/
theorem redeem_eq_or_clash {a b : PoolAddress} (h : a.script = b.script) :
    a.redeem = b.redeem ∨ HashClash a b := by
  by_cases hredeem : a.redeem = b.redeem
  · exact Or.inl hredeem
  · have hhash := ScriptHash.hash?_eq_some_iff.mpr (rfl : a.script = ScriptHash.script _)
    rw [h, ScriptHash.hash?_eq_some_iff.mpr (rfl : b.script = ScriptHash.script _)] at hhash
    exact Or.inr ⟨hredeem, (Option.some.inj hhash).symm⟩

end PoolAddress

/-- Two lists with the same images agree but for what `f` leaves out, or there is a first place
where they do not. -/
theorem map_eq_or_differ {α β γ : Type} {R S : α → β → Prop} (f : α → γ) {as bs : List α}
    {cs : List β} (has : List.Forall₂ R as cs) (hbs : List.Forall₂ S bs cs) :
    as.map f = bs.map f
      ∨ ∃ (no : Nat) (a b : α), as[no]? = some a ∧ bs[no]? = some b ∧ f a ≠ f b
          ∧ ∃ c, R a c ∧ S b c := by
  induction has generalizing bs with
  | nil =>
      rw [List.forall₂_nil_right_iff.mp hbs]
      exact Or.inl rfl
  | @cons a c as cs hac _ ih =>
      obtain ⟨b, bs, hbc, hrest, rfl⟩ := List.forall₂_cons_right_iff.mp hbs
      by_cases hsame : f a = f b
      · rcases ih hrest with hmap | ⟨no, a', b', ha', hb', hdiffer⟩
        · exact Or.inl (by rw [List.map_cons, List.map_cons, hsame, hmap])
        · exact Or.inr ⟨no + 1, a', b', ha', hb', hdiffer⟩
      · exact Or.inr ⟨0, a, b, rfl, rfl, hsame, c, hac, hbc⟩

/-- Two lists with the same images under `f` are the same, or have two members that differ and have
the same image. -/
theorem eq_or_exists_ne {α γ : Type} (f : α → γ) {as bs : List α} (h : as.map f = bs.map f) :
    as = bs ∨ ∃ a ∈ as, ∃ b ∈ bs, a ≠ b ∧ f a = f b := by
  induction as generalizing bs with
  | nil => exact Or.inl (List.map_eq_nil_iff.mp h.symm).symm
  | cons a as ih =>
      obtain ⟨b, bs, rfl, hsame, hrest⟩ := List.map_eq_cons_iff.mp h.symm
      by_cases heq : a = b
      · rcases ih hrest.symm with rfl | ⟨a', ha', b', hb', hdiffer⟩
        · exact Or.inl (by rw [heq])
        · exact Or.inr ⟨a', List.mem_cons_of_mem a ha', b', List.mem_cons_of_mem b hb', hdiffer⟩
      · exact Or.inr ⟨a, List.mem_cons_self, b, List.mem_cons_self, heq, hsame.symm⟩

/-- Keys in the order of their texts are given by which keys they are. -/
theorem Series.pubs_eq_of_perm {s s' : Series} (hs : s.Canonical K) (hs' : s'.Canonical K)
    (h : s.pubs.Perm s'.pubs) : s.pubs = s'.pubs := by
  refine List.Perm.eq_of_pairwise ?_ (List.pairwise_map.mp hs.increasing)
    (List.pairwise_map.mp hs'.increasing) h
  intro a b _ _ hab hba
  exact absurd (String.lt_trans hab hba) (String.lt_irrefl _)

namespace SeriesBook

variable {b : SeriesBook} {a a' : PoolAddress} {id id' : SeriesId} {branch branch' : Branch}
  {index index' : Index}

/-- **Two addresses with the same script** share their keys, unless hashes or keys clash. -/
theorem clash_or_shares_keys
    (hb : ∀ id series, b.find? id = some series → series.Canonical K)
    (ha : b.poolAddress K id branch index = .ok a)
    (ha' : b.poolAddress K id' branch' index' = .ok a') (hscript : a.script = a'.script) :
    a.HashClash a' ∨ a.ChildClash K a' ∨ a.SharesKeys a' := by
  obtain ⟨s, ordered, keys, hfound, horder, hkeys, rfl⟩ := poolAddress_eq_ok_iff.mp ha
  obtain ⟨s', ordered', keys', hfound', horder', hkeys', rfl⟩ := poolAddress_eq_ok_iff.mp ha'
  have hs := (hb id s hfound).toWellFormed
  have hs' := (hb id' s' hfound').toWellFormed
  rcases PoolAddress.redeem_eq_or_clash hscript with hredeem | hclash
  · right
    obtain ⟨hrequired, rfl⟩ := Multisig.encode_inj (hs.proper horder hkeys)
      (hs'.proper horder' hkeys') hredeem
    -- the children are the same one by one, so either are the keys or there is a clash
    rcases map_eq_or_differ (fun key => (key.material, index)) hkeys hkeys' with
      hmap | ⟨no, key, key', hkey, hkey', hdiffer, child, hchild, hchild'⟩
    · by_cases hindex : index = index'
      · refine Or.inr ⟨hindex, hrequired, ordered, ordered', horder, horder', ?_⟩
        have hmaterials := congrArg (List.map Prod.fst) hmap
        rwa [List.map_map, List.map_map] at hmaterials
      · obtain ⟨key, rest, rfl⟩ : ∃ key rest, ordered = key :: rest := by
          apply List.exists_cons_of_length_pos
          rw [(branchOrder_perm horder).length_eq, s.length_pubs]
          exact Nat.lt_of_lt_of_le (by decide) hs.fewest
        obtain ⟨child, _, hchild, -, rfl⟩ := List.forall₂_cons_left_iff.mp hkeys
        obtain ⟨key', rest', hchild', -, rfl⟩ := List.forall₂_cons_right_iff.mp hkeys'
        exact Or.inl ⟨_, _, horder, horder', 0, key, key', rfl, rfl,
          fun h => hindex (congrArg Prod.snd h), child, hchild, hchild'⟩
    · refine Or.inl ⟨ordered, ordered', horder, horder', no, key, key', hkey, hkey', ?_, child,
        hchild, hchild'⟩
      exact fun h => hdiffer (congrArg (·, index) (congrArg Prod.fst h))
  · exact Or.inl hclash

/-- **Places that share their keys** are the same branch of twins, or two of the keys are copies of
each other. -/
theorem twins_or_copies (hb : ∀ id series, b.find? id = some series → series.Canonical K)
    (ha : b.poolAddress K id branch index = .ok a)
    (ha' : b.poolAddress K id' branch' index' = .ok a') (hshares : a.SharesKeys a')
    (helsewhere : (a.series, a.branch) ≠ (a'.series, a'.branch)) : a.Twins a' ∨ a.Copies a' := by
  obtain ⟨s, _, keys, hfound, -, -, rfl⟩ := poolAddress_eq_ok_iff.mp ha
  obtain ⟨s', _, keys', hfound', -, -, rfl⟩ := poolAddress_eq_ok_iff.mp ha'
  obtain ⟨ordered, ordered', horder, horder', hmaterials⟩ := hshares.materials
  have hs := hb id s hfound
  have hperm := branchOrder_perm horder
  have hperm' := branchOrder_perm horder'
  rcases eq_or_exists_ne Xpub.material hmaterials with
    rfl | ⟨key, hkey, key', hkey', hdiffer, hmaterial⟩
  · left
    have hpubs : s.pubs = s'.pubs :=
      Series.pubs_eq_of_perm hs (hb id' s' hfound') (hperm.symm.trans hperm')
    have hcount : 3 ≤ s.pubs.length := by
      rw [s.length_pubs]
      exact hs.fewest
    have hbranch : branch = branch' := by
      refine branchOrder_injective hs.distinct hcount horder ?_
      rw [hpubs]
      exact horder'
    refine ⟨fun hseries => helsewhere ?_, hbranch, hpubs⟩
    exact Prod.ext hseries hbranch
  · exact Or.inr ⟨helsewhere, key, hperm.mem_iff.mp hkey, key', hperm'.mem_iff.mp hkey', hdiffer,
      hmaterial⟩

end SeriesBook

/-! ## Selections -/

namespace Selection

variable {book : SeriesBook} {unspent : List UnspentOutput} {ranges : List AddressRange}
  {rules : Eligibility} {credits : List PoolCredit}

/-- Two credits for one output lie at addresses with the same script. -/
theorem script_eq_of_outpoint_eq (hunspent : (unspent.map (·.outpoint)).Nodup) {c c' : PoolCredit}
    (hc : Selected K book unspent ranges rules c) (hc' : Selected K book unspent ranges rules c')
    (houtpoint : c.outpoint = c'.outpoint) : c.address.script = c'.address.script := by
  obtain ⟨output, houtput, hscript, heq⟩ := hc.stored
  obtain ⟨output', houtput', hscript', heq'⟩ := hc'.stored
  have hsame : output.outpoint = output'.outpoint := by
    rw [heq, heq'] at houtpoint
    exact houtpoint
  rw [← hscript, ← hscript', List.inj_on_of_nodup_map hunspent houtput houtput' hsame]

/-- **An output is offered once, but for places that share keys.** A selection over a registry that
began empty offers an output in two credits only at the same index and threshold, where but for
their labels the same keys stand in the order of the branches, unless hashes or keys clash. Then
either it is the same branch of two series with the same keys, or two of the keys are copies of each
other that differ in their labels. -/
theorem offered_once_but_for_shared_keys {pool : String} {network : AddressNetwork}
    {cipher : KeyCipher} {store : SeriesStore} {events : List Registry.Event} {r : Registry}
    (hr : (Registry.new pool network cipher store).after K events = r)
    (hunspent : (unspent.map (·.outpoint)).Nodup)
    (h : eligible K r.book unspent ranges rules = .ok credits) :
    credits.Pairwise fun c c' => c.outpoint = c'.outpoint →
      c.address.HashClash c'.address ∨ c.address.ChildClash K c'.address
        ∨ c.address.SharesKeys c'.address
            ∧ (c.address.Twins c'.address ∨ c.address.Copies c'.address) := by
  have hcanonical : r.AllCanonical K := by
    rw [← hr]
    exact Registry.allCanonical_after (fun _ h => absurd h List.not_mem_nil) events
  have hrules : ∀ id series, r.book.find? id = some series → series.Canonical K :=
    fun _ _ hfound => (hcanonical.of_find? hfound).1
  have hselected := selected_of_eligible h
  refine (pairwise_key_ne h).imp_of_mem ?_
  intro c c' hc hc' hkey houtpoint
  obtain ⟨range, -, branch, index, -, ha⟩ := (hselected c hc).located
  obtain ⟨range', -, branch', index', -, ha'⟩ := (hselected c' hc').located
  have hscript := script_eq_of_outpoint_eq hunspent (hselected c hc) (hselected c' hc') houtpoint
  rcases SeriesBook.clash_or_shares_keys hrules ha ha' hscript with hhash | hchild | hshares
  · exact Or.inl hhash
  · exact Or.inr (Or.inl hchild)
  · refine Or.inr (Or.inr ⟨hshares, SeriesBook.twins_or_copies hrules ha ha' hshares ?_⟩)
    -- at one place the two credits would have been refused
    intro hsame
    obtain ⟨hseries, hbranch⟩ := Prod.mk.inj hsame
    apply hkey
    unfold PoolCredit.key
    rw [hseries, hshares.index, hbranch, houtpoint]

end Selection

/-! ### Two places for one output

The first registry has two series with the same keys. The second one has a single series, two keys
of which differ in their labels only. -/

namespace Selection.Sample

open Registry.Sample (start creating sealing secrets texts plain seriesOfKeys_texts
  canonical_plain series_apply)
open Round (Shared.pub Shared.second Shared.address Shared.children Shared.childKeys)
open KeyScheme (secp256k1)

def rules : Eligibility := ⟨0, 1, 1, none⟩

/-- The range of one position. -/
def rangeAt (a : PoolAddress) : AddressRange := ⟨a.series, a.branch, a.branch, a.index, a.index⟩

/-- An unspent output at an address. -/
def outputAt (a : PoolAddress) : UnspentOutput :=
  ⟨⟨Vector.replicate 32 1, 0⟩, 5000, a.script, some 1⟩

section Pair

variable {book : SeriesBook} {a b : PoolAddress}

theorem creditsIn_rangeAt (ha : book.poolAddress secp256k1 a.series a.branch a.index = .ok a)
    (hscript : a.script = b.script) :
    creditsIn secp256k1 book [outputAt b] rules (rangeAt a) = .ok [.ofUnspent (outputAt b) a] := by
  have hposition : (rangeAt a).positionAt 0 = (a.branch, a.index) := by
    unfold rangeAt AddressRange.positionAt AddressRange.branchAt AddressRange.indexAt
    simp
  have hone : (rangeAt a).count = 1 := by
    unfold rangeAt AddressRange.count AddressRange.branchCount AddressRange.indexCount
    simp
  rw [creditsIn_of_single hone (by rw [hposition]; exact ha), creditsAt_eq_map]
  · rfl
  · intro o ho
    rw [List.mem_singleton.mp ho]
    exact ⟨hscript.symm, rfl⟩

theorem isProper_rangeAt (a : PoolAddress) : (rangeAt a).isProper = true :=
  AddressRange.isProper_iff.mpr ⟨UInt32.le_refl _, UInt32.le_refl _⟩

/-- Two addresses with the same script both get the credit of an output. -/
theorem eligible_pair (ha : book.poolAddress secp256k1 a.series a.branch a.index = .ok a)
    (hb : book.poolAddress secp256k1 b.series b.branch b.index = .ok b)
    (hscript : b.script = a.script)
    (horder : PoolCredit.order (.ofUnspent (outputAt a) a) (.ofUnspent (outputAt a) b) = .lt) :
    eligible secp256k1 book [outputAt a] [rangeAt a, rangeAt b] rules
      = .ok [.ofUnspent (outputAt a) a, .ofUnspent (outputAt a) b] := by
  have hsort : PoolCredit.sort [.ofUnspent (outputAt a) a, .ofUnspent (outputAt a) b]
      = [.ofUnspent (outputAt a) a, .ofUnspent (outputAt a) b] := by
    unfold PoolCredit.sort
    apply List.mergeSort_of_pairwise
    rw [List.pairwise_pair, horder]
    rfl
  refine eligible_eq_ok_iff.mpr ⟨inputError?_eq_none_iff.mpr ⟨?_, ?_⟩, _, ?_, ?_, hsort.symm⟩
  · intro range hrange
    rcases List.mem_pair.mp hrange with rfl | rfl
    · exact isProper_rangeAt a
    · exact isProper_rangeAt b
  · intro o ho
    rw [List.mem_singleton.mp ho]
    exact PoolAddress.isSome_ofScript? a
  · rw [creditsInAll_eq, joinM_cons, joinM_cons, creditsIn_rangeAt ha rfl,
      creditsIn_rangeAt hb hscript]
    rfl
  · rw [hsort]
    unfold Series.adjacent?
    rw [horder]
    rfl

end Pair

/-- An address is derived from the series that a registry has under its number. -/
theorem poolAddress_eq {r : Registry} (hnetwork : r.network = .regtest) {id : SeriesId}
    {series : Series} {branch : Branch} {ordered : List Xpub} {children : List PublicKey}
    (hfound : r.find? id = some series) (horder : branchOrder series.pubs branch = .ok ordered)
    (hkeys : List.Forall₂ (fun key child => childKey secp256k1 key ⟨0⟩ = .ok child) ordered
      children) :
    r.book.poolAddress secp256k1 id branch ⟨0⟩
      = .ok ⟨id, branch, ⟨0⟩, series.required, .regtest, series.pubs, children⟩ := by
  refine SeriesBook.poolAddress_eq_ok_iff.mpr
    ⟨series, ordered, children, hfound, horder, hkeys, ?_⟩
  have hbook : r.book.network = .regtest := hnetwork
  rw [hbook]

/-! ### Twins -/

/-- The keys of the first series are those of the second one, too. -/
def events : List Registry.Event :=
  [creating, .call ⟨none, sealing 3⟩ (.create 1 ⟨2⟩ 2 texts)]

def registry : Registry := start.after secp256k1 events

theorem opens (nonce : UInt8) (change : Registry.Change) :
    (Registry.Event.call ⟨none, sealing nonce⟩ change).Opens secrets :=
  KeyCipher.xchacha_opens _ _ _ fun _ => List.length_replicate

theorem network_registry : registry.network = .regtest := by
  have hmirrored : registry.Mirrored secp256k1 "pool" .regtest secrets := by
    apply Registry.mirrored_after (Registry.mirrored_new rfl)
    intro event hevent
    rcases List.mem_pair.mp hevent with rfl | rfl
    · exact opens 2 _
    · exact opens 3 _
  exact hmirrored.network_eq

theorem series_registry : registry.series = [(⟨1⟩, plain), (⟨2⟩, plain)] := by
  have hfirst : (start.apply secp256k1 creating).series = [(⟨1⟩, plain)] :=
    series_apply (.created rfl (seriesOfKeys_texts rfl _)) canonical_plain.toWellFormed
  have hmirrored : (start.apply secp256k1 creating).Mirrored secp256k1 "pool" .regtest secrets :=
    Registry.mirrored_apply (Registry.mirrored_new rfl) (opens 2 _)
  unfold registry events
  rw [Registry.after_cons, Registry.after_cons, Registry.after_nil]
  generalize start.apply secp256k1 creating = r at hfirst hmirrored ⊢
  have hfree : r.creationError? ⟨2⟩ = none := by
    unfold Registry.creationError? Registry.find?
    rw [hfirst]
    rfl
  rw [series_apply (.created hfree (seriesOfKeys_texts hmirrored.network_eq _))
    canonical_plain.toWellFormed, hfirst]
  rfl

theorem find?_registry (id : SeriesId) :
    registry.find? id = Catalog.find? [(⟨1⟩, plain), (⟨2⟩, plain)] id := by
  unfold Registry.find?
  rw [series_registry]

theorem childKeys : List.Forall₂ (fun key child => childKey secp256k1 key ⟨0⟩ = .ok child)
    plain.pubs Shared.children := by
  refine Shared.childKeys.imp ?_
  intro key child h
  obtain ⟨hindex, hchild⟩ := childKey_eq_ok_iff.mp h
  exact childKey_eq_ok_iff.mpr ⟨hindex, (Option.filter_eq_some_iff.mp hchild).1⟩

/-- The address at the first branch of one of the two series. -/
def addressOf (id : SeriesId) : PoolAddress := { Shared.address with series := id }

def creditOf (id : SeriesId) : PoolCredit := .ofUnspent (outputAt (addressOf ⟨1⟩)) (addressOf id)

theorem eligible_twins :
    eligible secp256k1 registry.book [outputAt (addressOf ⟨1⟩)]
        [rangeAt (addressOf ⟨1⟩), rangeAt (addressOf ⟨2⟩)] rules
      = .ok [creditOf ⟨1⟩, creditOf ⟨2⟩] :=
  eligible_pair (poolAddress_eq network_registry (find?_registry ⟨1⟩) rfl childKeys)
    (poolAddress_eq network_registry (find?_registry ⟨2⟩) rfl childKeys) rfl rfl

/-! ### Copies -/

/-- The first key with other labels. -/
def copy : Xpub :=
  ⟨{ Round.Sample.xpub.lineage with depth := 1, parent := 7, child := 7 }, Round.Sample.key⟩

/-- Two of three keys are copies of each other. -/
def copies : List Xpub := [Shared.pub Round.Sample.key, Shared.pub Shared.second, copy]

def copied : Series := ⟨1, true, 2, copies.map fun key => ⟨key, none⟩⟩

theorem sortKeys_copies : Series.sortKeys copies = copies := by
  apply Series.sortKeys_of_increasing
  apply Series.pairwise_of_isIncreasing
  decide +kernel

theorem acceptable_copies : Series.Acceptable 1 2 (copies.map Xpub.toText) copies where
  known := rfl
  fewest := Nat.le_refl 3
  most := show 3 ≤ 15 by decide
  positive := by decide
  enough := show 2 ≤ 3 by decide
  notPrivate := by
    intro text htext secret hsecret
    obtain ⟨key, -, rfl⟩ := List.mem_map.mp htext
    rw [Xpriv.parse_toText_pub] at hsecret
    cases hsecret
  parsed := List.forall₂_map_left_iff.mpr (List.forall₂_same.mpr fun key _ => key.parse_toText)
  distinct := by decide

theorem ofGroup_copies : Series.ofGroup 2 copies = copied := by
  unfold Series.ofGroup
  rw [sortKeys_copies]
  rfl

def copying : Registry.Event :=
  .call ⟨none, sealing 2⟩ (.create 1 ⟨1⟩ 2 (copies.map Xpub.toText))

def copiedRegistry : Registry := start.after secp256k1 [copying]

theorem find?_copiedRegistry : copiedRegistry.find? ⟨1⟩ = some copied := by
  have hcanonical : copied.Canonical secp256k1 := ofGroup_copies ▸ acceptable_copies.canonical
  have hkeys : Series.ofKeys secp256k1 1 2 (copies.map Xpub.toText) = .ok copied :=
    ofGroup_copies ▸ acceptable_copies.ofKeys_eq
  have hseries : copiedRegistry.series = [(⟨1⟩, copied)] :=
    series_apply (.created rfl (Registry.seriesOfKeys_of_ofKeys hkeys rfl _))
      hcanonical.toWellFormed
  unfold Registry.find?
  rw [hseries]
  rfl

theorem network_copiedRegistry : copiedRegistry.network = .regtest := by
  have hmirrored : copiedRegistry.Mirrored secp256k1 "pool" .regtest secrets := by
    apply Registry.mirrored_after (Registry.mirrored_new rfl)
    exact List.forall_mem_singleton.mpr (opens 2 _)
  exact hmirrored.network_eq

/-- The children of the keys, which are the same forwards and backwards. -/
def copiedChildren : List PublicKey :=
  [Shared.children[0], Shared.children[1], Shared.children[0]]

/-- The address of the series at a branch. -/
def copiedAddress (branch : Branch) : PoolAddress :=
  ⟨⟨1⟩, branch, ⟨0⟩, 2, .regtest, copies, copiedChildren⟩

theorem copiedKeys : List.Forall₂ (fun key child => childKey secp256k1 key ⟨0⟩ = .ok child) copies
    copiedChildren := by
  obtain ⟨hfirst, hrest⟩ := List.forall₂_cons.mp childKeys
  obtain ⟨hsecond, -⟩ := List.forall₂_cons.mp hrest
  have hmaterial : copy.material = (Shared.pub Round.Sample.key).material := rfl
  have hcopy := (childKey_congr_material hmaterial ⟨0⟩).trans hfirst
  exact .cons hfirst (.cons hsecond (.cons hcopy .nil))

def copiedCredit (branch : Branch) : PoolCredit :=
  .ofUnspent (outputAt (copiedAddress ⟨0⟩)) (copiedAddress branch)

/-- The change branch and the first branch have one script. -/
theorem eligible_copies :
    eligible secp256k1 copiedRegistry.book [outputAt (copiedAddress ⟨0⟩)]
        [rangeAt (copiedAddress ⟨0⟩), rangeAt (copiedAddress ⟨1⟩)] rules
      = .ok [copiedCredit ⟨0⟩, copiedCredit ⟨1⟩] :=
  eligible_pair
    (poolAddress_eq network_copiedRegistry find?_copiedRegistry rfl (List.rel_reverse copiedKeys))
    (poolAddress_eq network_copiedRegistry find?_copiedRegistry rfl copiedKeys) rfl rfl

end Selection.Sample

open Selection Selection.Sample in
/-- **Twins and copies have their outputs offered twice.** The one unspent output lies at an address
that two series with the same keys have, and is given as a credit of each of them. It is also given
twice over a single series that has two copies of one key: the change branch and the first branch
have the same script. -/
theorem Selection.offered_twice :
    (eligible .secp256k1 registry.book [outputAt (addressOf ⟨1⟩)]
          [rangeAt (addressOf ⟨1⟩), rangeAt (addressOf ⟨2⟩)] rules
        = .ok [creditOf ⟨1⟩, creditOf ⟨2⟩]
      ∧ ([outputAt (addressOf ⟨1⟩)].map (·.outpoint)).Nodup
      ∧ ¬ ([creditOf ⟨1⟩, creditOf ⟨2⟩].map (·.outpoint)).Nodup)
    ∧ eligible .secp256k1 copiedRegistry.book [outputAt (copiedAddress ⟨0⟩)]
          [rangeAt (copiedAddress ⟨0⟩), rangeAt (copiedAddress ⟨1⟩)] rules
        = .ok [copiedCredit ⟨0⟩, copiedCredit ⟨1⟩]
      ∧ ([outputAt (copiedAddress ⟨0⟩)].map (·.outpoint)).Nodup
      ∧ ¬ ([copiedCredit ⟨0⟩, copiedCredit ⟨1⟩].map (·.outpoint)).Nodup :=
  ⟨⟨eligible_twins, List.nodup_singleton _,
      fun h => (List.nodup_cons.mp h).1 List.mem_cons_self⟩,
    eligible_copies, List.nodup_singleton _,
    fun h => (List.nodup_cons.mp h).1 List.mem_cons_self⟩

open Selection Selection.Sample in
/-- Both pairs of credits share their keys, if nothing clashes. -/
theorem Selection.twins_offered :
    (Registry.Sample.start.after .secp256k1 events = registry
      ∧ ([outputAt (addressOf ⟨1⟩)].map (·.outpoint)).Nodup
      ∧ [creditOf ⟨1⟩, creditOf ⟨2⟩].Pairwise fun c c' => c.outpoint = c'.outpoint →
          c.address.HashClash c'.address ∨ c.address.ChildClash .secp256k1 c'.address
            ∨ c.address.SharesKeys c'.address
                ∧ (c.address.Twins c'.address ∨ c.address.Copies c'.address))
    ∧ Registry.Sample.start.after .secp256k1 [copying] = copiedRegistry
      ∧ ([outputAt (copiedAddress ⟨0⟩)].map (·.outpoint)).Nodup
      ∧ [copiedCredit ⟨0⟩, copiedCredit ⟨1⟩].Pairwise fun c c' => c.outpoint = c'.outpoint →
          c.address.HashClash c'.address ∨ c.address.ChildClash .secp256k1 c'.address
            ∨ c.address.SharesKeys c'.address
                ∧ (c.address.Twins c'.address ∨ c.address.Copies c'.address) := by
  have hreached : (Registry.new "pool" .regtest Registry.Sample.secrets .empty).after .secp256k1
      events = registry := rfl
  have hcopied : (Registry.new "pool" .regtest Registry.Sample.secrets .empty).after .secp256k1
      [copying] = copiedRegistry := rfl
  have honce : ∀ output : UnspentOutput, ([output].map (·.outpoint)).Nodup :=
    fun output => List.nodup_singleton output.outpoint
  exact ⟨⟨rfl, honce _, offered_once_but_for_shared_keys hreached (honce _) eligible_twins⟩,
    rfl, honce _, offered_once_but_for_shared_keys hcopied (honce _) eligible_copies⟩

end NotaryPool
