import NotaryPool.Proofs.Series.Branches
import NotaryPool.Proofs.Signing.Threshold

/-!
# Why a member does not sign

A member signs with the keys of its own series, and compares the child of each private key with the
key that the address has at the same place. Nothing says that the series is the one from which the
address was made. The child of a key that stands behind the last key of the address has nothing to
be compared with.

## Contents

* `Signing.Fits`, `Signing.Misfit`: a private key that belongs to its place, and how one that does
  not is refused, with `Signing.entry_eq_error_iff`.
* `Signing.Signable`, `Signing.Refuses`: an input that is signed, and how one is refused, with
  `Signing.inputSignatures_eq_error_iff`.
* `Signing.Covered`: no private key stands behind the keys of the address, as of those that the
  book gives itself.
* **`Signing.rawSignatures_outcome`**: a transaction is signed, or its first input that cannot be
  signed says why.
* `Signing.wider_reads_past`, `Signing.swapped_mismatch`: a series with one key more than the
  address, and one with the keys of the address in another order.
-/

namespace NotaryPool

variable {K : KeyScheme} {b : SeriesBook} {a : PoolAddress} {series : Series} {ordered : List Xpub}
  {priv : Xpriv} {position : Nat} {e : RawSigningError}

namespace Signing

/-! ## One key -/

/-- The child of a private key belongs to the key that the address has at a position. -/
def Fits (K : KeyScheme) (a : PoolAddress) (priv : Xpriv) (position : Nat) : Prop :=
  ∃ child expected, K.childSecret? priv a.index.val = some child
    ∧ a.keys[position]? = some expected ∧ K.publicKey? child = some expected

/-- How a private key that does not belong to its place is refused. -/
inductive Misfit (K : KeyScheme) (a : PoolAddress) (priv : Xpriv) (position : Nat) :
    RawSigningError → Prop
  /-- It has no child, or the address has another key at this position. -/
  | other (hread : K.childSecret? priv a.index.val = none ∨ position < a.keys.length)
      (hunfit : ¬ Fits K a priv position) :
      Misfit K a priv position (.keyMismatch a.series (toString a))
  /-- The address has no key at this position. -/
  | past {child : SecretKey} (hchild : K.childSecret? priv a.index.val = some child)
      (hpast : a.keys.length ≤ position) : Misfit K a priv position (.noAddressKey position)

theorem Fits.lt_length (h : Fits K a priv position) : position < a.keys.length := by
  obtain ⟨child, expected, -, hexpected, -⟩ := h
  exact (List.getElem?_eq_some_iff.mp hexpected).1

theorem Misfit.not_fits (h : Misfit K a priv position e) : ¬ Fits K a priv position := by
  cases h with
  | other _ hunfit => exact hunfit
  | past _ hpast => exact fun hfits => absurd hfits.lt_length (Nat.not_lt.mpr hpast)

/-- An entry is made unless a private key does not belong to its place. -/
theorem entry_outcome (K : KeyScheme) (series : Series) (a : PoolAddress) (message : Hash256)
    (key : Xpub) (position : Nat) :
    (∃ sig, entry K series a message key position = .ok sig)
        ∧ (∀ priv, series.privateKeyFor? key = some priv → Fits K a priv position)
      ∨ ∃ e priv, entry K series a message key position = .error e
        ∧ series.privateKeyFor? key = some priv ∧ Misfit K a priv position e := by
  unfold entry
  cases hheld : series.privateKeyFor? key with
  | none => exact Or.inl ⟨⟨[], rfl⟩, fun _ h => by cases h⟩
  | some priv =>
      dsimp only
      cases hchild : K.childSecret? priv a.index.val with
      | none =>
          refine Or.inr ⟨_, priv, rfl, rfl, .other (Or.inl hchild) ?_⟩
          rintro ⟨child, -, hsome, -⟩
          rw [hchild] at hsome
          cases hsome
      | some child =>
          cases hexpected : a.keys[position]? with
          | none =>
              have hpast := List.getElem?_eq_none_iff.mp hexpected
              exact Or.inr ⟨_, priv, rfl, rfl, .past hchild hpast⟩
          | some expected =>
              dsimp only
              by_cases hpublic : K.publicKey? child = some expected
              · rw [if_pos hpublic]
                refine Or.inl ⟨⟨_, rfl⟩, ?_⟩
                rintro _ ⟨⟩
                exact ⟨child, expected, hchild, hexpected, hpublic⟩
              · rw [if_neg hpublic]
                have hlength := (List.getElem?_eq_some_iff.mp hexpected).1
                refine Or.inr ⟨_, priv, rfl, rfl, .other (Or.inr hlength) ?_⟩
                rintro ⟨child', expected', hchild', hexpected', hpublic'⟩
                rw [hchild] at hchild'
                rw [hexpected] at hexpected'
                cases hchild'
                cases hexpected'
                exact hpublic hpublic'

theorem entry_isOk_iff {message : Hash256} {key : Xpub} :
    (∃ sig, entry K series a message key position = .ok sig)
      ↔ ∀ priv, series.privateKeyFor? key = some priv → Fits K a priv position := by
  rcases entry_outcome K series a message key position with ⟨hok, hfits⟩ | ⟨e, priv, he, hheld, h⟩
  · exact iff_of_true hok hfits
  · refine iff_of_false ?_ fun hfits => h.not_fits (hfits priv hheld)
    rintro ⟨sig, hsig⟩
    rw [he] at hsig
    cases hsig

/-- A private key that has a child is compared only with a key that the address has. -/
theorem lt_length_of_child {child : SecretKey}
    (hread : K.childSecret? priv a.index.val = none ∨ position < a.keys.length)
    (hchild : K.childSecret? priv a.index.val = some child) : position < a.keys.length := by
  refine hread.resolve_left ?_
  rw [hchild]
  exact Option.some_ne_none child

theorem Misfit.unique {e' : RawSigningError} (h : Misfit K a priv position e)
    (h' : Misfit K a priv position e') : e = e' := by
  cases h with
  | other hread _ =>
      cases h' with
      | other _ _ => rfl
      | past hchild hpast =>
          exact absurd (lt_length_of_child hread hchild) (Nat.not_lt.mpr hpast)
  | past hchild hpast =>
      cases h' with
      | other hread _ => exact absurd (lt_length_of_child hread hchild) (Nat.not_lt.mpr hpast)
      | past _ _ => rfl

theorem entry_eq_error_iff {message : Hash256} {key : Xpub} :
    entry K series a message key position = .error e
      ↔ ∃ priv, series.privateKeyFor? key = some priv ∧ Misfit K a priv position e := by
  rcases entry_outcome K series a message key position with
    ⟨⟨sig, hsig⟩, hfits⟩ | ⟨e', priv, he', hheld, h⟩
  · rw [hsig]
    refine iff_of_false (fun h => by cases h) ?_
    rintro ⟨priv, hheld, h⟩
    exact h.not_fits (hfits priv hheld)
  · rw [he']
    constructor
    · rintro ⟨⟩
      exact ⟨priv, hheld, h⟩
    · rintro ⟨priv', hheld', h'⟩
      rw [hheld] at hheld'
      cases hheld'
      rw [h.unique h']

/-! ## One input -/

/-- The keys that a book has for an address, in the order of its branch. -/
structure Ordered (b : SeriesBook) (a : PoolAddress) (series : Series) (ordered : List Xpub) :
    Prop where
  found : b.find? a.series = some series
  order : branchOrder series.pubs a.branch = .ok ordered

/-- The private keys that are attached stand at the places of their children, as far as a position
that is not included. -/
def FitBefore (K : KeyScheme) (a : PoolAddress) (series : Series) (ordered : List Xpub)
    (position : Nat) : Prop :=
  ∀ (earlier : Nat) (key : Xpub) (priv : Xpriv), earlier < position → ordered[earlier]? = some key →
    series.privateKeyFor? key = some priv → Fits K a priv earlier

theorem fitBefore_of_none
    (h : ∀ key ∈ ordered.take position, series.privateKeyFor? key = none) :
    FitBefore K a series ordered position := by
  intro earlier key priv hless hkey hheld
  have hmem : key ∈ ordered.take position :=
    List.mem_of_getElem? ((List.getElem?_take_of_lt hless).trans hkey)
  rw [h key hmem] at hheld
  cases hheld

/-- Each private key that is attached stands at the place of its child. -/
def Signable (K : KeyScheme) (b : SeriesBook) (a : PoolAddress) : Prop :=
  ∃ series ordered, Ordered b a series ordered ∧ a.index.isUnhardened = true
    ∧ FitBefore K a series ordered ordered.length

/-- How an input at an address is refused. -/
inductive Refuses (K : KeyScheme) (b : SeriesBook) (a : PoolAddress) : RawSigningError → Prop
  | unknownSeries (hunknown : b.find? a.series = none) : Refuses K b a (.unknownSeries a.series)
  | branch {series : Series} {error : BranchError} (hfound : b.find? a.series = some series)
      (horder : branchOrder series.pubs a.branch = .error error) : Refuses K b a (.branch error)
  | hardened {series : Series} {ordered : List Xpub} (h : Ordered b a series ordered)
      (hindex : a.index.isUnhardened = false) : Refuses K b a (.hardened a.index)
  /-- The first private key that does not belong to its place is refused. -/
  | key {series : Series} {ordered : List Xpub} {position : Nat} {key : Xpub} {priv : Xpriv}
      {e : RawSigningError} (h : Ordered b a series ordered) (hindex : a.index.isUnhardened = true)
      (hkey : ordered[position]? = some key) (hheld : series.privateKeyFor? key = some priv)
      (hmisfit : Misfit K a priv position e) (hbefore : FitBefore K a series ordered position) :
      Refuses K b a e

/-- A book has the keys of an address in order, or else the input is refused. -/
theorem refuses_or_ordered (K : KeyScheme) (b : SeriesBook) (a : PoolAddress) :
    (∃ e, Refuses K b a e)
      ∨ ∃ series ordered, Ordered b a series ordered ∧ a.index.isUnhardened = true := by
  cases hfound : b.find? a.series with
  | none => exact Or.inl ⟨_, .unknownSeries hfound⟩
  | some series =>
      cases horder : branchOrder series.pubs a.branch with
      | error error => exact Or.inl ⟨_, .branch hfound horder⟩
      | ok ordered =>
          cases hindex : a.index.isUnhardened with
          | false => exact Or.inl ⟨_, .hardened ⟨hfound, horder⟩ hindex⟩
          | true => exact Or.inr ⟨series, ordered, ⟨hfound, horder⟩, rfl⟩

theorem Refuses.error (h : Refuses K b a e) (tx : Tx) (no : Nat) :
    inputSignatures K b tx no a = .error e := by
  cases h with
  | unknownSeries hunknown =>
      unfold inputSignatures
      rw [hunknown]
      rfl
  | branch hfound horder =>
      unfold inputSignatures
      simp only [hfound, horder]
      rfl
  | hardened h hindex =>
      unfold inputSignatures
      simp only [h.found, h.order, hindex]
      rfl
  | key h hindex hkey hheld hmisfit hbefore =>
      rw [inputSignatures_eq h.found h.order hindex, mapM_zipIdx_eq_error_iff]
      refine ⟨_, _, hkey, entry_eq_error_iff.mpr ⟨_, hheld, hmisfit⟩, ?_⟩
      intro earlier key' hless hkey'
      exact entry_isOk_iff.mpr fun priv' hheld' => hbefore earlier key' priv' hless hkey' hheld'

theorem inputSignatures_eq_error_iff {tx : Tx} {no : Nat} :
    inputSignatures K b tx no a = .error e ↔ Refuses K b a e := by
  refine ⟨fun herror => ?_, fun h => h.error tx no⟩
  rcases refuses_or_ordered K b a with ⟨e', h⟩ | ⟨series, ordered, h, hindex⟩
  · cases herror.symm.trans (h.error tx no)
    exact h
  · rw [inputSignatures_eq h.found h.order hindex, mapM_zipIdx_eq_error_iff] at herror
    obtain ⟨position, key, hkey, herror, hbefore⟩ := herror
    obtain ⟨priv, hheld, hmisfit⟩ := entry_eq_error_iff.mp herror
    refine .key h hindex hkey hheld hmisfit ?_
    intro earlier key' priv' hless hkey' hheld'
    exact entry_isOk_iff.mp (hbefore earlier key' hless hkey') priv' hheld'

theorem inputSignatures_isOk_iff {tx : Tx} {no : Nat} :
    (∃ entries, inputSignatures K b tx no a = .ok entries) ↔ Signable K b a := by
  constructor
  · rintro ⟨entries, hok⟩
    rcases refuses_or_ordered K b a with ⟨e', h⟩ | ⟨series, ordered, h, hindex⟩
    · cases hok.symm.trans (h.error tx no)
    · rw [inputSignatures_eq h.found h.order hindex] at hok
      refine ⟨series, ordered, h, hindex, ?_⟩
      intro position key priv _ hkey hheld
      exact entry_isOk_iff.mp (exists_mapM_zipIdx_iff.mp ⟨_, hok⟩ position key hkey) priv hheld
  · rintro ⟨series, ordered, h, hindex, hfit⟩
    rw [inputSignatures_eq h.found h.order hindex]
    refine exists_mapM_zipIdx_iff.mpr fun position key hkey => ?_
    refine entry_isOk_iff.mpr fun priv hheld => ?_
    exact hfit position key priv (List.getElem?_eq_some_iff.mp hkey).1 hkey hheld

/-- No private key that is attached stands behind the last key of the address. -/
def Covered (b : SeriesBook) (a : PoolAddress) : Prop :=
  ∀ series ordered, Ordered b a series ordered → ∀ (position : Nat) (key : Xpub) (priv : Xpriv),
    ordered[position]? = some key → series.privateKeyFor? key = some priv →
      position < a.keys.length

/-- A series with no more keys than the address has none behind them. -/
theorem covered_of_keyCount
    (h : ∀ series, b.find? a.series = some series → series.keyCount ≤ a.keys.length) :
    Covered b a := by
  intro series ordered hordered position key _ hkey _
  have hlength : ordered.length = series.keyCount := by
    rw [(branchOrder_perm hordered.order).length_eq]
    exact List.length_map ..
  have hposition := (List.getElem?_eq_some_iff.mp hkey).1
  have hcount := h series hordered.found
  omega

/-- An address that the book gives itself has a child for each key of its series. -/
theorem covered_of_poolAddress {id : SeriesId} {branch : Branch} {index : Index}
    (ha : b.poolAddress K id branch index = .ok a) : Covered b a := by
  obtain ⟨series, ordered, keys, hfound, horder, hkeys, rfl⟩ :=
    SeriesBook.poolAddress_eq_ok_iff.mp ha
  apply covered_of_keyCount
  intro series' hfound'
  cases hfound.symm.trans hfound'
  rw [← hkeys.length_eq, (branchOrder_perm horder).length_eq]
  exact Nat.le_of_eq (List.length_map ..).symm

theorem Refuses.ne_noAddressKey (h : Refuses K b a e) (hcovered : Covered b a) (position : Nat) :
    e ≠ .noAddressKey position := by
  rintro rfl
  cases h with
  | key h _ hkey hheld hmisfit _ =>
      cases hmisfit with
      | past _ hpast => exact absurd (hcovered _ _ h _ _ _ hkey hheld) (Nat.not_lt.mpr hpast)

/-! ## All inputs of a transaction -/

/-- The first input that cannot be signed is refused. -/
def FirstRefuses (K : KeyScheme) (b : SeriesBook) (credits : List PoolCredit)
    (e : RawSigningError) : Prop :=
  ∃ (no : Nat) (c : PoolCredit), credits[no]? = some c ∧ Refuses K b c.address e
    ∧ ∀ (earlier : Nat) (c' : PoolCredit), earlier < no → credits[earlier]? = some c' →
        Signable K b c'.address

theorem rawSignatures_eq {tx : Tx} {credits : List PoolCredit}
    (hcount : tx.inputs.length = credits.length) :
    rawSignatures K b tx credits = credits.zipIdx.mapM fun (credit, no) =>
      inputSignatures K b tx no credit.address :=
  if_neg (not_not_intro hcount)

theorem rawSignatures_isOk_iff {tx : Tx} {credits : List PoolCredit}
    (hcount : tx.inputs.length = credits.length) :
    (∃ sigs, rawSignatures K b tx credits = .ok sigs)
      ↔ ∀ c ∈ credits, Signable K b c.address := by
  rw [rawSignatures_eq hcount, exists_mapM_zipIdx_iff]
  constructor
  · intro h c hc
    obtain ⟨no, hno, rfl⟩ := List.getElem_of_mem hc
    exact inputSignatures_isOk_iff.mp (h no _ (List.getElem?_eq_getElem hno))
  · intro h no c hc
    exact inputSignatures_isOk_iff.mpr (h c (List.mem_of_getElem? hc))

theorem rawSignatures_eq_error_iff {tx : Tx} {credits : List PoolCredit}
    (hcount : tx.inputs.length = credits.length) :
    rawSignatures K b tx credits = .error e ↔ FirstRefuses K b credits e := by
  rw [rawSignatures_eq hcount, mapM_zipIdx_eq_error_iff]
  simp only [inputSignatures_eq_error_iff, inputSignatures_isOk_iff]
  rfl

/-- As long as no private key stands behind the keys of an address, none is looked for there. -/
theorem rawSignatures_ne_noAddressKey {tx : Tx} {credits : List PoolCredit}
    (hcovered : ∀ c ∈ credits, Covered b c.address) (position : Nat) :
    rawSignatures K b tx credits ≠ .error (.noAddressKey position) := by
  intro herror
  by_cases hcount : tx.inputs.length = credits.length
  · obtain ⟨no, c, hc, hrefuses, -⟩ := (rawSignatures_eq_error_iff hcount).mp herror
    exact hrefuses.ne_noAddressKey (hcovered c (List.mem_of_getElem? hc)) position rfl
  · unfold rawSignatures at herror
    rw [if_pos hcount] at herror
    cases herror

/-- **A transaction is signed just when it has an input for each credit and each private key that is
attached stands at the place of its child. Else the first thing that is wrong says why**, and as
long as no private key stands behind the keys of an address, none is looked for there. -/
theorem rawSignatures_outcome (K : KeyScheme) (b : SeriesBook) (tx : Tx)
    (credits : List PoolCredit) :
    ((∃ sigs, rawSignatures K b tx credits = .ok sigs)
        ↔ tx.inputs.length = credits.length ∧ ∀ c ∈ credits, Signable K b c.address)
      ∧ (∀ e, rawSignatures K b tx credits = .error e
        ↔ tx.inputs.length ≠ credits.length
            ∧ e = .inputCountMismatch tx.inputs.length credits.length
          ∨ tx.inputs.length = credits.length ∧ FirstRefuses K b credits e)
      ∧ ((∀ c ∈ credits, Covered b c.address) →
        ∀ position, rawSignatures K b tx credits ≠ .error (.noAddressKey position)) := by
  rw [← and_assoc]
  refine ⟨?_, rawSignatures_ne_noAddressKey⟩
  by_cases hcount : tx.inputs.length = credits.length
  · refine ⟨?_, ?_⟩
    · rw [rawSignatures_isOk_iff hcount, and_iff_right hcount]
    · intro e
      simp [rawSignatures_eq_error_iff hcount, hcount]
  · have herror : rawSignatures K b tx credits
        = .error (.inputCountMismatch tx.inputs.length credits.length) := if_pos hcount
    rw [herror]
    refine ⟨?_, ?_⟩
    · exact iff_of_false (by simp) fun h => hcount h.1
    · intro e
      simp [hcount, eq_comm]

/-! ### Other keys than those of the address

An address of three keys, and members whose series has other keys. -/

namespace Other

open Round Shared

/-- The fourth multiple of the generator. -/
def fourth : PublicKey where
  x := ⟨0xe493dbf1c10d80f3581e4904930b1404cc6c13900ee0758474fa94abe8c4cd13, by decide⟩
  odd := false
  onCurve := by decide +kernel

def last : Xpriv := Shared.priv 4 (by decide)

/-- The keys of the address, and a fourth one whose private part is attached. -/
def wider : Series :=
  ⟨1, true, 2, [⟨pub Sample.key, none⟩, ⟨pub second, none⟩, ⟨pub third, none⟩,
    ⟨pub fourth, some last⟩]⟩

/-- The keys of the address in another order, one with its private part. -/
def swapped : Series :=
  ⟨1, true, 2, [⟨pub second, none⟩, ⟨pub Sample.key, some first⟩, ⟨pub third, none⟩]⟩

def bookOf (series : Series) : SeriesBook := ⟨.regtest, fun _ => some series⟩

def tx : Tx := Draft.toTx { Draft.empty with inputs := credits }

theorem wellFormed_wider : wider.WellFormed .secp256k1 where
  fewest := show 3 ≤ 4 by decide
  most := show 4 ≤ 15 by decide
  positive := show (2 : UInt8) ≠ 0 by decide
  enough := show 2 ≤ 4 by decide
  distinct := by decide
  owned := by decide +kernel

/-- The chain itself makes the address. -/
theorem address_derived :
    (Shared.book none none).poolAddress .secp256k1 address.series address.branch address.index
      = .ok address := by
  have hkeys : List.Forall₂ (fun key child => childKey .secp256k1 key ⟨0⟩ = .ok child)
      [pub Sample.key, pub second, pub third] children := by
    refine childKeys.imp fun key child hchild => ?_
    obtain ⟨hindex, hpublic⟩ := childKey_eq_ok_iff.mp hchild
    exact childKey_eq_ok_iff.mpr ⟨hindex, (Option.filter_eq_some_iff.mp hpublic).1⟩
  have hderived : PoolAddress.ofKeys .secp256k1 ⟨1⟩ 2 [pub Sample.key, pub second, pub third] ⟨1⟩
      ⟨0⟩ .regtest = .ok address :=
    PoolAddress.ofKeys_eq_ok_iff.mpr ⟨_, children, rfl, hkeys, rfl⟩
  exact hderived

theorem child_last :
    ∃ child, KeyScheme.secp256k1.childSecret? last address.index.val = some child :=
  Option.isSome_iff_exists.mp (by decide +kernel)

theorem child_first : ∃ child, KeyScheme.secp256k1.childSecret? first address.index.val = some child
    ∧ KeyScheme.secp256k1.publicKey? child = children[0]? := by
  obtain ⟨-, hpublic⟩ := childKey_eq_ok_iff.mp (childKeys.get (i := 0) (by decide) (by decide))
  exact (KeyScheme.lawful_keeping [first, other]).derives rfl neuter_first hpublic

end Other

open Round.Shared Other in
/-- The series of a member has got a fourth key, whose private part is attached. The chain made the
address from the first three, and there is nothing behind them. -/
theorem wider_reads_past :
    wider.WellFormed .secp256k1
      ∧ (Round.Shared.book none none).poolAddress .secp256k1 ⟨1⟩ ⟨1⟩ ⟨0⟩ = .ok address
      ∧ tx.inputs.length = credits.length
      ∧ (∀ c ∈ credits, c.address = address)
      ∧ rawSignatures .secp256k1 (bookOf wider) tx credits = .error (.noAddressKey 3) := by
  obtain ⟨child, hchild⟩ := child_last
  have hrefuses : Refuses .secp256k1 (bookOf wider) address (.noAddressKey 3) := by
    have hordered : Ordered (bookOf wider) address wider wider.pubs := ⟨rfl, rfl⟩
    have hkey : wider.pubs[3]? = some (pub fourth) := rfl
    have hheld : wider.privateKeyFor? (pub fourth) = some last := by decide
    exact .key hordered rfl hkey hheld (.past hchild (by decide))
      (fitBefore_of_none (by decide))
  refine ⟨wellFormed_wider, address_derived, rfl, by simp [credits], ?_⟩
  exact (rawSignatures_eq_error_iff rfl).mpr
    ⟨0, _, rfl, hrefuses, fun earlier _ hless => absurd hless (Nat.not_lt_zero _)⟩

open Round.Shared Other in
/-- The series of another member has the three keys in another order. The private key does not
belong to the key that the address has at its place, and the member is told so. -/
theorem swapped_mismatch :
    tx.inputs.length = credits.length
      ∧ FirstRefuses .secp256k1 (bookOf swapped) credits (.keyMismatch ⟨1⟩ "1/1/0")
      ∧ (∀ c ∈ credits, Covered (bookOf swapped) c.address)
      ∧ rawSignatures .secp256k1 (bookOf swapped) tx credits
        = .error (.keyMismatch ⟨1⟩ "1/1/0")
      ∧ ∀ position, rawSignatures .secp256k1 (bookOf swapped) tx credits
        ≠ .error (.noAddressKey position) := by
  have hunfit : ¬ Fits .secp256k1 address first 1 := by
    obtain ⟨child, hchild, hpublic⟩ := child_first
    rintro ⟨child', expected, hchild', hexpected, hpublic'⟩
    cases hchild.symm.trans hchild'
    -- the child would belong to the first and to the second key of the address
    have hsame : children[0]? = children[1]? :=
      (hpublic.symm.trans hpublic').trans hexpected.symm
    exact absurd hsame (by decide)
  have hrefuses : Refuses .secp256k1 (bookOf swapped) address (.keyMismatch ⟨1⟩ "1/1/0") := by
    have hordered : Ordered (bookOf swapped) address swapped swapped.pubs := ⟨rfl, rfl⟩
    have hkey : swapped.pubs[1]? = some (pub Round.Sample.key) := rfl
    have hheld : swapped.privateKeyFor? (pub Round.Sample.key) = some first := by decide
    exact .key hordered rfl hkey hheld (.other (Or.inr (by decide)) hunfit)
      (fitBefore_of_none (by decide))
  have hfirst : FirstRefuses .secp256k1 (bookOf swapped) credits (.keyMismatch ⟨1⟩ "1/1/0") :=
    ⟨0, _, rfl, hrefuses, fun earlier _ hless => absurd hless (Nat.not_lt_zero _)⟩
  have hcovered : ∀ c ∈ credits, Covered (bookOf swapped) c.address := by
    refine List.forall_mem_singleton.mpr (covered_of_keyCount ?_)
    rintro _ ⟨⟩
    exact Nat.le_refl 3
  obtain ⟨-, herror, hwithin⟩ := rawSignatures_outcome .secp256k1 (bookOf swapped) tx credits
  exact ⟨rfl, hfirst, hcovered, (herror _).mpr (Or.inr ⟨rfl, hfirst⟩), hwithin hcovered⟩

end Signing

end NotaryPool
