import NotaryPool.Proofs.Script.Encoding
import NotaryPool.Proofs.Script.Spending
import NotaryPool.Proofs.Series.Members
import NotaryPool.Proofs.Signing.Laws

/-!
# The entries of a member

A member makes its entries from its own series, in the order of the branch, and the redeem script
lists the keys of the address in the same order. An entry that is not empty is therefore made with
the child key whose public form stands at the same place in the redeem script.

## Contents

* `SeriesBook.Holds`, `SeriesBook.Answers`: an entry for each key of the series, empty where the
  private part is not held.
* `Signing.inputSignatures_ok`, `Signing.rawSignatures_ok`: **a member answers for every input.**
-/

namespace NotaryPool

variable {K : KeyScheme}

/-- A signature that is accepted is genuine in its byte form. -/
theorem RawSignature.genuine_ofSignature {message : Hash256} {key : PublicKey} {s : Signature}
    (hverify : K.verify key message s = true) (hlow : s.isLow = true) :
    Genuine K message key (ofSignature s) :=
  ⟨isStrictDer_ofSignature s, s, parse_ofSignature s, hlow, hverify⟩

namespace SeriesBook

variable {b : SeriesBook} {a : PoolAddress} {entries : InputSignatures}
  {held held' : SeriesId → Xpub → Prop}

/-- The private part of a public key of a series is attached. -/
def Holds (b : SeriesBook) (id : SeriesId) (key : Xpub) : Prop :=
  ∃ series, b.find? id = some series ∧ series.Holds key

/-- Entries for an input at an address: one for each key of the series in the order of the branch,
empty just where the private part is not among those held. -/
def Answers (b : SeriesBook) (held : SeriesId → Xpub → Prop) (a : PoolAddress)
    (entries : InputSignatures) : Prop :=
  ∃ series ordered, b.find? a.series = some series
    ∧ branchOrder series.pubs a.branch = .ok ordered
    ∧ List.Forall₂ (fun key entry => entry = [] ↔ ¬ held a.series key) ordered entries

theorem holds_iff {id : SeriesId} {series : Series} (hfound : b.find? id = some series)
    (key : Xpub) : b.Holds id key ↔ series.Holds key := by
  constructor
  · rintro ⟨other, hother, hholds⟩
    rw [hfound] at hother
    cases hother
    exact hholds
  · exact fun hholds => ⟨series, hfound, hholds⟩

theorem Answers.congr (h : b.Answers held a entries)
    (hsame : ∀ id key, held id key ↔ held' id key) : b.Answers held' a entries := by
  obtain ⟨series, ordered, hfound, horder, hentries⟩ := h
  refine ⟨series, ordered, hfound, horder, hentries.imp fun key entry hentry => ?_⟩
  rw [hentry, hsame]

/-- The public series are enough to say for which keys the entries are. -/
theorem Answers.bare (h : b.Answers held a entries) : b.bare.Answers held a entries := by
  obtain ⟨series, ordered, hfound, horder, hentries⟩ := h
  refine ⟨series.bare, ordered, ?_, ?_, hentries⟩
  · show (b.find? a.series).map Series.bare = some series.bare
    rw [hfound]
    rfl
  · rw [Series.pubs_bare]
    exact horder

end SeriesBook

namespace Signing

variable {b : SeriesBook} {a : PoolAddress} {series : Series} {ordered : List Xpub}

/-! ## One input -/

/-- The entry for a key of the series, at the place of its child. -/
theorem entry_ok (hK : K.Lawful) (hb : b.Derives K a series ordered) (message : Hash256)
    {key : Xpub} {child : PublicKey} {position : Nat}
    (hchild : K.childPublic? key a.index.val = some child)
    (hposition : a.keys[position]? = some child) :
    ∃ e, entry K series a message key position = .ok e
      ∧ (e = [] ↔ ¬ series.Holds key)
      ∧ (e = [] ∨ RawSignature.Genuine K message child e) := by
  have hnone : series.privateKeyFor? key = none ↔ ¬ series.Holds key :=
    hb.wellFormed.privateKeyFor?_eq_none_iff
  unfold entry
  cases hfound : series.privateKeyFor? key with
  | none => exact ⟨[], rfl, iff_of_true rfl (hnone.mp hfound), Or.inl rfl⟩
  | some priv =>
      obtain ⟨secret, hsecret, hpublic⟩ := hK.derives hb.unhardened
        (hb.wellFormed.neuter_of_found hfound) hchild
      obtain ⟨hverify, hlow⟩ := hK.signs hb.unhardened hsecret hpublic message
      have hgenuine := RawSignature.genuine_ofSignature hverify hlow
      refine ⟨RawSignature.ofSignature (K.sign secret message), ?_, ?_, Or.inr hgenuine⟩
      · simp only [hsecret, hposition, if_pos hpublic]
      · refine iff_of_false hgenuine.ne_nil (not_not_intro ?_)
        by_contra hmissing
        rw [hnone.mpr hmissing] at hfound
        cases hfound

/-- The entries for the keys from a position on, whose children are the rest of the address. -/
theorem entries_ok (hK : K.Lawful) (hb : b.Derives K a series ordered) (message : Hash256)
    {keys : List Xpub} {children : List PublicKey} {position : Nat}
    (hrest : a.keys.drop position = children)
    (hchildren : List.Forall₂ (fun key child => K.childPublic? key a.index.val = some child) keys
      children) :
    ∃ entries, (keys.zipIdx position).mapM
        (fun (key, position) => entry K series a message key position) = .ok entries
      ∧ List.Forall₂ (fun key entry => entry = [] ↔ ¬ series.Holds key) keys entries
      ∧ Aligned K message children entries := by
  -- the induction goes along the keys, and `position` counts the children that are behind
  induction hchildren generalizing position with
  | nil => exact ⟨[], rfl, .nil, .nil⟩
  | @cons key child keys children hchild _ ih =>
      have hposition : a.keys[position]? = some child := by
        rw [← List.head?_drop, hrest]
        rfl
      have hnext : a.keys.drop (position + 1) = children := by
        rw [← List.drop_drop, hrest]
        rfl
      obtain ⟨e, hentry, hempty, hgenuine⟩ := entry_ok hK hb message hchild hposition
      obtain ⟨entries, hentries, hanswers, haligned⟩ := ih hnext
      refine ⟨e :: entries, ?_, .cons hempty hanswers, .cons hgenuine haligned⟩
      rw [List.zipIdx_cons]
      exact mapM_eq_ok_iff.mpr (.cons hentry (mapM_eq_ok_iff.mp hentries))

/-- The entries for an input are made key by key. -/
theorem inputSignatures_eq (hfound : b.find? a.series = some series)
    (horder : branchOrder series.pubs a.branch = .ok ordered)
    (hindex : a.index.isUnhardened = true) (tx : Tx) (no : Nat) :
    inputSignatures K b tx no a = ordered.zipIdx.mapM fun (key, position) =>
      entry K series a (tx.sighash no a.redeem) key position := by
  have horder' : (branchOrder series.pubs a.branch).mapError RawSigningError.branch
      = .ok ordered := by
    rw [horder]
    rfl
  unfold inputSignatures
  simp only [hfound, horder', Except.ok_bind, hindex]
  rfl

/-- **A member answers for an input**, with entries that are aligned with the redeem script. -/
theorem inputSignatures_ok (hK : K.Lawful) (hb : b.Derives K a series ordered) (tx : Tx)
    (no : Nat) :
    ∃ entries, inputSignatures K b tx no a = .ok entries ∧ b.Answers b.Holds a entries
      ∧ Aligned K (tx.sighash no a.redeem) a.keys entries := by
  obtain ⟨entries, hentries, hanswers, haligned⟩ := entries_ok hK hb (tx.sighash no a.redeem)
    (List.drop_zero : a.keys.drop 0 = a.keys) hb.children
  have hheld : List.Forall₂ (fun key entry => entry = [] ↔ ¬ b.Holds a.series key) ordered
      entries := by
    refine hanswers.imp fun key entry hentry => ?_
    rw [hentry, SeriesBook.holds_iff hb.found]
  refine ⟨entries, ?_, ⟨series, ordered, hb.found, hb.order, hheld⟩, haligned⟩
  rw [inputSignatures_eq hb.found hb.order hb.unhardened]
  exact hentries

/-! ## All inputs of a transaction -/

/-- Entries for the inputs of a transaction at given addresses, each aligned with its address. -/
def TxAligned (K : KeyScheme) (tx : Tx) (no : Nat) (addresses : List PoolAddress)
    (sigs : TxSignatures) : Prop :=
  List.Forall₂ (fun (a, no) entries => Aligned K (tx.sighash no a.redeem) a.keys entries)
    (addresses.zipIdx no) sigs

theorem inputs_ok (hK : K.Lawful) (tx : Tx) {credits : List PoolCredit}
    (hcredits : ∀ c ∈ credits, ∃ series ordered, b.Derives K c.address series ordered) (no : Nat) :
    ∃ sigs, (credits.zipIdx no).mapM
        (fun (credit, no) => inputSignatures K b tx no credit.address) = .ok sigs
      ∧ List.Forall₂ (b.Answers b.Holds) (credits.map (·.address)) sigs
      ∧ TxAligned K tx no (credits.map (·.address)) sigs := by
  induction credits generalizing no with
  | nil => exact ⟨[], rfl, .nil, .nil⟩
  | cons credit rest ih =>
      obtain ⟨series, ordered, hb⟩ := hcredits credit List.mem_cons_self
      obtain ⟨entries, hentries, hanswers, haligned⟩ := inputSignatures_ok hK hb tx no
      obtain ⟨sigs, hsigs, hothers, halign⟩ :=
        ih (fun c hc => hcredits c (List.mem_cons_of_mem credit hc)) (no + 1)
      refine ⟨entries :: sigs, ?_, .cons hanswers hothers, .cons haligned halign⟩
      rw [List.zipIdx_cons]
      exact mapM_eq_ok_iff.mpr (.cons hentries (mapM_eq_ok_iff.mp hsigs))

/-- **A member answers for every input of a transaction.** -/
theorem rawSignatures_ok (hK : K.Lawful) {tx : Tx} {credits : List PoolCredit}
    (hcount : tx.inputs.length = credits.length)
    (hcredits : ∀ c ∈ credits, ∃ series ordered, b.Derives K c.address series ordered) :
    ∃ sigs, rawSignatures K b tx credits = .ok sigs
      ∧ List.Forall₂ (b.Answers b.Holds) (credits.map (·.address)) sigs
      ∧ TxAligned K tx 0 (credits.map (·.address)) sigs := by
  obtain ⟨sigs, hsigs, hanswers, haligned⟩ := inputs_ok hK tx hcredits 0
  refine ⟨sigs, ?_, hanswers, haligned⟩
  unfold rawSignatures
  rw [if_neg (not_not_intro hcount)]
  exact hsigs

end Signing

end NotaryPool
