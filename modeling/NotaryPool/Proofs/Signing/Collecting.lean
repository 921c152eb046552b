import NotaryPool.Proofs.OrderedMap
import NotaryPool.Proofs.Signing.Entries
import NotaryPool.Withdrawal.Status

/-!
# Collecting the entries of all members

Each member sends a map from transactions to its entries. The maps are merged place by place: where
one member has no entry, that of another is taken.

## Contents

* `Signing.mergeEntry`, `Signing.mergeTx`, `Signing.mergeAll`: merging the entries of two members.
* `RoundStatus.collect`, `RoundStatus.find?_collect`: **what is collected for a transaction.**
-/

namespace NotaryPool

namespace Signing

variable {K : KeyScheme}

/-! ## Merging entries -/

/-- The entry of one member, or that of another where it is empty. -/
def mergeEntry (e e' : RawSignature) : RawSignature := if e.isEmpty then e' else e

/-- The entries of two members for a transaction, merged place by place. -/
def mergeTx (sigs sigs' : TxSignatures) : TxSignatures :=
  List.zipWith (List.zipWith mergeEntry) sigs sigs'

/-- The entries for a transaction, merged with those that a map has for it, if any. -/
def mergeFound (m : OrderedMap Hash256 TxSignatures) (id : Hash256) (sigs : TxSignatures) :
    TxSignatures :=
  match m.find? id with
  | some sigs' => mergeTx sigs sigs'
  | none => sigs

/-- The entries of two members for all transactions of the first one. -/
def mergeAll (m m' : OrderedMap Hash256 TxSignatures) : OrderedMap Hash256 TxSignatures :=
  ⟨m.entries.map fun (id, sigs) => (id, mergeFound m' id sigs)⟩

theorem find?_mergeAll (m m' : OrderedMap Hash256 TxSignatures) (id : Hash256) :
    (mergeAll m m').find? id = (m.find? id).map (mergeFound m' id) := by
  obtain ⟨entries⟩ := m
  unfold mergeAll OrderedMap.find?
  induction entries with
  | nil => rfl
  | cons e rest ih =>
      rw [List.map_cons, List.find?_cons, List.find?_cons]
      by_cases hid : e.1 = id
      · simp [hid]
      · simpa [hid] using ih

/-- What two members have for each place, and merging makes of it. -/
theorem forall₂_zipWith {α β : Type} {R R' S : α → β → Prop} {merge : β → β → β}
    (hmerge : ∀ a b b', R a b → R' a b' → S a (merge b b')) {as : List α} {bs bs' : List β}
    (h : List.Forall₂ R as bs) (h' : List.Forall₂ R' as bs') :
    List.Forall₂ S as (List.zipWith merge bs bs') := by
  induction h generalizing bs' with
  | nil =>
      cases h'
      exact .nil
  | cons hfirst _ ih =>
      cases h' with
      | cons hfirst' hrest' => exact .cons (hmerge _ _ _ hfirst hfirst') (ih hrest')

theorem mergeEntry_eq_nil_iff {e e' : RawSignature} : mergeEntry e e' = [] ↔ e = [] ∧ e' = [] := by
  cases e with
  | nil => simp [mergeEntry]
  | cons b rest => simp [mergeEntry]

theorem Aligned.merge {message : Hash256} {keys : List PublicKey}
    {entries entries' : InputSignatures} (h : Aligned K message keys entries)
    (h' : Aligned K message keys entries') :
    Aligned K message keys (List.zipWith mergeEntry entries entries') := by
  refine forall₂_zipWith ?_ h h'
  intro key e e' he he'
  unfold mergeEntry
  split
  · exact he'
  · exact he

theorem TxAligned.merge {tx : Tx} {no : Nat} {addresses : List PoolAddress}
    {sigs sigs' : TxSignatures} (h : TxAligned K tx no addresses sigs)
    (h' : TxAligned K tx no addresses sigs') :
    TxAligned K tx no addresses (mergeTx sigs sigs') := by
  refine forall₂_zipWith ?_ h h'
  rintro ⟨a, no⟩ entries entries' haligned haligned'
  exact Aligned.merge haligned haligned'

/-- Merged entries are empty just where neither of the private parts is held. -/
theorem answers_merge {b : SeriesBook} {held held' : SeriesId → Xpub → Prop} {a : PoolAddress}
    {entries entries' : InputSignatures} (h : b.Answers held a entries)
    (h' : b.Answers held' a entries') :
    b.Answers (fun id key => held id key ∨ held' id key) a
      (List.zipWith mergeEntry entries entries') := by
  obtain ⟨series, ordered, hfound, horder, hentries⟩ := h
  obtain ⟨series', ordered', hfound', horder', hentries'⟩ := h'
  obtain rfl : series = series' := Option.some.inj (hfound.symm.trans hfound')
  obtain rfl : ordered = ordered' := Except.ok.inj (horder.symm.trans horder')
  refine ⟨series, ordered, hfound, horder, forall₂_zipWith ?_ hentries hentries'⟩
  intro key e e' he he'
  rw [mergeEntry_eq_nil_iff, he, he', not_or]

end Signing

/-- The private part of a key is attached in one of several books. -/
def SeriesBook.HeldBy (members : List SeriesBook) (id : SeriesId) (key : Xpub) : Prop :=
  ∃ b ∈ members, b.Holds id key

theorem SeriesBook.heldBy_singleton (b : SeriesBook) (id : SeriesId) (key : Xpub) :
    HeldBy [b] id key ↔ b.Holds id key := by
  simp [HeldBy]

theorem SeriesBook.heldBy_cons (b : SeriesBook) (rest : List SeriesBook) (id : SeriesId)
    (key : Xpub) : HeldBy (b :: rest) id key ↔ HeldBy [b] id key ∨ HeldBy rest id key := by
  simp [HeldBy]

namespace RoundStatus

/-- The entries of all members, merged place by place. -/
def collect (statuses : List RoundStatus) : OrderedMap Hash256 TxSignatures :=
  statuses.foldr (fun s sigs => Signing.mergeAll s.sigs sigs) .empty

theorem find?_collect_cons (s : RoundStatus) (rest : List RoundStatus) (id : Hash256) :
    (collect (s :: rest)).find? id
      = (s.sigs.find? id).map (Signing.mergeFound (collect rest) id) :=
  Signing.find?_mergeAll s.sigs (collect rest) id

/-- **What each member has for a transaction, and merging keeps, holds of what is collected.** -/
theorem find?_collect {ι : Type} {id : Hash256} {Q : List ι → TxSignatures → Prop}
    (hmerge : ∀ b rest sigs sigs', Q [b] sigs → Q rest sigs' →
      Q (b :: rest) (Signing.mergeTx sigs sigs'))
    {members : List ι} {statuses : List RoundStatus} (hsome : statuses ≠ [])
    (h : List.Forall₂ (fun b s => ∃ sigs, s.sigs.find? id = some sigs ∧ Q [b] sigs) members
      statuses) :
    ∃ sigs, (collect statuses).find? id = some sigs ∧ Q members sigs := by
  induction h with
  | nil => exact absurd rfl hsome
  | @cons b s members statuses hfirst hrest ih =>
      obtain ⟨sigs, hfound, hsigs⟩ := hfirst
      rw [find?_collect_cons, hfound, Option.map_some]
      refine ⟨_, rfl, ?_⟩
      cases hrest with
      | nil => exact hsigs -- there is nothing that the last member's entries are merged with
      | cons _ _ =>
          obtain ⟨sigs', hfound', hsigs'⟩ := ih (List.cons_ne_nil _ _)
          unfold Signing.mergeFound
          rw [hfound']
          exact hmerge _ _ _ _ hsigs hsigs'

end RoundStatus

end NotaryPool
