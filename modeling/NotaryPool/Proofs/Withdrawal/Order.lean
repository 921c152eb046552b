import Mathlib.Data.List.Nodup
import NotaryPool.Proofs.Withdrawal.Loop

/-!
# The orders of credits and requests

Members agree on a round because each of them sorts what it has to distribute. This module shows
that the orders are total, that no two of the things sorted are equal in them, and so that sorting
forgets in which order these came.

## Contents

* `mergeSort_eq_of_perm`: sorting by an order without ties forgets where things stood.
* `PoolCredit.key`, `PoolCredit.sort_eq_of_perm`: credits.
* `Round.sortBy_eq_of_perm`: requests still to be paid.
* `Round.parted_of_perm`, `Round.prepared_eq_of_perm`: **what a round makes of its requests.**
-/

namespace NotaryPool

open Std

/-- What is sorted by an order stands in it. -/
theorem pairwise_mergeSort_of_transCmp {α : Type} (cmp : α → α → Ordering) [TransCmp cmp]
    (as : List α) :
    (as.mergeSort fun a b => cmp a b != .gt).Pairwise fun a b => (cmp a b).isLE = true := by
  have hle : ∀ a b, (cmp a b != .gt) = (cmp a b).isLE := by
    intro a b
    cases cmp a b <;> rfl
  have htrans : ∀ a b c, cmp a b != .gt → cmp b c != .gt → cmp a c != .gt := by
    intro a b c hab hbc
    rw [hle] at hab hbc ⊢
    exact TransCmp.isLE_trans hab hbc
  -- of two that are out of order the other way round is in order
  have htotal : ∀ a b, ((cmp a b != .gt) || (cmp b a != .gt)) = true := by
    intro a b
    have hswap : cmp b a = (cmp a b).swap := OrientedCmp.eq_swap
    rw [hswap]
    cases cmp a b <;> rfl
  refine (List.pairwise_mergeSort htrans htotal as).imp ?_
  intro a b hab
  rwa [hle] at hab

/-- Sorting by an order in which no two members are equal forgets where they stood. -/
theorem mergeSort_eq_of_perm {α : Type} (cmp : α → α → Ordering) [TransCmp cmp] {as bs : List α}
    (hties : ∀ a ∈ as, ∀ b ∈ as, cmp a b = .eq → a = b) (h : as.Perm bs) :
    as.mergeSort (fun a b => cmp a b != .gt) = bs.mergeSort (fun a b => cmp a b != .gt) := by
  refine List.Perm.eq_of_pairwise ?_ (pairwise_mergeSort_of_transCmp cmp as)
    (pairwise_mergeSort_of_transCmp cmp bs) ?_
  · intro a b ha hb hab hba
    have ha' : a ∈ as := List.mem_mergeSort.mp ha
    have hb' : b ∈ as := h.mem_iff.mpr (List.mem_mergeSort.mp hb)
    exact hties a ha' b hb' (OrientedCmp.isLE_antisymm hab hba)
  · exact (List.mergeSort_perm as _).trans (h.trans (List.mergeSort_perm bs _).symm)

/-! ## Byte strings -/

theorem Bytes.compare_eq_compareLex : Bytes.compare = List.compareLex (compare (α := UInt8)) := by
  funext as bs
  induction as generalizing bs with
  | nil => cases bs <;> rfl
  | cons a as ih =>
      cases bs with
      | nil => rfl
      | cons b bs =>
          rw [Bytes.compare, ih, List.compareLex_cons_cons]

instance : TransCmp Bytes.compare := by
  rw [Bytes.compare_eq_compareLex]
  infer_instance

instance : LawfulEqCmp Bytes.compare := by
  rw [Bytes.compare_eq_compareLex]
  infer_instance

/-! ## Credits -/

/-- The order of the images under a function. -/
theorem transCmp_on {α β : Type} (f : α → β) (cmp : β → β → Ordering) [TransCmp cmp] :
    TransCmp fun a b => cmp (f a) (f b) where
  eq_swap {a b} := OrientedCmp.eq_swap (a := f a) (b := f b)
  isLE_trans {a b c} := TransCmp.isLE_trans (a := f a) (b := f b) (c := f c)

/-- What tells credits apart: their address, by series, index and branch, and their output. -/
def PoolCredit.key (c : PoolCredit) : SeriesId × Index × Branch × Hash256 × UInt32 :=
  (c.address.series, c.address.index, c.address.branch, c.outpoint.txid, c.outpoint.vout)

namespace PoolCredit

instance : TransCmp PoolCredit.order :=
  have := transCmp_on (fun c : PoolCredit => c.outpoint.txid.toList) Bytes.compare
  inferInstanceAs <| TransCmp <|
    compareLex (compareOn fun c : PoolCredit => c.address.series.val) <|
    compareLex (compareOn fun c => c.address.index.val) <|
    compareLex (compareOn fun c => c.address.branch.val) <|
    compareLex (fun a b => Bytes.compare a.outpoint.txid.toList b.outpoint.txid.toList) <|
    compareOn fun c => c.outpoint.vout

/-- Credits that are equal in the order have the same key. -/
theorem key_eq_of_order {a b : PoolCredit} (h : order a b = .eq) : a.key = b.key := by
  unfold order at h
  simp only [Ordering.then_eq_eq, LawfulEqCmp.compare_eq_iff_eq] at h
  obtain ⟨hseries, hindex, hbranch, htxid, hvout⟩ := h
  have hseries' : a.address.series = b.address.series := congrArg SeriesId.mk hseries
  have hindex' : a.address.index = b.address.index := congrArg Index.mk hindex
  have hbranch' : a.address.branch = b.address.branch := congrArg Branch.mk hbranch
  have htxid' : a.outpoint.txid = b.outpoint.txid := Vector.toList_inj.mp htxid
  unfold key
  rw [hseries', hindex', hbranch', htxid', hvout]

/-- Credits with the same key are equal in the order. -/
theorem order_of_key_eq {a b : PoolCredit} (h : a.key = b.key) : order a b = .eq := by
  unfold key at h
  simp only [Prod.mk.injEq] at h
  obtain ⟨hseries, hindex, hbranch, htxid, hvout⟩ := h
  unfold order
  simp only [hseries, hindex, hbranch, htxid, hvout, ReflCmp.compare_self]
  rfl

/-- Credits with distinct keys are sorted alike, however they came. -/
theorem sort_eq_of_perm {as bs : List PoolCredit} (hkeys : (as.map key).Nodup)
    (h : as.Perm bs) : sort as = sort bs := by
  apply mergeSort_eq_of_perm order _ h
  intro a ha b hb heq
  exact List.inj_on_of_nodup_map hkeys ha hb (key_eq_of_order heq)

end PoolCredit

/-! ## Requests -/

instance : TransCmp RequestId.order :=
  inferInstanceAs <| TransCmp <| compareLex (compareOn RequestId.server)
    (compareOn RequestId.transaction)

instance : LawfulEqCmp RequestId.order where
  compare_self := ReflCmp.compare_self
  eq_of_compare := by
    intro a b h
    unfold RequestId.order at h
    simp only [Ordering.then_eq_eq, LawfulEqCmp.compare_eq_iff_eq] at h
    cases a
    cases b
    simpa using h

instance : TransCmp OutputRequest.order :=
  have := transCmp_on (fun r : OutputRequest => r.id.hash.toList) Bytes.compare
  have := transCmp_on OutputRequest.id RequestId.order
  inferInstanceAs <| TransCmp <|
    compareLex (fun a b : OutputRequest => Bytes.compare a.id.hash.toList b.id.hash.toList)
      fun a b => a.id.order b.id

/-- Requests that are equal in the order have the same identity, also where hashes collide. -/
theorem OutputRequest.id_eq_of_order {a b : OutputRequest} (h : order a b = .eq) :
    a.id = b.id := by
  unfold order at h
  rw [Ordering.then_eq_eq] at h
  exact LawfulEqCmp.eq_of_compare h.2

namespace Round

/-- The order of processing, for requests still to be paid. -/
def dueOrder (a b : DueRequest) : Ordering := OutputRequest.order a.request b.request

instance : TransCmp dueOrder := transCmp_on DueRequest.request OutputRequest.order

instance : TransCmp dropOrder :=
  have := transCmp_on (fun due : DueRequest => due.request.amount) (fun a b : Nat => compare b a)
  inferInstanceAs <| TransCmp <|
    compareLex (fun a b : DueRequest => compare b.request.amount a.request.amount) dueOrder

theorem id_eq_of_dropOrder {a b : DueRequest} (h : dropOrder a b = .eq) :
    a.request.id = b.request.id := by
  unfold dropOrder at h
  rw [Ordering.then_eq_eq] at h
  exact OutputRequest.id_eq_of_order h.2

/-- Requests with distinct identities are sorted alike, however they came. -/
theorem sortBy_eq_of_perm (order : DueRequest → DueRequest → Ordering) [TransCmp order]
    (horder : ∀ {a b}, order a b = .eq → a.request.id = b.request.id) {as bs : List DueRequest}
    (hids : (as.map (·.request.id)).Nodup) (h : as.Perm bs) :
    sortBy order as = sortBy order bs := by
  apply mergeSort_eq_of_perm order _ h
  intro a ha b hb heq
  exact List.inj_on_of_nodup_map hids ha hb (horder heq)

theorem requested_eq_of_perm {as bs : List DueRequest} (h : as.Perm bs) :
    requested as = requested bs := by
  unfold requested Amount.total
  rw [(h.map _).sum_nat]

/-- The requests that are dropped do not depend on how the requests came, nor does the set of the
others. -/
theorem parted_of_perm {r : Round} {pending : List DueRequest} (h : r.pending.Perm pending)
    (hids : (r.pending.map (·.request.id)).Nodup) :
    ({ r with pending } : Round).parted.1 = r.parted.1
      ∧ r.parted.2.Perm ({ r with pending } : Round).parted.2 := by
  unfold parted
  dsimp only
  rw [← requested_eq_of_perm h, ← sortBy_eq_of_perm dropOrder id_eq_of_dropOrder hids h]
  split
  · exact ⟨rfl, h⟩
  · exact ⟨rfl, List.Perm.refl _⟩

/-- **Sorting makes up for the order in which requests came.** -/
theorem prepared_eq_of_perm {r : Round} {pending : List DueRequest} (h : r.pending.Perm pending)
    (hids : (r.pending.map (·.request.id)).Nodup) :
    r.prepared = ({ r with pending } : Round).prepared := by
  obtain ⟨hdropped, hkept⟩ := parted_of_perm h hids
  have hkept_ids : (r.parted.2.map (·.request.id)).Nodup := by
    have hall := (r.parted_perm.map (·.request.id)).nodup_iff.mpr hids
    rw [List.map_append] at hall
    exact (List.nodup_append.mp hall).2.1
  have hsort : sortBy (fun a b => OutputRequest.order a.request b.request) r.parted.2
      = sortBy (fun a b => OutputRequest.order a.request b.request)
          ({ r with pending } : Round).parted.2 :=
    sortBy_eq_of_perm dueOrder OutputRequest.id_eq_of_order hkept_ids hkept
  rw [prepared_parted, prepared_parted, hdropped, hsort]

end Round

end NotaryPool
