import NotaryPool.Proofs.Withdrawal.Bystanders
import NotaryPool.Proofs.Withdrawal.Consistency
import NotaryPool.Proofs.Withdrawal.Order

/-!
# The order of the payments

A round takes its requests in the order of processing, and what it puts back, a payment that is too
much for its transaction or the rest of a request that has been split, goes in front again. So the
payments stand in that order to the end. The rest of a request is behind its first part and before
all others. It never joins the transaction with the first part, since that one has been closed when
the rest is taken; and the first part was alone there, since only a single payment is split to make
a transaction smaller.

## Contents

* `RequestId.Precedes`: the order of processing.
* `Round.line`, `Round.Turn.sorted`: what is paid and what is open stand in one line.
* `Round.Stacked`, `Round.Laid`, `Round.Turn.laid`: transactions that share a request.
* `Round.Consecutive`, `Round.Stacked.consecutive`: the transactions that pay a request.
* `Round.payments_in_order`: **the payments of a round.**
-/

namespace NotaryPool

open Std

variable {K : KeyScheme} {P : TxPolicy}

/-! ## The order of processing -/

/-- The order of processing, in which requests with one identity precede each other. -/
def RequestId.Precedes (a b : RequestId) : Prop :=
  ((Bytes.compare a.hash.toList b.hash.toList).then (a.order b)).isLE = true

namespace RequestId

/-- The order of processing looks at the identities of requests only. -/
theorem precedes_iff {a b : OutputRequest} :
    a.id.Precedes b.id ↔ (OutputRequest.order a b).isLE = true :=
  Iff.rfl

theorem Precedes.refl (a : RequestId) : a.Precedes a := by
  -- a request without an address and an amount stands for its identity
  have hself : OutputRequest.order ⟨"", 0, a⟩ ⟨"", 0, a⟩ = .eq := ReflCmp.compare_self
  show (OutputRequest.order ⟨"", 0, a⟩ ⟨"", 0, a⟩).isLE = true
  rw [hself]
  rfl

theorem Precedes.antisymm {a b : RequestId} (h : a.Precedes b) (h' : b.Precedes a) : a = b :=
  OutputRequest.id_eq_of_order (a := ⟨"", 0, a⟩) (b := ⟨"", 0, b⟩)
    (OrientedCmp.isLE_antisymm h h')

end RequestId

namespace Round

variable {r r' : Round} {n : Nat}

/-! ## One line of requests -/

/-- The requests that are paid and those that are open, in one line: those of the finalized
transactions, of the transaction under construction, and of the queue. -/
def line (r : Round) : List RequestId :=
  paidIds (r.finalized.flatMap (·.payments))
    ++ (paidIds r.current.payments ++ r.pending.map (·.request.id))

/-- The line is in the order of processing. -/
def Sorted (r : Round) : Prop := r.line.Pairwise RequestId.Precedes

/-- Closing the transaction under construction keeps the line. -/
theorem Finish.line_eq (h : Finish K P r r') : r'.line = r.line := by
  cases h with
  | idle hpayments => rfl
  | @closed draft next hpayments hchange hnext hnoted =>
      unfold line
      dsimp only
      rw [List.flatMap_append, List.flatMap_singleton, paidIds_append,
        Draft.addChange_payments hchange, List.append_assoc]
      rfl

/-- A request may stand twice where it stood once. -/
theorem pairwise_twice {α : Type} {R : α → α → Prop} (hrefl : ∀ a, R a a) {as bs : List α} {a : α}
    (h : (as ++ a :: bs).Pairwise R) : (as ++ a :: a :: bs).Pairwise R := by
  rw [List.pairwise_append, List.pairwise_cons] at h ⊢
  obtain ⟨has, ⟨habs, hbs⟩, hbetween⟩ := h
  refine ⟨has, ⟨?_, List.pairwise_cons.mpr ⟨habs, hbs⟩⟩, ?_⟩
  · intro b hb
    rcases List.mem_cons.mp hb with rfl | hb
    · exact hrefl b
    · exact habs b hb
  · intro b hb c hc
    rcases List.mem_cons.mp hc with rfl | hc
    · exact hbetween b hb c List.mem_cons_self
    · exact hbetween b hb c hc

section Serving

variable {due : DueRequest} {rest : List DueRequest} {taken left : List PoolCredit}

/-- The request in front stands between those that are paid and the others in the queue. -/
theorem line_front (h : Serves P r due rest taken left) :
    r.line = (paidIds (r.finalized.flatMap (·.payments)) ++ paidIds r.current.payments)
      ++ due.request.id :: rest.map (·.request.id) := by
  unfold line
  rw [h.front, List.append_assoc]
  rfl

/-- The rest of a request stands behind its first part. -/
theorem Sorted.cutting (hr : r.Sorted) (h : Serves P r due rest taken left) (draft : Draft)
    (eligible : List PoolCredit) (amount : Nat) :
    (((r.serving due rest taken left).restocked draft eligible).cutting due r.current.payments
      amount).Sorted := by
  unfold Sorted at hr ⊢
  rw [line_front h] at hr
  have hline : (((r.serving due rest taken left).restocked draft eligible).cutting due
        r.current.payments amount).line
      = (paidIds (r.finalized.flatMap (·.payments)) ++ paidIds r.current.payments)
        ++ due.request.id :: due.request.id :: rest.map (·.request.id) := by
    show paidIds (r.finalized.flatMap (·.payments))
      ++ (paidIds (r.current.payments ++ [⟨due.request, amount, due.script⟩])
        ++ due.request.id :: rest.map (·.request.id)) = _
    rw [paidIds_append, List.append_assoc, List.append_assoc]
    rfl
  rw [hline]
  exact pairwise_twice RequestId.Precedes.refl hr

end Serving

/-- **A turn keeps the order.** -/
theorem Turn.sorted {kind : TurnKind} (h : Turn K P r kind r') (hr : r.Sorted) : r'.Sorted := by
  cases h with
  | @paid due rest taken left hserves hsmall hfunded =>
      -- the request moves from the queue to the end of the draft, which is the same place
      have hline : (r.serving due rest taken left).line = r.line := by
        rw [line_front hserves]
        show paidIds (r.finalized.flatMap (·.payments))
          ++ (paidIds (r.current.payments ++ [due.whole]) ++ rest.map (·.request.id)) = _
        rw [paidIds_append, List.append_assoc, List.append_assoc]
        rfl
      unfold Sorted
      rw [hline]
      exact hr
  | cut hserves hsmall hunfunded hamount hpositive => exact hr.cutting hserves _ _ _
  | @removed due rest taken hserves hsmall hunfunded hnothing =>
      unfold Sorted at hr ⊢
      rw [line_front hserves, List.append_assoc] at hr
      exact hr.sublist (((List.sublist_cons_self _ _).append_left _).append_left _)
  | @halved due rest taken left inputs credit draft amount _ hserves hbig hfirst hinputs hdraft
      hfee hamount hfinish =>
      have hcut := hr.cutting hserves draft (credit :: left) amount
      rw [hfirst] at hcut
      unfold Sorted
      rw [(finish_cases hfinish).line_eq]
      exact hcut
  | @postponed due rest taken left kept back _ hserves hbig hmore hinputs hback hfunded hfinish =>
      unfold Sorted
      rw [(finish_cases hfinish).line_eq]
      exact hr

theorem After.sorted {start : Round} (hstart : start.Sorted) (h : After K P start n r) : r.Sorted :=
  After.invariant Sorted hstart (fun _ _ hr hturn => hturn.sorted hr) h

/-! ## Transactions that share a request -/

/-- A transaction with a single payment. -/
def Single (d : Draft) : Prop := ∃ p, d.payments = [p]

/-- Transactions, each with payments for different requests. One that shares a request with a later
one has no other payment. -/
structure Stacked (finalized : List Draft) : Prop where
  paying : ∀ d ∈ finalized, d.payments ≠ []
  nodup : ∀ d ∈ finalized, (paidIds d.payments).Nodup
  shared : finalized.Pairwise fun d d' =>
    ∀ id ∈ paidIds d.payments, id ∈ paidIds d'.payments → Single d

/-- The finalized transactions of a round are such transactions, also with regard to what is
open. -/
structure Laid (r : Round) : Prop extends Stacked r.finalized where
  opened : ∀ d ∈ r.finalized, ∀ id ∈ paidIds d.payments, id ∈ paidIds r.openParts → Single d

/-- A step that finalizes nothing and opens nothing. -/
theorem Laid.update (hr : r.Laid) (hspares : Spares r r')
    (hfinalized : r'.finalized = r.finalized) : r'.Laid := by
  refine ⟨hfinalized ▸ hr.toStacked, ?_⟩
  intro d hd id hid hopen
  rw [hfinalized] at hd
  exact hr.opened d hd id hid (hspares.opened id hopen)

/-- Closing a transaction with payments for different requests. -/
theorem Laid.finish (hr : r.Laid) (hnodup : (paidIds r.current.payments).Nodup)
    (h : Finish K P r r') : Stacked r'.finalized := by
  cases h with
  | idle hpayments => exact hr.toStacked
  | @closed draft next hpayments hchange hnext hnoted =>
      have hsame := Draft.addChange_payments hchange
      have hcurrent : ∀ id ∈ paidIds draft.payments, id ∈ paidIds r.openParts := by
        intro id hid
        rw [hsame] at hid
        unfold openParts
        rw [paidIds_append]
        exact List.mem_append_right _ hid
      constructor
      · intro d hd
        rcases List.mem_append.mp hd with hold | hnew
        · exact hr.paying d hold
        · rw [List.mem_singleton.mp hnew, hsame]
          exact hpayments
      · intro d hd
        rcases List.mem_append.mp hd with hold | hnew
        · exact hr.nodup d hold
        · rw [List.mem_singleton.mp hnew, hsame]
          exact hnodup
      · refine List.pairwise_append.mpr ⟨hr.shared, List.pairwise_singleton _ _, ?_⟩
        intro d hd d' hd' id hid hid'
        rw [List.mem_singleton.mp hd'] at hid'
        exact hr.opened d hd id hid (hcurrent id hid')

/-- Closing a transaction whose payments are for different requests and, unless it is a single one,
not for those in the queue. -/
theorem Laid.finish_turn (hr : r.Laid) (hnodup : (paidIds r.current.payments).Nodup)
    (hapart : ∀ d, d.payments = r.current.payments → ∀ id ∈ paidIds d.payments,
      id ∈ paidIds (r.pending.map DueRequest.whole) → Single d)
    (h : Finish K P r r') : r'.Laid := by
  refine ⟨hr.finish hnodup h, ?_⟩
  have hspares := h.spares
  cases h with
  | idle hpayments => exact hr.opened
  | @closed draft next hpayments hchange hnext hnoted =>
      intro d hd id hid hopen
      rcases List.mem_append.mp hd with hold | hnew
      · exact hr.opened d hold id hid (hspares.opened id hopen)
      · have hqueue : id ∈ paidIds (r.pending.map DueRequest.whole ++ []) := hopen
        rw [List.append_nil] at hqueue
        rw [List.mem_singleton.mp hnew] at hid ⊢
        exact hapart draft (Draft.addChange_payments hchange) id hid hqueue

/-- **A turn of a round in which no request has two open parts keeps the transactions so.** -/
theorem Turn.laid {kind : TurnKind} (h : Turn K P r kind r') (hdistinct : r.Distinct)
    (hr : r.Laid) : r'.Laid := by
  have hspares := h.spares
  cases h with
  | paid hserves hsmall hfunded => exact hr.update hspares rfl
  | cut hserves hsmall hunfunded hamount hpositive => exact hr.update hspares rfl
  | removed hserves hsmall hunfunded hnothing => exact hr.update hspares rfl
  | @halved due rest taken left inputs credit draft amount _ hserves hbig hfirst hinputs hdraft
      hfee hamount hfinish =>
      have hcut := Spares.cutting hserves draft (credit :: left) amount
      rw [hfirst] at hcut
      refine (hr.update hcut rfl).finish_turn (List.nodup_singleton _) ?_ (finish_cases hfinish)
      exact fun d hd _ _ _ => ⟨_, hd⟩
  | @postponed due rest taken left kept back _ hserves hbig hmore hinputs hback hfunded hfinish =>
      have hput := Spares.putBack hserves kept (back ++ left)
      -- what is in the draft is not in the queue
      unfold Distinct openParts at hdistinct
      rw [paidIds_append] at hdistinct
      obtain ⟨-, hnodup, hapart⟩ := List.nodup_append.mp hdistinct
      refine (hr.update hput rfl).finish_turn hnodup ?_ (finish_cases hfinish)
      intro d hd id hid hqueue
      rw [hd] at hid
      exact absurd rfl (hapart id hqueue id hid)

theorem After.laid {start : Round} (hstart : start.Laid) (hdistinct : start.Distinct)
    (h : After K P start n r) : r.Laid := by
  refine After.invariant Laid hstart ?_ h
  intro n r r' kind hafter hgo hr hturn
  exact hturn.laid (hafter.distinct hdistinct hgo) hr

theorem Distinct.nodup_current (hr : r.Distinct) : (paidIds r.current.payments).Nodup := by
  unfold Distinct openParts at hr
  rw [paidIds_append] at hr
  exact (List.nodup_append.mp hr).2.1

/-- After a turn the payments under construction are for different requests, also where the turn has
split the last of them. -/
theorem Turn.nodup_current {kind : TurnKind} (h : Turn K P r kind r') (hdistinct : r.Distinct) :
    (paidIds r'.current.payments).Nodup := by
  cases h with
  | paid hserves hsmall hfunded =>
      exact (hdistinct.of_perm (openParts_serving hserves)).nodup_current
  | @cut due rest taken amount hserves hsmall hunfunded hamount hpositive =>
      have hserving := (hdistinct.of_perm (openParts_serving hserves)).nodup_current
      have hids : paidIds (r.current.payments ++ [⟨due.request, amount, due.script⟩])
          = paidIds (r.current.payments ++ [due.whole]) := by
        rw [paidIds_append, paidIds_append]
        rfl
      show (paidIds (r.current.payments ++ [⟨due.request, amount, due.script⟩])).Nodup
      rw [hids]
      exact hserving
  | removed hserves hsmall hunfunded hnothing => exact hdistinct.nodup_current
  | halved hserves hbig hfirst hinputs hdraft hfee hamount hfinish =>
      rw [(finish_cases hfinish).payments_eq_nil]
      exact List.nodup_nil
  | postponed hserves hbig hmore hinputs hback hfunded hfinish =>
      rw [(finish_cases hfinish).payments_eq_nil]
      exact List.nodup_nil

theorem After.nodup_current {start : Round} (hstart : start.Distinct)
    (h : After K P start n r) :
    (paidIds r.current.payments).Nodup := by
  cases h with
  | zero => exact hstart.nodup_current
  | succ hafter hgo hok =>
      obtain ⟨kind, hturn⟩ := hgo.turn hok
      exact hturn.nodup_current (hafter.distinct hstart hgo)

/-! ## The transactions that pay a request -/

/-- The transactions that pay a request stand together. Each but the last has no other payment, and
the last has one payment for the request, which is its first if there are others. -/
inductive Consecutive (id : RequestId) (finalized : List Draft) : Prop
  | intro {before full : List Draft} {last : Draft} {after : List Draft} {ps : List Payment}
      {p : Payment} {qs : List Payment} (hparts : finalized = before ++ (full ++ last :: after))
      (hothers : ∀ d ∈ before ++ after, id ∉ paidIds d.payments)
      (hfull : ∀ d ∈ full, ∃ p, d.payments = [p] ∧ p.request.id = id)
      (hlast : last.payments = ps ++ p :: qs) (hid : p.request.id = id)
      (honce : id ∉ paidIds (ps ++ qs)) (hfirst : full ≠ [] → ps = []) :
      Consecutive id finalized

theorem pairwise_flatMap_payments {R : RequestId → RequestId → Prop} {ds : List Draft} :
    (paidIds (ds.flatMap (·.payments))).Pairwise R
      ↔ (∀ d ∈ ds, (paidIds d.payments).Pairwise R)
        ∧ ds.Pairwise fun d d' => ∀ a ∈ paidIds d.payments, ∀ b ∈ paidIds d'.payments, R a b := by
  unfold paidIds
  rw [List.map_flatMap, List.pairwise_flatMap]

theorem mem_flatMap_payments {id : RequestId} {ds : List Draft} :
    id ∈ paidIds (ds.flatMap (·.payments)) ↔ ∃ d ∈ ds, id ∈ paidIds d.payments := by
  unfold paidIds
  rw [List.map_flatMap, List.mem_flatMap]

/-- A transaction that does not pay the request in front of the others. -/
theorem Consecutive.cons {id : RequestId} {ds : List Draft} (h : Consecutive id ds) {d : Draft}
    (hd : id ∉ paidIds d.payments) : Consecutive id (d :: ds) := by
  cases h with
  | @intro before full last after ps p qs hparts hothers hfull hlast hid honce hfirst =>
      have hparts' : d :: ds = (d :: before) ++ (full ++ last :: after) :=
        congrArg (d :: ·) hparts
      refine .intro hparts' ?_ hfull hlast hid honce hfirst
      intro d' hd'
      rcases List.mem_cons.mp hd' with rfl | hd'
      · exact hd
      · exact hothers d' hd'

/-- A transaction that pays nothing but the request in front of the others. -/
theorem Consecutive.cons_full {id : RequestId} {ds : List Draft} (h : Consecutive id ds)
    {d : Draft} {p : Payment} (hd : d.payments = [p]) (hp : p.request.id = id)
    (hpaying : ∀ d' ∈ ds, d'.payments ≠ [])
    (hwithin : ∀ d' ∈ ds, (paidIds d'.payments).Pairwise RequestId.Precedes)
    (hbetween : ds.Pairwise fun d d' =>
      ∀ a ∈ paidIds d.payments, ∀ b ∈ paidIds d'.payments, a.Precedes b)
    (hahead : ∀ d' ∈ ds, ∀ a ∈ paidIds d'.payments, id.Precedes a) :
    Consecutive id (d :: ds) := by
  cases h with
  | @intro before full last after ps q qs hparts hothers hfull hlast hid honce hfirst =>
      have hmem : last ∈ ds := by
        rw [hparts]
        exact List.mem_append_right _ (List.mem_append_right _ List.mem_cons_self)
      have hpays : id ∈ paidIds last.payments := by
        rw [hlast, ← hid]
        exact List.mem_map_of_mem (List.mem_append_right _ List.mem_cons_self)
      -- whatever stood between the two payments would be for the same request
      have hbefore : before = [] := by
        cases before with
        | nil => rfl
        | cons b others =>
            have hb : b ∈ ds := by
              rw [hparts]
              exact List.mem_append_left _ List.mem_cons_self
            obtain ⟨x, xs, hx⟩ := List.exists_cons_of_ne_nil (hpaying b hb)
            have hxb : x.request.id ∈ paidIds b.payments := by
              rw [hx]
              exact List.mem_cons_self
            rw [hparts] at hbetween
            have hxlast := (List.pairwise_append.mp hbetween).2.2 b List.mem_cons_self last
              (List.mem_append_right _ List.mem_cons_self) _ hxb id hpays
            have hsame := (hahead b hb _ hxb).antisymm hxlast
            exact absurd (hsame ▸ hxb) (hothers b List.mem_cons_self)
      have hps : ps = [] := by
        cases ps with
        | nil => rfl
        | cons x xs =>
            have hx : x.request.id ∈ paidIds last.payments := by
              rw [hlast]
              exact List.mem_cons_self
            have hsorted := hwithin last hmem
            rw [hlast, paidIds_append] at hsorted
            have hxq := (List.pairwise_append.mp hsorted).2.2 x.request.id List.mem_cons_self
              q.request.id List.mem_cons_self
            rw [hid] at hxq
            have hsame := (hahead last hmem _ hx).antisymm hxq
            exact absurd (hsame ▸ List.mem_cons_self) honce
      subst hbefore
      have hparts' : d :: ds = [] ++ (d :: full ++ last :: after) := congrArg (d :: ·) hparts
      refine .intro hparts' hothers ?_ hlast hid honce fun _ => hps
      intro d' hd'
      rcases List.mem_cons.mp hd' with rfl | hd'
      · exact ⟨p, hd, hp⟩
      · exact hfull d' hd'

/-- **The transactions that pay a request stand together**, when they are in order and only single
payments are shared. -/
theorem Stacked.consecutive {ds : List Draft} (h : Stacked ds)
    (hsorted : (paidIds (ds.flatMap (·.payments))).Pairwise RequestId.Precedes) {id : RequestId}
    (hid : id ∈ paidIds (ds.flatMap (·.payments))) : Consecutive id ds := by
  induction ds with
  | nil => cases hid
  | cons d rest ih =>
      obtain ⟨hpaying, hnodup, hshared⟩ := h
      rw [List.pairwise_cons] at hshared
      obtain ⟨hwithin, hbetween⟩ := pairwise_flatMap_payments.mp hsorted
      rw [List.pairwise_cons] at hbetween
      have hrest : Stacked rest :=
        ⟨fun d' hd' => hpaying d' (List.mem_cons_of_mem d hd'),
          fun d' hd' => hnodup d' (List.mem_cons_of_mem d hd'), hshared.2⟩
      have hwithin' : ∀ d' ∈ rest, (paidIds d'.payments).Pairwise RequestId.Precedes :=
        fun d' hd' => hwithin d' (List.mem_cons_of_mem d hd')
      by_cases hlater : id ∈ paidIds (rest.flatMap (·.payments))
      · have hconsecutive := ih hrest (pairwise_flatMap_payments.mpr ⟨hwithin', hbetween.2⟩) hlater
        by_cases hd : id ∈ paidIds d.payments
        · obtain ⟨d', hd', hid'⟩ := mem_flatMap_payments.mp hlater
          obtain ⟨p, hp⟩ := hshared.1 d' hd' id hd hid'
          have hsame : p.request.id = id := by
            rw [hp] at hd
            exact (List.mem_singleton.mp hd).symm
          exact hconsecutive.cons_full hp hsame hrest.paying hwithin' hbetween.2
            fun d' hd' => hbetween.1 d' hd' id hd
        · exact hconsecutive.cons hd
      · -- the first transaction is the only one for the request
        have hd : id ∈ paidIds d.payments := by
          rw [List.flatMap_cons, paidIds_append] at hid
          exact (List.mem_append.mp hid).resolve_right hlater
        obtain ⟨p, hp, hpid⟩ := List.mem_map.mp hd
        obtain ⟨ps, qs, hps⟩ := List.append_of_mem hp
        have hparts : d :: rest = [] ++ ([] ++ d :: rest) := rfl
        refine .intro hparts ?_ ?_ hps hpid ?_ fun hne => absurd rfl hne
        · exact fun d' hd' hpaid => hlater (mem_flatMap_payments.mpr ⟨d', hd', hpaid⟩)
        · exact fun d' hd' => absurd hd' List.not_mem_nil
        · have honce := hnodup d List.mem_cons_self
          rw [hps, paidIds_append] at honce
          have hmiddle : (paidIds ps ++ p.request.id :: paidIds qs).Nodup := honce
          rw [List.nodup_middle, List.nodup_cons, hpid, ← paidIds_append] at hmiddle
          exact hmiddle.1

/-! ## A whole round -/

theorem sorted_prepared (hcurrent : r.current.payments = []) (hfinalized : r.finalized = []) :
    r.prepared.Sorted := by
  have hline : r.prepared.line
      = (sortBy dueOrder r.parted.2).map (·.request.id) := by
    unfold line
    rw [prepared_parted]
    dsimp only
    rw [hcurrent, hfinalized]
    rfl
  unfold Sorted
  rw [hline, List.pairwise_map]
  exact (pairwise_mergeSort_of_transCmp dueOrder r.parted.2).imp RequestId.precedes_iff.mpr

theorem laid_of_nil (h : r.finalized = []) : r.Laid := by
  refine ⟨⟨?_, ?_, ?_⟩, ?_⟩
  · exact fun d hd => absurd (h ▸ hd) List.not_mem_nil
  · exact fun d hd => absurd (h ▸ hd) List.not_mem_nil
  · rw [h]
    exact List.Pairwise.nil
  · exact fun d hd => absurd (h ▸ hd) List.not_mem_nil

/-- **The payments of a round stand in the order of processing.** When a round ends well, the
requests of its payments, transaction after transaction, are in the order of processing; no
transaction has two payments for one request; and the transactions that pay a request stand
together, each but the last of them with this payment only, and the last with this payment first. -/
theorem payments_in_order {network : AddressNetwork} {requests : List OutputRequest}
    {credits : List PoolCredit} {changeStart : ChangeAddress} {start final : Round}
    (hnew : new network requests credits changeStart = .ok start)
    (hfulfil : start.fulfil K P = .ok final) :
    (((final.finalized.flatMap (·.payments)).map (·.request)).Pairwise fun a b =>
        (OutputRequest.order a b).isLE = true)
      ∧ (∀ d ∈ final.finalized, (d.payments.map (·.request.id)).Nodup)
      ∧ ∀ d ∈ final.finalized, ∀ p ∈ d.payments, Consecutive p.request.id final.finalized := by
  obtain ⟨hdistinct, -⟩ := prepared_exact hnew
  have hstart := (new_ok_iff.mp hnew).2
  have hcurrent : start.current.payments = [] := by rw [hstart]; rfl
  have hfinalized : start.finalized = [] := by rw [hstart]
  have hnone : start.prepared.finalized = [] := by
    rw [prepared_parted]
    exact hfinalized
  obtain ⟨n, s, t, hafter, hfinish, rfl⟩ := fulfil_ok hfulfil
  have hclosed := finish_cases hfinish
  have hstacked : Stacked t.finalized :=
    (hafter.laid (laid_of_nil hnone) hdistinct).finish (hafter.nodup_current hdistinct) hclosed
  have hsorted : (paidIds (t.finalized.flatMap (·.payments))).Pairwise RequestId.Precedes := by
    have hline := hafter.sorted (sorted_prepared hcurrent hfinalized)
    unfold Sorted at hline
    rw [← hclosed.line_eq] at hline
    exact (List.pairwise_append.mp hline).1
  rw [settle_eq]
  refine ⟨?_, hstacked.nodup, ?_⟩
  · unfold paidIds at hsorted
    rw [List.pairwise_map] at hsorted ⊢
    exact hsorted.imp RequestId.precedes_iff.mp
  · intro d hd p hp
    exact hstacked.consecutive hsorted
      (mem_flatMap_payments.mpr ⟨d, hd, List.mem_map_of_mem hp⟩)

/-! ## A round that pays a request in slices

Each transaction may have one input, and each input pays for the fee and a third of the request. -/

namespace Slices

def due : DueRequest := ⟨⟨Sample.paying.address, 27000, ⟨"server", 1⟩⟩, Sample.script⟩

def credits : List PoolCredit :=
  [0, 1, 2].map fun no => ⟨⟨Vector.replicate 32 1, no⟩, 10000, some 1, Sample.address 1⟩

def policy : TxPolicy := (⟨1000, 0, 0, 0, none, some 1, none⟩ : LinearPolicy).toPolicy

def start : Round := opening [due] credits Sample.change

theorem new_eq : new .regtest ([due].map (·.request)) credits Sample.change = .ok start :=
  new_opening (by decide) (List.forall_mem_singleton.mpr (Sample.script_paying rfl)) (by decide)

theorem fulfil_isOk : ∃ final, start.fulfil .secp256k1 policy = .ok final
    ∧ final.finalized.map (·.payments.map (·.amount)) = [[9000], [9000], [9000]] := by
  have hok : (start.fulfil .secp256k1 policy).toOption.any (fun final =>
      final.finalized.map (·.payments.map (·.amount)) = [[9000], [9000], [9000]]) = true := by
    have hprepared : start.prepared = start := prepared_opening (by decide) (by decide)
    rw [fulfil_eq, hprepared]
    decide +kernel
  obtain ⟨final, hfinal, htest⟩ := fulfil_any hok
  exact ⟨final, hfinal, of_decide_eq_true htest⟩

end Slices

/-- The three slices of the request are the only payments of three transactions in a row. -/
theorem slices_in_order :
    ∃ final, new .regtest ([Slices.due].map (·.request)) Slices.credits Sample.change
        = .ok Slices.start
      ∧ Slices.start.fulfil .secp256k1 Slices.policy = .ok final
      ∧ final.finalized.map (·.payments.map (·.amount)) = [[9000], [9000], [9000]]
      ∧ (((final.finalized.flatMap (·.payments)).map (·.request)).Pairwise fun a b =>
          (OutputRequest.order a b).isLE = true)
      ∧ ∀ d ∈ final.finalized, ∀ p ∈ d.payments, Consecutive p.request.id final.finalized := by
  obtain ⟨final, hfulfil, hamounts⟩ := Slices.fulfil_isOk
  obtain ⟨horder, -, hconsecutive⟩ := payments_in_order Slices.new_eq hfulfil
  exact ⟨final, Slices.new_eq, hfulfil, hamounts, horder, hconsecutive⟩

end Round

end NotaryPool
