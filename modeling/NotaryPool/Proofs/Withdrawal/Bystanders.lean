import NotaryPool.Proofs.Withdrawal.Ledger

/-!
# What a round leaves alone

A turn works on what is open: on the queue, and on the transaction under construction. It opens
nothing else, and of the outcomes it changes those whose request is open. So once a request is not
open any more its outcome stays as it is to the end of the round.

## Contents

* `Round.Spares`: what a step does to the requests that are not open, which is nothing.
* `Round.Finish.spares`, `Round.Turn.spares`, `Round.After.spares`: the steps between the turns.
* `Round.spares_prepared`, `Round.fulfil_spares`, `Round.fulfil_requests_eq`: **a whole round.**
-/

namespace NotaryPool

namespace Round

variable {K : KeyScheme} {P : TxPolicy} {r r' r'' start : Round}

/-! ## Steps that work on what is open -/

/-- A step opens no request, and changes the outcomes of those only that are open. -/
structure Spares (r r' : Round) : Prop where
  opened : ∀ id ∈ paidIds r'.openParts, id ∈ paidIds r.openParts
  outcomes : ∃ f : RequestOutcome → RequestOutcome, r'.outcomes = r.outcomes.map f
    ∧ ∀ o, (f o).request = o.request ∧ (o.id ∉ paidIds r.openParts → f o = o)

theorem Spares.refl (r : Round) : Spares r r :=
  ⟨fun _ hid => hid, id, (List.map_id _).symm, fun _ => ⟨rfl, fun _ => rfl⟩⟩

theorem Spares.trans (h : Spares r r') (h' : Spares r' r'') : Spares r r'' := by
  obtain ⟨f, houtcomes, hf⟩ := h.outcomes
  obtain ⟨g, houtcomes', hg⟩ := h'.outcomes
  refine ⟨fun id hid => h.opened id (h'.opened id hid), g ∘ f, ?_, ?_⟩
  · rw [houtcomes', houtcomes, List.map_map]
  · intro o
    refine ⟨(hg (f o)).1.trans (hf o).1, ?_⟩
    intro hclosed
    -- what was not open before the first step is not open after it either
    have hsame : f o = o := (hf o).2 hclosed
    show g (f o) = o
    rw [hsame]
    exact (hg o).2 fun hopen => hclosed (h.opened o.id hopen)

/-- The requests of the outcomes, and their order, stay. -/
theorem Spares.requests_eq (h : Spares r r') :
    r'.outcomes.map (·.request) = r.outcomes.map (·.request) := by
  obtain ⟨f, houtcomes, hf⟩ := h.outcomes
  rw [houtcomes, List.map_map]
  exact List.map_congr_left fun o _ => (hf o).1

/-- An outcome whose request was not open is the one from before. -/
theorem Spares.of_mem_outcomes (h : Spares r r') {o : RequestOutcome} (ho : o ∈ r'.outcomes)
    (hclosed : o.id ∉ paidIds r.openParts) : o ∈ r.outcomes := by
  obtain ⟨f, houtcomes, hf⟩ := h.outcomes
  rw [houtcomes] at ho
  obtain ⟨before, hbefore, rfl⟩ := List.mem_map.mp ho
  have hid : (f before).id = before.id := congrArg OutputRequest.id (hf before).1
  rw [hid] at hclosed
  rw [(hf before).2 hclosed]
  exact hbefore

/-- Marking the outcome of an open request. -/
theorem Spares.of_marked {id : RequestId} {status : OutputStatus} (hid : id ∈ paidIds r.openParts)
    (hopened : ∀ id ∈ paidIds r'.openParts, id ∈ paidIds r.openParts)
    (houtcomes : r'.outcomes = r.outcomes.map (marked id status)) : Spares r r' := by
  refine ⟨hopened, marked id status, houtcomes, fun o => ⟨(marked_keeps id status o).1, ?_⟩⟩
  intro hclosed
  unfold marked
  rw [if_neg]
  rintro rfl
  exact hclosed hid

/-- Marking the outcomes of open requests as unpaid. -/
theorem Spares.of_unpaidIn {dues : List DueRequest}
    (hdues : ∀ due ∈ dues, due.request.id ∈ paidIds r.openParts)
    (hopened : ∀ id ∈ paidIds r'.openParts, id ∈ paidIds r.openParts)
    (houtcomes : r'.outcomes = r.outcomes.map (unpaidIn dues)) : Spares r r' := by
  refine ⟨hopened, unpaidIn dues, houtcomes, fun o => ⟨request_unpaidIn dues o, ?_⟩⟩
  intro hclosed
  unfold unpaidIn
  rw [if_neg]
  intro hmem
  obtain ⟨due, hdue, hid⟩ := List.mem_map.mp hmem
  exact hclosed (hid ▸ hdues due hdue)

/-! ## Between the turns -/

/-- Closing the transaction under construction notes its payments, which were open. -/
theorem Finish.spares (h : Finish K P r r') : Spares r r' := by
  cases h with
  | idle hpayments => exact .refl r
  | @closed draft next hpayments hchange hnext hnoted =>
      refine ⟨?_, noted draft.ntxid 0 draft.payments, rfl, fun o => ⟨rfl, ?_⟩⟩
      · intro id hid
        have hid' : id ∈ paidIds (r.pending.map DueRequest.whole ++ []) := hid
        rw [List.append_nil] at hid'
        unfold openParts
        rw [paidIds_append]
        exact List.mem_append_left _ hid'
      · intro hclosed
        unfold noted
        rw [outpointsFor_eq_nil, List.append_nil]
        intro p hp hid
        rw [Draft.addChange_payments hchange] at hp
        exact hclosed (List.mem_map.mpr ⟨p, List.mem_append_right _ hp, hid⟩)

section Serving

variable {due : DueRequest} {rest : List DueRequest} {taken left : List PoolCredit}

theorem mem_openParts_front (h : Serves P r due rest taken left) :
    due.request.id ∈ paidIds r.openParts := by
  rw [openParts_front h]
  exact List.mem_cons_self

/-- A cut leaves two open payments of a request that had one. -/
theorem Spares.cutting (h : Serves P r due rest taken left) (draft : Draft)
    (eligible : List PoolCredit) (amount : Nat) :
    Spares r (((r.serving due rest taken left).restocked draft eligible).cutting due
      r.current.payments amount) :=
  .of_marked (mem_openParts_front h)
    (fun _ hid => paidIds_cutting_subset h draft eligible amount hid)
    (map_marked_marked due.request.id .success .unpaid r.outcomes)

/-- A payment that is put back leaves what is open as it was. -/
theorem Spares.putBack (h : Serves P r due rest taken left) (kept eligible : List PoolCredit) :
    Spares r ((r.setStatus due.request.id .success).restocked (r.current.withInputs kept)
      eligible) :=
  .of_marked (mem_openParts_front h) (fun _ hid => hid) rfl

end Serving

/-- **A turn leaves alone what is not open.** -/
theorem Turn.spares {kind : TurnKind} (h : Turn K P r kind r') : Spares r r' := by
  cases h with
  | @paid due rest taken left hserves hsmall hfunded =>
      have houtcomes : (r.serving due rest taken left).outcomes
          = r.outcomes.map (marked due.request.id .success) := rfl
      refine .of_marked (mem_openParts_front hserves) ?_ houtcomes
      intro id hid
      exact ((openParts_serving hserves).map (·.request.id)).mem_iff.mp hid
  | cut hserves hsmall hunfunded hamount hpositive => exact .cutting hserves _ _ _
  | @removed due rest taken hserves hsmall hunfunded hnothing =>
      refine .of_marked (mem_openParts_front hserves) ?_
        (map_marked_marked due.request.id .success .unpaid r.outcomes)
      intro id hid
      rw [openParts_front hserves]
      exact List.mem_cons_of_mem _ hid
  | @halved due rest taken left inputs credit draft amount _ hserves hbig hfirst hinputs hdraft
      hfee hamount hfinish =>
      have hcut := Spares.cutting hserves draft (credit :: left) amount
      rw [hfirst] at hcut
      exact hcut.trans (finish_cases hfinish).spares
  | postponed hserves hbig hmore hinputs hback hfunded hfinish =>
      exact (Spares.putBack hserves _ _).trans (finish_cases hfinish).spares

theorem After.spares {n : Nat} (h : After K P start n r) : Spares start r :=
  After.invariant (Spares start) (.refl start) (fun _ _ hr hturn => hr.trans hturn.spares) h

/-! ## A whole round -/

theorem spares_prepared (r : Round) : Spares r r.prepared := by
  obtain ⟨dropped, kept, hperm, heq⟩ := prepared_eq r
  have hdues : ∀ due ∈ dropped ++ kept, due.request.id ∈ paidIds r.openParts := by
    intro due hdue
    unfold openParts
    rw [paidIds_append]
    exact List.mem_append_left _
      (List.mem_map_of_mem (List.mem_map_of_mem (hperm.mem_iff.mp hdue)))
  refine .of_unpaidIn (fun due hdue => hdues due (List.mem_append_left _ hdue)) ?_
    (congrArg Round.outcomes heq)
  intro id hid
  rw [heq] at hid
  obtain ⟨p, hp, rfl⟩ := List.mem_map.mp hid
  rcases List.mem_append.mp hp with hkept | hcurrent
  · obtain ⟨due, hdue, rfl⟩ := List.mem_map.mp hkept
    exact hdues due (List.mem_append_right _ hdue)
  · exact List.mem_map_of_mem (List.mem_append_right _ hcurrent)

/-- **A round leaves alone what it does not work on.** All that it does to the outcome of a request
that is not open before the first turn is to settle it. -/
theorem fulfil_spares (h : r.fulfil K P = .ok r') :
    ∃ s, Spares r.prepared s ∧ r'.outcomes = s.outcomes.map settled := by
  obtain ⟨n, s, t, hafter, hfinish, rfl⟩ := fulfil_ok h
  have hspares := hafter.spares.trans (finish_cases hfinish).spares
  rw [settle_eq]
  refine ⟨{ t with outcomes := t.outcomes.map (unpaidIn t.pending) }, hspares.trans ?_, rfl⟩
  refine .of_unpaidIn ?_ (fun _ hid => hid) rfl
  intro due hdue
  exact List.mem_map_of_mem (List.mem_append_left _ (List.mem_map_of_mem hdue))

/-- A round reports an outcome for each of its requests, in their order. -/
theorem fulfil_requests_eq (h : r.fulfil K P = .ok r') :
    r'.outcomes.map (·.request) = r.outcomes.map (·.request) := by
  obtain ⟨s, hspares, houtcomes⟩ := fulfil_spares h
  have hsettled : (·.request) ∘ settled = (·.request) := funext request_settled
  rw [houtcomes, List.map_map, hsettled, hspares.requests_eq, (spares_prepared r).requests_eq]

end Round

end NotaryPool
