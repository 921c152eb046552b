import NotaryPool.Proofs.Withdrawal.Bystanders

/-!
# Rounds side by side

A round reads its outcomes in one place only, where it looks up the outcome of a request that it
has just paid. Two rounds that agree in all else therefore stay together as long as these look-ups
find the same in both, however the lists of outcomes differ otherwise.

## Contents

* `Round.Interchangeable`: relations between lists of outcomes that a round cannot tell apart.
* `Round.Parallel`, `Round.Together`: rounds with such outcomes, and results of operations on them.
* `Round.Interchangeable.turn`, `Round.Interchangeable.turns`: the steps of a round.
* `Round.Interchangeable.fulfil`, `Round.Parallel.toStatus`: **the rounds stay together to the
  end.**
-/

namespace NotaryPool

namespace Round

variable {K : KeyScheme} {P : TxPolicy} {r s : Round} {seen : RequestId → Prop}
  {R : List RequestOutcome → List RequestOutcome → Prop}

/-! ## Outcomes that cannot be told apart -/

/-- The relation stays when both lists are changed in the same way, and the same is found in both
for each request that is looked up. -/
structure Interchangeable (seen : RequestId → Prop)
    (R : List RequestOutcome → List RequestOutcome → Prop) : Prop where
  map : ∀ {as bs : List RequestOutcome} {f : RequestOutcome → RequestOutcome},
    (∀ o, (f o).request = o.request) → R as bs → R (as.map f) (bs.map f)
  find?_eq : ∀ {as bs : List RequestOutcome} {id : RequestId}, R as bs → seen id →
    as.find? (·.id = id) = bs.find? (·.id = id)

/-- Rounds that differ in their outcomes only. -/
inductive Parallel (R : List RequestOutcome → List RequestOutcome → Prop) : Round → Round → Prop
  | intro {r : Round} {outcomes : List RequestOutcome} (h : R r.outcomes outcomes) :
      Parallel R r { r with outcomes }

/-- Results that differ in the outcomes only, or fail with the same error. -/
inductive Together (R : List RequestOutcome → List RequestOutcome → Prop) :
    Except Halt Round → Except Halt Round → Prop
  | ok {r s : Round} (h : Parallel R r s) : Together R (.ok r) (.ok s)
  | error {h h' : Halt} (herror : h.error = h'.error) : Together R (.error h) (.error h')

theorem Parallel.outcomes (h : Parallel R r s) : R r.outcomes s.outcomes := by
  cases h with
  | intro h => exact h

/-- A change of the other fields keeps rounds parallel. -/
theorem Parallel.frame (h : Parallel R r s) {f : Round → Round}
    (hsame : ∀ r, (f r).outcomes = r.outcomes)
    (hframe : ∀ r outcomes, f { r with outcomes } = { f r with outcomes }) :
    Parallel R (f r) (f s) := by
  cases h with
  | @intro outcomes h =>
      rw [← hsame] at h
      rw [hframe r outcomes]
      exact .intro h

/-- Results that are together are taken on together. -/
theorem Together.bind {x y : Except Halt Round} {f : Round → Except Halt Round} :
    Together R x y → (∀ r s, x = .ok r → Parallel R r s → Together R (f r) (f s)) →
      Together R (match x with | .error h => .error h | .ok r => f r)
        (match y with | .error h => .error h | .ok r => f r) := by
  intro h hf
  cases h with
  | ok h => exact hf _ _ rfl h
  | error herror => exact .error herror

namespace Interchangeable

variable (hR : Interchangeable seen R)
include hR

/-- The same change to each outcome keeps rounds parallel. -/
theorem parallel_map (h : Parallel R r s) {f : RequestOutcome → RequestOutcome}
    (hf : ∀ o, (f o).request = o.request) :
    Parallel R { r with outcomes := r.outcomes.map f }
      { s with outcomes := s.outcomes.map f } := by
  cases h with
  | intro h => exact .intro (r := { r with outcomes := r.outcomes.map f }) (hR.map hf h)

theorem setStatus (h : Parallel R r s) (id : RequestId) (status : OutputStatus) :
    Parallel R (r.setStatus id status) (s.setStatus id status) :=
  hR.parallel_map h fun o => (marked_keeps id status o).1

/-! ## The parts of a turn -/

theorem splitLast (h : Parallel R r s) : Together R (r.splitLast P) (s.splitLast P) := by
  have hset {draft : Draft} (id : RequestId) :
      Parallel R ({ r with current := draft }.setStatus id .unpaid)
        ({ s with current := draft }.setStatus id .unpaid) :=
    hR.setStatus (h.frame (f := fun r => { r with current := draft }) (fun _ => rfl)
      fun _ _ => rfl) id .unpaid
  cases h with
  | @intro outcomes h =>
      unfold Round.splitLast
      dsimp only
      cases r.current.popPayment? with
      | none => exact .error rfl
      | some parts =>
          obtain ⟨last, rest⟩ := parts
          dsimp only
          split
          · exact .ok (hset last.request.id)
          · exact .ok ((hset last.request.id).frame
              (f := fun r => { r with pending := _ :: r.pending }) (fun _ => rfl) fun _ _ => rfl)

theorem notePayments (h : Parallel R r s) (ntxid : Hash256) (index : Nat) {ps : List Payment}
    (hseen : ∀ id ∈ paidIds ps, seen id) :
    Together R (notePayments ntxid index ps r) (notePayments ntxid index ps s) := by
  induction ps generalizing index r s with
  | nil => exact .ok h
  | cons p rest ih =>
      have hnext := hR.parallel_map h (f := fun o => if o.id = p.request.id then
          { o with outpoints := o.outpoints ++ [⟨ntxid, index, p.amount⟩] } else o)
        (by intro o; split <;> rfl)
      -- the one place where outcomes are read
      have hfault : fulfilmentFault? p.request.id (notePayment ntxid index p r.outcomes)
          = fulfilmentFault? p.request.id (notePayment ntxid index p s.outcomes) := by
        unfold fulfilmentFault? notePayment
        rw [hR.find?_eq hnext.outcomes (hseen p.request.id List.mem_cons_self)]
      unfold Round.notePayments
      dsimp only
      rw [hfault]
      split
      · exact .error rfl
      · exact ih hnext (index + 1) fun id hid => hseen id (List.mem_cons_of_mem _ hid)

omit hR in
theorem advanceChange (h : Parallel R r s) (draft : Draft) :
    Together R (advanceChange K draft r) (advanceChange K draft s) := by
  have hnext (next : ChangeAddress) : Parallel R { r with nextChange := next }
      { s with nextChange := next } :=
    h.frame (f := fun r => { r with nextChange := next }) (fun _ => rfl) fun _ _ => rfl
  unfold Round.advanceChange
  split
  · cases id h with
    | intro _ =>
        dsimp only
        split
        · exact .ok (hnext _)
        · exact .error rfl
  · exact .ok h

theorem finish (h : Parallel R r s) (hseen : ∀ id ∈ paidIds r.current.payments, seen id) :
    Together R (r.finish K P) (s.finish K P) := by
  have hfresh : Parallel R { r with current := .empty } { s with current := .empty } :=
    h.frame (f := fun r => { r with current := .empty }) (fun _ => rfl) fun _ _ => rfl
  cases id h with
  | @intro outcomes _ =>
      unfold Round.finish
      dsimp only
      split
      · exact .ok h
      · split
        · exact .error rfl
        · rename_i draft hchange
          rw [← Draft.addChange_payments hchange] at hseen
          refine Together.bind (advanceChange (K := K) hfresh draft) ?_
          intro r s _ h
          refine Together.bind (hR.notePayments h draft.ntxid 0 hseen) ?_
          intro r s _ h
          exact .ok (h.frame (f := fun r => { r with finalized := r.finalized ++ [draft] })
            (fun _ => rfl) fun _ _ => rfl)

omit hR in
/-- What is left of the only payment when it is split still goes to the same request. -/
theorem paidIds_splitLast {only : Payment} (hpayments : r.current.payments = [only])
    (h : r.splitLast P = .ok s) : ∀ id ∈ paidIds s.current.payments, id = only.request.id := by
  have honly : r.current.payments = [] ++ [only] := hpayments
  unfold Round.splitLast at h
  rw [Draft.popPayment?_snoc honly] at h
  dsimp only at h
  split at h
  · cases h
    intro id hid
    cases hid
  · rw [Draft.setLastAmount_snoc honly] at h
    cases h
    intro id hid
    exact List.mem_singleton.mp hid

theorem relieve (h : Parallel R r s) (hseen : ∀ id ∈ paidIds r.current.payments, seen id) :
    Together R (r.relieve K P) (s.relieve K P) := by
  have hset (draft : Draft) (eligible : List PoolCredit) (pending : List DueRequest) :
      Parallel R { r with current := draft, eligible, pending }
        { s with current := draft, eligible, pending } :=
    h.frame (f := fun r => { r with current := draft, eligible, pending }) (fun _ => rfl)
      fun _ _ => rfl
  cases h with
  | @intro outcomes _ =>
      unfold Round.relieve
      dsimp only
      split
      · exact .error rfl
      · rename_i only honly
        split
        · exact .error rfl
        · rename_i credit draft hpop
          obtain ⟨inputs, -, rfl⟩ := Draft.popInput?_ok hpop
          split
          · exact .error rfl
          · refine Together.bind (hR.splitLast (hset _ _ r.pending)) ?_
            intro r' s' hsplit h
            have hrest := paidIds_splitLast
              (r := { r with
                current := r.current.withInputs inputs
                eligible := credit :: r.eligible }) honly hsplit
            refine hR.finish h ?_
            intro id hid
            rw [hrest id hid]
            exact hseen _ (by rw [honly]; exact List.mem_cons_self)
      · split
        · exact .error rfl
        · rename_i removed payment draft hback
          obtain ⟨ps, kept, hpayments, -, -, rfl, -⟩ := Draft.rollBack_ok hback
          refine hR.finish (hset _ _ _) ?_
          intro id hid
          refine hseen id ?_
          rw [hpayments, paidIds_append]
          exact List.mem_append_left _ hid

theorem fundFrom (h : Parallel R r s) (credits : List PoolCredit)
    (hseen : ∀ id ∈ paidIds r.current.payments, seen id) :
    Together R (fundFrom K P credits r) (fundFrom K P credits s) := by
  have hset (draft : Draft) (eligible : List PoolCredit) :
      Parallel R { r with current := draft, eligible } { s with current := draft, eligible } :=
    h.frame (f := fun r => { r with current := draft, eligible }) (fun _ => rfl) fun _ _ => rfl
  induction credits generalizing r s with
  | nil =>
      cases h with
      | @intro outcomes _ =>
          unfold Round.fundFrom
          dsimp only
          split
          · exact .ok (hset r.current [])
          · exact hR.splitLast (hset r.current [])
  | cons credit rest ih =>
      have htaken := hset (r.current.addInput credit) rest
      cases h with
      | @intro outcomes _ =>
          unfold Round.fundFrom
          dsimp only
          split
          · exact .ok (hset r.current (credit :: rest))
          · split
            · exact hR.relieve htaken hseen
            · exact ih htaken hseen fun draft eligible => hset draft eligible

/-- **A turn keeps rounds together.** -/
theorem turn (h : Parallel R r s) (hseen : ∀ id ∈ paidIds r.openParts, seen id) :
    Together R (r.turn K P) (s.turn K P) := by
  obtain ⟨hpending, hcurrent, heligible⟩ :
      s.pending = r.pending ∧ s.current = r.current ∧ s.eligible = r.eligible := by
    cases h with
    | intro _ => exact ⟨rfl, rfl, rfl⟩
  cases hfront : r.pending with
  | nil =>
      unfold Round.turn
      rw [hpending, hfront]
      exact .ok h
  | cons due rest =>
      have hset : Parallel R
          { r.serving due rest [] r.eligible with
            current := r.current.addPayment due.request due.script }
          { s.serving due rest [] r.eligible with
            current := r.current.addPayment due.request due.script } :=
        (hR.setStatus h due.request.id .success).frame
          (f := fun r' => { r' with
            pending := rest
            eligible := r.eligible
            current := r.current.addPayment due.request due.script })
          (fun _ => rfl) fun _ _ => rfl
      have hopen : ∀ id ∈ paidIds (r.current.addPayment due.request due.script).payments,
          seen id := by
        intro id hid
        refine hseen id ?_
        unfold openParts
        rw [hfront]
        have hid' : id ∈ paidIds (r.current.payments ++ [due.whole]) := hid
        rw [paidIds_append] at hid' ⊢
        rcases List.mem_append.mp hid' with hold | hdue
        · exact List.mem_append_right _ hold
        · rw [List.mem_singleton.mp hdue]
          exact List.mem_append_left _ List.mem_cons_self
      rw [turn_cons hfront, turn_cons (hpending.trans hfront), hcurrent, heligible]
      split
      · exact hR.relieve hset hopen
      · exact hR.fundFrom hset r.eligible hopen

/-! ## A whole round -/

theorem prepared (h : Parallel R r s) : Parallel R r.prepared s.prepared := by
  have hunpaid (dropped : List DueRequest) := hR.parallel_map h (request_unpaidIn dropped)
  cases h with
  | @intro outcomes _ =>
      have hparts : ({ r with outcomes } : Round).parted = r.parted := rfl
      rw [prepared_parted, prepared_parted, hparts]
      exact (hunpaid r.parted.1).frame (f := fun r => { r with pending := _ }) (fun _ => rfl)
        fun _ _ => rfl

theorem turns (h : Parallel R r s) (hseen : ∀ id ∈ paidIds r.openParts, seen id) (count : Nat) :
    Together R (turns K P count r) (turns K P count s) := by
  induction count generalizing r s with
  | zero => exact .ok h
  | succ count ih =>
      have hpending : s.pending = r.pending := by
        cases h with
        | intro _ => rfl
      unfold Round.turns
      rw [hpending]
      split
      · exact .ok h
      · refine Together.bind (hR.turn h hseen) ?_
        intro r' s' hturn h
        have hexhausted : s'.isExhausted P = r'.isExhausted P := by
          cases h with
          | intro _ => rfl
        rw [hexhausted]
        split
        · exact .ok h
        · refine ih h ?_
          intro id hid
          rcases turn_eq_ok_iff.mp hturn with ⟨-, rfl⟩ | ⟨kind, hrel⟩
          · exact hseen id hid
          · exact hseen id (hrel.spares.opened id hid)

theorem settle (h : Parallel R r s) : Parallel R r.settle s.settle := by
  have hunpaid := hR.parallel_map h (request_unpaidIn r.pending)
  have hsettled := hR.parallel_map hunpaid request_settled
  cases h with
  | @intro outcomes _ =>
      rw [settle_eq, settle_eq]
      exact hsettled.frame
        (f := fun s => { s with pending := [], fees := Amount.total (r.finalized.map (·.fee)) })
        (fun _ => rfl) fun _ _ => rfl

/-- **Rounds that are prepared alike end together.** -/
theorem fulfil (h : Parallel R r.prepared s.prepared)
    (hseen : ∀ id ∈ paidIds r.prepared.openParts, seen id) :
    Together R (r.fulfil K P) (s.fulfil K P) := by
  have hlimit : s.prepared.turnLimit = r.prepared.turnLimit := by
    generalize r.prepared = start at h ⊢
    generalize s.prepared = start' at h ⊢
    cases h with
    | intro _ => rfl
  rw [fulfil_eq, fulfil_eq, hlimit]
  refine Together.bind (hR.turns h hseen r.prepared.turnLimit) ?_
  intro r' s' hturns h
  obtain ⟨n, hafter⟩ := turns_after .zero (Or.inl rfl) hturns
  refine Together.bind (hR.finish h ?_) ?_
  · intro id hid
    refine hseen id (hafter.spares.opened id ?_)
    unfold openParts
    rw [paidIds_append]
    exact List.mem_append_right _ hid
  · intro r s _ h
    exact .ok (hR.settle h)

end Interchangeable

/-- Parallel rounds report the same but for the outcomes, or fail with the same error. -/
theorem Parallel.toStatus (h : Parallel R r s) (book : SeriesBook) (roundId : UInt32) :
    (∃ e, r.toStatus K book roundId = .error e ∧ s.toStatus K book roundId = .error e)
      ∨ ∃ status, r.toStatus K book roundId = .ok status
        ∧ s.toStatus K book roundId = .ok { status with outcomes := s.outcomes } := by
  cases h with
  | @intro outcomes _ =>
      unfold Round.toStatus
      dsimp only
      cases signAll K book r.finalized with
      | error e => exact Or.inl ⟨_, rfl, rfl⟩
      | ok signed => exact Or.inr ⟨_, rfl, rfl⟩

end Round

end NotaryPool
