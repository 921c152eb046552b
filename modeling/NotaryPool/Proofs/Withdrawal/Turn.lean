import NotaryPool.Proofs.Withdrawal.Draft
import NotaryPool.Withdrawal.Round

/-!
# What a turn of a round can do

Every property of a round is shown turn by turn. This module opens the functions of a turn once and
says in two relations, with one constructor for each way to end, what they do to the state; all
other modules argue by cases on these relations.

## Contents

* `Round.notePayments_ok`, `Round.notePayments_checked`: what noting payments does to the outcomes.
* `Round.Finish`, `Round.finish_cases`: closing the transaction under construction.
* `Round.Turn`, `Round.turn_eq_ok_iff`: **a turn does exactly what the relation says.**
-/

namespace NotaryPool

namespace Round

variable {K : KeyScheme} {P : TxPolicy} {r r' : Round}

/-! ## Statuses -/

section Status

variable (r : Round) (id : RequestId) (status : OutputStatus)

@[simp] theorem pending_setStatus : (r.setStatus id status).pending = r.pending := rfl
@[simp] theorem eligible_setStatus : (r.setStatus id status).eligible = r.eligible := rfl
@[simp] theorem current_setStatus : (r.setStatus id status).current = r.current := rfl
@[simp] theorem finalized_setStatus : (r.setStatus id status).finalized = r.finalized := rfl
@[simp] theorem nextChange_setStatus : (r.setStatus id status).nextChange = r.nextChange := rfl

end Status

/-! ## Noting payments -/

/-- The outpoints of those payments that pay a request. The payments are numbered from `index`
on. -/
def outpointsFor (ntxid : Hash256) (id : RequestId) :
    (index : Nat) → List Payment → List PaidOutpoint
  | _, [] => []
  | index, p :: rest =>
    if p.request.id = id then ⟨ntxid, index, p.amount⟩ :: outpointsFor ntxid id (index + 1) rest
    else outpointsFor ntxid id (index + 1) rest

/-- An outcome with the payments of a transaction that pay its request. -/
def noted (ntxid : Hash256) (index : Nat) (ps : List Payment) (o : RequestOutcome) :
    RequestOutcome :=
  { o with outpoints := o.outpoints ++ outpointsFor ntxid o.id index ps }

theorem outpointsFor_cons (ntxid : Hash256) (id : RequestId) (index : Nat) (p : Payment)
    (rest : List Payment) :
    outpointsFor ntxid id index (p :: rest)
      = (if p.request.id = id then [⟨ntxid, index, p.amount⟩] else [])
        ++ outpointsFor ntxid id (index + 1) rest := by
  rw [outpointsFor]
  split <;> rfl

theorem outpointsFor_eq_nil {ntxid : Hash256} {id : RequestId} {index : Nat} {ps : List Payment}
    (h : ∀ p ∈ ps, p.request.id ≠ id) : outpointsFor ntxid id index ps = [] := by
  induction ps generalizing index with
  | nil => rfl
  | cons p rest ih =>
      rw [outpointsFor_cons, if_neg (h p List.mem_cons_self)]
      exact ih fun q hq => h q (List.mem_cons_of_mem p hq)

/-- An outcome is found by the identity of its request. -/
theorem find?_outcome {outcomes : List RequestOutcome} (hids : (outcomes.map (·.id)).Nodup)
    {o : RequestOutcome} (ho : o ∈ outcomes) : outcomes.find? (·.id = o.id) = some o := by
  induction outcomes with
  | nil => cases ho
  | cons first rest ih =>
      rw [List.map_cons, List.nodup_cons] at hids
      rcases List.mem_cons.mp ho with heq | hrest
      · rw [heq, List.find?_cons_of_pos (by simp)]
      · have hne : first.id ≠ o.id := by
          intro heq
          exact hids.1 (heq ▸ List.mem_map_of_mem hrest)
        rw [List.find?_cons_of_neg (by simpa using hne)]
        exact ih hids.2 hrest

/-- Noting one payment and then the others is noting all of them. -/
theorem map_noted_notePayment (ntxid : Hash256) (index : Nat) (p : Payment) (rest : List Payment)
    (outcomes : List RequestOutcome) :
    (notePayment ntxid index p outcomes).map (noted ntxid (index + 1) rest)
      = outcomes.map (noted ntxid index (p :: rest)) := by
  unfold notePayment
  rw [List.map_map]
  apply List.map_congr_left
  intro o _
  by_cases hid : o.id = p.request.id
  · simp [noted, outpointsFor, RequestOutcome.id, ← hid]
  · have hid' : p.request.id ≠ o.id := fun heq => hid heq.symm
    simp [noted, outpointsFor, hid, hid']

theorem map_noted_nil (ntxid : Hash256) (index : Nat) (outcomes : List RequestOutcome) :
    outcomes.map (noted ntxid index []) = outcomes := by
  have hnoted : noted ntxid index [] = id := by
    funext o
    simp [noted, outpointsFor]
  rw [hnoted, List.map_id]

theorem notePayments_ok {ntxid : Hash256} {index : Nat} {ps : List Payment}
    (h : notePayments ntxid index ps r = .ok r') :
    r' = { r with outcomes := r.outcomes.map (noted ntxid index ps) } := by
  induction ps generalizing index r with
  | nil =>
      cases h
      rw [map_noted_nil]
  | cons p rest ih =>
      unfold notePayments at h
      dsimp only at h
      split at h
      · cases h
      · rw [ih h, map_noted_notePayment]

theorem ids_notePayment (ntxid : Hash256) (index : Nat) (p : Payment)
    (outcomes : List RequestOutcome) :
    (notePayment ntxid index p outcomes).map (·.id) = outcomes.map (·.id) := by
  simp only [notePayment, List.map_map]
  apply List.map_congr_left
  intro o _
  simp only [Function.comp]
  split <;> rfl

/-- An outcome that is found without fault and counts as paid is paid in full. -/
theorem fulfilled_of_no_fault {outcomes : List RequestOutcome}
    (hids : (outcomes.map (·.id)).Nodup) {o : RequestOutcome} (ho : o ∈ outcomes)
    (hstatus : o.status = .success) (h : fulfilmentFault? o.id outcomes = none) :
    o.fulfilled = o.request.amount := by
  unfold fulfilmentFault? at h
  rw [find?_outcome hids ho] at h
  by_cases hpaid : o.fulfilled = o.request.amount
  · exact hpaid
  · simp [hstatus, hpaid] at h

/-- Once payments are noted, each request that they pay and that counts as paid is paid in full. -/
theorem notePayments_checked {ntxid : Hash256} {index : Nat} {ps : List Payment}
    (hids : (r.outcomes.map (·.id)).Nodup) (h : notePayments ntxid index ps r = .ok r') :
    ∀ p ∈ ps, ∀ o ∈ r'.outcomes, o.id = p.request.id → o.status = .success →
      o.fulfilled = o.request.amount := by
  induction ps generalizing index r with
  | nil =>
      intro p hp
      cases hp
  | cons p rest ih =>
      unfold notePayments at h
      dsimp only at h
      split at h
      · cases h
      · rename_i hsound
        have hids' : ((notePayment ntxid index p r.outcomes).map (·.id)).Nodup := by
          rw [ids_notePayment]
          exact hids
        have hrest := ih hids' h
        intro q hq o ho hid hstatus
        by_cases hlater : ∃ q' ∈ rest, q'.request.id = q.request.id
        · -- a later payment of the request is checked after this one
          obtain ⟨q', hq', hsame⟩ := hlater
          exact hrest q' hq' o ho (hid.trans hsame.symm) hstatus
        · -- `p` is the last payment of this request, so the check after it saw the final outcome
          have hqp : q = p := by
            rcases List.mem_cons.mp hq with heq | hmem
            · exact heq
            · exact absurd ⟨q, hmem, rfl⟩ hlater
          rw [notePayments_ok h] at ho
          obtain ⟨o', ho', hnoted⟩ := List.mem_map.mp ho
          have hid' : o'.id = p.request.id := by
            rw [← hqp, ← hid, ← hnoted]
            rfl
          have hnil : outpointsFor ntxid o'.id (index + 1) rest = [] := by
            apply outpointsFor_eq_nil
            intro q' hq' heq
            exact hlater ⟨q', hq', by rw [heq, hid', hqp]⟩
          have hsame : o = o' := by
            rw [← hnoted]
            simp [noted, hnil]
          rw [hsame] at hstatus ⊢
          exact fulfilled_of_no_fault hids' ho' hstatus (hid' ▸ hsound)

/-! ## Closing the transaction under construction -/

/-- What closing the transaction under construction does. -/
inductive Finish (K : KeyScheme) (P : TxPolicy) (r : Round) : Round → Prop
  /-- Without payments nothing is done. -/
  | idle (hpayments : r.current.payments = []) : Finish K P r r
  /-- The draft is closed, the change address moves on if the draft took it, and the payments are
  noted. -/
  | closed {draft : Draft} {next : ChangeAddress} (hpayments : r.current.payments ≠ [])
      (hchange : r.current.addChange P r.nextChange.script = .ok draft)
      (hnext : advanceChange K draft { r with current := .empty }
        = .ok { r with current := .empty, nextChange := next })
      (hnoted : notePayments draft.ntxid 0 draft.payments
          { r with current := .empty, nextChange := next }
        = .ok { r with
            current := .empty
            nextChange := next
            outcomes := r.outcomes.map (noted draft.ntxid 0 draft.payments) }) :
      Finish K P r
        { r with
          current := .empty
          nextChange := next
          finalized := r.finalized ++ [draft]
          outcomes := r.outcomes.map (noted draft.ntxid 0 draft.payments) }

theorem advanceChange_ok {draft : Draft} (h : advanceChange K draft r = .ok r') :
    ∃ next, r' = { r with nextChange := next } := by
  unfold advanceChange at h
  split at h
  · split at h
    · cases h
      exact ⟨_, rfl⟩
    · cases h
  · cases h
    exact ⟨r.nextChange, rfl⟩

theorem finish_cases (h : r.finish K P = .ok r') : Finish K P r r' := by
  unfold finish at h
  split at h
  · rename_i hnone
    cases h
    exact .idle (List.isEmpty_iff.mp hnone)
  · rename_i hsome
    dsimp only at h
    split at h
    · cases h
    · rename_i draft hchange
      split at h
      · cases h
      · rename_i s hnext
        obtain ⟨next, rfl⟩ := advanceChange_ok hnext
        split at h
        · cases h
        · rename_i t hnoted
          have ht := notePayments_ok hnoted
          subst ht
          cases h
          exact .closed (fun hnil => hsome (by rw [hnil]; rfl)) hchange hnext hnoted

theorem Finish.pending_eq (h : Finish K P r r') : r'.pending = r.pending := by
  cases h <;> rfl

theorem Finish.eligible_eq (h : Finish K P r r') : r'.eligible = r.eligible := by
  cases h <;> rfl

theorem Finish.length_finalized (h : Finish K P r r') (hpayments : r.current.payments ≠ []) :
    r'.finalized.length = r.finalized.length + 1 := by
  cases h with
  | idle hnone => exact absurd hnone hpayments
  | closed hsome hchange hnext hnoted => exact List.length_append

theorem Finish.payments_eq_nil (h : Finish K P r r') : r'.current.payments = [] := by
  cases h with
  | idle hnone => exact hnone
  | closed hsome hchange hnext hnoted => rfl

/-- Closing a draft with payments leaves an empty one. -/
theorem Finish.current_eq (h : Finish K P r r') (hpayments : r.current.payments ≠ []) :
    r'.current = .empty := by
  cases h with
  | idle hnone => exact absurd hnone hpayments
  | closed hsome hchange hnext hnoted => rfl

theorem Finish.isOpen (h : Finish K P r r') (hr : r.current.IsOpen) : r'.current.IsOpen := by
  cases h with
  | idle hnone => exact hr
  | closed hsome hchange hnext hnoted => exact Draft.isOpen_empty

/-! ## Splitting the last payment -/

/-- The round with another draft and another queue of credits. -/
def restocked (r : Round) (draft : Draft) (eligible : List PoolCredit) : Round :=
  { r with current := draft, eligible }

/-- The round after the next request has been put into the draft, with credits for it. -/
def serving (r : Round) (due : DueRequest) (rest : List DueRequest)
    (taken left : List PoolCredit) : Round :=
  setStatus
    { r with
      pending := rest
      eligible := left
      current := r.current.serving due.request due.script taken }
    due.request.id .success

/-- The round after the payment for a request, behind the payments `ps`, has been cut down to an
amount and the rest of the request has been put back into the queue. -/
def cutting (r : Round) (due : DueRequest) (ps : List Payment) (amount : Nat) : Round :=
  setStatus
    { r with
      pending :=
        ⟨due.request.withAmount (due.request.amount - amount), due.script⟩ :: r.pending
      current := { r.current with payments := ps ++ [⟨due.request, amount, due.script⟩] } }
    due.request.id .unpaid

/-- The round after the payment for a request, behind the payments `ps`, has been removed. -/
def dropping (r : Round) (due : DueRequest) (ps : List Payment) : Round :=
  setStatus { r with current := { r.current with payments := ps } } due.request.id .unpaid

section Fields

variable (r : Round) (due : DueRequest) (rest : List DueRequest) (taken left : List PoolCredit)
  (draft : Draft)

@[simp] theorem current_serving : (r.serving due rest taken left).current
    = r.current.serving due.request due.script taken := rfl
@[simp] theorem current_restocked : (r.restocked draft left).current = draft := rfl

end Fields

theorem splitLast_eq (due : DueRequest) (ps : List Payment)
    (h : r.current.payments = ps ++ [⟨due.request, due.request.amount, due.script⟩]) :
    r.splitLast P = .ok (if r.current.unspent P due.request.amount = 0 then r.dropping due ps
      else r.cutting due ps (r.current.unspent P due.request.amount)) := by
  unfold splitLast
  rw [Draft.popPayment?_snoc h]
  dsimp only
  unfold Draft.unspent
  split
  · rfl
  · rw [Draft.setLastAmount_snoc h]
    rfl

/-! ## The relation of a turn -/

/-- What becomes of the request that a turn takes from the queue. -/
inductive TurnKind where
  /-- It is paid in full. -/
  | paid
  /-- It asked for one amount and is paid another; the rest goes back to the queue. -/
  | cut (asked amount : Nat)
  /-- Nothing is left for it. -/
  | removed
  /-- It goes back to the queue as it was. -/
  | postponed

/-- A turn takes the request `due` from the queue and the credits `taken` for it. -/
structure Serves (P : TxPolicy) (r : Round) (due : DueRequest) (rest : List DueRequest)
    (taken left : List PoolCredit) : Prop where
  front : r.pending = due :: rest
  queue : r.eligible = taken ++ left
  fill : (r.current.addPayment due.request due.script).fill P r.eligible
    = (r.current.serving due.request due.script taken, left)

/-- Before each of its credits was taken, the draft with the request was neither too big nor
funded. -/
theorem Serves.stages {due : DueRequest} {rest : List DueRequest}
    {taken left stage more : List PoolCredit} {credit : PoolCredit}
    (h : Serves P r due rest taken left) (hstage : taken = stage ++ credit :: more) :
    (r.current.serving due.request due.script stage).isTooBig P = false
      ∧ (r.current.serving due.request due.script stage).isFunded P = false := by
  have hfill := h.fill
  rw [h.queue] at hfill
  exact Draft.fill_stages hfill hstage

/-- What a turn of a round does to the request in front, which a `TurnKind` names, and to the
state. -/
inductive Turn (K : KeyScheme) (P : TxPolicy) (r : Round) : TurnKind → Round → Prop
  | paid {due rest taken left} (hserves : Serves P r due rest taken left)
      (hsmall : (r.current.serving due.request due.script taken).isTooBig P = false)
      (hfunded : (r.current.serving due.request due.script taken).isFunded P = true) :
      Turn K P r .paid (r.serving due rest taken left)
  /-- The credits run out, and what they leave for the request is paid. -/
  | cut {due rest taken amount} (hserves : Serves P r due rest taken [])
      (hsmall : (r.current.serving due.request due.script taken).isTooBig P = false)
      (hunfunded : (r.current.serving due.request due.script taken).isFunded P = false)
      (hamount : (r.current.serving due.request due.script taken).unspent P due.request.amount
        = amount)
      (hpositive : amount ≠ 0) :
      Turn K P r (.cut due.request.amount amount)
        ((r.serving due rest taken []).cutting due r.current.payments amount)
  /-- The credits run out, and they leave nothing for the request. -/
  | removed {due rest taken} (hserves : Serves P r due rest taken [])
      (hsmall : (r.current.serving due.request due.script taken).isTooBig P = false)
      (hunfunded : (r.current.serving due.request due.script taken).isFunded P = false)
      (hnothing : (r.current.serving due.request due.script taken).unspent P due.request.amount
        = 0) :
      Turn K P r .removed ((r.serving due rest taken []).dropping due r.current.payments)
  /-- The transaction has become too big for a single payment: the last input goes back, what the
  others leave for the request is paid, and the transaction is closed. -/
  | halved {due rest taken left inputs credit draft amount s}
      (hserves : Serves P r due rest taken left)
      (hbig : (r.current.serving due.request due.script taken).isTooBig P = true)
      (hfirst : r.current.payments = [])
      (hinputs : r.current.inputs ++ taken = inputs ++ [credit])
      (hdraft : (r.current.serving due.request due.script taken).withInputs inputs = draft)
      (hfee : draft.requiredFee P < draft.inputTotal)
      (hamount : draft.unspent P due.request.amount = amount)
      (hfinish : finish K P
          (((r.serving due rest taken left).restocked draft (credit :: left)).cutting due [] amount)
        = .ok s) :
      Turn K P r (.cut due.request.amount amount) s
  /-- The transaction has become too big for the last of its payments: that one is taken out with
  inputs that the others do not need, and the transaction is closed. -/
  | postponed {due rest taken left kept back s} (hserves : Serves P r due rest taken left)
      (hbig : (r.current.serving due.request due.script taken).isTooBig P = true)
      (hmore : r.current.payments ≠ [])
      (hinputs : r.current.inputs ++ taken = kept ++ back)
      (hback : (r.current.serving due.request due.script taken).rollBack P
        = .ok (back.reverse, ⟨due.request, due.request.amount, due.script⟩,
            r.current.withInputs kept))
      (hfunded : back = [] ∨ (r.current.withInputs kept).isFunded P = true)
      (hfinish : finish K P
          ((r.setStatus due.request.id .success).restocked (r.current.withInputs kept)
            (back ++ left))
        = .ok s) :
      Turn K P r .postponed s

/-- A turn goes on with an open draft, or begins another one. -/
theorem Turn.isOpen {kind : TurnKind} (h : Turn K P r kind r') (hr : r.current.IsOpen) :
    r'.current.IsOpen := by
  cases h with
  | paid hserves hsmall hfunded => exact ⟨hr.closed, hr.change⟩
  | cut hserves hsmall hunfunded hamount hpositive => exact ⟨hr.closed, hr.change⟩
  | removed hserves hsmall hunfunded hnothing => exact ⟨hr.closed, hr.change⟩
  | halved hserves hbig hfirst hinputs hdraft hfee hamount hfinish =>
      refine (finish_cases hfinish).isOpen ?_
      rw [← hdraft]
      exact ⟨hr.closed, hr.change⟩
  | postponed hserves hbig hmore hinputs hback hfunded hfinish =>
      exact (finish_cases hfinish).isOpen ⟨hr.closed, hr.change⟩

/-! ## A turn does what the relation says -/

/-- The end of a turn, when the draft is too big, or funded, or the credits have run out. -/
def conclude (K : KeyScheme) (P : TxPolicy) (r : Round) : Except Halt Round :=
  if r.current.isTooBig P then r.relieve K P
  else if r.current.isFunded P then .ok r
  else r.splitLast P

theorem conclude_big (hbig : r.current.isTooBig P = true) : conclude K P r = r.relieve K P := by
  unfold conclude
  rw [if_pos hbig]

theorem conclude_funded (hsmall : r.current.isTooBig P = false)
    (hfunded : r.current.isFunded P = true) : conclude K P r = .ok r := by
  unfold conclude
  rw [if_neg (by rw [hsmall]; exact Bool.false_ne_true), if_pos hfunded]

theorem conclude_unfunded (hsmall : r.current.isTooBig P = false)
    (hunfunded : r.current.isFunded P = false) : conclude K P r = r.splitLast P := by
  unfold conclude
  rw [if_neg (by rw [hsmall]; exact Bool.false_ne_true),
    if_neg (by rw [hunfunded]; exact Bool.false_ne_true)]

theorem fundFrom_eq {credits : List PoolCredit} (hsmall : r.current.isTooBig P = false) :
    fundFrom K P credits r = conclude K P
      { r with
        current := (r.current.fill P credits).1
        eligible := (r.current.fill P credits).2 } := by
  induction credits generalizing r with
  | nil =>
      unfold fundFrom conclude Draft.fill
      simp only [hsmall]
      rfl
  | cons credit rest ih =>
      unfold fundFrom Draft.fill
      by_cases hfunded : r.current.isFunded P = true
      · -- nothing is taken
        simp [conclude, hsmall, hfunded]
      · simp only [hsmall, hfunded, Bool.or_self, Bool.false_eq_true, if_false]
        by_cases hbig : (r.current.addInput credit).isTooBig P = true
        · rw [if_pos hbig, Draft.fill_of_isTooBig hbig]
          unfold conclude
          rw [if_pos hbig]
        · rw [if_neg hbig]
          exact ih (by simpa using hbig)

theorem turn_cons {due : DueRequest} {rest : List DueRequest} (h : r.pending = due :: rest) :
    r.turn K P =
      if (r.current.addPayment due.request due.script).isTooBig P then
        relieve K P { r.serving due rest [] r.eligible with
          current := r.current.addPayment due.request due.script }
      else
        fund K P { r.serving due rest [] r.eligible with
          current := r.current.addPayment due.request due.script } := by
  unfold turn
  rw [h]
  rfl

theorem turn_of_serves {due : DueRequest} {rest : List DueRequest} {taken left : List PoolCredit}
    (h : Serves P r due rest taken left) :
    r.turn K P = conclude K P (r.serving due rest taken left) := by
  have hfill := h.fill
  rw [turn_cons h.front]
  by_cases hbig : (r.current.addPayment due.request due.script).isTooBig P = true
  · rw [Draft.fill_of_isTooBig hbig, Prod.mk.injEq] at hfill
    obtain ⟨hdraft, hleft⟩ := hfill
    have hsame : r.serving due rest taken left = { r.serving due rest [] r.eligible with
        current := r.current.addPayment due.request due.script } := by
      unfold serving
      rw [hdraft, hleft]
      rfl
    unfold conclude
    rw [if_pos hbig, hsame, if_pos hbig]
  · rw [if_neg hbig]
    unfold fund
    rw [fundFrom_eq (by simpa using hbig)]
    have hqueue : (r.serving due rest [] r.eligible).eligible = r.eligible := rfl
    simp only [hqueue, hfill]
    rfl

theorem exists_serves {due : DueRequest} {rest : List DueRequest} (h : r.pending = due :: rest) :
    ∃ taken left, Serves P r due rest taken left
      ∧ ((r.current.serving due.request due.script taken).isTooBig P = false →
        (r.current.serving due.request due.script taken).isFunded P = false → left = []) := by
  generalize hfill : (r.current.addPayment due.request due.script).fill P r.eligible = parts
  obtain ⟨draft, left⟩ := parts
  obtain ⟨taken, hqueue, hdraft, hleft⟩ := Draft.fill_taken hfill
  have hserving : draft = r.current.serving due.request due.script taken := hdraft
  subst hserving
  exact ⟨taken, left, ⟨h, hqueue, hfill⟩, hleft⟩

theorem relieve_unsplittable {only : Payment} {inputs : List PoolCredit} {credit : PoolCredit}
    (hpayments : r.current.payments = [only]) (hinputs : r.current.inputs = inputs ++ [credit])
    (hfee : (r.current.withInputs inputs).inputTotal
      ≤ (r.current.withInputs inputs).requiredFee P) :
    r.relieve K P = .error ⟨.precondition (.unsplittable only.request.id),
      r.restocked (r.current.withInputs inputs) (credit :: r.eligible)⟩ := by
  unfold relieve
  rw [hpayments]
  dsimp only
  rw [Draft.popInput?_snoc hinputs]
  exact if_pos hfee

theorem relieve_single {only : Payment} {inputs : List PoolCredit} {credit : PoolCredit}
    (hpayments : r.current.payments = [only]) (hinputs : r.current.inputs = inputs ++ [credit])
    (hfee : (r.current.withInputs inputs).requiredFee P
      < (r.current.withInputs inputs).inputTotal)
    (hsplit : (r.restocked (r.current.withInputs inputs) (credit :: r.eligible)).splitLast P
      = .ok r') :
    r.relieve K P = r'.finish K P := by
  unfold restocked at hsplit
  unfold relieve
  rw [hpayments]
  dsimp only
  rw [Draft.popInput?_snoc hinputs]
  dsimp only
  rw [if_neg (Nat.not_le_of_lt hfee), hsplit]

theorem relieve_many {ps : List Payment} {p : Payment} (hne : ps ≠ [])
    (hpayments : r.current.payments = ps ++ [p]) :
    r.relieve K P =
      match r.current.rollBack P with
      | .error e => .error ⟨.precondition e, r⟩
      | .ok (removed, payment, draft) =>
        finish K P
          { r with
            current := draft
            eligible := removed.reverse ++ r.eligible
            pending := ⟨payment.request, payment.script⟩ :: r.pending } := by
  unfold relieve
  split
  · rename_i hnil
    rw [hpayments] at hnil
    simp at hnil
  · rename_i only honly
    rw [hpayments] at honly
    cases ps with
    | nil => exact absurd rfl hne
    | cons q qs => simp at honly
  · rfl

/-- The split that ends a turn with a transaction of a single payment. -/
theorem relieve_halved {due : DueRequest} {rest : List DueRequest} {taken left : List PoolCredit}
    {inputs : List PoolCredit} {credit : PoolCredit} {draft : Draft}
    (hfirst : r.current.payments = []) (hinputs : r.current.inputs ++ taken = inputs ++ [credit])
    (hdraft : (r.current.serving due.request due.script taken).withInputs inputs = draft)
    (hfee : draft.requiredFee P < draft.inputTotal) :
    (r.serving due rest taken left).relieve K P = finish K P
      (((r.serving due rest taken left).restocked draft (credit :: left)).cutting due []
        (draft.unspent P due.request.amount)) := by
  have hpayments : (r.serving due rest taken left).current.payments
      = [⟨due.request, due.request.amount, due.script⟩] := by
    show r.current.payments ++ _ = _
    rw [hfirst, List.nil_append]
  have hdraft' : (r.serving due rest taken left).current.withInputs inputs = draft := hdraft
  have hsingle := Draft.serving_single hfirst hdraft
  have hunspent := Draft.unspent_single (P := P) hsingle
  have hsplit := splitLast_eq (P := P) due []
    (r := (r.serving due rest taken left).restocked draft (credit :: left)) hsingle
  rw [current_restocked, if_neg (by rw [hunspent]; omega)] at hsplit
  rw [← hdraft'] at hfee hsplit ⊢
  exact relieve_single hpayments hinputs hfee hsplit

/-- The ways in which a turn goes on with a transaction that has become too big. -/
inductive Relief (K : KeyScheme) (P : TxPolicy) (r : Round) (due : DueRequest)
    (rest : List DueRequest) (taken left : List PoolCredit) : Except Halt Round → Prop
  /-- There is no input that could go back. -/
  | bare (hfirst : r.current.payments = []) (hinputs : r.current.inputs ++ taken = []) :
      Relief K P r due rest taken left
        (.error ⟨.precondition (.unsplittable due.request.id), r.serving due rest taken left⟩)
  /-- The last input goes back, and the fee takes all of the others. -/
  | starved {inputs credit draft} (hfirst : r.current.payments = [])
      (hinputs : r.current.inputs ++ taken = inputs ++ [credit])
      (hdraft : (r.current.serving due.request due.script taken).withInputs inputs = draft)
      (hfee : draft.inputTotal ≤ draft.requiredFee P) :
      Relief K P r due rest taken left
        (.error ⟨.precondition (.unsplittable due.request.id),
          (r.serving due rest taken left).restocked draft (credit :: left)⟩)
  /-- The last input goes back, and the only payment gets what the others leave. -/
  | halved {inputs credit draft} (hfirst : r.current.payments = [])
      (hinputs : r.current.inputs ++ taken = inputs ++ [credit])
      (hdraft : (r.current.serving due.request due.script taken).withInputs inputs = draft)
      (hfee : draft.requiredFee P < draft.inputTotal) :
      Relief K P r due rest taken left
        (finish K P (((r.serving due rest taken left).restocked draft (credit :: left)).cutting due
          [] (draft.unspent P due.request.amount)))
  /-- The last of several payments is taken out. -/
  | postponed {kept back} (hmore : r.current.payments ≠ [])
      (hinputs : r.current.inputs ++ taken = kept ++ back)
      (hback : (r.current.serving due.request due.script taken).rollBack P
        = .ok (back.reverse, ⟨due.request, due.request.amount, due.script⟩,
            r.current.withInputs kept))
      (hfunded : back = [] ∨ (r.current.withInputs kept).isFunded P = true) :
      Relief K P r due rest taken left
        (finish K P ((r.setStatus due.request.id .success).restocked (r.current.withInputs kept)
          (back ++ left)))

theorem relief {due : DueRequest} {rest : List DueRequest} {taken left : List PoolCredit}
    (hserves : Serves P r due rest taken left) :
    Relief K P r due rest taken left ((r.serving due rest taken left).relieve K P) := by
  by_cases hfirst : r.current.payments = []
  · have hsingle : (r.serving due rest taken left).current.payments
        = [⟨due.request, due.request.amount, due.script⟩] := by
      show r.current.payments ++ _ = _
      rw [hfirst, List.nil_append]
    rcases List.eq_nil_or_concat (r.current.inputs ++ taken) with hnone | ⟨inputs, credit, hinputs⟩
    · have hpop : (r.serving due rest taken left).current.popInput? = none := by
        show ((r.current.inputs ++ taken).getLast?).map _ = none
        rw [hnone]
        rfl
      have hbare : (r.serving due rest taken left).relieve K P
          = .error ⟨.precondition (.unsplittable due.request.id),
              r.serving due rest taken left⟩ := by
        unfold relieve
        rw [hsingle]
        dsimp only
        rw [hpop]
      rw [hbare]
      exact .bare hfirst hnone
    · rw [List.concat_eq_append] at hinputs
      by_cases hfee :
          ((r.current.serving due.request due.script taken).withInputs inputs).requiredFee P
            < ((r.current.serving due.request due.script taken).withInputs inputs).inputTotal
      · rw [relieve_halved hfirst hinputs rfl hfee]
        exact .halved hfirst hinputs rfl hfee
      · rw [relieve_unsplittable hsingle hinputs (Nat.le_of_not_lt hfee)]
        exact .starved hfirst hinputs rfl (Nat.le_of_not_lt hfee)
  · obtain ⟨removed, draft, hback⟩ :=
      Draft.rollBack_isOk (P := P) (d := r.current.serving due.request due.script taken) hfirst rfl
    obtain ⟨ps, kept, hpayments, -, hinputs, hdraft, hfunded⟩ := Draft.rollBack_ok hback
    -- the payments that are left are those from before the turn
    obtain ⟨hps, -⟩ : r.current.payments = ps ∧ _ := List.append_inj' hpayments rfl
    have hdraft' : draft = r.current.withInputs kept := by
      rw [hdraft, ← hps]
      rfl
    subst hdraft'
    have hpending : (⟨due.request, due.script⟩ : DueRequest)
        :: (r.serving due rest taken left).pending = r.pending := hserves.front.symm
    have hmany : (r.serving due rest taken left).relieve K P
        = finish K P ((r.setStatus due.request.id .success).restocked (r.current.withInputs kept)
            (removed.reverse ++ left)) := by
      rw [relieve_many hfirst rfl, current_serving, hback]
      dsimp only
      rw [hpending]
      rfl
    rw [hmany]
    refine .postponed hfirst hinputs ?_ ?_
    · rw [List.reverse_reverse]
      exact hback
    · rcases hfunded with hnil | hfunded
      · exact Or.inl (by rw [hnil]; rfl)
      · exact Or.inr hfunded

/-- The ways in which a turn with a transaction that has become too big ends well. -/
theorem turn_of_relieve {due : DueRequest} {rest : List DueRequest}
    {taken left : List PoolCredit} (hserves : Serves P r due rest taken left)
    (hbig : (r.current.serving due.request due.script taken).isTooBig P = true)
    (h : (r.serving due rest taken left).relieve K P = .ok r') : ∃ kind, Turn K P r kind r' := by
  have hrelief := relief (K := K) hserves
  generalize (r.serving due rest taken left).relieve K P = result at h hrelief
  cases hrelief with
  | bare hfirst hinputs => cases h
  | starved hfirst hinputs hdraft hfee => cases h
  | halved hfirst hinputs hdraft hfee =>
      exact ⟨_, .halved hserves hbig hfirst hinputs hdraft hfee rfl h⟩
  | postponed hmore hinputs hback hfunded =>
      exact ⟨_, .postponed hserves hbig hmore hinputs hback hfunded h⟩

/-- A turn that ends well ends in one of the ways of the relation. -/
theorem turn_of_conclude {due : DueRequest} {rest : List DueRequest}
    {taken left : List PoolCredit} (hserves : Serves P r due rest taken left)
    (hleft : (r.current.serving due.request due.script taken).isTooBig P = false →
      (r.current.serving due.request due.script taken).isFunded P = false → left = [])
    (h : conclude K P (r.serving due rest taken left) = .ok r') : ∃ kind, Turn K P r kind r' := by
  cases hbig : (r.current.serving due.request due.script taken).isTooBig P with
  | true =>
      rw [conclude_big (r := r.serving due rest taken left) hbig] at h
      exact turn_of_relieve hserves hbig h
  | false =>
      cases hfunded : (r.current.serving due.request due.script taken).isFunded P with
      | true =>
          rw [conclude_funded (r := r.serving due rest taken left) hbig hfunded] at h
          cases h
          exact ⟨_, .paid hserves hbig hfunded⟩
      | false =>
          cases hleft hbig hfunded
          rw [conclude_unfunded (r := r.serving due rest taken []) hbig hfunded,
            splitLast_eq due r.current.payments rfl] at h
          split at h
          · rename_i hnothing
            cases h
            exact ⟨_, .removed hserves hbig hfunded hnothing⟩
          · rename_i hsome
            cases h
            exact ⟨_, .cut hserves hbig hfunded rfl hsome⟩

/-- What the relation says is what a turn does. -/
theorem turn_of_rel {kind : TurnKind} (h : Turn K P r kind r') : r.turn K P = .ok r' := by
  cases h with
  | @paid due rest taken left hserves hsmall hfunded =>
      rw [turn_of_serves hserves,
        conclude_funded (r := r.serving due rest taken left) hsmall hfunded]
  | @cut due rest taken amount hserves hsmall hunfunded hamount hpositive =>
      rw [turn_of_serves hserves,
        conclude_unfunded (r := r.serving due rest taken []) hsmall hunfunded,
        splitLast_eq due r.current.payments rfl, current_serving, hamount,
        if_neg hpositive]
  | @removed due rest taken hserves hsmall hunfunded hnothing =>
      rw [turn_of_serves hserves,
        conclude_unfunded (r := r.serving due rest taken []) hsmall hunfunded,
        splitLast_eq due r.current.payments rfl, current_serving,
        if_pos hnothing]
  | @halved due rest taken left _ _ _ _ _ hserves hbig hfirst hinputs hdraft hfee hamount hfinish =>
      rw [turn_of_serves hserves, conclude_big (r := r.serving due rest taken left) hbig,
        relieve_halved hfirst hinputs hdraft hfee, hamount]
      exact hfinish
  | @postponed due rest taken left kept back _ hserves hbig hmore hinputs hback _ hfinish =>
      rw [turn_of_serves hserves, conclude_big (r := r.serving due rest taken left) hbig,
        relieve_many hmore rfl, current_serving, hback]
      dsimp only
      rw [List.reverse_reverse, ← hfinish]
      have hstate : ({ r.serving due rest taken left with
            current := r.current.withInputs kept
            eligible := back ++ left
            pending := due :: rest } : Round)
          = (r.setStatus due.request.id .success).restocked (r.current.withInputs kept)
              (back ++ left) := by
        rw [← hserves.front]
        rfl
      exact congrArg (finish K P) hstate

/-- **A turn does exactly what the relation says.** -/
theorem turn_eq_ok_iff :
    r.turn K P = .ok r' ↔ r.pending = [] ∧ r' = r ∨ ∃ kind, Turn K P r kind r' := by
  constructor
  · intro h
    cases hpending : r.pending with
    | nil =>
        unfold turn at h
        rw [hpending] at h
        cases h
        exact Or.inl ⟨rfl, rfl⟩
    | cons due rest =>
        obtain ⟨taken, left, hserves, hleft⟩ := exists_serves (P := P) hpending
        rw [turn_of_serves hserves] at h
        exact Or.inr (turn_of_conclude hserves hleft h)
  · rintro (⟨hpending, rfl⟩ | ⟨kind, hturn⟩)
    · unfold turn
      rw [hpending]
    · exact turn_of_rel hturn

end Round

end NotaryPool
