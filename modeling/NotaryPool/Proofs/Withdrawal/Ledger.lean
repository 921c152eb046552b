import Mathlib.Data.List.Nodup
import Mathlib.Data.List.Perm.Basic
import NotaryPool.Proofs.Withdrawal.Loop

/-!
# The account of each request

A request is marked as paid when a turn takes it, before anything is paid, and the mark may stay
when the payment is taken out again. So a status says little by itself. What it says is kept here
as an account: what a request has got in finalized transactions, and what is open for it, in the
queue and in the transaction under construction.

## Contents

* `Round.openParts`, `Round.shareOf`: the payments still open, and those of one request.
* `Round.Sound`: what holds of an outcome, given the open payments.
* `Round.Ledger`: the accounts of all requests; `Round.Ledger.update` and `Round.Ledger.finish` are
  the two ways in which it moves.
* `Round.Turn.ledger`: **a turn whose cut stays within the request keeps the accounts.**
-/

namespace NotaryPool

variable {K : KeyScheme} {P : TxPolicy} {network : AddressNetwork} {requests : List OutputRequest}

/-- The sum of the outputs that pay a request, as a natural number. -/
def RequestOutcome.paidSum (o : RequestOutcome) : Nat := (o.outpoints.map (·.amount)).sum

/-- The payment of all that is due. -/
def DueRequest.whole (due : DueRequest) : Payment := ⟨due.request, due.request.amount, due.script⟩

namespace Round

variable {r r' : Round}

/-! ## Open payments -/

/-- The payments still open: of what is in the queue, and of the transaction under construction. -/
def openParts (r : Round) : List Payment :=
  r.pending.map DueRequest.whole ++ r.current.payments

/-- The identities of the requests that payments pay. -/
def paidIds (ps : List Payment) : List RequestId := ps.map (·.request.id)

/-- The sum of those payments that pay a request. -/
def shareOf (id : RequestId) (ps : List Payment) : Nat :=
  ((ps.filter (·.request.id = id)).map (·.amount)).sum

@[simp] theorem shareOf_nil (id : RequestId) : shareOf id [] = 0 := rfl

theorem shareOf_cons (id : RequestId) (p : Payment) (ps : List Payment) :
    shareOf id (p :: ps) = (if p.request.id = id then p.amount else 0) + shareOf id ps := by
  unfold shareOf
  by_cases hid : p.request.id = id
  · simp [hid]
  · simp [hid]

theorem shareOf_append (id : RequestId) (ps qs : List Payment) :
    shareOf id (ps ++ qs) = shareOf id ps + shareOf id qs := by
  unfold shareOf
  rw [List.filter_append, List.map_append, List.sum_append]

theorem shareOf_perm {id : RequestId} {ps qs : List Payment} (h : ps.Perm qs) :
    shareOf id ps = shareOf id qs :=
  ((h.filter _).map _).sum_nat

theorem shareOf_eq_zero {id : RequestId} {ps : List Payment} (h : id ∉ paidIds ps) :
    shareOf id ps = 0 := by
  have hnone : ps.filter (·.request.id = id) = [] := by
    rw [List.filter_eq_nil_iff]
    intro p hp hid
    exact h (List.mem_map.mpr ⟨p, hp, of_decide_eq_true hid⟩)
  unfold shareOf
  rw [hnone]
  rfl

/-- A payment goes to a request of the round, and to the script of its address. -/
def Asked (network : AddressNetwork) (requests : List OutputRequest) (p : Payment) : Prop :=
  ∃ q ∈ requests, q.id = p.request.id ∧ q.script network = .ok p.script

/-! ## Sound outcomes -/

/-- What holds of an outcome when the payments `ps` are open. One that counts as paid is either
still open or paid in full. -/
structure Sound (network : AddressNetwork) (ps : List Payment) (o : RequestOutcome) : Prop where
  balance : o.paidSum + shareOf o.id ps ≤ o.request.amount
  invalid : o.status = .invalid ↔ ∃ e, o.request.script network = .error e
  unsplit : o.status ≠ .split
  success : o.status = .success →
    o.id ∈ paidIds ps ∨ o.outpoints ≠ [] ∧ o.fulfilled = o.request.amount

/-- How the status of an outcome may change while the open payments change from `ps` to `qs`. -/
inductive Restated (network : AddressNetwork) (ps qs : List Payment) (o : RequestOutcome) :
    RequestOutcome → Prop
  | kept (hopen : o.id ∈ paidIds ps → o.id ∈ paidIds qs) : Restated network ps qs o o
  | unpaid {script : Bytes} (hscript : o.request.script network = .ok script) :
      Restated network ps qs o { o with status := .unpaid }
  | success {script : Bytes} (hscript : o.request.script network = .ok script)
      (hopen : o.id ∈ paidIds qs) : Restated network ps qs o { o with status := .success }

theorem Restated.request_eq {ps qs : List Payment} {o o' : RequestOutcome}
    (h : Restated network ps qs o o') : o'.request = o.request := by
  cases h <;> rfl

theorem Restated.outpoints_eq {ps qs : List Payment} {o o' : RequestOutcome}
    (h : Restated network ps qs o o') : o'.outpoints = o.outpoints := by
  cases h <;> rfl

theorem Restated.sound {ps qs : List Payment} {o o' : RequestOutcome}
    (h : Restated network ps qs o o') (hshare : shareOf o.id qs ≤ shareOf o.id ps)
    (ho : Sound network ps o) : Sound network qs o' := by
  have hbalance : o.paidSum + shareOf o.id qs ≤ o.request.amount :=
    Nat.le_trans (Nat.add_le_add_left hshare _) ho.balance
  -- a request whose address is one of the network cannot become invalid
  have hvalid {script : Bytes} {status : OutputStatus}
      (hscript : o.request.script network = .ok script) (hstatus : status ≠ .invalid) :
      status = .invalid ↔ ∃ e, o.request.script network = .error e := by
    constructor
    · intro hinvalid
      exact absurd hinvalid hstatus
    · rintro ⟨e, he⟩
      rw [hscript] at he
      cases he
  cases h with
  | kept hopen =>
      exact ⟨hbalance, ho.invalid, ho.unsplit, fun hsuccess => (ho.success hsuccess).imp_left hopen⟩
  | unpaid hscript =>
      exact ⟨hbalance, hvalid hscript (by simp), by simp, fun hsuccess => by simp at hsuccess⟩
  | success hscript hopen =>
      exact ⟨hbalance, hvalid hscript (by simp), by simp, fun _ => Or.inl hopen⟩

/-! ## The ledger -/

/-- The outputs that outcomes record, each with what the address of the request stands for. -/
def recordedOutputs (network : AddressNetwork) (outcomes : List RequestOutcome) :
    List (PaidOutpoint × Except DestinationError Bytes) :=
  outcomes.flatMap fun o => o.outpoints.map fun p => (p, o.request.script network)

/-- The payments of a transaction, from output `index` on, each with its place and its script. -/
def placedFrom (ntxid : Hash256) (index : Nat) (ps : List Payment) :
    List (PaidOutpoint × Except DestinationError Bytes) :=
  (ps.zipIdx index).map fun (p, i) => (⟨ntxid, i, p.amount⟩, .ok p.script)

/-- The payments of the finalized transactions. -/
def placedOutputs (finalized : List Draft) :
    List (PaidOutpoint × Except DestinationError Bytes) :=
  finalized.flatMap fun d => placedFrom d.ntxid 0 d.payments

/-- The accounts of the requests of a round. -/
structure Ledger (network : AddressNetwork) (requests : List OutputRequest) (r : Round) :
    Prop where
  same : r.outcomes.map (·.request) = requests
  asked : ∀ p ∈ r.openParts, Asked network requests p
  recorded : (recordedOutputs network r.outcomes).Perm (placedOutputs r.finalized)
  sound : ∀ o ∈ r.outcomes, Sound network r.openParts o

theorem Ledger.mem_requests (hr : Ledger network requests r) {o : RequestOutcome}
    (ho : o ∈ r.outcomes) : o.request ∈ requests := by
  rw [← hr.same]
  exact List.mem_map_of_mem ho

/-- The request that a payment goes to is the one of its identity. -/
theorem Asked.script_eq {p : Payment} {request : OutputRequest} (h : Asked network requests p)
    (hids : (requests.map (·.id)).Nodup) (hmem : request ∈ requests)
    (hid : request.id = p.request.id) : request.script network = .ok p.script := by
  obtain ⟨q, hq, hqid, hscript⟩ := h
  have hsame : request = q := List.inj_on_of_nodup_map hids hmem hq (hid.trans hqid.symm)
  rw [hsame]
  exact hscript

/-- **The accounts move with the open payments.** Statuses may change as long as no open payment is
lost, and no request has more open payments than before. -/
theorem Ledger.update (hr : Ledger network requests r) {f : RequestOutcome → RequestOutcome}
    (houtcomes : r'.outcomes = r.outcomes.map f) (hfinalized : r'.finalized = r.finalized)
    (hasked : ∀ p ∈ r'.openParts, Asked network requests p)
    (hshare : ∀ id, shareOf id r'.openParts ≤ shareOf id r.openParts)
    (hrestated : ∀ o ∈ r.outcomes, Restated network r.openParts r'.openParts o (f o)) :
    Ledger network requests r' where
  same := by
    rw [houtcomes, List.map_map, ← hr.same]
    exact List.map_congr_left fun o ho => (hrestated o ho).request_eq
  asked := hasked
  recorded := by
    have hrecorded : recordedOutputs network r'.outcomes = recordedOutputs network r.outcomes := by
      unfold recordedOutputs
      rw [houtcomes, List.flatMap_map]
      apply List.flatMap_congr
      intro o ho
      rw [(hrestated o ho).request_eq, (hrestated o ho).outpoints_eq]
    rw [hrecorded, hfinalized]
    exact hr.recorded
  sound := by
    intro o' ho'
    rw [houtcomes] at ho'
    obtain ⟨o, ho, rfl⟩ := List.mem_map.mp ho'
    exact (hrestated o ho).sound (hshare o.id) (hr.sound o ho)

/-- Requests that are dropped from the queue are marked as unpaid. -/
theorem Ledger.drop (hr : Ledger network requests r) (hids : (requests.map (·.id)).Nodup)
    {dropped kept : List DueRequest} (hperm : (dropped ++ kept).Perm r.pending) :
    Ledger network requests
      { r with pending := kept, outcomes := r.outcomes.map (unpaidIn dropped) } := by
  have hparts : (dropped.map DueRequest.whole ++ (kept.map DueRequest.whole
      ++ r.current.payments)).Perm r.openParts := by
    rw [← List.append_assoc, ← List.map_append]
    exact (hperm.map _).append_right _
  refine hr.update (f := unpaidIn dropped) rfl rfl ?_ ?_ ?_
  · intro p hp
    exact hr.asked p (hparts.mem_iff.mp (List.mem_append_right _ hp))
  · intro id
    rw [← shareOf_perm hparts, shareOf_append]
    exact Nat.le_add_left _ _
  · intro o ho
    unfold unpaidIn
    by_cases hdropped : o.id ∈ dropped.map (·.request.id)
    · rw [if_pos hdropped]
      obtain ⟨due, hdue, hid⟩ := List.mem_map.mp hdropped
      have hopen : due.whole ∈ r.openParts :=
        hparts.mem_iff.mp (List.mem_append_left _ (List.mem_map_of_mem hdue))
      exact .unpaid ((hr.asked _ hopen).script_eq hids (hr.mem_requests ho) hid.symm)
    · rw [if_neg hdropped]
      refine .kept ?_
      intro hopen
      have hsame := (hparts.map (·.request.id)).mem_iff (a := o.id)
      rw [List.map_append, List.mem_append, List.map_map] at hsame
      exact (hsame.mpr hopen).resolve_left hdropped

/-! ## Closing the transaction under construction -/

theorem sum_outpointsFor (ntxid : Hash256) (id : RequestId) (index : Nat) (ps : List Payment) :
    ((outpointsFor ntxid id index ps).map (·.amount)).sum = shareOf id ps := by
  induction ps generalizing index with
  | nil => rfl
  | cons p rest ih =>
      rw [outpointsFor_cons, shareOf_cons, ← ih (index + 1), List.map_append, List.sum_append]
      by_cases hid : p.request.id = id
      · rw [if_pos hid, if_pos hid]
        rfl
      · rw [if_neg hid, if_neg hid]
        rfl

theorem paidSum_noted (ntxid : Hash256) (index : Nat) (ps : List Payment) (o : RequestOutcome) :
    (noted ntxid index ps o).paidSum = o.paidSum + shareOf o.id ps := by
  unfold RequestOutcome.paidSum noted
  rw [List.map_append, List.sum_append, sum_outpointsFor]

theorem outpointsFor_ne_nil {ntxid : Hash256} {id : RequestId} {index : Nat} {ps : List Payment}
    (h : id ∈ paidIds ps) : outpointsFor ntxid id index ps ≠ [] := by
  induction ps generalizing index with
  | nil => cases h
  | cons p rest ih =>
      rw [outpointsFor_cons]
      by_cases hid : p.request.id = id
      · rw [if_pos hid]
        exact List.cons_ne_nil _ _
      · rw [if_neg hid, List.nil_append]
        rcases List.mem_cons.mp h with heq | hrest
        · exact absurd heq.symm hid
        · exact ih hrest

/-- Only one outcome has the identity of a given one. -/
theorem flatMap_outcome {β : Type} {outcomes : List RequestOutcome} {o : RequestOutcome}
    (hids : (outcomes.map (·.id)).Nodup) (ho : o ∈ outcomes) (f : RequestOutcome → β) :
    outcomes.flatMap (fun o' => if o.id = o'.id then [f o'] else []) = [f o] := by
  induction outcomes with
  | nil => cases ho
  | cons first rest ih =>
      rw [List.map_cons, List.nodup_cons] at hids
      rw [List.flatMap_cons]
      rcases List.mem_cons.mp ho with heq | hrest
      · have hnone : rest.flatMap (fun o' => if o.id = o'.id then [f o'] else []) = [] := by
          rw [List.flatMap_eq_nil_iff]
          intro o' ho'
          rw [if_neg]
          intro hid
          exact hids.1 (heq ▸ hid ▸ List.mem_map_of_mem ho')
        rw [hnone, heq, if_pos rfl, List.append_nil]
      · have hne : o.id ≠ first.id := by
          intro hid
          exact hids.1 (hid ▸ List.mem_map_of_mem hrest)
        rw [if_neg hne, List.nil_append]
        exact ih hids.2 hrest

/-- The outputs that are noted with the outcomes are the payments of the transaction. -/
theorem flatMap_outpointsFor {outcomes : List RequestOutcome} {ntxid : Hash256} (index : Nat)
    {ps : List Payment} (hids : (outcomes.map (·.id)).Nodup)
    (hps : ∀ p ∈ ps, ∃ o ∈ outcomes, o.id = p.request.id
      ∧ o.request.script network = .ok p.script) :
    (outcomes.flatMap fun o => (outpointsFor ntxid o.id index ps).map
      fun out => (out, o.request.script network)).Perm (placedFrom ntxid index ps) := by
  -- on the payments, since each of them goes to one outcome, but not in the order of the outcomes
  induction ps generalizing index with
  | nil =>
      have hnone : (outcomes.flatMap fun o => (outpointsFor ntxid o.id index []).map
          fun out => (out, o.request.script network)) = [] := by
        rw [List.flatMap_eq_nil_iff]
        exact fun o _ => rfl
      rw [hnone]
      exact List.Perm.refl _
  | cons p rest ih =>
      obtain ⟨o, ho, hid, hscript⟩ := hps p List.mem_cons_self
      have hrest := ih (index + 1) fun q hq => hps q (List.mem_cons_of_mem p hq)
      have hsplit : (fun o' : RequestOutcome => (outpointsFor ntxid o'.id index (p :: rest)).map
            fun out => (out, o'.request.script network))
          = fun o' => (if o.id = o'.id then
                [((⟨ntxid, index, p.amount⟩ : PaidOutpoint), o'.request.script network)] else [])
              ++ (outpointsFor ntxid o'.id (index + 1) rest).map
                fun out => (out, o'.request.script network) := by
        funext o'
        rw [outpointsFor_cons, List.map_append, ← hid]
        split <;> rfl
      rw [hsplit]
      refine (List.flatMap_append_perm outcomes _ _).symm.trans ?_
      rw [flatMap_outcome hids ho, hscript]
      exact hrest.cons _

theorem recordedOutputs_noted {outcomes : List RequestOutcome} {ntxid : Hash256} {index : Nat}
    {ps : List Payment} (hids : (outcomes.map (·.id)).Nodup)
    (hps : ∀ p ∈ ps, ∃ o ∈ outcomes, o.id = p.request.id
      ∧ o.request.script network = .ok p.script) :
    (recordedOutputs network (outcomes.map (noted ntxid index ps))).Perm
      (recordedOutputs network outcomes ++ placedFrom ntxid index ps) := by
  unfold recordedOutputs
  rw [List.flatMap_map]
  have hsplit : (fun o : RequestOutcome => (noted ntxid index ps o).outpoints.map
        fun out => (out, (noted ntxid index ps o).request.script network))
      = fun o => (o.outpoints.map fun out => (out, o.request.script network))
          ++ (outpointsFor ntxid o.id index ps).map
            fun out => (out, o.request.script network) := by
    funext o
    exact List.map_append
  rw [hsplit]
  exact (List.flatMap_append_perm outcomes _ _).symm.trans
    ((flatMap_outpointsFor index hids hps).append_left _)

theorem Ledger.nodup_outcomes (hr : Ledger network requests r)
    (hids : (requests.map (·.id)).Nodup) : (r.outcomes.map (·.id)).Nodup := by
  have hsame : r.outcomes.map (·.id) = requests.map (·.id) := by
    rw [← hr.same, List.map_map]
    rfl
  rw [hsame]
  exact hids

/-- Each open payment has its outcome. -/
theorem Ledger.outcome_of_asked (hr : Ledger network requests r)
    (hids : (requests.map (·.id)).Nodup) {p : Payment} (hp : Asked network requests p) :
    ∃ o ∈ r.outcomes, o.id = p.request.id ∧ o.request.script network = .ok p.script := by
  obtain ⟨q, hq, hid, -⟩ := id hp
  rw [← hr.same] at hq
  obtain ⟨o, ho, rfl⟩ := List.mem_map.mp hq
  exact ⟨o, ho, hid, hp.script_eq hids (hr.mem_requests ho) hid⟩

theorem paidIds_append (ps qs : List Payment) : paidIds (ps ++ qs) = paidIds ps ++ paidIds qs :=
  List.map_append

/-- An outcome stays sound when the payments of the transaction are noted with it. -/
theorem Sound.noted {ps qs : List Payment} {ntxid : Hash256} {index : Nat} {o : RequestOutcome}
    (ho : Sound network (ps ++ qs) o)
    (hchecked : o.id ∈ paidIds qs → o.status = .success →
      (noted ntxid index qs o).fulfilled = o.request.amount) :
    Sound network ps (noted ntxid index qs o) where
  balance := by
    have hbalance := ho.balance
    rw [shareOf_append] at hbalance
    rw [paidSum_noted]
    show o.paidSum + shareOf o.id qs + shareOf o.id ps ≤ o.request.amount
    omega
  invalid := ho.invalid
  unsplit := ho.unsplit
  success := by
    intro hsuccess
    by_cases hpaid : o.id ∈ paidIds qs
    · -- it is paid by this transaction, so noting it has checked the sum
      refine Or.inr ⟨?_, hchecked hpaid hsuccess⟩
      intro hnil
      exact outpointsFor_ne_nil hpaid (List.append_eq_nil_iff.mp hnil).2
    · -- it is not, so nothing is noted with it
      rcases ho.success hsuccess with hopen | hfull
      · rw [paidIds_append, List.mem_append] at hopen
        exact Or.inl (hopen.resolve_right hpaid)
      · have hsame : Round.noted ntxid index qs o = o := by
          unfold Round.noted
          rw [outpointsFor_eq_nil, List.append_nil]
          intro p hp hid
          exact hpaid (List.mem_map.mpr ⟨p, hp, hid⟩)
        rw [hsame]
        exact Or.inr hfull

/-- **Closing the transaction under construction keeps the accounts**: what was open in it is now
paid. -/
theorem Ledger.finish (hr : Ledger network requests r) (hids : (requests.map (·.id)).Nodup)
    (h : Finish K P r r') : Ledger network requests r' ∧ r'.current.payments = [] := by
  cases h with
  | idle hpayments => exact ⟨hr, hpayments⟩
  | @closed draft next hpayments hchange hnext hnoted =>
      have hsame : draft.payments = r.current.payments := Draft.addChange_payments hchange
      have hchecked := notePayments_checked
        (r := { r with current := .empty, nextChange := next }) (hr.nodup_outcomes hids) hnoted
      refine ⟨?_, rfl⟩
      constructor
      · rw [← hr.same, List.map_map]
        rfl
      · intro p hp
        apply hr.asked
        exact List.mem_append_left _ (by simpa [openParts, Draft.empty] using hp)
      · refine (recordedOutputs_noted (hr.nodup_outcomes hids) ?_).trans ?_
        · intro p hp
          rw [hsame] at hp
          exact hr.outcome_of_asked hids (hr.asked p (List.mem_append_right _ hp))
        · unfold placedOutputs
          rw [List.flatMap_append, List.flatMap_singleton]
          exact hr.recorded.append_right _
      · intro o' ho'
        obtain ⟨o, ho, rfl⟩ := List.mem_map.mp ho'
        have hsound := hr.sound o ho
        unfold openParts at hsound
        show Sound network (r.pending.map DueRequest.whole ++ []) _
        rw [List.append_nil]
        rw [← hsame] at hsound
        apply hsound.noted
        intro hpaid hsuccess
        obtain ⟨p, hp, hid⟩ := List.mem_map.mp hpaid
        exact hchecked p hp _ ho' hid.symm hsuccess

/-! ## The turns -/

/-- An outcome, which gets a status if it has the identity of a request. -/
def marked (id : RequestId) (status : OutputStatus) (o : RequestOutcome) : RequestOutcome :=
  if o.id = id then { o with status } else o

theorem marked_keeps (id : RequestId) (status : OutputStatus) (o : RequestOutcome) :
    (marked id status o).request = o.request ∧ (marked id status o).outpoints = o.outpoints := by
  unfold marked
  split <;> exact ⟨rfl, rfl⟩

/-- Of two statuses for the same request the second counts. -/
theorem map_marked_marked (id : RequestId) (status status' : OutputStatus)
    (outcomes : List RequestOutcome) :
    (outcomes.map (marked id status)).map (marked id status')
      = outcomes.map (marked id status') := by
  rw [List.map_map]
  apply List.map_congr_left
  intro o _
  unfold Function.comp marked
  by_cases hid : o.id = id
  · have hid' : ({ o with status } : RequestOutcome).id = id := hid
    rw [if_pos hid, if_pos hid', if_pos hid]
  · rw [if_neg hid, if_neg hid]

/-- The accounts after the status of one request has been set. -/
theorem Ledger.mark (hr : Ledger network requests r) (hids : (requests.map (·.id)).Nodup)
    {p : Payment} (hp : Asked network requests p) (status : OutputStatus)
    (hstatus : status = .unpaid ∨ status = .success ∧ p.request.id ∈ paidIds r'.openParts)
    (houtcomes : r'.outcomes = r.outcomes.map (marked p.request.id status))
    (hfinalized : r'.finalized = r.finalized)
    (hasked : ∀ q ∈ r'.openParts, Asked network requests q)
    (hshare : ∀ id, shareOf id r'.openParts ≤ shareOf id r.openParts)
    (hopen : ∀ id, id ≠ p.request.id → id ∈ paidIds r.openParts → id ∈ paidIds r'.openParts) :
    Ledger network requests r' := by
  refine hr.update houtcomes hfinalized hasked hshare ?_
  -- the marked outcome is payable, since its request is one that was asked for
  intro o ho
  unfold marked
  by_cases hid : o.id = p.request.id
  · have hscript := hp.script_eq hids (hr.mem_requests ho) hid
    rw [if_pos hid]
    rcases hstatus with rfl | ⟨rfl, hin⟩
    · exact .unpaid hscript
    · exact .success hscript (hid ▸ hin)
  · rw [if_neg hid]
    exact .kept (hopen o.id hid)

section Serving

variable {due : DueRequest} {rest : List DueRequest} {taken left : List PoolCredit}

theorem openParts_front (h : Serves P r due rest taken left) :
    r.openParts = due.whole :: (rest.map DueRequest.whole ++ r.current.payments) := by
  unfold openParts
  rw [h.front]
  rfl

theorem Ledger.asked_front (hr : Ledger network requests r) (h : Serves P r due rest taken left) :
    Asked network requests due.whole := by
  apply hr.asked
  rw [openParts_front h]
  exact List.mem_cons_self

/-- The request in front is marked as paid, and the open payments are the same as before. -/
theorem Ledger.mark_success (hr : Ledger network requests r)
    {s : Round} (hids : (requests.map (·.id)).Nodup) (h : Serves P r due rest taken left)
    (houtcomes : s.outcomes = r.outcomes.map (marked due.request.id .success))
    (hfinalized : s.finalized = r.finalized) (hperm : s.openParts.Perm r.openParts) :
    Ledger network requests s := by
  have hopen : ∀ id, id ∈ paidIds s.openParts ↔ id ∈ paidIds r.openParts :=
    fun id => (hperm.map (·.request.id)).mem_iff
  have hdue : due.whole ∈ r.openParts := openParts_front h ▸ List.mem_cons_self
  refine hr.mark hids (hr.asked_front h) .success (Or.inr ⟨rfl, ?_⟩) houtcomes hfinalized ?_ ?_ ?_
  · exact (hopen _).mpr (List.mem_map_of_mem hdue)
  · exact fun q hq => hr.asked q (hperm.mem_iff.mp hq)
  · exact fun id => Nat.le_of_eq (shareOf_perm hperm)
  · exact fun id _ hid => (hopen id).mpr hid

/-- The request in front moves into the draft. -/
theorem openParts_serving (h : Serves P r due rest taken left) :
    (r.serving due rest taken left).openParts.Perm r.openParts := by
  rw [openParts_front h]
  show (rest.map DueRequest.whole ++ (r.current.payments ++ [due.whole])).Perm _
  rw [← List.append_assoc]
  exact List.perm_append_comm

/-- The rest of the request moves back to the queue. -/
theorem openParts_cutting (r : Round) (due : DueRequest) (rest : List DueRequest)
    (taken left : List PoolCredit) (draft : Draft) (eligible : List PoolCredit) (amount : Nat) :
    (((r.serving due rest taken left).restocked draft eligible).cutting due r.current.payments
        amount).openParts
      = ⟨due.request.withAmount (due.request.amount - amount), due.request.amount - amount,
          due.script⟩
        :: (rest.map DueRequest.whole
          ++ (r.current.payments ++ [⟨due.request, amount, due.script⟩])) :=
  rfl

/-- A cut opens no other request. -/
theorem paidIds_cutting_subset (h : Serves P r due rest taken left) (draft : Draft)
    (eligible : List PoolCredit) (amount : Nat) :
    paidIds (((r.serving due rest taken left).restocked draft eligible).cutting due
      r.current.payments amount).openParts ⊆ paidIds r.openParts := by
  intro id hid
  rw [openParts_cutting] at hid
  rw [openParts_front h]
  simp only [paidIds, List.map_cons, List.map_append, List.mem_cons, List.mem_append,
    List.map_nil, List.not_mem_nil, or_false] at hid ⊢
  rcases hid with hdue | hrest | hold | hdue
  · exact Or.inl hdue
  · exact Or.inr (Or.inl hrest)
  · exact Or.inr (Or.inr hold)
  · exact Or.inl hdue

/-- The payment is cut down, and the rest of the request goes back to the queue. -/
theorem Ledger.cutting (hr : Ledger network requests r) (hids : (requests.map (·.id)).Nodup)
    (h : Serves P r due rest taken left) (draft : Draft) (eligible : List PoolCredit)
    {amount : Nat} (hwithin : amount ≤ due.request.amount) :
    Ledger network requests (((r.serving due rest taken left).restocked draft eligible).cutting due
      r.current.payments amount) := by
  have hparts := openParts_cutting r due rest taken left draft eligible amount
  have hfront := openParts_front h
  have hdue := hr.asked_front h
  refine hr.mark hids hdue .unpaid (Or.inl rfl) ?_ rfl ?_ ?_ ?_
  · exact map_marked_marked due.request.id .success .unpaid r.outcomes
  · intro q hq
    rw [hparts] at hq
    rcases List.mem_cons.mp hq with rfl | hq
    · exact hdue
    · rw [← List.append_assoc] at hq
      rcases List.mem_append.mp hq with hold | hcut
      · exact hr.asked q (hfront ▸ List.mem_cons_of_mem _ hold)
      · rw [List.mem_singleton.mp hcut]
        exact hdue
  · intro id
    rw [hparts, hfront]
    simp only [shareOf_cons, shareOf_append, shareOf_nil]
    show (if due.request.id = id then due.request.amount - amount else 0) + _
      ≤ (if due.request.id = id then due.request.amount else 0) + _
    split <;> omega
  · intro id _ hid
    rw [hparts]
    rw [hfront] at hid
    simp only [paidIds, List.map_cons, List.map_append, List.mem_cons, List.mem_append] at hid ⊢
    rcases hid with hdue | hrest | hold
    · exact Or.inl hdue
    · exact Or.inr (Or.inl hrest)
    · exact Or.inr (Or.inr (Or.inl hold))

/-- The payment is removed, and the request with it. -/
theorem Ledger.dropping (hr : Ledger network requests r) (hids : (requests.map (·.id)).Nodup)
    (h : Serves P r due rest taken left) :
    Ledger network requests ((r.serving due rest taken left).dropping due r.current.payments) := by
  have hparts : ((r.serving due rest taken left).dropping due r.current.payments).openParts
      = rest.map DueRequest.whole ++ r.current.payments := rfl
  have hfront := openParts_front h
  have hdue := hr.asked_front h
  refine hr.mark hids hdue .unpaid (Or.inl rfl) ?_ rfl ?_ ?_ ?_
  · exact map_marked_marked due.request.id .success .unpaid r.outcomes
  · intro q hq
    rw [hparts] at hq
    exact hr.asked q (hfront ▸ List.mem_cons_of_mem _ hq)
  · intro id
    rw [hparts, hfront, shareOf_cons]
    exact Nat.le_add_left _ _
  · intro id hne hid
    rw [hparts]
    rw [hfront] at hid
    exact (List.mem_cons.mp hid).resolve_left hne

end Serving

/-- **A turn whose cut stays within the request keeps the accounts.** -/
theorem Turn.ledger {kind : TurnKind} (h : Turn K P r kind r')
    (hids : (requests.map (·.id)).Nodup)
    (hwithin : ∀ asked amount, kind = .cut asked amount → amount ≤ asked)
    (hr : Ledger network requests r) : Ledger network requests r' := by
  cases h with
  | @paid due rest taken left hserves hsmall hfunded =>
      exact hr.mark_success (s := r.serving due rest taken left) hids hserves rfl rfl
        (openParts_serving hserves)
  | cut hserves hsmall hunfunded hamount hpositive =>
      exact hr.cutting hids hserves _ _ (hwithin _ _ rfl)
  | removed hserves hsmall hunfunded hnothing => exact hr.dropping hids hserves
  | @halved due rest taken left inputs credit draft amount _ hserves hbig hfirst hinputs hdraft
      hfee hamount hfinish =>
      have hcut := hr.cutting hids hserves draft (credit :: left)
        (hwithin _ _ rfl)
      rw [hfirst] at hcut
      exact (hcut.finish hids (finish_cases hfinish)).1
  | @postponed due rest taken left kept back _ hserves hbig hmore hinputs hback hfunded hfinish =>
      have hmark := hr.mark_success (s := (r.setStatus due.request.id .success).restocked
        (r.current.withInputs kept) (back ++ left)) hids hserves rfl rfl (List.Perm.refl _)
      exact (hmark.finish hids (finish_cases hfinish)).1

end Round

end NotaryPool
