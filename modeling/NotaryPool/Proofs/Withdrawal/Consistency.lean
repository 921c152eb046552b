import NotaryPool.Proofs.Withdrawal.Outcomes
import NotaryPool.Proofs.Withdrawal.Termination

/-!
# The checks of a round never fail

A round stops with an error when a request does not fit into any transaction, and when there is no
next change address. All other errors say that the round contradicts itself, and a fee that changes
from one look at a transaction to the next does make it do so. With a policy that always judges the
same transaction alike this module shows that they do not occur.

The one to argue about is the check of a request that counts as paid. It is noted with less than it
asks for when a part of it is still open elsewhere. A request is in two parts after it has been
split. When the split has closed the transaction, one part of them is paid already. When it has not,
the credits have run out, and the inputs leave nothing beyond the payments and the fee. So no turn
follows, and the status that the split has set is that of the request when its part is noted.

## Contents

* `Round.Distinct`, `Round.After.distinct`: while turns are made, no request has two open parts.
* `Round.Apart`, `Round.After.apart`: nor, after the last turn, has one that counts as paid.
* `Round.Exact`, `Round.After.exact`: a request that is open has in its account just what it asks
  for.
* `Round.Settles`, `Round.FinishFails.of_settles`: closing a transaction with such accounts.
* `Round.Excused`, `Round.fulfil_consistent`: **the errors of a round.**
-/

namespace NotaryPool

variable {K : KeyScheme} {P : TxPolicy} {network : AddressNetwork} {requests : List OutputRequest}

namespace Round

variable {r r' start : Round} {n : Nat} {halt : Halt}

/-! ## Requests in one part -/

/-- No request has two open parts. -/
def Distinct (r : Round) : Prop := (paidIds r.openParts).Nodup

/-- No request that counts as paid has two open parts. -/
def Apart (r : Round) : Prop :=
  ∀ o ∈ r.outcomes, o.status = .success → (paidIds r.openParts).count o.id ≤ 1

theorem Distinct.apart (h : r.Distinct) : r.Apart :=
  fun o _ _ => List.nodup_iff_count_le_one.mp h o.id

theorem Distinct.of_perm (hr : r.Distinct) (h : r'.openParts.Perm r.openParts) : r'.Distinct := by
  unfold Distinct paidIds at hr ⊢
  exact (h.map _).nodup_iff.mpr hr

theorem openParts_of_nil (h : r.current.payments = []) :
    r.openParts = r.pending.map DueRequest.whole := by
  unfold openParts
  rw [h, List.append_nil]

/-- What is in the queue is in one part when all open parts are. -/
theorem Distinct.of_pending (hr : r.Distinct) (hpayments : r'.current.payments = [])
    (hids : r'.pending.map (·.request.id) = r.pending.map (·.request.id)) : r'.Distinct := by
  have hwhole : ∀ dues : List DueRequest,
      paidIds (dues.map DueRequest.whole) = dues.map (·.request.id) :=
    fun dues => List.map_map
  unfold Distinct at hr ⊢
  rw [openParts_of_nil hpayments, hwhole, hids, ← hwhole]
  unfold openParts at hr
  rw [paidIds_append] at hr
  exact (List.nodup_append.mp hr).1

/-- A cut for lack of credits leaves two open parts of one request, which is marked as unpaid. -/
theorem Distinct.cutting {due : DueRequest} {rest : List DueRequest} {taken left : List PoolCredit}
    (hr : r.Distinct) (hserves : Serves P r due rest taken left) (amount : Nat) :
    ((r.serving due rest taken left).cutting due r.current.payments amount).Apart := by
  intro o ho hsuccess
  have ho' : o ∈ (r.outcomes.map (marked due.request.id .success)).map
      (marked due.request.id .unpaid) := ho
  obtain ⟨o', -, rfl⟩ := List.mem_map.mp ho'
  have hother : o'.id ≠ due.request.id := by
    intro hid
    unfold marked at hsuccess
    rw [if_pos hid] at hsuccess
    cases hsuccess
  have hcount := List.nodup_iff_count_le_one.mp hr o'.id
  rw [openParts_front hserves] at hcount
  have hother' : due.request.id ≠ o'.id := fun hid => hother hid.symm
  unfold marked
  rw [if_neg hother]
  simpa [openParts, Round.cutting, Round.serving, setStatus, paidIds, DueRequest.whole,
    OutputRequest.withAmount, OutputRequest.id, List.count_cons, hother'] using hcount

/-- After a turn no request has two open parts, or no turn follows. -/
theorem Turn.distinct {kind : TurnKind} (h : Turn K P r kind r') (hr : r.Distinct) :
    r'.Distinct ∨ r'.isExhausted P = true ∧ r'.Apart := by
  cases h with
  | paid hserves hsmall hfunded => exact Or.inl (hr.of_perm (openParts_serving hserves))
  | cut hserves hsmall hunfunded hamount hpositive =>
      exact Or.inr ⟨isExhausted_cutting hamount, hr.cutting hserves _⟩
  | @removed due rest taken hserves hsmall hunfunded hnothing =>
      unfold Distinct at hr
      rw [openParts_front hserves] at hr
      exact Or.inl (List.nodup_cons.mp hr).2
  | halved hserves hbig hfirst hinputs hdraft hfee hamount hfinish =>
      have hfinish := finish_cases hfinish
      refine Or.inl (hr.of_pending hfinish.payments_eq_nil ?_)
      rw [hfinish.pending_eq, hserves.front]
      rfl
  | postponed hserves hbig hmore hinputs hback hfunded hfinish =>
      have hfinish := finish_cases hfinish
      refine Or.inl (hr.of_pending hfinish.payments_eq_nil ?_)
      rw [hfinish.pending_eq]
      rfl

/-- While turns are made, no request has two open parts. -/
theorem After.distinct (hstart : start.Distinct) (h : After K P start n r) (hgo : r.GoesOn P n) :
    r.Distinct := by
  induction h with
  | zero => exact hstart
  | @succ n q r hafter hbefore hok ih =>
      obtain ⟨kind, hturn⟩ := hbefore.turn hok
      exact (hturn.distinct (ih hbefore)).resolve_right fun hlast => hgo.not_isExhausted hlast.1

theorem After.apart (hstart : start.Distinct) (h : After K P start n r) : r.Apart := by
  cases h with
  | zero => exact hstart.apart
  | succ hafter hbefore hok =>
      obtain ⟨kind, hturn⟩ := hbefore.turn hok
      rcases hturn.distinct (hafter.distinct hstart hbefore) with hdistinct | ⟨-, hapart⟩
      · exact hdistinct.apart
      · exact hapart

/-! ## Accounts without a difference -/

/-- A request that is open has in its account just what it asks for: what is paid and what is open
are together what was asked. -/
def Exact (r : Round) : Prop :=
  ∀ o ∈ r.outcomes, o.id ∈ paidIds r.openParts →
    o.paidSum + shareOf o.id r.openParts = o.request.amount

/-- Accounts stay exact when statuses change, and requests lose all that is open of them or
nothing. -/
theorem Exact.update (hr : r.Exact) {f : RequestOutcome → RequestOutcome}
    (houtcomes : r'.outcomes = r.outcomes.map f)
    (hf : ∀ o, (f o).request = o.request ∧ (f o).outpoints = o.outpoints)
    (hparts : ∀ id ∈ paidIds r'.openParts,
      id ∈ paidIds r.openParts ∧ shareOf id r'.openParts = shareOf id r.openParts) :
    r'.Exact := by
  intro o' ho' hopen
  rw [houtcomes] at ho'
  obtain ⟨o, ho, rfl⟩ := List.mem_map.mp ho'
  obtain ⟨hrequest, houtpoints⟩ := hf o
  have hid : (f o).id = o.id := congrArg OutputRequest.id hrequest
  rw [hid] at hopen ⊢
  obtain ⟨hbefore, hshare⟩ := hparts o.id hopen
  unfold RequestOutcome.paidSum
  rw [houtpoints, hrequest, hshare]
  exact hr o ho hbefore

theorem Exact.of_perm (hr : r.Exact) {id : RequestId} {status : OutputStatus}
    (houtcomes : r'.outcomes = r.outcomes.map (marked id status))
    (h : r'.openParts.Perm r.openParts) : r'.Exact :=
  hr.update houtcomes (marked_keeps id status) fun _ hid =>
    ⟨(h.map (·.request.id)).mem_iff.mp hid, shareOf_perm h⟩

/-- Noting the payments of a transaction moves them from what is open to what is paid. -/
theorem Exact.finish (hr : r.Exact) (h : Finish K P r r') : r'.Exact := by
  cases h with
  | idle hnone => exact hr
  | @closed draft next hsome hchange hnext hnoted =>
      have hpayments := Draft.addChange_payments hchange
      intro o' ho' hopen
      obtain ⟨o, ho, rfl⟩ := List.mem_map.mp ho'
      have hopen' : o.id ∈ paidIds (r.pending.map DueRequest.whole ++ []) := hopen
      rw [List.append_nil] at hopen'
      have hbefore : o.id ∈ paidIds r.openParts := by
        unfold openParts
        rw [paidIds_append]
        exact List.mem_append_left _ hopen'
      have hexact := hr o ho hbefore
      unfold openParts at hexact
      rw [shareOf_append] at hexact
      rw [paidSum_noted, hpayments]
      show o.paidSum + shareOf o.id r.current.payments
        + shareOf o.id (r.pending.map DueRequest.whole ++ []) = o.request.amount
      rw [List.append_nil]
      omega

section Serving

variable {due : DueRequest} {rest : List DueRequest} {taken left : List PoolCredit}

/-- A cut that stays within the request divides it. -/
theorem Exact.cutting (hr : r.Exact) (hserves : Serves P r due rest taken left) (draft : Draft)
    (eligible : List PoolCredit) {amount : Nat} (hwithin : amount ≤ due.request.amount) :
    (((r.serving due rest taken left).restocked draft eligible).cutting due r.current.payments
      amount).Exact := by
  refine hr.update (f := marked due.request.id .unpaid) ?_ (marked_keeps _ _) ?_
  · exact map_marked_marked due.request.id .success .unpaid r.outcomes
  · intro id hid
    refine ⟨paidIds_cutting_subset hserves draft eligible amount hid, ?_⟩
    rw [openParts_cutting, openParts_front hserves]
    simp only [shareOf_cons, shareOf_append, shareOf_nil]
    show (if due.request.id = id then due.request.amount - amount else 0) + _
      = (if due.request.id = id then due.request.amount else 0) + _
    split <;> omega

/-- A payment that is removed was all that was open of its request. -/
theorem Exact.dropping (hr : r.Exact) (hdistinct : r.Distinct)
    (hserves : Serves P r due rest taken left) :
    ((r.serving due rest taken left).dropping due r.current.payments).Exact := by
  have hfront := openParts_front hserves
  unfold Distinct at hdistinct
  rw [hfront] at hdistinct
  refine hr.update (f := marked due.request.id .unpaid) ?_ (marked_keeps _ _) ?_
  · exact map_marked_marked due.request.id .success .unpaid r.outcomes
  · intro id hid
    have hid' : id ∈ paidIds (rest.map DueRequest.whole ++ r.current.payments) := hid
    have hother : due.request.id ≠ id := by
      rintro rfl
      exact (List.nodup_cons.mp hdistinct).1 hid'
    rw [hfront, shareOf_cons]
    refine ⟨List.mem_cons_of_mem _ hid', ?_⟩
    rw [if_neg (show due.whole.request.id ≠ id from hother), Nat.zero_add]
    rfl

end Serving

/-- A turn that cuts no request below zero keeps the accounts exact. -/
theorem Turn.exact {kind : TurnKind} (h : Turn K P r kind r') (hdistinct : r.Distinct)
    (hwithin : ∀ asked amount, kind = .cut asked amount → amount ≤ asked) (hr : r.Exact) :
    r'.Exact := by
  cases h with
  | paid hserves hsmall hfunded => exact hr.of_perm rfl (openParts_serving hserves)
  | cut hserves hsmall hunfunded hamount hpositive =>
      exact hr.cutting hserves _ _ (hwithin _ _ rfl)
  | removed hserves hsmall hunfunded hnothing => exact hr.dropping hdistinct hserves
  | @halved due rest taken left inputs credit draft amount _ hserves hbig hfirst hinputs hdraft
      hfee hamount hfinish =>
      have hcut := hr.cutting hserves draft (credit :: left) (hwithin _ _ rfl)
      rw [hfirst] at hcut
      exact hcut.finish (finish_cases hfinish)
  | @postponed due rest taken left kept back _ hserves hbig hmore hinputs hback hfunded hfinish =>
      have hmark : ((r.setStatus due.request.id .success).restocked (r.current.withInputs kept)
          (back ++ left)).Exact := hr.of_perm rfl (List.Perm.refl _)
      exact hmark.finish (finish_cases hfinish)

theorem After.exact (hcuts : CutsWithin K P start) (hdistinct : start.Distinct)
    (hstart : start.Exact) (h : After K P start n r) : r.Exact := by
  refine After.invariant Exact hstart ?_ h
  intro n r r' kind hafter hgo hr hturn
  refine hturn.exact (hafter.distinct hdistinct hgo) ?_ hr
  intro asked amount hkind
  subst hkind
  exact hcuts n r r' asked amount hafter hgo hturn

/-! ## Closing a transaction -/

/-- Each payment of the draft whose request counts as paid is the only one, and what is missing. -/
def Settles (r : Round) : Prop :=
  ∀ done p rest, r.current.payments = done ++ p :: rest → ∀ o ∈ r.outcomes,
    o.id = p.request.id → o.status = .success →
      o.id ∉ paidIds done ∧ o.paidSum + p.amount = o.request.amount
        ∧ o.request.amount ≤ Amount.largest

/-- The only open part of a request is its share. -/
theorem shareOf_of_count {id : RequestId} {ps qs : List Payment} {p : Payment}
    (hid : id = p.request.id) (hcount : (paidIds (ps ++ p :: qs)).count id ≤ 1) :
    id ∉ paidIds ps ∧ shareOf id (ps ++ p :: qs) = p.amount := by
  have hparts : paidIds (ps ++ p :: qs) = paidIds ps ++ p.request.id :: paidIds qs :=
    List.map_append
  rw [hparts, hid, List.count_append, List.count_cons_self] at hcount
  rw [hid]
  have hbefore : p.request.id ∉ paidIds ps := List.count_eq_zero.mp (by omega)
  have hbehind : p.request.id ∉ paidIds qs := List.count_eq_zero.mp (by omega)
  refine ⟨hbefore, ?_⟩
  rw [shareOf_append, shareOf_cons, shareOf_eq_zero hbefore, shareOf_eq_zero hbehind, if_pos rfl,
    Nat.zero_add, Nat.add_zero]

theorem settles_of_exact (hlargest : ∀ o ∈ r.outcomes, o.request.amount ≤ Amount.largest)
    (hexact : r.Exact) (hapart : r.Apart) : r.Settles := by
  intro done p rest hpayments o ho hid hsuccess
  have hparts : r.openParts = (r.pending.map DueRequest.whole ++ done) ++ p :: rest := by
    unfold openParts
    rw [hpayments, List.append_assoc]
  have hcount := hapart o ho hsuccess
  rw [hparts] at hcount
  obtain ⟨hbefore, hshare⟩ := shareOf_of_count hid hcount
  have hopen : o.id ∈ paidIds r.openParts := by
    rw [hparts, hid]
    exact List.mem_map_of_mem (List.mem_append_right _ List.mem_cons_self)
  have hsum := hexact o ho hopen
  rw [hparts, hshare] at hsum
  rw [paidIds_append] at hbefore
  exact ⟨fun hdone => hbefore (List.mem_append_right _ hdone), hsum, hlargest o ho⟩

/-- A request whose only payment has been cut down does not count as paid. -/
theorem settles_cutting (due : DueRequest) (amount : Nat) : (r.cutting due [] amount).Settles := by
  intro done p rest hpayments o ho hid hsuccess
  have hpaid : p ∈ (r.cutting due [] amount).current.payments := by
    rw [hpayments]
    exact List.mem_append_right _ List.mem_cons_self
  have hcut : p = ⟨due.request, amount, due.script⟩ := List.mem_singleton.mp hpaid
  have ho' : o ∈ r.outcomes.map (marked due.request.id .unpaid) := ho
  obtain ⟨o', -, rfl⟩ := List.mem_map.mp ho'
  rw [hcut] at hid
  unfold marked at hid hsuccess
  by_cases hsame : o'.id = due.request.id
  · rw [if_pos hsame] at hsuccess
    cases hsuccess
  · rw [if_neg hsame] at hid
    exact absurd hid hsame

/-- **Closing such a draft fails only when there is no next change address.** -/
theorem FinishFails.of_settles (h : FinishFails K P r halt) (hopen : r.current.IsOpen)
    (hsettles : r.Settles) :
    ∃ e, halt.round.nextChange.next K = .error e ∧ halt.error = .derive e := by
  cases h with
  | reclosed hclosed =>
      rw [hopen.closed] at hclosed
      cases hclosed
  | unrotated hnext => exact ⟨_, hnext, rfl⟩
  | @inconsistent draft next done rest p e hchange hpayments hfault =>
      exfalso
      obtain ⟨o', ho', hid, hsuccess, hwrong, -⟩ := fulfilmentFault?_eq_some hfault
      obtain ⟨o, ho, rfl⟩ := List.mem_map.mp ho'
      rw [Draft.addChange_payments hchange] at hpayments
      obtain ⟨hnone, hsum, hlargest⟩ := hsettles done p rest hpayments o ho hid hsuccess
      -- all that has been noted is this payment, which was what was missing
      have hpaid : (noted draft.ntxid 0 (done ++ [p]) o).paidSum = o.request.amount := by
        have hid' : p.request.id = o.id := hid.symm
        rw [paidSum_noted, shareOf_append, shareOf_eq_zero hnone, shareOf_cons, if_pos hid',
          shareOf_nil, Nat.zero_add, Nat.add_zero]
        exact hsum
      apply hwrong
      unfold RequestOutcome.paidSum at hpaid
      unfold RequestOutcome.fulfilled
      rw [Amount.total_eq_sum (by rw [hpaid]; exact hlargest), hpaid]
      rfl

/-! ## A whole round -/

/-- Before its first turn a round has each request that it is to pay in one part, and all of it. -/
theorem prepared_exact {credits : List PoolCredit} {changeStart : ChangeAddress}
    (hnew : new network requests credits changeStart = .ok start) :
    start.prepared.Distinct ∧ start.prepared.Exact := by
  obtain ⟨dropped, kept, hperm, heq⟩ := prepared_eq start
  obtain ⟨hids, hstart⟩ := new_ok_iff.mp hnew
  have hpayable : (dropped ++ kept).Perm (payable network requests) := by
    rw [hstart] at hperm
    exact hperm
  have hparts : start.prepared.openParts = kept.map DueRequest.whole := by
    rw [heq, hstart]
    exact List.append_nil _
  have hdistinct : (paidIds (kept.map DueRequest.whole)).Nodup := by
    have hall := (hpayable.map (·.request.id)).nodup_iff.mpr
      ((payable_sublist network requests).nodup hids)
    rw [List.map_append] at hall
    have hkept : paidIds (kept.map DueRequest.whole) = kept.map (·.request.id) := List.map_map
    rw [hkept]
    exact (List.nodup_append.mp hall).2.1
  unfold Distinct Exact
  rw [hparts]
  refine ⟨hdistinct, ?_⟩
  intro o ho hopen
  -- nothing is paid yet
  obtain ⟨hmem, hnone⟩ : o.request ∈ requests ∧ o.outpoints = [] := by
    rw [heq, hstart] at ho
    obtain ⟨o', ho', rfl⟩ := List.mem_map.mp ho
    obtain ⟨entry, hentry, rfl⟩ := List.mem_map.mp ho'
    obtain ⟨q, hq, rfl⟩ := List.mem_map.mp hentry
    obtain ⟨hrequest, houtpoints, -⟩ := intake_outcome network q
    rw [request_unpaidIn, hrequest]
    refine ⟨hq, ?_⟩
    unfold unpaidIn
    split <;> exact houtpoints
  obtain ⟨p, hp, hid⟩ := List.mem_map.mp hopen
  obtain ⟨due, hdue, rfl⟩ := List.mem_map.mp hp
  have hrequest : o.request = due.request :=
    List.inj_on_of_nodup_map hids hmem
      (mem_payable (hpayable.subset (List.mem_append_right _ hdue))).1 hid.symm
  obtain ⟨before, behind, hsplit⟩ := List.append_of_mem hp
  rw [hsplit] at hdistinct ⊢
  obtain ⟨-, hshare⟩ := shareOf_of_count hid.symm (List.nodup_iff_count_le_one.mp hdistinct o.id)
  unfold RequestOutcome.paidSum
  rw [hshare, hnone, hrequest]
  exact Nat.zero_add _

/-- The errors that a round may have: a request of it does not fit into any transaction, or there is
no address after the present change address. -/
inductive Excused (K : KeyScheme) (requests : List OutputRequest) (halt : Halt) : Prop
  | unsplittable {q : OutputRequest} (hq : q ∈ requests)
      (herror : halt.error = .precondition (.unsplittable q.id))
  | unrotated {e : DeriveError} (hnext : halt.round.nextChange.next K = .error e)
      (herror : halt.error = .derive e)

theorem FinishFails.excused (h : FinishFails K P r halt) (hopen : r.current.IsOpen)
    (hsettles : r.Settles) : Excused K requests halt := by
  obtain ⟨e, hnext, herror⟩ := h.of_settles hopen hsettles
  exact .unrotated hnext herror

/-- A turn fails with one of these errors. -/
theorem TurnFails.excused (h : TurnFails K P r halt) (hr : Ledger network requests r)
    (hlargest : ∀ q ∈ requests, q.amount ≤ Amount.largest) (hopen : r.current.IsOpen)
    (hdistinct : r.Distinct) (hexact : r.Exact) : Excused K requests halt := by
  cases h with
  | bare hserves hbig hfirst hinputs =>
      obtain ⟨q, hq, hid, -⟩ := hr.asked_front hserves
      exact .unsplittable hq (by rw [hid]; rfl)
  | starved hserves hbig hfirst hinputs hdraft hfee =>
      obtain ⟨q, hq, hid, -⟩ := hr.asked_front hserves
      exact .unsplittable hq (by rw [hid]; rfl)
  | halved hserves hbig hfirst hinputs hdraft hfee hfinish =>
      refine hfinish.excused ?_ (settles_cutting _ _)
      rw [← hdraft]
      exact ⟨hopen.closed, hopen.change⟩
  | @postponed due rest taken left kept back _ hserves hbig hmore hinputs hfunded hfinish =>
      -- what was open before the turn is open again
      have hback : ((r.setStatus due.request.id .success).restocked (r.current.withInputs kept)
          (back ++ left)).openParts.Perm r.openParts := List.Perm.refl _
      refine hfinish.excused ⟨hopen.closed, hopen.change⟩
        (settles_of_exact ?_ (hexact.of_perm rfl hback) (hdistinct.of_perm hback).apart)
      intro o ho
      have ho' : o ∈ r.outcomes.map (marked due.request.id .success) := ho
      obtain ⟨o', hmem, rfl⟩ := List.mem_map.mp ho'
      rw [(marked_keeps _ _ o').1]
      exact hlargest _ (hr.mem_requests hmem)

/-- **The errors of a round.** When no cut of a round pays more than the request asks for, so that
the rest of the request is not below zero, the round ends well or has one of these errors. The
policy may judge transactions in any way. -/
theorem fulfil_consistent {credits : List PoolCredit} {changeStart : ChangeAddress}
    (hnew : new network requests credits changeStart = .ok start)
    (hlargest : ∀ q ∈ requests, q.amount ≤ Amount.largest)
    (hcuts : CutsWithin K P start.prepared) :
    (∃ final, start.fulfil K P = .ok final)
      ∨ ∃ halt, start.fulfil K P = .error halt ∧ Excused K requests halt := by
  cases hresult : start.fulfil K P with
  | ok final => exact Or.inl ⟨final, rfl⟩
  | error halt =>
      refine Or.inr ⟨halt, rfl, ?_⟩
      obtain ⟨hids, hledger⟩ := ledger_new hnew
      obtain ⟨hdistinct, hexact⟩ := prepared_exact hnew
      have hempty : start.prepared.current.IsOpen := by
        obtain ⟨dropped, kept, -, heq⟩ := prepared_eq start
        obtain ⟨-, hstart⟩ := new_ok_iff.mp hnew
        rw [heq, hstart]
        exact Draft.isOpen_empty
      obtain ⟨n, r, hafter, hfails⟩ := fulfil_fails hresult
      have hr := hafter.ledger hids hcuts (hledger.prepared hids)
      have hopen := hafter.isOpen hempty
      have hexact := hafter.exact hcuts hdistinct hexact
      rcases hfails with ⟨hgo, hturn⟩ | hfinish
      · exact hturn.excused hr hlargest hopen (hafter.distinct hdistinct hgo) hexact
      · exact hfinish.excused hopen (settles_of_exact
          (fun o ho => hlargest _ (hr.mem_requests ho)) hexact (hafter.apart hdistinct))

/-- The small round, of which one request is cut, ends well with its transaction. -/
theorem sample_consistent :
    new Sample.book.network Sample.requests Sample.credits Sample.change = .ok Sample.start
      ∧ (∀ q ∈ Sample.requests, q.amount ≤ Amount.largest)
      ∧ CutsWithin .secp256k1 Sample.policy Sample.start.prepared
      ∧ ∃ final, Sample.start.fulfil .secp256k1 Sample.policy = .ok final
        ∧ final.finalized.length = 1 := by
  have hlargest : ∀ q ∈ Sample.requests, q.amount ≤ Amount.largest := by decide
  have hcuts := Sample.cutsWithin Sample.new_eq
  refine ⟨Sample.new_eq, hlargest, hcuts, ?_⟩
  rcases fulfil_consistent Sample.new_eq hlargest hcuts with ⟨final, hfulfil⟩ | ⟨halt, herror, -⟩
  · exact ⟨final, hfulfil, Sample.length_finalized hfulfil⟩
  · obtain ⟨final, hfulfil, -⟩ := Sample.fulfil_isOk
    cases hfulfil.symm.trans herror

end Round

end NotaryPool
