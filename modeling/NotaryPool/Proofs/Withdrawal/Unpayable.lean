import Mathlib.Data.List.Find
import NotaryPool.Proofs.Withdrawal.Outcomes
import NotaryPool.Proofs.Withdrawal.Parallel

/-!
# Requests that cannot be paid

A request whose address is none of the network never gets into the queue of a round. It has an
outcome, but nothing is ever paid for it, so its outcome is never looked up. A round with such
requests is therefore the same as the round without them, except that it reports them as invalid.

## Contents

* `OutputRequest.isPayable`: the requests that a round has to pay.
* `Round.Trimmed`, `Round.interchangeable_trimmed`: lists of outcomes with and without the others.
* `Round.run_ignores_unpayable`: **a round does the same without the requests that it cannot pay.**
-/

namespace NotaryPool

variable {K : KeyScheme} {P : TxPolicy} {network : AddressNetwork} {requests : List OutputRequest}

/-- Whether the address of a request is one of the network. -/
def OutputRequest.isPayable (network : AddressNetwork) (q : OutputRequest) : Bool :=
  (q.script network).isOk

theorem OutputRequest.isPayable_iff {q : OutputRequest} :
    q.isPayable network = true ↔ ∃ script, q.script network = .ok script := by
  unfold isPayable
  cases q.script network with
  | ok script => simp [Except.isOk, Except.toBool]
  | error e => simp [Except.isOk, Except.toBool]

theorem OutputRequest.not_isPayable_iff {q : OutputRequest} :
    q.isPayable network = false ↔ ∃ e, q.script network = .error e := by
  unfold isPayable
  cases q.script network with
  | ok script => simp [Except.isOk, Except.toBool]
  | error e => simp [Except.isOk, Except.toBool]

namespace Round

variable {r : Round} {seen : RequestId → Prop} {keep : OutputRequest → Bool}

/-! ## Lists without some outcomes -/

/-- The second list has the outcomes of some requests only, among them all that are looked up. -/
structure Trimmed (seen : RequestId → Prop) (keep : OutputRequest → Bool)
    (as bs : List RequestOutcome) : Prop where
  kept : bs = as.filter fun o => keep o.request
  all : ∀ o ∈ as, seen o.id → keep o.request = true

/-- Leaving out what a search does not look for does not change what it finds. -/
theorem find?_filter_of_imp {α : Type} {p q : α → Bool} {as : List α}
    (h : ∀ a ∈ as, q a = true → p a = true) : (as.filter p).find? q = as.find? q := by
  rw [List.find?_filter]
  refine List.find?_congr fun a ha => ?_
  cases hq : q a with
  | true => simp [h a ha hq]
  | false => simp

/-- A round cannot tell whether the outcomes of requests that it does not look up are there. -/
theorem interchangeable_trimmed (seen : RequestId → Prop) (keep : OutputRequest → Bool) :
    Interchangeable seen (Trimmed seen keep) where
  map := by
    intro as bs f hf h
    constructor
    · rw [h.kept, List.filter_map]
      congr 1
      apply List.filter_congr
      intro o _
      exact congrArg keep (hf o).symm
    · intro o ho hseen
      obtain ⟨before, hbefore, rfl⟩ := List.mem_map.mp ho
      have hid : (f before).id = before.id := congrArg OutputRequest.id (hf before)
      rw [hf before]
      rw [hid] at hseen
      exact h.all before hbefore hseen
  find?_eq := by
    intro as bs id h hseen
    rw [h.kept]
    refine (find?_filter_of_imp ?_).symm
    intro o ho hid
    have hsame : o.id = id := of_decide_eq_true hid
    exact h.all o ho (hsame ▸ hseen)

/-! ## Before the first turn -/

/-- The requests that cannot be paid do not get into the queue. -/
theorem payable_filter (network : AddressNetwork) (requests : List OutputRequest) :
    payable network (requests.filter (·.isPayable network)) = payable network requests := by
  induction requests with
  | nil => rfl
  | cons q rest ih =>
      cases hq : q.isPayable network with
      | true => rw [List.filter_cons_of_pos hq, payable_cons, payable_cons, ih]
      | false =>
          obtain ⟨e, he⟩ := OutputRequest.not_isPayable_iff.mp hq
          rw [List.filter_cons_of_neg (by simp [hq]), payable_cons, intake_of_error he, ih]
          rfl

/-- A request with the identity of one that is to be paid can be paid. -/
theorem isPayable_of_id_mem (hids : (requests.map (·.id)).Nodup) {q : OutputRequest}
    (hq : q ∈ requests) (hopen : q.id ∈ (payable network requests).map (·.request.id)) :
    q.isPayable network = true := by
  obtain ⟨due, hdue, hid⟩ := List.mem_map.mp hopen
  obtain ⟨hmem, hscript⟩ := mem_payable hdue
  have hsame : due.request = q := List.inj_on_of_nodup_map hids hmem hq hid
  rw [← hsame]
  exact OutputRequest.isPayable_iff.mpr ⟨_, hscript⟩

/-- The round without the requests that cannot be paid begins with the same queue. -/
theorem new_trimmed {credits : List PoolCredit} {changeStart : ChangeAddress}
    (hnew : new network requests credits changeStart = .ok r) :
    ∃ s, new network (requests.filter (·.isPayable network)) credits changeStart = .ok s
      ∧ Parallel (Trimmed (· ∈ paidIds r.openParts) (·.isPayable network)) r s := by
  obtain ⟨hids, rfl⟩ := new_ok_iff.mp hnew
  have hids' : ((requests.filter (·.isPayable network)).map (·.id)).Nodup :=
    (List.filter_sublist.map _).nodup hids
  refine ⟨_, new_ok_iff.mpr ⟨hids', rfl⟩, ?_⟩
  rw [payable_filter]
  have hopen : paidIds ((payable network requests).map DueRequest.whole ++ [])
      = (payable network requests).map (·.request.id) := by
    rw [List.append_nil]
    exact List.map_map
  refine .intro (r := ⟨_, _, _, _, _, _, _⟩) ⟨?_, ?_⟩
  · have hrequest : ((fun o : RequestOutcome => o.request.isPayable network) ∘ (·.1)) ∘
        intake network = (·.isPayable network) := by
      funext q
      exact congrArg (·.isPayable network) (request_intake network q)
    dsimp only
    rw [List.filter_map, List.filter_map, hrequest]
  · intro o ho hseen
    obtain ⟨entry, hentry, rfl⟩ := List.mem_map.mp ho
    obtain ⟨q, hq, rfl⟩ := List.mem_map.mp hentry
    have hrequest := request_intake network q
    have hid : (intake network q).1.id = q.id := congrArg OutputRequest.id hrequest
    rw [hid] at hseen
    rw [hrequest]
    exact isPayable_of_id_mem hids hq (hopen ▸ hseen)

/-! ## A whole round -/

/-- A request that cannot be paid is invalid at the end of the round, and nothing is paid for
it. -/
theorem outcome_of_unpayable {credits : List PoolCredit} {changeStart : ChangeAddress}
    {start final : Round} (hnew : new network requests credits changeStart = .ok start)
    (hfulfil : start.fulfil K P = .ok final) {o : RequestOutcome} (ho : o ∈ final.outcomes)
    (hnot : o.request.isPayable network = false) : o.status = .invalid ∧ o.outpoints = [] := by
  obtain ⟨s, hspares, houtcomes⟩ := fulfil_spares hfulfil
  have hspares := (spares_prepared start).trans hspares
  obtain ⟨s', hnew', htrimmed⟩ := new_trimmed hnew
  rw [houtcomes] at ho
  obtain ⟨before, hbefore, rfl⟩ := List.mem_map.mp ho
  rw [request_settled] at hnot
  -- the requests are those from the beginning, where the others were not open
  have hclosed : before.id ∉ paidIds start.openParts := by
    intro hopen
    have hmem : before.request ∈ start.outcomes.map (·.request) := by
      rw [← hspares.requests_eq]
      exact List.mem_map_of_mem hbefore
    obtain ⟨first, hfirst, hrequest⟩ := List.mem_map.mp hmem
    have hid : first.id = before.id := congrArg OutputRequest.id hrequest
    have hpayable := htrimmed.outcomes.all first hfirst (hid ▸ hopen)
    rw [hrequest, hnot] at hpayable
    cases hpayable
  have hfirst := hspares.of_mem_outcomes hbefore hclosed
  obtain ⟨e, he⟩ := OutputRequest.not_isPayable_iff.mp hnot
  obtain ⟨-, rfl⟩ := new_ok_iff.mp hnew
  obtain ⟨entry, hentry, rfl⟩ := List.mem_map.mp hfirst
  obtain ⟨q, hq, rfl⟩ := List.mem_map.mp hentry
  rw [request_intake] at he
  rw [intake_of_error he]
  exact ⟨rfl, rfl⟩

/-- **A round does the same without the requests that it cannot pay.** With distinct requests, the
round of all requests and the round of those whose address is one of the network fail with the same
error, or both end well, with the same transactions, signatures, fees and next change address. The
outcomes of the second are those of the first for the requests that can be paid; the others are
invalid, and nothing is paid for them. -/
theorem run_ignores_unpayable (book : SeriesBook) (roundId : UInt32)
    {requests : List OutputRequest} (credits : List PoolCredit) (changeStart : ChangeAddress)
    (hids : (requests.map (·.id)).Nodup) :
    (∃ e, run K P book roundId requests credits changeStart = .error e
      ∧ run K P book roundId (requests.filter (·.isPayable book.network)) credits changeStart
        = .error e)
    ∨ ∃ status, run K P book roundId requests credits changeStart = .ok status
      ∧ run K P book roundId (requests.filter (·.isPayable book.network)) credits changeStart
        = .ok { status with
            outcomes := status.outcomes.filter (·.request.isPayable book.network) }
      ∧ status.outcomes.map (·.request) = requests
      ∧ ∀ o ∈ status.outcomes, o.request.isPayable book.network = false →
          o.status = .invalid ∧ o.outpoints = [] := by
  obtain ⟨start, hnew⟩ : ∃ start, new book.network requests credits changeStart = .ok start :=
    ⟨_, new_ok_iff.mpr ⟨hids, rfl⟩⟩
  obtain ⟨start', hnew', hstart⟩ := new_trimmed hnew
  have htrimmed := interchangeable_trimmed (· ∈ paidIds start.openParts)
    (·.isPayable book.network)
  have htogether := htrimmed.fulfil (K := K) (P := P) (htrimmed.prepared hstart)
    (spares_prepared start).opened
  unfold run
  rw [hnew, hnew']
  dsimp only
  cases hresult : start.fulfil K P with
  | error halt =>
      generalize start'.fulfil K P = result' at htogether ⊢
      rw [hresult] at htogether
      cases htogether with
      | error herror => exact Or.inl ⟨halt.error, rfl, congrArg Except.error herror.symm⟩
  | ok final =>
      generalize start'.fulfil K P = result' at htogether ⊢
      rw [hresult] at htogether
      cases htogether with
      | @ok _ final' hfinal =>
          rcases hfinal.toStatus (K := K) book roundId with herror | ⟨status, hstatus, hstatus'⟩
          · exact Or.inl herror
          · have houtcomes : status.outcomes = final.outcomes := by
              obtain ⟨signed, -, rfl⟩ := toStatus_ok hstatus
              rfl
            refine Or.inr ⟨status, hstatus, ?_, ?_, ?_⟩
            · rw [houtcomes, ← hfinal.outcomes.kept]
              exact hstatus'
            · rw [houtcomes, fulfil_requests_eq hresult]
              exact (ledger_new hnew).2.same
            · rw [houtcomes]
              exact fun o ho hnot => outcome_of_unpayable hnew hresult ho hnot

/-- The small round does the same for a member that has not got the request to nowhere. -/
theorem sample_ignores_lost :
    Sample.lost.isPayable Sample.book.network = false
      ∧ ∃ status, run .secp256k1 Sample.policy Sample.book 1 [Sample.paying, Sample.lost]
            Sample.credits Sample.change = .ok status
          ∧ run .secp256k1 Sample.policy Sample.book 1 [Sample.paying] Sample.credits Sample.change
            = .ok { status with
                outcomes := status.outcomes.filter (·.request.isPayable Sample.book.network) }
          ∧ ∀ o ∈ status.outcomes, o.request.isPayable Sample.book.network = false →
              o.status = .invalid ∧ o.outpoints = [] := by
  have hpaying : Sample.paying.isPayable Sample.book.network = true :=
    OutputRequest.isPayable_iff.mpr ⟨_, Sample.script_paying rfl⟩
  have hlost : Sample.lost.isPayable Sample.book.network = false :=
    OutputRequest.not_isPayable_iff.mpr Sample.script_lost
  have hfilter : Sample.requests.filter (·.isPayable Sample.book.network) = [Sample.paying] := by
    unfold Sample.requests
    rw [List.filter_cons_of_pos hpaying, List.filter_cons_of_neg (by simp [hlost]),
      List.filter_nil]
  have hids : (Sample.requests.map (·.id)).Nodup := by decide
  have hsame := run_ignores_unpayable (K := .secp256k1) (P := Sample.policy) Sample.book 1
    Sample.credits Sample.change hids
  rw [hfilter] at hsame
  refine ⟨hlost, ?_⟩
  rcases hsame with ⟨e, herror, -⟩ | ⟨status, hrun, hrun', -, hinvalid⟩
  · obtain ⟨status, hrun⟩ := Sample.run_isOk
    rw [hrun] at herror
    cases herror
  · exact ⟨status, hrun, hrun', hinvalid⟩

end Round

end NotaryPool
