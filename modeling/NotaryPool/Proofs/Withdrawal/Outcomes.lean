import NotaryPool.Proofs.Withdrawal.Conservation
import NotaryPool.Proofs.Withdrawal.Ledger

/-!
# The outcomes of a round are true

At the end of a round nothing is open any more, so the account of each request says what it has got.

## Contents

* `WithdrawalTx.requestOutputs`: the outputs of a transaction that are not its change.
* `RequestOutcome.Truthful`: what the status of an outcome promises.
* `Round.CutsWithin`, `Round.cutsWithin_of_small`: cuts that stay within their requests.
* `Round.Reported`, `Round.fulfil_reported`: what a round reports when it ends well.
* `Round.outcomes_truthful`: **the outcomes record the outputs of the round, and their statuses are
  true.**
-/

namespace NotaryPool

variable {K : KeyScheme} {P : TxPolicy} {network : AddressNetwork} {requests : List OutputRequest}

/-! ## What an outcome promises -/

/-- The outputs of a transaction that are not its change, with their positions. -/
def WithdrawalTx.requestOutputs (w : WithdrawalTx) : List (TxOut × Nat) :=
  w.tx.outputs.zipIdx.filter fun out => w.changeVout ≠ some out.2

/-- The outputs of a draft that are not its change are its payments. -/
theorem WithdrawalTx.requestOutputs_ofDraft (d : Draft) :
    (WithdrawalTx.ofDraft d).requestOutputs = (d.payments.map Payment.output).zipIdx := by
  have hpaid : ∀ out ∈ (d.payments.map Payment.output).zipIdx, d.changeVout? ≠ some out.2 := by
    intro out hout hchange
    have hbound : out.2 < d.payments.length := by
      have hlt := List.snd_lt_of_mem_zipIdx hout
      simpa using hlt
    unfold Draft.changeVout? at hchange
    obtain ⟨change, -, heq⟩ := Option.map_eq_some_iff.mp hchange
    omega
  show ((d.payments.map Payment.output ++ d.change.toList).zipIdx).filter
    (fun out => d.changeVout? ≠ some out.2) = _
  rw [List.zipIdx_append, List.filter_append,
    List.filter_eq_self.mpr fun out hout => decide_eq_true (hpaid out hout)]
  have hchange : (d.change.toList.zipIdx (0 + (d.payments.map Payment.output).length)).filter
      (fun out => d.changeVout? ≠ some out.2) = [] := by
    unfold Draft.changeVout?
    cases d.change with
    | none => rfl
    | some change => simp
  rw [hchange, List.append_nil]

/-- What the status of an outcome promises. -/
structure RequestOutcome.Truthful (network : AddressNetwork) (o : RequestOutcome) : Prop where
  invalid : o.status = .invalid ↔ ∃ e, o.request.script network = .error e
  nothing : o.status = .invalid → o.outpoints = []
  success : o.status = .success → ∃ out, o.outpoints = [out] ∧ out.amount = o.request.amount
  split : o.status = .split → 2 ≤ o.outpoints.length ∧ o.paidSum = o.request.amount
  unpaid : o.status = .unpaid → o.paidSum ≤ o.request.amount

namespace Round

variable {r r' : Round}

/-! ## Before the first turn -/

/-- No request has more to be paid than it asks for. -/
theorem shareOf_payable_le (hids : (requests.map (·.id)).Nodup) {request : OutputRequest}
    (h : request ∈ requests) :
    shareOf request.id ((payable network requests).map DueRequest.whole) ≤ request.amount := by
  induction requests with
  | nil => cases h
  | cons first rest ih =>
      rw [List.map_cons, List.nodup_cons] at hids
      rw [payable_cons, List.map_append, shareOf_append]
      have hfirst : shareOf request.id ((intake network first).2.toList.map DueRequest.whole)
          ≤ if first.id = request.id then first.amount else 0 := by
        cases hscript : first.script network with
        | error e =>
            rw [intake_of_error hscript]
            exact Nat.zero_le _
        | ok script =>
            rw [intake_of_ok hscript]
            show shareOf request.id [⟨first, first.amount, script⟩] ≤ _
            rw [shareOf_cons, shareOf_nil]
            exact Nat.le_refl _
      rcases List.mem_cons.mp h with rfl | hrest
      · -- the others have other identities
        have hnone : shareOf request.id ((payable network rest).map DueRequest.whole) = 0 := by
          apply shareOf_eq_zero
          intro hmem
          obtain ⟨p, hp, hid⟩ := List.mem_map.mp hmem
          obtain ⟨due, hdue, rfl⟩ := List.mem_map.mp hp
          exact hids.1 (hid ▸ List.mem_map_of_mem (mem_payable hdue).1)
        rw [if_pos rfl] at hfirst
        omega
      · have hne : first.id ≠ request.id := by
          intro hid
          exact hids.1 (hid ▸ List.mem_map_of_mem hrest)
        have hle := ih hids.2 hrest
        rw [if_neg hne] at hfirst
        omega

/-- What is known of a request before the round. -/
theorem intake_outcome (network : AddressNetwork) (request : OutputRequest) :
    (intake network request).1.request = request
      ∧ (intake network request).1.outpoints = []
      ∧ ((intake network request).1.status = .invalid
          ↔ ∃ e, request.script network = .error e)
      ∧ (intake network request).1.status ≠ .split
      ∧ (intake network request).1.status ≠ .success := by
  cases hscript : request.script network with
  | error e =>
      rw [intake_of_error hscript]
      simp
  | ok script =>
      rw [intake_of_ok hscript]
      simp

/-- Before the round, when all of a request is open or nothing of it, its outcome is sound. -/
theorem sound_intake (hids : (requests.map (·.id)).Nodup) {request : OutputRequest}
    (h : request ∈ requests) :
    Sound network ((payable network requests).map DueRequest.whole)
      (intake network request).1 := by
  obtain ⟨hrequest, houtpoints, hinvalid, hsplit, hsuccess⟩ := intake_outcome network request
  refine ⟨?_, ?_, hsplit, fun h => absurd h hsuccess⟩
  · unfold RequestOutcome.paidSum RequestOutcome.id
    rw [houtpoints, hrequest]
    show 0 + shareOf request.id ((payable network requests).map DueRequest.whole) ≤ request.amount
    rw [Nat.zero_add]
    exact shareOf_payable_le hids h
  · rw [hrequest]
    exact hinvalid

/-- The accounts of a round that has not begun. -/
theorem ledger_new {credits : List PoolCredit} {changeStart : ChangeAddress} {start : Round}
    (h : new network requests credits changeStart = .ok start) :
    (requests.map (·.id)).Nodup ∧ Ledger network requests start := by
  obtain ⟨hids, rfl⟩ := new_ok_iff.mp h
  have hparts : (payable network requests).map DueRequest.whole ++ Draft.empty.payments
      = (payable network requests).map DueRequest.whole := List.append_nil _
  refine ⟨hids, ?_⟩
  constructor
  · show ((requests.map (intake network)).map (·.1)).map (·.request) = requests
    rw [List.map_map, List.map_map]
    exact (List.map_congr_left fun q _ => request_intake network q).trans (List.map_id requests)
  · intro p hp
    have hp' : p ∈ (payable network requests).map DueRequest.whole := hparts ▸ hp
    obtain ⟨due, hdue, rfl⟩ := List.mem_map.mp hp'
    obtain ⟨hmem, hscript⟩ := mem_payable hdue
    exact ⟨due.request, hmem, rfl, hscript⟩
  · have hnone : recordedOutputs network ((requests.map (intake network)).map (·.1)) = [] := by
      unfold recordedOutputs
      rw [List.map_map, List.flatMap_map, List.flatMap_eq_nil_iff]
      intro q _
      rw [Function.comp_apply, (intake_outcome network q).2.1]
      rfl
    rw [hnone]
    exact List.Perm.refl _
  · intro o ho
    obtain ⟨entry, hentry, rfl⟩ := List.mem_map.mp ho
    obtain ⟨q, hq, rfl⟩ := List.mem_map.mp hentry
    show Sound network ((payable network requests).map DueRequest.whole ++ Draft.empty.payments) _
    rw [hparts]
    exact sound_intake hids hq

/-! ## Cuts -/

/-- No cut of a round pays more than the request asks for: the subtraction that gives the rest of
the request never goes below zero. -/
def CutsWithin (K : KeyScheme) (P : TxPolicy) (start : Round) : Prop :=
  ∀ n r r' asked amount, After K P start n r → r.GoesOn P n →
    Turn K P r (.cut asked amount) r' → amount ≤ asked

/-- A cut because the credits run out stays within the request, so where no transaction is too big
all cuts do. -/
theorem cutsWithin_of_small {start : Round} (hsmall : ∀ shape, P.isTooBig shape = false)
    (hstart : start.Solvent) : CutsWithin K P start := by
  intro n r r' asked amount hafter _ hturn
  cases hturn with
  | cut hserves _ hunfunded hamount hpositive =>
      exact ((solvent_iff.mp (hafter.solvent hstart)).cut_covered hserves hunfunded hamount
        hpositive).1
  | halved _ hbig _ _ _ _ _ _ => exact absurd ((hsmall _).symm.trans hbig) (by simp)

theorem After.ledger {start : Round} {n : Nat} (hids : (requests.map (·.id)).Nodup)
    (hcuts : CutsWithin K P start) (hstart : Ledger network requests start)
    (h : After K P start n r) : Ledger network requests r := by
  refine After.invariant (Ledger network requests) hstart ?_ h
  intro n r r' kind hafter hgo hr hturn
  refine hturn.ledger hids ?_ hr
  intro asked amount hkind
  subst hkind
  exact hcuts n r r' asked amount hafter hgo hturn

/-! ## After the last turn -/

/-- Nothing is recorded for a request whose address is none of the network. -/
theorem Ledger.outpoints_of_error (hr : Ledger network requests r) {o : RequestOutcome}
    (ho : o ∈ r.outcomes) {e : DestinationError} (he : o.request.script network = .error e) :
    o.outpoints = [] := by
  rw [List.eq_nil_iff_forall_not_mem]
  intro out hout
  have hrecorded : (out, o.request.script network) ∈ recordedOutputs network r.outcomes :=
    List.mem_flatMap.mpr ⟨o, ho, List.mem_map.mpr ⟨out, hout, rfl⟩⟩
  have hplaced := hr.recorded.mem_iff.mp hrecorded
  obtain ⟨d, -, hd⟩ := List.mem_flatMap.mp hplaced
  obtain ⟨p, -, heq⟩ := List.mem_map.mp hd
  rw [he] at heq
  cases heq

theorem paidSum_of_fulfilled {o : RequestOutcome} (hle : o.paidSum ≤ o.request.amount)
    (h : o.fulfilled = o.request.amount) : o.paidSum = o.request.amount := by
  have htotal : o.fulfilled ≤ o.paidSum := Amount.total_le_sum _
  omega

/-- Once nothing is open, the statuses are true as soon as outcomes with several outputs are told
apart. -/
theorem Sound.truthful {o : RequestOutcome} (ho : Sound network [] o)
    (hnothing : o.status = .invalid → o.outpoints = []) : (settled o).Truthful network := by
  have hbalance : o.paidSum ≤ o.request.amount := ho.balance
  unfold settled
  by_cases hsplit : o.status = .success ∧ 1 < o.outpoints.length
  · -- paid by several outputs
    rw [if_pos hsplit]
    have hfull : o.outpoints ≠ [] ∧ o.fulfilled = o.request.amount :=
      (ho.success hsplit.1).resolve_left List.not_mem_nil
    refine ⟨?_, by simp, by simp, fun _ => ⟨hsplit.2, paidSum_of_fulfilled hbalance hfull.2⟩,
      by simp⟩
    rw [← ho.invalid, hsplit.1]
    simp
  · rw [if_neg hsplit]
    refine ⟨ho.invalid, hnothing, ?_, fun h => absurd h ho.unsplit, fun _ => hbalance⟩
    intro hsuccess
    have hfull : o.outpoints ≠ [] ∧ o.fulfilled = o.request.amount :=
      (ho.success hsuccess).resolve_left List.not_mem_nil
    have hfew : ¬ 1 < o.outpoints.length := fun hmany => hsplit ⟨hsuccess, hmany⟩
    obtain ⟨out, hout⟩ : ∃ out, o.outpoints = [out] := by
      apply List.length_eq_one_iff.mp
      have hpos := List.length_pos_iff.mpr hfull.1
      omega
    refine ⟨out, hout, ?_⟩
    have hsum := paidSum_of_fulfilled hbalance hfull.2
    unfold RequestOutcome.paidSum at hsum
    rw [hout] at hsum
    simpa using hsum

/-! ## A whole round -/

theorem Ledger.prepared (hr : Ledger network requests r) (hids : (requests.map (·.id)).Nodup) :
    Ledger network requests r.prepared := by
  obtain ⟨dropped, kept, hperm, heq⟩ := prepared_eq r
  rw [heq]
  exact hr.drop hids hperm

/-- A round ends with accounts in which nothing is open, and settles them. -/
theorem fulfil_ledger (hids : (requests.map (·.id)).Nodup) (hcuts : CutsWithin K P r.prepared)
    (hr : Ledger network requests r) (h : r.fulfil K P = .ok r') :
    ∃ s, Ledger network requests s ∧ s.openParts = [] ∧ s.outcomes.map settled = r'.outcomes
      ∧ s.finalized = r'.finalized := by
  obtain ⟨n, s, t, hafter, hfinish, rfl⟩ := fulfil_ok h
  obtain ⟨ht, hnone⟩ :=
    (hafter.ledger hids hcuts (hr.prepared hids)).finish hids (finish_cases hfinish)
  have hpending : (t.pending ++ []).Perm t.pending := by rw [List.append_nil]
  have hdropped := ht.drop hids hpending
  rw [settle_eq]
  exact ⟨_, hdropped, hnone, rfl, rfl⟩

theorem recordedOutputs_settled (network : AddressNetwork) (outcomes : List RequestOutcome) :
    recordedOutputs network (outcomes.map settled) = recordedOutputs network outcomes := by
  unfold recordedOutputs
  rw [List.flatMap_map]
  apply List.flatMap_congr
  intro o _
  rw [request_settled, outpoints_settled]

theorem placedOutputs_eq (finalized : List Draft) :
    placedOutputs finalized = (finalized.map WithdrawalTx.ofDraft).flatMap fun w =>
      w.requestOutputs.map fun (out, index) => (⟨w.ntxid, index, out.value⟩, .ok out.script) := by
  unfold placedOutputs
  rw [List.flatMap_map]
  apply List.flatMap_congr
  intro d _
  rw [WithdrawalTx.requestOutputs_ofDraft, List.zipIdx_map, List.map_map]
  rfl

/-- What a round reports when nothing is open any more: an outcome for each of its requests, the
outputs of its transactions one by one, and statuses that are true. -/
structure Reported (network : AddressNetwork) (requests : List OutputRequest) (r : Round) :
    Prop where
  same : r.outcomes.map (·.request) = requests
  recorded : (recordedOutputs network r.outcomes).Perm (placedOutputs r.finalized)
  truthful : ∀ o ∈ r.outcomes, o.Truthful network

theorem fulfil_reported (hids : (requests.map (·.id)).Nodup) (hcuts : CutsWithin K P r.prepared)
    (hr : Ledger network requests r) (h : r.fulfil K P = .ok r') :
    Reported network requests r' := by
  obtain ⟨s, hs, hnone, houtcomes, hfinalized⟩ := fulfil_ledger hids hcuts hr h
  constructor
  · rw [← houtcomes, List.map_map, ← hs.same]
    exact List.map_congr_left fun o _ => request_settled o
  · rw [← houtcomes, recordedOutputs_settled, ← hfinalized]
    exact hs.recorded
  · intro o' ho'
    rw [← houtcomes] at ho'
    obtain ⟨o, ho, rfl⟩ := List.mem_map.mp ho'
    have hsound := hs.sound o ho
    rw [hnone] at hsound
    apply hsound.truthful
    intro hinvalid
    obtain ⟨e, he⟩ := hsound.invalid.mp hinvalid
    exact hs.outpoints_of_error ho he

/-- **The outcomes of a round are true.** When a round ends well and none of its cuts pays more than
asked, the outpoints that it reports for its requests are, one by one, the outputs of its
transactions that are not change, with their places, their amounts, and the scripts of the
addresses of the requests, and each status keeps its promise. -/
theorem outcomes_truthful {book : SeriesBook} {roundId : UInt32} {requests : List OutputRequest}
    {credits : List PoolCredit} {changeStart : ChangeAddress} {status : RoundStatus}
    (hcuts : ∀ start, new book.network requests credits changeStart = .ok start →
      CutsWithin K P start.prepared)
    (hrun : run K P book roundId requests credits changeStart = .ok status) :
    ∃ start final, new book.network requests credits changeStart = .ok start
      ∧ start.fulfil K P = .ok final ∧ final.toStatus K book roundId = .ok status
      ∧ status.outcomes.map (·.request) = requests
      ∧ (recordedOutputs book.network status.outcomes).Perm
          ((final.finalized.map WithdrawalTx.ofDraft).flatMap fun w =>
            w.requestOutputs.map fun (out, index) =>
              (⟨w.ntxid, index, out.value⟩, .ok out.script))
      ∧ ∀ o ∈ status.outcomes, o.Truthful book.network := by
  obtain ⟨start, final, hnew, hfulfil, hstatus⟩ := run_ok hrun
  obtain ⟨hids, hledger⟩ := ledger_new hnew
  have hreported := fulfil_reported hids (hcuts start hnew) hledger hfulfil
  have houtcomes : status.outcomes = final.outcomes := by
    obtain ⟨signed, -, rfl⟩ := toStatus_ok hstatus
    rfl
  refine ⟨start, final, hnew, hfulfil, hstatus, ?_⟩
  rw [← placedOutputs_eq, houtcomes]
  exact ⟨hreported.same, hreported.recorded, hreported.truthful⟩

theorem Sample.cutsWithin {begun : Round}
    (hnew : new Sample.book.network Sample.requests Sample.credits Sample.change = .ok begun) :
    CutsWithin .secp256k1 Sample.policy begun.prepared :=
  cutsWithin_of_small (fun _ => rfl) ((Sample.fits hnew).solvent hnew)

/-- The outcomes of the small round, of which one is cut and one invalid, are true: one output of
its transaction is recorded. -/
theorem sample_truthful :
    ∃ status final, run .secp256k1 Sample.policy Sample.book 1 Sample.requests Sample.credits
        Sample.change = .ok status
      ∧ Sample.start.fulfil .secp256k1 Sample.policy = .ok final
      ∧ final.finalized.length = 1
      ∧ status.outcomes.map (·.request) = Sample.requests
      ∧ (recordedOutputs Sample.book.network status.outcomes).Perm
          ((final.finalized.map WithdrawalTx.ofDraft).flatMap fun w =>
            w.requestOutputs.map fun (out, index) =>
              (⟨w.ntxid, index, out.value⟩, .ok out.script))
      ∧ ∀ o ∈ status.outcomes, o.Truthful Sample.book.network := by
  obtain ⟨status, hrun⟩ := Sample.run_isOk
  obtain ⟨begun, final, hnew, hfulfil, -, hreported⟩ :=
    outcomes_truthful (fun _ => Sample.cutsWithin) hrun
  obtain rfl : Sample.start = begun := Except.ok.inj (Sample.new_eq.symm.trans hnew)
  exact ⟨status, final, hrun, hfulfil, Sample.length_finalized hfulfil, hreported⟩

end Round

end NotaryPool
