import NotaryPool.Proofs.Withdrawal.CreditOrder

/-!
# Money is conserved

A draft is closed with the fee of the policy and a change output, or with what is left as its fee.
Both are right only if the payments do not exceed the inputs, which closing does not check. A draft
comes to be closed in many ways, and not in all of them it is funded. That the inputs cover the
payments whenever a draft is closed is an invariant of the turns.

## Contents

* `Draft.Balanced`: the inputs of a closed draft are its payments, its change and its fee.
* `Round.Closable`, `Round.Solvent`: what closing needs, and what holds between the turns.
* `Round.ClosableBut`, `Round.SolventBut`: the same, when some payments are excused.
* `Round.Finish.solvent`, `Round.Turn.solvent`: closing a draft and a turn keep it.
* `Round.run_conserves`: **every transaction of a round is balanced.**
-/

namespace NotaryPool

variable {K : KeyScheme} {P : TxPolicy}

/-! ## Balanced drafts -/

/-- The inputs of a closed draft are spent on its payments, its change and its fee, and there is no
change output of nothing. -/
structure Draft.Balanced (d : Draft) : Prop where
  sum : d.inputSum = d.paymentSum + d.changeAmount + d.fee
  change : ∀ output, d.change = some output → 0 < output.value

namespace Draft

variable {d draft : Draft} {script : Bytes}

theorem inputSum_serving (request : OutputRequest) (taken : List PoolCredit) :
    (d.serving request script taken).inputSum = d.inputSum + (taken.map (·.amount)).sum := by
  simp [inputSum, serving]

theorem paymentSum_serving (request : OutputRequest) (taken : List PoolCredit) :
    (d.serving request script taken).paymentSum = d.paymentSum + request.amount := by
  simp [paymentSum, serving]

/-- A funded draft covers its payments. -/
theorem isFunded_covers (hinputs : d.inputSum ≤ Amount.largest)
    (hpayments : d.paymentSum ≤ Amount.largest) (h : d.isFunded P = true) :
    d.paymentSum ≤ d.inputSum := by
  have hcovers : d.outputTotal + d.requiredFee P ≤ d.inputTotal := of_decide_eq_true h
  rw [inputTotal_eq hinputs, outputTotal_eq hpayments] at hcovers
  omega

/-- Closing a draft that covers its payments balances it. -/
theorem addChange_balanced (hinputs : d.inputSum ≤ Amount.largest)
    (hcovered : d.paymentSum ≤ d.inputSum) (hchange : d.change = none)
    (h : d.addChange P script = .ok draft) : draft.Balanced := by
  have hin := inputTotal_eq hinputs
  have hout := outputTotal_eq (Nat.le_trans hcovered hinputs)
  rcases addChange_ok h with ⟨hless, rfl⟩ | ⟨hmore, rfl⟩
  · -- the rest is the change
    rw [hin, hout] at hless ⊢
    constructor
    · show d.inputSum
        = d.paymentSum + (d.inputSum - (d.paymentSum + d.requiredFee P)) + d.requiredFee P
      omega
    · intro output houtput
      cases houtput
      exact Nat.sub_pos_of_lt hless
  · -- the rest is the fee, and here the payments must not exceed the inputs
    rw [hin, hout]
    constructor
    · show d.inputSum = d.paymentSum + changeAmount d + (d.inputSum - d.paymentSum)
      have hnone : changeAmount d = 0 := by
        unfold changeAmount
        rw [hchange]
        rfl
      omega
    · intro output houtput
      exact absurd (hchange.symm.trans houtput) (by simp)

/-- The transaction of a balanced draft takes in what it gives out, with the fee. -/
theorem Balanced.tx_sum (h : d.Balanced) :
    ((WithdrawalTx.ofDraft d).prevouts.map (·.value)).sum
      = ((WithdrawalTx.ofDraft d).tx.outputs.map (·.value)).sum + (WithdrawalTx.ofDraft d).fee := by
  have hprevouts : (WithdrawalTx.ofDraft d).prevouts.map (·.value) = d.inputs.map (·.amount) := by
    show (d.inputs.map PoolCredit.prevout).map _ = _
    rw [List.map_map]
    rfl
  have houtputs : ((WithdrawalTx.ofDraft d).tx.outputs.map (·.value)).sum
      = d.paymentSum + d.changeAmount := by
    show ((d.payments.map Payment.output ++ d.change.toList).map _).sum = _
    rw [List.map_append, List.sum_append, List.map_map]
    unfold changeAmount
    cases d.change <;> rfl
  rw [hprevouts, houtputs]
  exact h.sum

theorem sum_fee_le {drafts : List Draft} (h : ∀ d ∈ drafts, d.Balanced) :
    (drafts.map (·.fee)).sum ≤ ((drafts.flatMap (·.inputs)).map (·.amount)).sum := by
  induction drafts with
  | nil => exact Nat.le_refl 0
  | cons d rest ih =>
      have hrest := ih fun d hd => h d (List.mem_cons_of_mem _ hd)
      have hsum : (d.inputs.map (·.amount)).sum = d.paymentSum + d.changeAmount + d.fee :=
        (h d List.mem_cons_self).sum
      rw [List.map_cons, List.sum_cons, List.flatMap_cons, List.map_append, List.sum_append, hsum]
      omega

end Draft

namespace Round

variable {r r' : Round}

/-! ## The invariant -/

/-- The sum of all credits of a round. -/
def creditSum (r : Round) : Nat := (r.creditChain.map (·.amount)).sum

/-- The sum of the requests still to be paid. -/
def dueSum (pending : List DueRequest) : Nat := (pending.map (·.request.amount)).sum

/-- The sums that a round computes before its first turn can be stored: that of its credits, and
that of the requests that can be paid. -/
structure Fits (r : Round) : Prop where
  credits : (r.eligible.map (·.amount)).sum ≤ Amount.largest
  requests : dueSum r.pending ≤ Amount.largest

/-- The draft of a round can be closed: its inputs cover its payments. -/
structure Closable (r : Round) : Prop where
  credits : r.creditSum ≤ Amount.largest
  due : dueSum r.pending ≤ Amount.largest
  covered : r.current.payments ≠ [] → r.current.paymentSum ≤ r.current.inputSum
  unclosed : r.current.change = none
  balanced : ∀ d ∈ r.finalized, d.Balanced

/-- What holds between the turns: besides, the payments of the draft and the requests still to be
paid together can be stored. -/
structure Solvent (r : Round) : Prop extends Closable r where
  requests : r.current.paymentSum + dueSum r.pending ≤ Amount.largest

/-- The draft of a round can be closed: its inputs cover its payments, or these are excused. -/
structure ClosableBut (excused : List Payment → Prop) (r : Round) : Prop where
  credits : r.creditSum ≤ Amount.largest
  due : dueSum r.pending ≤ Amount.largest
  covered : r.current.payments ≠ [] →
    r.current.paymentSum ≤ r.current.inputSum ∨ excused r.current.payments
  unclosed : r.current.change = none
  balanced : ∀ d ∈ r.finalized, d.Balanced ∨ excused d.payments

/-- What holds between the turns when some payments are excused. -/
structure SolventBut (excused : List Payment → Prop) (r : Round) : Prop
    extends ClosableBut excused r where
  requests : r.current.paymentSum + dueSum r.pending ≤ Amount.largest

theorem closable_iff : r.Closable ↔ r.ClosableBut fun _ => False := by
  constructor
  · intro hr
    exact
      { hr with
        covered := fun hsome => Or.inl (hr.covered hsome)
        balanced := fun d hd => Or.inl (hr.balanced d hd) }
  · intro hr
    exact
      { hr with
        covered := fun hsome => (hr.covered hsome).resolve_right id
        balanced := fun d hd => (hr.balanced d hd).resolve_right id }

theorem solvent_iff : r.Solvent ↔ r.SolventBut fun _ => False :=
  ⟨fun hr => ⟨closable_iff.mp hr.toClosable, hr.requests⟩,
    fun hr => ⟨closable_iff.mpr hr.toClosableBut, hr.requests⟩⟩

section Excused

variable {excused : List Payment → Prop}

theorem inputSum_le_creditSum (r : Round) : r.current.inputSum ≤ r.creditSum := by
  unfold creditSum creditChain Draft.inputSum
  simp only [List.map_append, List.sum_append]
  omega

theorem paymentSum_eq_zero {d : Draft} (h : d.payments = []) : d.paymentSum = 0 := by
  unfold Draft.paymentSum
  rw [h]
  rfl

/-- Closing the draft keeps the invariant, and balances the draft unless it is excused. -/
theorem Finish.solventBut (h : Finish K P r r') (hr : r.ClosableBut excused) :
    r'.SolventBut excused := by
  have hcredits : r'.creditSum ≤ Amount.largest := by
    unfold creditSum
    rw [h.creditChain_eq]
    exact hr.credits
  cases h with
  | idle hpayments =>
      refine { hr with requests := ?_ }
      rw [paymentSum_eq_zero hpayments, Nat.zero_add]
      exact hr.due
  | closed hpayments hchange hnext hnoted =>
      refine
        { credits := hcredits
          due := hr.due
          covered := fun hsome => absurd rfl hsome
          unclosed := rfl
          balanced := ?_
          requests := ?_ }
      · intro d hd
        rcases List.mem_append.mp hd with hold | hnew
        · exact hr.balanced d hold
        · -- `covered` is there for this step
          rw [List.mem_singleton.mp hnew]
          rcases hr.covered hpayments with hcovered | hexcused
          · exact Or.inl (Draft.addChange_balanced
              (Nat.le_trans (inputSum_le_creditSum r) hr.credits) hcovered hr.unclosed hchange)
          · rw [Draft.addChange_payments hchange]
            exact Or.inr hexcused
      · show 0 + dueSum r.pending ≤ Amount.largest
        rw [Nat.zero_add]
        exact hr.due

/-! ## The turns -/

section Serving

variable {due : DueRequest} {rest : List DueRequest} {taken left : List PoolCredit}

theorem dueSum_front (h : Serves P r due rest taken left) :
    dueSum r.pending = due.request.amount + dueSum rest := by
  unfold dueSum
  rw [h.front]
  rfl

/-- The sums of the draft to which the next request has been added can be stored. -/
theorem SolventBut.serving_fits (hr : r.SolventBut excused) (h : Serves P r due rest taken left) :
    (r.current.serving due.request due.script taken).inputSum ≤ Amount.largest
      ∧ (r.current.serving due.request due.script taken).paymentSum + dueSum rest
        ≤ Amount.largest := by
  constructor
  · have hle := inputSum_le_creditSum (r.serving due rest taken left)
    unfold creditSum at hle
    rw [creditChain_serving h] at hle
    exact Nat.le_trans hle hr.credits
  · have hrequests := hr.requests
    rw [dueSum_front h] at hrequests
    rw [Draft.paymentSum_serving]
    omega

theorem SolventBut.creditSum_serving (hr : r.SolventBut excused)
    (h : Serves P r due rest taken left) :
    (r.serving due rest taken left).creditSum ≤ Amount.largest := by
  unfold creditSum
  rw [creditChain_serving h]
  exact hr.credits

/-- When the credits run out, the payment is cut down to less than the request asked for, and just
as far as needed. -/
theorem SolventBut.cut_covered (hr : r.SolventBut excused) {amount : Nat}
    (h : Serves P r due rest taken [])
    (hunfunded : (r.current.serving due.request due.script taken).isFunded P = false)
    (hamount : (r.current.serving due.request due.script taken).unspent P due.request.amount
      = amount)
    (hpositive : amount ≠ 0) :
    amount ≤ due.request.amount
      ∧ r.current.paymentSum + amount
        ≤ (r.current.serving due.request due.script taken).inputSum := by
  obtain ⟨hin, hout⟩ := hr.serving_fits h
  have hshort : ¬ (r.current.serving due.request due.script taken).outputTotal
        + (r.current.serving due.request due.script taken).requiredFee P
      ≤ (r.current.serving due.request due.script taken).inputTotal := of_decide_eq_false hunfunded
  -- what is missing is taken off the payment, so a positive rest is less than was asked
  unfold Draft.unspent at hamount
  rw [Draft.inputTotal_eq hin, Draft.outputTotal_eq (by omega), Draft.paymentSum_serving]
    at hshort hamount
  omega

/-- The request in front is paid in full. -/
theorem SolventBut.serving (hr : r.SolventBut excused) (h : Serves P r due rest taken left)
    (hfunded : (r.current.serving due.request due.script taken).isFunded P = true) :
    (r.serving due rest taken left).SolventBut excused := by
  obtain ⟨hin, hout⟩ := hr.serving_fits h
  exact
    { credits := hr.creditSum_serving h
      due := Nat.le_trans (Nat.le_add_left _ _) hout
      covered := fun _ => Or.inl (Draft.isFunded_covers hin
        (Nat.le_trans (Nat.le_add_right _ _) hout) hfunded)
      unclosed := hr.unclosed
      balanced := hr.balanced
      requests := hout }

/-- The credits run out, and the payment is cut down. -/
theorem SolventBut.cutting (hr : r.SolventBut excused) {amount : Nat}
    (h : Serves P r due rest taken [])
    (hunfunded : (r.current.serving due.request due.script taken).isFunded P = false)
    (hamount : (r.current.serving due.request due.script taken).unspent P due.request.amount
      = amount)
    (hpositive : amount ≠ 0) :
    ((r.serving due rest taken []).cutting due r.current.payments amount).SolventBut excused := by
  obtain ⟨hless, hcovered⟩ := hr.cut_covered h hunfunded hamount hpositive
  have hrequests := hr.requests
  rw [dueSum_front h] at hrequests
  have hpayments : (((r.serving due rest taken []).cutting due r.current.payments
      amount).current).paymentSum = r.current.paymentSum + amount := by
    simp [Draft.paymentSum, Round.cutting]
  have hpending : dueSum ((r.serving due rest taken []).cutting due r.current.payments
      amount).pending = due.request.amount - amount + dueSum rest := rfl
  exact
    { credits := hr.creditSum_serving h
      due := by omega
      covered := fun _ => Or.inl (by rw [hpayments]; exact hcovered)
      unclosed := hr.unclosed
      balanced := hr.balanced
      requests := by omega }

/-- The credits run out, and the payment is removed. The inputs that were taken for it stay. -/
theorem SolventBut.dropping (hr : r.SolventBut excused) (h : Serves P r due rest taken left) :
    ((r.serving due rest taken left).dropping due r.current.payments).SolventBut excused := by
  have hrequests := hr.requests
  rw [dueSum_front h] at hrequests
  refine
    { credits := hr.creditSum_serving h
      due := ?_
      covered := ?_
      unclosed := hr.unclosed
      balanced := hr.balanced
      requests := ?_ }
  · show dueSum rest ≤ Amount.largest
    omega
  · -- the payments are those from before the turn, and the inputs have become more
    intro hpayments
    refine (hr.covered hpayments).imp_left fun hcovered => ?_
    show r.current.paymentSum ≤ (r.current.serving due.request due.script taken).inputSum
    rw [Draft.inputSum_serving]
    omega
  · show r.current.paymentSum + dueSum rest ≤ Amount.largest
    omega

/-- The transaction is too big for its only payment, which gets what the inputs leave. -/
theorem SolventBut.halving (hr : r.SolventBut excused) {inputs : List PoolCredit}
    {credit : PoolCredit} {draft : Draft} {amount : Nat} (h : Serves P r due rest taken left)
    (hinputs : r.current.inputs ++ taken = inputs ++ [credit])
    (hdraft : (r.current.serving due.request due.script taken).withInputs inputs = draft)
    (hamount : draft.unspent P due.request.amount = amount) :
    (((r.serving due rest taken left).restocked draft (credit :: left)).cutting due []
      amount).ClosableBut excused := by
  have hrequests := hr.requests
  rw [dueSum_front h] at hrequests
  refine
    { credits := ?_
      due := ?_
      covered := fun _ => Or.inl ?_
      unclosed := ?_
      balanced := hr.balanced }
  · unfold creditSum
    rw [creditChain_halved h hinputs hdraft]
    exact hr.credits
  · -- here a cut may pay more than asked; the rest is then zero
    show due.request.amount - amount + dueSum rest ≤ Amount.largest
    omega
  · show amount + 0 ≤ draft.inputSum
    have htotal : draft.inputTotal ≤ draft.inputSum := Amount.total_le_sum _
    unfold Draft.unspent at hamount
    omega
  · rw [← hdraft]
    exact hr.unclosed

/-- The transaction is too big for the last of its payments, which goes back to the queue. -/
theorem SolventBut.postponing (hr : r.SolventBut excused) {kept back : List PoolCredit}
    (h : Serves P r due rest taken left) (hmore : r.current.payments ≠ [])
    (hinputs : r.current.inputs ++ taken = kept ++ back)
    (hfunded : back = [] ∨ (r.current.withInputs kept).isFunded P = true) :
    ((r.setStatus due.request.id .success).restocked (r.current.withInputs kept)
      (back ++ left)).ClosableBut excused := by
  have hcredits : ((r.setStatus due.request.id .success).restocked
      (r.current.withInputs kept) (back ++ left)).creditSum ≤ Amount.largest := by
    unfold creditSum
    rw [creditChain_postponed h hinputs]
    exact hr.credits
  refine
    { credits := hcredits
      due := hr.due
      covered := fun _ => ?_
      unclosed := hr.unclosed
      balanced := hr.balanced }
  rcases hfunded with hnone | hfunded
  · -- no input was taken out, so there are more than before the turn
    rw [hnone, List.append_nil] at hinputs
    refine (hr.covered hmore).imp_left fun hcovered => ?_
    show r.current.paymentSum ≤ (kept.map (·.amount)).sum
    rw [← hinputs, List.map_append, List.sum_append]
    exact Nat.le_trans hcovered (Nat.le_add_right _ _)
  · have hpayments : (r.current.withInputs kept).paymentSum ≤ Amount.largest :=
      Nat.le_trans (Nat.le_add_right r.current.paymentSum _) hr.requests
    exact Or.inl (Draft.isFunded_covers (Nat.le_trans (inputSum_le_creditSum _) hcredits)
      hpayments hfunded)

end Serving

/-- A turn keeps the invariant. -/
theorem Turn.solventBut {kind : TurnKind} (h : Turn K P r kind r') (hr : r.SolventBut excused) :
    r'.SolventBut excused := by
  cases h with
  | paid hserves hsmall hfunded => exact hr.serving hserves hfunded
  | cut hserves hsmall hunfunded hamount hpositive =>
      exact hr.cutting hserves hunfunded hamount hpositive
  | removed hserves hsmall hunfunded hnothing => exact hr.dropping hserves
  | halved hserves hbig hfirst hinputs hdraft hfee hamount hfinish =>
      exact (finish_cases hfinish).solventBut (hr.halving hserves hinputs hdraft hamount)
  | postponed hserves hbig hmore hinputs hback hfunded hfinish =>
      exact (finish_cases hfinish).solventBut (hr.postponing hserves hmore hinputs hfunded)

end Excused

/-- **Closing the draft keeps the invariant**, and balances the draft. -/
theorem Finish.solvent (h : Finish K P r r') (hr : r.Closable) : r'.Solvent :=
  solvent_iff.mpr (h.solventBut (closable_iff.mp hr))

/-- **A turn keeps the invariant.** -/
theorem Turn.solvent {kind : TurnKind} (h : Turn K P r kind r') (hr : r.Solvent) : r'.Solvent :=
  solvent_iff.mpr (h.solventBut (solvent_iff.mp hr))

/-! ## A whole round -/

theorem dueSum_kept_le {dropped kept pending : List DueRequest}
    (h : (dropped ++ kept).Perm pending) : dueSum kept ≤ dueSum pending := by
  have hsum : dueSum (dropped ++ kept) = dueSum pending := (h.map _).sum_nat
  have happend : dueSum (dropped ++ kept) = dueSum dropped + dueSum kept := by
    unfold dueSum
    rw [List.map_append, List.sum_append]
  omega

theorem SolventBut.prepared {excused : List Payment → Prop} (hr : r.SolventBut excused) :
    r.prepared.SolventBut excused := by
  obtain ⟨dropped, kept, hperm, heq⟩ := prepared_eq r
  have hle := dueSum_kept_le hperm
  rw [heq]
  exact
    { credits := hr.credits
      due := Nat.le_trans hle hr.due
      covered := hr.covered
      unclosed := hr.unclosed
      balanced := hr.balanced
      requests := Nat.le_trans (Nat.add_le_add_left hle _) hr.requests }

/-- A round begins with the invariant. -/
theorem Fits.solvent_new {network : AddressNetwork} {requests : List OutputRequest}
    {credits : List PoolCredit} {changeStart : ChangeAddress} {start : Round}
    (hnew : new network requests credits changeStart = .ok start) (hfits : start.Fits) :
    start.Solvent := by
  obtain ⟨-, rfl⟩ := new_ok_iff.mp hnew
  exact
    { credits := hfits.credits
      due := hfits.requests
      covered := fun hsome => absurd rfl hsome
      unclosed := rfl
      balanced := fun d hd => absurd hd List.not_mem_nil
      requests := by
        show 0 + dueSum (payable network requests) ≤ Amount.largest
        rw [Nat.zero_add]
        exact hfits.requests }

/-- The first turn is made in a state with the invariant. -/
theorem Fits.solvent {network : AddressNetwork} {requests : List OutputRequest}
    {credits : List PoolCredit} {changeStart : ChangeAddress} {start : Round}
    (hnew : new network requests credits changeStart = .ok start) (hfits : start.Fits) :
    start.prepared.Solvent :=
  solvent_iff.mpr (solvent_iff.mp (hfits.solvent_new hnew)).prepared

theorem After.solventBut {excused : List Payment → Prop} {start : Round} {n : Nat}
    (h : After K P start n r) (hstart : start.SolventBut excused) : r.SolventBut excused :=
  After.invariant (SolventBut excused) hstart (fun _ _ hr hturn => hturn.solventBut hr) h

theorem After.solvent {start : Round} {n : Nat} (h : After K P start n r) (hstart : start.Solvent) :
    r.Solvent :=
  solvent_iff.mpr (h.solventBut (solvent_iff.mp hstart))

/-- The transactions of a round are balanced, and it reports the sum of their fees. -/
theorem fulfil_balanced (hstart : r.prepared.Solvent) (h : r.fulfil K P = .ok r') :
    (∀ d ∈ r'.finalized, d.Balanced) ∧ r'.fees = (r'.finalized.map (·.fee)).sum := by
  obtain ⟨n, s, t, hafter, hfinish, rfl⟩ := fulfil_ok h
  have ht := (finish_cases hfinish).solvent (hafter.solvent hstart).toClosable
  rw [settle_eq]
  -- the fees come out of the credits, so their sum can be stored
  refine ⟨ht.balanced, Amount.total_eq_sum ?_⟩
  calc (t.finalized.map (·.fee)).sum
      ≤ ((t.finalized.flatMap (·.inputs)).map (·.amount)).sum := Draft.sum_fee_le ht.balanced
    _ ≤ t.creditSum := by
        unfold creditSum creditChain
        simp only [List.map_append, List.sum_append]
        omega
    _ ≤ Amount.largest := ht.credits

/-- **Every transaction of a round is balanced.** When a round ends well, and the sums that it
begins with can be stored, the inputs of each of its transactions are its payments, its change and
its fee to the last unit, there is no change output of nothing, and the round reports the sum of
all fees. So no transaction pays more than it spends. -/
theorem run_conserves {book : SeriesBook} {roundId : UInt32} {requests : List OutputRequest}
    {credits : List PoolCredit} {changeStart : ChangeAddress} {status : RoundStatus}
    (hfits : ∀ start, new book.network requests credits changeStart = .ok start → start.Fits)
    (hrun : run K P book roundId requests credits changeStart = .ok status) :
    ∃ start final, new book.network requests credits changeStart = .ok start
      ∧ start.fulfil K P = .ok final ∧ final.toStatus K book roundId = .ok status
      ∧ (∀ d ∈ final.finalized, d.Balanced)
      ∧ status.fees = (final.finalized.map (·.fee)).sum
      ∧ ∀ e ∈ status.transactions.entries,
          (∃ d ∈ final.finalized, e = (d.ntxid, .ofDraft d))
          ∧ (e.2.prevouts.map (·.value)).sum = (e.2.tx.outputs.map (·.value)).sum + e.2.fee := by
  obtain ⟨start, final, hnew, hfulfil, hstatus⟩ := run_ok hrun
  obtain ⟨hbalanced, hfees⟩ := fulfil_balanced ((hfits start hnew).solvent hnew) hfulfil
  refine ⟨start, final, hnew, hfulfil, hstatus, hbalanced, ?_, ?_⟩
  · obtain ⟨signed, -, rfl⟩ := toStatus_ok hstatus
    exact hfees
  · intro e he
    obtain ⟨signed, -, rfl⟩ := toStatus_ok hstatus
    obtain ⟨d, hd, rfl⟩ := List.mem_map.mp (OrderedMap.mem_ofList he)
    exact ⟨⟨d, hd, rfl⟩, (hbalanced d hd).tx_sum⟩

theorem Sample.fits {begun : Round}
    (hnew : new Sample.book.network Sample.requests Sample.credits Sample.change = .ok begun) :
    begun.Fits := by
  rw [Sample.new_eq] at hnew
  cases hnew
  exact ⟨by decide, by decide⟩

/-- The transaction of the small round is balanced. -/
theorem sample_conserves :
    ∃ status, run .secp256k1 Sample.policy Sample.book 1 Sample.requests Sample.credits
        Sample.change = .ok status
      ∧ ∃ final, Sample.start.fulfil .secp256k1 Sample.policy = .ok final
        ∧ final.finalized.length = 1
        ∧ (∀ d ∈ final.finalized, d.Balanced)
        ∧ status.fees = (final.finalized.map (·.fee)).sum := by
  obtain ⟨status, hrun⟩ := Sample.run_isOk
  obtain ⟨begun, final, hnew, hfulfil, -, hbalanced, hfees, -⟩ :=
    run_conserves (fun _ => Sample.fits) hrun
  rw [Sample.new_eq] at hnew
  cases hnew
  exact ⟨status, hrun, final, hfulfil, Sample.length_finalized hfulfil, hbalanced, hfees⟩

end Round

end NotaryPool
