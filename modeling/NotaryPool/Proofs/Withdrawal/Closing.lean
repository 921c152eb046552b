import NotaryPool.Proofs.Withdrawal.Conservation
import NotaryPool.Proofs.Withdrawal.Shape
import NotaryPool.Proofs.Withdrawal.Splitting

/-!
# The drafts that a round closes

A draft is closed at three places: after its only payment has been split, after the last of its
payments has been taken out, and after the last turn. Closing it measures nothing again. So what a
transaction is worth is decided by the turn before, and this module says what each of the three
places can rely on. Nothing but the last turn matters for that, so most of it needs no induction.

In one respect the turns leave a draft worse than they found it. Credits that were taken for a
payment stay when the payment is removed, or when it is taken out while the others do not fund the
draft any more. They do no harm if each of them is worth its fee.

## Contents

* `Draft.Costly`: a draft with an input that costs more than it brings.
* `Round.After.small`, `Round.After.funded`: the draft between two turns.
* `Round.Closes`, `Round.fulfil_closes`: **the drafts that become transactions.**
* `Round.Closes.funded_or_costly`, `Round.Closes.small_or_costly`: what is known of them.
-/

namespace NotaryPool

variable {K : KeyScheme} {P : TxPolicy}

/-! ## Inputs that cost more than they bring -/

namespace Draft

variable {d : Draft}

/-- One of the inputs costs more than it brings: those before it fund the payments, and together
with it they do not. -/
def Costly (P : TxPolicy) (d : Draft) : Prop :=
  ∃ inputs credit, inputs ++ [credit] <+: d.inputs ∧ (d.withInputs inputs).isFunded P = true
    ∧ (d.withInputs (inputs ++ [credit])).isFunded P = false

/-- If some of the inputs fund the payments and more of them do not, one of them is too costly. -/
theorem costly_of_unfunded (inputs more : List PoolCredit) (hpart : inputs ++ more <+: d.inputs)
    (hfunded : (d.withInputs inputs).isFunded P = true)
    (hunfunded : (d.withInputs (inputs ++ more)).isFunded P = false) : d.Costly P := by
  induction more generalizing inputs with
  | nil =>
      rw [List.append_nil, hfunded] at hunfunded
      cases hunfunded
  | cons credit rest ih =>
      have hsplit : inputs ++ credit :: rest = (inputs ++ [credit]) ++ rest := by simp
      rw [hsplit] at hpart hunfunded
      cases hnext : (d.withInputs (inputs ++ [credit])).isFunded P with
      | true => exact ih _ hpart hnext hunfunded
      | false => exact ⟨inputs, credit, (List.prefix_append _ _).trans hpart, hfunded, hnext⟩

theorem funded_or_costly {inputs more : List PoolCredit} (hinputs : d.inputs = inputs ++ more)
    (hfunded : (d.withInputs inputs).isFunded P = true) : d.isFunded P = true ∨ d.Costly P := by
  cases hall : d.isFunded P with
  | true => exact Or.inl rfl
  | false =>
      have hsame : d.withInputs (inputs ++ more) = d := by
        rw [← hinputs]
        rfl
      right
      apply costly_of_unfunded inputs more
      · exact ⟨[], by rw [List.append_nil, hinputs]⟩
      · exact hfunded
      · rw [hsame]
        exact hall

/-- A payment that is cut down to what the inputs leave makes the draft funded. -/
theorem isFunded_cut {ps : List Payment} {p q : Payment} (hpayments : d.payments = ps ++ [p])
    (hsum : d.paymentSum ≤ Amount.largest) (hscript : q.script = p.script)
    (hamount : q.amount = d.unspent P p.amount) (hpositive : q.amount ≠ 0) :
    isFunded P { d with payments := ps ++ [q] } = true := by
  have hfee : requiredFee P { d with payments := ps ++ [q] } = d.requiredFee P := by
    unfold requiredFee
    rw [shape_setLast hpayments hscript]
  have hold : d.outputTotal = (ps.map (·.amount)).sum + p.amount := by
    rw [outputTotal_eq hsum]
    simp [paymentSum, hpayments]
  have hnew :
      outputTotal { d with payments := ps ++ [q] } ≤ (ps.map (·.amount)).sum + q.amount := by
    refine Nat.le_trans (Amount.total_le_sum _) ?_
    simp
  refine decide_eq_true ?_
  show outputTotal { d with payments := ps ++ [q] } + _ ≤ d.inputTotal
  rw [hfee]
  unfold unspent at hamount
  omega

end Draft

namespace Round

variable {r r' s start : Round} {n : Nat}

/-! ## Between two turns -/

theorem After.unclosed (hstart : start.current = .empty) (h : After K P start n r) :
    r.current.change = none :=
  (h.isOpen (hstart ▸ Draft.isOpen_empty)).change

theorem After.addressScripts (hstart : ∀ due ∈ start.pending, AddressScript due.script)
    (h : After K P start n r) : ∀ due ∈ r.pending, AddressScript due.script := by
  refine After.invariant (fun r => ∀ due ∈ r.pending, AddressScript due.script) hstart ?_ h
  intro n q r kind hafter hgo hq hturn
  cases hturn with
  | paid hserves hsmall hfunded =>
      rw [hserves.front] at hq
      exact fun due hdue => hq due (List.mem_cons_of_mem _ hdue)
  | cut hserves hsmall hunfunded hamount hpositive =>
      -- what goes back to the queue keeps the script
      rw [hserves.front, List.forall_mem_cons] at hq
      exact List.forall_mem_cons.mpr hq
  | removed hserves hsmall hunfunded hnothing =>
      rw [hserves.front] at hq
      exact fun due hdue => hq due (List.mem_cons_of_mem _ hdue)
  | halved hserves hbig hfirst hinputs hdraft hfee hamount hfinish =>
      rw [(finish_cases hfinish).pending_eq]
      rw [hserves.front, List.forall_mem_cons] at hq
      exact List.forall_mem_cons.mpr hq
  | postponed hserves hbig hmore hinputs hback hfunded hfinish =>
      rw [(finish_cases hfinish).pending_eq]
      exact hq

/-- The payments of the draft and the requests still to be paid together can be stored. -/
theorem After.storable (hstart : start.current = .empty)
    (hsum : dueSum start.pending ≤ Amount.largest) (h : After K P start n r) :
    r.current.paymentSum + dueSum r.pending ≤ Amount.largest := by
  refine After.invariant (fun r => r.current.paymentSum + dueSum r.pending ≤ Amount.largest)
    ?_ ?_ h
  · show start.current.paymentSum + _ ≤ _
    rw [hstart]
    exact (Nat.zero_add _).symm ▸ hsum
  · intro n q r kind hafter hgo hq hturn
    cases hturn with
    | @paid due rest taken left hserves hsmall hfunded =>
        rw [dueSum_front hserves] at hq
        show (q.current.serving due.request due.script taken).paymentSum + dueSum rest ≤ _
        rw [Draft.paymentSum_serving]
        omega
    | @cut due rest taken amount hserves hsmall hunfunded hamount hpositive =>
        have hless := Draft.unspent_lt (d := q.current.serving due.request due.script taken) rfl
          hunfunded (hamount ▸ hpositive)
        rw [hamount] at hless
        rw [dueSum_front hserves] at hq
        have hpayments : ((q.serving due rest taken []).cutting due q.current.payments
            amount).current.paymentSum = q.current.paymentSum + amount := by
          simp [Draft.paymentSum, cutting]
        show _ + (due.request.amount - amount + dueSum rest) ≤ _
        rw [hpayments]
        have hless' : amount < due.request.amount := hless
        omega
    | @removed due rest taken hserves hsmall hunfunded hnothing =>
        rw [dueSum_front hserves] at hq
        show q.current.paymentSum + dueSum rest ≤ _
        omega
    | @halved due rest _ _ _ _ _ amount _ hserves hbig hfirst hinputs hdraft hfee hamount
        hfinish =>
        rw [dueSum_front hserves] at hq
        have hfinish := finish_cases hfinish
        show r.current.paymentSum + _ ≤ _
        rw [hfinish.pending_eq, hfinish.current_eq (by simp [cutting])]
        show 0 + (due.request.amount - amount + dueSum rest) ≤ _
        omega
    | postponed hserves hbig hmore hinputs hback hfunded hfinish =>
        have hfinish := finish_cases hfinish
        show r.current.paymentSum + _ ≤ _
        rw [hfinish.pending_eq, hfinish.current_eq hmore]
        show 0 + dueSum q.pending ≤ _
        omega

/-- Between two turns a draft with payments is not too big. -/
theorem After.small (hP : P.Monotone) (hstart : start.current = .empty) (h : After K P start n r)
    (hpayments : r.current.payments ≠ []) : r.current.isTooBig P = false := by
  cases h with
  | zero =>
      rw [hstart] at hpayments
      exact absurd rfl hpayments
  | @succ m q _ hafter hgo hok =>
      obtain ⟨kind, hturn⟩ := hgo.turn hok
      cases hturn with
      | paid hserves hsmall hfunded => exact hsmall
      | cut hserves hsmall hunfunded hamount hpositive =>
          unfold Draft.isTooBig at hsmall ⊢
          rw [← hsmall]
          exact congrArg P.isTooBig (Draft.shape_setLast rfl rfl)
      | @removed due rest taken hserves hsmall hunfunded hnothing =>
          have hwithin := Draft.shape_withoutLast
            (d := q.current.serving due.request due.script taken) (hafter.unclosed hstart) rfl
          exact hP.small hwithin hsmall
      | halved hserves hbig hfirst hinputs hdraft hfee hamount hfinish =>
          exact absurd (finish_cases hfinish).payments_eq_nil hpayments
      | postponed hserves hbig hmore hinputs hback hfunded hfinish =>
          exact absurd (finish_cases hfinish).payments_eq_nil hpayments

/-- When another turn is made, a draft with payments is funded: either the last turn has paid all
of a request, or it has used up the credits, and then the inputs must be more than enough. -/
theorem After.funded (hstart : start.current = .empty) (h : After K P start n r)
    (hgo : r.GoesOn P n) (hpayments : r.current.payments ≠ []) : r.current.isFunded P = true := by
  have hspent : r.isExhausted P = false → r.eligible = [] → r.current.isFunded P = true := by
    intro hmore hnone
    unfold isExhausted at hmore
    rw [hnone] at hmore
    have hless : ¬ r.current.inputTotal ≤ r.current.outputTotal + r.current.requiredFee P := by
      simpa using hmore
    exact decide_eq_true (by omega)
  cases h with
  | zero =>
      rw [hstart] at hpayments
      exact absurd rfl hpayments
  | @succ m q _ hafter hbefore hok =>
      have hmore := Bool.eq_false_iff.mpr hgo.not_isExhausted
      obtain ⟨kind, hturn⟩ := hbefore.turn hok
      cases hturn with
      | paid hserves hsmall hfunded => exact hfunded
      | cut hserves hsmall hunfunded hamount hpositive => exact hspent hmore rfl
      | removed hserves hsmall hunfunded hnothing => exact hspent hmore rfl
      | halved hserves hbig hfirst hinputs hdraft hfee hamount hfinish =>
          exact absurd (finish_cases hfinish).payments_eq_nil hpayments
      | postponed hserves hbig hmore hinputs hback hfunded hfinish =>
          exact absurd (finish_cases hfinish).payments_eq_nil hpayments

/-- Between two turns a draft with payments is funded, unless it keeps an input that costs more than
it brings. -/
theorem After.funded_or_costly (hstart : start.current = .empty)
    (hsum : dueSum start.pending ≤ Amount.largest) (h : After K P start n r)
    (hpayments : r.current.payments ≠ []) :
    r.current.isFunded P = true ∨ r.current.Costly P := by
  cases h with
  | zero =>
      rw [hstart] at hpayments
      exact absurd rfl hpayments
  | @succ m q _ hafter hgo hok =>
      obtain ⟨kind, hturn⟩ := hgo.turn hok
      cases hturn with
      | paid hserves hsmall hfunded => exact Or.inl hfunded
      | @cut due rest taken amount hserves hsmall hunfunded hamount hpositive =>
          have hstorable := hafter.storable hstart hsum
          rw [dueSum_front hserves] at hstorable
          refine Or.inl (Draft.isFunded_cut (p := ⟨due.request, due.request.amount, due.script⟩)
            (d := q.current.serving due.request due.script taken) rfl ?_ rfl hamount.symm
            hpositive)
          rw [Draft.paymentSum_serving]
          omega
      | removed hserves hsmall hunfunded hnothing =>
          -- the payments that are left were funded before the turn
          exact Draft.funded_or_costly rfl (hafter.funded hstart hgo hpayments)
      | halved hserves hbig hfirst hinputs hdraft hfee hamount hfinish =>
          exact absurd (finish_cases hfinish).payments_eq_nil hpayments
      | postponed hserves hbig hmore hinputs hback hfunded hfinish =>
          exact absurd (finish_cases hfinish).payments_eq_nil hpayments

/-! ## Where drafts are closed -/

/-- The drafts that a round closes. -/
inductive Closes (K : KeyScheme) (P : TxPolicy) (start : Round) : Draft → Prop
  /-- The only payment has been split, since the transaction has become too big for it. -/
  | halved {n : Nat} {r : Round} {due rest taken left inputs credit draft}
      (hafter : After K P start n r)
      (hserves : Serves P r due rest taken left) (hfirst : r.current.payments = [])
      (hbig : (r.current.serving due.request due.script taken).isTooBig P = true)
      (hinputs : r.current.inputs ++ taken = inputs ++ [credit])
      (hdraft : (r.current.serving due.request due.script taken).withInputs inputs = draft)
      (hfee : draft.requiredFee P < draft.inputTotal) :
      Closes K P start { draft with
        payments := [⟨due.request, draft.unspent P due.request.amount, due.script⟩] }
  /-- The last payment has been taken out, since the transaction has become too big for it. -/
  | postponed {n : Nat} {r : Round} {due rest taken left kept back} (hafter : After K P start n r)
      (hgo : r.GoesOn P n) (hserves : Serves P r due rest taken left)
      (hmore : r.current.payments ≠ []) (hinputs : r.current.inputs ++ taken = kept ++ back)
      (hback : (r.current.serving due.request due.script taken).rollBack P
        = .ok (back.reverse, ⟨due.request, due.request.amount, due.script⟩,
            r.current.withInputs kept))
      (hfunded : back = [] ∨ (r.current.withInputs kept).isFunded P = true) :
      Closes K P start (r.current.withInputs kept)
  /-- No further turn is made. -/
  | last {n : Nat} {r : Round} (hafter : After K P start n r)
      (hpayments : r.current.payments ≠ []) :
      Closes K P start r.current

/-- If the draft of a round is one that is closed, all transactions are such drafts, closed. -/
theorem Finish.closes {Q : Draft → Prop} (h : Finish K P r r')
    (hcurrent : r.current.payments ≠ [] → Q r.current)
    (hr : ∀ d ∈ r.finalized, ∃ draft script, Q draft ∧ draft.addChange P script = .ok d) :
    ∀ d ∈ r'.finalized, ∃ draft script, Q draft ∧ draft.addChange P script = .ok d := by
  cases h with
  | idle hnone => exact hr
  | closed hsome hchange hnext hnoted =>
      intro d hd
      rcases List.mem_append.mp hd with hold | hnew
      · exact hr d hold
      · rw [List.mem_singleton.mp hnew]
        exact ⟨_, _, hcurrent hsome, hchange⟩

theorem After.closes (hstart : start.finalized = []) (h : After K P start n r) :
    ∀ d ∈ r.finalized, ∃ draft script, Closes K P start draft
      ∧ draft.addChange P script = .ok d := by
  refine After.invariant (fun r => ∀ d ∈ r.finalized, ∃ draft script, Closes K P start draft
    ∧ draft.addChange P script = .ok d) ?_ ?_ h
  · rw [hstart]
    exact fun d hd => absurd hd List.not_mem_nil
  · intro n q r kind hafter hgo hq hturn
    cases hturn with
    | paid hserves hsmall hfunded => exact hq
    | cut hserves hsmall hunfunded hamount hpositive => exact hq
    | removed hserves hsmall hunfunded hnothing => exact hq
    | halved hserves hbig hfirst hinputs hdraft hfee hamount hfinish =>
        refine (finish_cases hfinish).closes (fun _ => ?_) hq
        rw [← hamount]
        exact .halved hafter hserves hfirst hbig hinputs hdraft hfee
    | postponed hserves hbig hmore hinputs hback hfunded hfinish =>
        exact (finish_cases hfinish).closes
          (fun _ => .postponed hafter hgo hserves hmore hinputs hback hfunded) hq

/-- **Every transaction of a round is one of these drafts, closed.** -/
theorem fulfil_closes (hnone : r.finalized = []) (h : r.fulfil K P = .ok r') :
    ∀ d ∈ r'.finalized, ∃ draft script, Closes K P r.prepared draft
      ∧ draft.addChange P script = .ok d := by
  obtain ⟨n, s, t, hafter, hfinish, rfl⟩ := fulfil_ok h
  have hstart : r.prepared.finalized = [] := by
    obtain ⟨dropped, kept, -, heq⟩ := prepared_eq r
    rw [heq]
    exact hnone
  rw [settle_eq]
  exact (finish_cases hfinish).closes (fun hsome => .last hafter hsome) (hafter.closes hstart)

/-! ## What is known of them -/

section Closes

variable {draft : Draft}

theorem Closes.unclosed (hstart : start.current = .empty) (h : Closes K P start draft) :
    draft.change = none := by
  cases h with
  | halved hafter hserves hfirst hbig hinputs hdraft hfee =>
      rw [← hdraft]
      exact hafter.unclosed hstart
  | postponed hafter hgo hserves hmore hinputs hback hfunded => exact hafter.unclosed hstart
  | last hafter hpayments => exact hafter.unclosed hstart

theorem Closes.payments_ne_nil (h : Closes K P start draft) : draft.payments ≠ [] := by
  cases h with
  | halved hafter hserves hfirst hbig hinputs hdraft hfee => exact List.cons_ne_nil _ _
  | postponed hafter hgo hserves hmore hinputs hback hfunded => exact hmore
  | last hafter hpayments => exact hpayments

/-- A draft is funded when it is closed, unless it keeps an input that costs more than it brings. -/
theorem Closes.funded_or_costly (hstart : start.current = .empty)
    (hsum : dueSum start.pending ≤ Amount.largest) (h : Closes K P start draft) :
    draft.isFunded P = true ∨ draft.Costly P := by
  cases h with
  | @halved n r due rest taken left inputs credit whole hafter hserves hfirst hbig hinputs hdraft
      hfee =>
      have hstorable := hafter.storable hstart hsum
      rw [dueSum_front hserves] at hstorable
      have hsingle := Draft.serving_single hfirst hdraft
      have hunspent := Draft.unspent_single (P := P) hsingle
      rw [← List.nil_append [_]] at hsingle
      refine Or.inl (Draft.isFunded_cut hsingle ?_ rfl rfl ?_)
      · unfold Draft.paymentSum
        rw [hsingle]
        show due.request.amount + 0 ≤ _
        omega
      · show whole.unspent P due.request.amount ≠ 0
        rw [hunspent]
        omega
  | postponed hafter hgo hserves hmore hinputs hback hfunded =>
      rcases hfunded with hnone | hfunded
      · -- no input has been taken out
        rw [hnone, List.append_nil] at hinputs
        exact Draft.funded_or_costly hinputs.symm (hafter.funded hstart hgo hmore)
      · exact Or.inl hfunded
  | last hafter hpayments => exact hafter.funded_or_costly hstart hsum hpayments

/-- Without its last input the transaction is not too big for its only payment: before this input
was taken it was not, and if it is one that a removed payment has left, it was not with that one. -/
theorem small_of_halved (hP : P.Monotone) (hstart : start.current = .empty)
    (hscripts : ∀ due ∈ start.pending, AddressScript due.script) {due : DueRequest}
    {rest : List DueRequest} {taken left inputs : List PoolCredit} {credit : PoolCredit}
    (hafter : After K P start n r) (hserves : Serves P r due rest taken left)
    (hfirst : r.current.payments = []) (hinputs : r.current.inputs ++ taken = inputs ++ [credit]) :
    ((r.current.serving due.request due.script taken).withInputs inputs).isTooBig P = false := by
  rcases List.eq_nil_or_concat taken with rfl | ⟨stage, last, htaken⟩
  · rw [List.append_nil] at hinputs
    have hne : r.current.inputs ≠ [] := by
      rw [hinputs]
      simp
    obtain ⟨m, q, -, hbefore, -, hremoved⟩ :=
      (hafter.inputs_or_removed hstart hfirst).resolve_left hne
    have hdue : AddressScript due.script :=
      hafter.addressScripts hscripts due (hserves.front ▸ List.mem_cons_self)
    cases hremoved with
    | @removed due' rest' taken' hserves' hsmall hunfunded hnothing =>
        have hdue' : AddressScript due'.script :=
          hbefore.addressScripts hscripts due' (hserves'.front ▸ List.mem_cons_self)
        have hnone : q.current.payments = [] := hfirst
        have hkept : q.current.inputs ++ taken' = inputs ++ [credit] := hinputs
        have hwithin := Draft.shape_single (d := q.current) inputs credit
          (p := ⟨due'.request, due'.request.amount, due'.script⟩)
          (q := ⟨due.request, due.request.amount, due.script⟩) (hbefore.unclosed hstart)
          hdue' hdue
        unfold Draft.serving at hsmall
        rw [hnone, hkept] at hsmall
        have hsame :
            (((q.serving due' rest' taken' []).dropping due' q.current.payments).current.serving
              due.request due.script []).withInputs inputs
            = { q.current with
                inputs
                payments := [⟨due.request, due.request.amount, due.script⟩] } := by
          unfold dropping
          rw [hnone]
          rfl
        rw [hsame]
        exact hP.small hwithin hsmall
  · rw [List.concat_eq_append] at htaken
    have hstages := hserves.stages htaken
    rw [htaken, ← List.append_assoc] at hinputs
    obtain ⟨hkept, -⟩ := List.append_inj' hinputs rfl
    rw [← hkept]
    exact hstages.1

/-- When the last payment has been taken out and with it some inputs, what is left is not too big:
it is part of what was there before the turn, or of what was there before the last credit was
taken. -/
theorem small_of_postponed (hP : P.Monotone) (hstart : start.current = .empty) {due : DueRequest}
    {rest : List DueRequest} {taken left kept back : List PoolCredit}
    (hafter : After K P start n r) (hserves : Serves P r due rest taken left)
    (hmore : r.current.payments ≠ []) (hinputs : r.current.inputs ++ taken = kept ++ back)
    (hback : back ≠ [] ∨ taken = []) : (r.current.withInputs kept).isTooBig P = false := by
  have hbefore : ∀ {inputs : List PoolCredit}, inputs <+: r.current.inputs →
      (r.current.withInputs inputs).isTooBig P = false :=
    fun hpart => hP.small (Draft.shape_withInputs hpart) (hafter.small hP hstart hmore)
  rcases List.append_eq_append_iff.mp hinputs with ⟨stage, hkept, htaken⟩ | ⟨more, hkept, -⟩
  · cases back with
    | nil =>
        have hnone : taken = [] := hback.resolve_left (fun hne => hne rfl)
        rw [hnone] at htaken
        have hstage : stage = [] := by simpa using htaken.symm
        rw [hkept, hstage, List.append_nil]
        exact hbefore (List.prefix_refl _)
    | cons credit more =>
        have hstages := hserves.stages htaken
        have hwithin := Draft.shape_withoutLast
          (d := r.current.serving due.request due.script stage) (hafter.unclosed hstart) rfl
        rw [hkept]
        exact hP.small hwithin hstages.1
  · exact hbefore ⟨more, hkept.symm⟩

/-- When the last payment has been taken out and no input with it, although some had been taken for
it, then one of these is too costly, or the other payments need no input at all. -/
theorem costly_of_postponed (hstart : start.current = .empty) {due : DueRequest}
    {taken kept removed : List PoolCredit} {p : Payment} (hafter : After K P start n r)
    (hgo : r.GoesOn P n) (hmore : r.current.payments ≠ [])
    (hinputs : r.current.inputs ++ taken = kept) (htaken : taken ≠ [])
    (hback : (r.current.serving due.request due.script taken).rollBack P
      = .ok (removed, p, r.current.withInputs kept)) :
    (r.current.withInputs kept).Costly P
      ∨ ((r.current.withInputs kept).withInputs []).isFunded P = true := by
  have hfunded : r.current.isFunded P = true := hafter.funded hstart hgo hmore
  obtain ⟨init, last, hsplit, hlast, hunfunded⟩ := Draft.rollBack_unfunded hback
  have hkept : kept = init ++ last := hsplit
  -- all inputs from before the turn are among the first ones
  obtain ⟨more, hinit⟩ : ∃ more, init = r.current.inputs ++ more := by
    rw [hkept] at hinputs
    rcases List.append_eq_append_iff.mp hinputs with ⟨more, hinit, -⟩ | ⟨more, hold, hnew⟩
    · exact ⟨more, hinit⟩
    · have hlength := congrArg List.length hnew
      have hpos := List.length_pos_iff.mpr htaken
      rw [List.length_append] at hlength
      have hmore : more = [] := List.length_eq_zero_iff.mp (by omega)
      exact ⟨[], by rw [hold, hmore]; simp⟩
  rcases hunfunded with hnone | hunfunded
  · right
    rw [hnone] at hinit
    obtain ⟨hold, -⟩ := List.append_eq_nil_iff.mp hinit.symm
    have hsame : (r.current.withInputs kept).withInputs [] = r.current := by
      rw [← hold]
      rfl
    rw [hsame]
    exact hfunded
  · left
    rw [hinit] at hunfunded hkept
    exact Draft.costly_of_unfunded r.current.inputs more ⟨last, hkept.symm⟩ hfunded hunfunded

/-- A draft is not too big when it is closed, unless it keeps an input that costs more than it
brings, or its payments need no input at all. -/
theorem Closes.small_or_costly (hP : P.Monotone) (hstart : start.current = .empty)
    (hscripts : ∀ due ∈ start.pending, AddressScript due.script) (h : Closes K P start draft) :
    draft.isTooBig P = false ∨ draft.Costly P ∨ (draft.withInputs []).isFunded P = true := by
  cases h with
  | @halved n r due rest taken left inputs credit whole hafter hserves hfirst hbig hinputs hdraft
      hfee =>
      left
      have hsmall := small_of_halved hP hstart hscripts hafter hserves hfirst hinputs
      rw [hdraft] at hsmall
      have hsingle := Draft.serving_single hfirst hdraft
      rw [← List.nil_append [_]] at hsingle
      rw [← hsmall]
      exact congrArg P.isTooBig (Draft.shape_setLast hsingle rfl)
  | @postponed n r due rest taken left kept back hafter hgo hserves hmore hinputs hback hfunded =>
      by_cases hkept : back ≠ [] ∨ taken = []
      · exact Or.inl (small_of_postponed hP hstart hafter hserves hmore hinputs hkept)
      · obtain ⟨hnone, htaken⟩ := not_or.mp hkept
        rw [Classical.not_not.mp hnone, List.append_nil] at hinputs
        exact Or.inr (costly_of_postponed hstart hafter hgo hmore hinputs htaken hback)
  | last hafter hpayments => exact Or.inl (hafter.small hP hstart hpayments)

end Closes

end Round

end NotaryPool
