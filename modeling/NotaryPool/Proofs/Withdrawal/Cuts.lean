import NotaryPool.Proofs.Withdrawal.Checked
import NotaryPool.Proofs.Withdrawal.Outcomes
import NotaryPool.Proofs.Withdrawal.Termination

/-!
# Rounds that do not panic cut no request too far

What a cut leaves of a request is a difference. That of natural numbers is zero where the cut pays
more than the request asks for; that of words panics. So the turns of a round that ends have no such
cut, and what is proved of rounds whose cuts stay within their requests holds of each round that
ends.

The turns of the exact round are followed up to the cut in question: there is no panic before it, so
it is computed, and its difference is computed with it.

## Contents

* `Round.Checked.splitLast_within`: the difference that a split computes.
* `Round.Checked.conclude`, `Round.Checked.turn_of_serves`: how a turn that ends comes to its split.
* `Round.Checked.turn_within`: **a turn that ends cuts within the request.**
* `Round.Checked.turns_from`: the turns of a round that ends, from any state between them.
* `Round.Checked.cutsWithin`: **all cuts of a round that ends are within their requests.**
* `Round.Checked.run_reported`: **what a round that ends well reports is true.**
-/

namespace NotaryPool.Round.Checked

open Stop (Follows Ends)

variable {K : KeyScheme} {P : TxPolicy} {r r' start : Round} {due : DueRequest} {n count : Nat}

/-! ## A split -/

/-- A split that ends pays no more than the request asks for. -/
theorem splitLast_within (ps : List Payment)
    (hpayments : r.current.payments = ps ++ [⟨due.request, due.request.amount, due.script⟩])
    (hends : Ends (splitLast P r)) :
    r.current.unspent P due.request.amount ≤ due.request.amount := by
  unfold splitLast at hends
  rw [((Draft.Checked.requiredFee_follows P r.current).bind_eq hends).2,
    Draft.popPayment?_snoc hpayments] at hends
  dsimp only at hends
  rw [((Follows.sub _ _).bind_eq hends).2] at hends
  rw [((Follows.add 64 _ _).bind_eq hends).2] at hends
  show r.current.inputTotal - (r.current.outputTotal - due.request.amount + r.current.requiredFee P)
    ≤ due.request.amount
  split at hends
  · rename_i hnothing
    exact hnothing ▸ Nat.zero_le _
  · exact hends.of_bind.le_of_sub

/-! ## A turn -/

/-- The end of a turn, when the draft is too big, or funded, or the credits have run out. -/
def conclude (K : KeyScheme) (P : TxPolicy) (r : Round) : Except (Stop Halt) Round :=
  if r.current.isTooBig P then relieve K P r
  else do if ← Draft.Checked.isFunded P r.current then return r else splitLast P r

theorem fundFrom_eq {credits : List PoolCredit} (hopen : r.current.IsOpen)
    (hsmall : r.current.isTooBig P = false) (hends : Ends (fundFrom K P credits r)) :
    fundFrom K P credits r = conclude K P
      { r with
        current := (r.current.fill P credits).1
        eligible := (r.current.fill P credits).2 } := by
  induction credits generalizing r with
  | nil =>
      unfold fundFrom conclude Draft.fill
      simp only [hsmall]
      rfl
  | cons credit rest ih =>
      unfold fundFrom at hends ⊢
      obtain ⟨hasked, hfirst⟩ := (Draft.Checked.isFunded_follows P r.current).bind_eq hends
      rw [hfirst] at hends ⊢
      unfold Draft.fill
      cases hfunded : r.current.isFunded P with
      | true =>
          -- nothing is taken
          rw [hfunded] at hasked
          simp only [conclude, hsmall, hasked, Bool.or_true, if_true, Bool.false_eq_true, if_false]
          rfl
      | false =>
          simp only [hfunded, Bool.false_eq_true, if_false] at hends ⊢
          have hadded := ((Draft.Checked.addInput_follows r.current hopen credit).bind_eq hends).2
          rw [hadded] at hends ⊢
          simp only [hsmall, Bool.or_self, Bool.false_eq_true, if_false]
          by_cases hbig : (r.current.addInput credit).isTooBig P = true
          · rw [if_pos hbig, Draft.fill_of_isTooBig hbig]
            unfold conclude
            rw [if_pos hbig]
          · rw [if_neg hbig] at hends ⊢
            exact ih ⟨hopen.closed, hopen.change⟩ (by simpa using hbig) hends

theorem turn_cons {rest : List DueRequest} (hopen : r.current.IsOpen)
    (h : r.pending = due :: rest) (hends : Ends (turn K P r)) :
    turn K P r =
      if (r.current.addPayment due.request due.script).isTooBig P then
        relieve K P { r.serving due rest [] r.eligible with
          current := r.current.addPayment due.request due.script }
      else
        fundFrom K P r.eligible { r.serving due rest [] r.eligible with
          current := r.current.addPayment due.request due.script } := by
  unfold turn at hends ⊢
  rw [h] at hends ⊢
  have hmarked : ({ r with pending := rest }.setStatus due.request.id .success).current.IsOpen :=
    hopen
  exact ((Draft.Checked.addPayment_follows _ hmarked due.request due.script).bind_eq hends).2

theorem turn_of_serves {rest : List DueRequest} {taken left : List PoolCredit}
    (hopen : r.current.IsOpen) (h : Serves P r due rest taken left) (hends : Ends (turn K P r)) :
    turn K P r = conclude K P (r.serving due rest taken left) := by
  have hfill := h.fill
  have hturn := turn_cons hopen h.front hends
  rw [hturn] at hends ⊢
  by_cases hbig : (r.current.addPayment due.request due.script).isTooBig P = true
  · rw [Draft.fill_of_isTooBig hbig, Prod.mk.injEq] at hfill
    obtain ⟨hdraft, hleft⟩ := hfill
    have hsame : r.serving due rest taken left = { r.serving due rest [] r.eligible with
        current := r.current.addPayment due.request due.script } := by
      unfold serving
      rw [hdraft, hleft]
      rfl
    unfold conclude
    rw [if_pos hbig, hsame, if_pos hbig]
  · rw [if_neg hbig] at hends ⊢
    have hpaid : (r.current.addPayment due.request due.script).IsOpen :=
      ⟨hopen.closed, hopen.change⟩
    rw [fundFrom_eq (by exact hpaid) (by simpa using hbig) hends]
    simp only [hfill]
    rfl

/-- The split of the only payment of a transaction that has become too big. -/
theorem relieve_within {inputs : List PoolCredit} {credit : PoolCredit} {draft : Draft}
    (hpayments : r.current.payments = [⟨due.request, due.request.amount, due.script⟩])
    (hinputs : r.current.inputs = inputs ++ [credit])
    (hdraft : r.current.withInputs inputs = draft) (hfee : draft.requiredFee P < draft.inputTotal)
    (hends : Ends (relieve K P r)) : draft.unspent P due.request.amount ≤ due.request.amount := by
  subst hdraft
  unfold relieve at hends
  rw [hpayments] at hends
  dsimp only at hends
  rw [Draft.popInput?_snoc hinputs] at hends
  dsimp only at hends
  rw [((Draft.Checked.requiredFee_follows P _).bind_eq hends).2,
    if_neg (Nat.not_le_of_lt hfee)] at hends
  have hsplit : Ends (splitLast P
      (r.restocked (r.current.withInputs inputs) (credit :: r.eligible))) := hends.of_bind
  exact splitLast_within (r := r.restocked (r.current.withInputs inputs) (credit :: r.eligible)) []
    hpayments hsplit

/-- **A turn that ends cuts within the request.** -/
theorem turn_within {asked amount : Nat} (hopen : r.current.IsOpen)
    (hturn : Turn K P r (.cut asked amount) r') (hends : Ends (turn K P r)) : amount ≤ asked := by
  cases hturn with
  | @cut due rest taken _ hserves hsmall hunfunded hamount _ =>
      rw [turn_of_serves hopen hserves hends] at hends
      unfold conclude at hends
      rw [current_serving, if_neg (by rw [hsmall]; exact Bool.false_ne_true),
        ((Draft.Checked.isFunded_follows P _).bind_eq hends).2,
        if_neg (by rw [hunfunded]; exact Bool.false_ne_true)] at hends
      rw [← hamount]
      exact splitLast_within (r := r.serving due rest taken []) r.current.payments rfl hends
  | @halved due rest taken left _ _ _ _ _ hserves hbig hfirst hinputs hdraft hfee hamount _ =>
      rw [turn_of_serves hopen hserves hends] at hends
      unfold conclude at hends
      rw [current_serving, if_pos hbig] at hends
      have hpayments : (r.serving due rest taken left).current.payments
          = [⟨due.request, due.request.amount, due.script⟩] := by
        show r.current.payments ++ _ = _
        rw [hfirst, List.nil_append]
      rw [← hamount]
      exact relieve_within hpayments hinputs hdraft hfee hends

/-! ## All turns -/

theorem turns_succ (hopen : r.current.IsOpen) (hpending : r.pending ≠ [])
    (hturn : r.turn K P = .ok r') (hends : Ends (turns K P (count + 1) r)) :
    turn K P r = .ok r'
      ∧ turns K P (count + 1) r = if r'.isExhausted P then .ok r' else turns K P count r' := by
  have hunfold : turns K P (count + 1) r = (turn K P r >>= fun s => do
      if ← isExhausted P s then return s else turns K P count s) := by
    rw [turns, if_neg (by rwa [List.isEmpty_iff])]
  rw [hunfold] at hends ⊢
  have hfollows := turn_follows (K := K) (P := P) hopen
  rw [hturn] at hfollows
  obtain ⟨hfirst, hrest⟩ := hfollows.bind_eq hends
  rw [hrest] at hends ⊢
  exact ⟨hfirst, ((isExhausted_follows r').bind_eq hends).2⟩

/-- The turns of a round that ends go on from each state in which there is another turn. -/
theorem turns_from (hstart : start.current.IsOpen) (hends : Ends (turns K P count start))
    (hafter : After K P start n r) (hgo : r.GoesOn P n) (hcount : n < count) :
    turns K P (count - n) r = turns K P count start := by
  induction hafter with
  | zero => rfl
  | @succ n q r hafter hbefore hturn ih =>
      have hsame := ih hbefore (by omega)
      obtain ⟨k, hk⟩ : ∃ k, count - n = k + 1 := ⟨count - n - 1, by omega⟩
      rw [hk] at hsame
      rw [← hsame] at hends ⊢
      rw [(turns_succ (hafter.isOpen hstart) hbefore.1 hturn hends).2, if_neg hgo.not_isExhausted]
      congr 1
      omega

/-- **A round that ends cuts no request too far.** -/
theorem cutsWithin (hstart : start.current.IsOpen) (hends : Ends (fulfil K P start)) :
    CutsWithin K P start.prepared := by
  have hopen : start.prepared.current.IsOpen := by rwa [current_prepared]
  have hprepared : fulfil K P start = _ := ((dropUnaffordable_follows start).bind_eq hends).2
  rw [hprepared] at hends
  have hturns : Ends (turns K P start.prepared.turnLimit start.prepared) := hends.of_bind
  intro n r r' asked amount hafter hgo hturn
  have hlimit : n < start.prepared.turnLimit := by
    rw [turnLimit_eq]
    exact Nat.lt_succ_of_le hafter.le.1
  obtain ⟨k, hk⟩ : ∃ k, start.prepared.turnLimit - n = k + 1 :=
    ⟨start.prepared.turnLimit - n - 1, by omega⟩
  have hfrom := turns_from hopen hturns hafter hgo hlimit
  rw [hk] at hfrom
  rw [← hfrom] at hturns
  have hdraft := hafter.isOpen hopen
  exact turn_within hdraft hturn (.of_ok (turns_succ hdraft hgo.1 (turn_of_rel hturn) hturns).1)

/-! ## A whole round -/

/-- **What a round that ends well reports is true**: its outcomes are those of its requests, the
outpoints in them are the outputs of its transactions that are not change, and each status keeps its
promise. -/
theorem run_reported {book : SeriesBook} {roundId : UInt32} {requests : List OutputRequest}
    {credits : List PoolCredit} {changeStart : ChangeAddress} {status : RoundStatus}
    (hrun : run K P book roundId requests credits changeStart = .ok status) :
    ∃ start final, new book.network requests credits changeStart = .ok start
      ∧ start.fulfil K P = .ok final ∧ final.toStatus K book roundId = .ok status
      ∧ Reported book.network requests final := by
  obtain ⟨start, final, hnew, hfulfil, hstatus⟩ := run_ok (run_eq_of_ok hrun)
  refine ⟨start, final, hnew, hfulfil, hstatus, ?_⟩
  obtain ⟨hids, hledger⟩ := ledger_new hnew
  rw [run_of_new hnew] at hrun
  have hends : Ends ((fulfil K P start).mapError (.map Halt.error)) := (Ends.of_ok hrun).of_bind
  exact fulfil_reported hids (cutsWithin (isOpen_new hnew) hends.of_mapError) hledger hfulfil

end NotaryPool.Round.Checked
