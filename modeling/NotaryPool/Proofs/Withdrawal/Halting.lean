import NotaryPool.Proofs.Withdrawal.Loop

/-!
# How a round halts

A turn fails where a transaction is too big for its only payment, and where a transaction cannot be
closed. This module says, in counterparts to the relations of what goes well, what is wrong in each
case and which state is left behind. It also says how the loop ends when nothing but its own test
ends it.

## Contents

* `Round.fulfilmentFault?_eq_some`, `Round.notePayments_error`: noting payments fails at one of
  them.
* `Round.FinishFails`, `Round.finish_fails`: closing the transaction under construction.
* `Round.TurnFails`, `Round.turn_fails`: **the ways in which a turn fails.**
* `Round.Stops`, `Round.turns_stops`: the end of the loop.
* `Round.fulfil_fails`, `Round.reached`: a whole round, and the state that it is left in.
-/

namespace NotaryPool

namespace Round

variable {K : KeyScheme} {P : TxPolicy} {r r' : Round} {halt : Halt}

/-! ## Noting payments -/

/-- What a check finds is an outcome that counts as paid, but is not paid in full. -/
theorem fulfilmentFault?_eq_some {id : RequestId} {outcomes : List RequestOutcome}
    {e : PreconditionError} (h : fulfilmentFault? id outcomes = some e) :
    ∃ o ∈ outcomes, o.id = id ∧ o.status = .success ∧ o.fulfilled ≠ o.request.amount
      ∧ e = .inconsistentFulfilment id o.fulfilled o.request.amount := by
  unfold fulfilmentFault? at h
  split at h
  · rename_i o hfound
    split at h
    · rename_i hfault
      cases h
      refine ⟨o, List.mem_of_find?_eq_some hfound, ?_, hfault.1, hfault.2, rfl⟩
      simpa using List.find?_some hfound
    · cases h
  · cases h

/-- Noting payments fails at one of them, once it is noted itself. -/
theorem notePayments_error {ntxid : Hash256} {index : Nat} {ps : List Payment}
    (h : notePayments ntxid index ps r = .error halt) :
    ∃ done p rest e, ps = done ++ p :: rest
      ∧ fulfilmentFault? p.request.id (r.outcomes.map (noted ntxid index (done ++ [p]))) = some e
      ∧ halt = ⟨.precondition e,
          { r with outcomes := r.outcomes.map (noted ntxid index (done ++ [p])) }⟩ := by
  induction ps generalizing index r with
  | nil => cases h
  | cons p rest ih =>
      have hfirst : notePayment ntxid index p r.outcomes
          = r.outcomes.map (noted ntxid index ([] ++ [p])) := by
        rw [List.nil_append, ← map_noted_notePayment, map_noted_nil]
      unfold notePayments at h
      dsimp only at h
      split at h
      · rename_i e hfault
        cases h
        rw [hfirst] at hfault ⊢
        exact ⟨[], p, rest, e, rfl, hfault, rfl⟩
      · obtain ⟨done, q, more, e, hps, hfault, hhalt⟩ := ih h
        rw [map_noted_notePayment] at hfault hhalt
        exact ⟨p :: done, q, more, e, by rw [hps]; rfl, hfault, hhalt⟩

/-! ## Closing the transaction under construction -/

/-- What closing the transaction under construction stops with. The draft is lost. -/
inductive FinishFails (K : KeyScheme) (P : TxPolicy) (r : Round) : Halt → Prop
  | reclosed (hclosed : r.current.closed = true) :
      FinishFails K P r ⟨.precondition .changeAlreadyAdded, { r with current := .empty }⟩
  /-- The draft takes the last change address that there is. -/
  | unrotated {e : DeriveError} (hnext : r.nextChange.next K = .error e) :
      FinishFails K P r ⟨.derive e, { r with current := .empty }⟩
  /-- A payment is noted for a request that counts as paid, and is not what is missing. -/
  | inconsistent {draft : Draft} {next : ChangeAddress} {done rest : List Payment} {p : Payment}
      {e : PreconditionError} (hchange : r.current.addChange P r.nextChange.script = .ok draft)
      (hpayments : draft.payments = done ++ p :: rest)
      (hfault : fulfilmentFault? p.request.id
        (r.outcomes.map (noted draft.ntxid 0 (done ++ [p]))) = some e) :
      FinishFails K P r ⟨.precondition e, { r with
        current := .empty
        nextChange := next
        outcomes := r.outcomes.map (noted draft.ntxid 0 (done ++ [p])) }⟩

theorem advanceChange_error {draft : Draft} (h : advanceChange K draft r = .error halt) :
    ∃ e, r.nextChange.next K = .error e ∧ halt = ⟨.derive e, r⟩ := by
  unfold advanceChange at h
  split at h
  · split at h
    · cases h
    · rename_i e hnext
      cases h
      exact ⟨e, hnext, rfl⟩
  · cases h

theorem finish_fails (h : r.finish K P = .error halt) : FinishFails K P r halt := by
  unfold finish at h
  split at h
  · cases h
  · dsimp only at h
    split at h
    · rename_i e hchange
      cases h
      obtain ⟨hclosed, rfl⟩ := Draft.addChange_error hchange
      exact .reclosed hclosed
    · rename_i draft hchange
      split at h
      · rename_i halt' hfailed
        cases h
        obtain ⟨e, hnext, rfl⟩ := advanceChange_error hfailed
        exact .unrotated hnext
      · rename_i s hnext
        obtain ⟨next, rfl⟩ := advanceChange_ok hnext
        split at h
        · rename_i halt' hnoted
          cases h
          obtain ⟨done, p, rest, e, hpayments, hfault, rfl⟩ := notePayments_error hnoted
          exact .inconsistent hchange hpayments hfault
        · cases h

/-- A failure to close a draft touches no queue and no finalized transaction. -/
theorem FinishFails.round_eq (h : FinishFails K P r halt) :
    halt.round = { r with
      current := .empty
      nextChange := halt.round.nextChange
      outcomes := halt.round.outcomes } := by
  cases h <;> rfl

/-! ## A turn -/

/-- What a turn of a round stops with. -/
inductive TurnFails (K : KeyScheme) (P : TxPolicy) (r : Round) : Halt → Prop
  /-- The transaction is too big for a single payment, and has no input that could go back. -/
  | bare {due rest taken left} (hserves : Serves P r due rest taken left)
      (hbig : (r.current.serving due.request due.script taken).isTooBig P = true)
      (hfirst : r.current.payments = []) (hinputs : r.current.inputs ++ taken = []) :
      TurnFails K P r
        ⟨.precondition (.unsplittable due.request.id), r.serving due rest taken left⟩
  /-- The transaction is too big for a single payment, and without its last input the fee takes all
  that it has. -/
  | starved {due rest taken left inputs credit draft} (hserves : Serves P r due rest taken left)
      (hbig : (r.current.serving due.request due.script taken).isTooBig P = true)
      (hfirst : r.current.payments = [])
      (hinputs : r.current.inputs ++ taken = inputs ++ [credit])
      (hdraft : (r.current.serving due.request due.script taken).withInputs inputs = draft)
      (hfee : draft.inputTotal ≤ draft.requiredFee P) :
      TurnFails K P r ⟨.precondition (.unsplittable due.request.id),
        (r.serving due rest taken left).restocked draft (credit :: left)⟩
  /-- The only payment is split, and the transaction cannot be closed. -/
  | halved {due rest taken left inputs credit draft halt}
      (hserves : Serves P r due rest taken left)
      (hbig : (r.current.serving due.request due.script taken).isTooBig P = true)
      (hfirst : r.current.payments = [])
      (hinputs : r.current.inputs ++ taken = inputs ++ [credit])
      (hdraft : (r.current.serving due.request due.script taken).withInputs inputs = draft)
      (hfee : draft.requiredFee P < draft.inputTotal)
      (hfinish : FinishFails K P
        (((r.serving due rest taken left).restocked draft (credit :: left)).cutting due []
          (draft.unspent P due.request.amount)) halt) :
      TurnFails K P r halt
  /-- The last payment is taken out, and the transaction cannot be closed. -/
  | postponed {due rest taken left kept back halt} (hserves : Serves P r due rest taken left)
      (hbig : (r.current.serving due.request due.script taken).isTooBig P = true)
      (hmore : r.current.payments ≠ [])
      (hinputs : r.current.inputs ++ taken = kept ++ back)
      (hfunded : back = [] ∨ (r.current.withInputs kept).isFunded P = true)
      (hfinish : FinishFails K P
        ((r.setStatus due.request.id .success).restocked (r.current.withInputs kept)
          (back ++ left)) halt) :
      TurnFails K P r halt

/-- **A turn that fails does so in one of the ways of the relation.** -/
theorem turn_fails (h : r.turn K P = .error halt) : TurnFails K P r halt := by
  cases hpending : r.pending with
  | nil =>
      unfold turn at h
      rw [hpending] at h
      cases h
  | cons due rest =>
      obtain ⟨taken, left, hserves, -⟩ := exists_serves (P := P) hpending
      rw [turn_of_serves hserves] at h
      cases hbig : (r.current.serving due.request due.script taken).isTooBig P with
      | true =>
          rw [conclude_big (r := r.serving due rest taken left) hbig] at h
          have hrelief := relief (K := K) hserves
          generalize (r.serving due rest taken left).relieve K P = result at h hrelief
          cases hrelief with
          | bare hfirst hinputs =>
              cases h
              exact .bare hserves hbig hfirst hinputs
          | starved hfirst hinputs hdraft hfee =>
              cases h
              exact .starved hserves hbig hfirst hinputs hdraft hfee
          | halved hfirst hinputs hdraft hfee =>
              exact .halved hserves hbig hfirst hinputs hdraft hfee (finish_fails h)
          | postponed hmore hinputs hback hfunded =>
              exact .postponed hserves hbig hmore hinputs hfunded (finish_fails h)
      | false =>
          -- without a transaction that is too big a turn cannot fail
          cases hfunded : (r.current.serving due.request due.script taken).isFunded P with
          | true =>
              rw [conclude_funded (r := r.serving due rest taken left) hbig hfunded] at h
              cases h
          | false =>
              rw [conclude_unfunded (r := r.serving due rest taken left) hbig hfunded,
                splitLast_eq due r.current.payments rfl] at h
              cases h

/-- A turn that fails closes no transaction. -/
theorem TurnFails.finalized_eq (h : TurnFails K P r halt) : halt.round.finalized = r.finalized := by
  cases h with
  | bare hserves hbig hfirst hinputs => rfl
  | starved hserves hbig hfirst hinputs hdraft hfee => rfl
  | halved hserves hbig hfirst hinputs hdraft hfee hfinish =>
      rw [hfinish.round_eq]
      rfl
  | postponed hserves hbig hmore hinputs hfunded hfinish =>
      rw [hfinish.round_eq]
      rfl

/-! ## The loop -/

/-- How the main loop ends that begins with `start`, and after how many turns, the one that fails
included, when only its own test or a failure ends it. -/
inductive Stops (K : KeyScheme) (P : TxPolicy) (start : Round) : Nat → Except Halt Round → Prop
  | done {n : Nat} {r : Round} (hafter : After K P start n r) (hstop : ¬ r.GoesOn P n) :
      Stops K P start n (.ok r)
  | failed {n : Nat} {r : Round} {halt : Halt} (hafter : After K P start n r)
      (hgo : r.GoesOn P n) (hturn : r.turn K P = .error halt) :
      Stops K P start (n + 1) (.error halt)

/-- A bounded number of turns ends as the loop does, or the bound ends it. -/
theorem turns_stops {start : Round} (count : Nat) {n : Nat} (hafter : After K P start n r)
    (hgo : n = 0 ∨ r.isExhausted P = false) :
    (∃ m, Stops K P start m (turns K P count r))
      ∨ ∃ s, turns K P count r = .ok s ∧ After K P start (n + count) s
        ∧ s.GoesOn P (n + count) := by
  induction count generalizing n r with
  | zero =>
      by_cases hpending : r.pending = []
      · exact Or.inl ⟨n, .done hafter fun hgo => hgo.1 hpending⟩
      · exact Or.inr ⟨r, rfl, hafter, hpending, hgo⟩
  | succ count ih =>
      unfold turns
      split
      · rename_i hpending
        exact Or.inl ⟨n, .done hafter fun hgo => hgo.1 (List.isEmpty_iff.mp hpending)⟩
      · rename_i hpending
        have hmore : r.pending ≠ [] := fun hnil => hpending (by rw [hnil]; rfl)
        split
        · rename_i halt hturn
          exact Or.inl ⟨n + 1, .failed hafter ⟨hmore, hgo⟩ hturn⟩
        · rename_i s hturn
          have hnext : After K P start (n + 1) s := .succ hafter ⟨hmore, hgo⟩ hturn
          split
          · rename_i hstop
            exact Or.inl ⟨n + 1, .done hnext fun hgo => hgo.not_isExhausted hstop⟩
          · rename_i hstop
            rcases ih hnext (Or.inr (by simpa using hstop)) with hstops | hbound
            · exact Or.inl hstops
            · rw [Nat.add_right_comm] at hbound
              exact Or.inr hbound

/-! ## A whole round -/

/-- A round fails in one of its turns, or when its last transaction is closed. -/
theorem fulfil_fails (h : r.fulfil K P = .error halt) :
    ∃ n s, After K P r.prepared n s
      ∧ (s.GoesOn P n ∧ TurnFails K P s halt ∨ FinishFails K P s halt) := by
  rw [fulfil_eq] at h
  split at h
  · rename_i halt' hturns
    cases h
    rcases turns_stops r.prepared.turnLimit (.zero (K := K) (P := P)) (Or.inl rfl) with
      ⟨m, hstops⟩ | ⟨s, hok, -⟩
    · rw [hturns] at hstops
      cases hstops with
      | failed hafter hgo hturn => exact ⟨_, _, hafter, Or.inl ⟨hgo, turn_fails hturn⟩⟩
    · rw [hturns] at hok
      cases hok
  · rename_i s hturns
    obtain ⟨n, hafter⟩ := turns_after .zero (Or.inl rfl) hturns
    split at h
    · rename_i halt' hfinish
      cases h
      exact ⟨n, s, hafter, Or.inr (finish_fails hfinish)⟩
    · cases h

/-- The state that a round is left in, whether it ended well or stopped. -/
def reached : Except Halt Round → Round
  | .ok r => r
  | .error halt => halt.round

end Round

end NotaryPool
