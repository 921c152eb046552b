import NotaryPool.Proofs.Withdrawal.Halting

/-!
# A round that has ended well is final

A round can be asked to go on after it has ended well, too. It then has nothing left to pay, but it
need not be empty: credits may be left in the queue, and also as inputs in the draft, where the last
payment was removed since they left nothing for it. None of this is used again. This module says
what a complete round looks like, and that the complete rounds are just those that a call leaves as
they are.

## Contents

* `Round.Complete`, `Round.complete_of_fulfil`: the state after a call that has ended well.
* `Round.fulfil_eq_self_iff`: a call changes nothing just when the round is complete.
* `Round.resumed`: calls one after the other.
* `Round.completed_final`: **after a call has ended well no further call fails or changes
  anything.**
-/

namespace NotaryPool

namespace Round

variable {K : KeyScheme} {P : TxPolicy}

section Calls

variable {r r' start final : Round} {m n : Nat} {halt : Halt}

/-! ## Complete rounds -/

/-- Nothing is left to be paid, the outcomes tell apart what is paid by one output and what by
several, and the fees are those of all transactions. The draft has no payments, but it may have
inputs, and there may be credits in the queue. -/
structure Complete (r : Round) : Prop where
  pending : r.pending = []
  payments : r.current.payments = []
  outcomes : ∀ o ∈ r.outcomes, o.status = .success → o.outpoints.length ≤ 1
  fees : r.fees = Amount.total (r.finalized.map (·.fee))

theorem settled_of_single {o : RequestOutcome} (h : o.status = .success → o.outpoints.length ≤ 1) :
    settled o = o := by
  unfold settled
  refine if_neg ?_
  rintro ⟨hsuccess, hmore⟩
  exact absurd hmore (Nat.not_lt.mpr (h hsuccess))

theorem single_of_settled {o : RequestOutcome} (h : (settled o).status = .success) :
    (settled o).outpoints.length ≤ 1 := by
  unfold settled at h ⊢
  split at h
  · cases h
  · rename_i hsingle
    rw [if_neg hsingle]
    exact Nat.not_lt.mp fun hmore => hsingle ⟨h, hmore⟩

/-- Settling leaves a complete round as it is. -/
theorem Complete.settle_eq_self (h : r.Complete) : r.settle = r := by
  have houtcomes : (r.outcomes.map (unpaidIn r.pending)).map settled = r.outcomes := by
    rw [h.pending, unpaidIn_nil, List.map_id]
    exact (List.map_congr_left fun o ho => settled_of_single (h.outcomes o ho)).trans
      (List.map_id r.outcomes)
  rw [settle_eq, houtcomes, ← h.fees]
  calc { r with pending := [], outcomes := r.outcomes, fees := r.fees }
      = { r with pending := [] } := rfl
    _ = { r with pending := r.pending } := congrArg (fun dues => { r with pending := dues })
        h.pending.symm
    _ = r := rfl

/-- A round without payments in its draft has nothing to close. -/
theorem finish_of_nil (hpayments : r.current.payments = []) : r.finish K P = .ok r := by
  unfold finish
  rw [hpayments]
  rfl

theorem prepared_of_nil (hpending : r.pending = []) : r.prepared = r := by
  have hdrop : r.dropUnaffordable = r := by
    unfold dropUnaffordable requested
    rw [hpending]
    exact if_pos (Nat.zero_le _)
  unfold prepared
  rw [hdrop, hpending, (sortBy_perm _ []).eq_nil, ← hpending]

/-- With nothing to pay a round only closes its draft and settles. -/
theorem fulfil_of_nil (hpending : r.pending = []) :
    r.fulfil K P =
      match r.finish K P with
      | .error h => .error h
      | .ok t => .ok t.settle := by
  rw [fulfil_eq, prepared_of_nil hpending, turnLimit]
  unfold turns
  rw [hpending]
  rfl

/-- **A call that ends well completes the round.** -/
theorem complete_of_fulfil (h : r.fulfil K P = .ok r') : r'.Complete := by
  obtain ⟨n, s, t, -, hfinish, rfl⟩ := fulfil_ok h
  rw [settle_eq]
  refine ⟨rfl, (finish_cases hfinish).payments_eq_nil, ?_, rfl⟩
  intro o ho hsuccess
  obtain ⟨o', -, rfl⟩ := List.mem_map.mp ho
  exact single_of_settled hsuccess

/-- **A complete round stays as it is** when it is asked to go on. -/
theorem Complete.fulfil_eq_self (h : r.Complete) : r.fulfil K P = .ok r := by
  rw [fulfil_of_nil h.pending, finish_of_nil h.payments]
  exact congrArg Except.ok h.settle_eq_self

/-- **The complete rounds are those that a call leaves as they are.** -/
theorem fulfil_eq_self_iff : r.fulfil K P = .ok r ↔ r.Complete :=
  ⟨complete_of_fulfil, Complete.fulfil_eq_self⟩

/-- A round that has ended well stays as it is. -/
theorem fulfil_settled (h : r.fulfil K P = .ok r') : r'.fulfil K P = .ok r' :=
  (complete_of_fulfil h).fulfil_eq_self

/-! ## Calls one after the other -/

/-- The state of a round after `n` calls, each of which goes on where the one before has ended or
stopped. -/
def resumed (K : KeyScheme) (P : TxPolicy) (r : Round) : Nat → Round
  | 0 => r
  | n + 1 => reached ((resumed K P r n).fulfil K P)

theorem resumed_of_ok {final : Round} (h : (resumed K P r n).fulfil K P = .ok final) :
    resumed K P r (n + 1) = final := by
  rw [resumed, h]
  rfl

theorem resumed_of_error (h : (resumed K P r n).fulfil K P = .error halt) :
    resumed K P r (n + 1) = halt.round := by
  rw [resumed, h]
  rfl

/-- **A round that has ended well is final.** Let one of several calls on a round end well, the
first one or a later one. Then the round is complete, and each further call ends well and leaves all
of it as it was: the transactions, the outcomes, the fees, the next change address, the credits in
the queue and the draft. -/
theorem completed_final (hended : (resumed K P start m).fulfil K P = .ok final) :
    final.Complete
      ∧ ∀ n, m < n →
          resumed K P start n = final ∧ (resumed K P start n).fulfil K P = .ok final := by
  have hcomplete := complete_of_fulfil hended
  have hstays : ∀ k, resumed K P start (m + k + 1) = final := by
    intro k
    induction k with
    | zero => exact resumed_of_ok hended
    | succ k ih =>
        refine resumed_of_ok ?_
        show (resumed K P start (m + k + 1)).fulfil K P = .ok final
        rw [ih]
        exact hcomplete.fulfil_eq_self
  refine ⟨hcomplete, ?_⟩
  intro n hlater
  obtain ⟨k, rfl⟩ := Nat.exists_eq_add_of_lt hlater
  rw [hstays k]
  exact ⟨rfl, hcomplete.fulfil_eq_self⟩

end Calls

/-! ### A round with inputs left in its draft -/

namespace Unspent

/-- A request of less than the fee. -/
def due : DueRequest := ⟨{ Sample.paying with amount := 400 }, Sample.script⟩

def credit : PoolCredit := ⟨⟨Vector.replicate 32 1, 0⟩, 500, some 1, Sample.address 1⟩

def start : Round := opening [due] [credit] Sample.change

/-- The payment was removed, and the credit that was taken for it is still in the draft. -/
def left : Round :=
  { start with
    pending := []
    eligible := []
    current := { Draft.empty with inputs := [credit] } }

theorem new_eq : new .regtest ([due].map (·.request)) [credit] Sample.change = .ok start :=
  new_opening (by decide) (List.forall_mem_singleton.mpr (Sample.script_paying rfl)) (by decide)

theorem fulfil_eq : start.fulfil .secp256k1 Sample.policy = .ok left := by
  have hprepared : start.prepared = start := prepared_opening (by decide) (by decide)
  rw [Round.fulfil_eq, hprepared]
  rfl

end Unspent

/-- The round has taken a credit that it does not spend, and five further calls do not spend it
either. -/
theorem unspent_final :
    new .regtest ([Unspent.due].map (·.request)) [Unspent.credit] Sample.change
        = .ok Unspent.start
      ∧ Unspent.left.current.inputs = [Unspent.credit]
      ∧ (resumed .secp256k1 Sample.policy Unspent.start 5).fulfil .secp256k1 Sample.policy
        = .ok Unspent.left := by
  obtain ⟨-, hfurther⟩ := completed_final (m := 0) Unspent.fulfil_eq
  exact ⟨Unspent.new_eq, rfl, (hfurther 5 (by decide)).2⟩

end Round

end NotaryPool
