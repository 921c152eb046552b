import NotaryPool.Proofs.Withdrawal.Halting
import NotaryPool.Proofs.Withdrawal.Shape

/-!
# A round comes to an end

Neither queue of a round only shrinks: a turn may put its request back, or credits, or both. Two
weights of a state show that the turns come to an end all the same.

The work that remains counts a pending request twice, and a payment, an input and a credit once
each. A turn that pays a request moves it from the queue to the draft, and one that closes a
transaction takes payments or inputs out of the round, so each lowers this weight. Only a cut for
lack of credits does not. It leaves the inputs no more than the payments and the fee need, so no
turn follows it.

The material of a round counts a pending request once, and the finalized transactions too. Each
transaction uses up at least what it counts for, so the material bounds their number.

## Contents

* `Round.remaining`, `Round.material`: the two weights.
* `Round.Turn.progress`: **a turn lowers them, or is the last one.**
* `Round.After.progress`, `Round.Stops.le`: all turns of a round.
* `Round.payAll_stops`: the bound on the turns is never what ends them.
* `Round.prepared_bounds`: the weights of a round before its first turn.
* `Round.fulfil_terminates`: **how many turns a round takes, and how many transactions it makes.**
-/

namespace NotaryPool

variable {K : KeyScheme} {P : TxPolicy}

namespace Draft

variable {d : Draft}

/-- When the last payment is cut down to what the inputs leave, they leave nothing more. -/
theorem inputTotal_le_cut {ps : List Payment} {p q : Payment} (hpayments : d.payments = ps ++ [p])
    (hscript : q.script = p.script) (hamount : q.amount = d.unspent P p.amount) :
    d.inputTotal ≤ outputTotal { d with payments := ps ++ [q] }
      + requiredFee P { d with payments := ps ++ [q] } := by
  have hfee : requiredFee P { d with payments := ps ++ [q] } = d.requiredFee P := by
    unfold requiredFee
    rw [shape_setLast hpayments hscript]
  have hinputs : d.inputTotal ≤ Amount.largest := Amount.total_le_largest _
  rw [hfee]
  unfold unspent outputTotal Amount.total at *
  rw [hpayments] at hamount
  simp only [List.map_append, List.map_cons, List.map_nil, List.sum_append, List.sum_cons,
    List.sum_nil] at hamount ⊢
  -- a total that cannot be stored counts for less than the sum, but never for less than the inputs
  omega

theorem inputs_ne_nil (h : 0 < d.inputTotal) : d.inputs ≠ [] := by
  intro hnil
  unfold inputTotal PoolCredit.total at h
  rw [hnil] at h
  exact Nat.lt_irrefl 0 h

end Draft

namespace Round

variable {r r' start : Round} {n : Nat}

/-! ## Two weights of a state -/

/-- The work that remains: a request may be put back once for each time that it is taken. -/
def remaining (r : Round) : Nat :=
  2 * r.pending.length + r.current.payments.length + r.eligible.length + r.current.inputs.length

/-- What a round has made transactions of, or still can. -/
def material (r : Round) : Nat :=
  r.finalized.length + r.pending.length + r.current.payments.length + r.eligible.length
    + r.current.inputs.length

theorem turnLimit_eq (r : Round) : r.turnLimit = r.remaining + 1 := rfl

theorem Serves.lengths {due : DueRequest} {rest : List DueRequest} {taken left : List PoolCredit}
    (h : Serves P r due rest taken left) :
    r.pending.length = rest.length + 1 ∧ r.eligible.length = taken.length + left.length := by
  rw [h.front, h.queue]
  exact ⟨rfl, List.length_append⟩

/-- After a cut for lack of credits there is nothing left to pay with. -/
theorem isExhausted_cutting {due : DueRequest} {rest : List DueRequest} {taken : List PoolCredit}
    {amount : Nat}
    (hamount : (r.current.serving due.request due.script taken).unspent P due.request.amount
      = amount) :
    ((r.serving due rest taken []).cutting due r.current.payments amount).isExhausted P = true := by
  have hspent := Draft.inputTotal_le_cut (q := ⟨due.request, amount, due.script⟩)
    (d := r.current.serving due.request due.script taken) rfl rfl hamount.symm
  unfold isExhausted
  exact decide_eq_true hspent

/-- **A turn leaves less work, and no more material, or it is the last one.** -/
theorem Turn.progress {kind : TurnKind} (h : Turn K P r kind r') :
    r'.remaining < r.remaining ∧ r'.material ≤ r.material
      ∨ r'.isExhausted P = true ∧ r'.material ≤ r.material + 1 ∧ r'.current.payments ≠ []
        ∧ r'.current.inputs ≠ [] := by
  cases h with
  | @paid due rest taken left hserves hsmall hfunded =>
      obtain ⟨hpending, heligible⟩ := hserves.lengths
      left
      unfold remaining material
      simp only [serving, setStatus, Draft.serving, List.length_append, List.length_cons,
        List.length_nil]
      omega
  | @cut due rest taken amount hserves hsmall hunfunded hamount hpositive =>
      obtain ⟨hpending, heligible⟩ := hserves.lengths
      right
      refine ⟨isExhausted_cutting hamount, ?_, by simp [cutting], ?_⟩
      · unfold material
        simp only [cutting, serving, setStatus, Draft.serving, List.length_append,
          List.length_cons, List.length_nil] at heligible ⊢
        omega
      · apply Draft.inputs_ne_nil
        show 0 < (r.current.serving due.request due.script taken).inputTotal
        unfold Draft.unspent at hamount
        omega
  | @removed due rest taken hserves hsmall hunfunded hnothing =>
      obtain ⟨hpending, heligible⟩ := hserves.lengths
      left
      unfold remaining material
      simp only [dropping, serving, setStatus, Draft.serving, List.length_append,
        List.length_nil] at heligible ⊢
      omega
  | @halved due rest taken left inputs credit draft amount _ hserves hbig hfirst hinputs hdraft
      hfee hamount hfinish =>
      obtain ⟨hpending, heligible⟩ := hserves.lengths
      have hfinish := finish_cases hfinish
      -- the inputs that stay are worth more than the fee, so there are some
      have hsome : 0 < inputs.length := by
        have hne := Draft.inputs_ne_nil (Nat.lt_of_le_of_lt (Nat.zero_le _) hfee)
        rw [← hdraft] at hne
        exact List.length_pos_iff.mpr hne
      have hcount := congrArg List.length hinputs
      left
      unfold remaining material
      rw [hfinish.pending_eq, hfinish.eligible_eq, hfinish.length_finalized (by simp [cutting]),
        hfinish.current_eq (by simp [cutting])]
      simp only [cutting, serving, restocked, setStatus, Draft.empty, List.length_append,
        List.length_cons, List.length_nil] at hcount ⊢
      omega
  | @postponed due rest taken left kept back _ hserves hbig hmore hinputs hback hfunded hfinish =>
      obtain ⟨hpending, heligible⟩ := hserves.lengths
      have hfinish := finish_cases hfinish
      have hsome := List.length_pos_iff.mpr hmore
      have hcount := congrArg List.length hinputs
      left
      unfold remaining material
      rw [hfinish.pending_eq, hfinish.eligible_eq, hfinish.length_finalized hmore,
        hfinish.current_eq hmore]
      simp only [restocked, setStatus, Draft.empty, List.length_append, List.length_nil]
        at hcount ⊢
      omega

/-! ## All turns -/

/-- While turns are made, each of them has used up some of the work. -/
theorem After.progress (h : After K P start n r) (hgo : r.GoesOn P n) :
    r.remaining + n ≤ start.remaining ∧ r.material ≤ start.material := by
  induction h with
  | zero => exact ⟨Nat.le_refl _, Nat.le_refl _⟩
  | @succ n q r hafter hbefore hok ih =>
      obtain ⟨hwork, hmaterial⟩ := ih hbefore
      obtain ⟨kind, hturn⟩ := hbefore.turn hok
      rcases hturn.progress with ⟨hless, hle⟩ | ⟨hlast, -⟩
      · omega
      · exact absurd hlast hgo.not_isExhausted

/-- The number of turns that have been made, and of transactions, the last one included. -/
theorem After.le (h : After K P start n r) :
    n ≤ start.remaining ∧ r.finalized.length ≤ start.material
      ∧ ∀ t, Finish K P r t → t.finalized.length ≤ start.material := by
  have hclosed {bound : Nat} (hle : r.finalized.length ≤ bound)
      (hless : r.current.payments ≠ [] → r.finalized.length < bound) :
      ∀ t, Finish K P r t → t.finalized.length ≤ bound := by
    intro t hfinish
    by_cases hpayments : r.current.payments = []
    · cases hfinish with
      | idle hnone => exact hle
      | closed hsome hchange hnext hnoted => exact absurd hpayments hsome
    · rw [hfinish.length_finalized hpayments]
      exact hless hpayments
  have hpart : r.finalized.length + r.current.payments.length + r.current.inputs.length
      ≤ r.material := by
    unfold material
    omega
  cases h with
  | zero =>
      refine ⟨Nat.zero_le _, by omega, hclosed (by omega) ?_⟩
      intro hpayments
      have hsome := List.length_pos_iff.mpr hpayments
      omega
  | @succ n q _ hafter hbefore hok =>
      obtain ⟨hwork, hmaterial⟩ := hafter.progress hbefore
      have hdue : 2 ≤ q.remaining := by
        have hsome := List.length_pos_iff.mpr hbefore.1
        unfold remaining
        omega
      obtain ⟨kind, hturn⟩ := hbefore.turn hok
      rcases hturn.progress with ⟨-, hle⟩ | ⟨-, hle, hpayments, hinputs⟩
      · refine ⟨by omega, by omega, hclosed (by omega) ?_⟩
        intro hpayments
        have hsome := List.length_pos_iff.mpr hpayments
        omega
      · -- what the last turn has added is in the draft, which also has inputs
        have hsome := List.length_pos_iff.mpr hpayments
        have hmore := List.length_pos_iff.mpr hinputs
        exact ⟨by omega, by omega, hclosed (by omega) fun _ => by omega⟩

theorem Stops.le {result : Except Halt Round} (h : Stops K P start n result) :
    n ≤ start.remaining := by
  cases h with
  | done hafter hstop => exact hafter.le.1
  | @failed n r halt hafter hgo hturn =>
      have hwork := (hafter.progress hgo).1
      have hsome := List.length_pos_iff.mpr hgo.1
      unfold remaining at hwork ⊢
      omega

/-- The bound on the turns is never what ends them. -/
theorem payAll_stops (K : KeyScheme) (P : TxPolicy) (start : Round) :
    ∃ n ≤ start.remaining, Stops K P start n (start.payAll K P) := by
  rcases turns_stops start.turnLimit (.zero (K := K) (P := P)) (Or.inl rfl) with
    ⟨n, hstops⟩ | ⟨s, -, hafter, hgo⟩
  · exact ⟨n, hstops.le, hstops⟩
  · have hwork := (hafter.progress hgo).1
    rw [turnLimit_eq] at hwork
    omega

/-- However a round ends, it has made no more transactions than it has material for. -/
theorem length_reached_le (r : Round) :
    (reached (r.fulfil K P)).finalized.length ≤ r.prepared.material := by
  cases hresult : r.fulfil K P with
  | ok final =>
      obtain ⟨n, s, t, hafter, hfinish, rfl⟩ := fulfil_ok hresult
      show t.settle.finalized.length ≤ _
      rw [settle_eq]
      exact hafter.le.2.2 t (finish_cases hfinish)
  | error halt =>
      obtain ⟨n, s, hafter, hfails⟩ := fulfil_fails hresult
      have hsame : halt.round.finalized = s.finalized := by
        rcases hfails with ⟨-, hturn⟩ | hfinish
        · exact hturn.finalized_eq
        · rw [hfinish.round_eq]
      show halt.round.finalized.length ≤ _
      rw [hsame]
      exact hafter.le.2.1

/-! ## A round from its beginning -/

/-- Before its first turn a round has no more to do than its requests and credits make. -/
theorem prepared_bounds {network : AddressNetwork} {requests : List OutputRequest}
    {credits : List PoolCredit} {changeStart : ChangeAddress}
    (hnew : new network requests credits changeStart = .ok start) :
    start.prepared.remaining ≤ credits.length + 2 * requests.length
      ∧ start.prepared.material ≤ credits.length + requests.length := by
  obtain ⟨dropped, kept, hperm, heq⟩ := prepared_eq start
  have hpending := hperm.length_eq
  rw [heq]
  obtain ⟨-, rfl⟩ := new_ok_iff.mp hnew
  have hpayable := (payable_sublist network requests).length_le
  have hcredits : (PoolCredit.sort credits).length = credits.length := List.length_mergeSort _
  unfold remaining material
  simp only [List.length_append, List.length_map, Draft.empty, List.length_nil, hcredits]
    at hpending hpayable ⊢
  omega

/-- **A round comes to an end.** However the policy judges transactions, the main loop ends after at
most as many turns as there are credits and twice the requests, be it by its own test or by a
failure of the last turn, and no longer run of turns exists. Between the turns and at the end of
the round there are at most as many transactions as credits and requests together. -/
theorem fulfil_terminates {network : AddressNetwork} {requests : List OutputRequest}
    {credits : List PoolCredit} {changeStart : ChangeAddress}
    (hnew : new network requests credits changeStart = .ok start) :
    (∃ n ≤ credits.length + 2 * requests.length,
        Stops K P start.prepared n (start.prepared.payAll K P))
      ∧ (∀ n r, After K P start.prepared n r →
          n ≤ credits.length + 2 * requests.length
            ∧ r.finalized.length ≤ credits.length + requests.length)
      ∧ (reached (start.fulfil K P)).finalized.length ≤ credits.length + requests.length := by
  obtain ⟨hwork, hmaterial⟩ := prepared_bounds hnew
  refine ⟨?_, ?_, ?_⟩
  · obtain ⟨n, hle, hstops⟩ := payAll_stops K P start.prepared
    exact ⟨n, Nat.le_trans hle hwork, hstops⟩
  · intro n r hafter
    obtain ⟨hturns, hcount, -⟩ := hafter.le
    exact ⟨Nat.le_trans hturns hwork, Nat.le_trans hcount hmaterial⟩
  · exact Nat.le_trans (length_reached_le start) hmaterial

/-- The small round makes at most six turns, and at most four transactions. -/
theorem sample_terminates :
    (∃ n ≤ 6, Stops .secp256k1 Sample.policy Sample.start.prepared n
        (Sample.start.prepared.payAll .secp256k1 Sample.policy))
      ∧ (∀ n r, After .secp256k1 Sample.policy Sample.start.prepared n r →
          n ≤ 6 ∧ r.finalized.length ≤ 4)
      ∧ (reached (Sample.start.fulfil .secp256k1 Sample.policy)).finalized.length ≤ 4 :=
  fulfil_terminates Sample.new_eq

end Round

end NotaryPool
