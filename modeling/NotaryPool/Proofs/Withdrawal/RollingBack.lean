import NotaryPool.Proofs.Withdrawal.Loop

/-!
# Rolling back

When a transaction is too big for its last payment, the payment is taken out again, with the inputs
that the other payments do not need. Inputs are taken out until the rest is not enough, and the one
that was taken out too many is put back. A policy may ask any fee of any shape, so a draft with more
inputs than another may be funded no better; what is left is then the longest part of the inputs
that is not enough, and the one input behind it.

## Contents

* `Draft.RolledBack`: what rolling back makes of a draft, with `Draft.RolledBack.isFunded` and
  `Draft.RolledBack.needs_last`.
* `Draft.RolledBack.unique`: no two outcomes are of this kind.
* `Draft.rollBack_eq_ok_iff`: rolling back gives this outcome, if there are two payments.
* **`Draft.rollBack_exact`**: the last payment goes, and the inputs that are not needed without it.
-/

namespace NotaryPool

namespace Draft

variable {P : TxPolicy} {d d' : Draft} {removed : List PoolCredit} {payment : Payment}

/-- What rolling back makes of a draft: the inputs taken out, the last one first, the payment taken
out, and the draft that is left. -/
structure RolledBack (P : TxPolicy) (d : Draft) (removed : List PoolCredit) (payment : Payment)
    (d' : Draft) : Prop where
  payments : d'.payments ++ [payment] = d.payments
  inputs : d'.inputs ++ removed.reverse = d.inputs
  rest : d' = { d with inputs := d'.inputs, payments := d'.payments }
  /-- One input stays, if there were any. -/
  nonempty : d'.inputs = [] → d.inputs = []
  /-- No input goes if all of them are not enough. -/
  unfunded : (d'.withInputs d.inputs).isFunded P = false → removed = []
  /-- Whatever number of inputs was still there when another one was taken out was enough. -/
  stages : (d'.withInputs d.inputs).isFunded P = true → ∀ inputs, d'.inputs <+: inputs →
    inputs <+: d.inputs → (d'.withInputs inputs).isFunded P = true
  /-- Without the last input that is left the others would not be enough. -/
  minimal : (d'.withInputs d.inputs).isFunded P = true →
    d'.inputs.length ≤ 1 ∨ (d'.withInputs d'.inputs.dropLast).isFunded P = false

namespace RolledBack

theorem isFunded (h : RolledBack P d removed payment d')
    (hfunded : (d'.withInputs d.inputs).isFunded P = true) : d'.isFunded P = true :=
  h.stages hfunded d'.inputs (List.prefix_refl _) ⟨removed.reverse, h.inputs⟩

/-- If the payments need inputs at all, they need the last one that is left. -/
theorem needs_last (h : RolledBack P d removed payment d')
    (hfunded : (d'.withInputs d.inputs).isFunded P = true)
    (hsome : (d'.withInputs []).isFunded P = false) :
    ∃ credit fewer, d'.popInput? = some (credit, fewer) ∧ fewer.isFunded P = false := by
  have hne : d'.inputs ≠ [] := by
    intro hnil
    have hall := h.isFunded hfunded
    rw [← hnil] at hsome
    exact Bool.false_ne_true (hsome.symm.trans hall)
  obtain ⟨init, credit, hinputs⟩ : ∃ init credit, d'.inputs = init ++ [credit] :=
    ⟨_, _, (List.dropLast_concat_getLast hne).symm⟩
  refine ⟨credit, d'.withInputs init, popInput?_snoc hinputs, ?_⟩
  have hminimal := h.minimal hfunded
  rw [hinputs, List.dropLast_concat] at hminimal
  rcases hminimal with hone | hunfunded
  · have hnil : init = [] := by
      rw [List.length_append, List.length_singleton] at hone
      exact List.eq_nil_of_length_eq_zero (by omega)
    rwa [hnil]
  · exact hunfunded

/-- Of two outcomes that keep different inputs, the one that keeps more would keep one too many. -/
theorem inputs_le {removed₁ removed₂ : List PoolCredit} {d₁ d₂ : Draft}
    (h₁ : RolledBack P d removed₁ payment d₁) (h₂ : RolledBack P d removed₂ payment d₂)
    (hpayments : d₁.payments = d₂.payments) : d₁.inputs.length ≤ d₂.inputs.length := by
  have hsame : ∀ inputs, d₁.withInputs inputs = d₂.withInputs inputs := by
    intro inputs
    rw [h₁.rest, h₂.rest, hpayments]
    rfl
  refine Nat.le_of_not_lt fun hmore => ?_
  cases hfunded : (d₁.withInputs d.inputs).isFunded P with
  | false =>
      -- neither takes an input out
      have hnil := h₂.unfunded (by rwa [← hsame])
      have hall := h₂.inputs
      rw [hnil, List.reverse_nil, List.append_nil, ← h₁.inputs] at hall
      rw [hall, List.length_append] at hmore
      omega
  | true =>
      have hkept : d₂.inputs <+: d₁.inputs.dropLast := by
        refine List.prefix_of_prefix_length_le ⟨_, h₂.inputs⟩
          ((List.dropLast_prefix _).trans ⟨_, h₁.inputs⟩) ?_
        rw [List.length_dropLast]
        omega
      have hstage := h₂.stages (by rwa [← hsame]) _ hkept
        ((List.dropLast_prefix _).trans ⟨_, h₁.inputs⟩)
      rcases h₁.minimal hfunded with hone | hunfunded
      · have hnil : d₂.inputs = [] := List.eq_nil_of_length_eq_zero (by omega)
        have hall := h₁.inputs
        rw [h₂.nonempty hnil] at hall
        rw [(List.append_eq_nil_iff.mp hall).1] at hmore
        exact absurd hmore (Nat.not_lt_zero _)
      · rw [hsame, hstage] at hunfunded
        cases hunfunded

theorem unique {removed₁ removed₂ : List PoolCredit} {payment₁ payment₂ : Payment} {d₁ d₂ : Draft}
    (h₁ : RolledBack P d removed₁ payment₁ d₁) (h₂ : RolledBack P d removed₂ payment₂ d₂) :
    removed₁ = removed₂ ∧ payment₁ = payment₂ ∧ d₁ = d₂ := by
  obtain ⟨hpayments, hpayment⟩ := List.append_inj' (h₁.payments.trans h₂.payments.symm) rfl
  cases hpayment
  have hlength := Nat.le_antisymm (h₁.inputs_le h₂ hpayments) (h₂.inputs_le h₁ hpayments.symm)
  obtain ⟨hinputs, hremoved⟩ := List.append_inj (h₁.inputs.trans h₂.inputs.symm) hlength
  refine ⟨List.reverse_inj.mp hremoved, rfl, ?_⟩
  rw [h₁.rest, h₂.rest, hinputs, hpayments]

end RolledBack

theorem rollBack_rolledBack (h : d.rollBack P = .ok (removed, payment, d')) :
    2 ≤ d.payments.length ∧ RolledBack P d removed payment d' := by
  obtain ⟨ps, kept, hpayments, hne, hinputs, hdraft, -⟩ := rollBack_ok h
  have hstages := rollBack_stages h
  have hsum : d'.inputs ++ removed.reverse = d.inputs := by rw [hdraft, hinputs]
  have hfunded : (d'.withInputs d.inputs).isFunded P = true → ∀ inputs, d'.inputs <+: inputs →
      inputs <+: d.inputs → (d'.withInputs inputs).isFunded P = true := by
    intro hall inputs hmost hfewer
    rcases hstages with hnil | ⟨-, hstages⟩
    · -- there is nothing between the inputs and themselves
      rw [hnil, List.reverse_nil, List.append_nil] at hsum
      rw [hsum] at hmost
      rwa [hfewer.eq_of_length_le hmost.length_le]
    · exact hstages inputs hmost hfewer
  refine ⟨?_, {
    payments := by rw [hpayments, hdraft]
    inputs := hsum
    rest := by rw [hdraft]
    nonempty := ?nonempty
    unfunded := ?unfunded
    stages := hfunded
    minimal := ?minimal }⟩
  · rw [hpayments, List.length_append, List.length_singleton]
    exact Nat.succ_le_succ (List.length_pos_iff.mpr hne)
  case nonempty =>
    intro hnil
    rcases hstages with hremoved | ⟨hsome, -⟩
    · rw [← hsum, hnil, hremoved]
      rfl
    · exact absurd hnil hsome
  case unfunded =>
    intro hall
    refine hstages.resolve_right ?_
    rintro ⟨-, hstages⟩
    have htrue := hstages d.inputs ⟨_, hsum⟩ (List.prefix_refl _)
    exact Bool.false_ne_true (hall.symm.trans htrue)
  case minimal =>
    intro hall
    obtain ⟨init, last, hsplit, hlast, hunfunded⟩ := rollBack_unfunded h
    cases last with
    | nil =>
        rw [List.append_nil] at hsplit
        rcases hunfunded with hnil | hunfunded
        · exact Or.inl (by simp [hsplit, hnil])
        · have htrue := hfunded hall d'.inputs (List.prefix_refl _) ⟨_, hsum⟩
          rw [hsplit, hunfunded] at htrue
          cases htrue
    | cons credit more =>
        have hmore : more = [] := by simpa using hlast
        rw [hsplit, hmore, List.dropLast_concat]
        exact hunfunded.imp_left fun hnil => by simp [hnil]

theorem rollBack_many (hmany : 2 ≤ d.payments.length) :
    ∃ removed payment d', d.rollBack P = .ok (removed, payment, d') := by
  have hne : d.payments ≠ [] := List.length_pos_iff.mp (by omega)
  have hpayments := (List.dropLast_concat_getLast hne).symm
  have hothers : d.payments.dropLast ≠ [] := by
    rw [← List.length_pos_iff, List.length_dropLast]
    omega
  obtain ⟨removed, d', hback⟩ := rollBack_isOk (P := P) hothers hpayments
  exact ⟨removed, _, d', hback⟩

theorem rollBack_eq_ok_iff : d.rollBack P = .ok (removed, payment, d')
    ↔ 2 ≤ d.payments.length ∧ RolledBack P d removed payment d' := by
  refine ⟨rollBack_rolledBack, ?_⟩
  rintro ⟨hmany, h⟩
  obtain ⟨removed', payment', draft, hback⟩ := rollBack_many (P := P) hmany
  obtain ⟨rfl, rfl, rfl⟩ := (rollBack_rolledBack hback).2.unique h
  exact hback

/-- A draft with fewer than two payments keeps them. -/
theorem rollBack_few (hfew : d.payments.length < 2) :
    d.rollBack P = .error (.rollbackNeedsTwoOutputs d.payments.length) := by
  unfold rollBack
  split
  · rename_i last rest hpop
    have hpayments := (popPayment?_ok hpop).1
    rw [if_pos]
    rw [hpayments, List.length_append, List.length_singleton] at hfew
    rw [List.isEmpty_iff_length_eq_zero]
    omega
  · rfl

/-- **Rolling back removes the last payment and the inputs that are not needed without it.** With
fewer than two payments it is refused, and there is no other draft than the one at hand. -/
theorem rollBack_exact (P : TxPolicy) (d : Draft) :
    (d.payments.length < 2 →
      d.rollBack P = .error (.rollbackNeedsTwoOutputs d.payments.length))
    ∧ (2 ≤ d.payments.length →
      ∃ removed payment d', d.rollBack P = .ok (removed, payment, d')
        ∧ d' = { d with inputs := d'.inputs, payments := d'.payments }
        ∧ d'.payments ++ [payment] = d.payments
        ∧ d'.inputs ++ removed.reverse = d.inputs
        ∧ ((d'.withInputs d.inputs).isFunded P = false → removed = [])
        ∧ ((d'.withInputs d.inputs).isFunded P = true → (d'.withInputs []).isFunded P = false →
          d'.isFunded P = true
            ∧ ∃ credit fewer, d'.popInput? = some (credit, fewer)
              ∧ fewer.isFunded P = false)) := by
  refine ⟨rollBack_few, ?_⟩
  intro hmany
  obtain ⟨removed, payment, d', hback⟩ := rollBack_many (P := P) hmany
  obtain ⟨-, h⟩ := rollBack_rolledBack hback
  refine ⟨removed, payment, d', hback, h.rest, h.payments, h.inputs, h.unfunded, ?_⟩
  intro hfunded hsome
  exact ⟨h.isFunded hfunded, h.needs_last hfunded hsome⟩

/-! ## A draft that needs one input of four

The first input pays for the first payment and the fee, and the other three would be spent for the
second payment only. -/

namespace RolledBack.Sample

def credits : List PoolCredit :=
  [20000, 10000, 10000, 10000].zipIdx.map fun (amount, no) =>
    ⟨⟨Vector.replicate 32 1, UInt32.ofNat no⟩, amount, some 1, Round.Sample.address 1⟩

def paying (amount : Nat) : Payment := ⟨Round.Sample.paying, amount, Round.Sample.script⟩

def draft : Draft := { empty with inputs := credits, payments := [paying 15000, paying 30000] }

def policy : TxPolicy := StandardPolicy.standard.toPolicy

/-- What is left of the draft. -/
def left : Draft := { empty with inputs := credits.take 1, payments := [paying 15000] }

theorem rollBack_draft :
    draft.rollBack policy = .ok ((credits.drop 1).reverse, paying 30000, left) := rfl

end RolledBack.Sample

open RolledBack.Sample in
/-- Three of the four inputs go, the last one first, and the one that is left is needed. -/
theorem rollBack_exact_four :
    2 ≤ draft.payments.length
      ∧ draft.rollBack policy = .ok ((credits.drop 1).reverse, paying 30000, left)
      ∧ (left.withInputs draft.inputs).isFunded policy = true
      ∧ (left.withInputs []).isFunded policy = false
      ∧ left.isFunded policy = true
      ∧ ∃ credit fewer, left.popInput? = some (credit, fewer)
        ∧ fewer.isFunded policy = false := by
  have hfunded : (left.withInputs draft.inputs).isFunded policy = true := rfl
  have hsome : (left.withInputs []).isFunded policy = false := rfl
  obtain ⟨removed, payment, d', hback, -, -, -, -, hneeded⟩ :=
    (rollBack_exact policy draft).2 (by decide)
  cases rollBack_draft.symm.trans hback
  exact ⟨by decide, rollBack_draft, hfunded, hsome, hneeded hfunded hsome⟩

end Draft

end NotaryPool
