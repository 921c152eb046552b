import NotaryPool.Withdrawal.Draft

/-!
# What the operations on a draft do

The turns of a round change the draft at its end only: they append a payment and credits, and take
the last payment and the last inputs off again. This module says once what each operation does to
the two lists, so that no later proof opens it.

## Contents

* `Draft.inputSum`, `Draft.paymentSum`: the sums of a draft without the bound of 64 bits.
* `Draft.IsOpen`: a draft that has not been closed.
* `Draft.popPayment?_snoc`, `Draft.popInput?_snoc`, `Draft.setLastAmount_snoc`: the ends of a draft.
* `Draft.fill`: takes credits until the draft is funded or too big, with `Draft.fill_taken`.
* `Draft.rollBack_shed`: taking the last payment out, step by step, with `Draft.rollBack_isOk`.
* `Draft.rollBack_ok`, `Draft.rollBack_stages`, `Draft.rollBack_unfunded`: what that leaves behind.
* `Draft.addChange_ok`, `Draft.addChange_error`: the two ways in which a draft is closed, and the
  one in which it is not.
-/

namespace NotaryPool

namespace Draft

variable {P : TxPolicy} {d d' : Draft}

/-! ## Sums -/

/-- The sum of the inputs as a natural number. -/
def inputSum (d : Draft) : Nat := (d.inputs.map (·.amount)).sum

/-- The sum of the payments as a natural number. -/
def paymentSum (d : Draft) : Nat := (d.payments.map (·.amount)).sum

theorem inputTotal_eq (h : d.inputSum ≤ Amount.largest) : d.inputTotal = d.inputSum :=
  Amount.total_eq_sum h

theorem outputTotal_eq (h : d.paymentSum ≤ Amount.largest) : d.outputTotal = d.paymentSum :=
  Amount.total_eq_sum h

/-! ## The ends of a draft -/

/-- The draft with a payment of a whole request behind the others, and credits behind its inputs. -/
def serving (d : Draft) (request : OutputRequest) (script : Bytes) (taken : List PoolCredit) :
    Draft :=
  { d with
    inputs := d.inputs ++ taken
    payments := d.payments ++ [⟨request, request.amount, script⟩] }

/-- The draft with other inputs. -/
def withInputs (d : Draft) (inputs : List PoolCredit) : Draft := { d with inputs }

/-- The payment of a request is the only one if there was none before. -/
theorem serving_single {request : OutputRequest} {script : Bytes} {taken inputs : List PoolCredit}
    (hfirst : d.payments = []) (h : (d.serving request script taken).withInputs inputs = d') :
    d'.payments = [⟨request, request.amount, script⟩] := by
  rw [← h]
  show d.payments ++ _ = _
  rw [hfirst, List.nil_append]

theorem popPayment?_snoc {ps : List Payment} {p : Payment} (h : d.payments = ps ++ [p]) :
    d.popPayment? = some (p, { d with payments := ps }) := by
  simp [popPayment?, h]

theorem popInput?_snoc {ins : List PoolCredit} {c : PoolCredit} (h : d.inputs = ins ++ [c]) :
    d.popInput? = some (c, d.withInputs ins) := by
  simp [popInput?, withInputs, h]

theorem popInput?_ok {c : PoolCredit} (h : d.popInput? = some (c, d')) :
    ∃ ins, d.inputs = ins ++ [c] ∧ d' = d.withInputs ins := by
  unfold popInput? at h
  obtain ⟨last, hlast, heq⟩ := Option.map_eq_some_iff.mp h
  obtain ⟨ins, hins⟩ := List.getLast?_eq_some_iff.mp hlast
  cases heq
  exact ⟨ins, hins, by simp [withInputs, hins]⟩

theorem popPayment?_ok {p : Payment} (h : d.popPayment? = some (p, d')) :
    d.payments = d'.payments ++ [p] ∧ d' = { d with payments := d'.payments } := by
  unfold popPayment? at h
  obtain ⟨last, hlast, heq⟩ := Option.map_eq_some_iff.mp h
  obtain ⟨ps, hps⟩ := List.getLast?_eq_some_iff.mp hlast
  cases heq
  simp [hps]

theorem setLastAmount_snoc {ps : List Payment} {p : Payment} (h : d.payments = ps ++ [p])
    (amount : Nat) :
    d.setLastAmount amount = { d with payments := ps ++ [{ p with amount }] } := by
  unfold setLastAmount
  have hlast : (ps ++ [p]).modify ((ps ++ [p]).length - 1) (fun p => { p with amount })
      = ps ++ [{ p with amount }] := by
    rw [List.modify_eq_take_cons_drop (by simp)]
    simp
  rw [h, hlast]

/-- What the inputs leave for the last payment, of a given amount, after the other payments and the
fee. -/
def unspent (P : TxPolicy) (d : Draft) (amount : Nat) : Nat :=
  d.inputTotal - (d.outputTotal - amount + d.requiredFee P)

/-- The only payment gets all that the fee leaves. -/
theorem unspent_single {p : Payment} (h : d.payments = [p]) :
    d.unspent P p.amount = d.inputTotal - d.requiredFee P := by
  have hothers : d.outputTotal - p.amount = 0 := by
    have hle := Amount.total_le_sum (d.payments.map (·.amount))
    rw [h] at hle
    unfold outputTotal
    rw [h]
    simp at hle ⊢
    omega
  unfold unspent
  rw [hothers, Nat.zero_add]

/-! ## Taking credits -/

/-- Takes credits while the draft is neither too big nor funded. -/
def fill (P : TxPolicy) (d : Draft) : List PoolCredit → Draft × List PoolCredit
  | [] => (d, [])
  | credit :: rest =>
    if d.isTooBig P || d.isFunded P then (d, credit :: rest) else fill P (d.addInput credit) rest

theorem fill_of_isTooBig (h : d.isTooBig P = true) (credits : List PoolCredit) :
    d.fill P credits = (d, credits) := by
  cases credits with
  | nil => rfl
  | cons credit rest => simp [fill, h]

/-- The credits taken are the first ones of the queue, in their order, and they are taken until the
draft is too big or funded or the queue is empty. -/
theorem fill_taken {credits left : List PoolCredit} (h : d.fill P credits = (d', left)) :
    ∃ taken, credits = taken ++ left ∧ d' = d.withInputs (d.inputs ++ taken)
      ∧ (d'.isTooBig P = false → d'.isFunded P = false → left = []) := by
  induction credits generalizing d with
  | nil =>
      cases h
      exact ⟨[], by simp [withInputs]⟩
  | cons credit rest ih =>
      unfold fill at h
      split at h
      · rename_i hstop
        cases h
        refine ⟨[], by simp, by simp [withInputs], ?_⟩
        intro hsmall hunfunded
        simp [hsmall, hunfunded] at hstop
      · obtain ⟨taken, hqueue, hdraft, hleft⟩ := ih h
        refine ⟨credit :: taken, by simp [hqueue], ?_, hleft⟩
        rw [hdraft]
        simp [addInput, withInputs]

/-- Before each of the credits was taken, the draft was neither too big nor funded. -/
theorem fill_stages {taken left stage rest : List PoolCredit} {credit : PoolCredit}
    (h : d.fill P (taken ++ left) = (d.withInputs (d.inputs ++ taken), left))
    (hstage : taken = stage ++ credit :: rest) :
    (d.withInputs (d.inputs ++ stage)).isTooBig P = false
      ∧ (d.withInputs (d.inputs ++ stage)).isFunded P = false := by
  induction stage generalizing d taken with
  | nil =>
      rw [List.nil_append] at hstage
      subst hstage
      rw [List.cons_append] at h
      unfold fill at h
      split at h
      · -- nothing would have been taken
        have hlength := congrArg (fun parts => parts.2.length) h
        simp at hlength
        omega
      · rename_i hgo
        simpa [withInputs] using hgo
  | cons first stage ih =>
      rw [List.cons_append] at hstage
      subst hstage
      rw [List.cons_append] at h
      unfold fill at h
      split at h
      · have hlength := congrArg (fun parts => parts.2.length) h
        simp at hlength
        omega
      · have hrest := ih (d := d.addInput first) (by simpa [addInput, withInputs] using h) rfl
        simpa [addInput, withInputs] using hrest

/-! ## Taking the last payment out -/

/-- The inputs taken out and those kept make up the inputs, and as long as one that was taken out
was there, with all before it, the draft was funded. -/
theorem shed_ok {reversed removed : List PoolCredit} (h : d.shed P reversed = (removed, d')) :
    ∃ kept, reversed = removed ++ kept.reverse ∧ d' = d.withInputs kept
      ∧ ∀ inputs, kept <+: inputs → inputs ≠ kept → inputs <+: reversed.reverse →
          (d.withInputs inputs).isFunded P = true := by
  induction reversed generalizing removed d' with
  | nil =>
      cases h
      refine ⟨[], rfl, rfl, ?_⟩
      intro inputs _ hmore hinputs
      exact absurd (List.prefix_nil.mp hinputs) hmore
  | cons credit rest ih =>
      unfold shed at h
      dsimp only at h
      split at h
      · rename_i hfunded
        obtain ⟨kept, hrest, hdraft, hstages⟩ := ih (Prod.eta (d.shed P rest)).symm
        cases h
        refine ⟨kept, by rw [List.cons_append, ← hrest], hdraft, ?_⟩
        intro inputs hkept hmore hinputs
        rw [List.reverse_cons, List.prefix_concat_iff] at hinputs
        rcases hinputs with hall | hfewer
        · rwa [hall, ← List.reverse_cons]
        · exact hstages inputs hkept hmore hfewer
      · -- without this credit the others would not be enough, so all that are left stay
        cases h
        refine ⟨(credit :: rest).reverse, by simp, rfl, ?_⟩
        intro inputs hkept hmore hinputs
        exact absurd (hinputs.eq_of_length_le hkept.length_le) hmore

/-- Inputs are taken out until the others do not fund the payments any more. -/
theorem shed_unfunded {reversed removed : List PoolCredit} (h : d.shed P reversed = (removed, d')) :
    d'.inputs = [] ∨ d'.isFunded P = false := by
  induction reversed generalizing removed d' with
  | nil =>
      cases h
      exact Or.inl rfl
  | cons credit rest ih =>
      unfold shed at h
      dsimp only at h
      split at h
      · have hrest := ih (Prod.eta (d.shed P rest)).symm
        cases h
        exact hrest
      · rename_i hunfunded
        cases h
        exact Or.inr (by simpa using hunfunded)

/-- Taking the last payment out sheds inputs for the other payments, and the input that goes last
is put back. -/
theorem rollBack_shed {removed : List PoolCredit} {p : Payment}
    (h : d.rollBack P = .ok (removed, p, d')) :
    ∃ ps popped left, d.payments = ps ++ [p] ∧ ps ≠ []
      ∧ shed P { d with payments := ps } d.inputs.reverse = (popped, left)
      ∧ (popped = [] ∧ removed = [] ∧ d' = left
        ∨ ∃ credit, popped = removed ++ [credit] ∧ d' = left.addInput credit) := by
  unfold rollBack at h
  split at h
  · rename_i last rest hpop
    obtain ⟨hpayments, hrest⟩ := popPayment?_ok hpop
    split at h
    · cases h
    · rename_i hmore
      have hne : rest.payments ≠ [] := by
        intro hnil
        exact hmore (by rw [hnil]; rfl)
      dsimp only at h
      generalize hshed : rest.shed P rest.inputs.reverse = parts at h
      obtain ⟨popped, left⟩ := parts
      have hsame : rest.inputs = d.inputs := by rw [hrest]
      rw [hsame, hrest] at hshed
      split at h
      · rename_i credit hcredit
        cases h
        obtain ⟨others, rfl⟩ : ∃ others, popped = others ++ [credit] :=
          List.getLast?_eq_some_iff.mp hcredit
        exact ⟨rest.payments, _, left, hpayments, hne, hshed,
          Or.inr ⟨credit, by simp, rfl⟩⟩
      · rename_i hnone
        cases h
        have hnil : popped = [] := List.getLast?_eq_none_iff.mp hnone
        exact ⟨rest.payments, _, _, hpayments, hne, hshed, Or.inl ⟨hnil, hnil, rfl⟩⟩
  · cases h

/-- If an input was taken out with the last payment, some are left, and they fund the other payments
with any number of those that were taken out put back in their order. -/
theorem rollBack_stages {removed : List PoolCredit} {p : Payment}
    (h : d.rollBack P = .ok (removed, p, d')) :
    removed = [] ∨ d'.inputs ≠ [] ∧ ∀ inputs, d'.inputs <+: inputs → inputs <+: d.inputs →
      (d'.withInputs inputs).isFunded P = true := by
  obtain ⟨ps, popped, left, -, -, hshed, ⟨-, hnil, -⟩ | ⟨credit, -, hdraft⟩⟩ := rollBack_shed h
  · exact Or.inl hnil
  · obtain ⟨kept, -, hleft, hstages⟩ := shed_ok hshed
    subst hleft hdraft
    refine Or.inr ⟨by simp [addInput], ?_⟩
    intro inputs hmost hinputs
    replace hmost : kept ++ [credit] <+: inputs := hmost
    refine hstages inputs ((List.prefix_append ..).trans hmost) ?_ (by rwa [List.reverse_reverse])
    rintro rfl
    exact absurd hmost.length_le (by simp)

/-- Taking the last payment out gives back a last part of the inputs, the last one first, and what
is left is funded unless no input was taken out. -/
theorem rollBack_ok {removed : List PoolCredit} {p : Payment}
    (h : d.rollBack P = .ok (removed, p, d')) :
    ∃ ps kept, d.payments = ps ++ [p] ∧ ps ≠ [] ∧ d.inputs = kept ++ removed.reverse
      ∧ d' = { d with inputs := kept, payments := ps }
      ∧ (removed = [] ∨ d'.isFunded P = true) := by
  obtain ⟨ps, popped, left, hpayments, hne, hshed, hback⟩ := rollBack_shed h
  obtain ⟨kept, hreversed, hleft, -⟩ := shed_ok hshed
  have hinputs : d.inputs = kept ++ popped.reverse := by
    rw [← List.reverse_reverse d.inputs, hreversed]
    simp
  obtain ⟨inputs, hsplit, hdraft⟩ : ∃ inputs, d.inputs = inputs ++ removed.reverse
      ∧ d' = { d with inputs, payments := ps } := by
    rcases hback with ⟨hpopped, hnil, hdraft⟩ | ⟨credit, hpopped, hdraft⟩
    · exact ⟨kept, by rw [hinputs, hpopped, hnil], by rw [hdraft, hleft]; rfl⟩
    · exact ⟨kept ++ [credit], by rw [hinputs, hpopped]; simp, by rw [hdraft, hleft]; rfl⟩
  refine ⟨ps, inputs, hpayments, hne, hsplit, hdraft, (rollBack_stages h).imp_right ?_⟩
  rintro ⟨-, hstages⟩
  exact hstages d'.inputs (List.prefix_refl _) (by rw [hdraft, hsplit]; exact List.prefix_append ..)

/-- The last of several payments can always be taken out. -/
theorem rollBack_isOk {ps : List Payment} {p : Payment} (hne : ps ≠ [])
    (h : d.payments = ps ++ [p]) : ∃ removed draft, d.rollBack P = .ok (removed, p, draft) := by
  unfold rollBack
  rw [popPayment?_snoc h]
  dsimp only
  rw [if_neg (by rwa [List.isEmpty_iff])]
  generalize (shed P { d with payments := ps } d.inputs.reverse) = parts
  obtain ⟨popped, left⟩ := parts
  dsimp only
  cases popped.getLast? with
  | some credit => exact ⟨_, _, rfl⟩
  | none => exact ⟨_, _, rfl⟩

/-- All inputs that are left when the last payment has been taken out, but the last one of them, do
not fund the other payments. -/
theorem rollBack_unfunded {removed : List PoolCredit} {p : Payment}
    (h : d.rollBack P = .ok (removed, p, d')) :
    ∃ init last, d'.inputs = init ++ last ∧ last.length ≤ 1
      ∧ (init = [] ∨ (d'.withInputs init).isFunded P = false) := by
  obtain ⟨ps, popped, left, -, -, hshed, hback⟩ := rollBack_shed h
  have hleft := shed_unfunded hshed
  rcases hback with ⟨-, -, rfl⟩ | ⟨credit, -, rfl⟩
  · exact ⟨d'.inputs, [], (List.append_nil _).symm, Nat.zero_le _, hleft⟩
  · exact ⟨left.inputs, [credit], rfl, Nat.le_refl _, hleft⟩

/-! ## Closing -/

/-- A draft that has not been closed, and has no change output. -/
structure IsOpen (d : Draft) : Prop where
  closed : d.closed = false
  change : d.change = none

theorem isOpen_empty : empty.IsOpen := ⟨rfl, rfl⟩

/-- A draft that is closed keeps its inputs and its payments. What is left after the payments and
the fee goes to the change, or else all that is left after the payments is the fee. -/
theorem addChange_ok {script : Bytes} (h : d.addChange P script = .ok d') :
    (d.outputTotal + d.requiredFee P < d.inputTotal
      ∧ d' = { d with
          closed := true
          fee := d.requiredFee P
          change := some ⟨d.inputTotal - (d.outputTotal + d.requiredFee P), script⟩ })
    ∨ (d.inputTotal ≤ d.outputTotal + d.requiredFee P
      ∧ d' = { d with closed := true, fee := d.inputTotal - d.outputTotal }) := by
  unfold addChange at h
  split at h
  · cases h
  · dsimp only at h
    split at h
    · rename_i hless
      cases h
      exact Or.inl ⟨hless, rfl⟩
    · rename_i hmore
      cases h
      exact Or.inr ⟨Nat.le_of_not_lt hmore, rfl⟩

/-- Only a draft that is closed cannot be closed. -/
theorem addChange_error {script : Bytes} {e : PreconditionError}
    (h : d.addChange P script = .error e) : d.closed = true ∧ e = .changeAlreadyAdded := by
  unfold addChange at h
  split at h
  · rename_i hclosed
    cases h
    exact ⟨hclosed, rfl⟩
  · dsimp only at h
    split at h
    · cases h
    · cases h

theorem addChange_inputs {script : Bytes} (h : d.addChange P script = .ok d') :
    d'.inputs = d.inputs := by
  rcases addChange_ok h with ⟨-, rfl⟩ | ⟨-, rfl⟩ <;> rfl

theorem addChange_payments {script : Bytes} (h : d.addChange P script = .ok d') :
    d'.payments = d.payments := by
  rcases addChange_ok h with ⟨-, rfl⟩ | ⟨-, rfl⟩ <;> rfl

end Draft

end NotaryPool
