import NotaryPool.Proofs.Withdrawal.Closing

/-!
# Transactions within the policy

The standard policy asks for a fee for each started kilobyte and sets a limit on the size. A round
looks at both while it makes a transaction and at neither when it closes it. Between the two the
transaction may have changed for the worse: an input may have been kept that costs more than it
brings, and the change may have a longer script than the payment that has stood in for it. Apart
from that each transaction pays its fee and keeps the limit.

## Contents

* `Draft.not_costly`: inputs that are worth their fee are not too costly.
* `Round.fulfil_pays_fee`: **every transaction pays its fee, unless an input is too costly.**
* `Round.fulfil_within_limit`: **every transaction keeps the limit, unless an input is too costly.**
* `Round.leftover_lacks_fee`, `Round.leftover_exceeds_limit`: rounds with an input that is too
  costly.
-/

namespace NotaryPool

variable {K : KeyScheme} {P : TxPolicy} {p : StandardPolicy}

namespace Draft

variable {d draft : Draft}

/-! ## Inputs that are worth their fee -/

/-- How many bytes an input adds to a transaction, at most: its own and those by which the count of
the inputs may get longer. -/
def inputCost (c : PoolCredit) : Nat := TxIn.sizeWith (maxScriptLength c.address) + 4

theorem size_addInput_le (inputs : List PoolCredit) (c : PoolCredit) :
    (d.withInputs (inputs ++ [c])).shape.size
      ≤ (d.withInputs inputs).shape.size + inputCost c := by
  show Tx.sizeWith ((inputs ++ [c]).map fun c => maxScriptLength c.address) _ ≤ _
  rw [List.map_append]
  exact Tx.sizeWith_snoc_le _ _ _

/-- **No input is too costly** if each one is worth the kilobytes that it may start. -/
theorem not_costly (hsum : d.inputSum ≤ Amount.largest)
    (hworth : ∀ c ∈ d.inputs, p.feeIncrement * (1 + inputCost c / 1000) ≤ c.amount) :
    ¬ d.Costly p.toPolicy := by
  rintro ⟨inputs, c, ⟨more, hinputs⟩, hfunded, hunfunded⟩
  have hcost : p.feeIncrement * (1 + inputCost c / 1000) ≤ c.amount :=
    hworth c (by rw [← hinputs]; simp)
  have hcovers : d.outputTotal + (d.withInputs inputs).requiredFee p.toPolicy
      ≤ (d.withInputs inputs).inputTotal := of_decide_eq_true hfunded
  have hshort : ¬ d.outputTotal + (d.withInputs (inputs ++ [c])).requiredFee p.toPolicy
      ≤ (d.withInputs (inputs ++ [c])).inputTotal := of_decide_eq_false hunfunded
  -- the input brings its amount
  have hsplit : d.inputSum = (d.withInputs (inputs ++ [c])).inputSum
      + (more.map (·.amount)).sum := by
    unfold inputSum
    rw [← hinputs, List.map_append, List.sum_append]
    rfl
  have hbrings : (d.withInputs (inputs ++ [c])).inputTotal
      = (d.withInputs inputs).inputSum + c.amount := by
    rw [inputTotal_eq (by omega)]
    simp [inputSum, withInputs]
  have hless : (d.withInputs inputs).inputTotal ≤ (d.withInputs inputs).inputSum :=
    Amount.total_le_sum _
  -- and costs no more than that
  have hsize : (d.withInputs (inputs ++ [c])).shape.size / 1000
      ≤ (d.withInputs inputs).shape.size / 1000 + (1 + inputCost c / 1000) := by
    have hle := size_addInput_le (d := d) inputs c
    omega
  have hfee : (d.withInputs (inputs ++ [c])).requiredFee p.toPolicy
      ≤ (d.withInputs inputs).requiredFee p.toPolicy
        + p.feeIncrement * (1 + inputCost c / 1000) := by
    show p.feeIncrement * _ ≤ p.feeIncrement * _ + _
    rw [← Nat.mul_add]
    exact Nat.mul_le_mul_left _ (by omega)
  omega

/-! ## Closing a draft -/

theorem beforeChange_addChange {script : Bytes} (hunclosed : draft.change = none)
    (h : draft.addChange P script = .ok d) :
    d.beforeChange = { draft with closed := true, fee := d.fee } := by
  rcases addChange_ok h with ⟨-, rfl⟩ | ⟨-, rfl⟩
  · unfold beforeChange
    rw [← hunclosed]
  · unfold beforeChange
    rw [← hunclosed]

/-- A funded draft pays its fee when it is closed. -/
theorem requiredFee_le_fee {script : Bytes} (hfunded : draft.isFunded P = true)
    (h : draft.addChange P script = .ok d) : draft.requiredFee P ≤ d.fee := by
  have hcovers : draft.outputTotal + draft.requiredFee P ≤ draft.inputTotal :=
    of_decide_eq_true hfunded
  rcases addChange_ok h with ⟨-, rfl⟩ | ⟨-, rfl⟩
  · exact Nat.le_refl _
  · show draft.requiredFee P ≤ draft.inputTotal - draft.outputTotal
    omega

end Draft

namespace Round

/-! ## The transactions of a round -/

section Finalized

variable {network : AddressNetwork} {requests : List OutputRequest} {credits : List PoolCredit}
  {changeStart : ChangeAddress} {start final : Round}

/-- Each transaction of a round, as it was measured before its change was known, is one of the
drafts that the round closes. -/
theorem finalized_closes (hnew : new network requests credits changeStart = .ok start)
    (hfulfil : start.fulfil K P = .ok final) :
    ∀ d ∈ final.finalized, d.payments ≠ [] ∧ ∃ draft script, Closes K P start.prepared draft
      ∧ draft.addChange P script = .ok d
      ∧ d.beforeChange = { draft with closed := true, fee := d.fee } := by
  obtain ⟨dropped, kept, -, heq⟩ := prepared_eq start
  obtain ⟨-, rfl⟩ := new_ok_iff.mp hnew
  intro d hd
  obtain ⟨draft, script, hcloses, hclosed⟩ := fulfil_closes rfl hfulfil d hd
  have hunclosed := hcloses.unclosed (by rw [heq])
  refine ⟨?_, draft, script, hcloses, hclosed, Draft.beforeChange_addChange hunclosed hclosed⟩
  rw [Draft.addChange_payments hclosed]
  exact hcloses.payments_ne_nil

/-- **Every transaction pays its fee, unless an input is too costly.** When a round ends well with
the standard policy, and the sum of its requests can be stored, each of its transactions keeps an
input that costs more than it brings, or pays at least the fee that was asked for while it was made.
That is no less than the fee of its final shape, unless the script of the change is longer than the
one that has stood in for it. -/
theorem fulfil_pays_fee (hnew : new network requests credits changeStart = .ok start)
    (hsum : dueSum start.pending ≤ Amount.largest)
    (hfulfil : start.fulfil K p.toPolicy = .ok final) :
    ∀ d ∈ final.finalized, d.beforeChange.Costly p.toPolicy
      ∨ d.beforeChange.requiredFee p.toPolicy ≤ d.fee
        ∧ (d.StandInFits → d.requiredFee p.toPolicy ≤ d.fee) := by
  intro d hd
  obtain ⟨hpayments, draft, script, hcloses, hclosed, hbefore⟩ :=
    finalized_closes hnew hfulfil d hd
  obtain ⟨dropped, kept, hperm, heq⟩ := prepared_eq start
  have hsum' : dueSum start.prepared.pending ≤ Amount.largest := by
    rw [heq]
    exact Nat.le_trans (dueSum_kept_le hperm) hsum
  have hstart : start.prepared.current = .empty := by
    obtain ⟨-, rfl⟩ := new_ok_iff.mp hnew
    rw [heq]
  rcases hcloses.funded_or_costly hstart hsum' with hfunded | hcostly
  · have hpaid : d.beforeChange.requiredFee p.toPolicy ≤ d.fee := by
      have hdraft := Draft.requiredFee_le_fee hfunded hclosed
      rw [hbefore]
      exact hdraft
    refine Or.inr ⟨hpaid, fun hfits => Nat.le_trans ?_ hpaid⟩
    exact p.monotone.fee (Draft.shape_within_beforeChange hpayments hfits)
  · left
    rw [hbefore]
    exact hcostly

/-- **Every transaction keeps the limit, unless an input is too costly.** When a round ends well
with the standard policy, each of its transactions keeps an input that costs more than it brings, or
has payments that need no input at all, or is not too big as it was measured before its change was
known. Then it is not too big with its change, unless the script of the change is longer than the
one that has stood in for it. -/
theorem fulfil_within_limit (hnew : new network requests credits changeStart = .ok start)
    (hfulfil : start.fulfil K p.toPolicy = .ok final) :
    ∀ d ∈ final.finalized, d.beforeChange.Costly p.toPolicy
      ∨ (d.beforeChange.withInputs []).isFunded p.toPolicy = true
      ∨ d.beforeChange.isTooBig p.toPolicy = false
        ∧ (d.StandInFits → d.isTooBig p.toPolicy = false) := by
  intro d hd
  obtain ⟨hpayments, draft, script, hcloses, hclosed, hbefore⟩ :=
    finalized_closes hnew hfulfil d hd
  obtain ⟨dropped, kept, hperm, heq⟩ := prepared_eq start
  obtain ⟨-, rfl⟩ := new_ok_iff.mp hnew
  have hscripts : ∀ due ∈ kept, AddressScript due.script := by
    intro due hdue
    have hmem : due ∈ payable network requests :=
      hperm.mem_iff.mp (List.mem_append_right dropped hdue)
    exact OutputRequest.addressScript (mem_payable hmem).2
  rcases hcloses.small_or_costly p.monotone (by rw [heq]) (by rw [heq]; exact hscripts)
    with hsmall | hcostly | hneedless
  · have hsmall' : d.beforeChange.isTooBig p.toPolicy = false := by
      rw [hbefore]
      exact hsmall
    refine Or.inr (Or.inr ⟨hsmall', fun hfits => ?_⟩)
    exact p.monotone.small (Draft.shape_within_beforeChange hpayments hfits) hsmall'
  · left
    rw [hbefore]
    exact hcostly
  · right
    left
    rw [hbefore]
    exact hneedless

end Finalized

/-! ## A round with change

One request and one credit, which leaves a change output. -/

namespace Changing

def due : DueRequest := { Stranding.second with
  request := Stranding.second.request.withAmount 5000 }

def credits : List PoolCredit := [⟨⟨Vector.replicate 32 1, 0⟩, 10000, some 1, Sample.address 1⟩]

def start : Round := opening [due] credits Sample.change

theorem new_eq : new .regtest ([due].map (·.request)) credits Sample.change = .ok start :=
  new_opening (by decide) (List.forall_mem_singleton.mpr (Stranding.script_second rfl)) (by decide)

/-- The round ends well with one transaction, which spends the credit and has a change output. -/
theorem fulfil_isOk : ∃ final, start.fulfil .secp256k1 StandardPolicy.standard.toPolicy = .ok final
    ∧ final.finalized.map (fun d => (d.inputs, d.payments.map (·.script.length),
        d.change.map (·.script.length))) = [(credits, [34], some 23)] := by
  have hok : (start.fulfil .secp256k1 StandardPolicy.standard.toPolicy).toOption.any (fun final =>
      final.finalized.map (fun d => (d.inputs, d.payments.map (·.script.length),
        d.change.map (·.script.length))) = [(credits, [34], some 23)]) = true := by
    have hprepared : start.prepared = start := prepared_opening (by decide) (by decide)
    rw [fulfil_eq, hprepared]
    decide +kernel
  obtain ⟨final, hfinal, htest⟩ := fulfil_any hok
  exact ⟨final, hfinal, of_decide_eq_true htest⟩

/-- The transaction keeps no input that is too costly, needs an input, and its change is no longer
than what has stood in for it. -/
theorem transaction_sound {d : Draft}
    (h : (d.inputs, d.payments.map (·.script.length), d.change.map (·.script.length))
      = (credits, [34], some 23)) :
    ¬ d.beforeChange.Costly StandardPolicy.standard.toPolicy
      ∧ (d.beforeChange.withInputs []).isFunded StandardPolicy.standard.toPolicy = false
      ∧ d.StandInFits := by
  simp only [Prod.mk.injEq] at h
  obtain ⟨hinputs, hpayments, hchange⟩ := h
  have hinputs' : d.beforeChange.inputs = credits := hinputs
  refine ⟨Draft.not_costly ?_ ?_, ?_, ?_⟩
  · unfold Draft.inputSum
    rw [hinputs']
    decide
  · rw [hinputs']
    decide
  · -- the fee is not zero
    apply decide_eq_false
    show ¬ (_ + 1000 * (1 + _) ≤ 0)
    omega
  · intro change p hsome hhead
    have hlength : change.script.length = 23 := by
      rw [hsome] at hchange
      exact Option.some.inj hchange
    have hpaid : p.script.length = 34 := by
      have hmap := congrArg (·.head?) hpayments
      simp only [List.head?_map, hhead] at hmap
      exact Option.some.inj hmap
    omega

end Changing

/-- The transaction with change pays its fee. -/
theorem changing_pays_fee :
    ∃ final, new .regtest ([Changing.due].map (·.request)) Changing.credits Sample.change
        = .ok Changing.start
      ∧ Changing.start.fulfil .secp256k1 StandardPolicy.standard.toPolicy = .ok final
      ∧ final.finalized.length = 1
      ∧ ∀ d ∈ final.finalized, d.requiredFee StandardPolicy.standard.toPolicy ≤ d.fee := by
  obtain ⟨final, hfulfil, hshape⟩ := Changing.fulfil_isOk
  refine ⟨final, Changing.new_eq, hfulfil, by simpa using congrArg List.length hshape, ?_⟩
  intro d hd
  obtain ⟨hcheap, -, hfits⟩ := Changing.transaction_sound
    (List.mem_singleton.mp (hshape ▸ List.mem_map_of_mem hd))
  have hpays := fulfil_pays_fee Changing.new_eq (by decide) hfulfil d hd
  exact (hpays.resolve_left hcheap).2 hfits

/-- The transaction with change keeps the limit. -/
theorem changing_within_limit :
    ∃ final, new .regtest ([Changing.due].map (·.request)) Changing.credits Sample.change
        = .ok Changing.start
      ∧ Changing.start.fulfil .secp256k1 StandardPolicy.standard.toPolicy = .ok final
      ∧ final.finalized.length = 1
      ∧ ∀ d ∈ final.finalized, d.isTooBig StandardPolicy.standard.toPolicy = false := by
  obtain ⟨final, hfulfil, hshape⟩ := Changing.fulfil_isOk
  refine ⟨final, Changing.new_eq, hfulfil, by simpa using congrArg List.length hshape, ?_⟩
  intro d hd
  obtain ⟨hcheap, hneeds, hfits⟩ := Changing.transaction_sound
    (List.mem_singleton.mp (hshape ▸ List.mem_map_of_mem hd))
  have hwithin := fulfil_within_limit Changing.new_eq hfulfil d hd
  rcases hwithin with hcostly | hneedless | ⟨-, hsmall⟩
  · exact absurd hcostly hcheap
  · rw [hneeds] at hneedless
    cases hneedless
  · exact hsmall hfits

/-! ## Rounds with an input that is too costly

Two requests and four credits at an address of two keys out of three. The last credits are taken for
the second request, which is then removed, or taken out again, and they stay. -/

namespace Leftover

def due (number : UInt32) (amount : Nat) : DueRequest :=
  ⟨⟨"bcrt1qqqqqqqqqqqqqqqqqqqqqqqqqqqqqqqqqdku202", amount, ⟨"server", number⟩⟩, Sample.script⟩

theorem script_due (number : UInt32) (amount : Nat) :
    (due number amount).request.script .regtest = .ok (due number amount).script :=
  Sample.script_paying rfl

def credits (amounts : List Nat) : List PoolCredit :=
  amounts.zipIdx.map fun (amount, no) =>
    ⟨⟨Vector.replicate 32 1, UInt32.ofNat no⟩, amount, some 1, Stranding.shared⟩

/-- Four credits, of which the first three pay for the first request and its fee. -/
def spent : Round :=
  opening [due 1 11000, due 2 500] (credits [4000, 4000, 4000, 100]) Sample.change

/-- Four credits, of which the first one pays for the first request and its fee. -/
def crowded : Round := opening [due 1 5000, due 2 500] (credits [6000, 1, 1, 1]) Sample.change

/-- The policy with a limit that four inputs and one payment reach. -/
def limited : StandardPolicy := ⟨1000, 1268⟩

end Leftover

/-- The credit that was taken for the second request brings a hundred and starts a kilobyte. It
stays when the request is removed, and the transaction does not pay its fee. -/
theorem leftover_lacks_fee :
    ∃ final, new .regtest ([Leftover.due 1 11000, Leftover.due 2 500].map (·.request))
        (Leftover.credits [4000, 4000, 4000, 100]) Sample.change = .ok Leftover.spent
      ∧ Leftover.spent.fulfil .secp256k1 StandardPolicy.standard.toPolicy = .ok final
      ∧ ∃ d ∈ final.finalized, d.fee < d.requiredFee StandardPolicy.standard.toPolicy := by
  have hprepared : Leftover.spent.prepared = Leftover.spent :=
    prepared_opening (by decide) (by decide +kernel)
  have hok : (Leftover.spent.fulfil .secp256k1 StandardPolicy.standard.toPolicy).toOption.any
      (fun final => final.finalized.any fun d =>
        d.fee < d.requiredFee StandardPolicy.standard.toPolicy) = true := by
    rw [fulfil_eq, hprepared]
    decide +kernel
  obtain ⟨final, hfinal, htest⟩ := fulfil_any hok
  obtain ⟨d, hd, hless⟩ := List.any_eq_true.mp htest
  exact ⟨final, new_opening (by decide) (by simp [Leftover.script_due]) (by decide), hfinal, d, hd,
    of_decide_eq_true hless⟩

/-- With the credits that were taken for the second request the first one is not funded, so none of
them is taken out with the request, and the transaction is too big. -/
theorem leftover_exceeds_limit :
    ∃ final, new .regtest ([Leftover.due 1 5000, Leftover.due 2 500].map (·.request))
        (Leftover.credits [6000, 1, 1, 1]) Sample.change = .ok Leftover.crowded
      ∧ Leftover.crowded.fulfil .secp256k1 Leftover.limited.toPolicy = .ok final
      ∧ ∃ d ∈ final.finalized, d.isTooBig Leftover.limited.toPolicy = true := by
  have hprepared : Leftover.crowded.prepared = Leftover.crowded :=
    prepared_opening (by decide) (by decide +kernel)
  have hok : (Leftover.crowded.fulfil .secp256k1 Leftover.limited.toPolicy).toOption.any
      (fun final => final.finalized.any fun d => d.isTooBig Leftover.limited.toPolicy) = true := by
    rw [fulfil_eq, hprepared]
    decide +kernel
  obtain ⟨final, hfinal, htest⟩ := fulfil_any hok
  obtain ⟨d, hd, hbig⟩ := List.any_eq_true.mp htest
  exact ⟨final, new_opening (by decide) (by simp [Leftover.script_due]) (by decide), hfinal, d, hd,
    hbig⟩

end Round

end NotaryPool
