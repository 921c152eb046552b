import NotaryPool.Proofs.Withdrawal.Draft
import NotaryPool.Withdrawal.Request

/-!
# The shape of a draft

A policy sees no more of a draft than its shape. A draft with fewer inputs or payments is in no
respect larger, and a policy that asks a larger transaction for no lower fee, and finds none small
that is larger than one too big, is monotone. Both policies of the pool are.

The change is not known while a draft is made. A second output with the script of the first payment
stands in for it, which is right unless the script of the change is longer.

## Contents

* `TxShape.Within`, `TxPolicy.Monotone`: the order of shapes, and policies that respect it.
* `Draft.shape_withInputs`, `Draft.shape_withoutLast`: drafts with fewer parts.
* `Draft.StandInFits`, `Draft.shape_within_beforeChange`: the change and what stands in for it.
* `Draft.shape_single`: an input outweighs the longest script of an address.
-/

namespace NotaryPool

/-! ## The order of shapes -/

/-- One transaction is in no respect larger than another. -/
structure TxShape.Within (a b : TxShape) : Prop where
  size : a.size ≤ b.size
  inputs : a.inputs ≤ b.inputs
  outputs : a.outputs ≤ b.outputs

/-- A larger transaction pays no lower fee, and is too big if a smaller one is. -/
structure TxPolicy.Monotone (P : TxPolicy) : Prop where
  fee : ∀ {a b : TxShape}, a.Within b → P.fee a ≤ P.fee b
  small : ∀ {a b : TxShape}, a.Within b → P.isTooBig b = false → P.isTooBig a = false

theorem StandardPolicy.monotone (p : StandardPolicy) : p.toPolicy.Monotone where
  fee h := Nat.mul_le_mul_left _ (Nat.add_le_add_left (Nat.div_le_div_right h.size) 1)
  small h hsmall := by
    have hlimit := of_decide_eq_false hsmall
    exact decide_eq_false fun hbig => hlimit (Nat.le_trans hbig h.size)

theorem LinearPolicy.monotone (p : LinearPolicy) : p.toPolicy.Monotone where
  fee h := Nat.add_le_add
    (Nat.add_le_add
      (Nat.add_le_add_left (Nat.mul_le_mul_left _ h.inputs) _)
      (Nat.mul_le_mul_left _ h.outputs))
    (Nat.mul_le_mul_left _ h.size)
  small := by
    intro a b h hsmall
    have hlimit : ∀ {limit : Option Nat} {m n : Nat}, m ≤ n → limit.any (· < n) = false →
        limit.any (· < m) = false := by
      intro limit m n hle hn
      cases limit with
      | none => rfl
      | some most =>
          have hmost := of_decide_eq_false hn
          exact decide_eq_false (by omega)
    simp only [LinearPolicy.toPolicy, Bool.or_eq_false_iff] at hsmall ⊢
    exact ⟨⟨hlimit h.size hsmall.1.1, hlimit h.inputs hsmall.1.2⟩, hlimit h.outputs hsmall.2⟩

/-! ## Sizes -/

theorem CompactSize.size_mono {m n : Nat} (h : m ≤ n) : size m ≤ size n := by
  unfold size
  repeat' split
  all_goals omega

theorem CompactSize.size_small {n : Nat} (h : n < 0xfd) : size n = 1 := if_pos h

/-- A transaction is as large as its lists of scripts are long and heavy. -/
theorem Tx.sizeWith_le {ins ins' outs outs' : List Nat} (hins : ins.length ≤ ins'.length)
    (hinSum : (ins.map TxIn.sizeWith).sum ≤ (ins'.map TxIn.sizeWith).sum)
    (houts : outs.length ≤ outs'.length)
    (houtSum : (outs.map TxOut.sizeWith).sum ≤ (outs'.map TxOut.sizeWith).sum) :
    sizeWith ins outs ≤ sizeWith ins' outs' := by
  have hin := CompactSize.size_mono hins
  have hout := CompactSize.size_mono houts
  unfold sizeWith
  omega

/-- A further input adds its own bytes, and those by which the count of the inputs gets longer. -/
theorem Tx.sizeWith_snoc_le (ins outs : List Nat) (scriptLength : Nat) :
    sizeWith (ins ++ [scriptLength]) outs
      ≤ sizeWith ins outs + (TxIn.sizeWith scriptLength + 4) := by
  have hcount : CompactSize.size (ins.length + 1) ≤ CompactSize.size ins.length + 4 := by
    unfold CompactSize.size
    repeat' split
    all_goals omega
  simp only [sizeWith, List.map_append, List.map_cons, List.map_nil, List.length_append,
    List.length_singleton, List.sum_append, List.sum_singleton]
  omega

/-! ## The scripts of addresses -/

/-- The scripts of addresses are neither very short nor very long. -/
def AddressScript (script : Bytes) : Prop := 22 ≤ script.length ∧ script.length ≤ 34

theorem Destination.addressScript (d : Destination) : AddressScript d.script := by
  cases d <;> simp [AddressScript, script]

theorem OutputRequest.addressScript {request : OutputRequest} {network : AddressNetwork}
    {script : Bytes} (h : request.script network = .ok script) : AddressScript script := by
  unfold OutputRequest.script at h
  split at h
  · cases h
  · rename_i address _
    split at h
    · cases h
    · cases h
      exact address.destination.addressScript

namespace Draft

variable {P : TxPolicy} {d : Draft}

/-! ## Fewer parts -/

theorem shape_withInputs {inputs : List PoolCredit} (h : inputs <+: d.inputs) :
    (d.withInputs inputs).shape.Within d.shape := by
  obtain ⟨more, hmore⟩ := h
  have hlength : inputs.length ≤ d.inputs.length := by
    rw [← hmore, List.length_append]
    omega
  refine ⟨Tx.sizeWith_le ?_ ?_ (Nat.le_refl _) (Nat.le_refl _), hlength, Nat.le_refl _⟩
  · rw [List.length_map, List.length_map]
    exact hlength
  · rw [← hmore]
    simp [withInputs]

theorem shape_withoutLast {ps : List Payment} {p : Payment} (hchange : d.change = none)
    (h : d.payments = ps ++ [p]) : (shape { d with payments := ps }).Within d.shape := by
  have houts : outputScriptLengths { d with payments := ps }
      = ps.map (·.script.length) ++ (ps.map (·.script.length)).head?.toList := by
    simp [outputScriptLengths, hchange]
  have houts' : d.outputScriptLengths
      = (ps ++ [p]).map (·.script.length)
        ++ ((ps ++ [p]).map (·.script.length)).head?.toList := by
    simp [outputScriptLengths, hchange, h]
  have hlength : (outputScriptLengths { d with payments := ps }).length
      ≤ d.outputScriptLengths.length := by
    rw [houts, houts']
    cases ps <;> simp
  refine ⟨Tx.sizeWith_le (Nat.le_refl _) (Nat.le_refl _) hlength ?_, Nat.le_refl _, hlength⟩
  rw [houts, houts']
  cases ps with
  | nil => exact Nat.zero_le _
  | cons first rest =>
      simp only [List.cons_append, List.map_cons, List.map_append, List.map_nil, List.head?_cons,
        Option.toList_some, List.sum_cons, List.sum_append, List.sum_nil]
      omega

/-- The shape is blind to the amounts. -/
theorem shape_setLast {ps : List Payment} {p q : Payment} (h : d.payments = ps ++ [p])
    (hscript : q.script = p.script) : shape { d with payments := ps ++ [q] } = d.shape := by
  have houts : outputScriptLengths { d with payments := ps ++ [q] } = d.outputScriptLengths := by
    simp [outputScriptLengths, h, hscript]
  unfold shape
  rw [houts]

/-! ## The change -/

/-- The draft as it was measured before its change was known. -/
def beforeChange (d : Draft) : Draft := { d with change := none }

/-- The script of the change is not longer than the one that has stood in for it. -/
def StandInFits (d : Draft) : Prop :=
  ∀ change p, d.change = some change → d.payments.head? = some p →
    change.script.length ≤ p.script.length

theorem shape_within_beforeChange (hpayments : d.payments ≠ []) (hfits : d.StandInFits) :
    d.shape.Within d.beforeChange.shape := by
  cases hchange : d.change with
  | none =>
      have hsame : d.beforeChange = d := by
        cases d
        cases hchange
        rfl
      rw [hsame]
      exact ⟨Nat.le_refl _, Nat.le_refl _, Nat.le_refl _⟩
  | some change =>
      obtain ⟨p, ps, hps⟩ := List.exists_cons_of_ne_nil hpayments
      have hle : change.script.length ≤ p.script.length := hfits change p hchange (by rw [hps]; rfl)
      have hsize : CompactSize.size change.script.length ≤ CompactSize.size p.script.length :=
        CompactSize.size_mono hle
      have houts : d.outputScriptLengths
          = d.payments.map (·.script.length) ++ [change.script.length] := by
        simp [outputScriptLengths, hchange]
      have houts' : d.beforeChange.outputScriptLengths
          = d.payments.map (·.script.length) ++ [p.script.length] := by
        simp [outputScriptLengths, beforeChange, hps]
      have hlength : d.outputScriptLengths.length = d.beforeChange.outputScriptLengths.length := by
        rw [houts, houts']
        simp
      refine ⟨Tx.sizeWith_le (Nat.le_refl _) (Nat.le_refl _) (Nat.le_of_eq hlength) ?_,
        Nat.le_refl _, Nat.le_of_eq hlength⟩
      rw [houts, houts']
      simp only [List.map_append, List.sum_append, List.map_singleton, List.sum_singleton,
        TxOut.sizeWith, sizedScriptSize]
      omega

/-! ## A single payment -/

/-- Without its last input, a draft with a single payment is smaller than with it, even when the
script of the payment gets longer. -/
theorem shape_single (inputs : List PoolCredit) (credit : PoolCredit) {p q : Payment}
    (hchange : d.change = none) (hp : AddressScript p.script) (hq : AddressScript q.script) :
    (shape { d with inputs, payments := [q] }).Within
      (shape { d with inputs := inputs ++ [credit], payments := [p] }) := by
  have hsize : ∀ {script : Bytes}, AddressScript script → CompactSize.size script.length = 1 :=
    fun h => CompactSize.size_small (by have := h.2; omega)
  have hlengths := And.intro hp hq
  unfold AddressScript at hlengths
  have hcount : CompactSize.size inputs.length ≤ CompactSize.size (inputs.length + 1) :=
    CompactSize.size_mono (Nat.le_succ _)
  refine ⟨?_, by simp [shape], by simp [shape, outputScriptLengths, hchange]⟩
  simp only [shape, outputScriptLengths, hchange, Tx.sizeWith, List.map_append, List.map_cons,
    List.map_nil, List.head?_cons, Option.toList_some, List.length_append, List.length_map,
    List.length_singleton, List.sum_append, List.sum_cons, List.sum_nil, TxOut.sizeWith,
    TxIn.sizeWith, sizedScriptSize, hsize hp, hsize hq]
  omega

end Draft

end NotaryPool
