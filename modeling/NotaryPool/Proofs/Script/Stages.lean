import NotaryPool.Proofs.Traversal
import NotaryPool.Script.Spend

/-!
# The check of an input, stage by stage

The check of an input reads its script, takes the parts of it one after the other, and ends at the
first part that is refused. It goes well just when there are parts that pass all stages, under any
choice of the rules.

## Contents

* `Spend.Stages`: what the check comes across.
* `Spend.Stages.Passed`: no stage objects.
* `Spend.verify_eq_ok_iff`: **the check goes well just when all stages are passed.**
-/

namespace NotaryPool.Spend

/-- What the check of an input comes across. -/
structure Stages where
  input : TxIn
  prevout : TxOut
  hash : Hash160
  pushes : List Bytes
  redeem : Bytes
  multisig : Multisig
  dummy : Bytes
  sigs : List RawSignature
  message : Hash256

variable {K : KeyScheme} {tx : Tx} {index : Nat} {prevouts : List TxOut} {flags : VerifyFlags}

/-- No stage of the check objects to what it comes across. -/
structure Stages.Passed (K : KeyScheme) (tx : Tx) (index : Nat) (prevouts : List TxOut)
    (flags : VerifyFlags) (s : Stages) : Prop where
  input : tx.inputs[index]? = some s.input
  prevout : prevouts[index]? = some s.prevout
  hash : ScriptHash.hash? s.prevout.script = some s.hash
  signed : s.input.sigScript ≠ []
  pushes : Push.parse s.input.sigScript = .ok s.pushes
  redeem : s.pushes.getLast? = some s.redeem
  committed : flags.p2sh = true → Ripemd160.keyHash s.redeem = s.hash
  multisig : Multisig.parse s.redeem = .ok s.multisig
  stack : splitStack flags s.multisig.required.toNat s.pushes.dropLast = .ok (s.dummy, s.sigs)
  dummy : flags.nullDummy = true → s.dummy = []
  encoding : ∀ sig ∈ s.sigs, RawSignature.checkEncoding flags sig = .ok ()
  message : Spend.message tx index prevouts s.redeem = .ok s.message
  satisfied : satisfied (RawSignature.verifies K s.message) s.sigs s.multisig.keys = true

theorem message_eq_ok_iff {redeem : Bytes} {message : Hash256} :
    Spend.message tx index prevouts redeem = .ok message
      ↔ tx.inputs.length = prevouts.length ∧ tx.sighash index redeem = message := by
  unfold Spend.message
  by_cases hcount : tx.inputs.length = prevouts.length
  · rw [if_neg (not_not_intro hcount), Except.ok.injEq]
    exact (and_iff_right hcount).symm
  · rw [if_pos hcount]
    simp [hcount]

/-- The dummy element and the signatures are on top of the stack, and under the rule for it they are
all of the stack. -/
theorem splitStack_eq_ok_iff {required : Nat} {stack : List Bytes} {dummy : Bytes}
    {sigs : List RawSignature} :
    splitStack flags required stack = .ok (dummy, sigs)
      ↔ ∃ below, stack = below ++ dummy :: sigs ∧ sigs.length = required
          ∧ (flags.cleanStack = true → below = []) := by
  unfold splitStack
  dsimp only
  constructor
  · intro h
    split at h
    · cases h
    · rename_i hsize
      rw [not_or, Nat.not_lt, not_and, not_not] at hsize
      obtain ⟨henough, hclean⟩ := hsize
      cases htop : stack.drop (stack.length - (required + 1)) with
      | nil =>
          rw [htop] at h
          cases h
      | cons first rest =>
          rw [htop] at h
          cases h
          have hcount := congrArg List.length htop
          rw [List.length_drop, List.length_cons] at hcount
          refine ⟨stack.take (stack.length - (required + 1)), ?_, by omega, ?_⟩
          · rw [← htop, List.take_append_drop]
          · intro hflag
            rw [hclean hflag, Nat.sub_self, List.take_zero]
  · rintro ⟨below, rfl, rfl, hclean⟩
    have hlength : (below ++ dummy :: sigs).length = below.length + (sigs.length + 1) := by
      rw [List.length_append, List.length_cons]
    have hfits : ¬ (below.length + (sigs.length + 1) < sigs.length + 1
        ∨ (flags.cleanStack = true ∧ below.length + (sigs.length + 1) ≠ sigs.length + 1)) := by
      rintro (hfew | ⟨hflag, hmore⟩)
      · omega
      · rw [hclean hflag] at hmore
        exact hmore (Nat.zero_add _)
    rw [hlength, if_neg hfits, Nat.add_sub_cancel, List.drop_left]

/-- Under the rules of relaying the stack is the dummy element and the signatures. -/
theorem splitStack_standard_iff {required : Nat} {stack : List Bytes} {dummy : Bytes}
    {sigs : List RawSignature} :
    splitStack .standard required stack = .ok (dummy, sigs)
      ↔ stack = dummy :: sigs ∧ sigs.length = required := by
  rw [splitStack_eq_ok_iff]
  constructor
  · rintro ⟨below, rfl, hcount, hclean⟩
    rw [hclean rfl]
    exact ⟨rfl, hcount⟩
  · rintro ⟨rfl, hcount⟩
    exact ⟨[], rfl, hcount, fun _ => rfl⟩

theorem verify_of_passed {s : Stages} (h : s.Passed K tx index prevouts flags) :
    verify K tx index prevouts flags = .ok () := by
  -- the tests of the guards, as the check computes them
  have hsigned : s.input.sigScript.isEmpty = false := List.isEmpty_eq_false_iff.mpr h.signed
  have hcommitted : (flags.p2sh && Ripemd160.keyHash s.redeem != s.hash) = false := by
    cases hflag : flags.p2sh with
    | false => rfl
    | true => simp [h.committed hflag]
  have hdummy : (flags.nullDummy && !s.dummy.isEmpty) = false := by
    cases hflag : flags.nullDummy with
    | false => rfl
    | true => simp [h.dummy hflag]
  unfold verify
  simp only [h.input, h.prevout, h.hash, hsigned, h.pushes, h.redeem, hcommitted, h.multisig,
    h.stack, hdummy, forM_eq_ok_iff.mpr h.encoding, h.message, h.satisfied, Except.ok_bind,
    Bool.false_eq_true, if_false, if_true]
  rfl

/-- The stages are taken off the check from the first one on. -/
theorem passed_of_verify (h : verify K tx index prevouts flags = .ok ()) :
    ∃ s : Stages, s.Passed K tx index prevouts flags := by
  unfold verify at h
  cases hinput : tx.inputs[index]? with
  | none =>
      rw [hinput] at h
      cases h
  | some input =>
  cases hprevout : prevouts[index]? with
  | none =>
      rw [hinput, hprevout] at h
      cases h
  | some prevout =>
  cases hhash : ScriptHash.hash? prevout.script with
  | none =>
      simp only [hinput, hprevout, hhash] at h
      cases h
  | some hash =>
  simp only [hinput, hprevout, hhash] at h
  obtain ⟨hsigned, h⟩ := Except.of_guard h
  obtain ⟨pushes, hpushes, h⟩ := Except.bind_eq_ok_iff.mp h
  cases hredeem : pushes.getLast? with
  | none =>
      rw [hredeem] at h
      cases h
  | some redeem =>
  simp only [hredeem] at h
  obtain ⟨hcommitted, h⟩ := Except.of_guard h
  obtain ⟨multisig, hmultisig, h⟩ := Except.bind_eq_ok_iff.mp h
  obtain ⟨⟨dummy, sigs⟩, hstack, h⟩ := Except.bind_eq_ok_iff.mp h
  obtain ⟨hdummy, h⟩ := Except.of_guard h
  obtain ⟨⟨⟩, hencoding, h⟩ := Except.bind_eq_ok_iff.mp h
  obtain ⟨message, hmessage, h⟩ := Except.bind_eq_ok_iff.mp h
  -- behind the last stage there are errors only
  have hsatisfied : satisfied (RawSignature.verifies K message) sigs multisig.keys = true := by
    by_contra hrefused
    rw [if_neg hrefused] at h
    obtain ⟨-, hthrow⟩ := Except.of_guard h
    cases hthrow
  exact ⟨⟨input, prevout, hash, pushes, redeem, multisig, dummy, sigs, message⟩,
    { input := hinput, prevout := hprevout, hash := hhash
      signed := by simpa using hsigned
      pushes := hpushes
      redeem := hredeem
      committed := by
        intro hflag
        simpa [hflag] using hcommitted
      multisig := hmultisig
      stack := hstack
      dummy := by
        intro hflag
        simpa [hflag] using hdummy
      encoding := forM_eq_ok_iff.mp hencoding
      message := hmessage
      satisfied := hsatisfied }⟩

/-- **The check goes well just when all stages are passed.** -/
theorem verify_eq_ok_iff :
    verify K tx index prevouts flags = .ok ()
      ↔ ∃ s : Stages, s.Passed K tx index prevouts flags := by
  constructor
  · exact passed_of_verify
  · rintro ⟨s, hpassed⟩
    exact verify_of_passed hpassed

end NotaryPool.Spend
