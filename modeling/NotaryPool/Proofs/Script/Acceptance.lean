import NotaryPool.Proofs.Script.Grammar
import NotaryPool.Proofs.Script.Spending

/-!
# What the check of an input accepts

The check gives each signature the first key that accepts it among the keys behind those already
taken. Whether all signatures find a key in this way does not depend on this choice: a signature
that takes a key before its own one leaves more keys for the others. So the check accepts just the
signatures to which keys can be assigned at all in the order of the redeem script.

## Contents

* `Spend.Assignable`, `Spend.satisfied_iff`: **keys are found just when they can be assigned.**
* `RawSignature.Standard`, `RawSignature.Allowed`: the form of a signature under the rules of
  relaying and under any choice of them, with `RawSignature.checkEncoding_eq_ok_iff`.
* `Spend.Valid`: a valid spend of a multisignature output, without reference to the check.
* `Spend.verify_standard_iff`: **the check accepts exactly the valid spends.**
-/

namespace NotaryPool

variable {K : KeyScheme}

/-! ## The form of a signature -/

/-- A signature of the form that nodes relay: not missing, strictly encoded, with the second number
in the lower half, and made for all inputs and outputs. -/
structure RawSignature.Standard (sig : RawSignature) : Prop where
  ne_nil : sig ≠ []
  strict : RawSignature.isStrictDer sig = true
  covers : ∃ s, RawSignature.parse sig = .ok (s, Tx.sighashAll) ∧ s.isLow = true

namespace RawSignature

/-- A signature of the form that a choice of the rules asks for: made for all inputs and outputs,
and strictly encoded and with the second number in the lower half if there are rules for that. -/
structure Allowed (flags : VerifyFlags) (sig : RawSignature) : Prop where
  strict : flags.strictDer = true → isStrictDer sig = true
  covers : ∃ s, parse sig = .ok (s, Tx.sighashAll) ∧ (flags.lowS = true → s.isLow = true)

/-- A missing signature passes the check of the form. -/
theorem checkEncoding_eq_ok_iff {flags : VerifyFlags} {sig : RawSignature} :
    checkEncoding flags sig = .ok () ↔ sig = [] ∨ sig.Allowed flags := by
  constructor
  · intro h
    by_cases hmissing : sig = []
    · exact Or.inl hmissing
    · right
      unfold checkEncoding at h
      rw [if_neg (by simpa using hmissing)] at h
      obtain ⟨hstrict, h⟩ := Except.of_guard h
      obtain ⟨⟨s, type⟩, hparse, h⟩ := Except.bind_eq_ok_iff.mp h
      obtain ⟨hlow, h⟩ := Except.of_guard h
      have htype : type = Tx.sighashAll := by
        by_contra hother
        rw [if_pos hother] at h
        cases h
      subst htype
      refine ⟨?_, s, hparse, ?_⟩
      · intro hflag
        simpa [hflag] using hstrict
      · intro hflag
        simpa [hflag] using hlow
  · rintro (rfl | h)
    · rfl
    · obtain ⟨s, hparse, hlow⟩ := h.covers
      have hsome : sig.isEmpty = false := by
        rw [List.isEmpty_eq_false_iff]
        rintro rfl
        cases hparse
      have hstrict : (flags.strictDer && !isStrictDer sig) = false := by
        cases hflag : flags.strictDer with
        | false => rfl
        | true => simp [h.strict hflag]
      have hlower : (flags.lowS && !s.isLow) = false := by
        cases hflag : flags.lowS with
        | false => rfl
        | true => simp [hlow hflag]
      unfold checkEncoding
      simp only [hsome, hstrict, hparse, Except.ok_bind, hlower]
      rfl

theorem checkEncoding_standard_iff {sig : RawSignature} :
    checkEncoding .standard sig = .ok () ↔ sig = [] ∨ sig.Standard := by
  rw [checkEncoding_eq_ok_iff]
  constructor
  · rintro (hmissing | h)
    · exact Or.inl hmissing
    · by_cases hmissing : sig = []
      · exact Or.inl hmissing
      · obtain ⟨s, hparse, hlow⟩ := h.covers
        exact Or.inr ⟨hmissing, h.strict rfl, s, hparse, hlow rfl⟩
  · rintro (hmissing | h)
    · exact Or.inl hmissing
    · obtain ⟨s, hparse, hlow⟩ := h.covers
      exact Or.inr ⟨fun _ => h.strict, s, hparse, fun _ => hlow⟩

/-- A missing signature is one of no message. -/
theorem ne_nil_of_verifies {message : Hash256} {sig : RawSignature} {key : PublicKey}
    (h : verifies K message sig key = true) : sig ≠ [] := by
  rintro rfl
  cases h

end RawSignature

namespace Spend

/-! ## Keys for signatures -/

/-- Signatures to which keys can be assigned: each is accepted by the key at a position of its own,
and the positions are in the order of the signatures. -/
def Assignable (check : RawSignature → PublicKey → Bool) (sigs : List RawSignature)
    (keys : List PublicKey) : Prop :=
  ∃ positions : List (Fin keys.length), positions.Pairwise (· < ·)
    ∧ List.Forall₂ (fun sig position => check sig keys[position] = true) sigs positions

variable {check : RawSignature → PublicKey → Bool} {sigs : List RawSignature}
  {keys : List PublicKey}

/-- Signatures that are satisfied took keys of the list, in its order. -/
theorem sublist_of_satisfied (h : satisfied check sigs keys = true) :
    ∃ own, own.Sublist keys
      ∧ List.Forall₂ (fun key sig => check sig key = true) own sigs := by
  induction keys generalizing sigs with
  | nil =>
      cases sigs with
      | nil => exact ⟨[], List.Sublist.refl [], .nil⟩
      | cons sig sigs => cases h
  | cons key rest ih =>
      cases sigs with
      | nil => exact ⟨[], List.nil_sublist _, .nil⟩
      | cons sig sigs =>
          unfold satisfied at h
          -- the first signature takes the key, or passes it over
          by_cases hcheck : check sig key = true
          · rw [if_pos hcheck] at h
            obtain ⟨own, hown, hothers⟩ := ih h
            exact ⟨key :: own, hown.cons_cons key, .cons hcheck hothers⟩
          · rw [if_neg hcheck] at h
            obtain ⟨own, hown, hall⟩ := ih h
            exact ⟨own, hown.cons key, hall⟩

/-- **Keys are found just when they can be assigned.** -/
theorem satisfied_iff : satisfied check sigs keys = true ↔ Assignable check sigs keys := by
  constructor
  · intro h
    obtain ⟨own, hown, hall⟩ := sublist_of_satisfied h
    obtain ⟨positions, rfl, hordered⟩ := List.sublist_eq_map_getElem hown
    exact ⟨positions, hordered, (List.forall₂_map_left_iff.mp hall).flip⟩
  · rintro ⟨positions, hordered, hall⟩
    apply satisfied_of_sublist (List.map_getElem_sublist hordered)
    rw [List.forall₂_map_left_iff]
    exact hall.flip

/-! ## Valid spends -/

variable {tx : Tx} {index : Nat} {prevouts : List TxOut}

/-- A valid spend of an output that pays to the hash of a multisignature script: the signature
script pushes an empty element, signatures of the standard form as many as required, and the script
with that hash. Keys of that script can be assigned to the signatures. -/
structure Valid (K : KeyScheme) (tx : Tx) (index : Nat) (prevouts : List TxOut) (input : TxIn)
    (hash : Hash160) (sigs : List RawSignature) (redeem : Bytes) (multisig : Multisig) : Prop where
  count : prevouts.length = tx.inputs.length
  spends : tx.inputs[index]? = some input
  prevout : prevouts[index]?.map (·.script) = some (ScriptHash.script hash)
  pushes : Push.Pushes input.sigScript ([] :: (sigs ++ [redeem]))
  committed : Ripemd160.keyHash redeem = hash
  script : Multisig.parse redeem = .ok multisig
  required : sigs.length = multisig.required.toNat
  standard : ∀ sig ∈ sigs, RawSignature.Standard sig
  assignable : Assignable (RawSignature.verifies K (tx.sighash index redeem)) sigs multisig.keys

/-- A signature script that pushes anything is not empty. -/
theorem ne_nil_of_pushes {script : Bytes} {data : Bytes} {stack : List Bytes}
    (h : Push.Pushes script (data :: stack)) : script ≠ [] := by
  cases h with
  | cons hfirst _ =>
      obtain ⟨op, body, rfl⟩ := hfirst.eq_cons
      exact List.cons_ne_nil _ _

variable {input : TxIn} {hash : Hash160} {redeem : Bytes} {multisig : Multisig}

theorem verify_of_valid (h : Valid K tx index prevouts input hash sigs redeem multisig) :
    verify K tx index prevouts .standard = .ok () := by
  obtain ⟨prevout, hprevout, hscript⟩ := Option.map_eq_some_iff.mp h.prevout
  have hpassed : Stages.Passed K tx index prevouts .standard
      ⟨input, prevout, hash, stackOf sigs redeem, redeem, multisig, [], sigs,
        tx.sighash index redeem⟩ :=
    { input := h.spends
      prevout := hprevout
      hash := ScriptHash.hash?_eq_some_iff.mpr hscript
      signed := ne_nil_of_pushes h.pushes
      pushes := Push.parse_eq_ok_iff.mpr h.pushes
      redeem := getLast?_stackOf sigs redeem
      committed := fun _ => h.committed
      multisig := h.script
      stack := splitStack_standard_iff.mpr ⟨dropLast_stackOf sigs redeem, h.required⟩
      dummy := fun _ => rfl
      encoding := by
        intro sig hsig
        exact RawSignature.checkEncoding_standard_iff.mpr (Or.inr (h.standard sig hsig))
      message := message_eq_ok_iff.mpr ⟨h.count.symm, rfl⟩
      satisfied := satisfied_iff.mpr h.assignable }
  exact verify_of_passed hpassed

theorem valid_of_passed {s : Stages} (h : s.Passed K tx index prevouts .standard) :
    Valid K tx index prevouts s.input s.hash s.sigs s.redeem s.multisig := by
  obtain ⟨hcount, hmessage⟩ := message_eq_ok_iff.mp h.message
  obtain ⟨hbelow, hrequired⟩ := splitStack_standard_iff.mp h.stack
  have hsatisfied := h.satisfied
  rw [← hmessage] at hsatisfied
  have hassignable := satisfied_iff.mp hsatisfied
  refine
    { count := hcount.symm
      spends := h.input
      prevout := by
        rw [h.prevout]
        exact congrArg some (ScriptHash.hash?_eq_some_iff.mp h.hash)
      pushes := ?_
      committed := h.committed rfl
      script := h.multisig
      required := hrequired
      standard := ?_
      assignable := hassignable }
  · -- the stack is what is below the last element, and that one
    have hstack : s.pushes = [] :: (s.sigs ++ [s.redeem]) := by
      rw [← List.dropLast_append_getLast? s.redeem h.redeem, hbelow, h.dummy rfl]
      rfl
    rw [← hstack]
    exact Push.parse_eq_ok_iff.mp h.pushes
  · -- a missing signature has the form of one, but takes no key
    intro sig hsig
    have hform := RawSignature.checkEncoding_standard_iff.mp (h.encoding sig hsig)
    rcases hform with hmissing | hstandard
    · obtain ⟨own, -, hall⟩ := sublist_of_satisfied hsatisfied
      obtain ⟨key, -, hkey⟩ := exists_of_forall₂ hall hsig
      exact absurd hmissing (RawSignature.ne_nil_of_verifies hkey)
    · exact hstandard

/-- **The check accepts exactly the valid spends.** -/
theorem verify_standard_iff (K : KeyScheme) (tx : Tx) (index : Nat) (prevouts : List TxOut) :
    verify K tx index prevouts .standard = .ok ()
      ↔ ∃ input hash sigs redeem multisig,
          Valid K tx index prevouts input hash sigs redeem multisig := by
  constructor
  · intro h
    obtain ⟨s, hpassed⟩ := verify_eq_ok_iff.mp h
    exact ⟨s.input, s.hash, s.sigs, s.redeem, s.multisig, valid_of_passed hpassed⟩
  · rintro ⟨input, hash, sigs, redeem, multisig, hvalid⟩
    exact verify_of_valid hvalid

end Spend

end NotaryPool
