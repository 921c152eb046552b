import NotaryPool.Proofs.Script.Redeem
import NotaryPool.Proofs.Script.Stages
import NotaryPool.Withdrawal.Signing

/-!
# Inputs with enough signatures are accepted

A signature script holds the first signatures of the entries for an input, as many as required. The
check gives each of them the first key that accepts it, and that need not be the key for which it
was made. All of them find a key nevertheless, since the entries stand in the order of the keys.

## Contents

* `RawSignature.Genuine`: a signature that all rules accept under a key.
* `Spend.satisfied_of_sublist`: signatures in the order of their keys are satisfied.
* `Spend.verify_ok`: **a script with enough signatures is accepted.**
* `Signing.Aligned`, `Signing.signInput_eq`: **signing an input fails only for lack of entries.**
-/

namespace NotaryPool

variable {K : KeyScheme} {message : Hash256}

/-! ## Signatures -/

/-- A signature that all rules accept under a key. -/
structure RawSignature.Genuine (K : KeyScheme) (message : Hash256) (key : PublicKey)
    (sig : RawSignature) : Prop where
  strict : RawSignature.isStrictDer sig = true
  signs : ∃ s, RawSignature.parse sig = .ok (s, Tx.sighashAll) ∧ s.isLow = true
    ∧ K.verify key message s = true

namespace RawSignature

variable {key : PublicKey} {sig : RawSignature}

theorem length_of_isStrictDer (h : isStrictDer sig = true) : 9 ≤ sig.length ∧ sig.length ≤ 73 := by
  unfold isStrictDer at h
  split at h
  · split at h
    · simp only [Bool.and_eq_true, decide_eq_true_eq] at h
      omega
    · cases h
  · cases h

theorem Genuine.ne_nil (h : Genuine K message key sig) : sig ≠ [] := by
  rintro rfl
  exact absurd (length_of_isStrictDer h.strict).1 (by simp)

theorem Genuine.verifies (h : Genuine K message key sig) : verifies K message sig key = true := by
  obtain ⟨s, hparse, -, hverify⟩ := h.signs
  unfold RawSignature.verifies
  rw [hparse]
  exact hverify

theorem Genuine.checkEncoding (h : Genuine K message key sig) :
    checkEncoding .standard sig = .ok () := by
  obtain ⟨s, hparse, hlow, -⟩ := h.signs
  have hsome : sig.isEmpty = false := by simpa using h.ne_nil
  unfold RawSignature.checkEncoding
  simp only [hsome, h.strict, hparse]
  show (do
    if !s.isLow then throw ScriptError.sigHighS
    if Tx.sighashAll ≠ Tx.sighashAll then throw ScriptError.sigHashType) = Except.ok ()
  rw [hlow]
  rfl

end RawSignature

/-! ## The check of an input -/

namespace Spend

/-- Signatures each of which is accepted by its own key, in the order of the keys, are satisfied,
whichever keys they take. -/
theorem satisfied_of_sublist {check : RawSignature → PublicKey → Bool} {sigs : List RawSignature}
    {own keys : List PublicKey} (hown : own.Sublist keys)
    (h : List.Forall₂ (fun key sig => check sig key = true) own sigs) :
    satisfied check sigs keys = true := by
  induction keys generalizing sigs own with
  | nil =>
      rw [List.sublist_nil.mp hown] at h
      cases h
      rfl
  | cons key rest ih =>
      cases h with
      | nil => rfl
      | @cons k sig own' sigs hfirst hothers =>
          unfold satisfied
          rcases List.sublist_cons_iff.mp hown with hlater | ⟨r, heq, hr⟩
          · -- the signature's own key is behind this one, which may accept it all the same
            by_cases hcheck : check sig key = true
            · rw [if_pos hcheck]
              exact ih ((List.sublist_cons_self k own').trans hlater) hothers
            · rw [if_neg hcheck]
              exact ih hlater (.cons hfirst hothers)
          · cases heq
            rw [if_pos hfirst]
            exact ih hr hothers

variable {tx : Tx} {index : Nat} {prevouts : List TxOut} {required : UInt8} {keys : List PublicKey}

/-- What a signature script leaves on the stack: the dummy element, signatures and the redeem
script. -/
def stackOf (sigs : List RawSignature) (redeem : Bytes) : List Bytes := [] :: (sigs ++ [redeem])

theorem dropLast_stackOf (sigs : List RawSignature) (redeem : Bytes) :
    (stackOf sigs redeem).dropLast = [] :: sigs := by
  unfold stackOf
  rw [List.dropLast_cons_of_ne_nil (by simp), List.dropLast_concat]

theorem getLast?_stackOf (sigs : List RawSignature) (redeem : Bytes) :
    (stackOf sigs redeem).getLast? = some redeem := by
  unfold stackOf
  simp [List.getLast?_cons, List.getLast?_append]

/-- **A script with enough signatures is accepted**, if each signature is genuine under a key of
its own and these keys are in the order of the redeem script. -/
theorem verify_ok {input : TxIn} {prevout : TxOut} {sigs : List RawSignature}
    {own : List PublicKey} (hproper : Multisig.Proper required keys)
    (hinput : tx.inputs[index]? = some input) (hcount : tx.inputs.length = prevouts.length)
    (hprevout : prevouts[index]? = some prevout)
    (hscript : prevout.script = ScriptHash.ofRedeem (Multisig.encode required keys))
    (hpushes : input.sigScript
      = (stackOf sigs (Multisig.encode required keys)).flatMap Push.encode)
    (henough : sigs.length = required.toNat) (hown : own.Sublist keys)
    (hsigs : List.Forall₂ (RawSignature.Genuine K
      (tx.sighash index (Multisig.encode required keys))) own sigs) :
    verify K tx index prevouts .standard = .ok () := by
  have hgenuine : ∀ sig ∈ sigs, ∃ key, RawSignature.Genuine K
      (tx.sighash index (Multisig.encode required keys)) key sig := by
    intro sig hsig
    obtain ⟨key, -, hkey⟩ := exists_of_forall₂ hsigs hsig
    exact ⟨key, hkey⟩
  -- what the script leaves is what was pushed
  have hread : Push.parse input.sigScript
      = .ok (stackOf sigs (Multisig.encode required keys)) := by
    rw [hpushes]
    apply Push.parse_flatMap_encode
    intro data hdata
    simp only [stackOf, List.mem_cons, List.mem_append, List.not_mem_nil, or_false] at hdata
    rcases hdata with rfl | hsig | rfl
    · decide
    · obtain ⟨key, hkey⟩ := hgenuine data hsig
      exact Nat.lt_of_le_of_lt (RawSignature.length_of_isStrictDer hkey.strict).2 (by decide)
    · rw [Multisig.length_encode]
      have hfew := hproper.few
      omega
  have hpassed : Stages.Passed K tx index prevouts .standard
      ⟨input, prevout, Ripemd160.keyHash (Multisig.encode required keys),
        stackOf sigs (Multisig.encode required keys), Multisig.encode required keys,
        ⟨required, keys⟩, [], sigs, tx.sighash index (Multisig.encode required keys)⟩ :=
    { input := hinput
      prevout := hprevout
      hash := ScriptHash.hash?_eq_some_iff.mpr hscript
      signed := by
        rw [hpushes]
        exact List.cons_ne_nil _ _
      pushes := hread
      redeem := getLast?_stackOf sigs _
      committed := fun _ => rfl
      multisig := Multisig.parse_encode hproper
      stack := splitStack_standard_iff.mpr ⟨dropLast_stackOf sigs _, henough⟩
      dummy := fun _ => rfl
      encoding := by
        intro sig hsig
        obtain ⟨key, hkey⟩ := hgenuine sig hsig
        exact hkey.checkEncoding
      message := message_eq_ok_iff.mpr ⟨hcount, rfl⟩
      satisfied := satisfied_of_sublist hown (hsigs.imp fun _ _ => RawSignature.Genuine.verifies) }
  exact verify_of_passed hpassed

end Spend

/-! ## Signature scripts do not change what is signed -/

namespace Tx

variable (tx : Tx) (index : Nat) (script : Bytes)

theorem stripped_withScript : (tx.withScript index script).stripped = tx.stripped := by
  unfold stripped withScript
  congr 1
  apply map_modify_eq
  intro input
  rfl

theorem sighash_withScript (no : Nat) (code : Bytes) :
    (tx.withScript index script).sighash no code = tx.sighash no code := by
  unfold sighash
  rw [stripped_withScript]

theorem length_inputs_withScript : (tx.withScript index script).inputs.length = tx.inputs.length :=
  List.length_modify ..

theorem inputs_withScript {input : TxIn} (h : tx.inputs[index]? = some input) :
    (tx.withScript index script).inputs[index]? = some { input with sigScript := script } := by
  unfold withScript
  rw [List.getElem?_modify_eq, h]
  rfl

end Tx

/-! ## Signing an input -/

namespace Signing

variable {keys : List PublicKey} {entries : InputSignatures}

/-- Entries that stand at the keys that they were made for: each is empty or genuine. -/
def Aligned (K : KeyScheme) (message : Hash256) : List PublicKey → InputSignatures → Prop :=
  List.Forall₂ fun key entry => entry = [] ∨ RawSignature.Genuine K message key entry

/-- The entries that are not empty have their keys, in the same order. -/
theorem Aligned.present (h : Aligned K message keys entries) :
    ∃ own, own.Sublist keys
      ∧ List.Forall₂ (RawSignature.Genuine K message) own (present entries) := by
  induction h with
  | nil => exact ⟨[], List.Sublist.refl [], .nil⟩
  | @cons key entry keys entries hfirst _ ih =>
      obtain ⟨own, hown, hgenuine⟩ := ih
      rcases hfirst with rfl | hentry
      · exact ⟨own, hown.cons key, hgenuine⟩
      · refine ⟨key :: own, hown.cons_cons key, ?_⟩
        have hpresent : Signing.present (entry :: entries) = entry :: Signing.present entries :=
          List.filter_cons_of_pos (by simpa using hentry.ne_nil)
        rw [hpresent]
        exact .cons hentry hgenuine

/-- There is a signature script just when there are enough entries. -/
theorem script_eq (entries : InputSignatures) (required : UInt8) (redeem : Bytes) :
    script entries required redeem
      = if (present entries).length < required.toNat then
          .error (.insufficientSignatures required (present entries).length)
        else
          .ok ((Spend.stackOf ((present entries).take required.toNat) redeem).flatMap
            Push.encode) :=
  rfl

variable {tx : Tx} {index : Nat} {prevouts : List TxOut} {a : PoolAddress}

/-- Signing an input gives what there is of a signature script when the check accepts it. -/
theorem signInput_of_stages {prevout : TxOut} {hash : Hash160} {redeem : Bytes}
    {multisig : Multisig} (hprevout : prevouts[index]? = some prevout)
    (hhash : ScriptHash.hash? prevout.script = some hash)
    (hredeem : Ripemd160.keyHash redeem = hash) (hindex : index < tx.inputs.length)
    (hparse : Multisig.parse redeem = .ok multisig)
    (hverify : ∀ bytes, script entries multisig.required redeem = .ok bytes →
      Spend.verify K (tx.withScript index bytes) index prevouts .standard = .ok ()) :
    signInput K tx index prevouts redeem entries
      = (script entries multisig.required redeem).map (tx.withScript index) := by
  have hparse' : (Multisig.parse redeem).mapError TxSigningError.script = .ok multisig := by
    rw [hparse]
    rfl
  unfold signInput
  simp only [hprevout, hhash, hparse', Except.ok_bind]
  rw [if_neg (not_not_intro hredeem), if_neg (Nat.not_le.mpr hindex)]
  cases hscript : script entries multisig.required redeem with
  | error e => rfl
  | ok bytes =>
      have hverify' : (Spend.verify K (tx.withScript index bytes) index prevouts
          .standard).mapError TxSigningError.script = .ok () := by
        rw [hverify bytes hscript]
        rfl
      simp only [Except.ok_bind, hverify']
      rfl

/-- **Signing an input fails only for lack of entries.** When an input spends an output at an
address whose threshold can be met, and the entries are aligned with the keys of the address, the
signature script is accepted if there is one. -/
theorem signInput_eq (hproper : Multisig.Proper a.required a.keys)
    (hcount : tx.inputs.length = prevouts.length)
    (hprevout : prevouts[index]?.map (·.script) = some a.script)
    (haligned : Aligned K (tx.sighash index a.redeem) a.keys entries) :
    signInput K tx index prevouts a.redeem entries
      = (script entries a.required a.redeem).map (tx.withScript index) := by
  obtain ⟨prevout, hspent, hscript⟩ := Option.map_eq_some_iff.mp hprevout
  have hindex : index < tx.inputs.length := by
    rw [hcount]
    exact (List.getElem?_eq_some_iff.mp hspent).1
  refine signInput_of_stages hspent (ScriptHash.hash?_eq_some_iff.mpr hscript) rfl hindex
    (Multisig.parse_encode hproper) ?_
  intro bytes hbytes
  rw [script_eq] at hbytes
  split at hbytes
  · cases hbytes
  · rename_i henough
    cases hbytes
    -- the first signatures have the first keys of those that signed
    obtain ⟨own, hown, hgenuine⟩ := haligned.present
    have hfirst : (own.take a.required.toNat).Sublist a.keys := (List.take_sublist _ own).trans hown
    refine Spend.verify_ok hproper
      (Tx.inputs_withScript tx index _ (List.getElem?_eq_getElem hindex))
      (by rw [Tx.length_inputs_withScript, hcount]) hspent hscript rfl ?_ hfirst ?_
    · exact List.length_take_of_le (Nat.not_lt.mp henough)
    · rw [Tx.sighash_withScript]
      exact List.forall₂_take _ hgenuine

end Signing

end NotaryPool
