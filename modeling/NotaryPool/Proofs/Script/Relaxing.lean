import NotaryPool.Proofs.Script.Acceptance
import NotaryPool.Proofs.Script.Encoding
import NotaryPool.Proofs.Signing.Laws

/-!
# The check of an input under fewer rules

The rules that can be switched stand at different places of the check, and some of them change what
the later places see: the signatures are those on top of the stack, and without the rule for a clean
stack there may be more below. Which parts of the script the check comes across does not depend on
the rules, though. A rule only asks for something of these parts, so a spend that passes under some
rules passes under any fewer.

## Contents

* `VerifyFlags.Within`: fewer rules. `VerifyFlags.bare`: none.
* `Spend.Stages.Meets`, `Spend.Stages.passed_iff`: **what each rule asks for.**
* `Spend.verify_relaxed`: **a spend that passes under some rules passes under fewer.**
-/

namespace NotaryPool

/-- Each rule of one choice is a rule of the other one. -/
structure VerifyFlags.Within (f g : VerifyFlags) : Prop where
  p2sh : f.p2sh = true → g.p2sh = true
  strictDer : f.strictDer = true → g.strictDer = true
  lowS : f.lowS = true → g.lowS = true
  nullDummy : f.nullDummy = true → g.nullDummy = true
  sigPushOnly : f.sigPushOnly = true → g.sigPushOnly = true
  cleanStack : f.cleanStack = true → g.cleanStack = true
  nullFail : f.nullFail = true → g.nullFail = true

/-- None of the rules that can be switched. -/
def VerifyFlags.bare : VerifyFlags := ⟨false, false, false, false, false, false, false⟩

namespace Spend

variable {K : KeyScheme} {tx : Tx} {index : Nat} {prevouts : List TxOut} {flags : VerifyFlags}
  {s : Stages}

/-- What the rules ask for of the parts that the check comes across. -/
structure Stages.Meets (flags : VerifyFlags) (s : Stages) : Prop where
  /-- The redeem script has the hash that the output pays to. -/
  p2sh : flags.p2sh = true → Ripemd160.keyHash s.redeem = s.hash
  /-- The signatures are in the strict form. -/
  strictDer : flags.strictDer = true → ∀ sig ∈ s.sigs, RawSignature.isStrictDer sig = true
  /-- The second numbers of the signatures are in the lower half. -/
  lowS : flags.lowS = true → ∀ sig ∈ s.sigs, ∀ value type,
    RawSignature.parse sig = .ok (value, type) → value.isLow = true
  /-- The element in front of the signatures is empty. -/
  nullDummy : flags.nullDummy = true → s.dummy = []
  /-- There is nothing below that element. -/
  cleanStack : flags.cleanStack = true → s.pushes = s.dummy :: (s.sigs ++ [s.redeem])

theorem Stages.Meets.within {f g : VerifyFlags} (h : s.Meets g) (hwithin : f.Within g) :
    s.Meets f where
  p2sh hflag := h.p2sh (hwithin.p2sh hflag)
  strictDer hflag := h.strictDer (hwithin.strictDer hflag)
  lowS hflag := h.lowS (hwithin.lowS hflag)
  nullDummy hflag := h.nullDummy (hwithin.nullDummy hflag)
  cleanStack hflag := h.cleanStack (hwithin.cleanStack hflag)

/-- Below the redeem script the stack ends with the dummy element and the signatures. -/
theorem pushes_eq_iff {below : List Bytes} (hredeem : s.pushes.getLast? = some s.redeem) :
    s.pushes.dropLast = below ++ s.dummy :: s.sigs
      ↔ s.pushes = below ++ s.dummy :: (s.sigs ++ [s.redeem]) := by
  have hpushes := List.dropLast_append_getLast? s.redeem hredeem
  constructor
  · intro h
    rw [← hpushes, h, List.append_assoc, List.cons_append]
  · intro h
    rw [h, ← List.cons_append, ← List.append_assoc, List.dropLast_concat]

/-- A signature that took a key is not missing. -/
theorem Stages.Passed.allowed (h : s.Passed K tx index prevouts flags) {sig : RawSignature}
    (hsig : sig ∈ s.sigs) : sig.Allowed flags := by
  obtain ⟨own, -, hall⟩ := sublist_of_satisfied h.satisfied
  obtain ⟨key, -, hkey⟩ := exists_of_forall₂ hall hsig
  exact (RawSignature.checkEncoding_eq_ok_iff.mp (h.encoding sig hsig)).resolve_left
    (RawSignature.ne_nil_of_verifies hkey)

theorem Stages.Passed.meets (h : s.Passed K tx index prevouts flags) : s.Meets flags where
  p2sh := h.committed
  strictDer hflag sig hsig := (h.allowed hsig).strict hflag
  lowS := by
    intro hflag sig hsig value type hparse
    obtain ⟨found, hfound, hlow⟩ := (h.allowed hsig).covers
    rw [hparse] at hfound
    cases hfound
    exact hlow hflag
  nullDummy := h.dummy
  cleanStack := by
    intro hflag
    obtain ⟨below, hbelow, -, hclean⟩ := splitStack_eq_ok_iff.mp h.stack
    rw [hclean hflag] at hbelow
    exact (pushes_eq_iff h.redeem).mp hbelow

/-- The parts that pass under some rules pass under any others that they meet. -/
theorem Stages.Passed.of_meets {g : VerifyFlags} (h : s.Passed K tx index prevouts g)
    (hmeets : s.Meets flags) : s.Passed K tx index prevouts flags where
  input := h.input
  prevout := h.prevout
  hash := h.hash
  signed := h.signed
  pushes := h.pushes
  redeem := h.redeem
  committed := hmeets.p2sh
  multisig := h.multisig
  stack := by
    obtain ⟨below, hbelow, hcount, -⟩ := splitStack_eq_ok_iff.mp h.stack
    refine splitStack_eq_ok_iff.mpr ⟨below, hbelow, hcount, ?_⟩
    intro hflag
    -- what the whole stack is leaves nothing below
    have hwhole : s.pushes.dropLast = [] ++ s.dummy :: s.sigs :=
      (pushes_eq_iff h.redeem).mpr (hmeets.cleanStack hflag)
    rw [hbelow] at hwhole
    exact List.append_left_eq_self.mp hwhole
  dummy := hmeets.nullDummy
  encoding := by
    intro sig hsig
    obtain ⟨value, hparse, -⟩ := (h.allowed hsig).covers
    exact RawSignature.checkEncoding_eq_ok_iff.mpr (Or.inr
      ⟨fun hflag => hmeets.strictDer hflag sig hsig, value, hparse,
        fun hflag => hmeets.lowS hflag sig hsig value _ hparse⟩)
  message := h.message
  satisfied := h.satisfied

/-- **Each rule asks for something of the parts** that are found without any rule, and for nothing
else. -/
theorem Stages.passed_iff :
    s.Passed K tx index prevouts flags
      ↔ s.Passed K tx index prevouts .bare ∧ s.Meets flags := by
  have hbare : s.Meets .bare := ⟨nofun, nofun, nofun, nofun, nofun⟩
  constructor
  · intro h
    exact ⟨h.of_meets hbare, h.meets⟩
  · rintro ⟨h, hmeets⟩
    exact h.of_meets hmeets

/-- **A spend that passes under some rules passes under fewer.** -/
theorem verify_relaxed {f g : VerifyFlags} (hwithin : f.Within g)
    (h : verify K tx index prevouts g = .ok ()) : verify K tx index prevouts f = .ok () := by
  obtain ⟨s, hpassed⟩ := verify_eq_ok_iff.mp h
  obtain ⟨hbare, hmeets⟩ := Stages.passed_iff.mp hpassed
  exact verify_eq_ok_iff.mpr ⟨s, Stages.passed_iff.mpr ⟨hbare, hmeets.within hwithin⟩⟩

/-! ### A signature script with more on the stack than it needs -/

namespace Deep

/-- The fifth multiple of the generator. -/
def key : PublicKey where
  x := ⟨0x2f8bde4d1a07209355b4a7250a5c5128e88b84bddc619ab7cba8d569b240efe4, by decide⟩
  odd := false
  onCurve := by decide +kernel

def secret : SecretKey := ⟨5, by decide⟩

noncomputable def scheme : KeyScheme := .keeping []

def redeem : Bytes := Multisig.encode 1 [key]

def unsigned : Tx := ⟨2, [⟨⟨Vector.replicate 32 1, 0⟩, [], 0⟩], [], 0⟩

def prevout : TxOut := ⟨1000, ScriptHash.ofRedeem redeem⟩

/-- The rules of relaying but for those of the dummy element and of what is below it. -/
def lenient : VerifyFlags := { VerifyFlags.standard with nullDummy := false, cleanStack := false }

/-- An element that nothing takes, one in place of the empty one, a signature and the redeem
script. -/
def stack (sig : RawSignature) : List Bytes := [[7], [1], sig, redeem]

theorem genuine (message : Hash256) : RawSignature.Genuine scheme message key
    (.ofSignature (KeyScheme.secp256k1.sign secret message)) where
  strict := RawSignature.isStrictDer_ofSignature _
  signs := by
    have hpublic : KeyScheme.secp256k1.publicKey? secret = some key := by decide +kernel
    exact ⟨_, RawSignature.parse_ofSignature _, Ecdsa.isLow_sign secret message,
      KeyScheme.verify_keeping hpublic message⟩

/-- Any such script is accepted under the lenient rules. -/
theorem verify_lenient {tx : Tx} {input : TxIn} {sig : RawSignature} (hinput : tx.inputs = [input])
    (hscript : input.sigScript = (stack sig).flatMap Push.encode)
    (hsig : RawSignature.Genuine scheme (tx.sighash 0 redeem) key sig) :
    verify scheme tx 0 [prevout] lenient = .ok () := by
  have hproper : Multisig.Proper 1 [key] := ⟨by decide, by decide, by decide⟩
  have hshort : ∀ data ∈ stack sig, data.length < 2 ^ 32 := by
    have hsize := (RawSignature.length_of_isStrictDer hsig.strict).2
    have hlong : redeem.length = 37 := Multisig.length_encode 1 [key]
    intro data hdata
    simp only [stack, List.mem_cons, List.not_mem_nil, or_false] at hdata
    rcases hdata with rfl | rfl | rfl | rfl
    · decide
    · decide
    · omega
    · omega
  have hpassed : Stages.Passed scheme tx 0 [prevout] lenient
      ⟨input, prevout, Ripemd160.keyHash redeem, stack sig, redeem, ⟨1, [key]⟩, [1], [sig],
        tx.sighash 0 redeem⟩ :=
    { input := by rw [hinput]; rfl
      prevout := rfl
      hash := ScriptHash.hash?_eq_some_iff.mpr rfl
      signed := by
        rw [hscript]
        exact List.cons_ne_nil _ _
      pushes := by
        rw [hscript]
        exact Push.parse_flatMap_encode hshort
      redeem := rfl
      committed := fun _ => rfl
      multisig := Multisig.parse_encode hproper
      stack := splitStack_eq_ok_iff.mpr ⟨[[7]], rfl, rfl, nofun⟩
      dummy := nofun
      encoding := by
        intro sig' hsig'
        rw [List.mem_singleton.mp hsig']
        obtain ⟨value, hparse, hlow, -⟩ := hsig.signs
        exact RawSignature.checkEncoding_eq_ok_iff.mpr
          (Or.inr ⟨fun _ => hsig.strict, value, hparse, fun _ => hlow⟩)
      message := message_eq_ok_iff.mpr ⟨by rw [hinput]; rfl, rfl⟩
      satisfied := satisfied_of_sublist (List.Sublist.refl [key]) (.cons hsig.verifies .nil) }
  exact verify_of_passed hpassed

end Deep

/-- A spend that only lenient nodes accept is accepted by those without any of the rules. -/
theorem verify_relaxed_deep :
    ∃ tx, verify Deep.scheme tx 0 [Deep.prevout] Deep.lenient = .ok ()
      ∧ VerifyFlags.bare.Within Deep.lenient
      ∧ verify Deep.scheme tx 0 [Deep.prevout] .bare = .ok () := by
  have hwithin : VerifyFlags.bare.Within Deep.lenient :=
    ⟨nofun, nofun, nofun, nofun, nofun, nofun, nofun⟩
  have hsig := Deep.genuine (Deep.unsigned.sighash 0 Deep.redeem)
  -- the signature script does not change what is signed
  rw [← Tx.sighash_withScript Deep.unsigned 0 ((Deep.stack (.ofSignature
    (KeyScheme.secp256k1.sign Deep.secret (Deep.unsigned.sighash 0 Deep.redeem)))).flatMap
    Push.encode)] at hsig
  have haccepted := Deep.verify_lenient rfl rfl hsig
  exact ⟨_, haccepted, hwithin, verify_relaxed hwithin haccepted⟩

end Spend

end NotaryPool
