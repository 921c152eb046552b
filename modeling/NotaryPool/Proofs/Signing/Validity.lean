import NotaryPool.Proofs.Signing.Threshold

/-!
# Signed transactions are valid

Each input is checked when its signature script is put in, while the inputs behind it are still
without theirs. The check stays good when they get them: what an input signs does not contain the
signature scripts of the others.

## Contents

* `Spend.verify_of_same`: **a check does not look at the signature scripts of other inputs.**
* `WithdrawalTx.SignedFrom`, `WithdrawalTx.signFrom_ok`: what signing keeps and what it makes.
* `WithdrawalTx.sign_valid`: **a transaction that is signed is valid in full.**
-/

namespace NotaryPool

variable {K : KeyScheme} {prevouts : List TxOut}

/-! ## Other inputs -/

namespace Tx

variable {tx tx' : Tx}

/-- Transactions that differ in signature scripts only have as many inputs. -/
theorem length_inputs_of_stripped (h : tx'.stripped = tx.stripped) :
    tx'.inputs.length = tx.inputs.length := by
  have hinputs := congrArg (fun t : Tx => t.inputs.length) h
  simpa [stripped] using hinputs

theorem sighash_of_stripped (h : tx'.stripped = tx.stripped) (index : Nat) (code : Bytes) :
    tx'.sighash index code = tx.sighash index code := by
  unfold sighash
  rw [h]

theorem inputs_withScript_of_ne (tx : Tx) (script : Bytes) {index no : Nat} (h : no ≠ index) :
    (tx.withScript index script).inputs[no]? = tx.inputs[no]? := by
  unfold withScript
  simp only [List.getElem?_modify, if_neg (Ne.symm h), Option.map_eq_map, Option.map_id']

end Tx

/-- **A check does not look at the signature scripts of other inputs.** -/
theorem Spend.verify_of_same {tx tx' : Tx} {index : Nat} {flags : VerifyFlags}
    (hstripped : tx'.stripped = tx.stripped) (hinput : tx'.inputs[index]? = tx.inputs[index]?)
    (h : verify K tx index prevouts flags = .ok ()) :
    verify K tx' index prevouts flags = .ok () := by
  obtain ⟨s, hpassed⟩ := verify_eq_ok_iff.mp h
  obtain ⟨hcount, hmessage⟩ := message_eq_ok_iff.mp hpassed.message
  rw [← Tx.sighash_of_stripped hstripped] at hmessage
  rw [← Tx.length_inputs_of_stripped hstripped] at hcount
  -- the other stages look at the input itself and at the output that it spends
  exact verify_of_passed
    { hpassed with
      input := hinput.trans hpassed.input
      message := message_eq_ok_iff.mpr ⟨hcount, hmessage⟩ }

/-- An input is signed by putting in a script, made from the entries, that is accepted. -/
theorem Signing.signInput_ok {tx signed : Tx} {index : Nat} {redeem : Bytes}
    {entries : InputSignatures}
    (h : signInput K tx index prevouts redeem entries = .ok signed) :
    ∃ multisig bytes, Multisig.parse redeem = .ok multisig
      ∧ script entries multisig.required redeem = .ok bytes
      ∧ signed = tx.withScript index bytes
      ∧ Spend.verify K signed index prevouts .standard = .ok () := by
  unfold signInput at h
  cases hprevout : prevouts[index]? with
  | none =>
      rw [hprevout] at h
      cases h
  | some prevout =>
  cases hhash : ScriptHash.hash? prevout.script with
  | none =>
      simp only [hprevout, hhash] at h
      cases h
  | some hash =>
  simp only [hprevout, hhash] at h
  obtain ⟨-, h⟩ := Except.of_guard h
  obtain ⟨-, h⟩ := Except.of_guard h
  obtain ⟨multisig, hparse, h⟩ := Except.bind_eq_ok_iff.mp h
  obtain ⟨bytes, hbytes, h⟩ := Except.bind_eq_ok_iff.mp h
  obtain ⟨⟨⟩, hverify, h⟩ := Except.bind_eq_ok_iff.mp h
  cases h
  exact ⟨multisig, bytes, Except.mapError_eq_ok_iff.mp hparse, hbytes, rfl,
    Except.mapError_eq_ok_iff.mp hverify⟩

/-! ## All inputs -/

namespace WithdrawalTx

/-- What signing `count` inputs from `no` on keeps of a transaction, and what it makes of it. -/
structure SignedFrom (K : KeyScheme) (prevouts : List TxOut) (no count : Nat) (tx signed : Tx) :
    Prop where
  stripped : signed.stripped = tx.stripped
  before : ∀ i < no, signed.inputs[i]? = tx.inputs[i]?
  valid : ∀ i, no ≤ i → i < no + count → Spend.verify K signed i prevouts .standard = .ok ()

/-- Signing goes on behind the first input with what signing that one gives. -/
theorem signFrom_cons {a : PoolAddress} {entries : InputSignatures}
    {rest : List (PoolAddress × InputSignatures)} {no : Nat} {tx signed : Tx} :
    signFrom K prevouts no ((a, entries) :: rest) tx = .ok signed
      ↔ ∃ next, Signing.signInput K tx no prevouts a.redeem entries = .ok next
        ∧ signFrom K prevouts (no + 1) rest next = .ok signed := by
  rw [signFrom]
  cases Signing.signInput K tx no prevouts a.redeem entries with
  | error e => simp
  | ok next => simp

theorem signFrom_ok {inputs : List (PoolAddress × InputSignatures)} {no : Nat} {tx signed : Tx}
    (h : signFrom K prevouts no inputs tx = .ok signed) :
    SignedFrom K prevouts no inputs.length tx signed := by
  induction inputs generalizing no tx with
  | nil =>
      cases h
      refine ⟨rfl, fun _ _ => rfl, ?_⟩
      intro i hfrom hto
      exact absurd hto (Nat.not_lt.mpr hfrom)
  | cons input rest ih =>
      obtain ⟨address, entries⟩ := input
      obtain ⟨next, hinput, hothers⟩ := signFrom_cons.mp h
      obtain ⟨-, script, -, -, rfl, hverify⟩ := Signing.signInput_ok hinput
      have hrest := ih hothers
      refine ⟨hrest.stripped.trans (Tx.stripped_withScript tx no script), ?_, ?_⟩
      · intro i hi
        rw [hrest.before i (Nat.lt_succ_of_lt hi)]
        exact Tx.inputs_withScript_of_ne tx script (Nat.ne_of_lt hi)
      · intro i hfrom hto
        by_cases hfirst : i = no
        · -- checked before the inputs behind it got their scripts
          rw [hfirst]
          exact Spend.verify_of_same hrest.stripped (hrest.before no (Nat.lt_succ_self no))
            hverify
        · have hto' : i < no + 1 + rest.length := by
            rw [List.length_cons] at hto
            omega
          exact hrest.valid i (by omega) hto'

/-- Signing starts from the transaction without signature scripts. -/
theorem stripped_toTx (d : Draft) : d.toTx.stripped = d.toTx := by
  unfold Tx.stripped Draft.toTx
  simp

/-- **A transaction that is signed is valid in full.** Whatever the entries are: the signed
transaction differs from the unsigned one in signature scripts only, it has the same identifier
without them, and each of its inputs is accepted by all rules in its final form. -/
theorem sign_valid {d : Draft} {sigs : TxSignatures} {signed : Tx}
    (h : (ofDraft d).sign K sigs = .ok signed) :
    signed.stripped = (ofDraft d).tx
      ∧ signed.ntxid = (ofDraft d).ntxid
      ∧ signed.inputs.length = d.inputs.length
      ∧ ∀ i < signed.inputs.length,
          Spend.verify K signed i (ofDraft d).prevouts .standard = .ok () := by
  unfold sign at h
  by_cases hcount : sigs.length = (ofDraft d).addresses.length
  · rw [if_neg (not_not_intro hcount)] at h
    have hsigned := signFrom_ok h
    have hstripped : signed.stripped = d.toTx := hsigned.stripped.trans (stripped_toTx d)
    have hlength : signed.inputs.length = d.inputs.length := by
      rw [Tx.length_inputs_of_stripped hsigned.stripped]
      exact List.length_map ..
    refine ⟨hstripped, congrArg Tx.txid hstripped, hlength, ?_⟩
    intro i hi
    apply hsigned.valid i (Nat.zero_le i)
    have hpairs : ((ofDraft d).addresses.zip sigs).length = d.inputs.length := by
      rw [List.length_zip, hcount, Nat.min_self]
      exact List.length_map ..
    rw [hpairs, Nat.zero_add, ← hlength]
    exact hi
  · rw [if_pos hcount] at h
    cases h

end WithdrawalTx

/-! ### A transaction signed with two keys -/

namespace Round.Shared

/-- A member that holds two of the three private keys. -/
def holder : SeriesBook := book (some first) (some other)

/-- A draft that spends the credit of the sample and another one at the same address. -/
def draft : Draft :=
  ⟨credits ++ [⟨⟨Vector.replicate 32 1, 1⟩, 500, some 1, address⟩],
    [⟨Sample.paying, 40000, Sample.script⟩], none, true, 1500⟩

theorem address_of_draft : ∀ c ∈ draft.inputs, c.address = address := by
  intro c hc
  rcases List.mem_pair.mp hc with rfl | rfl
  · rfl
  · rfl

theorem memberOf_holder : holder.MemberOf scheme (book none none) := by
  refine ⟨rfl, fun _ _ h => ?_⟩
  cases h
  exact wellFormed_series (by simp) (by simp)

theorem holder_holds : holder.Holds ⟨1⟩ (pub Sample.key) ∧ holder.Holds ⟨1⟩ (pub second) := by
  constructor
  · exact ⟨_, rfl, _, List.mem_cons_self, rfl, rfl⟩
  · exact ⟨_, rfl, _, List.mem_cons_of_mem _ List.mem_cons_self, rfl, rfl⟩

/-- The entries of the holder are enough. -/
theorem draft_signs :
    ∃ sigs signed, (WithdrawalTx.ofDraft draft).sign scheme sigs = .ok signed := by
  have hderives : ∀ c ∈ draft.inputs, ∃ s ordered, holder.Derives scheme c.address s ordered := by
    intro c hc
    rw [address_of_draft c hc]
    exact memberOf_holder.derives address_eq
  have hcount : draft.toTx.inputs.length = draft.inputs.length := rfl
  obtain ⟨sigs, -, hanswers, haligned⟩ := Signing.rawSignatures_ok
    (KeyScheme.lawful_keeping _) hcount hderives
  have hproper : ∀ c ∈ draft.inputs, Multisig.Proper c.address.required c.address.keys := by
    intro c hc
    obtain ⟨_, _, hc⟩ := hderives c hc
    exact hc.proper
  refine ⟨sigs, (WithdrawalTx.sign_exact hproper haligned).ok_iff.mpr ?_⟩
  -- each of the inputs has the entries of both keys
  rintro ⟨a, entries⟩ hp
  have hentries := List.forall₂_zip hanswers hp
  obtain ⟨c, hc, rfl⟩ := List.mem_map.mp (List.of_mem_zip hp).1
  rw [address_of_draft c hc] at hentries ⊢
  exact enough_of_answers (memberOf_holder.bare_eq ▸ hentries.bare) holder_holds.1 holder_holds.2

end Round.Shared

open Round in
theorem WithdrawalTx.shared_sign_valid :
    ∃ sigs signed, (ofDraft Shared.draft).sign Shared.scheme sigs = .ok signed
      ∧ signed.stripped = (ofDraft Shared.draft).tx
      ∧ signed.ntxid = (ofDraft Shared.draft).ntxid
      ∧ signed.inputs.length = 2
      ∧ Spend.verify Shared.scheme signed 0 (ofDraft Shared.draft).prevouts .standard = .ok ()
      ∧ Spend.verify Shared.scheme signed 1 (ofDraft Shared.draft).prevouts .standard
          = .ok () := by
  obtain ⟨sigs, signed, hsigned⟩ := Shared.draft_signs
  obtain ⟨hstripped, hntxid, hlength, hvalid⟩ := sign_valid hsigned
  have htwo : signed.inputs.length = 2 := hlength
  exact ⟨sigs, signed, hsigned, hstripped, hntxid, htwo, hvalid 0 (by omega),
    hvalid 1 (by omega)⟩

end NotaryPool
