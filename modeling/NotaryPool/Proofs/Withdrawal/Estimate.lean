import Mathlib.Algebra.Order.BigOperators.Group.List
import NotaryPool.Proofs.Script.Acceptance
import NotaryPool.Proofs.Signing.Validity
import NotaryPool.Proofs.Withdrawal.Shape

/-!
# The estimate of the size is an upper bound

A policy sees the shape of a draft before anybody has signed it. The shape takes each signature
script to be as long as one can be: a signature of the strict form has at most 73 bytes, and the
header of the redeem script is no longer than a byte and a count. The entries may be any bytes
whatever, but the check of an input reads them back from the script and accepts none that is longer.

## Contents

* `Push.length_encode_le`, `Push.Pushes.length_le`: the lengths of pushes, as they are written and
  as they are read, and `Push.parse_of_short`.
* `Signing.length_script_le`, `Signing.signInput_length_le`: the script of an input.
* `WithdrawalTx.signFrom_lengths`, `Draft.outputs_prefix`: the scripts of all inputs and outputs.
* **`WithdrawalTx.sign_within_shape`**: a signed transaction is within the shape of its draft.
-/

namespace NotaryPool

variable {K : KeyScheme}

/-! ## The lengths of pushes -/

namespace Push

variable {operation script : Bytes} {stack : List Bytes}

theorem length_le_encode (data : Bytes) : data.length ≤ (encode data).length := by
  unfold encode
  repeat' split
  all_goals
    simp only [List.length_cons, List.length_append]
    omega

/-- The header of a push is not longer than a byte and the count of what is pushed. -/
theorem length_encode_le (data : Bytes) :
    (encode data).length ≤ data.length + 1 + CompactSize.size data.length := by
  unfold encode CompactSize.size directLimit
  repeat' split
  all_goals
    simp only [List.length_cons, List.length_append, Bytes.length_ofNatLE]
    omega

theorem length_encode_of_few {data : Bytes} (h : data.length ≤ directLimit) :
    (encode data).length = data.length + 1 := by
  unfold encode
  rw [if_pos h, List.length_cons]

theorem Operation.length_le {data : Bytes} (h : Operation operation data) :
    operation.length ≤ data.length + 5 := by
  cases h with
  | direct _ => exact Nat.add_le_add_left (by decide) _
  | @sized op width size _ hop hwidth _ =>
      have hwide : width ≤ 4 := by
        simp only [sizedOperations, List.mem_cons, List.not_mem_nil, or_false, Prod.mk.injEq] at hop
        omega
      rw [List.length_cons, List.length_append]
      omega
  | negative => decide
  | small _ _ => exact (by decide : 1 ≤ 1 + 5)

theorem Pushes.length_le (h : Pushes script stack) :
    script.length ≤ (stack.map fun data => data.length + 5).sum := by
  induction h with
  | nil => exact Nat.le_refl 0
  | cons hfirst _ ih =>
      have hoperation := hfirst.length_le
      rw [List.length_append, List.map_cons, List.sum_cons]
      omega

/-- Pushes read back if all of them together are short, since then each of them is. -/
theorem parse_of_short (hshort : (stack.flatMap encode).length < 2 ^ 16) :
    parse (stack.flatMap encode) = .ok stack := by
  apply parse_flatMap_encode
  intro data hdata
  have hpart : (encode data).length ≤ (stack.flatMap encode).length :=
    (List.sublist_flatten_of_mem (List.mem_map_of_mem hdata)).length_le
  exact ((length_le_encode data).trans_lt (hpart.trans_lt hshort)).trans (by decide)

/-- Signatures that are not too long take as much as is estimated for as many. -/
theorem length_signatures_le {sigs : List RawSignature} (h : ∀ sig ∈ sigs, sig.length ≤ 73) :
    (sigs.flatMap encode).length ≤ Draft.maxSignaturePush * sigs.length := by
  induction sigs with
  | nil => exact Nat.le_refl 0
  | cons sig rest ih =>
      obtain ⟨hsig, hrest⟩ := List.forall_mem_cons.mp h
      have hfirst : (encode sig).length ≤ Draft.maxSignaturePush := by
        rw [length_encode_of_few (Nat.le_trans hsig (by decide))]
        exact Nat.succ_le_succ hsig
      have hothers := ih hrest
      rw [List.flatMap_cons, List.length_append, List.length_cons, Nat.mul_succ]
      omega

end Push

/-! ## The script of an input -/

/-- The script of an input that is accepted is far shorter than what a push can hold. -/
theorem Spend.Valid.length_lt {tx : Tx} {index : Nat} {prevouts : List TxOut} {input : TxIn}
    {hash : Hash160} {sigs : List RawSignature} {redeem : Bytes} {multisig : Multisig}
    (h : Valid K tx index prevouts input hash sigs redeem multisig) :
    input.sigScript.length < 2 ^ 16 := by
  have hwritten := Multisig.written_of_parse h.script
  have hredeem := hwritten.length_le
  have hfew : sigs.length ≤ 16 := by
    rw [h.required]
    exact Nat.le_trans hwritten.proper.enough hwritten.proper.few
  have hsigs : (sigs.map fun data : Bytes => data.length + 5).sum ≤ sigs.length * 78 := by
    have hsum := List.sum_le_card_nsmul (sigs.map fun data : Bytes => data.length + 5) 78 ?_
    · simpa using hsum
    · rw [List.forall_mem_map]
      intro sig hsig
      have hlength := (RawSignature.length_of_isStrictDer (h.standard sig hsig).strict).2
      omega
  have hpushes := h.pushes.length_le
  simp only [List.map_cons, List.map_append, List.map_nil, List.sum_cons, List.sum_append,
    List.sum_nil, List.length_nil] at hpushes
  omega

namespace Signing

variable {tx signed : Tx} {prevouts : List TxOut} {entries : InputSignatures}

/-- A script that reads back as signatures that are not too long was made of these, and so it is not
too long itself. -/
theorem length_script_le {required : UInt8} {redeem redeem' bytes : Bytes}
    {sigs : List RawSignature} (hbytes : script entries required redeem = .ok bytes)
    (hshort : bytes.length < 2 ^ 16) (hpushes : Push.Pushes bytes (Spend.stackOf sigs redeem'))
    (hsigs : ∀ sig ∈ sigs, sig.length ≤ 73) :
    bytes.length ≤ 1 + Draft.maxSignaturePush * required.toNat + redeem.length + 1
      + CompactSize.size redeem.length := by
  rw [script_eq] at hbytes
  split at hbytes
  · cases hbytes
  rename_i henough
  cases hbytes
  generalize hown : (present entries).take required.toNat = own at hshort hpushes ⊢
  have hcount : own.length = required.toNat := by
    rw [← hown]
    exact List.length_take_of_le (Nat.not_lt.mp henough)
  have hstack : Spend.stackOf own redeem = Spend.stackOf sigs redeem' :=
    Except.ok.inj ((Push.parse_of_short hshort).symm.trans (Push.parse_of_pushes hpushes))
  obtain ⟨rfl, -⟩ := List.append_inj' (List.cons.inj hstack).2 rfl
  have hsum := Push.length_signatures_le hsigs
  have hredeem := Push.length_encode_le redeem
  have hdummy : (Push.encode []).length = 1 := rfl
  simp only [Spend.stackOf, List.flatMap_cons, List.flatMap_append, List.flatMap_nil,
    List.length_append, List.length_nil, hdummy]
  rw [hcount] at hsum
  omega

/-- An input that is signed has a script that is not longer than the estimate for its address. -/
theorem signInput_length_le {a : PoolAddress} {index : Nat}
    (hproper : Multisig.Proper a.required a.keys)
    (h : signInput K tx index prevouts a.redeem entries = .ok signed) :
    ∃ input, signed.inputs[index]? = some input
      ∧ input.sigScript.length ≤ Draft.maxScriptLength a := by
  obtain ⟨multisig, bytes, hparse, hbytes, rfl, hverify⟩ := signInput_ok h
  obtain ⟨s, hpassed⟩ := Spend.verify_eq_ok_iff.mp hverify
  have hvalid := Spend.valid_of_passed hpassed
  obtain ⟨input, hinput⟩ : ∃ input, tx.inputs[index]? = some input := by
    have hindex := (List.getElem?_eq_some_iff.mp hvalid.spends).1
    rw [Tx.length_inputs_withScript] at hindex
    exact ⟨_, List.getElem?_eq_getElem hindex⟩
  have hscript : s.input.sigScript = bytes := by
    have hsame := (Tx.inputs_withScript tx index bytes hinput).symm.trans hvalid.spends
    rw [← Option.some.inj hsame]
  have hrequired : multisig.required = a.required := by
    have hsame := (Multisig.parse_encode hproper).symm.trans hparse
    rw [← Except.ok.inj hsame]
  rw [hrequired] at hbytes
  refine ⟨s.input, hvalid.spends, ?_⟩
  rw [hscript]
  refine length_script_le hbytes (hscript ▸ hvalid.length_lt) (hscript ▸ hvalid.pushes) ?_
  intro sig hsig
  exact (RawSignature.length_of_isStrictDer (hvalid.standard sig hsig).strict).2

end Signing

/-! ## All inputs -/

theorem TxIn.sizeWith_mono {m n : Nat} (h : m ≤ n) : sizeWith m ≤ sizeWith n := by
  have hsize := CompactSize.size_mono h
  unfold sizeWith sizedScriptSize
  omega

/-- The outputs are the first ones of the shape, which may have one more. -/
theorem Draft.outputs_prefix (d : Draft) :
    d.toTx.outputs.map (·.script.length) <+: d.outputScriptLengths := by
  unfold Draft.toTx Draft.outputScriptLengths
  rw [List.map_append, List.map_map]
  cases d.change with
  | none =>
      rw [Option.toList_none, List.map_nil, List.append_nil]
      exact ⟨(d.payments.map (·.script.length)).head?.toList, rfl⟩
  | some change => exact ⟨[], List.append_nil _⟩

namespace WithdrawalTx

/-- Signing the inputs from `no` on leaves no script longer than the estimate for its address. -/
theorem signFrom_lengths {inputs : List (PoolAddress × InputSignatures)} {prevouts : List TxOut}
    {no : Nat} {tx signed : Tx} (hproper : ∀ p ∈ inputs, Multisig.Proper p.1.required p.1.keys)
    (hcount : tx.inputs.length = no + inputs.length)
    (h : signFrom K prevouts no inputs tx = .ok signed) :
    List.Forall₂ (fun input p => input.sigScript.length ≤ Draft.maxScriptLength p.1)
      (signed.inputs.drop no) inputs := by
  induction inputs generalizing no tx with
  | nil =>
      cases h
      have hnone : signed.inputs.drop no = [] := List.drop_eq_nil_of_le (Nat.le_of_eq hcount)
      rw [hnone]
      exact .nil
  | cons p rest ih =>
      obtain ⟨a, entries⟩ := p
      obtain ⟨hfirst, hothers⟩ := List.forall_mem_cons.mp hproper
      obtain ⟨next, hnext, hrest⟩ := signFrom_cons.mp h
      obtain ⟨input, hinput, hlength⟩ := Signing.signInput_length_le hfirst hnext
      have hsame : signed.inputs[no]? = some input := by
        rw [(signFrom_ok hrest).before no (Nat.lt_succ_self no), hinput]
      obtain ⟨-, bytes, -, -, rfl, -⟩ := Signing.signInput_ok hnext
      have hcount' : (tx.withScript no bytes).inputs.length = no + 1 + rest.length := by
        rw [Tx.length_inputs_withScript, hcount, List.length_cons]
        omega
      obtain ⟨hno, rfl⟩ := List.getElem?_eq_some_iff.mp hsame
      rw [List.drop_eq_getElem_cons hno]
      exact .cons hlength (ih hothers hcount' hrest)

/-- The script of each input is not longer than the estimate for the address of its credit. -/
theorem sign_lengths {d : Draft} {sigs : TxSignatures} {signed : Tx}
    (hproper : ∀ c ∈ d.inputs, Multisig.Proper c.address.required c.address.keys)
    (h : (ofDraft d).sign K sigs = .ok signed) :
    signed.stripped = d.toTx.stripped
      ∧ List.Forall₂ (fun input c => input.sigScript.length ≤ Draft.maxScriptLength c.address)
        signed.inputs d.inputs := by
  unfold sign at h
  split at h
  · cases h
  rename_i hcount
  have haddresses : ((ofDraft d).addresses.zip sigs).map Prod.fst = d.inputs.map (·.address) :=
    List.map_fst_zip (Nat.le_of_eq (not_not.mp hcount).symm)
  have hlength : ((ofDraft d).addresses.zip sigs).length = d.inputs.length := by
    rw [← List.length_map Prod.fst, haddresses, List.length_map]
  have hall : ∀ p ∈ (ofDraft d).addresses.zip sigs, Multisig.Proper p.1.required p.1.keys := by
    intro p hp
    have ha : p.1 ∈ d.inputs.map (·.address) := haddresses ▸ List.mem_map_of_mem hp
    obtain ⟨c, hc, hsame⟩ := List.mem_map.mp ha
    exact hsame ▸ hproper c hc
  have hinputs : d.toTx.inputs.length = 0 + ((ofDraft d).addresses.zip sigs).length := by
    rw [hlength, Nat.zero_add]
    exact List.length_map ..
  have hscripts := signFrom_lengths hall hinputs h
  rw [List.drop_zero, ← List.forall₂_map_right_iff (f := Prod.fst)
    (R := fun (input : TxIn) a => input.sigScript.length ≤ Draft.maxScriptLength a), haddresses,
    List.forall₂_map_right_iff] at hscripts
  exact ⟨(signFrom_ok h).stripped, hscripts⟩

/-- **A signed transaction is within the shape of its draft**, if the credits lie at addresses of
well-formed series. The draft may be closed or not, with or without change, and the entries may be
any for which signing goes well. -/
theorem sign_within_shape {d : Draft} {sigs : TxSignatures} {signed : Tx}
    (hderived : ∀ c ∈ d.inputs, ∃ id series branch index network, series.WellFormed K
      ∧ PoolAddress.derive K id series branch index network = .ok c.address)
    (h : (ofDraft d).sign K sigs = .ok signed) :
    signed.serialize.length ≤ d.shape.size
      ∧ signed.inputs.length ≤ d.shape.inputs
      ∧ signed.outputs.length ≤ d.shape.outputs := by
  have hproper : ∀ c ∈ d.inputs, Multisig.Proper c.address.required c.address.keys := by
    intro c hc
    obtain ⟨id, series, branch, index, network, hseries, hc⟩ := hderived c hc
    exact PoolAddress.proper_of_derive hseries hc
  obtain ⟨hstripped, hscripts⟩ := sign_lengths hproper h
  have houtputs : signed.outputs = d.toTx.outputs := congrArg (·.outputs) hstripped
  obtain ⟨more, hmore⟩ := d.outputs_prefix
  have hinputSizes : ((signed.inputs.map (·.sigScript.length)).map TxIn.sizeWith).sum
      ≤ ((d.inputs.map fun c => Draft.maxScriptLength c.address).map TxIn.sizeWith).sum := by
    refine List.Forall₂.sum_le_sum ?_
    simp only [List.forall₂_map_left_iff, List.forall₂_map_right_iff]
    exact hscripts.imp fun _ _ => TxIn.sizeWith_mono
  refine ⟨?_, Nat.le_of_eq hscripts.length_eq, ?_⟩
  · rw [Tx.length_serialize]
    refine Tx.sizeWith_le ?_ hinputSizes ?_ ?_
    · rw [List.length_map, List.length_map, hscripts.length_eq]
    · rw [houtputs, ← hmore, List.length_append]
      exact Nat.le_add_right ..
    · rw [houtputs, ← hmore, List.map_append, List.sum_append]
      exact Nat.le_add_right ..
  · show signed.outputs.length ≤ d.outputScriptLengths.length
    rw [houtputs, ← hmore, List.length_append, List.length_map]
    exact Nat.le_add_right ..

end WithdrawalTx

/-- A transaction with two inputs for two of three keys and one output is estimated with two
outputs, and at most as long. -/
theorem WithdrawalTx.shared_within_shape :
    ∃ sigs signed, (ofDraft Round.Shared.draft).sign Round.Shared.scheme sigs = .ok signed
      ∧ signed.serialize.length ≤ 670 ∧ signed.inputs.length ≤ 2 ∧ signed.outputs.length ≤ 2 := by
  obtain ⟨sigs, signed, hsigned⟩ := Round.Shared.draft_signs
  refine ⟨sigs, signed, hsigned, sign_within_shape ?_ hsigned⟩
  intro c hc
  rw [Round.Shared.address_of_draft c hc]
  exact ⟨⟨1⟩, Round.Shared.series none none, ⟨1⟩, ⟨0⟩, .regtest,
    Round.Shared.wellFormed_series (by simp) (by simp), Round.Shared.address_eq⟩

end NotaryPool
