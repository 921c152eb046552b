import Mathlib.Algebra.BigOperators.Group.List.Basic
import NotaryPool.Proofs.Pool.History
import NotaryPool.Proofs.Signing.Validity
import NotaryPool.Proofs.Withdrawal.Outcomes

/-!
# The balance of the store follows the rounds

What a round spends leaves the store, and of what its transactions pay only some change comes back:
that of the transactions which this member could sign with its own entries, as only they have an
identifier already. Each unit that is missing afterwards was therefore paid to a request, given as a
fee, or is change that waits for the signatures of others.

## Contents

* `CreditStore.balance`, `CreditStore.Keyed.balance_taking`: what a commit does to the sum of all
  outputs.
* `WithdrawalTx.paidOut`, `Draft.Balanced.prevouts_sum`: where the inputs of a transaction go.
* `Pool.ChangeOf`, `Pool.change_cases`: the change that comes back to the store.
* `Pool.balance_of_process`: **what a round takes out of the store.**
-/

namespace NotaryPool

variable {K : KeyScheme}

/-! ## The balance of a store -/

namespace CreditStore

variable {s : CreditStore} {c : RoundCommit}

/-- The sum of all unspent outputs. -/
def balance (s : CreditStore) : Nat := (s.unspent.values.map (·.value)).sum

/-- The value of an unspent output, zero if there is none. -/
def valueAt (s : CreditStore) (o : Outpoint) : Nat := ((s.unspent.find? o).map (·.value)).getD 0

/-- A store in memory: it never fails, and has each output once, under its own place. -/
structure InMemory (s : CreditStore) : Prop extends Keyed s where
  works : s.faults = {}

theorem Keyed.values_without (h : s.Keyed) (spent : List Outpoint) :
    (s.unspent.without spent).values
      = s.unspent.values.filter fun output => output.outpoint ∉ spent := by
  unfold OrderedMap.values OrderedMap.without
  rw [List.filter_map]
  congr 1
  apply List.filter_congr
  intro e he
  rw [Function.comp_apply, h.own e he]

/-- The outputs that are not spent stay in their order, and the change comes behind them. -/
theorem Keyed.values_taking (h : s.Keyed) (c : RoundCommit) :
    (s.taking c).unspent.values
      = s.unspent.values.filter (fun output => output.outpoint ∉ c.spent) ++ c.change := by
  have hchange : (atOutpoints c.change).map (·.2) = c.change := by
    unfold atOutpoints
    rw [List.map_map]
    exact List.map_id c.change
  show ((s.unspent.without c.spent).entries ++ atOutpoints c.change).map (·.2) = _
  rw [List.map_append, hchange, ← h.values_without]
  rfl

/-- A commit takes the values of what it spends off the balance, and adds those of its change. -/
theorem Keyed.balance_taking (h : s.Keyed) (hc : s.Acceptable c) :
    s.balance + (c.change.map (·.value)).sum
      = (c.spent.map s.valueAt).sum + (s.taking c).balance := by
  have hspent : s.balance
      = (c.spent.map s.valueAt).sum + ((s.unspent.without c.spent).values.map (·.value)).sum :=
    OrderedMap.sum_values_without UnspentOutput.value h.nodup hc.spent_nodup hc.spent_known
  have htaken : (s.taking c).balance
      = ((s.unspent.without c.spent).values.map (·.value)).sum
        + (c.change.map (·.value)).sum := by
    unfold balance
    rw [h.values_taking, h.values_without, List.map_append, List.sum_append]
  omega

end CreditStore

/-! ## Where the inputs of a transaction go -/

namespace WithdrawalTx

/-- What the outputs of a transaction for the requests and its fee add up to. -/
def paidOut (t : WithdrawalTx) : Nat := (t.requestOutputs.map (·.1.value)).sum + t.fee

/-- The value of the change output, zero if there is none. -/
def changeValue (t : WithdrawalTx) : Nat := (t.change?.map (·.value)).getD 0

theorem change?_ofDraft (d : Draft) : (ofDraft d).change? = d.change := by
  show d.changeVout?.bind (fun vout => (d.payments.map Payment.output ++ d.change.toList)[vout]?)
    = d.change
  unfold Draft.changeVout?
  cases d.change with
  | none => rfl
  | some out => simp

end WithdrawalTx

/-- The inputs of a balanced transaction are what it pays out and its change. -/
theorem Draft.Balanced.prevouts_sum {d : Draft} (h : d.Balanced) :
    ((WithdrawalTx.ofDraft d).prevouts.map (·.value)).sum
      = (WithdrawalTx.ofDraft d).paidOut + (WithdrawalTx.ofDraft d).changeValue := by
  have hprevouts : (WithdrawalTx.ofDraft d).prevouts.map (·.value) = d.inputs.map (·.amount) := by
    show (d.inputs.map PoolCredit.prevout).map _ = _
    rw [List.map_map]
    rfl
  have hpaid : ((WithdrawalTx.ofDraft d).requestOutputs.map (·.1.value)).sum = d.paymentSum := by
    rw [WithdrawalTx.requestOutputs_ofDraft]
    show ((d.payments.map Payment.output).zipIdx.map (TxOut.value ∘ Prod.fst)).sum = _
    rw [← List.map_map, List.zipIdx_map_fst, List.map_map]
    rfl
  have hchange : (WithdrawalTx.ofDraft d).changeValue = d.changeAmount := by
    unfold WithdrawalTx.changeValue
    rw [WithdrawalTx.change?_ofDraft]
    rfl
  have hsum : (d.inputs.map (·.amount)).sum = d.paymentSum + d.changeAmount + d.fee := h.sum
  unfold WithdrawalTx.paidOut
  rw [hprevouts, hpaid, hchange, hsum]
  show _ = d.paymentSum + d.fee + _
  omega

/-! ## The change that comes back -/

namespace RoundStatus

variable {status : RoundStatus} {e : Hash256 × WithdrawalTx} {d : Draft}

/-- Whether a transaction can be signed with the entries of this member alone. -/
def signs (K : KeyScheme) (s : RoundStatus) (e : Hash256 × WithdrawalTx) : Bool :=
  (signTransaction K s.sigs e.1 e.2).isOk

/-- The change output of a transaction that could be signed, as an unspent output: at the place that
it has in the signed transaction, with its value and script, and without a height. -/
def ChangeOf (K : KeyScheme) (s : RoundStatus) (e : Hash256 × WithdrawalTx)
    (output : UnspentOutput) : Prop :=
  ∃ tx vout out, signTransaction K s.sigs e.1 e.2 = .ok tx ∧ e.2.changeVout = some vout
    ∧ tx.outputs[vout]? = some out
    ∧ output = ⟨⟨tx.txid, UInt32.ofNat vout⟩, out.value, out.script, none⟩

/-- The unspent output that a transaction leaves for the store, if any. -/
def left? (K : KeyScheme) (s : RoundStatus) (e : Hash256 × WithdrawalTx) : Option UnspentOutput :=
  Pool.changeOutput? s e.1 (signTransaction K s.sigs e.1 e.2)

theorem left?_of_error {reason : TxSigningError}
    (h : signTransaction K status.sigs e.1 e.2 = .error reason) : status.left? K e = none := by
  unfold left? Pool.changeOutput?
  rw [h]
  rfl

theorem left?_of_ok {tx : Tx} (hfound : status.transactions.find? e.1 = some e.2)
    (h : signTransaction K status.sigs e.1 e.2 = .ok tx) :
    status.left? K e = e.2.changeVout.bind fun vout => e.2.change?.map fun out =>
      ⟨⟨tx.txid, UInt32.ofNat vout⟩, out.value, out.script, none⟩ := by
  unfold left? Pool.changeOutput?
  rw [h, hfound]
  show (e.2.changeVout.bind fun vout => e.2.change?.bind fun out => some _) = _
  cases e.2.changeVout with
  | none => rfl
  | some vout =>
      cases e.2.change? with
      | none => rfl
      | some out => rfl

/-- Signing keeps the outputs. -/
theorem outputs_of_signed {sigs : OrderedMap Hash256 TxSignatures} {ntxid : Hash256} {tx : Tx}
    (h : signTransaction K sigs ntxid (.ofDraft d) = .ok tx) :
    tx.outputs = d.toTx.outputs := by
  unfold signTransaction at h
  split at h
  · have hstripped : tx.stripped = d.toTx := (WithdrawalTx.sign_valid h).1
    show tx.stripped.outputs = _
    rw [hstripped]
  · cases h

/-- A transaction leaves its change output if it could be signed, and nothing if it could not, or
if it has none. -/
theorem left?_cases (hfound : status.transactions.find? e.1 = some e.2) (he : e.2 = .ofDraft d) :
    (∃ output, status.left? K e = some output ∧ status.ChangeOf K e output
        ∧ status.signs K e = true ∧ e.2.changeVout.isSome = true ∧ output.value = e.2.changeValue)
      ∨ (status.left? K e = none ∧ (status.signs K e && e.2.changeVout.isSome) = false
        ∧ (status.signs K e = true → e.2.changeValue = 0)) := by
  have hchange : e.2.change? = d.change := by rw [he, WithdrawalTx.change?_ofDraft]
  have hvout : e.2.changeVout = d.change.map fun _ => d.payments.length := by
    rw [he]
    rfl
  unfold ChangeOf signs WithdrawalTx.changeValue
  rw [hchange, hvout]
  cases hsigned : signTransaction K status.sigs e.1 e.2 with
  | error reason => exact Or.inr ⟨left?_of_error hsigned, rfl, fun h => by cases h⟩
  | ok tx =>
      have hleft := left?_of_ok hfound hsigned
      rw [hchange, hvout] at hleft
      cases hsome : d.change with
      | none =>
          rw [hsome] at hleft
          exact Or.inr ⟨hleft, rfl, fun _ => rfl⟩
      | some out =>
          rw [hsome] at hleft
          rw [he] at hsigned
          have hout : tx.outputs[d.payments.length]? = some out := by
            rw [outputs_of_signed hsigned]
            show (d.payments.map Payment.output ++ d.change.toList)[d.payments.length]? = some out
            rw [hsome]
            simp
          exact Or.inl ⟨_, hleft, ⟨tx, _, out, rfl, rfl, hout, rfl⟩, rfl, rfl, rfl⟩

section Entries

variable {entries : List (Hash256 × WithdrawalTx)}

/-- The change of all transactions is that which they leave, and that of those which could not be
signed. -/
theorem sum_change (h : ∀ e ∈ entries, status.transactions.find? e.1 = some e.2
      ∧ ∃ d, e.2 = WithdrawalTx.ofDraft d) :
    (entries.map fun e => e.2.changeValue).sum
      = ((entries.filterMap (status.left? K)).map (·.value)).sum
        + ((entries.filter fun e => !status.signs K e).map fun e => e.2.changeValue).sum := by
  induction entries with
  | nil => rfl
  | cons e rest ih =>
      obtain ⟨⟨hfound, d, he⟩, hrest⟩ := List.forall_mem_cons.mp h
      have ih := ih hrest
      rcases left?_cases (K := K) hfound he with
        ⟨output, hleft, -, hsigns, -, hvalue⟩ | ⟨hleft, -, hnothing⟩
      · rw [List.filterMap_cons_some hleft, List.filter_cons_of_neg (by simp [hsigns])]
        simp only [List.map_cons, List.sum_cons]
        omega
      · rw [List.filterMap_cons_none hleft]
        cases hsigns : status.signs K e with
        | true =>
            have hzero := hnothing hsigns
            rw [List.filter_cons_of_neg (by simp [hsigns]), List.map_cons, List.sum_cons]
            omega
        | false =>
            rw [List.filter_cons_of_pos (by simp [hsigns])]
            simp only [List.map_cons, List.sum_cons]
            omega

/-- What the transactions leave is the change of those which could be signed. -/
theorem forall₂_changeOf (h : ∀ e ∈ entries, status.transactions.find? e.1 = some e.2
      ∧ ∃ d, e.2 = WithdrawalTx.ofDraft d) :
    List.Forall₂ (status.ChangeOf K)
      (entries.filter fun e => status.signs K e && e.2.changeVout.isSome)
      (entries.filterMap (status.left? K)) := by
  induction entries with
  | nil => exact .nil
  | cons e rest ih =>
      obtain ⟨⟨hfound, d, he⟩, hrest⟩ := List.forall_mem_cons.mp h
      rcases left?_cases (K := K) hfound he with
        ⟨output, hleft, hchange, hsigns, hsome, -⟩ | ⟨hleft, hnot, -⟩
      · rw [List.filterMap_cons_some hleft, List.filter_cons_of_pos (by simp [hsigns, hsome])]
        exact .cons hchange (ih hrest)
      · rw [List.filterMap_cons_none hleft, List.filter_cons_of_neg (by simp [hnot])]
        exact ih hrest

end Entries

end RoundStatus

/-- The transactions of a round are those of balanced drafts, which spend credits that the round was
given. Each of them is what its identifier finds. -/
theorem Round.balanced_of_run {P : TxPolicy} {book : SeriesBook} {roundId : UInt32}
    {requests : List OutputRequest} {credits : List PoolCredit} {changeStart : ChangeAddress}
    {status : RoundStatus}
    (hfits : ∀ start, new book.network requests credits changeStart = .ok start → start.Fits)
    (hrun : run K P book roundId requests credits changeStart = .ok status) :
    ∀ e ∈ status.transactions.entries, status.transactions.find? e.1 = some e.2
      ∧ ∃ d, e.2 = WithdrawalTx.ofDraft d ∧ d.Balanced ∧ ∀ c ∈ d.inputs, c ∈ credits := by
  obtain ⟨start, final, hnew, hfulfil, hstatus, hbalanced, -, hentries⟩ := run_conserves hfits hrun
  have hnodup : status.transactions.keys.Nodup := by
    obtain ⟨signed, -, rfl⟩ := toStatus_ok hstatus
    exact OrderedMap.nodup_keys_ofList _
  intro e he
  obtain ⟨⟨d, hd, heq⟩, -⟩ := hentries e he
  exact ⟨OrderedMap.find?_of_mem hnodup he, d, congrArg Prod.snd heq, hbalanced d hd,
    finalized_spends hnew hfulfil d hd⟩

/-! ## What a round takes out of the store -/

namespace Pool

variable {p p' : Pool} {w : Call} {status : RoundStatus} {credits : List PoolCredit}

/-- The sums that a withdrawal computes can be stored: that of its credits, and that of the requests
that can be paid. -/
structure Fits (K : KeyScheme) (p : Pool) (w : Call) : Prop where
  credits : ∀ credits, p.eligibleCredits K w.ranges w.chainHeight = .ok credits →
    (credits.map (·.amount)).sum ≤ Amount.largest
  requests : Round.dueSum (Round.payable p.registry.book.network w.requests) ≤ Amount.largest

theorem Fits.round (h : p.Fits K w)
    (hcredits : p.eligibleCredits K w.ranges w.chainHeight = .ok credits)
    {changeStart : ChangeAddress} {start : Round}
    (hnew : Round.new p.registry.book.network w.requests credits changeStart = .ok start) :
    start.Fits := by
  obtain ⟨-, rfl⟩ := Round.new_ok_iff.mp hnew
  have hsort : (PoolCredit.sort credits).Perm credits := List.mergeSort_perm _ _
  refine ⟨?_, h.requests⟩
  show ((PoolCredit.sort credits).map (·.amount)).sum ≤ Amount.largest
  rw [(hsort.map _).sum_nat]
  exact h.credits credits hcredits

/-- A credit has the value of the output that is stored at its place. -/
theorem valueAt_of_eligible (hp : p.credits.Keyed) {ranges : List AddressRange} {chainHeight : Nat}
    (h : p.eligibleCredits K ranges chainHeight = .ok credits) :
    ∀ c ∈ credits, p.credits.valueAt c.outpoint = c.amount := by
  intro c hc
  have hselected := Selection.selected_of_eligible (eligibleCredits_eq_ok_iff.mp h).2 c hc
  obtain ⟨output, hstored, -, hcredit⟩ := hselected.stored
  rw [hcredit]
  show ((p.credits.unspent.find? output.outpoint).map (·.value)).getD 0 = output.value
  rw [hp.find?_of_mem hstored]
  rfl

/-- The values of what a round spends are what its transactions pay out and their change. -/
theorem sum_spent (hp : p.credits.Keyed) {ranges : List AddressRange} {chainHeight : Nat}
    (hcredits : p.eligibleCredits K ranges chainHeight = .ok credits)
    (h : ∀ e ∈ status.transactions.entries,
      ∃ d, e.2 = WithdrawalTx.ofDraft d ∧ d.Balanced ∧ ∀ c ∈ d.inputs, c ∈ credits) :
    (status.spent.map p.credits.valueAt).sum
      = (status.transactions.values.map fun t => t.paidOut + t.changeValue).sum := by
  have hinputs : ∀ t ∈ status.transactions.values,
      ((t.tx.inputs.map (·.prev)).map p.credits.valueAt).sum = t.paidOut + t.changeValue := by
    intro t ht
    obtain ⟨e, he, rfl⟩ := List.mem_map.mp ht
    obtain ⟨d, hd, hbalanced, hspends⟩ := h e he
    rw [hd, ← hbalanced.prevouts_sum]
    congr 1
    show ((d.inputs.map fun c => (⟨c.outpoint, [], Draft.finalSequence⟩ : TxIn)).map (·.prev)).map
      p.credits.valueAt = (d.inputs.map PoolCredit.prevout).map (·.value)
    simp only [List.map_map]
    exact List.map_congr_left fun c hc => valueAt_of_eligible hp hcredits c (hspends c hc)
  unfold RoundStatus.spent
  rw [List.map_flatMap, List.flatMap_def, List.sum_flatten, List.map_map]
  exact congrArg List.sum (List.map_congr_left hinputs)

theorem change_commitFor (K : KeyScheme) (p : Pool) (w : Call) (status : RoundStatus) :
    (p.commitFor K w status).change = status.transactions.entries.filterMap (status.left? K) :=
  List.filterMap_map

/-- **What a round takes out of the store.** When a withdrawal over a store in memory processes a
new round, and the sums that it computes can be stored, the balance of the store goes down by what
the transactions of the round pay to the requests and as fees, and by the change of those which this
member could not sign with its own entries. What was stored and is not spent stays as it is. What
comes behind it are the change outputs of the transactions that could be signed, one for each which
has one: at the place that the signed transaction gives it, with its value and script, and without
a height. -/
theorem balance_of_process (hp : p.credits.InMemory) (hfits : p.Fits K w)
    (hmissing : p.credits.rounds.find? w.roundId = none)
    (h : p.process K w = (.ok status, p')) :
    p.credits.balance
        = p'.credits.balance + (status.transactions.values.map WithdrawalTx.paidOut).sum
          + ((status.transactions.entries.filter fun e => !status.signs K e).map
              fun e => e.2.changeValue).sum
      ∧ ∃ added, p'.credits.unspent.values
            = p.credits.unspent.values.filter (fun output => output.outpoint ∉ status.spent)
              ++ added
          ∧ List.Forall₂ (status.ChangeOf K)
              (status.transactions.entries.filter fun e =>
                status.signs K e && e.2.changeVout.isSome) added := by
  have houtcome := outcome_process K p w
  rw [h] at houtcome
  cases houtcome with
  | repeated hfound _ =>
      -- a repeated round is stored already
      rw [(round_eq_ok_iff hp.works).mp hfound] at hmissing
      cases hmissing
  | recorded hnew =>
      obtain ⟨changeStart, credits, -, hcredits, hrun⟩ := newRound_eq_ok_iff.mp hnew.computed
      have hentries := Round.balanced_of_run (fun start => hfits.round hcredits) hrun
      have hdrafts : ∀ e ∈ status.transactions.entries,
          status.transactions.find? e.1 = some e.2 ∧ ∃ d, e.2 = WithdrawalTx.ofDraft d := by
        intro e he
        obtain ⟨hfound, d, hd, -⟩ := hentries e he
        exact ⟨hfound, d, hd⟩
      refine ⟨?_, _, hp.values_taking _, ?_⟩
      · have htaken := hp.balance_taking hnew.acceptable
        have hspent : ((p.commitFor K w status).spent.map p.credits.valueAt).sum
            = (status.transactions.values.map fun t => t.paidOut + t.changeValue).sum :=
          sum_spent hp.toKeyed hcredits fun e he => (hentries e he).2
        have hvalues : (status.transactions.values.map WithdrawalTx.changeValue).sum
            = (status.transactions.entries.map fun e => e.2.changeValue).sum :=
          congrArg List.sum List.map_map
        -- of all change, that which comes back is in both balances
        rw [List.sum_map_add, hvalues, RoundStatus.sum_change (K := K) hdrafts,
          ← change_commitFor K p w] at hspent
        show p.credits.balance = (p.credits.taking (p.commitFor K w status)).balance + _ + _
        omega
      · rw [change_commitFor]
        exact RoundStatus.forall₂_changeOf hdrafts

/-! ### A deposit that leaves change

The series of the sample of threshold signing, a member that holds two of its three private keys,
and a deposit that is larger than what is asked for. -/

namespace Sample

open Round (Shared.scheme)
open Round

def empowered : Registry :=
  { registry with series := [(⟨1⟩, Shared.series (some Shared.first) (some Shared.other))] }

def larger : UnspentOutput := { deposit with value := 50000 }

def changing : Pool := ⟨empowered, ⟨⟨[(larger.outpoint, larger)]⟩, .empty, {}⟩, {}, none⟩

def credit : PoolCredit := .ofUnspent larger Shared.address

/-- The round after its only turn. -/
def served : Round :=
  { opening [] [] changeStart with
    current := ⟨[credit], [⟨Round.Sample.paying, 40000, Round.Sample.script⟩], none, false, 0⟩
    outcomes := [⟨Round.Sample.paying, .success, []⟩] }

/-- The transaction of the round. -/
def closed : Draft :=
  { served.current with
    change := some ⟨9000, changeStart.script⟩
    closed := true
    fee := 1000 }

theorem eligibleCredits_changing :
    changing.eligibleCredits Shared.scheme [range] 1 = .ok [credit] :=
  eligibleCredits_eq_ok_iff.mpr
    ⟨rfl, Selection.eligible_of_single rfl (by decide) address_eq rfl rfl⟩

/-- The children of the three keys for the next change address. -/
def nextChildren : List PublicKey :=
  [{ x := ⟨0xe6b7487c9ce0f125b0165eec8fb4669d8184dc4d54fa1f85fd11f475ed6493d2, by decide⟩
     odd := false
     onCurve := by decide +kernel },
    { x := ⟨0x4591e1e19ff7711ad200ddd926a5b4d39b57357ea8d50f5f4669e89875c25591, by decide⟩
      odd := true
      onCurve := by decide +kernel },
    { x := ⟨0xc715f39498bf1913dd95e206f1b617edc885eb56fca1b15571c3919c074c20b6, by decide⟩
      odd := false
      onCurve := by decide +kernel }]

theorem nextChildKeys : List.Forall₂ (fun key child => childKey Shared.scheme key ⟨1⟩ = .ok child)
    Shared.address.xpubs nextChildren :=
  .cons (Shared.childPublic? rfl (t :=
      ⟨0x98d82efc2eebd61cfd0d1892885a5e46b67a2d440e0dc8ce7cc534f8798f206, by decide⟩)
    (by decide +kernel) (by decide +kernel) (by decide +kernel))
  (.cons (Shared.childPublic? rfl (t :=
      ⟨0x90c5dbdd0ae3bcbbe293673f8baad08f6f24c80976f33417cccb168bbed6c1b9, by decide⟩)
    (by decide +kernel) (by decide +kernel) (by decide +kernel))
  (.cons (Shared.childPublic? rfl (t :=
      ⟨0xad9451f550d6df1ffa13372e48164aed728ba593ac22eadd1bcbf1162871258f, by decide⟩)
    (by decide +kernel) (by decide +kernel) (by decide +kernel)) .nil))

theorem next_isOk : ∃ next, changeStart.next Shared.scheme = .ok next := by
  have hderived : PoolAddress.ofKeys Shared.scheme ⟨1⟩ 2 Shared.address.xpubs ⟨0⟩ ⟨1⟩ .regtest
      = .ok ⟨⟨1⟩, ⟨0⟩, ⟨1⟩, 2, .regtest, Shared.address.xpubs, nextChildren.reverse⟩ :=
    PoolAddress.ofKeys_eq_ok_iff.mpr
      ⟨_, nextChildren.reverse, rfl, List.forall₂_reverse_iff.mpr nextChildKeys, rfl⟩
  exact ⟨_, congrArg (Except.map ChangeAddress.mk) hderived⟩

theorem turns_eq (K : KeyScheme) :
    turns K policy 4 (opening [Shared.due] [credit] changeStart) = .ok served :=
  rfl

theorem addChange_served (script : Bytes) :
    served.current.addChange policy script
      = .ok { served.current with change := some ⟨9000, script⟩, closed := true, fee := 1000 } :=
  rfl

theorem notePayments_served (ntxid : Hash256) (next : ChangeAddress) :
    notePayments ntxid 0 served.current.payments
        { served with current := .empty, nextChange := next }
      = .ok { served with
          current := .empty
          nextChange := next
          outcomes := [⟨Round.Sample.paying, .success, [⟨ntxid, 0, 40000⟩]⟩] } := by
  simp [served, notePayments, notePayment, fulfilmentFault?, RequestOutcome.id,
    RequestOutcome.fulfilled, Amount.total, Amount.largest, Round.Sample.paying]

/-- The engine closes the one transaction as soon as there is a next change address. -/
theorem fulfil_of_next {next : ChangeAddress} (h : changeStart.next K = .ok next) : ∃ final,
    (opening [Shared.due] [credit] changeStart).fulfil K policy = .ok final
      ∧ final.finalized = [closed] := by
  have hprepared : (opening [Shared.due] [credit] changeStart).prepared
      = opening [Shared.due] [credit] changeStart :=
    prepared_opening (by decide) (by decide)
  have hlimit : (opening [Shared.due] [credit] changeStart).turnLimit = 4 := rfl
  have hfinish := finish_of_next rfl (addChange_served _) rfl h (notePayments_served _ next)
  rw [fulfil_eq, hprepared, hlimit, turns_eq]
  dsimp only
  rw [hfinish]
  exact ⟨_, rfl, rfl⟩

theorem memberOf_empowered : empowered.book.MemberOf Shared.scheme empowered.book.bare :=
  Registry.memberOf_single rfl (Shared.wellFormed_series (by simp) (by simp))

theorem address_empowered :
    empowered.book.bare.poolAddress Shared.scheme Shared.address.series Shared.address.branch
      Shared.address.index = .ok Shared.address := by
  have hderived : PoolAddress.ofKeys Shared.scheme ⟨1⟩ 2 Shared.address.xpubs ⟨1⟩ ⟨0⟩ .regtest
      = .ok Shared.address := address_eq
  exact hderived

theorem empowered_holds : empowered.book.Holds ⟨1⟩ (Shared.pub Round.Sample.key)
    ∧ empowered.book.Holds ⟨1⟩ (Shared.pub Shared.second) := by
  constructor
  · exact ⟨_, rfl, _, List.mem_cons_self, rfl, rfl⟩
  · exact ⟨_, rfl, _, List.mem_cons_of_mem _ List.mem_cons_self, rfl, rfl⟩

/-- The member signs the transaction alone. -/
theorem signed_of_answered {status : RoundStatus}
    (hfound : status.transactions.find? closed.ntxid = some (.ofDraft closed))
    (hanswered : Answered Shared.scheme empowered.book.bare empowered.book status) :
    ∃ tx, RoundStatus.signTransaction Shared.scheme status.sigs closed.ntxid (.ofDraft closed)
      = .ok tx := by
  obtain ⟨sigs, hsigs, hanswers, haligned⟩ := hanswered _ _ hfound
  have haddresses : (WithdrawalTx.ofDraft closed).addresses = [Shared.address] := rfl
  have hproper : ∀ c ∈ closed.inputs, Multisig.Proper c.address.required c.address.keys := by
    intro c hc
    rw [List.mem_singleton.mp hc]
    obtain ⟨_, _, hderives⟩ := memberOf_empowered.derives address_empowered
    exact hderives.proper
  unfold RoundStatus.signTransaction
  rw [hsigs]
  refine (WithdrawalTx.sign_exact hproper haligned).ok_iff.mpr ?_
  -- the one input has the entries of both keys
  rintro ⟨a, entries⟩ hp
  obtain ⟨series, ordered, hseries, horder, hentries⟩ := List.forall₂_zip hanswers hp
  have haddress : a ∈ (WithdrawalTx.ofDraft closed).addresses := (List.of_mem_zip hp).1
  rw [haddresses] at haddress
  obtain rfl := List.mem_singleton.mp haddress
  exact Shared.enough_of_answers ⟨series, ordered, hseries, horder, hentries⟩ empowered_holds.1
    empowered_holds.2

theorem run_changing : ∃ status,
    run Shared.scheme policy empowered.book 1 [Round.Sample.paying] [credit] changeStart
        = .ok status
      ∧ status.transactions = ⟨[(closed.ntxid, .ofDraft closed)]⟩
      ∧ Answered Shared.scheme empowered.book.bare empowered.book status := by
  have hnew : Round.new empowered.book.network ([Shared.due].map (·.request)) [credit] changeStart
      = .ok (opening [Shared.due] [credit] changeStart) :=
    new_opening (by decide) (List.forall_mem_singleton.mpr (Round.Sample.script_paying rfl))
      (by decide)
  obtain ⟨next, hnext⟩ := next_isOk
  obtain ⟨final, hfulfil, hfinalized⟩ := fulfil_of_next hnext
  have hpool : PoolInputs Shared.scheme empowered.book.bare final.finalized := by
    intro d hd c hc
    rw [hfinalized] at hd
    rw [List.mem_singleton.mp hd] at hc
    rw [List.mem_singleton.mp hc]
    exact address_empowered
  obtain ⟨status, hstatus, htransactions, hanswered⟩ :=
    toStatus_answered (KeyScheme.lawful_keeping _) memberOf_empowered hpool 1
  rw [hfinalized] at htransactions
  exact ⟨status, run_of_fulfil hnew hfulfil hstatus, htransactions, hanswered⟩

theorem processes_changing : ∃ status, changing.Processes Shared.scheme (call 1) status
    ∧ status.transactions = ⟨[(closed.ntxid, .ofDraft closed)]⟩
    ∧ status.signs Shared.scheme (closed.ntxid, .ofDraft closed) = true := by
  obtain ⟨status, hrun, htransactions, hanswered⟩ := run_changing
  obtain ⟨tx, hsigned⟩ := signed_of_answered (by simp [htransactions, OrderedMap.find?]) hanswered
  have hsigns : status.signs Shared.scheme (closed.ntxid, .ofDraft closed) = true := by
    unfold RoundStatus.signs
    rw [hsigned]
    rfl
  have hspent : (changing.commitFor Shared.scheme (call 1) status).spent = [larger.outpoint] := by
    show status.transactions.values.flatMap _ = _
    rw [htransactions]
    rfl
  refine ⟨status, ⟨(round_eq_ok_iff rfl).mpr rfl, ?_, ?_⟩, htransactions, hsigns⟩
  · exact newRound_eq_ok_iff.mpr
      ⟨changeStart, [credit], changeAddress_eq .empty, eligibleCredits_changing, hrun⟩
  · refine ⟨List.not_mem_nil, ?_, ?_, ?_, ?_⟩
    · rw [hspent]
      exact List.nodup_singleton _
    · rw [hspent]
      exact fun o ho => ho
    · rw [change_commitFor, htransactions, List.filterMap_cons]
      cases status.left? Shared.scheme (closed.ntxid, .ofDraft closed) with
      | none => exact List.nodup_nil
      | some output => exact List.nodup_singleton _
    · -- all that is stored is spent
      rw [hspent]
      exact fun output _ ho => ho

theorem fits_changing : changing.Fits Shared.scheme (call 1) := by
  refine ⟨?_, by decide +kernel⟩
  intro credits hcredits
  have hsame : [credit] = credits := Except.ok.inj (eligibleCredits_changing.symm.trans hcredits)
  rw [← hsame]
  decide

theorem inMemory_changing : changing.credits.InMemory where
  nodup := List.nodup_singleton _
  own := by
    intro e he
    rw [List.mem_singleton.mp he]
  works := rfl

end Sample

open Sample in
theorem changing_balance : ∃ status p' output,
    changing.credits.InMemory ∧ changing.Fits Round.Shared.scheme (call 1)
      ∧ changing.credits.rounds.find? (call 1).roundId = none
      ∧ changing.process Round.Shared.scheme (call 1) = (.ok status, p')
      ∧ status.transactions.values.map WithdrawalTx.paidOut = [41000]
      ∧ changing.credits.balance = p'.credits.balance + 41000
      ∧ p'.credits.unspent.values = [output]
      ∧ status.ChangeOf Round.Shared.scheme (closed.ntxid, .ofDraft closed) output := by
  obtain ⟨status, hprocesses, htransactions, hsigns⟩ := processes_changing
  have hprocess := process_of_processes rfl hprocesses
  obtain ⟨hbalance, added, hvalues, hchange⟩ :=
    balance_of_process inMemory_changing fits_changing rfl hprocess
  have hspent : status.spent = [larger.outpoint] := by
    unfold RoundStatus.spent
    rw [htransactions]
    rfl
  have hpaid : status.transactions.values.map WithdrawalTx.paidOut = [41000] := by
    rw [htransactions]
    rfl
  rw [hspent] at hvalues
  rw [hpaid, htransactions, List.filter_cons_of_neg (by simp [hsigns])] at hbalance
  rw [htransactions, List.filter_cons_of_pos (by rw [hsigns]; rfl)] at hchange
  obtain ⟨output, _, hof, hnil, rfl⟩ := List.forall₂_cons_left_iff.mp hchange
  rw [List.forall₂_nil_left_iff.mp hnil] at hvalues
  exact ⟨status, _, output, inMemory_changing, fits_changing, rfl, hprocess, hpaid, hbalance,
    hvalues, hof⟩

end Pool

end NotaryPool
