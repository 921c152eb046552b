import NotaryPool.Proofs.Withdrawal.Completion
import NotaryPool.Proofs.Withdrawal.Compliance
import NotaryPool.Proofs.Withdrawal.Outcomes

/-!
# A round that goes on after an error

A round that has stopped with an error can be asked to go on. What the error has left behind is
still there, and it is of two kinds. A payment that does not fit into a transaction stays in the
draft, alone and without enough inputs, and its request counts as paid. The next call builds on it,
and may close it as it is: a transaction that pays more than it spends. When a transaction cannot be
closed, on the other hand, it is lost with its inputs and payments, and the requests that it was to
pay keep their statuses: the next call may report one as paid that nothing pays.

This module shows that nothing else can go wrong. A transaction that is not balanced begins with a
payment that an earlier call has given up, and unless a transaction was lost every request that
counts as paid at the end is paid by an output of a transaction.

## Contents

* `Round.GivesUp`: payments that a call gives up.
* `Round.TurnFails.solventBut`, `Round.resumed_solventBut`: what an error and a call leave behind.
* `Round.TurnFails.ledger`, `Round.resumed_ledger`: the accounts after payments were given up.
* `Round.resumed_sound`: **the transactions and outcomes of any number of calls.**
* `Round.abandoned_overspends`, `Round.lost_unpaid`: both kinds of what is left behind at work.
-/

namespace NotaryPool

variable {K : KeyScheme} {P : TxPolicy} {network : AddressNetwork} {requests : List OutputRequest}

namespace Round

section Calls

variable {r r' start : Round} {n : Nat} {halt : Halt}

/-! ## Payments that a call gives up -/

/-- A call gives a payment up: it does not fit into a transaction, and stays as the only one in the
draft. -/
def GivesUp (K : KeyScheme) (P : TxPolicy) (r : Round) (p : Payment) : Prop :=
  ∃ halt, r.fulfil K P = .error halt ∧ halt.error = .precondition (.unsplittable p.request.id)
    ∧ halt.round.current.payments = [p]

/-- Payments of which the first one was given up in one of the first `n` calls. -/
def BehindGivenUp (K : KeyScheme) (P : TxPolicy) (start : Round) (n : Nat) (ps : List Payment) :
    Prop :=
  ∃ m < n, ∃ p, GivesUp K P (resumed K P start m) p ∧ ps.head? = some p

/-- A call stops for no other reason than that a payment does not fit into a transaction. -/
def OnlyGivesUp (K : KeyScheme) (P : TxPolicy) (r : Round) : Prop :=
  ∀ halt, r.fulfil K P = .error halt → ∃ id, halt.error = .precondition (.unsplittable id)

/-! ## What a call leaves behind -/

section Excused

variable {excused : List Payment → Prop}

theorem SolventBut.imp {excused' : List Payment → Prop} (himp : ∀ ps, excused ps → excused' ps)
    (hr : r.SolventBut excused) : r.SolventBut excused' :=
  { hr with
    covered := fun hsome => (hr.covered hsome).imp_right (himp _)
    balanced := fun d hd => (hr.balanced d hd).imp_right (himp _) }

theorem SolventBut.settle (hr : r.SolventBut excused) : r.settle.SolventBut excused := by
  have hcurrent := Nat.le_trans (Nat.le_add_right _ _) hr.requests
  rw [settle_eq]
  exact
    { credits := hr.credits
      due := Nat.zero_le _
      covered := hr.covered
      unclosed := hr.unclosed
      balanced := hr.balanced
      requests := hcurrent }

/-- When a draft cannot be closed it is lost, and nothing is left of it that could do harm. -/
theorem FinishFails.solventBut (h : FinishFails K P r halt) (hr : r.ClosableBut excused) :
    halt.round.SolventBut excused := by
  have hcredits := hr.credits
  unfold creditSum creditChain at hcredits
  simp only [List.map_append, List.sum_append] at hcredits
  rw [h.round_eq]
  refine
    { credits := ?_
      due := hr.due
      covered := fun hsome => absurd rfl hsome
      unclosed := rfl
      balanced := hr.balanced
      requests := ?_ }
  · unfold creditSum creditChain
    simp only [List.map_append, List.sum_append, Draft.empty, List.map_nil, List.sum_nil]
    omega
  · show 0 + dueSum r.pending ≤ Amount.largest
    rw [Nat.zero_add]
    exact hr.due

/-- A payment that does not fit into a transaction stays in the draft without what it needs. -/
theorem SolventBut.stuck {s : Round} {due : DueRequest} {rest : List DueRequest}
    {taken left : List PoolCredit} (hr : r.SolventBut excused)
    (hserves : Serves P r due rest taken left) (hchain : s.creditChain = r.creditChain)
    (hpending : s.pending = rest) (hpayments : s.current.payments = [due.whole])
    (hunclosed : s.current.change = r.current.change) (hfinalized : s.finalized = r.finalized)
    (hexcused : excused [due.whole]) : s.SolventBut excused := by
  have hrequests := hr.requests
  rw [dueSum_front hserves] at hrequests
  have hsum : s.current.paymentSum = due.request.amount := by
    unfold Draft.paymentSum
    rw [hpayments]
    exact Nat.add_zero _
  refine
    { credits := ?_
      due := ?_
      covered := fun _ => Or.inr ?_
      unclosed := hunclosed.trans hr.unclosed
      balanced := ?_
      requests := ?_ }
  · unfold creditSum
    rw [hchain]
    exact hr.credits
  · rw [hpending]
    omega
  · rw [hpayments]
    exact hexcused
  · rw [hfinalized]
    exact hr.balanced
  · rw [hsum, hpending]
    omega

/-- **An error leaves behind what can go on**, if the payment that is given up is excused. -/
theorem TurnFails.solventBut (h : TurnFails K P r halt) (hr : r.SolventBut excused)
    (hgiven : ∀ p, halt.error = .precondition (.unsplittable p.request.id) →
      halt.round.current.payments = [p] → excused [p]) : halt.round.SolventBut excused := by
  cases h with
  | @bare due rest taken left hserves hbig hfirst hinputs =>
      have hpayments : (r.serving due rest taken left).current.payments = [due.whole] := by
        show r.current.payments ++ [due.whole] = _
        rw [hfirst, List.nil_append]
      exact hr.stuck hserves (creditChain_serving hserves) rfl hpayments rfl rfl
        (hgiven due.whole rfl hpayments)
  | @starved due rest taken left inputs credit draft hserves hbig hfirst hinputs hdraft hfee =>
      have hpayments : draft.payments = [due.whole] := Draft.serving_single hfirst hdraft
      exact hr.stuck hserves (creditChain_returned hserves hinputs hdraft) rfl hpayments
        (by rw [← hdraft]; rfl) rfl (hgiven due.whole rfl hpayments)
  | halved hserves hbig hfirst hinputs hdraft hfee hfinish =>
      exact hfinish.solventBut (hr.halving hserves hinputs hdraft rfl)
  | postponed hserves hbig hmore hinputs hfunded hfinish =>
      exact hfinish.solventBut (hr.postponing hserves hmore hinputs hfunded)

/-- So does a whole call. -/
theorem SolventBut.reached (hr : r.SolventBut excused)
    (hgiven : ∀ p, GivesUp K P r p → excused [p]) :
    (reached (r.fulfil K P)).SolventBut excused := by
  cases hresult : r.fulfil K P with
  | ok final =>
      obtain ⟨n, s, t, hafter, hfinish, rfl⟩ := fulfil_ok hresult
      exact ((finish_cases hfinish).solventBut
        (hafter.solventBut hr.prepared).toClosableBut).settle
  | error halt =>
      obtain ⟨n, s, hafter, hfails⟩ := fulfil_fails hresult
      have hs := hafter.solventBut hr.prepared
      rcases hfails with ⟨-, hturn⟩ | hfinish
      · exact hturn.solventBut hs fun p herror hpayments =>
          hgiven p ⟨halt, hresult, herror, hpayments⟩
      · exact hfinish.solventBut hs.toClosableBut

end Excused

/-- **Between any two calls** the inputs of the transactions cover their payments, but for those
behind a payment that a call has given up. -/
theorem resumed_solventBut (hstart : start.Solvent) (n : Nat) :
    (resumed K P start n).SolventBut (BehindGivenUp K P start n) := by
  induction n with
  | zero => exact (solvent_iff.mp hstart).imp fun _ hnever => hnever.elim
  | succ n ih =>
      have hr : (resumed K P start n).SolventBut (BehindGivenUp K P start (n + 1)) := by
        refine ih.imp ?_
        rintro ps ⟨m, hm, hgiven⟩
        exact ⟨m, Nat.lt_succ_of_lt hm, hgiven⟩
      exact hr.reached fun p hgiven => ⟨n, Nat.lt_succ_self n, p, hgiven, rfl⟩

/-! ## The accounts -/

theorem FinishFails.error_ne (h : FinishFails K P r halt) (id : RequestId) :
    halt.error ≠ .precondition (.unsplittable id) := by
  intro herror
  cases h with
  | reclosed hclosed => cases herror
  | unrotated hnext => cases herror
  | inconsistent hchange hpayments hfault =>
      obtain ⟨o, -, -, -, -, rfl⟩ := fulfilmentFault?_eq_some hfault
      cases herror

/-- When a payment is given up, its request is still open. -/
theorem TurnFails.ledger (h : TurnFails K P r halt) {id : RequestId}
    (herror : halt.error = .precondition (.unsplittable id)) (hids : (requests.map (·.id)).Nodup)
    (hr : Ledger network requests r) : Ledger network requests halt.round := by
  cases h with
  | @bare due rest taken left hserves hbig hfirst hinputs =>
      exact hr.mark_success (s := r.serving due rest taken left) hids hserves rfl rfl
        (openParts_serving hserves)
  | @starved due rest taken left inputs credit draft hserves hbig hfirst hinputs hdraft hfee =>
      subst hdraft
      exact hr.mark_success (s := (r.serving due rest taken left).restocked _ (credit :: left))
        hids hserves rfl rfl (openParts_serving hserves)
  | halved hserves hbig hfirst hinputs hdraft hfee hfinish =>
      exact absurd herror (hfinish.error_ne id)
  | postponed hserves hbig hmore hinputs hfunded hfinish =>
      exact absurd herror (hfinish.error_ne id)

/-- A call that gives a payment up keeps the accounts. -/
theorem Ledger.reached (hr : Ledger network requests r) (hids : (requests.map (·.id)).Nodup)
    (hcuts : CutsWithin K P r.prepared) (h : r.fulfil K P = .error halt) {id : RequestId}
    (herror : halt.error = .precondition (.unsplittable id)) :
    Ledger network requests halt.round := by
  obtain ⟨n, s, hafter, hfails⟩ := fulfil_fails h
  have hs := hafter.ledger hids hcuts (hr.prepared hids)
  rcases hfails with ⟨-, hturn⟩ | hfinish
  · exact hturn.ledger herror hids hs
  · exact absurd herror (hfinish.error_ne id)

/-- Between two calls a round has its accounts, or it has ended well. -/
theorem resumed_ledger (hids : (requests.map (·.id)).Nodup) (hstart : Ledger network requests start)
    (honly : ∀ m < n, OnlyGivesUp K P (resumed K P start m))
    (hcuts : ∀ m < n, CutsWithin K P (resumed K P start m).prepared) :
    Ledger network requests (resumed K P start n)
      ∨ (resumed K P start n).fulfil K P = .ok (resumed K P start n)
        ∧ Reported network requests (resumed K P start n) := by
  induction n with
  | zero => exact Or.inl hstart
  | succ n ih =>
      have hbefore := ih (fun m hm => honly m (Nat.lt_succ_of_lt hm))
        fun m hm => hcuts m (Nat.lt_succ_of_lt hm)
      cases hresult : (resumed K P start n).fulfil K P with
      | ok final =>
          rw [resumed_of_ok hresult]
          refine Or.inr ⟨fulfil_settled hresult, ?_⟩
          rcases hbefore with hledger | ⟨hend, hreported⟩
          · exact fulfil_reported hids (hcuts n (Nat.lt_succ_self n)) hledger hresult
          · rw [hend] at hresult
            cases hresult
            exact hreported
      | error halt =>
          rw [resumed_of_error hresult]
          obtain ⟨id, herror⟩ := honly n (Nat.lt_succ_self n) halt hresult
          rcases hbefore with hledger | ⟨hend, -⟩
          · exact Or.inl (hledger.reached hids (hcuts n (Nat.lt_succ_self n)) hresult herror)
          · rw [hend] at hresult
            cases hresult

end Calls

end Round

/-- A draft pays all of a request by one output, and the outcome records this output only. -/
def Draft.Pays (network : AddressNetwork) (d : Draft) (o : RequestOutcome) : Prop :=
  ∃ index p, d.payments[index]? = some p ∧ o.outpoints = [⟨d.ntxid, index, p.amount⟩]
    ∧ p.amount = o.request.amount ∧ o.request.script network = .ok p.script

namespace Round

/-- What counts as paid by one output is paid by an output of a transaction. -/
theorem Reported.pays {r : Round} (h : Reported network requests r) {o : RequestOutcome}
    (ho : o ∈ r.outcomes) (hsuccess : o.status = .success) :
    ∃ d ∈ r.finalized, d.Pays network o := by
  obtain ⟨out, hout, hamount⟩ := (h.truthful o ho).success hsuccess
  have hrecorded : (out, o.request.script network) ∈ recordedOutputs network r.outcomes :=
    List.mem_flatMap.mpr ⟨o, ho, by rw [hout]; exact List.mem_cons_self⟩
  obtain ⟨d, hd, hplaced⟩ := List.mem_flatMap.mp (h.recorded.mem_iff.mp hrecorded)
  obtain ⟨⟨p, index⟩, hp, heq⟩ := List.mem_map.mp hplaced
  obtain ⟨rfl, hscript⟩ := Prod.mk.inj heq
  exact ⟨d, hd, index, p, List.mem_zipIdx_iff_getElem?.mp hp, hout, hamount, hscript.symm⟩

/-- **The transactions and outcomes of any number of calls.** Let the sums that a round begins with
be such that they can be stored, and let the round be asked to go on any number of times, whatever
errors the calls have. Each transaction spends what it pays, its change and its fee, unless its
first payment is one that a call has given up before. When a call ends well, the calls before have
lost no transaction, and no cut of them pays more than asked, then each request that counts as paid
is paid in full by one output of one of the transactions. -/
theorem resumed_sound {credits : List PoolCredit} {changeStart : ChangeAddress} {start : Round}
    (hnew : new network requests credits changeStart = .ok start) (hfits : start.Fits) (n : Nat) :
    (∀ d ∈ (resumed K P start n).finalized,
        d.Balanced ∨ BehindGivenUp K P start n d.payments)
      ∧ ∀ final, (resumed K P start n).fulfil K P = .ok final →
          (∀ m < n, OnlyGivesUp K P (resumed K P start m)) →
          (∀ m ≤ n, CutsWithin K P (resumed K P start m).prepared) →
          ∀ o ∈ final.outcomes, o.status = .success → ∃ d ∈ final.finalized, d.Pays network o := by
  constructor
  · exact (resumed_solventBut (hfits.solvent_new hnew) n).balanced
  · intro final hfinal honly hcuts o ho hsuccess
    obtain ⟨hids, hledger⟩ := ledger_new hnew
    have hreported : Reported network requests final := by
      rcases resumed_ledger hids hledger honly fun m hm => hcuts m (Nat.le_of_lt hm) with
        hledger | ⟨hend, hreported⟩
      · exact fulfil_reported hids (hcuts n (Nat.le_refl n)) hledger hfinal
      · rw [hend] at hfinal
        cases hfinal
        exact hreported
    exact hreported.pays ho hsuccess

/-! ## What is left behind -/

/-- Where no turn is made there are no cuts. -/
theorem cutsWithin_of_idle {start : Round}
    (hidle : ∀ r', start.GoesOn P 0 → start.turn K P ≠ .ok r') : CutsWithin K P start := by
  intro n r r' asked amount hafter hgo hturn
  have hfirst : n = 0 ∧ r = start := by
    clear hgo hturn
    induction hafter with
    | zero => exact ⟨rfl, rfl⟩
    | succ hbefore hmore hok ih =>
        obtain ⟨rfl, rfl⟩ := ih
        exact absurd hok (hidle _ hmore)
  obtain ⟨rfl, rfl⟩ := hfirst
  exact absurd (turn_of_rel hturn) (hidle r' hgo)

namespace Abandoned

def due : DueRequest := Leftover.due 1 5000

/-- Two credits, of which the first one does not pay the fee. -/
def credits : List PoolCredit := Leftover.credits [500, 6000]

def start : Round := opening [due] credits Sample.change

/-- The policy with a limit that a second input reaches. -/
def limited : StandardPolicy := ⟨1000, 500⟩

theorem new_eq : new .regtest ([due].map (·.request)) credits Sample.change = .ok start :=
  new_opening (by decide) (List.forall_mem_singleton.mpr (Leftover.script_due 1 5000)) (by decide)

/-- The round after its first call: the payment is in the draft with the first credit. -/
def stuck : Round :=
  { start with
    pending := []
    eligible := credits.drop 1
    current := { Draft.empty with inputs := credits.take 1, payments := [due.whole] }
    outcomes := [⟨due.request, .success, []⟩] }

theorem fulfil_eq_error : start.fulfil .secp256k1 limited.toPolicy
    = .error ⟨.precondition (.unsplittable due.request.id), stuck⟩ := by
  have hprepared : start.prepared = start := prepared_opening (by decide) (by decide)
  rw [fulfil_eq, hprepared]
  decide

theorem resumed_eq : resumed .secp256k1 limited.toPolicy start 1 = stuck :=
  resumed_of_error (n := 0) fulfil_eq_error

/-- The first turn fails, and in the second call there is none. -/
theorem cutsWithin {m : Nat} (hm : m ≤ 1) :
    CutsWithin .secp256k1 limited.toPolicy
      (resumed .secp256k1 limited.toPolicy start m).prepared := by
  match m, hm with
  | 0, _ =>
      have hprepared : start.prepared = start := prepared_opening (by decide) (by decide)
      show CutsWithin _ _ start.prepared
      rw [hprepared]
      apply cutsWithin_of_idle
      intro r' hgo hturn
      have hfails : (start.turn .secp256k1 limited.toPolicy).isOk = false := by decide +kernel
      rw [hturn] at hfails
      cases hfails
  | 1, _ =>
      rw [resumed_eq, prepared_of_nil rfl]
      exact cutsWithin_of_idle fun r' hgo => absurd rfl hgo.1

end Abandoned

/-- After the first call has given the payment up the second one ends well, and the request is paid
by a transaction that begins with this payment. -/
theorem abandoned_sound :
    (∀ d ∈ (resumed .secp256k1 Abandoned.limited.toPolicy Abandoned.start 2).finalized,
        d.Balanced
          ∨ BehindGivenUp .secp256k1 Abandoned.limited.toPolicy Abandoned.start 2 d.payments)
      ∧ ∀ final, (resumed .secp256k1 Abandoned.limited.toPolicy Abandoned.start 1).fulfil
          .secp256k1 Abandoned.limited.toPolicy = .ok final →
          ∀ o ∈ final.outcomes, o.status = .success → ∃ d ∈ final.finalized, d.Pays .regtest o := by
  have hfits : Abandoned.start.Fits := ⟨by decide, by decide⟩
  constructor
  · exact (resumed_sound Abandoned.new_eq hfits 2).1
  · intro final hfinal
    refine (resumed_sound Abandoned.new_eq hfits 1).2 final hfinal ?_
      fun m hm => Abandoned.cutsWithin hm
    intro m hm halt hhalt
    obtain rfl : m = 0 := Nat.lt_one_iff.mp hm
    cases Abandoned.fulfil_eq_error.symm.trans hhalt
    exact ⟨_, rfl⟩

/-- The first call gives the payment of five thousand up. The second one closes the draft that is
left, whose only input is a credit of five hundred, and reports the request as paid. -/
theorem abandoned_overspends :
    new .regtest ([Abandoned.due].map (·.request)) Abandoned.credits Sample.change
        = .ok Abandoned.start
      ∧ Abandoned.start.Fits
      ∧ (resumed .secp256k1 Abandoned.limited.toPolicy Abandoned.start 2).finalized.map
          (fun d => (d.inputSum, d.paymentSum + d.changeAmount)) = [(500, 5000)]
      ∧ (resumed .secp256k1 Abandoned.limited.toPolicy Abandoned.start 2).outcomes.map
          (fun o => (o.status, o.fulfilled)) = [(.success, 5000)] := by
  have hok : (Abandoned.stuck.fulfil .secp256k1 Abandoned.limited.toPolicy).toOption.any
      (fun final => final.finalized.map (fun d => (d.inputSum, d.paymentSum + d.changeAmount))
          = [(500, 5000)]
        ∧ final.outcomes.map (fun o => (o.status, o.fulfilled)) = [(.success, 5000)]) = true := by
    rw [fulfil_of_nil rfl]
    decide +kernel
  obtain ⟨final, hfinal, htest⟩ := fulfil_any hok
  rw [← Abandoned.resumed_eq] at hfinal
  rw [resumed_of_ok (n := 1) hfinal]
  exact ⟨Abandoned.new_eq, ⟨by decide, by decide⟩, of_decide_eq_true htest⟩

namespace Lost

/-- The last change address that there is. -/
def change : ChangeAddress := ⟨{ Sample.address 0 with index := ⟨0x7fffffff⟩ }⟩

def start : Round := opening [Abandoned.due] (Leftover.credits [10000]) change

/-- The round after its first call: the draft is lost, and the request counts as paid. -/
def emptied : Round :=
  { start with
    pending := []
    eligible := []
    outcomes := [⟨Abandoned.due.request, .success, []⟩] }

theorem fulfil_eq_error : start.fulfil .secp256k1 StandardPolicy.standard.toPolicy
    = .error ⟨.derive (.hardened ⟨0x80000000⟩), emptied⟩ := by
  have hprepared : start.prepared = start := prepared_opening (by decide) (by decide)
  rw [fulfil_eq, hprepared]
  decide

end Lost

/-- The first call fails since there is no next change address, and loses the transaction. The
second one ends well, without any transaction, and reports the request as paid. -/
theorem lost_unpaid :
    new .regtest ([Abandoned.due].map (·.request)) (Leftover.credits [10000]) Lost.change
        = .ok Lost.start
      ∧ ∃ final, (resumed .secp256k1 StandardPolicy.standard.toPolicy Lost.start 1).fulfil
          .secp256k1 StandardPolicy.standard.toPolicy = .ok final
        ∧ final.finalized = []
        ∧ final.outcomes = [⟨Abandoned.due.request, .success, []⟩] := by
  have hemptied : resumed .secp256k1 StandardPolicy.standard.toPolicy Lost.start 1
      = Lost.emptied := resumed_of_error (n := 0) Lost.fulfil_eq_error
  rw [hemptied, fulfil_of_nil rfl]
  exact ⟨new_opening (by decide) (List.forall_mem_singleton.mpr (Leftover.script_due 1 5000))
    (by decide), _, rfl, rfl, rfl⟩

end Round

end NotaryPool
