import NotaryPool.Proofs.Withdrawal.Loop

/-!
# Credits are spent in their order

The transactions of a round, the one under construction and the queue share the credits among them.
Credits move to and fro between the last input and the front of the queue, when a transaction gets
too big, but read one after the other the three always give the sorted credits.

## Contents

* `Round.creditChain`: the inputs of the transactions, then those of the draft, then the queue.
* `Round.Turn.creditChain_eq`: a turn keeps the chain.
* `Round.creditChain_eq_sort`: **credits are neither lost, nor doubled, nor reordered.**
-/

namespace NotaryPool

namespace Round

variable {K : KeyScheme} {P : TxPolicy} {r r' : Round}

/-- All credits of a round: the inputs of the finalized transactions, those of the transaction under
construction, and the queue. -/
def creditChain (r : Round) : List PoolCredit :=
  r.finalized.flatMap (·.inputs) ++ r.current.inputs ++ r.eligible

/-- Closing the transaction under construction moves its inputs over to the finalized ones. -/
theorem Finish.creditChain_eq (h : Finish K P r r') : r'.creditChain = r.creditChain := by
  cases h with
  | idle hpayments => rfl
  | closed hpayments hchange hnext hnoted =>
      unfold creditChain
      rw [List.flatMap_append, List.flatMap_singleton, Draft.addChange_inputs hchange]
      show _ ++ ([] : List PoolCredit) ++ _ = _
      rw [List.append_nil]

theorem creditChain_serving {due : DueRequest} {rest : List DueRequest}
    {taken left : List PoolCredit} (h : Serves P r due rest taken left) :
    (r.serving due rest taken left).creditChain = r.creditChain := by
  unfold creditChain
  rw [h.queue]
  show r.finalized.flatMap (·.inputs) ++ (r.current.inputs ++ taken) ++ left = _
  simp only [List.append_assoc]

/-- Credits that move between the last input and the front of the queue keep the chain. -/
theorem creditChain_restocked {draft : Draft} {eligible : List PoolCredit}
    (h : r.current.inputs ++ r.eligible = draft.inputs ++ eligible) :
    (r.restocked draft eligible).creditChain = r.creditChain := by
  unfold creditChain
  rw [List.append_assoc _ r.current.inputs, h]
  exact List.append_assoc _ _ _

/-- The last input goes back to the front of the queue. -/
theorem creditChain_returned {due : DueRequest} {rest : List DueRequest}
    {taken left inputs : List PoolCredit} {credit : PoolCredit} {draft : Draft}
    (hserves : Serves P r due rest taken left)
    (hinputs : r.current.inputs ++ taken = inputs ++ [credit])
    (hdraft : (r.current.serving due.request due.script taken).withInputs inputs = draft) :
    ((r.serving due rest taken left).restocked draft (credit :: left)).creditChain
      = r.creditChain := by
  rw [← creditChain_serving hserves]
  apply creditChain_restocked
  rw [← hdraft]
  show r.current.inputs ++ taken ++ left = inputs ++ credit :: left
  rw [hinputs, List.append_assoc]
  rfl

/-- The payment of such a draft is cut down. -/
theorem creditChain_halved {due : DueRequest} {rest : List DueRequest}
    {taken left inputs : List PoolCredit} {credit : PoolCredit} {draft : Draft} {amount : Nat}
    (hserves : Serves P r due rest taken left)
    (hinputs : r.current.inputs ++ taken = inputs ++ [credit])
    (hdraft : (r.current.serving due.request due.script taken).withInputs inputs = draft) :
    (((r.serving due rest taken left).restocked draft (credit :: left)).cutting due []
      amount).creditChain = r.creditChain := by
  show ((r.serving due rest taken left).restocked draft (credit :: left)).creditChain = _
  exact creditChain_returned hserves hinputs hdraft

/-- The last inputs go back to the front of the queue in their order. -/
theorem creditChain_postponed {due : DueRequest} {rest : List DueRequest}
    {taken left kept back : List PoolCredit} (hserves : Serves P r due rest taken left)
    (hinputs : r.current.inputs ++ taken = kept ++ back) :
    ((r.setStatus due.request.id .success).restocked (r.current.withInputs kept)
      (back ++ left)).creditChain = r.creditChain := by
  apply creditChain_restocked (r := r.setStatus due.request.id .success)
  show r.current.inputs ++ r.eligible = kept ++ (back ++ left)
  rw [hserves.queue, ← List.append_assoc, hinputs, List.append_assoc]

/-- **A turn keeps the chain of credits.** -/
theorem Turn.creditChain_eq {kind : TurnKind} (h : Turn K P r kind r') :
    r'.creditChain = r.creditChain := by
  cases h with
  | paid hserves hsmall hfunded => exact creditChain_serving hserves
  | cut hserves hsmall hunfunded hamount hpositive => exact creditChain_serving hserves
  | removed hserves hsmall hunfunded hnothing => exact creditChain_serving hserves
  | halved hserves hbig hfirst hinputs hdraft hfee hamount hfinish =>
      rw [(finish_cases hfinish).creditChain_eq]
      exact creditChain_halved hserves hinputs hdraft
  | postponed hserves hbig hmore hinputs hback hfunded hfinish =>
      rw [(finish_cases hfinish).creditChain_eq]
      exact creditChain_postponed hserves hinputs

theorem creditChain_prepared (r : Round) : r.prepared.creditChain = r.creditChain := by
  obtain ⟨dropped, kept, -, heq⟩ := prepared_eq r
  rw [heq]
  rfl

theorem After.creditChain_eq {start : Round} {n : Nat} (h : After K P start n r) :
    r.creditChain = start.creditChain :=
  After.invariant (fun r => r.creditChain = start.creditChain) rfl
    (fun _ _ hinv hturn => hturn.creditChain_eq.trans hinv) h

theorem fulfil_creditChain_eq (h : r.fulfil K P = .ok r') : r'.creditChain = r.creditChain := by
  obtain ⟨n, s, t, hafter, hfinish, rfl⟩ := fulfil_ok h
  have hsettle : t.settle.creditChain = t.creditChain := by
    rw [settle_eq]
    rfl
  calc t.settle.creditChain = t.creditChain := hsettle
    _ = s.creditChain := (finish_cases hfinish).creditChain_eq
    _ = r.prepared.creditChain := hafter.creditChain_eq
    _ = r.creditChain := creditChain_prepared r

theorem creditChain_new {network : AddressNetwork} {requests : List OutputRequest}
    {credits : List PoolCredit} {changeStart : ChangeAddress}
    (h : new network requests credits changeStart = .ok r) :
    r.creditChain = PoolCredit.sort credits := by
  obtain ⟨-, rfl⟩ := new_ok_iff.mp h
  rfl

/-- **Credits are neither lost, nor doubled, nor reordered.** Between any two turns and at the end
of a round, the inputs of the finalized transactions, those of the transaction under construction
and the queue together are the sorted credits. So the transactions spend a first part of the sorted
credits, and no credit more often than it was given. -/
theorem creditChain_eq_sort {network : AddressNetwork} {requests : List OutputRequest}
    {credits : List PoolCredit} {changeStart : ChangeAddress} {start : Round}
    (hnew : new network requests credits changeStart = .ok start) :
    (∀ n r, After K P start.prepared n r → r.creditChain = PoolCredit.sort credits)
      ∧ ∀ r, start.fulfil K P = .ok r →
          r.creditChain = PoolCredit.sort credits
          ∧ r.finalized.flatMap (·.inputs) <+: PoolCredit.sort credits
          ∧ ∀ c, (r.finalized.flatMap (·.inputs)).count c ≤ credits.count c := by
  constructor
  · intro n r hafter
    rw [hafter.creditChain_eq, creditChain_prepared, creditChain_new hnew]
  · intro r hfulfil
    have hchain : r.creditChain = PoolCredit.sort credits := by
      rw [fulfil_creditChain_eq hfulfil, creditChain_new hnew]
    -- what the transactions have spent is the beginning of the chain
    have hprefix : r.finalized.flatMap (·.inputs) <+: PoolCredit.sort credits := by
      rw [← hchain]
      exact ⟨r.current.inputs ++ r.eligible, (List.append_assoc _ _ _).symm⟩
    refine ⟨hchain, hprefix, ?_⟩
    intro c
    calc (r.finalized.flatMap (·.inputs)).count c
        ≤ (PoolCredit.sort credits).count c := hprefix.sublist.count_le c
      _ = credits.count c := (List.mergeSort_perm _ _).count_eq c

/-- The small round spends its two credits in their order. -/
theorem creditChain_of_sample :
    new Sample.book.network Sample.requests Sample.credits Sample.change = .ok Sample.start
      ∧ ∃ r, Sample.start.fulfil .secp256k1 Sample.policy = .ok r
        ∧ r.finalized.length = 1
        ∧ r.creditChain = PoolCredit.sort Sample.credits := by
  obtain ⟨r, hfulfil, hlength⟩ := Sample.fulfil_isOk
  exact ⟨Sample.new_eq, r, hfulfil, hlength,
    ((creditChain_eq_sort Sample.new_eq).2 r hfulfil).1⟩

end Round

end NotaryPool
