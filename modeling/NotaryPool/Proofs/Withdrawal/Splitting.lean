import NotaryPool.Proofs.Withdrawal.Loop

/-!
# Splitting a payment

The last payment of a draft is split when the credits run out, and when it is the only one of a
transaction that has become too big. What is paid of it is not compared with what it asks for: that
less is paid follows from the draft not being funded, which has to be known wherever a payment is
split. It is known in all states but one. When the credits leave nothing for the only payment of a
draft, the payment is removed and its inputs stay. If the next payment alone then makes the
transaction too big, it is split over inputs that were never measured against it.

## Contents

* `Round.Splits`: the states in which a turn splits the last payment.
* `Round.Stranded`, `Round.After.inputs_or_removed`: inputs that have outlived their payment.
* `Round.split_pays_less`: **a split pays less than was asked, unless inputs are stranded.**
* `Round.stranded_pays_all`: a round in which a split pays all that was asked.
-/

namespace NotaryPool

variable {K : KeyScheme} {P : TxPolicy}

namespace Draft

variable {d : Draft}

/-- What an unfunded draft leaves for its last payment is less than that payment. -/
theorem unspent_lt {ps : List Payment} {p : Payment} (hpayments : d.payments = ps ++ [p])
    (hunfunded : d.isFunded P = false) (hpositive : d.unspent P p.amount ≠ 0) :
    d.unspent P p.amount < p.amount := by
  have hshort : ¬ d.outputTotal + d.requiredFee P ≤ d.inputTotal := of_decide_eq_false hunfunded
  have hinputs : d.inputTotal ≤ Amount.largest := Amount.total_le_largest _
  -- a total that is not the sum is the largest amount, and the inputs are not more than that
  have houtputs : p.amount ≤ d.outputTotal ∨ d.outputTotal = Amount.largest := by
    unfold outputTotal Amount.total
    rw [hpayments, List.map_append, List.sum_append, List.map_singleton, List.sum_singleton]
    omega
  unfold unspent at hpositive ⊢
  omega

end Draft

namespace Round

variable {r r' s t : Round} {due : DueRequest}

/-! ## Where payments are split -/

/-- The next turn of a round splits the payment for a request in the state `s`. -/
inductive Splits (P : TxPolicy) (r : Round) : DueRequest → Round → Prop
  /-- The credits have run out. -/
  | exhausted {due rest taken} (hserves : Serves P r due rest taken [])
      (hsmall : (r.current.serving due.request due.script taken).isTooBig P = false)
      (hunfunded : (r.current.serving due.request due.script taken).isFunded P = false) :
      Splits P r due (r.serving due rest taken [])
  /-- The transaction has become too big for its only payment, and its last input has gone back. -/
  | oversize {due rest taken left inputs credit draft} (hserves : Serves P r due rest taken left)
      (hbig : (r.current.serving due.request due.script taken).isTooBig P = true)
      (hfirst : r.current.payments = [])
      (hinputs : r.current.inputs ++ taken = inputs ++ [credit])
      (hdraft : (r.current.serving due.request due.script taken).withInputs inputs = draft)
      (hfee : draft.requiredFee P < draft.inputTotal) :
      Splits P r due ((r.serving due rest taken left).restocked draft (credit :: left))

/-- The payment that is split is the last one and asks for all of the request. -/
theorem Splits.payments_eq (h : Splits P r due s) :
    s.current.payments
      = r.current.payments ++ [⟨due.request, due.request.amount, due.script⟩] := by
  cases h with
  | exhausted hserves hsmall hunfunded => rfl
  | oversize hserves hbig hfirst hinputs hdraft hfee =>
      rw [← hdraft]
      rfl

theorem Splits.splitLast_eq (h : Splits P r due s) :
    s.splitLast P = .ok (if s.current.unspent P due.request.amount = 0
      then s.dropping due r.current.payments
      else s.cutting due r.current.payments (s.current.unspent P due.request.amount)) :=
  Round.splitLast_eq due r.current.payments h.payments_eq

/-- A turn that splits a payment ends with the split, or closes the transaction after it. -/
theorem Splits.turn_eq (h : Splits P r due s) :
    r.turn K P = s.splitLast P ∨ ∃ t, s.splitLast P = .ok t ∧ r.turn K P = t.finish K P := by
  cases h with
  | exhausted hserves hsmall hunfunded =>
      left
      rw [turn_of_serves hserves, conclude_unfunded (r := r.serving _ _ _ _) hsmall hunfunded]
  | @oversize rest taken left _ credit draft hserves hbig hfirst hinputs hdraft hfee =>
      right
      have hsingle := Draft.serving_single hfirst hdraft
      have hunspent := Draft.unspent_single (P := P) hsingle
      refine ⟨_, Round.splitLast_eq due [] hsingle, ?_⟩
      rw [turn_of_serves hserves, conclude_big (r := r.serving _ _ _ _) hbig,
        relieve_halved hfirst hinputs hdraft hfee, current_restocked,
        if_neg (by rw [hunspent]; omega)]

/-- Whatever a turn cuts or removes, it splits. -/
theorem Turn.splits {kind : TurnKind} (h : Turn K P r kind r')
    (hkind : kind = .removed ∨ ∃ asked amount, kind = .cut asked amount) :
    ∃ due s, Splits P r due s := by
  cases h with
  | paid hserves hsmall hfunded => simp at hkind
  | cut hserves hsmall hunfunded hamount hpositive =>
      exact ⟨_, _, .exhausted hserves hsmall hunfunded⟩
  | removed hserves hsmall hunfunded hnothing =>
      exact ⟨_, _, .exhausted hserves hsmall hunfunded⟩
  | halved hserves hbig hfirst hinputs hdraft hfee hamount hfinish =>
      exact ⟨_, _, .oversize hserves hbig hfirst hinputs hdraft hfee⟩
  | postponed hserves hbig hmore hinputs hback hfunded hfinish => simp at hkind

/-! ## Inputs that outlive their payment -/

/-- A draft without payments has inputs only if the last turn has removed its only payment. -/
theorem After.inputs_or_removed {start : Round} {n : Nat} (hstart : start.current = .empty)
    (h : After K P start n r) (hpayments : r.current.payments = []) :
    r.current.inputs = []
      ∨ ∃ m q, n = m + 1 ∧ After K P start m q ∧ q.GoesOn P m ∧ Turn K P q .removed r := by
  cases h with
  | zero =>
      rw [hstart]
      exact Or.inl rfl
  | @succ m q _ hafter hgo hok =>
      obtain ⟨kind, hturn⟩ := hgo.turn hok
      cases hturn with
      | paid hserves hsmall hfunded => simp [Draft.serving] at hpayments
      | cut hserves hsmall hunfunded hamount hpositive =>
          simp [cutting] at hpayments
      | removed hserves hsmall hunfunded hnothing =>
          exact Or.inr ⟨m, q, rfl, hafter, hgo, .removed hserves hsmall hunfunded hnothing⟩
      | halved hserves hbig hfirst hinputs hdraft hfee hamount hfinish =>
          rw [(finish_cases hfinish).current_eq (by simp [cutting])]
          exact Or.inl rfl
      | postponed hserves hbig hmore hinputs hback hfunded hfinish =>
          rw [(finish_cases hfinish).current_eq hmore]
          exact Or.inl rfl

/-- After `n` turns the draft has inputs from a payment that was removed, and no payment. The next
request makes the transaction too big before a credit is taken for it. -/
structure Stranded (K : KeyScheme) (P : TxPolicy) (start : Round) (n : Nat) (r : Round)
    (due : DueRequest) : Prop where
  payments : r.current.payments = []
  inputs : r.current.inputs ≠ []
  removed : ∃ m q, n = m + 1 ∧ After K P start m q ∧ q.GoesOn P m ∧ Turn K P q .removed r
  big : (r.current.serving due.request due.script []).isTooBig P = true

/-! ## What a split pays -/

/-- Where a payment is split, the draft is not funded, unless inputs are stranded. -/
theorem Splits.unfunded {start : Round} {n : Nat} (hstart : start.current = .empty)
    (hafter : After K P start n r) (h : Splits P r due s) :
    s.current.isFunded P = false ∨ Stranded K P start n r due := by
  cases h with
  | exhausted hserves hsmall hunfunded => exact Or.inl hunfunded
  | @oversize _ taken _ inputs _ _ hserves hbig hfirst hinputs hdraft hfee =>
      rcases List.eq_nil_or_concat taken with rfl | ⟨stage, last, htaken⟩
      · -- no credit has been taken, so the input that went back was there before the turn
        right
        have hne : r.current.inputs ≠ [] := by
          intro hnil
          rw [hnil] at hinputs
          simp at hinputs
        have hremoved := (hafter.inputs_or_removed hstart hfirst).resolve_left hne
        exact ⟨hfirst, hne, hremoved, hbig⟩
      · -- the credit that went back was taken because without it the draft was not funded
        left
        rw [List.concat_eq_append] at htaken
        have hstages := hserves.stages htaken
        rw [htaken, ← List.append_assoc] at hinputs
        obtain ⟨hkept, -⟩ := List.append_inj' hinputs rfl
        rw [← hdraft, ← hkept]
        exact hstages.2

/-- **A split pays less than was asked, unless inputs are stranded.** Each time that a turn of a
round splits a payment, either the payment is removed, or it is cut down to a positive amount and
the rest of the request goes back to the queue. The amount is less than the request asked for, so
the rest is positive, unless the turn before has removed the only payment of a draft and left its
inputs, and the next request makes the transaction too big at once. -/
theorem split_pays_less {network : AddressNetwork} {requests : List OutputRequest}
    {credits : List PoolCredit} {changeStart : ChangeAddress} {start : Round} {n : Nat}
    (hnew : new network requests credits changeStart = .ok start)
    (hafter : After K P start.prepared n r) (hsplits : Splits P r due s) :
    s.splitLast P = .ok (s.dropping due r.current.payments)
      ∨ ∃ amount, s.splitLast P = .ok (s.cutting due r.current.payments amount)
          ∧ 0 < amount
          ∧ (amount < due.request.amount ∨ Stranded K P start.prepared n r due) := by
  have hstart : start.prepared.current = .empty := by
    obtain ⟨dropped, kept, -, heq⟩ := prepared_eq start
    obtain ⟨-, rfl⟩ := new_ok_iff.mp hnew
    rw [heq]
  have hsplit := hsplits.splitLast_eq
  split at hsplit
  · exact Or.inl hsplit
  · rename_i hpositive
    refine Or.inr ⟨_, hsplit, Nat.pos_of_ne_zero hpositive, ?_⟩
    rcases hsplits.unfunded hstart hafter with hunfunded | hstranded
    · exact Or.inl (Draft.unspent_lt hsplits.payments_eq hunfunded hpositive)
    · exact Or.inr hstranded

/-- In the small round the credits leave less than was asked. -/
theorem sample_split_pays_less :
    ∃ s amount, Splits Sample.policy Sample.start ⟨Sample.paying, Sample.script⟩ s
      ∧ s.splitLast Sample.policy = .ok (s.cutting ⟨Sample.paying, Sample.script⟩ [] amount)
      ∧ 0 < amount ∧ amount < Sample.paying.amount := by
  have hserves : Serves Sample.policy Sample.start ⟨Sample.paying, Sample.script⟩ []
      Sample.credits.reverse [] := ⟨rfl, rfl, by decide +kernel⟩
  have hsplits : Splits Sample.policy Sample.start ⟨Sample.paying, Sample.script⟩ _ :=
    .exhausted hserves (by decide +kernel) (by decide +kernel)
  have hafter : After .secp256k1 Sample.policy Sample.start.prepared 0 Sample.start := by
    rw [Sample.prepared_eq]
    exact .zero
  rcases split_pays_less Sample.new_eq hafter hsplits with
    hnone | ⟨amount, hsplit, hpositive, hless⟩
  · have hsome := hsplits.splitLast_eq
    rw [if_neg (by decide +kernel), hnone] at hsome
    cases hsome
  · exact ⟨_, amount, hsplits, hsplit, hpositive,
      hless.resolve_right fun hstranded => hstranded.inputs rfl⟩

/-! ## A split that pays all that was asked

Two credits at an address of two keys out of three leave nothing for the first request. Its payment
is removed, and its inputs stay. The output of the second request is a little longer, so that the
transaction is too big with it. Without the last input, what is left is just what the request asks
for. -/

namespace Stranding

def shared : PoolAddress :=
  ⟨⟨1⟩, ⟨1⟩, ⟨0⟩, 2, .regtest, [Sample.xpub, Sample.xpub, Sample.xpub],
    [Sample.key, Sample.key, Sample.key]⟩

def credits : List PoolCredit :=
  [⟨⟨Vector.replicate 32 1, 0⟩, 1900, some 1, shared⟩,
    ⟨⟨Vector.replicate 32 1, 1⟩, 100, some 1, shared⟩]

def first : DueRequest :=
  ⟨⟨"bcrt1qqqqqqqqqqqqqqqqqqqqqqqqqqqqqqqqqdku202", 1000, ⟨"server", 1⟩⟩, Sample.script⟩

def second : DueRequest :=
  ⟨⟨"bcrt1qqqqsyqcyq5rqwzqfpg9scrgwpugpzysnzs23v9ccrydpk8qarc0scjhmyt", 700, ⟨"server", 2⟩⟩,
    0 :: 32 :: (List.range 32).map UInt8.ofNat⟩

/-- A fee for each input and output, and a limit on the size. -/
def policy : TxPolicy := (⟨0, 900, 150, 0, some 680, none, none⟩ : LinearPolicy).toPolicy

/-- The round before its first turn. -/
def start : Round := opening [first, second] credits Sample.change

/-- The round after its first turn. -/
def next : Round := (start.serving first [second] credits []).dropping first []

/-- The second turn, when the last input has gone back. -/
def split : Round :=
  (next.serving second [] [] []).restocked
    ((next.current.serving second.request second.script []).withInputs (credits.take 1))
    (credits.drop 1)

theorem script_second {q : OutputRequest} (h : q.address = second.request.address) :
    q.script .regtest = .ok second.script := by
  have htaken : (intake .regtest second.request).2 = some second := by decide +kernel
  rw [script_of_address h]
  exact (script_of_intake htaken).2

theorem new_eq :
    new .regtest ([first, second].map (·.request)) credits Sample.change = .ok start :=
  new_opening (by decide) (List.forall_mem_cons.mpr ⟨Sample.script_paying rfl,
    List.forall_mem_singleton.mpr (script_second rfl)⟩) (by decide)

theorem prepared_eq : start.prepared = start :=
  prepared_opening (by decide) (by decide +kernel)

/-- The first payment is removed. -/
theorem removed : Turn .secp256k1 policy start .removed next :=
  .removed ⟨rfl, rfl, by decide⟩ (by decide) (by decide) (by decide)

theorem splits : Splits policy next second split :=
  .oversize ⟨rfl, rfl, by decide⟩ (by decide) rfl rfl rfl (by decide)

theorem splitLast_eq :
    split.splitLast policy = .ok (split.cutting second [] second.request.amount) := by
  have hamount : split.current.unspent policy second.request.amount = second.request.amount := by
    decide
  rw [splits.splitLast_eq, hamount]
  rfl

end Stranding

/-- A split pays all that was asked, so nothing is left that would go back to the queue, and yet the
request is marked as unpaid and put there. -/
theorem stranded_pays_all :
    (∀ due ∈ [Stranding.first, Stranding.second], 0 < due.request.amount)
      ∧ ∃ start r s,
        new .regtest ([Stranding.first, Stranding.second].map (·.request)) Stranding.credits
            Sample.change = .ok start
          ∧ After .secp256k1 Stranding.policy start.prepared 1 r ∧ r.GoesOn Stranding.policy 1
          ∧ Splits Stranding.policy r Stranding.second s
          ∧ s.splitLast Stranding.policy
            = .ok (s.cutting Stranding.second [] Stranding.second.request.amount) := by
  have hgo : Stranding.start.GoesOn Stranding.policy 0 := ⟨by decide, Or.inl rfl⟩
  have hafter : After .secp256k1 Stranding.policy Stranding.start.prepared 1 Stranding.next := by
    rw [Stranding.prepared_eq]
    exact .succ .zero hgo (turn_of_rel Stranding.removed)
  exact ⟨by decide, _, _, _, Stranding.new_eq, hafter, ⟨by decide, Or.inr (by decide +kernel)⟩,
    Stranding.splits, Stranding.splitLast_eq⟩

end Round

end NotaryPool
