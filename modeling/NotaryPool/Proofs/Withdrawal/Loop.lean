import NotaryPool.Proofs.Withdrawal.Turn

/-!
# From the turns to a whole round

A round drops the requests that its credits cannot pay, sorts the others, makes turns until nothing
is left to pay, or to pay with, closes the last transaction and settles the outcomes. This module
names the states between the turns and takes a whole round apart into these steps, so that a
property of a round follows from what each step keeps.

## Contents

* `Round.parted`, `Round.dropUnaffordable_parted`: the requests that are dropped, and the others.
* `Round.prepared`, `Round.prepared_eq`: the state in which the first turn is made.
* `Round.After`, `Round.After.invariant`: the states between the turns, and induction on them.
* `Round.settle_eq`: what settling does to the outcomes.
* `Round.fulfil_ok`, `Round.toStatus_ok`, `Round.run_ok`: the parts of a round that ends well.
* `Round.payable`, `Round.new_ok_iff`: what a round begins with.
* `Round.opening`: a round that begins with everything in its order.
* `Round.Sample`: a small round that ends well.
-/

namespace NotaryPool

namespace Round

variable {K : KeyScheme} {P : TxPolicy} {r r' : Round}

/-! ## Requests marked as unpaid -/

/-- An outcome, which becomes unpaid if its request is one of those given. -/
def unpaidIn (dues : List DueRequest) (o : RequestOutcome) : RequestOutcome :=
  if o.id ∈ dues.map (·.request.id) then { o with status := .unpaid } else o

theorem unpaidIn_nil : unpaidIn [] = id := by
  funext o
  simp [unpaidIn]

theorem request_unpaidIn (dues : List DueRequest) (o : RequestOutcome) :
    (unpaidIn dues o).request = o.request := by
  unfold unpaidIn
  split <;> rfl

theorem foldl_setStatus (dues : List DueRequest) (r : Round) :
    dues.foldl (fun r due => r.setStatus due.request.id .unpaid) r
      = { r with outcomes := r.outcomes.map (unpaidIn dues) } := by
  induction dues generalizing r with
  | nil =>
      rw [unpaidIn_nil, List.map_id]
      rfl
  | cons due rest ih =>
      rw [List.foldl_cons, ih]
      simp only [setStatus, List.map_map]
      congr 1
      apply List.map_congr_left
      intro o _
      by_cases hid : o.id = due.request.id
      · simp [unpaidIn, RequestOutcome.id, ← hid]
      · simp [unpaidIn, hid]

/-! ## Before the first turn -/

/-- The round in which the first turn is made: what the credits cannot pay is dropped, and the
requests stand in their order. -/
def prepared (r : Round) : Round :=
  { r.dropUnaffordable with
    pending := sortBy (fun a b => OutputRequest.order a.request b.request)
      r.dropUnaffordable.pending }

theorem splitAffordable_append (available asked : Nat) (pending : List DueRequest) :
    (splitAffordable available asked pending).1 ++ (splitAffordable available asked pending).2
      = pending := by
  induction pending generalizing asked with
  | nil => rfl
  | cons due rest ih =>
      unfold splitAffordable
      split
      · exact congrArg (due :: ·) (ih _)
      · rfl

theorem sortBy_perm (order : DueRequest → DueRequest → Ordering) (pending : List DueRequest) :
    (sortBy order pending).Perm pending :=
  List.mergeSort_perm _ _

/-- The requests that are dropped, which are none if the credits can pay all, and the others. -/
def parted (r : Round) : List DueRequest × List DueRequest :=
  if requested r.pending ≤ PoolCredit.total r.eligible then ([], r.pending)
  else splitAffordable (PoolCredit.total r.eligible) (requested r.pending)
    (sortBy dropOrder r.pending)

theorem parted_perm (r : Round) : (r.parted.1 ++ r.parted.2).Perm r.pending := by
  unfold parted
  split
  · exact List.Perm.refl _
  · rw [splitAffordable_append]
    exact sortBy_perm dropOrder r.pending

theorem dropUnaffordable_parted (r : Round) :
    r.dropUnaffordable = { r with
      pending := r.parted.2
      outcomes := r.outcomes.map (unpaidIn r.parted.1) } := by
  unfold dropUnaffordable parted
  dsimp only
  split
  · rw [unpaidIn_nil, List.map_id]
  · exact foldl_setStatus _ _

theorem prepared_parted (r : Round) :
    r.prepared = { r with
      pending := sortBy (fun a b => OutputRequest.order a.request b.request) r.parted.2
      outcomes := r.outcomes.map (unpaidIn r.parted.1) } := by
  unfold prepared
  rw [dropUnaffordable_parted]

/-- Some requests are dropped and marked as unpaid, and the others stand in the queue. -/
theorem prepared_eq (r : Round) :
    ∃ dropped kept, (dropped ++ kept).Perm r.pending
      ∧ r.prepared = { r with
          pending := kept
          outcomes := r.outcomes.map (unpaidIn dropped) } := by
  refine ⟨_, _, ?_, prepared_parted r⟩
  exact ((sortBy_perm _ r.parted.2).append_left r.parted.1).trans r.parted_perm

/-! ## Between the turns -/

/-- Whether the loop makes another turn after it has made `n` turns. -/
def GoesOn (P : TxPolicy) (n : Nat) (r : Round) : Prop :=
  r.pending ≠ [] ∧ (n = 0 ∨ r.isExhausted P = false)

/-- A turn that the loop makes has a request to pay. -/
theorem GoesOn.turn {n : Nat} (hgo : r.GoesOn P n) (hok : r.turn K P = .ok r') :
    ∃ kind, Turn K P r kind r' :=
  (turn_eq_ok_iff.mp hok).resolve_left fun hidle => hgo.1 hidle.1

/-- The loop makes no other turn when nothing is left to pay with. -/
theorem GoesOn.not_isExhausted {n : Nat} (hgo : r.GoesOn P (n + 1)) :
    ¬ r.isExhausted P = true := by
  rw [hgo.2.resolve_left (Nat.succ_ne_zero n)]
  exact Bool.false_ne_true

/-- The states between the turns of the main loop: before the first turn, after it, and so on. -/
inductive After (K : KeyScheme) (P : TxPolicy) (start : Round) : Nat → Round → Prop
  | zero : After K P start 0 start
  | succ {n : Nat} {r r' : Round} (hafter : After K P start n r) (hgo : r.GoesOn P n)
      (hturn : r.turn K P = .ok r') : After K P start (n + 1) r'

/-- What holds before the first turn and is kept by each turn holds between all turns. -/
theorem After.invariant (Inv : Round → Prop) {start : Round} {n : Nat} (hstart : Inv start)
    (hturn : ∀ {n : Nat} {r r' : Round} {kind : TurnKind}, After K P start n r → r.GoesOn P n →
      Inv r → Turn K P r kind r' → Inv r')
    (h : After K P start n r) : Inv r := by
  induction h with
  | zero => exact hstart
  | succ hafter hgo hok ih =>
      obtain ⟨kind, hrel⟩ := hgo.turn hok
      exact hturn hafter hgo ih hrel

/-- Between the turns the draft is an open one. -/
theorem After.isOpen {start : Round} {n : Nat} (hstart : start.current.IsOpen)
    (h : After K P start n r) : r.current.IsOpen :=
  After.invariant (·.current.IsOpen) hstart (fun _ _ hr hturn => hturn.isOpen hr) h

theorem turns_after {start : Round} {count n : Nat} (hafter : After K P start n r)
    (hgo : n = 0 ∨ r.isExhausted P = false) (h : turns K P count r = .ok r') :
    ∃ m, After K P start m r' := by
  induction count generalizing n r with
  | zero =>
      -- the count is used up, which ends the loop like any other reason
      cases h
      exact ⟨n, hafter⟩
  | succ count ih =>
      unfold turns at h
      split at h
      · cases h
        exact ⟨n, hafter⟩
      · rename_i hpending
        have hmore : r.pending ≠ [] := fun hnil => hpending (by rw [hnil]; rfl)
        split at h
        · cases h
        · rename_i s hturn
          have hnext : After K P start (n + 1) s := .succ hafter ⟨hmore, hgo⟩ hturn
          split at h
          · cases h
            exact ⟨n + 1, hnext⟩
          · rename_i hstop
            exact ih hnext (Or.inr (by simpa using hstop)) h

/-! ## After the last turn -/

/-- An outcome that counts as paid, told apart by the number of its outputs. -/
def settled (o : RequestOutcome) : RequestOutcome :=
  if o.status = .success ∧ 1 < o.outpoints.length then { o with status := .split } else o

theorem request_settled (o : RequestOutcome) : (settled o).request = o.request := by
  unfold settled
  split <;> rfl

theorem outpoints_settled (o : RequestOutcome) : (settled o).outpoints = o.outpoints := by
  unfold settled
  split <;> rfl

theorem settle_eq (r : Round) :
    r.settle = { r with
      pending := []
      outcomes := (r.outcomes.map (unpaidIn r.pending)).map settled
      fees := Amount.total (r.finalized.map (·.fee)) } := by
  unfold settle
  rw [foldl_setStatus]
  rfl

/-- Distributing the requests makes turns on the prepared round, closes the last transaction and
settles the outcomes. -/
theorem fulfil_eq (r : Round) :
    r.fulfil K P =
      match turns K P r.prepared.turnLimit r.prepared with
      | .error h => .error h
      | .ok s =>
        match s.finish K P with
        | .error h => .error h
        | .ok t => .ok t.settle :=
  rfl

theorem fulfil_ok (h : r.fulfil K P = .ok r') :
    ∃ n s t, After K P r.prepared n s ∧ s.finish K P = .ok t ∧ r' = t.settle := by
  rw [fulfil_eq] at h
  split at h
  · cases h
  · rename_i s hturns
    obtain ⟨n, hafter⟩ := turns_after .zero (Or.inl rfl) hturns
    split at h
    · cases h
    · rename_i t hfinish
      cases h
      exact ⟨n, s, t, hafter, hfinish, rfl⟩

/-- What a test of the outcome of a round finds. -/
theorem fulfil_any {r : Round} {test : Round → Bool}
    (h : (r.fulfil K P).toOption.any test = true) :
    ∃ final, r.fulfil K P = .ok final ∧ test final = true := by
  cases hfinal : r.fulfil K P with
  | error halt =>
      rw [hfinal] at h
      cases h
  | ok final =>
      rw [hfinal] at h
      exact ⟨final, rfl, h⟩

/-! ## A whole round -/

/-- Signing keeps the transactions and their order. -/
theorem signAll_ok {book : SeriesBook} {finalized : List Draft}
    {signed : List (WithdrawalTx × TxSignatures)}
    (h : signAll K book finalized = .ok signed) :
    signed.map (·.1) = finalized.map WithdrawalTx.ofDraft := by
  induction finalized generalizing signed with
  | nil =>
      cases h
      rfl
  | cons draft rest ih =>
      unfold signAll at h ih
      rw [List.mapM_cons] at h
      -- the first failure ends the signing, so in each case but the last `h` is absurd
      cases hsigs : Signing.rawSignatures K book (WithdrawalTx.ofDraft draft).tx draft.inputs with
      | error e =>
          simp only [hsigs] at h
          cases h
      | ok sigs =>
          cases hrest : rest.mapM (fun draft => do
              let w := WithdrawalTx.ofDraft draft
              return (w, ← Signing.rawSignatures K book w.tx draft.inputs)) with
          | error e =>
              simp only [hsigs, hrest] at h
              cases h
          | ok others =>
              simp only [hsigs, hrest] at h
              cases h
              rw [List.map_cons, List.map_cons, ih hrest]

/-- The transactions of a round with their identifiers. -/
def labelled (finalized : List Draft) : List (Hash256 × WithdrawalTx) :=
  finalized.map fun draft => (draft.ntxid, WithdrawalTx.ofDraft draft)

theorem toStatus_ok {book : SeriesBook} {roundId : UInt32} {status : RoundStatus}
    (h : r.toStatus K book roundId = .ok status) :
    ∃ signed, signAll K book r.finalized = .ok signed
      ∧ status = ⟨roundId, r.nextChange, r.fees, r.outcomes,
          .ofList (signed.map fun (w, sigs) => (w.ntxid, sigs)),
          .ofList (labelled r.finalized)⟩ := by
  unfold toStatus at h
  split at h
  · cases h
  · rename_i signed hsigned
    cases h
    refine ⟨signed, hsigned, ?_⟩
    have hlabelled : signed.map (fun (w, _) => (w.ntxid, w)) = labelled r.finalized := by
      calc signed.map (fun (w, _) => (w.ntxid, w))
          = (signed.map (·.1)).map (fun w => (w.ntxid, w)) := by
            rw [List.map_map]
            rfl
        _ = (r.finalized.map WithdrawalTx.ofDraft).map (fun w => (w.ntxid, w)) := by
            rw [signAll_ok hsigned]
        _ = labelled r.finalized := List.map_map
    rw [hlabelled]

theorem run_ok {book : SeriesBook} {roundId : UInt32} {requests : List OutputRequest}
    {credits : List PoolCredit} {changeStart : ChangeAddress} {status : RoundStatus}
    (h : run K P book roundId requests credits changeStart = .ok status) :
    ∃ start final, new book.network requests credits changeStart = .ok start
      ∧ start.fulfil K P = .ok final ∧ final.toStatus K book roundId = .ok status := by
  unfold run at h
  split at h
  · cases h
  · rename_i start hnew
    split at h
    · cases h
    · rename_i final hfulfil
      exact ⟨start, final, hnew, hfulfil, h⟩

/-! ## The requests of a round -/

/-- No request has the identity of one before it just when all identities are distinct. -/
theorem duplicate?_eq_none_iff {seen : List RequestId} {requests : List OutputRequest} :
    duplicate? seen requests = none
      ↔ (requests.map (·.id)).Nodup ∧ ∀ q ∈ requests, q.id ∉ seen := by
  induction requests generalizing seen with
  | nil => simp [duplicate?]
  | cons first rest ih =>
      unfold duplicate?
      rw [List.map_cons, List.nodup_cons, List.forall_mem_cons]
      by_cases hfirst : first.id ∈ seen
      · simp [hfirst]
      · rw [if_neg hfirst, ih]
        constructor
        · rintro ⟨hnodup, hnew⟩
          refine ⟨⟨?_, hnodup⟩, hfirst, fun q hq hseen => ?_⟩
          · intro hmem
            obtain ⟨q, hq, hid⟩ := List.mem_map.mp hmem
            exact hnew q hq (hid ▸ List.mem_cons_self)
          · exact hnew q hq (List.mem_cons_of_mem _ hseen)
        · rintro ⟨⟨hdistinct, hnodup⟩, -, hnew⟩
          refine ⟨hnodup, ?_⟩
          intro q hq hmem
          rcases List.mem_cons.mp hmem with hid | hseen
          · exact hdistinct (hid ▸ List.mem_map_of_mem hq)
          · exact hnew q hq hseen

theorem intake_of_ok {network : AddressNetwork} {request : OutputRequest} {script : Bytes}
    (h : request.script network = .ok script) :
    intake network request = (⟨request, .unpaid, []⟩, some ⟨request, script⟩) := by
  unfold intake
  rw [h]

/-- The script of a request depends on its address only. -/
theorem script_of_address {q q' : OutputRequest} (h : q.address = q'.address)
    (network : AddressNetwork) : q.script network = q'.script network := by
  unfold OutputRequest.script
  rw [h]

theorem intake_of_error {network : AddressNetwork} {request : OutputRequest}
    {e : DestinationError} (h : request.script network = .error e) :
    intake network request = (⟨request, .invalid, []⟩, none) := by
  unfold intake
  rw [h]

/-- A request that is taken in is to be paid to its script. -/
theorem script_of_intake {network : AddressNetwork} {request : OutputRequest} {due : DueRequest}
    (h : (intake network request).2 = some due) :
    due.request = request ∧ due.request.script network = .ok due.script := by
  cases hscript : request.script network with
  | error e =>
      rw [intake_of_error hscript] at h
      cases h
  | ok script =>
      rw [intake_of_ok hscript] at h
      cases h
      exact ⟨rfl, hscript⟩

theorem request_intake (network : AddressNetwork) (request : OutputRequest) :
    (intake network request).1.request = request := by
  unfold intake
  split <;> rfl

/-- The requests to be paid, each with the script of its address. -/
def payable (network : AddressNetwork) (requests : List OutputRequest) : List DueRequest :=
  (requests.map (intake network)).filterMap (·.2)

theorem payable_cons (network : AddressNetwork) (request : OutputRequest)
    (rest : List OutputRequest) :
    payable network (request :: rest)
      = (intake network request).2.toList ++ payable network rest := by
  unfold payable
  rw [List.map_cons, List.filterMap_cons]
  cases (intake network request).2 <;> rfl

theorem mem_payable {network : AddressNetwork} {requests : List OutputRequest} {due : DueRequest}
    (h : due ∈ payable network requests) :
    due.request ∈ requests ∧ due.request.script network = .ok due.script := by
  unfold payable at h
  rw [List.filterMap_map, List.mem_filterMap] at h
  obtain ⟨request, hmem, hdue⟩ := h
  obtain ⟨hrequest, hscript⟩ := script_of_intake hdue
  rw [hrequest] at hscript ⊢
  exact ⟨hmem, hscript⟩

/-- The requests to be paid stand in the order of all requests. -/
theorem payable_sublist (network : AddressNetwork) (requests : List OutputRequest) :
    ((payable network requests).map (·.request.id)).Sublist (requests.map (·.id)) := by
  induction requests with
  | nil => exact List.Sublist.refl _
  | cons request rest ih =>
      rw [payable_cons, List.map_append]
      cases hscript : request.script network with
      | error e =>
          rw [intake_of_error hscript]
          exact ih.cons request.id
      | ok script =>
          rw [intake_of_ok hscript]
          exact ih.cons_cons request.id

/-- A round begins with distinct requests. It holds those whose address is one of the network, and
the credits in their order. -/
theorem new_ok_iff {network : AddressNetwork} {requests : List OutputRequest}
    {credits : List PoolCredit} {changeStart : ChangeAddress} :
    new network requests credits changeStart = .ok r
      ↔ (requests.map (·.id)).Nodup
        ∧ r = { pending := payable network requests
                eligible := PoolCredit.sort credits
                current := .empty
                finalized := []
                outcomes := (requests.map (intake network)).map (·.1)
                nextChange := changeStart
                fees := 0 } := by
  have hdistinct : duplicate? [] requests = none ↔ (requests.map (·.id)).Nodup := by
    rw [duplicate?_eq_none_iff]
    simp
  unfold new
  rw [← hdistinct]
  cases hnew : duplicate? [] requests with
  | some id =>
      simp
  | none =>
      constructor
      · intro h
        cases h
        exact ⟨rfl, rfl⟩
      · rintro ⟨-, rfl⟩
        rfl

/-! ## Rounds that begin in order -/

/-- The round before its first turn, when the addresses of all requests are of the network, the
credits are enough and all stands in its order. -/
def opening (dues : List DueRequest) (credits : List PoolCredit) (changeStart : ChangeAddress) :
    Round where
  pending := dues
  eligible := credits
  current := .empty
  finalized := []
  outcomes := dues.map fun due => ⟨due.request, .unpaid, []⟩
  nextChange := changeStart
  fees := 0

section Opening

variable {dues : List DueRequest} {credits : List PoolCredit} {changeStart : ChangeAddress}

theorem new_opening {network : AddressNetwork} (hids : (dues.map (·.request.id)).Nodup)
    (hscripts : ∀ due ∈ dues, due.request.script network = .ok due.script)
    (hsorted : credits.Pairwise fun a b => (PoolCredit.order a b != .gt) = true) :
    new network (dues.map (·.request)) credits changeStart
      = .ok (opening dues credits changeStart) := by
  have hintake : (dues.map (·.request)).map (intake network)
      = dues.map fun due => (⟨due.request, .unpaid, []⟩, some due) := by
    rw [List.map_map]
    exact List.map_congr_left fun due hdue => intake_of_ok (hscripts due hdue)
  have hpayable : payable network (dues.map (·.request)) = dues := by
    unfold payable
    rw [hintake, List.filterMap_map]
    exact List.filterMap_some
  have hsort : PoolCredit.sort credits = credits := List.mergeSort_of_pairwise hsorted
  rw [new_ok_iff, hpayable, hsort, hintake, List.map_map]
  exact ⟨hids, by rw [List.map_map]; rfl⟩

theorem prepared_opening
    (henough : requested dues ≤ PoolCredit.total credits)
    (hsorted : dues.Pairwise fun a b => (OutputRequest.order a.request b.request != .gt) = true) :
    (opening dues credits changeStart).prepared = opening dues credits changeStart := by
  have hall : (opening dues credits changeStart).dropUnaffordable
      = opening dues credits changeStart := by
    unfold dropUnaffordable
    exact if_pos henough
  have hsort : sortBy (fun a b => OutputRequest.order a.request b.request) dues = dues :=
    List.mergeSort_of_pairwise hsorted
  unfold prepared
  rw [hall]
  exact congrArg (fun pending => { opening dues credits changeStart with pending }) hsort

end Opening

/-- Closing a draft that gets a change output, piece by piece. -/
theorem finish_of_next {noted : Round} {draft : Draft} {next : ChangeAddress}
    (hpayments : r.current.payments.isEmpty = false)
    (hclosed : r.current.addChange P r.nextChange.script = .ok draft)
    (hchange : draft.change.isSome = true) (hnext : r.nextChange.next K = .ok next)
    (hnoted : notePayments draft.ntxid 0 draft.payments
      { r with current := .empty, nextChange := next } = .ok noted) :
    r.finish K P = .ok { noted with finalized := noted.finalized ++ [draft] } := by
  unfold finish advanceChange
  rw [hpayments]
  simp only [Bool.false_eq_true, if_false, hclosed, hchange, if_true, hnext, hnoted]

/-! ## A small round

A member without private keys has two credits for a request that they cannot quite pay, and a
request whose address is none of the network. -/

namespace Sample

/-- The generator of the curve. -/
def key : PublicKey where
  x := ⟨0x79be667ef9dcbbac55a06295ce870b07029bfcdb2dce28d959f2815b16f81798, by decide⟩
  odd := false
  onCurve := by decide +kernel

def xpub : Xpub := ⟨⟨true, 0, 0, 0, Vector.replicate 32 0⟩, key⟩

def book : SeriesBook := ⟨.regtest, fun _ => some ⟨1, true, 1, [⟨xpub, none⟩]⟩⟩

def address (branch : UInt32) : PoolAddress :=
  ⟨⟨1⟩, ⟨branch⟩, ⟨0⟩, 1, .regtest, [xpub], [key]⟩

def change : ChangeAddress := ⟨address 0⟩

def credits : List PoolCredit :=
  [⟨⟨Vector.replicate 32 1, 1⟩, 25500, some 1, address 1⟩,
    ⟨⟨Vector.replicate 32 1, 0⟩, 15000, some 1, address 1⟩]

def paying : OutputRequest := ⟨"bcrt1qqqqqqqqqqqqqqqqqqqqqqqqqqqqqqqqqdku202", 40000, ⟨"server", 1⟩⟩

def lost : OutputRequest := ⟨"nowhere", 1000, ⟨"server", 2⟩⟩

def requests : List OutputRequest := [paying, lost]

def script : Bytes := 0 :: 20 :: List.replicate 20 0

/-- A fee of a thousand for each transaction, and no limits. -/
def policy : TxPolicy := (⟨1000, 0, 0, 0, none, none, none⟩ : LinearPolicy).toPolicy

/-- The round before its first turn. -/
def start : Round where
  pending := [⟨paying, script⟩]
  eligible := credits.reverse
  current := .empty
  finalized := []
  outcomes := [⟨paying, .unpaid, []⟩, ⟨lost, .invalid, []⟩]
  nextChange := change
  fees := 0

/-- All requests of the samples but one are to be paid to the address of the first. -/
theorem script_paying {q : OutputRequest} (h : q.address = paying.address) :
    q.script .regtest = .ok script := by
  have htaken : (intake .regtest paying).2 = some ⟨paying, script⟩ := by decide +kernel
  rw [script_of_address h]
  exact (script_of_intake htaken).2

theorem script_lost : ∃ e, lost.script .regtest = .error e := by
  have hlost : (lost.script .regtest).isOk = false := by decide +kernel
  cases hscript : lost.script .regtest with
  | ok script =>
      rw [hscript] at hlost
      cases hlost
  | error e => exact ⟨e, rfl⟩

theorem new_eq : new book.network requests credits change = .ok start := by
  have hpaying : intake .regtest paying = (⟨paying, .unpaid, []⟩, some ⟨paying, script⟩) :=
    intake_of_ok (script_paying rfl)
  have hlost : intake .regtest lost = (⟨lost, .invalid, []⟩, none) := by
    obtain ⟨e, he⟩ := script_lost
    exact intake_of_error he
  have hsort : PoolCredit.sort credits = credits.reverse := by
    have horder : PoolCredit.order credits[0] credits[1] = .gt := rfl
    simpa [PoolCredit.sort, List.mergeSort, List.merge, credits] using horder
  rw [new_ok_iff, hsort]
  refine ⟨by decide, ?_⟩
  show start = { pending := [intake .regtest paying, intake .regtest lost].filterMap (·.2)
                 eligible := credits.reverse
                 current := .empty
                 finalized := []
                 outcomes := [intake .regtest paying, intake .regtest lost].map (·.1)
                 nextChange := change
                 fees := 0 }
  rw [hpaying, hlost]
  rfl

theorem prepared_eq : start.prepared = start := by
  unfold prepared dropUnaffordable
  dsimp only
  rw [if_pos (by decide)]
  cbv

/-- The round ends well. -/
theorem run_isOk : ∃ status, run .secp256k1 policy book 1 requests credits change = .ok status := by
  have hok : (run .secp256k1 policy book 1 requests credits change).isOk = true := by
    unfold run
    rw [new_eq]
    dsimp only
    rw [fulfil_eq, prepared_eq]
    decide
  cases hrun : run .secp256k1 policy book 1 requests credits change with
  | error e =>
      rw [hrun] at hok
      cases hok
  | ok status => exact ⟨status, rfl⟩

/-- It closes one transaction. -/
theorem fulfil_isOk : ∃ final, start.fulfil .secp256k1 policy = .ok final
    ∧ final.finalized.length = 1 := by
  have hok : (start.fulfil .secp256k1 policy).toOption.any (·.finalized.length = 1) = true := by
    rw [fulfil_eq, prepared_eq]
    decide
  obtain ⟨final, hfinal, htest⟩ := fulfil_any hok
  exact ⟨final, hfinal, of_decide_eq_true htest⟩

theorem length_finalized {final : Round} (h : start.fulfil .secp256k1 policy = .ok final) :
    final.finalized.length = 1 := by
  obtain ⟨final', hfulfil, hlength⟩ := fulfil_isOk
  rw [← Except.ok.inj (hfulfil.symm.trans h)]
  exact hlength

end Sample

end Round

end NotaryPool
