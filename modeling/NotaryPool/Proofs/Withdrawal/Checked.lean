import NotaryPool.Proofs.Panic
import NotaryPool.Proofs.Withdrawal.Loop
import NotaryPool.Withdrawal.Checked

/-!
# Withdrawals with panics do what those without do

Each operation of a withdrawal that computes with words follows the one on natural numbers: it
gives the same result, errors included, or a number has no place in its word. A sum or a product
that has a place in its word is the one of natural numbers, a difference that does not go below zero
is, too, and all else is the same program. So whatever is proved about the exact operations holds of
each withdrawal that does not panic.

The other panics do not come up in the turns of a round: it only adds to an open draft. Its last
step can read a list behind its end, if the book has more keys for an address than the address has.

## Contents

* `Selection.Checked.eligible_follows`: **selections.**
* `Draft.Checked.isFunded_follows`, `Draft.Checked.rollBack_follows`: drafts.
* `Round.Checked.turn_follows`, `Round.Checked.turns_follows`: a turn, and all turns.
* `Round.Checked.fulfil_follows`, `Round.Checked.run_follows_or_bounds`: **rounds.**
-/

namespace NotaryPool

open Stop (Follows)

variable {ε : Type} {K : KeyScheme} {P : TxPolicy}

/-! ## Credits -/

namespace Eligibility.Checked

theorem confirmations_follows (height : Option Nat) (chainHeight : Nat) :
    Follows (confirmations height chainHeight : Except (Stop ε) Nat)
      (.ok (NotaryPool.confirmations height chainHeight)) := by
  unfold confirmations NotaryPool.confirmations
  cases height with
  | none => exact .ok 0
  | some h =>
      dsimp only
      split
      · exact (Follows.sub chainHeight h).step (.add 32 _ 1)
      · exact .ok 0

theorem allows_follows (rules : Eligibility) (c : PoolCredit) :
    Follows (allows rules c : Except (Stop ε) Bool) (.ok (rules.allows c)) := by
  unfold allows Eligibility.allows
  split
  · rename_i hworth
    simp only [hworth, decide_true, Bool.true_and]
    exact (confirmations_follows c.height rules.chainHeight).map _
  · rename_i hdust
    simp only [hdust, decide_false, Bool.false_and]
    exact .ok false

theorem allowed_follows (rules : Eligibility) (credits : List PoolCredit) :
    Follows (allowed rules credits : Except (Stop ε) (List PoolCredit))
      (.ok (credits.filter rules.allows)) := by
  induction credits with
  | nil => exact .ok []
  | cons c rest ih =>
      refine (allows_follows rules c).step (ih.step ?_)
      rw [List.filter_cons]
      exact .ok _

end Eligibility.Checked

namespace AddressRange

variable {α : Type} {r : AddressRange}

/-- A visit goes to the first position and then to the others. -/
theorem collectFrom_succ {visit : Branch → Index → Except ε (List α)} (remaining k : Nat) :
    collectFrom r visit (remaining + 1) k = do
      let found ← visit (r.positionAt k).1 (r.positionAt k).2
      let others ← collectFrom r visit remaining (k + 1)
      return found ++ others := by
  rw [collectFrom]
  cases visit (r.positionAt k).1 (r.positionAt k).2 with
  | error e => rfl
  | ok found => cases collectFrom r visit remaining (k + 1) <;> rfl

/-- A visit follows another one that it follows at each position. -/
theorem collect_follows {visit : Branch → Index → Except (Stop ε) (List α)}
    {exact : Branch → Index → Except ε (List α)}
    (h : ∀ branch index, Follows (visit branch index) (exact branch index)) :
    Follows (r.collect visit) (r.collect exact) := by
  unfold collect
  generalize r.count = remaining
  generalize 0 = k
  induction remaining generalizing k with
  | zero => exact .ok []
  | succ remaining ih =>
      rw [collectFrom_succ, collectFrom_succ]
      refine (h _ _).bind (fun e he => by rw [he]; rfl) fun found hfound => ?_
      rw [hfound]
      refine (ih (k + 1)).bind (fun e he => ?_) fun others hothers => ?_
      · rw [he]
        rfl
      · rw [hothers]
        exact .ok (found ++ others)

end AddressRange

/-! ## Selections -/

namespace Selection.Checked

variable {book : SeriesBook} {unspent : List UnspentOutput} {rules : Eligibility}

theorem creditsAt_follows (address : PoolAddress) :
    Follows (creditsAt address unspent rules : Except (Stop ε) (List PoolCredit))
      (.ok (Selection.creditsAt address unspent rules)) :=
  Eligibility.Checked.allowed_follows rules _

theorem creditsIn_follows (range : AddressRange) :
    Follows (creditsIn K book unspent rules range)
      (Selection.creditsIn K book unspent rules range) := by
  apply AddressRange.collect_follows
  intro branch index
  cases book.poolAddress K range.series branch index with
  | error e => exact .error e
  | ok address => exact creditsAt_follows address

theorem creditsInAll_follows (ranges : List AddressRange) :
    Follows (creditsInAll K book unspent rules ranges)
      (Selection.creditsInAll K book unspent rules ranges) := by
  induction ranges with
  | nil => exact .ok []
  | cons range rest ih =>
      unfold creditsInAll Selection.creditsInAll
      refine (creditsIn_follows range).bind (fun e he => by rw [he]) fun found hfound => ?_
      rw [hfound]
      dsimp only
      refine ih.bind (fun e he => by rw [he]; rfl) fun others hothers => ?_
      rw [hothers]
      exact .ok (found ++ others)

/-- **A selection with panics gives what a selection gives.** -/
theorem eligible_follows (ranges : List AddressRange) :
    Follows (eligible K book unspent ranges rules)
      (Selection.eligible K book unspent ranges rules) := by
  unfold eligible Selection.eligible
  cases inputError? unspent ranges with
  | some e => exact .error e
  | none =>
      refine (creditsInAll_follows ranges).bind_mapError _ (fun e he => by rw [he])
        fun found hfound => ?_
      rw [hfound]
      dsimp only
      cases Series.adjacent? (fun a b => PoolCredit.order a b == .eq) (PoolCredit.sort found) with
      | some credit => exact .error _
      | none => exact .ok _

end Selection.Checked

/-! ## Drafts -/

namespace Draft.Checked

variable (P : TxPolicy) (d : Draft)

/-- An input that is added to an open draft is not refused. -/
theorem addInput_follows (hopen : d.IsOpen) (credit : PoolCredit) :
    Follows (addInput d credit : Except (Stop ε) Draft) (.ok (d.addInput credit)) := by
  unfold addInput
  rw [if_neg (by rw [hopen.closed]; exact Bool.false_ne_true)]
  exact .ok _

/-- A payment that is added to an open draft is not refused. -/
theorem addPayment_follows (hopen : d.IsOpen) (request : OutputRequest) (script : Bytes) :
    Follows (addPayment d request script : Except (Stop ε) Draft)
      (.ok (d.addPayment request script)) := by
  unfold addPayment
  rw [if_neg (by rw [hopen.closed]; exact Bool.false_ne_true)]
  exact .ok _

theorem requiredFee_follows : Follows (requiredFee P d : Except (Stop ε) Nat)
    (.ok (d.requiredFee P)) :=
  .fit 64 _

theorem spent_follows : Follows (spent P d : Except (Stop ε) Nat)
    (.ok (d.outputTotal + d.requiredFee P)) :=
  (requiredFee_follows P d).step (.add 64 _ _)

theorem isFunded_follows : Follows (isFunded P d : Except (Stop ε) Bool) (.ok (d.isFunded P)) :=
  (spent_follows P d).map _

theorem addChange_follows (script : Bytes) :
    Follows (addChange P d script) (d.addChange P script) := by
  unfold addChange Draft.addChange
  split
  · exact .error _
  · refine (requiredFee_follows P d).step ((Follows.add 64 _ _).step ?_)
    dsimp only
    split
    · exact .ok _
    · exact .ok _

theorem shed_follows (credits : List PoolCredit) :
    Follows (shed P d credits : Except (Stop ε) (List PoolCredit × Draft))
      (.ok (d.shed P credits)) := by
  induction credits with
  | nil => exact (isFunded_follows P _).step (.ok _)
  | cons credit rest ih =>
      refine (isFunded_follows P _).step ?_
      unfold Draft.shed
      dsimp only
      split
      · exact ih.step (.ok _)
      · exact .ok _

theorem rollBack_follows : Follows (rollBack P d) (d.rollBack P) := by
  unfold rollBack Draft.rollBack
  cases d.popPayment? with
  | none => exact .error _
  | some popped =>
      obtain ⟨payment, d'⟩ := popped
      dsimp only
      split
      · exact .error _
      · refine (shed_follows P d' _).step ?_
        cases (d'.shed P d'.inputs.reverse).1.getLast? with
        | none => exact .ok _
        | some credit => exact .ok _

end Draft.Checked

/-! ## Rounds -/

namespace Round.Checked

/-! ### Open drafts -/

theorem isOpen_turn {r r' : Round} (h : r.turn K P = .ok r') (hopen : r.current.IsOpen) :
    r'.current.IsOpen := by
  rcases turn_eq_ok_iff.mp h with ⟨-, rfl⟩ | ⟨kind, hturn⟩
  · exact hopen
  · exact hturn.isOpen hopen

theorem current_prepared (r : Round) : r.prepared.current = r.current := by
  obtain ⟨dropped, kept, -, heq⟩ := prepared_eq r
  rw [heq]

theorem isOpen_new {network : AddressNetwork} {requests : List OutputRequest}
    {credits : List PoolCredit} {changeStart : ChangeAddress} {r : Round}
    (h : new network requests credits changeStart = .ok r) : r.current.IsOpen := by
  obtain ⟨-, rfl⟩ := new_ok_iff.mp h
  exact Draft.isOpen_empty

/-! ### The parts of a round -/

theorem splitAffordable_follows (available asked : Nat) (pending : List DueRequest) :
    Follows (splitAffordable available asked pending
        : Except (Stop ε) (List DueRequest × List DueRequest))
      (.ok (Round.splitAffordable available asked pending)) := by
  induction pending generalizing asked with
  | nil => exact .ok _
  | cons due rest ih =>
      unfold splitAffordable Round.splitAffordable
      split
      · exact (Follows.sub asked due.request.amount).step ((ih _).step (.ok _))
      · exact .ok _

theorem dropUnaffordable_follows (r : Round) :
    Follows (dropUnaffordable r : Except (Stop ε) Round) (.ok r.dropUnaffordable) := by
  unfold dropUnaffordable Round.dropUnaffordable
  dsimp only
  split
  · exact .ok r
  · exact (splitAffordable_follows _ _ _).step (.ok _)

theorem splitLast_follows (r : Round) : Follows (splitLast P r) (r.splitLast P) := by
  refine (Draft.Checked.requiredFee_follows P r.current).step ?_
  unfold Round.splitLast
  cases r.current.popPayment? with
  | none => exact .error _
  | some popped =>
      obtain ⟨last, rest⟩ := popped
      refine (Follows.sub _ _).step ((Follows.add 64 _ _).step ?_)
      dsimp only
      split
      · exact .ok _
      · exact (Follows.sub _ _).step (.ok _)

theorem finish_follows (r : Round) : Follows (finish K P r) (r.finish K P) := by
  unfold finish Round.finish
  split
  · exact .ok r
  · dsimp only
    refine (Draft.Checked.addChange_follows P r.current r.nextChange.script).bind_mapError _
      (fun e he => by rw [he]) fun draft hdraft => ?_
    rw [hdraft]
    dsimp only
    refine (Follows.same (advanceChange K draft _)).bind (fun e he => by rw [he]) fun s hs => ?_
    rw [hs]
    dsimp only
    refine (Follows.same (notePayments draft.ntxid 0 draft.payments s)).bind
      (fun e he => by rw [he]) fun t ht => ?_
    rw [ht]
    exact .ok _

theorem relieve_follows (r : Round) : Follows (relieve K P r) (r.relieve K P) := by
  unfold relieve Round.relieve
  match r.current.payments with
  | [] => exact .error _
  | [only] =>
      dsimp only
      cases r.current.popInput? with
      | none => exact .error _
      | some popped =>
          obtain ⟨credit, draft⟩ := popped
          refine (Draft.Checked.requiredFee_follows P draft).step ?_
          dsimp only
          split
          · exact .error _
          · refine (splitLast_follows _).bind (fun e he => by rw [he]) fun s hs => ?_
            rw [hs]
            exact finish_follows s
  | _ :: _ :: _ =>
      refine (Draft.Checked.rollBack_follows P r.current).bind_mapError _ (fun e he => by rw [he])
        fun back hback => ?_
      rw [hback]
      exact finish_follows _

theorem fundFrom_follows (credits : List PoolCredit) {r : Round} (hopen : r.current.IsOpen) :
    Follows (fundFrom K P credits r) (Round.fundFrom K P credits r) := by
  induction credits generalizing r with
  | nil =>
      refine (Draft.Checked.isFunded_follows P _).step ?_
      unfold Round.fundFrom
      dsimp only
      split
      · exact .ok _
      · exact splitLast_follows _
  | cons credit rest ih =>
      refine (Draft.Checked.isFunded_follows P _).step ?_
      unfold Round.fundFrom
      split
      · exact .ok _
      · refine (Draft.Checked.addInput_follows r.current hopen credit).step ?_
        dsimp only
        split
        · exact relieve_follows _
        · exact ih ⟨hopen.closed, hopen.change⟩

/-- **A turn with panics does what a turn does.** -/
theorem turn_follows {r : Round} (hopen : r.current.IsOpen) :
    Follows (turn K P r) (r.turn K P) := by
  unfold turn Round.turn
  cases r.pending with
  | nil => exact .ok r
  | cons due rest =>
      have hmarked : ({ r with pending := rest }.setStatus due.request.id
          .success).current.IsOpen := hopen
      refine (Draft.Checked.addPayment_follows _ hmarked due.request due.script).step ?_
      dsimp only
      split
      · exact relieve_follows _
      · exact fundFrom_follows _ ⟨hopen.closed, hopen.change⟩

theorem isExhausted_follows (r : Round) :
    Follows (isExhausted P r : Except (Stop ε) Bool) (.ok (r.isExhausted P)) := by
  unfold isExhausted Round.isExhausted
  split
  · rename_i hempty
    simp only [hempty, Bool.true_and]
    exact (Draft.Checked.spent_follows P r.current).map _
  · rename_i hsome
    simp only [hsome, Bool.false_and]
    exact .ok false

/-- The turns follow one by one, each of which leaves an open draft to the next one. -/
theorem turns_follows (count : Nat) {r : Round} (hopen : r.current.IsOpen) :
    Follows (turns K P count r) (Round.turns K P count r) := by
  induction count generalizing r with
  | zero => exact .ok r
  | succ count ih =>
      unfold turns Round.turns
      split
      · exact .ok r
      · refine (turn_follows hopen).bind (fun e he => by rw [he]) fun s hs => ?_
        rw [hs]
        refine (isExhausted_follows s).step ?_
        dsimp only
        split
        · exact .ok s
        · exact ih (isOpen_turn hs hopen)

/-- **A round with panics does what a round does**, if its draft is open at first. -/
theorem fulfil_follows {r : Round} (hopen : r.current.IsOpen) :
    Follows (fulfil K P r) (r.fulfil K P) := by
  refine (dropUnaffordable_follows r).step ?_
  have hprepared : r.prepared.current.IsOpen := by rwa [current_prepared]
  rw [fulfil_eq]
  refine (turns_follows r.prepared.turnLimit hprepared).bind (fun e he => by rw [he]) fun s hs => ?_
  rw [hs]
  dsimp only
  refine (finish_follows s).bind (fun e he => by rw [he]) fun t ht => ?_
  rw [ht]
  exact .ok t.settle

/-- A round that has been set up is computed and signed. -/
theorem run_of_new {book : SeriesBook} {roundId : UInt32} {requests : List OutputRequest}
    {credits : List PoolCredit} {changeStart : ChangeAddress} {start : Round}
    (hnew : new book.network requests credits changeStart = .ok start) :
    run K P book roundId requests credits changeStart
      = ((fulfil K P start).mapError (.map Halt.error) >>= fun r =>
          (r.toStatus K book roundId).mapError stop) := by
  unfold run
  rw [hnew]
  rfl

/-- The last step of a round reads behind the end of a list, or is that of the exact round. -/
theorem mapError_stop_cases {α : Type} (result : Except RoundError α) :
    result.mapError stop = Stop.lift result
      ∨ result.mapError stop = .error (.panic .bounds)
        ∧ ∃ position, result = .error (.rawSigning (.noAddressKey position)) := by
  cases result with
  | ok a => exact Or.inl rfl
  | error e =>
      unfold Except.mapError stop Stop.lift
      dsimp only
      split
      · exact Or.inr ⟨rfl, _, rfl⟩
      · exact Or.inl rfl

theorem signAll_of_toStatus {book : SeriesBook} {roundId : UInt32} {r : Round}
    {e : RawSigningError} (h : r.toStatus K book roundId = .error (.rawSigning e)) :
    signAll K book r.finalized = .error e := by
  unfold toStatus at h
  split at h
  · cases h
    assumption
  · cases h

/-- **A round with panics gives what a round gives**, its errors included, unless a number of it has
no place in its word, or the book has a private key behind the last key of an address from which a
transaction spends. -/
theorem run_follows_or_bounds (book : SeriesBook) (roundId : UInt32)
    (requests : List OutputRequest) (credits : List PoolCredit) (changeStart : ChangeAddress) :
    Follows (run K P book roundId requests credits changeStart)
        (Round.run K P book roundId requests credits changeStart)
      ∨ run K P book roundId requests credits changeStart = .error (.panic .bounds)
        ∧ ∃ start final position, new book.network requests credits changeStart = .ok start
          ∧ start.fulfil K P = .ok final
          ∧ signAll K book final.finalized = .error (.noAddressKey position) := by
  cases hnew : new book.network requests credits changeStart with
  | error e =>
      unfold run Round.run
      rw [hnew]
      exact Or.inl (.error e)
  | ok start =>
      have hfulfil := fulfil_follows (K := K) (P := P) (isOpen_new hnew)
      rw [run_of_new hnew]
      unfold Round.run
      rw [hnew]
      dsimp only
      generalize fulfil K P start = checked at hfulfil ⊢
      cases hfulfil with
      | overflows => exact Or.inl (.overflows _)
      | same =>
          cases hexact : start.fulfil K P with
          | error halt => exact Or.inl (.error halt.error)
          | ok final =>
              rcases mapError_stop_cases (final.toStatus K book roundId) with
                hsame | ⟨hbounds, position, hpast⟩
              · left
                show Follows ((final.toStatus K book roundId).mapError stop) _
                rw [hsame]
                exact .same _
              · exact Or.inr ⟨hbounds, start, final, position, rfl, hexact,
                  signAll_of_toStatus hpast⟩

/-- **The status of a round with panics is that of the round.** -/
theorem run_eq_of_ok {book : SeriesBook} {roundId : UInt32} {requests : List OutputRequest}
    {credits : List PoolCredit} {changeStart : ChangeAddress} {status : RoundStatus}
    (h : run K P book roundId requests credits changeStart = .ok status) :
    Round.run K P book roundId requests credits changeStart = .ok status := by
  rcases run_follows_or_bounds book roundId requests credits changeStart with
    hfollows | ⟨hbounds, -⟩
  · exact hfollows.eq_of_ok h
  · cases hbounds.symm.trans h

end Round.Checked

end NotaryPool
