import NotaryPool.Pool.Checked
import NotaryPool.Proofs.Pool.History
import NotaryPool.Proofs.Signing.Refusals
import NotaryPool.Proofs.Withdrawal.Checked

/-!
# Pools with panics do what those without do

A withdrawal that does not panic gives the result and leaves the pool that the exact one does. So a
history of commands none of which panics is a history of the exact pool.

A pool spends from its own addresses, each of which has a child for each key of its series. So there
is no private key behind the last key of an address, and the only panic that is left is a number
without a place in its word.

## Contents

* `Round.Checked.run_follows`: rounds that spend from addresses with enough keys.
* `Pool.Checked.withdraw_eq`, `Pool.Checked.withdraw_panic`: **withdrawals, and how they panic.**
* `Pool.Checked.after`, `Pool.Checked.after_eq`: **histories.**
-/

namespace NotaryPool

open Stop (Follows)

variable {K : KeyScheme}

/-! ## Rounds over addresses with enough keys -/

theorem Round.signAll_ne_noAddressKey {b : SeriesBook} {finalized : List Draft}
    (hcovered : ∀ d ∈ finalized, ∀ c ∈ d.inputs, Signing.Covered b c.address) (position : Nat) :
    signAll K b finalized ≠ .error (.noAddressKey position) := by
  intro herror
  obtain ⟨no, d, hd, hsigning, -⟩ := mapM_eq_error_iff.mp herror
  cases hsigs : Signing.rawSignatures K b (WithdrawalTx.ofDraft d).tx d.inputs with
  | ok sigs =>
      simp only [hsigs] at hsigning
      cases hsigning
  | error e =>
      simp only [hsigs] at hsigning
      cases hsigning
      exact Signing.rawSignatures_ne_noAddressKey (hcovered d (List.mem_of_getElem? hd)) position
        hsigs

/-- **A round with panics gives what a round gives**, if no private key stands behind the keys of an
address. -/
theorem Round.Checked.run_follows {P : TxPolicy} {book : SeriesBook} {credits : List PoolCredit}
    (hcovered : ∀ c ∈ credits, Signing.Covered book c.address) (roundId : UInt32)
    (requests : List OutputRequest) (changeStart : ChangeAddress) :
    Follows (run K P book roundId requests credits changeStart)
      (Round.run K P book roundId requests credits changeStart) := by
  refine (run_follows_or_bounds book roundId requests credits changeStart).resolve_right ?_
  rintro ⟨-, start, final, position, hnew, hfulfil, herror⟩
  refine signAll_ne_noAddressKey (fun d hd c hc => ?_) position herror
  exact hcovered c (finalized_spends hnew hfulfil d hd c hc)

namespace Pool.Checked

/-! ## Withdrawals -/

/-- The credits of a pool lie at addresses of its own. -/
theorem covered_of_eligibleCredits {p : Pool} {ranges : List AddressRange} {chainHeight : Nat}
    {credits : List PoolCredit} (h : p.eligibleCredits K ranges chainHeight = .ok credits) :
    ∀ c ∈ credits, Signing.Covered p.registry.book c.address := by
  obtain ⟨unspent, -, hselected⟩ := Except.bind_eq_ok_iff.mp h
  intro c hc
  obtain ⟨range, -, branch, index, -, ha⟩ :=
    (Selection.selected_of_eligible (Except.mapError_eq_ok_iff.mp hselected) c hc).located
  exact Signing.covered_of_poolAddress ha

theorem eligibleCredits_follows (p : Pool) (ranges : List AddressRange) (chainHeight : Nat) :
    Follows (eligibleCredits K p ranges chainHeight) (p.eligibleCredits K ranges chainHeight) := by
  unfold eligibleCredits Pool.eligibleCredits
  cases p.credits.unspentOutputs with
  | error e => exact .error _
  | ok unspent => exact (Selection.Checked.eligible_follows ranges).mapError _

theorem newRound_follows (p : Pool) (roundId : UInt32) (params : RoundParams) (chainHeight : Nat) :
    Follows (newRound K p roundId params chainHeight)
      (p.newRound K roundId params chainHeight) := by
  unfold newRound Pool.newRound
  cases p.changeAddress K params.changeStart.1 params.changeStart.2 with
  | error e => exact .error e
  | ok changeStart =>
      refine (eligibleCredits_follows p params.ranges chainHeight).bind
        (fun e he => by rw [he]; rfl) fun credits hcredits => ?_
      rw [hcredits]
      exact (Round.Checked.run_follows (covered_of_eligibleCredits hcredits) _ _ _).mapError _

/-- **A withdrawal that does not panic is one of the exact pool.** -/
theorem withdraw_eq {p : Pool} {roundId : UInt32} {requests : List OutputRequest}
    {ranges : List AddressRange} {changeStart : SeriesId × Index} {chainHeight : Nat}
    {answer : Except PoolError RoundStatus × Pool}
    (h : withdraw K p roundId requests ranges changeStart chainHeight = .ok answer) :
    p.withdraw K roundId requests ranges changeStart chainHeight = answer := by
  have hround := newRound_follows (K := K) p roundId (p.params requests ranges changeStart)
    chainHeight
  unfold withdraw at h
  unfold Pool.withdraw
  dsimp only at h ⊢
  cases hstored : p.credits.round roundId with
  | error e =>
      rw [hstored] at h
      cases h
      rfl
  | ok found =>
      rw [hstored] at h
      cases found with
      | some record =>
          dsimp only at h ⊢
          split at h <;> rename_i hparams
          · cases h
            rw [if_pos hparams]
          · cases h
            rw [if_neg hparams]
      | none =>
          dsimp only at h ⊢
          generalize hchecked : newRound K p roundId (p.params requests ranges changeStart)
            chainHeight = checked at h
          cases checked with
          | error stop =>
              cases stop with
              | panic cause => cases h
              | error e =>
                  rw [hround.eq_of_error hchecked]
                  cases h
                  rfl
          | ok status =>
              rw [hround.eq_of_ok hchecked]
              dsimp only at h ⊢
              generalize p.credits.commit _ = committed at h ⊢
              obtain ⟨result, credits⟩ := committed
              cases result with
              | error e =>
                  cases h
                  rfl
              | ok =>
                  cases h
                  rfl

/-- **A withdrawal panics only where a number has no place in its word**: none of its assertions
fails, and it reads no list behind its end. -/
theorem withdraw_panic {p : Pool} {roundId : UInt32} {requests : List OutputRequest}
    {ranges : List AddressRange} {changeStart : SeriesId × Index} {chainHeight : Nat}
    {cause : Panic}
    (h : withdraw K p roundId requests ranges changeStart chainHeight = .error cause) :
    cause = .overflow := by
  have hround := newRound_follows (K := K) p roundId (p.params requests ranges changeStart)
    chainHeight
  unfold withdraw at h
  dsimp only at h
  split at h
  · cases h
  · split at h <;> cases h
  · split at h
    · rename_i cause' hpanic
      cases h
      exact hround.cause_eq hpanic
    · cases h
    · split at h <;> cases h

/-! ## Histories -/

/-- The pool after a command, if there is one. -/
def apply (K : KeyScheme) (p : Pool) : Command → Except Panic Pool
  | .withdraw w => do
    return (← withdraw K p w.roundId w.requests w.ranges w.changeStart w.chainHeight).2
  | command => .ok (p.apply K command)

/-- The pool after some commands, if none of them panics. -/
def after (K : KeyScheme) (p : Pool) (commands : List Command) : Except Panic Pool :=
  commands.foldlM (apply K) p

theorem apply_eq {p p' : Pool} {command : Command} (h : apply K p command = .ok p') :
    p.apply K command = p' := by
  cases command with
  | withdraw w =>
      obtain ⟨answer, hanswer, hpool⟩ := Except.bind_eq_ok_iff.mp h
      cases hpool
      exact congrArg Prod.snd (withdraw_eq hanswer)
  | create | replace | empower | receive | setCharter | commit =>
      cases h
      rfl

/-- **A history without a panic is one of the exact pool.** -/
theorem after_eq {p p' : Pool} {commands : List Command} (h : after K p commands = .ok p') :
    p.after K commands = p' := by
  induction commands generalizing p with
  | nil =>
      cases h
      rfl
  | cons command rest ih =>
      obtain ⟨next, hnext, hrest⟩ := Except.bind_eq_ok_iff.mp h
      show (p.apply K command).after K rest = p'
      rw [apply_eq hnext]
      exact ih hrest

end Pool.Checked

end NotaryPool
