import NotaryPool.Proofs.Pool.History
import NotaryPool.Proofs.Signing.Threshold
import NotaryPool.Proofs.Withdrawal.Selection

/-!
# The pool spends what it holds, and each output once

The rounds of a pool are computed by the engine from what a selection offers, and recorded by a
commit. The selection says where the outputs come from. That none of them is spent twice is left to
the commit: an output that was spent is not in the store, so the next round that spends it must find
it put in again.

## Contents

* `Round.credit_of_spent`: the outputs that the transactions of a round spend are credits.
* `Pool.Spendable`, `Pool.spendable_of_processes`: **what a round spends, it may spend.**
* `Pool.Puts`, `Pool.puts_of_after`: **an output in the store was put there by some command.**
* `Pool.custody`: **what recorded rounds spend, over any history.**
-/

namespace NotaryPool

variable {K : KeyScheme}

/-! ## The outputs that a round spends -/

/-- The inputs of the transactions are credits that the round was given. -/
theorem Round.credit_of_spent {P : TxPolicy} {book : SeriesBook} {roundId : UInt32}
    {requests : List OutputRequest} {credits : List PoolCredit} {changeStart : ChangeAddress}
    {status : RoundStatus} (h : run K P book roundId requests credits changeStart = .ok status) :
    ∀ o ∈ status.spent, ∃ c ∈ credits, c.outpoint = o := by
  intro o ho
  obtain ⟨start, final, hnew, hfulfil, hstatus⟩ := run_ok h
  obtain ⟨signed, -, rfl⟩ := toStatus_ok hstatus
  obtain ⟨w, hw, hinput⟩ := List.mem_flatMap.mp ho
  obtain ⟨e, he, rfl⟩ := List.mem_map.mp hw
  obtain ⟨d, hd, rfl⟩ := List.mem_map.mp (OrderedMap.mem_ofList he)
  obtain ⟨input, hin, rfl⟩ := List.mem_map.mp hinput
  obtain ⟨c, hc, rfl⟩ := List.mem_map.mp hin
  exact ⟨c, finalized_spends hnew hfulfil d hd c hc, rfl⟩

namespace Pool

variable {p : Pool} {w : Call} {status : RoundStatus} {o : Outpoint}

/-- An output that a withdrawal may spend: it is stored as unspent, lies at an address in one of the
ranges, has the least amount and the least confirmations, and is not the charter. -/
structure Spendable (K : KeyScheme) (p : Pool) (w : Call) (o : Outpoint) (output : UnspentOutput) :
    Prop where
  unspent : p.credits.unspent.find? o = some output
  located : ∃ range ∈ w.ranges, ∃ branch index address, range.Covers branch index
    ∧ p.registry.book.poolAddress K range.series branch index = .ok address
    ∧ output.script = address.script
  dust : p.settings.dustThreshold ≤ output.value
  confirmed : p.settings.minConfirmations ≤ confirmations output.height w.chainHeight
  charter : p.charter ≠ some o

/-- **What a round spends, it may spend.** -/
theorem spendable_of_processes (hp : p.credits.Keyed) (h : p.Processes K w status) :
    ∀ o ∈ status.spent, ∃ output, p.Spendable K w o output := by
  intro o ho
  obtain ⟨changeStart, credits, -, hcredits, hrun⟩ := newRound_eq_ok_iff.mp h.computed
  obtain ⟨c, hc, rfl⟩ := Round.credit_of_spent hrun o ho
  have hselected := Selection.selected_of_eligible (eligibleCredits_eq_ok_iff.mp hcredits).2 c hc
  obtain ⟨output, hstored, hscript, hcredit⟩ := hselected.stored
  obtain ⟨range, hrange, branch, index, hcovers, haddress⟩ := hselected.located
  have hallowed := hselected.allowed
  rw [hcredit] at hallowed ⊢
  simp only [Eligibility.allows, Settings.eligibility, PoolCredit.ofUnspent, Bool.and_eq_true,
    bne_iff_ne] at hallowed
  obtain ⟨⟨hdust, hconfirmed⟩, hcharter⟩ := hallowed
  exact ⟨output,
    { unspent := hp.find?_of_mem hstored
      located := ⟨range, hrange, branch, index, c.address, hcovers, haddress, hscript⟩
      dust := of_decide_eq_true hdust
      confirmed := of_decide_eq_true hconfirmed
      charter := hcharter }⟩

/-! ## Recorded rounds -/

/-- A withdrawal whose round was not in the store, and is there afterwards. -/
structure Records (K : KeyScheme) (p : Pool) (w : Call) (record : RoundRecord) : Prop where
  missing : p.credits.rounds.find? w.roundId = none
  stored : (p.apply K (.withdraw w)).credits.rounds.find? w.roundId = some record

theorem processes_of_records {record : RoundRecord} (h : p.Records K w record) :
    p.Processes K w record.status
      ∧ (p.apply K (.withdraw w)).credits
          = p.credits.taking (p.commitFor K w record.status) := by
  have hstored : (p.process K w).2.credits.rounds.find? w.roundId = some record := h.stored
  have houtcome := outcome_process K p w
  show p.Processes K w record.status ∧ (p.process K w).2.credits = _
  generalize p.process K w = result at houtcome hstored ⊢
  cases houtcome with
  | refused e =>
      rw [h.missing] at hstored
      cases hstored
  | repeated hfound hsame =>
      rw [h.missing] at hstored
      cases hstored
  | recorded hnew =>
      rw [CreditStore.find?_rounds_taking] at hstored
      obtain rfl := Option.some.inj ((if_pos rfl).symm.trans hstored)
      exact ⟨hnew, rfl⟩

theorem records_of_processes (hworks : p.credits.faults = {}) (h : p.Processes K w status) :
    p.Records K w ⟨p.asks w, status⟩ := by
  refine ⟨(round_eq_ok_iff hworks).mp h.missing, ?_⟩
  have hprocess : p.process K w = _ := process_of_processes (by rw [hworks]) h
  show (p.process K w).2.credits.rounds.find? w.roundId = _
  rw [hprocess, CreditStore.find?_rounds_taking]
  exact if_pos rfl

/-! ## Outputs put into the store -/

/-- A command that puts an output into the store: a deposit, a commit that is taken in, or a
withdrawal that processes a new round, the latter two with the output in their change. -/
inductive Puts (K : KeyScheme) (p : Pool) : Command → Outpoint → Prop
  | received (output : UnspentOutput) : Puts K p (.receive output) output.outpoint
  | committed {c : RoundCommit} {o : Outpoint} (hc : p.credits.Acceptable c)
      (ho : o ∈ c.change.map (·.outpoint)) : Puts K p (.commit c) o
  | change {w : Call} {status : RoundStatus} {o : Outpoint} (hnew : p.Processes K w status)
      (ho : o ∈ (p.commitFor K w status).change.map (·.outpoint)) : Puts K p (.withdraw w) o

theorem puts_of_apply {command : Command} (hout : o ∉ p.credits.unspent.keys)
    (hin : o ∈ (p.apply K command).credits.unspent.keys) : p.Puts K command o := by
  have hchange := storeChange_apply K p command
  generalize (p.apply K command).credits = credits at hchange hin
  -- what was not there before is the deposit or the change
  cases hchange with
  | unchanged => exact absurd hin hout
  | received output =>
      rcases CreditStore.mem_unspent_addUnspent.mp hin with rfl | hold
      · exact .received output
      · exact absurd hold hout
  | committed hc =>
      rcases CreditStore.mem_unspent_taking.mp hin with ⟨hold, -⟩ | hnew
      · exact absurd hold hout
      · exact .committed hc hnew
  | recorded hprocesses =>
      rcases CreditStore.mem_unspent_taking.mp hin with ⟨hold, -⟩ | hnew
      · exact absurd hold hout
      · exact .change hprocesses hnew

/-- **An output that comes into the store was put there by some command.** -/
theorem puts_of_after {commands : List Command} (hout : o ∉ p.credits.unspent.keys)
    (hin : o ∈ (p.after K commands).credits.unspent.keys) :
    ∃ earlier command later, commands = earlier ++ command :: later
      ∧ (p.after K earlier).Puts K command o := by
  induction commands generalizing p with
  | nil => exact absurd hin hout
  | cons command rest ih =>
      by_cases hnext : o ∈ (p.apply K command).credits.unspent.keys
      · exact ⟨[], command, rest, rfl, puts_of_apply hout hnext⟩
      · obtain ⟨earlier, later, others, rfl, hputs⟩ := ih hnext hin
        exact ⟨command :: earlier, later, others, rfl, hputs⟩

/-- An output that a recorded round spent is in the store later only if it was put there again. -/
theorem puts_of_records {record : RoundRecord} (h : p.Records K w record)
    (ho : o ∈ record.status.spent) {between : List Command}
    (hin : o ∈ (p.after K (.withdraw w :: between)).credits.unspent.keys) :
    ∃ earlier command later, .withdraw w :: between = earlier ++ command :: later
      ∧ (p.after K earlier).Puts K command o := by
  obtain ⟨hprocesses, hcredits⟩ := processes_of_records h
  by_cases hchange : o ∈ (p.apply K (.withdraw w)).credits.unspent.keys
  · -- the commit took the output out, so it is there as change of the same commit
    refine ⟨[], .withdraw w, between, rfl, .change hprocesses ?_⟩
    rw [hcredits] at hchange
    rcases CreditStore.mem_unspent_taking.mp hchange with ⟨-, hleft⟩ | hnew
    · exact absurd ho hleft
    · exact hnew
  · obtain ⟨earlier, command, later, rfl, hputs⟩ := puts_of_after hchange hin
    exact ⟨.withdraw w :: earlier, command, later, rfl, hputs⟩

/-! ## Custody -/

/-- **What recorded rounds spend, over any history.** In a pool whose store was empty at first, a
withdrawal that records a round spends different outputs only, and each of them is one that it may
spend at the start of the call. If a later withdrawal records a round that spends one of them again,
some command in the time between the two commits put the output into the store again. The change of
the first round counts as well: a commit takes out what the round spends before it takes its change
in. -/
theorem custody (hp : p.credits = .empty) {before : List Command} {record : RoundRecord}
    (h : (p.after K before).Records K w record) :
    record.status.spent.Nodup
      ∧ (∀ o ∈ record.status.spent, ∃ output, (p.after K before).Spendable K w o output)
      ∧ ∀ between w' record',
          (p.after K (before ++ .withdraw w :: between)).Records K w' record' →
          ∀ o ∈ record.status.spent, o ∈ record'.status.spent →
            ∃ earlier command later, .withdraw w :: between = earlier ++ command :: later
              ∧ (p.after K (before ++ earlier)).Puts K command o := by
  have hkeyed : (p.after K before).credits.Keyed := by
    apply keyed_after
    rw [hp]
    exact CreditStore.keyed_empty
  obtain ⟨hprocesses, -⟩ := processes_of_records h
  refine ⟨hprocesses.acceptable.spent_nodup, spendable_of_processes hkeyed hprocesses, ?_⟩
  intro between w' record' h' o ho ho'
  obtain ⟨hprocesses', -⟩ := processes_of_records h'
  -- the later commit found the output in the store
  have hin := hprocesses'.acceptable.spent_known o ho'
  rw [after_append] at hin
  obtain ⟨earlier, command, later, heq, hputs⟩ := puts_of_records h ho hin
  refine ⟨earlier, command, later, heq, ?_⟩
  rw [after_append]
  exact hputs

/-! ### A deposit that comes twice -/

namespace Sample

open Round (Shared.scheme)
open Round

/-- A pool that has not held anything yet. -/
def fresh : Pool := new registry .empty {}

/-- After a round spent the deposit, it is stored once more when it comes again. -/
theorem holding_again {id : UInt32} {rounds : OrderedMap UInt32 RoundRecord} {status : RoundStatus}
    (h : (holding rounds).Processes Shared.scheme (call id) status)
    (hspent : status.spent = [deposit.outpoint])
    (hchange : ((holding rounds).commitFor Shared.scheme (call id) status).change = []) :
    (holding rounds).after Shared.scheme [.withdraw (call id), .receive deposit]
      = holding (rounds.insert id ⟨(holding rounds).asks (call id), status⟩) := by
  have hcommit : ((holding rounds).commitFor Shared.scheme (call id) status).spent
      = [deposit.outpoint] := hspent
  have htaken : (holding rounds).credits.taking
      ((holding rounds).commitFor Shared.scheme (call id) status)
      = ⟨⟨[]⟩, rounds.insert id ⟨(holding rounds).asks (call id), status⟩, {}⟩ := by
    unfold CreditStore.taking
    rw [hcommit, hchange]
    rfl
  have hwithdrawn : (holding rounds).apply Shared.scheme (.withdraw (call id))
      = { holding rounds with
          credits := ⟨⟨[]⟩, rounds.insert id ⟨(holding rounds).asks (call id), status⟩, {}⟩ } := by
    show ((holding rounds).process Shared.scheme (call id)).2 = _
    rw [process_of_processes rfl h, htaken]
  show ((holding rounds).apply Shared.scheme (.withdraw (call id))).apply Shared.scheme
    (.receive deposit) = _
  rw [hwithdrawn]
  rfl

end Sample

open Sample in
theorem sample_custody : ∃ record record',
    fresh.credits = .empty
      ∧ (fresh.after Round.Shared.scheme [.receive deposit]).Records Round.Shared.scheme (call 1)
          record
      ∧ record.status.spent = [deposit.outpoint]
      ∧ (∃ output, (fresh.after Round.Shared.scheme [.receive deposit]).Spendable
          Round.Shared.scheme (call 1) deposit.outpoint output)
      ∧ (fresh.after Round.Shared.scheme
          ([.receive deposit] ++ .withdraw (call 1) :: [.receive deposit])).Records
          Round.Shared.scheme (call 2) record'
      ∧ record'.status.spent = [deposit.outpoint]
      ∧ ∃ earlier command later,
          .withdraw (call 1) :: [.receive deposit] = earlier ++ command :: later
            ∧ (fresh.after Round.Shared.scheme ([.receive deposit] ++ earlier)).Puts
                Round.Shared.scheme command deposit.outpoint := by
  obtain ⟨status, hprocesses, hspent, hchange⟩ := processes 1 .empty (by decide)
  have hagain := holding_again hprocesses hspent hchange
  obtain ⟨status', hprocesses', hspent', -⟩ := processes 2
    ((OrderedMap.empty).insert 1 ⟨(holding .empty).asks (call 1), status⟩) (by
      rw [OrderedMap.mem_keys_insert]
      decide)
  have hrecords : (fresh.after Round.Shared.scheme [.receive deposit]).Records
      Round.Shared.scheme (call 1) _ := records_of_processes rfl hprocesses
  have hbetween : fresh.after Round.Shared.scheme
      ([.receive deposit] ++ .withdraw (call 1) :: [.receive deposit])
      = holding ((OrderedMap.empty).insert 1 ⟨(holding .empty).asks (call 1), status⟩) := by
    rw [after_append, ← hagain]
    rfl
  have hrecords' := records_of_processes rfl hprocesses'
  rw [← hbetween] at hrecords'
  obtain ⟨-, hspendable, hputs⟩ := custody rfl hrecords
  have hfirst : deposit.outpoint ∈ status.spent := by simp [hspent]
  have hsecond : deposit.outpoint ∈ status'.spent := by simp [hspent']
  exact ⟨_, _, rfl, hrecords, hspent, hspendable _ hfirst, hrecords', hspent',
    hputs _ _ _ hrecords' _ hfirst hsecond⟩

end Pool

end NotaryPool
