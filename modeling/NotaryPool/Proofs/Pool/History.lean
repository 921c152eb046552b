import NotaryPool.Pool.Basic
import NotaryPool.Proofs.Pool.Store
import NotaryPool.Proofs.Signing.Threshold
import NotaryPool.Proofs.Withdrawal.Selection

/-!
# The history of a pool

A pool lives through deposits, changes of its series and of its charter, and rounds, in any order.
Whatever a command is, it does one of four things to the store: nothing, a deposit, a commit that
was handed in, or the commit of a round. A round that is in the store stays there, so it is
processed once only.

## Contents

* `Pool.Command`, `Pool.after`: commands, and the pool after some of them.
* `Pool.Outcome`, `Pool.outcome_process`: **what a withdrawal can end in.**
* `Pool.StoreChange`, `Pool.storeChange_apply`: **what a command can do to the store.**
* `Pool.find?_rounds_after`, `Pool.keyed_after`: what is kept over a history.
* `Pool.processed_once`: **rounds are processed once and fail without a trace.**
-/

namespace NotaryPool

/-- The outputs that the transactions of a round spend. -/
def RoundStatus.spent (s : RoundStatus) : List Outpoint :=
  s.transactions.values.flatMap fun w => w.tx.inputs.map (·.prev)

namespace Pool

variable {K : KeyScheme}

/-! ## Commands -/

/-- The arguments of a withdrawal. -/
structure Call where
  roundId : UInt32
  requests : List OutputRequest
  ranges : List AddressRange
  changeStart : SeriesId × Index
  chainHeight : Nat

/-- What a withdrawal asks for, apart from the round and the height of the chain. -/
def Call.asked (w : Call) : List OutputRequest × List AddressRange × (SeriesId × Index) :=
  (w.requests, w.ranges, w.changeStart)

/-- What a round is asked to do by a withdrawal. -/
def asks (p : Pool) (w : Call) : RoundParams := p.params w.requests w.ranges w.changeStart

/-- A withdrawal. -/
def process (K : KeyScheme) (p : Pool) (w : Call) : Except PoolError RoundStatus × Pool :=
  p.withdraw K w.roundId w.requests w.ranges w.changeStart w.chainHeight

/-- What can be done with a pool: changes of its series, deposits, another charter, commits to its
store, and withdrawals. -/
inductive Command where
  | create (version : UInt32) (id : SeriesId) (required : UInt8) (texts : List String)
  | replace (version : UInt32) (id : SeriesId) (required : UInt8) (texts : List String)
  | empower (id : SeriesId) (text : String)
  | receive (output : UnspentOutput)
  | setCharter (charter : Option Outpoint)
  | commit (c : RoundCommit)
  | withdraw (w : Call)

/-- The pool after a command, whether it went well or not. -/
def apply (K : KeyScheme) (p : Pool) : Command → Pool
  | .create version id required texts => (p.create K version id required texts).2
  | .replace version id required texts => (p.replace K version id required texts).2
  | .empower id text => (p.empower K id text).2
  | .receive output => { p with credits := p.credits.addUnspent output }
  | .setCharter charter => { p with charter }
  | .commit c => { p with credits := (p.credits.commit c).2 }
  | .withdraw w => (p.process K w).2

/-- The pool after some commands. -/
def after (K : KeyScheme) (p : Pool) (commands : List Command) : Pool := commands.foldl (apply K) p

theorem after_append (p : Pool) (earlier later : List Command) :
    p.after K (earlier ++ later) = (p.after K earlier).after K later :=
  List.foldl_append ..

/-! ## What a withdrawal ends in -/

section Ends

variable {p : Pool} {w : Call} {status : RoundStatus}

theorem eligibleCredits_eq_ok_iff {ranges : List AddressRange} {chainHeight : Nat}
    {credits : List PoolCredit} :
    p.eligibleCredits K ranges chainHeight = .ok credits
      ↔ p.credits.faults.unspent = none
          ∧ Selection.eligible K p.registry.book p.credits.unspent.values ranges
              (p.settings.eligibility chainHeight p.charter) = .ok credits := by
  unfold eligibleCredits CreditStore.unspentOutputs
  cases p.credits.faults.unspent with
  | some text =>
      constructor
      · intro h
        cases h
      · rintro ⟨h, -⟩
        cases h
  | none =>
      show (Selection.eligible K _ _ _ _).mapError _ = _ ↔ _
      rw [Except.mapError_eq_ok_iff]
      exact (and_iff_right rfl).symm

theorem newRound_eq_ok_iff {roundId : UInt32} {params : RoundParams} {chainHeight : Nat} :
    p.newRound K roundId params chainHeight = .ok status
      ↔ ∃ changeStart credits,
          p.changeAddress K params.changeStart.1 params.changeStart.2 = .ok changeStart
            ∧ p.eligibleCredits K params.ranges chainHeight = .ok credits
            ∧ Round.run K p.settings.toStandardPolicy.toPolicy p.registry.book roundId
                params.requests credits changeStart = .ok status := by
  unfold newRound
  simp only [Except.bind_eq_ok_iff, Except.mapError_eq_ok_iff, exists_and_left]

/-- The commit of a round that a withdrawal computed. -/
def commitFor (K : KeyScheme) (p : Pool) (w : Call) (status : RoundStatus) : RoundCommit :=
  commitOf K w.roundId (p.asks w) status

/-- A round whose transactions have no change brings none. -/
theorem change_commitFor_eq_nil {p : Pool} {w : Call} {status : RoundStatus}
    (h : ∀ t ∈ status.transactions.values, t.changeVout = none) :
    (p.commitFor K w status).change = [] := by
  unfold commitFor commitOf
  rw [List.filterMap_eq_nil_iff]
  rintro ⟨ntxid, signed⟩ -
  show changeOutput? status ntxid signed = none
  unfold changeOutput?
  cases signed.toOption with
  | none => rfl
  | some tx =>
      cases hfound : status.transactions.find? ntxid with
      | none => rfl
      | some t =>
          have hnone := h t (List.mem_map.mpr ⟨_, OrderedMap.mem_of_find? hfound, rfl⟩)
          simp [hnone]

/-- A withdrawal computes a new round, and the store takes it in. -/
structure Processes (K : KeyScheme) (p : Pool) (w : Call) (status : RoundStatus) : Prop where
  missing : p.credits.round w.roundId = .ok none
  computed : p.newRound K w.roundId (p.asks w) w.chainHeight = .ok status
  acceptable : p.credits.Acceptable (p.commitFor K w status)

/-- What a withdrawal can end in: an error, the outcome of a round that is in the store, or that of
a new one. Only the last one changes the pool. -/
inductive Outcome (K : KeyScheme) (p : Pool) (w : Call) :
    Except PoolError RoundStatus × Pool → Prop
  | refused (e : PoolError) : Outcome K p w (.error e, p)
  | repeated {record : RoundRecord} (hfound : p.credits.round w.roundId = .ok (some record))
      (hsame : record.params = p.asks w) : Outcome K p w (.ok record.status, p)
  | recorded {status : RoundStatus} (hnew : p.Processes K w status) :
      Outcome K p w
        (.ok status, { p with credits := p.credits.taking (p.commitFor K w status) })

/-- A round that is in the store is not processed again. -/
theorem process_of_stored {record : RoundRecord}
    (h : p.credits.round w.roundId = .ok (some record)) :
    p.process K w = if record.params = p.asks w then (.ok record.status, p)
      else (.error (.roundMismatch w.roundId), p) := by
  unfold process withdraw
  dsimp only
  rw [h]
  rfl

theorem process_of_computed (hmissing : p.credits.round w.roundId = .ok none)
    (hcomputed : p.newRound K w.roundId (p.asks w) w.chainHeight = .ok status) :
    p.process K w
      = match p.credits.commit (p.commitFor K w status) with
        | (.error e, credits) => (.error (.store e), { p with credits })
        | (.ok (), credits) => (.ok status, { p with credits }) := by
  unfold asks at hcomputed
  cases hcommit : p.credits.commit (p.commitFor K w status) with
  | mk result credits =>
      unfold commitFor asks at hcommit
      unfold process withdraw
      cases result with
      | error e => simp only [hmissing, hcomputed, hcommit]
      | ok _ => simp only [hmissing, hcomputed, hcommit]

theorem process_of_processes (hworks : p.credits.faults.commit = none)
    (h : p.Processes K w status) :
    p.process K w
      = (.ok status, { p with credits := p.credits.taking (p.commitFor K w status) }) := by
  rw [process_of_computed h.missing h.computed,
    CreditStore.commit_eq_ok_iff.mpr ⟨hworks, h.acceptable, rfl⟩]

end Ends

theorem outcome_process (K : KeyScheme) (p : Pool) (w : Call) :
    Outcome K p w (p.process K w) := by
  cases hround : p.credits.round w.roundId with
  | error e =>
      have hprocess : p.process K w = (.error (.store e), p) := by
        unfold process withdraw
        dsimp only
        rw [hround]
      rw [hprocess]
      exact .refused _
  | ok stored =>
      cases stored with
      | some record =>
          rw [process_of_stored hround]
          split
          · rename_i hsame
            exact .repeated hround hsame
          · exact .refused _
      | none =>
          cases hstatus : p.newRound K w.roundId (p.asks w) w.chainHeight with
          | error e =>
              have hprocess : p.process K w = (.error e, p) := by
                unfold process withdraw
                unfold asks at hstatus
                simp only [hround, hstatus]
              rw [hprocess]
              exact .refused e
          | ok status =>
              rw [process_of_computed hround hstatus]
              -- the store takes the round in as a whole, or refuses it and stays the same
              rcases CreditStore.commit_cases p.credits (p.commitFor K w status) with
                ⟨-, hcommit, heq⟩ | ⟨-, e, heq⟩
              · rw [heq]
                exact .recorded ⟨hround, hstatus, hcommit⟩
              · rw [heq]
                exact .refused _

/-! ## What a command does to the store -/

/-- What a command can do to the store. -/
inductive StoreChange (K : KeyScheme) (p : Pool) : Command → CreditStore → Prop
  | unchanged (command : Command) : StoreChange K p command p.credits
  | received (output : UnspentOutput) :
      StoreChange K p (.receive output) (p.credits.addUnspent output)
  | committed {c : RoundCommit} (hc : p.credits.Acceptable c) :
      StoreChange K p (.commit c) (p.credits.taking c)
  | recorded {w : Call} {status : RoundStatus} (hnew : p.Processes K w status) :
      StoreChange K p (.withdraw w) (p.credits.taking (p.commitFor K w status))

theorem storeChange_apply (K : KeyScheme) (p : Pool) (command : Command) :
    StoreChange K p command (p.apply K command).credits := by
  cases command with
  | create version id required texts => exact .unchanged _
  | replace version id required texts => exact .unchanged _
  | empower id text => exact .unchanged _
  | receive output => exact .received output
  | setCharter charter => exact .unchanged _
  | commit c =>
      show StoreChange K p (.commit c) (p.credits.commit c).2
      rcases CreditStore.commit_cases p.credits c with ⟨-, hc, heq⟩ | ⟨-, e, heq⟩
      · rw [heq]
        exact .committed hc
      · rw [heq]
        exact .unchanged _
  | withdraw w =>
      have houtcome := outcome_process K p w
      show StoreChange K p (.withdraw w) (p.process K w).2.credits
      generalize p.process K w = result at houtcome ⊢
      cases houtcome with
      | refused e => exact .unchanged _
      | repeated hfound hsame => exact .unchanged _
      | recorded hnew => exact .recorded hnew

/-- The settings are for good. -/
theorem settings_apply (K : KeyScheme) (p : Pool) (command : Command) :
    (p.apply K command).settings = p.settings := by
  cases command with
  | withdraw w =>
      have houtcome := outcome_process K p w
      show (p.process K w).2.settings = p.settings
      generalize p.process K w = result at houtcome ⊢
      cases houtcome with
      | refused e => rfl
      | repeated hfound hsame => rfl
      | recorded hnew => rfl
  | _ => rfl

/-! ## What is kept over a history -/

section Kept

variable {p : Pool} {credits : CreditStore} {command : Command}

theorem StoreChange.faults_eq (h : StoreChange K p command credits) :
    credits.faults = p.credits.faults := by
  cases h with
  | unchanged => rfl
  | received => rfl
  | committed => rfl
  | recorded => rfl

/-- A round in the store stays there as it is. -/
theorem StoreChange.find?_rounds (h : StoreChange K p command credits) {id : UInt32}
    {record : RoundRecord} (hrecord : p.credits.rounds.find? id = some record) :
    credits.rounds.find? id = some record := by
  -- a commit brings a new round
  have hold : ∀ c, p.credits.Acceptable c → (p.credits.taking c).rounds.find? id = some record := by
    intro c hc
    rw [CreditStore.find?_rounds_taking, if_neg, hrecord]
    rintro rfl
    rw [OrderedMap.find?_eq_none_iff.mpr hc.fresh] at hrecord
    cases hrecord
  cases h with
  | unchanged => exact hrecord
  | received => exact hrecord
  | committed hc => exact hold _ hc
  | recorded hnew => exact hold _ hnew.acceptable

theorem StoreChange.keyed (h : StoreChange K p command credits) (hp : p.credits.Keyed) :
    credits.Keyed := by
  cases h with
  | unchanged => exact hp
  | received output => exact hp.addUnspent output
  | committed hc => exact hp.taking hc
  | recorded hnew => exact hp.taking hnew.acceptable

/-- What each command keeps is kept over a history. -/
theorem after_induction {Q : Pool → Prop} (hstep : ∀ p command, Q p → Q (p.apply K command))
    (hp : Q p) (commands : List Command) : Q (p.after K commands) := by
  induction commands generalizing p with
  | nil => exact hp
  | cons command rest ih => exact ih (hstep p command hp)

theorem settings_after (K : KeyScheme) (p : Pool) (commands : List Command) :
    (p.after K commands).settings = p.settings := by
  refine after_induction (Q := fun p' => p'.settings = p.settings) ?_ rfl commands
  intro p' command h
  rw [settings_apply, h]

theorem faults_after (K : KeyScheme) (p : Pool) (commands : List Command) :
    (p.after K commands).credits.faults = p.credits.faults := by
  refine after_induction (Q := fun p' => p'.credits.faults = p.credits.faults) ?_ rfl commands
  intro p' command h
  rw [(storeChange_apply K p' command).faults_eq, h]

theorem find?_rounds_after {id : UInt32} {record : RoundRecord}
    (hrecord : p.credits.rounds.find? id = some record) (commands : List Command) :
    (p.after K commands).credits.rounds.find? id = some record := by
  refine after_induction (Q := fun p' => p'.credits.rounds.find? id = some record) ?_ hrecord
    commands
  intro p' command h
  exact (storeChange_apply K p' command).find?_rounds h

theorem keyed_after (hp : p.credits.Keyed) (commands : List Command) :
    (p.after K commands).credits.Keyed := by
  refine after_induction (Q := fun p' => p'.credits.Keyed) ?_ hp commands
  intro p' command h
  exact (storeChange_apply K p' command).keyed h

end Kept

/-! ## Each round once -/

section Once

variable {p p' : Pool} {w w' : Call} {status : RoundStatus}

theorem round_eq_ok_iff (hp : p.credits.faults = {}) {id : UInt32} {found : Option RoundRecord} :
    p.credits.round id = .ok found ↔ p.credits.rounds.find? id = found := by
  unfold CreditStore.round
  rw [hp]
  show Except.ok (p.credits.rounds.find? id) = Except.ok found ↔ _
  rw [Except.ok.injEq]

/-- A withdrawal that went well has left its round in the store, at the latest. -/
theorem stored_of_process (hp : p.credits.faults = {}) (h : p.process K w = (.ok status, p')) :
    p'.settings = p.settings ∧ p'.credits.faults = {}
      ∧ p'.credits.rounds.find? w.roundId = some ⟨p.asks w, status⟩ := by
  have houtcome := outcome_process K p w
  rw [h] at houtcome
  cases houtcome with
  | @repeated record hfound hsame =>
      refine ⟨rfl, hp, ?_⟩
      rw [(round_eq_ok_iff hp).mp hfound, ← hsame]
  | recorded hnew =>
      refine ⟨rfl, hp, ?_⟩
      rw [CreditStore.find?_rounds_taking]
      exact if_pos rfl

/-- Two withdrawals under the same settings ask a round for the same just when their arguments are
the same. -/
theorem asks_eq_iff (hsettings : p'.settings = p.settings) :
    p.asks w = p'.asks w' ↔ w'.asked = w.asked := by
  unfold asks params Call.asked
  rw [hsettings]
  simp only [RoundParams.mk.injEq, Prod.mk.injEq, and_true]
  constructor
  · rintro ⟨hrequests, hranges, hstart⟩
    exact ⟨hrequests.symm, hranges.symm, hstart.symm⟩
  · rintro ⟨hrequests, hranges, hstart⟩
    exact ⟨hrequests.symm, hranges.symm, hstart.symm⟩

/-- A withdrawal for a round that went well before is answered from the store. -/
theorem process_again (hp : p.credits.faults = {}) (h : p.process K w = (.ok status, p'))
    (commands : List Command) (hid : w'.roundId = w.roundId) :
    (p'.after K commands).process K w'
      = if w'.asked = w.asked then (.ok status, p'.after K commands)
        else (.error (.roundMismatch w.roundId), p'.after K commands) := by
  obtain ⟨hsettings, hfaults, hrecord⟩ := stored_of_process hp h
  have hfaults' : (p'.after K commands).credits.faults = {} := by rw [faults_after, hfaults]
  have hstored : (p'.after K commands).credits.round w'.roundId
      = .ok (some ⟨p.asks w, status⟩) := by
    rw [round_eq_ok_iff hfaults', hid]
    exact find?_rounds_after hrecord commands
  have hsettings' : (p'.after K commands).settings = p.settings := by
    rw [settings_after, hsettings]
  -- the settings are the same, so only the arguments decide
  rw [process_of_stored hstored, hid]
  simp only [asks_eq_iff hsettings']

/-- A withdrawal that fails leaves the pool as it was. -/
theorem process_error {e : PoolError} (h : p.process K w = (.error e, p')) : p' = p := by
  have houtcome := outcome_process K p w
  rw [h] at houtcome
  cases houtcome with
  | refused => rfl

/-- **Rounds are processed once and fail without a trace.** Over a store in memory: after a
withdrawal went well and anything else happened, a withdrawal for the same round gives the same
outcome if it asks for the same, at any height of the chain, and is refused if not; neither of them
changes anything. A withdrawal that fails leaves the whole pool as it was. The store takes in each
commit that is acceptable as a whole, and nothing of any other. -/
theorem processed_once (K : KeyScheme) (hp : p.credits.faults = {}) :
    (∀ w status p', p.process K w = (.ok status, p') →
        ∀ (commands : List Command) (w' : Call), w'.roundId = w.roundId →
          (w'.asked = w.asked →
            (p'.after K commands).process K w' = (.ok status, p'.after K commands))
          ∧ (w'.asked ≠ w.asked →
            (p'.after K commands).process K w'
              = (.error (.roundMismatch w.roundId), p'.after K commands)))
      ∧ (∀ w e p', p.process K w = (.error e, p') → p' = p)
      ∧ ∀ c : RoundCommit,
          (p.credits.Acceptable c ∧ p.credits.commit c = (.ok (), p.credits.taking c))
          ∨ (¬ p.credits.Acceptable c ∧ ∃ e, p.credits.commit c = (.error e, p.credits)) := by
  refine ⟨?_, fun w e p' => process_error, ?_⟩
  · intro w status p' h commands w' hid
    have hagain := process_again hp h commands hid
    constructor
    · intro hsame
      rw [hagain, if_pos hsame]
    · intro hother
      rw [hagain, if_neg hother]
  · intro c
    have hworks : p.credits.faults.commit = none := by rw [hp]
    rcases CreditStore.commit_cases p.credits c with ⟨-, hc, heq⟩ | ⟨hnot, herror⟩
    · exact Or.inl ⟨hc, heq⟩
    · exact Or.inr ⟨fun hc => hnot ⟨hworks, hc⟩, herror⟩

end Once

/-! ### A pool with one deposit

The series of the sample of threshold signing, and a deposit that pays one request and the fee. -/

namespace Sample

open Round (Shared.scheme)
open Round

def registry : Registry :=
  ⟨"pool", .regtest, .xchacha [] [] [], .empty, [(⟨1⟩, Shared.series none none)]⟩

def deposit : UnspentOutput := ⟨⟨Vector.replicate 32 1, 0⟩, 41000, Shared.address.script, some 1⟩

/-- The pool with the deposit as its one unspent output, after some rounds. -/
def holding (rounds : OrderedMap UInt32 RoundRecord) : Pool :=
  ⟨registry, ⟨⟨[(deposit.outpoint, deposit)]⟩, rounds, {}⟩, {}, none⟩

def range : AddressRange := ⟨⟨1⟩, ⟨1⟩, ⟨1⟩, ⟨0⟩, ⟨0⟩⟩

def call (id : UInt32) : Call := ⟨id, [Round.Sample.paying], [range], (⟨1⟩, ⟨0⟩), 1⟩

def changeStart : ChangeAddress :=
  ⟨⟨⟨1⟩, ⟨0⟩, ⟨0⟩, 2, .regtest, Shared.address.xpubs, Shared.children.reverse⟩⟩

def policy : TxPolicy := ({} : Settings).toStandardPolicy.toPolicy

theorem address_eq :
    registry.book.poolAddress Shared.scheme ⟨1⟩ ⟨1⟩ ⟨0⟩ = .ok Shared.address := by
  have hderived : PoolAddress.ofKeys Shared.scheme ⟨1⟩ 2 Shared.address.xpubs ⟨1⟩ ⟨0⟩ .regtest
      = .ok Shared.address :=
    PoolAddress.ofKeys_eq_ok_iff.mpr ⟨_, Shared.children, rfl, Shared.childKeys, rfl⟩
  exact hderived

theorem changeStart_derived :
    PoolAddress.ofKeys Shared.scheme ⟨1⟩ 2 Shared.address.xpubs ⟨0⟩ ⟨0⟩ .regtest
      = .ok changeStart.address :=
  PoolAddress.ofKeys_eq_ok_iff.mpr
    ⟨_, Shared.children.reverse, rfl, List.forall₂_reverse_iff.mpr Shared.childKeys, rfl⟩

theorem changeAddress_eq (rounds : OrderedMap UInt32 RoundRecord) :
    (holding rounds).changeAddress Shared.scheme ⟨1⟩ ⟨0⟩ = .ok changeStart := by
  show ((PoolAddress.ofKeys Shared.scheme ⟨1⟩ 2 Shared.address.xpubs ⟨0⟩ ⟨0⟩ .regtest).map
    ChangeAddress.mk).mapError PoolError.derive = _
  rw [changeStart_derived]
  rfl

/-- The deposit is found at the one position of the range. -/
theorem eligibleCredits_eq (rounds : OrderedMap UInt32 RoundRecord) :
    (holding rounds).eligibleCredits Shared.scheme [range] 1 = .ok Shared.credits :=
  eligibleCredits_eq_ok_iff.mpr
    ⟨rfl, Selection.eligible_of_single rfl (by decide) address_eq rfl rfl⟩

/-- The engine spends the deposit in one transaction, without change. -/
theorem fulfil_isOk : ∃ final,
    (opening [Shared.due] Shared.credits changeStart).fulfil Shared.scheme policy = .ok final
      ∧ final.finalized.map (fun d => (d.inputs, d.change)) = [(Shared.credits, none)] := by
  have hok : ((opening [Shared.due] Shared.credits changeStart).fulfil Shared.scheme
      policy).toOption.any (fun final => final.finalized.map (fun d => (d.inputs, d.change))
        = [(Shared.credits, none)]) = true := by
    have hprepared : (opening [Shared.due] Shared.credits changeStart).prepared
        = opening [Shared.due] Shared.credits changeStart :=
      prepared_opening (by decide) (by decide)
    rw [fulfil_eq, hprepared]
    decide +kernel
  obtain ⟨final, hfinal, htest⟩ := fulfil_any hok
  exact ⟨final, hfinal, of_decide_eq_true htest⟩

theorem memberOf_bare : registry.book.MemberOf Shared.scheme registry.book.bare :=
  Registry.memberOf_single rfl (Shared.wellFormed_series (by simp) (by simp))

/-- The whole round, with a transaction that spends the deposit. -/
theorem run_isOk (id : UInt32) : ∃ status d,
    run Shared.scheme policy registry.book id [Round.Sample.paying] Shared.credits changeStart
        = .ok status
      ∧ status.transactions = .ofList (labelled [d])
      ∧ d.inputs = Shared.credits ∧ d.change = none := by
  have hnew : Round.new registry.book.network ([Shared.due].map (·.request)) Shared.credits
      changeStart = .ok (opening [Shared.due] Shared.credits changeStart) :=
    new_opening (by decide) (List.forall_mem_singleton.mpr (Round.Sample.script_paying rfl))
      (by decide)
  obtain ⟨final, hfulfil, hfinalized⟩ := fulfil_isOk
  obtain ⟨d, hd, hparts⟩ := List.map_eq_singleton_iff.mp hfinalized
  obtain ⟨hinputs, hchange⟩ := Prod.mk.inj hparts
  have hpool : PoolInputs Shared.scheme registry.book.bare final.finalized := by
    intro d' hd' c hc
    rw [hd] at hd'
    rw [List.mem_singleton.mp hd', hinputs] at hc
    rw [List.mem_singleton.mp hc]
    exact address_eq
  obtain ⟨status, hstatus, htransactions, -⟩ :=
    toStatus_answered (KeyScheme.lawful_keeping _) memberOf_bare hpool id
  rw [hd] at htransactions
  exact ⟨status, d, run_of_fulfil hnew hfulfil hstatus, htransactions, hinputs, hchange⟩

/-- The round is processed wherever it is new. -/
theorem processes (id : UInt32) (rounds : OrderedMap UInt32 RoundRecord)
    (hnew : id ∉ rounds.keys) : ∃ status,
    (holding rounds).Processes Shared.scheme (call id) status
      ∧ status.spent = [deposit.outpoint]
      ∧ ((holding rounds).commitFor Shared.scheme (call id) status).change = [] := by
  obtain ⟨status, d, hrun, htransactions, hinputs, hnone⟩ := run_isOk id
  have hspent : status.spent = [deposit.outpoint] := by
    unfold RoundStatus.spent
    rw [htransactions]
    show d.toTx.inputs.map (·.prev) ++ [] = _
    unfold Draft.toTx
    rw [hinputs]
    rfl
  have hchange : ((holding rounds).commitFor Shared.scheme (call id) status).change = [] := by
    apply change_commitFor_eq_nil
    intro t ht
    rw [htransactions] at ht
    rw [List.mem_singleton.mp ht]
    show d.change.map _ = none
    rw [hnone]
    rfl
  refine ⟨status, ⟨?_, ?_, ?_⟩, hspent, hchange⟩
  · exact (round_eq_ok_iff rfl).mpr (OrderedMap.find?_eq_none_iff.mpr hnew)
  · exact newRound_eq_ok_iff.mpr
      ⟨changeStart, Shared.credits, changeAddress_eq rounds, eligibleCredits_eq rounds, hrun⟩
  · have hcommit : ((holding rounds).commitFor Shared.scheme (call id) status).spent
        = [deposit.outpoint] := hspent
    refine ⟨hnew, ?_, ?_, ?_, ?_⟩
    · rw [hcommit]
      exact List.nodup_singleton _
    · rw [hcommit]
      exact fun o ho => ho
    · rw [hchange]
      exact List.nodup_nil
    · rw [hchange]
      intro output houtput
      cases houtput

end Sample

open Sample in
theorem sample_processed_once : ∃ status p' later,
    (holding .empty).credits.faults = {}
      ∧ (holding .empty).process Round.Shared.scheme (call 1) = (.ok status, p')
      ∧ later = p'.after Round.Shared.scheme
          [.receive deposit, .setCharter (some deposit.outpoint)]
      ∧ later.process Round.Shared.scheme { call 1 with chainHeight := 7 } = (.ok status, later)
      ∧ later.process Round.Shared.scheme { call 1 with requests := [] }
          = (.error (.roundMismatch 1), later)
      ∧ (∃ e, (holding .empty).process Round.Shared.scheme
          { call 1 with changeStart := (⟨2⟩, ⟨0⟩) } = (.error e, holding .empty))
      ∧ ∃ e, (holding .empty).credits.commit
          ⟨2, ⟨(holding .empty).asks (call 1), status⟩, [deposit.outpoint, deposit.outpoint], []⟩
          = (.error e, (holding .empty).credits) := by
  obtain ⟨status, hprocesses, -, -⟩ := processes 1 .empty (by decide)
  have hprocess := process_of_processes rfl hprocesses
  obtain ⟨hagain, hfailed, hcommit⟩ :=
    processed_once Round.Shared.scheme (p := holding .empty) rfl
  refine ⟨status, _, _, rfl, hprocess, rfl, ?_, ?_, ?_, ?_⟩
  · exact (hagain _ _ _ hprocess _ { call 1 with chainHeight := 7 } rfl).1 rfl
  · refine (hagain _ _ _ hprocess _ { call 1 with requests := [] } rfl).2 ?_
    intro hsame
    cases congrArg (fun asked => asked.1) hsame
  · -- there is no series to send the change to
    obtain ⟨e, p', herror⟩ : ∃ e p', (holding .empty).process Round.Shared.scheme
        { call 1 with changeStart := (⟨2⟩, ⟨0⟩) } = (.error e, p') := ⟨_, _, rfl⟩
    rw [herror, hfailed _ _ _ herror]
    exact ⟨e, rfl⟩
  · rcases hcommit ⟨2, _, [deposit.outpoint, deposit.outpoint], []⟩ with ⟨hc, -⟩ | ⟨-, herror⟩
    · exact absurd hc.spent_nodup (by simp)
    · exact herror

end Pool

end NotaryPool
