import Mathlib.Data.List.Find
import NotaryPool.Proofs.Withdrawal.Order
import NotaryPool.Proofs.Withdrawal.Parallel

/-!
# Members agree on a round

Each member makes the round by itself, from requests and credits that reached it in an order of its
own, and with private keys that only it has. Once requests and credits are sorted, two members
differ in the order of their outcomes and in nothing else, and an outcome is only ever found by the
identity of its request. The private keys are not looked at before the signatures are made.

## Contents

* `Round.Twin`, `Round.Alike`: rounds that differ in the order of their outcomes, and results of
  operations on them.
* `Round.interchangeable_reordered`: a round cannot tell the orders of its outcomes apart.
* `Round.Shuffled.prepared`: sorting makes twins of rounds that began in different orders.
* `Round.run_agrees`: **members agree on the round.**
-/

namespace NotaryPool

namespace Round

variable {K : KeyScheme} {P : TxPolicy} {r s : Round}

/-! ## Twins -/

/-- Rounds that differ in the order of their outcomes only. -/
inductive Twin : Round → Round → Prop
  | intro {r : Round} {outcomes : List RequestOutcome} (hperm : r.outcomes.Perm outcomes)
      (hids : (r.outcomes.map (·.id)).Nodup) : Twin r { r with outcomes }

/-- Results that differ in the order of the outcomes only, or fail with the same error. -/
inductive Alike : Except Halt Round → Except Halt Round → Prop
  | ok {r s : Round} (h : Twin r s) : Alike (.ok r) (.ok s)
  | error {h h' : Halt} (herror : h.error = h'.error) : Alike (.error h) (.error h')

theorem Twin.perm (h : Twin r s) : r.outcomes.Perm s.outcomes := by
  cases h with
  | intro hperm hids => exact hperm

theorem Twin.nodup (h : Twin r s) : (r.outcomes.map (·.id)).Nodup := by
  cases h with
  | intro hperm hids => exact hids

/-- An outcome is found by its identity wherever it stands. -/
theorem find?_eq_of_perm {as bs : List RequestOutcome} (h : as.Perm bs)
    (hids : (as.map (·.id)).Nodup) (id : RequestId) :
    as.find? (·.id = id) = bs.find? (·.id = id) := by
  refine List.find?_eq_find?_of_perm h ?_
  rintro o ⟨ho, hid⟩ o' ⟨ho', hid'⟩
  -- there is one outcome of each identity only
  have hsame : o.id = o'.id := (of_decide_eq_true hid).trans (of_decide_eq_true hid').symm
  exact List.inj_on_of_nodup_map hids ho ho' hsame

/-- Lists of the same outcomes, each of them for a request of its own. -/
def Reordered (as bs : List RequestOutcome) : Prop := as.Perm bs ∧ (as.map (·.id)).Nodup

/-- A round cannot tell the orders of its outcomes apart. -/
theorem interchangeable_reordered : Interchangeable (fun _ => True) Reordered where
  map := by
    rintro as bs f hf ⟨hperm, hids⟩
    have hsame : (as.map f).map (·.id) = as.map (·.id) := by
      rw [List.map_map]
      exact List.map_congr_left fun o _ => congrArg OutputRequest.id (hf o)
    exact ⟨hperm.map f, hsame ▸ hids⟩
  find?_eq := fun h _ => find?_eq_of_perm h.1 h.2 _

theorem Twin.parallel (h : Twin r s) : Parallel Reordered r s := by
  cases h with
  | intro hperm hids => exact .intro ⟨hperm, hids⟩

theorem Parallel.twin (h : Parallel Reordered r s) : Twin r s := by
  cases h with
  | intro h => exact .intro h.1 h.2

theorem Together.alike {x y : Except Halt Round} (h : Together Reordered x y) : Alike x y := by
  cases h with
  | ok h => exact .ok h.twin
  | error herror => exact .error herror

/-! ## Before the first turn -/

/-- Rounds that differ in the order of their outcomes and of their requests still to be paid. -/
inductive Shuffled : Round → Round → Prop
  | intro {r : Round} {pending : List DueRequest} {outcomes : List RequestOutcome}
      (hpending : r.pending.Perm pending) (hdue : (r.pending.map (·.request.id)).Nodup)
      (hperm : r.outcomes.Perm outcomes) (hids : (r.outcomes.map (·.id)).Nodup) :
      Shuffled r { r with pending, outcomes }

/-- **Sorting makes twins.** The requests that are dropped, and the order of the others, do not
depend on how the requests came. -/
theorem Shuffled.prepared (h : Shuffled r s) : Twin r.prepared s.prepared := by
  cases h with
  | @intro pending outcomes hpending hdue hperm hids =>
      have hparallel : Parallel Reordered { r with pending } { r with pending, outcomes } :=
        .intro ⟨hperm, hids⟩
      rw [prepared_eq_of_perm hpending hdue]
      exact (interchangeable_reordered.prepared hparallel).twin

/-- Members that begin with the same requests and credits in different orders. -/
theorem shuffled_new (network : AddressNetwork) {requests requests' : List OutputRequest}
    {credits credits' : List PoolCredit} (changeStart : ChangeAddress)
    (hids : (requests.map (·.id)).Nodup) (hkeys : (credits.map (·.key)).Nodup)
    (hrequests : requests.Perm requests') (hcredits : credits.Perm credits') :
    ∃ start start', new network requests credits changeStart = .ok start
      ∧ new network requests' credits' changeStart = .ok start' ∧ Shuffled start start' := by
  have hids' : (requests'.map (·.id)).Nodup := (hrequests.map _).nodup_iff.mp hids
  have hintake : (requests.map (intake network)).Perm (requests'.map (intake network)) :=
    hrequests.map _
  refine ⟨_, _, new_ok_iff.mpr ⟨hids, rfl⟩, new_ok_iff.mpr ⟨hids', rfl⟩, ?_⟩
  rw [← PoolCredit.sort_eq_of_perm hkeys hcredits]
  refine Shuffled.intro (r := ⟨_, _, _, _, _, _, _⟩) (hintake.filterMap _)
    ((payable_sublist network requests).nodup hids) (hintake.map _) ?_
  have hsame : ((requests.map (intake network)).map (·.1)).map (·.id) = requests.map (·.id) := by
    rw [List.map_map, List.map_map]
    exact List.map_congr_left fun q _ => congrArg OutputRequest.id (request_intake network q)
  exact hsame ▸ hids

/-! ## Agreement -/

/-- **Sorting makes all parts of a round alike.** -/
theorem Shuffled.fulfil (h : Shuffled r s) : Alike (r.fulfil K P) (s.fulfil K P) :=
  (interchangeable_reordered.fulfil h.prepared.parallel fun _ _ => trivial).alike

end Round

/-- Two members report the same round. The outcomes may stand in different orders. -/
structure RoundStatus.Agrees (s s' : RoundStatus) : Prop where
  roundId : s.roundId = s'.roundId
  transactions : s.transactions = s'.transactions
  sigs : s.sigs = s'.sigs
  fees : s.fees = s'.fees
  nextChange : s.nextChange = s'.nextChange
  outcomes : s.outcomes.Perm s'.outcomes
  outcome : ∀ id, s.outcomes.find? (·.id = id) = s'.outcomes.find? (·.id = id)

namespace Round

/-- Twins report the same, or fail with the same error. -/
theorem Twin.toStatus (h : Twin r s) (book : SeriesBook) (roundId : UInt32) :
    (∃ e, r.toStatus K book roundId = .error e ∧ s.toStatus K book roundId = .error e)
      ∨ ∃ status status', r.toStatus K book roundId = .ok status
        ∧ s.toStatus K book roundId = .ok status' ∧ status.Agrees status' := by
  rcases h.parallel.toStatus (K := K) book roundId with herror | ⟨status, hstatus, hstatus'⟩
  · exact Or.inl herror
  · have houtcomes : status.outcomes = r.outcomes := by
      obtain ⟨signed, -, rfl⟩ := toStatus_ok hstatus
      rfl
    refine Or.inr ⟨_, _, hstatus, hstatus', rfl, rfl, rfl, rfl, rfl, ?_, ?_⟩
    · rw [houtcomes]
      exact h.perm
    · rw [houtcomes]
      exact find?_eq_of_perm h.perm h.nodup

/-- **Members agree on the round.** With distinct requests and distinct credits, members that got
these in different orders all fail with the same error, or report the same transactions in the same
order, the same signatures, fees and next change address, and the same outcome of each request. And
members whose books are for the same network report the same round except for the signatures. -/
theorem run_agrees (book : SeriesBook) (roundId : UInt32) {requests : List OutputRequest}
    {credits : List PoolCredit} (changeStart : ChangeAddress)
    (hids : (requests.map (·.id)).Nodup) (hkeys : (credits.map (·.key)).Nodup) :
    (∀ requests' credits', requests.Perm requests' → credits.Perm credits' →
      (∃ e, run K P book roundId requests credits changeStart = .error e
        ∧ run K P book roundId requests' credits' changeStart = .error e)
      ∨ ∃ status status', run K P book roundId requests credits changeStart = .ok status
        ∧ run K P book roundId requests' credits' changeStart = .ok status'
        ∧ status.Agrees status')
    ∧ ∀ book' status status', book'.network = book.network →
        run K P book roundId requests credits changeStart = .ok status →
        run K P book' roundId requests credits changeStart = .ok status' →
        status' = { status with sigs := status'.sigs } := by
  constructor
  · -- the orders are lost before the first turn, when requests and credits are sorted
    intro requests' credits' hrequests hcredits
    obtain ⟨start, start', hnew, hnew', hshuffled⟩ :=
      shuffled_new book.network changeStart hids hkeys hrequests hcredits
    have halike := hshuffled.fulfil (K := K) (P := P)
    unfold run
    rw [hnew, hnew']
    dsimp only
    generalize start.fulfil K P = result at halike ⊢
    generalize start'.fulfil K P = result' at halike ⊢
    cases halike with
    | @error h h' herror => exact Or.inl ⟨h.error, rfl, congrArg Except.error herror.symm⟩
    | ok htwin => exact htwin.toStatus book roundId
  · -- the book is read for its network and for the signatures only
    intro book' status status' hnetwork hrun hrun'
    obtain ⟨start, final, hnew, hfulfil, hstatus⟩ := run_ok hrun
    obtain ⟨start', final', hnew', hfulfil', hstatus'⟩ := run_ok hrun'
    rw [hnetwork, hnew] at hnew'
    cases hnew'
    rw [hfulfil] at hfulfil'
    cases hfulfil'
    obtain ⟨signed, -, rfl⟩ := toStatus_ok hstatus
    obtain ⟨signed', -, rfl⟩ := toStatus_ok hstatus'
    rfl

/-- A member that got the requests and credits of the small round the other way round agrees. -/
theorem sample_agrees :
    ∃ status status', run .secp256k1 Sample.policy Sample.book 1 Sample.requests Sample.credits
        Sample.change = .ok status
      ∧ run .secp256k1 Sample.policy Sample.book 1 Sample.requests.reverse Sample.credits.reverse
        Sample.change = .ok status'
      ∧ status.Agrees status' := by
  obtain ⟨status, hrun⟩ := Sample.run_isOk
  have hids : (Sample.requests.map (·.id)).Nodup := by decide
  have hkeys : (Sample.credits.map (·.key)).Nodup := by decide
  have hagrees := (run_agrees (K := .secp256k1) (P := Sample.policy) Sample.book 1 Sample.change
    hids hkeys).1 _ _ (List.reverse_perm _).symm (List.reverse_perm _).symm
  rcases hagrees with ⟨e, herror, -⟩ | hagrees
  · rw [hrun] at herror
    cases herror
  · exact hagrees

end Round

end NotaryPool
