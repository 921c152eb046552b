import NotaryPool.Pool.CreditStore
import NotaryPool.Proofs.OrderedMap

/-!
# Rounds are taken in as a whole

A commit takes the outputs that a round spends out of a copy of the store, one after the other, and
takes its change in. The first output that is missing, or that is there already, ends the work, and
the copy is thrown away. What the store takes in and what it holds then is said here at once,
without the order of the steps.

## Contents

* `CreditStore.spend_eq_ok_iff`, `CreditStore.receive_eq_ok_iff`: the two halves of a commit.
* `CreditStore.Acceptable`, `CreditStore.taking`: a commit that is taken in, and the store then.
* `CreditStore.commit_eq_ok_iff`, `CreditStore.commit_cases`: **a commit is taken in as a whole or
  not at all.**
* `CreditStore.Keyed`: each output is stored under its own place.
-/

namespace NotaryPool.CreditStore

variable {s s' : CreditStore} {c : RoundCommit} {o : Outpoint}

/-! ## The two halves of a commit -/

theorem spend_eq_ok_iff {spent : List Outpoint} {m m' : OrderedMap Outpoint UnspentOutput} :
    spend spent m = .ok m'
      ↔ spent.Nodup ∧ (∀ o ∈ spent, o ∈ m.keys) ∧ m' = m.without spent := by
  induction spent generalizing m with
  | nil =>
      rw [OrderedMap.without_nil]
      unfold spend
      simp [eq_comm]
  | cons o rest ih =>
      unfold spend
      by_cases ho : m.contains o = true
      · rw [if_pos ho, ih, OrderedMap.without_erase, List.nodup_cons, List.forall_mem_cons]
        have hknown := OrderedMap.contains_iff.mp ho
        constructor
        · rintro ⟨hnodup, hrest, rfl⟩
          refine ⟨⟨?_, hnodup⟩, ⟨hknown, ?_⟩, rfl⟩
          · -- an output taken out is not there to be taken out again
            intro hagain
            exact (OrderedMap.mem_keys_erase.mp (hrest o hagain)).2 rfl
          · intro other hother
            exact (OrderedMap.mem_keys_erase.mp (hrest other hother)).1
        · rintro ⟨⟨hnew, hnodup⟩, ⟨-, hrest⟩, rfl⟩
          refine ⟨hnodup, ?_, rfl⟩
          intro other hother
          refine OrderedMap.mem_keys_erase.mpr ⟨hrest other hother, ?_⟩
          rintro rfl
          exact hnew hother
      · rw [if_neg ho]
        constructor
        · intro h
          cases h
        · rintro ⟨-, hknown, -⟩
          exact absurd (OrderedMap.contains_iff.mpr (hknown o List.mem_cons_self)) ho

/-- Outputs with their places as keys. -/
def atOutpoints (outputs : List UnspentOutput) : List (Outpoint × UnspentOutput) :=
  outputs.map fun output => (output.outpoint, output)

theorem keys_atOutpoints (outputs : List UnspentOutput) :
    (atOutpoints outputs).map (·.1) = outputs.map (·.outpoint) := by
  unfold atOutpoints
  rw [List.map_map]
  rfl

theorem receive_eq_ok_iff {change : List UnspentOutput}
    {m m' : OrderedMap Outpoint UnspentOutput} :
    receive change m = .ok m'
      ↔ (change.map (·.outpoint)).Nodup ∧ (∀ output ∈ change, output.outpoint ∉ m.keys)
          ∧ m' = ⟨m.entries ++ atOutpoints change⟩ := by
  induction change generalizing m with
  | nil =>
      unfold receive atOutpoints
      simp [eq_comm]
  | cons output rest ih =>
      unfold receive
      by_cases hthere : m.contains output.outpoint = true
      · rw [if_pos hthere]
        constructor
        · intro h
          cases h
        · rintro ⟨-, hnew, -⟩
          exact absurd (OrderedMap.contains_iff.mp hthere) (hnew output List.mem_cons_self)
      · have hnew : output.outpoint ∉ m.keys := fun h => hthere (OrderedMap.contains_iff.mpr h)
        have hentries : (m.insert output.outpoint output).entries ++ atOutpoints rest
            = m.entries ++ atOutpoints (output :: rest) := by
          rw [OrderedMap.insert_of_new hnew, List.append_assoc]
          rfl
        rw [if_neg hthere, ih, hentries, List.map_cons, List.nodup_cons, List.forall_mem_cons]
        constructor
        · rintro ⟨hnodup, hrest, rfl⟩
          refine ⟨⟨?_, hnodup⟩, ⟨hnew, ?_⟩, rfl⟩
          · -- change that was taken in before may not come again
            intro hagain
            obtain ⟨other, hother, heq⟩ := List.mem_map.mp hagain
            exact hrest other hother (OrderedMap.mem_keys_insert.mpr (Or.inl heq))
          · intro other hother hknown
            exact hrest other hother (OrderedMap.mem_keys_insert.mpr (Or.inr hknown))
        · rintro ⟨⟨hfirst, hnodup⟩, ⟨-, hrest⟩, rfl⟩
          refine ⟨hnodup, ?_, rfl⟩
          intro other hother hknown
          rcases OrderedMap.mem_keys_insert.mp hknown with heq | hold
          · exact hfirst (heq ▸ List.mem_map_of_mem hother)
          · exact hrest other hother hold

/-! ## A commit -/

/-- A commit that the store can take in: its round is new, it spends outputs of the store, each
once, and its change is neither there, except where it was spent before, nor there twice. -/
structure Acceptable (s : CreditStore) (c : RoundCommit) : Prop where
  fresh : c.roundId ∉ s.rounds.keys
  spent_nodup : c.spent.Nodup
  spent_known : ∀ o ∈ c.spent, o ∈ s.unspent.keys
  change_nodup : (c.change.map (·.outpoint)).Nodup
  change_new : ∀ output ∈ c.change, output.outpoint ∈ s.unspent.keys → output.outpoint ∈ c.spent

/-- The store with a commit taken in: without the outputs that it spends, with its change behind the
outputs that are left, and with its round. -/
def taking (s : CreditStore) (c : RoundCommit) : CreditStore :=
  { s with
    unspent := ⟨(s.unspent.without c.spent).entries ++ atOutpoints c.change⟩
    rounds := s.rounds.insert c.roundId c.record }

theorem spend_receive_eq_ok_iff {m m' : OrderedMap Outpoint UnspentOutput} :
    (spend c.spent m).bind (receive c.change) = .ok m'
      ↔ (c.spent.Nodup ∧ ∀ o ∈ c.spent, o ∈ m.keys)
          ∧ ((c.change.map (·.outpoint)).Nodup
            ∧ ∀ output ∈ c.change, output.outpoint ∈ m.keys → output.outpoint ∈ c.spent)
          ∧ m' = ⟨(m.without c.spent).entries ++ atOutpoints c.change⟩ := by
  have hnew : ∀ output : UnspentOutput, output.outpoint ∉ (m.without c.spent).keys
      ↔ (output.outpoint ∈ m.keys → output.outpoint ∈ c.spent) := by
    intro output
    rw [OrderedMap.mem_keys_without, not_and_not_right]
  show spend c.spent m >>= receive c.change = .ok m' ↔ _
  rw [Except.bind_eq_ok_iff]
  constructor
  · rintro ⟨mid, hspend, hreceive⟩
    obtain ⟨hnodup, hknown, rfl⟩ := spend_eq_ok_iff.mp hspend
    obtain ⟨hchange, hfresh, rfl⟩ := receive_eq_ok_iff.mp hreceive
    exact ⟨⟨hnodup, hknown⟩, ⟨hchange, fun output ho => (hnew output).mp (hfresh output ho)⟩, rfl⟩
  · rintro ⟨⟨hnodup, hknown⟩, ⟨hchange, hfresh⟩, rfl⟩
    exact ⟨_, spend_eq_ok_iff.mpr ⟨hnodup, hknown, rfl⟩,
      receive_eq_ok_iff.mpr ⟨hchange, fun output ho => (hnew output).mpr (hfresh output ho), rfl⟩⟩

/-- **A commit is taken in as a whole or not at all.** -/
theorem commit_cases (s : CreditStore) (c : RoundCommit) :
    (s.faults.commit = none ∧ s.Acceptable c ∧ s.commit c = (.ok (), s.taking c))
      ∨ (¬ (s.faults.commit = none ∧ s.Acceptable c) ∧ ∃ e, s.commit c = (.error e, s)) := by
  unfold commit
  cases hfault : s.faults.commit with
  | some text => exact Or.inr ⟨by simp, _, rfl⟩
  | none =>
      dsimp only
      by_cases hround : s.rounds.contains c.roundId = true
      · rw [if_pos hround]
        exact Or.inr ⟨fun h => h.2.fresh (OrderedMap.contains_iff.mp hround), _, rfl⟩
      · rw [if_neg hround]
        cases hchanged : (spend c.spent s.unspent).bind (receive c.change) with
        | error e =>
            refine Or.inr ⟨?_, e, rfl⟩
            rintro ⟨-, h⟩
            have hok := spend_receive_eq_ok_iff.mpr
              ⟨⟨h.spent_nodup, h.spent_known⟩, ⟨h.change_nodup, h.change_new⟩, rfl⟩
            rw [hchanged] at hok
            cases hok
        | ok unspent =>
            obtain ⟨⟨hnodup, hknown⟩, ⟨hchange, hfresh⟩, rfl⟩ :=
              spend_receive_eq_ok_iff.mp hchanged
            have hnew : c.roundId ∉ s.rounds.keys :=
              fun h => hround (OrderedMap.contains_iff.mpr h)
            exact Or.inl ⟨rfl, ⟨hnew, hnodup, hknown, hchange, hfresh⟩, rfl⟩

theorem commit_eq_ok_iff :
    s.commit c = (.ok (), s') ↔ s.faults.commit = none ∧ s.Acceptable c ∧ s' = s.taking c := by
  rcases commit_cases s c with ⟨hfault, hc, hcommit⟩ | ⟨hnot, e, hcommit⟩
  · rw [hcommit]
    simp [hfault, hc, eq_comm]
  · rw [hcommit]
    constructor
    · intro h
      cases h
    · rintro ⟨hfault, hc, -⟩
      exact absurd ⟨hfault, hc⟩ hnot

/-! ## What is stored -/

theorem find?_rounds_taking (s : CreditStore) (c : RoundCommit) (id : UInt32) :
    (s.taking c).rounds.find? id = if id = c.roundId then some c.record else s.rounds.find? id :=
  OrderedMap.find?_insert s.rounds c.roundId id c.record

theorem mem_unspent_addUnspent {output : UnspentOutput} :
    o ∈ (s.addUnspent output).unspent.keys ↔ o = output.outpoint ∨ o ∈ s.unspent.keys :=
  OrderedMap.mem_keys_insert

theorem keys_unspent_taking (s : CreditStore) (c : RoundCommit) :
    (s.taking c).unspent.keys
      = (s.unspent.without c.spent).keys ++ c.change.map (·.outpoint) := by
  rw [← keys_atOutpoints]
  exact List.map_append ..

theorem mem_unspent_taking :
    o ∈ (s.taking c).unspent.keys
      ↔ (o ∈ s.unspent.keys ∧ o ∉ c.spent) ∨ o ∈ c.change.map (·.outpoint) := by
  rw [keys_unspent_taking, List.mem_append, OrderedMap.mem_keys_without]

/-- Each output is stored once, under its own place. -/
structure Keyed (s : CreditStore) : Prop where
  nodup : s.unspent.keys.Nodup
  own : ∀ e ∈ s.unspent.entries, e.2.outpoint = e.1

theorem keyed_empty : empty.Keyed := ⟨List.nodup_nil, fun _ he => by cases he⟩

theorem Keyed.addUnspent (h : s.Keyed) (output : UnspentOutput) : (s.addUnspent output).Keyed := by
  refine ⟨OrderedMap.nodup_keys_insert h.nodup _ _, ?_⟩
  intro e he
  rcases OrderedMap.mem_insertEntry he with rfl | hold
  · rfl
  · exact h.own e hold

theorem Keyed.taking (h : s.Keyed) (hc : s.Acceptable c) : (s.taking c).Keyed := by
  refine ⟨?_, ?_⟩
  · rw [keys_unspent_taking, OrderedMap.keys_without, List.nodup_append]
    refine ⟨h.nodup.filter _, hc.change_nodup, ?_⟩
    rintro o ho _ hchange rfl
    obtain ⟨output, houtput, rfl⟩ := List.mem_map.mp hchange
    obtain ⟨hknown, hleft⟩ := List.mem_filter.mp ho
    exact of_decide_eq_true hleft (hc.change_new output houtput hknown)
  · intro e he
    rcases List.mem_append.mp he with hold | hchange
    · exact h.own e (List.mem_of_mem_filter hold)
    · obtain ⟨output, -, rfl⟩ := List.mem_map.mp hchange
      rfl

/-- A stored output is found at its place. -/
theorem Keyed.find?_of_mem (h : s.Keyed) {output : UnspentOutput}
    (houtput : output ∈ s.unspent.values) :
    s.unspent.find? output.outpoint = some output := by
  obtain ⟨e, he, rfl⟩ := List.mem_map.mp houtput
  rw [h.own e he]
  exact OrderedMap.find?_of_mem h.nodup he

end NotaryPool.CreditStore
