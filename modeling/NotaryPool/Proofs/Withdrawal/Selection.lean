import NotaryPool.Proofs.Series.Ranges
import NotaryPool.Withdrawal.Selection

/-!
# Where selected credits come from

A selection visits the addresses of its ranges by number, one after the other, and joins what it
finds there. A credit that it gives is therefore an unspent output at an address that a range
covers, and the rules allow it.

## Contents

* `Selection.mem_creditsAt_iff`: what makes a credit at an address.
* `Selection.Selected`, `Selection.selected_of_eligible`: **where a credit comes from.**
-/

namespace NotaryPool

/-- An output at an address of the pool has an address. -/
theorem PoolAddress.isSome_ofScript? (a : PoolAddress) :
    (Destination.ofScript? a.script).isSome = true := by
  -- the first of the shapes that are tried is the one of this script
  have hread := ScriptHash.hash?_eq_some_iff.mpr (rfl : a.script = ScriptHash.script _)
  unfold ScriptHash.hash? at hread
  obtain ⟨hscript, -⟩ := Option.ite_none_right_eq_some.mp hread
  unfold Destination.ofScript?
  rw [List.findSome?_isSome_iff]
  refine ⟨some (.scriptHash (Destination.slice 20 a.script 2)), by simp, ?_⟩
  have hsame : (Destination.scriptHash (Destination.slice 20 a.script 2)).script = a.script :=
    hscript.symm
  simp [Option.filter, hsame]

/-! ## Selected credits -/

namespace Selection

variable {K : KeyScheme} {book : SeriesBook} {unspent : List UnspentOutput}
  {ranges : List AddressRange} {rules : Eligibility} {c : PoolCredit}

theorem mem_creditsAt_iff {address : PoolAddress} :
    c ∈ creditsAt address unspent rules
      ↔ ∃ output ∈ unspent, output.script = address.script
          ∧ c = PoolCredit.ofUnspent output address ∧ rules.allows c = true := by
  unfold creditsAt
  dsimp only
  rw [List.mem_filter, List.mem_map]
  constructor
  · rintro ⟨⟨output, houtput, rfl⟩, hallows⟩
    obtain ⟨hstored, hscript⟩ := List.mem_filter.mp houtput
    exact ⟨output, hstored, of_decide_eq_true hscript, rfl, hallows⟩
  · rintro ⟨output, hstored, hscript, rfl, hallows⟩
    exact ⟨⟨output, List.mem_filter.mpr ⟨hstored, decide_eq_true hscript⟩, rfl⟩, hallows⟩

/-- Where all outputs lie at an address and may be spent, all of them are credits there. -/
theorem creditsAt_eq_map {address : PoolAddress}
    (h : ∀ output ∈ unspent, output.script = address.script
      ∧ rules.allows (PoolCredit.ofUnspent output address) = true) :
    creditsAt address unspent rules = unspent.map (PoolCredit.ofUnspent · address) := by
  unfold creditsAt
  dsimp only
  rw [List.filter_eq_self.mpr fun output houtput => decide_eq_true (h output houtput).1,
    List.filter_eq_self]
  intro c hc
  obtain ⟨output, houtput, rfl⟩ := List.mem_map.mp hc
  exact (h output houtput).2

/-- A range of one position has the credits at its address. -/
theorem creditsIn_of_single {range : AddressRange} {address : PoolAddress}
    (hone : range.count = 1)
    (haddress : book.poolAddress K range.series (range.positionAt 0).1 (range.positionAt 0).2
      = .ok address) :
    creditsIn K book unspent rules range = .ok (creditsAt address unspent rules) := by
  unfold creditsIn
  rw [AddressRange.collect_eq, hone]
  show joinM _ [0] = _
  rw [joinM_cons, haddress]
  show Except.ok (creditsAt address unspent rules ++ []) = _
  rw [List.append_nil]

theorem creditsInAll_eq (K : KeyScheme) (book : SeriesBook) (unspent : List UnspentOutput)
    (rules : Eligibility) (ranges : List AddressRange) :
    creditsInAll K book unspent rules ranges
      = joinM (creditsIn K book unspent rules) ranges := by
  induction ranges with
  | nil => rfl
  | cons range rest ih =>
      rw [creditsInAll, joinM_cons, ih]
      cases creditsIn K book unspent rules range with
      | error e => rfl
      | ok found => rfl

/-- The credit of an unspent output that lies at an address in one of the ranges, if the rules allow
it. -/
structure Selected (K : KeyScheme) (book : SeriesBook) (unspent : List UnspentOutput)
    (ranges : List AddressRange) (rules : Eligibility) (c : PoolCredit) : Prop where
  stored : ∃ output ∈ unspent, output.script = c.address.script
    ∧ c = PoolCredit.ofUnspent output c.address
  located : ∃ range ∈ ranges, ∃ branch index, range.Covers branch index
    ∧ book.poolAddress K range.series branch index = .ok c.address
  allowed : rules.allows c = true

theorem selected_of_creditsInAll (hproper : ∀ range ∈ ranges, range.isProper = true)
    {found : List PoolCredit} (h : creditsInAll K book unspent rules ranges = .ok found) :
    ∀ c ∈ found, Selected K book unspent ranges rules c := by
  intro c hc
  rw [creditsInAll_eq] at h
  obtain ⟨range, hrange, part, hin, hmem⟩ := exists_of_joinM h hc
  obtain ⟨branch, index, here, hcovers, hvisit, hhere⟩ :=
    AddressRange.exists_of_collect (hproper range hrange) hin hmem
  cases haddress : book.poolAddress K range.series branch index with
  | error e =>
      rw [haddress] at hvisit
      cases hvisit
  | ok address =>
      rw [haddress] at hvisit
      cases hvisit
      obtain ⟨output, hstored, hscript, rfl, hallows⟩ := mem_creditsAt_iff.mp hhere
      exact ⟨⟨output, hstored, hscript, rfl⟩, ⟨range, hrange, branch, index, hcovers, haddress⟩,
        hallows⟩

/-- A selection refuses ranges that are inverted, and outputs that have no address. -/
theorem inputError?_eq_none_iff :
    inputError? unspent ranges = none
      ↔ (∀ range ∈ ranges, range.isProper = true)
          ∧ ∀ output ∈ unspent, (Destination.ofScript? output.script).isSome = true := by
  have hranges : ranges.find? (!·.isProper) = none ↔ ∀ range ∈ ranges, range.isProper = true := by
    simp
  have houtputs : unspent.find? (fun output => (Destination.ofScript? output.script).isNone) = none
      ↔ ∀ output ∈ unspent, (Destination.ofScript? output.script).isSome = true := by
    simp [Option.isSome_iff_ne_none]
  rw [← hranges, ← houtputs]
  unfold inputError?
  cases ranges.find? (!·.isProper) with
  | some range => simp
  | none =>
      cases unspent.find? fun output => (Destination.ofScript? output.script).isNone with
      | some output => simp
      | none => simp

theorem eligible_eq_ok_iff {credits : List PoolCredit} :
    eligible K book unspent ranges rules = .ok credits
      ↔ inputError? unspent ranges = none
          ∧ ∃ found, creditsInAll K book unspent rules ranges = .ok found
            ∧ Series.adjacent? (fun a b => PoolCredit.order a b == .eq) (PoolCredit.sort found)
                = none
            ∧ credits = PoolCredit.sort found := by
  unfold eligible
  cases inputError? unspent ranges with
  | some e => simp
  | none =>
      cases creditsInAll K book unspent rules ranges with
      | error e => simp
      | ok found =>
          dsimp only
          cases hadjacent : Series.adjacent? (fun a b => PoolCredit.order a b == .eq)
              (PoolCredit.sort found) with
          | some credit => simp [hadjacent]
          | none => simp [hadjacent, eq_comm]

/-- An output at the one address of a range is the one credit, if the rules allow it. -/
theorem eligible_of_single {range : AddressRange} {address : PoolAddress} {output : UnspentOutput}
    (hproper : range.isProper = true) (hone : range.count = 1)
    (haddress : book.poolAddress K range.series (range.positionAt 0).1 (range.positionAt 0).2
      = .ok address)
    (hscript : output.script = address.script)
    (hallows : rules.allows (PoolCredit.ofUnspent output address) = true) :
    eligible K book [output] [range] rules = .ok [PoolCredit.ofUnspent output address] := by
  have hinput : inputError? [output] [range] = none := by
    rw [inputError?_eq_none_iff]
    simp only [List.forall_mem_singleton]
    rw [hscript]
    exact ⟨hproper, PoolAddress.isSome_ofScript? address⟩
  have hat : creditsAt address [output] rules = [PoolCredit.ofUnspent output address] := by
    apply creditsAt_eq_map
    intro other hother
    rw [List.mem_singleton.mp hother]
    exact ⟨hscript, hallows⟩
  have hall : creditsInAll K book [output] rules [range]
      = .ok [PoolCredit.ofUnspent output address] := by
    rw [creditsInAll_eq, joinM_cons, creditsIn_of_single hone haddress, hat]
    rfl
  have hsort : PoolCredit.sort [PoolCredit.ofUnspent output address]
      = [PoolCredit.ofUnspent output address] := List.mergeSort_singleton _
  refine eligible_eq_ok_iff.mpr ⟨hinput, _, hall, ?_, hsort.symm⟩
  rw [hsort]
  rfl

/-- **A selected credit comes from a range**, and the rules allow it. -/
theorem selected_of_eligible {credits : List PoolCredit}
    (h : eligible K book unspent ranges rules = .ok credits) :
    ∀ c ∈ credits, Selected K book unspent ranges rules c := by
  obtain ⟨hinput, found, hfound, -, rfl⟩ := eligible_eq_ok_iff.mp h
  intro c hc
  exact selected_of_creditsInAll (inputError?_eq_none_iff.mp hinput).1 hfound c
    (List.mem_mergeSort.mp hc)

end Selection

end NotaryPool
