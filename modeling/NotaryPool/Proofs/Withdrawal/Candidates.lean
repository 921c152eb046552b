import Mathlib.Data.List.Sigma
import NotaryPool.Proofs.Withdrawal.Outpoints

/-!
# A selection gives just the candidates

What a selection should give can be said without a word on how it is found. A candidate is an
unspent output together with a position in one of the ranges, such that the output pays to the
address at that position and the rules allow to spend it. A selection visits the positions by their
numbers, looks up the outputs at each address, sorts what it has found and compares neighbours. So
there is something to show at each step: the numbers reach each position once, the credits found are
those of the candidates, one for each, and no two of them that are the same can hide from each other
by the order.

## Contents

* `Selection.Candidate`: an output and a position that make a credit.
* `Selection.numbered`, `Selection.mem_numbered_iff`: the candidates one by one.
* `Selection.found_perm`, `Selection.eligible_eq_of_perm`: nothing depends on the order in which
  outputs and ranges come.
* `Selection.eligible_exact`: **a selection gives the candidates, in their order, if no two of them
  are the same credit.**
-/

namespace NotaryPool

open Std

/-! ## Credits with the same key -/

namespace PoolCredit

/-- The keys decide how credits stand in the order. -/
theorem order_congr {a a' b b' : PoolCredit} (ha : a.key = a'.key) (hb : b.key = b'.key) :
    order a b = order a' b' :=
  (TransCmp.congr_left (order_of_key_eq ha)).trans (TransCmp.congr_right (order_of_key_eq hb))

theorem order_eq_iff {a b : PoolCredit} : (order a b == .eq) = true ↔ a.key = b.key := by
  rw [beq_iff_eq]
  exact ⟨key_eq_of_order, order_of_key_eq⟩

theorem outpoint_eq_of_key {a b : PoolCredit} (h : a.key = b.key) : a.outpoint = b.outpoint := by
  unfold key at h
  simp only [Prod.mk.injEq] at h
  obtain ⟨-, -, -, htxid, hvout⟩ := h
  calc a.outpoint = ⟨a.outpoint.txid, a.outpoint.vout⟩ := rfl
    _ = ⟨b.outpoint.txid, b.outpoint.vout⟩ := by rw [htxid, hvout]

/-- Sorting puts the keys into one order, also where there are equal ones among them. -/
theorem map_key_sort_of_perm {as bs : List PoolCredit} (h : as.Perm bs) :
    (sort as).map key = (sort bs).map key := by
  -- two keys are in order when credits with these keys are
  have hsorted : ∀ cs : List PoolCredit, ((sort cs).map key).Pairwise fun k l =>
      ∃ a b, a.key = k ∧ b.key = l ∧ (order a b).isLE = true := by
    intro cs
    rw [List.pairwise_map]
    exact (pairwise_mergeSort_of_transCmp order cs).imp fun hle => ⟨_, _, rfl, rfl, hle⟩
  refine List.Perm.eq_of_pairwise ?_ (hsorted as) (hsorted bs) ?_
  · rintro k l - - ⟨a, b, rfl, rfl, hle⟩ ⟨b', a', hb, ha, hge⟩
    rw [order_congr hb ha] at hge
    exact key_eq_of_order (OrientedCmp.isLE_antisymm hle hge)
  · exact ((List.mergeSort_perm as _).trans (h.trans (List.mergeSort_perm bs _).symm)).map key

end PoolCredit

/-- Neighbours are compared by what decides the comparison. -/
theorem map_adjacent? {α β : Type} {f : α → β} {same : α → α → Bool} (same' : β → β → Bool)
    (h : ∀ a b, same a b = same' (f a) (f b)) (as : List α) :
    (Series.adjacent? same as).map f = Series.adjacent? same' (as.map f) := by
  induction as with
  | nil => rfl
  | cons a rest ih =>
      cases rest with
      | nil => rfl
      | cons b rest =>
          rw [List.map_cons, List.map_cons]
          unfold Series.adjacent?
          rw [← h a b]
          split
          · rfl
          · exact ih

namespace Selection

variable {K : KeyScheme} {book : SeriesBook} {unspent unspent' : List UnspentOutput}
  {ranges ranges' : List AddressRange} {rules : Eligibility} {found found' : List PoolCredit}

/-- Comparing the neighbours after sorting finds out whether two credits have the same key. -/
theorem adjacent?_sort_eq_none_iff :
    Series.adjacent? (fun a b => PoolCredit.order a b == .eq) (PoolCredit.sort found) = none
      ↔ (found.map PoolCredit.key).Nodup := by
  have hperm : ((PoolCredit.sort found).map PoolCredit.key).Perm (found.map PoolCredit.key) :=
    (List.mergeSort_perm found _).map _
  rw [← hperm.nodup_iff]
  unfold List.Nodup
  rw [List.pairwise_map]
  constructor
  · intro hnone
    refine (pairwise_lt_of_adjacent PoolCredit.order
      (pairwise_mergeSort_of_transCmp PoolCredit.order found) hnone).imp ?_
    intro a b hlt hkey
    rw [PoolCredit.order_of_key_eq hkey] at hlt
    cases hlt
  · intro hkeys
    apply Series.adjacent?_eq_none
    refine hkeys.imp ?_
    intro a b hkey
    rw [Bool.eq_false_iff]
    exact fun hsame => hkey (PoolCredit.order_eq_iff.mp hsame)

/-! ## What is found -/

/-- The credits at a position of a range, given by its number. There are none where there is no
address. -/
def creditsAtNo (K : KeyScheme) (book : SeriesBook) (unspent : List UnspentOutput)
    (rules : Eligibility) (range : AddressRange) (no : Nat) : List PoolCredit :=
  match book.poolAddress K range.series (range.positionAt no).1 (range.positionAt no).2 with
  | .ok address => creditsAt address unspent rules
  | .error _ => []

/-- All positions of the ranges have an address. -/
def Derivable (K : KeyScheme) (book : SeriesBook) (ranges : List AddressRange) : Prop :=
  ∀ range ∈ ranges, ∀ branch index, range.Covers branch index →
    ∃ address, book.poolAddress K range.series branch index = .ok address

/-- Where all positions have an address, the credits at all of them are found. -/
theorem creditsInAll_of_derivable (hproper : ∀ range ∈ ranges, range.isProper = true)
    (hderivable : Derivable K book ranges) :
    creditsInAll K book unspent rules ranges
      = .ok (ranges.flatMap fun range =>
          (List.range' 0 range.count).flatMap (creditsAtNo K book unspent rules range)) := by
  rw [creditsInAll_eq]
  apply joinM_eq_flatMap
  intro range hrange
  unfold creditsIn
  rw [AddressRange.collect_eq]
  apply joinM_eq_flatMap
  intro no hno
  obtain ⟨address, haddress⟩ := hderivable range hrange _ _
    (AddressRange.covers_positionAt (hproper range hrange) (AddressRange.mem_numbers_iff.mp hno))
  unfold creditsAtNo
  rw [haddress]
  rfl

/-- The credits that are found are the same, in some order, for outputs and ranges in any order. -/
theorem found_perm (hunspent : unspent.Perm unspent') (hranges : ranges.Perm ranges') :
    (ranges.flatMap fun range =>
        (List.range' 0 range.count).flatMap (creditsAtNo K book unspent rules range)).Perm
      (ranges'.flatMap fun range =>
        (List.range' 0 range.count).flatMap (creditsAtNo K book unspent' rules range)) := by
  refine hranges.flatMap fun range _ => List.Perm.flatMap_left _ fun no _ => ?_
  unfold creditsAtNo
  cases book.poolAddress K range.series (range.positionAt no).1 (range.positionAt no).2 with
  | error e => exact List.Perm.refl _
  | ok address => exact ((hunspent.filter _).map _).filter _

/-- A selection depends on the credits that are found, but not on their order. -/
theorem eligible_eq_of_found_perm (hinput : inputError? unspent ranges = none)
    (hinput' : inputError? unspent' ranges' = none)
    (hfound : creditsInAll K book unspent rules ranges = .ok found)
    (hfound' : creditsInAll K book unspent' rules ranges' = .ok found')
    (hperm : found.Perm found') :
    eligible K book unspent ranges rules = eligible K book unspent' ranges' rules := by
  have hsame : ∀ a b, (PoolCredit.order a b == .eq) = decide (a.key = b.key) := by
    intro a b
    rw [Bool.eq_iff_iff, PoolCredit.order_eq_iff, decide_eq_true_iff]
  have hkeys := map_adjacent? (decide <| · = ·) hsame (PoolCredit.sort found)
  have hkeys' := map_adjacent? (decide <| · = ·) hsame (PoolCredit.sort found')
  rw [PoolCredit.map_key_sort_of_perm hperm, ← hkeys'] at hkeys
  unfold eligible
  rw [hinput, hinput', hfound, hfound']
  dsimp only
  cases hadjacent : Series.adjacent? (fun a b => PoolCredit.order a b == .eq)
      (PoolCredit.sort found) with
  | none =>
      rw [hadjacent] at hkeys
      rw [Option.map_eq_none_iff.mp hkeys.symm,
        PoolCredit.sort_eq_of_perm (adjacent?_sort_eq_none_iff.mp hadjacent) hperm]
  | some credit =>
      -- the first two equal neighbours have the same output in both
      rw [hadjacent] at hkeys
      obtain ⟨credit', hadjacent', hkey⟩ := Option.map_eq_some_iff.mp hkeys.symm
      rw [hadjacent']
      dsimp only
      rw [PoolCredit.outpoint_eq_of_key hkey]

/-! ## The candidates -/

/-- The unspent output with number `j` and a position in the range with number `i` that make a
credit: the output pays to the address at the position, and may be spent. -/
structure Candidate (K : KeyScheme) (book : SeriesBook) (unspent : List UnspentOutput)
    (ranges : List AddressRange) (rules : Eligibility) (i j : Nat) (c : PoolCredit) : Prop where
  located : ∃ range, ranges[i]? = some range ∧ ∃ branch index, range.Covers branch index
    ∧ book.poolAddress K range.series branch index = .ok c.address
  stored : ∃ output, unspent[j]? = some output ∧ output.script = c.address.script
    ∧ c = PoolCredit.ofUnspent output c.address
  worth : rules.dustThreshold ≤ c.amount
  confirmed : rules.minConfirmations ≤ confirmations c.height rules.chainHeight
  uncharted : rules.charter ≠ some c.outpoint

theorem allows_iff {c : PoolCredit} :
    rules.allows c = true ↔ rules.dustThreshold ≤ c.amount
      ∧ rules.minConfirmations ≤ confirmations c.height rules.chainHeight
      ∧ rules.charter ≠ some c.outpoint := by
  unfold Eligibility.allows
  simp [and_assoc]

/-- The credits at an address, with the number of a range and those of the outputs. -/
def numberedAt (address : PoolAddress) (unspent : List UnspentOutput) (rules : Eligibility)
    (i : Nat) : List (Nat × Nat × PoolCredit) :=
  (unspent.zipIdx.filter fun (output, _) =>
      output.script = address.script ∧ rules.allows (PoolCredit.ofUnspent output address)).map
    fun (output, j) => (i, j, PoolCredit.ofUnspent output address)

/-- The credits at a position of a range, with the numbers of the range and of the outputs. -/
def numberedAtNo (K : KeyScheme) (book : SeriesBook) (unspent : List UnspentOutput)
    (rules : Eligibility) (range : AddressRange) (i no : Nat) : List (Nat × Nat × PoolCredit) :=
  match book.poolAddress K range.series (range.positionAt no).1 (range.positionAt no).2 with
  | .ok address => numberedAt address unspent rules i
  | .error _ => []

/-- The candidates, one after the other. -/
def numbered (K : KeyScheme) (book : SeriesBook) (unspent : List UnspentOutput)
    (ranges : List AddressRange) (rules : Eligibility) : List (Nat × Nat × PoolCredit) :=
  ranges.zipIdx.flatMap fun (range, i) =>
    (List.range' 0 range.count).flatMap (numberedAtNo K book unspent rules range i)

theorem map_numberedAt (address : PoolAddress) (i : Nat) :
    (numberedAt address unspent rules i).map (·.2.2) = creditsAt address unspent rules := by
  unfold numberedAt creditsAt
  dsimp only
  rw [List.map_map, List.filter_map, List.filter_filter]
  conv_rhs => rw [← List.zipIdx_map_fst 0 unspent, List.filter_map, List.map_map]
  congr 1
  apply List.filter_congr
  rintro ⟨output, j⟩ -
  simp [Bool.and_comm]

theorem mem_numberedAt_iff {address : PoolAddress} {i i' j : Nat} {c : PoolCredit} :
    (i', j, c) ∈ numberedAt address unspent rules i
      ↔ i' = i ∧ rules.allows c = true
        ∧ ∃ output, unspent[j]? = some output ∧ output.script = address.script
          ∧ c = PoolCredit.ofUnspent output address := by
  unfold numberedAt
  rw [List.mem_map]
  constructor
  · rintro ⟨⟨output, j'⟩, hmem, heq⟩
    cases heq
    obtain ⟨hstored, hkept⟩ := List.mem_filter.mp hmem
    obtain ⟨hscript, hallows⟩ := of_decide_eq_true hkept
    exact ⟨rfl, hallows, output, List.mem_zipIdx_iff_getElem?.mp hstored, hscript, rfl⟩
  · rintro ⟨rfl, hallows, output, hstored, hscript, rfl⟩
    exact ⟨(output, j), List.mem_filter.mpr ⟨List.mem_zipIdx_iff_getElem?.mpr hstored,
      decide_eq_true ⟨hscript, hallows⟩⟩, rfl⟩

/-- The numbers of the outputs tell the credits at an address apart. -/
theorem nodup_numberedAt (address : PoolAddress) (unspent : List UnspentOutput)
    (rules : Eligibility) (i : Nat) : (numberedAt address unspent rules i).Nodup := by
  apply List.Nodup.of_map (·.2.1)
  unfold numberedAt
  rw [List.map_map]
  exact (List.nodup_zipIdx_map_snd unspent).sublist (List.filter_sublist.map _)

theorem mem_numberedAtNo_iff {range : AddressRange} {i i' j no : Nat} {c : PoolCredit} :
    (i', j, c) ∈ numberedAtNo K book unspent rules range i no
      ↔ book.poolAddress K range.series (range.positionAt no).1 (range.positionAt no).2
            = .ok c.address
        ∧ i' = i ∧ rules.allows c = true
        ∧ ∃ output, unspent[j]? = some output ∧ output.script = c.address.script
          ∧ c = PoolCredit.ofUnspent output c.address := by
  unfold numberedAtNo
  cases book.poolAddress K range.series (range.positionAt no).1 (range.positionAt no).2 with
  | error e => simp
  | ok address =>
      dsimp only
      rw [mem_numberedAt_iff]
      constructor
      · rintro ⟨hi, hallows, output, hstored, hscript, rfl⟩
        exact ⟨rfl, hi, hallows, output, hstored, hscript, rfl⟩
      · rintro ⟨haddress, hi, hallows, hoffered⟩
        cases haddress
        exact ⟨hi, hallows, hoffered⟩

/-- What is found comes from the candidates. -/
theorem map_numbered :
    (numbered K book unspent ranges rules).map (·.2.2)
      = ranges.flatMap fun range =>
          (List.range' 0 range.count).flatMap (creditsAtNo K book unspent rules range) := by
  have hat : ∀ range i no, (numberedAtNo K book unspent rules range i no).map (·.2.2)
      = creditsAtNo K book unspent rules range no := by
    intro range i no
    unfold numberedAtNo creditsAtNo
    cases book.poolAddress K range.series (range.positionAt no).1 (range.positionAt no).2 with
    | error e => rfl
    | ok address => exact map_numberedAt address i
  unfold numbered
  conv_rhs => rw [← List.zipIdx_map_fst 0 ranges, List.flatMap_map]
  simp only [List.map_flatMap, hat]

/-- **The candidates are the outputs and positions that make a credit.** -/
theorem mem_numbered_iff (hproper : ∀ range ∈ ranges, range.isProper = true) {i j : Nat}
    {c : PoolCredit} :
    (i, j, c) ∈ numbered K book unspent ranges rules
      ↔ Candidate K book unspent ranges rules i j c := by
  unfold numbered
  rw [List.mem_flatMap]
  constructor
  · rintro ⟨⟨range, i'⟩, hrange, hmem⟩
    obtain ⟨no, hno, hmem⟩ := List.mem_flatMap.mp hmem
    obtain ⟨haddress, rfl, hallows, hstored⟩ := mem_numberedAtNo_iff.mp hmem
    obtain ⟨hworth, hconfirmed, huncharted⟩ := allows_iff.mp hallows
    have hat := List.mem_zipIdx_iff_getElem?.mp hrange
    have hcovers := AddressRange.covers_positionAt (hproper range (List.mem_of_getElem? hat))
      (AddressRange.mem_numbers_iff.mp hno)
    exact ⟨⟨range, hat, _, _, hcovers, haddress⟩, hstored, hworth, hconfirmed, huncharted⟩
  · rintro ⟨⟨range, hat, branch, index, hcovers, haddress⟩, hstored, hworth, hconfirmed,
      huncharted⟩
    obtain ⟨no, hno, hposition⟩ := AddressRange.exists_positionAt hcovers
    refine ⟨(range, i), List.mem_zipIdx_iff_getElem?.mpr hat,
      List.mem_flatMap.mpr ⟨no, AddressRange.mem_numbers_iff.mpr hno, ?_⟩⟩
    rw [mem_numberedAtNo_iff, hposition]
    exact ⟨haddress, rfl, allows_iff.mpr ⟨hworth, hconfirmed, huncharted⟩, hstored⟩

/-- The positions of a range, and the numbers of the outputs, tell the credits in it apart. -/
theorem nodup_numberedIn {range : AddressRange} (hproper : range.isProper = true) (i : Nat) :
    ((List.range' 0 range.count).flatMap (numberedAtNo K book unspent rules range i)).Nodup := by
  refine nodup_flatMap_of_key range.positionAt
    (fun n => (n.2.2.address.branch, n.2.2.address.index)) ?_ ?_ ?_
  · refine List.Nodup.map_on ?_ List.nodup_range'
    intro k hk l hl hkl
    exact AddressRange.positionAt_inj hproper (AddressRange.mem_numbers_iff.mp hk)
      (AddressRange.mem_numbers_iff.mp hl) hkl
  · rintro no - ⟨i', j, c⟩ hmem
    obtain ⟨series, ordered, keys, -, -, -, haddress⟩ :=
      SeriesBook.poolAddress_eq_ok_iff.mp (mem_numberedAtNo_iff.mp hmem).1
    dsimp only
    rw [haddress]
  · intro no _
    unfold numberedAtNo
    cases book.poolAddress K range.series (range.positionAt no).1 (range.positionAt no).2 with
    | error e => exact List.nodup_nil
    | ok address => exact nodup_numberedAt address unspent rules i

/-- **No candidate is found twice**: the numbers of the ranges, the positions and the numbers of the
outputs tell the candidates apart. -/
theorem nodup_numbered (hproper : ∀ range ∈ ranges, range.isProper = true) :
    (numbered K book unspent ranges rules).Nodup := by
  unfold numbered
  refine nodup_flatMap_of_key Prod.snd Prod.fst (List.nodup_zipIdx_map_snd ranges) ?_ ?_
  · rintro ⟨range, i⟩ - ⟨i', j, c⟩ hmem
    obtain ⟨no, -, hmem⟩ := List.mem_flatMap.mp hmem
    exact (mem_numberedAtNo_iff.mp hmem).2.1
  · rintro ⟨range, i⟩ hrange
    have hat := List.mem_zipIdx_iff_getElem?.mp hrange
    exact nodup_numberedIn (hproper range (List.mem_of_getElem? hat)) i

/-! ## What a selection gives -/

/-- Where the input is in order, the keys of what is found decide whether a selection goes well. -/
theorem eligible_eq_ok_iff_of_found (hinput : inputError? unspent ranges = none)
    (hfound : creditsInAll K book unspent rules ranges = .ok found) {credits : List PoolCredit} :
    eligible K book unspent ranges rules = .ok credits
      ↔ (found.map PoolCredit.key).Nodup ∧ credits = PoolCredit.sort found := by
  rw [eligible_eq_ok_iff, ← adjacent?_sort_eq_none_iff]
  constructor
  · rintro ⟨-, found', hfound', hadjacent, hcredits⟩
    rw [hfound] at hfound'
    cases hfound'
    exact ⟨hadjacent, hcredits⟩
  · rintro ⟨hadjacent, hcredits⟩
    exact ⟨hinput, found, hfound, hadjacent, hcredits⟩

/-- What a selection sorts: the credits of the candidates. -/
theorem creditsInAll_eq_numbered (hproper : ∀ range ∈ ranges, range.isProper = true)
    (hderivable : Derivable K book ranges) :
    creditsInAll K book unspent rules ranges
      = .ok ((numbered K book unspent ranges rules).map (·.2.2)) := by
  rw [map_numbered]
  exact creditsInAll_of_derivable hproper hderivable

/-- The keys tell what is found apart just when they tell the candidates apart. -/
theorem nodup_keys_iff (hproper : ∀ range ∈ ranges, range.isProper = true) :
    (((numbered K book unspent ranges rules).map (·.2.2)).map PoolCredit.key).Nodup
      ↔ ∀ i j c i' j' c', Candidate K book unspent ranges rules i j c →
          Candidate K book unspent ranges rules i' j' c' → c.key = c'.key →
            i = i' ∧ j = j' ∧ c = c' := by
  rw [List.map_map, List.nodup_map_iff_inj_on (nodup_numbered hproper)]
  constructor
  · intro hinjective i j c i' j' c' hc hc' hkey
    have hsame := hinjective (i, j, c) ((mem_numbered_iff hproper).mpr hc) (i', j', c')
      ((mem_numbered_iff hproper).mpr hc') hkey
    cases hsame
    exact ⟨rfl, rfl, rfl⟩
  · rintro hdistinct ⟨i, j, c⟩ hc ⟨i', j', c'⟩ hc' hkey
    obtain ⟨rfl, rfl, rfl⟩ := hdistinct i j c i' j' c' ((mem_numbered_iff hproper).mp hc)
      ((mem_numbered_iff hproper).mp hc') hkey
    rfl

/-- The credits of the candidates are what is sorted. -/
theorem mem_sort_numbered_iff (hproper : ∀ range ∈ ranges, range.isProper = true)
    {c : PoolCredit} :
    c ∈ PoolCredit.sort ((numbered K book unspent ranges rules).map (·.2.2))
      ↔ ∃ i j, Candidate K book unspent ranges rules i j c := by
  unfold PoolCredit.sort
  rw [List.mem_mergeSort, List.mem_map]
  constructor
  · rintro ⟨⟨i, j, c⟩, hmem, rfl⟩
    exact ⟨i, j, (mem_numbered_iff hproper).mp hmem⟩
  · rintro ⟨i, j, hc⟩
    exact ⟨(i, j, c), (mem_numbered_iff hproper).mpr hc, rfl⟩

/-- Neither the order of the outputs nor that of the ranges changes a selection. -/
theorem eligible_eq_of_perm (hproper : ∀ range ∈ ranges, range.isProper = true)
    (haddressable : ∀ output ∈ unspent, (Destination.ofScript? output.script).isSome = true)
    (hderivable : Derivable K book ranges) (hunspent : unspent.Perm unspent')
    (hranges : ranges.Perm ranges') :
    eligible K book unspent' ranges' rules = eligible K book unspent ranges rules := by
  have hproper' : ∀ range ∈ ranges', range.isProper = true :=
    fun range hrange => hproper range (hranges.mem_iff.mpr hrange)
  have haddressable' : ∀ output ∈ unspent', (Destination.ofScript? output.script).isSome = true :=
    fun output houtput => haddressable output (hunspent.mem_iff.mpr houtput)
  have hderivable' : Derivable K book ranges' :=
    fun range hrange => hderivable range (hranges.mem_iff.mpr hrange)
  exact (eligible_eq_of_found_perm (inputError?_eq_none_iff.mpr ⟨hproper, haddressable⟩)
    (inputError?_eq_none_iff.mpr ⟨hproper', haddressable'⟩)
    (creditsInAll_of_derivable hproper hderivable)
    (creditsInAll_of_derivable hproper' hderivable') (found_perm hunspent hranges)).symm

/-- **A selection gives the candidates.** Let all ranges be proper, and let all positions in them
and all outputs have addresses. Then a selection goes well just when no two candidates have the same
key, it gives the credits of the candidates in strictly increasing order, and neither the order of
the outputs nor that of the ranges changes it. -/
theorem eligible_exact (hproper : ∀ range ∈ ranges, range.isProper = true)
    (haddressable : ∀ output ∈ unspent, (Destination.ofScript? output.script).isSome = true)
    (hderivable : Derivable K book ranges) :
    ((∃ credits, eligible K book unspent ranges rules = .ok credits)
        ↔ ∀ i j c i' j' c', Candidate K book unspent ranges rules i j c →
            Candidate K book unspent ranges rules i' j' c' → c.key = c'.key →
              i = i' ∧ j = j' ∧ c = c')
      ∧ (∀ credits, eligible K book unspent ranges rules = .ok credits →
          credits.Pairwise (fun c c' => PoolCredit.order c c' = .lt)
          ∧ ∀ c, c ∈ credits ↔ ∃ i j, Candidate K book unspent ranges rules i j c)
      ∧ ∀ unspent' ranges', unspent.Perm unspent' → ranges.Perm ranges' →
          eligible K book unspent' ranges' rules = eligible K book unspent ranges rules := by
  have hselects : ∀ credits, eligible K book unspent ranges rules = .ok credits
      ↔ (((numbered K book unspent ranges rules).map (·.2.2)).map PoolCredit.key).Nodup
          ∧ credits = PoolCredit.sort ((numbered K book unspent ranges rules).map (·.2.2)) :=
    fun _ => eligible_eq_ok_iff_of_found (inputError?_eq_none_iff.mpr ⟨hproper, haddressable⟩)
      (creditsInAll_eq_numbered hproper hderivable)
  refine ⟨?_, ?_, ?_⟩
  · rw [← nodup_keys_iff hproper]
    constructor
    · rintro ⟨credits, h⟩
      exact ((hselects credits).mp h).1
    · intro hkeys
      exact ⟨_, (hselects _).mpr ⟨hkeys, rfl⟩⟩
  · intro credits h
    obtain ⟨hkeys, rfl⟩ := (hselects credits).mp h
    exact ⟨pairwise_lt_of_adjacent PoolCredit.order
      (pairwise_mergeSort_of_transCmp PoolCredit.order _) (adjacent?_sort_eq_none_iff.mpr hkeys),
      fun _ => mem_sort_numbered_iff hproper⟩
  · intro unspent' ranges' hunspent hranges
    exact eligible_eq_of_perm hproper haddressable hderivable hunspent hranges

end Selection

namespace Selection.Sample

open KeyScheme (secp256k1)

/-- The ranges of the first address of each series, and the one output. -/
def ranges : List AddressRange := [rangeAt (addressOf ⟨1⟩), rangeAt (addressOf ⟨2⟩)]

def unspent : List UnspentOutput := [outputAt (addressOf ⟨1⟩)]

/-- The one position in each of the two ranges has an address. -/
theorem derivable_ranges : Derivable secp256k1 registry.book ranges := by
  intro range hrange branch index hcovers
  -- a side that starts where it stops has one place
  have hone : ∀ {value place : UInt32}, value ≤ place → place ≤ value → place = value :=
    fun hlow hhigh => UInt32.le_antisymm hhigh hlow
  have hat : ∀ id, range = rangeAt (addressOf id) → branch = ⟨1⟩ ∧ index = ⟨0⟩ := by
    rintro id rfl
    exact ⟨congrArg Branch.mk (hone hcovers.branch_ge hcovers.branch_le),
      congrArg Index.mk (hone hcovers.index_ge hcovers.index_le)⟩
  rcases List.mem_pair.mp hrange with rfl | rfl
  · obtain ⟨rfl, rfl⟩ := hat _ rfl
    exact ⟨_, poolAddress_eq network_registry (find?_registry ⟨1⟩) rfl childKeys⟩
  · obtain ⟨rfl, rfl⟩ := hat _ rfl
    exact ⟨_, poolAddress_eq network_registry (find?_registry ⟨2⟩) rfl childKeys⟩

/-- The two credits are those of the candidates, and they come in their order from ranges that come
in the other order. -/
theorem selects_candidates :
    (∀ range ∈ ranges, range.isProper = true)
      ∧ (∀ o ∈ unspent, (Destination.ofScript? o.script).isSome = true)
      ∧ Derivable secp256k1 registry.book ranges
      ∧ (∀ c, c ∈ [creditOf ⟨1⟩, creditOf ⟨2⟩]
          ↔ ∃ i j, Candidate secp256k1 registry.book unspent ranges rules i j c)
      ∧ eligible secp256k1 registry.book unspent ranges.reverse rules
          = .ok [creditOf ⟨1⟩, creditOf ⟨2⟩] := by
  obtain ⟨hinput, -⟩ := eligible_eq_ok_iff.mp eligible_twins
  obtain ⟨hproper, haddressable⟩ := inputError?_eq_none_iff.mp hinput
  obtain ⟨-, hgives, hperm⟩ := eligible_exact hproper haddressable derivable_ranges
  have hother := hperm unspent ranges.reverse (.refl _) ranges.reverse_perm.symm
  exact ⟨hproper, haddressable, derivable_ranges, (hgives _ eligible_twins).2,
    hother.trans eligible_twins⟩

end Selection.Sample

end NotaryPool
