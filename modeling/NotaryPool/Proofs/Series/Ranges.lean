import NotaryPool.Proofs.Panic
import NotaryPool.Proofs.Traversal
import NotaryPool.Series.PoolAddress

/-!
# The addresses of a range

A range is a rectangle of branches and indexes. It is listed index by index, and within an index
branch by branch; a visit does not make the list, but computes each position from its number. Both
ways go through the same positions in the same order, once through each. The number of positions is
the product of the sides. Each side may have as many numbers as there are 32-bit words, so that
there is one rectangle, the one of all branches and all indexes, whose size is not a 64-bit word.
Counting it panics.

## Contents

* `AddressRange.Covers`, `AddressRange.covers_positionAt`, `AddressRange.exists_positionAt`: the
  numbers of a range are those of its positions.
* `AddressRange.Before`, `AddressRange.before_positionAt`, `AddressRange.positionAt_inj`: larger
  numbers stand for later positions.
* `AddressRange.positions_eq`, `AddressRange.collect_eq`: the listing, and a visit.
* `AddressRange.counted_eq`, `AddressRange.counted_eq_ok_iff`: the size as a word.
* `AddressRange.listed_and_counted`: **a range lists each of its positions once and in order, and
  counts as many, but for the range of all positions.**
* `AddressRange.whole_uncounted`: that one is not counted.
-/

namespace NotaryPool.AddressRange

variable {r : AddressRange}

/-! ## Sides -/

/-- Counting on from the start of a side does not wrap before the end of that side. -/
theorem toNat_add_ofNat {start stop : UInt32} {k : Nat} (hproper : start ≤ stop)
    (hk : k < stop.toNat - start.toNat + 1) : (start + UInt32.ofNat k).toNat = start.toNat + k := by
  have hstop := stop.toNat_lt
  rw [UInt32.le_iff_toNat_le] at hproper
  rw [UInt32.toNat_add, UInt32.toNat_ofNat_of_lt' (by change k < 2 ^ 32; omega)]
  exact Nat.mod_eq_of_lt (by omega)

/-- Counting on from the start of a side stays on that side. -/
theorem add_within {start stop : UInt32} {k : Nat} (hproper : start ≤ stop)
    (hk : k < stop.toNat - start.toNat + 1) :
    start ≤ start + UInt32.ofNat k ∧ start + UInt32.ofNat k ≤ stop := by
  have hvalue := toNat_add_ofNat hproper hk
  rw [UInt32.le_iff_toNat_le] at hproper
  rw [UInt32.le_iff_toNat_le, UInt32.le_iff_toNat_le, hvalue]
  omega

/-- What lies on a side is reached from the start of that side. -/
theorem add_distance {start stop value : UInt32} (hlow : start ≤ value) (hhigh : value ≤ stop) :
    value.toNat - start.toNat < stop.toNat - start.toNat + 1
      ∧ start + UInt32.ofNat (value.toNat - start.toNat) = value := by
  have hproper : start ≤ stop := UInt32.le_trans hlow hhigh
  rw [UInt32.le_iff_toNat_le] at hlow hhigh
  have hdistance : value.toNat - start.toNat < stop.toNat - start.toNat + 1 := by omega
  refine ⟨hdistance, UInt32.toNat_inj.mp ?_⟩
  rw [toNat_add_ofNat hproper hdistance]
  omega

/-- A 64-bit word has room for the numbers on a side. -/
theorem sideCount_eq {ε : Type} {start stop : UInt32} (hproper : start ≤ stop) :
    (sideCount start stop : Except (Stop ε) Nat) = .ok (stop.toNat - start.toNat + 1) := by
  have hstop : stop.toNat < 2 ^ 32 := stop.toNat_lt
  unfold sideCount
  rw [Word.sub_of_le (UInt32.le_iff_toNat_le.mp hproper)]
  exact Word.fit_of_lt (Nat.lt_of_le_of_lt (by omega) (show 2 ^ 32 < 2 ^ 64 by decide))

/-- The longest side is that of all numbers. -/
theorem side_full_iff {start stop : UInt32} :
    stop.toNat - start.toNat + 1 = UInt32.size ↔ start = 0 ∧ stop = 0xffffffff := by
  have hsize : UInt32.size = 4294967296 := rfl
  have hstop : stop.toNat < UInt32.size := stop.toNat_lt
  rw [← UInt32.toNat_inj, ← UInt32.toNat_inj]
  show _ ↔ start.toNat = 0 ∧ stop.toNat = 4294967295
  omega

/-! ## Positions by number -/

/-- A position within both sides of a range, ends included. -/
structure Covers (r : AddressRange) (branch : Branch) (index : Index) : Prop where
  branch_ge : r.startBranch.val ≤ branch.val
  branch_le : branch.val ≤ r.stopBranch.val
  index_ge : r.startIndex.val ≤ index.val
  index_le : index.val ≤ r.stopIndex.val

/-- The sides of a proper range are not inverted. -/
theorem isProper_iff :
    r.isProper = true
      ↔ r.startBranch.val ≤ r.stopBranch.val ∧ r.startIndex.val ≤ r.stopIndex.val := by
  simp [isProper]

theorem mod_lt_branchCount (r : AddressRange) (k : Nat) : k % r.branchCount < r.branchCount :=
  Nat.mod_lt k (Nat.succ_pos _)

theorem div_lt_indexCount {k : Nat} (hk : k < r.count) : k / r.branchCount < r.indexCount :=
  Nat.div_lt_of_lt_mul hk

/-- The numbers below the count of a proper range are those of positions in it. -/
theorem covers_positionAt (hproper : r.isProper = true) {k : Nat} (hk : k < r.count) :
    r.Covers (r.positionAt k).1 (r.positionAt k).2 := by
  have hsides := isProper_iff.mp hproper
  obtain ⟨hlow, hhigh⟩ := add_within hsides.1 (r.mod_lt_branchCount k)
  obtain ⟨hlow', hhigh'⟩ := add_within hsides.2 (div_lt_indexCount hk)
  exact ⟨hlow, hhigh, hlow', hhigh'⟩

/-- Each position in a range has a number below the count of the range. -/
theorem exists_positionAt {branch : Branch} {index : Index} (h : r.Covers branch index) :
    ∃ no < r.count, r.positionAt no = (branch, index) := by
  obtain ⟨hbranch, hbranchAt⟩ := add_distance h.branch_ge h.branch_le
  obtain ⟨hindex, hindexAt⟩ := add_distance h.index_ge h.index_le
  generalize branch.val.toNat - r.startBranch.val.toNat = b at hbranch hbranchAt
  generalize index.val.toNat - r.startIndex.val.toNat = i at hindex hindexAt
  have hbranch' : b < r.branchCount := hbranch
  have hindex' : i < r.indexCount := hindex
  refine ⟨i * r.branchCount + b, ?_, ?_⟩
  · unfold count
    calc i * r.branchCount + b < i * r.branchCount + r.branchCount := by omega
      _ = (i + 1) * r.branchCount := (Nat.succ_mul _ _).symm
      _ ≤ r.indexCount * r.branchCount := Nat.mul_le_mul_right _ hindex'
      _ = r.branchCount * r.indexCount := Nat.mul_comm _ _
  · have hmod : (i * r.branchCount + b) % r.branchCount = b := Nat.mul_add_mod_of_lt hbranch'
    have hdiv : (i * r.branchCount + b) / r.branchCount = i := by
      rw [Nat.mul_comm, Nat.mul_add_div (Nat.zero_lt_of_lt hbranch'), Nat.div_eq_of_lt hbranch',
        Nat.add_zero]
    unfold positionAt branchAt indexAt
    rw [hmod, hdiv, hbranchAt, hindexAt]

/-- One position is listed before another: its index is smaller, or the index is the same one and
its branch is smaller. -/
def Before (p q : Branch × Index) : Prop :=
  p.2.val < q.2.val ∨ p.2 = q.2 ∧ p.1.val < q.1.val

theorem Before.ne {p q : Branch × Index} (h : Before p q) : p ≠ q := by
  rintro rfl
  rcases h with hindex | ⟨-, hbranch⟩
  · exact UInt32.lt_irrefl _ hindex
  · exact UInt32.lt_irrefl _ hbranch

/-- **Larger numbers stand for later positions.** -/
theorem before_positionAt (hproper : r.isProper = true) {k l : Nat} (hless : k < l)
    (hl : l < r.count) : Before (r.positionAt k) (r.positionAt l) := by
  obtain ⟨hbranches, hindexes⟩ := isProper_iff.mp hproper
  have hdiv : k / r.branchCount ≤ l / r.branchCount := Nat.div_le_div_right (Nat.le_of_lt hless)
  unfold Before positionAt branchAt indexAt
  rcases Nat.eq_or_lt_of_le hdiv with hsame | hlater
  · -- in the same index the remainders of the numbers are in their order
    have hmod : k % r.branchCount < l % r.branchCount := by
      have hk := Nat.div_add_mod k r.branchCount
      have hl := Nat.div_add_mod l r.branchCount
      rw [hsame] at hk
      omega
    refine Or.inr ⟨by rw [hsame], ?_⟩
    rw [UInt32.lt_iff_toNat_lt, toNat_add_ofNat hbranches (r.mod_lt_branchCount k),
      toNat_add_ofNat hbranches (r.mod_lt_branchCount l)]
    exact Nat.add_lt_add_left hmod _
  · refine Or.inl ?_
    rw [UInt32.lt_iff_toNat_lt,
      toNat_add_ofNat hindexes (div_lt_indexCount (Nat.lt_trans hless hl)),
      toNat_add_ofNat hindexes (div_lt_indexCount hl)]
    exact Nat.add_lt_add_left hlater _

/-- Two numbers of a proper range are those of two positions. -/
theorem positionAt_inj (hproper : r.isProper = true) {k l : Nat} (hk : k < r.count)
    (hl : l < r.count) (h : r.positionAt k = r.positionAt l) : k = l := by
  rcases Nat.lt_trichotomy k l with hless | hsame | hmore
  · exact absurd h (before_positionAt hproper hless hl).ne
  · exact hsame
  · exact absurd h.symm (before_positionAt hproper hmore hk).ne

/-! ## The listing -/

/-- A table that is read row by row is read by numbers. -/
theorem flatMap_rows {α : Type} (f : Nat → Nat → α) (columns rows : Nat) :
    ((List.range rows).flatMap fun row => (List.range columns).map fun column => f column row)
      = (List.range (columns * rows)).map fun no => f (no % columns) (no / columns) := by
  induction rows with
  | zero => rfl
  | succ rows ih =>
      rw [List.range_succ, List.flatMap_append, List.flatMap_singleton, ih, Nat.mul_succ,
        List.range_add, List.map_append, List.map_map]
      refine congrArg (_ ++ ·) (List.map_congr_left ?_)
      intro column hcolumn
      have hlt : column < columns := List.mem_range.mp hcolumn
      have hmod : (columns * rows + column) % columns = column := by
        rw [Nat.mul_add_mod, Nat.mod_eq_of_lt hlt]
      have hdiv : (columns * rows + column) / columns = rows := by
        rw [Nat.mul_add_div (Nat.zero_lt_of_lt hlt), Nat.div_eq_of_lt hlt, Nat.add_zero]
      rw [Function.comp_apply, hmod, hdiv]

/-- **The listing has the positions of all numbers**, in their order. -/
theorem positions_eq (r : AddressRange) : r.positions = (List.range r.count).map r.positionAt :=
  flatMap_rows (fun column row => (r.branchAt column, r.indexAt row)) r.branchCount r.indexCount

theorem length_positions (r : AddressRange) : r.positions.length = r.count := by
  rw [positions_eq, List.length_map, List.length_range]

/-- What is computed of the listing without making it is its beginning. -/
theorem firstPositions_eq (hproper : r.isProper = true) (limit : Nat) :
    r.firstPositions limit = r.positions.take limit := by
  unfold firstPositions
  rw [if_pos hproper, positions_eq, ← List.map_take, List.take_range]

theorem mem_positions_iff (hproper : r.isProper = true) {branch : Branch} {index : Index} :
    (branch, index) ∈ r.positions ↔ r.Covers branch index := by
  rw [positions_eq, List.mem_map]
  constructor
  · rintro ⟨no, hno, hposition⟩
    have hcovers := covers_positionAt hproper (List.mem_range.mp hno)
    rwa [hposition] at hcovers
  · intro h
    obtain ⟨no, hno, hposition⟩ := exists_positionAt h
    exact ⟨no, List.mem_range.mpr hno, hposition⟩

theorem pairwise_positions (hproper : r.isProper = true) : r.positions.Pairwise Before := by
  rw [positions_eq, List.pairwise_map]
  refine List.pairwise_lt_range.imp_of_mem ?_
  intro k l _ hl hless
  exact before_positionAt hproper hless (List.mem_range.mp hl)

/-! ## Visits -/

/-- The numbers of a range begin with zero. -/
theorem mem_numbers_iff {k : Nat} : k ∈ List.range' 0 r.count ↔ k < r.count := by
  rw [List.mem_range'_1]
  omega

variable {ε α : Type}

theorem collectFrom_eq (r : AddressRange) (visit : Branch → Index → Except ε (List α))
    (remaining k : Nat) :
    collectFrom r visit remaining k
      = joinM (fun no => visit (r.positionAt no).1 (r.positionAt no).2)
          (List.range' k remaining) := by
  induction remaining generalizing k with
  | zero => rfl
  | succ remaining ih =>
      rw [List.range'_succ, joinM_cons]
      unfold collectFrom
      cases visit (r.positionAt k).1 (r.positionAt k).2 with
      | error e => rfl
      | ok part => exact congrArg (Except.map (part ++ ·)) (ih (k + 1))

/-- **A visit joins what the positions give**, in the order of their numbers. -/
theorem collect_eq (r : AddressRange) (visit : Branch → Index → Except ε (List α)) :
    r.collect visit
      = joinM (fun no => visit (r.positionAt no).1 (r.positionAt no).2)
          (List.range' 0 r.count) :=
  collectFrom_eq r visit r.count 0

/-- What a visit gives was found at a position of the range. -/
theorem exists_of_collect {visit : Branch → Index → Except ε (List α)} {found : List α}
    (hproper : r.isProper = true) (h : r.collect visit = .ok found) {a : α} (ha : a ∈ found) :
    ∃ branch index part, r.Covers branch index ∧ visit branch index = .ok part ∧ a ∈ part := by
  rw [collect_eq] at h
  obtain ⟨no, hno, part, hvisit, hmem⟩ := exists_of_joinM h ha
  exact ⟨_, _, part, covers_positionAt hproper (mem_numbers_iff.mp hno), hvisit, hmem⟩

/-! ## The size as a word -/

/-- The range of all positions of a series. -/
def whole (series : SeriesId) : AddressRange :=
  ⟨series, ⟨0⟩, ⟨0xffffffff⟩, ⟨0⟩, ⟨0xffffffff⟩⟩

/-- The product of two sides is a word, unless both sides are full. -/
theorem count_lt_size (h : r ≠ whole r.series) : r.count < UInt64.size := by
  have hbranches : r.branchCount ≤ UInt32.size := by
    have hstop : r.stopBranch.val.toNat < UInt32.size := r.stopBranch.val.toNat_lt
    unfold branchCount
    omega
  have hindexes : r.indexCount ≤ UInt32.size := by
    have hstop : r.stopIndex.val.toNat < UInt32.size := r.stopIndex.val.toNat_lt
    unfold indexCount
    omega
  have hpositive : 0 < r.branchCount := Nat.succ_pos _
  unfold count
  rcases Nat.eq_or_lt_of_le hbranches with hfull | hless
  · rcases Nat.eq_or_lt_of_le hindexes with hfull' | hless'
    · obtain ⟨hstart, hstop⟩ := side_full_iff.mp hfull
      obtain ⟨hstart', hstop'⟩ := side_full_iff.mp hfull'
      refine absurd ?_ h
      calc r = ⟨r.series, ⟨r.startBranch.val⟩, ⟨r.stopBranch.val⟩, ⟨r.startIndex.val⟩,
            ⟨r.stopIndex.val⟩⟩ := rfl
        _ = whole r.series := by rw [hstart, hstop, hstart', hstop']; rfl
    · calc r.branchCount * r.indexCount < r.branchCount * UInt32.size :=
            Nat.mul_lt_mul_of_pos_left hless' hpositive
        _ ≤ UInt32.size * UInt32.size := Nat.mul_le_mul_right _ hbranches
        _ = UInt64.size := by decide
  · calc r.branchCount * r.indexCount ≤ r.branchCount * UInt32.size :=
          Nat.mul_le_mul_left _ hindexes
      _ < UInt32.size * UInt32.size := Nat.mul_lt_mul_of_pos_right hless (by decide)
      _ = UInt64.size := by decide

theorem count_whole (series : SeriesId) : (whole series).count = UInt64.size := by
  show (0xffffffff - 0 + 1) * (0xffffffff - 0 + 1) = UInt64.size
  decide

/-! ## Ranges that are not refused -/

theorem check_eq_ok_iff : r.check = .ok () ↔ r.isProper = true := by
  unfold check
  by_cases hproper : r.isProper = true
  · rw [if_pos hproper]
    exact iff_of_true rfl hproper
  · rw [if_neg hproper]
    exact iff_of_false (fun h => by cases h) hproper

/-- The count of a range that is not refused is its size, if that has a place in a word. -/
theorem counted_eq (hcheck : r.check = .ok ()) : r.counted = Word.fit 64 r.count := by
  obtain ⟨hbranches, hindexes⟩ := isProper_iff.mp (check_eq_ok_iff.mp hcheck)
  unfold counted
  rw [hcheck, sideCount_eq hbranches, sideCount_eq hindexes]
  rfl

/-- **All positions together are too many for a word**, and only they. -/
theorem counted_eq_ok_iff (hcheck : r.check = .ok ()) :
    r.counted = .ok r.count ↔ r ≠ whole r.series := by
  rw [counted_eq hcheck]
  constructor
  · intro hcounted hwhole
    rw [hwhole, count_whole, Word.fit_of_le (Nat.le_refl (2 ^ 64))] at hcounted
    cases hcounted
  · intro hpart
    exact Word.fit_of_lt (count_lt_size hpart)

/-- **A range lists each of its positions once and in order, and counts as many.** Let a range not
be refused. Its listing has just the positions within both sides, none of them twice, index by index
and with the branches increasing in each index, and what is computed of it beforehand is its
beginning. The count is the number of positions listed, unless the range is that of all branches and
all indexes: these are as many as there are 64-bit words, and counting them panics. -/
theorem listed_and_counted (hcheck : r.check = .ok ()) :
    (∀ branch index, (branch, index) ∈ r.positions ↔ r.Covers branch index)
      ∧ r.positions.Nodup ∧ r.positions.Pairwise Before
      ∧ (∀ limit, r.firstPositions limit = r.positions.take limit)
      ∧ (r ≠ whole r.series → r.counted = .ok r.positions.length)
      ∧ (r = whole r.series → r.counted = .error (.panic .overflow)
          ∧ r.positions.length = UInt64.size) := by
  have hproper := check_eq_ok_iff.mp hcheck
  have hordered := pairwise_positions hproper
  refine ⟨fun _ _ => mem_positions_iff hproper, hordered.imp Before.ne, hordered,
    firstPositions_eq hproper, ?_, ?_⟩
  · intro hpart
    rw [length_positions]
    exact (counted_eq_ok_iff hcheck).mpr hpart
  · intro hwhole
    rw [counted_eq hcheck, length_positions, hwhole, count_whole]
    exact ⟨Word.fit_of_le (Nat.le_refl (2 ^ 64)), rfl⟩

/-- All branches, at the last four indexes that there are. -/
theorem listed_and_counted_last :
    let r : AddressRange := ⟨⟨1⟩, ⟨0⟩, ⟨0xffffffff⟩, ⟨0xfffffffc⟩, ⟨0xffffffff⟩⟩
    r.positions.Nodup ∧ (⟨0⟩, ⟨0xffffffff⟩) ∈ r.positions
      ∧ r.counted = .ok 0x400000000 ∧ r.positions.length = 0x400000000 := by
  intro r
  have hcheck : r.check = .ok () := by decide
  obtain ⟨hmem, hnodup, -, -, hcounted, -⟩ := listed_and_counted hcheck
  have hcount := hcounted (by decide)
  have hlength : r.positions.length = 0x400000000 := by
    rw [length_positions]
    decide
  exact ⟨hnodup, (hmem _ _).mpr ⟨by decide, by decide, by decide, by decide⟩, hlength ▸ hcount,
    hlength⟩

/-- The range of all positions is not refused, and counting it panics. -/
theorem whole_uncounted :
    (whole ⟨1⟩).check = .ok () ∧ (whole ⟨1⟩).counted = .error (.panic .overflow)
      ∧ (whole ⟨1⟩).counted ≠ .ok (whole ⟨1⟩).positions.length := by
  have hcheck : (whole ⟨1⟩).check = .ok () := by decide
  refine ⟨hcheck, ?_, fun hcounted => ?_⟩
  · rw [counted_eq hcheck, count_whole]
    exact Word.fit_of_le (Nat.le_refl (2 ^ 64))
  · rw [length_positions] at hcounted
    exact (counted_eq_ok_iff hcheck).mp hcounted rfl

end NotaryPool.AddressRange
