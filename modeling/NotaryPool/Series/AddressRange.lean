import NotaryPool.Series.Number

/-!
# Ranges of addresses

A range covers a rectangle of branches and indexes of a series, with both ends of each included.

* `AddressRange.isProper`, `AddressRange.count`, `AddressRange.positions`: the range as a set;
* `AddressRange.positionAt`: a position by its number, without listing those before it;
* `AddressRange.collect`: visits the positions in order until one fails.
-/

namespace NotaryPool

/-- A rectangle of branches and indexes of a series. -/
structure AddressRange where
  series : SeriesId
  startBranch : Branch
  stopBranch : Branch
  startIndex : Index
  stopIndex : Index
deriving DecidableEq, Repr

namespace AddressRange

instance : ToString AddressRange :=
  ⟨fun r => s!"{r.series}/{r.startBranch}..={r.stopBranch}/{r.startIndex}..={r.stopIndex}"⟩

/-- Whether neither side of the range is inverted. -/
def isProper (r : AddressRange) : Bool :=
  r.startBranch.val ≤ r.stopBranch.val && r.startIndex.val ≤ r.stopIndex.val

/-- The number of branches of a proper range. -/
def branchCount (r : AddressRange) : Nat := r.stopBranch.val.toNat - r.startBranch.val.toNat + 1

/-- The number of indexes of a proper range. -/
def indexCount (r : AddressRange) : Nat := r.stopIndex.val.toNat - r.startIndex.val.toNat + 1

/-- The number of addresses of a proper range. -/
def count (r : AddressRange) : Nat := r.branchCount * r.indexCount

/-- The branch at a distance from the first one. -/
def branchAt (r : AddressRange) (k : Nat) : Branch := ⟨r.startBranch.val + UInt32.ofNat k⟩

/-- The index at a distance from the first one. -/
def indexAt (r : AddressRange) (k : Nat) : Index := ⟨r.startIndex.val + UInt32.ofNat k⟩

/-- The positions of a proper range: all branches of the first index, then those of the next. -/
def positions (r : AddressRange) : List (Branch × Index) :=
  (List.range r.indexCount).flatMap fun i =>
    (List.range r.branchCount).map fun b => (r.branchAt b, r.indexAt i)

/-- The position with a given number in the order of `positions`. -/
def positionAt (r : AddressRange) (k : Nat) : Branch × Index :=
  (r.branchAt (k % r.branchCount), r.indexAt (k / r.branchCount))

/-- The first positions, at most `limit` of them. -/
def firstPositions (r : AddressRange) (limit : Nat) : List (Branch × Index) :=
  if r.isProper then (List.range (min limit r.count)).map r.positionAt else []

/-- Visits `remaining` positions from number `k` on, and joins what they give. -/
def collectFrom {ε α : Type} (r : AddressRange) (visit : Branch → Index → Except ε (List α)) :
    (remaining : Nat) → (k : Nat) → Except ε (List α)
  | 0, _ => .ok []
  | remaining + 1, k =>
    match visit (r.positionAt k).1 (r.positionAt k).2 with
    | .error e => .error e
    | .ok found => (collectFrom r visit remaining (k + 1)).map (found ++ ·)

/-- Visits the positions of a proper range in order and joins what they give. The first failure
ends the visit. -/
def collect {ε α : Type} (r : AddressRange) (visit : Branch → Index → Except ε (List α)) :
    Except ε (List α) :=
  collectFrom r visit r.count 0

end AddressRange

end NotaryPool
