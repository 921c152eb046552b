import Mathlib.Data.List.Nodup
import NotaryPool.Proofs.Script.Redeem
import NotaryPool.Series.BranchOrder

/-!
# Branches tell themselves apart by their order

A branch puts one of the keys in front, and the change branch reverses them. With three keys or more
no two branches list them in the same order: the first place tells two branches apart that put
different keys in front, and the second place tells the change branch from the branch of the last
key. A redeem script reads back as the keys in their order, so that different branches also have
different scripts.

## Contents

* `branchOrder_isOk_iff`, `branchOrder_perm`: the branches that there are, and the keys on them.
* `getElem?_reverse_one`, `getElem?_moveToFront_one`: what stands in the second place.
* `branchOrder_injective`: the order of the keys gives the branch.
* `branches_differ`: **each branch has an order and a redeem script of its own.**
-/

namespace NotaryPool

variable {α : Type} {keys : List α} {position : Nat}

theorem moveToFront_eq (hposition : position < keys.length) :
    moveToFront keys position = keys[position] :: keys.eraseIdx position := by
  unfold moveToFront
  rw [List.getElem?_eq_getElem hposition]

theorem getElem?_moveToFront_one (hpositive : 0 < position) (hposition : position < keys.length) :
    (moveToFront keys position)[1]? = keys[0]? := by
  rw [moveToFront_eq hposition, List.getElem?_cons_succ, List.getElem?_eraseIdx_of_lt hpositive]

theorem getElem?_reverse_one (hcount : 2 ≤ keys.length) :
    keys.reverse[1]? = keys[keys.length - 2]? := by
  rw [List.getElem?_reverse hcount]
  congr 1

/-- A key that is moved to the front is still there once. -/
theorem moveToFront_perm (keys : List α) (position : Nat) :
    (moveToFront keys position).Perm keys := by
  unfold moveToFront
  split
  · rename_i key hkey
    obtain ⟨hposition, rfl⟩ := List.getElem?_eq_some_iff.mp hkey
    rw [List.eraseIdx_eq_take_drop_succ]
    refine List.perm_middle.symm.trans (List.Perm.of_eq ?_)
    rw [List.getElem_cons_drop, List.take_append_drop]
  · exact List.Perm.refl keys

/-- No key that is moved to the front reverses three keys or more. -/
theorem reverse_ne_moveToFront (hnodup : keys.Nodup) (hcount : 3 ≤ keys.length)
    (hposition : position < keys.length) : keys.reverse ≠ moveToFront keys position := by
  intro heq
  have hfirst : keys[keys.length - 1]? = keys[position]? := by
    have hhead := congrArg (·[0]?) heq
    rwa [List.getElem?_reverse (by omega), moveToFront_eq hposition, List.getElem?_cons_zero,
      ← List.getElem?_eq_getElem hposition] at hhead
  obtain rfl : keys.length - 1 = position := (List.getElem?_inj (by omega) hnodup).mp hfirst
  have hsecond : keys[keys.length - 2]? = keys[0]? := by
    rw [← getElem?_reverse_one (by omega), heq, getElem?_moveToFront_one (by omega) hposition]
  have hshort : keys.length - 2 = 0 := (List.getElem?_inj (by omega) hnodup).mp hsecond
  omega

theorem ne_nil_of_three (hcount : 3 ≤ keys.length) : keys ≠ [] := by
  rintro rfl
  cases hcount

/-- What the order of a branch is, and which branches there are. -/
theorem branchOrder_eq_ok_iff {branch : Branch} {ordered : List α} (hkeys : keys ≠ []) :
    branchOrder keys branch = .ok ordered
      ↔ branch.val = 0 ∧ ordered = keys.reverse
        ∨ branch.val ≠ 0 ∧ branch.val.toNat ≤ keys.length
            ∧ ordered = moveToFront keys (branch.val.toNat - 1) := by
  unfold branchOrder Branch.isChange
  rw [if_neg (by simpa using hkeys)]
  by_cases hchange : branch.val = 0
  · simp [hchange, eq_comm]
  · by_cases hrange : keys.length < branch.val.toNat
    · simp [hchange, hrange, Nat.not_le.mpr hrange]
    · have hrange' := Nat.not_lt.mp hrange
      simp only [beq_iff_eq, hchange, if_false, hrange, Except.ok.injEq, false_and, ne_eq,
        not_false_eq_true, hrange', true_and, false_or]
      exact eq_comm

/-- The branches are the change branch and one for each key. -/
theorem branchOrder_isOk_iff {branch : Branch} (hkeys : keys ≠ []) :
    (∃ ordered, branchOrder keys branch = .ok ordered) ↔ branch.val.toNat ≤ keys.length := by
  simp only [branchOrder_eq_ok_iff hkeys]
  constructor
  · rintro ⟨ordered, ⟨hzero, -⟩ | ⟨-, hrange, -⟩⟩
    · rw [hzero]
      exact Nat.zero_le _
    · exact hrange
  · intro hrange
    by_cases hzero : branch.val = 0
    · exact ⟨_, Or.inl ⟨hzero, rfl⟩⟩
    · exact ⟨_, Or.inr ⟨hzero, hrange, rfl⟩⟩

/-- The order of a branch lists each key once. -/
theorem branchOrder_perm {ordered : List α} {branch : Branch}
    (h : branchOrder keys branch = .ok ordered) : ordered.Perm keys := by
  unfold branchOrder at h
  split at h
  · cases h
  · split at h
    · cases h
      exact List.reverse_perm keys
    · split at h
      · cases h
      · cases h
        exact moveToFront_perm keys _

/-- **The order of three keys or more gives the branch.** -/
theorem branchOrder_injective (hnodup : keys.Nodup) (hcount : 3 ≤ keys.length)
    {branch other : Branch} {ordered : List α} (h : branchOrder keys branch = .ok ordered)
    (hother : branchOrder keys other = .ok ordered) : branch = other := by
  have hkeys := ne_nil_of_three hcount
  have hpositive : ∀ {b : Branch}, b.val ≠ 0 → 0 < b.val.toNat := fun hb =>
    Nat.pos_of_ne_zero fun hzero => hb (UInt32.toNat_inj.mp hzero)
  rcases (branchOrder_eq_ok_iff hkeys).mp h with ⟨hzero, rfl⟩ | ⟨hzero, hrange, rfl⟩
  · rcases (branchOrder_eq_ok_iff hkeys).mp hother with ⟨hzero', -⟩ | ⟨hzero', hrange', heq⟩
    · exact congrArg Branch.mk (hzero.trans hzero'.symm)
    · have := hpositive hzero'
      exact absurd heq (reverse_ne_moveToFront hnodup hcount (by omega))
  · have hfront := hpositive hzero
    rcases (branchOrder_eq_ok_iff hkeys).mp hother with ⟨-, heq⟩ | ⟨hzero', hrange', heq⟩
    · exact absurd heq.symm (reverse_ne_moveToFront hnodup hcount (by omega))
    · -- both put a key in front, which is the same one
      have hfront' := hpositive hzero'
      rw [moveToFront_eq (by omega), moveToFront_eq (by omega), List.cons.injEq] at heq
      have hsame := (hnodup.getElem_inj_iff).mp heq.1
      exact congrArg Branch.mk (UInt32.toNat_inj.mp (by omega))

/-! ## Redeem scripts of branches -/

/-- A redeem script can be met by the keys in any order. -/
theorem Multisig.Proper.of_perm {required : UInt8} {keys ordered : List PublicKey}
    (h : Proper required keys) (hperm : ordered.Perm keys) : Proper required ordered where
  positive := h.positive
  enough := by rw [hperm.length_eq]; exact h.enough
  few := by rw [hperm.length_eq]; exact h.few

/-- **Each branch has an order and a redeem script of its own.** Let there be three keys or more,
all of them different. There is a branch for each number up to that of the keys, and no other; each
one lists every key once, and no two of them in the same order. If a redeem script has room for the
public keys and they can meet its threshold, then no two branches have the same redeem script. -/
theorem branches_differ :
    (∀ (α : Type) (keys : List α), keys.Nodup → 3 ≤ keys.length →
      (∀ branch : Branch, (∃ ordered, branchOrder keys branch = .ok ordered)
          ↔ branch.val.toNat ≤ keys.length)
        ∧ (∀ branch ordered, branchOrder keys branch = .ok ordered → ordered.Perm keys)
        ∧ ∀ branch other ordered ordered', branchOrder keys branch = .ok ordered →
            branchOrder keys other = .ok ordered' → branch ≠ other → ordered ≠ ordered')
      ∧ ∀ (keys : List PublicKey) (required : UInt8), keys.Nodup → 3 ≤ keys.length →
          Multisig.Proper required keys →
          ∀ branch other ordered ordered', branchOrder keys branch = .ok ordered →
            branchOrder keys other = .ok ordered' → branch ≠ other →
            Multisig.encode required ordered ≠ Multisig.encode required ordered' := by
  constructor
  · intro α keys hnodup hcount
    refine ⟨fun _ => branchOrder_isOk_iff (ne_nil_of_three hcount),
      fun _ _ => branchOrder_perm, ?_⟩
    rintro branch other ordered _ h hother hdiffer rfl
    exact hdiffer (branchOrder_injective hnodup hcount h hother)
  · intro keys required hnodup hcount hproper branch other ordered ordered' h hother hdiffer hsame
    obtain ⟨-, rfl⟩ := Multisig.encode_inj (hproper.of_perm (branchOrder_perm h))
      (hproper.of_perm (branchOrder_perm hother)) hsame
    exact hdiffer (branchOrder_injective hnodup hcount h hother)

/-- Two keys are too few: the change branch lists them as the second one does. -/
example : branchOrder [true, false] ⟨0⟩ = branchOrder [true, false] ⟨2⟩ := rfl

namespace Multisig.Sample

/-- A third key. -/
def other : PublicKey where
  x := ⟨2, by decide⟩
  odd := false
  onCurve := by decide +kernel

/-- Three keys, two of which have the same first coordinate. -/
def three : List PublicKey := [key false, key true, other]

end Multisig.Sample

/-- The change branch and the branch of the last key have the same key in front. -/
theorem branches_differ_three :
    branchOrder Multisig.Sample.three ⟨0⟩
        = .ok [Multisig.Sample.other, Multisig.Sample.key true, Multisig.Sample.key false]
      ∧ branchOrder Multisig.Sample.three ⟨3⟩
        = .ok [Multisig.Sample.other, Multisig.Sample.key false, Multisig.Sample.key true]
      ∧ Multisig.encode 2
          [Multisig.Sample.other, Multisig.Sample.key true, Multisig.Sample.key false]
        ≠ Multisig.encode 2
          [Multisig.Sample.other, Multisig.Sample.key false, Multisig.Sample.key true]
      ∧ ¬ ∃ ordered, branchOrder Multisig.Sample.three ⟨4⟩ = .ok ordered := by
  have hnodup : Multisig.Sample.three.Nodup := by decide
  have hcount : 3 ≤ Multisig.Sample.three.length := Nat.le_refl 3
  have hproper : Multisig.Proper 2 Multisig.Sample.three :=
    ⟨by decide, (by decide : 2 ≤ 3), (by decide : 3 ≤ 16)⟩
  obtain ⟨horders, hscripts⟩ := branches_differ
  refine ⟨rfl, rfl, hscripts _ 2 hnodup hcount hproper ⟨0⟩ ⟨3⟩ _ _ rfl rfl (by decide), ?_⟩
  intro h
  have hrange := ((horders _ _ hnodup hcount).1 ⟨4⟩).mp h
  exact absurd hrange (by decide)

end NotaryPool
