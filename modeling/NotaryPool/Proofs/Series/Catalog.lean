import Mathlib.Data.List.Forall2
import NotaryPool.Series.Catalog

/-!
# Entries in the order of their numbers

The numbers of the series of a pool run from one on without a gap. In a catalog with such numbers an
entry is put either in the place of the one before it or at the end.

## Contents

* `SeriesId.upTo`, `SeriesId.mem_upTo`: the numbers from one on.
* `Catalog.ids_insert_of_mem`, `Catalog.insert_of_above`: **where an entry is put.**
* `Catalog.forall₂_insert`: two catalogs with the same numbers, entry by entry.
-/

namespace NotaryPool

/-! ## Numbers from one on -/

namespace SeriesId

/-- The numbers from one to `count`. -/
def upTo (count : Nat) : List SeriesId := (List.range count).map fun n => ⟨UInt32.ofNat (n + 1)⟩

variable {count : Nat} {id : SeriesId}

theorem upTo_succ (count : Nat) :
    upTo (count + 1) = upTo count ++ [⟨UInt32.ofNat (count + 1)⟩] := by
  unfold upTo
  rw [List.range_succ, List.map_append, List.map_singleton]

theorem mem_upTo (hcount : count < 2 ^ 32) :
    id ∈ upTo count ↔ 1 ≤ id.val.toNat ∧ id.val.toNat ≤ count := by
  unfold upTo
  rw [List.mem_map]
  constructor
  · rintro ⟨n, hn, rfl⟩
    have hn := List.mem_range.mp hn
    have hbelow : n + 1 < 2 ^ 32 := by omega
    have hvalue : (UInt32.ofNat (n + 1)).toNat = n + 1 := UInt32.toNat_ofNat_of_lt' hbelow
    show 1 ≤ (UInt32.ofNat (n + 1)).toNat ∧ (UInt32.ofNat (n + 1)).toNat ≤ count
    omega
  · rintro ⟨hpositive, hle⟩
    refine ⟨id.val.toNat - 1, List.mem_range.mpr (by omega), ?_⟩
    rw [Nat.sub_add_cancel hpositive, UInt32.ofNat_toNat]

theorem pairwise_upTo (hcount : count < 2 ^ 32) :
    (upTo count).Pairwise fun a b => a.val < b.val := by
  induction count with
  | zero => exact .nil
  | succ count ih =>
      rw [upTo_succ, List.pairwise_append]
      refine ⟨ih (by omega), List.pairwise_singleton .., ?_⟩
      intro a ha b hb
      have hlast : (UInt32.ofNat (count + 1)).toNat = count + 1 :=
        UInt32.toNat_ofNat_of_lt' hcount
      rw [List.mem_singleton.mp hb, UInt32.lt_iff_toNat_lt, hlast]
      exact Nat.lt_succ_of_le ((mem_upTo (by omega)).mp ha).2

end SeriesId

namespace Catalog

variable {α β : Type} {c : Catalog α} {id : SeriesId} {entry : α}

/-! ## Finding an entry -/

theorem find?_eq_none_iff : find? c id = none ↔ id ∉ ids c := by
  induction c with
  | nil => exact iff_of_true rfl List.not_mem_nil
  | cons e rest ih =>
      unfold find? ids
      rw [List.map_cons, List.mem_cons, not_or]
      by_cases he : e.1 = id
      · simp [he]
      · rw [if_neg he, ih]
        exact (and_iff_right (Ne.symm he)).symm

theorem mem_of_find? (h : find? c id = some entry) : (id, entry) ∈ c := by
  induction c with
  | nil => cases h
  | cons e rest ih =>
      unfold find? at h
      split at h
      · rename_i he
        cases h
        rw [← he]
        exact List.mem_cons_self
      · exact List.mem_cons_of_mem e (ih h)

/-! ## Putting an entry in -/

theorem mem_insert {e : SeriesId × α} (h : e ∈ insert id entry c) : e = (id, entry) ∨ e ∈ c := by
  induction c with
  | nil => exact Or.inl (List.mem_singleton.mp h)
  | cons first rest ih =>
      unfold insert at h
      split at h
      · exact (List.mem_cons.mp h).imp_right (List.mem_cons_of_mem first)
      · split at h
        · exact List.mem_cons.mp h
        · rcases List.mem_cons.mp h with rfl | hrest
          · exact Or.inr List.mem_cons_self
          · exact (ih hrest).imp_right (List.mem_cons_of_mem first)

/-- An entry with a number above the others goes to the end. -/
theorem insert_of_above (h : ∀ other ∈ ids c, other.val < id.val) :
    insert id entry c = c ++ [(id, entry)] := by
  induction c with
  | nil => rfl
  | cons e rest ih =>
      have hfirst : e.1.val < id.val := h e.1 List.mem_cons_self
      unfold insert
      rw [if_neg, if_neg (UInt32.lt_asymm hfirst), List.cons_append,
        ih fun other hother => h other (List.mem_cons_of_mem e.1 hother)]
      rintro rfl
      exact UInt32.lt_irrefl _ hfirst

/-- An entry for a number that has one takes its place. -/
theorem ids_insert_of_mem (hids : (ids c).Pairwise fun a b => a.val < b.val) (h : id ∈ ids c) :
    ids (insert id entry c) = ids c := by
  induction c with
  | nil => cases h
  | cons e rest ih =>
      obtain ⟨hfirst, hrest⟩ := List.pairwise_cons.mp hids
      unfold insert
      by_cases he : e.1 = id
      · rw [if_pos he, ← he]
        rfl
      · have hlater : id ∈ ids rest := (List.mem_cons.mp h).resolve_left (Ne.symm he)
        rw [if_neg he, if_neg (UInt32.lt_asymm (hfirst id hlater))]
        exact congrArg (e.1 :: ·) (ih hrest hlater)

/-- Two catalogs with the same numbers are changed at the same place. -/
theorem forall₂_insert {R : SeriesId × α → SeriesId × β → Prop}
    (hnumber : ∀ {a b}, R a b → b.1 = a.1) {d : Catalog β} (h : List.Forall₂ R c d) {other : β}
    (hentry : R (id, entry) (id, other)) :
    List.Forall₂ R (insert id entry c) (insert id other d) := by
  induction h with
  | nil => exact .cons hentry .nil
  | cons hfirst hrest ih =>
      unfold insert
      rw [hnumber hfirst]
      split
      · exact .cons hentry hrest
      · split
        · exact .cons hentry (.cons hfirst hrest)
        · exact .cons hfirst ih

end Catalog

end NotaryPool
