import Mathlib.Data.List.Induction
import NotaryPool.OrderedMap
import NotaryPool.Proofs.Traversal

/-!
# What a map in the order of insertion holds

A map is a list of entries, and only the way in which it is made keeps two of them from having the
same key. An entry is what its key finds just in the maps that are made in this way.

## Contents

* `OrderedMap.contains_iff`, `OrderedMap.find?_eq_none_iff`: the keys that have a value.
* `OrderedMap.insert_of_new`, `OrderedMap.nodup_keys_insert`: a new key goes to the end.
* `OrderedMap.without`: keys taken out, all at once.
* `OrderedMap.mem_of_find?`, `OrderedMap.find?_of_mem`: **an entry is what its key finds.**
* `OrderedMap.sum_values_without`: keys taken out of a sum over the values.
* `OrderedMap.find?_ofList_map`, `OrderedMap.nodup_keys_ofList`: maps made from a list.
-/

namespace NotaryPool.OrderedMap

variable {κ α σ : Type} [DecidableEq κ] {m : OrderedMap κ α} {k : κ}

/-! ## Keys -/

theorem contains_iff : m.contains k = true ↔ k ∈ m.keys := by
  unfold contains keys
  simp

theorem find?_eq_none_iff : m.find? k = none ↔ k ∉ m.keys := by
  unfold find? keys
  rw [Option.map_eq_none_iff, List.find?_eq_none]
  constructor
  · intro h hk
    obtain ⟨e, he, rfl⟩ := List.mem_map.mp hk
    exact h e he (decide_eq_true rfl)
  · intro h e he hkey
    exact h (List.mem_map.mpr ⟨e, he, of_decide_eq_true hkey⟩)

theorem keys_insertEntry (k : κ) (value : α) (entries : List (κ × α)) :
    (insertEntry k value entries).map (·.1)
      = if k ∈ entries.map (·.1) then entries.map (·.1) else entries.map (·.1) ++ [k] := by
  induction entries with
  | nil => rfl
  | cons e rest ih =>
      unfold insertEntry
      by_cases he : e.1 = k
      · simp [he]
      · simp only [if_neg he, List.map_cons, ih, List.mem_cons, Ne.symm he, false_or]
        split
        · rfl
        · rfl

theorem keys_insert (m : OrderedMap κ α) (k : κ) (value : α) :
    (m.insert k value).keys = if k ∈ m.keys then m.keys else m.keys ++ [k] :=
  keys_insertEntry k value m.entries

theorem nodup_keys_insert (h : m.keys.Nodup) (k : κ) (value : α) :
    (m.insert k value).keys.Nodup := by
  rw [keys_insert]
  split
  · exact h
  · rename_i hnew
    rw [List.nodup_append]
    refine ⟨h, List.nodup_singleton k, ?_⟩
    intro other hother k' hk' heq
    rw [List.mem_singleton.mp hk'] at heq
    exact hnew (heq ▸ hother)

/-- A new key goes to the end. -/
theorem insert_of_new (h : k ∉ m.keys) (value : α) :
    m.insert k value = ⟨m.entries ++ [(k, value)]⟩ := by
  obtain ⟨entries⟩ := m
  unfold insert
  congr 1
  unfold keys at h
  induction entries with
  | nil => rfl
  | cons e rest ih =>
      rw [List.map_cons, List.mem_cons, not_or] at h
      unfold insertEntry
      rw [if_neg (Ne.symm h.1), ih h.2]
      rfl

theorem mem_keys_insert {k other : κ} {value : α} :
    other ∈ (m.insert k value).keys ↔ other = k ∨ other ∈ m.keys := by
  rw [keys_insert]
  by_cases hk : k ∈ m.keys
  · rw [if_pos hk]
    constructor
    · exact Or.inr
    · rintro (rfl | hother)
      · exact hk
      · exact hother
  · rw [if_neg hk, List.mem_append, List.mem_singleton, or_comm]

/-! ## Keys taken out -/

/-- The map without the entries of some keys. -/
def without (m : OrderedMap κ α) (ks : List κ) : OrderedMap κ α :=
  ⟨m.entries.filter fun e => e.1 ∉ ks⟩

@[simp] theorem without_nil (m : OrderedMap κ α) : m.without [] = m := by
  unfold without
  simp

theorem without_erase (m : OrderedMap κ α) (k : κ) (ks : List κ) :
    (m.erase k).without ks = m.without (k :: ks) := by
  unfold without erase
  rw [List.filter_filter]
  congr 1
  apply List.filter_congr
  intro e _
  simp [Bool.and_comm]

theorem keys_without (m : OrderedMap κ α) (ks : List κ) :
    (m.without ks).keys = m.keys.filter fun k => k ∉ ks := by
  unfold keys without
  rw [List.filter_map]
  rfl

theorem mem_keys_without {ks : List κ} : k ∈ (m.without ks).keys ↔ k ∈ m.keys ∧ k ∉ ks := by
  rw [keys_without, List.mem_filter, decide_eq_true_eq]

theorem mem_keys_erase {other : κ} : other ∈ (m.erase k).keys ↔ other ∈ m.keys ∧ other ≠ k := by
  rw [← without_nil (m.erase k), without_erase, mem_keys_without, List.mem_singleton]

/-! ## Entries -/

theorem mem_of_find? {value : α} (h : m.find? k = some value) : (k, value) ∈ m.entries := by
  obtain ⟨e, hfound, rfl⟩ := Option.map_eq_some_iff.mp h
  have hkey : e.1 = k := by simpa using List.find?_some hfound
  rw [← hkey]
  exact List.mem_of_find?_eq_some hfound

/-- In a map with one entry for each key, an entry is what its key finds. -/
theorem find?_of_mem (hnodup : m.keys.Nodup) {e : κ × α} (h : e ∈ m.entries) :
    m.find? e.1 = some e.2 := by
  have hfound : m.entries.find? (·.1 = e.1) = some e := find?_key hnodup h
  unfold find?
  rw [hfound]
  rfl

/-! ## Sums over the values -/

theorem nodup_keys_erase (h : m.keys.Nodup) (k : κ) : (m.erase k).keys.Nodup := by
  rw [← without_nil (m.erase k), without_erase, keys_without]
  exact h.filter _

/-- An entry taken out comes off the sum. -/
theorem sum_values_erase (f : α → Nat) (hnodup : m.keys.Nodup) {value : α}
    (h : m.find? k = some value) :
    (m.values.map f).sum = f value + ((m.erase k).values.map f).sum := by
  obtain ⟨entries⟩ := m
  unfold find? at h
  unfold keys at hnodup
  unfold values erase
  dsimp only at h hnodup ⊢
  induction entries with
  | nil => cases h
  | cons e rest ih =>
      rw [List.map_cons, List.nodup_cons] at hnodup
      rw [List.find?_cons] at h
      by_cases he : e.1 = k
      · -- the other entries have other keys
        have hothers : rest.filter (fun e => ¬e.1 = k) = rest := by
          rw [List.filter_eq_self]
          intro other hother
          refine decide_eq_true ?_
          rintro rfl
          exact hnodup.1 (he ▸ List.mem_map_of_mem hother)
        have hvalue : e.2 = value := by simpa [he] using h
        rw [List.filter_cons_of_neg (by simpa using he), hothers, ← hvalue]
        rfl
      · have hrest := ih hnodup.2 (by simpa [he] using h)
        rw [List.filter_cons_of_pos (by simpa using he)]
        simp only [List.map_cons, List.sum_cons] at hrest ⊢
        omega

/-- Entries taken out come off the sum. -/
theorem sum_values_without (f : α → Nat) {ks : List κ} (hnodup : m.keys.Nodup) (hks : ks.Nodup)
    (hknown : ∀ k ∈ ks, k ∈ m.keys) :
    (m.values.map f).sum
      = (ks.map fun k => ((m.find? k).map f).getD 0).sum + ((m.without ks).values.map f).sum := by
  induction ks generalizing m with
  | nil => simp
  | cons k rest ih =>
      rw [List.nodup_cons] at hks
      rw [List.forall_mem_cons] at hknown
      obtain ⟨value, hvalue⟩ : ∃ value, m.find? k = some value := by
        rw [← Option.ne_none_iff_exists', Ne, find?_eq_none_iff, not_not]
        exact hknown.1
      have hne : ∀ other ∈ rest, other ≠ k := by
        rintro other hother rfl
        exact hks.1 hother
      have hrest := ih (nodup_keys_erase hnodup k) hks.2 fun other hother =>
        mem_keys_erase.mpr ⟨hknown.2 other hother, hne other hother⟩
      -- what the others find is still there
      have hsame : rest.map (fun other => (((m.erase k).find? other).map f).getD 0)
          = rest.map fun other => ((m.find? other).map f).getD 0 := by
        apply List.map_congr_left
        intro other hother
        rw [find?_erase, if_neg (hne other hother)]
      rw [hsame, without_erase] at hrest
      rw [sum_values_erase f hnodup hvalue, hrest, List.map_cons, List.sum_cons, hvalue]
      show _ = f value + _ + _
      omega

/-! ## Maps made from a list -/

theorem ofList_concat (pairs : List (κ × α)) (e : κ × α) :
    ofList (pairs ++ [e]) = (ofList pairs).insert e.1 e.2 := by
  unfold ofList
  rw [List.foldl_append]
  rfl

/-- A key has the value of the last item that has the key. -/
theorem find?_ofList_map (items : List σ) (key : σ → κ) (value : σ → α) (k : κ) :
    (ofList (items.map fun s => (key s, value s))).find? k
      = (items.reverse.find? (key · = k)).map value := by
  induction items using List.reverseRecOn with
  | nil => rfl
  | append_singleton items s ih =>
      rw [List.map_append, List.map_singleton, ofList_concat, find?_insert, ih,
        List.reverse_append, List.reverse_singleton, List.singleton_append, List.find?_cons]
      by_cases hk : key s = k
      · simp [hk]
      · simp [hk, Ne.symm hk]

/-- A map made from a list has one entry for each key. -/
theorem nodup_keys_ofList (pairs : List (κ × α)) : (ofList pairs).keys.Nodup := by
  induction pairs using List.reverseRecOn with
  | nil => exact List.nodup_nil
  | append_singleton pairs e ih =>
      rw [ofList_concat]
      exact nodup_keys_insert ih e.1 e.2

end NotaryPool.OrderedMap
