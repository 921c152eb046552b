/-!
# Maps in the order of insertion

A list of pairs with at most one entry a key. New keys go to the end; a key that is there keeps
its place.

* `OrderedMap.find?`, `OrderedMap.contains`, `OrderedMap.keys`, `OrderedMap.values`;
* `OrderedMap.insert`, `OrderedMap.erase`: the entries left alone keep their order.
-/

namespace NotaryPool

/-- Pairs of a key and a value in the order in which the keys came. -/
structure OrderedMap (κ α : Type) where
  entries : List (κ × α)
deriving DecidableEq

namespace OrderedMap

variable {κ α : Type} [DecidableEq κ]

/-- The map without entries. -/
def empty : OrderedMap κ α := ⟨[]⟩

instance : Inhabited (OrderedMap κ α) := ⟨empty⟩

/-- The value of a key. -/
def find? (m : OrderedMap κ α) (key : κ) : Option α :=
  (m.entries.find? (·.1 = key)).map (·.2)

/-- Whether a key has a value. -/
def contains (m : OrderedMap κ α) (key : κ) : Bool := m.entries.any (·.1 = key)

/-- The keys, in their order. -/
def keys (m : OrderedMap κ α) : List κ := m.entries.map (·.1)

/-- The values, in the order of the keys. -/
def values (m : OrderedMap κ α) : List α := m.entries.map (·.2)

/-- Puts a pair at the place of its key, or at the end. -/
def insertEntry (key : κ) (value : α) : List (κ × α) → List (κ × α)
  | [] => [(key, value)]
  | e :: rest => if e.1 = key then (key, value) :: rest else e :: insertEntry key value rest

/-- Gives a key a value. -/
def insert (m : OrderedMap κ α) (key : κ) (value : α) : OrderedMap κ α :=
  ⟨insertEntry key value m.entries⟩

/-- Takes a key out. -/
def erase (m : OrderedMap κ α) (key : κ) : OrderedMap κ α :=
  ⟨m.entries.filter fun e => ¬e.1 = key⟩

/-- Pairs inserted one after the other. -/
def ofList (pairs : List (κ × α)) : OrderedMap κ α :=
  pairs.foldl (fun m e => m.insert e.1 e.2) empty

theorem find?_insert (m : OrderedMap κ α) (key other : κ) (value : α) :
    (m.insert key value).find? other = if other = key then some value else m.find? other := by
  obtain ⟨entries⟩ := m
  simp only [find?, insert]
  induction entries with
  | nil => by_cases h : other = key <;> simp [insertEntry, h, eq_comm]
  | cons e rest ih =>
    by_cases he : e.1 = key
    · by_cases h : other = key
      · simp [insertEntry, he, h]
      · simp [insertEntry, he, h, eq_comm]
    · by_cases ho : e.1 = other
      · have : other ≠ key := ho ▸ he
        simp [insertEntry, ho, this]
      · simpa [insertEntry, he, ho] using ih

theorem find?_erase (m : OrderedMap κ α) (key other : κ) :
    (m.erase key).find? other = if other = key then none else m.find? other := by
  obtain ⟨entries⟩ := m
  simp only [find?, erase]
  induction entries with
  | nil => simp
  | cons e rest ih =>
    by_cases he : e.1 = key
    · rw [List.filter_cons_of_neg (by simpa using he), ih]
      by_cases h : other = key
      · simp [h]
      · simp [h, he, Ne.symm h]
    · rw [List.filter_cons_of_pos (by simpa using he)]
      by_cases ho : e.1 = other
      · have : other ≠ key := ho ▸ he
        simp [ho, this]
      · simpa [ho] using ih

/-! ## Entries -/

theorem mem_insertEntry {key : κ} {value : α} {entries : List (κ × α)} {e : κ × α}
    (h : e ∈ insertEntry key value entries) : e = (key, value) ∨ e ∈ entries := by
  induction entries with
  | nil => exact Or.inl (List.mem_singleton.mp h)
  | cons first rest ih =>
    unfold insertEntry at h
    split at h
    · rcases List.mem_cons.mp h with heq | hrest
      · exact Or.inl heq
      · exact Or.inr (List.mem_cons_of_mem first hrest)
    · rcases List.mem_cons.mp h with heq | hrest
      · exact Or.inr (heq ▸ List.mem_cons_self)
      · exact (ih hrest).imp_right (List.mem_cons_of_mem first)

theorem mem_foldl_insert {pairs : List (κ × α)} {m : OrderedMap κ α} {e : κ × α}
    (h : e ∈ (pairs.foldl (fun m e => m.insert e.1 e.2) m).entries) :
    e ∈ m.entries ∨ e ∈ pairs := by
  induction pairs generalizing m with
  | nil => exact Or.inl h
  | cons first rest ih =>
    rcases ih h with hinsert | hrest
    · rcases mem_insertEntry hinsert with heq | hold
      · exact Or.inr (heq ▸ List.mem_cons_self)
      · exact Or.inl hold
    · exact Or.inr (List.mem_cons_of_mem first hrest)

/-- A map made from pairs has no other entries. -/
theorem mem_ofList {pairs : List (κ × α)} {e : κ × α} (h : e ∈ (ofList pairs).entries) :
    e ∈ pairs := by
  rcases mem_foldl_insert h with hnone | hpair
  · cases hnone
  · exact hpair

end OrderedMap

end NotaryPool
