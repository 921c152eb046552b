import NotaryPool.Series.Number

/-!
# Entries by number of series

* `Catalog`: entries in increasing order of the numbers of their series;
* `Catalog.find?`, `Catalog.insert`, `Catalog.ids`.
-/

namespace NotaryPool

/-- Entries in increasing order of the numbers of their series. -/
abbrev Catalog (α : Type) := List (SeriesId × α)

namespace Catalog

variable {α : Type}

/-- The entry of a series. -/
def find? : Catalog α → SeriesId → Option α
  | [], _ => none
  | e :: rest, id => if e.1 = id then some e.2 else find? rest id

/-- Gives a series an entry, in the place of the one it had. -/
def insert (id : SeriesId) (entry : α) : Catalog α → Catalog α
  | [] => [(id, entry)]
  | e :: rest =>
    if e.1 = id then (id, entry) :: rest
    else if id.val < e.1.val then (id, entry) :: e :: rest
    else e :: insert id entry rest

/-- The numbers of the series that have an entry. -/
def ids (c : Catalog α) : List SeriesId := c.map (·.1)

theorem find?_insert (c : Catalog α) (id other : SeriesId) (entry : α) :
    find? (insert id entry c) other = if other = id then some entry else find? c other := by
  induction c with
  | nil => simp [insert, find?, eq_comm]
  | cons e rest ih =>
    by_cases he : e.1 = id
    · by_cases h : other = id
      · simp [insert, find?, he, h]
      · simp [insert, find?, he, h, Ne.symm h]
    · by_cases hlt : id.val < e.1.val
      · by_cases h : other = id
        · simp [insert, find?, he, hlt, h]
        · simp [insert, find?, he, hlt, h, Ne.symm h]
      · simp only [insert, he, hlt, if_false, find?, ih]
        by_cases ho : e.1 = other
        · have : other ≠ id := ho ▸ he
          simp [ho, this]
        · simp [ho]

end Catalog

end NotaryPool
