import Mathlib.Data.List.Forall2
import Mathlib.Data.List.Nodup

/-!
# Lists, member by member

Addresses, entries and transactions are made one after the other, and the first failure ends the
making. It goes well just when it goes well for each member. Slots and entries of a map are looked
up by a key that no two of them share.

## Contents

* `Except.bind_eq_ok_iff`, `Except.bind_eq_error_iff`, `Except.of_guard`: a step that went well, one
  that did not, a check that did not object.
* `Except.mapError_eq_ok_iff`, `Except.map_eq_ok_iff`, and for errors: results that are renamed.
* `mapM_eq_ok_iff`, `mapM_eq_error_iff`: **what is made, member by member**, and the first failure.
* `exists_forall₂`, `exists_of_forall₂`: from the members to the list, and back.
* `joinM`, `exists_of_joinM`, `nodup_flatMap_of_key`: what the members give, joined.
* `find?_key`: a member is found by its key.
* `map_modify_eq`: one member is changed in a part that is not looked at.
* `forM_eq_ok_iff`: a check of each member.
-/

namespace NotaryPool

variable {ε α β : Type}

theorem Except.ok_bind (a : α) (f : α → Except ε β) : (Except.ok a >>= f) = f a := rfl

theorem Except.bind_eq_ok_iff {x : Except ε α} {f : α → Except ε β} {b : β} :
    (x >>= f) = .ok b ↔ ∃ a, x = .ok a ∧ f a = .ok b := by
  cases x with
  | error e =>
      constructor
      · intro h
        cases h
      · rintro ⟨a, h, -⟩
        cases h
  | ok a =>
      rw [Except.ok_bind]
      constructor
      · intro h
        exact ⟨a, rfl, h⟩
      · rintro ⟨a', h, hf⟩
        cases h
        exact hf

theorem Except.bind_eq_error_iff {x : Except ε α} {f : α → Except ε β} {e : ε} :
    (x >>= f) = .error e ↔ x = .error e ∨ ∃ a, x = .ok a ∧ f a = .error e := by
  cases x with
  | error e' =>
      constructor
      · intro h
        cases h
        exact Or.inl rfl
      · rintro (h | ⟨a, h, -⟩)
        · cases h
          rfl
        · cases h
  | ok a =>
      rw [Except.ok_bind]
      constructor
      · exact fun h => Or.inr ⟨a, rfl, h⟩
      · rintro (h | ⟨a', h, hf⟩)
        · cases h
        · cases h
          exact hf

theorem Except.of_guard {c : Prop} [Decidable c] {e : ε} {next : Unit → Except ε α} {a : α}
    (h : (if c then throw e >>= next else next ()) = .ok a) : ¬ c ∧ next () = .ok a := by
  by_cases hc : c
  · rw [if_pos hc] at h
    cases h
  · rw [if_neg hc] at h
    exact ⟨hc, h⟩

theorem Except.mapError_eq_ok_iff {ε' : Type} {x : Except ε α} {f : ε → ε'} {a : α} :
    x.mapError f = .ok a ↔ x = .ok a := by
  cases x with
  | error e =>
      constructor
      · intro h
        cases h
      · intro h
        cases h
  | ok a' =>
      constructor
      · intro h
        cases h
        rfl
      · intro h
        cases h
        rfl

theorem Except.mapError_eq_error_iff {ε' : Type} {x : Except ε α} {f : ε → ε'} {e' : ε'} :
    x.mapError f = .error e' ↔ ∃ e, x = .error e ∧ f e = e' := by
  cases x with
  | error e =>
      constructor
      · intro h
        cases h
        exact ⟨e, rfl, rfl⟩
      · rintro ⟨_, h, rfl⟩
        cases h
        rfl
  | ok a =>
      constructor
      · intro h
        cases h
      · rintro ⟨_, h, -⟩
        cases h

theorem Except.map_eq_ok_iff {x : Except ε α} {f : α → β} {b : β} :
    x.map f = .ok b ↔ ∃ a, x = .ok a ∧ f a = b := by
  cases x with
  | error e =>
      constructor
      · intro h
        cases h
      · rintro ⟨a, h, -⟩
        cases h
  | ok a =>
      constructor
      · intro h
        cases h
        exact ⟨a, rfl, rfl⟩
      · rintro ⟨a', h, rfl⟩
        cases h
        rfl

theorem Except.map_eq_error_iff {x : Except ε α} {f : α → β} {e : ε} :
    x.map f = .error e ↔ x = .error e := by
  cases x with
  | error e' =>
      constructor
      · intro h
        cases h
        rfl
      · intro h
        cases h
        rfl
  | ok a =>
      constructor
      · intro h
        cases h
      · intro h
        cases h

theorem mapM_eq_ok_iff {f : α → Except ε β} {as : List α} {bs : List β} :
    as.mapM f = .ok bs ↔ List.Forall₂ (fun a b => f a = .ok b) as bs := by
  induction as generalizing bs with
  | nil =>
      rw [List.mapM_nil, List.forall₂_nil_left_iff]
      constructor
      · intro h
        cases h
        rfl
      · rintro rfl
        rfl
  | cons a rest ih =>
      rw [List.mapM_cons, Except.bind_eq_ok_iff, List.forall₂_cons_left_iff]
      constructor
      · rintro ⟨b, hb, h⟩
        obtain ⟨others, hothers, h⟩ := Except.bind_eq_ok_iff.mp h
        cases h
        exact ⟨b, others, hb, ih.mp hothers, rfl⟩
      · rintro ⟨b, others, hb, hothers, rfl⟩
        refine ⟨b, hb, ?_⟩
        rw [ih.mpr hothers]
        rfl

/-- The making fails as it does for the first member for which it fails. -/
theorem mapM_eq_error_iff {f : α → Except ε β} {as : List α} {e : ε} :
    as.mapM f = .error e ↔ ∃ (no : Nat) (a : α), as[no]? = some a ∧ f a = .error e
      ∧ ∀ (earlier : Nat) (a' : α), earlier < no → as[earlier]? = some a' →
          ∃ b, f a' = .ok b := by
  induction as with
  | nil =>
      refine iff_of_false (fun h => by cases h) ?_
      rintro ⟨no, a, ha, -⟩
      simp at ha
  | cons a rest ih =>
      rw [List.mapM_cons, Except.bind_eq_error_iff]
      constructor
      · rintro (hfirst | ⟨b, hfirst, h⟩)
        · exact ⟨0, a, rfl, hfirst, fun earlier a' hless => absurd hless (Nat.not_lt_zero _)⟩
        · rcases Except.bind_eq_error_iff.mp h with hrest | ⟨others, -, h⟩
          · obtain ⟨no, a', ha', herror, hbefore⟩ := ih.mp hrest
            refine ⟨no + 1, a', ha', herror, ?_⟩
            intro earlier a'' hless ha''
            cases earlier with
            | zero =>
                cases ha''
                exact ⟨b, hfirst⟩
            | succ earlier => exact hbefore earlier a'' (Nat.lt_of_succ_lt_succ hless) ha''
          · cases h
      · rintro ⟨no, a', ha', herror, hbefore⟩
        cases no with
        | zero =>
            cases ha'
            exact Or.inl herror
        | succ no =>
            obtain ⟨b, hfirst⟩ := hbefore 0 a (Nat.succ_pos no) rfl
            have hrest : rest.mapM f = .error e := by
              refine ih.mpr ⟨no, a', ha', herror, ?_⟩
              intro earlier a'' hless ha''
              exact hbefore (earlier + 1) a'' (Nat.succ_lt_succ hless) ha''
            exact Or.inr ⟨b, hfirst, Except.bind_eq_error_iff.mpr (Or.inl hrest)⟩

/-- What there is for each member makes a list. -/
theorem exists_forall₂ {R : α → β → Prop} {as : List α} (h : ∀ a ∈ as, ∃ b, R a b) :
    ∃ bs, List.Forall₂ R as bs := by
  induction as with
  | nil => exact ⟨[], .nil⟩
  | cons a rest ih =>
      obtain ⟨b, hb⟩ := h a List.mem_cons_self
      obtain ⟨bs, hbs⟩ := ih fun a' ha' => h a' (List.mem_cons_of_mem a ha')
      exact ⟨b :: bs, .cons hb hbs⟩

/-- The making goes well if it does for each member. -/
theorem exists_mapM_iff {f : α → Except ε β} {as : List α} :
    (∃ bs, as.mapM f = .ok bs) ↔ ∀ a ∈ as, ∃ b, f a = .ok b := by
  constructor
  · rintro ⟨bs, h⟩ a ha
    obtain ⟨no, hno, rfl⟩ := List.getElem_of_mem ha
    have hall := mapM_eq_ok_iff.mp h
    exact ⟨_, hall.get hno (hall.length_eq ▸ hno)⟩
  · intro h
    obtain ⟨bs, hbs⟩ := exists_forall₂ h
    exact ⟨bs, mapM_eq_ok_iff.mpr hbs⟩

/-- The first failure, where the making also sees the place of a member. -/
theorem mapM_zipIdx_eq_error_iff {f : α × Nat → Except ε β} {as : List α} {e : ε} :
    as.zipIdx.mapM f = .error e ↔ ∃ (no : Nat) (a : α), as[no]? = some a ∧ f (a, no) = .error e
      ∧ ∀ (earlier : Nat) (a' : α), earlier < no → as[earlier]? = some a' →
          ∃ b, f (a', earlier) = .ok b := by
  simp only [mapM_eq_error_iff, List.getElem?_zipIdx, Option.map_eq_some_iff, Nat.zero_add]
  constructor
  · rintro ⟨no, -, ⟨a, ha, rfl⟩, herror, hbefore⟩
    exact ⟨no, a, ha, herror, fun earlier a' hless ha' => hbefore earlier _ hless ⟨a', ha', rfl⟩⟩
  · rintro ⟨no, a, ha, herror, hbefore⟩
    refine ⟨no, (a, no), ⟨a, ha, rfl⟩, herror, ?_⟩
    rintro earlier - hless ⟨a', ha', rfl⟩
    exact hbefore earlier a' hless ha'

theorem exists_mapM_zipIdx_iff {f : α × Nat → Except ε β} {as : List α} :
    (∃ bs, as.zipIdx.mapM f = .ok bs)
      ↔ ∀ (no : Nat) (a : α), as[no]? = some a → ∃ b, f (a, no) = .ok b := by
  rw [exists_mapM_iff]
  constructor
  · exact fun h no a ha => h (a, no) (List.mem_zipIdx_iff_getElem?.mpr ha)
  · exact fun h x hx => h x.2 x.1 (List.mem_zipIdx_iff_getElem?.mp hx)

theorem exists_of_forall₂ {R : α → β → Prop} {as : List α} {bs : List β}
    (h : List.Forall₂ R as bs) {b : β} (hb : b ∈ bs) : ∃ a ∈ as, R a b := by
  induction h with
  | nil => cases hb
  | @cons a b' as bs hfirst _ ih =>
      rcases List.mem_cons.mp hb with rfl | hrest
      · exact ⟨a, List.mem_cons_self, hfirst⟩
      · obtain ⟨a', ha', hab⟩ := ih hrest
        exact ⟨a', List.mem_cons_of_mem a ha', hab⟩

/-! ## Joining what each member gives -/

/-- What the members give one after the other, joined. -/
def joinM (f : α → Except ε (List β)) (as : List α) : Except ε (List β) :=
  (as.mapM f).map List.flatten

theorem joinM_cons (f : α → Except ε (List β)) (a : α) (rest : List α) :
    joinM f (a :: rest)
      = match f a with
        | .error e => .error e
        | .ok part => (joinM f rest).map (part ++ ·) := by
  unfold joinM
  rw [List.mapM_cons]
  cases f a with
  | error e => rfl
  | ok part =>
      rw [Except.ok_bind]
      cases rest.mapM f with
      | error e => rfl
      | ok parts => rfl

/-- Where no member fails, all that they give is joined. -/
theorem joinM_eq_flatMap {f : α → Except ε (List β)} {g : α → List β} {as : List α}
    (h : ∀ a ∈ as, f a = .ok (g a)) : joinM f as = .ok (as.flatMap g) := by
  induction as with
  | nil => rfl
  | cons a rest ih =>
      obtain ⟨hfirst, hrest⟩ := List.forall_mem_cons.mp h
      rw [joinM_cons, hfirst, ih hrest]
      rfl

/-- What is joined was given by some member. -/
theorem exists_of_joinM {f : α → Except ε (List β)} {as : List α} {found : List β}
    (h : joinM f as = .ok found) {b : β} (hb : b ∈ found) :
    ∃ a ∈ as, ∃ part, f a = .ok part ∧ b ∈ part := by
  unfold joinM at h
  cases hparts : as.mapM f with
  | error e =>
      rw [hparts] at h
      cases h
  | ok parts =>
      rw [hparts] at h
      cases h
      obtain ⟨part, hpart, hmem⟩ := List.mem_flatten.mp hb
      obtain ⟨a, ha, hfa⟩ := exists_of_forall₂ (mapM_eq_ok_iff.mp hparts) hpart
      exact ⟨a, ha, part, hfa, hmem⟩

/-- The members give no thing twice, if what a member gives is marked with its key. -/
theorem nodup_flatMap_of_key {κ : Type} {f : α → List β} (key : α → κ) (mark : β → κ) {as : List α}
    (hkeys : (as.map key).Nodup) (hmark : ∀ a ∈ as, ∀ b ∈ f a, mark b = key a)
    (hparts : ∀ a ∈ as, (f a).Nodup) : (as.flatMap f).Nodup := by
  refine List.nodup_flatMap.mpr ⟨hparts, (List.pairwise_map.mp hkeys).imp_of_mem ?_⟩
  intro a a' ha ha' hkey b hb hb'
  exact hkey ((hmark a ha b hb).symm.trans (hmark a' ha' b hb'))

/-! ## Single members -/

/-- A member is found by its key when no two members share one. -/
theorem find?_key {κ : Type} [DecidableEq κ] {key : α → κ} {as : List α}
    (hnodup : (as.map key).Nodup) {a : α} (ha : a ∈ as) :
    as.find? (key · = key a) = some a := by
  cases hfound : as.find? (key · = key a) with
  | none => exact absurd (decide_eq_true rfl) (List.find?_eq_none.mp hfound a ha)
  | some other =>
      have hkey : key other = key a := by simpa using List.find?_some hfound
      rw [List.inj_on_of_nodup_map hnodup (List.mem_of_find?_eq_some hfound) ha hkey]

/-- What a change of one member leaves alone is the same for all members. -/
theorem map_modify_eq {f : α → β} {g : α → α} (h : ∀ a, f (g a) = f a) (as : List α)
    (position : Nat) : (as.modify position g).map f = as.map f := by
  apply List.ext_getElem?
  intro no
  simp only [List.getElem?_map, List.getElem?_modify]
  cases as[no]? with
  | none => rfl
  | some a =>
      by_cases hno : position = no
      · simp [hno, h]
      · simp [hno]

theorem forM_eq_ok_iff {check : α → Except ε Unit} {as : List α} :
    as.forM check = .ok () ↔ ∀ a ∈ as, check a = .ok () := by
  induction as with
  | nil => exact iff_of_true rfl (by simp)
  | cons a rest ih =>
      show (check a >>= fun _ => rest.forM check) = .ok () ↔ _
      rw [Except.bind_eq_ok_iff, List.forall_mem_cons]
      constructor
      · rintro ⟨⟨⟩, hfirst, hrest⟩
        exact ⟨hfirst, ih.mp hrest⟩
      · rintro ⟨hfirst, hrest⟩
        exact ⟨(), hfirst, ih.mpr hrest⟩

end NotaryPool
