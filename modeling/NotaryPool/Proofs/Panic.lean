import NotaryPool.Panic

/-!
# Computations that may panic

What is proved about the program is proved of its operations on natural numbers. An operation with
panics follows such an exact one if it gives the same result, an error included, unless a number of
it has no place in its word. To follow is kept when computations are put together, so that it has to
be shown only where a number is computed, something is asserted or a list is read by position.

## Contents

* `Word.fit_of_lt`, `Word.fit_of_le`: when a number has a place in a word.
* `Stop.Follows`: the same result, or an overflow.
* `Stop.Follows.step`, `Stop.Follows.bind`: computations one after the other.
* `Stop.Ends`, `Stop.Follows.eq_lift`: computations that do not panic.
-/

namespace NotaryPool

variable {ε δ α β : Type}

/-! ## Words -/

namespace Word

theorem fit_of_lt {bits n : Nat} (h : n < 2 ^ bits) :
    (fit bits n : Except (Stop ε) Nat) = .ok n :=
  if_pos h

theorem fit_of_le {bits n : Nat} (h : 2 ^ bits ≤ n) :
    (fit bits n : Except (Stop ε) Nat) = .error (.panic .overflow) :=
  if_neg (Nat.not_lt_of_le h)

theorem sub_of_le {a b : Nat} (h : b ≤ a) : (sub a b : Except (Stop ε) Nat) = .ok (a - b) :=
  if_pos h

end Word

/-! ## Following -/

namespace Stop

/-- A computation gives the result of another one, or some number has no place in its word. -/
inductive Follows : Except (Stop ε) α → Except ε α → Prop
  | same (result : Except ε α) : Follows (lift result) result
  | overflows (result : Except ε α) : Follows (.error (.panic .overflow)) result

/-- A computation does not panic: it ends with a result or with an error. -/
def Ends (result : Except (Stop ε) α) : Prop := ∀ cause, result ≠ .error (.panic cause)

theorem Ends.of_ok {result : Except (Stop ε) α} {a : α} (h : result = .ok a) : Ends result := by
  rintro cause rfl
  cases h

/-- Where two computations end, one after the other, the first one does. -/
theorem Ends.of_bind {first : Except (Stop ε) α} {next : α → Except (Stop ε) β}
    (h : Ends (first >>= next)) : Ends first := by
  rintro cause rfl
  exact h cause rfl

theorem Ends.of_mapError {result : Except (Stop ε) α} {f : ε → δ}
    (h : Ends (result.mapError (.map f))) : Ends result := by
  rintro cause rfl
  exact h cause rfl

/-- A difference that does not panic is one of a number that is no less. -/
theorem Ends.le_of_sub {a b : Nat} (h : Ends (Word.sub a b : Except (Stop ε) Nat)) : b ≤ a := by
  rcases Nat.lt_or_ge a b with hless | hle
  · exact absurd (if_neg (Nat.not_le_of_lt hless)) (h .overflow)
  · exact hle

namespace Follows

theorem ok (a : α) : Follows (.ok a : Except (Stop ε) α) (.ok a) := .same (.ok a)

theorem error (e : ε) : Follows (.error (.error e) : Except (Stop ε) α) (.error e) :=
  .same (.error e)

/-- **What is given is what the exact computation gives.** -/
theorem eq_of_ok {checked : Except (Stop ε) α} {exact : Except ε α} (h : Follows checked exact)
    {a : α} (hok : checked = .ok a) : exact = .ok a := by
  cases h with
  | same =>
      cases exact with
      | ok b =>
          cases hok
          rfl
      | error e => cases hok
  | overflows => cases hok

/-- No assertion fails, and nothing is read behind the end of a list. -/
theorem cause_eq {checked : Except (Stop ε) α} {exact : Except ε α} (h : Follows checked exact)
    {cause : Panic} (hpanic : checked = .error (.panic cause)) : cause = .overflow := by
  cases h with
  | same => cases exact <;> cases hpanic
  | overflows =>
      cases hpanic
      rfl

theorem eq_of_error {checked : Except (Stop ε) α} {exact : Except ε α} (h : Follows checked exact)
    {e : ε} (herror : checked = .error (.error e)) : exact = .error e := by
  cases h with
  | same =>
      cases exact with
      | ok b => cases herror
      | error e =>
          cases herror
          rfl
  | overflows => cases herror

/-- Two computations, one after the other: the second one is made if the first one gives a result,
and an error of the first one is renamed. -/
theorem bind_mapError {checked : Except (Stop ε) α} {exact : Except ε α} (f : ε → δ)
    {next : α → Except (Stop δ) β} {result : Except δ β} (h : Follows checked exact)
    (herror : ∀ e, exact = .error e → result = .error (f e))
    (hok : ∀ a, exact = .ok a → Follows (next a) result) :
    Follows (checked.mapError (.map f) >>= next) result := by
  cases h with
  | same =>
      cases exact with
      | ok a => exact hok a rfl
      | error e =>
          rw [herror e rfl]
          exact .error (f e)
  | overflows => exact .overflows result

theorem bind {checked : Except (Stop ε) α} {exact : Except ε α}
    {next : α → Except (Stop ε) β} {result : Except ε β} (h : Follows checked exact)
    (herror : ∀ e, exact = .error e → result = .error e)
    (hok : ∀ a, exact = .ok a → Follows (next a) result) :
    Follows (checked >>= next) result := by
  cases h with
  | same =>
      cases exact with
      | ok a => exact hok a rfl
      | error e =>
          rw [herror e rfl]
          exact .error e
  | overflows => exact .overflows result

/-- A number is computed first. -/
theorem step {checked : Except (Stop ε) α} {a : α} {next : α → Except (Stop ε) β}
    {result : Except ε β} (h : Follows checked (.ok a)) (hnext : Follows (next a) result) :
    Follows (checked >>= next) result := by
  cases h with
  | same => exact hnext
  | overflows => exact .overflows result

theorem map {checked : Except (Stop ε) α} {a : α} (f : α → β) (h : Follows checked (.ok a)) :
    Follows (do return f (← checked)) (.ok (f a)) :=
  h.step (.ok (f a))

theorem mapError {checked : Except (Stop ε) α} {exact : Except ε α} (f : ε → δ)
    (h : Follows checked exact) : Follows (checked.mapError (.map f)) (exact.mapError f) := by
  cases h with
  | same =>
      cases exact with
      | ok a => exact .ok a
      | error e => exact .error (f e)
  | overflows => exact .overflows _

/-- A computation that ends is what it follows. -/
theorem eq_lift {checked : Except (Stop ε) α} {exact : Except ε α} (h : Follows checked exact)
    (hends : Ends checked) : checked = lift exact := by
  cases h with
  | same => rfl
  | overflows => exact absurd rfl (hends _)

/-- Where two computations end, one after the other, the second one begins with what the first one
follows. -/
theorem bind_eq {checked : Except (Stop ε) α} {a : α} {next : α → Except (Stop ε) β}
    (h : Follows checked (.ok a)) (hends : Ends (checked >>= next)) :
    checked = .ok a ∧ checked >>= next = next a := by
  have heq : checked = .ok a := h.eq_lift hends.of_bind
  exact ⟨heq, by rw [heq]; rfl⟩

theorem fit (bits n : Nat) : Follows (Word.fit bits n : Except (Stop ε) Nat) (.ok n) := by
  unfold Word.fit
  split
  · exact .ok n
  · exact .overflows _

theorem add (bits a b : Nat) : Follows (Word.add bits a b : Except (Stop ε) Nat) (.ok (a + b)) :=
  fit bits (a + b)

theorem sub (a b : Nat) : Follows (Word.sub a b : Except (Stop ε) Nat) (.ok (a - b)) := by
  unfold Word.sub
  split
  · exact .ok (a - b)
  · exact .overflows _

end Follows

end Stop

end NotaryPool
