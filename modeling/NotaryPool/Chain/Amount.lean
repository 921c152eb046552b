import NotaryPool.Arithmetic

/-!
# Amounts

Amounts are natural numbers of the smallest unit. They are stored in eight bytes, and sums of them
stay within what fits there.

* `Amount.largest`: the largest amount that can be stored;
* `Amount.total`: the sum of amounts, or the largest amount if that is less.
-/

namespace NotaryPool.Amount

/-- The largest amount that can be stored. -/
def largest : Nat := 2 ^ 64 - 1

/-- The sum of amounts. One that cannot be stored counts as the largest amount. -/
def total (amounts : List Nat) : Nat := min amounts.sum largest

@[simp] theorem total_nil : total [] = 0 := rfl

theorem total_eq_sum {amounts : List Nat} (h : amounts.sum ≤ largest) :
    total amounts = amounts.sum :=
  Nat.min_eq_left h

theorem total_le_sum (amounts : List Nat) : total amounts ≤ amounts.sum := Nat.min_le_left ..

theorem total_le_largest (amounts : List Nat) : total amounts ≤ largest := Nat.min_le_right ..

/-- Adding amounts one by one, and stopping at the largest amount each time, gives the total. -/
theorem total_cons (amount : Nat) (amounts : List Nat) :
    total (amount :: amounts) = min (amount + total amounts) largest := by
  simp only [total, List.sum_cons]
  omega

end NotaryPool.Amount
