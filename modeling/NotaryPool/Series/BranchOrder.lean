import NotaryPool.Series.Number

/-!
# The order of keys on a branch

Each branch lists the keys of a series in an order of its own. The redeem script and the
signatures for it both use this order.

* `branchOrder`: branch zero reverses the keys, branch `b` moves key `b` to the front;
* `BranchError`: there are no keys, or not as many.
-/

namespace NotaryPool

/-- Why keys have no order on a branch. -/
inductive BranchError where
  | noKeys
  | outOfRange (branch : Branch) (keys : Nat)
deriving DecidableEq, Repr

/-- The name of an error. -/
def BranchError.name : BranchError → String
  | .noKeys => "NoKeys"
  | .outOfRange _ _ => "OutOfRange"

/-- The text of an error. -/
def BranchError.message : BranchError → String
  | .noKeys => "unable to order an empty list of keys."
  | .outOfRange branch keys =>
    s!"branch {branch} is out of range for a series with {keys} keys."

/-- Moves the member at a position to the front. -/
def moveToFront {α : Type} (keys : List α) (position : Nat) : List α :=
  match keys[position]? with
  | some key => key :: keys.eraseIdx position
  | none => keys

/-- The keys in the order of a branch. -/
def branchOrder {α : Type} (keys : List α) (branch : Branch) : Except BranchError (List α) :=
  if keys.isEmpty then .error .noKeys
  else if branch.isChange then .ok keys.reverse
  else if keys.length < branch.val.toNat then .error (.outOfRange branch keys.length)
  else .ok (moveToFront keys (branch.val.toNat - 1))

end NotaryPool
