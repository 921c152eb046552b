import NotaryPool.Proofs.Series.Members

/-!
# Addresses in succession

An address derives the one after it from the keys that it carries along, without the series. Going
on like this gives the addresses of the series at the indexes that follow, as far as public keys
have children there.

## Contents

* `Index.plus`: counting on from an index.
* `PoolAddress.advance`, `ChangeAddress.advance`: one address after the other.
* `PoolAddress.ofKeys_of_advance`: **each of them is the address of its index.**
* `KeyScheme.ChildrenOf`, `PoolAddress.advance_isOk_iff`, `PoolAddress.advance_hardened`: **how far
  this goes.**
* `SeriesBook.succession`: the addresses of a book.
-/

namespace NotaryPool

variable {K : KeyScheme}

/-! ## Counting on from an index -/

namespace Index

variable {i : Index} {n : Nat}

/-- The index after so many others, as long as these can be numbered. -/
def plus (i : Index) (n : Nat) : Index := ⟨i.val + UInt32.ofNat n⟩

theorem plus_zero (i : Index) : i.plus 0 = i := congrArg Index.mk (UInt32.add_zero i.val)

theorem plus_succ (i : Index) (n : Nat) : i.plus (n + 1) = ⟨(i.plus n).val + 1⟩ := by
  unfold plus
  rw [UInt32.ofNat_add, UInt32.add_assoc]
  rfl

theorem toNat_plus (h : i.val.toNat + n < 2 ^ 32) : (i.plus n).val.toNat = i.val.toNat + n := by
  unfold plus
  rw [UInt32.toNat_add, UInt32.toNat_ofNat_of_lt' (by change n < 2 ^ 32; omega),
    Nat.mod_eq_of_lt h]

theorem isUnhardened_iff : i.isUnhardened = true ↔ i.val.toNat < unhardenedCount := by
  unfold isUnhardened
  exact decide_eq_true_iff

/-- An index that public keys have children at is not the last number. -/
theorem next?_of_isUnhardened (h : i.isUnhardened = true) : i.next? = some ⟨i.val + 1⟩ := by
  unfold next?
  rw [if_neg]
  intro hlast
  rw [isUnhardened_iff, hlast] at h
  exact absurd h (by decide)

end Index

/-! ## One address after the other -/

/-- The address that so many steps from one address to the next lead to. -/
def PoolAddress.advance (K : KeyScheme) (a : PoolAddress) : Nat → Except DeriveError PoolAddress
  | 0 => .ok a
  | n + 1 =>
    match advance K a n with
    | .ok b => b.next K
    | .error e => .error e

/-- The change address that so many steps from one change address to the next lead to. -/
def ChangeAddress.advance (K : KeyScheme) (a : ChangeAddress) :
    Nat → Except DeriveError ChangeAddress
  | 0 => .ok a
  | n + 1 =>
    match advance K a n with
    | .ok b => b.next K
    | .error e => .error e

theorem ChangeAddress.advance_eq (a : ChangeAddress) (n : Nat) :
    a.advance K n = (a.address.advance K n).map .mk := by
  induction n with
  | zero => rfl
  | succ n ih =>
      unfold ChangeAddress.advance PoolAddress.advance
      rw [ih]
      cases a.address.advance K n <;> rfl

/-- Each of the keys has a child at each index that a public key can have one at. -/
def KeyScheme.ChildrenOf (K : KeyScheme) (keys : List Xpub) : Prop :=
  ∀ key ∈ keys, ∀ index : Index, index.isUnhardened = true →
    (K.childPublic? key index.val).isSome = true

theorem branchOrder_ne_nil {α : Type} {keys ordered : List α} {branch : Branch}
    (h : branchOrder keys branch = .ok ordered) : ordered ≠ [] := by
  rintro rfl
  have hkeys := List.nil_perm.mp (branchOrder_perm h)
  rw [hkeys] at h
  cases h

namespace PoolAddress

variable {id : SeriesId} {required : UInt8} {xpubs ordered : List Xpub} {branch : Branch}
  {index : Index} {network : AddressNetwork} {a b : PoolAddress} {n : Nat}

theorem isUnhardened_of_ofKeys (h : ofKeys K id required xpubs branch index network = .ok a) :
    index.isUnhardened = true := by
  obtain ⟨ordered, keys, horder, hkeys, -⟩ := ofKeys_eq_ok_iff.mp h
  obtain ⟨key, rest, rfl⟩ := List.exists_cons_of_ne_nil (branchOrder_ne_nil horder)
  obtain ⟨child, others, hchild, -, -⟩ := List.forall₂_cons_left_iff.mp hkeys
  exact (childKey_eq_ok_iff.mp hchild).1

/-- The next address is made from the same keys. -/
theorem next_of_ofKeys (h : ofKeys K id required xpubs branch index network = .ok a) :
    a.next K = ofKeys K id required xpubs branch ⟨index.val + 1⟩ network := by
  have hnext := Index.next?_of_isUnhardened (isUnhardened_of_ofKeys h)
  obtain ⟨ordered, keys, -, -, rfl⟩ := ofKeys_eq_ok_iff.mp h
  unfold next
  rw [hnext]

/-- **Each address is the one of its index**, which is the sum of the first index and the number of
steps. -/
theorem ofKeys_of_advance (h : ofKeys K id required xpubs branch index network = .ok a)
    (hb : a.advance K n = .ok b) :
    index.val.toNat + n < Index.unhardenedCount
      ∧ ofKeys K id required xpubs branch (index.plus n) network = .ok b := by
  induction n generalizing b with
  | zero =>
      cases hb
      rw [Index.plus_zero]
      exact ⟨Index.isUnhardened_iff.mp (isUnhardened_of_ofKeys h), h⟩
  | succ n ih =>
      unfold advance at hb
      split at hb
      · rename_i before hbefore
        obtain ⟨hbound, hderived⟩ := ih hbefore
        rw [next_of_ofKeys hderived, ← Index.plus_succ] at hb
        have hunhardened := Index.isUnhardened_iff.mp (isUnhardened_of_ofKeys hb)
        have hsmall : index.val.toNat + (n + 1) < 2 ^ 32 := by
          unfold Index.unhardenedCount at hbound
          omega
        rw [Index.toNat_plus hsmall] at hunhardened
        exact ⟨hunhardened, hb⟩
      · cases hb

/-- Where all keys have children there is an address. -/
theorem exists_ofKeys (hvalid : K.ChildrenOf xpubs)
    (horder : branchOrder xpubs branch = .ok ordered) (hindex : index.isUnhardened = true) :
    ∃ a, ofKeys K id required xpubs branch index network = .ok a := by
  have hchildren : ∀ key ∈ ordered, ∃ child, childKey K key index = .ok child := by
    intro key hkey
    have hsome := hvalid key ((branchOrder_perm horder).subset hkey) index hindex
    obtain ⟨child, hchild⟩ := Option.isSome_iff_exists.mp hsome
    exact ⟨child, childKey_eq_ok_iff.mpr ⟨hindex, hchild⟩⟩
  obtain ⟨keys, hkeys⟩ := exists_forall₂ hchildren
  exact ⟨_, ofKeys_eq_ok_iff.mpr ⟨ordered, keys, horder, hkeys, rfl⟩⟩

/-- Where public keys have no children there is none. -/
theorem ofKeys_hardened (horder : branchOrder xpubs branch = .ok ordered)
    (hindex : index.isUnhardened = false) :
    ofKeys K id required xpubs branch index network = .error (.hardened index) := by
  obtain ⟨key, rest, rfl⟩ := List.exists_cons_of_ne_nil (branchOrder_ne_nil horder)
  have hchild : childKey K key index = .error (.hardened index) := by
    unfold childKey
    rw [hindex]
    rfl
  unfold ofKeys
  rw [horder]
  dsimp only
  rw [List.mapM_cons, hchild]
  rfl

/-- **As long as all keys have children, the steps go on to the last index that public keys have
children at.** -/
theorem advance_isOk (hvalid : K.ChildrenOf xpubs)
    (h : ofKeys K id required xpubs branch index network = .ok a)
    (hn : index.val.toNat + n < Index.unhardenedCount) : ∃ b, a.advance K n = .ok b := by
  obtain ⟨ordered, -, horder, -, -⟩ := ofKeys_eq_ok_iff.mp h
  induction n with
  | zero => exact ⟨a, rfl⟩
  | succ n ih =>
      obtain ⟨before, hbefore⟩ := ih (by omega)
      obtain ⟨-, hderived⟩ := ofKeys_of_advance h hbefore
      unfold advance
      rw [hbefore]
      dsimp only
      rw [next_of_ofKeys hderived, ← Index.plus_succ]
      refine exists_ofKeys hvalid horder (Index.isUnhardened_iff.mpr ?_)
      rw [Index.toNat_plus (by unfold Index.unhardenedCount at hn; omega)]
      exact hn

/-- **There they end.** -/
theorem advance_hardened (hvalid : K.ChildrenOf xpubs)
    (h : ofKeys K id required xpubs branch index network = .ok a)
    (hn : Index.unhardenedCount ≤ index.val.toNat + n) :
    a.advance K n = .error (.hardened ⟨UInt32.ofNat Index.unhardenedCount⟩) := by
  obtain ⟨ordered, -, horder, -, -⟩ := ofKeys_eq_ok_iff.mp h
  have hfirst := Index.isUnhardened_iff.mp (isUnhardened_of_ofKeys h)
  induction n with
  | zero => omega
  | succ n ih =>
      unfold advance
      by_cases hbefore : Index.unhardenedCount ≤ index.val.toNat + n
      · rw [ih hbefore]
      · -- the step over the limit
        obtain ⟨before, hadvance⟩ := advance_isOk hvalid h (Nat.lt_of_not_le hbefore)
        obtain ⟨-, hderived⟩ := ofKeys_of_advance h hadvance
        have hvalue : (index.plus (n + 1)).val.toNat = Index.unhardenedCount := by
          rw [Index.toNat_plus (by unfold Index.unhardenedCount at hbefore; omega)]
          omega
        have hlimit : index.plus (n + 1) = ⟨UInt32.ofNat Index.unhardenedCount⟩ := by
          rw [← hvalue, UInt32.ofNat_toNat]
        rw [hadvance]
        dsimp only
        rw [next_of_ofKeys hderived, ← Index.plus_succ, hlimit]
        exact ofKeys_hardened horder (by decide)

end PoolAddress

/-! ## The addresses of a book -/

namespace SeriesBook

variable {pool : SeriesBook} {id : SeriesId} {branch : Branch} {index : Index} {a : PoolAddress}

/-- **The addresses of a book in succession.** So many steps from an address of the book lead to its
address at the index so much later, if they lead to any. If all keys have children they fail just
when that index is not one that public keys have children at. -/
theorem succession (ha : pool.poolAddress K id branch index = .ok a) (n : Nat) :
    (∀ b, a.advance K n = .ok b → index.val.toNat + n < Index.unhardenedCount
        ∧ pool.poolAddress K id branch (index.plus n) = .ok b)
      ∧ (K.ChildrenOf a.xpubs →
        (index.val.toNat + n < Index.unhardenedCount → ∃ b, a.advance K n = .ok b)
        ∧ (Index.unhardenedCount ≤ index.val.toNat + n →
          a.advance K n = .error (.hardened ⟨UInt32.ofNat Index.unhardenedCount⟩))) := by
  unfold poolAddress at ha ⊢
  split at ha
  · rename_i series hfound
    have hderived : PoolAddress.ofKeys K id series.required series.pubs branch index pool.network
        = .ok a := ha
    have hxpubs : a.xpubs = series.pubs := by
      obtain ⟨-, -, -, -, rfl⟩ := PoolAddress.ofKeys_eq_ok_iff.mp hderived
      rfl
    refine ⟨fun b hb => PoolAddress.ofKeys_of_advance hderived hb, fun hvalid => ?_⟩
    rw [hxpubs] at hvalid
    exact ⟨PoolAddress.advance_isOk hvalid hderived, PoolAddress.advance_hardened hvalid hderived⟩
  · cases ha

end SeriesBook

end NotaryPool
