import NotaryPool.Script.Multisig
import NotaryPool.Script.Push

/-!
# Scripts read back as they were written

A signature script is written by one member and read by every node, and so are the keys that it
is checked under. Reading is not the inverse of writing on all bytes, only on those that are written
here.

## Contents

* `Bytes.toNatBE_ofNatBE`, `Bytes.ofNatBE_toNatBE`: a number and its bytes.
* `PublicKey.ofBytes?_toBytes`: the 33 bytes of a key.
* `Push.parse_encode`, `Push.parse_flatMap_encode`: **pushes one after the other.**
-/

namespace NotaryPool

/-! ## Numbers -/

theorem Bytes.toNatBE_reverse (bs : Bytes) : toNatBE bs.reverse = toNatLE bs := by
  induction bs with
  | nil => rfl
  | cons b rest ih =>
      unfold toNatBE at ih ⊢
      rw [List.reverse_cons, List.foldl_append, ih]
      show toNatLE rest * 256 + b.toNat = b.toNat + 256 * toNatLE rest
      omega

theorem Bytes.toNatBE_ofNatBE {width n : Nat} (h : n < 256 ^ width) :
    toNatBE (ofNatBE width n) = n := by
  unfold ofNatBE
  rw [toNatBE_reverse, toNatLE_ofNatLE, Nat.mod_eq_of_lt h]

theorem Bytes.ofNatLE_toNatLE (bs : Bytes) : ofNatLE bs.length (toNatLE bs) = bs := by
  induction bs with
  | nil => rfl
  | cons b rest ih =>
      have hbyte : UInt8.ofNat (b.toNat + 256 * toNatLE rest) = b := by
        apply UInt8.toNat_inj.mp
        have hb := b.toNat_lt
        rw [UInt8.toNat_ofNat']
        omega
      have hrest : (b.toNat + 256 * toNatLE rest) / 256 = toNatLE rest := by
        have hb := b.toNat_lt
        omega
      show UInt8.ofNat (b.toNat + 256 * toNatLE rest)
        :: ofNatLE rest.length ((b.toNat + 256 * toNatLE rest) / 256) = b :: rest
      rw [hbyte, hrest, ih]

theorem Bytes.toNatLE_lt (bs : Bytes) : toNatLE bs < 256 ^ bs.length := by
  have hvalue := toNatLE_ofNatLE bs.length (toNatLE bs)
  rw [ofNatLE_toNatLE] at hvalue
  rw [hvalue]
  exact Nat.mod_lt _ (Nat.pow_pos (show 0 < 256 by decide))

theorem Bytes.toNatBE_eq (bs : Bytes) : toNatBE bs = toNatLE bs.reverse := by
  rw [← toNatBE_reverse, List.reverse_reverse]

theorem Bytes.toNatBE_lt (bs : Bytes) : toNatBE bs < 256 ^ bs.length := by
  rw [toNatBE_eq, ← bs.length_reverse]
  exact toNatLE_lt _

/-- The bytes of a number are found again, if it is known how many they are. -/
theorem Bytes.ofNatBE_toNatBE {width : Nat} {bs : Bytes} (h : bs.length = width) :
    ofNatBE width (toNatBE bs) = bs := by
  unfold ofNatBE
  rw [toNatBE_eq, ← h, ← bs.length_reverse, ofNatLE_toNatLE, List.reverse_reverse]

/-! ## Keys -/

theorem PublicKey.ofX?_eq (k : PublicKey) : ofX? k.x.val k.odd = some k := by
  unfold ofX?
  rw [dif_pos k.x.isLt, dif_pos k.onCurve]

theorem PublicKey.ofBytes?_toBytes (k : PublicKey) : ofBytes? k.toBytes = some k := by
  have hx : Bytes.toNatBE (Bytes.ofNatBE 32 k.x.val) = k.x.val :=
    Bytes.toNatBE_ofNatBE (Nat.lt_trans k.x.isLt (by decide))
  have hread := k.ofX?_eq
  unfold ofBytes?
  rw [if_pos k.length_toBytes]
  unfold toBytes ofCompressed?
  cases hodd : k.odd with
  | false =>
      rw [hodd] at hread
      simp [hx, hread]
  | true =>
      rw [hodd] at hread
      simp [hx, hread]

/-! ## Pushes -/

namespace Push

theorem takeData_append (data rest : Bytes) :
    takeData data.length (data ++ rest) = .ok (data, rest) := by
  unfold takeData
  rw [if_neg (by simp), List.take_left, List.drop_left]

theorem takeSized_append {width : Nat} {data : Bytes} (h : data.length < 256 ^ width)
    (rest : Bytes) :
    takeSized width (Bytes.ofNatLE width data.length ++ data ++ rest) = .ok (data, rest) := by
  have hlength := Bytes.length_ofNatLE width data.length
  unfold takeSized
  rw [List.append_assoc, if_neg (by simp), List.take_left' hlength, List.drop_left' hlength,
    Bytes.toNatLE_ofNatLE, Nat.mod_eq_of_lt h]
  exact takeData_append data rest

/-- A push that is not long has its length as operation. -/
theorem toNat_direct {data : Bytes} (h : data.length ≤ directLimit) :
    (UInt8.ofNat data.length).toNat = data.length :=
  UInt8.toNat_ofNat_of_lt (Nat.lt_of_le_of_lt h (by decide))

/-- What the first operation of a script pushes stands in front of what the rest leaves. -/
theorem parse_of_take {op : UInt8} {tail data rest : Bytes} (h : take op tail = .ok (data, rest)) :
    parse (op :: tail) = (parse rest).map (data :: ·) := by
  rw [parse]
  split
  · rename_i e he
    rw [h] at he
    cases he
  · rename_i hok
    rw [h] at hok
    cases hok
    rfl

/-- A script that begins with a push leaves what is pushed in front of what its rest leaves. -/
theorem parse_encode {data : Bytes} (h : data.length < 2 ^ 32) (rest : Bytes) :
    parse (encode data ++ rest) = (parse rest).map (data :: ·) := by
  -- one case for each operation that can push `data`
  unfold encode
  split
  · -- the operation is the length
    rename_i hdirect
    apply parse_of_take
    unfold take
    rw [toNat_direct hdirect, if_pos hdirect]
    exact takeData_append data rest
  · split
    · rename_i hshort
      exact parse_of_take (takeSized_append (show data.length < 256 ^ 1 from hshort) rest)
    · split
      · rename_i hmedium
        exact parse_of_take (takeSized_append (show data.length < 256 ^ 2 from hmedium) rest)
      · exact parse_of_take (takeSized_append (show data.length < 256 ^ 4 from h) rest)

/-- **Pushes one after the other read back** as the stack that they leave. -/
theorem parse_flatMap_encode {stack : List Bytes} (h : ∀ data ∈ stack, data.length < 2 ^ 32) :
    parse (stack.flatMap encode) = .ok stack := by
  induction stack with
  | nil =>
      unfold parse
      rfl
  | cons data rest ih =>
      rw [List.flatMap_cons, parse_encode (h data List.mem_cons_self),
        ih fun d hd => h d (List.mem_cons_of_mem _ hd)]
      rfl

end Push

end NotaryPool
