import NotaryPool.Key.Extended
import NotaryPool.Proofs.Script.Reading
import NotaryPool.Proofs.Text.Base58

/-!
# Extended keys are read back, and only they

The 78 bytes of an extended key leave nothing open: the mark says which form and network it has,
each number fills its bytes, and the key inside has one compressed form. So bytes that are read as a
key are the ones that would be written for it.

## Contents

* `Xpub.decode_encode`, `Xpriv.decode_encode`: **the 78 bytes of an extended key.**
* `Xpub.decode_eq_ok_iff`, `Xpriv.decode_eq_ok_iff`: **no other bytes are read as the key.**
* `Xpub.parse_toText`, `Xpriv.parse_toText`: **their texts.**
-/

namespace NotaryPool

/-! ## The 78 bytes -/

theorem PublicKey.ofCompressed?_toBytes (k : PublicKey) : ofCompressed? k.toBytes = some k := by
  have hread := k.ofBytes?_toBytes
  unfold ofBytes? at hread
  rwa [if_pos k.length_toBytes] at hread

theorem SecretKey.ofNat?_toBytes (k : SecretKey) : ofNat? (Bytes.toNatBE k.toBytes) = some k := by
  have hvalue : Bytes.toNatBE k.toBytes = k.value.val :=
    Bytes.toNatBE_ofNatBE (Nat.lt_trans k.value.isLt (by decide))
  unfold ofNat?
  rw [hvalue, dif_pos k.value.isLt, dif_pos k.nonzero]

/-- A 32-bit number is read back from its four bytes. -/
theorem Bytes.ofNat_toNatBE (n : UInt32) :
    UInt32.ofNat (Bytes.toNatBE (Bytes.ofNatBE 4 n.toNat)) = n := by
  rw [Bytes.toNatBE_ofNatBE n.toNat_lt, UInt32.ofNat_toNat]

/-- What follows the place of a key in its tree does not matter for reading it. -/
theorem Lineage.ofBytes_toBytes (l : Lineage) (rest : Bytes) :
    ofBytes l.testnet (l.toBytes ++ rest) = l := by
  have hparent : (Bytes.ofNatBE 4 l.parent.toNat).length = 4 := Bytes.length_ofNatBE 4 _
  have hchild : (Bytes.ofNatBE 4 l.child.toNat).length = 4 := Bytes.length_ofNatBE 4 _
  have hform : l.toBytes ++ rest
      = l.depth :: (Bytes.ofNatBE 4 l.parent.toNat ++ (Bytes.ofNatBE 4 l.child.toNat
        ++ (l.chainCode.toList ++ rest))) := by
    unfold toBytes
    rw [List.cons_append, List.append_assoc, List.append_assoc]
  have hcode : ((l.toBytes ++ rest).drop 9).take 32 = l.chainCode.toList := by
    rw [hform, List.drop_succ_cons, ← List.drop_drop (i := 4) (j := 4), List.drop_left' hparent,
      List.drop_left' hchild, List.take_left' (Vector.length_toList ..)]
  have hfirst : ((l.toBytes ++ rest).drop 1).take 4 = Bytes.ofNatBE 4 l.parent.toNat := by
    rw [hform, List.drop_succ_cons, List.drop_zero, List.take_left' hparent]
  have hsecond : ((l.toBytes ++ rest).drop 5).take 4 = Bytes.ofNatBE 4 l.child.toNat := by
    rw [hform, List.drop_succ_cons, List.drop_left' hparent, List.take_left' hchild]
  have hdepth : (l.toBytes ++ rest).getD 0 0 = l.depth := by
    rw [hform]
    rfl
  obtain ⟨testnet, depth, parent, child, chainCode⟩ := l
  unfold ofBytes
  simp only [hdepth, hfirst, hsecond, Bytes.ofNat_toNatBE, mk.injEq, true_and]
  generalize toBytes _ ++ rest = bs at hcode
  apply Vector.ext
  intro i hi
  have hbyte := congrArg (·[i]?) hcode
  simp only [List.getElem?_take_of_lt hi, List.getElem?_drop, Vector.getElem?_toList] at hbyte
  rw [Vector.getElem_ofFn, List.getD_eq_getElem?_getD, hbyte, Vector.getElem?_eq_getElem hi]
  rfl

/-- The two networks mark their keys differently. -/
theorem Xpub.kind_inj (a b : Bool) : kind a = kind b ↔ a = b := by
  cases a <;> cases b <;> decide

theorem Xpriv.kind_inj (a b : Bool) : kind a = kind b ↔ a = b := by
  cases a <;> cases b <;> decide

theorem Xpub.decode_encode (k : Xpub) : decode k.encode = .ok k := by
  have hkind : (kind k.lineage.testnet).length = 4 := by cases k.lineage.testnet <;> rfl
  have hmark : k.encode.take 4 = kind k.lineage.testnet := by
    unfold encode
    rw [List.append_assoc, List.take_left' hkind]
  have hlineage : k.encode.drop 4 = k.lineage.toBytes ++ k.key.toBytes := by
    unfold encode
    rw [List.append_assoc, List.drop_left' hkind]
  have hkey : k.encode.drop 45 = k.key.toBytes := by
    unfold encode
    rw [List.drop_left' (by rw [List.length_append, hkind, Lineage.length_toBytes])]
  unfold decode
  rw [if_neg (by simp), hmark, hlineage, hkey, PublicKey.ofCompressed?_toBytes, if_neg]
  · simp only [kind_inj, Bool.decide_eq_true, Lineage.ofBytes_toBytes]
  · cases k.lineage.testnet <;> decide

theorem Xpriv.decode_encode (k : Xpriv) : decode k.encode = .ok k := by
  have hkind : (kind k.lineage.testnet).length = 4 := by cases k.lineage.testnet <;> rfl
  have hmark : k.encode.take 4 = kind k.lineage.testnet := by
    unfold encode
    rw [List.append_assoc, List.take_left' hkind]
  have hlineage : k.encode.drop 4 = k.lineage.toBytes ++ 0 :: k.key.toBytes := by
    unfold encode
    rw [List.append_assoc, List.drop_left' hkind]
  have htail : k.encode.drop 45 = 0 :: k.key.toBytes := by
    unfold encode
    rw [List.drop_left' (by rw [List.length_append, hkind, Lineage.length_toBytes])]
  have htag : k.encode.getD 45 0 = 0 := by
    rw [List.getD_eq_getElem?_getD, ← List.head?_drop, htail]
    rfl
  have hkey : k.encode.drop 46 = k.key.toBytes := by
    rw [← List.drop_drop (i := 1) (j := 45), htail]
    rfl
  unfold decode
  rw [if_neg (by simp), hmark, hlineage, htag, hkey, SecretKey.ofNat?_toBytes, if_neg,
    if_neg (by simp)]
  · simp only [kind_inj, Bool.decide_eq_true, Lineage.ofBytes_toBytes]
  · cases k.lineage.testnet <;> decide

/-! ## No other bytes -/

theorem PublicKey.of_ofX? {x : Nat} {odd : Bool} {k : PublicKey} (h : ofX? x odd = some k) :
    k.x.val = x ∧ k.odd = odd := by
  unfold ofX? at h
  split at h
  · split at h
    · cases h
      exact ⟨rfl, rfl⟩
    · cases h
  · cases h

/-- A public key is read from no other 33 bytes than its own. -/
theorem PublicKey.eq_toBytes {bs : Bytes} {k : PublicKey} (h : ofCompressed? bs = some k) :
    bs = k.toBytes := by
  unfold ofCompressed? at h
  split at h
  · split at h
    · rename_i tag rest hlength
      have hform : ∀ odd, ofX? (Bytes.toNatBE rest) odd = some k →
          k.toBytes = (if odd then 3 else 2) :: rest := by
        intro odd hx
        obtain ⟨hvalue, hodd⟩ := of_ofX? hx
        unfold toBytes
        rw [hvalue, hodd, Bytes.ofNatBE_toNatBE hlength]
      split at h
      · rename_i htag
        rw [hform false h, htag]
        rfl
      · split at h
        · rename_i htag
          rw [hform true h, htag]
          rfl
        · cases h
    · cases h
  · cases h

/-- A secret key is read from no other 32 bytes than its own. -/
theorem SecretKey.eq_toBytes {bs : Bytes} {k : SecretKey} (hlength : bs.length = 32)
    (h : ofNat? (Bytes.toNatBE bs) = some k) : bs = k.toBytes := by
  unfold ofNat? at h
  split at h
  · split at h
    · cases h
      exact (Bytes.ofNatBE_toNatBE hlength).symm
    · cases h
  · cases h

/-- Any four bytes are those of a 32-bit number. -/
theorem Bytes.exists_uint32 {bs : Bytes} (h : bs.length = 4) :
    ∃ n : UInt32, ofNatBE 4 n.toNat = bs := by
  have hlt : toNatBE bs < 256 ^ 4 := h ▸ toNatBE_lt bs
  refine ⟨UInt32.ofNat (toNatBE bs), ?_⟩
  rw [UInt32.toNat_ofNat_of_lt' hlt, ofNatBE_toNatBE h]

/-- Any 41 bytes are those of a place in a tree, on either network. -/
theorem Lineage.exists_toBytes (testnet : Bool) {bs : Bytes} (h : bs.length = 41) :
    ∃ l : Lineage, l.testnet = testnet ∧ l.toBytes = bs := by
  obtain ⟨depth, rest, rfl⟩ := List.exists_cons_of_length_pos (l := bs) (by omega)
  have hrest : rest.length = 40 := Nat.succ.inj h
  have hfour : ∀ start, start + 4 ≤ 40 → ((rest.drop start).take 4).length = 4 := by
    intro start hstart
    rw [List.length_take, List.length_drop]
    omega
  obtain ⟨parent, hparent⟩ := Bytes.exists_uint32 (hfour 0 (by decide))
  obtain ⟨child, hchild⟩ := Bytes.exists_uint32 (hfour 4 (by decide))
  have hcode : (rest.drop 8).toArray.size = 32 := by
    rw [List.size_toArray, List.length_drop, hrest]
  refine ⟨⟨testnet, depth, parent, child, ⟨(rest.drop 8).toArray, hcode⟩⟩, rfl, ?_⟩
  unfold toBytes
  show depth :: (Bytes.ofNatBE 4 parent.toNat ++ Bytes.ofNatBE 4 child.toNat ++ rest.drop 8) = _
  rw [hparent, hchild, List.drop_zero, List.append_assoc, ← List.drop_drop (i := 4) (j := 4),
    List.take_append_drop, List.take_append_drop]

/-- **The frame of an extended key** of either form: its mark, and its place in a tree. -/
theorem Lineage.exists_frame {kind : Bool → Bytes} {bs : Bytes}
    (hlength : bs.length = extendedKeyLength)
    (hkind : ¬ (bs.take 4 ≠ kind true ∧ bs.take 4 ≠ kind false)) :
    ∃ l : Lineage, bs = kind l.testnet ++ l.toBytes ++ bs.drop 45 := by
  obtain ⟨testnet, hmark⟩ : ∃ testnet, bs.take 4 = kind testnet := by
    by_cases htest : bs.take 4 = kind true
    · exact ⟨true, htest⟩
    · exact ⟨false, not_not.mp fun hmain => hkind ⟨htest, hmain⟩⟩
  have hplace : ((bs.drop 4).take 41).length = 41 := by
    rw [List.length_take, List.length_drop, hlength]
    rfl
  obtain ⟨l, rfl, hl⟩ := exists_toBytes testnet hplace
  refine ⟨l, ?_⟩
  rw [← hmark, hl, List.append_assoc, ← List.drop_drop (i := 41) (j := 4), List.take_append_drop,
    List.take_append_drop]

/-- **78 bytes are a public key just when it is written in these bytes.** -/
theorem Xpub.decode_eq_ok_iff {bs : Bytes} {k : Xpub} : decode bs = .ok k ↔ bs = k.encode := by
  constructor
  · intro h
    have hread := h
    unfold decode at h
    split at h
    · cases h
    rename_i hlength
    split at h
    · cases h
    rename_i hkind
    split at h
    · rename_i key hkey
      obtain ⟨l, hform⟩ := Lineage.exists_frame (not_not.mp hlength) hkind
      rw [PublicKey.eq_toBytes hkey] at hform
      -- the key that these bytes are written for is the one that is read from them
      have hwritten : bs = encode ⟨l, key⟩ := hform
      rw [hwritten, decode_encode] at hread
      cases hread
      exact hwritten
    · cases h
  · rintro rfl
    exact k.decode_encode

/-- **78 bytes are a private key just when it is written in these bytes.** -/
theorem Xpriv.decode_eq_ok_iff {bs : Bytes} {k : Xpriv} : decode bs = .ok k ↔ bs = k.encode := by
  constructor
  · intro h
    have hread := h
    unfold decode at h
    split at h
    · cases h
    rename_i hlength
    split at h
    · cases h
    rename_i hkind
    split at h
    · cases h
    rename_i htag
    split at h
    · rename_i key hkey
      have hbound : 45 < bs.length := by rw [not_not.mp hlength]; decide
      have hzero : bs[45] = 0 := by
        rw [not_not, List.getD_eq_getElem?_getD, List.getElem?_eq_getElem hbound] at htag
        exact htag
      have hsecret : (bs.drop 46).length = 32 := by
        rw [List.length_drop, not_not.mp hlength]
        rfl
      obtain ⟨l, hform⟩ := Lineage.exists_frame (not_not.mp hlength) hkind
      rw [List.drop_eq_getElem_cons hbound, hzero, SecretKey.eq_toBytes hsecret hkey] at hform
      have hwritten : bs = encode ⟨l, key⟩ := hform
      rw [hwritten, decode_encode] at hread
      cases hread
      exact hwritten
    · cases h
  · rintro rfl
    exact k.decode_encode

/-! ## The text -/

theorem Xpub.parse_toText (k : Xpub) : parse k.toText = .ok k := by
  unfold parse toText
  rw [Base58.decodeChecked_encodeChecked]
  exact k.decode_encode

theorem Xpriv.parse_toText (k : Xpriv) : parse k.toText = .ok k := by
  unfold parse toText
  rw [Base58.decodeChecked_encodeChecked]
  exact k.decode_encode

/-- No two public keys have the same text. -/
theorem Xpub.toText_injective : Function.Injective toText := by
  intro k k' hsame
  have hread := k.parse_toText
  rw [hsame, k'.parse_toText] at hread
  exact (Except.ok.inj hread).symm

/-- The text of a public key is not that of a private one. -/
theorem Xpriv.parse_toText_pub (k : Xpub) : parse k.toText = .error .unknownKind := by
  unfold parse Xpub.toText
  rw [Base58.decodeChecked_encodeChecked]
  show decode k.encode = _
  unfold decode
  rw [if_neg (by simp), if_pos]
  unfold Xpub.encode
  rw [List.append_assoc, List.take_left' (by cases k.lineage.testnet <;> rfl)]
  cases k.lineage.testnet <;> decide

/-- The text of a private key is not that of a public one. -/
theorem Xpub.parse_toText_priv (k : Xpriv) : parse k.toText = .error .unknownKind := by
  unfold parse Xpriv.toText
  rw [Base58.decodeChecked_encodeChecked]
  show decode k.encode = _
  unfold decode
  rw [if_neg (by simp), if_pos]
  unfold Xpriv.encode
  rw [List.append_assoc, List.take_left' (by cases k.lineage.testnet <;> rfl)]
  cases k.lineage.testnet <;> decide

end NotaryPool
