import NotaryPool.Proofs.Traversal
import NotaryPool.Sealing.KeyCipher

/-!
# A sealed blob opens again

A text is combined with a stream, and combining it once more takes the stream out again. The tag of
a blob is computed from what the blob holds, so a blob that nobody touched passes its check. Opening
depends on the secrets alone: each blob carries the nonce that it was sealed with.

## Contents

* `ChaCha.stream_stream`: **combining twice gives the text back.**
* `KeyCipher.decryptWith_encryptWith`: **a blob opens under the secret that it was sealed with.**
* `KeyCipher.Opens`, `KeyCipher.xchacha_opens`: what the registry relies on, for any nonces.
-/

namespace NotaryPool

/-! ## The stream -/

namespace ChaCha

theorem length_bytes (words : List UInt32) : (bytes words).length = 4 * words.length := by
  induction words with
  | nil => rfl
  | cons w rest ih =>
      have hcons : bytes (w :: rest) = Bytes.ofNatLE 4 w.toNat ++ bytes rest := rfl
      rw [hcons, List.length_append, Bytes.length_ofNatLE, ih, List.length_cons]
      omega

@[simp] theorem length_block (key nonce : Bytes) (counter : Nat) :
    (block key nonce counter).length = 64 := by
  unfold block
  rw [length_bytes, Vector.length_toList]

/-- Combining with the same bytes twice changes nothing. -/
theorem zipWith_xor_xor {text mask : Bytes} (h : text.length ≤ mask.length) :
    List.zipWith (· ^^^ ·) (List.zipWith (· ^^^ ·) text mask) mask = text := by
  induction text generalizing mask with
  | nil => rfl
  | cons b rest ih =>
      cases mask with
      | nil => cases h
      | cons m mask =>
          rw [List.zipWith_cons_cons, List.zipWith_cons_cons, ih (Nat.le_of_succ_le_succ h),
            UInt8.xor_assoc, UInt8.xor_self, UInt8.xor_zero]

theorem length_streamFrom (key nonce : Bytes) (blocks counter : Nat) (text : Bytes) :
    (streamFrom key nonce blocks counter text).length = text.length := by
  induction blocks generalizing counter text with
  | zero => rfl
  | succ blocks ih =>
      unfold streamFrom
      split
      · rename_i hnone
        rw [hnone]
      · rw [List.length_append, ih, List.length_zipWith, length_block, List.length_take,
          List.length_drop]
        omega

theorem streamFrom_streamFrom (key nonce : Bytes) (blocks counter : Nat) (text : Bytes) :
    streamFrom key nonce blocks counter (streamFrom key nonce blocks counter text) = text := by
  induction blocks generalizing counter text with
  | zero => rfl
  | succ blocks ih =>
      by_cases hnone : text = []
      · rw [hnone]
        rfl
      · have hfirst : (List.zipWith (· ^^^ ·) (text.take 64) (block key nonce counter)).length
            = min 64 text.length := by
          rw [List.length_zipWith, length_block, List.length_take]
          omega
        have hrest := length_streamFrom key nonce blocks (counter + 1) (text.drop 64)
        rw [List.length_drop] at hrest
        have hstream : streamFrom key nonce (blocks + 1) counter text
            = List.zipWith (· ^^^ ·) (text.take 64) (block key nonce counter)
              ++ streamFrom key nonce blocks (counter + 1) (text.drop 64) := if_neg hnone
        generalize hmixed : List.zipWith (· ^^^ ·) (text.take 64) (block key nonce counter) = mixed
          at hfirst hstream
        generalize hleft : streamFrom key nonce blocks (counter + 1) (text.drop 64) = left
          at hrest hstream
        -- the combined text is cut into blocks at the same places
        have htake : (mixed ++ left).take 64 = mixed := by
          rw [List.take_append, List.take_of_length_le (by omega)]
          have hnothing : left.take (64 - mixed.length) = [] := by
            rw [List.take_eq_nil_iff, ← List.length_eq_zero_iff]
            omega
          rw [hnothing, List.append_nil]
        have hdrop : (mixed ++ left).drop 64 = left := by
          rw [List.drop_append, List.drop_eq_nil_of_le (by omega), List.nil_append]
          by_cases hlong : mixed.length = 64
          · rw [hlong]
            rfl
          · rw [List.length_eq_zero_iff.mp (by omega : left.length = 0), List.drop_nil]
        have hsome : mixed ++ left ≠ [] := by
          intro hempty
          have hlength := congrArg List.length hempty
          rw [List.length_append, List.length_nil] at hlength
          exact hnone (List.length_eq_zero_iff.mp (by omega))
        rw [hstream]
        unfold streamFrom
        rw [if_neg hsome, htake, hdrop, ← hmixed, ← hleft, ih,
          zipWith_xor_xor (by rw [length_block, List.length_take]; omega), List.take_append_drop]

@[simp] theorem length_stream (key nonce text : Bytes) :
    (stream key nonce text).length = text.length :=
  length_streamFrom ..

/-- **Combining a text with the stream twice gives it back.** -/
theorem stream_stream (key nonce text : Bytes) :
    stream key nonce (stream key nonce text) = text := by
  unfold stream
  rw [length_streamFrom]
  exact streamFrom_streamFrom ..

end ChaCha

/-! ## Blobs -/

namespace KeyCipher

/-- **A blob opens under the secret that it was sealed with.** -/
theorem decryptWith_encryptWith {secret nonce : Bytes} {purpose : BlobPurpose} {text blob : Bytes}
    (hnonce : nonce.length = nonceLength) (h : encryptWith secret nonce purpose text = .ok blob) :
    decryptWith secret purpose blob = .ok text := by
  unfold encryptWith at h
  split at h
  · cases h
  · rename_i hlimit
    cases h
    generalize hsession : session secret nonce = s
    have htag : (tagOf purpose s (ChaCha.stream s.1 s.2 text)).length = tagLength :=
      Poly.length_tag ..
    generalize hcipher : ChaCha.stream s.1 s.2 text = cipher at htag
    generalize hproof : tagOf purpose s cipher = proof at htag
    -- the three parts of the blob are found where they were put
    have htake : (nonce ++ cipher ++ proof).take nonceLength = nonce := by
      rw [List.append_assoc, ← hnonce, List.take_left']
      rfl
    have hbody : (nonce ++ cipher ++ proof).drop nonceLength = cipher ++ proof := by
      rw [List.append_assoc, ← hnonce, List.drop_left']
      rfl
    have hcut : (cipher ++ proof).length - tagLength = cipher.length := by
      rw [List.length_append, htag, Nat.add_sub_cancel]
    have hlength : cipher.length = text.length := by
      rw [← hcipher, ChaCha.length_stream]
    unfold decryptWith
    rw [if_neg (by simp only [List.length_append]; omega)]
    simp only [htake, hbody, hsession, hcut, List.take_left', List.drop_left']
    rw [if_neg]
    · rw [← hcipher, ChaCha.stream_stream]
    · rintro (hshort | hlong | hforged)
      · rw [List.length_append] at hshort
        omega
      · omega
      · exact hforged hproof.symm

/-- A text within the limit is sealed. -/
theorem encryptWith_isOk (secret nonce : Bytes) (purpose : BlobPurpose) {text : Bytes}
    (h : text.length ≤ textLimit) : ∃ blob, encryptWith secret nonce purpose text = .ok blob := by
  unfold encryptWith
  rw [if_neg (Nat.not_lt.mpr h)]
  exact ⟨_, rfl⟩

/-- A cipher opens each blob that a way of sealing makes. The way of sealing may differ from that of
the cipher itself, since each blob is sealed with a nonce of its own. -/
def Opens (c : KeyCipher) (sealing : BlobPurpose → Bytes → Except CipherError Bytes) : Prop :=
  ∀ purpose text blob, sealing purpose text = .ok blob → c.decrypt purpose blob = .ok text

/-- **Whatever nonces the blobs are sealed with**, the secrets open them. -/
theorem xchacha_opens (publicSecret privateSecret own : Bytes) {nonce : BlobPurpose → Bytes}
    (hnonce : ∀ purpose, (nonce purpose).length = nonceLength) :
    (xchacha publicSecret privateSecret own).Opens
      fun purpose => (xchacha publicSecret privateSecret (nonce purpose)).encrypt purpose := by
  intro purpose text blob h
  exact decryptWith_encryptWith (hnonce purpose) h

end KeyCipher

end NotaryPool
