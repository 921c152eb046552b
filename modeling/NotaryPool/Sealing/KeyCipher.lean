import NotaryPool.Sealing.ChaCha
import NotaryPool.Sealing.Poly

/-!
# Sealed key blobs

The keys of a series are stored sealed: the public keys under one secret, the private keys under
another. A blob names its purpose in the data that its tag covers, so the two kinds cannot be
exchanged.

* `BlobPurpose`, `CipherError`;
* `KeyCipher`: sealing and opening, as the registry uses them;
* `KeyCipher.xchacha`: the cipher whose blobs are a nonce, the encrypted text and a tag.
-/

namespace NotaryPool

/-- What a sealed blob holds. -/
inductive BlobPurpose where
  | publicKeys
  | privateKeys
deriving DecidableEq, Repr

/-- The word for a purpose. -/
def BlobPurpose.word : BlobPurpose → String
  | .publicKeys => "public"
  | .privateKeys => "private"

/-- Why a blob cannot be sealed or opened. -/
inductive CipherError where
  | truncated (purpose : BlobPurpose)
  | encryption (purpose : BlobPurpose)
  | decryption (purpose : BlobPurpose)
deriving DecidableEq, Repr

/-- The name of an error. -/
def CipherError.name : CipherError → String
  | .truncated _ => "Truncated"
  | .encryption _ => "Encryption"
  | .decryption _ => "Decryption"

/-- The text of an error. -/
def CipherError.message : CipherError → String
  | .truncated p => s!"encrypted {p.word} key blob is too short to contain a nonce."
  | .encryption p => s!"unable to encrypt {p.word} key blob."
  | .decryption p =>
    s!"unable to decrypt {p.word} key blob: the key is wrong or the data are corrupted."

/-- Sealing and opening of blobs. -/
structure KeyCipher where
  encrypt : BlobPurpose → Bytes → Except CipherError Bytes
  decrypt : BlobPurpose → Bytes → Except CipherError Bytes

namespace KeyCipher

/-- The data that a tag covers besides the blob. -/
def associated (purpose : BlobPurpose) : Bytes := Bytes.ofString ("votingpool:" ++ purpose.word)

/-- Zeros that fill the last sixteen bytes. -/
def fill (bs : Bytes) : Bytes := List.replicate ((16 - bs.length % 16) % 16) 0

/-- The message that a tag is computed over. -/
def tagged (purpose : BlobPurpose) (cipher : Bytes) : Bytes :=
  let data := associated purpose
  data ++ fill data ++ cipher ++ fill cipher
    ++ Bytes.ofNatLE 8 data.length ++ Bytes.ofNatLE 8 cipher.length

/-- The number of bytes of a nonce. -/
def nonceLength : Nat := 24

/-- The number of bytes of a tag. -/
def tagLength : Nat := 16

/-- The longest text that the block counter allows. -/
def textLimit : Nat := 64 * (2 ^ 32 - 1)

/-- The key and the short nonce that belong to a secret and a long nonce. -/
def session (secret nonce : Bytes) : Bytes × Bytes :=
  (ChaCha.subkey secret (nonce.take 16), List.replicate 4 0 ++ nonce.drop 16)

/-- The tag of an encrypted text. -/
def tagOf (purpose : BlobPurpose) (session : Bytes × Bytes) (cipher : Bytes) : Bytes :=
  Poly.tag ((ChaCha.block session.1 session.2 0).take 32) (tagged purpose cipher)

/-- The blob of a text under a secret and a nonce. -/
def encryptWith (secret nonce : Bytes) (purpose : BlobPurpose) (text : Bytes) :
    Except CipherError Bytes :=
  if textLimit < text.length then .error (.encryption purpose)
  else
    let s := session secret nonce
    let cipher := ChaCha.stream s.1 s.2 text
    .ok (nonce ++ cipher ++ tagOf purpose s cipher)

/-- The text of a blob under a secret. -/
def decryptWith (secret : Bytes) (purpose : BlobPurpose) (blob : Bytes) :
    Except CipherError Bytes :=
  if blob.length < nonceLength then .error (.truncated purpose)
  else
    let s := session secret (blob.take nonceLength)
    let body := blob.drop nonceLength
    let cipher := body.take (body.length - tagLength)
    if body.length < tagLength ∨ textLimit < cipher.length
        ∨ body.drop (body.length - tagLength) ≠ tagOf purpose s cipher then
      .error (.decryption purpose)
    else .ok (ChaCha.stream s.1 s.2 cipher)

/-- The cipher with a secret of 32 bytes for each purpose and a given nonce. -/
def xchacha (publicSecret privateSecret nonce : Bytes) : KeyCipher :=
  let secret : BlobPurpose → Bytes
    | .publicKeys => publicSecret
    | .privateKeys => privateSecret
  { encrypt := fun p => encryptWith (secret p) nonce p
    decrypt := fun p => decryptWith (secret p) p }

end KeyCipher

end NotaryPool
