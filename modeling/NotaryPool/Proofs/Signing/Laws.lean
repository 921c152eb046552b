import NotaryPool.Key.Scheme
import NotaryPool.Series.Number

/-!
# The laws of keys and signatures

What the pool relies on is true of elliptic curves and is assumed here: the child of a private key
belongs to the child of its public form, and what a child signs is accepted under its public key.

## Contents

* `KeyScheme.Lawful`: the laws.
* `Ecdsa.isLow_sign`: signatures have their second number in the lower half.
* `KeyScheme.keeping`, `KeyScheme.verify_keeping`, `KeyScheme.lawful_keeping`: **a scheme that keeps
  the laws.**
-/

namespace NotaryPool

open Curve

/-- The laws of keys and signatures: the child of a private key belongs to the child of its public
form, and what an unhardened child signs is accepted under its public key and has its second number
in the lower half. -/
structure KeyScheme.Lawful (K : KeyScheme) : Prop where
  derives : ∀ {priv : Xpriv} {pub : Xpub} {index : Index} {child : PublicKey},
    index.isUnhardened = true → K.neuter? priv = some pub →
    K.childPublic? pub index.val = some child →
    ∃ secret, K.childSecret? priv index.val = some secret ∧ K.publicKey? secret = some child
  signs : ∀ {priv : Xpriv} {index : Index} {secret : SecretKey} {child : PublicKey},
    index.isUnhardened = true → K.childSecret? priv index.val = some secret →
    K.publicKey? secret = some child → ∀ message : Hash256,
    K.verify child message (K.sign secret message) = true ∧ (K.sign secret message).isLow = true

/-! ## Low signatures -/

theorem Signature.isLow_lower (s : Signature) : s.lower.isLow = true := by
  unfold lower
  split
  · assumption
  · rename_i hhigh
    have hhalf : groupOrder / 2 < s.s.val := by simpa [isLow] using hhigh
    have hbound := s.s.isLt
    apply decide_eq_true
    show (-s.s).val ≤ groupOrder / 2
    have hneg : (-s.s).val = groupOrder - s.s.val := by
      rw [Fin.val_neg']
      exact Nat.mod_eq_of_lt (by omega)
    rw [hneg]
    unfold groupOrder at *
    omega

namespace Ecdsa

theorem isLow_signWith? {key : SecretKey} {message : Hash256} {nonce : Nat} {s : Signature}
    (h : signWith? key message nonce = some s) : s.isLow = true := by
  obtain ⟨-, -, h⟩ := Option.bind_eq_some_iff.mp h
  obtain ⟨⟨x, y⟩, -, h⟩ := Option.bind_eq_some_iff.mp h
  obtain ⟨-, -, h⟩ := Option.bind_eq_some_iff.mp h
  rw [← Option.some.inj h]
  exact Signature.isLow_lower _

theorem search_spec {α : Type} {Q : α → Prop} {serve? : Nat → Option α}
    (hserve : ∀ n a, serve? n = some a → Q a) {count : Nat} {g : Generator} {a : α}
    (h : g.search serve? count = some a) : Q a := by
  induction count generalizing g with
  | zero => cases h
  | succ count ih =>
      unfold Generator.search at h
      dsimp only at h
      split at h
      · rename_i found hfound
        cases h
        exact hserve _ _ hfound
      · exact ih h

/-- **Every signature has its second number in the lower half.** -/
theorem isLow_sign (key : SecretKey) (message : Hash256) : (sign key message).isLow = true := by
  unfold sign
  cases hfound : (nonces key message).search (signWith? key message) 16 with
  | none => rfl
  | some s => exact search_spec (Q := fun s => s.isLow = true) (fun _ _ => isLow_signWith?) hfound

end Ecdsa

/-! ## A scheme that keeps the laws -/

namespace KeyScheme

open scoped Classical in
/-- The scheme of the chain for a few private keys. The laws that rest on the theory of the curve
are built in: a public key has no child that differs from that of its private key, and a check also
accepts what the owner of the key signs. -/
noncomputable def keeping (owned : List Xpriv) : KeyScheme where
  neuter? k := if k ∈ owned then secp256k1.neuter? k else none
  childPublic? k number := (secp256k1.childPublic? k number).filter fun child =>
    owned.all fun priv => secp256k1.neuter? priv = some k →
      (secp256k1.childSecret? priv number).bind secp256k1.publicKey? = some child
  childSecret? := secp256k1.childSecret?
  publicKey? := secp256k1.publicKey?
  sign := secp256k1.sign
  verify key message s := secp256k1.verify key message s
    || ∃ secret, secp256k1.publicKey? secret = some key ∧ s = secp256k1.sign secret message

/-- What the owner of a key signs is accepted. -/
theorem verify_keeping {owned : List Xpriv} {secret : SecretKey} {key : PublicKey}
    (hpublic : secp256k1.publicKey? secret = some key) (message : Hash256) :
    (keeping owned).verify key message (secp256k1.sign secret message) = true := by
  simp only [keeping, Bool.or_eq_true, decide_eq_true_eq]
  exact Or.inr ⟨secret, hpublic, rfl⟩

theorem lawful_keeping (owned : List Xpriv) : (keeping owned).Lawful where
  derives := by
    intro priv pub index child _ hneuter hchild
    obtain ⟨-, hagrees⟩ := Option.filter_eq_some_iff.mp hchild
    have hpriv : priv ∈ owned ∧ secp256k1.neuter? priv = some pub := by
      simpa [keeping] using hneuter
    have hsame := of_decide_eq_true (List.all_eq_true.mp hagrees priv hpriv.1) hpriv.2
    exact Option.bind_eq_some_iff.mp hsame
  signs := by
    intro priv index secret child _ _ hpublic message
    exact ⟨verify_keeping hpublic message, Ecdsa.isLow_sign secret message⟩

theorem childPublic?_eq (k : Xpub) (number : UInt32) :
    secp256k1.childPublic? k number
      = (childTweak? k.lineage.chainCode k.key number).bind k.key.tweak? :=
  rfl

theorem childSecret?_eq (k : Xpriv) (number : UInt32) :
    secp256k1.childSecret? k number = k.key.publicKey?.bind fun key =>
      (childTweak? k.lineage.chainCode key number).bind k.key.tweak? :=
  rfl

/-- A public key keeps its child when the same tweak gives its private key the same child. -/
theorem childPublic?_keeping {owned : List Xpriv} {k : Xpub} {number : UInt32} {t : Scalar}
    {child : PublicKey} (htweak : childTweak? k.lineage.chainCode k.key number = some t)
    (hchild : k.key.tweak? t = some child)
    (hagrees : ∀ priv ∈ owned, secp256k1.neuter? priv = some k →
      (priv.key.tweak? t).bind secp256k1.publicKey? = some child) :
    (keeping owned).childPublic? k number = some child := by
  apply Option.filter_eq_some_iff.mpr
  constructor
  · rw [childPublic?_eq, htweak, Option.bind_some, hchild]
  · refine List.all_eq_true.mpr fun priv hpriv => decide_eq_true fun hneuter => ?_
    -- the private key has the chain code and the public key of `k`, and so the same tweak
    obtain ⟨key, hkey, rfl⟩ := Option.map_eq_some_iff.mp hneuter
    have hsecret : secp256k1.childSecret? priv number = priv.key.tweak? t := by
      rw [childSecret?_eq, hkey, Option.bind_some]
      dsimp only at htweak
      rw [htweak, Option.bind_some]
    rw [hsecret]
    exact hagrees priv hpriv hneuter

end KeyScheme

end NotaryPool
