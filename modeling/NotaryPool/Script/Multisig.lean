import NotaryPool.Curve.Key
import NotaryPool.Hash.Ripemd160
import NotaryPool.Script.Error

/-!
# Multisignature scripts

A redeem script asks for signatures under `m` of `n` keys. An output pays to the hash of it.

* `Multisig.encode`, `Multisig.parse`: the redeem script of a threshold and keys;
* `ScriptHash.script`, `ScriptHash.hash?`: the output script of a hash, and the hash in it.
-/

namespace NotaryPool

/-! ## Redeem scripts -/

/-- A threshold and the keys of a redeem script, in their order. -/
structure Multisig where
  required : UInt8
  keys : List PublicKey
deriving DecidableEq

namespace Multisig

/-- The operation that ends a redeem script. -/
def checkMultisig : UInt8 := 0xae

/-- The operation that pushes a small number. -/
def smallNumber (n : UInt8) : UInt8 := if n = 0 then 0 else 0x50 + n

/-- The small number that an operation pushes, from one to sixteen. -/
def ofSmallNumber? (op : UInt8) : Option UInt8 :=
  if 0x51 ≤ op ∧ op ≤ 0x60 then some (op - 0x50) else none

/-- The redeem script of a threshold and keys. -/
def encode (required : UInt8) (keys : List PublicKey) : Bytes :=
  smallNumber required :: (keys.flatMap (fun k => 33 :: k.toBytes)
    ++ [smallNumber (UInt8.ofNat keys.length), checkMultisig])

@[simp] theorem length_encode (required : UInt8) (keys : List PublicKey) :
    (encode required keys).length = 34 * keys.length + 3 := by
  have flat : (keys.flatMap fun k => 33 :: k.toBytes).length = 34 * keys.length := by
    induction keys with
    | nil => rfl
    | cons k keys ih => simp only [List.flatMap_cons, List.length_append, List.length_cons,
        PublicKey.length_toBytes, ih]; omega
  simp only [encode, List.length_cons, List.length_append, flat, List.length_nil]

/-- The keys pushed one after the other. -/
def parseKeys (script : Bytes) : Except ScriptError (List PublicKey) :=
  match script with
  | [] => .ok []
  | size :: rest =>
    if (size = 33 ∨ size = 65) ∧ size.toNat ≤ rest.length then
      match PublicKey.ofBytes? (rest.take size.toNat) with
      | some key => (parseKeys (rest.drop size.toNat)).map (key :: ·)
      | none => .error .pubkeyType
    else .error .notMultisig
termination_by script.length
decreasing_by simp only [List.length_drop, List.length_cons]; omega

/-- Reads a redeem script. -/
def parse (script : Bytes) : Except ScriptError Multisig := do
  let size := script.length
  if size < 3 ∨ script.getLast? ≠ some checkMultisig then throw .notMultisig
  let some required := ofSmallNumber? (script.getD 0 0) | throw .notMultisig
  let some count := ofSmallNumber? (script.getD (size - 2) 0) | throw .notMultisig
  let keys ← parseKeys ((script.drop 1).take (size - 3))
  if keys.length ≠ count.toNat ∨ count < required then throw .notMultisig
  return ⟨required, keys⟩

end Multisig

/-! ## Outputs that pay to a hash of a script -/

namespace ScriptHash

/-- The output script that pays to the script with a given hash. -/
def script (hash : Hash160) : Bytes := 0xa9 :: 20 :: (hash.toList ++ [0x87])

/-- The output script that pays to a redeem script. -/
def ofRedeem (redeem : Bytes) : Bytes := script (Ripemd160.keyHash redeem)

@[simp] theorem length_script (hash : Hash160) : (script hash).length = 23 := by simp [script]

/-- The hash that an output script pays to. -/
def hash? (output : Bytes) : Option Hash160 :=
  let hash : Hash160 := Vector.ofFn fun i => output.getD (2 + i.val) 0
  if output = script hash then some hash else none

/-- Exactly the output scripts of a hash have one. -/
theorem hash?_eq_some_iff {output : Bytes} {hash : Hash160} :
    hash? output = some hash ↔ output = script hash := by
  have read : ∀ h : Hash160, (Vector.ofFn fun i : Fin 20 => (script h).getD (2 + i.val) 0) = h := by
    intro h
    ext i hi
    have hl : i < h.toList.length := by simpa using hi
    simp [script, List.getElem?_append_left hl, Nat.add_comm 2 i, Vector.getElem?_eq_getElem hi]
  constructor
  · intro h
    simp only [hash?, Option.ite_none_right_eq_some, Option.some.injEq] at h
    rw [← h.2]; exact h.1
  · rintro rfl
    simp only [hash?, read, if_pos]

end ScriptHash

end NotaryPool
