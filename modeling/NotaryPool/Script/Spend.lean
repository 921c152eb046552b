import NotaryPool.Key.Scheme
import NotaryPool.Script.Multisig
import NotaryPool.Script.Push

/-!
# Spending a multisignature output

Checks the signature script of an input against the output that it spends, under a choice of the
rules that nodes add to the bare minimum.

* `VerifyFlags`: the rules that can be switched;
* `RawSignature.isStrictDer`, `RawSignature.parse`: signatures as they stand in a script;
* `Spend.satisfied`: signatures match keys in the order of the keys;
* `Spend.verify`: the check of an input.
-/

namespace NotaryPool

/-- The rules that can be switched. -/
structure VerifyFlags where
  p2sh : Bool
  strictDer : Bool
  lowS : Bool
  nullDummy : Bool
  sigPushOnly : Bool
  cleanStack : Bool
  nullFail : Bool
deriving DecidableEq, Repr

/-- The rules that nodes apply before they relay a transaction. -/
def VerifyFlags.standard : VerifyFlags := ⟨true, true, true, true, true, true, true⟩

/-! ## Signatures in scripts -/

/-- A signature in its byte form followed by what it covers; empty for a missing one. -/
abbrev RawSignature := Bytes

namespace RawSignature

/-- Whether the bytes of an integer are the shortest ones, and not negative. -/
def isShortest : Bytes → Bool
  | [] => false
  | [b] => b < 0x80
  | b :: b' :: _ => b < 0x80 && !(b == 0 && b' < 0x80)

/-- Whether a signature is in the one byte form that nodes relay: a sequence of two shortest
integers, and one byte for what it covers. -/
def isStrictDer (sig : RawSignature) : Bool :=
  match sig with
  | tag :: total :: rTag :: rSize :: rest =>
    match rest.drop rSize.toNat with
    | sTag :: sSize :: tail =>
      9 ≤ sig.length && sig.length ≤ 73 && tag == 0x30 && total.toNat == sig.length - 3
        && tail.length == sSize.toNat + 1
        && rTag == 2 && isShortest (rest.take rSize.toNat)
        && sTag == 2 && isShortest (tail.take sSize.toNat)
    | _ => false
  | _ => false

/-- The values for what a signature covers that have a meaning. -/
def knownTypes : List UInt8 := [0x01, 0x02, 0x03, 0x81, 0x82, 0x83]

/-- The signature and what it covers. -/
def parse (sig : RawSignature) : Except ScriptError (Signature × UInt8) :=
  match sig.getLast? with
  | none => .error .sigDer
  | some type =>
    if type ∈ knownTypes then
      match Signature.ofDer? sig.dropLast with
      | some s => .ok (s, type)
      | none => .error .sigDer
    else .error .sigHashType

/-- Checks the byte form of a signature. A missing one passes. -/
def checkEncoding (flags : VerifyFlags) (sig : RawSignature) : Except ScriptError Unit := do
  if sig.isEmpty then return
  if flags.strictDer && !isStrictDer sig then throw .sigDer
  let (s, type) ← parse sig
  if flags.lowS && !s.isLow then throw .sigHighS
  if type ≠ Tx.sighashAll then throw .sigHashType

/-- The bytes of a signature that covers all inputs and outputs. -/
def ofSignature (s : Signature) : RawSignature := s.toDer ++ [Tx.sighashAll]

/-- Whether a signature is one of the message under the key. -/
def verifies (keys : KeyScheme) (message : Hash256) (sig : RawSignature) (key : PublicKey) : Bool :=
  match parse sig with
  | .ok (s, _) => keys.verify key message s
  | .error _ => false

end RawSignature

/-! ## The check of an input -/

namespace Spend

/-- Whether the signatures match keys in the order of the keys: each takes the first key left that
accepts it. -/
def satisfied (check : RawSignature → PublicKey → Bool) :
    List RawSignature → List PublicKey → Bool
  | [], _ => true
  | _ :: _, [] => false
  | sig :: sigs, key :: keys =>
    if check sig key then satisfied check sigs keys else satisfied check (sig :: sigs) keys

/-- Splits the stack below the redeem script into the dummy element and the signatures. -/
def splitStack (flags : VerifyFlags) (required : Nat) (stack : List Bytes) :
    Except ScriptError (Bytes × List RawSignature) :=
  let expected := required + 1
  if stack.length < expected ∨ (flags.cleanStack ∧ stack.length ≠ expected) then
    .error (.stackSize expected stack.length)
  else
    match stack.drop (stack.length - expected) with
    | dummy :: sigs => .ok (dummy, sigs)
    | [] => .error (.stackSize expected 0)

/-- The message that signatures for an input sign. The outputs spent by all inputs must be given. -/
def message (tx : Tx) (index : Nat) (prevouts : List TxOut) (redeem : Bytes) :
    Except ScriptError Hash256 :=
  if tx.inputs.length ≠ prevouts.length then
    .error (.prevouts tx.inputs.length prevouts.length tx.txid)
  else .ok (tx.sighash index redeem)

/-- Checks the signature script of an input. -/
def verify (keys : KeyScheme) (tx : Tx) (index : Nat) (prevouts : List TxOut)
    (flags : VerifyFlags) : Except ScriptError Unit := do
  let some input := tx.inputs[index]? | throw (.noInput index)
  let some prevout := prevouts[index]? | throw (.noInput index)
  let some hash := ScriptHash.hash? prevout.script | throw .notP2sh
  if input.sigScript.isEmpty then throw .emptySigScript
  let pushes ← Push.parse input.sigScript
  let some redeem := pushes.getLast? | throw .emptySigScript
  if flags.p2sh && Ripemd160.keyHash redeem != hash then throw .scriptHashMismatch
  let multisig ← Multisig.parse redeem
  let (dummy, sigs) ← splitStack flags multisig.required.toNat pushes.dropLast
  if flags.nullDummy && !dummy.isEmpty then throw .nonNullDummy
  sigs.forM (RawSignature.checkEncoding flags)
  let message ← message tx index prevouts redeem
  if satisfied (RawSignature.verifies keys message) sigs multisig.keys then return
  if flags.nullFail && sigs.any (!·.isEmpty) then throw .nullFail
  throw .checkMultisigFailed

end Spend

end NotaryPool
