import NotaryPool.Chain.Transaction

/-!
# Script errors

* `ScriptError`: why a spending script is refused;
* `ScriptError.message`: the text of an error.
-/

namespace NotaryPool

/-- Why a spending script is refused. -/
inductive ScriptError where
  | truncatedPush
  | sigPushOnly
  | emptySigScript
  | notP2sh
  | scriptHashMismatch
  | notMultisig
  | pubkeyType
  | stackSize (expected found : Nat)
  | nonNullDummy
  | sigDer
  | sigHighS
  | sigHashType
  | checkMultisigFailed
  | nullFail
  | noInput (index : Nat)
  | prevouts (inputs spent : Nat) (txid : Hash256)
deriving DecidableEq

/-- The name of an error. -/
def ScriptError.name : ScriptError → String
  | .truncatedPush => "TruncatedPush"
  | .sigPushOnly => "SigPushOnly"
  | .emptySigScript => "EmptySigScript"
  | .notP2sh => "NotP2sh"
  | .scriptHashMismatch => "ScriptHashMismatch"
  | .notMultisig => "NotMultisig"
  | .pubkeyType => "PubkeyType"
  | .stackSize _ _ => "StackSize"
  | .nonNullDummy => "NonNullDummy"
  | .sigDer => "SigDer"
  | .sigHighS => "SigHighS"
  | .sigHashType => "SigHashType"
  | .checkMultisigFailed => "CheckMultisigFailed"
  | .nullFail => "NullFail"
  | .noInput _ => "NoInput"
  | .prevouts _ _ _ => "Prevouts"

/-- The text of an error. -/
def ScriptError.message : ScriptError → String
  | .truncatedPush => "script contains a data push running past its end."
  | .sigPushOnly => "signature script contains non-push operations."
  | .emptySigScript => "signature script is empty."
  | .notP2sh => "previous output is not a pay-to-script-hash one."
  | .scriptHashMismatch => "redeem script doesn't match the hash committed in the previous output."
  | .notMultisig => "redeem script is not a standard multisig script."
  | .pubkeyType => "redeem script contains an invalid public key."
  | .stackSize expected found =>
    s!"signature script leaves {found} elements on the stack while {expected} are required."
  | .nonNullDummy => "dummy element consumed by OP_CHECKMULTISIG is not empty."
  | .sigDer => "signature is not strictly DER-encoded."
  | .sigHighS => "signature has a high S value."
  | .sigHashType => "signature uses an unsupported sighash type."
  | .checkMultisigFailed => "signatures don't satisfy the multisig redeem script."
  | .nullFail => "failed signature check used a non-empty signature."
  | .noInput index => s!"transaction has no input #{index}."
  | .prevouts inputs spent txid =>
    s!"number of inputs ({inputs}) doesn't match to the number of provided prevouts ({spent})"
      ++ s!" for signature hasher on tx {txidText txid}."

end NotaryPool
