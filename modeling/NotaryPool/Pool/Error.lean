import NotaryPool.Pool.CreditStore
import NotaryPool.Settings.Basic
import NotaryPool.Withdrawal.Round
import NotaryPool.Withdrawal.Selection

/-!
# Errors of a pool

* `PoolError`: the errors of all parts of a pool;
* `ErrorKind`: the coarse kinds in which operators see them.
-/

namespace NotaryPool

/-- An error of some part of a pool. -/
inductive PoolError where
  | registry (error : RegistryError)
  | derive (error : DeriveError)
  | selection (error : SelectionError)
  | withdrawal (error : RoundError)
  | signing (error : TxSigningError)
  | store (error : CreditStoreError)
  | settings (error : SettingsError)
  | roundMismatch (round : UInt32)
deriving DecidableEq

/-- The name of an error, followed by that of the one inside. -/
def PoolError.name : PoolError → String
  | .registry e => "Registry." ++ e.name
  | .derive e => "Derive." ++ e.name
  | .selection e => "Selection." ++ e.name
  | .withdrawal e => "Withdrawal." ++ e.name
  | .signing e => "Signing." ++ e.name
  | .store e => "Store." ++ e.name
  | .settings e => "Config." ++ e.name
  | .roundMismatch _ => "RoundMismatch"

/-- The text of an error. -/
def PoolError.message : PoolError → String
  | .registry e => e.message
  | .derive e => e.message
  | .selection e => e.message
  | .withdrawal e => e.message
  | .signing e => e.message
  | .store e => e.message
  | .settings e => e.message
  | .roundMismatch round =>
    s!"withdrawal round {round.toNat} was already processed with different parameters."

/-- A coarse kind of error. -/
inductive ErrorKind where
  | preconditionNotMet
  | invalidRange
  | keyChain
  | txSigning
  | rawSigning
  | storage
  | seriesManagement
  | configuration
deriving DecidableEq, Repr

/-- The words for a kind. -/
def ErrorKind.words : ErrorKind → String
  | .preconditionNotMet => "precondition not met"
  | .invalidRange => "invalid range"
  | .keyChain => "key chain"
  | .txSigning => "transaction signing"
  | .rawSigning => "raw signing"
  | .storage => "storage"
  | .seriesManagement => "series management"
  | .configuration => "configuration"

/-- The kind of an error. -/
def DeriveError.kind : DeriveError → ErrorKind
  | .invalidRange _ => .invalidRange
  | _ => .keyChain

/-- The kind of an error. -/
def PoolError.kind : PoolError → ErrorKind
  | .registry (.cipher _) | .registry (.store _) | .registry (.corruptedRecord _) => .storage
  | .registry _ => .seriesManagement
  | .derive e => e.kind
  | .selection (.derive e) => e.kind
  | .selection _ => .storage
  | .withdrawal (.derive e) => e.kind
  | .withdrawal (.rawSigning _) => .rawSigning
  | .withdrawal _ => .preconditionNotMet
  | .signing _ => .txSigning
  | .store _ | .roundMismatch _ => .storage
  | .settings _ => .configuration

end NotaryPool
