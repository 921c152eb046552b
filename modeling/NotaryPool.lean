import NotaryPool.Arithmetic
import NotaryPool.Bytes
import NotaryPool.Chain.Address
import NotaryPool.Chain.Amount
import NotaryPool.Chain.Network
import NotaryPool.Chain.Transaction
import NotaryPool.Curve.Ecdsa
import NotaryPool.Curve.Field
import NotaryPool.Curve.Key
import NotaryPool.Curve.Point
import NotaryPool.Curve.Signature
import NotaryPool.Decimal.Shortest
import NotaryPool.Hash.Padding
import NotaryPool.Hash.Ripemd160
import NotaryPool.Hash.Sha256
import NotaryPool.Hash.Sha512
import NotaryPool.Key.Extended
import NotaryPool.Key.Scheme
import NotaryPool.OrderedMap
import NotaryPool.Panic
import NotaryPool.Pool.Basic
import NotaryPool.Pool.Checked
import NotaryPool.Pool.CreditStore
import NotaryPool.Pool.Error
import NotaryPool.Proofs.Key.Extended
import NotaryPool.Proofs.OrderedMap
import NotaryPool.Proofs.Panic
import NotaryPool.Proofs.Pool.Balance
import NotaryPool.Proofs.Pool.Checked
import NotaryPool.Proofs.Pool.Custody
import NotaryPool.Proofs.Pool.History
import NotaryPool.Proofs.Pool.Rotation
import NotaryPool.Proofs.Pool.Store
import NotaryPool.Proofs.Script.Acceptance
import NotaryPool.Proofs.Script.Encoding
import NotaryPool.Proofs.Script.Grammar
import NotaryPool.Proofs.Script.Reading
import NotaryPool.Proofs.Script.Redeem
import NotaryPool.Proofs.Script.Relaxing
import NotaryPool.Proofs.Script.Scanning
import NotaryPool.Proofs.Script.Spending
import NotaryPool.Proofs.Script.Stages
import NotaryPool.Proofs.Script.StrictForm
import NotaryPool.Proofs.Sealing.Opening
import NotaryPool.Proofs.Series.Branches
import NotaryPool.Proofs.Series.Canonical
import NotaryPool.Proofs.Series.Catalog
import NotaryPool.Proofs.Series.Changes
import NotaryPool.Proofs.Series.Decoding
import NotaryPool.Proofs.Series.KeyList
import NotaryPool.Proofs.Series.KeyOrder
import NotaryPool.Proofs.Series.Lockstep
import NotaryPool.Proofs.Series.Members
import NotaryPool.Proofs.Series.Ranges
import NotaryPool.Proofs.Series.Reachable
import NotaryPool.Proofs.Series.Succession
import NotaryPool.Proofs.Signing.Collecting
import NotaryPool.Proofs.Signing.Refusals
import NotaryPool.Proofs.Signing.Threshold
import NotaryPool.Proofs.Signing.Validity
import NotaryPool.Proofs.Text.Base58
import NotaryPool.Proofs.Windows
import NotaryPool.Proofs.Withdrawal.Agreement
import NotaryPool.Proofs.Withdrawal.Bystanders
import NotaryPool.Proofs.Withdrawal.Candidates
import NotaryPool.Proofs.Withdrawal.Checked
import NotaryPool.Proofs.Withdrawal.Closing
import NotaryPool.Proofs.Withdrawal.Completion
import NotaryPool.Proofs.Withdrawal.Compliance
import NotaryPool.Proofs.Withdrawal.Conservation
import NotaryPool.Proofs.Withdrawal.Consistency
import NotaryPool.Proofs.Withdrawal.CreditOrder
import NotaryPool.Proofs.Withdrawal.Cuts
import NotaryPool.Proofs.Withdrawal.Draft
import NotaryPool.Proofs.Withdrawal.Dropping
import NotaryPool.Proofs.Withdrawal.Estimate
import NotaryPool.Proofs.Withdrawal.Halting
import NotaryPool.Proofs.Withdrawal.Layout
import NotaryPool.Proofs.Withdrawal.Ledger
import NotaryPool.Proofs.Withdrawal.Loop
import NotaryPool.Proofs.Withdrawal.Order
import NotaryPool.Proofs.Withdrawal.Outcomes
import NotaryPool.Proofs.Withdrawal.Outpoints
import NotaryPool.Proofs.Withdrawal.Parallel
import NotaryPool.Proofs.Withdrawal.Resumption
import NotaryPool.Proofs.Withdrawal.RollingBack
import NotaryPool.Proofs.Withdrawal.Selection
import NotaryPool.Proofs.Withdrawal.Shape
import NotaryPool.Proofs.Withdrawal.Splitting
import NotaryPool.Proofs.Withdrawal.Termination
import NotaryPool.Proofs.Withdrawal.Turn
import NotaryPool.Proofs.Withdrawal.Unpayable
import NotaryPool.Script.Error
import NotaryPool.Script.Multisig
import NotaryPool.Script.Push
import NotaryPool.Script.Spend
import NotaryPool.Sealing.ChaCha
import NotaryPool.Sealing.KeyCipher
import NotaryPool.Sealing.Poly
import NotaryPool.Series.AddressRange
import NotaryPool.Series.Basic
import NotaryPool.Series.BranchOrder
import NotaryPool.Series.Catalog
import NotaryPool.Series.Number
import NotaryPool.Series.PoolAddress
import NotaryPool.Series.Record
import NotaryPool.Series.Registry
import NotaryPool.Settings.Basic
import NotaryPool.Settings.Load
import NotaryPool.Settings.LogLevel
import NotaryPool.Settings.Toml.Document
import NotaryPool.Settings.Toml.Scalar
import NotaryPool.Settings.Toml.Value
import NotaryPool.Text.Base58
import NotaryPool.Text.Bech32
import NotaryPool.Withdrawal.Checked
import NotaryPool.Withdrawal.Credit
import NotaryPool.Withdrawal.Draft
import NotaryPool.Withdrawal.Policy
import NotaryPool.Withdrawal.Request
import NotaryPool.Withdrawal.Round
import NotaryPool.Withdrawal.Selection
import NotaryPool.Withdrawal.Signing
import NotaryPool.Withdrawal.Status
