import NotaryPool.Hash.Sha256

/-!
# Transactions

* `Outpoint`, `TxIn`, `TxOut`, `Tx`: the data of a transaction;
* `CompactSize.encode`: the counts and lengths inside a transaction;
* `Tx.serialize`, `Tx.size`: the bytes of a transaction and their number;
* `Tx.txid`, `Tx.ntxid`: the identifier, and the one that ignores the signature scripts;
* `Tx.sighash`: what a signature for an input signs.
-/

namespace NotaryPool

/-! ## Data -/

/-- A reference to an output of a transaction. -/
structure Outpoint where
  txid : Hash256
  vout : UInt32
deriving DecidableEq

/-- An identifier as text: the bytes from the last to the first. -/
def txidText (txid : Hash256) : String := Bytes.toHex txid.toList.reverse

/-- The text of a reference. -/
def Outpoint.toText (o : Outpoint) : String := s!"{txidText o.txid}:{o.vout.toNat}"

/-- An input: the output it spends, the script that allows it, and a sequence number. -/
structure TxIn where
  prev : Outpoint
  sigScript : Bytes
  sequence : UInt32
deriving DecidableEq

/-- An output: an amount and the script that guards it. -/
structure TxOut where
  value : Nat
  script : Bytes
deriving DecidableEq

/-- A transaction. -/
structure Tx where
  version : Int32
  inputs : List TxIn
  outputs : List TxOut
  lockTime : UInt32
deriving DecidableEq

/-! ## Counts -/

namespace CompactSize

/-- A count in one, three, five or nine bytes. -/
def encode (n : Nat) : Bytes :=
  if n < 0xfd then Bytes.ofNatLE 1 n
  else if n < 0x10000 then 0xfd :: Bytes.ofNatLE 2 n
  else if n < 0x100000000 then 0xfe :: Bytes.ofNatLE 4 n
  else 0xff :: Bytes.ofNatLE 8 n

/-- The number of bytes of a count. -/
def size (n : Nat) : Nat :=
  if n < 0xfd then 1 else if n < 0x10000 then 3 else if n < 0x100000000 then 5 else 9

@[simp] theorem length_encode (n : Nat) : (encode n).length = size n := by
  unfold encode size
  split
  · simp
  · split
    · simp
    · split <;> simp

end CompactSize

/-! ## Bytes of a transaction -/

/-- The bytes of a script with its length in front. -/
def sizedScript (script : Bytes) : Bytes := CompactSize.encode script.length ++ script

/-- The number of bytes of a script with its length in front. -/
def sizedScriptSize (length : Nat) : Nat := CompactSize.size length + length

@[simp] theorem length_sizedScript (script : Bytes) :
    (sizedScript script).length = sizedScriptSize script.length := by
  simp [sizedScript, sizedScriptSize]

/-- The bytes of an input. -/
def TxIn.serialize (i : TxIn) : Bytes :=
  i.prev.txid.toList ++ Bytes.ofNatLE 4 i.prev.vout.toNat ++ sizedScript i.sigScript
    ++ Bytes.ofNatLE 4 i.sequence.toNat

/-- The number of bytes of an input whose signature script has a given length. -/
def TxIn.sizeWith (scriptLength : Nat) : Nat := 40 + sizedScriptSize scriptLength

@[simp] theorem TxIn.length_serialize (i : TxIn) :
    i.serialize.length = TxIn.sizeWith i.sigScript.length := by
  simp [serialize, sizeWith]; omega

/-- The bytes of an output. -/
def TxOut.serialize (o : TxOut) : Bytes := Bytes.ofNatLE 8 o.value ++ sizedScript o.script

/-- The number of bytes of an output whose script has a given length. -/
def TxOut.sizeWith (scriptLength : Nat) : Nat := 8 + sizedScriptSize scriptLength

@[simp] theorem TxOut.length_serialize (o : TxOut) :
    o.serialize.length = TxOut.sizeWith o.script.length := by
  simp [serialize, sizeWith]

namespace Tx

/-- The bytes of a transaction. -/
def serialize (tx : Tx) : Bytes :=
  Bytes.ofNatLE 4 tx.version.toUInt32.toNat
    ++ CompactSize.encode tx.inputs.length ++ tx.inputs.flatMap TxIn.serialize
    ++ CompactSize.encode tx.outputs.length ++ tx.outputs.flatMap TxOut.serialize
    ++ Bytes.ofNatLE 4 tx.lockTime.toNat

/-- The number of bytes of a transaction, from the lengths of the scripts of its inputs and of its
outputs. -/
def sizeWith (inputs outputs : List Nat) : Nat :=
  8 + CompactSize.size inputs.length + (inputs.map TxIn.sizeWith).sum
    + CompactSize.size outputs.length + (outputs.map TxOut.sizeWith).sum

/-- The number of bytes of a transaction. -/
def size (tx : Tx) : Nat :=
  sizeWith (tx.inputs.map (·.sigScript.length)) (tx.outputs.map (·.script.length))

theorem length_serialize (tx : Tx) : tx.serialize.length = tx.size := by
  simp only [serialize, size, sizeWith, List.length_append, Bytes.length_ofNatLE,
    CompactSize.length_encode, List.length_flatMap, TxIn.length_serialize,
    TxOut.length_serialize, List.length_map, List.map_map, Function.comp_def]
  omega

/-! ## Identifiers and signed messages -/

/-- The identifier of a transaction. -/
def txid (tx : Tx) : Hash256 := Sha256.hashTwice tx.serialize

/-- The transaction without its signature scripts. -/
def stripped (tx : Tx) : Tx :=
  { tx with inputs := tx.inputs.map fun i => { i with sigScript := [] } }

/-- The identifier that does not change when a transaction is signed. -/
def ntxid (tx : Tx) : Hash256 := tx.stripped.txid

/-- The transaction with a signature script put into one input. -/
def withScript (tx : Tx) (index : Nat) (script : Bytes) : Tx :=
  { tx with inputs := tx.inputs.modify index fun i => { i with sigScript := script } }

/-- The number that says that a signature covers all inputs and outputs. -/
def sighashAll : UInt8 := 1

/-- What a signature for an input signs: the transaction with the script code in place of the
signature script of that input and none in the others. -/
def sighash (tx : Tx) (index : Nat) (scriptCode : Bytes) : Hash256 :=
  Sha256.hashTwice
    ((tx.stripped.withScript index scriptCode).serialize ++ Bytes.ofNatLE 4 sighashAll.toNat)

end Tx

end NotaryPool
