import NotaryPool.Sealing.KeyCipher
import NotaryPool.Series.Basic
import NotaryPool.Series.Catalog
import NotaryPool.OrderedMap

/-!
# Stored series

A series is stored as a record whose two lists of keys are sealed blobs.

* `KeyList.encodePubs`, `KeyList.encodePrivs` and their decoders: the texts inside the blobs;
* `SeriesRecord`: what is stored of a series;
* `SeriesStore`: the records of all pools, on a medium that may fail.
-/

namespace NotaryPool

/-! ## Lists of keys as bytes -/

namespace KeyList

/-- The public keys, one after the other. -/
def encodePubs (keys : List Xpub) : Bytes := keys.flatMap Xpub.encode

/-- A slot: zero if it is free, else one and the private key. -/
def encodeSlot : Option Xpriv → Bytes
  | none => [0]
  | some key => 1 :: key.encode

/-- The slots, one after the other. -/
def encodePrivs (slots : List (Option Xpriv)) : Bytes := slots.flatMap encodeSlot

/-- Reads public keys until nothing is left. -/
def decodePubs? (bs : Bytes) : Option (List Xpub) :=
  if bs = [] then some []
  else if _h : extendedKeyLength ≤ bs.length then
    match Xpub.decode (bs.take extendedKeyLength) with
    | .ok key => (decodePubs? (bs.drop extendedKeyLength)).map (key :: ·)
    | .error _ => none
  else none
termination_by bs.length
decreasing_by simp only [List.length_drop, extendedKeyLength] at *; omega

/-- Reads slots until nothing is left. -/
def decodePrivs? (bs : Bytes) : Option (List (Option Xpriv)) :=
  match bs with
  | [] => some []
  | flag :: rest =>
    if flag = 0 then (decodePrivs? rest).map (none :: ·)
    else if flag = 1 ∧ extendedKeyLength ≤ rest.length then
      match Xpriv.decode (rest.take extendedKeyLength) with
      | .ok key => (decodePrivs? (rest.drop extendedKeyLength)).map (some key :: ·)
      | .error _ => none
    else none
termination_by bs.length
decreasing_by
  · simp
  · simp only [List.length_drop, List.length_cons]; omega

end KeyList

/-! ## Records -/

/-- What is stored of a series. -/
structure SeriesRecord where
  version : UInt32
  active : Bool
  required : UInt8
  publicBlob : Bytes
  privateBlob : Bytes
deriving DecidableEq

/-- Why the medium that keeps the records failed. -/
inductive SeriesStoreError where
  | backend (text : String)
deriving DecidableEq, Repr

/-- The name of an error. -/
def SeriesStoreError.name : SeriesStoreError → String
  | .backend _ => "Backend"

/-- The text of an error. -/
def SeriesStoreError.message : SeriesStoreError → String
  | .backend text => s!"series storage backend failure - {text}"

/-- The records of all pools. While `failure` is set, the medium refuses to read and to write. -/
structure SeriesStore where
  pools : OrderedMap String (Catalog SeriesRecord)
  failure : Option String

namespace SeriesStore

/-- A store without records. -/
def empty : SeriesStore := ⟨.empty, none⟩

/-- The records of a pool, whether or not the medium works. -/
def records (s : SeriesStore) (pool : String) : Catalog SeriesRecord :=
  (s.pools.find? pool).getD []

/-- Writes the record of a series. -/
def put (s : SeriesStore) (pool : String) (id : SeriesId) (record : SeriesRecord) :
    Except SeriesStoreError SeriesStore :=
  match s.failure with
  | some text => .error (.backend text)
  | none => .ok { s with pools := s.pools.insert pool (Catalog.insert id record (s.records pool)) }

/-- Reads all records of a pool. -/
def loadAll (s : SeriesStore) (pool : String) : Except SeriesStoreError (Catalog SeriesRecord) :=
  match s.failure with
  | some text => .error (.backend text)
  | none => .ok (s.records pool)

end SeriesStore

end NotaryPool
