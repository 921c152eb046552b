import NotaryPool.Series.PoolAddress
import NotaryPool.Series.Record

/-!
# The registry of series

The registry holds all series of a pool. It writes each change to the store before it takes the
change over, so that what it holds and what is stored agree.

* `RegistryError`: why a change or a load is refused;
* `SeriesBook`: what other parts of the pool may ask a registry;
* `Registry.create`, `Registry.replace`, `Registry.empower`: changes, which answer with the error,
  if any, and the registry afterwards;
* `Registry.load`: the registry of the series in a store.
-/

namespace NotaryPool

/-- Why the registry refuses a change or a load. -/
inductive RegistryError where
  | zeroSeriesId
  | notSequential (series : SeriesId)
  | seriesExists (series : SeriesId)
  | unknownSeries (series : SeriesId)
  | alreadyEmpowered (series : SeriesId)
  | networkMismatch (series : SeriesId)
  | corruptedRecord (series : SeriesId)
  | series (error : SeriesError)
  | cipher (error : CipherError)
  | store (error : SeriesStoreError)
deriving DecidableEq

/-- The name of an error, followed by that of the one inside. -/
def RegistryError.name : RegistryError → String
  | .zeroSeriesId => "ZeroSeriesId"
  | .notSequential _ => "NotSequential"
  | .seriesExists _ => "SeriesExists"
  | .unknownSeries _ => "UnknownSeries"
  | .alreadyEmpowered _ => "AlreadyEmpowered"
  | .networkMismatch _ => "NetworkMismatch"
  | .corruptedRecord _ => "CorruptedRecord"
  | .series e => "Series." ++ e.name
  | .cipher e => "Cipher." ++ e.name
  | .store e => "Store." ++ e.name

/-- The text of an error. -/
def RegistryError.message : RegistryError → String
  | .zeroSeriesId => "series id 0 is reserved and can't be used."
  | .notSequential id => s!"series {id} can't be created before the previous series exists."
  | .seriesExists id => s!"series {id} already exists."
  | .unknownSeries id => s!"series {id} is not known to the pool."
  | .alreadyEmpowered id =>
    s!"series {id} already has private keys attached and can't be replaced."
  | .networkMismatch id =>
    s!"keys of series {id} belong to a network different from the pool network."
  | .corruptedRecord id => s!"stored data of series {id} are corrupted."
  | .series e => e.message
  | .cipher e => e.message
  | .store e => e.message

/-! ## Reading series -/

/-- Read access to the series of a pool. -/
structure SeriesBook where
  network : AddressNetwork
  find? : SeriesId → Option Series

namespace SeriesBook

/-- The address of the pool at a place. -/
def poolAddress (K : KeyScheme) (b : SeriesBook) (id : SeriesId) (branch : Branch)
    (index : Index) : Except DeriveError PoolAddress :=
  match b.find? id with
  | some series => PoolAddress.derive K id series branch index b.network
  | none => .error (.unknownSeries id)

/-- The change address of the pool at a place. -/
def changeAddress (K : KeyScheme) (b : SeriesBook) (id : SeriesId) (index : Index) :
    Except DeriveError ChangeAddress :=
  match b.find? id with
  | some series => ChangeAddress.derive K id series index b.network
  | none => .error (.unknownSeries id)

end SeriesBook

/-! ## The registry -/

/-- All series of a pool, with the store that keeps them and the cipher that seals them. -/
structure Registry where
  pool : String
  network : AddressNetwork
  cipher : KeyCipher
  store : SeriesStore
  series : Catalog Series

namespace Registry

/-- A registry without series. -/
def new (pool : String) (network : AddressNetwork) (cipher : KeyCipher) (store : SeriesStore) :
    Registry :=
  ⟨pool, network, cipher, store, []⟩

/-- A series of the registry. -/
def find? (r : Registry) (id : SeriesId) : Option Series := Catalog.find? r.series id

/-- What other parts of the pool may ask. -/
def book (r : Registry) : SeriesBook := ⟨r.network, r.find?⟩

/-- Whether all keys of a series belong to the network of the registry. -/
def accepts (r : Registry) (series : Series) : Bool :=
  series.pubs.all fun key => key.lineage.testnet == r.network.isTestnet

/-- The record of a series. -/
def toRecord (r : Registry) (series : Series) : Except CipherError SeriesRecord := do
  let publicBlob ← r.cipher.encrypt .publicKeys (KeyList.encodePubs series.pubs)
  let privateBlob ← r.cipher.encrypt .privateKeys (KeyList.encodePrivs series.privs)
  return ⟨series.version, series.active, series.required, publicBlob, privateBlob⟩

/-- The series of a record. -/
def ofRecord (K : KeyScheme) (cipher : KeyCipher) (id : SeriesId) (record : SeriesRecord) :
    Except RegistryError Series := do
  let publicText ← (cipher.decrypt .publicKeys record.publicBlob).mapError .cipher
  let some pubs := KeyList.decodePubs? publicText | throw (.corruptedRecord id)
  let privateText ← (cipher.decrypt .privateKeys record.privateBlob).mapError .cipher
  let some privs := KeyList.decodePrivs? privateText | throw (.corruptedRecord id)
  (Series.ofParts K record.version record.active record.required pubs privs).mapError .series

/-- Writes a series to the store and then takes it over. -/
def save (r : Registry) (id : SeriesId) (series : Series) :
    Except RegistryError Unit × Registry :=
  match r.toRecord series with
  | .error e => (.error (.cipher e), r)
  | .ok record =>
    match r.store.put r.pool id record with
    | .error e => (.error (.store e), r)
    | .ok store => (.ok (), { r with store, series := Catalog.insert id series r.series })

/-- A new series from texts of public keys, on the network of the registry. -/
def seriesOfKeys (K : KeyScheme) (r : Registry) (version : UInt32) (id : SeriesId)
    (required : UInt8) (texts : List String) : Except RegistryError Series := do
  let series ← (Series.ofKeys K version required texts).mapError .series
  if !r.accepts series then throw (.networkMismatch id)
  return series

/-- Whether a series must not be created: its number is zero, taken, or not the next one. -/
def creationError? (r : Registry) (id : SeriesId) : Option RegistryError :=
  if id.val = 0 then some .zeroSeriesId
  else if (r.find? id).isSome then some (.seriesExists id)
  else if id.val ≠ 1 ∧ (r.find? ⟨id.val - 1⟩).isNone then some (.notSequential id)
  else none

/-- Creates a series. -/
def create (K : KeyScheme) (r : Registry) (version : UInt32) (id : SeriesId) (required : UInt8)
    (texts : List String) : Except RegistryError Unit × Registry :=
  match r.creationError? id with
  | some e => (.error e, r)
  | none =>
    match r.seriesOfKeys K version id required texts with
    | .error e => (.error e, r)
    | .ok series => r.save id series

/-- Replaces the keys of a series that has no private keys yet. -/
def replace (K : KeyScheme) (r : Registry) (version : UInt32) (id : SeriesId) (required : UInt8)
    (texts : List String) : Except RegistryError Unit × Registry :=
  match r.find? id with
  | none => (.error (.unknownSeries id), r)
  | some old =>
    if old.isEmpowered then (.error (.alreadyEmpowered id), r)
    else
      match r.seriesOfKeys K version id required texts with
      | .error e => (.error e, r)
      | .ok series => r.save id series

/-- Attaches a private key to a series. -/
def empower (K : KeyScheme) (r : Registry) (id : SeriesId) (text : String) :
    Except RegistryError Unit × Registry :=
  match r.find? id with
  | none => (.error (.unknownSeries id), r)
  | some old =>
    match old.empower K text with
    | .error e => (.error (.series e), r)
    | .ok (_, series) => r.save id series

/-- Takes over the series of records, in the order of their numbers. -/
def loadRecords (K : KeyScheme) (r : Registry) :
    Catalog SeriesRecord → Except RegistryError Registry
  | [] => .ok r
  | (id, record) :: rest => do
    let series ← ofRecord K r.cipher id record
    if !r.accepts series then throw (.networkMismatch id)
    loadRecords K { r with series := Catalog.insert id series r.series } rest

/-- The registry of the series that a store has for a pool. -/
def load (K : KeyScheme) (pool : String) (network : AddressNetwork) (cipher : KeyCipher)
    (store : SeriesStore) : Except RegistryError Registry := do
  let records ← (store.loadAll pool).mapError .store
  loadRecords K (new pool network cipher store) records

end Registry

end NotaryPool
