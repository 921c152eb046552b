import NotaryPool.Key.Scheme
import NotaryPool.Series.Number

/-!
# Series of keys

A series is a group of extended public keys and the number of signatures that a spend needs. The
keys are listed in the order of their texts. Private keys are attached one by one, each to the
public key that it belongs to.

* `Slot`, `Series`: the data of a series;
* `SeriesError`: why keys do not make a series;
* `Series.ofParts`: the rules that every series keeps;
* `Series.ofKeys`: a new series from texts of public keys;
* `Series.empower`: attaches a private key.
-/

namespace NotaryPool

/-- A public key of a series, and the private key that belongs to it, once it is known. -/
structure Slot where
  pub : Xpub
  priv : Option Xpriv
deriving DecidableEq

/-- A group of keys with the number of signatures needed. -/
structure Series where
  version : UInt32
  active : Bool
  required : UInt8
  slots : List Slot
deriving DecidableEq

/-- Why keys do not make a series. -/
inductive SeriesError where
  | unsupportedVersion (version : UInt32)
  | tooFewKeys (keys : Nat)
  | tooManyKeys (keys : Nat)
  | noRequiredSigs
  | tooManyRequiredSigs (required : UInt8) (keys : Nat)
  | duplicateKey (key : Xpub)
  | keyIsPrivate
  | keyIsPublic
  | invalidKey (error : XkeyError)
  | keyMismatch
  | keySlotMismatch (pubs privs : Nat)
  | nonCanonicalOrder
deriving DecidableEq

/-- The name of an error. -/
def SeriesError.name : SeriesError → String
  | .unsupportedVersion _ => "UnsupportedVersion"
  | .tooFewKeys _ => "TooFewKeys"
  | .tooManyKeys _ => "TooManyKeys"
  | .noRequiredSigs => "NoRequiredSigs"
  | .tooManyRequiredSigs _ _ => "TooManyRequiredSigs"
  | .duplicateKey _ => "DuplicateKey"
  | .keyIsPrivate => "KeyIsPrivate"
  | .keyIsPublic => "KeyIsPublic"
  | .invalidKey _ => "InvalidKey"
  | .keyMismatch => "KeyMismatch"
  | .keySlotMismatch _ _ => "KeySlotMismatch"
  | .nonCanonicalOrder => "NonCanonicalOrder"

/-- The text of an error. -/
def SeriesError.message : SeriesError → String
  | .unsupportedVersion version => s!"series version {version.toNat} is not supported."
  | .tooFewKeys keys =>
    s!"series requires at least 3 public keys, while only {keys} were provided."
  | .tooManyKeys keys => s!"series may contain at most 15 public keys, while {keys} were provided."
  | .noRequiredSigs => "number of required signatures must be positive."
  | .tooManyRequiredSigs required keys =>
    s!"series requires {required.toNat} signatures, which exceeds the number of its keys ({keys})."
  | .duplicateKey key => s!"public key {key.toText} is provided more than once."
  | .keyIsPrivate =>
    "an extended private key was provided where an extended public key is expected."
  | .keyIsPublic =>
    "an extended public key was provided where an extended private key is expected."
  | .invalidKey e => "invalid extended key - " ++ e.message
  | .keyMismatch => "extended private key doesn't match any of the series public keys."
  | .keySlotMismatch pubs privs =>
    s!"series has {pubs} public keys but {privs} private key slots."
  | .nonCanonicalOrder => "public keys of the series are not in canonical order."

namespace Series

/-- The one version of series. -/
def knownVersion : UInt32 := 1

/-- The fewest keys of a series. -/
def minKeys : Nat := 3

/-- The most keys that fit into a redeem script. -/
def maxKeys : Nat := 15

/-! ## Views -/

/-- The public keys. -/
def pubs (s : Series) : List Xpub := s.slots.map (·.pub)

/-- The attached private keys, slot by slot. -/
def privs (s : Series) : List (Option Xpriv) := s.slots.map (·.priv)

/-- The number of keys. -/
def keyCount (s : Series) : Nat := s.slots.length

/-- The number of attached private keys. -/
def privateCount (s : Series) : Nat := (s.slots.filter (·.priv.isSome)).length

/-- Whether a private key is attached. -/
def isEmpowered (s : Series) : Bool := s.slots.any (·.priv.isSome)

/-- Whether a key belongs to a test network. -/
def isTestnet (s : Series) : Bool := s.slots.any (·.pub.lineage.testnet)

/-- The position of a public key. -/
def position? (s : Series) (key : Xpub) : Option Nat := s.slots.findIdx? (·.pub = key)

/-- The private key attached to a public key. -/
def privateKeyFor? (s : Series) (key : Xpub) : Option Xpriv :=
  (s.slots.find? (·.pub = key)).bind (·.priv)

/-! ## Making series -/

/-- Whether each text is smaller than the next one. -/
def isIncreasing : List String → Bool
  | a :: b :: rest => a < b && isIncreasing (b :: rest)
  | _ => true

/-- The first member that equals the next one. -/
def adjacent? {α : Type} (same : α → α → Bool) : List α → Option α
  | a :: b :: rest => if same a b then some a else adjacent? same (b :: rest)
  | _ => none

/-- Puts a series together from its parts and checks the rules that every series keeps. -/
def ofParts (K : KeyScheme) (version : UInt32) (active : Bool) (required : UInt8)
    (pubs : List Xpub) (privs : List (Option Xpriv)) : Except SeriesError Series := do
  let keys := pubs.length
  if version ≠ knownVersion then throw (.unsupportedVersion version)
  if keys < minKeys then throw (.tooFewKeys keys)
  if maxKeys < keys then throw (.tooManyKeys keys)
  if required = 0 then throw .noRequiredSigs
  if keys < required.toNat then throw (.tooManyRequiredSigs required keys)
  if privs.length ≠ keys then throw (.keySlotMismatch keys privs.length)
  if !isIncreasing (pubs.map Xpub.toText) then throw .nonCanonicalOrder
  let slots := List.zipWith Slot.mk pubs privs
  if slots.any (fun slot => slot.priv.any fun key => K.neuter? key ≠ some slot.pub) then
    throw .keyMismatch
  return ⟨version, active, required, slots⟩

/-- Reads a public key, and refuses the text of a private one. -/
def parsePub (text : String) : Except SeriesError Xpub :=
  match Xpriv.parse text with
  | .ok _ => .error .keyIsPrivate
  | .error _ =>
    match Xpub.parse text with
    | .ok key => .ok key
    | .error e => .error (.invalidKey e)

/-- Keys in the order of their texts. -/
def sortKeys (keys : List Xpub) : List Xpub :=
  ((keys.map fun k => (k.toText, k)).mergeSort fun a b => a.1 ≤ b.1).map (·.2)

/-- A new series from texts of public keys, in whatever order they come. -/
def ofKeys (K : KeyScheme) (version : UInt32) (required : UInt8) (texts : List String) :
    Except SeriesError Series := do
  let keys ← texts.mapM parsePub
  let keys := sortKeys keys
  if let some key := adjacent? (fun a b => a = b) keys then throw (.duplicateKey key)
  ofParts K version true required keys (keys.map fun _ => none)

/-! ## Attaching private keys -/

/-- The series with a private key put into a slot. -/
def attach (s : Series) (position : Nat) (key : Xpriv) : Series :=
  { s with slots := s.slots.modify position fun slot => { slot with priv := some key } }

/-- Attaches a private key to the public key that it belongs to; also gives the position. -/
def empower (K : KeyScheme) (s : Series) (text : String) : Except SeriesError (Nat × Series) :=
  match Xpub.parse text with
  | .ok _ => .error .keyIsPublic
  | .error _ =>
    match Xpriv.parse text with
    | .error e => .error (.invalidKey e)
    | .ok key =>
      match (K.neuter? key).bind s.position? with
      | some position => .ok (position, s.attach position key)
      | none => .error .keyMismatch

end Series

end NotaryPool
