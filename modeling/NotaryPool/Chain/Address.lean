import NotaryPool.Chain.Network
import NotaryPool.Script.Multisig
import NotaryPool.Text.Base58
import NotaryPool.Text.Bech32

/-!
# Addresses

An address is the text of an output script of one of five kinds.

* `Destination`: the five kinds, `Destination.script` and `Destination.ofScript?`;
* `Address`: a destination on a network;
* `Address.toText`, `Address.parse`: the text of an address.
-/

namespace NotaryPool

/-! ## Destinations -/

/-- What an output can pay to and an address can name. -/
inductive Destination where
  | keyHash (hash : Hash160)
  | scriptHash (hash : Hash160)
  | witnessKeyHash (hash : Hash160)
  | witnessScriptHash (hash : Hash256)
  | taproot (x : Curve.Field)
deriving DecidableEq

namespace Destination

/-- The output script that pays to a destination. -/
def script : Destination → Bytes
  | keyHash hash => 0x76 :: 0xa9 :: 20 :: (hash.toList ++ [0x88, 0xac])
  | scriptHash hash => ScriptHash.script hash
  | witnessKeyHash hash => 0 :: 20 :: hash.toList
  | witnessScriptHash hash => 0 :: 32 :: hash.toList
  | taproot x => 0x51 :: 32 :: Bytes.ofNatBE 32 x.val

/-- The bytes from position `start` on, as many as the type says. -/
def slice (n : Nat) (script : Bytes) (start : Nat) : Vector UInt8 n :=
  Vector.ofFn fun i => script.getD (start + i.val) 0

/-- The first coordinate of a point, read from 32 bytes. -/
def coordinate? (bs : Bytes) : Option Curve.Field :=
  (PublicKey.ofX? (Bytes.toNatBE bs) false).map (·.x)

/-- The destination of an output script. -/
def ofScript? (output : Bytes) : Option Destination :=
  let candidates : List (Option Destination) :=
    [some (keyHash (slice 20 output 3)), some (scriptHash (slice 20 output 2)),
     some (witnessKeyHash (slice 20 output 2)), some (witnessScriptHash (slice 32 output 2)),
     if output.head? = some 0x51 then
       (coordinate? (slice 32 output 2).toList).map taproot
     else none]
  candidates.findSome? fun d? => d?.filter fun d => d.script == output

end Destination

/-! ## Addresses -/

/-- A destination on a network. -/
structure Address where
  destination : Destination
  network : AddressNetwork
deriving DecidableEq

/-- Why a text is not an address. -/
inductive AddressError where
  | base58 (error : Base58.Error)
  | padding
  | unrecognized (text : String)
  | publicKey
  | futureTaproot (text : String) (length : Nat)
  | checksumVariant (found : Bech32.Variant)
  | futureWitness (version : Nat)
  | witnessVersion (found : Nat)
deriving DecidableEq

/-- The text of an error. -/
def AddressError.message : AddressError → String
  | .base58 e => "wrong Base58 encoding of address data - " ++ e.message
  | .padding => "wrong Bech32 encoding of address data - invalid padding"
  | .unrecognized text => s!"unrecognized address format in '{text}'."
  | .publicKey => "wrong BIP340 public key"
  | .futureTaproot text length =>
    s!"unsupported future taproot version in address `{text}` detected by a length of {length}."
  | .checksumVariant found => s!"address has an invalid Bech32 variant {found.name}."
  | .futureWitness version =>
    s!"address has an unsupported future witness version segwit{version}."
  | .witnessVersion found =>
    "segwit address has an invalid witness version 0x" ++ Bytes.toHex [UInt8.ofNat found] ++ "."

namespace Address

/-- The readable part of a segregated-witness address. -/
def readable : AddressNetwork → String
  | .mainnet => "bc"
  | .testnet => "tb"
  | .regtest => "bcrt"

/-- The network with a given readable part. -/
def ofReadable? (part : List Char) : Option AddressNetwork :=
  [AddressNetwork.mainnet, .testnet, .regtest].find? fun n => (readable n).toList == part

/-- The byte in front of a hash of a key. -/
def keyByte (testnet : Bool) : UInt8 := if testnet then 0x6f else 0x00

/-- The byte in front of a hash of a script. -/
def scriptByte (testnet : Bool) : UInt8 := if testnet then 0xc4 else 0x05

/-- The text of a witness program. -/
def witnessText (network : AddressNetwork) (version : Nat) (program : Bytes) : String :=
  Bech32.encode (if version = 0 then .bech32 else .bech32m) (readable network).toList
    (version :: Bech32.regroup program)

/-- The text of an address. -/
def toText (a : Address) : String :=
  match a.destination with
  | .keyHash hash => Base58.encodeChecked (keyByte a.network.isTestnet :: hash.toList)
  | .scriptHash hash => Base58.encodeChecked (scriptByte a.network.isTestnet :: hash.toList)
  | .witnessKeyHash hash => witnessText a.network 0 hash.toList
  | .witnessScriptHash hash => witnessText a.network 0 hash.toList
  | .taproot x => witnessText a.network 1 (Bytes.ofNatBE 32 x.val)

/-- Reads the payload of a checked base-58 text: a byte for the kind and a hash. -/
def ofPayload? (payload : Bytes) : Option Address :=
  match payload with
  | kind :: rest =>
    if rest.length ≠ 20 then none
    else
      let hash := Destination.slice 20 rest 0
      if kind = keyByte false then some ⟨.keyHash hash, .mainnet⟩
      else if kind = scriptByte false then some ⟨.scriptHash hash, .mainnet⟩
      else if kind = keyByte true then some ⟨.keyHash hash, .testnet⟩
      else if kind = scriptByte true then some ⟨.scriptHash hash, .testnet⟩
      else none
  | [] => none

/-- Reads the groups of a segregated-witness address: a version and a program. Version zero goes
with the first checksum variant and one with the second. -/
def ofGroups (text : String) (network : AddressNetwork) (groups : List Nat)
    (variant : Bech32.Variant) : Except AddressError Address :=
  match groups with
  | [] => .error (.unrecognized text)
  | version :: rest =>
    if 16 < version then .error (.witnessVersion version)
    else
      match Bech32.bytes? rest with
      | none => .error .padding
      | some program =>
        if 1 < version then .error (.futureWitness version)
        else if version = 0 ∧ variant = .bech32 ∧ program.length = 20 then
          .ok ⟨.witnessKeyHash (Destination.slice 20 program 0), network⟩
        else if version = 0 ∧ variant = .bech32 ∧ program.length = 32 then
          .ok ⟨.witnessScriptHash (Destination.slice 32 program 0), network⟩
        else if version = 1 ∧ variant = .bech32m ∧ program.length = 32 then
          match Destination.coordinate? program with
          | some x => .ok ⟨.taproot x, network⟩
          | none => .error .publicKey
        else if version = 1 ∧ variant = .bech32m then
          .error (.futureTaproot text program.length)
        else .error (.checksumVariant variant)

/-- Reads an address. -/
def parse (text : String) : Except AddressError Address :=
  match Bech32.decode? text with
  | some (part, groups, variant) =>
    match ofReadable? part with
    | some network => ofGroups text network groups variant
    | none =>
      match Base58.decodeChecked text with
      | .ok payload => ((ofPayload? payload).map .ok).getD (.error (.unrecognized text))
      | .error e => .error (.base58 e)
  | none =>
    match (Base58.decodeChecked text).toOption.bind ofPayload? with
    | some address => .ok address
    | none => .error (.unrecognized text)

end Address

end NotaryPool
