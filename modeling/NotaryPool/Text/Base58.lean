import NotaryPool.Hash.Sha256

/-!
# Base58 text

Extended keys and addresses are written in an alphabet of 58 characters, with the first four bytes
of a double hash behind the payload as a checksum. A zero byte in front is the first character of
the alphabet; the rest is one number.

* `Base58.encode`, `Base58.decode`: bytes as text;
* `Base58.encodeChecked`, `Base58.decodeChecked`: the same with the checksum.
-/

namespace NotaryPool.Base58

/-- Why a text is not in this encoding. -/
inductive Error where
  /-- A byte of the text is outside of the alphabet. -/
  | invalidCharacter (byte : UInt8)
  /-- There are fewer bytes than the checksum has. -/
  | tooShort
  /-- The checksum in the text differs from that of its payload. -/
  | checksum (found expected : Nat)
deriving DecidableEq, Repr

/-- A number in hexadecimal, without leading zeros. -/
def hexNumber (n : Nat) : String := "0x" ++ String.ofList (Nat.toDigits 16 n)

/-- The text of an error. -/
def Error.message : Error → String
  | .invalidCharacter byte => "invalid base58 character " ++ hexNumber byte.toNat
  | .tooShort => "base58ck data not even long enough for a checksum"
  | .checksum found expected =>
    "base58ck checksum " ++ hexNumber found ++ " does not match expected " ++ hexNumber expected

/-- The alphabet, in the order of the digits. -/
def alphabet : List Char :=
  "123456789ABCDEFGHJKLMNPQRSTUVWXYZabcdefghijkmnopqrstuvwxyz".toList

/-- The digit that a byte of a text stands for. -/
def digit? (byte : UInt8) : Option Nat :=
  alphabet.findIdx? fun c => c.toNat == byte.toNat

/-- The digits of a number, least significant first; `fuel` bounds their count. -/
def digitsLE (base : Nat) : (fuel : Nat) → Nat → List Nat
  | 0, _ => []
  | fuel + 1, n => if n = 0 then [] else n % base :: digitsLE base fuel (n / base)

/-- The digits of a number, most significant first, without leading zeros. -/
def digits (base n : Nat) : List Nat := (digitsLE base (n.log2 + 1) n).reverse

/-- The text of a byte string. -/
def encode (bs : Bytes) : String :=
  let zeros := (bs.takeWhile (· == 0)).length
  String.ofList (List.replicate zeros '1'
    ++ (digits 58 (Bytes.toNatBE bs)).map fun d => alphabet.getD d '1')

/-- The number written by the bytes of a text. -/
def value : Nat → Bytes → Except Error Nat
  | acc, [] => .ok acc
  | acc, b :: rest =>
    match digit? b with
    | some d => value (acc * 58 + d) rest
    | none => .error (.invalidCharacter b)

/-- The bytes written by a text. -/
def decode (text : String) : Except Error Bytes := do
  let bytes := Bytes.ofString text
  let n ← value 0 bytes
  let zeros := (bytes.takeWhile (· == 49)).length
  return List.replicate zeros 0 ++ (digits 256 n).map UInt8.ofNat

/-- The four bytes that protect a payload. -/
def checksum (payload : Bytes) : Bytes := (Sha256.hashTwice payload).toList.take 4

/-- The text of a payload with its checksum. -/
def encodeChecked (payload : Bytes) : String := encode (payload ++ checksum payload)

/-- The payload of a text with a checksum. -/
def decodeChecked (text : String) : Except Error Bytes := do
  let bytes ← decode text
  if bytes.length < 4 then .error .tooShort
  else
    let payload := bytes.take (bytes.length - 4)
    let found := Bytes.toNatLE (bytes.drop (bytes.length - 4))
    let expected := Bytes.toNatLE (checksum payload)
    if found = expected then .ok payload else .error (.checksum found expected)

end NotaryPool.Base58
