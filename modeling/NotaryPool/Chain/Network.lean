/-!
# Networks

* `Network`: the chains that the settings can name;
* `AddressNetwork`: the three ways in which addresses are written. All test chains but the local
  one share a way.
-/

namespace NotaryPool

/-- The way in which addresses are written. -/
inductive AddressNetwork where
  | mainnet
  | testnet
  | regtest
deriving DecidableEq, Repr

/-- Whether coins of the network are worthless. -/
def AddressNetwork.isTestnet : AddressNetwork → Bool
  | .mainnet => false
  | .testnet | .regtest => true

/-- A chain. -/
inductive Network where
  | mainnet
  | testnet3
  | testnet4
  | signet
  | regtest
deriving DecidableEq, Repr

namespace Network

/-- The name by which a chain is shown. -/
def name : Network → String
  | .mainnet => "bitcoin"
  | .testnet3 => "testnet3"
  | .testnet4 => "testnet4"
  | .signet => "signet"
  | .regtest => "regtest"

/-- The chain with a given name. -/
def ofName? : String → Option Network
  | "mainnet" | "bitcoin" => some .mainnet
  | "testnet" | "testnet3" => some .testnet3
  | "testnet4" => some .testnet4
  | "signet" => some .signet
  | "regtest" => some .regtest
  | _ => none

/-- How addresses of a chain are written. -/
def addresses : Network → AddressNetwork
  | .mainnet => .mainnet
  | .testnet3 | .testnet4 | .signet => .testnet
  | .regtest => .regtest

/-- Every chain is found under the name by which it is shown. -/
theorem ofName?_name (n : Network) : ofName? n.name = some n := by cases n <;> rfl

end Network

end NotaryPool
