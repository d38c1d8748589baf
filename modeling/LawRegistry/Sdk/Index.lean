import LawRegistry.Ids
import LawRegistry.Sdk.Packages
/-!
# The SDK

`index.ts`. The SDK sees of a chain what a provider answers, by address and function, and sends a
`Transaction`, which runs on the registry later. A contract object offers the functions of its
ABI, an overloaded one only under its full signature.
-/

namespace LawRegistry.Sdk

open Registry (Storage contract)

inductive Failure where
  /-- A property of, or a call to, something undefined. -/
  | typeError
  /-- `No default address for contract could be located`. -/
  | noDefaultAddress
  /-- ethers could not encode or decode a string. -/
  | invalidString
  | noContract
  | reverted (reason : Revert)
deriving DecidableEq, Repr

/-- The calls the SDK makes that send no transaction. -/
structure Provider where
  chainId : Nat
  registryType : Address → Except Failure (BitVec 8)
  zoneAgreement : Address → Bytes32 → Bytes32 → Bytes32 → Except Failure Bytes
  zoneID : Address → Bytes32 → Except Failure Uint256
  zoneOwner : Address → Bytes32 → Except Failure Address

/-- A contract object, with the ABI of one of the registries. -/
structure ContractObject where
  address : Address
  abi : Layer
deriving DecidableEq, Repr

/-- `config.contract`, where it is given. -/
inductive ContractArg where
  | address (a : Address)
  | object (c : ContractObject)
deriving DecidableEq, Repr

structure ReadConfig where
  contract : Option ContractArg
  provider : Option Provider

/-- `provider` is the signer's. -/
structure WriteConfig where
  contract : Option ContractArg
  provider : Provider

structure AddressEntry where
  address : Address
  type : Layer

/-- `addresses.ts`; the first address comes from a file of the build. -/
def addresses (addressFoundry : Address) : Nat → Option AddressEntry
  | 31337 => some ⟨addressFoundry, .l1⟩
  | 10 => some ⟨0x002b83f6166f467c430d2154bc30d46f6d5f501c, .l2⟩
  | _ => none

/-- A `zoneAgreement` call, always of the function with three `bytes32`. -/
structure Query where
  to_ : Address
  zone : Bytes32
  key : Bytes32
  revision : Bytes32
deriving DecidableEq, Repr

structure Transaction where
  to_ : Address
  /-- The registries share `claimZone`, but take a zone of different type in `updateAgreement`. -/
  abi : Layer
  op : Op
deriving DecidableEq, Repr

namespace ContractObject
variable (c : ContractObject) (zone key revision : Bytes32)

/-- `contract.zoneAgreement(...)`. The L2 registry overloads the name. -/
def zoneAgreement : Except Failure Query :=
  match c.abi with
  | .l1 => .ok ⟨c.address, zone, key, revision⟩
  | .l2 => .error .typeError

/-- `contract["zoneAgreement(bytes32,bytes32,bytes32)"](...)`. -/
def zoneAgreementBytes32 : Except Failure Query := .ok ⟨c.address, zone, key, revision⟩

end ContractObject

section Functions
variable (pkgs : Packages) (addresses : Nat → Option AddressEntry)

def encode (s : JSString) : Except Failure Bytes :=
  match pkgs.toUtf8Bytes s with
  | some b => .ok b
  | none => .error .invalidString

def decode (b : Bytes) : Except Failure JSString :=
  match pkgs.toUtf8String b with
  | some s => .ok s
  | none => .error .invalidString

def checkRegistryL1 (address : Address) (provider : Provider) : Except Failure Bool := do
  let r ← provider.registryType address
  return r == 1

/-- The contract object, and whether it is taken for the L1 registry. -/
def resolveContract (contract : Option ContractArg) (provider : Provider) : Except Failure (ContractObject × Bool) :=
  match contract with
  | none =>
    match addresses provider.chainId with
    | none => .error .noDefaultAddress
    | some entry =>
      let isL1 := entry.type == .l1
      .ok (⟨entry.address, if isL1 then .l1 else .l2⟩, isL1)
  | some (.address a) => do
    let isL1 ← checkRegistryL1 a provider
    return (⟨a, if isL1 then .l1 else .l2⟩, isL1)
  -- An object is not looked at, and `isL1` keeps its initial value.
  | some (.object c) => .ok (c, true)

def revisionQuery (zone key revision : JSString) (contract : Option ContractArg) (provider : Provider) :
    Except Failure Query := do
  let (contract, isL1) ← resolveContract addresses contract provider
  if isL1 then contract.zoneAgreement (pkgs.hash zone) (pkgs.hash key) (pkgs.hash revision)
  else contract.zoneAgreementBytes32 (pkgs.hash zone) (pkgs.hash key) (pkgs.hash revision)

/-- `mainnet` is the provider used when the configuration has none. -/
def revisionData (mainnet : Provider) (zone key revision : JSString) (config : Option ReadConfig) :
    Except Failure JSString :=
  match config with
  | none => .error .typeError
  | some config => do
    let provider := config.provider.getD mainnet
    let query ← revisionQuery pkgs addresses zone key revision config.contract provider
    decode pkgs (← provider.zoneAgreement query.to_ query.zone query.key query.revision)

def zoneOwner (mainnet : Provider) (zone : JSString) (config : Option ReadConfig) : Except Failure Address :=
  match config with
  | none => .error .typeError
  | some config => do
    let provider := config.provider.getD mainnet
    let (contract, _) ← resolveContract addresses config.contract provider
    provider.zoneOwner contract.address (pkgs.hash zone)

def createRevision (zone key revision ipfsCid : JSString) (config : WriteConfig) : Except Failure Transaction := do
  let (contract, isL1) ← resolveContract addresses config.contract config.provider
  if isL1 then
    let op := .updateAgreement (pkgs.hash zone) (pkgs.hash key) (← encode pkgs revision) (← encode pkgs ipfsCid)
    return ⟨contract.address, contract.abi, op⟩
  else
    let id ← config.provider.zoneID contract.address (pkgs.hash zone)
    let op := .updateAgreement id (pkgs.hash key) (← encode pkgs revision) (← encode pkgs ipfsCid)
    return ⟨contract.address, contract.abi, op⟩

def claimZone (zone : JSString) (config : WriteConfig) : Except Failure Transaction := do
  let (contract, _) ← resolveContract addresses config.contract config.provider
  return ⟨contract.address, contract.abi, .claimZone (← encode pkgs zone)⟩

end Functions

/-! ## A registry on a chain -/

section Chain
variable {L : Layer}

/-- An answer of the registry, where it is asked. -/
def answer {α : Type} (registry a : Address) (x : Except Revert α) : Except Failure α :=
  if a = registry then x.mapError .reverted else .error .noContract

/-- The chain with a registry at `registry`, in storage `s`. -/
def chain (chainId : Nat) (registry : Address) (s : Storage L) : Provider where
  chainId := chainId
  registryType a := answer registry a (.ok (Registry.registryType L))
  zoneAgreement a zone key revision := answer registry a (Registry.zoneAgreement s zone key revision)
  zoneID a zone := answer registry a (Registry.zoneID s zone)
  zoneOwner a zone := answer registry a (Registry.zoneOwner s zone)

/-- The registry has the function that is called. -/
def Transaction.reaches (t : Transaction) (registry : Address) (L : Layer) : Bool :=
  t.to_ == registry && (t.abi == L || t.op.isClaim)

/-- `t` runs on the registry, sent by `sender`. -/
def Transaction.execute (keccak256 : Bytes → Bytes32) (registry : Address) (s : Storage L) (t : Transaction)
    (sender : Address) : Except Failure (Storage L × List Event) :=
  if t.reaches registry L then ((contract keccak256 L).body sender t.op s).mapError .reverted else .error .noContract

end Chain

end LawRegistry.Sdk
