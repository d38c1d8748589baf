import LawRegistry.Lib.Calls
import LawRegistry.Agreements
/-!
# The L2 registry

`DocRegistryL2.sol`. Token ids count up from 0; `_zoneHashToId` holds the id plus one, so that 0
is a hash nobody claimed. The names clash with overloads in the source, which are told apart
here by `ByHash`.
-/

namespace LawRegistry

structure DocRegistryL2 extends ERC721 where
  _zoneAgreements : Agreements
  _zoneHashToId : Bytes32 → Uint256
  _names : Uint256 → Bytes
  counter : Uint256

namespace DocRegistryL2

/-- The storage the constructor leaves. -/
def empty : DocRegistryL2 :=
  { ERC721.empty with
    _zoneAgreements := fun _ _ _ => []
    _zoneHashToId := fun _ => 0
    _names := fun _ => []
    counter := 0 }

def registryType : BitVec 8 := 2

section Calls
variable (keccak256 : Bytes → Bytes32) (msgSender : Address) (s : DocRegistryL2)

def claimZone (zoneName : Bytes) : Except Revert (DocRegistryL2 × List Event) := do
  let hashed := keccak256 zoneName
  require (s._zoneHashToId hashed = 0) "no minty twice"
  let (tokens, events) ← s._mint msgSender s.counter
  let s := { s with toERC721 := tokens }
  let s := { s with _zoneHashToId := Function.update s._zoneHashToId hashed (← checkedAdd s.counter 1) }
  let s := { s with _names := Function.update s._names s.counter zoneName }
  let s := { s with counter := ← checkedAdd s.counter 1 }
  return (s, events.map .erc721)

def updateAgreement (zone : Uint256) (key : Bytes32) (revisionName value : Bytes) :
    Except Revert (DocRegistryL2 × List Event) := do
  let (agreements, events) ←
    publish keccak256 msgSender s.toERC721 s._zoneAgreements zone key revisionName value
  return ({ s with _zoneAgreements := agreements }, events)

def body : Op → Except Revert (DocRegistryL2 × List Event)
  | .claimZone zoneName => claimZone keccak256 msgSender s zoneName
  | .updateAgreement zone key revisionName value => updateAgreement keccak256 msgSender s zone key revisionName value
  | .erc721 op => do
    let (tokens, events) ← ERC721.call msgSender s.toERC721 op
    return ({ s with toERC721 := tokens }, events.map .erc721)

end Calls

section Reads
variable (s : DocRegistryL2)

def zoneAgreement (zone : Uint256) (key revision : Bytes32) : Bytes := s._zoneAgreements zone key revision

def zoneID (zone : Bytes32) : Except Revert Uint256 := checkedSub (s._zoneHashToId zone) 1

def zoneAgreementByHash (zone key revision : Bytes32) : Except Revert Bytes := do
  return s.zoneAgreement (← s.zoneID zone) key revision

def name (zone : Uint256) : Bytes := s._names zone

def nameByHash (zone : Bytes32) : Except Revert Bytes := do
  return s._names (← s.zoneID zone)

def zoneOwner (zone : Bytes32) : Except Revert Address := do
  s.ownerOf (← s.zoneID zone)

end Reads

def contract (keccak256 : Bytes → Bytes32) : Calls.Contract Address Op DocRegistryL2 Event Reply Revert where
  init := empty
  body sender op s := body keccak256 sender s op
  hook := Op.hook

end DocRegistryL2

end LawRegistry
