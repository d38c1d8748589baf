import LawRegistry.Lib.Calls
import LawRegistry.Agreements
/-!
# The L1 registry

`DocRegistry.sol`. A zone's token id is the hash of its name.
-/

namespace LawRegistry

structure DocRegistry extends ERC721 where
  _zoneAgreements : Agreements
  _names : Bytes32 → Bytes

namespace DocRegistry

/-- The storage the constructor leaves. -/
def empty : DocRegistry := { ERC721.empty with _zoneAgreements := fun _ _ _ => [], _names := fun _ => [] }

def registryType : BitVec 8 := 1

section Calls
variable (keccak256 : Bytes → Bytes32) (msgSender : Address) (s : DocRegistry)

def claimZone (zoneName : Bytes) : Except Revert (DocRegistry × List Event) := do
  let _hash := keccak256 zoneName
  let (tokens, events) ← s._mint msgSender _hash
  let s := { s with toERC721 := tokens }
  let s := { s with _names := Function.update s._names _hash zoneName }
  return (s, events.map .erc721)

def updateAgreement (zone key : Bytes32) (revisionName value : Bytes) :
    Except Revert (DocRegistry × List Event) := do
  let (agreements, events) ←
    publish keccak256 msgSender s.toERC721 s._zoneAgreements zone key revisionName value
  return ({ s with _zoneAgreements := agreements }, events)

def body : Op → Except Revert (DocRegistry × List Event)
  | .claimZone zoneName => claimZone keccak256 msgSender s zoneName
  | .updateAgreement zone key revisionName value => updateAgreement keccak256 msgSender s zone key revisionName value
  | .erc721 op => do
    let (tokens, events) ← ERC721.call msgSender s.toERC721 op
    return ({ s with toERC721 := tokens }, events.map .erc721)

end Calls

section Reads
variable (s : DocRegistry)

def zoneAgreement (zone key revision : Bytes32) : Bytes := s._zoneAgreements zone key revision

def name (zone : Bytes32) : Bytes := s._names zone

def zoneID (zone : Bytes32) : Uint256 := zone

def zoneOwner (zone : Bytes32) : Except Revert Address := s.ownerOf (zoneID zone)

end Reads

def contract (keccak256 : Bytes → Bytes32) : Calls.Contract Address Op DocRegistry Event Reply Revert where
  init := empty
  body sender op s := body keccak256 sender s op
  hook := Op.hook

end DocRegistry

end LawRegistry
