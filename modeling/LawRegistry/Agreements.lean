import Mathlib.Tactic.Tauto
import LawRegistry.ERC721
import LawRegistry.Tokens
/-!
# What the two registries share

Their public calls and events, and the body of `updateAgreement`, which differs only in the type
of the zone. `keccak256` is a parameter throughout.
-/

namespace LawRegistry

/-- CIDs by zone (token id), key and revision. -/
abbrev Agreements := Uint256 → Bytes32 → Bytes32 → Bytes

namespace Agreements

def set (a : Agreements) (zone : Uint256) (key revision : Bytes32) (value : Bytes) : Agreements :=
  Function.update a zone (Function.update (a zone) key (Function.update (a zone key) revision value))

@[simp] theorem set_apply (a : Agreements) (zone z : Uint256) (key k revision r : Bytes32) (value : Bytes) :
    set a zone key revision value z k r = if z = zone ∧ k = key ∧ r = revision then value else a z k r := by
  by_cases hz : z = zone
  · subst hz
    by_cases hk : k = key
    · subst hk
      by_cases hr : r = revision <;> simp [set, hr]
    · simp [set, hk]
  · simp [set, hz]

end Agreements

inductive Event where
  | erc721 (e : ERC721.Event)
  | AgreementUpdated (zone : Uint256) (key : Bytes32) (value : Bytes) (revision : Bytes32)
deriving DecidableEq, Repr

inductive Op where
  | claimZone (zoneName : Bytes)
  | updateAgreement (zone : Uint256) (key : Bytes32) (revisionName value : Bytes)
  | erc721 (op : ERC721.Op)
deriving DecidableEq, Repr

def Op.hook : Op → Option (Option Reply → Except Revert Unit)
  | .erc721 op => ERC721.hook op
  | _ => none

/-- The bytes of `"latest"`. -/
def latest : Bytes := [0x6c, 0x61, 0x74, 0x65, 0x73, 0x74]

section
variable (keccak256 : Bytes → Bytes32)

/-- `updateAgreement`: the owner writes, and only `latest` may be overwritten. -/
def publish (msgSender : Address) (tokens : ERC721) (_zoneAgreements : Agreements) (zone : Uint256) (key : Bytes32)
    (revisionName value : Bytes) : Except Revert (Agreements × List Event) := do
  require ((← tokens.ownerOf zone) = msgSender) "not owner"
  let revisionID := keccak256 revisionName
  -- latest is an exception to the immutability rule
  if revisionID ≠ keccak256 latest then
    require ((_zoneAgreements zone key revisionID).length = 0) "exists"
  return (_zoneAgreements.set zone key revisionID value, [.AgreementUpdated zone key value revisionID])

/-- The revision may be written: it is `latest`, or nothing is stored. -/
def Writable (a : Agreements) (zone : Uint256) (key : Bytes32) (revision : Bytes32) : Prop :=
  revision = keccak256 latest ∨ a zone key revision = []

theorem publish_ok {msgSender : Address} {tokens : ERC721} {a : Agreements} {zone : Uint256} {key : Bytes32}
    {revisionName value : Bytes} {r} :
    publish keccak256 msgSender tokens a zone key revisionName value = .ok r ↔
      tokens._owners zone ≠ .zero ∧ tokens._owners zone = msgSender ∧
        Writable keccak256 a zone key (keccak256 revisionName) ∧
        (a.set zone key (keccak256 revisionName) value,
          [Event.AgreementUpdated zone key value (keccak256 revisionName)]) = r := by
  simp only [publish, Writable, bind_ok (x := tokens.ownerOf zone), require_bind_ok]
  constructor
  · rintro ⟨_, ho, rfl, h⟩
    obtain ⟨h0, rfl⟩ := ERC721.ownerOf_ok.1 ho
    split at h
    · simp only [require_bind_ok, List.length_eq_zero_iff, pure_ok] at h
      exact ⟨h0, rfl, .inr h.1, h.2⟩
    · rename_i hl
      exact ⟨h0, rfl, .inl (not_not.1 hl), pure_ok.1 h⟩
  · rintro ⟨h0, rfl, hw, rfl⟩
    refine ⟨_, ERC721.ownerOf_ok.2 ⟨h0, rfl⟩, rfl, ?_⟩
    split
    · rename_i hl
      simp only [require_bind_ok, List.length_eq_zero_iff, pure_ok]
      exact ⟨hw.resolve_left hl, trivial⟩
    · rfl

end

end LawRegistry
