import LawRegistry.DocRegistry
import LawRegistry.DocRegistryL2
import LawRegistry.Zones
/-!
# Both registries as one family

`L` stands for either registry: its storage, its contract and the reads both offer by zone hash.
`zones` forgets how ids are chosen, and `body_effect` says that both registries only ever do what
`Zones.Effect` allows. Theorems about a registry are about every `L`.
-/

namespace LawRegistry

open Calls (Contract outcome)

inductive Layer where
  | l1
  | l2
deriving DecidableEq, Repr

namespace Registry

abbrev Storage : Layer → Type
  | .l1 => DocRegistry
  | .l2 => DocRegistryL2

def contract (keccak256 : Bytes → Bytes32) : (L : Layer) → Contract Address Op (Storage L) Event Reply Revert
  | .l1 => DocRegistry.contract keccak256
  | .l2 => DocRegistryL2.contract keccak256

/-- The call's body runs through. -/
def Succeeds (keccak256 : Bytes → Bytes32) {L : Layer} (s : Storage L) (sender : Address) (op : Op) : Prop :=
  ∃ r, (contract keccak256 L).body sender op s = .ok r

def registryType : Layer → BitVec 8
  | .l1 => DocRegistry.registryType
  | .l2 => DocRegistryL2.registryType

/-! ## Reads -/

def tokens : {L : Layer} → Storage L → ERC721
  | .l1, s => s.toERC721
  | .l2, s => s.toERC721

/-- `zoneAgreement` by token id, which on L1 is the hash. -/
def agreementOf : {L : Layer} → Storage L → Uint256 → Bytes32 → Bytes32 → Bytes
  | .l1, s => s.zoneAgreement
  | .l2, s => s.zoneAgreement

/-- `name` by token id. -/
def nameOf : {L : Layer} → Storage L → Uint256 → Bytes
  | .l1, s => s.name
  | .l2, s => s.name

def zoneAgreement : {L : Layer} → Storage L → Bytes32 → Bytes32 → Bytes32 → Except Revert Bytes
  | .l1, s, zone, key, revision => .ok (s.zoneAgreement zone key revision)
  | .l2, s, zone, key, revision => s.zoneAgreementByHash zone key revision

def name : {L : Layer} → Storage L → Bytes32 → Except Revert Bytes
  | .l1, s, zone => .ok (s.name zone)
  | .l2, s, zone => s.nameByHash zone

def zoneID : {L : Layer} → Storage L → Bytes32 → Except Revert Uint256
  | .l1, _, zone => .ok (DocRegistry.zoneID zone)
  | .l2, s, zone => s.zoneID zone

def zoneOwner : {L : Layer} → Storage L → Bytes32 → Except Revert Address
  | .l1, s, zone => s.zoneOwner zone
  | .l2, s, zone => s.zoneOwner zone

/-- On L1 a hash is claimed if the token has an owner. -/
def idOfOwner (owner : Address) (zone : Bytes32) : Option Uint256 := if owner = .zero then none else some zone

/-- On L2 a hash is claimed if its entry is not 0. -/
def idOfEntry (entry : Uint256) : Option Uint256 := if entry = 0 then none else some (entry - 1)

def zones : {L : Layer} → Storage L → Zones
  | .l1, s => ⟨s.toERC721, s._zoneAgreements, s._names, fun h => idOfOwner (s._owners h) h⟩
  | .l2, s => ⟨s.toERC721, s._zoneAgreements, s._names, fun h => idOfEntry (s._zoneHashToId h)⟩

variable {keccak256 : Bytes → Bytes32} {L : Layer} {s s' : Storage L} {sender : Address} {op : Op}
  {events : List Event}

theorem idOfOwner_none {owner : Address} {zone : Bytes32} : idOfOwner owner zone = none ↔ owner = .zero := by
  simp [idOfOwner]

theorem idOfOwner_some {owner : Address} {zone id : Bytes32} :
    idOfOwner owner zone = some id ↔ owner ≠ .zero ∧ zone = id := by
  simp [idOfOwner]

theorem idOfEntry_none {entry : Uint256} : idOfEntry entry = none ↔ entry = 0 := by
  simp [idOfEntry]

theorem idOfEntry_some {entry id : Uint256} : idOfEntry entry = some id ↔ entry ≠ 0 ∧ entry - 1 = id := by
  simp [idOfEntry]

@[simp] theorem zones_tokens : (zones s).tokens = tokens s := by cases L <;> rfl
@[simp] theorem zones_agreements : (zones s).agreements = agreementOf s := by cases L <;> rfl
@[simp] theorem zones_names : (zones s).names = nameOf s := by cases L <;> rfl

end Registry

/-! ## The recipient's answer -/

/-- Every hook is the check of a safe transfer. -/
theorem Op.hook_some {op : Op} {check : Option Reply → Except Revert Unit} (h : op.hook = some check) :
    check = ERC721._afterReceived := by
  cases op with
  | claimZone | updateAgreement => cases h
  | erc721 op => cases op <;> cases h <;> rfl

namespace Registry
variable {keccak256 : Bytes → Bytes32} {L : Layer} {s : Storage L} {sender : Address} {op : Op}

theorem contract_hook : (contract keccak256 L).hook = Op.hook := by
  cases L <;> rfl

/-- A whole call succeeds if its body runs through and the recipient, if it asks one, acknowledges. -/
theorem outcome_ok {answer : Option Reply} :
    (∃ r, outcome (contract keccak256 L) sender op s answer = .ok r) ↔
      Succeeds keccak256 s sender op ∧ (op.hook.isSome = true → ERC721.acknowledged answer = true) := by
  unfold outcome Succeeds
  rw [contract_hook]
  cases hh : op.hook with
  | none => simp
  | some check =>
    rw [Op.hook_some hh]
    constructor
    · rintro ⟨r, h⟩
      obtain ⟨r', hb, h⟩ := bind_ok.1 h
      obtain ⟨u, hc, -⟩ := bind_ok.1 h
      exact ⟨⟨r', hb⟩, fun _ => ERC721.afterReceived_ok.1 hc⟩
    · rintro ⟨⟨r, hb⟩, ha⟩
      exact ⟨r, bind_ok.2 ⟨r, hb, bind_ok.2 ⟨(), ERC721.afterReceived_ok.2 (ha rfl), rfl⟩⟩⟩

end Registry

/-! ## The bodies -/

namespace DocRegistry
variable {keccak256 : Bytes → Bytes32} {s : DocRegistry} {sender : Address}

/-- `s` after `sender` claimed `zoneName`. -/
def claimed (keccak256 : Bytes → Bytes32) (s : DocRegistry) (sender : Address) (zoneName : Bytes) : DocRegistry :=
  { s with
    toERC721 := s.minted sender (keccak256 zoneName)
    _names := Function.update s._names (keccak256 zoneName) zoneName }

theorem claimZone_ok {zoneName : Bytes} {r} :
    claimZone keccak256 sender s zoneName = .ok r ↔ sender ≠ .zero ∧ s._owners (keccak256 zoneName) = .zero ∧
      (s.claimed keccak256 sender zoneName, [Event.erc721 (.Transfer .zero sender (keccak256 zoneName))]) = r := by
  simp only [claimZone, bind_ok, ERC721.mint_ok, pure_ok]
  constructor
  · rintro ⟨_, ⟨h0, hf, rfl⟩, rfl⟩
    exact ⟨h0, hf, rfl⟩
  · rintro ⟨h0, hf, rfl⟩
    exact ⟨_, ⟨h0, hf, rfl⟩, rfl⟩

theorem claimed_zones {zoneName : Bytes} (h0 : sender ≠ .zero) :
    Registry.zones (L := .l1) (s.claimed keccak256 sender zoneName) =
      (Registry.zones (L := .l1) s).claim keccak256 sender zoneName (keccak256 zoneName) := by
  simp only [Registry.zones, claimed, Zones.claim, Zones.mk.injEq, true_and]
  funext h
  by_cases hh : h = keccak256 zoneName
  · subst hh
    simp [Registry.idOfOwner_some, h0]
  · simp [hh]

end DocRegistry

namespace DocRegistryL2
variable {keccak256 : Bytes → Bytes32} {s : DocRegistryL2} {sender : Address}

/-- `s` after `sender` claimed `zoneName`. -/
def claimed (keccak256 : Bytes → Bytes32) (s : DocRegistryL2) (sender : Address) (zoneName : Bytes) :
    DocRegistryL2 :=
  { s with
    toERC721 := s.minted sender s.counter
    _zoneHashToId := Function.update s._zoneHashToId (keccak256 zoneName) (s.counter + 1)
    _names := Function.update s._names s.counter zoneName
    counter := s.counter + 1 }

theorem claimZone_ok {zoneName : Bytes} {r} :
    claimZone keccak256 sender s zoneName = .ok r ↔ s._zoneHashToId (keccak256 zoneName) = 0 ∧
      sender ≠ .zero ∧ s._owners s.counter = .zero ∧ s.counter.toNat + 1 < 2 ^ 256 ∧
      (s.claimed keccak256 sender zoneName, [Event.erc721 (.Transfer .zero sender s.counter)]) = r := by
  have h1 : (1 : Uint256).toNat = 1 := rfl
  simp only [claimZone, require_bind_ok, bind_ok (x := s._mint sender s.counter), ERC721.mint_ok,
    bind_ok (x := checkedAdd s.counter 1), checkedAdd_ok, h1, pure_ok]
  constructor
  · rintro ⟨hz, _, ⟨h0, hf, rfl⟩, _, ⟨hc, rfl⟩, _, ⟨-, rfl⟩, rfl⟩
    exact ⟨hz, h0, hf, hc, rfl⟩
  · rintro ⟨hz, h0, hf, hc, rfl⟩
    exact ⟨hz, _, ⟨h0, hf, rfl⟩, _, ⟨hc, rfl⟩, _, ⟨hc, rfl⟩, rfl⟩

theorem succ_ne_zero {a : Uint256} (h : a.toNat + 1 < 2 ^ 256) : a + 1 ≠ 0 := by
  bv_omega

theorem claimed_zones {zoneName : Bytes} (hc : s.counter.toNat + 1 < 2 ^ 256) :
    Registry.zones (L := .l2) (s.claimed keccak256 sender zoneName) =
      (Registry.zones (L := .l2) s).claim keccak256 sender zoneName s.counter := by
  simp only [Registry.zones, claimed, Zones.claim, Zones.mk.injEq, true_and]
  funext h
  by_cases hh : h = keccak256 zoneName
  · subst hh
    rw [Function.update_self, Function.update_self, Registry.idOfEntry_some]
    exact ⟨succ_ne_zero hc, BitVec.add_sub_cancel ..⟩
  · simp [hh]

/-- What a call that succeeds does, in three cases. -/
theorem body_cases {s' : DocRegistryL2} {op : Op} {events : List Event}
    (h : body keccak256 sender s op = .ok (s', events)) :
    -- A claim takes the next id.
    (∃ zoneName, op = .claimZone zoneName ∧ s._zoneHashToId (keccak256 zoneName) = 0 ∧ sender ≠ .zero ∧
      s._owners s.counter = .zero ∧ s.counter.toNat + 1 < 2 ^ 256 ∧ s' = s.claimed keccak256 sender zoneName ∧
      events = [.erc721 (.Transfer .zero sender s.counter)]) ∨
    -- A publication writes one slot.
    (∃ zone key revisionName value, op = .updateAgreement zone key revisionName value ∧ s._owners zone ≠ .zero ∧
      s._owners zone = sender ∧ Writable keccak256 s._zoneAgreements zone key (keccak256 revisionName) ∧
      s' = { s with _zoneAgreements := s._zoneAgreements.set zone key (keccak256 revisionName) value } ∧
      events = [.AgreementUpdated zone key value (keccak256 revisionName)]) ∨
    -- The token code changes the tokens.
    ∃ call tokens evs, op = .erc721 call ∧ ERC721.Effect sender s.toERC721 call tokens evs ∧
      s' = { s with toERC721 := tokens } ∧ events = evs.map .erc721 := by
  cases op with
  | claimZone zoneName =>
    obtain ⟨hz, h0, hf, hc, he⟩ := claimZone_ok.1 h
    cases he
    exact .inl ⟨zoneName, rfl, hz, h0, hf, hc, rfl, rfl⟩
  | updateAgreement zone key revisionName value =>
    obtain ⟨_, hp, hr⟩ := bind_ok.1 h
    obtain ⟨h0, ho, hw, rfl⟩ := (publish_ok keccak256).1 hp
    cases hr
    exact .inr (.inl ⟨zone, key, revisionName, value, rfl, h0, ho, hw, rfl, rfl⟩)
  | erc721 call =>
    obtain ⟨⟨t, evs⟩, hc, hr⟩ := bind_ok.1 h
    cases hr
    exact .inr (.inr ⟨call, t, evs, rfl, ERC721.call_iff.1 hc, rfl, rfl⟩)

end DocRegistryL2

namespace Registry
variable {keccak256 : Bytes → Bytes32} {L : Layer} {s s' : Storage L} {sender : Address} {op : Op}
  {events : List Event}

theorem l1_effect {s s' : DocRegistry} (h : DocRegistry.body keccak256 sender s op = .ok (s', events)) :
    (zones (L := .l1) s).Effect keccak256 sender op (zones (L := .l1) s') events := by
  cases op with
  | claimZone zoneName =>
    obtain ⟨h0, hf, he⟩ := DocRegistry.claimZone_ok.1 h
    cases he
    rw [DocRegistry.claimed_zones h0]
    exact .claimZone h0 (idOfOwner_none.2 hf) hf
  | updateAgreement zone key revisionName value =>
    obtain ⟨_, hp, hr⟩ := bind_ok.1 h
    obtain ⟨h0, ho, hw, rfl⟩ := (publish_ok keccak256).1 hp
    cases hr
    exact .updateAgreement h0 ho hw
  | erc721 op =>
    obtain ⟨⟨t, evs⟩, hc, hr⟩ := bind_ok.1 h
    have he := ERC721.call_iff.1 hc
    cases hr
    have hx : zones (L := .l1) { s with toERC721 := t } = { zones (L := .l1) s with tokens := t } := by
      simp only [zones, Zones.mk.injEq, true_and]
      funext i
      simp only [idOfOwner, he.exists_iff i]
    rw [hx]
    exact .erc721 he

theorem l2_effect {s s' : DocRegistryL2} (h : DocRegistryL2.body keccak256 sender s op = .ok (s', events)) :
    (zones (L := .l2) s).Effect keccak256 sender op (zones (L := .l2) s') events := by
  rcases DocRegistryL2.body_cases h with ⟨zoneName, rfl, hz, h0, hf, hc, rfl, rfl⟩ |
    ⟨zone, key, revisionName, value, rfl, h0, ho, hw, rfl, rfl⟩ | ⟨call, t, evs, rfl, he, rfl, rfl⟩
  · rw [DocRegistryL2.claimed_zones hc]
    exact .claimZone h0 (idOfEntry_none.2 hz) hf
  · exact .updateAgreement h0 ho hw
  · exact .erc721 he

/-- Both registries refine the abstract one. -/
theorem body_effect (h : (contract keccak256 L).body sender op s = .ok (s', events)) :
    (zones s).Effect keccak256 sender op (zones s') events := by
  cases L with
  | l1 => exact l1_effect h
  | l2 => exact l2_effect h

/-- A claim makes a zone under some free id. -/
theorem claim_zones {zoneName : Bytes}
    (h : (contract keccak256 L).body sender (.claimZone zoneName) s = .ok (s', events)) :
    ∃ id, sender ≠ .zero ∧ (zones s).index (keccak256 zoneName) = none ∧ (tokens s)._owners id = .zero ∧
      zones s' = (zones s).claim keccak256 sender zoneName id := by
  have he := body_effect h
  generalize zones s' = v at he
  cases he with
  | @claimZone _ id h0 hnew hfree => exact ⟨id, h0, hnew, by simpa using hfree, rfl⟩

/-- A publication writes to the agreements, and the zones are found as before. -/
theorem update_zones {zone : Uint256} {key : Bytes32} {revisionName value : Bytes}
    (h : (contract keccak256 L).body sender (.updateAgreement zone key revisionName value) s = .ok (s', events)) :
    (zones s').index = (zones s).index ∧
      agreementOf s' = Agreements.set (agreementOf s) zone key (keccak256 revisionName) value := by
  have he := body_effect h
  rw [← zones_agreements, ← zones_agreements]
  generalize zones s' = v at he
  cases he with
  | updateAgreement => exact ⟨rfl, rfl⟩

theorem updateAgreement_ok {zone : Uint256} {key : Bytes32} {revisionName value : Bytes} :
    Succeeds keccak256 s sender (.updateAgreement zone key revisionName value) ↔
      (tokens s)._owners zone ≠ .zero ∧ (tokens s)._owners zone = sender ∧
        Writable keccak256 (agreementOf s) zone key (keccak256 revisionName) := by
  constructor
  · rintro ⟨⟨s', events⟩, h⟩
    have he := body_effect h
    generalize zones s' = v at he
    cases he with
    | updateAgreement h0 ho hw => exact ⟨by simpa using h0, by simpa using ho, by simpa using hw⟩
  · rintro ⟨h0, ho, hw⟩
    cases L <;> exact ⟨_, bind_ok.2 ⟨_, (publish_ok keccak256).2 ⟨h0, ho, hw, rfl⟩, rfl⟩⟩

theorem erc721_ok {op : ERC721.Op} {r} : (contract keccak256 L).body sender (.erc721 op) s = .ok r →
    ∃ tokens' evs, ERC721.Effect sender (tokens s) op tokens' evs ∧ tokens r.1 = tokens' := by
  obtain ⟨s', events⟩ := r
  intro h
  have he := body_effect h
  generalize hz : zones s' = z at he
  cases he with
  | erc721 he =>
    refine ⟨_, _, by simpa using he, ?_⟩
    rw [← zones_tokens, hz]

/-! ## Calls that go through -/

def withTokens : {L : Layer} → Storage L → ERC721 → Storage L
  | .l1, s, tokens => { s with toERC721 := tokens }
  | .l2, s, tokens => { s with toERC721 := tokens }

def withAgreements : {L : Layer} → Storage L → Agreements → Storage L
  | .l1, s, a => { s with _zoneAgreements := a }
  | .l2, s, a => { s with _zoneAgreements := a }

theorem body_erc721 (keccak256 : Bytes → Bytes32) {op : ERC721.Op} {t : ERC721} {evs : List ERC721.Event}
    (he : ERC721.Effect sender (tokens s) op t evs) :
    (contract keccak256 L).body sender (.erc721 op) s = .ok (withTokens s t, evs.map .erc721) := by
  cases L <;> exact bind_ok.2 ⟨(t, evs), ERC721.call_iff.2 he, rfl⟩

theorem body_publish {zone : Uint256} {key : Bytes32} {revisionName : Bytes} (value : Bytes)
    (h0 : (tokens s)._owners zone ≠ .zero) (ho : (tokens s)._owners zone = sender)
    (hw : Writable keccak256 (agreementOf s) zone key (keccak256 revisionName)) :
    (contract keccak256 L).body sender (.updateAgreement zone key revisionName value) s =
      .ok (withAgreements s (Agreements.set (agreementOf s) zone key (keccak256 revisionName) value),
        [.AgreementUpdated zone key value (keccak256 revisionName)]) := by
  cases L <;> exact bind_ok.2 ⟨_, (publish_ok keccak256).2 ⟨h0, ho, hw, rfl⟩, rfl⟩

/-! ## Reads of a claimed zone -/

section Reads
variable {zone key revision : Bytes32} {id : Uint256}

theorem l2_zoneID_ok {s : DocRegistryL2} : s.zoneID zone = .ok id ↔ (zones (L := .l2) s).index zone = some id := by
  simp only [DocRegistryL2.zoneID, checkedSub_ok, zones, idOfEntry_some]
  refine and_congr_left fun _ => ?_
  constructor <;> intro h <;> bv_omega

theorem zoneID_ok (h : (zones s).index zone = some id) : zoneID s zone = .ok id := by
  cases L with
  | l1 =>
    obtain ⟨-, rfl⟩ := idOfOwner_some.1 h
    rfl
  | l2 => exact l2_zoneID_ok.2 h

theorem zoneAgreement_ok (h : (zones s).index zone = some id) :
    zoneAgreement s zone key revision = .ok (agreementOf s id key revision) := by
  have hid := zoneID_ok h
  cases L with
  | l1 => cases hid; rfl
  | l2 => exact bind_ok.2 ⟨id, hid, rfl⟩

theorem name_ok (h : (zones s).index zone = some id) : name s zone = .ok (nameOf s id) := by
  have hid := zoneID_ok h
  cases L with
  | l1 => cases hid; rfl
  | l2 => exact bind_ok.2 ⟨id, hid, rfl⟩

theorem zoneOwner_ok {owner : Address} : zoneOwner s zone = .ok owner ↔
    ∃ id, (zones s).index zone = some id ∧ (tokens s).ownerOf id = .ok owner := by
  cases L with
  | l1 =>
    simp only [zoneOwner, DocRegistry.zoneOwner, DocRegistry.zoneID, zones, tokens, ERC721.ownerOf_ok,
      idOfOwner_some]
    constructor
    · rintro ⟨h0, rfl⟩
      exact ⟨zone, ⟨h0, rfl⟩, h0, rfl⟩
    · rintro ⟨id, ⟨-, rfl⟩, h⟩
      exact h
  | l2 => simp only [zoneOwner, DocRegistryL2.zoneOwner, bind_ok, l2_zoneID_ok, tokens]

/-- A read that finds something found it under a claimed zone. -/
theorem zoneAgreement_some (hi : (zones s).Inv keccak256) {value : Bytes}
    (h : zoneAgreement s zone key revision = .ok value) (hne : value ≠ []) :
    ∃ id, (zones s).index zone = some id ∧ agreementOf s id key revision = value := by
  cases L with
  | l1 =>
    cases h
    have h0 : s._owners zone ≠ .zero := fun h0 => hne (hi.blank zone key revision h0)
    exact ⟨zone, idOfOwner_some.2 ⟨h0, rfl⟩, rfl⟩
  | l2 =>
    obtain ⟨id, hid, hr⟩ := bind_ok.1 h
    exact ⟨id, l2_zoneID_ok.1 hid, by cases hr; rfl⟩

end Reads

end Registry

end LawRegistry
