import LawRegistry.Publication
import LawRegistry.Sdk.Path
import LawRegistry.Sdk.Connection
/-!
# What a path serves

A path whose zone and revision are no hex strings only ever serves what was published under
exactly its texts, and a revision that is neither `latest` nor the hex string for it never changes
once it reads as something.
-/

namespace LawRegistry.Sdk

open Registry (Storage reached continued tokens Creates)
open Calls (Trace)

namespace Connection
variable {L : Layer} {c : Connection L} {s t : Storage L} {z a r v : JSString}

/-- A text that is read is a value that is stored. -/
theorem revisionData_stored (h : c.revisionData s z a r = .ok v) (hne : v ≠ []) : ∃ b, b ≠ [] ∧
    Registry.zoneAgreement s (c.pkgs.hash z) (c.pkgs.hash a) (c.pkgs.hash r) = .ok b ∧
    c.pkgs.toUtf8String b = some v := by
  obtain ⟨-, b, hb, hv⟩ := revisionData_ok.1 h
  refine ⟨b, ?_, hb, hv⟩
  rintro rfl
  rw [c.pkgs.toUtf8String_nil] at hv
  cases hv
  exact hne rfl

/-- What is read was published under exactly these texts, by the owner of the zone at the time. -/
theorem revisionData_published {steps : List Step} (hz : IsWord isRevisionUnit z) (hr : IsWord isRevisionUnit r)
    (hzx : isHexString z = false) (hrx : isHexString r = false)
    (hnames : NoCollision c.keccak256 (asciiBytes z :: claimedNames steps))
    (hrevisions : NoCollision c.keccak256 (asciiBytes r :: revisionNames steps))
    (h : c.revisionData (reached c.keccak256 L steps).storage z a r = .ok v) (hne : v ≠ []) :
    ∃ pre e post zone value, (reached c.keccak256 L steps).journal = pre ++ e :: post ∧
      e.op = .updateAgreement zone (c.pkgs.hash a) (asciiBytes r) value ∧ c.pkgs.toUtf8String value = some v ∧
      (tokens e.before).ownerOf zone = .ok e.sender ∧
      ∃ claim ∈ pre, claim.op = .claimZone (asciiBytes z) ∧ Creates claim zone := by
  have ht : Trace (Registry.contract c.keccak256 L) _ _ _ := Registry.reached_trace steps
  have hi : (Registry.zones (reached c.keccak256 L steps).storage).Inv c.keccak256 := Registry.reached_inv steps
  obtain ⟨b, hb0, hb, hv⟩ := revisionData_stored h hne
  obtain ⟨zone, hx, hslot⟩ := Registry.zoneAgreement_some hi hb hb0
  -- The value is the last one published for its slot.
  rw [Registry.reached_slot, Packages.hash_text hr hrx] at hslot
  have hlast : b ∈ Registry.published (reached c.keccak256 L steps) zone (c.pkgs.hash a)
      (c.keccak256 (asciiBytes r)) := by
    cases hl : (Registry.published (reached c.keccak256 L steps) zone (c.pkgs.hash a)
        (c.keccak256 (asciiBytes r))).getLast? with
    | none =>
      rw [hl] at hslot
      exact absurd hslot.symm hb0
    | some b' =>
      rw [hl] at hslot
      cases hslot
      exact List.mem_of_getLast? hl
  obtain ⟨e, he, hop⟩ := (Registry.mem_published hrevisions).1 hlast
  obtain ⟨pre, post, hsplit⟩ := List.append_of_mem he
  obtain ⟨howner, claim, hclaim, zoneName, hname, hcreates, hx'⟩ := Registry.update_attributed ht hsplit hop
  refine ⟨pre, e, post, zone, b, hsplit, hop, hv, howner, claim, hclaim, ?_, hcreates⟩
  -- Both names are hashed to the one hash the zone is found under.
  have hh : c.keccak256 zoneName = c.keccak256 (asciiBytes z) :=
    (hi.inj hx' hx).trans (Packages.hash_text hz hzx)
  have hjournal : claim ∈ (reached c.keccak256 L steps).journal := hsplit ▸ List.mem_append_left _ hclaim
  rw [hname, hnames.head_eq (Registry.mem_claimedNames hjournal hname) hh]

/-! ## No two paths share a slot -/

/-- What a path resolves to: zone, agreement and revision. -/
abbrev Triple := JSString × JSString × JSString

/-- No word of the triple is a hex string. -/
def NoHex (p : Triple) : Prop := isHexString p.1 = false ∧ isHexString p.2.1 = false ∧ isHexString p.2.2 = false

/-- The bytes the words of a triple are hashed as. -/
def hashed (c : Connection L) (p : Triple) : Bytes × Bytes × Bytes :=
  (c.pkgs.toBuffer p.1, c.pkgs.toBuffer p.2.1, c.pkgs.toBuffer p.2.2)

/-- The bytes of the words of two triples. -/
def bytesOf (c : Connection L) (p q : Triple) : List Bytes :=
  [p.1, p.2.1, p.2.2, q.1, q.2.1, q.2.2].map c.pkgs.toBuffer

/-- The hashes a path is read under. -/
def slot (c : Connection L) (zone : Uint256) (p : Triple) : Uint256 × Bytes32 × Bytes32 :=
  (zone, c.pkgs.hash p.2.1, c.pkgs.hash p.2.2)

/-- Two ids found under different zone hashes differ. -/
theorem zoneID_inj (hi : (Registry.zones s).Inv c.keccak256) {h h' : Bytes32} {id : Uint256}
    (hid : Registry.zoneID s h = .ok id) (hid' : Registry.zoneID s h' = .ok id) : h = h' := by
  cases L with
  | l1 =>
    cases hid
    cases hid'
    rfl
  | l2 => exact hi.inj (Registry.l2_zoneID_ok.1 hid) (Registry.l2_zoneID_ok.1 hid')

/-- Two triples are read from one slot exactly if they are hashed as the same bytes. -/
theorem slot_iff (hi : (Registry.zones s).Inv c.keccak256) {p q : Triple} (hc : NoCollision c.keccak256 (bytesOf c p q))
    {id id' : Uint256} (hid : Registry.zoneID s (c.pkgs.hash p.1) = .ok id)
    (hid' : Registry.zoneID s (c.pkgs.hash q.1) = .ok id') : slot c id p = slot c id' q ↔ hashed c p = hashed c q := by
  simp only [slot, hashed, Prod.mk.injEq]
  constructor
  · rintro ⟨rfl, ha, hr⟩
    have hz := zoneID_inj hi hid hid'
    exact ⟨hc _ (by simp [bytesOf]) _ (by simp [bytesOf]) hz, hc _ (by simp [bytesOf]) _ (by simp [bytesOf]) ha,
      hc _ (by simp [bytesOf]) _ (by simp [bytesOf]) hr⟩
  · rintro ⟨hz, ha, hr⟩
    rw [Packages.hash, hz, ← Packages.hash, hid'] at hid
    cases hid
    exact ⟨rfl, by rw [Packages.hash, ha, Packages.hash], by rw [Packages.hash, hr, Packages.hash]⟩

theorem toBuffer_inj {w w' : JSString} (hw : IsWord isRevisionUnit w) (hx : isHexString w = false)
    (hw' : IsWord isRevisionUnit w') (hx' : isHexString w' = false) (h : c.pkgs.toBuffer w = c.pkgs.toBuffer w') :
    w = w' := by
  rw [c.pkgs.toBuffer_ascii hx hw.ascii, c.pkgs.toBuffer_ascii hx' hw'.ascii] at h
  exact asciiBytes_inj hw.ascii hw'.ascii h

/-- Without hex strings, different triples are hashed as different bytes. -/
theorem hashed_inj {path path' : JSString} {p q : Triple} (hp : resolvePath path = some p)
    (hq : resolvePath path' = some q) (hpx : NoHex p) (hqx : NoHex q) (h : hashed c p = hashed c q) : p = q := by
  obtain ⟨hz, ha, hr⟩ := hpx
  obtain ⟨hz', ha', hr'⟩ := hqx
  have hparts := resolvePath_parts hp
  have hparts' := resolvePath_parts hq
  simp only [hashed, Prod.mk.injEq] at h
  obtain ⟨h1, h2, h3⟩ := h
  have hzz := toBuffer_inj hparts.zone.revision hz hparts'.zone.revision hz' h1
  have haa := toBuffer_inj hparts.agreement.revision ha hparts'.agreement.revision ha' h2
  have hrr := toBuffer_inj hparts.revision hr hparts'.revision hr' h3
  exact Prod.ext hzz (Prod.ext haa hrr)

/-- Where zone and revision are no hex strings, a path serves only what was published under exactly
its texts. Two paths are read from different slots exactly if they are hashed as different bytes,
and they are if they resolve differently with no hex string among their words. -/
theorem provenance (c : Connection L) (steps : List Step) :
    let w := reached c.keccak256 L steps
    (∀ path z a r v, resolvePath path = some (z, a, r) → isHexString z = false → isHexString r = false →
      NoCollision c.keccak256 (asciiBytes z :: claimedNames steps) →
      NoCollision c.keccak256 (asciiBytes r :: revisionNames steps) →
      c.revisionData w.storage z a r = .ok v → v ≠ [] →
        ∃ pre e post zone value, w.journal = pre ++ e :: post ∧
          e.op = .updateAgreement zone (c.pkgs.hash a) (asciiBytes r) value ∧ c.pkgs.toUtf8String value = some v ∧
          (tokens e.before).ownerOf zone = .ok e.sender ∧
          ∃ claim ∈ pre, claim.op = .claimZone (asciiBytes z) ∧ Creates claim zone) ∧
    (∀ path path' p q, resolvePath path = some p → resolvePath path' = some q →
      NoCollision c.keccak256 (bytesOf c p q) →
      (∀ id id', Registry.zoneID w.storage (c.pkgs.hash p.1) = .ok id →
        Registry.zoneID w.storage (c.pkgs.hash q.1) = .ok id' →
        (slot c id p ≠ slot c id' q ↔ hashed c p ≠ hashed c q)) ∧
      (NoHex p → NoHex q → p ≠ q → hashed c p ≠ hashed c q)) := by
  intro w
  constructor
  · intro path z a r v hpath hzx hrx hnames hrevisions h hne
    have hparts := resolvePath_parts hpath
    exact revisionData_published hparts.zone.revision hparts.revision hzx hrx hnames hrevisions h hne
  · intro path path' p q hp hq hc
    constructor
    · intro id id' hid hid'
      exact not_congr (slot_iff (Registry.reached_inv steps) hc hid hid')
    · intro hpx hqx hne h
      exact hne (hashed_inj hp hq hpx hqx h)

/-- `zone/key@v1` serves what was published as `v1`, and not from the slot of `zone/key`. -/
theorem provenance_sample :
    let c := sampleConnection .l2
    let zone := literal ['z', 'o', 'n', 'e']
    let key := literal ['k', 'e', 'y']
    let v1 := literal ['v', '1']
    let w := reached c.keccak256 .l2 [.call 1 (.claimZone zoneSample) false,
      .call 1 (.updateAgreement 0 (keccakSample keySample) v1Sample [0x51]) false]
    (∃ pre e post id value, w.journal = pre ++ e :: post ∧
      e.op = .updateAgreement id (c.pkgs.hash key) (asciiBytes v1) value ∧
      c.pkgs.toUtf8String value = some (literal ['Q']) ∧ (tokens e.before).ownerOf id = .ok e.sender ∧
      ∃ claim ∈ pre, claim.op = .claimZone (asciiBytes zone) ∧ Creates claim id) ∧
    slot c 0 (zone, key, v1) ≠ slot c 0 (zone, key, latestText) := by
  intro c zone key v1 w
  obtain ⟨hread, hslots⟩ := provenance c [.call 1 (.claimZone zoneSample) false,
      .call 1 (.updateAgreement 0 (keccakSample keySample) v1Sample [0x51]) false]
  refine ⟨hread (zone ++ 0x2f :: (key ++ 0x40 :: v1)) zone key v1 (literal ['Q']) rfl rfl rfl (by decide) (by decide)
    (by decide) (by decide), ?_⟩
  obtain ⟨hiff, hhex⟩ := hslots (zone ++ 0x2f :: (key ++ 0x40 :: v1)) (zone ++ 0x2f :: key) (zone, key, v1)
    (zone, key, latestText) rfl rfl (by decide)
  exact (hiff 0 0 (by decide) (by decide)).2 (hhex ⟨rfl, rfl, rfl⟩ ⟨rfl, rfl, rfl⟩ (by decide))

/-- `zone/key@0x7631` serves what was published as `v1`: nothing was published under its text, and
the two paths share a slot. -/
theorem hex_revision_aliased :
    let c := sampleConnection .l2
    let zone := literal ['z', 'o', 'n', 'e']
    let key := literal ['k', 'e', 'y']
    let v1 := literal ['v', '1']
    let v1Hex := literal ['0', 'x', '7', '6', '3', '1']
    let steps : List Step := [.call 1 (.claimZone zoneSample) false,
      .call 1 (.updateAgreement 0 (keccakSample keySample) v1Sample [0x51]) false]
    let w := reached c.keccak256 .l2 steps
    resolvePath (zone ++ 0x2f :: (key ++ 0x40 :: v1Hex)) = some (zone, key, v1Hex) ∧
    resolvePath (zone ++ 0x2f :: (key ++ 0x40 :: v1)) = some (zone, key, v1) ∧
    NoCollision c.keccak256 (asciiBytes zone :: claimedNames steps) ∧
    NoCollision c.keccak256 (asciiBytes v1Hex :: revisionNames steps) ∧
    c.revisionData w.storage zone key v1Hex = .ok (literal ['Q']) ∧
    (∀ e ∈ w.journal, ∀ id k value, e.op ≠ .updateAgreement id k (asciiBytes v1Hex) value) ∧
    c.pkgs.hash v1Hex = c.pkgs.hash v1 := by
  intro c zone key v1 v1Hex steps w
  refine ⟨rfl, rfl, by decide, by decide, by decide, ?_, by decide⟩
  intro e he id k value hop
  have hmem : asciiBytes v1Hex ∈ revisionNames steps := Registry.mem_revisionNames he hop
  exact absurd hmem (by decide)

/-! ## Pinned revisions -/

/-- Only `latest` and the hex string for it are hashed to the one revision that may be rewritten. -/
theorem hash_ne_latest (hr : IsWord isRevisionUnit r) (htext : r ≠ latestText) (hhex : r ≠ latestHex)
    (hc : NoCollision c.keccak256 [latest, c.pkgs.toBuffer r]) : c.pkgs.hash r ≠ c.keccak256 latest := by
  intro h
  have hb : c.pkgs.toBuffer r = latest := hc _ (by simp) _ (by simp) h
  cases hx : isHexString r with
  | false =>
    rw [c.pkgs.toBuffer_ascii hx hr.ascii] at hb
    have hlatest : latest = asciiBytes latestText := by decide
    rw [hlatest] at hb
    exact htext (asciiBytes_inj hr.ascii latestText_isWord.ascii hb)
  | true =>
    rw [c.pkgs.toBuffer_hex r hx] at hb
    exact hhex ((hr.hexBytes_latest hx).1 hb)

/-- A path that pins a revision other than `0x6c6174657374` reads for ever what it once read. -/
theorem pinned (c : Connection L) (steps later : List Step) (path z a r v : JSString)
    (hpath : resolvePath path = some (z, a, r)) (htext : r ≠ latestText) (hhex : r ≠ latestHex)
    (hc : NoCollision c.keccak256 [latest, c.pkgs.toBuffer r])
    (h : c.revisionData (reached c.keccak256 L steps).storage z a r = .ok v) (hne : v ≠ []) :
    c.revisionData (continued c.keccak256 (reached c.keccak256 L steps).storage later).storage z a r = .ok v := by
  obtain ⟨b, hb0, hb, hv⟩ := revisionData_stored h hne
  have hr := hash_ne_latest (resolvePath_parts hpath).revision htext hhex hc
  have ht : Trace (Registry.contract c.keccak256 L) _ _ _ :=
    Registry.continued_trace (reached c.keccak256 L steps).storage later
  have hb' := Registry.trace_zoneAgreement_keep (Registry.reached_inv steps) ht hr hb hb0
  exact revisionData_ok.2 ⟨(revisionData_ok.1 h).1, b, hb', hv⟩

/-- `zone/key@v1`, published once, with another attempt after it. -/
theorem pinned_sample :
    let c := sampleConnection .l2
    c.revisionData (continued c.keccak256 (reached c.keccak256 .l2 [.call 1 (.claimZone zoneSample) false,
        .call 1 (.updateAgreement 0 (keccakSample keySample) v1Sample [0x51]) false]).storage
        [.call 1 (.updateAgreement 0 (keccakSample keySample) v1Sample [0x52]) false]).storage
      (literal ['z', 'o', 'n', 'e']) (literal ['k', 'e', 'y']) (literal ['v', '1']) = .ok (literal ['Q']) :=
  pinned (sampleConnection .l2) _ _ (literal ['z', 'o', 'n', 'e', '/', 'k', 'e', 'y', '@', 'v', '1']) _ _ _ _ rfl
    (by decide) (by decide) (by decide) rfl (by decide)

/-- `zone/key@0x6c6174657374` reads `latest`, which its owner rewrites. -/
theorem pinned_latest_rewritten :
    let c := sampleConnection .l2
    let zone := literal ['z', 'o', 'n', 'e']
    let key := literal ['k', 'e', 'y']
    let s := (reached c.keccak256 .l2 [.call 1 (.claimZone zoneSample) false,
      .call 1 (.updateAgreement 0 (keccakSample keySample) latest [0x51]) false]).storage
    let t := (continued c.keccak256 s
      [.call 1 (.updateAgreement 0 (keccakSample keySample) latest [0x52]) false]).storage
    resolvePath (zone ++ 0x2f :: (key ++ 0x40 :: latestHex)) = some (zone, key, latestHex) ∧ latestHex ≠ latestText ∧
    NoCollision c.keccak256 [latest, c.pkgs.toBuffer latestHex, asciiBytes latestHex] ∧
    c.revisionData s zone key latestHex = .ok (literal ['Q']) ∧
    c.revisionData t zone key latestHex = .ok (literal ['R']) :=
  ⟨rfl, by decide, by decide, rfl, rfl⟩

end Connection

end LawRegistry.Sdk
