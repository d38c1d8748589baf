import LawRegistry.Sdk.Path
import LawRegistry.Sdk.Naming
/-!
# Where the SDK writes and where it reads

Names are hashed on chain when they are claimed or published, and by the SDK when they are read.
The two agree on every word of a path but the hex strings: of those the SDK hashes the bytes they
stand for. Who writes and who reads may each name the registry in a way of their own.
-/

namespace LawRegistry

open Calls (Trace)

namespace Registry
variable {keccak256 : Bytes → Bytes32} {L : Layer} {s s' : Storage L} {sender : Address} {events : List Event}

/-! ## What one call changes by hash -/

/-- A claim changes who owns the hash claimed, and no other. -/
theorem zoneOwner_claim (hi : (zones s).Inv keccak256) {zoneName : Bytes}
    (hb : (contract keccak256 L).body sender (.claimZone zoneName) s = .ok (s', events))
    {h : Bytes32} {owner : Address} :
    zoneOwner s' h = .ok owner ↔ if h = keccak256 zoneName then owner = sender else zoneOwner s h = .ok owner := by
  obtain ⟨id, h0, hnew, hfree, hv⟩ := claim_zones hb
  have ht : tokens s' = (tokens s).minted sender id := by
    rw [← zones_tokens, hv]
    simp [Zones.claim]
  simp only [zoneOwner_ok, hv, ht, ERC721.ownerOf_ok, ERC721.minted_owners]
  by_cases hh : h = keccak256 zoneName
  · subst hh
    simp [Zones.claim, h0, eq_comm]
  · rw [if_neg hh]
    simp only [Zones.claim, Function.update_of_ne hh]
    refine exists_congr fun i => and_congr_right fun hx => ?_
    have hne : i ≠ id := by
      rintro rfl
      exact (hi.index_iff.1 hx).1 (by simpa using hfree)
    rw [if_neg hne]

/-- A publication changes the slot it names, and no other. -/
theorem zoneAgreement_update {zone : Uint256} {key h k r : Bytes32} {revisionName value : Bytes}
    (hb : (contract keccak256 L).body sender (.updateAgreement zone key revisionName value) s = .ok (s', events))
    (hx : (zones s).index h = some zone) :
    zoneAgreement s' h k r =
      if k = key ∧ r = keccak256 revisionName then .ok value else zoneAgreement s h k r := by
  obtain ⟨hindex, ha⟩ := update_zones hb
  have hx' : (zones s').index h = some zone := by rw [hindex]; exact hx
  rw [zoneAgreement_ok hx', zoneAgreement_ok hx, ha, Agreements.set_apply]
  simp only [true_and]
  split <;> rfl

theorem zoneAgreement_unclaimed {s : DocRegistryL2} {h k r : Bytes32} (hx : (zones (L := .l2) s).index h = none) :
    zoneAgreement (L := .l2) s h k r = .error overflow := by
  change s.zoneAgreementByHash h k r = .error overflow
  unfold DocRegistryL2.zoneAgreementByHash
  rw [DocRegistryL2.zoneID_overflow.2 hx]
  rfl

/-- A publication leaves what is read of a hash whose zone it does not name. -/
theorem zoneAgreement_elsewhere {zone : Uint256} {key h k r : Bytes32} {revisionName value : Bytes}
    (hb : (contract keccak256 L).body sender (.updateAgreement zone key revisionName value) s = .ok (s', events))
    (hx : (zones s).index h ≠ some zone) : zoneAgreement s' h k r = zoneAgreement s h k r := by
  obtain ⟨hindex, ha⟩ := update_zones hb
  have hother : ∀ id, id ≠ zone → agreementOf s' id k r = agreementOf s id k r := by
    intro id hid
    rw [ha, Agreements.set_apply, if_neg (fun hslot => hid hslot.1)]
  cases L with
  | l1 =>
    refine congrArg Except.ok (hother h ?_)
    rintro rfl
    obtain ⟨h0, -, -⟩ := updateAgreement_ok.1 ⟨_, hb⟩
    exact hx (idOfOwner_some.2 ⟨h0, rfl⟩)
  | l2 =>
    cases hx' : (zones s).index h with
    | some id =>
      rw [zoneAgreement_ok (hindex ▸ hx'), zoneAgreement_ok hx', hother]
      rintro rfl
      exact hx hx'
    | none => exact (zoneAgreement_unclaimed (hindex ▸ hx')).trans (zoneAgreement_unclaimed hx').symm

end Registry

namespace Sdk

open Registry (Storage reached continued)

theorem Packages.hash_hex_ne {pkgs : Packages} {s : JSString} (hx : isHexString s = true)
    (hc : NoCollision pkgs.keccak256 [asciiBytes s, hexBytes s]) : pkgs.hash s ≠ pkgs.keccak256 (asciiBytes s) := by
  rw [hash_hex hx]
  intro he
  exact hexBytes_ne hx (hc _ (by simp) _ (by simp) he)

namespace Connection
variable {L : Layer} {c : Connection L} {arg : Option ContractArg} {names : Names c.addresses c.chainId c.registry L arg}
  {s s' t : Storage L} {sender : Address} {events : List Event}

/-! ## Claiming, then asking for the owner -/

theorem claimZone_zoneOwner {z : JSString} (hw : IsWord isRevisionUnit z) {tx : Transaction}
    (ht : (Registry.zones t).Inv c.keccak256) (hclaim : c.claimZone s z = .ok tx)
    (hrun : c.execute t tx sender = .ok (s', events))
    (hc : NoCollision c.keccak256 [asciiBytes z, hexBytes z]) :
    (c.named arg names).zoneOwner s' z = .ok sender ↔
      isHexString z = false ∨ Registry.zoneOwner t (c.keccak256 (hexBytes z)) = .ok sender := by
  obtain ⟨b, hb, rfl⟩ := claimZone_ok.1 hclaim
  rw [c.pkgs.toUtf8Bytes_ascii z hw.ascii, Option.some.injEq] at hb
  subst hb
  rw [zoneOwner_ok, Registry.zoneOwner_claim ht (execute_ok.1 hrun)]
  change (if c.pkgs.hash z = _ then _ else Registry.zoneOwner t (c.pkgs.hash z) = _) ↔ _
  cases hx : isHexString z with
  | false => simp [Packages.hash_text hw hx, Connection.keccak256]
  | true =>
    rw [if_neg (Packages.hash_hex_ne hx hc), Packages.hash_hex hx]
    simp [Connection.keccak256]

/-! ## Publishing, then reading -/

/-- A text is decoded from its own bytes exactly if it is well formed. -/
theorem decode_bytes {v : JSString} {b : Bytes} (h : c.pkgs.toUtf8Bytes v = some b) :
    c.pkgs.toUtf8String b = some v ↔ isWellFormed v = true :=
  ⟨c.pkgs.toUtf8String_wellFormed b v, fun hv => c.pkgs.toUtf8String_bytes v b hv h⟩

/-- The transaction names the id of the zone, unless the hash was sent in its place and is no such id. -/
theorem createRevision_index {z a r v : JSString} {es : List (Registry.Entry L)} {id : Uint256} {key : Bytes32}
    {n value : Bytes} (hst : Trace (Registry.contract c.keccak256 L) s es t)
    (hcreate : c.createRevision s z a r v = .ok ⟨c.registry, L, .updateAgreement id key n value⟩)
    (hrun : c.execute t ⟨c.registry, L, .updateAgreement id key n value⟩ sender = .ok (s', events)) :
    (Registry.zones t).index (c.pkgs.hash z) = some id ↔
      (c.Mistaken → Registry.zoneID t (c.pkgs.hash z) = .ok (c.pkgs.hash z)) := by
  obtain ⟨id', rb, vb, hid, -, -, htx⟩ := createRevision_ok.1 hcreate
  cases htx
  rcases hid with ⟨hm, rfl⟩ | ⟨hm, hid⟩
  · obtain ⟨rfl, -⟩ := id hm
    rw [← Registry.l2_zoneID_ok]
    simp [hm, Registry.zoneID]
  · obtain ⟨h0, -, -⟩ := Registry.updateAgreement_ok.1 ⟨_, execute_ok.1 hrun⟩
    exact iff_of_true (Registry.trace_zoneID_index hst hid h0) fun hmis => absurd hmis hm

theorem createRevision_revisionData {z a r v : JSString} (hw : IsWord isRevisionUnit r) {tx : Transaction}
    {es : List (Registry.Entry L)} (hst : Trace (Registry.contract c.keccak256 L) s es t)
    (hcreate : c.createRevision s z a r v = .ok tx) (hrun : c.execute t tx sender = .ok (s', events))
    (hc : NoCollision c.keccak256 [asciiBytes r, hexBytes r]) :
    (c.named arg names).revisionData s' z a r = .ok v ↔
      ¬(c.named arg names).Mistaken ∧ isWellFormed v = true ∧
        ((isHexString r = false ∧
            (c.Mistaken → Registry.zoneID t (c.pkgs.hash z) = .ok (c.pkgs.hash z))) ∨
          ∃ b, Registry.zoneAgreement t (c.pkgs.hash z) (c.pkgs.hash a) (c.pkgs.hash r) = .ok b ∧
            c.pkgs.toUtf8String b = some v) := by
  obtain ⟨id, rb, vb, -, hrb, hvb, rfl⟩ := createRevision_ok.1 hcreate
  rw [c.pkgs.toUtf8Bytes_ascii r hw.ascii, Option.some.injEq] at hrb
  subst hrb
  have hb := execute_ok.1 hrun
  rw [revisionData_ok, ← createRevision_index hst hcreate hrun]
  refine and_congr_right fun _ => ?_
  change (∃ b, Registry.zoneAgreement s' (c.pkgs.hash z) (c.pkgs.hash a) (c.pkgs.hash r) = .ok b ∧
    c.pkgs.toUtf8String b = some v) ↔ _
  by_cases hwritten : isHexString r = false ∧ (Registry.zones t).index (c.pkgs.hash z) = some id
  · obtain ⟨hx, hindex⟩ := hwritten
    have hread : Registry.zoneAgreement s' (c.pkgs.hash z) (c.pkgs.hash a) (c.pkgs.hash r) = .ok vb := by
      rw [Registry.zoneAgreement_update hb hindex, if_pos ⟨rfl, Packages.hash_text hw hx⟩]
    simp only [hread, Except.ok.injEq, exists_eq_left', decode_bytes hvb, hx, hindex, true_or, and_true]
  · have hread : Registry.zoneAgreement s' (c.pkgs.hash z) (c.pkgs.hash a) (c.pkgs.hash r) =
        Registry.zoneAgreement t (c.pkgs.hash z) (c.pkgs.hash a) (c.pkgs.hash r) := by
      by_cases hindex : (Registry.zones t).index (c.pkgs.hash z) = some id
      · have hx : isHexString r = true := by simpa using fun hx => hwritten ⟨hx, hindex⟩
        rw [Registry.zoneAgreement_update hb hindex, if_neg fun h => Packages.hash_hex_ne hx hc h.2]
      · exact Registry.zoneAgreement_elsewhere hb hindex
    rw [hread, or_iff_right hwritten]
    constructor
    · rintro ⟨b, hread, hv⟩
      exact ⟨c.pkgs.toUtf8String_wellFormed b v hv, b, hread, hv⟩
    · exact fun h => h.2

/-! ## Every run -/

/-- After a claim the SDK finds its owner, and after a publication its value, however the reader names the
registry, unless the text the chain hashed is a hex string to the SDK (and the bytes it stands for do not happen
to be there already), or the registry is mistaken for the other one: by the reader, who then reads nothing, or
by the writer, whose value then goes to the token that has the zone's hash as its id. A value with lone
surrogates is never read back. -/
theorem round_trip_iff (c : Connection L) (arg : Option ContractArg)
    (names : Names c.addresses c.chainId c.registry L arg) (steps between : List Step) (path z a r : JSString)
    (hpath : resolvePath path = some (z, a, r)) (signer : Address) :
    let reader := c.named arg names
    let s := (reached c.keccak256 L steps).storage
    let t := (continued c.keccak256 s between).storage
    (∀ tx s' events, c.claimZone s z = .ok tx → c.execute t tx signer = .ok (s', events) →
      NoCollision c.keccak256 [asciiBytes z, hexBytes z] →
        (reader.zoneOwner s' z = .ok signer ↔
          isHexString z = false ∨ Registry.zoneOwner t (c.keccak256 (hexBytes z)) = .ok signer)) ∧
    (∀ v tx s' events, c.createRevision s z a r v = .ok tx → c.execute t tx signer = .ok (s', events) →
      NoCollision c.keccak256 [asciiBytes r, hexBytes r] →
        (reader.revisionData s' z a r = .ok v ↔ ¬reader.Mistaken ∧ isWellFormed v = true ∧
          ((isHexString r = false ∧
              (c.Mistaken → Registry.zoneID t (c.pkgs.hash z) = .ok (c.pkgs.hash z))) ∨
            ∃ b, Registry.zoneAgreement t (c.pkgs.hash z) (c.pkgs.hash a) (c.pkgs.hash r) = .ok b ∧
              c.pkgs.toUtf8String b = some v))) := by
  intro reader s t
  have hparts := resolvePath_parts hpath
  have hst : Trace (Registry.contract c.keccak256 L) s (continued c.keccak256 s between).journal t :=
    Registry.continued_trace s between
  refine ⟨fun tx s' events hclaim hrun hc => ?_, fun v tx s' events hcreate hrun hc => ?_⟩
  · exact claimZone_zoneOwner hparts.zone.revision (Registry.trace_inv hst (Registry.reached_inv steps)) hclaim hrun hc
  · exact createRevision_revisionData hparts.revision hst hcreate hrun hc

/-- `zone/key@v1`, published by one who names the registry by its address, is read back by one who has an
object for it. -/
theorem round_trip_sample :
    let reader := (sampleConnection .l1).named (some (.object ⟨(sampleConnection .l1).registry, .l1⟩)) rfl
    reader.revisionData
      (L := .l1) (reached keccakSample .l1 [.call 1 (.claimZone zoneSample) false,
        .call 1 (.updateAgreement (keccakSample zoneSample) (keccakSample keySample) v1Sample [0x51]) false]).storage
      (literal ['z', 'o', 'n', 'e']) (literal ['k', 'e', 'y']) (literal ['v', '1']) = .ok (literal ['Q']) := by
  intro reader
  have hround := round_trip_iff (sampleConnection .l1) (some (.object ⟨(sampleConnection .l1).registry, .l1⟩)) rfl
    [.call 1 (.claimZone zoneSample) false] []
    (literal ['z', 'o', 'n', 'e', '/', 'k', 'e', 'y', '@', 'v', '1']) _ _ _ rfl 1
  have h := hround.2 (literal ['Q']) _ _ _ rfl rfl (by decide)
  refine h.2 ⟨?_, rfl, .inl ⟨rfl, ?_⟩⟩
  · rintro ⟨hl, -⟩
    cases hl
  · rintro ⟨hl, -⟩
    cases hl

/-- `0x7a6f6e65` and `0x7631` are the bytes of `zone` and `v1`. Claimed and published under their
texts, they are looked up as those: the owner and the value are not found. -/
theorem hex_words_lost :
    let c := sampleConnection .l1
    let zoneHex := literal ['0', 'x', '7', 'a', '6', 'f', '6', 'e', '6', '5']
    let zone := literal ['z', 'o', 'n', 'e']
    let key := literal ['k', 'e', 'y']
    let v1Hex := literal ['0', 'x', '7', '6', '3', '1']
    let s := (reached c.keccak256 .l1 []).storage
    let t := (reached c.keccak256 .l1 [.call 1 (.claimZone zoneSample) false]).storage
    NoCollision c.keccak256 [asciiBytes zoneHex, hexBytes zoneHex] ∧
    NoCollision c.keccak256 [asciiBytes v1Hex, hexBytes v1Hex] ∧
    resolvePath (zoneHex ++ 0x2f :: key) = some (zoneHex, key, latestText) ∧
    (∃ tx s' events, c.claimZone s zoneHex = .ok tx ∧ c.execute s tx 1 = .ok (s', events) ∧
      c.zoneOwner s' zoneHex = .error (.reverted (.error "ERC721: invalid token ID"))) ∧
    resolvePath (zone ++ 0x2f :: (key ++ 0x40 :: v1Hex)) = some (zone, key, v1Hex) ∧
    ∃ tx t' events, c.createRevision t zone key v1Hex (literal ['Q']) = .ok tx ∧ c.execute t tx 1 = .ok (t', events) ∧
      c.revisionData t' zone key v1Hex = .ok [] :=
  ⟨by decide, by decide, rfl, ⟨_, _, _, rfl, rfl, rfl⟩, rfl, _, _, _, rfl, rfl, rfl⟩

end Connection

end Sdk

end LawRegistry
