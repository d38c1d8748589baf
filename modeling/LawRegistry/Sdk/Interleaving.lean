import LawRegistry.Sdk.Addressing
/-!
# A write in two transactions

On L2 `createRevision` reads the id of a zone, and sends it back later in the `updateAgreement`
call. Whatever other accounts do in between, the id is still the zone's: the write goes to the one
slot it was meant for, or fails and changes nothing.
-/

namespace LawRegistry

open Calls (Trace run start)

namespace Registry
variable {keccak256 : Bytes → Bytes32} {L : Layer} {s s' : Storage L} {sender : Address} {events : List Event}
  {zone : Uint256} {h key : Bytes32} {revisionName value : Bytes}

/-! ## One write -/

/-- A publication leaves the slots of every other hash alone, also of those nobody claimed. -/
theorem zoneAgreement_other (hi : (zones s).Inv keccak256)
    (hb : (contract keccak256 L).body sender (.updateAgreement zone key revisionName value) s = .ok (s', events))
    (hx : (zones s).index h = some zone) {h' : Bytes32} (hne : h' ≠ h) (k r : Bytes32) :
    zoneAgreement s' h' k r = zoneAgreement s h' k r := by
  refine zoneAgreement_elsewhere hb fun hx' => hne ?_
  exact hi.inj hx' hx

/-- What a publication under the id of a hash does to the reads by hash. -/
theorem update_by_id (hi : (zones s).Inv keccak256)
    (hb : (contract keccak256 L).body sender (.updateAgreement zone key revisionName value) s = .ok (s', events))
    (hx : (zones s).index h = some zone) :
    zoneOwner s h = .ok sender ∧ zoneAgreement s' h key (keccak256 revisionName) = .ok value ∧
      ∀ h' k r, (h', k, r) ≠ (h, key, keccak256 revisionName) → zoneAgreement s' h' k r = zoneAgreement s h' k r := by
  obtain ⟨h0, ho, -⟩ := updateAgreement_ok.1 ⟨_, hb⟩
  refine ⟨zoneOwner_ok.2 ⟨zone, hx, ERC721.ownerOf_ok.2 ⟨h0, ho⟩⟩, ?_, ?_⟩
  · rw [zoneAgreement_update hb hx, if_pos ⟨rfl, rfl⟩]
  · intro h' k r hslot
    by_cases hh : h' = h
    · subst hh
      rw [zoneAgreement_update hb hx, if_neg]
      rintro ⟨rfl, rfl⟩
      exact hslot rfl
    · apply zoneAgreement_other hi hb hx hh

/-! ## The write after the read -/

/-- The id read earlier still names the zone when it is written to. -/
theorem write_after_read {s₀ s : Storage L} {es : List (Entry L)} (ht : Trace (contract keccak256 L) s₀ es s)
    (hi : (zones s₀).Inv keccak256) (hread : zoneID s₀ h = .ok zone)
    (hb : (contract keccak256 L).body sender (.updateAgreement zone key revisionName value) s = .ok (s', events)) :
    zoneOwner s h = .ok sender ∧ zoneAgreement s' h key (keccak256 revisionName) = .ok value ∧
      ∀ h' k r, (h', k, r) ≠ (h, key, keccak256 revisionName) → zoneAgreement s' h' k r = zoneAgreement s h' k r := by
  obtain ⟨h0, -, -⟩ := updateAgreement_ok.1 ⟨_, hb⟩
  apply update_by_id (trace_inv ht hi) hb
  apply trace_zoneID_index ht hread h0

end Registry

namespace Sdk

open Registry (Storage reached continued Succeeds)

namespace Connection

/-- `createRevision` for L2 sends on the id it reads of the zone, if it reads one and can encode both texts. And
whatever is run before the transaction is, it writes to that zone's slot only, as its owner; or it fails and
writes nothing. -/
theorem two_step_write (c : Connection .l2) (steps between : List Step) :
    let s := (reached c.keccak256 .l2 steps).storage
    let t := (continued c.keccak256 s between).storage
    (c.isL1 = false → ∀ zone key revision value tx, c.createRevision s zone key revision value = .ok tx ↔
      ∃ id n v, Registry.zoneID s (c.pkgs.hash zone) = .ok id ∧ c.pkgs.toUtf8Bytes revision = some n ∧
        c.pkgs.toUtf8Bytes value = some v ∧ tx = ⟨c.registry, .l2, .updateAgreement id (c.pkgs.hash key) n v⟩) ∧
    ∀ h id, Registry.zoneID s h = .ok id → ∀ sender k n v code,
      let write : Step := .call sender (.updateAgreement id k n v) code
      let t' := (continued c.keccak256 s (between ++ [write])).storage
      (Succeeds c.keccak256 t sender (.updateAgreement id k n v) →
        Registry.zoneOwner t h = .ok sender ∧ Registry.zoneAgreement t' h k (c.keccak256 n) = .ok v ∧
        ∀ h' k' r', (h', k', r') ≠ (h, k, c.keccak256 n) →
          Registry.zoneAgreement t' h' k' r' = Registry.zoneAgreement t h' k' r') ∧
      (¬Succeeds c.keccak256 t sender (.updateAgreement id k n v) → t' = t) := by
  intro s t
  have ht : Trace (Registry.contract c.keccak256 .l2) s (continued c.keccak256 s between).journal t :=
    Registry.continued_trace s between
  refine ⟨fun hL2 zone key revision value tx => ?_, fun h id hread sender k n v code => ?_⟩
  · have hm : ¬c.Mistaken := by
      rintro ⟨-, ho⟩
      rw [isL1, ho, Bool.or_true] at hL2
      cases hL2
    rw [createRevision_ok]
    constructor
    · rintro ⟨id, n, v, hid, hn, hv, rfl⟩
      exact ⟨id, n, v, (hid.resolve_left fun h => hm h.1).2, hn, hv, rfl⟩
    · rintro ⟨id, n, v, hid, hn, hv, rfl⟩
      exact ⟨id, n, v, .inr ⟨hm, hid⟩, hn, hv, rfl⟩
  · intro write t'
    have hrun : t' = (Calls.exec (Registry.contract c.keccak256 .l2)
        (run (Registry.contract c.keccak256 .l2) (start s) between) write).world.storage := by
      simp only [t', continued, Calls.run_append]
      rfl
    constructor
    · rintro ⟨⟨s', events⟩, hb⟩
      have hs' : t' = s' := by
        rw [hrun, Calls.exec_ok rfl hb]
        rfl
      rw [hs']
      apply Registry.write_after_read ht (Registry.reached_inv steps) hread hb
    · intro hfail
      cases hb : (Registry.contract c.keccak256 .l2).body sender (.updateAgreement id k n v) t with
      | ok r => exact absurd ⟨r, hb⟩ hfail
      | error e =>
        rw [hrun, Calls.exec_error hb]
        rfl

/-- Between the read and the write somebody claims another zone; the write still finds its own. -/
theorem two_step_write_sample :
    let steps : List Step := [.call 1 (.claimZone zoneSample) false]
    let between : List Step := [.call 2 (.claimZone keySample) false]
    Registry.zoneAgreement (L := .l2) (continued keccakSample (reached keccakSample .l2 steps).storage
        (between ++ [.call 1 (.updateAgreement 0 (keccakSample keySample) v1Sample [0x51]) false])).storage
      (keccakSample zoneSample) (keccakSample keySample) (keccakSample v1Sample) = .ok [0x51] :=
  (((two_step_write (sampleConnection .l2) [.call 1 (.claimZone zoneSample) false]
    [.call 2 (.claimZone keySample) false]).2 (keccakSample zoneSample) 0 rfl 1 (keccakSample keySample) v1Sample [0x51]
    false).1 ⟨_, rfl⟩).2.1

end Connection

end Sdk

end LawRegistry
