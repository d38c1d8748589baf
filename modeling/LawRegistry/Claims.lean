import LawRegistry.Ids
/-!
# First come, first served

A name nobody claimed can be claimed by every account, and a name somebody claimed by none, in
every state of a run.
-/

namespace LawRegistry

open Calls (Trace)

namespace DocRegistryL2
variable {keccak256 : Bytes → Bytes32} {s : DocRegistryL2} {sender : Address}

/-- The next id is free, so that `_mint` only refuses the zero address. -/
theorem mint_counter (ha : s.Allocated) : s._mint sender s.counter =
    if sender = .zero then .error (.error "ERC721: mint to the zero address")
    else .ok (s.minted sender s.counter, [.Transfer .zero sender s.counter]) := by
  by_cases h0 : sender = .zero
  · rw [if_pos h0, ERC721._mint, require, if_neg (not_not.2 h0)]
    rfl
  · rw [if_neg h0]
    apply ERC721.mint_ok.2 ⟨h0, ha.free, rfl⟩

theorem not_already_minted (ha : s.Allocated) (zoneName : Bytes) :
    claimZone keccak256 sender s zoneName ≠ .error (.error "ERC721: token already minted") := by
  intro h
  rcases bind_error.1 h with h | ⟨_, -, h⟩
  · obtain ⟨-, he⟩ := require_error.1 h
    simp at he
  rcases bind_error.1 h with h | ⟨_, -, h⟩
  · rw [mint_counter ha] at h
    split at h <;> simp at h
  -- What is left can only overflow.
  rcases bind_error.1 h with h | ⟨_, -, h⟩
  · exact absurd (checkedAdd_error h) (by simp [overflow])
  rcases bind_error.1 h with h | ⟨_, -, h⟩
  · exact absurd (checkedAdd_error h) (by simp [overflow])
  · cases h

end DocRegistryL2

namespace Registry
variable {keccak256 : Bytes → Bytes32} {L : Layer} {s : Storage L} {sender : Address} {zoneName : Bytes}

/-! ## One claim -/

theorem index_of_succeeds (h : Succeeds keccak256 s sender (.claimZone zoneName)) :
    (zones s).index (keccak256 zoneName) = none := by
  obtain ⟨⟨s', events⟩, h⟩ := h
  obtain ⟨id, -, hnew, -⟩ := claim_zones h
  exact hnew

theorem claim_succeeds (h0 : sender ≠ .zero) (ha : Allocated s) (hroom : HasRoom s)
    (hx : (zones s).index (keccak256 zoneName) = none) : Succeeds keccak256 s sender (.claimZone zoneName) := by
  cases L with
  | l1 => exact ⟨_, DocRegistry.claimZone_ok.2 ⟨h0, idOfOwner_none.1 hx, rfl⟩⟩
  | l2 =>
    refine ⟨_, DocRegistryL2.claimZone_ok.2 ⟨idOfEntry_none.1 hx, h0, DocRegistryL2.Allocated.free ha, ?_, rfl⟩⟩
    unfold HasRoom at hroom
    omega

/-- On L2 ids can run out. -/
def Room (w : World L) : Prop := L = .l2 → w.journal.countP (·.op.isClaim) < 2 ^ 256 - 1

theorem hasRoom_of_room {steps : List Step} (h : Room (reached keccak256 L steps)) :
    HasRoom (reached keccak256 L steps).storage := by
  cases L with
  | l1 => trivial
  | l2 =>
    have hcount := DocRegistryL2.reached_counter keccak256 steps
    have hlt := h rfl
    simp only [HasRoom]
    dsimp only at hcount
    omega

/-! ## Every run -/

/-- A name nobody claimed is found under no id. -/
theorem index_unclaimed {steps : List Step} (hc : NoCollision keccak256 (zoneName :: claimedNames steps))
    (hno : ∀ e ∈ (reached keccak256 L steps).journal, e.op ≠ .claimZone zoneName) :
    (zones (reached keccak256 L steps).storage).index (keccak256 zoneName) = none := by
  by_contra hx
  obtain ⟨id, hx⟩ := Option.ne_none_iff_exists'.1 hx
  obtain ⟨e, he, n, hop, hn, -⟩ := claim_of_index (reached_trace steps) hx
  -- The name claimed under this hash was named by a step, so it is this name.
  rw [hc.head_eq (mem_claimedNames he hop) hn] at hop
  apply hno e he hop

/-- The claim sets the name, and no later call changes it. -/
theorem nameOf_claim {s₀ : Storage L} {es : List (Entry L)} (ht : Trace (contract keccak256 L) s₀ es s) {e : Entry L}
    (he : e ∈ es) (hop : e.op = .claimZone zoneName) {id : Uint256}
    (hafter : (zones e.after).index (keccak256 zoneName) = some id) : nameOf s id = zoneName := by
  obtain ⟨pre, post, hsplit⟩ := List.append_of_mem he
  obtain ⟨-, hb, hpost⟩ := ht.split hsplit
  obtain ⟨id', hsender, -, -, hclaim⟩ := claim_entry hop hb
  have hid : id' = id := by
    rw [hclaim] at hafter
    simpa [Zones.claim] using hafter
  subst hid
  have hname : nameOf e.after id' = zoneName := by
    rw [← zones_names, hclaim]
    simp [Zones.claim]
  have hown : (tokens e.after)._owners id' ≠ .zero := by
    rw [← zones_tokens, hclaim]
    simpa [Zones.claim] using hsender
  rw [trace_name_keep hpost hown, hname]

/-- A name is claimed once: by the first account that asks, and then for ever. -/
theorem claimed_once (keccak256 : Bytes → Bytes32) (L : Layer) (steps : List Step) (zoneName : Bytes)
    (hc : NoCollision keccak256 (zoneName :: claimedNames steps)) :
    let w := reached keccak256 L steps
    ((∀ e ∈ w.journal, e.op ≠ .claimZone zoneName) →
      (∀ owner, zoneOwner w.storage (keccak256 zoneName) ≠ .ok owner) ∧
      (Room w → ∀ sender, sender ≠ .zero → Succeeds keccak256 w.storage sender (.claimZone zoneName))) ∧
    (∀ e ∈ w.journal, e.op = .claimZone zoneName →
      (∀ sender, ¬Succeeds keccak256 w.storage sender (.claimZone zoneName)) ∧
      (∃ owner, zoneOwner w.storage (keccak256 zoneName) = .ok owner) ∧
      name w.storage (keccak256 zoneName) = .ok zoneName ∧
      ∃ id, zoneID e.after (keccak256 zoneName) = .ok id ∧ zoneID w.storage (keccak256 zoneName) = .ok id) ∧
    (∀ later, L = .l2 → ∀ sender, (contract keccak256 L).body sender (.claimZone later) w.storage ≠
      .error (.error "ERC721: token already minted")) := by
  intro w
  have ht : Trace (contract keccak256 L) (contract keccak256 L).init w.journal w.storage := reached_trace steps
  refine ⟨fun hno => ?_, fun e he hop => ?_, ?_⟩
  · have hx : (zones w.storage).index (keccak256 zoneName) = none := index_unclaimed hc hno
    constructor
    · intro owner ho
      obtain ⟨id, hid, -⟩ := zoneOwner_ok.1 ho
      rw [hx] at hid
      cases hid
    · intro hroom sender h0
      exact claim_succeeds h0 (reached_allocated steps) (hasRoom_of_room hroom) hx
  · obtain ⟨id, -, hafter, hx⟩ := index_of_claim ht he hop
    have hinv : (zones w.storage).Inv keccak256 := reached_inv steps
    obtain ⟨hown, -⟩ := hinv.index_iff.1 hx
    simp only [zones_tokens] at hown
    refine ⟨fun sender hs => ?_, ⟨_, zoneOwner_ok.2 ⟨id, hx, ERC721.ownerOf_ok.2 ⟨hown, rfl⟩⟩⟩, ?_,
      id, zoneID_ok hafter, zoneID_ok hx⟩
    · rw [index_of_succeeds hs] at hx
      cases hx
    · rw [name_ok hx, nameOf_claim ht he hop hafter]
  · rintro later rfl sender
    exact DocRegistryL2.not_already_minted (reached_allocated (L := .l2) steps) later

/-- The zone keeps its name after a transfer. -/
theorem claimed_once_sample :
    name (reached keccakSample .l2
      [.call 1 (.claimZone zoneSample) false, .call 1 (.erc721 (.transferFrom 1 2 0)) false]).storage
      (keccakSample zoneSample) = .ok zoneSample :=
  ((claimed_once keccakSample .l2 _ zoneSample (by decide)).2.1 _ List.mem_cons_self rfl).2.2.1

end Registry

end LawRegistry
