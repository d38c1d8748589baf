import LawRegistry.History
/-!
# Whose zone it is

Once an account holds a zone and has let nobody else act for it, nobody else can take the zone,
or write to it: no right that was planted before outlives the hand-over.
-/

namespace LawRegistry

open Calls (Trace run)

/-- `owner` holds the zone, and nobody else may act for it. -/
structure ERC721.Held (s : ERC721) (zone : Uint256) (owner : Address) : Prop where
  owned : s._owners zone = owner
  some_owner : owner ≠ .zero
  unapproved : s._tokenApprovals zone = .zero
  no_operator : ∀ x, s._operatorApprovals owner x = false

section Step
variable {keccak256 : Bytes → Bytes32} {zone : Uint256} {owner sender : Address}

theorem ERC721.Held.not_manages {s : ERC721} (h : s.Held zone owner) (h0 : sender ≠ .zero) (hs : sender ≠ owner) :
    ¬s.Manages sender zone := by
  rintro (hm | hm | hm)
  · exact hs (hm.trans h.owned)
  · rw [h.owned, h.no_operator] at hm
    cases hm
  · exact h0 (hm.symm.trans h.unapproved)

/-- Nobody else changes that by a token call. -/
theorem ERC721.Effect.held {s s' : ERC721} {op : ERC721.Op} {events : List ERC721.Event}
    (h : ERC721.Effect sender s op s' events) (hs : s.Held zone owner) (h0 : sender ≠ .zero) (hne : sender ≠ owner) :
    s'.Held zone owner := by
  obtain ⟨ho, hz, ha, hop⟩ := hs
  cases h with
  | @approve to_ tokenId _ _ hauth =>
    have hid : zone ≠ tokenId := by
      rintro rfl
      rw [ho, hop] at hauth
      exact hauth.elim hne (by simp)
    exact ⟨ho, hz, by simpa [hid] using ha, hop⟩
  | @setApprovalForAll operator b =>
    exact ⟨ho, hz, ha, fun x => by simpa [Ne.symm hne] using hop x⟩
  | @move _ from_ to_ tokenId _ _ _ _ hm =>
    have hid : zone ≠ tokenId := by
      rintro rfl
      exact ERC721.Held.not_manages ⟨ho, hz, ha, hop⟩ h0 hne hm
    exact ⟨by simpa [hid] using ho, hz, by simpa [hid] using ha, hop⟩

/-- Nobody else changes who holds the zone, or what is published there. -/
theorem Zones.Effect.held {v v' : Zones} {op : Op} {events : List Event}
    (h : Effect keccak256 sender v op v' events) (hs : v.tokens.Held zone owner) (h0 : sender ≠ .zero)
    (hne : sender ≠ owner) : v'.tokens.Held zone owner ∧ v'.agreements zone = v.agreements zone := by
  cases h with
  | @claimZone zoneName id _ _ hfree =>
    obtain ⟨ho, hz, ha, hop⟩ := hs
    have hid : zone ≠ id := by
      rintro rfl
      exact hz (ho.symm.trans hfree)
    exact ⟨⟨by simpa [claim, hid] using ho, hz, ha, hop⟩, rfl⟩
  | @updateAgreement z key revisionName value _ ho _ =>
    refine ⟨hs, ?_⟩
    have hid : zone ≠ z := by
      rintro rfl
      exact hne (ho.symm.trans hs.owned)
    funext k r
    simp [hid]
  | erc721 he => exact ⟨he.held hs h0 hne, rfl⟩

end Step

namespace Registry
variable {keccak256 : Bytes → Bytes32} {L : Layer} {s s₀ : Storage L} {es : List (Entry L)} {zone : Uint256}
  {owner : Address}

/-- The run, once nobody but `owner` may act for the zone, and `owner` stays away. -/
theorem trace_held (h : Trace (contract keccak256 L) s₀ es s)
    (hes : ∀ e ∈ es, e.sender ≠ .zero ∧ e.sender ≠ owner) (hs : (tokens s₀).Held zone owner) :
    (tokens s).Held zone owner ∧ agreementOf s zone = agreementOf s₀ zone := by
  refine h.inv (I := fun s => (tokens s).Held zone owner ∧ agreementOf s zone = agreementOf s₀ zone) ⟨hs, rfl⟩ ?_
  rintro e he ⟨hheld, hagree⟩ hb
  obtain ⟨h0, hne⟩ := hes e he
  obtain ⟨hheld', hagree'⟩ := (body_effect hb).held (by simpa using hheld) h0 hne
  simp only [zones_tokens, zones_agreements] at hheld' hagree'
  exact ⟨hheld', hagree'.trans hagree⟩

/-- The zone keeps its ids. -/
theorem trace_zoneID (hi : (zones s₀).Inv keccak256) (h : Trace (contract keccak256 L) s₀ es s)
    (hown : (tokens s₀)._owners zone ≠ .zero) (hash : Bytes32) :
    zoneID s hash = .ok zone ↔ zoneID s₀ hash = .ok zone := by
  cases L with
  | l1 => rfl
  | l2 =>
    have hi' := trace_inv h hi
    have hown' := trace_exists_keep h hown
    simp only [zoneID, l2_zoneID_ok, hi.index_iff, hi'.index_iff, zones_tokens, zones_names, trace_name_keep h hown]
    simp [hown, hown']

/-! ## Hand-overs -/

/-- The call made `owner` the owner of the zone. -/
def HandsOver (e : Entry L) (zone : Uint256) (owner : Address) : Prop :=
  e.sender = owner ∧ Creates e zone ∨ ∃ op from_, e.op = .erc721 op ∧ op.moves = some (from_, owner, zone)

/-- A hand-over leaves no account approved for the zone. -/
theorem handsOver_unapproved {pre : List (Entry L)} {e : Entry L}
    (h : Trace (contract keccak256 L) (contract keccak256 L).init (pre ++ [e]) s) (he : HandsOver e zone owner) :
    (tokens s)._tokenApprovals zone = .zero := by
  obtain ⟨hpre, hb, hpost⟩ := h.split rfl
  obtain rfl := hpost.nil_eq
  rcases he with ⟨-, hc⟩ | ⟨op, from_, hop, hmoves⟩
  · have h0 := hc.unowned
    obtain ⟨zoneName, hop, -⟩ := hc
    obtain ⟨id, -, -, -, ha⟩ := claim_entry hop hb
    rw [← zones_tokens, ha]
    apply (trace_inv_init hpre).unapproved zone h0
  · rw [hop] at hb
    obtain ⟨tokens', evs, heff, ht⟩ := erc721_ok hb
    rw [ht]
    cases heff with
    | approve | setApprovalForAll => simp [ERC721.Op.moves] at hmoves
    | move hmoves' =>
      rw [hmoves'] at hmoves
      cases hmoves
      simp

/-- Right after a hand-over, or once nobody is approved for the zone, nobody but its owner can
take the zone, rename it or write to it, in any run. -/
theorem zone_sovereign (keccak256 : Bytes → Bytes32) (L : Layer) (steps later : List Step) (zone : Uint256)
    (owner : Address)
    (howner : (tokens (reached keccak256 L steps).storage).ownerOf zone = .ok owner)
    (hover : (∃ pre e, (reached keccak256 L steps).journal = pre ++ [e] ∧ HandsOver e zone owner) ∨
      (tokens (reached keccak256 L steps).storage).getApproved zone = .ok .zero)
    (hop : ∀ x, (tokens (reached keccak256 L steps).storage).isApprovedForAll owner x = false)
    (hsenders : ∀ sender op code, .call sender op code ∈ later → sender ≠ .zero ∧ sender ≠ owner) :
    let s := (reached keccak256 L steps).storage
    let t := (continued keccak256 s later).storage
    (tokens t).ownerOf zone = .ok owner ∧ nameOf t zone = nameOf s zone ∧
      (∀ hash, zoneID t hash = .ok zone ↔ zoneID s hash = .ok zone) ∧
      ∀ key revision, agreementOf t zone key revision = agreementOf s zone key revision := by
  intro s t
  obtain ⟨h0, rfl⟩ := ERC721.ownerOf_ok.1 howner
  have hunapproved : (tokens s)._tokenApprovals zone = .zero := by
    rcases hover with ⟨pre, e, hj, he⟩ | ha
    · have ht : Trace (contract keccak256 L) _ _ _ := reached_trace steps
      rw [hj] at ht
      exact handsOver_unapproved ht he
    · exact (ERC721.getApproved_ok.1 ha).2
  have ht : Trace (contract keccak256 L) s (continued keccak256 s later).journal t := continued_trace s later
  have hes : ∀ e ∈ (continued keccak256 s later).journal, e.sender ≠ .zero ∧ e.sender ≠ (tokens s)._owners zone := by
    intro e he
    obtain ⟨code, hstep⟩ := Calls.run_calls _ _ e he
    exact hsenders _ _ _ hstep
  obtain ⟨hheld, hagree⟩ := trace_held ht hes ⟨rfl, h0, hunapproved, hop⟩
  refine ⟨ERC721.ownerOf_ok.2 ⟨?_, hheld.owned⟩, trace_name_keep ht h0, trace_zoneID (reached_inv steps) ht h0,
    fun key revision => by rw [hagree]⟩
  rw [hheld.owned]
  exact h0

/-- The previous owner tries to take the zone back. -/
theorem zone_sovereign_sample :
    (tokens (continued keccakSample (reached keccakSample .l1
      [.call 1 (.claimZone zoneSample) false, .call 1 (.erc721 (.approve 3 (keccakSample zoneSample))) false,
       .call 1 (.erc721 (.transferFrom 1 2 (keccakSample zoneSample))) false]).storage
      [.call 3 (.erc721 (.transferFrom 2 3 (keccakSample zoneSample))) false,
       .call 1 (.updateAgreement (keccakSample zoneSample) 0 v1Sample [0x51]) false]).storage).ownerOf
      (keccakSample zoneSample) = .ok 2 := by
  refine (zone_sovereign keccakSample .l1 _ _ _ 2 rfl (.inl ⟨[_, _], _, rfl, .inr ⟨_, _, rfl, rfl⟩⟩)
    (fun x => rfl) ?_).1
  intro sender op code hm
  simp only [List.mem_cons, List.not_mem_nil, or_false, Calls.Step.call.injEq] at hm
  obtain ⟨rfl, -⟩ | ⟨rfl, -⟩ := hm <;> decide

/-- What the recipient approves while it answers a `safeTransferFrom` does outlive the hand-over. -/
theorem approved_in_hook :
    let zone := keccakSample zoneSample
    let steps : List Step :=
      [.call 1 (.claimZone zoneSample) false, .call 1 (.erc721 (.safeTransferFrom 1 2 zone)) true,
       .call 2 (.erc721 (.approve 3 zone)) false, .reply (.returned ERC721.onERC721Received)]
    let later : List Step := [.call 3 (.erc721 (.transferFrom 2 3 zone)) false]
    let m := run (contract keccakSample .l1) (deployed keccakSample .l1) steps
    m.stack = [] ∧ (tokens m.world.storage).ownerOf zone = .ok 2 ∧
    (∀ x, (tokens m.world.storage).isApprovedForAll 2 x = false) ∧
    (∀ sender op code, .call sender op code ∈ later → sender ≠ .zero ∧ sender ≠ 2) ∧
    (tokens (continued keccakSample m.world.storage later).storage).ownerOf zone = .ok 3 := by
  refine ⟨rfl, rfl, fun x => rfl, ?_, rfl⟩
  simp [Address.zero]

end Registry

end LawRegistry
