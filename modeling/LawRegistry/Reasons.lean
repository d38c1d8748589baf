import LawRegistry.Lib.Checks
import LawRegistry.Refinement
/-!
# Why calls fail

Each function makes its checks in a fixed order, and fails with the message of the first that does
not hold. `Registry.checks` lists them for both registries, as far as they can ever fail, and
`answerChecks` what a safe transfer checks of its recipient's answer last. Called by hash, the
registries fail with the same reason, but for hashes nobody claimed and names somebody did.
-/

namespace LawRegistry

open Calls (run start outcome)
open Checks (reason first)

/-- What a `require` checks. -/
def check (p : Prop) [Decidable p] (message : String) : Bool × Revert := (decide p, .error message)

section
variable {p q : Prop} [Decidable p] [Decidable q] {message : String} {checks : List (Bool × Revert)}

theorem first_check (h : p) : first (check p message :: checks) = first checks := if_pos (decide_eq_true h)

theorem first_check_not (h : ¬p) : first (check p message :: checks) = some (.error message) := by
  unfold check
  rw [decide_eq_false h]
  rfl

theorem reason_require_iff (h : p ↔ q) : reason (require p message) = first [check q message] := by
  unfold require
  by_cases hp : p
  · rw [if_pos hp, first_check (h.1 hp)]
    rfl
  · rw [if_neg hp, first_check_not (mt h.2 hp)]
    rfl

theorem reason_require : reason (require p message) = first [check p message] := reason_require_iff Iff.rfl

end

theorem reason_checkedAdd {a b : Uint256} :
    reason (checkedAdd a b) = first [(decide (a.toNat + b.toNat < 2 ^ 256), overflow)] := by
  unfold checkedAdd
  split
  next h =>
    rw [decide_eq_true h]
    rfl
  next h =>
    rw [decide_eq_false h]
    rfl

/-! ## Tokens -/

namespace ERC721
variable (sender : Address) (s : ERC721)

/-- A token that does not exist. -/
def existsCheck (tokenId : Uint256) : Bool × Revert :=
  check (s._owners tokenId ≠ .zero) "ERC721: invalid token ID"

instance {sender : Address} {s : ERC721} {tokenId : Uint256} : Decidable (s.Manages sender tokenId) :=
  inferInstanceAs (Decidable (_ ∨ _ ∨ _))

/-- The checks of a transfer; `_transfer` makes some of them again. -/
def moveChecks (from_ to_ : Address) (tokenId : Uint256) : List (Bool × Revert) :=
  let owner := s._owners tokenId
  [s.existsCheck tokenId,
    check (s.Manages sender tokenId) "ERC721: caller is not token owner or approved",
    check (owner = from_) "ERC721: transfer from incorrect owner",
    check (to_ ≠ .zero) "ERC721: transfer to the zero address"]

def checks : Op → List (Bool × Revert)
  | .approve to_ tokenId =>
    let owner := s._owners tokenId
    [s.existsCheck tokenId,
      check (to_ ≠ owner) "ERC721: approval to current owner",
      check (sender = owner ∨ s.isApprovedForAll owner sender = true)
        "ERC721: approve caller is not token owner or approved for all"]
  | .setApprovalForAll operator _ => [check (sender ≠ operator) "ERC721: approve to caller"]
  | .transferFrom from_ to_ tokenId | .safeTransferFrom from_ to_ tokenId
  | .safeTransferFromData from_ to_ tokenId _ => moveChecks sender s from_ to_ tokenId

variable {sender s} {from_ to_ owner : Address} {tokenId : Uint256}

theorem reason_ownerOf : reason (s.ownerOf tokenId) = first [s.existsCheck tokenId] :=
  (Checks.reason_map _).trans reason_require

theorem reason_approve : reason (approve sender s to_ tokenId) = first (checks sender s (.approve to_ tokenId)) := by
  apply Checks.reason_bind reason_ownerOf
  intro owner ho
  obtain ⟨-, rfl⟩ := ownerOf_ok.1 ho
  have happrove : s._approve to_ tokenId =
      .ok (s.approved to_ tokenId, [.Approval (s._owners tokenId) to_ tokenId]) := bind_ok.2 ⟨_, ho, rfl⟩
  apply Checks.reason_bind reason_require
  intro _ _
  have hmay : (decide (sender = s._owners tokenId) || s.isApprovedForAll (s._owners tokenId) sender) = true ↔
      sender = s._owners tokenId ∨ s.isApprovedForAll (s._owners tokenId) sender = true := by
    rw [Bool.or_eq_true, decide_eq_true_eq]
  exact Checks.reason_bind (reason_require_iff hmay) fun _ _ => Checks.reason_passed happrove

theorem reason_isApprovedOrOwner : reason (s._isApprovedOrOwner sender tokenId) = first [s.existsCheck tokenId] := by
  apply Checks.reason_bind reason_ownerOf
  intro owner ho
  have hget : s.getApproved tokenId = .ok _ := getApproved_ok.2 ⟨(ownerOf_ok.1 ho).1, rfl⟩
  split
  · rfl
  · rw [Checks.reason_map, Checks.reason_passed hget]

/-- What the check of the caller comes to. -/
theorem isApprovedOrOwner_iff {b : Bool} (h : s._isApprovedOrOwner sender tokenId = .ok b) :
    b = true ↔ s.Manages sender tokenId := by
  obtain ⟨owner, ho, -⟩ := bind_ok.1 h
  have hm : s._isApprovedOrOwner sender tokenId = .ok true ↔ _ := isApprovedOrOwner_ok
  rw [h] at hm
  constructor
  · rintro rfl
    exact (hm.1 rfl).2
  · intro hmanages
    exact Except.ok.inj (hm.2 ⟨(ownerOf_ok.1 ho).1, hmanages⟩)

theorem reason_transfer (ho : s.ownerOf tokenId = .ok owner) : reason (s._transfer from_ to_ tokenId) =
    first [check (owner = from_) "ERC721: transfer from incorrect owner",
      check (to_ ≠ .zero) "ERC721: transfer to the zero address"] := by
  have hagain : ∀ owner', s.ownerOf tokenId = .ok owner' → owner' = owner := by
    intro owner' ho'
    rw [ho] at ho'
    cases ho'
    rfl
  apply Checks.reason_bind (Checks.reason_passed ho)
  intro owner' ho'
  rw [hagain owner' ho']
  apply Checks.reason_bind reason_require
  intro _ hfrom
  apply Checks.reason_bind reason_require
  intro _ _
  apply Checks.reason_bind (Checks.reason_passed ho)
  intro owner'' ho''
  rw [hagain owner'' ho'']
  exact Checks.reason_bind (Checks.reason_passed hfrom) fun _ _ => rfl

theorem reason_transferFrom :
    reason (transferFrom sender s from_ to_ tokenId) = first (moveChecks sender s from_ to_ tokenId) := by
  apply Checks.reason_bind reason_isApprovedOrOwner
  intro b hb
  obtain ⟨owner, ho, -⟩ := bind_ok.1 hb
  obtain ⟨-, rfl⟩ := ownerOf_ok.1 ho
  exact Checks.reason_bind (reason_require_iff (isApprovedOrOwner_iff hb)) fun _ _ => reason_transfer ho

/-- Why a call to the token code fails. -/
theorem reason_call (op : Op) : reason (call sender s op) = first (checks sender s op) := by
  cases op with
  | approve to_ tokenId => exact reason_approve
  | setApprovalForAll operator b => exact (Checks.reason_map _).trans reason_require
  | transferFrom | safeTransferFrom | safeTransferFromData => exact reason_transferFrom

end ERC721

/-! ## The recipient's answer -/

namespace ERC721

/-- What a transfer is taken back with: the recipient's own reason, if it gave one. -/
def refusal : Option Reply → Revert
  | some .malformed => .data []
  | some (.reverted reason) =>
    if reason.length = 0 then .error "ERC721: transfer to non ERC721Receiver implementer" else .data reason
  | none | some (.returned _) => .error "ERC721: transfer to non ERC721Receiver implementer"

theorem reason_afterReceived (answer : Option Reply) :
    reason (_afterReceived answer) = first [(acknowledged answer, refusal answer)] := by
  unfold _afterReceived
  cases answer with
  | none => rfl
  | some a =>
    cases a with
    | returned retval => exact reason_require_iff (p := (retval == onERC721Received) = true) (by simp)
    | malformed => rfl
    | reverted reason =>
      simp only [_checkOnERC721Received, refusal]
      split <;> rfl

end ERC721

/-- What is checked last, where a recipient is asked. -/
def Op.answerChecks (op : Op) (answer : Option Reply) : List (Bool × Revert) :=
  if op.hook.isSome then [(ERC721.acknowledged answer, ERC721.refusal answer)] else []

/-- A whole call fails with the reason of its body, or else of the answer. -/
theorem reason_outcome {S : Type} {K : Calls.Contract Address Op S Event Reply Revert} (hK : K.hook = Op.hook)
    (sender : Address) (op : Op) (s : S) (answer : Option Reply) :
    reason (outcome K sender op s answer) = (reason (K.body sender op s)).or (first (op.answerChecks answer)) := by
  unfold outcome Op.answerChecks
  rw [hK]
  cases K.body sender op s with
  | error x => rfl
  | ok r =>
    cases hh : op.hook with
    | none => rfl
    | some check =>
      rw [Op.hook_some hh]
      exact (Checks.reason_map _).trans (ERC721.reason_afterReceived answer)

/-! ## One call -/

namespace Registry
section
variable (keccak256 : Bytes → Bytes32) (sender : Address)

def claimChecks (zoneName : Bytes) : {L : Layer} → Storage L → List (Bool × Revert)
  | .l1, s =>
    [check (sender ≠ .zero) "ERC721: mint to the zero address",
      check (s._owners (keccak256 zoneName) = .zero) "ERC721: token already minted"]
  | .l2, s =>
    [check (s._zoneHashToId (keccak256 zoneName) = 0) "no minty twice",
      check (sender ≠ .zero) "ERC721: mint to the zero address",
      (decide (s.counter.toNat + 1 < 2 ^ 256), overflow)]

/-- The checks of a call, those apart that can never fail. -/
def checks {L : Layer} (s : Storage L) : Op → List (Bool × Revert)
  | .claimZone zoneName => claimChecks keccak256 sender zoneName s
  | .updateAgreement zone key revisionName _ =>
    let revisionID := keccak256 revisionName
    [(tokens s).existsCheck zone,
      check ((tokens s)._owners zone = sender) "not owner",
      check (revisionID = keccak256 latest ∨ (agreementOf s zone key revisionID).length = 0) "exists"]
  | .erc721 op => ERC721.checks sender (tokens s) op

end

variable {keccak256 : Bytes → Bytes32} {L : Layer} {s : Storage L} {sender : Address} {op : Op} {h : Bytes32}

theorem reason_mint {s : ERC721} {to_ : Address} {tokenId : Uint256} : reason (s._mint to_ tokenId) =
    first [check (to_ ≠ .zero) "ERC721: mint to the zero address",
      check (s._owners tokenId = .zero) "ERC721: token already minted"] := by
  apply Checks.reason_bind reason_require
  intro _ _
  have hfree : (!s._exists tokenId) = true ↔ s._owners tokenId = .zero := by
    rw [Bool.not_eq_true', ERC721.not_exists_iff]
  apply Checks.reason_bind (reason_require_iff hfree)
  intro _ hagain
  exact Checks.reason_bind (Checks.reason_passed hagain) fun _ _ => rfl

theorem reason_publish {tokens : ERC721} {a : Agreements} {zone : Uint256} {key : Bytes32}
    {revisionName value : Bytes} :
    reason (publish keccak256 sender tokens a zone key revisionName value) =
      first [tokens.existsCheck zone, check (tokens._owners zone = sender) "not owner",
        check (keccak256 revisionName = keccak256 latest ∨ (a zone key (keccak256 revisionName)).length = 0)
          "exists"] := by
  apply Checks.reason_bind ERC721.reason_ownerOf
  intro owner ho
  obtain ⟨-, rfl⟩ := ERC721.ownerOf_ok.1 ho
  apply Checks.reason_bind reason_require
  intro _ _
  by_cases hl : keccak256 revisionName = keccak256 latest
  · rw [first_check (.inl hl)]
    rw [if_neg (not_not.2 hl)]
    rfl
  · have hblank : (a zone key (keccak256 revisionName)).length = 0 ↔
        keccak256 revisionName = keccak256 latest ∨ (a zone key (keccak256 revisionName)).length = 0 := by
      rw [or_iff_right hl]
    rw [if_pos hl]
    exact (Checks.reason_map _).trans (reason_require_iff hblank)

variable (keccak256 sender op) in
/-- Why a call fails. -/
theorem reason_body (ha : Allocated s) : reason ((contract keccak256 L).body sender op s) =
    first (checks keccak256 sender s op) := by
  cases op with
  | claimZone zoneName =>
    cases L with
    | l1 => exact (Checks.reason_map _).trans reason_mint
    | l2 =>
      apply Checks.reason_bind reason_require
      intro _ _
      -- The next id is free.
      have hmint : reason (s._mint sender s.counter) =
          first [check (sender ≠ .zero) "ERC721: mint to the zero address"] := by
        have hfree : s._owners s.counter = .zero := DocRegistryL2.Allocated.free ha
        by_cases h0 : sender ≠ .zero
        · rw [reason_mint, first_check h0, first_check h0, first_check hfree]
        · rw [reason_mint, first_check_not h0, first_check_not h0]
      apply Checks.reason_bind hmint
      rintro ⟨tokens, events⟩ -
      apply Checks.reason_bind reason_checkedAdd
      intro _ hagain
      exact Checks.reason_bind (Checks.reason_passed hagain) fun _ _ => rfl
  | updateAgreement zone key revisionName value =>
    cases L <;> exact (Checks.reason_map _).trans reason_publish
  | erc721 op =>
    cases L <;> exact (Checks.reason_map _).trans (ERC721.reason_call op)

/-! ## Calls by hash -/

def unclaimedReason : Layer → Revert
  | .l1 => .error "ERC721: invalid token ID"
  | .l2 => overflow

variable {M : Layer} {t : Storage M} {id id' : Uint256}

/-- On L1 the token is missing, on L2 the id. -/
theorem reason_unclaimed (ha : Allocated s) (hz : op.zone = some h) (hx : (zones s).index h = none) :
    reason ((byHash keccak256 L).body sender op s) = some (unclaimedReason L) := by
  cases L with
  | l1 =>
    have h0 : s._owners h = .zero := idOfOwner_none.1 hx
    have hmissing : (tokens (L := .l1) s).existsCheck h = (false, unclaimedReason .l1) := by
      have hno : decide ((tokens (L := .l1) s)._owners h ≠ .zero) = false := decide_eq_false (not_not.2 h0)
      exact Prod.ext hno rfl
    rw [byHash_l1, reason_body keccak256 sender op ha]
    cases op with
    | claimZone => cases hz
    | updateAgreement =>
      cases hz
      rw [checks, hmissing]
      rfl
    | erc721 op =>
      cases op with
      | setApprovalForAll => cases hz
      | approve | transferFrom | safeTransferFrom | safeTransferFromData =>
        cases hz
        simp only [checks, ERC721.checks, ERC721.moveChecks, hmissing]
        rfl
  | l2 =>
    have hr : resolve (L := .l2) s op = .error overflow := by
      have hid : zoneID (L := .l2) s h = .error overflow := DocRegistryL2.zoneID_overflow.2 hx
      simp only [resolve, hz, hid]
      rfl
    apply Checks.reason_error.2
    exact bind_error.2 (.inl hr)

theorem reason_claimed (ha : Allocated s) (hz : op.zone = some h) (hx : (zones s).index h = some id) :
    reason ((byHash keccak256 L).body sender op s) = first (checks keccak256 sender s (op.withZone id)) := by
  have hr : resolve s op = .ok (op.withZone id) := by
    simp only [resolve, hz, zoneID_ok hx]
    rfl
  rw [← reason_body keccak256 sender (op.withZone id) ha]
  exact Checks.reason_bind_ok hr

/-- The checks on a claimed zone only look at what is known of it. -/
theorem checks_of_read (hread : (zones s).read id = (zones t).read id')
    (hop : (view s).operators = (view t).operators) (hz : op.zone = some h) :
    checks keccak256 sender s (op.withZone id) = checks keccak256 sender t (op.withZone id') := by
  simp only [Zones.read, Zone.mk.injEq, zones_tokens, zones_agreements] at hread
  obtain ⟨ho, ha, -, hag⟩ := hread
  simp only [view, Zones.view, zones_tokens] at hop
  have hm : (tokens s).Manages sender id ↔ (tokens t).Manages sender id' := by
    unfold ERC721.Manages
    rw [ho, ha, hop]
  cases op with
  | claimZone => cases hz
  | updateAgreement => simp only [checks, Op.withZone, ERC721.existsCheck, ho, hag]
  | erc721 op =>
    cases op with
    | setApprovalForAll => cases hz
    | approve | transferFrom | safeTransferFrom | safeTransferFromData =>
      simp only [checks, Op.withZone, ERC721.Op.withToken, ERC721.checks, ERC721.moveChecks, ERC721.existsCheck,
        ERC721.isApprovedForAll, ho, hop, hm]

theorem zone_none : (view s).zone h = none ↔ (zones s).index h = none := Option.map_eq_none_iff

/-! ## In lockstep -/

section Lockstep
variable {s : DocRegistry} {t : DocRegistryL2} {zoneName : Bytes}

theorem index_none (hr : SameView keccak256 (L := .l1) (M := .l2) s t) :
    s._owners h = .zero ↔ t._zoneHashToId h = 0 := by
  have hs : (view (L := .l1) s).zone h = none ↔ _ := zone_none
  have ht : (view (L := .l2) t).zone h = none ↔ _ := zone_none
  rw [hr.2.2] at hs
  exact idOfOwner_none.symm.trans (hs.symm.trans (ht.trans idOfEntry_none))

/-- A free name is refused to the zero address only. -/
theorem reason_claim_free (hr : SameView keccak256 (L := .l1) (M := .l2) s t) (hroom : HasRoom (L := .l2) t)
    (hx : t._zoneHashToId (keccak256 zoneName) = 0) :
    reason (DocRegistry.body keccak256 sender s (.claimZone zoneName)) =
      reason (DocRegistryL2.body keccak256 sender t (.claimZone zoneName)) := by
  have hs : reason (DocRegistry.body keccak256 sender s (.claimZone zoneName)) =
      first (claimChecks keccak256 sender zoneName (L := .l1) s) :=
    reason_body keccak256 sender (.claimZone zoneName) hr.1.allocated
  have ht : reason (DocRegistryL2.body keccak256 sender t (.claimZone zoneName)) =
      first (claimChecks keccak256 sender zoneName (L := .l2) t) :=
    reason_body keccak256 sender (.claimZone zoneName) hr.2.1.allocated
  have hlt : t.counter.toNat + 1 < 2 ^ 256 := Nat.add_lt_of_lt_sub hroom
  rw [hs, ht, claimChecks, claimChecks, first_check hx, decide_eq_true hlt]
  have hfree : s._owners (keccak256 zoneName) = .zero := (index_none hr).2 hx
  by_cases h0 : sender ≠ .zero
  · rw [first_check h0, first_check hfree, first_check h0]
    rfl
  · rw [first_check_not h0, first_check_not h0]

theorem reason_claim_taken (sender : Address) (hr : SameView keccak256 (L := .l1) (M := .l2) s t)
    (hx : t._zoneHashToId (keccak256 zoneName) ≠ 0) :
    reason (DocRegistry.body keccak256 sender s (.claimZone zoneName)) =
        some (.error (if sender = .zero then "ERC721: mint to the zero address" else "ERC721: token already minted")) ∧
      reason (DocRegistryL2.body keccak256 sender t (.claimZone zoneName)) = some (.error "no minty twice") := by
  have hs : reason (DocRegistry.body keccak256 sender s (.claimZone zoneName)) =
      first (claimChecks keccak256 sender zoneName (L := .l1) s) :=
    reason_body keccak256 sender (.claimZone zoneName) hr.1.allocated
  have ht : reason (DocRegistryL2.body keccak256 sender t (.claimZone zoneName)) =
      first (claimChecks keccak256 sender zoneName (L := .l2) t) :=
    reason_body keccak256 sender (.claimZone zoneName) hr.2.1.allocated
  have htaken : s._owners (keccak256 zoneName) ≠ .zero := mt (index_none hr).1 hx
  rw [hs, ht, claimChecks, claimChecks, first_check_not hx]
  refine ⟨?_, rfl⟩
  by_cases h0 : sender ≠ .zero
  · rw [first_check h0, first_check_not htaken, if_neg h0]
  · rw [first_check_not h0, if_pos (not_not.1 h0)]

/-- A call on a zone both know fails for the same reason. -/
theorem reason_zone (hr : SameView keccak256 (L := .l1) (M := .l2) s t) (hz : op.zone = some h)
    (hx : (zones (L := .l2) t).index h = some id) :
    reason ((byHash keccak256 .l1).body sender op s) = reason ((byHash keccak256 .l2).body sender op t) := by
  obtain ⟨hgs, hgt, hv⟩ := hr
  have hzone : (view (L := .l1) s).zone h = some ((zones (L := .l2) t).read id) := by
    rw [hv]
    exact Zones.view_zone hx
  obtain ⟨id', hx', hread⟩ := zone_some hzone
  rw [reason_claimed hgs.allocated hz hx', reason_claimed hgt.allocated hz hx,
    checks_of_read hread (congrArg View.operators hv) hz]

end Lockstep

/-- A call by hash fails alike on both registries, with two exceptions: a hash nobody claimed, and a name somebody
did. -/
theorem body_alike {keccak256 : Bytes → Bytes32} {s₁ : DocRegistry} {s₂ : DocRegistryL2}
    (hr : SameView keccak256 (L := .l1) (M := .l2) s₁ s₂) (hroom : HasRoom (L := .l2) s₂) (sender : Address) (op : Op) :
    let r₁ := reason (DocRegistry.body keccak256 sender s₁ op)
    let r₂ := reason ((byHash keccak256 .l2).body sender op s₂)
    r₁ = r₂ ∨
    (∃ h, op.zone = some h ∧ (∀ owner, s₂.zoneOwner h ≠ .ok owner) ∧
      r₁ = some (.error "ERC721: invalid token ID") ∧ r₂ = some overflow) ∨
    ∃ zoneName owner, op = .claimZone zoneName ∧ s₂.zoneOwner (keccak256 zoneName) = .ok owner ∧
      r₁ = some (.error (if sender = .zero then "ERC721: mint to the zero address"
        else "ERC721: token already minted")) ∧
      r₂ = some (.error "no minty twice") := by
  intro r₁ r₂
  have hr₁ : reason ((byHash keccak256 .l1).body sender op s₁) = r₁ := by rw [byHash_l1]; rfl
  cases hz : op.zone with
  | some h =>
    cases hx : (zones (L := .l2) s₂).index h with
    | some id => exact .inl (hr₁.symm.trans (reason_zone hr hz hx))
    | none =>
      have hx₁ : (zones (L := .l1) s₁).index h = none := by
        rw [← zone_none, hr.2.2, zone_none]
        exact hx
      refine .inr (.inl ⟨h, rfl, fun owner howner => ?_, ?_, reason_unclaimed hr.2.1.allocated hz hx⟩)
      · obtain ⟨id, hid, -⟩ := zoneOwner_ok (L := .l2).1 howner
        rw [hx] at hid
        cases hid
      · rw [← hr₁]
        exact reason_unclaimed hr.1.allocated hz hx₁
  | none =>
    cases op with
    | claimZone zoneName =>
      by_cases hx : s₂._zoneHashToId (keccak256 zoneName) = 0
      · exact .inl (reason_claim_free hr hroom hx)
      · obtain ⟨ht₁, ht₂⟩ := reason_claim_taken sender hr hx
        have hid : (zones (L := .l2) s₂).index (keccak256 zoneName) = some _ := idOfEntry_some.2 ⟨hx, rfl⟩
        have h0 : s₂._owners _ ≠ .zero := (hr.2.1.inv.owned _).2 ⟨_, hid⟩
        have howner : s₂.zoneOwner (keccak256 zoneName) = .ok _ :=
          zoneOwner_ok (L := .l2).2 ⟨_, hid, ERC721.ownerOf_ok.2 ⟨h0, rfl⟩⟩
        exact .inr (.inr ⟨zoneName, _, rfl, howner, ht₁, ht₂⟩)
    | updateAgreement => cases hz
    | erc721 op =>
      cases op with
      | setApprovalForAll operator b =>
        have ht₁ : r₁ = first [check (sender ≠ operator) "ERC721: approve to caller"] :=
          reason_body keccak256 sender (.erc721 (.setApprovalForAll operator b)) hr.1.allocated
        have ht₂ : r₂ = first [check (sender ≠ operator) "ERC721: approve to caller"] :=
          reason_body keccak256 sender (.erc721 (.setApprovalForAll operator b)) hr.2.1.allocated
        exact .inl (ht₁.trans ht₂.symm)
      | approve | transferFrom | safeTransferFrom | safeTransferFromData => cases hz

/-- Each call, the recipient's answer included, fails with the reason of its first check that does not hold. In
lockstep, while L2 has ids left, both registries fail for the same reason, with two exceptions: a hash nobody
claimed, and a name somebody did. -/
theorem fails_alike (keccak256 : Bytes → Bytes32) :
    (∀ L steps sender op answer, let s := (reached keccak256 L steps).storage
      reason (outcome (contract keccak256 L) sender op s answer) =
        first (checks keccak256 sender s op ++ op.answerChecks answer)) ∧
    ∀ steps, IdsLeft keccak256 steps →
      let s₁ : DocRegistry := (run (DocRegistry.contract keccak256) (start .empty) steps).world.storage
      let s₂ : DocRegistryL2 := (run (byHash keccak256 .l2) (start (byHash keccak256 .l2).init) steps).world.storage
      HasRoom (L := .l2) s₂ → ∀ sender op answer,
      let r₁ := reason (outcome (DocRegistry.contract keccak256) sender op s₁ answer)
      let r₂ := reason (outcome (byHash keccak256 .l2) sender op s₂ answer)
      r₁ = r₂ ∨
      (∃ h, op.zone = some h ∧ (∀ owner, s₂.zoneOwner h ≠ .ok owner) ∧
        r₁ = some (.error "ERC721: invalid token ID") ∧ r₂ = some overflow) ∨
      ∃ zoneName owner, op = .claimZone zoneName ∧ s₂.zoneOwner (keccak256 zoneName) = .ok owner ∧
        r₁ = some (.error (if sender = .zero then "ERC721: mint to the zero address"
          else "ERC721: token already minted")) ∧
        r₂ = some (.error "no minty twice") := by
  refine ⟨fun L steps sender op answer => ?_, ?_⟩
  · intro s
    have hbody : reason ((contract keccak256 L).body sender op s) = _ :=
      reason_body keccak256 sender op (reached_allocated steps)
    rw [reason_outcome contract_hook, hbody, Checks.first_append]
  · intro steps hids s₁ s₂ hroom sender op answer r₁ r₂
    have hr : SameView keccak256 (L := .l1) (M := .l2) s₁ s₂ := by
      obtain ⟨⟨hr, -⟩, -⟩ := lockstep hids
      rw [byHash_l1] at hr
      exact hr
    have h₁ : r₁ = (reason (DocRegistry.body keccak256 sender s₁ op)).or _ := reason_outcome rfl sender op s₁ answer
    have h₂ : r₂ = (reason ((byHash keccak256 .l2).body sender op s₂)).or _ := reason_outcome rfl sender op s₂ answer
    rw [h₁, h₂]
    -- A body that fails decides for itself.
    rcases body_alike hr hroom sender op with h | ⟨h, hz, hno, ht₁, ht₂⟩ | ⟨zoneName, owner, hop, ho, ht₁, ht₂⟩
    · exact .inl (by rw [h])
    · exact .inr (.inl ⟨h, hz, hno, by rw [ht₁, Option.some_or], by rw [ht₂, Option.some_or]⟩)
    · exact .inr (.inr ⟨zoneName, owner, hop, ho, by rw [ht₁, Option.some_or], by rw [ht₂, Option.some_or]⟩)

/-- The name is taken, for another account. -/
theorem fails_alike_sample :
    let claim : List Step := [.call 1 (.claimZone zoneSample) false]
    let s₁ : DocRegistry := (run (DocRegistry.contract keccakSample) (start .empty) claim).world.storage
    let s₂ : DocRegistryL2 :=
      (run (byHash keccakSample .l2) (start (byHash keccakSample .l2).init) claim).world.storage
    reason (outcome (DocRegistry.contract keccakSample) 2 (.claimZone zoneSample) s₁ none) =
        some (.error "ERC721: token already minted") ∧
      reason (outcome (byHash keccakSample .l2) 2 (.claimZone zoneSample) s₂ none) =
        some (.error "no minty twice") := by
  intro claim s₁ s₂
  have hids : IdsLeft keccakSample claim := idsLeft_of_length (by decide)
  have hroom : HasRoom (L := .l2) s₂ := show (1 : Uint256).toNat < 2 ^ 256 - 1 by decide
  rcases (fails_alike keccakSample).2 claim hids hroom 2 (.claimZone zoneSample) none with
    h | ⟨_, hz, -⟩ | ⟨_, _, hop, -, h₁, h₂⟩
  · exact absurd h (by decide)
  · cases hz
  · exact ⟨h₁, h₂⟩

end Registry

end LawRegistry
