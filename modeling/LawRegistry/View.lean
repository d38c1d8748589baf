import LawRegistry.Zones
/-!
# A registry by zone hash

What a registry says of its zones, by the hash of their names: no id occurs. `View.step` is what
a call does in these terms, where the call names its zone by hash too, and `Effect.step` says that
a call by id does just that.
-/

namespace LawRegistry

/-- A zone somebody claimed. -/
structure Zone where
  owner : Address
  approved : Address
  name : Bytes
  agreements : Bytes32 → Bytes32 → Bytes

structure View where
  balances : Address → Uint256
  operators : Address → Address → Bool
  zone : Bytes32 → Option Zone

/-! ## The zone a call names -/

def ERC721.Op.token : ERC721.Op → Option Uint256
  | .approve _ tokenId | .transferFrom _ _ tokenId | .safeTransferFrom _ _ tokenId
  | .safeTransferFromData _ _ tokenId _ => some tokenId
  | .setApprovalForAll .. => none

def ERC721.Op.withToken (id : Uint256) : ERC721.Op → ERC721.Op
  | .approve to_ _ => .approve to_ id
  | .transferFrom from_ to_ _ => .transferFrom from_ to_ id
  | .safeTransferFrom from_ to_ _ => .safeTransferFrom from_ to_ id
  | .safeTransferFromData from_ to_ _ data => .safeTransferFromData from_ to_ id data
  | .setApprovalForAll operator approved => .setApprovalForAll operator approved

def Op.zone : Op → Option Uint256
  | .claimZone _ => none
  | .updateAgreement zone _ _ _ => some zone
  | .erc721 op => op.token

/-- The call, naming zone `id`. -/
def Op.withZone (id : Uint256) : Op → Op
  | .claimZone zoneName => .claimZone zoneName
  | .updateAgreement _ key revisionName value => .updateAgreement id key revisionName value
  | .erc721 op => .erc721 (op.withToken id)

theorem Op.withZone_self {op : Op} {id : Uint256} (h : op.zone = some id) : op.withZone id = op := by
  cases op with
  | claimZone => rfl
  | updateAgreement => cases h; rfl
  | erc721 op => cases op <;> cases h <;> rfl

theorem Op.withZone_none {op : Op} {id : Uint256} (h : op.zone = none) : op.withZone id = op := by
  cases op with
  | claimZone => rfl
  | updateAgreement => cases h
  | erc721 op =>
    cases op with
    | setApprovalForAll => rfl
    | _ => cases h

theorem Op.zone_withZone {op : Op} {h id : Uint256} (hz : op.zone = some h) : (op.withZone id).zone = some id := by
  cases op with
  | claimZone => cases hz
  | updateAgreement => rfl
  | erc721 op => cases op <;> cases hz <;> rfl

/-! ## Calls on a view -/

namespace View
section
variable (keccak256 : Bytes → Bytes32) (sender : Address) (v : View)

def put (zone : Bytes32) (z : Zone) : View := { v with zone := Function.update v.zone zone (some z) }

/-- A call on a claimed zone that meets `p`. -/
def onZone (zone : Bytes32) (p : Zone → Prop) [DecidablePred p] (f : Zone → View) : Option View :=
  match v.zone zone with
  | none => none
  | some z => if p z then some (f z) else none

def claimZone (zoneName : Bytes) : Option View :=
  if sender ≠ .zero ∧ (v.zone (keccak256 zoneName)).isNone then
    some { v.put (keccak256 zoneName) ⟨sender, .zero, zoneName, fun _ _ => []⟩ with
      balances := Function.update v.balances sender (v.balances sender + 1) }
  else none

def updateAgreement (zone key : Bytes32) (revisionName value : Bytes) : Option View :=
  let revision := keccak256 revisionName
  v.onZone zone (fun z => z.owner = sender ∧ (revision = keccak256 latest ∨ z.agreements key revision = []))
    fun z => v.put zone { z with
      agreements := Function.update z.agreements key (Function.update (z.agreements key) revision value) }

def approve (to_ : Address) (zone : Bytes32) : Option View :=
  v.onZone zone (fun z => to_ ≠ z.owner ∧ (sender = z.owner ∨ v.operators z.owner sender = true))
    fun z => v.put zone { z with approved := to_ }

def setApprovalForAll (operator : Address) (b : Bool) : Option View :=
  if sender ≠ operator then
    some { v with operators := Function.update v.operators sender (Function.update (v.operators sender) operator b) }
  else none

def transfer (from_ to_ : Address) (zone : Bytes32) : Option View :=
  v.onZone zone
    (fun z => z.owner = from_ ∧ to_ ≠ .zero ∧
      (sender = z.owner ∨ v.operators z.owner sender = true ∨ z.approved = sender))
    fun z =>
      let balances := Function.update v.balances from_ (v.balances from_ - 1)
      { v.put zone { z with owner := to_, approved := .zero } with
        balances := Function.update balances to_ (balances to_ + 1) }

/-- What a call does, up to a recipient's answer; `none` if it fails. -/
def step : Op → Option View
  | .claimZone zoneName => claimZone keccak256 sender v zoneName
  | .updateAgreement zone key revisionName value => updateAgreement keccak256 sender v zone key revisionName value
  | .erc721 (.approve to_ zone) => approve sender v to_ zone
  | .erc721 (.setApprovalForAll operator b) => setApprovalForAll sender v operator b
  | .erc721 (.transferFrom from_ to_ zone) | .erc721 (.safeTransferFrom from_ to_ zone)
  | .erc721 (.safeTransferFromData from_ to_ zone _) => transfer sender v from_ to_ zone

end

variable {keccak256 : Bytes → Bytes32} {sender : Address} {v w : View}

theorem onZone_some {zone : Bytes32} {p : Zone → Prop} [DecidablePred p] {f : Zone → View} :
    v.onZone zone p f = some w ↔ ∃ z, v.zone zone = some z ∧ p z ∧ f z = w := by
  unfold onZone
  cases v.zone zone <;> simp

theorem claimZone_some {zoneName : Bytes} : claimZone keccak256 sender v zoneName = some w ↔
    (sender ≠ .zero ∧ v.zone (keccak256 zoneName) = none) ∧
      { v.put (keccak256 zoneName) ⟨sender, .zero, zoneName, fun _ _ => []⟩ with
        balances := Function.update v.balances sender (v.balances sender + 1) } = w := by
  rw [claimZone, Option.ite_none_right_eq_some, Option.isNone_iff_eq_none, Option.some.injEq]

/-- A call on a zone nobody claimed fails. -/
theorem step_zone {op : Op} {h : Bytes32} (hs : step keccak256 sender v op = some w) (hz : op.zone = some h) :
    ∃ z, v.zone h = some z := by
  cases op with
  | claimZone => cases hz
  | updateAgreement =>
    cases hz
    obtain ⟨z, hv, -⟩ := onZone_some.1 hs
    exact ⟨z, hv⟩
  | erc721 op =>
    cases op with
    | setApprovalForAll => cases hz
    | approve | transferFrom | safeTransferFrom | safeTransferFromData =>
      cases hz
      obtain ⟨z, hv, -⟩ := onZone_some.1 hs
      exact ⟨z, hv⟩

end View

/-! ## Calls by id -/

namespace Zones

/-- What is known of token `id`. -/
def read (v : Zones) (id : Uint256) : Zone :=
  ⟨v.tokens._owners id, v.tokens._tokenApprovals id, v.names id, v.agreements id⟩

def view (v : Zones) : View :=
  ⟨v.tokens._balances, v.tokens._operatorApprovals, fun h => (v.index h).map v.read⟩

variable {keccak256 : Bytes → Bytes32} {v v' : Zones} {sender : Address} {op : Op} {events : List Event}
  {h : Bytes32} {id : Uint256}

theorem view_zone (hx : v.index h = some id) : v.view.zone h = some (v.read id) := by
  simp [view, hx]

/-- A call that only writes to one zone only changes what is seen of that zone. -/
theorem view_put (hi : v.Inv keccak256) (hx : v.index h = some id) (hindex : v'.index = v.index)
    (hread : ∀ i, i ≠ id → v'.read i = v.read i) :
    v'.view = { v.view.put h (v'.read id) with
      balances := v'.tokens._balances
      operators := v'.tokens._operatorApprovals } := by
  simp only [view, View.put, View.mk.injEq, true_and]
  funext h'
  by_cases hh : h' = h
  · subst hh
    simp [hindex, hx]
  · rw [Function.update_of_ne hh, hindex]
    cases hx' : v.index h' with
    | none => rfl
    | some i =>
      have hne : i ≠ id := by
        rintro rfl
        exact hh (hi.inj hx' hx)
      simp [hread i hne]

theorem claim_view (hi : v.Inv keccak256) {zoneName : Bytes} (hfree : v.tokens._owners id = .zero) :
    (v.claim keccak256 sender zoneName id).view =
      { v.view.put (keccak256 zoneName) ⟨sender, .zero, zoneName, fun _ _ => []⟩ with
        balances := Function.update v.view.balances sender (v.view.balances sender + 1) } := by
  simp only [view, View.put, claim, ERC721.minted, View.mk.injEq, true_and]
  funext h'
  by_cases hh : h' = keccak256 zoneName
  · subst hh
    simp only [Function.update_self, Option.map_some, read, hi.unapproved id hfree]
    congr
    funext k r
    exact hi.blank id k r hfree
  · rw [Function.update_of_ne hh, Function.update_of_ne hh]
    cases hx : v.index h' with
    | none => rfl
    | some i =>
      have hne : i ≠ id := by
        rintro rfl
        exact (hi.index_iff.1 hx).1 hfree
      simp [read, hne]

theorem Effect.zone_exists (he : Effect keccak256 sender v op v' events) (hz : op.zone = some id) :
    v.tokens._owners id ≠ .zero := by
  cases he with
  | claimZone => cases hz
  | updateAgreement h0 => cases hz; exact h0
  | @erc721 op _ _ he =>
    cases he with
    | approve h0 => cases hz; exact h0
    | setApprovalForAll => cases hz
    | @move _ from_ to_ tokenId hop ho h0 =>
      have hid : tokenId = id := by cases op <;> cases hop <;> cases hz <;> rfl
      rw [← hid, ho]
      exact h0

/-- A call that names its zone by id is the call that names it by hash. -/
theorem Effect.step (he : Effect keccak256 sender v (op.withZone id) v' events) (hi : v.Inv keccak256)
    (hz : ∀ h, op.zone = some h → v.index h = some id) : View.step keccak256 sender v.view op = some v'.view := by
  cases op with
  | claimZone zoneName =>
    cases he with
    | claimZone h0 hnew hfree =>
      refine View.claimZone_some.2 ⟨⟨h0, ?_⟩, (claim_view hi hfree).symm⟩
      simp [view, hnew]
  | updateAgreement h key revisionName value =>
    have hx := hz h rfl
    cases he with
    | updateAgreement h0 ho hw =>
      refine View.onZone_some.2 ⟨_, view_zone hx, ⟨ho, hw⟩, ?_⟩
      refine Eq.trans ?_ (view_put hi hx ?_ ?_).symm
      · simp [view, View.put, read, Agreements.set]
      · rfl
      · intro i hne
        simp [read, Agreements.set, hne]
  | erc721 op =>
    cases he with
    | @erc721 _ tokens _ he =>
      cases op with
      | setApprovalForAll operator b =>
        cases he with
        | setApprovalForAll hne =>
          rw [View.step, View.setApprovalForAll, if_pos hne]
          rfl
        | move hop => simp [ERC721.Op.withToken, ERC721.Op.moves] at hop
      | approve to_ h =>
        have hx := hz h rfl
        cases he with
        | approve h0 hto hs =>
          refine View.onZone_some.2 ⟨_, view_zone hx, ⟨hto, hs⟩, ?_⟩
          refine Eq.trans ?_ (view_put hi hx ?_ ?_).symm
          · simp [view, View.put, read]
          · rfl
          · intro i hne
            simp [read, hne]
        | move hop => simp [ERC721.Op.withToken, ERC721.Op.moves] at hop
      | transferFrom from_ to_ h | safeTransferFrom from_ to_ h | safeTransferFromData from_ to_ h =>
        have hx := hz h rfl
        cases he with
        | move hop ho h0 ht hm =>
          cases hop
          refine View.onZone_some.2 ⟨_, view_zone hx, ⟨ho, ht, hm⟩, ?_⟩
          refine Eq.trans ?_ (view_put hi hx ?_ ?_).symm
          · simp [view, View.put, read, ERC721.moved]
          · rfl
          · intro i hne
            simp [read, hne]

end Zones

end LawRegistry
