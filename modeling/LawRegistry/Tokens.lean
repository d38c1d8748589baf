import Mathlib.Tactic.Tauto
import LawRegistry.ERC721
/-!
# What a token call does

`call_iff` sums up `ERC721.lean`: a call that succeeds approves, sets an operator, or moves a
token, and it succeeds exactly under the conditions `Effect` lists. Everything later is a case
analysis over `Effect`.
-/

namespace LawRegistry.ERC721

/-! ## States after a write -/

def minted (s : ERC721) (to_ : Address) (tokenId : Uint256) : ERC721 :=
  { s with
    _balances := Function.update s._balances to_ (s._balances to_ + 1)
    _owners := Function.update s._owners tokenId to_ }

def moved (s : ERC721) (from_ to_ : Address) (tokenId : Uint256) : ERC721 :=
  let balances := Function.update s._balances from_ (s._balances from_ - 1)
  { s with
    _tokenApprovals := Function.update s._tokenApprovals tokenId .zero
    _balances := Function.update balances to_ (balances to_ + 1)
    _owners := Function.update s._owners tokenId to_ }

def approved (s : ERC721) (to_ : Address) (tokenId : Uint256) : ERC721 :=
  { s with _tokenApprovals := Function.update s._tokenApprovals tokenId to_ }

def operatorSet (s : ERC721) (owner operator : Address) (b : Bool) : ERC721 :=
  { s with
    _operatorApprovals :=
      Function.update s._operatorApprovals owner (Function.update (s._operatorApprovals owner) operator b) }

section Fields
variable (s : ERC721) (from_ to_ owner operator : Address) (tokenId i : Uint256) (b : Bool)

@[simp] theorem minted_owners :
    (s.minted to_ tokenId)._owners i = if i = tokenId then to_ else s._owners i := by
  simp [minted, Function.update_apply]
@[simp] theorem minted_approvals : (s.minted to_ tokenId)._tokenApprovals = s._tokenApprovals := rfl
@[simp] theorem minted_operators : (s.minted to_ tokenId)._operatorApprovals = s._operatorApprovals := rfl
@[simp] theorem moved_owners :
    (s.moved from_ to_ tokenId)._owners i = if i = tokenId then to_ else s._owners i := by
  simp [moved, Function.update_apply]
@[simp] theorem moved_approvals :
    (s.moved from_ to_ tokenId)._tokenApprovals i = if i = tokenId then .zero else s._tokenApprovals i := by
  simp [moved, Function.update_apply]
@[simp] theorem moved_operators : (s.moved from_ to_ tokenId)._operatorApprovals = s._operatorApprovals := rfl
@[simp] theorem approved_owners : (s.approved to_ tokenId)._owners = s._owners := rfl
@[simp] theorem approved_approvals :
    (s.approved to_ tokenId)._tokenApprovals i = if i = tokenId then to_ else s._tokenApprovals i := by
  simp [approved, Function.update_apply]
@[simp] theorem approved_operators : (s.approved to_ tokenId)._operatorApprovals = s._operatorApprovals := rfl
@[simp] theorem approved_balances : (s.approved to_ tokenId)._balances = s._balances := rfl
@[simp] theorem operatorSet_owners : (s.operatorSet owner operator b)._owners = s._owners := rfl
@[simp] theorem operatorSet_approvals : (s.operatorSet owner operator b)._tokenApprovals = s._tokenApprovals := rfl
@[simp] theorem operatorSet_balances : (s.operatorSet owner operator b)._balances = s._balances := rfl
@[simp] theorem operatorSet_operators (x y : Address) :
    (s.operatorSet owner operator b)._operatorApprovals x y =
      if x = owner ∧ y = operator then b else s._operatorApprovals x y := by
  by_cases hx : x = owner <;> by_cases hy : y = operator <;> simp [operatorSet, hx, hy]

end Fields

/-! ## Reads -/

theorem ownerOf_ok {s : ERC721} {tokenId : Uint256} {owner : Address} :
    s.ownerOf tokenId = .ok owner ↔ s._owners tokenId ≠ .zero ∧ s._owners tokenId = owner := by
  simp only [ownerOf, require_bind_ok, pure_ok, _ownerOf]

theorem exists_iff {s : ERC721} {tokenId : Uint256} : s._exists tokenId = true ↔ s._owners tokenId ≠ .zero := by
  simp [_exists, _ownerOf]

theorem not_exists_iff {s : ERC721} {tokenId : Uint256} : s._exists tokenId = false ↔ s._owners tokenId = .zero := by
  simp [_exists, _ownerOf]

theorem getApproved_ok {s : ERC721} {tokenId : Uint256} {a : Address} :
    s.getApproved tokenId = .ok a ↔ s._owners tokenId ≠ .zero ∧ s._tokenApprovals tokenId = a := by
  simp [getApproved, _requireMinted, exists_iff]

theorem balanceOf_ok {s : ERC721} {owner : Address} {b : Uint256} :
    s.balanceOf owner = .ok b ↔ owner ≠ .zero ∧ s._balances owner = b := by
  simp only [balanceOf, require_bind_ok, pure_ok]

section Congr
variable {s t : ERC721} {id id' : Uint256}

theorem balanceOf_congr (hb : s._balances = t._balances) {owner : Address} :
    s.balanceOf owner = t.balanceOf owner := by
  unfold balanceOf
  rw [hb]

theorem ownerOf_congr (ho : s._owners id = t._owners id') : s.ownerOf id = t.ownerOf id' := by
  unfold ownerOf _ownerOf
  rw [ho]

theorem getApproved_congr (ho : s._owners id = t._owners id') (ha : s._tokenApprovals id = t._tokenApprovals id') :
    s.getApproved id = t.getApproved id' := by
  unfold getApproved _requireMinted _exists _ownerOf
  rw [ho, ha]

end Congr

/-- `spender` may move the token. -/
def Manages (s : ERC721) (spender : Address) (tokenId : Uint256) : Prop :=
  spender = s._owners tokenId ∨ s._operatorApprovals (s._owners tokenId) spender = true ∨
    s._tokenApprovals tokenId = spender

theorem isApprovedOrOwner_ok {s : ERC721} {spender : Address} {tokenId : Uint256} :
    s._isApprovedOrOwner spender tokenId = .ok true ↔ s._owners tokenId ≠ .zero ∧ s.Manages spender tokenId := by
  simp only [_isApprovedOrOwner, isApprovedForAll, bind_ok (x := s.ownerOf tokenId), ownerOf_ok, Manages]
  constructor
  · rintro ⟨owner, ⟨h0, rfl⟩, h⟩
    refine ⟨h0, ?_⟩
    by_cases hc : spender = s._owners tokenId ∨ s._operatorApprovals (s._owners tokenId) spender = true
    · tauto
    · rw [if_neg (by simpa using hc)] at h
      obtain ⟨a, ha, hr⟩ := bind_ok.1 h
      rw [getApproved_ok] at ha
      simp only [pure_ok, beq_iff_eq] at hr
      exact .inr (.inr (ha.2.trans hr))
  · rintro ⟨h0, h⟩
    refine ⟨_, ⟨h0, rfl⟩, ?_⟩
    by_cases hc : spender = s._owners tokenId ∨ s._operatorApprovals (s._owners tokenId) spender = true
    · rw [if_pos (by simpa using hc)]; rfl
    · rw [if_neg (by simpa using hc)]
      refine bind_ok.2 ⟨_, getApproved_ok.2 ⟨h0, rfl⟩, ?_⟩
      simp only [pure_ok, beq_iff_eq]
      tauto

/-! ## Writes -/

theorem mint_ok {s : ERC721} {to_ : Address} {tokenId : Uint256} {r} :
    s._mint to_ tokenId = .ok r ↔
      to_ ≠ .zero ∧ s._owners tokenId = .zero ∧ (s.minted to_ tokenId, [Event.Transfer .zero to_ tokenId]) = r := by
  simp [_mint, not_exists_iff, minted]

theorem transfer_ok {s : ERC721} {from_ to_ : Address} {tokenId : Uint256} {r} :
    s._transfer from_ to_ tokenId = .ok r ↔
      s._owners tokenId = from_ ∧ from_ ≠ .zero ∧ to_ ≠ .zero ∧
        (s.moved from_ to_ tokenId, [Event.Transfer from_ to_ tokenId]) = r := by
  simp only [_transfer, bind_ok (x := s.ownerOf tokenId), ownerOf_ok, require_bind_ok, pure_ok]
  constructor
  · rintro ⟨_, ⟨h0, rfl⟩, rfl, ht, _, _, _, rfl⟩
    exact ⟨rfl, h0, ht, rfl⟩
  · rintro ⟨rfl, h0, ht, rfl⟩
    exact ⟨_, ⟨h0, rfl⟩, rfl, ht, _, ⟨h0, rfl⟩, rfl, rfl⟩

/-- The transfer a call asks for. -/
def Op.moves : Op → Option (Address × Address × Uint256)
  | .transferFrom from_ to_ tokenId | .safeTransferFrom from_ to_ tokenId
  | .safeTransferFromData from_ to_ tokenId _ => some (from_, to_, tokenId)
  | _ => none

/-- What a successful call by `sender` does to `s`. -/
inductive Effect (sender : Address) (s : ERC721) : Op → ERC721 → List Event → Prop where
  | approve {to_ tokenId} : s._owners tokenId ≠ .zero → to_ ≠ s._owners tokenId →
      (sender = s._owners tokenId ∨ s._operatorApprovals (s._owners tokenId) sender = true) →
      Effect sender s (.approve to_ tokenId) (s.approved to_ tokenId) [.Approval (s._owners tokenId) to_ tokenId]
  | setApprovalForAll {operator b} : sender ≠ operator →
      Effect sender s (.setApprovalForAll operator b) (s.operatorSet sender operator b)
        [.ApprovalForAll sender operator b]
  | move {op from_ to_ tokenId} : op.moves = some (from_, to_, tokenId) → s._owners tokenId = from_ →
      from_ ≠ .zero → to_ ≠ .zero → s.Manages sender tokenId →
      Effect sender s op (s.moved from_ to_ tokenId) [.Transfer from_ to_ tokenId]

theorem approve_ok {sender : Address} {s : ERC721} {to_ : Address} {tokenId : Uint256} {r} :
    approve sender s to_ tokenId = .ok r ↔ s._owners tokenId ≠ .zero ∧ to_ ≠ s._owners tokenId ∧
      (sender = s._owners tokenId ∨ s._operatorApprovals (s._owners tokenId) sender = true) ∧
      (s.approved to_ tokenId, [Event.Approval (s._owners tokenId) to_ tokenId]) = r := by
  have happrove {owner} (ho : (s.approved to_ tokenId).ownerOf tokenId = .ok owner) :
      s._approve to_ tokenId = .ok (s.approved to_ tokenId, [Event.Approval owner to_ tokenId]) :=
    bind_ok.2 ⟨_, ho, rfl⟩
  simp only [approve, isApprovedForAll, bind_ok (x := s.ownerOf tokenId), require_bind_ok, Bool.or_eq_true,
    decide_eq_true_eq]
  constructor
  · rintro ⟨_, ho, hto, hs, h⟩
    rw [happrove ho] at h
    obtain ⟨h0, rfl⟩ := ownerOf_ok.1 ho
    cases h
    exact ⟨h0, hto, hs, rfl⟩
  · rintro ⟨h0, hto, hs, rfl⟩
    have ho : s.ownerOf tokenId = .ok _ := ownerOf_ok.2 ⟨h0, rfl⟩
    exact ⟨_, ho, hto, hs, happrove ho⟩

theorem transferFrom_ok {sender : Address} {s : ERC721} {from_ to_ : Address} {tokenId : Uint256} {r} :
    transferFrom sender s from_ to_ tokenId = .ok r ↔ s.Manages sender tokenId ∧ s._owners tokenId = from_ ∧
      from_ ≠ .zero ∧ to_ ≠ .zero ∧ (s.moved from_ to_ tokenId, [Event.Transfer from_ to_ tokenId]) = r := by
  simp only [transferFrom, bind_ok (x := s._isApprovedOrOwner sender tokenId), require_bind_ok, transfer_ok]
  constructor
  · rintro ⟨_, hm, rfl, h⟩
    exact ⟨(isApprovedOrOwner_ok.1 hm).2, h⟩
  · rintro ⟨hm, ho, h0, h⟩
    exact ⟨_, isApprovedOrOwner_ok.2 ⟨by rw [ho]; exact h0, hm⟩, rfl, ho, h0, h⟩

theorem move_iff {sender : Address} {s : ERC721} {op : Op} {from_ to_ : Address} {tokenId : Uint256} {s' evs}
    (hop : op.moves = some (from_, to_, tokenId)) :
    transferFrom sender s from_ to_ tokenId = .ok (s', evs) ↔ Effect sender s op s' evs := by
  rw [transferFrom_ok]
  constructor
  · rintro ⟨hm, ho, h0, ht, he⟩
    cases he
    exact .move hop ho h0 ht hm
  · intro h
    cases h with
    | approve | setApprovalForAll => simp [Op.moves] at hop
    | move hop' ho h0 ht hm =>
      rw [hop'] at hop; cases hop
      exact ⟨hm, ho, h0, ht, rfl⟩

/-- A call succeeds exactly with an `Effect`. -/
theorem call_iff {sender : Address} {s : ERC721} {op : Op} {s' evs} :
    call sender s op = .ok (s', evs) ↔ Effect sender s op s' evs := by
  cases op with
  | approve to_ tokenId =>
    simp only [call, approve_ok]
    constructor
    · rintro ⟨h0, hto, hs, he⟩; cases he; exact .approve h0 hto hs
    · intro h
      cases h with
      | approve h0 hto hs => exact ⟨h0, hto, hs, rfl⟩
      | move hop => simp [Op.moves] at hop
  | setApprovalForAll operator b =>
    simp only [call, setApprovalForAll, _setApprovalForAll, require_bind_ok, pure_ok]
    constructor
    · rintro ⟨hne, he⟩; cases he; exact .setApprovalForAll hne
    · intro h
      cases h with
      | setApprovalForAll hne => exact ⟨hne, rfl⟩
      | move hop => simp [Op.moves] at hop
  | transferFrom | safeTransferFrom | safeTransferFromData => exact move_iff rfl

/-! ## The recipient's answer -/

/-- The recipient has no code, or answers with the selector. -/
def acknowledged : Option Reply → Bool
  | none => true
  | some (.returned retval) => retval == onERC721Received
  | some .malformed | some (.reverted _) => false

theorem acknowledged_some {answer : Reply} :
    acknowledged (some answer) = true ↔ answer = .returned onERC721Received := by
  cases answer <;> simp [acknowledged]

theorem afterReceived_ok {answer : Option Reply} {u : Unit} :
    _afterReceived answer = .ok u ↔ acknowledged answer = true := by
  unfold _afterReceived
  rw [bind_ok]
  cases answer with
  | none => simp [_checkOnERC721Received, acknowledged, require]
  | some a =>
    cases a with
    | returned retval => simp [_checkOnERC721Received, acknowledged, require_ok]
    | malformed => simp [_checkOnERC721Received, acknowledged]
    | reverted reason =>
      simp only [_checkOnERC721Received, acknowledged]
      split <;> simp

/-! ## What every call keeps -/

/-- A token that exists stays, and none appears. -/
theorem Effect.exists_iff {sender : Address} {s s' : ERC721} {op : Op} {evs} (h : Effect sender s op s' evs)
    (i : Uint256) : s'._owners i = .zero ↔ s._owners i = .zero := by
  cases h with
  | approve | setApprovalForAll => rfl
  | @move _ from_ to_ tokenId _ ho h0 ht _ =>
    by_cases hi : i = tokenId
    · subst hi; simp [ht, ho, h0, -BitVec.ofNat_eq_ofNat]
    · simp [hi]

/-- A token that does not exist has no approved account. -/
theorem Effect.unapproved {sender : Address} {s s' : ERC721} {op : Op} {evs} (h : Effect sender s op s' evs)
    (hs : ∀ i, s._owners i = .zero → s._tokenApprovals i = .zero) (i : Uint256) (hi : s'._owners i = .zero) :
    s'._tokenApprovals i = .zero := by
  rw [h.exists_iff] at hi
  cases h with
  | @approve to_ tokenId h0 =>
    have hne : i ≠ tokenId := by rintro rfl; exact h0 hi
    simpa [hne] using hs i hi
  | setApprovalForAll => exact hs i hi
  | move =>
    rw [moved_approvals]
    split
    · rfl
    · exact hs i hi

end LawRegistry.ERC721
