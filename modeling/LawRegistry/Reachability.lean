import LawRegistry.Lib.Peeling
import LawRegistry.AccountingL1
/-!
# Exactly the storages that are reached

`Coherent` lists what holds of every storage a registry reaches. It leaves nothing out: every storage
of which it holds is reached, by as many calls as there are zones, approved accounts, operators and
agreements in it, and by no fewer.
-/

namespace LawRegistry

open Calls (OneCall)

/-! ## Tokens -/

namespace ERC721

structure Proper (s : ERC721) : Prop where
  /-- No account is approved for a token of its own. -/
  approved : ∀ id, s._owners id ≠ .zero → s._tokenApprovals id ≠ s._owners id
  /-- No account is an operator for itself. -/
  operator : ∀ a, s._operatorApprovals a a = false
  counted : s.Counted

/-- As if token `tokenId` had not been minted. -/
def unminted (s : ERC721) (tokenId : Uint256) : ERC721 :=
  let owner := s._owners tokenId
  { s with
    _balances := Function.update s._balances owner (s._balances owner - 1)
    _owners := Function.update s._owners tokenId .zero }

variable {s s' : ERC721} {sender to_ : Address} {tokenId : Uint256} {op : Op} {events : List Event}

theorem minted_unminted (s : ERC721) (tokenId : Uint256) :
    (s.unminted tokenId).minted (s._owners tokenId) tokenId = s := by
  simp only [unminted, minted, Function.update_self, Function.update_idem, BitVec.sub_add_cancel,
    Function.update_eq_self]

theorem unminted_owners (id : Uint256) :
    (s.unminted tokenId)._owners id = if id = tokenId then .zero else s._owners id := by
  simp only [unminted, Function.update_apply]

theorem empty_proper : empty.Proper where
  approved _ h := absurd rfl h
  operator _ := rfl
  counted := empty_counted

theorem Proper.minted (hs : s.Proper) (h0 : to_ ≠ .zero) (hf : s._owners tokenId = .zero)
    (ha : s._tokenApprovals tokenId = .zero) : (s.minted to_ tokenId).Proper where
  approved id hid := by
    rw [minted_owners] at hid ⊢
    rw [minted_approvals]
    split
    next he =>
      rw [he, ha]
      exact h0.symm
    next he =>
      rw [if_neg he] at hid
      exact hs.approved id hid
  operator := hs.operator
  counted := minted_counted hs.counted h0 hf

theorem Proper.unminted (hs : s.Proper) (h0 : s._owners tokenId ≠ .zero) : (s.unminted tokenId).Proper where
  approved id hid := by
    rw [unminted_owners] at hid ⊢
    split at hid
    next => exact absurd rfl hid
    next he =>
      rw [if_neg he]
      exact hs.approved id hid
  operator := hs.operator
  counted := by
    have herase : (s.unminted tokenId).claimedTokens = s.claimedTokens.erase tokenId := by
      ext id
      rw [Finset.mem_erase, mem_claimedTokens, mem_claimedTokens, unminted_owners]
      split
      next he => exact iff_of_false (fun h => h rfl) fun h => h.1 he
      next he => exact (and_iff_right he).symm
    unfold Counted
    rw [herase]
    exact Holdings.Congruent.burn hs.counted (mem_claimedTokens.2 h0)

theorem Proper.approved_to (hs : s.Proper) (hto : to_ ≠ s._owners tokenId) : (s.approved to_ tokenId).Proper where
  approved id hid := by
    rw [approved_approvals]
    split
    next he =>
      rw [he]
      exact hto
    next => exact hs.approved id hid
  operator := hs.operator
  counted := hs.counted

theorem Proper.operatorSet (hs : s.Proper) {owner operator : Address} {b : Bool} (hne : owner = operator → b = false) :
    (s.operatorSet owner operator b).Proper where
  approved := hs.approved
  operator a := by
    rw [operatorSet_operators]
    split
    next he => exact hne (he.1.symm.trans he.2)
    next => exact hs.operator a
  counted := hs.counted

theorem Effect.proper (h : Effect sender s op s' events) (hs : s.Proper) : s'.Proper := by
  have hcounted := h.counted hs.counted
  cases h with
  | approve _ hto _ => exact hs.approved_to hto
  | setApprovalForAll hne => exact hs.operatorSet fun he => absurd he hne
  | @move _ from_ to_ tokenId _ _ _ hto =>
    refine ⟨fun id hid => ?_, hs.operator, hcounted⟩
    rw [moved_owners] at hid ⊢
    rw [moved_approvals]
    split
    next => exact hto.symm
    next he =>
      rw [if_neg he] at hid
      exact hs.approved id hid

end ERC721

/-! ## Zones -/

namespace Zones

structure Coherent (keccak256 : Bytes → Bytes32) (v : Zones) : Prop where
  inv : v.Inv keccak256
  proper : v.tokens.Proper
  /-- A revision is the hash of a name. -/
  revision : ∀ id key revision, v.agreements id key revision ≠ [] → ∃ revisionName, keccak256 revisionName = revision

/-- What a registry has entries for. -/
inductive Slot where
  | owner (id : Uint256)
  | approved (id : Uint256)
  | operator (owner operator : Address)
  | agreement (id : Uint256) (key revision : Bytes32)

instance : Finite Slot :=
  Finite.of_injective
    (fun
      | .owner id => Sum.inl id
      | .approved id => .inr (.inl id)
      | .operator a b => .inr (.inr (.inl (a, b)))
      | .agreement id key revision => .inr (.inr (.inr (id, key, revision))) :
      Slot → Uint256 ⊕ Uint256 ⊕ (Address × Address) ⊕ Uint256 × Bytes32 × Bytes32)
    fun x y h => by cases x <;> cases y <;> cases h <;> rfl

def Written (v : Zones) : Slot → Prop
  | .owner id => v.tokens._owners id ≠ .zero
  | .approved id => v.tokens._tokenApprovals id ≠ .zero
  | .operator a b => v.tokens._operatorApprovals a b = true
  | .agreement id key revision => v.agreements id key revision ≠ []

/-- How much is written in the registry. -/
noncomputable def size (v : Zones) : Nat := {x | v.Written x}.ncard

variable {keccak256 : Bytes → Bytes32} {v v' : Zones} {sender : Address} {op : Op} {events : List Event}
  {id : Uint256} {t : ERC721}

theorem empty_coherent : empty.Coherent keccak256 where
  inv := empty_inv
  proper := ERC721.empty_proper
  revision _ _ _ h := absurd rfl h

theorem Effect.coherent (h : Effect keccak256 sender v op v' events) (hv : v.Coherent keccak256) :
    v'.Coherent keccak256 := by
  have hinv := h.inv hv.inv
  cases h with
  | @claimZone zoneName id h0 hnew hfree =>
    exact ⟨hinv, hv.proper.minted h0 hfree (hv.inv.unapproved id hfree), hv.revision⟩
  | @updateAgreement zone key revisionName value h0 ho hw =>
    refine ⟨hinv, hv.proper, fun i k r hne => ?_⟩
    simp only [Agreements.set_apply] at hne
    split at hne
    next he => exact ⟨revisionName, he.2.2.symm⟩
    next => exact hv.revision i k r hne
  | erc721 he => exact ⟨hinv, he.proper hv.proper, hv.revision⟩

/-! ## What a call writes -/

theorem erc721_written {call : ERC721.Op} {evs : List ERC721.Event} (he : ERC721.Effect sender v.tokens call t evs) :
    ∃ x, ∀ y, ({ v with tokens := t } : Zones).Written y → y = x ∨ v.Written y := by
  have hexists := he.exists_iff
  cases he with
  | @approve to_ tokenId h0 hto hs =>
    refine ⟨.approved tokenId, fun y hy => ?_⟩
    cases y with
    | approved i =>
      by_cases hi : i = tokenId
      · exact .inl (by rw [hi])
      · simp only [Written, ERC721.approved_approvals, if_neg hi] at hy
        exact .inr hy
    | owner | operator | agreement => exact .inr hy
  | @setApprovalForAll operator b hne =>
    refine ⟨.operator sender operator, fun y hy => ?_⟩
    cases y with
    | operator a c =>
      simp only [Written, ERC721.operatorSet_operators] at hy
      split at hy
      next he =>
        obtain ⟨rfl, rfl⟩ := he
        exact .inl rfl
      next => exact .inr hy
    | owner | approved | agreement => exact .inr hy
  | @move _ from_ to_ tokenId =>
    -- A transfer only takes an approval away.
    refine ⟨.approved tokenId, fun y hy => ?_⟩
    cases y with
    | owner i => exact .inr (mt (hexists i).2 hy)
    | approved i =>
      by_cases hi : i = tokenId
      · exact .inl (by rw [hi])
      · simp only [Written, ERC721.moved_approvals, if_neg hi] at hy
        exact .inr hy
    | operator | agreement => exact .inr hy

/-- A call writes one entry at most. -/
theorem Effect.written (h : Effect keccak256 sender v op v' events) :
    ∃ x, ∀ y, v'.Written y → y = x ∨ v.Written y := by
  cases h with
  | @claimZone zoneName id h0 hnew hfree =>
    refine ⟨.owner id, fun y hy => ?_⟩
    cases y with
    | owner i =>
      by_cases hi : i = id
      · exact .inl (by rw [hi])
      · simp only [Written, claim, ERC721.minted_owners, if_neg hi] at hy
        exact .inr hy
    | approved | operator | agreement => exact .inr hy
  | @updateAgreement zone key revisionName value h0 ho hw =>
    refine ⟨.agreement zone key (keccak256 revisionName), fun y hy => ?_⟩
    cases y with
    | agreement i k r =>
      simp only [Written, Agreements.set_apply] at hy
      split at hy
      next he =>
        obtain ⟨rfl, rfl, rfl⟩ := he
        exact .inl rfl
      next => exact .inr hy
    | owner | approved | operator => exact .inr hy
  | erc721 he => exact erc721_written he

theorem Effect.size_le (h : Effect keccak256 sender v op v' events) : v'.size ≤ v.size + 1 := by
  obtain ⟨x, hx⟩ := h.written
  exact Entries.ncard_written hx

/-! ## Blanking one entry -/

/-- The size goes down with an entry. -/
theorem size_blanked {x : Slot} (hx : v.Written x) (h : ∀ y, v'.Written y ↔ v.Written y ∧ y ≠ x) :
    v.size = v'.size + 1 := Entries.ncard_blanked hx h

/-- Tokens with other approvals and operators. -/
theorem Coherent.with_tokens (hv : v.Coherent keccak256) (ho : t._owners = v.tokens._owners)
    (ha : ∀ id, v.tokens._tokenApprovals id = .zero → t._tokenApprovals id = .zero) (ht : t.Proper) :
    ({ v with tokens := t } : Zones).Coherent keccak256 where
  inv := by
    refine ⟨fun id => ?_, hv.inv.hashed, fun id hid => ?_, fun id => ?_, fun id => ?_⟩
    · rw [ho]
      exact hv.inv.owned id
    · rw [ho] at hid
      exact ha id (hv.inv.unapproved id hid)
    · rw [ho]
      exact hv.inv.blank id
    · rw [ho]
      exact hv.inv.unnamed id
  proper := ht
  revision := hv.revision

theorem Coherent.blank_operator (hv : v.Coherent keccak256) (a b : Address) :
    ({ v with tokens := v.tokens.operatorSet a b false } : Zones).Coherent keccak256 :=
  hv.with_tokens rfl (fun _ => id) (hv.proper.operatorSet fun _ => rfl)

theorem Coherent.blank_approved (hv : v.Coherent keccak256) (h0 : v.tokens._owners id ≠ .zero) :
    ({ v with tokens := v.tokens.approved .zero id } : Zones).Coherent keccak256 := by
  refine hv.with_tokens rfl (fun i hi => ?_) (hv.proper.approved_to h0.symm)
  rw [ERC721.approved_approvals, hi, ite_self]

theorem Coherent.blank_agreement (hv : v.Coherent keccak256) (id : Uint256) (key revision : Bytes32) :
    ({ v with agreements := v.agreements.set id key revision [] } : Zones).Coherent keccak256 := by
  refine ⟨⟨hv.inv.owned, hv.inv.hashed, hv.inv.unapproved, fun i k r hi => ?_, hv.inv.unnamed⟩, hv.proper,
    fun i k r hne => ?_⟩
  · simp only [Agreements.set_apply]
    split
    · rfl
    · exact hv.inv.blank i k r hi
  · simp only [Agreements.set_apply] at hne
    split at hne
    · exact absurd rfl hne
    · exact hv.revision i k r hne

theorem size_operator {a b : Address} (h : v.tokens._operatorApprovals a b = true) :
    v.size = ({ v with tokens := v.tokens.operatorSet a b false } : Zones).size + 1 := by
  refine size_blanked (x := .operator a b) h fun y => ?_
  cases y with
  | operator c d =>
    simp only [Written, ERC721.operatorSet_operators, ne_eq, Slot.operator.injEq]
    split <;> simp_all
  | owner | approved | agreement => simp [Written]

theorem size_approved (h : v.tokens._tokenApprovals id ≠ .zero) :
    v.size = ({ v with tokens := v.tokens.approved .zero id } : Zones).size + 1 := by
  refine size_blanked (x := .approved id) h fun y => ?_
  cases y with
  | approved i =>
    simp only [Written, ERC721.approved_approvals, ne_eq, Slot.approved.injEq]
    split <;> simp_all
  | owner | operator | agreement => simp [Written]

theorem size_agreement {key revision : Bytes32} (h : v.agreements id key revision ≠ []) :
    v.size = ({ v with agreements := v.agreements.set id key revision [] } : Zones).size + 1 := by
  refine size_blanked (x := .agreement id key revision) h fun y => ?_
  cases y with
  | agreement i k r =>
    simp only [Written, Agreements.set_apply, ne_eq, Slot.agreement.injEq]
    split <;> simp_all
  | owner | approved | operator => simp [Written]

/-- As if nobody had claimed zone `id`. -/
def unclaim (keccak256 : Bytes → Bytes32) (v : Zones) (id : Uint256) : Zones where
  tokens := v.tokens.unminted id
  agreements := v.agreements
  names := Function.update v.names id []
  index := Function.update v.index (keccak256 (v.names id)) none

theorem unclaim_index (hi : v.Inv keccak256) (h0 : v.tokens._owners id ≠ .zero) {h : Bytes32} {i : Uint256} :
    (v.unclaim keccak256 id).index h = some i ↔ v.index h = some i ∧ i ≠ id := by
  have hid : v.index (keccak256 (v.names id)) = some id := hi.index_iff.2 ⟨h0, rfl⟩
  simp only [unclaim, Function.update_apply]
  split
  next he =>
    subst he
    rw [hid]
    simp only [reduceCtorEq, Option.some.injEq, ne_eq, false_iff, not_and, not_not]
    exact Eq.symm
  next he =>
    refine (and_iff_left_of_imp ?_).symm
    rintro hx rfl
    exact he (hi.inj hx hid)

theorem unclaim_owners (i : Uint256) :
    (v.unclaim keccak256 id).tokens._owners i = if i = id then .zero else v.tokens._owners i := by
  exact ERC721.unminted_owners i

theorem Inv.unclaim (hi : v.Inv keccak256) (h0 : v.tokens._owners id ≠ .zero)
    (ha : v.tokens._tokenApprovals id = .zero) (hb : ∀ key revision, v.agreements id key revision = []) :
    (v.unclaim keccak256 id).Inv keccak256 := by
  have howner {i : Uint256} (hid : (v.unclaim keccak256 id).tokens._owners i = .zero) :
      i = id ∨ i ≠ id ∧ v.tokens._owners i = .zero := by
    rw [unclaim_owners] at hid
    split at hid
    next he => exact .inl he
    next he => exact .inr ⟨he, hid⟩
  constructor
  · intro i
    simp only [unclaim_index hi h0, unclaim_owners, exists_and_right]
    by_cases he : i = id
    · rw [if_pos he]
      exact iff_of_false (fun h => h rfl) fun h => h.2 he
    · rw [if_neg he, hi.owned i]
      exact (and_iff_left he).symm
  · intro h i hx
    obtain ⟨hx, hne⟩ := (unclaim_index hi h0).1 hx
    rw [← hi.hashed h i hx]
    simp only [Zones.unclaim, Function.update_of_ne hne]
  · intro i hid
    rcases howner hid with rfl | ⟨-, hid⟩
    · exact ha
    · exact hi.unapproved i hid
  · intro i key revision hid
    rcases howner hid with rfl | ⟨-, hid⟩
    · exact hb key revision
    · exact hi.blank i key revision hid
  · intro i hid
    rcases howner hid with rfl | ⟨hne, hid⟩
    · exact Function.update_self ..
    · simp only [Zones.unclaim, Function.update_of_ne hne]
      exact hi.unnamed i hid

theorem Coherent.unclaim (hv : v.Coherent keccak256) (h0 : v.tokens._owners id ≠ .zero)
    (ha : v.tokens._tokenApprovals id = .zero) (hb : ∀ key revision, v.agreements id key revision = []) :
    (v.unclaim keccak256 id).Coherent keccak256 :=
  ⟨hv.inv.unclaim h0 ha hb, hv.proper.unminted h0, hv.revision⟩

theorem size_unclaim (h0 : v.tokens._owners id ≠ .zero) : v.size = (v.unclaim keccak256 id).size + 1 := by
  refine size_blanked (x := .owner id) h0 fun y => ?_
  cases y with
  | owner i =>
    simp only [Written, unclaim_owners, ne_eq, Slot.owner.injEq]
    split <;> simp_all
  | approved | operator | agreement => simp [Written, unclaim, ERC721.unminted]

/-- What is left with nothing written. -/
theorem Coherent.eq_empty (hv : v.Coherent keccak256) (h : ∀ x, ¬v.Written x) :
    v.tokens = .empty ∧ v.agreements = (fun _ _ _ => []) ∧ v.names = (fun _ => []) ∧ ∀ hash, v.index hash = none := by
  have howners (id : Uint256) : v.tokens._owners id = .zero := not_not.1 (h (.owner id))
  have happrovals (id : Uint256) : v.tokens._tokenApprovals id = .zero := not_not.1 (h (.approved id))
  have hoperators (a b : Address) : v.tokens._operatorApprovals a b = false :=
    Bool.eq_false_of_not_eq_true (h (.operator a b))
  have hbalances (a : Address) : v.tokens._balances a = 0 := by
    rw [hv.proper.counted a, Holdings.held_eq_zero]
    · rfl
    · intro id hid
      exact absurd (ERC721.mem_claimedTokens.1 hid) (h (.owner id))
  refine ⟨?_, ?_, ?_, fun hash => ?_⟩
  · calc v.tokens = ⟨v.tokens._owners, v.tokens._balances, v.tokens._tokenApprovals,
        v.tokens._operatorApprovals⟩ := rfl
      _ = ERC721.empty := by
        rw [funext howners, funext hbalances, funext happrovals, funext fun a => funext (hoperators a)]
        rfl
  · funext id key revision
    exact not_not.1 (h (.agreement id key revision))
  · funext id
    exact hv.inv.unnamed id (howners id)
  · rw [Option.eq_none_iff_forall_ne_some]
    intro id hx
    exact (hv.inv.index_iff.1 hx).1 (howners id)

end Zones

namespace Registry
variable {keccak256 : Bytes → Bytes32} {L : Layer} {s s' : Storage L}

structure Coherent (keccak256 : Bytes → Bytes32) (s : Storage L) : Prop where
  zones : (zones s).Coherent keccak256
  /-- On L2 the tokens are the numbers below the counter. -/
  allocated : Allocated s

noncomputable def size (s : Storage L) : Nat := (zones s).size

theorem zones_withTokens {t : ERC721} (h : t._owners = (tokens s)._owners) :
    Registry.zones (withTokens s t) = { Registry.zones s with tokens := t } := by
  cases L with
  | l1 =>
    simp only [Registry.zones, withTokens, h]
    rfl
  | l2 => rfl

theorem zones_withAgreements (a : Agreements) :
    Registry.zones (withAgreements s a) = { Registry.zones s with agreements := a } := by
  cases L <;> rfl

theorem allocated_withTokens {t : ERC721} (h : t._owners = (tokens s)._owners) (ha : Allocated s) :
    Allocated (withTokens s t) := by
  cases L with
  | l1 => trivial
  | l2 =>
    intro n
    simp only [withTokens, h]
    exact ha n

theorem allocated_withAgreements {a : Agreements} (ha : Allocated s) : Allocated (withAgreements s a) := by
  cases L with
  | l1 => trivial
  | l2 => exact ha

theorem coherent_step {sender : Address} {op : Op} {events : List Event} (hs : Coherent keccak256 s)
    (h : (contract keccak256 L).body sender op s = .ok (s', events)) : Coherent keccak256 s' :=
  ⟨(body_effect h).coherent hs.zones, body_allocated h hs.allocated⟩

/-! ## One call back -/

theorem withTokens_self {t : ERC721} : withTokens (withTokens s t) (tokens s) = s := by
  cases L <;> rfl

theorem tokens_withTokens {t : ERC721} : tokens (withTokens s t) = t := by
  cases L <;> rfl

theorem withAgreements_self {a : Agreements} : withAgreements (withAgreements s a) (agreementOf s) = s := by
  cases L <;> rfl

theorem agreementOf_withAgreements {a : Agreements} : agreementOf (withAgreements s a) = a := by
  cases L <;> rfl

theorem tokens_withAgreements {a : Agreements} : tokens (withAgreements s a) = tokens s := by
  cases L <;> rfl

/-- `s` is one call from a storage with one entry less. -/
def Peels (keccak256 : Bytes → Bytes32) (s : Storage L) : Prop :=
  ∃ s' : Storage L, Coherent keccak256 s' ∧ size s = size s' + 1 ∧ OneCall (contract keccak256 L) s' s

/-- The last call was one of the token code, which neither claims nor transfers. -/
theorem peel_tokens {t : ERC721} {sender : Address} {op : ERC721.Op} {evs : List ERC721.Event} (ha : Allocated s)
    (ho : t._owners = (tokens s)._owners) (hz : ({ Registry.zones s with tokens := t } : Zones).Coherent keccak256)
    (hsize : size s = ({ Registry.zones s with tokens := t } : Zones).size + 1) (hh : ERC721.hook op = none)
    (he : ERC721.Effect sender t op (tokens s) evs) : Peels keccak256 s := by
  have hback : ERC721.Effect sender (tokens (withTokens s t)) op (tokens s) evs := by
    rw [tokens_withTokens]
    exact he
  have hbody := body_erc721 keccak256 hback
  rw [withTokens_self] at hbody
  refine ⟨withTokens s t, ⟨?_, allocated_withTokens ho ha⟩, ?_, sender, .erc721 op, _, ?_, hbody⟩
  · rw [zones_withTokens ho]
    exact hz
  · rw [hsize, size, zones_withTokens ho]
  · cases L <;> exact hh

theorem peel_operator (hs : Coherent keccak256 s) {a b : Address} (h : (tokens s)._operatorApprovals a b = true) :
    Peels keccak256 s := by
  have hne : a ≠ b := by
    rintro rfl
    have hself := hs.zones.proper.operator a
    rw [zones_tokens, h] at hself
    cases hself
  have hback : ((tokens s).operatorSet a b false).operatorSet a b true = tokens s := by
    simp only [ERC721.operatorSet, Function.update_self, Function.update_idem, ← h, Function.update_eq_self]
  have he := ERC721.Effect.setApprovalForAll (s := (tokens s).operatorSet a b false) (b := true) hne
  rw [hback] at he
  refine peel_tokens (t := (tokens s).operatorSet a b false) hs.allocated rfl ?_ ?_ rfl he
  · rw [← zones_tokens]
    exact hs.zones.blank_operator a b
  · rw [← zones_tokens]
    exact Zones.size_operator (by rw [zones_tokens]; exact h)

theorem peel_approved (hs : Coherent keccak256 s) {id : Uint256} (h : (tokens s)._tokenApprovals id ≠ .zero) :
    Peels keccak256 s := by
  have h0 : (tokens s)._owners id ≠ .zero := by
    intro h0
    have hblank := hs.zones.inv.unapproved id
    rw [zones_tokens] at hblank
    exact h (hblank h0)
  have hne : (tokens s)._tokenApprovals id ≠ (tokens s)._owners id := by
    have happroved := hs.zones.proper.approved id
    rw [zones_tokens] at happroved
    exact happroved h0
  have hback : ((tokens s).approved .zero id).approved ((tokens s)._tokenApprovals id) id = tokens s := by
    simp only [ERC721.approved, Function.update_idem, Function.update_eq_self]
  have he := ERC721.Effect.approve (s := (tokens s).approved .zero id) h0 hne (.inl rfl)
  rw [hback] at he
  refine peel_tokens (t := (tokens s).approved .zero id) hs.allocated rfl ?_ ?_ rfl he
  · rw [← zones_tokens]
    exact hs.zones.blank_approved (by rw [zones_tokens]; exact h0)
  · rw [← zones_tokens]
    exact Zones.size_approved (by rw [zones_tokens]; exact h)

theorem peel_agreement (hs : Coherent keccak256 s) {id : Uint256} {key revision : Bytes32}
    (h : agreementOf s id key revision ≠ []) : Peels keccak256 s := by
  have h0 : (tokens s)._owners id ≠ .zero := by
    intro h0
    have hblank := hs.zones.inv.blank id key revision
    rw [zones_tokens, zones_agreements] at hblank
    exact h (hblank h0)
  obtain ⟨revisionName, rfl⟩ : ∃ revisionName, keccak256 revisionName = revision := by
    have hrevision := hs.zones.revision id key revision
    rw [zones_agreements] at hrevision
    exact hrevision h
  generalize ha : agreementOf s id key (keccak256 revisionName) = value at h
  let s' := withAgreements s (Agreements.set (agreementOf s) id key (keccak256 revisionName) [])
  have hblank : Writable keccak256 (agreementOf s') id key (keccak256 revisionName) := by
    right
    rw [agreementOf_withAgreements, Agreements.set_apply, if_pos ⟨rfl, rfl, rfl⟩]
  have hback : withAgreements s' (Agreements.set (agreementOf s') id key (keccak256 revisionName) value) = s := by
    rw [agreementOf_withAgreements, ← ha]
    simp only [Agreements.set, Function.update_self, Function.update_idem, Function.update_eq_self, s']
    exact withAgreements_self
  have howner : (tokens s')._owners id ≠ .zero := by
    rw [tokens_withAgreements]
    exact h0
  have hbody := body_publish value howner rfl hblank
  rw [hback] at hbody
  refine ⟨s', ⟨?_, allocated_withAgreements hs.allocated⟩, ?_, _, .updateAgreement id key revisionName value, _, ?_,
    hbody⟩
  · rw [zones_withAgreements, ← zones_agreements]
    exact hs.zones.blank_agreement id key _
  · rw [size, size, zones_withAgreements, ← zones_agreements]
    refine Zones.size_agreement ?_
    rw [zones_agreements, ha]
    exact h
  · cases L <;> rfl

end Registry

namespace DocRegistry
variable {keccak256 : Bytes → Bytes32} {s : DocRegistry} {id : Uint256}

/-- As if nobody had claimed zone `id`. -/
def unclaimed (s : DocRegistry) (id : Uint256) : DocRegistry :=
  { s with
    toERC721 := s.unminted id
    _names := Function.update s._names id [] }

theorem unclaimed_zones (hname : keccak256 (s._names id) = id) :
    Registry.zones (L := .l1) (s.unclaimed id) = (Registry.zones (L := .l1) s).unclaim keccak256 id := by
  simp only [Registry.zones, unclaimed, Zones.unclaim, hname, Zones.mk.injEq, true_and]
  funext h
  by_cases hh : h = id
  · rw [hh, Function.update_self, Registry.idOfOwner_none]
    exact Function.update_self ..
  · rw [Function.update_of_ne hh]
    simp only [ERC721.unminted, Function.update_of_ne hh]

theorem claimed_unclaimed (hname : keccak256 (s._names id) = id) :
    (s.unclaimed id).claimed keccak256 (s._owners id) (s._names id) = s := by
  simp only [claimed, unclaimed, hname, ERC721.minted_unminted, Function.update_idem, Function.update_eq_self]

theorem peel_claim (hs : Registry.Coherent keccak256 (L := .l1) s) (h0 : s._owners id ≠ .zero)
    (ha : s._tokenApprovals id = .zero) (hb : ∀ key revision, s._zoneAgreements id key revision = []) :
    Registry.Peels keccak256 (L := .l1) s := by
  have hname : keccak256 (s._names id) = id :=
    hs.zones.inv.hashed id id (Registry.idOfOwner_some.2 ⟨h0, rfl⟩)
  have hfree : (s.unclaimed id)._owners (keccak256 (s._names id)) = .zero := by
    rw [hname]
    exact Function.update_self ..
  have hclaim := claimZone_ok.2 ⟨h0, hfree, rfl⟩
  rw [claimed_unclaimed hname] at hclaim
  refine ⟨s.unclaimed id, ⟨?_, trivial⟩, ?_, s._owners id, .claimZone (s._names id), _, rfl, hclaim⟩
  · rw [unclaimed_zones hname]
    exact hs.zones.unclaim h0 ha hb
  · rw [Registry.size, Registry.size, unclaimed_zones hname]
    exact Zones.size_unclaim h0

end DocRegistry

namespace DocRegistryL2
variable {keccak256 : Bytes → Bytes32} {s : DocRegistryL2} {id : Uint256}

/-- As if nobody had claimed zone `id`, the last one. -/
def unclaimed (keccak256 : Bytes → Bytes32) (s : DocRegistryL2) (id : Uint256) : DocRegistryL2 :=
  { s with
    toERC721 := s.unminted id
    _zoneHashToId := Function.update s._zoneHashToId (keccak256 (s._names id)) 0
    _names := Function.update s._names id []
    counter := id }

theorem unclaimed_zones :
    Registry.zones (L := .l2) (s.unclaimed keccak256 id) = (Registry.zones (L := .l2) s).unclaim keccak256 id := by
  simp only [Registry.zones, unclaimed, Zones.unclaim, Zones.mk.injEq, true_and]
  funext h
  by_cases hh : h = keccak256 (s._names id)
  · rw [hh, Function.update_self, Function.update_self]
    rfl
  · rw [Function.update_of_ne hh, Function.update_of_ne hh]

theorem claimed_unclaimed (hcounter : id + 1 = s.counter)
    (hentry : s._zoneHashToId (keccak256 (s._names id)) = id + 1) :
    (s.unclaimed keccak256 id).claimed keccak256 (s._owners id) (s._names id) = s := by
  simp only [claimed, unclaimed, ERC721.minted_unminted, Function.update_idem, Function.update_eq_self]
  rw [← hentry, Function.update_eq_self, hentry, hcounter]

theorem peel_claim (hs : Registry.Coherent keccak256 (L := .l2) s) (hcounter : s.counter ≠ 0)
    (ha : ∀ id, s._tokenApprovals id = .zero) (hb : ∀ id key revision, s._zoneAgreements id key revision = []) :
    Registry.Peels keccak256 (L := .l2) s := by
  obtain ⟨id, hid⟩ : ∃ id, id + 1 = s.counter := ⟨s.counter - 1, BitVec.sub_add_cancel ..⟩
  have hlt : id.toNat + 1 < 2 ^ 256 := by bv_omega
  have h0 : s._owners id ≠ .zero := (hs.allocated id).2 (by bv_omega)
  have hentry : s._zoneHashToId (keccak256 (s._names id)) = id + 1 := by
    have hx : (Registry.zones (L := .l2) s).index (keccak256 (s._names id)) = some id :=
      hs.zones.inv.index_iff.2 ⟨h0, rfl⟩
    exact sub_eq_iff_eq_add.1 (Registry.idOfEntry_some.1 hx).2
  have hnew : (s.unclaimed keccak256 id)._zoneHashToId (keccak256 (s._names id)) = 0 := Function.update_self ..
  have hfree : (s.unclaimed keccak256 id)._owners id = .zero := Function.update_self ..
  have hclaim := claimZone_ok.2 ⟨hnew, h0, hfree, hlt, rfl⟩
  rw [claimed_unclaimed hid hentry] at hclaim
  refine ⟨s.unclaimed keccak256 id, ⟨?_, fun n => ?_⟩, ?_, s._owners id, .claimZone (s._names id), _, rfl, hclaim⟩
  · rw [unclaimed_zones]
    exact hs.zones.unclaim h0 (ha id) (hb id)
  · have hn := hs.allocated n
    simp only [unclaimed, ERC721.unminted, Function.update_apply]
    split
    next he =>
      subst he
      exact iff_of_false (fun h => h rfl) (by bv_omega)
    next he =>
      rw [hn]
      constructor <;> intro h <;> bv_omega
  · rw [Registry.size, Registry.size, unclaimed_zones]
    exact Zones.size_unclaim h0

end DocRegistryL2

namespace Registry
variable {keccak256 : Bytes → Bytes32} {L : Layer} {s s' : Storage L}

/-- With nothing written, the registry is as deployed. -/
theorem eq_init (hs : Coherent keccak256 s) (h : ∀ x, ¬(zones s).Written x) : s = (contract keccak256 L).init := by
  obtain ⟨htokens, hagreements, hnames, hindex⟩ := hs.zones.eq_empty h
  rw [zones_tokens] at htokens
  rw [zones_agreements] at hagreements
  rw [zones_names] at hnames
  cases L with
  | l1 =>
    calc s = ⟨tokens s, agreementOf s, nameOf s⟩ := rfl
      _ = DocRegistry.empty := by rw [htokens, hagreements, hnames]; rfl
  | l2 =>
    have hentries : s._zoneHashToId = fun _ => 0 := funext fun hash => idOfEntry_none.1 (hindex hash)
    have hcounter : s.counter = 0 := by
      by_contra hne
      refine (hs.allocated 0).2 (by bv_omega) ?_
      exact congrArg (fun t : ERC721 => t._owners 0) htokens
    calc s = ⟨tokens s, agreementOf s, s._zoneHashToId, nameOf s, s.counter⟩ := rfl
      _ = DocRegistryL2.empty := by rw [htokens, hagreements, hentries, hnames, hcounter]; rfl

theorem peels (hs : Coherent keccak256 s) : s = (contract keccak256 L).init ∨ Peels keccak256 s := by
  by_cases hoperator : ∃ a b, (tokens s)._operatorApprovals a b = true
  · obtain ⟨a, b, h⟩ := hoperator
    exact .inr (peel_operator hs h)
  by_cases happroved : ∃ id, (tokens s)._tokenApprovals id ≠ .zero
  · obtain ⟨id, h⟩ := happroved
    exact .inr (peel_approved hs h)
  by_cases hagreement : ∃ id key revision, agreementOf s id key revision ≠ []
  · obtain ⟨id, key, revision, h⟩ := hagreement
    exact .inr (peel_agreement hs h)
  simp only [not_exists, not_not, Bool.not_eq_true] at hoperator happroved hagreement
  by_cases howner : ∃ id, (tokens s)._owners id ≠ .zero
  · obtain ⟨id, h⟩ := howner
    right
    cases L with
    | l1 => exact DocRegistry.peel_claim hs h (happroved id) (hagreement id)
    | l2 =>
      refine DocRegistryL2.peel_claim hs ?_ happroved hagreement
      rintro hcounter
      have hlt := (hs.allocated id).1 h
      bv_omega
  · simp only [not_exists, not_not] at howner
    left
    refine eq_init hs fun x => ?_
    cases x with
    | owner id => simp [Zones.Written, howner]
    | approved id => simp [Zones.Written, happroved]
    | operator a b => simp [Zones.Written, hoperator]
    | agreement id key revision => simp [Zones.Written, hagreement]

theorem init_coherent : Coherent keccak256 (contract keccak256 L).init where
  zones := by
    rw [init_zones]
    exact Zones.empty_coherent
  allocated := init_allocated

theorem size_init : size (contract keccak256 L).init = 0 := by
  rw [size, init_zones, Zones.size, Set.ncard_eq_zero]
  ext x
  cases x <;> simp [Zones.Written, Zones.empty, ERC721.empty]

/-- The storages that runs lead to, callbacks included, are the coherent ones. Calls that call nobody are
enough to reach them, one for each entry written, and no run is shorter. Any address may call, the zero
address as well: the code has no check against it. -/
theorem reached_iff (keccak256 : Bytes → Bytes32) (L : Layer) :
    (∀ s : Storage L, (∃ steps, (reached keccak256 L steps).storage = s) ↔ Coherent keccak256 s) ∧
    (∀ s : Storage L, Coherent keccak256 s ↔ ∃ steps : List Step,
      (∀ st ∈ steps, ∃ a op, st = .call a op false) ∧ steps.length = size s ∧
        (reached keccak256 L steps).storage = s) ∧
    ∀ steps : List Step, size (reached keccak256 L steps).storage ≤ steps.length := by
  have hcoherent (steps : List Step) : Coherent keccak256 (reached keccak256 L steps).storage :=
    (reached_trace steps).inv init_coherent fun _ _ hs hb => coherent_step hs hb
  have hshortest (s : Storage L) (hs : Coherent keccak256 s) : ∃ steps : List Step,
      (∀ st ∈ steps, ∃ a op, st = .call a op false) ∧ steps.length = size s ∧
        (reached keccak256 L steps).storage = s := by
    obtain ⟨steps, hcalls, hlength, hrun⟩ := Calls.exists_run (fun _ hs => peels hs) hs
    rw [size_init, Nat.zero_add] at hlength
    exact ⟨steps, hcalls, hlength.symm, hrun⟩
  refine ⟨fun s => ⟨?_, fun hs => ?_⟩, fun s => ⟨hshortest s, ?_⟩, fun steps => ?_⟩
  · rintro ⟨steps, rfl⟩
    exact hcoherent steps
  · obtain ⟨steps, -, -, hrun⟩ := hshortest s hs
    exact ⟨steps, hrun⟩
  · rintro ⟨steps, -, -, rfl⟩
    exact hcoherent steps
  · have hsize : size (reached keccak256 L steps).storage ≤ size (contract keccak256 L).init + steps.length :=
      Calls.size_le_length (fun _ _ _ _ _ hb => (body_effect hb).size_le) steps
    rw [size_init, Nat.zero_add] at hsize
    exact hsize

end Registry

end LawRegistry
