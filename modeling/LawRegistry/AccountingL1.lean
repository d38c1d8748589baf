import LawRegistry.Accounting
/-!
# Accounting on L1

On L1 every hash can become a token, so no counter bounds the balances. The `unchecked` blocks rest
on a remark: they cannot overflow before one account owns all the 2^256 tokens. That is the exact
condition, and the balances count the tokens modulo 2^256.
-/

namespace LawRegistry

open Calls (Trace)

namespace ERC721

/-- The tokens that exist. -/
def claimedTokens (s : ERC721) : Finset Uint256 := Finset.univ.filter fun id => s._owners id ≠ .zero

/-- The balances count the tokens, as far as they can. -/
def Counted (s : ERC721) : Prop := Holdings.Congruent s._balances s._owners s.claimedTokens

variable {s s' : ERC721} {sender to_ a : Address} {id tokenId : Uint256} {op : Op} {events : List Event}

theorem mem_claimedTokens : id ∈ s.claimedTokens ↔ s._owners id ≠ .zero := by
  simp only [claimedTokens, Finset.mem_filter_univ]

theorem card_tokens : Fintype.card Uint256 = 2 ^ 256 :=
  (Fintype.ofEquiv_card _).trans (Fintype.card_fin _)

theorem card_claimedTokens_le : s.claimedTokens.card ≤ 2 ^ 256 := by
  rw [← card_tokens]
  exact Finset.card_le_univ _

/-- An account that holds as many tokens as there are holds them all. -/
theorem held_all :
    Holdings.held s._owners s.claimedTokens a = 2 ^ 256 ↔ ∀ n, s.ownerOf n = .ok a := by
  rw [← card_tokens, Holdings.held_univ]
  simp only [mem_claimedTokens, ownerOf_ok]

theorem empty_claimedTokens : empty.claimedTokens = ∅ := by simp [claimedTokens, empty]

theorem minted_claimedTokens (h0 : to_ ≠ .zero) :
    (s.minted to_ tokenId).claimedTokens = insert tokenId s.claimedTokens := by
  ext id
  rw [Finset.mem_insert, mem_claimedTokens, mem_claimedTokens, minted_owners]
  split
  next he => exact iff_of_true h0 (.inl he)
  next he => simp only [he, false_or]

theorem Effect.claimedTokens (h : Effect sender s op s' events) : s'.claimedTokens = s.claimedTokens := by
  ext id
  rw [mem_claimedTokens, mem_claimedTokens, ne_eq, ne_eq, h.exists_iff id]

theorem empty_counted : empty.Counted := by
  intro a
  rw [empty_claimedTokens]
  rfl

theorem minted_counted (hn : s.Counted) (h0 : to_ ≠ .zero) (hf : s._owners tokenId = .zero) :
    (s.minted to_ tokenId).Counted := by
  unfold Counted
  rw [minted_claimedTokens h0]
  exact Holdings.Congruent.mint hn fun hm => mem_claimedTokens.1 hm hf

theorem Effect.counted (h : Effect sender s op s' events) (hn : s.Counted) : s'.Counted := by
  unfold Counted
  rw [h.claimedTokens]
  cases h with
  | approve | setApprovalForAll => exact hn
  | @move _ from_ to_ tokenId _ ho h0 =>
    have hm : tokenId ∈ s.claimedTokens := mem_claimedTokens.2 (by rw [ho]; exact h0)
    have hmove := Holdings.Congruent.move (x := to_) hn hm
    rw [ho] at hmove
    exact hmove

end ERC721

namespace DocRegistry

open ERC721 (mem_claimedTokens card_tokens card_claimedTokens_le held_all)

/-- The unchecked arithmetic a call does. Here nothing fails after it. -/
def unchecked (keccak256 : Bytes → Bytes32) (msgSender : Address) (s : DocRegistry) : Op → List (Holdings.Op Address)
  | .claimZone zoneName => s._mintUnchecked msgSender (keccak256 zoneName)
  | .updateAgreement .. => []
  | .erc721 op => s.callUnchecked msgSender op

variable {keccak256 : Bytes → Bytes32} {s s' : DocRegistry} {sender : Address} {op : Op} {events : List Event}
  {id : Uint256} {a : Address}

/-- What a call that succeeds does, in three cases. -/
theorem body_cases (h : body keccak256 sender s op = .ok (s', events)) :
    -- A claim makes the hash a token.
    (∃ zoneName, op = .claimZone zoneName ∧ sender ≠ .zero ∧ s._owners (keccak256 zoneName) = .zero ∧
      s' = s.claimed keccak256 sender zoneName ∧
      events = [.erc721 (.Transfer .zero sender (keccak256 zoneName))]) ∨
    -- A publication leaves the tokens.
    (∃ zone key revisionName value, op = .updateAgreement zone key revisionName value ∧ s'.toERC721 = s.toERC721 ∧
      events = [.AgreementUpdated zone key value (keccak256 revisionName)]) ∨
    -- The token code changes the tokens.
    ∃ call evs, op = .erc721 call ∧ ERC721.Effect sender s.toERC721 call s'.toERC721 evs ∧
      events = evs.map .erc721 := by
  cases op with
  | claimZone zoneName =>
    obtain ⟨h0, hf, he⟩ := claimZone_ok.1 h
    cases he
    exact .inl ⟨zoneName, rfl, h0, hf, rfl, rfl⟩
  | updateAgreement zone key revisionName value =>
    obtain ⟨_, hp, hr⟩ := bind_ok.1 h
    obtain ⟨-, -, -, rfl⟩ := (publish_ok keccak256).1 hp
    cases hr
    exact .inr (.inl ⟨zone, key, revisionName, value, rfl, rfl, rfl⟩)
  | erc721 call =>
    obtain ⟨⟨t, evs⟩, hc, hr⟩ := bind_ok.1 h
    cases hr
    exact .inr (.inr ⟨call, evs, rfl, ERC721.call_iff.1 hc, rfl⟩)

/-! ## One call -/

theorem claimed_tokens (h0 : sender ≠ .zero) (zoneName : Bytes) :
    (s.claimed keccak256 sender zoneName).claimedTokens = insert (keccak256 zoneName) s.claimedTokens :=
  ERC721.minted_claimedTokens h0

theorem claimed_owners (zoneName : Bytes) :
    (s.claimed keccak256 sender zoneName)._owners = Function.update s._owners (keccak256 zoneName) sender := rfl

theorem body_counted (h : body keccak256 sender s op = .ok (s', events)) (hn : s.Counted) : s'.Counted := by
  rcases body_cases h with ⟨zoneName, rfl, h0, hf, rfl, -⟩ | ⟨_, _, _, _, rfl, ht, -⟩ | ⟨call, evs, rfl, he, -⟩
  · exact ERC721.minted_counted hn h0 hf
  · rw [ht]
    exact hn
  · exact he.counted hn

/-- A call that goes through wraps if one account owned all the tokens, or does now. -/
theorem body_wraps (h : body keccak256 sender s op = .ok (s', events)) (hn : s.Counted) :
    Holdings.Wraps s._balances (unchecked keccak256 sender s op) ↔
      ∃ from_ to_ id, events = [.erc721 (.Transfer from_ to_ id)] ∧
        ((∀ n, s.ownerOf n = .ok from_) ∨ ∀ n, s'.ownerOf n = .ok to_) := by
  rcases body_cases h with ⟨zoneName, rfl, h0, hf, rfl, rfl⟩ | ⟨_, _, _, _, rfl, -, rfl⟩ | ⟨call, evs, rfl, he, rfl⟩
  · -- A claim: nobody owned the token before.
    have hnew : keccak256 zoneName ∉ s.claimedTokens := fun hm => mem_claimedTokens.1 hm hf
    have hfit : s.claimedTokens.card < 2 ^ 256 := by
      rw [← card_tokens]
      exact Finset.card_lt_univ_of_notMem hnew
    rw [unchecked, ERC721.mintUnchecked_eq h0 hf, Holdings.Congruent.mint_wraps hn hnew hfit, ← claimed_tokens h0,
      ← claimed_owners, held_all]
    constructor
    · intro hall
      exact ⟨_, _, _, rfl, .inr hall⟩
    · rintro ⟨_, _, _, he, hall | hall⟩ <;> cases he
      · have hzero := ERC721.ownerOf_ok.1 (hall 0)
        exact absurd hzero.2 hzero.1
      · exact hall
  · refine iff_of_false id ?_
    rintro ⟨_, _, _, he, -⟩
    cases he
  · have hkept := he.claimedTokens
    rw [unchecked, ERC721.callUnchecked_eq he]
    generalize ht : s'.toERC721 = t at he
    cases he with
    | approve | setApprovalForAll =>
      refine iff_of_false id ?_
      rintro ⟨_, _, _, he, -⟩
      cases he
    | @move _ from_ to_ tokenId hop ho h0 hto =>
      have hm : tokenId ∈ s.claimedTokens := mem_claimedTokens.2 (by rw [ho]; exact h0)
      have howners : s'._owners = Function.update s._owners tokenId to_ := by
        rw [ht]
        rfl
      have hwraps := Holdings.Congruent.move_wraps (x := to_) hn hm card_claimedTokens_le
      have hkept' : Holdings.held s'._owners s.claimedTokens to_ = Holdings.held s'._owners s'.claimedTokens to_ := by
        rw [hkept]
      rw [ho, ← howners, hkept', held_all, held_all, ht] at hwraps
      rw [hop, hwraps]
      constructor
      · intro hall
        exact ⟨from_, to_, tokenId, rfl, hall⟩
      · rintro ⟨_, _, _, hev, hall⟩
        cases hev
        exact hall

/-- A call that fails does no unchecked arithmetic. -/
theorem unchecked_error {e : Revert} (h : body keccak256 sender s op = .error e) :
    unchecked keccak256 sender s op = [] := by
  cases op with
  | claimZone zoneName =>
    by_contra hne
    obtain ⟨h0, hf⟩ := ERC721.mintUnchecked_ne_nil hne
    rw [body, claimZone_ok.2 ⟨h0, hf, rfl⟩] at h
    cases h
  | updateAgreement => rfl
  | erc721 call =>
    rcases bind_error.1 h with hc | ⟨_, -, hr⟩
    · exact ERC721.callUnchecked_error hc
    · cases hr

theorem wraps_iff (hn : s.Counted) : Holdings.Wraps s._balances (unchecked keccak256 sender s op) ↔
    ∃ s' from_ to_ id, body keccak256 sender s op = .ok (s', [.erc721 (.Transfer from_ to_ id)]) ∧
      ((∀ n, s.ownerOf n = .ok from_) ∨ ∀ n, s'.ownerOf n = .ok to_) := by
  cases hb : body keccak256 sender s op with
  | error e =>
    rw [unchecked_error hb]
    refine iff_of_false id ?_
    rintro ⟨_, _, _, _, he, -⟩
    cases he
  | ok r =>
    obtain ⟨s', events⟩ := r
    rw [body_wraps hb hn]
    constructor
    · rintro ⟨from_, to_, id, rfl, hall⟩
      exact ⟨s', from_, to_, id, rfl, hall⟩
    · rintro ⟨_, from_, to_, id, he, hall⟩
      cases he
      exact ⟨from_, to_, id, rfl, hall⟩

/-! ## Every run -/

theorem body_claimedTokens (h : body keccak256 sender s op = .ok (s', events)) :
    s'.claimedTokens.card = s.claimedTokens.card + if op.isClaim then 1 else 0 := by
  rcases body_cases h with ⟨zoneName, rfl, h0, hf, rfl, -⟩ | ⟨_, _, _, _, rfl, ht, -⟩ | ⟨call, evs, rfl, he, -⟩
  · have hnew : keccak256 zoneName ∉ s.claimedTokens := fun hm => mem_claimedTokens.1 hm hf
    rw [claimed_tokens h0, Finset.card_insert_of_notMem hnew, Op.isClaim, if_pos rfl]
  · rw [ht]
    exact (Nat.add_zero _).symm
  · rw [he.claimedTokens]
    exact (Nat.add_zero _).symm

theorem trace_claimedTokens {es : List (Registry.Entry .l1)} (h : Trace (contract keccak256) empty es s) :
    s.claimedTokens.card = es.countP (·.op.isClaim) := by
  induction h with
  | nil =>
    have hempty : empty.claimedTokens = ∅ := ERC721.empty_claimedTokens
    rw [hempty, Finset.card_empty, List.countP_nil]
  | @snoc es s a op s' evs _ hb ih =>
    rw [body_claimedTokens hb, ih, List.countP_append, List.countP_singleton]

theorem reached_counted (steps : List Step) :
    (show DocRegistry from (Registry.reached keccak256 .l1 steps).storage).Counted :=
  (Registry.reached_trace (L := .l1) steps).inv (I := fun s : DocRegistry => s.Counted) ERC721.empty_counted
    fun _ _ hi hb => body_counted hb hi

/-- An account that owns every token takes all the claims there can be. -/
theorem card_of_all (h : ∀ n, s.ownerOf n = .ok a) : s.claimedTokens.card = 2 ^ 256 := by
  have hle : Holdings.held s._owners s.claimedTokens a ≤ s.claimedTokens.card := Holdings.held_le
  rw [held_all.2 h] at hle
  exact Nat.le_antisymm card_claimedTokens_le hle

/-- There are as many tokens as claims, and a balance is the number of tokens its account owns, modulo
2^256. The unchecked arithmetic wraps in the transfers from the owner of all tokens and to an account
that thereby owns them all, so it does not before 2^256 - 1 claims. -/
theorem wraps_at_sole_owner (keccak256 : Bytes → Bytes32) (steps : List Step) :
    let w := Registry.reached keccak256 .l1 steps
    let s : DocRegistry := w.storage
    {n | s._exists n = true}.ncard = w.journal.countP (·.op.isClaim) ∧
    (∀ a, a ≠ .zero → ∃ b, s.balanceOf a = .ok b ∧ b.toNat = {n | s.ownerOf n = .ok a}.ncard % 2 ^ 256) ∧
    ∀ sender op,
      (Holdings.Wraps s._balances (unchecked keccak256 sender s op) ↔
        ∃ s' from_ to_ id, body keccak256 sender s op = .ok (s', [.erc721 (.Transfer from_ to_ id)]) ∧
          ((∀ n, s.ownerOf n = .ok from_) ∨ ∀ n, s'.ownerOf n = .ok to_)) ∧
      (w.journal.countP (·.op.isClaim) < 2 ^ 256 - 1 →
        ¬Holdings.Wraps s._balances (unchecked keccak256 sender s op)) := by
  intro w s
  have ht : Trace (contract keccak256) empty w.journal s := Registry.reached_trace (L := .l1) steps
  have hcard : s.claimedTokens.card = w.journal.countP (·.op.isClaim) := trace_claimedTokens ht
  have hn : s.Counted := reached_counted steps
  refine ⟨?_, fun a h0 => ⟨s._balances a, ERC721.balanceOf_ok.2 ⟨h0, rfl⟩, ?_⟩, fun sender op => ⟨wraps_iff hn, ?_⟩⟩
  · have htokens : {n | s._exists n = true} = (s.claimedTokens : Set Uint256) := by
      ext n
      rw [Finset.mem_coe, mem_claimedTokens]
      exact ERC721.exists_iff
    rw [htokens, Set.ncard_coe_finset, hcard]
  · have hheld : {n | s.ownerOf n = .ok a} = (s.claimedTokens.filter (s._owners · = a) : Set Uint256) := by
      ext n
      simp only [Finset.coe_filter, mem_claimedTokens, Set.mem_ofPred_eq, ERC721.ownerOf_ok]
    have hcount : {n | s.ownerOf n = .ok a}.ncard = Holdings.held s._owners s.claimedTokens a := by
      rw [hheld, Set.ncard_coe_finset, Holdings.held]
    rw [hn a, BitVec.toNat_ofNat, hcount]
  · intro hfew hw
    obtain ⟨s', from_, to_, id, hb, hall | hall⟩ := (wraps_iff hn).1 hw
    · have hfull := card_of_all hall
      omega
    · have hfull := card_of_all hall
      have hstep := body_claimedTokens hb
      split at hstep <;> omega

end DocRegistry

end LawRegistry
