import Mathlib.Data.Set.Card
import LawRegistry.Lib.Holdings
import LawRegistry.Ids
/-!
# Accounting on L2

`_mint` and `_transfer` change balances in `unchecked` blocks. The ids are bounded by the checked
`counter`, so each balance is the number of zones its account owns, and the blocks do not wrap.
There is one exception, at the last id, in a call that then fails.
-/

namespace LawRegistry

open Calls (run exec)

/-! ## The unchecked blocks -/

namespace ERC721
variable (s : ERC721)

/-- The `unchecked` block of `_mint`. Nothing fails after it, so `_mint` gets to it if it succeeds. -/
def _mintUnchecked (to_ : Address) (tokenId : Uint256) : List (Holdings.Op Address) :=
  match s._mint to_ tokenId with
  | .ok _ => [.incr to_]
  | .error _ => []

/-- The `unchecked` block of `_transfer`, in the calls that get to it. -/
def callUnchecked (_msgSender : Address) (op : Op) : List (Holdings.Op Address) :=
  match call _msgSender s op, op.moves with
  | .ok _, some (from_, to_, _) => [.decr from_, .incr to_]
  | _, _ => []

end ERC721

namespace DocRegistryL2

/-- The unchecked arithmetic a call does, also where it fails later. -/
def unchecked (keccak256 : Bytes → Bytes32) (msgSender : Address) (s : DocRegistryL2) :
    Op → List (Holdings.Op Address)
  | .claimZone zoneName =>
    if s._zoneHashToId (keccak256 zoneName) = 0 then s._mintUnchecked msgSender s.counter else []
  | .updateAgreement .. => []
  | .erc721 op => s.callUnchecked msgSender op

end DocRegistryL2

namespace ERC721
variable {s s' : ERC721} {sender to_ : Address} {tokenId : Uint256} {op : Op} {events : List Event}

theorem mintUnchecked_eq (hto : to_ ≠ .zero) (hf : s._owners tokenId = .zero) :
    s._mintUnchecked to_ tokenId = [.incr to_] := by
  unfold _mintUnchecked
  rw [mint_ok.2 ⟨hto, hf, rfl⟩]

theorem mintUnchecked_ne_nil (h : s._mintUnchecked to_ tokenId ≠ []) : to_ ≠ .zero ∧ s._owners tokenId = .zero := by
  unfold _mintUnchecked at h
  split at h
  next hm =>
    obtain ⟨hto, hf, -⟩ := mint_ok.1 hm
    exact ⟨hto, hf⟩
  next => exact absurd rfl h

theorem callUnchecked_eq (h : Effect sender s op s' events) :
    s.callUnchecked sender op =
      match op.moves with
      | some (from_, to_, _) => [.decr from_, .incr to_]
      | none => [] := by
  unfold callUnchecked
  rw [call_iff.2 h]
  cases op.moves <;> rfl

/-- The balances `_mint` leaves, also for a call that fails later. -/
theorem mint_unchecked (h : s._mint to_ tokenId = .ok (s', events)) :
    s'._balances = Holdings.apply s._balances (s._mintUnchecked to_ tokenId) := by
  obtain ⟨hto, hf, he⟩ := mint_ok.1 h
  cases he
  rw [mintUnchecked_eq hto hf]
  rfl

theorem call_unchecked (h : Effect sender s op s' events) :
    s'._balances = Holdings.apply s._balances (s.callUnchecked sender op) := by
  rw [callUnchecked_eq h]
  cases h with
  | approve | setApprovalForAll => rfl
  | move hop =>
    rw [hop]
    rfl

theorem callUnchecked_error {e : Revert} (h : call sender s op = .error e) : s.callUnchecked sender op = [] := by
  unfold callUnchecked
  rw [h]

end ERC721

namespace DocRegistryL2
variable {keccak256 : Bytes → Bytes32} {s s' : DocRegistryL2} {sender : Address} {op : Op} {events : List Event}

/-- The balances are what the unchecked arithmetic makes of them. -/
theorem body_unchecked (h : body keccak256 sender s op = .ok (s', events)) :
    s'._balances = Holdings.apply s._balances (unchecked keccak256 sender s op) := by
  rcases body_cases h with ⟨zoneName, rfl, hz, h0, hf, -, rfl, -⟩ |
    ⟨zone, key, revisionName, value, rfl, -, -, -, rfl, -⟩ | ⟨call, t, evs, rfl, he, rfl, -⟩
  · rw [unchecked, if_pos hz]
    exact ERC721.mint_unchecked (ERC721.mint_ok.2 ⟨h0, hf, rfl⟩)
  · rfl
  · exact ERC721.call_unchecked he

/-! ## Balances count zones -/

instance {w : Nat} : Fintype (BitVec w) := .ofEquiv (Fin (2 ^ w)) BitVec.equivFin.symm.toEquiv

/-- The ids handed out. -/
def idsBelow (counter : Uint256) : Finset Uint256 := Finset.univ.filter (· < counter)

theorem mem_idsBelow {counter id : Uint256} : id ∈ idsBelow counter ↔ id < counter := by
  simp only [idsBelow, Finset.mem_filter_univ]

theorem idsBelow_succ {counter : Uint256} (hc : counter.toNat + 1 < 2 ^ 256) :
    idsBelow (counter + 1) = insert counter (idsBelow counter) := by
  ext id
  rw [Finset.mem_insert, mem_idsBelow, mem_idsBelow]
  constructor
  · intro h
    by_cases he : id = counter
    · exact .inl he
    · exact .inr (by bv_omega)
  · rintro (rfl | h) <;> bv_omega

theorem card_idsBelow (counter : Uint256) : (idsBelow counter).card = counter.toNat := by
  rw [← Finset.card_range counter.toNat]
  apply Finset.card_bij fun id _ => id.toNat
  · intro id h
    exact Finset.mem_range.2 (mem_idsBelow.1 h)
  · intro id _ id' _ he
    exact BitVec.eq_of_toNat_eq he
  · intro n hn
    rw [Finset.mem_range] at hn
    have hlt : n < 2 ^ 256 := Nat.lt_trans hn counter.isLt
    have he : (BitVec.ofNat 256 n).toNat = n := BitVec.toNat_ofNat .. ▸ Nat.mod_eq_of_lt hlt
    exact ⟨BitVec.ofNat 256 n, mem_idsBelow.2 (by rw [BitVec.lt_def, he]; exact hn), he⟩

/-- Every balance is the number of zones its account owns. -/
def Counted (s : DocRegistryL2) : Prop := Holdings.Exact s._balances s._owners (idsBelow s.counter)

theorem empty_counted : empty.Counted := by
  intro a
  simp [Holdings.held, idsBelow, empty, ERC721.empty]

/-- A call that succeeds does not wrap, and the balances count on. -/
theorem body_counted (h : body keccak256 sender s op = .ok (s', events)) (ha : s.Allocated) (hn : s.Counted) :
    ¬Holdings.Wraps s._balances (unchecked keccak256 sender s op) ∧ s'.Counted := by
  have hb := body_unchecked h
  unfold Counted
  rw [hb]
  rcases body_cases h with ⟨zoneName, rfl, hz, h0, hf, hc, rfl, -⟩ |
    ⟨zone, key, revisionName, value, rfl, -, -, -, rfl, -⟩ | ⟨call, t, evs, rfl, he, rfl, -⟩
  · rw [unchecked, if_pos hz, ERC721.mintUnchecked_eq h0 hf]
    have hnew : s.counter ∉ idsBelow s.counter := fun hm => absurd (mem_idsBelow.1 hm) (by bv_omega)
    obtain ⟨hw, hex⟩ := Holdings.Exact.mint (x := sender) hn hnew (by rw [card_idsBelow]; exact hc)
    refine ⟨hw, ?_⟩
    rw [← idsBelow_succ hc] at hex
    exact hex
  · exact ⟨id, hn⟩
  · rw [unchecked, ERC721.callUnchecked_eq he]
    cases he with
    | approve | setApprovalForAll => exact ⟨id, hn⟩
    | @move _ from_ to_ tokenId hop ho h0 =>
      have hm : tokenId ∈ idsBelow s.counter := mem_idsBelow.2 ((ha tokenId).1 (by rw [ho]; exact h0))
      rw [hop, ← ho]
      apply Holdings.Exact.move hn hm
      rw [card_idsBelow]
      exact s.counter.isLt

/-! ## The last id -/

/-- Without ids left, every claim fails. -/
theorem claimZone_full (hfull : s.counter.toNat = 2 ^ 256 - 1) (zoneName : Bytes) :
    ∃ e, claimZone keccak256 sender s zoneName = .error e := by
  cases h : claimZone keccak256 sender s zoneName with
  | error e => exact ⟨e, rfl⟩
  | ok r =>
    obtain ⟨-, -, -, hc, -⟩ := claimZone_ok.1 h
    omega

/-- Only a claim can do unchecked arithmetic and still fail, and then it is one too many. -/
theorem full_of_fails {e : Revert} (hb : body keccak256 sender s op = .error e)
    (hne : unchecked keccak256 sender s op ≠ []) :
    ∃ zoneName, op = .claimZone zoneName ∧ s._zoneHashToId (keccak256 zoneName) = 0 ∧ sender ≠ .zero ∧
      s._owners s.counter = .zero ∧ s.counter.toNat = 2 ^ 256 - 1 := by
  cases op with
  | claimZone zoneName =>
    simp only [unchecked] at hne
    split at hne
    next hz =>
      obtain ⟨h0, hf⟩ := ERC721.mintUnchecked_ne_nil hne
      refine ⟨zoneName, rfl, hz, h0, hf, ?_⟩
      by_contra hroom
      have hlt := s.counter.isLt
      have hok := claimZone_ok.2 ⟨hz, h0, hf, by omega, rfl⟩
      rw [body] at hb
      rw [hb] at hok
      cases hok
    next => exact absurd rfl hne
  | updateAgreement => exact absurd rfl hne
  | erc721 op =>
    rcases bind_error.1 hb with hc | ⟨_, -, hr⟩
    · exact absurd (ERC721.callUnchecked_error hc) hne
    · cases hr

/-- The one call that wraps: the holder of all the zones there can be claims another. -/
theorem wraps_iff (ha : s.Allocated) (hn : s.Counted) :
    Holdings.Wraps s._balances (unchecked keccak256 sender s op) ↔
      ∃ zoneName, op = .claimZone zoneName ∧ s._zoneHashToId (keccak256 zoneName) = 0 ∧
        s.counter.toNat = 2 ^ 256 - 1 ∧ s.balanceOf sender = .ok s.counter := by
  constructor
  · intro hw
    cases hb : body keccak256 sender s op with
    | ok r => exact absurd hw (body_counted hb ha hn).1
    | error e =>
      have hne : unchecked keccak256 sender s op ≠ [] := by
        intro hnil
        rw [hnil] at hw
        exact hw
      obtain ⟨zoneName, rfl, hz, h0, hf, hfull⟩ := full_of_fails hb hne
      rw [unchecked, if_pos hz, ERC721.mintUnchecked_eq h0 hf] at hw
      refine ⟨zoneName, rfl, hz, hfull, ERC721.balanceOf_ok.2 ⟨h0, ?_⟩⟩
      rcases hw with hw | hw
      · simp only [Holdings.Op.Wraps] at hw
        apply BitVec.eq_of_toNat_eq
        omega
      · exact hw.elim
  · rintro ⟨zoneName, rfl, hz, hfull, hall⟩
    obtain ⟨h0, hall⟩ := ERC721.balanceOf_ok.1 hall
    rw [unchecked, if_pos hz, ERC721.mintUnchecked_eq h0 ha.free]
    left
    simp only [Holdings.Op.Wraps, hall]
    omega

/-! ## Every run -/

theorem reached_counted (steps : List Step) :
    (show DocRegistryL2 from (Registry.reached keccak256 .l2 steps).storage).Counted :=
  ((reached_trace steps).inv (I := fun s => s.Allocated ∧ s.Counted) ⟨empty_allocated, empty_counted⟩
    fun _ _ hi hb => ⟨body_allocated hb hi.1, (body_counted hb hi.1 hi.2).2⟩).2

/-- The balances count the zones, and the unchecked arithmetic does not wrap; but for the claim of one
zone too many by the account that owns all the others, and it fails. -/
theorem accounting (keccak256 : Bytes → Bytes32) (steps : List Step) :
    let m := run (Registry.contract keccak256 .l2) (Registry.deployed keccak256 .l2) steps
    let s : DocRegistryL2 := m.world.storage
    (∀ a, a ≠ .zero →
      ∃ b, s.balanceOf a = .ok b ∧ b.toNat = {n | n < s.counter ∧ s.ownerOf n = .ok a}.ncard) ∧
    ∑ a, (s._balances a).toNat = s.counter.toNat ∧
    (∀ sender op, Holdings.Wraps s._balances (unchecked keccak256 sender s op) ↔
      ∃ zoneName, op = .claimZone zoneName ∧ s._zoneHashToId (keccak256 zoneName) = 0 ∧
        s.counter.toNat = 2 ^ 256 - 1 ∧ s.balanceOf sender = .ok s.counter) ∧
    (s.counter.toNat = 2 ^ 256 - 1 → ∀ sender zoneName code,
      exec (Registry.contract keccak256 .l2) m (.call sender (.claimZone zoneName) code) = m) := by
  intro m s
  have hn : s.Counted := reached_counted steps
  have ha : s.Allocated := Registry.reached_allocated (L := .l2) steps
  refine ⟨fun a h0 => ⟨s._balances a, ERC721.balanceOf_ok.2 ⟨h0, rfl⟩, ?_⟩, ?_, fun sender op => wraps_iff ha hn,
    fun hfull sender zoneName code => ?_⟩
  · rw [hn a, Holdings.held, ← Set.ncard_coe_finset]
    congr 1
    ext n
    simp only [Finset.coe_filter, mem_idsBelow, Set.mem_ofPred_eq, ERC721.ownerOf_ok]
    constructor
    · rintro ⟨hlt, rfl⟩
      exact ⟨hlt, h0, rfl⟩
    · rintro ⟨hlt, -, ho⟩
      exact ⟨hlt, ho⟩
  · rw [hn.sum, card_idsBelow]
  · obtain ⟨e, he⟩ : ∃ e, claimZone keccak256 sender s zoneName = .error e := claimZone_full hfull zoneName
    exact Calls.exec_error he

/-! ## One zone too many -/

/-- One account claims the first `n` of `names`. -/
def claimAll (a : Address) (names : Nat → Bytes) (n : Nat) : List Step :=
  (List.range n).map fun i => .call a (.claimZone (names i)) false

section ClaimAll
variable {a : Address} {names : Nat → Bytes}

/-- The account owns all the zones, and the other names are free. -/
structure OwnsAll (keccak256 : Bytes → Bytes32) (a : Address) (names : Nat → Bytes) (n : Nat) (s : DocRegistryL2) :
    Prop where
  counter : s.counter.toNat = n
  balance : s._balances a = s.counter
  unclaimed : ∀ h, (∀ i < n, keccak256 (names i) ≠ h) → s._zoneHashToId h = 0

theorem claimed_ownsAll {n : Nat} (hi : s.OwnsAll keccak256 a names n) (hn : n + 1 < 2 ^ 256) :
    (s.claimed keccak256 a (names n)).OwnsAll keccak256 a names (n + 1) := by
  have hc := hi.counter
  constructor
  · simp only [claimed]
    bv_omega
  · simp only [claimed, ERC721.minted, Function.update_self, hi.balance]
  · intro h hh
    simp only [claimed]
    rw [Function.update_of_ne (hh n (Nat.lt_succ_self n)).symm]
    apply hi.unclaimed
    intro i hlt
    exact hh i (Nat.lt_succ_of_lt hlt)

theorem reached_ownsAll (h0 : a ≠ .zero)
    (hinj : ∀ i j, i < 2 ^ 256 → j < 2 ^ 256 → keccak256 (names i) = keccak256 (names j) → i = j) {n : Nat}
    (hn : n < 2 ^ 256) :
    OwnsAll keccak256 a names n (Registry.reached keccak256 .l2 (claimAll a names n)).storage := by
  induction n with
  | zero => exact ⟨rfl, rfl, fun _ _ => rfl⟩
  | succ n ih =>
    let s : DocRegistryL2 := (Registry.reached keccak256 .l2 (claimAll a names n)).storage
    have hi : s.OwnsAll keccak256 a names n := ih (by omega)
    have ha : s.Allocated := Registry.reached_allocated (L := .l2) _
    have hnew : s._zoneHashToId (keccak256 (names n)) = 0 := by
      apply hi.unclaimed
      intro i hlt he
      exact absurd (hinj i n (by omega) (by omega) he) (Nat.ne_of_lt hlt)
    have hroom : s.counter.toNat + 1 < 2 ^ 256 := by rw [hi.counter]; exact hn
    have hok : claimZone keccak256 a s (names n) = .ok (s.claimed keccak256 a (names n), _) :=
      claimZone_ok.2 ⟨hnew, h0, ha.free, hroom, rfl⟩
    have hsteps : claimAll a names (n + 1) = claimAll a names n ++ [.call a (.claimZone (names n)) false] := by
      simp only [claimAll, List.range_succ, List.map_append, List.map_cons, List.map_nil]
    have hs : (Registry.reached keccak256 .l2 (claimAll a names (n + 1))).storage =
        s.claimed keccak256 a (names n) := by
      rw [Registry.reached, hsteps, Calls.run_append, Calls.run_cons, Calls.exec_ok rfl hok]
      rfl
    rw [hs]
    apply claimed_ownsAll hi hn

/-- An account that claims as many names as there are ids wraps its balance with the last one. -/
theorem claimAll_wraps {n : Nat} (hn : n + 1 = 2 ^ 256) (h0 : a ≠ .zero)
    (hinj : ∀ i j, i < 2 ^ 256 → j < 2 ^ 256 → keccak256 (names i) = keccak256 (names j) → i = j) :
    let s : DocRegistryL2 := (Registry.reached keccak256 .l2 (claimAll a names n)).storage
    Holdings.Wraps s._balances (unchecked keccak256 a s (.claimZone (names n))) := by
  intro s
  have hi : s.OwnsAll keccak256 a names n := reached_ownsAll h0 hinj (by omega)
  have ha : s.Allocated := Registry.reached_allocated (L := .l2) _
  apply (wraps_iff ha (reached_counted _)).2
  refine ⟨names n, rfl, ?_, by rw [hi.counter]; omega, ERC721.balanceOf_ok.2 ⟨h0, hi.balance⟩⟩
  apply hi.unclaimed
  intro i hlt he
  exact absurd (hinj i n (by omega) (by omega) he) (Nat.ne_of_lt hlt)

end ClaimAll

/-- With a hash that has enough values, here the length of the name, the blocks do wrap. -/
theorem accounting_wraps :
    let keccak256 : Bytes → Bytes32 := fun name => BitVec.ofNat 256 name.length
    let names : Nat → Bytes := fun n => List.replicate n 0
    let s : DocRegistryL2 := (Registry.reached keccak256 .l2 (claimAll 1 names (2 ^ 256 - 1))).storage
    Holdings.Wraps s._balances (unchecked keccak256 1 s (.claimZone (names (2 ^ 256 - 1)))) := by
  intro keccak256 names
  have hinj : ∀ i j, i < 2 ^ 256 → j < 2 ^ 256 → keccak256 (names i) = keccak256 (names j) → i = j := by
    intro i j hi hj he
    simp only [keccak256, names, List.length_replicate] at he
    have hnat := congrArg BitVec.toNat he
    rw [BitVec.toNat_ofNat, BitVec.toNat_ofNat, Nat.mod_eq_of_lt hi, Nat.mod_eq_of_lt hj] at hnat
    exact hnat
  -- For every such `n`, as the numeral itself would be unfolded.
  have hwraps : ∀ n, n + 1 = 2 ^ 256 → _ := fun n hn => claimAll_wraps (a := 1) hn (by decide) hinj
  apply hwraps
  omega

end DocRegistryL2

end LawRegistry
