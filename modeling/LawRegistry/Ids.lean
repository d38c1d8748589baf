import LawRegistry.History
/-!
# Ids on L2

`claimZone` hands out ids from a counter, and finds a zone again through the hash of its name.
The token ids in use are exactly those below the counter, and each of them is one name's hash.
-/

namespace LawRegistry

open Calls (Trace)

/-- The calls of a run that claimed a zone. -/
def Op.isClaim : Op → Bool
  | .claimZone _ => true
  | _ => false

namespace DocRegistryL2
variable {keccak256 : Bytes → Bytes32} {s s₀ s' : DocRegistryL2} {sender : Address} {op : Op}
  {events : List Event} {es : List (Registry.Entry .l2)}

/-- The tokens are the ids below the counter. -/
def Allocated (s : DocRegistryL2) : Prop := ∀ n, s._owners n ≠ .zero ↔ n < s.counter

/-- The next id is free. -/
theorem Allocated.free (ha : s.Allocated) : s._owners s.counter = .zero := by
  by_contra h0
  have hlt := (ha _).1 h0
  bv_omega

/-! ## What a call does to the counter -/

/-- Only a claim moves the counter, by one and short of its limit. -/
theorem body_counter (h : body keccak256 sender s op = .ok (s', events)) :
    s'.counter.toNat = s.counter.toNat + if op.isClaim then 1 else 0 := by
  rcases body_cases h with ⟨zoneName, rfl, -, -, -, hc, rfl, -⟩ |
    ⟨zone, key, revisionName, value, rfl, -, -, -, rfl, -⟩ | ⟨call, t, evs, rfl, -, rfl, -⟩
  · simp only [claimed, Op.isClaim, if_true]
    bv_omega
  · rfl
  · rfl

theorem body_allocated (h : body keccak256 sender s op = .ok (s', events)) (ha : s.Allocated) : s'.Allocated := by
  intro n
  rcases body_cases h with ⟨zoneName, rfl, -, h0, -, hc, rfl, -⟩ |
    ⟨zone, key, revisionName, value, rfl, -, -, -, rfl, -⟩ | ⟨call, t, evs, rfl, he, rfl, -⟩
  · simp only [claimed, ERC721.minted_owners]
    -- The one new token is the id the counter steps over.
    by_cases hn : n = s.counter
    · subst hn
      have hlt : s.counter < s.counter + 1 := by bv_omega
      rw [if_pos rfl]
      exact iff_of_true h0 hlt
    · rw [if_neg hn, ha n]
      constructor <;> intro hlt <;> bv_omega
  · exact ha n
  · rw [ne_eq, he.exists_iff n]
    exact ha n

/-! ## Runs -/

/-- Where only claims move the counter, it counts them. -/
theorem trace_counter {K : Calls.Contract Address Op DocRegistryL2 Event Reply Revert}
    (hK : ∀ {a op s s' evs}, K.body a op s = .ok (s', evs) →
      s'.counter.toNat = s.counter.toNat + if op.isClaim then 1 else 0)
    (h : Trace K s₀ es s) : s.counter.toNat = s₀.counter.toNat + es.countP (·.op.isClaim) := by
  induction h with
  | nil => rfl
  | @snoc es s a op s' evs _ hb ih =>
    rw [hK hb, ih, List.countP_append, List.countP_singleton, Nat.add_assoc]

theorem empty_allocated : empty.Allocated := by
  intro n
  simp [empty, ERC721.empty]

theorem reached_trace (steps : List Step) :
    Trace (contract keccak256) empty (Registry.reached keccak256 .l2 steps).journal
      (Registry.reached keccak256 .l2 steps).storage := Registry.reached_trace (L := .l2) steps

/-- The counter is the number of claims in effect. -/
theorem reached_counter (keccak256 : Bytes → Bytes32) (steps : List Step) :
    (show DocRegistryL2 from (Registry.reached keccak256 .l2 steps).storage).counter.toNat =
      (Registry.reached keccak256 .l2 steps).journal.countP (·.op.isClaim) :=
  (trace_counter body_counter (reached_trace steps)).trans (Nat.zero_add _)

/-! ## Names and ids -/

theorem zoneID_overflow {h : Bytes32} :
    s.zoneID h = .error overflow ↔ (Registry.zones (L := .l2) s).index h = none := by
  cases hx : (Registry.zones (L := .l2) s).index h with
  | none =>
    refine iff_of_true ?_ rfl
    cases hz : s.zoneID h with
    | ok id => rw [Registry.l2_zoneID_ok.1 hz] at hx; cases hx
    | error e =>
      unfold zoneID checkedSub at hz
      split at hz <;> cases hz
      rfl
  | some id => simp [Registry.l2_zoneID_ok.2 hx]

/-- An id below the counter is found under the hash of its name. -/
theorem zoneID_name (hi : (Registry.zones (L := .l2) s).Inv keccak256) (ha : s.Allocated) {n : Uint256}
    (hn : n < s.counter) : s.zoneID (keccak256 (s.name n)) = .ok n := by
  apply Registry.l2_zoneID_ok.2
  rw [hi.index_iff]
  exact ⟨(ha n).2 hn, rfl⟩

/-- The subtraction in `zoneID` fails exactly for the hashes nobody claimed. -/
theorem zoneID_unclaimed {s : DocRegistryL2} {es : List (Registry.Entry .l2)}
    (ht : Trace (Registry.contract keccak256 .l2) (Registry.contract keccak256 .l2).init es s) {h : Bytes32} :
    s.zoneID h = .error overflow ↔ ∀ e ∈ es, ∀ zoneName, e.op = .claimZone zoneName → keccak256 zoneName ≠ h := by
  rw [zoneID_overflow]
  constructor
  · intro hx e he zoneName hop hh
    obtain ⟨id, -, -, hx'⟩ := Registry.index_of_claim (L := .l2) ht he hop
    rw [hh] at hx'
    exact absurd (hx'.symm.trans hx) (by simp)
  · intro hno
    by_contra hx
    obtain ⟨id, hx⟩ := Option.ne_none_iff_exists'.1 hx
    obtain ⟨e, he, zoneName, hop, hh, -⟩ := Registry.claim_of_index (L := .l2) ht hx
    apply hno e he zoneName hop hh

/-- The ids below the counter and the names claimed are in bijection, in every state of a run. -/
theorem ids_names (keccak256 : Bytes → Bytes32) (steps : List Step) :
    let w := Registry.reached keccak256 .l2 steps
    let s : DocRegistryL2 := w.storage
    (∀ n, (∃ owner, s.ownerOf n = .ok owner) ↔ n < s.counter) ∧
    (∀ n, n < s.counter →
      s.zoneID (keccak256 (s.name n)) = .ok n ∧
      s.zoneOwner (keccak256 (s.name n)) = s.ownerOf n ∧
      s.nameByHash (keccak256 (s.name n)) = .ok (s.name n) ∧
      ∀ key revision,
        s.zoneAgreementByHash (keccak256 (s.name n)) key revision = .ok (s.zoneAgreement n key revision)) ∧
    (∀ h, s.zoneID h = .error overflow ∨ ∃ n, s.zoneID h = .ok n ∧ n < s.counter ∧ keccak256 (s.name n) = h) ∧
    (∀ h h' n, s.zoneID h = .ok n → s.zoneID h' = .ok n → h = h') ∧
    (∀ h, s.zoneID h = .error overflow ↔
      ∀ e ∈ w.journal, ∀ zoneName, e.op = .claimZone zoneName → keccak256 zoneName ≠ h) := by
  intro w s
  have hi : (Registry.zones (L := .l2) s).Inv keccak256 := Registry.reached_inv steps
  have ha : s.Allocated := (reached_trace steps).inv empty_allocated fun _ _ ha hb => body_allocated hb ha
  refine ⟨fun n => ?_, fun n hn => ?_, fun h => ?_, fun h h' n he he' => ?_, fun h => ?_⟩
  · rw [← ha n]
    constructor
    · rintro ⟨owner, ho⟩
      exact (ERC721.ownerOf_ok.1 ho).1
    · intro h0
      exact ⟨_, ERC721.ownerOf_ok.2 ⟨h0, rfl⟩⟩
  · have hn' := zoneID_name hi ha hn
    refine ⟨hn', ?_, ?_, fun key revision => ?_⟩
    · rw [zoneOwner, hn']; rfl
    · rw [nameByHash, hn']; rfl
    · rw [zoneAgreementByHash, hn']; rfl
  · cases hx : (Registry.zones (L := .l2) s).index h with
    | none => exact .inl (zoneID_overflow.2 hx)
    | some n =>
      obtain ⟨h0, hh⟩ := hi.index_iff.1 hx
      exact .inr ⟨n, Registry.l2_zoneID_ok.2 hx, (ha n).1 h0, hh⟩
  · exact hi.inj (Registry.l2_zoneID_ok.1 he) (Registry.l2_zoneID_ok.1 he')
  · exact zoneID_unclaimed (Registry.reached_trace (L := .l2) steps)

end DocRegistryL2

namespace Registry
variable {keccak256 : Bytes → Bytes32} {L : Layer} {s s' : Storage L}

/-! ## The next id -/

/-- The id a claim would get is free. -/
def Allocated : {L : Layer} → Storage L → Prop
  | .l1, _ => True
  | .l2, s => s.Allocated

/-- There is an id left for another claim. -/
def HasRoom : {L : Layer} → Storage L → Prop
  | .l1, _ => True
  | .l2, s => s.counter.toNat < 2 ^ 256 - 1

theorem body_allocated {sender : Address} {op : Op} {events : List Event}
    (h : (contract keccak256 L).body sender op s = .ok (s', events)) (ha : Allocated s) : Allocated s' := by
  cases L with
  | l1 => trivial
  | l2 => exact DocRegistryL2.body_allocated h ha

theorem init_allocated : Allocated (contract keccak256 L).init := by
  cases L with
  | l1 => trivial
  | l2 => exact DocRegistryL2.empty_allocated

theorem reached_allocated (steps : List Step) : Allocated (reached keccak256 L steps).storage :=
  (reached_trace steps).inv init_allocated fun _ _ ha hb => body_allocated hb ha

end Registry

end LawRegistry
