import LawRegistry.Lib.Simulation
import LawRegistry.Claims
import LawRegistry.View
/-!
# The L2 registry refines the L1 registry

Called by zone hash, both registries do what `View.step` does, so long as L2 has ids left: a call
that succeeds leads to the view the step leads to, and a call that fails fails there. So the two
run in lockstep, and every read by hash agrees.
-/

namespace LawRegistry

open Calls (Contract Trace run start accepts Related Agree)

namespace Registry
variable {keccak256 : Bytes → Bytes32} {L : Layer} {s s' : Storage L} {sender : Address} {op : Op}
  {events : List Event} {h : Bytes32} {id : Uint256}

/-! ## Calls by hash -/

/-- The call, with the zone it names by hash named by id. -/
def resolve {L : Layer} (s : Storage L) (op : Op) : Except Revert Op :=
  match op.zone with
  | none => .ok op
  | some h => do return op.withZone (← zoneID s h)

/-- The registry called by zone hash; a call whose hash has no id fails. -/
def byHash (keccak256 : Bytes → Bytes32) (L : Layer) : Contract Address Op (Storage L) Event Reply Revert where
  init := (contract keccak256 L).init
  body sender op s := do
    let op ← resolve s op
    (contract keccak256 L).body sender op s
  hook := Op.hook

/-- On L1 the hash is the id. -/
theorem byHash_l1 : byHash keccak256 .l1 = contract keccak256 .l1 := by
  have hr (s : Storage .l1) (op : Op) : resolve s op = .ok op := by
    unfold resolve
    cases hz : op.zone with
    | none => rfl
    | some h => exact congrArg Except.ok (Op.withZone_self hz)
  unfold byHash
  simp only [hr]
  rfl

/-- What a registry says by hash. -/
def view (s : Storage L) : View := (zones s).view

theorem zone_some {z : Zone} (hz : (view s).zone h = some z) :
    ∃ id, (zones s).index h = some id ∧ (zones s).read id = z :=
  Option.map_eq_some_iff.1 hz

/-! ## One call -/

/-- What holds in every state of a run. -/
structure Good (keccak256 : Bytes → Bytes32) (s : Storage L) : Prop where
  inv : (zones s).Inv keccak256
  allocated : Allocated s

theorem init_good : Good keccak256 (contract keccak256 L).init :=
  ⟨by rw [init_zones]; exact Zones.empty_inv, init_allocated⟩

theorem body_good (hb : (contract keccak256 L).body sender op s = .ok (s', events)) (hg : Good keccak256 s) :
    Good keccak256 s' := ⟨(body_effect hb).inv hg.inv, body_allocated hb hg.allocated⟩

/-- A call that succeeds leads to the view its step leads to. -/
theorem byHash_step (hg : Good keccak256 s) (hb : (byHash keccak256 L).body sender op s = .ok (s', events)) :
    Good keccak256 s' ∧ View.step keccak256 sender (view s) op = some (view s') := by
  obtain ⟨op', hr, hb⟩ := bind_ok.1 hb
  refine ⟨body_good hb hg, ?_⟩
  have he := body_effect hb
  unfold resolve at hr
  cases hz : op.zone with
  | none =>
    simp only [hz] at hr
    cases hr
    have hop : op = op.withZone 0 := (Op.withZone_none hz).symm
    rw [hop] at he
    exact he.step hg.inv (by simp [hz])
  | some h =>
    simp only [hz] at hr
    obtain ⟨id, hid, hr⟩ := bind_ok.1 hr
    cases hr
    refine he.step hg.inv ?_
    intro h' hz'
    rw [hz] at hz'
    cases hz'
    -- The call went through, so the id is that of a claimed zone.
    have h0 := he.zone_exists (Op.zone_withZone hz)
    have hnil : Trace (contract keccak256 L) s [] s := .nil
    exact trace_zoneID_index hnil hid (by simpa using h0)

theorem succeeds_of_effect {op : ERC721.Op} {tokens' : ERC721} {evs : List ERC721.Event}
    (he : ERC721.Effect sender (tokens s) op tokens' evs) : Succeeds keccak256 s sender (.erc721 op) := by
  cases L <;> exact ⟨_, bind_ok.2 ⟨_, ERC721.call_iff.2 he, rfl⟩⟩

/-- A step on a claimed zone is a call on its id. -/
theorem succeeds_of_step (hg : Good keccak256 s) (hroom : op.isClaim = true → HasRoom s) {w : View}
    (hs : View.step keccak256 sender (view s) op = some w) (hz : ∀ h, op.zone = some h → (zones s).index h = some id) :
    Succeeds keccak256 s sender (op.withZone id) := by
  have hread {h : Bytes32} {z : Zone} (hv : (view s).zone h = some z) (hx : (zones s).index h = some id) :
      (tokens s)._owners id ≠ .zero ∧ (zones s).read id = z := by
    obtain ⟨i, hi, hr⟩ := zone_some hv
    rw [hx] at hi
    cases hi
    exact ⟨by simpa using (hg.inv.owned id).2 ⟨h, hx⟩, hr⟩
  cases op with
  | claimZone zoneName =>
    obtain ⟨⟨h0, hnone⟩, -⟩ := View.claimZone_some.1 hs
    exact claim_succeeds h0 hg.allocated (hroom rfl) (Option.map_eq_none_iff.1 hnone)
  | updateAgreement h key revisionName value =>
    obtain ⟨z, hv, ⟨ho, hw⟩, -⟩ := View.onZone_some.1 hs
    obtain ⟨h0, rfl⟩ := hread hv (hz h rfl)
    exact updateAgreement_ok.2 ⟨h0, by simpa [Zones.read] using ho, by simpa [Zones.read, Writable] using hw⟩
  | erc721 op =>
    cases op with
    | setApprovalForAll operator b =>
      rw [View.step, View.setApprovalForAll, Option.ite_none_right_eq_some] at hs
      exact succeeds_of_effect (.setApprovalForAll hs.1)
    | approve to_ h =>
      obtain ⟨z, hv, ⟨hto, hs⟩, -⟩ := View.onZone_some.1 hs
      obtain ⟨h0, rfl⟩ := hread hv (hz h rfl)
      have hto' : to_ ≠ (tokens s)._owners id := by simpa [Zones.read] using hto
      apply succeeds_of_effect (.approve h0 hto' ?_)
      simpa [Zones.read, view, Zones.view] using hs
    | transferFrom from_ to_ h | safeTransferFrom from_ to_ h | safeTransferFromData from_ to_ h =>
      obtain ⟨z, hv, ⟨ho, ht, hm⟩, -⟩ := View.onZone_some.1 hs
      obtain ⟨h0, rfl⟩ := hread hv (hz h rfl)
      simp only [Zones.read, zones_tokens] at ho
      refine succeeds_of_effect (.move rfl ho (by rw [← ho]; exact h0) ht ?_)
      simpa [Zones.read, view, Zones.view, ERC721.Manages] using hm

/-- Where the step leads somewhere, the call succeeds. -/
theorem byHash_succeeds (hg : Good keccak256 s) (hroom : op.isClaim = true → HasRoom s) {w : View}
    (hs : View.step keccak256 sender (view s) op = some w) :
    ∃ r, (byHash keccak256 L).body sender op s = .ok r := by
  cases hz : op.zone with
  | none =>
    have hsucc : Succeeds keccak256 s sender (op.withZone 0) := succeeds_of_step hg hroom hs (by simp [hz])
    rw [Op.withZone_none hz] at hsucc
    obtain ⟨r, hr⟩ := hsucc
    exact ⟨r, bind_ok.2 ⟨op, by simp [resolve, hz], hr⟩⟩
  | some h =>
    obtain ⟨z, hv⟩ := View.step_zone hs hz
    obtain ⟨id, hx, -⟩ := zone_some hv
    obtain ⟨r, hr⟩ := succeeds_of_step hg hroom hs (fun h' hz' => by rw [hz] at hz'; cases hz'; exact hx)
    refine ⟨r, bind_ok.2 ⟨op.withZone id, ?_, hr⟩⟩
    simp only [resolve, hz]
    exact bind_ok.2 ⟨id, zoneID_ok hx, rfl⟩

/-! ## Runs in lockstep -/

/-- Both registries say the same by hash. -/
def SameView (keccak256 : Bytes → Bytes32) {L M : Layer} (s : Storage L) (s' : Storage M) : Prop :=
  Good keccak256 s ∧ Good keccak256 s' ∧ view s = view s'

theorem body_agree {M : Layer} {t : Storage M} (hr : SameView keccak256 s t) (hs : HasRoom s) (ht : HasRoom t) :
    Agree (SameView keccak256) ((byHash keccak256 L).body sender op s) ((byHash keccak256 M).body sender op t) := by
  obtain ⟨hgs, hgt, hv⟩ := hr
  cases hb : (byHash keccak256 L).body sender op s with
  | ok r =>
    obtain ⟨hgs', hstep⟩ := byHash_step hgs hb
    rw [hv] at hstep
    obtain ⟨r', hb'⟩ := byHash_succeeds hgt (fun _ => ht) hstep
    obtain ⟨hgt', hstep'⟩ := byHash_step hgt hb'
    rw [hb']
    exact .ok ⟨hgs', hgt', Option.some.inj (hstep.symm.trans hstep')⟩
  | error e =>
    cases hb' : (byHash keccak256 M).body sender op t with
    | ok r' =>
      obtain ⟨-, hstep⟩ := byHash_step hgt hb'
      rw [← hv] at hstep
      obtain ⟨r, hr⟩ := byHash_succeeds hgs (fun _ => hs) hstep
      rw [hb] at hr
      cases hr
    | error e' => exact .error

theorem resolve_isClaim {op' : Op} (h : resolve s op = .ok op') : op'.isClaim = op.isClaim := by
  unfold resolve at h
  split at h
  · cases h
    rfl
  · obtain ⟨id, -, h⟩ := bind_ok.1 h
    cases h
    cases op <;> rfl

/-- Only claims take ids, also by hash. -/
theorem byHash_counter {s s' : DocRegistryL2} (hb : (byHash keccak256 .l2).body sender op s = .ok (s', events)) :
    s'.counter.toNat = s.counter.toNat + if op.isClaim then 1 else 0 := by
  obtain ⟨op', hr, hb⟩ := bind_ok.1 hb
  rw [← resolve_isClaim (L := .l2) hr]
  apply DocRegistryL2.body_counter hb

/-- Fewer zones are claimed before each step than there are ids. -/
def IdsLeft (keccak256 : Bytes → Bytes32) (steps : List Step) : Prop :=
  ∀ pre st post, steps = pre ++ st :: post →
    (run (byHash keccak256 .l2) (start (byHash keccak256 .l2).init) pre).world.journal.countP (·.op.isClaim) <
      2 ^ 256 - 1

theorem idsLeft_of_length {steps : List Step} (h : steps.length < 2 ^ 256) : IdsLeft keccak256 steps := by
  rintro pre st post rfl
  refine Nat.lt_of_le_of_lt (Nat.le_trans List.countP_le_length (Calls.journal_length _ pre)) ?_
  rw [List.length_append, List.length_cons] at h
  omega

theorem hasRoom_of_idsLeft {steps pre post : List Step} {st : Step} (h : IdsLeft keccak256 steps)
    (he : steps = pre ++ st :: post) :
    HasRoom (run (byHash keccak256 .l2) (start (byHash keccak256 .l2).init) pre).world.storage := by
  have ht := Calls.run_trace (K := byHash keccak256 .l2) (byHash keccak256 .l2).init pre
  have hcount := DocRegistryL2.trace_counter byHash_counter ht
  exact Nat.lt_of_le_of_lt (Nat.le_of_eq (hcount.trans (Nat.zero_add _))) (h pre st post he)

/-- The same steps leave both registries with the same view, and both accept the same steps. -/
theorem lockstep {steps : List Step} (h : IdsLeft keccak256 steps) :
    Related (SameView keccak256) (run (byHash keccak256 .l1) (start (byHash keccak256 .l1).init) steps)
      (run (byHash keccak256 .l2) (start (byHash keccak256 .l2).init) steps) ∧
    ∀ pre st post, steps = pre ++ st :: post →
      accepts (byHash keccak256 .l1) (run (byHash keccak256 .l1) (start (byHash keccak256 .l1).init) pre) st =
        accepts (byHash keccak256 .l2) (run (byHash keccak256 .l2) (start (byHash keccak256 .l2).init) pre) st := by
  have h0 : SameView keccak256 (byHash keccak256 .l1).init (byHash keccak256 .l2).init := by
    refine ⟨init_good, init_good, ?_⟩
    simp only [view, byHash, init_zones]
  have hbody : ∀ a op (s : Storage .l1) (t : Storage .l2), SameView keccak256 s t → HasRoom t →
      Agree (SameView keccak256) ((byHash keccak256 .l1).body a op s) ((byHash keccak256 .l2).body a op t) :=
    fun a op s t hr ht => body_agree hr trivial ht
  have hG : ∀ pre st post, steps = pre ++ st :: post →
      HasRoom (run (byHash keccak256 .l2) (start (byHash keccak256 .l2).init) pre).world.storage :=
    fun pre st post he => hasRoom_of_idsLeft h he
  have hhook : (byHash keccak256 .l1).hook = (byHash keccak256 .l2).hook := rfl
  exact ⟨Calls.run_related hhook h0 hbody hG, fun pre st post he => Calls.accepts_related hhook h0 hbody hG he⟩

/-! ## Reads -/

/-- A claimed zone reads the same on both. -/
theorem reads_claimed {s : DocRegistry} {t : DocRegistryL2} (hr : SameView keccak256 (L := .l1) (M := .l2) s t)
    (hid : t.zoneID h = .ok id) :
    (∃ owner, s.zoneOwner h = .ok owner ∧ t.zoneOwner h = .ok owner) ∧ s.getApproved h = t.getApproved id ∧
      t.nameByHash h = .ok (s.name h) ∧
      ∀ key revision, t.zoneAgreementByHash h key revision = .ok (s.zoneAgreement h key revision) := by
  obtain ⟨-, hgt, hv⟩ := hr
  have hx : (zones (L := .l2) t).index h = some id := l2_zoneID_ok.1 hid
  have hz : (view (L := .l1) s).zone h = some ((zones (L := .l2) t).read id) := by
    rw [hv]
    exact Zones.view_zone hx
  obtain ⟨i, hi, hread⟩ := zone_some hz
  obtain ⟨h0, rfl⟩ := idOfOwner_some.1 hi
  simp only [Zones.read, zones, Zone.mk.injEq] at hread
  obtain ⟨ho, ha, hn, hag⟩ := hread
  have h0' : t._owners id ≠ .zero := by rw [← ho]; exact h0
  refine ⟨⟨s._owners h, ERC721.ownerOf_ok.2 ⟨h0, rfl⟩, zoneOwner_ok (L := .l2).2 ⟨id, hx, ?_⟩⟩, ?_, ?_, ?_⟩
  · exact ERC721.ownerOf_ok.2 ⟨h0', ho.symm⟩
  · rw [ERC721.getApproved_ok.2 ⟨h0, ha⟩, ERC721.getApproved_ok.2 ⟨h0', rfl⟩]
  · rw [DocRegistry.name, hn]
    exact name_ok (L := .l2) hx
  · intro key revision
    rw [DocRegistry.zoneAgreement, hag]
    exact zoneAgreement_ok (L := .l2) hx

/-- A hash nobody claimed reads empty on L1, and fails on L2. -/
theorem reads_unclaimed {s : DocRegistry} {t : DocRegistryL2} (hr : SameView keccak256 (L := .l1) (M := .l2) s t)
    {e : Revert} (hid : t.zoneID h = .error e) :
    (∀ owner, s.zoneOwner h ≠ .ok owner ∧ t.zoneOwner h ≠ .ok owner) ∧ s.name h = [] ∧ t.nameByHash h = .error e ∧
      ∀ key revision, s.zoneAgreement h key revision = [] ∧ t.zoneAgreementByHash h key revision = .error e := by
  obtain ⟨hgs, -, hv⟩ := hr
  have hx : (zones (L := .l2) t).index h = none := by
    by_contra hx
    obtain ⟨id, hx⟩ := Option.ne_none_iff_exists'.1 hx
    rw [l2_zoneID_ok.2 hx] at hid
    cases hid
  have hs : (zones (L := .l1) s).index h = none := by
    have hz : (view (L := .l1) s).zone h = none := by
      rw [hv]
      simp [view, Zones.view, hx]
    exact Option.map_eq_none_iff.1 hz
  have h0 : s._owners h = .zero := idOfOwner_none.1 hs
  refine ⟨fun owner => ⟨fun ho => (ERC721.ownerOf_ok.1 ho).1 h0, fun ho => ?_⟩, hgs.inv.unnamed h h0, ?_, ?_⟩
  · obtain ⟨id, hx', -⟩ := zoneOwner_ok (L := .l2).1 ho
    rw [hx] at hx'
    cases hx'
  · rw [DocRegistryL2.nameByHash, hid]; rfl
  · intro key revision
    refine ⟨hgs.inv.blank h key revision h0, ?_⟩
    rw [DocRegistryL2.zoneAgreementByHash, hid]; rfl

/-- The L2 registry, called by hash, does what the L1 registry does, while it has ids left. -/
theorem l2_refines_l1 (keccak256 : Bytes → Bytes32) (steps : List Step) (hids : IdsLeft keccak256 steps) :
    let m₁ steps := run (DocRegistry.contract keccak256) (start .empty) steps
    let m₂ steps := run (byHash keccak256 .l2) (start (byHash keccak256 .l2).init) steps
    let s₁ : DocRegistry := (m₁ steps).world.storage
    let s₂ : DocRegistryL2 := (m₂ steps).world.storage
    (∀ pre st post, steps = pre ++ st :: post →
      accepts (DocRegistry.contract keccak256) (m₁ pre) st = accepts (byHash keccak256 .l2) (m₂ pre) st) ∧
    (∀ account, s₁.balanceOf account = s₂.balanceOf account) ∧
    (∀ owner operator, s₁.isApprovedForAll owner operator = s₂.isApprovedForAll owner operator) ∧
    (∀ h id, s₂.zoneID h = .ok id →
      (∃ owner, s₁.zoneOwner h = .ok owner ∧ s₂.zoneOwner h = .ok owner) ∧ s₁.getApproved h = s₂.getApproved id ∧
      s₂.nameByHash h = .ok (s₁.name h) ∧
      ∀ key revision, s₂.zoneAgreementByHash h key revision = .ok (s₁.zoneAgreement h key revision)) ∧
    (∀ h e, s₂.zoneID h = .error e →
      (∀ owner, s₁.zoneOwner h ≠ .ok owner ∧ s₂.zoneOwner h ≠ .ok owner) ∧
      s₁.name h = [] ∧ s₂.nameByHash h = .error e ∧
      ∀ key revision, s₁.zoneAgreement h key revision = [] ∧ s₂.zoneAgreementByHash h key revision = .error e) := by
  intro m₁ m₂ s₁ s₂
  obtain ⟨⟨hr, -⟩, hacc⟩ := lockstep hids
  rw [byHash_l1] at hr hacc
  have hv : view (L := .l1) s₁ = view (L := .l2) s₂ := hr.2.2
  refine ⟨hacc, fun account => ?_, fun owner operator => ?_, fun h id hid => reads_claimed hr hid,
    fun h e hid => reads_unclaimed hr hid⟩
  · have hb : s₁._balances = s₂._balances := congrArg View.balances hv
    exact ERC721.balanceOf_congr hb
  · exact congrFun (congrFun (congrArg View.operators hv) owner) operator

/-- A claim and a transfer, and a claim of the same name that both refuse. -/
theorem l2_refines_l1_sample :
    let steps : List Step :=
      [.call 1 (.claimZone zoneSample) false, .call 1 (.erc721 (.transferFrom 1 2 (keccakSample zoneSample))) false,
       .call 3 (.claimZone zoneSample) false]
    ∃ owner,
      DocRegistry.zoneOwner (run (DocRegistry.contract keccakSample) (start .empty) steps).world.storage
        (keccakSample zoneSample) = .ok owner ∧
      DocRegistryL2.zoneOwner
        (run (byHash keccakSample .l2) (start (byHash keccakSample .l2).init) steps).world.storage
        (keccakSample zoneSample) = .ok owner :=
  ((l2_refines_l1 keccakSample _ (idsLeft_of_length (by decide))).2.2.2.1 _ 0 rfl).1

end Registry

end LawRegistry
