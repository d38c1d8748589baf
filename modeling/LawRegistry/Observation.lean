import Mathlib.Logic.Equiv.Fintype
import LawRegistry.AccountingL1
import LawRegistry.Commutation
/-!
# The reads tell everything

What a registry answers by hash, with the balances and the operators, determines its storage; on L2
up to the ids, which only say in what order the zones were claimed. So whoever compares two registries
by their reads can tell how each call by hash will come out, and what it will lead to, for good.
-/

namespace LawRegistry

open Calls (run start accepts Related)

/-! ## Other ids -/

/-- Two registries that know the same hashes differ in their ids by a renaming. -/
theorem Zones.exists_renaming {keccak256 : Bytes → Bytes32} {v v' : Zones} (hi : v.Inv keccak256)
    (hi' : v'.Inv keccak256) (hsome : ∀ h, (v.index h).isSome = (v'.index h).isSome) :
    ∃ π : Equiv.Perm Uint256, ∀ h, v'.index h = (v.index h).map π := by
  let idOf (h : {h // (v.index h).isSome = true}) : Uint256 := (v.index h).get h.2
  let idOf' (h : {h // (v.index h).isSome = true}) : Uint256 := (v'.index h).get (hsome h ▸ h.2)
  have hid (h : {h // (v.index h).isSome = true}) : v.index h = some (idOf h) := (Option.some_get _).symm
  have hid' (h : {h // (v.index h).isSome = true}) : v'.index h = some (idOf' h) := (Option.some_get _).symm
  have hinj : Function.Injective idOf := by
    intro h₁ h₂ he
    have h₂' := hid h₂
    rw [← he] at h₂'
    exact Subtype.ext (hi.inj (hid h₁) h₂')
  have hinj' : Function.Injective idOf' := by
    intro h₁ h₂ he
    have h₂' := hid' h₂
    rw [← he] at h₂'
    exact Subtype.ext (hi'.inj (hid' h₁) h₂')
  obtain ⟨π, hπ⟩ := Equiv.Perm.exists_extending_pair idOf idOf' hinj hinj'
  refine ⟨π, fun h => ?_⟩
  cases hx : v.index h with
  | none =>
    have hnone : v'.index h = none := by
      rw [← Option.not_isSome_iff_eq_none, ← hsome h, hx]
      exact Bool.false_ne_true
    rw [hnone, Option.map_none]
  | some id =>
    let hash : {h // (v.index h).isSome = true} := ⟨h, by rw [hx]; rfl⟩
    have hself : id = idOf hash := Option.some.inj (hx.symm.trans (hid hash))
    calc v'.index h
      _ = some (idOf' hash) := hid' hash
      _ = some (π id) := by rw [hself, hπ]

namespace Registry
variable {keccak256 : Bytes → Bytes32} {L : Layer} {s t : Storage L} {h : Bytes32}

theorem isSome_of_view (hv : view s = view t) (h : Bytes32) :
    ((zones s).index h).isSome = ((zones t).index h).isSome := by
  rcases index_of_view hv h with ⟨hx, hx'⟩ | ⟨_, _, hx, hx', -⟩
  · rw [hx, hx']
  · rw [hx, hx']
    rfl

/-- The same storage, on L2 under other ids. -/
def Renamed : {L : Layer} → Storage L → Storage L → Prop
  | .l1, s, t => t = s
  | .l2, s, t => ∃ π : Equiv.Perm Uint256, t = DocRegistryL2.renamed π s

theorem exists_renaming (hr : SameView keccak256 s t) :
    ∃ π : Equiv.Perm Uint256, ∀ h, (zones t).index h = ((zones s).index h).map π :=
  Zones.exists_renaming hr.1.inv hr.2.1.inv (isSome_of_view hr.2.2)

/-- As many zones are claimed. -/
theorem counter_of_view {s t : DocRegistryL2} (hr : SameView keccak256 (L := .l2) (M := .l2) s t) :
    t.counter = s.counter := by
  obtain ⟨π, hπ⟩ := exists_renaming (L := .l2) hr
  obtain ⟨hgs, hgt, -⟩ := hr
  have hids : DocRegistryL2.idsBelow t.counter = (DocRegistryL2.idsBelow s.counter).map π.toEmbedding := by
    ext id
    have hs : id < t.counter ↔ _ := (hgt.allocated id).symm.trans (hgt.inv.owned id)
    have ht : π.symm id < s.counter ↔ _ := (hgs.allocated (π.symm id)).symm.trans (hgs.inv.owned (π.symm id))
    rw [Finset.mem_map_equiv, DocRegistryL2.mem_idsBelow, DocRegistryL2.mem_idsBelow, hs, ht]
    apply exists_congr
    intro h
    rw [hπ h, Option.map_eq_some_iff]
    constructor
    · rintro ⟨i, hi, rfl⟩
      rw [Equiv.symm_apply_apply]
      exact hi
    · intro hi
      exact ⟨_, hi, Equiv.apply_symm_apply π id⟩
  apply BitVec.eq_of_toNat_eq
  rw [← DocRegistryL2.card_idsBelow, ← DocRegistryL2.card_idsBelow, hids, Finset.card_map]

theorem hasRoom_of_view (hr : SameView keccak256 s t) (h : HasRoom s) : HasRoom t := by
  cases L with
  | l1 => trivial
  | l2 =>
    have hc := congrArg BitVec.toNat (counter_of_view hr)
    exact Nat.lt_of_le_of_lt (Nat.le_of_eq hc) h

/-- The view is the storage, up to the ids. -/
theorem renamed_of_view (hr : SameView keccak256 s t) : Renamed s t := by
  cases L with
  | l1 => exact (l1_eq hr.1 hr.2.1 hr.2.2).symm
  | l2 =>
    obtain ⟨π, hπ⟩ := exists_renaming hr
    exact ⟨π, l2_eq_renamed hr.1 hr.2.1 hr.2.2 (counter_of_view hr) hπ⟩

/-! ## The view from the reads -/

theorem reads_of_view (hr : SameView keccak256 s t) : SameReads s t := by
  cases L with
  | l1 =>
    have he : s = t := l1_eq hr.1 hr.2.1 hr.2.2
    rw [he]
    exact SameReads.refl (L := .l1) t
  | l2 => exact sameReads_of_view hr.2.2

/-- What is read of a claimed zone. -/
theorem reads_zone (hg : Good keccak256 s) {id : Uint256} (hx : (zones s).index h = some id) :
    zoneOwner s h = .ok ((zones s).read id).owner ∧
      zoneID s h >>= (tokens s).getApproved = .ok ((zones s).read id).approved ∧
      name s h = .ok ((zones s).read id).name ∧
      ∀ key revision, zoneAgreement s h key revision = .ok (((zones s).read id).agreements key revision) := by
  have h0 : (tokens s)._owners id ≠ .zero := by
    rw [← zones_tokens]
    exact (hg.inv.owned id).2 ⟨h, hx⟩
  simp only [Zones.read, zones_tokens, zones_names, zones_agreements]
  refine ⟨zoneOwner_ok.2 ⟨id, hx, ERC721.ownerOf_ok.2 ⟨h0, rfl⟩⟩, ?_, name_ok hx, fun _ _ => zoneAgreement_ok hx⟩
  exact bind_ok.2 ⟨id, zoneID_ok hx, ERC721.getApproved_ok.2 ⟨h0, rfl⟩⟩

theorem eq_of_fields {z z' : Zone} (ho : z.owner = z'.owner) (ha : z.approved = z'.approved) (hn : z.name = z'.name)
    (hag : z.agreements = z'.agreements) : z = z' := by
  cases z
  cases z'
  cases ho
  cases ha
  cases hn
  cases hag
  rfl

/-- What is seen of a hash is what is read by it. -/
theorem zone_of_reads (hs : Good keccak256 s) (ht : Good keccak256 t) (hr : SameReads s t) :
    (view s).zone h = (view t).zone h := by
  cases hx : (zones s).index h with
  | none =>
    cases hx' : (zones t).index h with
    | none => simp only [view, Zones.view, hx, hx', Option.map_none]
    | some id' =>
      obtain ⟨howner, -⟩ := reads_zone ht hx'
      rw [← hr.zoneOwner] at howner
      obtain ⟨id, hid, -⟩ := zoneOwner_ok.1 howner
      rw [hx] at hid
      cases hid
  | some id =>
    obtain ⟨howner, happroved, hname, hagreement⟩ := reads_zone hs hx
    rw [hr.zoneOwner] at howner
    obtain ⟨id', hx', -⟩ := zoneOwner_ok.1 howner
    obtain ⟨howner', happroved', hname', hagreement'⟩ := reads_zone ht hx'
    rw [view, view, Zones.view_zone hx, Zones.view_zone hx']
    apply congrArg some
    apply eq_of_fields
    · exact Except.ok.inj (howner.symm.trans howner')
    · rw [hr.approved, happroved'] at happroved
      exact Except.ok.inj happroved.symm
    · rw [hr.name, hname'] at hname
      exact Except.ok.inj hname.symm
    · funext key revision
      have hag := hagreement key revision
      rw [hr.zoneAgreement, hagreement'] at hag
      exact Except.ok.inj hag.symm

/-- Nobody gives a token to the zero address. -/
theorem zero_balance (steps : List Step) : (tokens (reached keccak256 L steps).storage)._balances .zero = 0 := by
  cases L with
  | l1 =>
    let s : DocRegistry := (reached keccak256 .l1 steps).storage
    have hn : s.Counted := DocRegistry.reached_counted steps
    have hnone : Holdings.held s._owners s.claimedTokens .zero = 0 :=
      Holdings.held_eq_zero fun id hid => ERC721.mem_claimedTokens.1 hid
    have hb : s._balances .zero = _ := hn .zero
    rw [hnone] at hb
    exact hb
  | l2 =>
    let s : DocRegistryL2 := (reached keccak256 .l2 steps).storage
    have ha : s.Allocated := reached_allocated (L := .l2) steps
    have hn : s.Counted := DocRegistryL2.reached_counted steps
    have hnone : Holdings.held s._owners (DocRegistryL2.idsBelow s.counter) .zero = 0 :=
      Holdings.held_eq_zero fun id hid => (ha id).2 (DocRegistryL2.mem_idsBelow.1 hid)
    have hb : (s._balances .zero).toNat = _ := hn .zero
    rw [hnone] at hb
    exact BitVec.eq_of_toNat_eq hb

/-- What two registries say is the same if their reads are, whatever calls they got. -/
theorem view_of_reads {steps steps' : List Step}
    (hr : SameReads (reached keccak256 L steps).storage (reached keccak256 L steps').storage) :
    SameView keccak256 (reached keccak256 L steps).storage (reached keccak256 L steps').storage := by
  generalize hs : (reached keccak256 L steps).storage = s at hr
  generalize ht : (reached keccak256 L steps').storage = t at hr
  have hgs : Good keccak256 s := hs ▸ ⟨reached_inv steps, reached_allocated steps⟩
  have hgt : Good keccak256 t := ht ▸ ⟨reached_inv steps', reached_allocated steps'⟩
  have hzone : (view s).zone = (view t).zone := funext fun h => zone_of_reads hgs hgt hr
  have hoperators : (view s).operators = (view t).operators := by
    simp only [view, Zones.view, zones_tokens]
    funext owner operator
    exact hr.isApprovedForAll owner operator
  have hbalances : (view s).balances = (view t).balances := by
    simp only [view, Zones.view, zones_tokens]
    funext a
    by_cases h0 : a = .zero
    · rw [h0, ← hs, ← ht, zero_balance, zero_balance]
    · have hb := hr.balanceOf a
      rw [ERC721.balanceOf_ok.2 ⟨h0, rfl⟩] at hb
      exact (ERC721.balanceOf_ok.1 hb.symm).2.symm
  refine ⟨hgs, hgt, ?_⟩
  calc view s
    _ = ⟨(view s).balances, (view s).operators, (view s).zone⟩ := rfl
    _ = view t := by rw [hbalances, hoperators, hzone]

/-! ## What comes later -/

/-- There are ids left before each step by hash. -/
def RoomFor (keccak256 : Bytes → Bytes32) {L : Layer} (s : Storage L) (later : List Step) : Prop :=
  ∀ pre st post, later = pre ++ st :: post → HasRoom (run (byHash keccak256 L) (start s) pre).world.storage

theorem roomFor_of_counter {s : DocRegistryL2} {later : List Step} (h : s.counter.toNat + later.length < 2 ^ 256) :
    RoomFor keccak256 (L := .l2) s later := by
  rintro pre st post rfl
  have ht := Calls.run_trace (K := byHash keccak256 .l2) s pre
  have hcount := DocRegistryL2.trace_counter byHash_counter ht
  refine Nat.lt_of_le_of_lt (Nat.le_of_eq hcount) ?_
  have hlength (p : Calls.Entry Address Op (Storage .l2) Event → Bool) :
      (run (byHash keccak256 .l2) (start s) pre).world.journal.countP p ≤ pre.length :=
    Nat.le_trans List.countP_le_length (Calls.journal_length _ pre)
  refine Nat.lt_of_le_of_lt (Nat.add_le_add_left (hlength _) _) ?_
  rw [List.length_append, List.length_cons] at h
  omega

/-- Two registries that say the same go on saying the same, and accept the same calls. -/
theorem later_same {later : List Step} (hr : SameView keccak256 s t) (hroom : RoomFor keccak256 t later) :
    (∀ pre st post, later = pre ++ st :: post →
      accepts (byHash keccak256 L) (run (byHash keccak256 L) (start s) pre) st =
        accepts (byHash keccak256 L) (run (byHash keccak256 L) (start t) pre) st) ∧
    SameView keccak256 (run (byHash keccak256 L) (start s) later).world.storage
      (run (byHash keccak256 L) (start t) later).world.storage := by
  have hbody : ∀ a op (s t : Storage L), SameView keccak256 s t → HasRoom t →
      Calls.Agree (SameView keccak256) ((byHash keccak256 L).body a op s) ((byHash keccak256 L).body a op t) := by
    intro a op s t hr ht
    have hr' : SameView keccak256 t s := ⟨hr.2.1, hr.1, hr.2.2.symm⟩
    exact body_agree hr (hasRoom_of_view hr' ht) ht
  constructor
  · intro pre st post he
    exact Calls.accepts_related rfl hr hbody hroom he
  · exact (Calls.run_related rfl hr hbody hroom).world

/-- Two registries that answer all reads alike, after whatever runs, hold the same, up to the ids on L2. Every
further run by hash does the same to both, step by step, so long as there are ids left. -/
theorem reads_determine (keccak256 : Bytes → Bytes32) (L : Layer) (steps steps' : List Step)
    (hreads : SameReads (reached keccak256 L steps).storage (reached keccak256 L steps').storage) :
    let s := (reached keccak256 L steps).storage
    let t := (reached keccak256 L steps').storage
    let after (s : Storage L) (later : List Step) := run (byHash keccak256 L) (start s) later
    Renamed s t ∧ ∀ later, RoomFor keccak256 t later →
      (∀ pre st post, later = pre ++ st :: post →
        accepts (byHash keccak256 L) (after s pre) st = accepts (byHash keccak256 L) (after t pre) st) ∧
      SameReads (after s later).world.storage (after t later).world.storage := by
  intro s t after
  have hv : SameView keccak256 s t := view_of_reads hreads
  refine ⟨renamed_of_view hv, fun later hroom => ?_⟩
  obtain ⟨hacc, hend⟩ := later_same hv hroom
  exact ⟨hacc, reads_of_view hend⟩

/-- Two zones claimed in either order, then one of them handed over. -/
theorem reads_determine_sample :
    let claims : List Step := [.call 1 (.claimZone zoneSample) false, .call 2 (.claimZone keySample) false]
    let sell : Step := .call 1 (.erc721 (.transferFrom 1 3 (keccakSample zoneSample))) false
    let after (steps : List Step) :=
      run (byHash keccakSample .l2) (start (reached keccakSample .l2 steps).storage) [sell]
    SameReads (L := .l2) (after claims).world.storage (after claims.reverse).world.storage := by
  intro claims sell after
  have hgood : Good keccakSample (deployed keccakSample .l2).world.storage := init_good
  have hroom : HasRoomForTwo (deployed keccakSample .l2).world.storage := Nat.zero_le _
  have hzone : Op.target keccakSample (.claimZone zoneSample) = some (keccakSample zoneSample) := rfl
  have hkey : Op.target keccakSample (.claimZone keySample) = some (keccakSample keySample) := rfl
  have hv := (swap_view 1 2 false false hgood hroom hzone hkey (by decide)).2.2.2
  have hreads : SameReads (L := .l2) (reached keccakSample .l2 claims).storage
      (reached keccakSample .l2 claims.reverse).storage := sameReads_of_view hv
  have hroom : RoomFor keccakSample (L := .l2) (reached keccakSample .l2 claims.reverse).storage [sell] :=
    roomFor_of_counter (by decide)
  exact ((reads_determine keccakSample .l2 claims claims.reverse hreads).2 [sell] hroom).2

end Registry

end LawRegistry
