import LawRegistry.Lib.Slices
import LawRegistry.Observation
/-!
# Every zone by itself

A block of calls that each name a zone by hash. What a call on one zone does, and whether it is
accepted, only depends on the calls on that zone before it. So a block may be put in any order that
keeps the calls on each zone in theirs.
-/

namespace LawRegistry

open Calls (run start exec accepts)
open Cells (SameSlices slice outcomes)

/-- A call on the zone under `hash`. -/
structure ZoneCall (keccak256 : Bytes → Bytes32) where
  sender : Address
  op : Op
  hash : Bytes32
  target : op.target keccak256 = some hash

variable {keccak256 : Bytes → Bytes32}

namespace ZoneCall

/-- None of these calls hands over to the code of another account. -/
def step (c : ZoneCall keccak256) : Step := .call c.sender c.op false

/-- What the call does to its zone. -/
def act (operators : Address → Address → Bool) (c : ZoneCall keccak256) :
    Cells.Act (Option Zone) (Address → Uint256) := c.op.act keccak256 c.sender operators c.hash

end ZoneCall

namespace Registry
variable {L : Layer} {s t : Storage L} {h : Bytes32}

/-! ## What is read of one zone -/

structure SameZoneReads (s t : Storage L) (h : Bytes32) : Prop where
  zoneOwner : zoneOwner s h = zoneOwner t h
  name : name s h = name t h
  approved : zoneID s h >>= (tokens s).getApproved = zoneID t h >>= (tokens t).getApproved
  zoneAgreement : ∀ key revision, zoneAgreement s h key revision = zoneAgreement t h key revision

/-- On L1 the zone is stored under its hash, claimed or not. -/
theorem l1_read {s : DocRegistry} (hg : Good keccak256 (L := .l1) s) (h : Bytes32) :
    (zones (L := .l1) s).read h =
      ((view (L := .l1) s).zone h).getD ⟨.zero, .zero, [], fun _ _ => []⟩ := by
  cases hx : (zones (L := .l1) s).index h with
  | none =>
    have hfree := hg.inv.read_free (idOfOwner_none.1 hx)
    simp only [view, Zones.view, hx, Option.map_none, Option.getD_none, hfree]
  | some id =>
    obtain ⟨-, rfl⟩ := idOfOwner_some.1 hx
    rw [view, Zones.view_zone hx, Option.getD_some]

/-- On L2 every read by hash looks up the id first. -/
theorem l2_read_of_zone {s t : DocRegistryL2} (hz : (view (L := .l2) s).zone h = (view (L := .l2) t).zone h)
    {α : Type} {f g : Uint256 → Except Revert α}
    (hf : ∀ id id', (zones (L := .l2) s).read id = (zones (L := .l2) t).read id' → f id = g id') :
    s.zoneID h >>= f = t.zoneID h >>= g := by
  cases hx : (zones (L := .l2) s).index h with
  | none =>
    have hx' : (zones (L := .l2) t).index h = none := by
      simp only [view, Zones.view, hx, Option.map_none] at hz
      exact Option.map_eq_none_iff.1 hz.symm
    rw [DocRegistryL2.zoneID_overflow.2 hx, DocRegistryL2.zoneID_overflow.2 hx']
    rfl
  | some id =>
    obtain ⟨id', hx', hread⟩ := zone_some (hz.symm.trans (Zones.view_zone hx))
    rw [l2_zoneID_ok.2 hx, l2_zoneID_ok.2 hx']
    exact hf id id' hread.symm

/-- The reads by hash are those of the zone in view. -/
theorem sameZoneReads (hs : Good keccak256 s) (ht : Good keccak256 t) (hz : (view s).zone h = (view t).zone h) :
    SameZoneReads s t h := by
  cases L with
  | l1 =>
    have hread : (zones (L := .l1) s).read h = (zones (L := .l1) t).read h := by
      rw [l1_read hs, l1_read ht, hz]
    simp only [Zones.read, Zone.mk.injEq, zones_tokens, zones_names, zones_agreements] at hread
    obtain ⟨ho, ha, hn, hag⟩ := hread
    constructor
    · exact ERC721.ownerOf_congr ho
    · exact congrArg Except.ok hn
    · exact ERC721.getApproved_congr ho ha
    · intro key revision
      exact congrArg Except.ok (congrFun (congrFun hag key) revision)
  | l2 =>
    constructor
    · apply l2_read_of_zone hz
      intro id id' hread
      exact ERC721.ownerOf_congr (congrArg Zone.owner hread)
    · apply l2_read_of_zone hz
      intro id id' hread
      exact congrArg Except.ok (congrArg Zone.name hread)
    · apply l2_read_of_zone hz
      intro id id' hread
      exact ERC721.getApproved_congr (congrArg Zone.owner hread) (congrArg Zone.approved hread)
    · intro key revision
      apply l2_read_of_zone hz
      intro id id' hread
      exact congrArg Except.ok (congrFun (congrFun (congrArg Zone.agreements hread) key) revision)

/-! ## A block of calls -/

/-- There are ids left for `n` claims. -/
def HasRoomFor (n : Nat) : {L : Layer} → Storage L → Prop
  | .l1, _ => True
  | .l2, s => s.counter.toNat + n < 2 ^ 256

variable {m : Machine L} {c : ZoneCall keccak256} {cs xs ys : List (ZoneCall keccak256)} {n : Nat}

theorem HasRoomFor.hasRoom (hroom : HasRoomFor (n + 1) s) : HasRoom s := by
  cases L with
  | l1 => trivial
  | l2 =>
    unfold HasRoomFor at hroom
    unfold HasRoom
    omega

theorem HasRoomFor.mono (hroom : HasRoomFor n s) {k : Nat} (hle : k ≤ n) : HasRoomFor k s := by
  cases L with
  | l1 => trivial
  | l2 =>
    unfold HasRoomFor at hroom ⊢
    omega

/-- A call takes at most one id. -/
theorem HasRoomFor.exec (hroom : HasRoomFor (n + 1) m.world.storage) :
    HasRoomFor n (exec (byHash keccak256 L) m c.step).world.storage := by
  have hh : (byHash keccak256 L).hook c.op = none := Op.target_hook c.target
  unfold ZoneCall.step
  cases hb : (byHash keccak256 L).body c.sender c.op m.world.storage with
  | error e =>
    rw [Calls.exec_error hb]
    exact hroom.mono (Nat.le_succ n)
  | ok r =>
    rw [Calls.exec_ok hh hb]
    cases L with
    | l1 => trivial
    | l2 =>
      have hcount := byHash_counter hb
      unfold HasRoomFor at hroom ⊢
      simp only [Calls.World.commit_storage]
      split at hcount <;> omega

/-- The calls, and which of them are accepted. -/
def results (m : Machine L) (cs : List (ZoneCall keccak256)) : List (ZoneCall keccak256 × Bool) :=
  outcomes (fun m c => exec (byHash keccak256 L) m c.step) (fun m c => accepts (byHash keccak256 L) m c.step) m cs

/-- What is in view are the cells, and there is room for the calls to come. -/
structure InCells (operators : Address → Address → Bool) (cs : List (ZoneCall keccak256)) (m : Machine L)
    (v : Cells.State Bytes32 (Option Zone) (Address → Uint256)) : Prop where
  good : Good keccak256 m.world.storage
  room : HasRoomFor cs.length m.world.storage
  view : view m.world.storage = View.ofCells operators v

variable {operators : Address → Address → Bool} {v : Cells.State Bytes32 (Option Zone) (Address → Uint256)}

/-- A call is a step on the cell of its zone. -/
theorem InCells.step (h : InCells operators (c :: cs) m v) :
    accepts (byHash keccak256 L) m c.step = Cells.accepts ZoneCall.hash (ZoneCall.act operators) v c ∧
      InCells operators cs (exec (byHash keccak256 L) m c.step)
        (Cells.exec ZoneCall.hash (ZoneCall.act operators) v c) := by
  obtain ⟨hg, hroom, hv⟩ := h
  obtain ⟨hg', hv', hacc⟩ := exec_view c.sender false hg hroom.hasRoom c.target
  rw [hv, View.step_cells c.target, Option.isSome_map] at hacc
  rw [hv, View.after_eq c.target] at hv'
  exact ⟨hacc, hg', hroom.exec, hv'⟩

theorem results_cells (h : InCells operators cs m v) :
    results m cs = outcomes (Cells.exec ZoneCall.hash (ZoneCall.act operators))
        (Cells.accepts ZoneCall.hash (ZoneCall.act operators)) v cs ∧
      InCells operators ([] : List (ZoneCall keccak256)) (run (byHash keccak256 L) m (cs.map ZoneCall.step))
        (cs.foldl (Cells.exec ZoneCall.hash (ZoneCall.act operators)) v) := by
  rw [run, List.foldl_map]
  exact Cells.outcomes_eq (InCells operators) (fun _ _ _ _ h => h.step) cs h

theorem InCells.slice (h : InCells operators cs m v) (k : Bytes32) :
    InCells operators (slice ZoneCall.hash k cs) m v :=
  ⟨h.good, h.room.mono (List.length_filter_le ..), h.view⟩

/-- The block without the calls on other zones: the rest comes out the same. -/
theorem results_slice (h : InCells operators cs m v) (k : Bytes32) :
    slice (fun r => r.1.hash) k (results m cs) = results m (slice ZoneCall.hash k cs) ∧
      SameZoneReads (run (byHash keccak256 L) m (cs.map ZoneCall.step)).world.storage
        (run (byHash keccak256 L) m ((slice ZoneCall.hash k cs).map ZoneCall.step)).world.storage k := by
  obtain ⟨hresults, hend⟩ := results_cells h
  obtain ⟨hresults', hend'⟩ := results_cells (h.slice k)
  have hself : v.cells k = v.cells k := rfl
  constructor
  · rw [hresults, hresults']
    exact (Cells.run_slice cs hself).2
  · apply sameZoneReads hend.good hend'.good
    rw [hend.view, hend'.view]
    exact (Cells.run_slice cs hself).1

theorem sameView_of_slices (hx : InCells operators xs m v) (hy : InCells operators ys m v)
    (hsame : SameSlices ZoneCall.hash xs ys) :
    SameView keccak256 (run (byHash keccak256 L) m (xs.map ZoneCall.step)).world.storage
      (run (byHash keccak256 L) m (ys.map ZoneCall.step)).world.storage := by
  obtain ⟨-, hend⟩ := results_cells hx
  obtain ⟨-, hend'⟩ := results_cells hy
  refine ⟨hend.good, hend'.good, ?_⟩
  rw [hend.view, hend'.view, hsame.foldl_eq]

/-! ## Every order of the block -/

/-- In a block of calls that each name a zone by hash, what a zone comes to and which of the calls on it
are accepted depend on these calls alone. Blocks that have the same calls on every zone, however mixed,
lead to the same storage (on L2 up to the ids), and accept the same calls. This is while L2 has an id left
for each call: a claim can take the last id from another. -/
theorem zones_separate (keccak256 : Bytes → Bytes32) (L : Layer) (steps : List Step)
    (xs : List (ZoneCall keccak256)) (hroom : HasRoomFor xs.length (reached keccak256 L steps).storage) :
    let m := run (contract keccak256 L) (deployed keccak256 L) steps
    let play cs := (run (byHash keccak256 L) m (cs.map ZoneCall.step)).world.storage
    (∀ h, slice (fun r => r.1.hash) h (results m xs) = results m (slice ZoneCall.hash h xs) ∧
      SameZoneReads (play xs) (play (slice ZoneCall.hash h xs)) h) ∧
    ∀ ys, SameSlices ZoneCall.hash xs ys →
      SameSlices (fun r => r.1.hash) (results m xs) (results m ys) ∧
      Renamed (play xs) (play ys) ∧ SameReads (play xs) (play ys) := by
  intro m play
  have hgood : Good keccak256 m.world.storage := ⟨reached_inv steps, reached_allocated steps⟩
  let v := view m.world.storage
  have hx : InCells v.operators xs m v.cells := ⟨hgood, hroom, rfl⟩
  constructor
  · intro h
    exact results_slice hx h
  · intro ys hsame
    have hy : InCells v.operators ys m v.cells := ⟨hgood, hroom.mono (Nat.le_of_eq hsame.length_eq.symm), rfl⟩
    have hv : SameView keccak256 (play xs) (play ys) := sameView_of_slices hx hy hsame
    refine ⟨fun h => ?_, renamed_of_view hv, reads_of_view hv⟩
    rw [(results_slice hx h).1, (results_slice hy h).1, hsame h]

theorem keccak_key_ne : keccakSample keySample ≠ keccakSample zoneSample := by decide

/-- A zone claimed and sold, while the owner of another lets an account use that one. -/
theorem zones_separate_sample :
    let steps : List Step := [.call 2 (.claimZone keySample) false]
    let claim : ZoneCall keccakSample := ⟨1, .claimZone zoneSample, keccakSample zoneSample, rfl⟩
    let sell : ZoneCall keccakSample :=
      ⟨1, .erc721 (.transferFrom 1 3 (keccakSample zoneSample)), keccakSample zoneSample, rfl⟩
    let other : ZoneCall keccakSample :=
      ⟨2, .erc721 (.approve 4 (keccakSample keySample)), keccakSample keySample, rfl⟩
    let m := run (contract keccakSample .l2) (deployed keccakSample .l2) steps
    let play cs := (run (byHash keccakSample .l2) m (cs.map ZoneCall.step)).world.storage
    SameReads (L := .l2) (play [claim, sell, other]) (play [other, claim, sell]) := by
  intro steps claim sell other
  have hroom : HasRoomFor 3 (reached keccakSample .l2 steps).storage :=
    show (1 : Uint256).toNat + 3 < 2 ^ 256 by decide
  have hsame : SameSlices ZoneCall.hash [claim, sell, other] [other, claim, sell] := by
    intro k
    by_cases hk : keccakSample zoneSample = k
    · subst hk
      simp only [Cells.slice_cons, claim, sell, other, keccak_key_ne, if_true, if_false]
    · simp only [Cells.slice_cons, claim, sell, other, hk, if_false]
  exact ((zones_separate keccakSample .l2 steps [claim, sell, other] hroom).2 _ hsame).2.2

end Registry

end LawRegistry
