import Mathlib.Algebra.Group.Pi.Basic
import Mathlib.Data.BitVec
import Mathlib.Logic.Equiv.Basic
import LawRegistry.Lib.Cells
import LawRegistry.Refinement
/-!
# Calls on different zones

Two calls that name different zones by hash may change places: each fails or succeeds as before, and
the registry answers the same by hash. On a view this is `Cells.skip_comm`, with the zones as cells
and the balances as tally; a state is determined by its view up to the ids, and only L2 hands out
ids in the order of the calls.
-/

namespace LawRegistry

open Calls (Trace run start exec accepts)

/-! ## One zone and the balances -/

section View
variable (keccak256 : Bytes → Bytes32)

/-- The hash a call is about. -/
def Op.target : Op → Option Bytes32
  | .claimZone zoneName => some (keccak256 zoneName)
  | .updateAgreement zone _ _ _ | .erc721 (.approve _ zone) | .erc721 (.transferFrom _ _ zone) => some zone
  | _ => none

def View.cells (v : View) : Cells.State Bytes32 (Option Zone) (Address → Uint256) := ⟨v.zone, v.balances⟩

def View.ofCells (operators : Address → Address → Bool)
    (c : Cells.State Bytes32 (Option Zone) (Address → Uint256)) : View := ⟨c.tally, operators, c.cells⟩

/-- The view after a call, which may fail. -/
def View.after (sender : Address) (op : Op) (v : View) : View :=
  Cells.skip (fun v => View.step keccak256 sender v op) v

/-- What a call does to zone `h`, found as `z`: as on a view where every zone is `z` and nobody holds
anything. -/
def Op.act (sender : Address) (operators : Address → Address → Bool) (op : Op) (h : Bytes32) :
    Cells.Act (Option Zone) (Address → Uint256) := fun z =>
  (View.step keccak256 sender ⟨fun _ => 0, operators, fun _ => z⟩ op).map fun w => (w.zone h, w.balances)

end View

variable {keccak256 : Bytes → Bytes32} {sender : Address} {op : Op} {h : Bytes32} {v : View}

theorem Op.target_hook (ht : op.target keccak256 = some h) : op.hook = none := by
  cases op with
  | claimZone | updateAgreement => rfl
  | erc721 op =>
    cases op with
    | approve | transferFrom => rfl
    | _ => cases ht

/-- What a transfer does to one balance. -/
theorem move_apply (b : Address → Uint256) (from_ to_ a : Address) :
    Function.update (Function.update b from_ (b from_ - 1)) to_ (Function.update b from_ (b from_ - 1) to_ + 1) a =
      b a - (if a = from_ then 1 else 0) + if a = to_ then 1 else 0 := by
  have hdecr : ∀ x, Function.update b from_ (b from_ - 1) x = b x - if x = from_ then 1 else 0 := by
    intro x
    by_cases hx : x = from_
    · subst hx
      rw [Function.update_self, if_pos rfl]
    · rw [Function.update_of_ne hx, if_neg hx, sub_zero]
  by_cases ha : a = to_
  · subst ha
    rw [Function.update_self, hdecr, if_pos rfl]
  · rw [Function.update_of_ne ha, hdecr, if_neg ha, add_zero]

/-- A transfer adds to the balances, whatever they are. -/
theorem move_balances (b : Address → Uint256) (from_ to_ : Address) :
    Function.update (Function.update b from_ (b from_ - 1)) to_ (Function.update b from_ (b from_ - 1) to_ + 1) =
      b + Function.update (Function.update (fun _ => (0 : Uint256)) from_ (0 - 1)) to_
        (Function.update (fun _ => (0 : Uint256)) from_ (0 - 1) to_ + 1) := by
  funext a
  rw [Pi.add_apply, move_apply, move_apply (fun _ => 0)]
  bv_omega

/-- A call on a claimed zone, done to the zone alone. -/
theorem View.onZone_cells {p : Zone → Prop} [DecidablePred p] {f g : Zone → View}
    (hf : ∀ z, f z = ofCells v.operators (v.cells.put h ((g z).zone h, (g z).balances))) :
    v.onZone h p f =
      (Option.map (v.cells.put h) ((onZone ⟨fun _ => 0, v.operators, fun _ => v.cells.cells h⟩ h p g).map
        fun w => (w.zone h, w.balances))).map (ofCells v.operators) := by
  simp only [onZone, cells]
  cases v.zone h with
  | none => rfl
  | some z =>
    by_cases hp : p z
    · simp only [hp, if_true, Option.map_some, Option.some.injEq]
      exact hf z
    · simp only [hp, if_false, Option.map_none]

/-- A call on one zone is a step on its cell. -/
theorem View.step_cells (ht : op.target keccak256 = some h) :
    View.step keccak256 sender v op =
      (Cells.step h (op.act keccak256 sender v.operators h) v.cells).map (View.ofCells v.operators) := by
  unfold Cells.step Op.act
  cases op with
  | claimZone zoneName =>
    cases ht
    simp only [View.step, View.claimZone, View.cells]
    by_cases hc : sender ≠ .zero ∧ (v.zone (keccak256 zoneName)).isNone
    · simp only [hc, ne_eq, not_false_eq_true, and_self, if_true, Option.map_some, Option.some.injEq, View.ofCells,
        Cells.State.put, View.put, View.mk.injEq, Function.update_self, and_true]
      funext a
      by_cases ha : a = sender <;> simp [ha]
    · simp only [hc, if_false, Option.map_none]
  | updateAgreement zone key revisionName value =>
    cases ht
    apply View.onZone_cells
    intro z
    simp only [View.ofCells, View.cells, Cells.State.put, View.put, Function.update_self, View.mk.injEq, and_true]
    exact (add_zero v.balances).symm
  | erc721 op =>
    cases op with
    | approve to_ zone =>
      cases ht
      apply View.onZone_cells
      intro z
      simp only [View.ofCells, View.cells, Cells.State.put, View.put, Function.update_self, View.mk.injEq, and_true]
      exact (add_zero v.balances).symm
    | transferFrom from_ to_ zone =>
      cases ht
      apply View.onZone_cells
      intro z
      simp only [View.ofCells, View.cells, Cells.State.put, View.put, Function.update_self, View.mk.injEq, and_true]
      apply move_balances
    | setApprovalForAll | safeTransferFrom | safeTransferFromData => cases ht

/-! ## Two calls on a view -/

theorem View.after_eq (ht : op.target keccak256 = some h) : v.after keccak256 sender op =
    ofCells v.operators (Cells.skip (Cells.step h (op.act keccak256 sender v.operators h)) v.cells) := by
  simp only [View.after, Cells.skip, step_cells ht]
  cases Cells.step h (op.act keccak256 sender v.operators h) v.cells <;> rfl

variable {op' : Op} {sender' : Address} {h' : Bytes32}

/-- A call about another zone does not change whether this one fails. -/
theorem View.isSome_step_after (ht : op.target keccak256 = some h) (ht' : op'.target keccak256 = some h')
    (hne : h ≠ h') : (View.step keccak256 sender (v.after keccak256 sender' op') op).isSome =
      (View.step keccak256 sender v op).isSome := by
  rw [step_cells ht, step_cells ht, Option.isSome_map, Option.isSome_map, after_eq ht']
  apply Cells.isSome_step_skip hne

theorem View.after_comm (ht : op.target keccak256 = some h) (ht' : op'.target keccak256 = some h') (hne : h ≠ h') :
    (v.after keccak256 sender' op').after keccak256 sender op =
      (v.after keccak256 sender op).after keccak256 sender' op' := by
  rw [after_eq ht, after_eq ht', after_eq ht', after_eq ht]
  apply congrArg (ofCells v.operators)
  apply Cells.skip_comm hne

/-! ## A state is its view, up to the ids -/

namespace Zones
variable {v v' : Zones} {id : Uint256} {π : Equiv.Perm Uint256}

/-- The zones under other ids. -/
def renamed (π : Equiv.Perm Uint256) (v : Zones) : Zones where
  tokens := { v.tokens with
    _owners := fun id => v.tokens._owners (π.symm id)
    _tokenApprovals := fun id => v.tokens._tokenApprovals (π.symm id) }
  agreements := fun id => v.agreements (π.symm id)
  names := fun id => v.names (π.symm id)
  index := fun h => (v.index h).map π

/-- Nothing is stored under an id nobody owns. -/
theorem Inv.read_free (hi : v.Inv keccak256) (h0 : v.tokens._owners id = .zero) :
    v.read id = ⟨.zero, .zero, [], fun _ _ => []⟩ := by
  simp only [read, h0, hi.unapproved id h0, hi.unnamed id h0, Zone.mk.injEq, true_and]
  funext key revision
  exact hi.blank id key revision h0

/-- Two views agree, and so do the zones, read under corresponding ids. -/
theorem read_renamed (hi : v.Inv keccak256) (hi' : v'.Inv keccak256) (hv : v.view = v'.view)
    (hx : ∀ h, v'.index h = (v.index h).map π) (id : Uint256) : v'.read (π id) = v.read id := by
  by_cases h0 : v.tokens._owners id = .zero
  · have h0' : v'.tokens._owners (π id) = .zero := by
      by_contra h0'
      obtain ⟨h, hh⟩ := (hi'.owned (π id)).1 h0'
      rw [hx, Option.map_eq_some_iff] at hh
      obtain ⟨i, hh, he⟩ := hh
      rw [π.injective he] at hh
      exact (hi.owned id).2 ⟨h, hh⟩ h0
    rw [hi.read_free h0, hi'.read_free h0']
  · obtain ⟨h, hh⟩ := (hi.owned id).1 h0
    have hz := congrFun (congrArg View.zone hv) h
    simp only [view, hx, hh, Option.map_some, Option.some.injEq] at hz
    exact hz.symm

theorem eq_renamed (hi : v.Inv keccak256) (hi' : v'.Inv keccak256) (hv : v.view = v'.view)
    (hx : ∀ h, v'.index h = (v.index h).map π) : v' = v.renamed π := by
  have hread : ∀ id, v'.read id = v.read (π.symm id) := by
    intro id
    rw [← read_renamed hi hi' hv hx, Equiv.apply_symm_apply]
  simp only [read, Zone.mk.injEq] at hread
  obtain ⟨⟨owners, balances, approvals, operators⟩, agreements, names, index⟩ := v'
  simp only [renamed, Zones.mk.injEq, ERC721.mk.injEq]
  refine ⟨⟨?_, ?_, ?_, ?_⟩, ?_, ?_, ?_⟩
  · funext id
    exact (hread id).1
  · exact (congrArg View.balances hv).symm
  · funext id
    exact (hread id).2.1
  · exact (congrArg View.operators hv).symm
  · funext id
    exact (hread id).2.2.2
  · funext id
    exact (hread id).2.2.1
  · funext h
    exact hx h

theorem renamed_refl (v : Zones) : v.renamed (Equiv.refl _) = v := by
  simp only [renamed, Equiv.refl_symm, Equiv.coe_refl, id_eq, Option.map_id]

end Zones

namespace DocRegistryL2

/-- The registry under other ids. -/
def renamed (π : Equiv.Perm Uint256) (s : DocRegistryL2) : DocRegistryL2 :=
  { s with
    _owners := fun id => s._owners (π.symm id)
    _tokenApprovals := fun id => s._tokenApprovals (π.symm id)
    _zoneAgreements := fun id => s._zoneAgreements (π.symm id)
    _names := fun id => s._names (π.symm id)
    _zoneHashToId := fun h => if s._zoneHashToId h = 0 then 0 else π (s._zoneHashToId h - 1) + 1 }

theorem renamed_refl (s : DocRegistryL2) : s.renamed (Equiv.refl _) = s := by
  have hentry : ∀ h, (s.renamed (Equiv.refl _))._zoneHashToId h = s._zoneHashToId h := by
    intro h
    simp only [renamed, Equiv.coe_refl, id_eq, BitVec.sub_add_cancel, ite_eq_right_iff]
    exact Eq.symm
  obtain ⟨tokens, agreements, entries, names, counter⟩ := s
  simp only [renamed, Equiv.refl_symm, Equiv.coe_refl, id_eq, DocRegistryL2.mk.injEq, true_and, and_true]
  funext h
  exact hentry h

end DocRegistryL2

namespace Registry
variable {L : Layer}

/-- What has the same view has claimed the same hashes, and knows the same of each. -/
theorem index_of_view {s t : Storage L} (hv : view s = view t) (h : Bytes32) :
    ((zones s).index h = none ∧ (zones t).index h = none) ∨
      ∃ id id', (zones s).index h = some id ∧ (zones t).index h = some id' ∧ (zones s).read id = (zones t).read id' := by
  have hz := congrFun (congrArg View.zone hv) h
  cases hx : (zones s).index h with
  | none =>
    simp only [view, Zones.view, hx, Option.map_none] at hz
    exact .inl ⟨rfl, Option.map_eq_none_iff.1 hz.symm⟩
  | some id =>
    obtain ⟨id', hx', hread⟩ := zone_some (hz.symm.trans (Zones.view_zone hx))
    exact .inr ⟨id, id', rfl, hx', hread.symm⟩

/-- On L1 the view is the state. -/
theorem l1_eq {s t : DocRegistry} (hs : Good keccak256 (L := .l1) s) (ht : Good keccak256 (L := .l1) t)
    (hv : view (L := .l1) s = view (L := .l1) t) : s = t := by
  have hx : ∀ h, (zones (L := .l1) t).index h = ((zones (L := .l1) s).index h).map (Equiv.refl _) := by
    intro h
    rcases index_of_view hv h with ⟨hx, hx'⟩ | ⟨id, id', hx, hx', -⟩
    · rw [hx, hx']
      rfl
    · -- A zone's id is its hash.
      obtain ⟨-, rfl⟩ := idOfOwner_some.1 hx
      obtain ⟨-, rfl⟩ := idOfOwner_some.1 hx'
      rw [hx, hx']
      rfl
  have he := (Zones.eq_renamed hs.inv ht.inv hv hx).trans (Zones.renamed_refl _)
  obtain ⟨tokens, agreements, names⟩ := s
  simp only [zones, Zones.mk.injEq] at he
  obtain ⟨htok, hag, hn, -⟩ := he
  obtain ⟨tokens', agreements', names'⟩ := t
  simp only at htok hag hn
  rw [htok, hag, hn]

/-- On L2 the view is the state, up to the ids. -/
theorem l2_eq_renamed {s t : DocRegistryL2} {π : Equiv.Perm Uint256} (hs : Good keccak256 (L := .l2) s)
    (ht : Good keccak256 (L := .l2) t) (hv : view (L := .l2) s = view (L := .l2) t) (hc : t.counter = s.counter)
    (hx : ∀ h, (zones (L := .l2) t).index h = ((zones (L := .l2) s).index h).map π) : t = s.renamed π := by
  have hentry : ∀ h, t._zoneHashToId h = (s.renamed π)._zoneHashToId h := by
    intro h
    have hxh := hx h
    simp only [zones] at hxh
    by_cases h0 : s._zoneHashToId h = 0
    · rw [idOfEntry_none.2 h0, Option.map_none, idOfEntry_none] at hxh
      rw [hxh]
      exact (if_pos h0).symm
    · rw [idOfEntry_some.2 ⟨h0, rfl⟩, Option.map_some, idOfEntry_some] at hxh
      rw [← BitVec.sub_add_cancel (t._zoneHashToId h) 1, hxh.2]
      exact (if_neg h0).symm
  have he := Zones.eq_renamed hs.inv ht.inv hv hx
  obtain ⟨tokens, agreements, entries, names, counter⟩ := t
  simp only [zones, Zones.renamed, Zones.mk.injEq] at he
  obtain ⟨htok, hag, hn, -⟩ := he
  simp only [DocRegistryL2.renamed, DocRegistryL2.mk.injEq]
  refine ⟨htok, hag, ?_, hn, hc⟩
  funext h
  exact hentry h

/-! ## Reads by hash -/

/-- Both states answer every read by hash alike, and those of accounts. -/
structure SameReads (s t : Storage L) : Prop where
  balanceOf : ∀ account, (tokens s).balanceOf account = (tokens t).balanceOf account
  isApprovedForAll : ∀ owner operator,
    (tokens s).isApprovedForAll owner operator = (tokens t).isApprovedForAll owner operator
  claimed : ∀ h, (∃ owner, zoneOwner s h = .ok owner) ↔ ∃ owner, zoneOwner t h = .ok owner
  zoneOwner : ∀ h, zoneOwner s h = zoneOwner t h
  name : ∀ h, name s h = name t h
  approved : ∀ h, zoneID s h >>= (tokens s).getApproved = zoneID t h >>= (tokens t).getApproved
  zoneAgreement : ∀ h key revision, zoneAgreement s h key revision = zoneAgreement t h key revision

theorem SameReads.refl (s : Storage L) : SameReads s s :=
  ⟨fun _ => rfl, fun _ _ => rfl, fun _ => Iff.rfl, fun _ => rfl, fun _ => rfl, fun _ => rfl, fun _ _ _ => rfl⟩

/-- What is read of the zone under a hash only depends on the view. -/
theorem l2_read_of_view {s t : DocRegistryL2} (hv : view (L := .l2) s = view (L := .l2) t) {α : Type}
    {f g : Uint256 → Except Revert α}
    (hf : ∀ id id', (zones (L := .l2) s).read id = (zones (L := .l2) t).read id' → f id = g id') (h : Bytes32) :
    s.zoneID h >>= f = t.zoneID h >>= g := by
  rcases index_of_view hv h with ⟨hx, hx'⟩ | ⟨id, id', hx, hx', hread⟩
  · rw [DocRegistryL2.zoneID_overflow.2 hx, DocRegistryL2.zoneID_overflow.2 hx']
    rfl
  · rw [l2_zoneID_ok.2 hx, l2_zoneID_ok.2 hx']
    apply hf id id' hread

/-- The reads on L2 are those of the view. -/
theorem sameReads_of_view {s t : DocRegistryL2} (hv : view (L := .l2) s = view (L := .l2) t) :
    SameReads (L := .l2) s t := by
  have howner : ∀ h, s.zoneOwner h = t.zoneOwner h := by
    apply l2_read_of_view hv
    intro id id' hread
    have ho : s._owners id = t._owners id' := congrArg Zone.owner hread
    apply ERC721.ownerOf_congr ho
  constructor
  · intro account
    have hb : s._balances = t._balances := congrArg View.balances hv
    exact ERC721.balanceOf_congr hb
  · intro owner operator
    exact congrFun (congrFun (congrArg View.operators hv) owner) operator
  · intro h
    simp only [zoneOwner, howner h]
  · exact howner
  · apply l2_read_of_view hv
    intro id id' hread
    exact congrArg Except.ok (congrArg Zone.name hread)
  · apply l2_read_of_view hv
    intro id id' hread
    have ho : s._owners id = t._owners id' := congrArg Zone.owner hread
    have ha : s._tokenApprovals id = t._tokenApprovals id' := congrArg Zone.approved hread
    apply ERC721.getApproved_congr ho ha
  · intro h key revision
    refine l2_read_of_view hv ?_ h
    intro id id' hread
    exact congrArg Except.ok (congrFun (congrFun (congrArg Zone.agreements hread) key) revision)

/-! ## Two calls by hash -/

section Calls
variable {m : Machine L} {op' : Op} {h' : Bytes32} (a a' : Address) (code code' : Bool)

/-- A call by hash does to the view what `View.after` does, and is accepted where the step is one. -/
theorem exec_view (hg : Good keccak256 m.world.storage) (hroom : HasRoom m.world.storage)
    (ht : op.target keccak256 = some h) :
    Good keccak256 (exec (byHash keccak256 L) m (.call a op code)).world.storage ∧
      view (exec (byHash keccak256 L) m (.call a op code)).world.storage =
        (view m.world.storage).after keccak256 a op ∧
      accepts (byHash keccak256 L) m (.call a op code) =
        (View.step keccak256 a (view m.world.storage) op).isSome := by
  have hh : (byHash keccak256 L).hook op = none := Op.target_hook ht
  rw [Calls.accepts_call hh]
  cases hb : (byHash keccak256 L).body a op m.world.storage with
  | ok r =>
    obtain ⟨s', evs⟩ := r
    obtain ⟨hg', hs⟩ := byHash_step hg hb
    rw [Calls.exec_ok hh hb, View.after, Cells.skip, hs]
    exact ⟨hg', rfl, rfl⟩
  | error e =>
    have hs : View.step keccak256 a (view m.world.storage) op = none := by
      by_contra hs
      obtain ⟨w, hs⟩ := Option.ne_none_iff_exists'.1 hs
      obtain ⟨r, hr⟩ := byHash_succeeds hg (fun _ => hroom) hs
      rw [hb] at hr
      cases hr
    rw [Calls.exec_error hb, View.after, Cells.skip, hs]
    exact ⟨hg, rfl, rfl⟩

/-- There are ids left for two claims. -/
def HasRoomForTwo : {L : Layer} → Storage L → Prop
  | .l1, _ => True
  | .l2, s => s.counter.toNat ≤ 2 ^ 256 - 3

theorem HasRoomForTwo.hasRoom {s : Storage L} (h : HasRoomForTwo s) : HasRoom s := by
  cases L with
  | l1 => trivial
  | l2 =>
    unfold HasRoomForTwo at h
    unfold HasRoom
    omega

/-- A call takes at most one id. -/
theorem HasRoomForTwo.exec (hroom : HasRoomForTwo m.world.storage) (ht : op.target keccak256 = some h) :
    HasRoom (exec (byHash keccak256 L) m (.call a op code)).world.storage := by
  have hh : (byHash keccak256 L).hook op = none := Op.target_hook ht
  cases hb : (byHash keccak256 L).body a op m.world.storage with
  | error e =>
    rw [Calls.exec_error hb]
    exact hroom.hasRoom
  | ok r =>
    rw [Calls.exec_ok hh hb]
    cases L with
    | l1 => trivial
    | l2 =>
      have hcount := byHash_counter hb
      unfold HasRoomForTwo at hroom
      simp only [HasRoom, Calls.World.commit_storage]
      split at hcount <;> omega

/-- Either call fails or succeeds the same before and after the other. -/
def SameOutcome (keccak256 : Bytes → Bytes32) {L : Layer} (m : Machine L) (st st' : Step) : Prop :=
  accepts (byHash keccak256 L) (exec (byHash keccak256 L) m st') st = accepts (byHash keccak256 L) m st ∧
    accepts (byHash keccak256 L) (exec (byHash keccak256 L) m st) st' = accepts (byHash keccak256 L) m st'

/-- Both orders accept the same calls, and end with the same view. -/
theorem swap_view (hg : Good keccak256 m.world.storage) (hroom : HasRoomForTwo m.world.storage)
    (ht : op.target keccak256 = some h) (ht' : op'.target keccak256 = some h') (hne : h ≠ h') :
    let s₁ := (run (byHash keccak256 L) m [.call a op code, .call a' op' code']).world.storage
    let s₂ := (run (byHash keccak256 L) m [.call a' op' code', .call a op code]).world.storage
    SameOutcome keccak256 m (.call a op code) (.call a' op' code') ∧ Good keccak256 s₁ ∧ Good keccak256 s₂ ∧
      view s₁ = view s₂ := by
  intro s₁ s₂
  obtain ⟨hg₁, hv₁, hacc₁⟩ := exec_view a code hg hroom.hasRoom ht
  obtain ⟨hg₂, hv₂, hacc₂⟩ := exec_view a' code' hg hroom.hasRoom ht'
  obtain ⟨hg₁₂, hv₁₂, hacc₁₂⟩ := exec_view a' code' hg₁ (hroom.exec a code ht) ht'
  obtain ⟨hg₂₁, hv₂₁, hacc₂₁⟩ := exec_view a code hg₂ (hroom.exec a' code' ht') ht
  rw [hv₂] at hv₂₁ hacc₂₁
  rw [hv₁] at hv₁₂ hacc₁₂
  refine ⟨⟨?_, ?_⟩, hg₁₂, hg₂₁, ?_⟩
  · rw [hacc₁, hacc₂₁, View.isSome_step_after ht ht' hne]
  · rw [hacc₂, hacc₁₂, View.isSome_step_after ht' ht hne.symm]
  · calc view s₁
      _ = ((view m.world.storage).after keccak256 a op).after keccak256 a' op' := hv₁₂
      _ = ((view m.world.storage).after keccak256 a' op').after keccak256 a op := (View.after_comm ht ht' hne).symm
      _ = view s₂ := hv₂₁.symm

end Calls

/-! ## The ids the two calls take -/

section Ids
variable {m : Machine .l2} {op' : Op} {h' : Bytes32} (a a' : Address) (code code' : Bool)

/-- The counter, and the ids by hash. -/
def ids (s : DocRegistryL2) : Uint256 × (Bytes32 → Option Uint256) := (s.counter, (zones (L := .l2) s).index)

/-- The ids after hash `h` took one. -/
def take (h : Bytes32) (i : Uint256 × (Bytes32 → Option Uint256)) : Uint256 × (Bytes32 → Option Uint256) :=
  (i.1 + 1, Function.update i.2 h (some i.1))

/-- A call takes an id if it is a claim that goes through. -/
theorem exec_ids (ht : op.target keccak256 = some h) :
    ids (exec (byHash keccak256 .l2) m (.call a op code)).world.storage =
      if op.isClaim ∧ accepts (byHash keccak256 .l2) m (.call a op code) then take h (ids m.world.storage)
      else ids m.world.storage := by
  have hh : (byHash keccak256 .l2).hook op = none := Op.target_hook ht
  rw [Calls.accepts_call hh]
  cases hb : (byHash keccak256 .l2).body a op m.world.storage with
  | error e =>
    rw [Calls.exec_error hb]
    simp [Except.isOk, Except.toBool]
  | ok r =>
    obtain ⟨s', evs⟩ := r
    rw [Calls.exec_ok hh hb]
    obtain ⟨op'', hr, hb⟩ := bind_ok.1 hb
    have hclaim := resolve_isClaim (L := .l2) hr
    rcases DocRegistryL2.body_cases hb with ⟨zoneName, rfl, -, -, -, hc, rfl, -⟩ |
      ⟨zone, key, revisionName, value, rfl, -, -, -, rfl, -⟩ | ⟨call, t, evs, rfl, -, rfl, -⟩
    · cases op with
      | claimZone =>
        cases hr
        cases ht
        simp only [ids, Calls.World.commit_storage, DocRegistryL2.claimed_zones hc]
        rfl
      | updateAgreement | erc721 => cases hclaim
    · rw [← hclaim]
      rfl
    · rw [← hclaim]
      rfl

theorem take_self {i : Uint256 × (Bytes32 → Option Uint256)} : (take h i).2 h = some i.1 := Function.update_self ..

theorem take_other {i : Uint256 × (Bytes32 → Option Uint256)} (hne : h' ≠ h) : (take h i).2 h' = i.2 h' :=
  Function.update_of_ne hne ..

theorem swap_below {c id : Uint256} (hc : c.toNat ≤ 2 ^ 256 - 3) (hlt : id < c) :
    Equiv.swap c (c + 1) id = id := by
  apply Equiv.swap_apply_of_ne_of_ne <;> bv_omega

/-- Two hashes that take ids in the other order have each the other's; the ids taken before are below. -/
theorem take_swap {i : Uint256 × (Bytes32 → Option Uint256)} (hroom : i.1.toNat ≤ 2 ^ 256 - 3)
    (hbelow : ∀ h id, i.2 h = some id → id < i.1) (hne : h ≠ h') (h'' : Bytes32) :
    (take h (take h' i)).2 h'' = ((take h' (take h i)).2 h'').map (Equiv.swap i.1 (i.1 + 1)) := by
  by_cases hh : h'' = h
  · subst hh
    rw [take_self, take_other hne, take_self, Option.map_some, Equiv.swap_apply_left]
    rfl
  · by_cases hh' : h'' = h'
    · subst hh'
      rw [take_other hh, take_self, take_self, Option.map_some]
      exact congrArg some (Equiv.swap_apply_right ..).symm
    · rw [take_other hh, take_other hh', take_other hh', take_other hh]
      cases hx : i.2 h'' with
      | none => rfl
      | some id => rw [Option.map_some, swap_below hroom (hbelow h'' id hx)]

/-- Two calls on different zones take ids in either order: the same ones, or each the other's. -/
theorem swap_ids (hi : (zones (L := .l2) m.world.storage).Inv keccak256)
    (ha : DocRegistryL2.Allocated m.world.storage) (hroom : m.world.storage.counter.toNat ≤ 2 ^ 256 - 3)
    (ht : op.target keccak256 = some h) (ht' : op'.target keccak256 = some h') (hne : h ≠ h')
    (hsame : SameOutcome (L := .l2) keccak256 m (.call a op code) (.call a' op' code')) :
    let c := m.world.storage.counter
    let s₁ := (run (byHash keccak256 .l2) m [.call a op code, .call a' op' code']).world.storage
    let s₂ := (run (byHash keccak256 .l2) m [.call a' op' code', .call a op code]).world.storage
    ids s₂ = ids s₁ ∨ op.isClaim ∧ op'.isClaim ∧ (zones (L := .l2) s₁).index h = some c ∧
      (zones (L := .l2) s₁).index h' = some (c + 1) ∧ s₂.counter = s₁.counter ∧
      ∀ h, (zones (L := .l2) s₂).index h = ((zones (L := .l2) s₁).index h).map (Equiv.swap c (c + 1)) := by
  intro c s₁ s₂
  have hids₁ : ids s₁ = _ := exec_ids (m := exec (byHash keccak256 .l2) m (.call a op code)) a' code' ht'
  have hids₂ : ids s₂ = _ := exec_ids (m := exec (byHash keccak256 .l2) m (.call a' op' code')) a code ht
  rw [exec_ids a code ht, hsame.2] at hids₁
  rw [exec_ids a' code' ht', hsame.1] at hids₂
  by_cases hc : op.isClaim ∧ accepts (byHash keccak256 .l2) m (.call a op code)
  · by_cases hc' : op'.isClaim ∧ accepts (byHash keccak256 .l2) m (.call a' op' code')
    · rw [if_pos hc', if_pos hc] at hids₁
      rw [if_pos hc, if_pos hc'] at hids₂
      have hindex₁ : (zones (L := .l2) s₁).index = _ := congrArg Prod.snd hids₁
      have hindex₂ : (zones (L := .l2) s₂).index = _ := congrArg Prod.snd hids₂
      have hcount : s₂.counter = s₁.counter := (congrArg Prod.fst hids₂).trans (congrArg Prod.fst hids₁).symm
      refine .inr ⟨hc.1, hc'.1, ?_, ?_, hcount, fun h'' => ?_⟩
      · rw [hindex₁, take_other hne, take_self]
        rfl
      · rw [hindex₁, take_self]
        rfl
      · rw [hindex₁, hindex₂]
        apply take_swap (i := ids m.world.storage) hroom ?_ hne
        intro h id hx
        exact (ha id).1 ((hi.owned id).2 ⟨h, hx⟩)
    · rw [if_neg hc', if_pos hc] at hids₁
      rw [if_pos hc, if_neg hc'] at hids₂
      exact .inl (hids₂.trans hids₁.symm)
  · rw [if_neg hc] at hids₁ hids₂
    exact .inl (hids₂.trans hids₁.symm)

end Ids

/-- Calls on different zones may change places. On L1 both orders end in one state; on L2 in one state
as well, or two zones claimed by the pair have each the other's id. -/
theorem order_independent (keccak256 : Bytes → Bytes32) (steps : List Step) (a a' : Address) (op op' : Op)
    (code code' : Bool) {h h' : Bytes32} (ht : op.target keccak256 = some h) (ht' : op'.target keccak256 = some h')
    (hne : h ≠ h') :
    let st : Step := .call a op code
    let st' : Step := .call a' op' code'
    let m L := run (contract keccak256 L) (deployed keccak256 L) steps
    let s₁ L := (run (byHash keccak256 L) (m L) [st, st']).world.storage
    let s₂ L := (run (byHash keccak256 L) (m L) [st', st]).world.storage
    (SameOutcome keccak256 (m .l1) st st' ∧ SameReads (s₁ .l1) (s₂ .l1) ∧ s₁ .l1 = s₂ .l1) ∧
    ∀ c, (show DocRegistryL2 from (m .l2).world.storage).counter = c → c.toNat ≤ 2 ^ 256 - 3 →
      SameOutcome keccak256 (m .l2) st st' ∧ SameReads (s₁ .l2) (s₂ .l2) ∧
      (s₁ .l2 = s₂ .l2 ∨ op.isClaim ∧ op'.isClaim ∧ zoneID (s₁ .l2) h = .ok c ∧ zoneID (s₁ .l2) h' = .ok (c + 1) ∧
        s₂ .l2 = (show DocRegistryL2 from s₁ .l2).renamed (Equiv.swap c (c + 1))) := by
  intro st st' m s₁ s₂
  have hgood (L : Layer) : Good keccak256 (m L).world.storage := ⟨reached_inv steps, reached_allocated steps⟩
  constructor
  · obtain ⟨hsame, hg₁, hg₂, hv⟩ := swap_view a a' code code' (hgood .l1) trivial ht ht' hne
    have he : s₁ .l1 = s₂ .l1 := l1_eq hg₁ hg₂ hv
    refine ⟨hsame, ?_, he⟩
    rw [he]
    exact SameReads.refl (L := .l1) (s₂ .l1)
  · rintro c rfl hroom
    obtain ⟨hsame, hg₁, hg₂, hv⟩ := swap_view a a' code code' (hgood .l2) hroom ht ht' hne
    refine ⟨hsame, sameReads_of_view hv, ?_⟩
    rcases swap_ids a a' code code' (hgood .l2).inv (hgood .l2).allocated hroom ht ht' hne hsame with
      hids | ⟨hc, hc', hh, hh', hcount, hx⟩
    · obtain ⟨hcount, hindex⟩ := Prod.mk.inj hids
      have hx : ∀ h, (zones (s₂ .l2)).index h = ((zones (s₁ .l2)).index h).map (Equiv.refl _) := by
        intro h
        rw [Equiv.coe_refl, Option.map_id]
        exact congrFun hindex h
      have he := l2_eq_renamed hg₁ hg₂ hv hcount hx
      rw [DocRegistryL2.renamed_refl] at he
      exact .inl he.symm
    · exact .inr ⟨hc, hc', l2_zoneID_ok.2 hh, l2_zoneID_ok.2 hh', l2_eq_renamed hg₁ hg₂ hv hcount hx⟩

/-- Two claims, and who claims first gets id 0; by hash nobody can tell. -/
theorem order_independent_sample :
    let st : Step := .call 1 (.claimZone zoneSample) false
    let st' : Step := .call 2 (.claimZone keySample) false
    SameReads (L := .l2) (run (byHash keccakSample .l2) (deployed keccakSample .l2) [st, st']).world.storage
      (run (byHash keccakSample .l2) (deployed keccakSample .l2) [st', st]).world.storage :=
  ((order_independent keccakSample [] 1 2 (.claimZone zoneSample) (.claimZone keySample) false false rfl rfl
    (by decide)).2 0 rfl (by decide)).2.1

end Registry

end LawRegistry
