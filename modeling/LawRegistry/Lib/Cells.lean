import Mathlib.Algebra.Group.Basic
import Mathlib.Logic.Function.Basic
/-!
# Steps on different cells

A state of many cells and one tally. A step looks at a single cell; it fails, or it rewrites that
cell and adds to the tally. Two steps on different cells do not see each other, so each fails or
succeeds the same in either order, and both orders end in one state.
-/

namespace Cells

structure State (κ β γ : Type) where
  cells : κ → β
  tally : γ

/-- The new content of a cell, and what to add to the tally; `none` if the step fails. -/
abbrev Act (β γ : Type) := β → Option (β × γ)

/-- Where a step fails, everything stays. -/
def skip {α : Type} (f : α → Option α) (s : α) : α := (f s).getD s

section
variable {κ β γ : Type} [DecidableEq κ] [AddCommMonoid γ]

/-- The state with a new content of cell `k`, and more in the tally. -/
def State.put (s : State κ β γ) (k : κ) (r : β × γ) : State κ β γ :=
  ⟨Function.update s.cells k r.1, s.tally + r.2⟩

def step (k : κ) (act : Act β γ) (s : State κ β γ) : Option (State κ β γ) := (act (s.cells k)).map (s.put k)

variable {k k' : κ} {act act' : Act β γ} {s : State κ β γ} {r r' : β × γ}

@[simp] theorem put_other (hne : k' ≠ k) : (s.put k r).cells k' = s.cells k' := Function.update_of_ne hne ..

theorem put_comm (hne : k ≠ k') : (s.put k r).put k' r' = (s.put k' r').put k r := by
  unfold State.put
  rw [Function.update_comm hne, add_right_comm]

@[simp] theorem isSome_step : (step k act s).isSome = (act (s.cells k)).isSome := Option.isSome_map

theorem skip_none (h : act (s.cells k) = none) : skip (step k act) s = s := by
  rw [skip, step, h, Option.map_none, Option.getD_none]

theorem skip_some (h : act (s.cells k) = some r) : skip (step k act) s = s.put k r := by
  rw [skip, step, h, Option.map_some, Option.getD_some]

/-- A step leaves the other cells alone. -/
theorem skip_other (hne : k' ≠ k) : (skip (step k act) s).cells k' = s.cells k' := by
  cases h : act (s.cells k) with
  | none => rw [skip_none h]
  | some r => rw [skip_some h, put_other hne]

/-- The other step does not change whether this one fails. -/
theorem isSome_step_skip (hne : k ≠ k') : (step k act (skip (step k' act') s)).isSome = (step k act s).isSome := by
  rw [isSome_step, isSome_step, skip_other hne]

/-- The order does not matter. -/
theorem skip_comm (hne : k ≠ k') (s : State κ β γ) :
    skip (step k act) (skip (step k' act') s) = skip (step k' act') (skip (step k act) s) := by
  have hcell : act ((skip (step k' act') s).cells k) = act (s.cells k) := by rw [skip_other hne]
  have hcell' : act' ((skip (step k act) s).cells k') = act' (s.cells k') := by rw [skip_other hne.symm]
  cases h : act (s.cells k) with
  | none => rw [skip_none (hcell.trans h), skip_none h]
  | some r =>
    rw [skip_some (hcell.trans h)]
    cases h' : act' (s.cells k') with
    | none => rw [skip_none (hcell'.trans h'), skip_none h', skip_some h]
    | some r' => rw [skip_some (hcell'.trans h'), skip_some h', skip_some h, put_comm hne.symm]

end

end Cells
