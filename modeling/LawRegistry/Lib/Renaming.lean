import Mathlib.Logic.Equiv.Basic
import LawRegistry.Lib.Calls
/-!
# The same calls under other names

A contract may do under other names of accounts, arguments, storages and events what another one does
under theirs. If each body does, every run does, nested calls and refused answers included.
-/

namespace Renamed

/-- The table with its keys and its entries under other names. -/
def table {I V W : Type} (key : Equiv.Perm I) (entry : V → W) (t : I → V) (i : I) : W := entry (t (key.symm i))

section Tables
variable {I V W : Type} {key : Equiv.Perm I} {entry : V → W} {t : I → V}

@[simp] theorem table_apply (i : I) : table key entry t (key i) = entry (t i) := by
  unfold table
  rw [Equiv.symm_apply_apply]

@[simp] theorem table_const (v : V) : table key entry (fun _ => v) = fun _ => entry v := rfl

theorem table_update [DecidableEq I] (i : I) (v : V) :
    table key entry (Function.update t i v) = Function.update (table key entry t) (key i) (entry v) := by
  funext j
  unfold table
  by_cases hj : key.symm j = i
  · have hj' : j = key i := by rw [← hj, Equiv.apply_symm_apply]
    rw [hj, hj', Function.update_self, Function.update_self]
  · have hj' : j ≠ key i := fun h => hj (by rw [h, Equiv.symm_apply_apply])
    rw [Function.update_of_ne hj, Function.update_of_ne hj']

end Tables

/-- What goes on from a renamed result gets to the renamed result. -/
theorem bind_map {X α α' β β' : Type} {x : Except X α} {x' : Except X α'} {f : α → Except X β}
    {f' : α' → Except X β'} {g : α → α'} {h : β → β'} (hx : x' = x.map g)
    (hf : ∀ a, x = .ok a → f' (g a) = (f a).map h) : x' >>= f' = (x >>= f).map h := by
  subst hx
  cases x with
  | error e => rfl
  | ok a => exact hf a rfl

end Renamed

namespace Calls

/-- Other names. The answers of a callee and the failures keep theirs. -/
structure Renaming (A Op S E : Type) where
  account : A → A
  op : Op → Op
  storage : S → S
  event : E → E

variable {A Op S E P X : Type}

namespace Renaming
variable (ρ : Renaming A Op S E)

def entry (e : Entry A Op S E) : Entry A Op S E :=
  ⟨ρ.account e.sender, ρ.op e.op, ρ.storage e.before, ρ.storage e.after, e.events.map ρ.event⟩

def world (w : World A Op S E) : World A Op S E := ⟨ρ.storage w.storage, w.journal.map ρ.entry⟩

def frame (f : Frame A Op S E P X) : Frame A Op S E P X := ⟨ρ.world f.saved, f.check⟩

def machine (m : Machine A Op S E P X) : Machine A Op S E P X := ⟨ρ.world m.world, m.stack.map ρ.frame⟩

def step : Step A Op P → Step A Op P
  | .call a op code => .call (ρ.account a) (ρ.op op) code
  | .reply p => .reply p

def result (r : S × List E) : S × List E := (ρ.storage r.1, r.2.map ρ.event)

theorem world_commit (w : World A Op S E) (a : A) (op : Op) (s : S) (evs : List E) :
    ρ.world (w.commit a op s evs) =
      (ρ.world w).commit (ρ.account a) (ρ.op op) (ρ.storage s) (evs.map ρ.event) := by
  unfold world World.commit
  rw [List.map_append]
  rfl

end Renaming

/-- `K'` does under other names what `K` does. -/
structure Renames (ρ : Renaming A Op S E) (K K' : Contract A Op S E P X) : Prop where
  init : K'.init = ρ.storage K.init
  body : ∀ a op s, K'.body (ρ.account a) (ρ.op op) (ρ.storage s) = (K.body a op s).map ρ.result
  hook : ∀ op, K'.hook (ρ.op op) = K.hook op

namespace Renames
variable {ρ : Renaming A Op S E} {K K' : Contract A Op S E P X}

/-- One step. -/
theorem exec (h : Renames ρ K K') (m : Machine A Op S E P X) (st : Step A Op P) :
    exec K' (ρ.machine m) (ρ.step st) = ρ.machine (exec K m st) ∧
      accepts K' (ρ.machine m) (ρ.step st) = accepts K m st := by
  cases st with
  | call a op code =>
    have hb : K'.body (ρ.account a) (ρ.op op) (ρ.machine m).world.storage = _ := h.body a op m.world.storage
    simp only [Renaming.step, Calls.exec, accepts, h.hook, hb]
    cases K.body a op m.world.storage with
    | error e => exact ⟨rfl, rfl⟩
    | ok r =>
      refine ⟨?_, rfl⟩
      cases K.hook op with
      | none => simp only [Except.map, Renaming.machine, Renaming.world_commit, Renaming.result]
      | some check =>
        cases code with
        | true =>
          simp only [Except.map, Renaming.machine, Renaming.world_commit, Renaming.result, List.map_cons,
            Renaming.frame]
        | false =>
          cases hc : check none with
          | ok u => simp only [Except.map, hc, Renaming.machine, Renaming.world_commit, Renaming.result]
          | error e => simp only [Except.map, hc]
  | reply p =>
    obtain ⟨w, stack⟩ := m
    cases stack with
    | nil => exact ⟨rfl, rfl⟩
    | cons f rest =>
      simp only [Renaming.step, Calls.exec, accepts, Renaming.machine, List.map_cons, Renaming.frame]
      cases f.check (some p) with
      | ok u => exact ⟨rfl, trivial⟩
      | error e => exact ⟨rfl, trivial⟩

theorem run (h : Renames ρ K K') (m : Machine A Op S E P X) (steps : List (Step A Op P)) :
    run K' (ρ.machine m) (steps.map ρ.step) = ρ.machine (run K m steps) := by
  induction steps generalizing m with
  | nil => rfl
  | cons st steps ih => rw [List.map_cons, run_cons, run_cons, (h.exec m st).1, ih]

theorem start (h : Renames ρ K K') : (start K'.init : Machine A Op S E P X) = ρ.machine (start K.init) := by
  rw [h.init]
  rfl

end Renames

end Calls
