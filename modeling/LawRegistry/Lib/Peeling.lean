import Mathlib.Data.Set.Card
import LawRegistry.Lib.Calls
/-!
# Which storages are reached, and how soon

What every call keeps holds of all that is reached. For the other direction a storage is peeled: if
each one with the property is the first, or one call away from a smaller one with the property, then
all of them are reached. With a size that a call raises by one at most, no run gets there sooner.
-/

namespace Calls

variable {A Op S E P X : Type} {K : Contract A Op S E P X} {size : S → Nat}

/-- One call leads from `s` to `s'`, and it calls nobody. -/
def OneCall (K : Contract A Op S E P X) (s s' : S) : Prop :=
  ∃ a op evs, K.hook op = none ∧ K.body a op s = .ok (s', evs)

theorem exists_run {V : S → Prop}
    (hpeel : ∀ s, V s → s = K.init ∨ ∃ s', V s' ∧ size s = size s' + 1 ∧ OneCall K s' s) {s : S} (hs : V s) :
    ∃ steps : List (Step A Op P), (∀ st ∈ steps, ∃ a op, st = .call a op false) ∧
      size s = size K.init + steps.length ∧ (run K (start K.init) steps).world.storage = s := by
  induction hn : size s generalizing s with
  | zero =>
    rcases hpeel s hs with rfl | ⟨s', -, hsize, -⟩
    · exact ⟨[], by simp, by rw [hn]; rfl, rfl⟩
    · omega
  | succ n ih =>
    rcases hpeel s hs with rfl | ⟨s', hs', hsize, a, op, evs, hh, hb⟩
    · exact ⟨[], by simp, by rw [hn]; rfl, rfl⟩
    · obtain ⟨steps, hcalls, hlength, hrun⟩ := ih hs' (by omega)
      refine ⟨steps ++ [.call a op false], fun st hst => ?_, ?_, ?_⟩
      · rcases List.mem_append.1 hst with hst | hst
        · exact hcalls st hst
        · rw [List.mem_singleton] at hst
          exact ⟨a, op, hst⟩
      · rw [List.length_append, List.length_singleton]
        omega
      · rw [← hrun] at hb
        rw [run_append, run_cons, exec_ok hh hb]
        rfl

/-- What a call adds at most one to, a run adds at most its length to. -/
theorem size_le_length (hstep : ∀ a op s s' evs, K.body a op s = .ok (s', evs) → size s' ≤ size s + 1)
    (steps : List (Step A Op P)) :
    size (run K (start K.init) steps).world.storage ≤ size K.init + steps.length := by
  have htrace {es : List (Entry A Op S E)} {s : S} (h : Trace K K.init es s) : size s ≤ size K.init + es.length := by
    induction h with
    | nil => exact Nat.le_refl _
    | snoc _ hb ih =>
      have hlast := hstep _ _ _ _ _ hb
      rw [List.length_append, List.length_singleton]
      omega
  have hsize := htrace (run_trace K.init steps)
  have hlength := journal_length (K := K) K.init steps
  omega

end Calls

/-! ## Entries that are not blank -/

namespace Entries
variable {α : Type} [Finite α] {s t : Set α} {x : α}

theorem ncard_blanked (hx : x ∈ s) (h : ∀ y, y ∈ t ↔ y ∈ s ∧ y ≠ x) : s.ncard = t.ncard + 1 := by
  have ht : t = s \ {x} := by
    ext y
    rw [h, Set.mem_sdiff, Set.mem_singleton_iff]
  rw [ht, Set.ncard_sdiff_singleton_add_one hx]

theorem ncard_written (h : ∀ y ∈ t, y = x ∨ y ∈ s) : t.ncard ≤ s.ncard + 1 :=
  Nat.le_trans (Set.ncard_le_ncard h) (Set.ncard_insert_le x s)

end Entries
