import Mathlib.Logic.Function.Basic
import Mathlib.Data.List.Induction
/-!
# A map and the log of its writes

`replay` rebuilds a map from a log of keyed writes; at a key it holds the last value written
there. `Guarded` logs write a key only while it still holds a blank value, so that all writes of
that key but the last are blank.
-/

namespace Replay

variable {κ β : Type} [DecidableEq κ]

def replay (init : κ → β) (log : List (κ × β)) : κ → β :=
  log.foldl (fun m w => Function.update m w.1 w.2) init

/-- The values written at `k`, oldest first. -/
def values (k : κ) (log : List (κ × β)) : List β := log.filterMap fun w => if w.1 = k then some w.2 else none

section
variable (init : κ → β) (log log' : List (κ × β)) (w : κ × β) (k : κ)

@[simp] theorem replay_nil : replay init [] = init := rfl

theorem replay_snoc : replay init (log ++ [w]) = Function.update (replay init log) w.1 w.2 := by
  simp [replay]

@[simp] theorem values_nil : values k ([] : List (κ × β)) = [] := rfl

theorem values_append : values k (log ++ log') = values k log ++ values k log' := List.filterMap_append ..

theorem values_singleton : values k [w] = if w.1 = k then [w.2] else [] := by
  unfold values; split <;> simp [*]

theorem mem_values {v : β} : v ∈ values k log ↔ (k, v) ∈ log := by
  simp only [values, List.mem_filterMap, Option.ite_none_right_eq_some, Option.some.injEq]
  constructor
  · rintro ⟨⟨_, _⟩, hw, rfl, rfl⟩; exact hw
  · intro h; exact ⟨_, h, rfl, rfl⟩

/-- A key holds the last value written there. -/
theorem replay_apply : replay init log k = (values k log).getLast?.getD (init k) := by
  induction log using List.reverseRecOn with
  | nil => rfl
  | append_singleton log w ih =>
    rw [replay_snoc, values_append, values_singleton, Function.update_apply]
    by_cases hw : w.1 = k
    · simp [hw]
    · simp [hw, Ne.symm hw, ih]

end

/-- Every write of `k` finds `blank` there. -/
inductive Guarded (init : κ → β) (blank : β) (k : κ) : List (κ × β) → Prop
  | nil : Guarded init blank k []
  | snoc {log w} : Guarded init blank k log → (w.1 = k → replay init log k = blank) →
      Guarded init blank k (log ++ [w])

variable {init : κ → β} {blank : β} {k : κ} {log : List (κ × β)}

/-- All writes of a guarded key but the last are blank. -/
theorem Guarded.dropLast_blank (h : Guarded init blank k log) :
    ∀ v ∈ (values k log).dropLast, v = blank := by
  induction h with
  | nil => simp
  | @snoc log w _ hw ih =>
    rw [values_append, values_singleton]
    by_cases hk : w.1 = k
    · -- Before this write the key was blank, so the write before it, if any, was blank too.
      rw [if_pos hk, List.dropLast_concat]
      have hb := hw hk
      rw [replay_apply] at hb
      intro v hv
      rcases List.eq_nil_or_concat (values k log) with hn | ⟨vs, u, hvs⟩
      · simp [hn] at hv
      · rw [List.concat_eq_append] at hvs
        rw [hvs] at hv hb ih
        rcases List.mem_append.1 hv with hv | hv
        · exact ih v (by simpa using hv)
        · rw [List.mem_singleton] at hv
          simpa [hv] using hb
    · simpa [hk] using ih

/-- A guarded key is blank exactly while only blank values were written. -/
theorem Guarded.blank_iff (h : Guarded init blank k log) (h0 : init k = blank) :
    replay init log k = blank ↔ ∀ v ∈ values k log, v = blank := by
  have hd := h.dropLast_blank
  rw [replay_apply]
  rcases List.eq_nil_or_concat (values k log) with hn | ⟨vs, u, hvs⟩
  · simp [hn, h0]
  · rw [List.concat_eq_append] at hvs
    rw [hvs, List.dropLast_concat] at hd
    simp only [hvs, List.getLast?_concat, Option.getD_some, List.mem_append, List.mem_singleton]
    constructor
    · rintro rfl v (hv | rfl)
      · exact hd v hv
      · rfl
    · intro hall
      exact hall u (.inr rfl)

end Replay
