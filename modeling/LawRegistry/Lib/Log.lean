import LawRegistry.Lib.Calls
import LawRegistry.Lib.Replay
/-!
# Storage read off the log

Part of a contract's storage may be a function of the events alone: recording the events of a call
in what was recorded before gives what the call leaves. Then the log of any run gives that part of
the storage, and gave it at every moment before.
-/

namespace Calls

variable {A Op S E P X B : Type} {K : Contract A Op S E P X} {part : S → B} {record : B → E → B} {s₀ s : S}
  {es : List (Entry A Op S E)}

/-- The events of a call say what it did to `part`. -/
def Recorded (K : Contract A Op S E P X) (part : S → B) (record : B → E → B) : Prop :=
  ∀ a op s s' evs, K.body a op s = .ok (s', evs) → evs.foldl record (part s) = part s'

/-- The events of `es`, oldest first. -/
def eventsOf (es : List (Entry A Op S E)) : List E := es.flatMap (·.events)

theorem Recorded.trace (hr : Recorded K part record) (h : Trace K s₀ es s) :
    (eventsOf es).foldl record (part s₀) = part s := by
  induction h with
  | nil => rfl
  | @snoc es s a op s' evs _ hb ih =>
    rw [eventsOf, List.flatMap_append, List.foldl_append, ← eventsOf, ih, List.flatMap_singleton]
    exact hr a op s s' evs hb

section
variable {κ β : Type} [DecidableEq κ]

/-- The map after a write, if there is one. -/
def written (m : κ → β) : Option (κ × β) → κ → β
  | none => m
  | some w => Function.update m w.1 w.2

/-- A map that each event writes to at most once is the replay of these writes. -/
theorem foldl_written (f : B → κ → β) (write : E → Option (κ × β))
    (hf : ∀ b e, f (record b e) = written (f b) (write e)) (b : B) (log : List E) :
    f (log.foldl record b) = Replay.replay (f b) (log.filterMap write) := by
  induction log using List.reverseRecOn with
  | nil => rfl
  | append_singleton log e ih =>
    rw [List.foldl_append, List.foldl_cons, List.foldl_nil, hf, ih, List.filterMap_append]
    cases hw : write e with
    | none => simp [hw, written]
    | some w => simp [hw, written, Replay.replay_snoc]

end

end Calls
