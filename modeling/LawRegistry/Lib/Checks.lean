/-!
# Checks in order

Code that makes one check after the other, and fails with the reason of the first that does not hold.
So the checks, in their order, say when the code fails and why.
-/

namespace Checks

/-- Why a computation failed, if it did. -/
def reason {ε α : Type} : Except ε α → Option ε
  | .ok _ => none
  | .error e => some e

/-- The reason of the first check that does not hold. -/
def first {ε : Type} : List (Bool × ε) → Option ε
  | [] => none
  | (holds, e) :: checks => if holds then first checks else some e

section
variable {ε α β : Type} {x : Except ε α} {f : α → Except ε β} {e : ε} {checks checks' : List (Bool × ε)}

theorem reason_error : reason x = some e ↔ x = .error e := by
  cases x with
  | ok a => exact iff_of_false (fun h => nomatch h) fun h => nomatch h
  | error e' =>
    constructor <;> intro h <;> cases h <;> rfl

theorem first_append : first (checks ++ checks') = (first checks).or (first checks') := by
  induction checks with
  | nil => rfl
  | cons c checks ih =>
    obtain ⟨holds, e⟩ := c
    cases holds with
    | true => exact ih
    | false => rfl

/-- What comes after a computation is checked if that went through. -/
theorem reason_bind (hx : reason x = first checks) (hf : ∀ a, x = .ok a → reason (f a) = first checks') :
    reason (x >>= f) = first (checks ++ checks') := by
  rw [first_append, ← hx]
  cases x with
  | ok a => exact hf a rfl
  | error e => rfl

theorem reason_bind_ok {a : α} (hx : x = .ok a) : reason (x >>= f) = reason (f a) := by
  rw [hx]
  rfl

theorem reason_mapped (g : α → β) : reason (x.map g) = reason x := by
  cases x <;> rfl

theorem reason_map (g : α → β) : reason (x >>= fun a => pure (g a)) = reason x := by
  cases x <;> rfl

theorem reason_passed {a : α} (h : x = .ok a) : reason x = first [] := by
  rw [h]
  rfl

end

end Checks
