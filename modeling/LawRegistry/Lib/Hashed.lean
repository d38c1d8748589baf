import Mathlib.Data.Set.Function
/-!
# Maps kept under hashes

What a map holds under names, another map holds under the hashes of the names. On a set of names
where the hash does not collide, writing under a name and under its hash keeps it so.
-/

namespace Hashed

variable {ν κ β γ : Type}

/-- Under the hash of each name in `U`, `m'` holds what `m` holds under the name, up to `R`. -/
def Kept (hash : ν → κ) (U : Set ν) (R : ν → β → γ → Prop) (m : ν → β) (m' : κ → γ) : Prop :=
  ∀ n ∈ U, R n (m n) (m' (hash n))

variable {hash : ν → κ} {U : Set ν} {R : ν → β → γ → Prop} {m : ν → β} {m' : κ → γ} {n : ν} {b : β} {c : γ}

theorem Kept.update [DecidableEq ν] [DecidableEq κ] (h : Kept hash U R m m') (hinj : Set.InjOn hash U) (hn : n ∈ U)
    (hr : R n b c) : Kept hash U R (Function.update m n b) (Function.update m' (hash n) c) := by
  intro x hx
  by_cases hxn : x = n
  · subst hxn
    rwa [Function.update_self, Function.update_self]
  · have hne : hash x ≠ hash n := fun he => hxn (hinj hx hn he)
    rw [Function.update_of_ne hxn, Function.update_of_ne hne]
    exact h x hx

end Hashed
