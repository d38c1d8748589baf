import Mathlib.Data.List.Forall2
import Mathlib.Data.Option.Basic
import Mathlib.Logic.Relation
/-!
# Forward simulation

A system goes from state to state, and on each action something is seen. If every step of one
system can be followed by another, seeing the same, then so can every run. Actions have a cost,
and the simulation may count on a bound for the cost of the run.
-/

namespace Forward

variable {S T A O : Type}

/-- `sys s a o s'`: on action `a` the system goes from `s` to `s'`, and `o` is seen. -/
abbrev System (S A O : Type) := S → A → O → S → Prop

/-- A run, with its actions and what is seen of them. -/
inductive Runs (sys : System S A O) : S → List (A × O) → S → Prop
  | nil (s : S) : Runs sys s [] s
  | cons {s a o s' seen s''} : sys s a o s' → Runs sys s' seen s'' → Runs sys s ((a, o) :: seen) s''

/-- Each step from related states on an action of `P` is followed, as long as the actions cost no more than
`bound`. -/
def Follows (sys : System S A O) (spec : System T A O) (P : A → Prop) (cost : A → Nat) (bound : Nat)
    (R : Nat → S → T → Prop) : Prop :=
  ∀ n s t a o s', R n s t → P a → n + cost a ≤ bound → sys s a o s' → ∃ t', spec t a o t' ∧ R (n + cost a) s' t'

variable {sys : System S A O} {spec : System T A O} {P : A → Prop} {cost : A → Nat} {bound : Nat}
  {R : Nat → S → T → Prop}

def total (cost : A → Nat) : List (A × O) → Nat
  | [] => 0
  | (a, _) :: seen => cost a + total cost seen

theorem Follows.run (hf : Follows sys spec P cost bound R) {n : Nat} {s s' : S} {t : T} {seen : List (A × O)}
    (hr : R n s t) (hrun : Runs sys s seen s') (hP : ∀ x ∈ seen, P x.1) (hcost : n + total cost seen ≤ bound) :
    ∃ t', Runs spec t seen t' ∧ R (n + total cost seen) s' t' := by
  induction hrun generalizing n t with
  | nil s => exact ⟨t, .nil t, hr⟩
  | @cons s a o s₁ seen s₂ hstep _ ih =>
    rw [total] at hcost
    obtain ⟨t₁, hspec, hr₁⟩ := hf n s t a o s₁ hr (hP _ List.mem_cons_self) (by omega) hstep
    obtain ⟨t₂, hruns, hr₂⟩ := ih hr₁ (fun x hx => hP x (List.mem_cons_of_mem _ hx)) (by omega)
    refine ⟨t₂, .cons hspec hruns, ?_⟩
    rw [total, ← Nat.add_assoc]
    exact hr₂

/-- What is seen when a system that is a function takes the actions one after the other, and where it gets. -/
def play (step : S → A → S × O) (s : S) : List A → List O × S
  | [] => ([], s)
  | a :: actions =>
    let (s', o) := step s a
    let (os, s'') := play step s' actions
    (o :: os, s'')

theorem runs_play {step : S → A → S × O} {s : S} {seen : List (A × O)}
    (h : (play step s (seen.map (·.1))).1 = seen.map (·.2)) :
    Runs (fun s a o s' => step s a = (s', o)) s seen (play step s (seen.map (·.1))).2 := by
  induction seen generalizing s with
  | nil => exact .nil s
  | cons x seen ih =>
    obtain ⟨a, o⟩ := x
    simp only [play, List.map_cons, List.cons.injEq] at h ⊢
    exact .cons (Prod.ext rfl h.1) (ih h.2)

/-- A list of steps that all go through leads somewhere by such steps. -/
theorem reach_of_foldlM {C E : Type} {f : C → E → Option C} {es : List E} {c c' : C} (h : es.foldlM f c = some c') :
    Relation.ReflTransGen (fun c c' => ∃ e ∈ es, f c e = some c') c c' := by
  induction es generalizing c with
  | nil => cases h; exact .refl
  | cons e es ih =>
    rw [List.foldlM_cons, Option.bind_eq_bind, Option.bind_eq_some_iff] at h
    obtain ⟨c₁, hc₁, h⟩ := h
    refine .head ⟨e, List.mem_cons_self, hc₁⟩ (Relation.ReflTransGen.mono ?_ c₁ c' (ih h))
    rintro a b ⟨x, hx, hf⟩
    exact ⟨x, List.mem_cons_of_mem _ hx, hf⟩

/-! ## Lists that correspond, item by item -/

section
variable {α β : Type} {Q : α → β → Prop} {xs : List α} {ys : List β}

theorem forall₂_getElem? (h : List.Forall₂ Q xs ys) (n : Nat) : Option.Rel Q xs[n]? ys[n]? := by
  induction h generalizing n with
  | nil => exact .none
  | cons hxy _ ih =>
    cases n with
    | zero => exact .some hxy
    | succ n => simpa using ih n

theorem forall₂_eraseIdx (h : List.Forall₂ Q xs ys) (n : Nat) : List.Forall₂ Q (xs.eraseIdx n) (ys.eraseIdx n) := by
  induction h generalizing n with
  | nil => exact .nil
  | cons hxy hrest ih =>
    cases n with
    | zero => exact hrest
    | succ n => exact .cons hxy (ih n)

theorem forall₂_concat (h : List.Forall₂ Q xs ys) {x : α} {y : β} (hxy : Q x y) :
    List.Forall₂ Q (xs ++ [x]) (ys ++ [y]) := by
  induction h with
  | nil => exact .cons hxy .nil
  | cons h _ ih => exact .cons h ih

end

end Forward
