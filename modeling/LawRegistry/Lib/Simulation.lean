import LawRegistry.Lib.Calls
/-!
# Contracts in lockstep

Two contracts, called with the same steps. If from related storages their bodies fail together, or
succeed together with related storages, then so do the machines: they stay related, also where a
hook is refused and both go back, and they accept the same steps.
-/

namespace Calls

variable {A Op P X S₁ S₂ E₁ E₂ : Type} {R : S₁ → S₂ → Prop}

/-- Both fail, or both succeed with related storages. -/
inductive Agree (R : S₁ → S₂ → Prop) : Except X (S₁ × List E₁) → Except X (S₂ × List E₂) → Prop
  | ok {s₁ s₂ evs₁ evs₂} : R s₁ s₂ → Agree R (.ok (s₁, evs₁)) (.ok (s₂, evs₂))
  | error {x₁ x₂} : Agree R (.error x₁) (.error x₂)

/-- The storages are related, and so are those the machines may go back to. -/
structure Related (R : S₁ → S₂ → Prop) (m₁ : Machine A Op S₁ E₁ P X) (m₂ : Machine A Op S₂ E₂ P X) : Prop where
  world : R m₁.world.storage m₂.world.storage
  stack : List.Forall₂ (fun f g => R f.saved.storage g.saved.storage ∧ f.check = g.check) m₁.stack m₂.stack

variable {K₁ : Contract A Op S₁ E₁ P X} {K₂ : Contract A Op S₂ E₂ P X} {m₁ : Machine A Op S₁ E₁ P X}
  {m₂ : Machine A Op S₂ E₂ P X}

theorem start_related {s₁ : S₁} {s₂ : S₂} (h : R s₁ s₂) :
    Related R (start s₁ : Machine A Op S₁ E₁ P X) (start s₂ : Machine A Op S₂ E₂ P X) := ⟨h, .nil⟩

/-- One step: the machines stay related, and accept it or not together. -/
theorem exec_related (hhook : K₁.hook = K₂.hook) (h : Related R m₁ m₂) {st : Step A Op P}
    (hbody : ∀ a op code, st = .call a op code →
      Agree R (K₁.body a op m₁.world.storage) (K₂.body a op m₂.world.storage)) :
    Related R (exec K₁ m₁ st) (exec K₂ m₂ st) ∧ accepts K₁ m₁ st = accepts K₂ m₂ st := by
  obtain ⟨hw, hs⟩ := h
  cases st with
  | call a op code =>
    have hb := hbody a op code rfl
    generalize h₁ : K₁.body a op m₁.world.storage = r₁ at hb
    generalize h₂ : K₂.body a op m₂.world.storage = r₂ at hb
    simp only [exec, accepts, h₁, h₂, hhook]
    cases hb with
    | error => exact ⟨⟨hw, hs⟩, rfl⟩
    | ok hr =>
      refine ⟨?_, rfl⟩
      cases K₂.hook op with
      | none => exact ⟨hr, hs⟩
      | some check =>
        cases code with
        | true => exact ⟨hr, .cons ⟨hw, rfl⟩ hs⟩
        | false =>
          cases hc : check none with
          | ok u => simpa only [hc] using ⟨hr, hs⟩
          | error e => simpa only [hc] using ⟨hw, hs⟩
  | reply p =>
    obtain ⟨w₁, st₁⟩ := m₁
    obtain ⟨w₂, st₂⟩ := m₂
    simp only [exec, accepts]
    cases hs with
    | nil => exact ⟨⟨hw, .nil⟩, rfl⟩
    | @cons f g rest₁ rest₂ hf hrest =>
      obtain ⟨hsaved, hcheck⟩ := hf
      simp only [hcheck, and_true]
      cases hc : g.check (some p) with
      | ok u => simpa only [hc] using ⟨hw, hrest⟩
      | error e => simpa only [hc] using ⟨hsaved, hrest⟩

variable {G : S₂ → Prop} {s₁ : S₁} {s₂ : S₂} {steps : List (Step A Op P)}

/-- A run: what relates two storages keeps relating them, while `G` holds before each step. -/
theorem run_related (hhook : K₁.hook = K₂.hook) (h0 : R s₁ s₂)
    (hbody : ∀ a op t₁ t₂, R t₁ t₂ → G t₂ → Agree R (K₁.body a op t₁) (K₂.body a op t₂))
    (hG : ∀ pre st post, steps = pre ++ st :: post → G (run K₂ (start s₂) pre).world.storage) :
    Related R (run K₁ (start s₁) steps) (run K₂ (start s₂) steps) := by
  induction steps using List.reverseRecOn with
  | nil => exact start_related h0
  | append_singleton steps st ih =>
    have hrel := ih fun pre st' post he => hG pre st' (post ++ [st]) (by simp [he])
    rw [run_append, run_append]
    exact (exec_related hhook hrel fun a op _ _ => hbody a op _ _ hrel.world (hG steps st [] rfl)).1

/-- Both accept the same steps of a run. -/
theorem accepts_related (hhook : K₁.hook = K₂.hook) (h0 : R s₁ s₂)
    (hbody : ∀ a op t₁ t₂, R t₁ t₂ → G t₂ → Agree R (K₁.body a op t₁) (K₂.body a op t₂))
    (hG : ∀ pre st post, steps = pre ++ st :: post → G (run K₂ (start s₂) pre).world.storage)
    {pre post : List (Step A Op P)} {st : Step A Op P} (he : steps = pre ++ st :: post) :
    accepts K₁ (run K₁ (start s₁) pre) st = accepts K₂ (run K₂ (start s₂) pre) st := by
  have hG' : ∀ pre' st' post', pre = pre' ++ st' :: post' → G (run K₂ (start s₂) pre').world.storage :=
    fun pre' st' post' he' => hG pre' st' (post' ++ st :: post) (by simp [he, he'])
  have hrel := run_related hhook h0 hbody hG'
  exact (exec_related hhook hrel fun a op _ _ => hbody a op _ _ hrel.world (hG pre st post he)).2

end Calls
