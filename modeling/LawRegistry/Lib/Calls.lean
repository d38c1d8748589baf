import Mathlib.Data.List.Induction
/-!
# Contracts that are called, and call back

A contract is code over a storage of its own. An account calls one of its functions; the call
fails and changes nothing, or it changes the storage and emits events. A function may end in a
call to another account, whose code can call the contract again before it answers. The function
then accepts the answer or fails, and failing takes back everything since the call began, nested
calls included.

`Machine` keeps the functions that wait for an answer on a stack, so a run is a plain list of
steps and every nesting of calls, answers and failures is such a list. `run_trace` reduces the
runs to straight lines: the calls in effect form a `Trace`, and facts about traces are
inductions on a list.
-/

namespace Calls

/-- Accounts `A`, calls `Op`, storage `S`, events `E`, answers of a callee `P`, failures `X`. -/
structure Contract (A Op S E P X : Type) where
  init : S
  /-- The function called, up to its external call if it makes one. -/
  body : A → Op → S → Except X (S × List E)
  /-- What a function that ends in an external call does with the answer, where `none` is an
  account without code. -/
  hook : Op → Option (Option P → Except X Unit)

/-- A call in effect, with the storage before and after its body. -/
structure Entry (A Op S E : Type) where
  sender : A
  op : Op
  before : S
  after : S
  events : List E

/-- The storage, and the calls that made it. -/
structure World (A Op S E : Type) where
  storage : S
  journal : List (Entry A Op S E)

/-- A function that waits for an answer: the world to go back to, and its check. -/
structure Frame (A Op S E P X : Type) where
  saved : World A Op S E
  check : Option P → Except X Unit

structure Machine (A Op S E P X : Type) where
  world : World A Op S E
  stack : List (Frame A Op S E P X)

/-- An account calls (`code` says if the account this call hands over to has code), or the code
called last answers. -/
inductive Step (A Op P : Type) where
  | call (sender : A) (op : Op) (code : Bool)
  | reply (answer : P)

variable {A Op S E P X : Type}

namespace World

/-- The events of the calls in effect, oldest first. -/
def events (w : World A Op S E) : List E := w.journal.flatMap (·.events)

def commit (w : World A Op S E) (sender : A) (op : Op) (s : S) (evs : List E) : World A Op S E :=
  ⟨s, w.journal ++ [⟨sender, op, w.storage, s, evs⟩]⟩

@[simp] theorem commit_storage (w : World A Op S E) (a : A) (op : Op) (s : S) (evs : List E) :
    (w.commit a op s evs).storage = s := rfl

end World

/-- The contract at storage `s`, nothing pending. -/
def start (s : S) : Machine A Op S E P X := ⟨⟨s, []⟩, []⟩

section Semantics
variable (K : Contract A Op S E P X)

def exec (m : Machine A Op S E P X) : Step A Op P → Machine A Op S E P X
  | .call sender op code =>
    match K.body sender op m.world.storage with
    | .error _ => m
    | .ok (s, evs) =>
      match K.hook op, code with
      | none, _ => { m with world := m.world.commit sender op s evs }
      | some check, true => ⟨m.world.commit sender op s evs, ⟨m.world, check⟩ :: m.stack⟩
      | some check, false =>
        match check none with
        | .ok _ => { m with world := m.world.commit sender op s evs }
        | .error _ => m
  | .reply answer =>
    match m.stack with
    | [] => m
    | f :: rest =>
      match f.check (some answer) with
      | .ok _ => ⟨m.world, rest⟩
      | .error _ => ⟨f.saved, rest⟩

def run (m : Machine A Op S E P X) (steps : List (Step A Op P)) : Machine A Op S E P X :=
  steps.foldl (exec K) m

/-- The step does not fail: a call's body runs through (and, with no code to wait for, its check
passes too), an answer is accepted. -/
def accepts (m : Machine A Op S E P X) : Step A Op P → Bool
  | .call sender op code =>
    (K.body sender op m.world.storage).isOk &&
      match K.hook op with
      | none => true
      | some check => code || (check none).isOk
  | .reply answer =>
    match m.stack with
    | [] => false
    | f :: _ => (f.check (some answer)).isOk

/-- The calls `es` succeed one after the other and lead from `s₀` to `s`. -/
inductive Trace (s₀ : S) : List (Entry A Op S E) → S → Prop
  | nil : Trace s₀ [] s₀
  | snoc {es s a op s' evs} : Trace s₀ es s → K.body a op s = .ok (s', evs) →
      Trace s₀ (es ++ [⟨a, op, s, s', evs⟩]) s'

/-- A whole call that hands over, if it does, to an account that answers `answer` and does nothing else. -/
def outcome (a : A) (op : Op) (s : S) (answer : Option P) : Except X (S × List E) := do
  let r ← K.body a op s
  match K.hook op with
  | none => return r
  | some check =>
    check answer
    return r

end Semantics

variable {K : Contract A Op S E P X}

@[simp] theorem run_nil (m : Machine A Op S E P X) : run K m [] = m := rfl

@[simp] theorem run_cons (m : Machine A Op S E P X) (st : Step A Op P) (steps) :
    run K m (st :: steps) = run K (exec K m st) steps := rfl

theorem run_append (m : Machine A Op S E P X) (xs ys : List (Step A Op P)) :
    run K m (xs ++ ys) = run K (run K m xs) ys := List.foldl_append ..

/-! ## One step -/

/-- The five things a step can do: nothing, commit a call, commit it and wait for an answer,
accept the answer, or refuse it and go back. -/
theorem exec_cases (m : Machine A Op S E P X) (st : Step A Op P) :
    exec K m st = m ∨
    (∃ a op code s evs, st = .call a op code ∧ K.body a op m.world.storage = .ok (s, evs) ∧
      exec K m st = { m with world := m.world.commit a op s evs }) ∨
    (∃ a op s evs check, st = .call a op true ∧ K.body a op m.world.storage = .ok (s, evs) ∧
      exec K m st = ⟨m.world.commit a op s evs, ⟨m.world, check⟩ :: m.stack⟩) ∨
    (∃ f rest, m.stack = f :: rest ∧ exec K m st = ⟨m.world, rest⟩) ∨
    (∃ f rest, m.stack = f :: rest ∧ exec K m st = ⟨f.saved, rest⟩) := by
  cases st with
  | call a op code =>
    simp only [exec]
    cases hb : K.body a op m.world.storage with
    | error e => exact .inl rfl
    | ok r =>
      obtain ⟨s, evs⟩ := r
      cases hh : K.hook op with
      | none => exact .inr (.inl ⟨a, op, code, s, evs, rfl, hb, rfl⟩)
      | some check =>
        cases code with
        | true => exact .inr (.inr (.inl ⟨a, op, s, evs, check, rfl, hb, rfl⟩))
        | false =>
          cases hc : check none with
          | error e => exact .inl (by simp only [hc])
          | ok u => exact .inr (.inl ⟨a, op, false, s, evs, rfl, hb, by simp only [hc]⟩)
  | reply p =>
    simp only [exec]
    cases hs : m.stack with
    | nil => exact .inl rfl
    | cons f rest =>
      cases hc : f.check (some p) with
      | ok u => exact .inr (.inr (.inr (.inl ⟨f, rest, rfl, by simp only [hc]⟩)))
      | error e => exact .inr (.inr (.inr (.inr ⟨f, rest, rfl, by simp only [hc]⟩)))

/-- The world and every world it may still go back to. -/
def Machine.All (I : World A Op S E → Prop) (m : Machine A Op S E P X) : Prop :=
  I m.world ∧ ∀ f ∈ m.stack, I f.saved

/-- A step from `I` to `J`: what held keeps to `J`, and so does what a call commits. -/
theorem exec_all_of {I J : World A Op S E → Prop} {m : Machine A Op S E P X} {st : Step A Op P} (h : m.All I)
    (hmono : ∀ w, I w → J w)
    (hc : ∀ a op code s evs, st = .call a op code → K.body a op m.world.storage = .ok (s, evs) →
      J (m.world.commit a op s evs)) : (exec K m st).All J := by
  obtain ⟨hw, hf⟩ := h
  have hf' : ∀ f ∈ m.stack, J f.saved := fun f hm => hmono _ (hf f hm)
  rcases exec_cases m st with he | ⟨a, op, code, s, evs, hst, hb, he⟩ | ⟨a, op, s, evs, check, hst, hb, he⟩ |
    ⟨f, rest, hs, he⟩ | ⟨f, rest, hs, he⟩ <;> rw [he]
  · exact ⟨hmono _ hw, hf'⟩
  · exact ⟨hc _ _ _ _ _ hst hb, hf'⟩
  · refine ⟨hc _ _ _ _ _ hst hb, fun f hm => ?_⟩
    rcases List.mem_cons.1 hm with rfl | hm
    · exact hmono _ hw
    · exact hf' f hm
  · exact ⟨hmono _ hw, fun g hg => hf' g (by simp [hs, hg])⟩
  · exact ⟨hf' f (by simp [hs]), fun g hg => hf' g (by simp [hs, hg])⟩

/-- What committing a call keeps, a step keeps, also through the stack. -/
theorem exec_all {I : World A Op S E → Prop} {m : Machine A Op S E P X} {st : Step A Op P} (h : m.All I)
    (hc : ∀ w a op code s evs, st = .call a op code → I w → K.body a op w.storage = .ok (s, evs) →
      I (w.commit a op s evs)) :
    (exec K m st).All I :=
  exec_all_of h (fun _ hw => hw) fun _ _ _ _ _ hst hb => hc _ _ _ _ _ _ hst h.1 hb

theorem run_all {I : World A Op S E → Prop} {m : Machine A Op S E P X} {steps : List (Step A Op P)}
    (h : m.All I)
    (hc : ∀ w a op code s evs, .call a op code ∈ steps → I w → K.body a op w.storage = .ok (s, evs) →
      I (w.commit a op s evs)) :
    (run K m steps).All I := by
  induction steps generalizing m with
  | nil => exact h
  | cons st steps ih =>
    refine ih (exec_all h ?_) (fun w a op code s evs hm => hc w a op code s evs (List.mem_cons_of_mem _ hm))
    rintro w a op code s evs rfl
    exact hc w a op code s evs List.mem_cons_self

/-! ## Calls without a hook -/

section NoHook
variable {m : Machine A Op S E P X} {a : A} {op : Op} {code : Bool}

theorem exec_ok (hh : K.hook op = none) {s : S} {evs : List E} (hb : K.body a op m.world.storage = .ok (s, evs)) :
    exec K m (.call a op code) = { m with world := m.world.commit a op s evs } := by
  simp only [exec, hb, hh]

/-- A call that fails leaves everything as it was, with or without a hook. -/
theorem exec_error {x : X} (hb : K.body a op m.world.storage = .error x) : exec K m (.call a op code) = m := by
  simp only [exec, hb]

theorem accepts_call (hh : K.hook op = none) :
    accepts K m (.call a op code) = (K.body a op m.world.storage).isOk := by
  simp only [accepts, hh, Bool.and_true]

end NoHook

/-! ## Runs are traces -/

/-- Whatever was nested, refused or taken back, the calls in effect are a straight line from
where the run started. -/
theorem run_trace (s : S) (steps : List (Step A Op P)) :
    Trace K s (run K (start s) steps).world.journal (run K (start s) steps).world.storage := by
  refine (run_all (I := fun w => Trace K s w.journal w.storage) ⟨.nil, by simp [start]⟩ ?_).1
  intro w a op code s' evs _ hw hb
  exact .snoc hw hb

/-- Every call in effect was made by a step of the run. -/
theorem run_calls (s : S) (steps : List (Step A Op P)) :
    ∀ e ∈ (run K (start s) steps).world.journal, ∃ code, .call e.sender e.op code ∈ steps := by
  refine (run_all (I := fun w : World A Op S E => ∀ e ∈ w.journal, ∃ code, Step.call e.sender e.op code ∈ steps)
    ⟨by simp [start], by simp [start]⟩ ?_).1
  intro w a op code s' evs hm hw _ e he
  rcases List.mem_append.1 he with he | he
  · exact hw e he
  · rw [List.mem_singleton] at he; subst he; exact ⟨code, hm⟩

/-- A step makes at most one call. -/
theorem journal_length (s : S) (steps : List (Step A Op P)) :
    (run K (start s) steps).world.journal.length ≤ steps.length := by
  suffices h : ∀ (m : Machine A Op S E P X) n, m.All (fun w => w.journal.length ≤ n) →
      (run K m steps).world.journal.length ≤ n + steps.length by
    have h0 : (start s : Machine A Op S E P X).All fun w => w.journal.length ≤ 0 := by simp [Machine.All, start]
    simpa using h _ 0 h0
  induction steps with
  | nil => exact fun m n h => h.1
  | cons st steps ih =>
    intro m n h
    have hstep : (exec K m st).All fun w => w.journal.length ≤ n + 1 := by
      refine exec_all_of h (fun w hw => Nat.le_succ_of_le hw) fun a op code s evs _ _ => ?_
      simpa [World.commit] using h.1
    have hrun := ih _ _ hstep
    rw [run_cons, List.length_cons]
    omega

/-- A split of `es ++ [x]` at `e` is at the last element, or a split of `es`. -/
theorem Trace.snoc_split {α : Type} {es pre post : List α} {x e : α} (h : es ++ [x] = pre ++ e :: post) :
    (es = pre ∧ x = e ∧ post = []) ∨ ∃ mid, post = mid ++ [x] ∧ es = pre ++ e :: mid := by
  cases post using List.reverseRecOn with
  | nil => exact .inl ⟨(List.append_inj' h rfl).1, by simpa using (List.append_inj' h rfl).2, rfl⟩
  | append_singleton mid y =>
    have hs : es ++ [x] = (pre ++ e :: mid) ++ [y] := by simpa using h
    have hy : x = y := by simpa using (List.append_inj' hs rfl).2
    exact .inr ⟨mid, by rw [hy], (List.append_inj' hs rfl).1⟩

/-- At each call in effect, a run up to some call step was where this call found the storage. -/
theorem run_prefix (s : S) (steps : List (Step A Op P)) {pre post : List (Entry A Op S E)} {e : Entry A Op S E}
    (he : (run K (start s) steps).world.journal = pre ++ e :: post) :
    ∃ before after code, steps = before ++ .call e.sender e.op code :: after ∧
      (run K (start s) before).world.journal = pre ∧ (run K (start s) before).world.storage = e.before := by
  suffices h : (run K (start s) steps).All fun w => ∀ pre e post, w.journal = pre ++ e :: post →
      ∃ before after code, steps = before ++ .call e.sender e.op code :: after ∧
        (run K (start s) before).world.journal = pre ∧ (run K (start s) before).world.storage = e.before from
    h.1 pre e post he
  clear he
  induction steps using List.reverseRecOn with
  | nil => exact ⟨by simp [start], by simp [start]⟩
  | append_singleton steps st ih =>
    rw [run_append]
    refine exec_all_of ih (fun w hw pre e post he => ?_) fun a op code s' evs hst _ pre e post he => ?_
    · obtain ⟨before, after, code, hsteps, hrest⟩ := hw pre e post he
      exact ⟨before, after ++ [st], code, by rw [hsteps]; simp, hrest⟩
    · -- The last call is the step just made, the others were made before.
      rcases Trace.snoc_split he with ⟨hpre, hlast, rfl⟩ | ⟨mid, rfl, hmid⟩
      · rw [← hlast, hst]
        exact ⟨steps, [], code, rfl, hpre, rfl⟩
      · obtain ⟨before, after, code, hsteps, hrest⟩ := ih.1 pre e mid hmid
        exact ⟨before, after ++ [st], code, by rw [hsteps]; simp, hrest⟩

namespace Trace

theorem nil_eq {s₀ s : S} (h : Trace K s₀ [] s) : s₀ = s := by
  generalize hes : ([] : List (Entry A Op S E)) = es at h
  cases h with
  | nil => rfl
  | snoc => simp at hes

/-- A trace splits at each of its calls. -/
theorem split {s₀ s : S} {es : List (Entry A Op S E)} (h : Trace K s₀ es s) :
    ∀ {pre e post}, es = pre ++ e :: post →
      Trace K s₀ pre e.before ∧ K.body e.sender e.op e.before = .ok (e.after, e.events) ∧
        Trace K e.after post s := by
  induction h with
  | nil => intro pre e post he; simp at he
  | @snoc es s a op s' evs ht hb ih =>
    intro pre e post he
    rcases snoc_split he with ⟨rfl, rfl, rfl⟩ | ⟨mid, rfl, rfl⟩
    · exact ⟨ht, hb, .nil⟩
    · obtain ⟨h1, h2, h3⟩ := ih rfl
      exact ⟨h1, h2, .snoc h3 hb⟩

/-- An invariant that every call of the trace keeps holds at its end. -/
theorem inv {I : S → Prop} {s₀ s : S} {es : List (Entry A Op S E)} (h : Trace K s₀ es s) (h0 : I s₀)
    (hs : ∀ e ∈ es, I e.before → K.body e.sender e.op e.before = .ok (e.after, e.events) → I e.after) :
    I s := by
  induction h with
  | nil => exact h0
  | @snoc es s a op s' evs _ hb ih =>
    have hI : I s := ih fun e he => hs e (List.mem_append_left _ he)
    exact hs ⟨a, op, s, s', evs⟩ (by simp) hI hb

end Trace

end Calls
