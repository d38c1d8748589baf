import LawRegistry.Lib.Calls
/-!
# Nested calls

The recursive reading of a contract: a call runs its body, hands over to code that makes calls of
its own, and then looks at the answer. A `Forest` is a list of such calls, and `eval` runs it the
way the source is written, one call inside another. `settled_iff` says that the step machine
leads, with nothing pending, exactly where forests lead, and `run_flat` that calls without
callbacks lead there too, if the contract accepts accounts without code.
-/

namespace Calls

/-- Calls one after the other. After `into` the code called makes the calls `nested`, then answers. -/
inductive Forest (A Op P : Type) where
  | nil
  | call (sender : A) (op : Op) (rest : Forest A Op P)
  | into (sender : A) (op : Op) (nested : Forest A Op P) (answer : P) (rest : Forest A Op P)

variable {A Op S E P X : Type}

namespace Forest

/-- First `f`, then `g`. -/
def append : Forest A Op P → Forest A Op P → Forest A Op P
  | nil, g => g
  | call a op rest, g => call a op (rest.append g)
  | into a op nested answer rest, g => into a op nested answer (rest.append g)

end Forest

section Semantics
variable (K : Contract A Op S E P X)

/-- A call with the answer `answer` of the code it hands over to; `callee` is what that code does
before it answers. A call without a hook does not hand over. -/
def handOver (w : World A Op S E) (a : A) (op : Op) (callee : World A Op S E → World A Op S E)
    (answer : Option P) : World A Op S E :=
  match K.body a op w.storage with
  | .error _ => w
  | .ok (s, evs) =>
    match K.hook op with
    | none => w.commit a op s evs
    | some check =>
      match check answer with
      | .ok _ => callee (w.commit a op s evs)
      | .error _ => w

def Forest.eval : Forest A Op P → World A Op S E → World A Op S E
  | nil, w => w
  | call a op rest, w => rest.eval (handOver K w a op id none)
  | into a op nested answer rest, w => rest.eval (handOver K w a op nested.eval (some answer))

end Semantics

variable {K : Contract A Op S E P X} {w w' : World A Op S E} {a : A} {op : Op}
  {callee : World A Op S E → World A Op S E} {answer : Option P}

theorem Forest.eval_append (f g : Forest A Op P) (w : World A Op S E) :
    (f.append g).eval K w = g.eval K (f.eval K w) := by
  induction f generalizing w with
  | nil => rfl
  | call a op rest ih => exact ih _
  | into a op nested answer rest _ ih => exact ih _

/-! ## One call -/

theorem handOver_error {x : X} (hb : K.body a op w.storage = .error x) : handOver K w a op callee answer = w := by
  simp only [handOver, hb]

theorem handOver_plain {s : S} {evs : List E} (hb : K.body a op w.storage = .ok (s, evs)) (hh : K.hook op = none) :
    handOver K w a op callee answer = w.commit a op s evs := by
  simp only [handOver, hb, hh]

theorem handOver_accept {s : S} {evs : List E} {check : Option P → Except X Unit} {u : Unit}
    (hb : K.body a op w.storage = .ok (s, evs)) (hh : K.hook op = some check) (hc : check answer = .ok u) :
    handOver K w a op callee answer = callee (w.commit a op s evs) := by
  simp only [handOver, hb, hh, hc]

/-- An answer that is refused takes back the call, and all the code called did. -/
theorem handOver_refuse {s : S} {evs : List E} {check : Option P → Except X Unit} {x : X}
    (hb : K.body a op w.storage = .ok (s, evs)) (hh : K.hook op = some check) (hc : check answer = .error x) :
    handOver K w a op callee answer = w := by
  simp only [handOver, hb, hh, hc]

/-! ## A forest is a run -/

/-- The step that makes a call to an account without code does what the call does. -/
theorem exec_plain (w : World A Op S E) (stack : List (Frame A Op S E P X)) (a : A) (op : Op) :
    exec K ⟨w, stack⟩ (.call a op false) = ⟨handOver K w a op id none, stack⟩ := by
  cases hb : K.body a op w.storage with
  | error x => simp only [exec, hb, handOver_error hb]
  | ok r =>
    obtain ⟨s, evs⟩ := r
    cases hh : K.hook op with
    | none => simp only [exec, hb, hh, handOver_plain hb hh]
    | some check =>
      cases hc : check none with
      | ok u => simp only [exec, hb, hh, hc, handOver_accept hb hh hc, id_eq]
      | error x => simp only [exec, hb, hh, hc, handOver_refuse hb hh hc]

/-- The steps of a forest, whatever waits on the stack. The steps are only those that the code
called really takes, so they depend on the world. -/
theorem Forest.exists_steps (f : Forest A Op P) (w : World A Op S E) :
    ∃ steps, ∀ stack : List (Frame A Op S E P X), run K ⟨w, stack⟩ steps = ⟨f.eval K w, stack⟩ := by
  induction f generalizing w with
  | nil => exact ⟨[], fun _ => rfl⟩
  | call a op rest ih =>
    obtain ⟨steps, hsteps⟩ := ih (handOver K w a op id none)
    refine ⟨.call a op false :: steps, fun stack => ?_⟩
    rw [run_cons, exec_plain]
    exact hsteps stack
  | into a op nested answer rest ihn ihr =>
    obtain ⟨steps, hsteps⟩ := ihr (handOver K w a op (nested.eval K) (some answer))
    cases hb : K.body a op w.storage with
    | error x =>
      rw [handOver_error hb] at hsteps
      refine ⟨steps, fun stack => ?_⟩
      rw [hsteps stack, Forest.eval, handOver_error hb]
    | ok r =>
      obtain ⟨s, evs⟩ := r
      cases hh : K.hook op with
      | none =>
        rw [handOver_plain hb hh] at hsteps
        refine ⟨.call a op false :: steps, fun stack => ?_⟩
        rw [run_cons, exec_plain, handOver_plain hb hh, hsteps stack, Forest.eval, handOver_plain hb hh]
      | some check =>
        -- The code called runs above the frame that waits for it.
        obtain ⟨inner, hinner⟩ := ihn (w.commit a op s evs)
        have hcall (stack : List (Frame A Op S E P X)) :
            run K ⟨w, stack⟩ (.call a op true :: inner) =
              ⟨nested.eval K (w.commit a op s evs), ⟨w, check⟩ :: stack⟩ := by
          rw [run_cons, ← hinner]
          simp only [exec, hb, hh]
        refine ⟨.call a op true :: inner ++ .reply answer :: steps, fun stack => ?_⟩
        rw [run_append, hcall, run_cons, Forest.eval]
        cases hc : check (some answer) with
        | ok u =>
          rw [handOver_accept hb hh hc] at hsteps ⊢
          rw [← hsteps]
          simp only [exec, hc]
        | error x =>
          rw [handOver_refuse hb hh hc] at hsteps ⊢
          rw [← hsteps]
          simp only [exec, hc]

/-! ## A run is a forest -/

/-- `m` as nested calls from `w₀` on: below, the calls made before the oldest one that still waits,
and above each frame the calls made since. -/
inductive Nested (K : Contract A Op S E P X) (w₀ : World A Op S E) : Machine A Op S E P X → Prop
  | settled (f : Forest A Op P) : Nested K w₀ ⟨f.eval K w₀, []⟩
  | waiting {w : World A Op S E} {stack a op s evs check} (f : Forest A Op P) : Nested K w₀ ⟨w, stack⟩ →
      K.body a op w.storage = .ok (s, evs) → K.hook op = some check →
      Nested K w₀ ⟨f.eval K (w.commit a op s evs), ⟨w, check⟩ :: stack⟩

/-- Calls that come to an end go to the end of the innermost forest. -/
theorem Nested.eval {w₀ : World A Op S E} {m : Machine A Op S E P X} (h : Nested K w₀ m) (g : Forest A Op P) :
    Nested K w₀ ⟨g.eval K m.world, m.stack⟩ := by
  cases h with
  | settled f =>
    rw [← Forest.eval_append]
    exact .settled _
  | waiting f h hb hh =>
    rw [← Forest.eval_append]
    exact .waiting _ h hb hh

theorem Nested.exec {w₀ : World A Op S E} {m : Machine A Op S E P X} (h : Nested K w₀ m) (st : Step A Op P) :
    Nested K w₀ (exec K m st) := by
  cases st with
  | call a op code =>
    obtain ⟨w, stack⟩ := m
    cases code with
    | false =>
      rw [exec_plain]
      exact h.eval (.call a op .nil)
    | true =>
      cases hb : K.body a op w.storage with
      | error x => rwa [exec_error hb]
      | ok r =>
        obtain ⟨s, evs⟩ := r
        cases hh : K.hook op with
        | none =>
          have hcall := h.eval (.call a op .nil)
          simp only [Forest.eval, handOver_plain hb hh] at hcall
          rwa [exec_ok hh hb]
        | some check =>
          have hwait := Nested.waiting .nil h hb hh
          simp only [Calls.exec, hb, hh]
          exact hwait
  | reply answer =>
    cases h with
    | settled f => exact .settled f
    | @waiting w stack a op s evs check f h hb hh =>
      -- The call that waited is over: one tree more below.
      have hcall := h.eval (.into a op f answer .nil)
      simp only [Calls.exec]
      cases hc : check (some answer) with
      | ok u =>
        simp only [Forest.eval, handOver_accept hb hh hc] at hcall
        exact hcall
      | error x => exact h

theorem Nested.run {w₀ : World A Op S E} {m : Machine A Op S E P X} (h : Nested K w₀ m) (steps : List (Step A Op P)) :
    Nested K w₀ (run K m steps) := by
  induction steps generalizing m with
  | nil => exact h
  | cons st steps ih => exact ih (h.exec st)

/-- With nothing pending, the step machine is where nested calls lead. -/
theorem settled_iff {s : S} :
    (∃ steps, run K (start s) steps = ⟨w, []⟩) ↔ ∃ f : Forest A Op P, f.eval K ⟨s, []⟩ = w := by
  constructor
  · rintro ⟨steps, hrun⟩
    have h : Nested K ⟨s, []⟩ (Calls.run K (start s) steps) := Nested.run (.settled .nil) steps
    rw [hrun] at h
    cases h with
    | settled f => exact ⟨f, rfl⟩
  · rintro ⟨f, rfl⟩
    obtain ⟨steps, hsteps⟩ := f.exists_steps (K := K) ⟨s, []⟩
    exact ⟨steps, hsteps []⟩

/-! ## Without callbacks -/

/-- A contract that accepts an account without code. -/
def AcceptsPlain (K : Contract A Op S E P X) : Prop := ∀ op check, K.hook op = some check → ∃ u, check none = .ok u

/-- A call to an account without code is committed if its body runs through. -/
theorem exec_commit (hK : AcceptsPlain K) {m : Machine A Op S E P X} {s : S} {evs : List E}
    (hb : K.body a op m.world.storage = .ok (s, evs)) :
    exec K m (.call a op false) = { m with world := m.world.commit a op s evs } := by
  obtain ⟨w, stack⟩ := m
  rw [exec_plain]
  cases hh : K.hook op with
  | none => rw [handOver_plain hb hh]
  | some check =>
    obtain ⟨u, hc⟩ := hK op check hh
    rw [handOver_accept hb hh hc, id_eq]

/-- The calls `es`, made again one by one to accounts without code. -/
def Trace.flat (es : List (Entry A Op S E)) : List (Step A Op P) := es.map fun e => .call e.sender e.op false

/-- The calls of a trace, made without callbacks, have the same effect. -/
theorem Trace.run_flat (hK : AcceptsPlain K) {s₀ s : S} {es : List (Entry A Op S E)} (h : Trace K s₀ es s) :
    run K (start s₀) (flat es) = ⟨⟨s, es⟩, []⟩ := by
  induction h with
  | nil => rfl
  | @snoc es s a op s' evs _ hb ih =>
    rw [flat, List.map_append, run_append, ← flat, ih]
    exact exec_commit hK hb

/-! ## The calls in effect are among the calls made -/

/-- The calls of a run, in effect or not. -/
def callsMade (steps : List (Step A Op P)) : List (A × Op) := steps.filterMap fun
  | .call a op _ => some (a, op)
  | .reply _ => none

def World.calls (w : World A Op S E) : List (A × Op) := w.journal.map fun e => (e.sender, e.op)

/-- The entries of a trace as calls without callbacks. -/
theorem Trace.flat_eq (w : World A Op S E) :
    (Trace.flat w.journal : List (Step A Op P)) = w.calls.map fun c => .call c.1 c.2 false := by
  rw [flat, World.calls, List.map_map]
  rfl

theorem calls_sublist (s : S) (steps : List (Step A Op P)) :
    (run K (start s) steps).world.calls.Sublist (callsMade steps) := by
  suffices h : (run K (start s) steps).All fun w => w.calls.Sublist (callsMade steps) from h.1
  induction steps using List.reverseRecOn with
  | nil => exact ⟨List.Sublist.refl _, by simp [start]⟩
  | append_singleton steps st ih =>
    have happ : callsMade (steps ++ [st]) = callsMade steps ++ callsMade [st] := List.filterMap_append ..
    rw [run_append, happ]
    refine exec_all_of ih (fun w hw => hw.trans (List.sublist_append_left ..)) ?_
    rintro a op code s evs rfl -
    rw [World.calls, World.commit, List.map_append]
    exact ih.1.append (List.Sublist.refl _)

end Calls
