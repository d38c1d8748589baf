import LawRegistry.Lib.Nesting
/-!
# Code that calls out anywhere

`Calls.Contract` allows one external call, at a function's end. Here a function is `Code`: it reads,
writes and emits before and after each of its external calls, and may make many. A function that
waits stays on the stack with all it has left to do, and finds whatever the code called made of
the storage. Such a machine can do what no order of its calls does (the example at the end).

`Refines F K` says that the functions `F` only ever do what the contract `K` says: after the call out
they look at the answer, and no more. Then both machines run in lockstep, and `run_flat` says that
callbacks add nothing.
-/

namespace CallOut

/-- Code over a storage `S`, with events `E`, failures `X`, external calls `C` and their answers `P`,
where `none` is an account without code. -/
inductive Code (C S E P X α : Type) where
  | ret (a : α)
  | fail (x : X)
  | read (rest : S → Code C S E P X α)
  | write (s : S) (events : List E) (rest : Code C S E P X α)
  | out (callee : C) (rest : Option P → Code C S E P X α)

variable {A Op C S E P X α β : Type}

namespace Code

def bind : Code C S E P X α → (α → Code C S E P X β) → Code C S E P X β
  | ret a, f => f a
  | fail x, _ => fail x
  | read rest, f => read fun s => (rest s).bind f
  | write s events rest, f => write s events (rest.bind f)
  | out callee rest, f => out callee fun answer => (rest answer).bind f

instance : Monad (Code C S E P X) where
  pure := ret
  bind := bind

/-- A function that changes nothing. -/
def view (f : S → Except X α) : Code C S E P X α := read fun s =>
  match f s with
  | .ok a => ret a
  | .error x => fail x

/-- A function without external calls. -/
def change (f : S → Except X (S × List E)) : Code C S E P X Unit := read fun s =>
  match f s with
  | .ok (s', events) => write s' events (ret ())
  | .error x => fail x

def callOut (callee : C) : Code C S E P X (Option P) := out callee ret

end Code

/-- The storage, and the events so far. -/
structure Store (S E : Type) where
  storage : S
  log : List E

/-- Where code stops: it is over, or waits for the answer of `callee`. -/
inductive Stop (C S E P X α : Type) where
  | over (a : α)
  | waiting (callee : C) (rest : P → Code C S E P X α)

/-- Runs the code up to its next stop; `code` says which accounts have code. -/
def Code.go (code : C → Bool) : Code C S E P X α → Store S E → Except X (Store S E × Stop C S E P X α)
  | ret a, w => .ok (w, .over a)
  | fail x, _ => .error x
  | read rest, w => (rest w.storage).go code w
  | write s events rest, w => rest.go code ⟨s, w.log ++ events⟩
  | out callee rest, w =>
    if code callee then .ok (w, .waiting callee fun answer => rest (some answer)) else (rest none).go code w

/-- A function that waits: the store to go back to, the account called, and what is left to do. -/
structure Frame (C S E P X : Type) where
  saved : Store S E
  callee : C
  rest : P → Code C S E P X Unit

structure Machine (C S E P X : Type) where
  world : Store S E
  stack : List (Frame C S E P X)

/-- An account calls, or the code called last answers. -/
inductive Move (A Op C P : Type) where
  | call (sender : A) (op : Op) (code : C → Bool)
  | reply (answer : P) (code : C → Bool)

def start (s : S) : Machine C S E P X := ⟨⟨s, []⟩, []⟩

/-- What becomes of a function that began at `saved`: if it fails, all since then is taken back. -/
def settle (saved : Store S E) (below : List (Frame C S E P X)) :
    Except X (Store S E × Stop C S E P X Unit) → Machine C S E P X
  | .error _ => ⟨saved, below⟩
  | .ok (w, .over _) => ⟨w, below⟩
  | .ok (w, .waiting callee rest) => ⟨w, ⟨saved, callee, rest⟩ :: below⟩

section Semantics
variable (F : A → Op → Code C S E P X Unit)

def exec (m : Machine C S E P X) : Move A Op C P → Machine C S E P X
  | .call sender op code => settle m.world m.stack ((F sender op).go code m.world)
  | .reply answer code =>
    match m.stack with
    | [] => m
    | f :: below => settle f.saved below ((f.rest answer).go code m.world)

def run (m : Machine C S E P X) (moves : List (Move A Op C P)) : Machine C S E P X := moves.foldl (exec F) m

/-- The function does not fail, up to its next stop. -/
def accepts (m : Machine C S E P X) : Move A Op C P → Bool
  | .call sender op code => ((F sender op).go code m.world).isOk
  | .reply answer code =>
    match m.stack with
    | [] => false
    | f :: _ => ((f.rest answer).go code m.world).isOk

end Semantics

/-- The calls of a run, in effect or not. -/
def callsMade (moves : List (Move A Op C P)) : List (A × Op) := moves.filterMap fun
  | .call a op _ => some (a, op)
  | .reply _ _ => none

/-- A call to accounts without code. -/
def plain (c : A × Op) : Move A Op C P := .call c.1 c.2 fun _ => false

/-! ## Code up to its next stop -/

section Go
variable {code : C → Bool} {w : Store S E}

theorem go_view {f : S → Except X α} :
    (Code.view (C := C) (E := E) (P := P) f).go code w = match f w.storage with
      | .ok a => .ok (w, .over a)
      | .error x => .error x := by
  unfold Code.view
  simp only [Code.go]
  cases f w.storage <;> rfl

theorem go_view_bind {f : S → Except X α} {k : α → Code C S E P X β} :
    (Code.view f >>= k).go code w = match f w.storage with
      | .ok a => (k a).go code w
      | .error x => .error x := by
  change ((Code.view f).bind k).go code w = _
  unfold Code.view
  simp only [Code.bind, Code.go]
  cases f w.storage <;> rfl

theorem go_change {f : S → Except X (S × List E)} :
    (Code.change (C := C) (P := P) f).go code w = match f w.storage with
      | .ok (s, events) => .ok (⟨s, w.log ++ events⟩, .over ())
      | .error x => .error x := by
  unfold Code.change
  simp only [Code.go]
  cases f w.storage <;> rfl

theorem go_change_bind {f : S → Except X (S × List E)} {k : Unit → Code C S E P X β} :
    (Code.change f >>= k).go code w = match f w.storage with
      | .ok (s, events) => (k ()).go code ⟨s, w.log ++ events⟩
      | .error x => .error x := by
  change ((Code.change f).bind k).go code w = _
  unfold Code.change
  simp only [Code.bind, Code.go]
  cases f w.storage <;> rfl

end Go

/-! ## Functions that do what a contract says -/

/-- The code looks at the storage as little as it changes it: all it does is the check `c`. -/
def OnlyChecks (rest : Code C S E P X Unit) (c : Except X Unit) : Prop :=
  ∀ (code : C → Bool) w, rest.go code w = c.map fun _ => (w, .over ())

/-- The code runs `body`, then makes the call out if there is a hook, and after that does nothing but check
the answer. -/
structure Does (p : Code C S E P X Unit) (body : S → Except X (S × List E))
    (hook : Option (Option P → Except X Unit)) (callee : Option C) : Prop where
  fails : ∀ {s x}, body s = .error x → ∀ code log, p.go code ⟨s, log⟩ = .error x
  ends : ∀ {s s' events}, body s = .ok (s', events) → hook = none →
    ∀ code log, p.go code ⟨s, log⟩ = .ok (⟨s', log ++ events⟩, .over ())
  calls : ∀ {s s' events check}, body s = .ok (s', events) → hook = some check →
    ∃ c, ∃ rest : Option P → Code C S E P X Unit, callee = some c ∧
      (∀ answer, OnlyChecks (rest answer) (check answer)) ∧
      ∀ code log, p.go code ⟨s, log⟩ =
        if code c then .ok (⟨s', log ++ events⟩, .waiting c fun answer => rest (some answer))
        else (rest none).go code ⟨s', log ++ events⟩

/-- The functions `F` do what the contract `K` says. -/
def Refines (F : A → Op → Code C S E P X Unit) (K : Calls.Contract A Op S E P X) (callee : A → Op → Option C) :
    Prop := ∀ a op, Does (F a op) (K.body a op) (K.hook op) (callee a op)

/-- A function without external calls. -/
theorem Does.change {body : S → Except X (S × List E)} {callee : Option C} :
    Does (P := P) (.change body) body none callee where
  fails hb code log := by rw [go_change, hb]
  ends hb _ code log := by rw [go_change, hb]
  calls _ hh := by cases hh

/-- The step of the contract's machine that a move stands for. -/
def Move.step (callee : A → Op → Option C) : Move A Op C P → Calls.Step A Op P
  | .call a op code => .call a op ((callee a op).any code)
  | .reply answer _ => .reply answer

def Store.of (w : Calls.World A Op S E) : Store S E := ⟨w.storage, w.events⟩

theorem Store.of_commit {w : Calls.World A Op S E} {a : A} {op : Op} {s : S} {events : List E} :
    Store.of (w.commit a op s events) = ⟨s, w.events ++ events⟩ := by
  simp [Store.of, Calls.World.commit, Calls.World.events]

/-- The two frames wait for the same: one of `K`'s checks is all that is left to do. -/
structure FrameRel (K : Calls.Contract A Op S E P X) (f : Frame C S E P X) (g : Calls.Frame A Op S E P X) : Prop where
  saved : f.saved = Store.of g.saved
  check : ∀ answer, OnlyChecks (f.rest answer) (g.check (some answer))
  hook : ∃ op, K.hook op = some g.check

structure MachineRel (K : Calls.Contract A Op S E P X) (m : Machine C S E P X) (n : Calls.Machine A Op S E P X) :
    Prop where
  world : m.world = Store.of n.world
  stack : List.Forall₂ (FrameRel K) m.stack n.stack

section Lockstep
variable {F : A → Op → Code C S E P X Unit} {K : Calls.Contract A Op S E P X} {callee : A → Op → Option C}
  {m : Machine C S E P X} {n : Calls.Machine A Op S E P X}

theorem MachineRel.start (s : S) : MachineRel K (CallOut.start s : Machine C S E P X) (Calls.start s) :=
  ⟨rfl, .nil⟩

theorem MachineRel.call (h : Refines F K callee) (hm : MachineRel K m n) (a : A) (op : Op) (code : C → Bool) :
    MachineRel K (CallOut.exec F m (.call a op code)) (Calls.exec K n (.call a op ((callee a op).any code))) ∧
      CallOut.accepts F m (.call a op code) = Calls.accepts K n (.call a op ((callee a op).any code)) := by
  obtain ⟨w, stack⟩ := m
  obtain ⟨hw, hs⟩ := hm
  subst hw
  simp only [CallOut.exec, CallOut.accepts, Calls.exec, Calls.accepts]
  cases hb : K.body a op n.world.storage with
  | error x =>
    rw [show (F a op).go code (Store.of n.world) = .error x from (h a op).fails hb code _]
    exact ⟨⟨rfl, hs⟩, rfl⟩
  | ok r =>
    obtain ⟨s', events⟩ := r
    cases hh : K.hook op with
    | none =>
      rw [show (F a op).go code (Store.of n.world) = _ from (h a op).ends hb hh code _]
      exact ⟨⟨Store.of_commit.symm, hs⟩, rfl⟩
    | some check =>
      obtain ⟨c, rest, hc, hrest, hgo⟩ := (h a op).calls hb hh
      rw [show (F a op).go code (Store.of n.world) = _ from hgo code _, hc, Option.any_some]
      cases code c with
      | true =>
        exact ⟨⟨Store.of_commit.symm, .cons ⟨rfl, fun answer => hrest (some answer), op, hh⟩ hs⟩, rfl⟩
      | false =>
        -- An account without code: the rest runs at once.
        simp only [Bool.false_eq_true, if_false, hrest none code _]
        cases check none with
        | ok u => exact ⟨⟨Store.of_commit.symm, hs⟩, rfl⟩
        | error x => exact ⟨⟨rfl, hs⟩, rfl⟩

theorem MachineRel.reply (hm : MachineRel K m n) (answer : P) (code : C → Bool) :
    MachineRel K (CallOut.exec F m (.reply answer code)) (Calls.exec K n (.reply answer)) ∧
      CallOut.accepts F m (.reply answer code) = Calls.accepts K n (.reply answer) := by
  obtain ⟨w, stack⟩ := m
  obtain ⟨v, stack'⟩ := n
  obtain ⟨hw, hs⟩ := hm
  cases hs with
  | nil => exact ⟨⟨hw, .nil⟩, rfl⟩
  | @cons f g below below' hf hbelow =>
    simp only [CallOut.exec, CallOut.accepts, Calls.exec, Calls.accepts, hf.check answer code w]
    cases g.check (some answer) with
    | ok u => exact ⟨⟨hw, hbelow⟩, rfl⟩
    | error x => exact ⟨⟨hf.saved, hbelow⟩, rfl⟩

/-- One move of the code is one step of the contract. -/
theorem MachineRel.exec (h : Refines F K callee) (hm : MachineRel K m n) (mv : Move A Op C P) :
    MachineRel K (CallOut.exec F m mv) (Calls.exec K n (mv.step callee)) := by
  cases mv with
  | call a op code => exact (hm.call h a op code).1
  | reply answer code => exact (hm.reply answer code).1

theorem MachineRel.accepts (h : Refines F K callee) (hm : MachineRel K m n) (mv : Move A Op C P) :
    CallOut.accepts F m mv = Calls.accepts K n (mv.step callee) := by
  cases mv with
  | call a op code => exact (hm.call h a op code).2
  | reply answer code => exact (hm.reply answer code).2

theorem MachineRel.run (h : Refines F K callee) (hm : MachineRel K m n) (moves : List (Move A Op C P)) :
    MachineRel K (CallOut.run F m moves) (Calls.run K n (moves.map (Move.step callee))) := by
  induction moves generalizing m n with
  | nil => exact hm
  | cons mv moves ih => exact ih (hm.exec h mv)

/-- Without a hook nobody asks if there is code. -/
theorem exec_any_code (h : Refines F K callee) {a : A} {op : Op} {code : Bool} :
    Calls.exec K n (.call a op ((callee a op).any fun _ => code)) = Calls.exec K n (.call a op code) := by
  cases hc : callee a op with
  | some c => rfl
  | none =>
    cases hb : K.body a op n.world.storage with
    | error x => rw [Calls.exec_error hb, Calls.exec_error hb]
    | ok r =>
      cases hh : K.hook op with
      | none => rw [Calls.exec_ok hh hb, Calls.exec_ok hh hb]
      | some check =>
        obtain ⟨c, rest, hc', -⟩ := (h a op).calls hb hh
        rw [hc] at hc'
        cases hc'

/-- A call that waits has run its body, and waits for the account the function calls. -/
theorem entered (h : Refines F K callee) {a : A} {op : Op} {code : C → Bool} {f : Frame C S E P X}
    (hf : (CallOut.exec F m (.call a op code)).stack = f :: m.stack) :
    ∃ s' events, K.body a op m.world.storage = .ok (s', events) ∧ callee a op = some f.callee ∧ f.saved = m.world ∧
      (CallOut.exec F m (.call a op code)).world = ⟨s', m.world.log ++ events⟩ := by
  obtain ⟨w, stack⟩ := m
  simp only [CallOut.exec] at hf ⊢
  cases hb : K.body a op w.storage with
  | error x =>
    rw [(h a op).fails hb code] at hf
    exact absurd hf (List.cons_ne_self f stack).symm
  | ok r =>
    obtain ⟨s', events⟩ := r
    cases hh : K.hook op with
    | none =>
      rw [(h a op).ends hb hh code] at hf
      exact absurd hf (List.cons_ne_self f stack).symm
    | some check =>
      obtain ⟨c, rest, hc, hrest, hgo⟩ := (h a op).calls hb hh
      rw [hgo code] at hf ⊢
      by_cases hcode : code c = true
      · rw [if_pos hcode] at hf ⊢
        cases hf
        exact ⟨s', events, rfl, hc, rfl, rfl⟩
      · rw [if_neg hcode, hrest none code] at hf
        exfalso
        cases hchk : check none <;> rw [hchk] at hf <;> exact (List.cons_ne_self f stack).symm hf

/-- The answer decides, by one of `K`'s checks, between what has become of the storage and what it was. -/
theorem MachineRel.answered (hm : MachineRel K m n) {f : Frame C S E P X} {below : List (Frame C S E P X)}
    (hs : m.stack = f :: below) :
    ∃ op check, K.hook op = some check ∧ ∀ answer code,
      CallOut.exec F m (.reply answer code) = match check (some answer) with
        | .ok _ => ⟨m.world, below⟩
        | .error _ => ⟨f.saved, below⟩ := by
  obtain ⟨w, stack⟩ := m
  obtain ⟨v, stack'⟩ := n
  obtain ⟨hw, hstack⟩ := hm
  cases hs
  cases hstack with
  | @cons _ g _ below' hf hbelow =>
    obtain ⟨op, hop⟩ := hf.hook
    refine ⟨op, g.check, hop, fun answer code => ?_⟩
    simp only [CallOut.exec, hf.check answer code w]
    cases g.check (some answer) <;> rfl

/-- Every run of the contract is a run of the code. -/
theorem exists_moves (h : Refines F K callee) (hm : MachineRel K m n) (steps : List (Calls.Step A Op P)) :
    ∃ moves, MachineRel K (CallOut.run F m moves) (Calls.run K n steps) := by
  induction steps generalizing m n with
  | nil => exact ⟨[], hm⟩
  | cons st steps ih =>
    have hstep : ∃ mv : Move A Op C P, MachineRel K (CallOut.exec F m mv) (Calls.exec K n st) := by
      cases st with
      | call a op code =>
        refine ⟨.call a op fun _ => code, ?_⟩
        rw [← exec_any_code h]
        exact (hm.call h a op fun _ => code).1
      | reply answer => exact ⟨.reply answer fun _ => true, (hm.reply answer _).1⟩
    obtain ⟨mv, hmv⟩ := hstep
    obtain ⟨moves, hmoves⟩ := ih hmv
    exact ⟨mv :: moves, hmoves⟩

/-! ## Callbacks add nothing -/

theorem MachineRel.settled (hm : MachineRel K m n) (hs : m.stack = []) : n = ⟨n.world, []⟩ := by
  obtain ⟨v, stack⟩ := n
  have hstack := hm.stack
  rw [hs] at hstack
  cases hstack
  rfl

theorem MachineRel.of_settled {v : Calls.World A Op S E} (hm : MachineRel K m ⟨v, []⟩) : m = ⟨Store.of v, []⟩ := by
  obtain ⟨w, stack⟩ := m
  obtain ⟨hw, hs⟩ := hm
  cases hs
  rw [← hw]

/-- With nothing pending, the code is where nested calls of the contract lead. -/
theorem settled_iff (h : Refines F K callee) {s : S} {w : Store S E} :
    (∃ moves, run F (CallOut.start s) moves = ⟨w, []⟩) ↔
      ∃ f : Calls.Forest A Op P, Store.of (f.eval K ⟨s, []⟩) = w := by
  constructor
  · rintro ⟨moves, hrun⟩
    have hm := (MachineRel.start (K := K) (C := C) s).run h moves
    rw [hrun] at hm
    obtain ⟨f, hf⟩ := Calls.settled_iff.1 ⟨_, hm.settled rfl⟩
    exact ⟨f, by rw [hf]; exact hm.world.symm⟩
  · rintro ⟨f, rfl⟩
    obtain ⟨steps, hsteps⟩ := Calls.settled_iff.2 ⟨f, rfl⟩
    obtain ⟨moves, hm⟩ := exists_moves h (MachineRel.start (K := K) (C := C) s) steps
    rw [hsteps] at hm
    exact ⟨moves, hm.of_settled⟩

theorem callsMade_step (moves : List (Move A Op C P)) :
    Calls.callsMade (moves.map (Move.step callee)) = callsMade moves := by
  unfold Calls.callsMade callsMade
  rw [List.filterMap_map]
  congr 1
  funext mv
  cases mv <;> rfl

theorem map_plain (calls : List (A × Op)) :
    (calls.map (plain (C := C) (P := P))).map (Move.step callee) = calls.map fun c => .call c.1 c.2 false := by
  rw [List.map_map]
  congr 1
  funext c
  simp [plain, Move.step]

/-- Wherever the code gets, some of the calls made get there one after the other, to accounts without
code. -/
theorem run_flat (h : Refines F K callee) (hK : Calls.AcceptsPlain K) (s : S) (moves : List (Move A Op C P)) :
    ∃ calls : List (A × Op), calls.Sublist (callsMade moves) ∧
      run F (CallOut.start s) (calls.map plain) = ⟨(run F (CallOut.start s) moves).world, []⟩ := by
  have hm := (MachineRel.start (K := K) (C := C) s).run h moves
  generalize hsteps : moves.map (Move.step callee) = steps at hm
  have hsub := Calls.calls_sublist (K := K) s steps
  rw [← hsteps, callsMade_step, hsteps] at hsub
  refine ⟨_, hsub, ?_⟩
  have hflat := Calls.Trace.run_flat (P := P) hK (Calls.run_trace s steps)
  rw [Calls.Trace.flat_eq] at hflat
  have hm' := (MachineRel.start (K := K) (C := C) s).run h
    ((Calls.run K (Calls.start s) steps).world.calls.map plain)
  rw [map_plain, hflat] at hm'
  rw [hm.world]
  exact hm'.of_settled

end Lockstep

/-! ## Code that callbacks do change -/

/-- Pays (the event) what is left to pay, and books it only after the payee has answered. -/
def payBeforeBooking (_ _ : Unit) : Code Unit Bool Unit Unit Unit Unit := do
  Code.view fun left => if left then .ok () else .error ()
  let _ ← Code.callOut ()
  Code.change fun _ => .ok (false, [()])

-- Called again from inside, it pays twice, and no order of its calls does.
example :
    let twice : List (Move Unit Unit Unit Unit) :=
      [.call () () fun _ => true, .call () () fun _ => true, .reply () fun _ => true, .reply () fun _ => true]
    (run payBeforeBooking (start true) twice).world.log = [(), ()] ∧
      ∀ calls ∈ (callsMade twice).sublists,
        (run payBeforeBooking (start true) (calls.map plain)).world.log ≠ [(), ()] := by
  decide

end CallOut
