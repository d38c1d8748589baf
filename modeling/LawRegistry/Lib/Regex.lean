import Mathlib.Logic.Function.Basic
/-!
# Backtracking regular expressions

The matcher of ECMAScript. A pattern is run on the rest of the input with a continuation; it may
consume input in several ways, and tries the next one when the continuation fails. Repetition is
greedy. `Matches` says what a pattern may consume and capture, and `run_sound` that the matcher
does nothing else.
-/

namespace Regex

/-- Characters `α`. `group` captures; `first` and `last` are the anchors `^` and `$`. -/
inductive Pattern (α : Type) where
  | char (p : α → Bool)
  | seq (r s : Pattern α)
  | group (n : Nat) (r : Pattern α)
  | rep (r : Pattern α) (min max : Nat)
  | first
  | last

/-- How much input is consumed, what is left, and the groups captured. -/
structure State (α : Type) where
  pos : Nat
  rest : List α
  caps : Nat → Option (List α)

variable {α : Type}

namespace State

/-- Repetition forgets what its body captured the time before. -/
def reset (x : State α) (groups : List Nat) : State α :=
  { x with caps := fun n => if n ∈ groups then none else x.caps n }

/-- `y`, with the input between `x` and `y` as group `n`. -/
def capture (x y : State α) (n : Nat) : State α :=
  { y with caps := Function.update y.caps n (some (x.rest.take (y.pos - x.pos))) }

@[simp] theorem reset_nil (x : State α) : x.reset [] = x := by simp [reset]

end State

abbrev Cont (α : Type) := State α → Option (State α)

def Pattern.groups : Pattern α → List Nat
  | .char _ | .first | .last => []
  | .seq r s => r.groups ++ s.groups
  | .group n r => n :: r.groups
  | .rep r _ _ => r.groups

/-- Run `m` at least `min` and at most `max` times, as often as possible. An optional turn that
consumes nothing fails. -/
def repeatMatch (m : State α → Cont α → Option (State α)) (groups : List Nat) :
    Nat → Nat → State α → Cont α → Option (State α)
  | _, 0, x, c => c x
  | min, max + 1, x, c =>
    let d : Cont α := fun y =>
      if min = 0 ∧ y.pos = x.pos then none else repeatMatch m groups (min - 1) max y c
    if min = 0 then (m (x.reset groups) d).or (c x) else m (x.reset groups) d

def Pattern.run : Pattern α → State α → Cont α → Option (State α)
  | .char p, x, c =>
    match x.rest with
    | [] => none
    | a :: rest => if p a then c { x with pos := x.pos + 1, rest } else none
  | .seq r s, x, c => r.run x fun y => s.run y c
  | .group n r, x, c => r.run x fun y => c (x.capture y n)
  | .rep r min max, x, c => repeatMatch r.run r.groups min max x c
  | .first, x, c => if x.pos = 0 then c x else none
  | .last, x, c => if x.rest.isEmpty then c x else none

/-- The first match, from the left. -/
def Pattern.exec (r : Pattern α) (input : List α) : Option (State α) :=
  (List.range (input.length + 1)).findSome? fun i => r.run ⟨i, input.drop i, fun _ => none⟩ some

/-! ## What a pattern consumes -/

inductive Matches : Pattern α → State α → State α → Prop
  | char {p x a rest} : x.rest = a :: rest → p a → Matches (.char p) x { x with pos := x.pos + 1, rest }
  | seq {r s x y z} : Matches r x y → Matches s y z → Matches (.seq r s) x z
  | group {n r x y} : Matches r x y → Matches (.group n r) x (x.capture y n)
  | repDone {r min x} : Matches (.rep r min 0) x x
  | repStop {r max x} : Matches (.rep r 0 max) x x
  | repMore {r min max x y z} : Matches r (x.reset r.groups) y → Matches (.rep r (min - 1) max) y z →
      Matches (.rep r min (max + 1)) x z
  | first {x} : x.pos = 0 → Matches .first x x
  | last {x} : x.rest = [] → Matches .last x x

/-- What the matcher hands to its continuation, the pattern matches. -/
theorem Pattern.run_sound {r : Pattern α} {x z : State α} {c : Cont α} (h : r.run x c = some z) :
    ∃ y, Matches r x y ∧ c y = some z := by
  induction r generalizing x z c with
  | char p =>
    unfold Pattern.run at h
    cases hr : x.rest with
    | nil => simp [hr] at h
    | cons a rest =>
      simp only [hr, Option.ite_none_right_eq_some] at h
      exact ⟨_, .char hr h.1, h.2⟩
  | seq r s ihr ihs =>
    obtain ⟨y, hy, h⟩ := ihr h
    obtain ⟨w, hw, h⟩ := ihs h
    exact ⟨w, .seq hy hw, h⟩
  | group n r ih =>
    obtain ⟨y, hy, h⟩ := ih h
    exact ⟨_, .group hy, h⟩
  | rep r min max ih =>
    unfold Pattern.run at h
    induction max generalizing min x with
    | zero => exact ⟨x, .repDone, h⟩
    | succ max ihmax =>
      -- A turn of the body, then the rest of the repetition.
      have hmore (hm : r.run (x.reset r.groups) (fun y =>
          if min = 0 ∧ y.pos = x.pos then none else repeatMatch r.run r.groups (min - 1) max y c) = some z) :
          ∃ y, Matches (.rep r min (max + 1)) x y ∧ c y = some z := by
        obtain ⟨y, hy, hm⟩ := ih hm
        rw [Option.ite_none_left_eq_some] at hm
        obtain ⟨w, hw, hc⟩ := ihmax _ hm.2
        exact ⟨w, .repMore hy hw, hc⟩
      unfold repeatMatch at h
      by_cases hmin : min = 0
      · rw [if_pos hmin, Option.or_eq_some_iff] at h
        rcases h with h | ⟨-, h⟩
        · exact hmore h
        · exact ⟨x, hmin ▸ .repStop, h⟩
      · rw [if_neg hmin] at h
        exact hmore h
  | first =>
    unfold Pattern.run at h
    rw [Option.ite_none_right_eq_some] at h
    exact ⟨x, .first h.1, h.2⟩
  | last =>
    unfold Pattern.run at h
    rw [Option.ite_none_right_eq_some] at h
    exact ⟨x, .last (List.isEmpty_iff.1 h.1), h.2⟩

theorem Pattern.exec_sound {r : Pattern α} {input : List α} {y : State α} (h : r.exec input = some y) :
    ∃ i, Matches r ⟨i, input.drop i, fun _ => none⟩ y := by
  obtain ⟨i, -, hi⟩ := List.exists_of_findSome?_eq_some h
  obtain ⟨z, hz, hc⟩ := run_sound hi
  cases hc
  exact ⟨i, hz⟩

/-! ## The matcher finds what there is -/

/-- A match of the pattern takes up input. -/
def Pattern.consumes : Pattern α → Bool
  | .char _ => true
  | .seq r s => r.consumes || s.consumes
  | .group _ r => r.consumes
  | .rep r min max => r.consumes && 0 < min && 0 < max
  | .first | .last => false

/-- Whatever is repeated takes up input, so that no turn of a repetition fails for being empty. -/
def Pattern.strict : Pattern α → Bool
  | .seq r s => r.strict && s.strict
  | .group _ r => r.strict
  | .rep r _ _ => r.consumes && r.strict
  | .char _ | .first | .last => true

theorem Matches.pos_le {r : Pattern α} {x y : State α} (h : Matches r x y) : x.pos ≤ y.pos := by
  induction h with
  | char => exact Nat.le_succ _
  | seq _ _ ihr ihs => exact Nat.le_trans ihr ihs
  | group _ ih => exact ih
  | repDone | repStop | first | last => exact Nat.le_refl _
  | repMore _ _ ihr ihs => exact Nat.le_trans ihr ihs

theorem Matches.pos_lt {r : Pattern α} {x y : State α} (h : Matches r x y) (hr : r.consumes) : x.pos < y.pos := by
  induction h with
  | char => exact Nat.lt_succ_self _
  | seq h h' ihr ihs =>
    simp only [Pattern.consumes, Bool.or_eq_true] at hr
    rcases hr with hr | hr
    · exact Nat.lt_of_lt_of_le (ihr hr) h'.pos_le
    · exact Nat.lt_of_le_of_lt h.pos_le (ihs hr)
  | group _ ih => exact ih hr
  | repDone | repStop | first | last => simp [Pattern.consumes] at hr
  | repMore _ h' ihr =>
    simp only [Pattern.consumes, Bool.and_eq_true] at hr
    exact Nat.lt_of_lt_of_le (ihr hr.1.1) h'.pos_le

/-- Where the pattern matches and the continuation goes on, backtracking gets there or somewhere else. -/
theorem Pattern.run_complete {r : Pattern α} {x y : State α} {c : Cont α} (hr : r.strict) (h : Matches r x y)
    (hc : (c y).isSome) : (r.run x c).isSome := by
  induction r generalizing x y c with
  | char p =>
    cases h with
    | char hrest ha =>
      unfold Pattern.run
      simp only [hrest, ha, if_true]
      exact hc
  | seq r s ihr ihs =>
    simp only [strict, Bool.and_eq_true] at hr
    cases h with
    | seq h h' =>
      unfold Pattern.run
      apply ihr hr.1 h
      apply ihs hr.2 h' hc
  | group n r ih =>
    cases h with
    | group h =>
      unfold Pattern.run
      apply ih hr h hc
  | rep r min max ih =>
    simp only [strict, Bool.and_eq_true] at hr
    unfold Pattern.run
    induction max generalizing min x with
    | zero =>
      unfold repeatMatch
      cases h <;> exact hc
    | succ max ihmax =>
      unfold repeatMatch
      cases h with
      | repStop =>
        rw [if_pos rfl, Option.isSome_or, hc, Bool.or_true]
      | @repMore _ _ _ _ w _ hbody hrest =>
        have hne : ¬(min = 0 ∧ w.pos = x.pos) := fun he => Nat.ne_of_gt (hbody.pos_lt hr.1) he.2
        have hmore := ih hr.2 hbody (c := fun w =>
          if min = 0 ∧ w.pos = x.pos then none else repeatMatch r.run r.groups (min - 1) max w c)
          (by rw [if_neg hne]; exact ihmax _ hrest)
        by_cases hmin : min = 0
        · rw [if_pos hmin, Option.isSome_or, hmore, Bool.true_or]
        · rw [if_neg hmin]
          exact hmore
  | first =>
    cases h with
    | first h0 =>
      unfold Pattern.run
      rw [if_pos h0]
      exact hc
  | last =>
    cases h with
    | last hend =>
      unfold Pattern.run
      rw [hend, List.isEmpty_nil, if_pos rfl]
      exact hc

/-- The search from the left finds a match if there is one at the start. -/
theorem Pattern.exec_complete {r : Pattern α} {input : List α} {y : State α} (hr : r.strict)
    (h : Matches r ⟨0, input, fun _ => none⟩ y) : (r.exec input).isSome := by
  apply List.findSome?_isSome_iff.2
  refine ⟨0, List.mem_range.2 (Nat.succ_pos _), ?_⟩
  rw [List.drop_zero]
  apply run_complete hr h rfl

/-! ## Words -/

/-- A repeated character class consumes a word of its characters, and captures nothing. -/
theorem Matches.word {p : α → Bool} {min max : Nat} {x z : State α} (h : Matches (.rep (.char p) min max) x z)
    (hle : min ≤ max) :
    ∃ s, x.rest = s ++ z.rest ∧ z.pos = x.pos + s.length ∧ z.caps = x.caps ∧ min ≤ s.length ∧ s.length ≤ max ∧
      ∀ a ∈ s, p a := by
  induction max generalizing min x with
  | zero =>
    have hmin : min = 0 := by omega
    subst hmin
    cases h <;> exact ⟨[], by simp⟩
  | succ max ih =>
    cases h with
    | repStop => exact ⟨[], by simp⟩
    | repMore hy hz =>
      cases hy with
      | @char _ _ a rest hr ha =>
        obtain ⟨s, hs, hpos, hcaps, hlo, hhi, hall⟩ := ih hz (by omega)
        rw [Pattern.groups, State.reset_nil] at hr hpos hcaps
        have hpos : z.pos = x.pos + 1 + s.length := hpos
        refine ⟨a :: s, ?_, ?_, hcaps, ?_, ?_, ?_⟩
        · rw [hr, List.cons_append, ← hs]
        · rw [hpos, List.length_cons]
          omega
        · rw [List.length_cons]
          omega
        · rw [List.length_cons]
          omega
        · intro b hb
          rcases List.mem_cons.1 hb with rfl | hb
          · exact ha
          · exact hall b hb

/-- A captured word is the input it consumed. -/
theorem Matches.group_word {p : α → Bool} {n min max : Nat} {x z : State α}
    (h : Matches (.group n (.rep (.char p) min max)) x z) (hle : min ≤ max) :
    ∃ s, x.rest = s ++ z.rest ∧ z.caps = Function.update x.caps n (some s) ∧ min ≤ s.length ∧ s.length ≤ max ∧
      ∀ a ∈ s, p a := by
  cases h with
  | @group _ _ _ y hy =>
    obtain ⟨s, hs, hpos, hcaps, hlo, hhi, hall⟩ := hy.word hle
    refine ⟨s, hs, ?_, hlo, hhi, hall⟩
    have htake : x.rest.take (y.pos - x.pos) = s := by
      rw [hs, hpos]
      simp
    simp only [State.capture, htake, hcaps]

/-- A word of the right length is matched. -/
theorem Matches.of_word {p : α → Bool} {min max : Nat} {s : List α} (hlo : min ≤ s.length) (hhi : s.length ≤ max)
    (hall : ∀ a ∈ s, p a) {x : State α} {rest : List α} (hx : x.rest = s ++ rest) :
    Matches (.rep (.char p) min max) x { x with pos := x.pos + s.length, rest } := by
  induction s generalizing min max x with
  | nil =>
    have hmin : min = 0 := Nat.le_zero.1 hlo
    obtain ⟨pos, input, caps⟩ := x
    rw [List.nil_append] at hx
    simp only at hx
    subst hmin hx
    cases max with
    | zero => exact .repDone
    | succ max => exact .repStop
  | cons a s ih =>
    rw [List.length_cons] at hlo hhi
    obtain ⟨max, rfl⟩ : ∃ m, max = m + 1 := ⟨max - 1, by omega⟩
    let y : State α := { x with pos := x.pos + 1, rest := s ++ rest }
    have htail : Matches (.rep (.char p) (min - 1) max) y { y with pos := y.pos + s.length, rest } :=
      ih (by omega) (by omega) (fun b hb => hall b (List.mem_cons_of_mem a hb)) rfl
    rw [List.length_cons, Nat.add_comm s.length, ← Nat.add_assoc]
    exact .repMore (.char hx (hall a List.mem_cons_self)) htail

/-- The word is captured. -/
theorem Matches.of_group_word {p : α → Bool} {n min max : Nat} {s : List α} (hlo : min ≤ s.length)
    (hhi : s.length ≤ max) (hall : ∀ a ∈ s, p a) {x : State α} {rest : List α} (hx : x.rest = s ++ rest) :
    Matches (.group n (.rep (.char p) min max)) x
      ⟨x.pos + s.length, rest, Function.update x.caps n (some s)⟩ := by
  have hg := Matches.group (n := n) (of_word hlo hhi hall hx)
  have htake : x.rest.take (x.pos + s.length - x.pos) = s := by
    rw [hx]
    simp
  simp only [State.capture, htake] at hg
  exact hg

end Regex
