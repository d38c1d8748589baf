import LawRegistry.Lib.Cells
/-!
# Runs over different cells

Each step looks at one cell. What a cell sees of a run is its slice, the steps on it in their order.
The slice alone decides how each of these steps comes out and what the cell ends with, and runs with
the same slices end in one state.
-/

namespace Cells

/-- The items of a run, and which of them are accepted. -/
def outcomes {σ ι : Type} (exec : σ → ι → σ) (accepts : σ → ι → Bool) : σ → List ι → List (ι × Bool)
  | _, [] => []
  | s, i :: is => (i, accepts s i) :: outcomes exec accepts (exec s i) is

/-- Two systems that stay related on the rest of a run accept the same items. -/
theorem outcomes_eq {σ τ ι : Type} {exec : σ → ι → σ} {accepts : σ → ι → Bool} {exec' : τ → ι → τ}
    {accepts' : τ → ι → Bool} (R : List ι → σ → τ → Prop)
    (hstep : ∀ i is s t, R (i :: is) s t → accepts s i = accepts' t i ∧ R is (exec s i) (exec' t i))
    (is : List ι) {s : σ} {t : τ} (h : R is s t) :
    outcomes exec accepts s is = outcomes exec' accepts' t is ∧ R [] (is.foldl exec s) (is.foldl exec' t) := by
  induction is generalizing s t with
  | nil => exact ⟨rfl, h⟩
  | cons i is ih =>
    obtain ⟨hacc, hrest⟩ := hstep i is s t h
    obtain ⟨hout, hend⟩ := ih hrest
    unfold outcomes
    rw [hacc, hout]
    exact ⟨rfl, hend⟩

/-! ## Slices -/

section
variable {ι κ : Type} [DecidableEq κ] {key : ι → κ} {i : ι} {is js : List ι} {k : κ}

/-- The steps on cell `k`. -/
def slice (key : ι → κ) (k : κ) (is : List ι) : List ι := is.filter fun i => key i = k

@[simp] theorem slice_nil : slice key k [] = [] := rfl

theorem slice_cons : slice key k (i :: is) = if key i = k then i :: slice key k is else slice key k is := by
  unfold slice
  rw [List.filter_cons]
  simp only [decide_eq_true_eq]

theorem slice_append : slice key k (is ++ js) = slice key k is ++ slice key k js := List.filter_append ..

theorem slice_eq_nil (h : ∀ i ∈ is, key i ≠ k) : slice key k is = [] := by
  unfold slice
  rw [List.filter_eq_nil_iff]
  intro i hi
  simpa using h i hi

/-- Every cell sees the same steps in both runs. -/
def SameSlices (key : ι → κ) (is js : List ι) : Prop := ∀ k, slice key k is = slice key k js

theorem SameSlices.nil (h : SameSlices key [] js) : js = [] := by
  cases js with
  | nil => rfl
  | cons j js =>
    have hj := h (key j)
    rw [slice_cons, if_pos rfl] at hj
    cases hj

/-- The first step of one run is in the other, after steps on other cells only. -/
theorem SameSlices.cons (h : SameSlices key (i :: is) js) :
    ∃ pre post, js = pre ++ i :: post ∧ (∀ j ∈ pre, key j ≠ key i) ∧ SameSlices key is (pre ++ post) := by
  have hi := h (key i)
  rw [slice_cons, if_pos rfl] at hi
  obtain ⟨pre, post, rfl, hpre, -, hpost⟩ := List.filter_eq_cons_iff.1 hi.symm
  simp only [decide_eq_true_eq] at hpre
  refine ⟨pre, post, rfl, hpre, fun k => ?_⟩
  by_cases hk : key i = k
  · subst hk
    rw [slice_append, slice_eq_nil hpre, List.nil_append]
    exact hpost.symm
  · have hother := h k
    rw [slice_cons, if_neg hk, slice_append, slice_cons, if_neg hk] at hother
    rw [slice_append, hother]

theorem SameSlices.length_eq (h : SameSlices key is js) : is.length = js.length := by
  induction is generalizing js with
  | nil => rw [h.nil]
  | cons i is ih =>
    obtain ⟨pre, post, rfl, -, hrest⟩ := h.cons
    have hlen := ih hrest
    simp only [List.length_cons, List.length_append] at hlen ⊢
    omega

end

/-! ## Runs -/

section
variable {ι κ β γ : Type} [DecidableEq κ] [AddCommMonoid γ]

def exec (key : ι → κ) (act : ι → Act β γ) (s : State κ β γ) (i : ι) : State κ β γ := skip (step (key i) (act i)) s

def accepts (key : ι → κ) (act : ι → Act β γ) (s : State κ β γ) (i : ι) : Bool := (step (key i) (act i) s).isSome

variable {key : ι → κ} {act : ι → Act β γ} {s t : State κ β γ} {i : ι} {is js : List ι} {k : κ}

/-- A step only depends on its cell. -/
theorem exec_self (h : s.cells (key i) = t.cells (key i)) :
    (exec key act s i).cells (key i) = (exec key act t i).cells (key i) ∧
      accepts key act s i = accepts key act t i := by
  unfold exec accepts
  rw [isSome_step, isSome_step, h]
  refine ⟨?_, rfl⟩
  cases hr : act i (t.cells (key i)) with
  | none => rw [skip_none (h ▸ hr), skip_none hr, h]
  | some r =>
    rw [skip_some (h ▸ hr), skip_some hr]
    simp only [State.put, Function.update_self]

/-- What a cell holds after a run, and how the steps on it come out, is a matter of its slice. -/
theorem run_slice (is : List ι) (h : s.cells k = t.cells k) :
    (is.foldl (exec key act) s).cells k = ((slice key k is).foldl (exec key act) t).cells k ∧
      slice (fun o => key o.1) k (outcomes (exec key act) (accepts key act) s is) =
        outcomes (exec key act) (accepts key act) t (slice key k is) := by
  induction is generalizing s t with
  | nil => exact ⟨h, rfl⟩
  | cons i is ih =>
    by_cases hk : key i = k
    · subst hk
      obtain ⟨hcell, hacc⟩ : (exec key act s i).cells (key i) = (exec key act t i).cells (key i) ∧
        accepts key act s i = accepts key act t i := exec_self h
      obtain ⟨hend, hout⟩ := ih hcell
      rw [outcomes, slice_cons, if_pos rfl, slice_cons, if_pos rfl, hout, hacc]
      exact ⟨hend, rfl⟩
    · have hother : (exec key act s i).cells k = t.cells k := by
        rw [exec, skip_other (Ne.symm hk), h]
      rw [outcomes, slice_cons, if_neg hk, slice_cons, if_neg hk]
      exact ih hother

/-- A step may wait for steps on other cells. -/
theorem foldl_exec_comm (h : ∀ j ∈ is, key j ≠ key i) (s : State κ β γ) :
    is.foldl (exec key act) (exec key act s i) = exec key act (is.foldl (exec key act) s) i := by
  induction is generalizing s with
  | nil => rfl
  | cons j is ih =>
    obtain ⟨hj, hrest⟩ := List.forall_mem_cons.1 h
    rw [List.foldl_cons, List.foldl_cons, ← ih hrest]
    apply congrArg (is.foldl (exec key act))
    exact skip_comm hj s

theorem SameSlices.foldl_eq (h : SameSlices key is js) (s : State κ β γ) :
    is.foldl (exec key act) s = js.foldl (exec key act) s := by
  induction is generalizing js s with
  | nil => rw [h.nil]
  | cons i is ih =>
    obtain ⟨pre, post, rfl, hpre, hrest⟩ := h.cons
    rw [List.foldl_cons, ih hrest, List.foldl_append, List.foldl_append, List.foldl_cons, foldl_exec_comm hpre]

end

end Cells
