import Mathlib.Algebra.BigOperators.Group.Finset.Basic
import Mathlib.Data.BitVec
import Mathlib.Data.Fintype.EquivFin
/-!
# Balances that count holdings

Items have holders, and a counter of fixed width for each account says how many items it holds. The
counters are incremented and decremented without a check, so they may wrap; as long as they are
exact and there are fewer items than a counter can count, they do not.
-/

namespace Holdings

/-! ## Counters -/

section
variable {α : Type} [DecidableEq α] {w : Nat}

/-- An unchecked `+= 1` or `-= 1` on the counter of an account. -/
inductive Op (α : Type) where
  | incr (a : α)
  | decr (a : α)
deriving DecidableEq, Repr

def Op.apply (b : α → BitVec w) : Op α → α → BitVec w
  | .incr a => Function.update b a (b a + 1)
  | .decr a => Function.update b a (b a - 1)

def Op.Wraps (b : α → BitVec w) : Op α → Prop
  | .incr a => (b a).toNat + 1 = 2 ^ w
  | .decr a => (b a).toNat = 0

def apply (b : α → BitVec w) (ops : List (Op α)) : α → BitVec w := ops.foldl Op.apply b

/-- One of `ops` wraps, done one after the other. -/
def Wraps (b : α → BitVec w) : List (Op α) → Prop
  | [] => False
  | op :: ops => op.Wraps b ∨ Wraps (op.apply b) ops

theorem apply_incr (b : α → BitVec w) (x a : α) : Op.apply b (.incr x) a = if a = x then b a + 1 else b a := by
  simp only [Op.apply, Function.update_apply]
  split
  next h => rw [h]
  next => rfl

theorem apply_decr (b : α → BitVec w) (x a : α) : Op.apply b (.decr x) a = if a = x then b a - 1 else b a := by
  simp only [Op.apply, Function.update_apply]
  split
  next h => rw [h]
  next => rfl

end

/-! ## Holders -/

section
variable {κ α : Type} [DecidableEq α] {w : Nat} {f : κ → α} {s : Finset κ} {k : κ} {a x : α}

/-- How many of the items `s` account `a` holds. -/
def held (f : κ → α) (s : Finset κ) (a : α) : Nat := (s.filter fun k => f k = a).card

theorem held_le : held f s a ≤ s.card := Finset.card_filter_le ..

theorem held_pos (hk : k ∈ s) : 0 < held f s (f k) :=
  Finset.card_pos.2 ⟨k, Finset.mem_filter.2 ⟨hk, rfl⟩⟩

/-- Everything is held by somebody. -/
theorem sum_held [Fintype α] : ∑ a, held f s a = s.card :=
  (Finset.card_eq_sum_card_fiberwise fun _ _ => Finset.mem_coe.2 (Finset.mem_univ _)).symm

theorem held_congr {g : κ → α} (h : ∀ k ∈ s, f k = g k) : held f s a = held g s a := by
  unfold held
  rw [Finset.filter_congr fun k hk => by rw [h k hk]]

/-- Each counter says how many items its account holds. -/
def Exact (b : α → BitVec w) (f : κ → α) (s : Finset κ) : Prop := ∀ a, (b a).toNat = held f s a

theorem Exact.le {b : α → BitVec w} (he : Exact b f s) (a : α) : (b a).toNat ≤ s.card := (he a).trans_le held_le

theorem Exact.sum [Fintype α] {b : α → BitVec w} (he : Exact b f s) : ∑ a, (b a).toNat = s.card := by
  rw [← sum_held (f := f)]
  exact Finset.sum_congr rfl fun a _ => he a

variable [DecidableEq κ]

theorem held_insert (hk : k ∉ s) : held f (insert k s) a = held f s a + if f k = a then 1 else 0 := by
  unfold held
  rw [Finset.filter_insert]
  split
  next h => rw [Finset.card_insert_of_notMem (fun hm => hk (Finset.mem_filter.1 hm).1)]
  next h => rw [Nat.add_zero]

/-- A new item is held by its holder. -/
theorem held_mint (hk : k ∉ s) :
    held (Function.update f k x) (insert k s) a = held f s a + if x = a then 1 else 0 := by
  have hold : held (Function.update f k x) s a = held f s a := by
    apply held_congr
    rintro j hj
    exact Function.update_of_ne (ne_of_mem_of_not_mem hj hk) ..
  rw [held_insert hk, hold, Function.update_self]

/-- An item changes hands. -/
theorem held_move (hk : k ∈ s) :
    held (Function.update f k x) s a + (if f k = a then 1 else 0) = held f s a + if x = a then 1 else 0 := by
  have hs : s = insert k (s.erase k) := (Finset.insert_erase hk).symm
  have hne : k ∉ s.erase k := Finset.notMem_erase k s
  have hnew := held_mint (f := f) (x := x) (a := a) hne
  have hold := held_insert (f := f) (a := a) hne
  rw [← hs] at hnew hold
  omega

/-! ## Exact counters stay exact -/

theorem toNat_succ {c : BitVec w} (h : c.toNat + 1 < 2 ^ w) : (c + 1).toNat = c.toNat + 1 := by
  have h1 : (1 : BitVec w).toNat = 1 := Nat.mod_eq_of_lt (a := 1) (b := 2 ^ w) (by omega)
  rw [BitVec.toNat_add, h1, Nat.mod_eq_of_lt h]

theorem toNat_pred {c : BitVec w} (h : 0 < c.toNat) : (c - 1).toNat + 1 = c.toNat := by
  have hlt := c.isLt
  have h1 : (1 : BitVec w).toNat = 1 := Nat.mod_eq_of_lt (a := 1) (b := 2 ^ w) (by omega)
  rw [BitVec.toNat_sub_of_le (by rw [BitVec.le_def, h1]; exact h), h1]
  omega

variable {b : α → BitVec w}

namespace Exact

/-- With a number left for the new item, minting does not wrap. -/
theorem mint (he : Exact b f s) (hk : k ∉ s) (hroom : s.card + 1 < 2 ^ w) :
    ¬Wraps b [.incr x] ∧ Exact (apply b [.incr x]) (Function.update f k x) (insert k s) := by
  have hle := he.le x
  constructor
  · rintro (hw | hw)
    · simp only [Op.Wraps] at hw
      omega
    · exact hw
  · intro a
    rw [held_mint hk, ← he a]
    simp only [apply, List.foldl_cons, List.foldl_nil, apply_incr]
    by_cases ha : a = x
    · subst ha
      rw [if_pos rfl, if_pos rfl, toNat_succ (by omega)]
    · rw [if_neg ha, if_neg (Ne.symm ha), Nat.add_zero]

/-- Moving an item does not wrap, not even where one account holds them all. -/
theorem move (he : Exact b f s) (hk : k ∈ s) (hfit : s.card < 2 ^ w) :
    ¬Wraps b [.decr (f k), .incr x] ∧
      Exact (apply b [.decr (f k), .incr x]) (Function.update f k x) s := by
  have hdecr : ∀ a, (Op.apply b (.decr (f k)) a).toNat + (if f k = a then 1 else 0) = held f s a := by
    intro a
    rw [apply_decr, ← he a]
    by_cases ha : a = f k
    · subst ha
      rw [if_pos rfl, if_pos rfl]
      apply toNat_pred
      rw [he]
      exact held_pos hk
    · rw [if_neg ha, if_neg (Ne.symm ha), Nat.add_zero]
  have hincr : (Op.apply b (.decr (f k)) x).toNat + 1 = held (Function.update f k x) s x := by
    have hd := hdecr x
    have hm := held_move (f := f) (x := x) (a := x) hk
    rw [if_pos rfl] at hm
    omega
  have hle : held (Function.update f k x) s x ≤ s.card := held_le
  constructor
  · rintro (hw | hw | hw)
    · have hpos : 0 < held f s (f k) := held_pos hk
      have hk := he (f k)
      simp only [Op.Wraps] at hw
      omega
    · simp only [Op.Wraps] at hw
      omega
    · exact hw
  · intro a
    simp only [apply, List.foldl_cons, List.foldl_nil, apply_incr]
    by_cases ha : a = x
    · subst ha
      rw [if_pos rfl, ← hincr, toNat_succ (by omega)]
    · have hd := hdecr a
      have hm := held_move (f := f) (x := x) (a := a) hk
      rw [if_neg (Ne.symm ha), Nat.add_zero] at hm
      rw [if_neg ha]
      omega

end Exact

end

/-! ## Counters that may wrap -/

section
variable {κ α : Type} [DecidableEq α] [DecidableEq κ] {w : Nat} {f : κ → α} {s : Finset κ} {k : κ} {x : α}
  {b : α → BitVec w}

/-- Each counter says how many items its account holds, as far as it can count. -/
def Congruent (b : α → BitVec w) (f : κ → α) (s : Finset κ) : Prop := ∀ a, b a = BitVec.ofNat w (held f s a)

theorem ofNat_succ (n : Nat) : BitVec.ofNat w (n + 1) = BitVec.ofNat w n + 1 := BitVec.ofNat_add ..

/-- The first number a counter cannot count is 0 to it. -/
theorem ofNat_eq_zero {n : Nat} (hpos : 0 < n) (hle : n ≤ 2 ^ w) : BitVec.ofNat w n = 0 ↔ n = 2 ^ w := by
  have hzero : (0 : BitVec w).toNat = 0 := Nat.zero_mod _
  rw [← BitVec.toNat_inj, BitVec.toNat_ofNat, hzero]
  constructor
  · intro hmod
    rcases Nat.lt_or_eq_of_le hle with hlt | he
    · rw [Nat.mod_eq_of_lt hlt] at hmod
      omega
    · exact he
  · rintro rfl
    exact Nat.mod_self _

/-- An increment wraps if it ends at 0. -/
theorem incr_wraps {c : BitVec w} : c.toNat + 1 = 2 ^ w ↔ c + 1 = 0 := by
  have hc : c + 1 = BitVec.ofNat w (c.toNat + 1) := by rw [ofNat_succ, BitVec.ofNat_toNat, BitVec.setWidth_eq]
  rw [hc, ofNat_eq_zero (Nat.succ_pos _) c.isLt]

theorem decr_wraps {c : BitVec w} : c.toNat = 0 ↔ c = 0 := by
  have hzero : (0 : BitVec w).toNat = 0 := Nat.zero_mod _
  rw [← BitVec.toNat_inj, hzero]

namespace Congruent

theorem mint (hc : Congruent b f s) (hk : k ∉ s) :
    Congruent (apply b [.incr x]) (Function.update f k x) (insert k s) := by
  intro a
  rw [held_mint hk]
  simp only [apply, List.foldl_cons, List.foldl_nil, apply_incr]
  by_cases ha : a = x
  · subst ha
    rw [if_pos rfl, if_pos rfl, ofNat_succ, hc a]
  · rw [if_neg ha, if_neg (Ne.symm ha), Nat.add_zero, hc a]

theorem move (hc : Congruent b f s) (hk : k ∈ s) :
    Congruent (apply b [.decr (f k), .incr x]) (Function.update f k x) s := by
  intro a
  have hm := held_move (f := f) (x := x) (a := a) hk
  simp only [apply, List.foldl_cons, List.foldl_nil, apply_incr, apply_decr]
  by_cases hx : a = x <;> by_cases hf : a = f k
  · rw [if_pos hf.symm, if_pos hx.symm] at hm
    rw [if_pos hx, if_pos hf, sub_add_cancel, hc a, Nat.add_right_cancel hm]
  · rw [if_neg (Ne.symm hf), if_pos hx.symm, Nat.add_zero] at hm
    rw [if_pos hx, if_neg hf, hm, ofNat_succ, hc a]
  · rw [if_pos hf.symm, if_neg (Ne.symm hx)] at hm
    rw [if_neg hx, if_pos hf, hc a, ← Nat.add_zero (held f s a), ← hm, ofNat_succ, add_sub_cancel_right]
  · rw [if_neg (Ne.symm hf), if_neg (Ne.symm hx), Nat.add_zero, Nat.add_zero] at hm
    rw [if_neg hx, if_neg hf, hm, hc a]

/-- An item that nobody holds any more. -/
theorem burn (hc : Congruent b f s) (hk : k ∈ s) :
    Congruent (apply b [.decr (f k)]) (Function.update f k x) (s.erase k) := by
  intro a
  have hold : held (Function.update f k x) (s.erase k) a = held f (s.erase k) a := by
    apply held_congr
    rintro j hj
    exact Function.update_of_ne (Finset.ne_of_mem_erase hj) ..
  have hinsert := held_insert (f := f) (a := a) (Finset.notMem_erase k s)
  rw [Finset.insert_erase hk] at hinsert
  simp only [apply, List.foldl_cons, List.foldl_nil, apply_decr]
  rw [hold, hc a, hinsert]
  by_cases ha : a = f k
  · rw [if_pos ha, if_pos ha.symm, ofNat_succ, add_sub_cancel_right]
  · rw [if_neg ha, if_neg (Ne.symm ha), Nat.add_zero]

/-- Minting wraps if one account then holds as many items as a counter can count. -/
theorem mint_wraps (hc : Congruent b f s) (hk : k ∉ s) (hfit : s.card < 2 ^ w) :
    Wraps b [.incr x] ↔ held (Function.update f k x) (insert k s) x = 2 ^ w := by
  have hnew := hc.mint (x := x) hk x
  rw [held_mint hk, if_pos rfl] at hnew ⊢
  have hle : held f s x ≤ s.card := held_le
  simp only [apply, List.foldl_cons, List.foldl_nil, apply_incr, if_pos] at hnew
  simp only [Wraps, Op.Wraps, or_false]
  rw [incr_wraps, hnew, ofNat_eq_zero (Nat.succ_pos _) (by omega)]

/-- A move wraps if the old holder held that many items, or the new one does. -/
theorem move_wraps (hc : Congruent b f s) (hk : k ∈ s) (hfit : s.card ≤ 2 ^ w) :
    Wraps b [.decr (f k), .incr x] ↔ held f s (f k) = 2 ^ w ∨ held (Function.update f k x) s x = 2 ^ w := by
  have hnew := hc.move (x := x) hk x
  have hm := held_move (f := f) (x := x) (a := x) hk
  rw [if_pos rfl] at hm
  have hle : held f s (f k) ≤ s.card := held_le
  have hle' : held (Function.update f k x) s x ≤ s.card := held_le
  have hpos : 0 < held f s (f k) := held_pos hk
  have hpos' : 0 < held (Function.update f k x) s x := by
    have h := held_pos (f := Function.update f k x) hk
    rwa [Function.update_self] at h
  have hlast : Op.apply b (.decr (f k)) x + 1 = BitVec.ofNat w (held (Function.update f k x) s x) := by
    rw [← hnew]
    simp only [apply, List.foldl_cons, List.foldl_nil, apply_incr, if_pos]
  simp only [Wraps, Op.Wraps, or_false]
  rw [decr_wraps, incr_wraps, hlast, hc (f k), ofNat_eq_zero hpos (by omega), ofNat_eq_zero hpos' (by omega)]

end Congruent

end

theorem held_eq_zero {κ α : Type} [DecidableEq α] {f : κ → α} {s : Finset κ} {a : α} (h : ∀ k ∈ s, f k ≠ a) :
    held f s a = 0 := by
  unfold held
  rw [Finset.card_eq_zero, Finset.filter_eq_empty_iff]
  exact h

/-- Whoever holds as many items as there are holds all of them. -/
theorem held_univ {κ α : Type} [DecidableEq α] [Fintype κ] {f : κ → α} {s : Finset κ} {a : α} :
    held f s a = Fintype.card κ ↔ ∀ k, k ∈ s ∧ f k = a := by
  unfold held
  rw [Finset.card_eq_iff_eq_univ, Finset.eq_univ_iff_forall]
  simp only [Finset.mem_filter]

end Holdings
