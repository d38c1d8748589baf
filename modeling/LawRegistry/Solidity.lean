import Mathlib.Algebra.Group.Nat.Defs
import Mathlib.Logic.Function.Basic
/-!
# The Solidity the contracts use

Fixed-width values are bit vectors, so `uint256(hash)` is the hash itself, and a `mapping` is a
function with the zero value as default. A `string` on chain is any byte sequence.
-/

namespace LawRegistry

abbrev Address := BitVec 160
abbrev Uint256 := BitVec 256
abbrev Bytes32 := BitVec 256
abbrev Bytes4 := BitVec 32
abbrev Bytes := List UInt8

/-- `address(0)`: no account. -/
def Address.zero : Address := 0

/-- Why a call reverted: the message of a `require`, a panic code, or the bytes a callee
reverted with. -/
inductive Revert where
  | error (message : String)
  | panic (code : Nat)
  | data (reason : Bytes)
deriving DecidableEq, Repr

def require (p : Prop) [Decidable p] (message : String) : Except Revert Unit :=
  if p then .ok () else .error (.error message)

/-- The panic code of checked arithmetic. -/
def overflow : Revert := .panic 0x11

def checkedAdd (a b : Uint256) : Except Revert Uint256 :=
  if a.toNat + b.toNat < 2 ^ 256 then .ok (a + b) else .error overflow

def checkedSub (a b : Uint256) : Except Revert Uint256 :=
  if b ≤ a then .ok (a - b) else .error overflow

/-! ## Reading a successful computation backwards -/

section Ok
variable {α β : Type}

theorem bind_ok {ε : Type} {x : Except ε α} {f : α → Except ε β} {b : β} :
    x >>= f = .ok b ↔ ∃ a, x = .ok a ∧ f a = .ok b := by
  cases x <;> simp [bind, Except.bind]

@[simp] theorem pure_ok {ε : Type} {a b : α} : (pure a : Except ε α) = .ok b ↔ a = b := by
  simp [pure, Except.pure]

theorem mapError_ok {ε ε' : Type} {x : Except ε α} {f : ε → ε'} {a : α} : x.mapError f = .ok a ↔ x = .ok a := by
  cases x with
  | ok => constructor <;> intro h <;> cases h <;> rfl
  | error => constructor <;> intro h <;> cases h

theorem require_ok {p : Prop} [Decidable p] {message : String} {u : Unit} : require p message = .ok u ↔ p := by
  unfold require; split <;> simp [*]

@[simp] theorem require_bind_ok {p : Prop} [Decidable p] {message : String} {f : Unit → Except Revert β} {b : β} :
    require p message >>= f = .ok b ↔ p ∧ f () = .ok b := by
  rw [bind_ok]
  exact ⟨fun ⟨u, hp, hf⟩ => ⟨require_ok.1 hp, hf⟩, fun ⟨hp, hf⟩ => ⟨(), require_ok.2 hp, hf⟩⟩

@[simp] theorem require_map_ok {p : Prop} [Decidable p] {message : String} {f : Unit → β} {b : β} :
    f <$> require p message = .ok b ↔ p ∧ f () = b := by
  unfold require; split <;> simp [*, Functor.map, Except.map]

theorem bind_error {x : Except Revert α} {f : α → Except Revert β} {e : Revert} :
    x >>= f = .error e ↔ x = .error e ∨ ∃ a, x = .ok a ∧ f a = .error e := by
  cases x <;> simp [bind, Except.bind]

theorem require_error {p : Prop} [Decidable p] {message : String} {e : Revert} :
    require p message = .error e ↔ ¬p ∧ e = .error message := by
  unfold require; split <;> simp [*, eq_comm]

end Ok

theorem checkedAdd_error {a b : Uint256} {e : Revert} (h : checkedAdd a b = .error e) : e = overflow := by
  unfold checkedAdd at h
  split at h <;> cases h
  rfl

theorem checkedAdd_ok {a b c : Uint256} : checkedAdd a b = .ok c ↔ a.toNat + b.toNat < 2 ^ 256 ∧ a + b = c := by
  unfold checkedAdd
  split
  next h => simp only [h, true_and, Except.ok.injEq]
  next h => simp only [h, false_and, reduceCtorEq]

theorem checkedSub_ok {a b c : Uint256} : checkedSub a b = .ok c ↔ b ≤ a ∧ a - b = c := by
  unfold checkedSub; split <;> simp [*]

end LawRegistry
