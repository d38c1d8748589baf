import Mathlib.Logic.Function.Basic
/-!
# The catalogue

What the registries are for, in terms of their users: zones with an owner, found by name, in
which the owner publishes documents under a key and a revision. No hash, no token id and no empty
string stands for anything. Accounts, names, keys and documents are arbitrary.
-/

namespace LawRegistry

structure Listing (α ν κ δ : Type) where
  owner : α
  /-- Who may hand the zone over, besides the owner and those the owner trusts. -/
  delegate : Option α
  documents : κ → ν → Option δ

structure Catalogue (α ν κ δ : Type) where
  listing : ν → Option (Listing α ν κ δ)
  trusts : α → α → Bool

/-- What an account asks for. To publish no document takes nothing back. -/
inductive Request (α ν κ δ : Type) where
  | claim (zone : ν)
  | publish (zone : ν) (key : κ) (revision : ν) (document : Option δ)
  | delegate (zone : ν) (to_ : Option α)
  | trust (operator : α) (allowed : Bool)
  | transfer (zone : ν) (from_ to_ : α)

namespace Catalogue
variable {α ν κ δ : Type}

def empty : Catalogue α ν κ δ := ⟨fun _ => none, fun _ _ => false⟩

variable [DecidableEq α] [DecidableEq ν] [DecidableEq κ] (latest : ν) (sender : α) (c : Catalogue α ν κ δ)

def put (zone : ν) (l : Listing α ν κ δ) : Catalogue α ν κ δ :=
  { c with listing := Function.update c.listing zone (some l) }

/-- A request about a listed zone that meets `p`. -/
def onListing (zone : ν) (p : Listing α ν κ δ → Prop) [DecidablePred p]
    (f : Listing α ν κ δ → Listing α ν κ δ) : Option (Catalogue α ν κ δ) :=
  match c.listing zone with
  | none => none
  | some l => if p l then some (c.put zone (f l)) else none

/-- What a request leads to; `none` if it is refused. A revision stays what it is, but for
`latest`. -/
def ask : Request α ν κ δ → Option (Catalogue α ν κ δ)
  | .claim zone => if c.listing zone = none then some (c.put zone ⟨sender, none, fun _ _ => none⟩) else none
  | .publish zone key revision document =>
    c.onListing zone
      (fun l => l.owner = sender ∧ (revision = latest ∨ l.documents key revision = none))
      fun l => { l with
        documents := Function.update l.documents key (Function.update (l.documents key) revision document) }
  | .delegate zone to_ =>
    c.onListing zone (fun l => to_ ≠ some l.owner ∧ (sender = l.owner ∨ c.trusts l.owner sender = true))
      fun l => { l with delegate := to_ }
  | .trust operator allowed =>
    if sender ≠ operator then
      some { c with trusts := Function.update c.trusts sender (Function.update (c.trusts sender) operator allowed) }
    else none
  | .transfer zone from_ to_ =>
    c.onListing zone
      (fun l => l.owner = from_ ∧
        (sender = l.owner ∨ c.trusts l.owner sender = true ∨ l.delegate = some sender))
      fun l => { l with owner := to_, delegate := none }

end Catalogue

end LawRegistry
