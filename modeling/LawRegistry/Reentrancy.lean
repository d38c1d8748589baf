import LawRegistry.Lib.CallOut
import LawRegistry.History
/-!
# Callbacks add nothing

The registries' functions as code that calls out where the source does: `_safeTransfer` moves the
token, asks the recipient, who may call the registry again before it answers, and then looks at the
answer. The machine of `CallOut` would let such a function go on writing. `code_refines` shows that
it does not, so the contract that `Registry.contract` is may stand for the code, and whatever is
done from inside callbacks could have been done one call after the other.
-/

namespace LawRegistry

open CallOut (Store Move plain)

namespace ERC721

/-- The call of `onERC721Received` on `to_`, with its arguments. -/
structure Received where
  to_ : Address
  operator : Address
  from_ : Address
  tokenId : Uint256
  data : Bytes
deriving DecidableEq, Repr

end ERC721

namespace Registry

/-! ## The code -/

abbrev Code (L : Layer) := CallOut.Code ERC721.Received (Storage L) Event Reply Revert

section Code
variable {L : Layer} (_msgSender : Address)

/-- A function of the token code without external calls. -/
def changeTokens (f : ERC721 → ERC721.Result) : Code L Unit := .change fun s => do
  let (t, events) ← f (tokens s)
  return (withTokens s t, events.map .erc721)

def _checkOnERC721Received (from_ to_ : Address) (tokenId : Uint256) (data : Bytes) : Code L Bool := do
  let answer ← .callOut ⟨to_, _msgSender, from_, tokenId, data⟩
  .view fun _ => ERC721._checkOnERC721Received answer

def _safeTransfer (from_ to_ : Address) (tokenId : Uint256) (data : Bytes) : Code L Unit := do
  changeTokens (·._transfer from_ to_ tokenId)
  let received ← _checkOnERC721Received _msgSender from_ to_ tokenId data
  .view fun _ => require received "ERC721: transfer to non ERC721Receiver implementer"

def safeTransferFromData (from_ to_ : Address) (tokenId : Uint256) (data : Bytes) : Code L Unit := do
  let allowed ← .view fun s => (tokens s)._isApprovedOrOwner _msgSender tokenId
  .view fun _ => require allowed "ERC721: caller is not token owner or approved"
  _safeTransfer _msgSender from_ to_ tokenId data

def safeTransferFrom (from_ to_ : Address) (tokenId : Uint256) : Code L Unit :=
  safeTransferFromData _msgSender from_ to_ tokenId []

/-- The functions of a registry; only the safe transfers make an external call. -/
def code (keccak256 : Bytes → Bytes32) (L : Layer) (_msgSender : Address) : Op → Code L Unit
  | .erc721 (.safeTransferFrom from_ to_ tokenId) => safeTransferFrom _msgSender from_ to_ tokenId
  | .erc721 (.safeTransferFromData from_ to_ tokenId data) => safeTransferFromData _msgSender from_ to_ tokenId data
  | op => .change ((contract keccak256 L).body _msgSender op)

/-- Whom a function calls, if it calls anyone. -/
def callee : Op → Option ERC721.Received
  | .erc721 (.safeTransferFrom from_ to_ tokenId) => some ⟨to_, _msgSender, from_, tokenId, []⟩
  | .erc721 (.safeTransferFromData from_ to_ tokenId data) => some ⟨to_, _msgSender, from_, tokenId, data⟩
  | _ => none

/-- What `_safeTransfer` has left to do when the recipient has answered. -/
def received (answer : Option Reply) : Code L Unit := do
  let ok ← .view fun _ => ERC721._checkOnERC721Received answer
  .view fun _ => require ok "ERC721: transfer to non ERC721Receiver implementer"

end Code

variable {keccak256 : Bytes → Bytes32} {L : Layer}

theorem acceptsPlain : Calls.AcceptsPlain (contract keccak256 L) := by
  intro op check hh
  rw [contract_hook] at hh
  rw [Op.hook_some hh]
  exact ⟨(), ERC721.afterReceived_ok.2 rfl⟩

theorem body_call (sender : Address) (op : ERC721.Op) (s : Storage L) :
    (contract keccak256 L).body sender (.erc721 op) s = (do
      let (t, events) ← ERC721.call sender (tokens s) op
      return (withTokens s t, events.map .erc721)) := by
  cases L <;> rfl

/-- After the answer nothing is written and nothing emitted. -/
theorem received_onlyChecks (answer : Option Reply) :
    CallOut.OnlyChecks (received (L := L) answer) (ERC721._afterReceived answer) := by
  intro code w
  unfold received ERC721._afterReceived
  rw [CallOut.go_view_bind]
  cases ERC721._checkOnERC721Received answer with
  | error x => rfl
  | ok ok =>
    change (CallOut.Code.view _).go code w = _
    rw [CallOut.go_view]
    change _ = (require _ _).map _
    cases require (ok = true) "ERC721: transfer to non ERC721Receiver implementer" <;> rfl

/-- Up to the call of the recipient, the code is the body. -/
theorem safeTransfer_go (keccak256 : Bytes → Bytes32) (code : ERC721.Received → Bool) (sender from_ to_ : Address)
    (tokenId : Uint256) (data : Bytes) (w : Store (Storage L) Event) :
    (safeTransferFromData sender from_ to_ tokenId data).go code w =
      match (contract keccak256 L).body sender (.erc721 (.safeTransferFromData from_ to_ tokenId data)) w.storage with
      | .error x => .error x
      | .ok (s, events) =>
        if code ⟨to_, sender, from_, tokenId, data⟩ then
          .ok (⟨s, w.log ++ events⟩, .waiting ⟨to_, sender, from_, tokenId, data⟩ fun answer => received (some answer))
        else (received none).go code ⟨s, w.log ++ events⟩ := by
  rw [body_call]
  unfold safeTransferFromData _safeTransfer changeTokens
  simp only [ERC721.call, ERC721.safeTransferFromData]
  rw [CallOut.go_view_bind]
  cases ha : (tokens w.storage)._isApprovedOrOwner sender tokenId with
  | error x => rfl
  | ok allowed =>
    simp only
    rw [CallOut.go_view_bind]
    cases hr : require (allowed = true) "ERC721: caller is not token owner or approved" with
    | error x => simp only [bind, Except.bind, hr]
    | ok u =>
      simp only
      rw [CallOut.go_change_bind]
      cases ht : (tokens w.storage)._transfer from_ to_ tokenId with
      | error x => simp only [bind, Except.bind, hr]
      | ok r =>
        simp only [bind, Except.bind, hr]
        rfl

/-- A safe transfer does what the contract says: all it writes it has written when it calls the recipient. -/
theorem safeTransfer_does (keccak256 : Bytes → Bytes32) (sender from_ to_ : Address) (tokenId : Uint256)
    (data : Bytes) :
    CallOut.Does (safeTransferFromData (L := L) sender from_ to_ tokenId data)
      ((contract keccak256 L).body sender (.erc721 (.safeTransferFromData from_ to_ tokenId data)))
      (some ERC721._afterReceived) (some ⟨to_, sender, from_, tokenId, data⟩) where
  fails hb code log := by rw [safeTransfer_go keccak256, hb]
  ends _ hh := by cases hh
  calls hb hh := by
    cases hh
    exact ⟨_, received, rfl, received_onlyChecks, fun code log => by rw [safeTransfer_go keccak256, hb]⟩

theorem code_refines : CallOut.Refines (code keccak256 L) (contract keccak256 L) callee := by
  intro sender op
  rw [contract_hook]
  cases op with
  | claimZone zoneName => exact .change
  | updateAgreement zone key revisionName value => exact .change
  | erc721 op =>
    cases op with
    | approve to_ tokenId => exact .change
    | setApprovalForAll operator approved => exact .change
    | transferFrom from_ to_ tokenId => exact .change
    | safeTransferFrom from_ to_ tokenId =>
      -- The overload passes no data.
      cases L <;> exact safeTransfer_does keccak256 sender from_ to_ tokenId []
    | safeTransferFromData from_ to_ tokenId data => exact safeTransfer_does keccak256 ..

/-! ## Runs of the code -/

abbrev CodeMachine (L : Layer) := CallOut.Machine ERC721.Received (Storage L) Event Reply Revert
abbrev CodeMove := Move Address Op ERC721.Received Reply

/-- Where the registry's code gets from the constructor on. -/
def executed (keccak256 : Bytes → Bytes32) (L : Layer) (moves : List CodeMove) : CodeMachine L :=
  CallOut.run (code keccak256 L) (CallOut.start (contract keccak256 L).init) moves

/-- The steps of the contract's machine that the moves stand for. -/
def steps (moves : List CodeMove) : List Step := moves.map (Move.step callee)

/-- The code and the contract in lockstep. -/
theorem executed_rel (moves : List CodeMove) :
    CallOut.MachineRel (contract keccak256 L) (executed keccak256 L moves)
      (Calls.run (contract keccak256 L) (deployed keccak256 L) (steps moves)) :=
  (CallOut.MachineRel.start _).run code_refines moves

theorem callee_some {sender : Address} {op : Op} {c : ERC721.Received} (h : callee sender op = some c) :
    ∃ call : ERC721.Op, op = .erc721 call ∧ call.moves = some (c.from_, c.to_, c.tokenId) ∧ c.operator = sender := by
  cases op with
  | claimZone | updateAgreement => cases h
  | erc721 call => cases call <;> cases h <;> exact ⟨_, rfl, rfl, rfl⟩

/-- When the recipient is called, the token is its own and nobody is approved for it. -/
theorem body_called {sender : Address} {op : Op} {c : ERC721.Received} {s s' : Storage L} {events : List Event}
    (hc : callee sender op = some c) (hb : (contract keccak256 L).body sender op s = .ok (s', events)) :
    (tokens s').ownerOf c.tokenId = .ok c.to_ ∧ (tokens s').getApproved c.tokenId = .ok .zero := by
  obtain ⟨call, rfl, hmoves, -⟩ := callee_some hc
  obtain ⟨t, evs, he, ht⟩ := erc721_ok hb
  rw [ht]
  cases he with
  | approve | setApprovalForAll => cases hmoves
  | move hop ho h0 hto hm =>
    rw [hop] at hmoves
    cases hmoves
    rw [ERC721.ownerOf_ok, ERC721.getApproved_ok]
    simp [hto]

/-- The registries' code, whose functions might go on writing after a call out, and callbacks into it.
With nothing pending it is where calls nested in one another get that each do all their work before the
call out, and nowhere else. Run in lockstep with the contract it accepts the same and has the same storage
and events; wherever it gets, also from inside a callback, some of the calls made get there one after the
other with no account called having code. A recipient that is called owns the token, with nobody approved
for it; if its answer is not the selector all since the transfer began is taken back, and if it is
nothing more happens. -/
theorem callbacks_add_nothing (keccak256 : Bytes → Bytes32) (L : Layer) :
    let K := contract keccak256 L
    let F := code keccak256 L
    (∀ w, (∃ moves, executed keccak256 L moves = ⟨w, []⟩) ↔
      ∃ f : Calls.Forest Address Op Reply, Store.of (f.eval K ⟨K.init, []⟩) = w) ∧
    ∀ moves : List CodeMove,
      let m := executed keccak256 L moves
      m.world = Store.of (reached keccak256 L (steps moves)) ∧
      (∀ mv, CallOut.accepts F m mv =
        Calls.accepts K (Calls.run K (deployed keccak256 L) (steps moves)) (mv.step callee)) ∧
      (∃ calls : List (Address × Op), calls.Sublist (CallOut.callsMade moves) ∧
        executed keccak256 L (calls.map plain) = ⟨m.world, []⟩) ∧
      (∀ sender op hasCode f, (CallOut.exec F m (.call sender op hasCode)).stack = f :: m.stack →
        let t := tokens (CallOut.exec F m (.call sender op hasCode)).world.storage
        callee sender op = some f.callee ∧ f.saved = m.world ∧
          t.ownerOf f.callee.tokenId = .ok f.callee.to_ ∧ t.getApproved f.callee.tokenId = .ok .zero) ∧
      ∀ f below, m.stack = f :: below → ∀ answer hasCode,
        CallOut.exec F m (.reply answer hasCode) =
          ⟨if answer = .returned ERC721.onERC721Received then m.world else f.saved, below⟩ := by
  intro K F
  refine ⟨fun w => CallOut.settled_iff code_refines, fun moves => ?_⟩
  have hrel : CallOut.MachineRel K (executed keccak256 L moves) _ := executed_rel moves
  refine ⟨hrel.world, hrel.accepts code_refines, CallOut.run_flat code_refines acceptsPlain _ moves, ?_, ?_⟩
  · intro sender op hasCode f hf
    obtain ⟨s', events, hb, hc, hsaved, hw⟩ := CallOut.entered code_refines hf
    obtain ⟨howner, happroved⟩ := body_called hc hb
    rw [hw]
    exact ⟨hc, hsaved, howner, happroved⟩
  · intro f below hs answer hasCode
    obtain ⟨op, check, hop, hanswer⟩ := hrel.answered (F := F) hs
    rw [contract_hook] at hop
    rw [hanswer answer hasCode, Op.hook_some hop]
    cases hcheck : ERC721._afterReceived (some answer) with
    | ok u => rw [if_pos (ERC721.acknowledged_some.1 (ERC721.afterReceived_ok.1 hcheck))]
    | error x =>
      rw [if_neg]
      intro hselector
      have hok : ERC721._afterReceived (some answer) = .ok () :=
        ERC721.afterReceived_ok.2 (ERC721.acknowledged_some.2 hselector)
      rw [hok] at hcheck
      cases hcheck

end Registry

end LawRegistry
