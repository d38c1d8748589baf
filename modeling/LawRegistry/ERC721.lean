import LawRegistry.Solidity
/-!
# The token code the registries inherit

`ERC721.sol`, as far as the registries expose it: they mint, and never burn. The transfer hooks
are empty there and left out. Every function that changes the storage returns it with the events
it emits.
-/

namespace LawRegistry

structure ERC721 where
  _owners : Uint256 → Address
  _balances : Address → Uint256
  _tokenApprovals : Uint256 → Address
  _operatorApprovals : Address → Address → Bool

/-- The answer of `onERC721Received`: it returned a `bytes4`, returned something else, or
reverted. -/
inductive Reply where
  | returned (retval : Bytes4)
  | malformed
  | reverted (reason : Bytes)
deriving DecidableEq, Repr

namespace ERC721

inductive Event where
  | Transfer (from_ to_ : Address) (tokenId : Uint256)
  | Approval (owner approved : Address) (tokenId : Uint256)
  | ApprovalForAll (owner operator : Address) (approved : Bool)
deriving DecidableEq, Repr

abbrev Result := Except Revert (ERC721 × List Event)

def empty : ERC721 := ⟨fun _ => .zero, fun _ => 0, fun _ => .zero, fun _ _ => false⟩

/-! ## Reads -/

section Reads
variable (s : ERC721)

def balanceOf (owner : Address) : Except Revert Uint256 := do
  require (owner ≠ .zero) "ERC721: address zero is not a valid owner"
  return s._balances owner

abbrev _ownerOf (tokenId : Uint256) : Address := s._owners tokenId

def ownerOf (tokenId : Uint256) : Except Revert Address := do
  let owner := s._ownerOf tokenId
  require (owner ≠ .zero) "ERC721: invalid token ID"
  return owner

def _exists (tokenId : Uint256) : Bool := s._ownerOf tokenId != .zero

def _requireMinted (tokenId : Uint256) : Except Revert Unit :=
  require (s._exists tokenId) "ERC721: invalid token ID"

def getApproved (tokenId : Uint256) : Except Revert Address := do
  s._requireMinted tokenId
  return s._tokenApprovals tokenId

abbrev isApprovedForAll (owner operator : Address) : Bool := s._operatorApprovals owner operator

def _isApprovedOrOwner (spender : Address) (tokenId : Uint256) : Except Revert Bool := do
  let owner ← s.ownerOf tokenId
  if spender == owner || s.isApprovedForAll owner spender then return true
  return (← s.getApproved tokenId) == spender

end Reads

/-! ## Writes -/

section Writes
variable (s : ERC721)

/-- The balance is incremented unchecked. -/
def _mint (to_ : Address) (tokenId : Uint256) : Result := do
  require (to_ ≠ .zero) "ERC721: mint to the zero address"
  require (!s._exists tokenId) "ERC721: token already minted"
  require (!s._exists tokenId) "ERC721: token already minted"
  let s := { s with _balances := Function.update s._balances to_ (s._balances to_ + 1) }
  let s := { s with _owners := Function.update s._owners tokenId to_ }
  return (s, [.Transfer .zero to_ tokenId])

/-- The balances move unchecked. -/
def _transfer (from_ to_ : Address) (tokenId : Uint256) : Result := do
  require ((← s.ownerOf tokenId) = from_) "ERC721: transfer from incorrect owner"
  require (to_ ≠ .zero) "ERC721: transfer to the zero address"
  require ((← s.ownerOf tokenId) = from_) "ERC721: transfer from incorrect owner"
  let s := { s with _tokenApprovals := Function.update s._tokenApprovals tokenId .zero }
  let s := { s with _balances := Function.update s._balances from_ (s._balances from_ - 1) }
  let s := { s with _balances := Function.update s._balances to_ (s._balances to_ + 1) }
  let s := { s with _owners := Function.update s._owners tokenId to_ }
  return (s, [.Transfer from_ to_ tokenId])

def _approve (to_ : Address) (tokenId : Uint256) : Result := do
  let s := { s with _tokenApprovals := Function.update s._tokenApprovals tokenId to_ }
  return (s, [.Approval (← s.ownerOf tokenId) to_ tokenId])

def _setApprovalForAll (owner operator : Address) (approved : Bool) : Result := do
  require (owner ≠ operator) "ERC721: approve to caller"
  let approvals := Function.update (s._operatorApprovals owner) operator approved
  let s := { s with _operatorApprovals := Function.update s._operatorApprovals owner approvals }
  return (s, [.ApprovalForAll owner operator approved])

end Writes

/-! ## Public functions that change the storage -/

/-- The calls an account can make, with their arguments. -/
inductive Op where
  | approve (to_ : Address) (tokenId : Uint256)
  | setApprovalForAll (operator : Address) (approved : Bool)
  | transferFrom (from_ to_ : Address) (tokenId : Uint256)
  | safeTransferFrom (from_ to_ : Address) (tokenId : Uint256)
  | safeTransferFromData (from_ to_ : Address) (tokenId : Uint256) (data : Bytes)
deriving DecidableEq, Repr

section Calls
variable (_msgSender : Address) (s : ERC721)

def approve (to_ : Address) (tokenId : Uint256) : Result := do
  let owner ← s.ownerOf tokenId
  require (to_ ≠ owner) "ERC721: approval to current owner"
  require (_msgSender = owner || s.isApprovedForAll owner _msgSender)
    "ERC721: approve caller is not token owner or approved for all"
  s._approve to_ tokenId

def setApprovalForAll (operator : Address) (approved : Bool) : Result :=
  s._setApprovalForAll _msgSender operator approved

def transferFrom (from_ to_ : Address) (tokenId : Uint256) : Result := do
  require (← s._isApprovedOrOwner _msgSender tokenId) "ERC721: caller is not token owner or approved"
  s._transfer from_ to_ tokenId

/-- `safeTransferFrom` with data, up to the call of the recipient; `data` only travels there. -/
def safeTransferFromData (from_ to_ : Address) (tokenId : Uint256) (_data : Bytes) : Result := do
  require (← s._isApprovedOrOwner _msgSender tokenId) "ERC721: caller is not token owner or approved"
  s._transfer from_ to_ tokenId

def safeTransferFrom (from_ to_ : Address) (tokenId : Uint256) : Result :=
  safeTransferFromData _msgSender s from_ to_ tokenId []

def call : Op → Result
  | .approve to_ tokenId => approve _msgSender s to_ tokenId
  | .setApprovalForAll operator approved => setApprovalForAll _msgSender s operator approved
  | .transferFrom from_ to_ tokenId => transferFrom _msgSender s from_ to_ tokenId
  | .safeTransferFrom from_ to_ tokenId => safeTransferFrom _msgSender s from_ to_ tokenId
  | .safeTransferFromData from_ to_ tokenId data => safeTransferFromData _msgSender s from_ to_ tokenId data

end Calls

/-! ## The recipient's answer -/

/-- `IERC721Receiver.onERC721Received.selector`. -/
def onERC721Received : Bytes4 := 0x150b7a02

/-- `none` is a recipient without code. -/
def _checkOnERC721Received : Option Reply → Except Revert Bool
  | none => .ok true
  | some (.returned retval) => .ok (retval == onERC721Received)
  | some .malformed => .error (.data [])
  | some (.reverted reason) =>
    if reason.length = 0 then .error (.error "ERC721: transfer to non ERC721Receiver implementer")
    else .error (.data reason)

/-- The end of `_safeTransfer`. -/
def _afterReceived (answer : Option Reply) : Except Revert Unit := do
  require (← _checkOnERC721Received answer) "ERC721: transfer to non ERC721Receiver implementer"

/-- The functions that call the recipient last. -/
def hook : Op → Option (Option Reply → Except Revert Unit)
  | .safeTransferFrom .. | .safeTransferFromData .. => some _afterReceived
  | _ => none

end ERC721

end LawRegistry
