import LawRegistry.Lib.Checks
import LawRegistry.Lib.Renaming
import LawRegistry.History
/-!
# Nothing is special

Accounts, keys, CIDs and names may be other ones, and the hash function another one: the registries
then do the same under the other names. Only `address(0)`, `latest`, the empty name and the empty CID
stand out.
-/

namespace LawRegistry

open Calls (run accepts Renames)
open Checks (reason)
open Renamed (table bind_map table_update table_apply table_const)

/-- A `require` of the same under other names. -/
theorem require_bind_map {p q : Prop} [Decidable p] [Decidable q] {message : String} {β β' : Type}
    {f : Unit → Except Revert β} {f' : Unit → Except Revert β'} {g : β → β'} (hp : p ↔ q)
    (hf : f' () = (f ()).map g) : require p message >>= f' = (require q message >>= f).map g := by
  by_cases h : q
  · rw [require, if_pos (hp.2 h), require, if_pos h]
    exact hf
  · rw [require, if_neg (mt hp.1 h), require, if_neg h]
    rfl

namespace ERC721
variable (account : Equiv.Perm Address) (token : Equiv.Perm Uint256)

def renamed (s : ERC721) : ERC721 :=
  ⟨table token account s._owners, table account id s._balances, table token account s._tokenApprovals,
    table account (table account id) s._operatorApprovals⟩

def Event.renamed : Event → Event
  | .Transfer from_ to_ tokenId => .Transfer (account from_) (account to_) (token tokenId)
  | .Approval owner approved tokenId => .Approval (account owner) (account approved) (token tokenId)
  | .ApprovalForAll owner operator approved => .ApprovalForAll (account owner) (account operator) approved

def Op.renamed : Op → Op
  | .approve to_ tokenId => .approve (account to_) (token tokenId)
  | .setApprovalForAll operator approved => .setApprovalForAll (account operator) approved
  | .transferFrom from_ to_ tokenId => .transferFrom (account from_) (account to_) (token tokenId)
  | .safeTransferFrom from_ to_ tokenId => .safeTransferFrom (account from_) (account to_) (token tokenId)
  | .safeTransferFromData from_ to_ tokenId data =>
    .safeTransferFromData (account from_) (account to_) (token tokenId) data

def renamedResult (r : ERC721 × List Event) : ERC721 × List Event :=
  (r.1.renamed account token, r.2.map (Event.renamed account token))

section
variable {account token} {s : ERC721}

theorem owners_renamed (i : Uint256) : (s.renamed account token)._owners (token i) = account (s._owners i) :=
  table_apply i

theorem isApprovedForAll_renamed (owner operator : Address) :
    (s.renamed account token).isApprovedForAll (account owner) (account operator) =
      s.isApprovedForAll owner operator := by
  simp only [isApprovedForAll, renamed, table_apply, id]

/-! What is written under other names. -/

theorem balances_renamed (o : Address) : (s.renamed account token)._balances (account o) = s._balances o := by
  simp only [renamed, table_apply, id]

theorem minted_renamed (to_ : Address) (i : Uint256) :
    (s.renamed account token).minted (account to_) (token i) = (s.minted to_ i).renamed account token := by
  simp only [minted, balances_renamed]
  simp only [renamed, table_update, id]

theorem approved_renamed (to_ : Address) (i : Uint256) :
    (s.renamed account token).approved (account to_) (token i) = (s.approved to_ i).renamed account token := by
  simp only [approved, renamed, table_update]

theorem operatorSet_renamed (owner operator : Address) (b : Bool) :
    (s.renamed account token).operatorSet (account owner) (account operator) b =
      (s.operatorSet owner operator b).renamed account token := by
  simp only [operatorSet, renamed, table_update, table_apply, id]

theorem setApprovalForAll_renamed (owner operator : Address) (approved : Bool) :
    (s.renamed account token)._setApprovalForAll (account owner) (account operator) approved =
      (s._setApprovalForAll owner operator approved).map (renamedResult account token) := by
  unfold _setApprovalForAll
  refine require_bind_map (not_congr account.apply_eq_iff_eq) ?_
  change Except.ok ((s.renamed account token).operatorSet (account owner) (account operator) approved, _) = _
  rw [operatorSet_renamed]
  rfl

variable (h0 : account .zero = .zero)
include h0

theorem account_eq_zero {a : Address} : account a = .zero ↔ a = .zero := by
  rw [← h0, Equiv.apply_eq_iff_eq, h0]

theorem ownerOf_renamed (i : Uint256) :
    (s.renamed account token).ownerOf (token i) = (s.ownerOf i).map account := by
  unfold ownerOf
  refine require_bind_map ?_ ?_
  · simp only [_ownerOf, owners_renamed, ne_eq, account_eq_zero h0]
  · simp only [_ownerOf, owners_renamed]
    rfl

theorem exists_renamed (i : Uint256) : (s.renamed account token)._exists (token i) = s._exists i := by
  simp only [_exists, _ownerOf, owners_renamed]
  rw [Bool.eq_iff_iff]
  simp only [bne_iff_ne, ne_eq, account_eq_zero h0]

theorem getApproved_renamed (i : Uint256) :
    (s.renamed account token).getApproved (token i) = (s.getApproved i).map account := by
  unfold getApproved _requireMinted
  refine require_bind_map ?_ ?_
  · rw [exists_renamed h0]
  · simp only [renamed, table_apply]
    rfl

theorem isApprovedOrOwner_renamed (spender : Address) (i : Uint256) :
    (s.renamed account token)._isApprovedOrOwner (account spender) (token i) =
      (s._isApprovedOrOwner spender i).map id := by
  unfold _isApprovedOrOwner
  refine bind_map (ownerOf_renamed h0 i) fun owner _ => ?_
  have hs : (account spender == account owner) = (spender == owner) := account.injective.beq_eq
  rw [isApprovedForAll_renamed, hs]
  split
  · rfl
  · refine bind_map (getApproved_renamed h0 i) fun approved _ => ?_
    have ha : (account approved == account spender) = (approved == spender) := account.injective.beq_eq
    rw [ha]
    rfl

theorem moved_renamed (from_ to_ : Address) (i : Uint256) :
    (s.renamed account token).moved (account from_) (account to_) (token i) =
      (s.moved from_ to_ i).renamed account token := by
  have hf : Function.update (s.renamed account token)._balances (account from_) (s._balances from_ - 1) =
      table account id (Function.update s._balances from_ (s._balances from_ - 1)) := by
    simp only [renamed, table_update, id]
  simp only [moved, balances_renamed, hf, table_apply, id]
  simp only [renamed, table_update, h0, id]

theorem mint_renamed (to_ : Address) (i : Uint256) :
    (s.renamed account token)._mint (account to_) (token i) = (s._mint to_ i).map (renamedResult account token) := by
  unfold _mint
  rw [exists_renamed h0]
  refine require_bind_map (not_congr (account_eq_zero h0)) (require_bind_map Iff.rfl (require_bind_map Iff.rfl ?_))
  change Except.ok ((s.renamed account token).minted (account to_) (token i), _) = Except.ok (_, _)
  have he : Event.Transfer .zero (account to_) (token i) = (Event.Transfer .zero to_ i).renamed account token := by
    rw [Event.renamed, h0]
  rw [minted_renamed, he]
  rfl

theorem transfer_renamed (from_ to_ : Address) (i : Uint256) :
    (s.renamed account token)._transfer (account from_) (account to_) (token i) =
      (s._transfer from_ to_ i).map (renamedResult account token) := by
  unfold _transfer
  refine bind_map (ownerOf_renamed h0 i) fun owner _ => ?_
  refine require_bind_map account.apply_eq_iff_eq (require_bind_map (not_congr (account_eq_zero h0)) ?_)
  refine bind_map (ownerOf_renamed h0 i) fun owner _ => ?_
  refine require_bind_map account.apply_eq_iff_eq ?_
  change Except.ok ((s.renamed account token).moved (account from_) (account to_) (token i), _) = Except.ok (_, _)
  rw [moved_renamed h0]
  rfl

theorem approve_renamed (to_ : Address) (i : Uint256) :
    (s.renamed account token)._approve (account to_) (token i) =
      (s._approve to_ i).map (renamedResult account token) := by
  have hb (s : ERC721) (to_ : Address) (i : Uint256) :
      s._approve to_ i = (s.approved to_ i).ownerOf i >>= fun owner =>
        .ok (s.approved to_ i, [.Approval owner to_ i]) := rfl
  rw [hb, hb, approved_renamed]
  exact bind_map (ownerOf_renamed h0 i) fun owner _ => rfl

theorem call_renamed (sender : Address) (op : Op) :
    call (account sender) (s.renamed account token) (op.renamed account token) =
      (call sender s op).map (renamedResult account token) := by
  have hmove (from_ to_ : Address) (i : Uint256) :
      transferFrom (account sender) (s.renamed account token) (account from_) (account to_) (token i) =
        (transferFrom sender s from_ to_ i).map (renamedResult account token) := by
    refine bind_map (isApprovedOrOwner_renamed h0 sender i) fun b _ => ?_
    exact require_bind_map Iff.rfl (transfer_renamed h0 from_ to_ i)
  cases op with
  | approve to_ tokenId =>
    refine bind_map (ownerOf_renamed h0 tokenId) fun owner _ => ?_
    rw [isApprovedForAll_renamed]
    refine require_bind_map (not_congr account.apply_eq_iff_eq) (require_bind_map ?_ (approve_renamed h0 to_ tokenId))
    rw [Bool.or_eq_true, Bool.or_eq_true, decide_eq_true_iff, decide_eq_true_iff, account.apply_eq_iff_eq]
  | setApprovalForAll operator approved => exact setApprovalForAll_renamed sender operator approved
  | transferFrom from_ to_ tokenId => exact hmove from_ to_ tokenId
  | safeTransferFrom from_ to_ tokenId => exact hmove from_ to_ tokenId
  | safeTransferFromData from_ to_ tokenId data => exact hmove from_ to_ tokenId

theorem balanceOf_renamed (owner : Address) :
    (s.renamed account token).balanceOf (account owner) = s.balanceOf owner := by
  unfold balanceOf
  rw [balances_renamed]
  simp only [ne_eq, account_eq_zero h0]

end

end ERC721

/-- Other accounts, names, keys, CIDs, and hashes. -/
structure Symmetry (keccak256 keccak256' : Bytes → Bytes32) where
  account : Equiv.Perm Address
  hash : Equiv.Perm Bytes32
  key : Equiv.Perm Bytes32
  name : Bytes → Bytes
  value : Bytes → Bytes
  account_zero : account .zero = .zero
  hash_name : ∀ n, keccak256' (name n) = hash (keccak256 n)
  hash_latest : keccak256' latest = hash (keccak256 latest)
  name_nil : name [] = []
  value_nil : ∀ v, value v = [] ↔ v = []

namespace Symmetry
variable {keccak256 keccak256' : Bytes → Bytes32} (ρ : Symmetry keccak256 keccak256') (L : Layer)

/-- On L1 a token is a hash. On L2 it is a number, and stays what it is. -/
def token : Layer → Equiv.Perm Uint256
  | .l1 => ρ.hash
  | .l2 => Equiv.refl _

def op : Op → Op
  | .claimZone zoneName => .claimZone (ρ.name zoneName)
  | .updateAgreement zone key revisionName value =>
    .updateAgreement (ρ.token L zone) (ρ.key key) (ρ.name revisionName) (ρ.value value)
  | .erc721 op => .erc721 (op.renamed ρ.account (ρ.token L))

def event : Event → Event
  | .erc721 e => .erc721 (e.renamed ρ.account (ρ.token L))
  | .AgreementUpdated zone key value revision =>
    .AgreementUpdated (ρ.token L zone) (ρ.key key) (ρ.value value) (ρ.hash revision)

def agreements (a : Agreements) : Agreements := table (ρ.token L) (table ρ.key (table ρ.hash ρ.value)) a

def l1 (s : DocRegistry) : DocRegistry where
  toERC721 := s.toERC721.renamed ρ.account (ρ.token .l1)
  _zoneAgreements := ρ.agreements .l1 s._zoneAgreements
  _names := table ρ.hash ρ.name s._names

def l2 (s : DocRegistryL2) : DocRegistryL2 where
  toERC721 := s.toERC721.renamed ρ.account (ρ.token .l2)
  _zoneAgreements := ρ.agreements .l2 s._zoneAgreements
  _zoneHashToId := table ρ.hash id s._zoneHashToId
  _names := table (ρ.token .l2) ρ.name s._names
  counter := s.counter

def storage : {L : Layer} → Registry.Storage L → Registry.Storage L
  | .l1 => ρ.l1
  | .l2 => ρ.l2

def calls : Calls.Renaming Address Op (Registry.Storage L) Event := ⟨ρ.account, ρ.op L, ρ.storage, ρ.event L⟩

variable {L}

theorem agreements_set (a : Agreements) (zone : Uint256) (key revision : Bytes32) (value : Bytes) :
    (ρ.agreements L a).set (ρ.token L zone) (ρ.key key) (ρ.hash revision) (ρ.value value) =
      ρ.agreements L (a.set zone key revision value) := by
  simp only [Agreements.set, agreements, table_update, table_apply]

theorem agreements_apply (a : Agreements) (zone : Uint256) (key revision : Bytes32) :
    ρ.agreements L a (ρ.token L zone) (ρ.key key) (ρ.hash revision) = ρ.value (a zone key revision) := by
  simp only [agreements, table_apply]

theorem publish (sender : Address) (s : ERC721) (a : Agreements) (zone : Uint256) (key : Bytes32)
    (revisionName value : Bytes) :
    publish keccak256' (ρ.account sender) (s.renamed ρ.account (ρ.token L)) (ρ.agreements L a) (ρ.token L zone)
        (ρ.key key) (ρ.name revisionName) (ρ.value value) =
      (publish keccak256 sender s a zone key revisionName value).map fun r =>
        (ρ.agreements L r.1, r.2.map (ρ.event L)) := by
  refine bind_map (ERC721.ownerOf_renamed ρ.account_zero zone) fun owner _ => ?_
  refine require_bind_map ρ.account.apply_eq_iff_eq ?_
  simp only [ρ.hash_name, ρ.hash_latest, ne_eq, ρ.hash.apply_eq_iff_eq, agreements_set]
  split
  · refine require_bind_map ?_ rfl
    rw [agreements_apply, List.length_eq_zero_iff, List.length_eq_zero_iff, ρ.value_nil]
  · rfl

theorem token_call {sender : Address} {s : ERC721} {op : ERC721.Op} :
    ERC721.call (ρ.account sender) (s.renamed ρ.account (ρ.token L)) (op.renamed ρ.account (ρ.token L)) =
      (ERC721.call sender s op).map (ERC721.renamedResult ρ.account (ρ.token L)) :=
  ERC721.call_renamed ρ.account_zero sender op

theorem map_erc721 (events : List ERC721.Event) :
    (events.map (ERC721.Event.renamed ρ.account (ρ.token L))).map Event.erc721 =
      (events.map Event.erc721).map (ρ.event L) := by
  rw [List.map_map, List.map_map]
  rfl

theorem mint (sender : Address) (s : ERC721) (tokenId : Uint256) :
    (s.renamed ρ.account (ρ.token L))._mint (ρ.account sender) (ρ.token L tokenId) =
      (s._mint sender tokenId).map (ERC721.renamedResult ρ.account (ρ.token L)) :=
  ERC721.mint_renamed ρ.account_zero sender tokenId

theorem body_l1 (sender : Address) (op : Op) (s : DocRegistry) :
    DocRegistry.body keccak256' (ρ.account sender) (ρ.l1 s) (ρ.op .l1 op) =
      (DocRegistry.body keccak256 sender s op).map (ρ.calls .l1).result := by
  cases op with
  | claimZone zoneName =>
    have hm : (ρ.l1 s)._mint (ρ.account sender) (keccak256' (ρ.name zoneName)) = _ :=
      (ρ.hash_name zoneName).symm ▸ ρ.mint (L := .l1) sender s.toERC721 (keccak256 zoneName)
    refine bind_map hm fun r _ => ?_
    simp only [ρ.hash_name, pure, Except.pure, Except.map, calls, Calls.Renaming.result, storage, l1, table_update,
      ERC721.renamedResult, map_erc721]
  | updateAgreement zone key revisionName value =>
    have hp := ρ.publish (L := .l1) sender s.toERC721 s._zoneAgreements zone key revisionName value
    exact bind_map hp fun r _ => rfl
  | erc721 op =>
    refine bind_map ρ.token_call fun r _ => ?_
    simp only [pure, Except.pure, Except.map, calls, Calls.Renaming.result, storage, l1, ERC721.renamedResult,
      map_erc721]

theorem checkedAdd_id (a b : Uint256) : checkedAdd a b = (checkedAdd a b).map id := by
  cases checkedAdd a b <;> rfl

theorem entry (s : DocRegistryL2) (h : Bytes32) : (ρ.l2 s)._zoneHashToId (ρ.hash h) = s._zoneHashToId h := by
  simp only [l2, table_apply, id]

theorem body_l2 (sender : Address) (op : Op) (s : DocRegistryL2) :
    DocRegistryL2.body keccak256' (ρ.account sender) (ρ.l2 s) (ρ.op .l2 op) =
      (DocRegistryL2.body keccak256 sender s op).map (ρ.calls .l2).result := by
  cases op with
  | claimZone zoneName =>
    have hz : (ρ.l2 s)._zoneHashToId (keccak256' (ρ.name zoneName)) = s._zoneHashToId (keccak256 zoneName) := by
      rw [ρ.hash_name]
      exact ρ.entry s _
    refine require_bind_map (by rw [hz]) ?_
    have hm : (ρ.l2 s)._mint (ρ.account sender) s.counter = _ :=
      ρ.mint (L := .l2) sender s.toERC721 s.counter
    refine bind_map hm fun r _ => ?_
    refine bind_map (checkedAdd_id ..) fun c _ => ?_
    refine bind_map (checkedAdd_id ..) fun d _ => ?_
    simp only [ρ.hash_name, pure, Except.pure, Except.map, calls, Calls.Renaming.result, storage, l2, table_update,
      map_erc721]
    rfl
  | updateAgreement zone key revisionName value =>
    have hp := ρ.publish (L := .l2) sender s.toERC721 s._zoneAgreements zone key revisionName value
    exact bind_map hp fun r _ => rfl
  | erc721 op =>
    refine bind_map ρ.token_call fun r _ => ?_
    simp only [pure, Except.pure, Except.map, calls, Calls.Renaming.result, storage, l2, ERC721.renamedResult,
      map_erc721]

/-- Each registry does under the other names what it does. -/
theorem renames (L : Layer) :
    Renames (ρ.calls L) (Registry.contract keccak256 L) (Registry.contract keccak256' L) where
  init := by
    have hv : ρ.value [] = [] := (ρ.value_nil []).2 rfl
    have ha (L : Layer) : ρ.agreements L (fun _ _ _ => []) = fun _ _ _ => [] := by
      simp only [agreements, table_const, hv]
    have ht (L : Layer) : ERC721.empty.renamed ρ.account (ρ.token L) = ERC721.empty := by
      simp only [ERC721.renamed, ERC721.empty, table_const, ρ.account_zero, id]
    have hn (token : Equiv.Perm Uint256) : table token ρ.name (fun _ => []) = fun _ => [] := by
      rw [table_const, ρ.name_nil]
    cases L with
    | l1 => exact DocRegistry.mk.injEq .. ▸ ⟨(ht .l1).symm, (ha .l1).symm, (hn _).symm⟩
    | l2 => exact DocRegistryL2.mk.injEq .. ▸ ⟨(ht .l2).symm, (ha .l2).symm, rfl, (hn _).symm, rfl⟩
  body a op s := by
    cases L with
    | l1 => exact ρ.body_l1 a op s
    | l2 => exact ρ.body_l2 a op s
  hook op := by
    rcases op with _ | _ | op
    · cases L <;> rfl
    · cases L <;> rfl
    · cases op <;> cases L <;> rfl

/-- What is read under the other names of what, by hash and by id. -/
structure Reads (s s' : Registry.Storage L) : Prop where
  zoneOwner : ∀ h, Registry.zoneOwner s' (ρ.hash h) = (Registry.zoneOwner s h).map ρ.account
  zoneID : ∀ h, Registry.zoneID s' (ρ.hash h) = (Registry.zoneID s h).map (ρ.token L)
  name : ∀ h, Registry.name s' (ρ.hash h) = (Registry.name s h).map ρ.name
  zoneAgreement : ∀ h key revision, Registry.zoneAgreement s' (ρ.hash h) (ρ.key key) (ρ.hash revision) =
    (Registry.zoneAgreement s h key revision).map ρ.value
  nameOf : ∀ id, Registry.nameOf s' (ρ.token L id) = ρ.name (Registry.nameOf s id)
  agreementOf : ∀ id key revision, Registry.agreementOf s' (ρ.token L id) (ρ.key key) (ρ.hash revision) =
    ρ.value (Registry.agreementOf s id key revision)
  ownerOf : ∀ id, (Registry.tokens s').ownerOf (ρ.token L id) = ((Registry.tokens s).ownerOf id).map ρ.account
  getApproved : ∀ id, (Registry.tokens s').getApproved (ρ.token L id) =
    ((Registry.tokens s).getApproved id).map ρ.account
  balanceOf : ∀ a, (Registry.tokens s').balanceOf (ρ.account a) = (Registry.tokens s).balanceOf a
  isApprovedForAll : ∀ a b, (Registry.tokens s').isApprovedForAll (ρ.account a) (ρ.account b) =
    (Registry.tokens s).isApprovedForAll a b

theorem zoneID_l2 (s : DocRegistryL2) (h : Bytes32) :
    (ρ.l2 s).zoneID (ρ.hash h) = (s.zoneID h).map (ρ.token .l2) := by
  unfold DocRegistryL2.zoneID
  rw [entry]
  cases checkedSub (s._zoneHashToId h) 1 <;> rfl

theorem tokens (s : Registry.Storage L) :
    Registry.tokens (ρ.storage s) = (Registry.tokens s).renamed ρ.account (ρ.token L) := by
  cases L <;> rfl

theorem reads (s : Registry.Storage L) : ρ.Reads s (ρ.storage s) where
  zoneOwner h := by
    cases L with
    | l1 => exact ERC721.ownerOf_renamed ρ.account_zero h
    | l2 => exact bind_map (ρ.zoneID_l2 s h) fun id _ => ERC721.ownerOf_renamed ρ.account_zero id
  zoneID h := by
    cases L with
    | l1 => rfl
    | l2 => exact ρ.zoneID_l2 s h
  name h := by
    cases L with
    | l1 => exact congrArg Except.ok (table_apply h)
    | l2 => exact bind_map (ρ.zoneID_l2 s h) fun id _ => congrArg Except.ok (table_apply id)
  zoneAgreement h key revision := by
    cases L with
    | l1 => exact congrArg Except.ok (ρ.agreements_apply (L := .l1) s._zoneAgreements h key revision)
    | l2 =>
      refine bind_map (ρ.zoneID_l2 s h) fun id _ => ?_
      exact congrArg Except.ok (ρ.agreements_apply (L := .l2) s._zoneAgreements id key revision)
  nameOf id := by
    cases L <;> exact table_apply id
  agreementOf id key revision := by
    cases L with
    | l1 => exact ρ.agreements_apply (L := .l1) s._zoneAgreements id key revision
    | l2 => exact ρ.agreements_apply (L := .l2) s._zoneAgreements id key revision
  ownerOf id := by
    rw [tokens]
    exact ERC721.ownerOf_renamed ρ.account_zero id
  getApproved id := by
    rw [tokens]
    exact ERC721.getApproved_renamed ρ.account_zero id
  balanceOf a := by
    rw [tokens]
    exact ERC721.balanceOf_renamed ρ.account_zero a
  isApprovedForAll a b := by
    rw [tokens]
    exact ERC721.isApprovedForAll_renamed a b

/-- Any accounts, keys and hashes. The names and the CIDs stay. -/
def rehashed (keccak256 : Bytes → Bytes32) (account : Equiv.Perm Address) (hash key : Equiv.Perm Bytes32)
    (account_zero : account .zero = .zero) : Symmetry keccak256 fun n => hash (keccak256 n) :=
  ⟨account, hash, key, id, id, account_zero, fun _ => rfl, rfl, rfl, fun _ => Iff.rfl⟩

end Symmetry

namespace Registry

/-- Any run under other names leads where the run led, under these names, with what was accepted,
refused and read on the way. -/
theorem nothing_special {keccak256 keccak256' : Bytes → Bytes32} (ρ : Symmetry keccak256 keccak256') (L : Layer)
    (steps : List Step) :
    let m := run (contract keccak256 L) (deployed keccak256 L) steps
    let m' := run (contract keccak256' L) (deployed keccak256' L) (steps.map (ρ.calls L).step)
    m' = (ρ.calls L).machine m ∧
      (∀ st, accepts (contract keccak256' L) m' ((ρ.calls L).step st) = accepts (contract keccak256 L) m st) ∧
      (∀ sender op, reason ((contract keccak256' L).body (ρ.account sender) (ρ.op L op) m'.world.storage) =
        reason ((contract keccak256 L).body sender op m.world.storage)) ∧
      ρ.Reads m.world.storage m'.world.storage := by
  intro m m'
  have hrun : m' = (ρ.calls L).machine m := by
    have hstart : deployed keccak256' L = (ρ.calls L).machine (deployed keccak256 L) := (ρ.renames L).start
    rw [← (ρ.renames L).run, ← hstart]
  refine ⟨hrun, fun st => ?_, fun sender op => ?_, ?_⟩
  · rw [hrun]
    exact ((ρ.renames L).exec m st).2
  · rw [hrun]
    exact ((ρ.renames L).body sender op m.world.storage).symm ▸ Checks.reason_mapped _
  · rw [hrun]
    exact ρ.reads m.world.storage

/-- Account 2 claims a zone that hashes to 0, as account 1 does with the hash it has. -/
theorem nothing_special_sample :
    let hash : Equiv.Perm Bytes32 := Equiv.swap 0 (keccakSample zoneSample)
    let steps : List Step := [.call 2 (.claimZone zoneSample) false]
    zoneOwner (L := .l1) (reached (fun n => hash (keccakSample n)) .l1 steps).storage 0 = .ok 2 := by
  intro hash steps
  let steps' : List Step := [.call 1 (.claimZone zoneSample) false]
  let ρ := Symmetry.rehashed keccakSample (Equiv.swap 1 2) hash (Equiv.refl _) (by decide)
  have hread := (nothing_special ρ .l1 steps').2.2.2.zoneOwner (keccakSample zoneSample)
  have hhash : ρ.hash (keccakSample zoneSample) = 0 := Equiv.swap_apply_right ..
  let before : DocRegistry := (reached keccakSample .l1 steps').storage
  have howner : before.zoneOwner (keccakSample zoneSample) = .ok 1 := by decide
  have haccount : ρ.account 1 = 2 := Equiv.swap_apply_left ..
  rw [hhash] at hread
  calc _ = (before.zoneOwner (keccakSample zoneSample)).map ρ.account := by
        change zoneOwner (L := .l1) (reached _ .l1 [.call 2 (.claimZone zoneSample) false]).storage 0 = _
        rw [← haccount]
        exact hread
    _ = .ok 2 := by
        rw [howner, ← haccount]
        rfl

end Registry

end LawRegistry
