import LawRegistry.Lib.Log
import LawRegistry.Publication
/-!
# The event log

Every call in effect emits one event, and the events say all there is to know of the tokens and the
agreements: who owns what, who may act for whom, and what is published. So an indexer that only
listens can keep a copy, and an auditor can check each event against the log before it. The names
of zones, and on L2 which hash has which id, are in no event.
-/

namespace LawRegistry

open Calls (Trace Recorded eventsOf written)

/-! ## A copy kept from the events -/

namespace ERC721

/-- The tokens after an event; a transfer from the zero address is a mint. -/
def record (s : ERC721) : Event → ERC721
  | .Transfer from_ to_ tokenId => if from_ = .zero then s.minted to_ tokenId else s.moved from_ to_ tokenId
  | .Approval _ approved tokenId => s.approved approved tokenId
  | .ApprovalForAll owner operator approved => s.operatorSet owner operator approved

end ERC721

structure Ledger where
  tokens : ERC721
  agreements : Agreements

namespace Ledger

def empty : Ledger := ⟨.empty, fun _ _ _ => []⟩

def record (l : Ledger) : Event → Ledger
  | .erc721 e => { l with tokens := l.tokens.record e }
  | .AgreementUpdated zone key value revision => { l with agreements := l.agreements.set zone key revision value }

/-- What `sender` may do, going by the copy. -/
def Admits (keccak256 : Bytes → Bytes32) (l : Ledger) (sender : Address) : Event → Prop
  | .erc721 (.Transfer from_ to_ tokenId) =>
    to_ ≠ .zero ∧ l.tokens._owners tokenId = from_ ∧
      if from_ = .zero then to_ = sender else l.tokens.Manages sender tokenId
  | .erc721 (.Approval owner approved tokenId) =>
    owner ≠ .zero ∧ l.tokens._owners tokenId = owner ∧ approved ≠ owner ∧
      (sender = owner ∨ l.tokens._operatorApprovals owner sender = true)
  | .erc721 (.ApprovalForAll owner operator _) => sender = owner ∧ owner ≠ operator
  | .AgreementUpdated zone key _ revision =>
    sender ≠ .zero ∧ l.tokens._owners zone = sender ∧ Writable keccak256 l.agreements zone key revision

end Ledger

/-! ## One call -/

/-- What a registry's storage and the copy share. -/
def Zones.ledger (v : Zones) : Ledger := ⟨v.tokens, v.agreements⟩

section
variable {keccak256 : Bytes → Bytes32} {sender : Address}

/-- A call emits one event, which the copy admits and follows. -/
theorem Zones.Effect.event {v v' : Zones} {op : Op} {events : List Event}
    (h : Effect keccak256 sender v op v' events) :
    ∃ e, events = [e] ∧ v.ledger.record e = v'.ledger ∧ v.ledger.Admits keccak256 sender e := by
  cases h with
  | @claimZone zoneName id h0 _ hfree =>
    exact ⟨_, rfl, rfl, h0, hfree, by rw [if_pos rfl]⟩
  | updateAgreement h0 ho hw =>
    subst ho
    exact ⟨_, rfl, rfl, h0, rfl, hw⟩
  | erc721 he =>
    cases he with
    | approve h0 hto hs => exact ⟨_, rfl, rfl, h0, rfl, hto, hs⟩
    | setApprovalForAll hne => exact ⟨_, rfl, rfl, rfl, hne⟩
    | move _ ho h0 ht hm =>
      refine ⟨_, rfl, ?_, ht, ho, by rwa [if_neg h0]⟩
      simp only [ledger, Ledger.record, ERC721.record, if_neg h0]

/-- The events a call can be made to emit: claims pick their token themselves, and a revision is the hash of
its name. -/
def Event.Callable (keccak256 : Bytes → Bytes32) : Event → Prop
  | .erc721 (.Transfer from_ _ _) => from_ ≠ .zero
  | .erc721 _ => True
  | .AgreementUpdated _ _ _ revision => ∃ revisionName, keccak256 revisionName = revision

end

namespace Registry
variable {keccak256 : Bytes → Bytes32} {L : Layer} {s s₀ : Storage L} {es : List (Entry L)} {sender : Address}

/-- The copy an indexer should have. -/
def ledger (s : Storage L) : Ledger := ⟨tokens s, agreementOf s⟩

theorem zones_ledger : (zones s).ledger = ledger s := by
  simp only [Zones.ledger, zones_tokens, zones_agreements, ledger]

@[simp] theorem init_ledger : ledger (contract keccak256 L).init = .empty := by
  rw [← zones_ledger, init_zones]
  rfl

theorem body_event {op : Op} {s' : Storage L} {events : List Event}
    (h : (contract keccak256 L).body sender op s = .ok (s', events)) :
    ∃ e, events = [e] ∧ (ledger s).record e = ledger s' ∧ (ledger s).Admits keccak256 sender e := by
  rw [← zones_ledger, ← zones_ledger]
  exact (body_effect h).event

theorem recorded : Recorded (contract keccak256 L) ledger Ledger.record := by
  intro a op s s' evs hb
  obtain ⟨e, rfl, he, -⟩ := body_event hb
  exact he

/-- What the copy admits, the account can do. -/
theorem admits_callable {e : Event} (h : (ledger s).Admits keccak256 sender e) (hc : e.Callable keccak256) :
    ∃ op s', (contract keccak256 L).body sender op s = .ok (s', [e]) := by
  cases e with
  | AgreementUpdated zone key value revision =>
    obtain ⟨revisionName, rfl⟩ := hc
    obtain ⟨h0, ho, hw⟩ := h
    have h0' : (ledger s).tokens._owners zone ≠ .zero := by
      rw [ho]
      exact h0
    exact ⟨_, _, body_publish value h0' ho hw⟩
  | erc721 e =>
    cases e with
    | Transfer from_ to_ tokenId =>
      obtain ⟨ht, ho, hm⟩ := h
      rw [if_neg hc] at hm
      have he : ERC721.Effect sender (tokens s) (.transferFrom from_ to_ tokenId) _ _ := .move rfl ho hc ht hm
      exact ⟨_, _, body_erc721 keccak256 he⟩
    | Approval owner approved tokenId =>
      obtain ⟨h0, rfl, hne, hs⟩ := h
      exact ⟨_, _, body_erc721 keccak256 (.approve h0 hne hs)⟩
    | ApprovalForAll owner operator approved =>
      obtain ⟨rfl, hne⟩ := h
      exact ⟨_, _, body_erc721 keccak256 (.setApprovalForAll hne)⟩

/-! ## Every run -/

theorem trace_ledger (h : Trace (contract keccak256 L) (contract keccak256 L).init es s) :
    (eventsOf es).foldl Ledger.record .empty = ledger s := by
  rw [← recorded.trace h, init_ledger]

/-- What an indexer keeps from the events of any run is the registry's tokens and agreements, and was at every
moment before; each call in effect emitted one event, which the copy admitted as it was then. And what the copy
admits now can be done, with the storage the event says, if it is an event some call could be made to emit: not a
mint, and not a revision that is the hash of nothing. -/
theorem log_replays (keccak256 : Bytes → Bytes32) (L : Layer) (steps : List Step) :
    let w := reached keccak256 L steps
    let copy (es : List (Entry L)) := (eventsOf es).foldl Ledger.record .empty
    copy w.journal = ⟨tokens w.storage, agreementOf w.storage⟩ ∧
    (∀ pre e post, w.journal = pre ++ e :: post → copy pre = ⟨tokens e.before, agreementOf e.before⟩ ∧
      ∃ ev, e.events = [ev] ∧ (copy pre).Admits keccak256 e.sender ev) ∧
    ∀ sender ev, (copy w.journal).Admits keccak256 sender ev → ev.Callable keccak256 →
      ∃ op s', (contract keccak256 L).body sender op w.storage = .ok (s', [ev]) ∧
        ⟨tokens s', agreementOf s'⟩ = (copy w.journal).record ev := by
  intro w copy
  have ht : Trace (contract keccak256 L) (contract keccak256 L).init w.journal w.storage := reached_trace steps
  have hend : copy w.journal = ledger w.storage := trace_ledger ht
  refine ⟨hend, fun pre e post he => ?_, fun sender ev hadm hc => ?_⟩
  · obtain ⟨hpre, hb, -⟩ := ht.split he
    obtain ⟨ev, hev, -, hadm⟩ := body_event hb
    have hcopy : copy pre = ledger e.before := trace_ledger hpre
    refine ⟨hcopy, ev, hev, ?_⟩
    rw [hcopy]
    exact hadm
  · rw [hend] at hadm ⊢
    obtain ⟨op, s', hb⟩ := admits_callable hadm hc
    obtain ⟨ev', hev, hrec, -⟩ := body_event hb
    cases hev
    exact ⟨op, s', hb, hrec.symm⟩

/-- After a claim the copy admits that the zone is handed over, and so it can be. -/
theorem log_replays_sample :
    let transfer : Event := .erc721 (.Transfer 1 2 (keccakSample zoneSample))
    let w := reached keccakSample .l1 [.call 1 (.claimZone zoneSample) false]
    ∃ op s', (contract keccakSample .l1).body 1 op w.storage = .ok (s', [transfer]) ∧
      (tokens (L := .l1) s')._owners (keccakSample zoneSample) = 2 := by
  intro transfer w
  obtain ⟨-, -, hadmitted⟩ := log_replays keccakSample .l1 [.call 1 (.claimZone zoneSample) false]
  have hcallable : transfer.Callable keccakSample := show (1 : Address) ≠ .zero by decide
  obtain ⟨op, s', hb, hcopy⟩ := hadmitted 1 transfer ⟨by decide, rfl, .inl rfl⟩ hcallable
  refine ⟨op, s', hb, ?_⟩
  have howners := congrArg (fun l : Ledger => l.tokens._owners (keccakSample zoneSample)) hcopy
  exact howners.trans rfl

end Registry

/-! ## The last event that matters -/

/-- A token changes hands. -/
def Event.owned : Event → Option (Uint256 × Address)
  | .erc721 (.Transfer _ to_ tokenId) => some (tokenId, to_)
  | _ => none

/-- A token gets an approved account, or loses it as it changes hands; a mint leaves it. -/
def Event.approved : Event → Option (Uint256 × Address)
  | .erc721 (.Transfer from_ _ tokenId) => if from_ = .zero then none else some (tokenId, .zero)
  | .erc721 (.Approval _ approved tokenId) => some (tokenId, approved)
  | _ => none

def Event.operated : Event → Option ((Address × Address) × Bool)
  | .erc721 (.ApprovalForAll owner operator approved) => some ((owner, operator), approved)
  | _ => none

/-- What the last event in `log` that writes to `k` writes there. -/
def lastWrite {κ β : Type} [DecidableEq κ] (write : Event → Option (κ × β)) (log : List Event) (k : κ) : Option β :=
  (Replay.values k (log.filterMap write)).getLast?

namespace Ledger

theorem owners_record (l : Ledger) (e : Event) : (l.record e).tokens._owners = written l.tokens._owners e.owned := by
  cases e with
  | AgreementUpdated => rfl
  | erc721 e =>
    cases e with
    | Transfer from_ to_ tokenId =>
      simp only [record, ERC721.record, Event.owned]
      split <;> rfl
    | Approval | ApprovalForAll => rfl

theorem approvals_record (l : Ledger) (e : Event) : (l.record e).tokens._tokenApprovals =
    written l.tokens._tokenApprovals e.approved := by
  cases e with
  | AgreementUpdated => rfl
  | erc721 e =>
    cases e with
    | Transfer from_ to_ tokenId =>
      simp only [record, ERC721.record, Event.approved]
      by_cases h : from_ = .zero
      · rw [if_pos h, if_pos h]
        rfl
      · rw [if_neg h, if_neg h]
        rfl
    | Approval | ApprovalForAll => rfl

def operators (l : Ledger) (k : Address × Address) : Bool := l.tokens._operatorApprovals k.1 k.2

theorem operators_record (l : Ledger) (e : Event) : (l.record e).operators = written l.operators e.operated := by
  cases e with
  | AgreementUpdated => rfl
  | erc721 e =>
    cases e with
    | Transfer from_ to_ tokenId =>
      simp only [record, ERC721.record, Event.operated]
      split <;> rfl
    | Approval => rfl
    | ApprovalForAll owner operator b =>
      funext k
      simp only [operators, record, ERC721.record, Event.operated, written, ERC721.operatorSet_operators,
        Function.update_apply, Prod.ext_iff]

variable (log : List Event)

/-- The copy made from the events of `log`. -/
def ofLog : Ledger := log.foldl record .empty

theorem ofLog_owners (id : Uint256) :
    (ofLog log).tokens._owners id = (lastWrite Event.owned log id).getD .zero := by
  have h := congrFun (Calls.foldl_written (fun l : Ledger => l.tokens._owners) _ owners_record .empty log) id
  rw [Replay.replay_apply] at h
  exact h

theorem ofLog_approvals (id : Uint256) :
    (ofLog log).tokens._tokenApprovals id = (lastWrite Event.approved log id).getD .zero := by
  have hw := Calls.foldl_written (fun l : Ledger => l.tokens._tokenApprovals) _ approvals_record .empty log
  have h := congrFun hw id
  rw [Replay.replay_apply] at h
  exact h

theorem ofLog_operators (owner operator : Address) :
    (ofLog log).tokens._operatorApprovals owner operator =
      (lastWrite Event.operated log (owner, operator)).getD false := by
  have h := congrFun (Calls.foldl_written operators _ operators_record .empty log) (owner, operator)
  rw [Replay.replay_apply] at h
  exact h

end Ledger

/-- `sender` may cause the event, going by the last events in `log` that matter to it. -/
def Audited (log : List Event) (sender : Address) : Event → Prop
  | .erc721 (.Transfer from_ to_ tokenId) =>
    if from_ = .zero then lastWrite Event.owned log tokenId = none ∧ to_ = sender
    else lastWrite Event.owned log tokenId = some from_ ∧
      (sender = from_ ∨ lastWrite Event.operated log (from_, sender) = some true ∨
        lastWrite Event.approved log tokenId = some sender)
  | .erc721 (.Approval owner _ tokenId) =>
    lastWrite Event.owned log tokenId = some owner ∧
      (sender = owner ∨ lastWrite Event.operated log (owner, sender) = some true)
  | .erc721 (.ApprovalForAll owner _ _) => sender = owner
  | .AgreementUpdated zone _ _ _ => lastWrite Event.owned log zone = some sender

namespace Registry
variable {keccak256 : Bytes → Bytes32} {L : Layer} {s : Storage L} {es : List (Entry L)} {sender : Address}

/-- No event hands a token to the zero address. -/
theorem owned_ne_zero (h : Trace (contract keccak256 L) (contract keccak256 L).init es s) {id : Uint256} {a : Address}
    (ha : a ∈ Replay.values id ((eventsOf es).filterMap Event.owned)) : a ≠ .zero := by
  rw [Replay.mem_values, List.mem_filterMap] at ha
  obtain ⟨ev, hlog, hw⟩ := ha
  obtain ⟨e, he, hev⟩ := List.mem_flatMap.1 hlog
  obtain ⟨pre, post, rfl⟩ := List.append_of_mem he
  obtain ⟨-, hb, -⟩ := h.split rfl
  obtain ⟨ev', hone, -, hadm⟩ := body_event hb
  rw [hone, List.mem_singleton] at hev
  subst hev
  cases ev with
  | AgreementUpdated => cases hw
  | erc721 ev =>
    cases ev with
    | Transfer from_ to_ tokenId =>
      cases hw
      exact hadm.1
    | Approval | ApprovalForAll => cases hw

/-- Who owns a token is who the last transfer handed it to. -/
theorem lastWrite_owned (h : Trace (contract keccak256 L) (contract keccak256 L).init es s) (id : Uint256) :
    lastWrite Event.owned (eventsOf es) id =
      if (tokens s)._owners id = .zero then none else some ((tokens s)._owners id) := by
  have ho : (tokens s)._owners id = (lastWrite Event.owned (eventsOf es) id).getD .zero := by
    rw [← Ledger.ofLog_owners, Ledger.ofLog, trace_ledger h]
    rfl
  cases hlast : lastWrite Event.owned (eventsOf es) id with
  | none =>
    rw [hlast] at ho
    rw [Option.getD_none] at ho
    rw [if_pos ho]
  | some a =>
    rw [hlast, Option.getD_some] at ho
    have hne : a ≠ .zero := owned_ne_zero h (List.mem_of_getLast? hlast)
    rw [ho, if_neg hne]

theorem eq_some_of_getD {α : Type} {x : Option α} {d v : α} (h : x.getD d = v) (hne : v ≠ d) : x = some v := by
  cases x with
  | none => exact absurd h.symm hne
  | some a => rw [Option.getD_some] at h; rw [h]

theorem audited_of_admits (h : Trace (contract keccak256 L) (contract keccak256 L).init es s) (h0 : sender ≠ .zero)
    {ev : Event} (hadm : (ledger s).Admits keccak256 sender ev) : Audited (eventsOf es) sender ev := by
  have howner {id : Uint256} {owner : Address} (hne : owner ≠ .zero) (ho : (tokens s)._owners id = owner) :
      lastWrite Event.owned (eventsOf es) id = some owner := by
    rw [lastWrite_owned h, ho, if_neg hne]
  have hoperator {owner operator : Address} (ho : (tokens s)._operatorApprovals owner operator = true) :
      lastWrite Event.operated (eventsOf es) (owner, operator) = some true := by
    apply eq_some_of_getD (d := false) _ (by simp)
    rw [← Ledger.ofLog_operators, Ledger.ofLog, trace_ledger h]
    exact ho
  have happroved {id : Uint256} {a : Address} (hne : a ≠ .zero) (ha : (tokens s)._tokenApprovals id = a) :
      lastWrite Event.approved (eventsOf es) id = some a := by
    apply eq_some_of_getD (d := .zero) _ hne
    rw [← Ledger.ofLog_approvals, Ledger.ofLog, trace_ledger h]
    exact ha
  cases ev with
  | AgreementUpdated zone key value revision => exact howner hadm.1 hadm.2.1
  | erc721 ev =>
    cases ev with
    | ApprovalForAll owner operator approved => exact hadm.1
    | Approval owner approved tokenId =>
      obtain ⟨hne, ho, -, hs⟩ := hadm
      exact ⟨howner hne ho, hs.imp id hoperator⟩
    | Transfer from_ to_ tokenId =>
      obtain ⟨ht, ho, hm⟩ := hadm
      simp only [Audited]
      split at hm
      next hzero =>
        have hfree : (tokens s)._owners tokenId = .zero := ho.trans hzero
        rw [if_pos hzero, lastWrite_owned h, if_pos hfree]
        exact ⟨rfl, hm⟩
      next hne =>
        rw [if_neg hne]
        refine ⟨howner hne ho, ?_⟩
        rcases hm with hm | hm | hm
        · exact .inl (hm.trans ho)
        · refine .inr (.inl (hoperator ?_))
          rw [← ho]
          exact hm
        · exact .inr (.inr (happroved h0 hm))

/-- The log alone shows that each event of a call by an account was caused by one that might cause it: whoever hands
over a token is its last receiver, or was the last time made an operator of it, or is approved for the token by the
last event about it; and likewise for approvals and publications. The zero address, which is no account, could move
any token nobody is approved for. -/
theorem log_audited (keccak256 : Bytes → Bytes32) (L : Layer) (steps : List Step) (pre post : List (Entry L))
    (e : Entry L) (he : (reached keccak256 L steps).journal = pre ++ e :: post) (h0 : e.sender ≠ .zero) :
    ∃ ev, e.events = [ev] ∧ Audited (eventsOf pre) e.sender ev := by
  obtain ⟨hpre, hb, -⟩ := (reached_trace steps).split he
  obtain ⟨ev, hev, -, hadm⟩ := body_event hb
  exact ⟨ev, hev, audited_of_admits hpre h0 hadm⟩

/-- An approved account hands a zone over. -/
theorem log_audited_sample :
    let steps : List Step :=
      [.call 1 (.claimZone zoneSample) false, .call 1 (.erc721 (.approve 3 (keccakSample zoneSample))) false,
       .call 3 (.erc721 (.transferFrom 1 2 (keccakSample zoneSample))) false]
    ∃ pre e, (reached keccakSample .l1 steps).journal = pre ++ [e] ∧ e.sender = 3 ∧
      ∃ ev, e.events = [ev] ∧ Audited (eventsOf pre) e.sender ev := by
  intro steps
  have hsplit : ∃ pre e, (reached keccakSample .l1 steps).journal = pre ++ [e] ∧ e.sender = 3 :=
    ⟨[_, _], _, rfl, rfl⟩
  obtain ⟨pre, e, he, h3⟩ := hsplit
  exact ⟨pre, e, he, h3, log_audited keccakSample .l1 steps pre [] e he (by rw [h3]; decide)⟩

end Registry

end LawRegistry
