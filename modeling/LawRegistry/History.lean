import LawRegistry.Lib.Replay
import LawRegistry.Registry
/-!
# Runs of a registry

`reached` is the world after a run from the constructor, `continued` after a run from a given
storage; both cover calls made from a recipient's hook, and hooks that are refused. By
`Calls.run_trace` their calls in effect form a trace, and the lemmas here say what a trace keeps
and how the storage reads back from its journal and its event log.
-/

namespace LawRegistry

open Calls (Contract run start Trace)

abbrev Step := Calls.Step Address Op Reply

/-- `keccak256` tells these byte strings apart. -/
def NoCollision (keccak256 : Bytes → Bytes32) (inputs : List Bytes) : Prop :=
  ∀ x ∈ inputs, ∀ y ∈ inputs, keccak256 x = keccak256 y → x = y

instance (keccak256 : Bytes → Bytes32) (inputs : List Bytes) : Decidable (NoCollision keccak256 inputs) :=
  inferInstanceAs (Decidable (∀ x ∈ inputs, ∀ y ∈ inputs, keccak256 x = keccak256 y → x = y))

theorem NoCollision.head_eq {keccak256 : Bytes → Bytes32} {x y : Bytes} {inputs : List Bytes}
    (hc : NoCollision keccak256 (x :: inputs)) (hy : y ∈ inputs) (h : keccak256 y = keccak256 x) : y = x := by
  apply hc y (List.mem_cons_of_mem _ hy) x List.mem_cons_self h

/-- The zone names a run tries to claim. -/
def claimedNames (steps : List Step) : List Bytes := steps.filterMap fun
  | .call _ (.claimZone zoneName) _ => some zoneName
  | _ => none

/-- The revision names a run tries to publish. -/
def revisionNames (steps : List Step) : List Bytes := steps.filterMap fun
  | .call _ (.updateAgreement _ _ revisionName _) _ => some revisionName
  | _ => none

/-- What has happened by then tried to publish no more. -/
theorem NoCollision.before {keccak256 : Bytes → Bytes32} {n : Bytes} {before steps : List Step}
    (hc : NoCollision keccak256 (n :: revisionNames steps)) (hp : before <+: steps) :
    NoCollision keccak256 (n :: revisionNames before) := by
  have hsub : n :: revisionNames before ⊆ n :: revisionNames steps :=
    List.cons_subset_cons n (hp.sublist.filterMap _).subset
  exact fun x hx y hy => hc x (hsub hx) y (hsub hy)

/-- The store an event writes to, if it is an `AgreementUpdated`. -/
def Event.write : Event → Option ((Uint256 × Bytes32 × Bytes32) × Bytes)
  | .AgreementUpdated zone key value revision => some ((zone, key, revision), value)
  | .erc721 _ => none

namespace Registry

abbrev World (L : Layer) := Calls.World Address Op (Storage L) Event
abbrev Entry (L : Layer) := Calls.Entry Address Op (Storage L) Event
abbrev Machine (L : Layer) := Calls.Machine Address Op (Storage L) Event Reply Revert

section
variable (keccak256 : Bytes → Bytes32)

/-- The registry just deployed. -/
def deployed (L : Layer) : Machine L := start (contract keccak256 L).init

/-- What a run leads to. -/
def reached (L : Layer) (steps : List Step) : World L :=
  (run (contract keccak256 L) (deployed keccak256 L) steps).world

/-- What a run leads to from storage `s`. -/
def continued {L : Layer} (s : Storage L) (steps : List Step) : World L :=
  (run (contract keccak256 L) (start s) steps).world

/-- The values of the `AgreementUpdated` events for exactly this slot, oldest first. -/
def published {L : Layer} (w : World L) (zone : Uint256) (key revision : Bytes32) : List Bytes :=
  Replay.values (zone, key, revision) (w.events.filterMap Event.write)

end

variable {keccak256 : Bytes → Bytes32} {L : Layer} {s s₀ : Storage L} {es : List (Entry L)}

@[simp] theorem init_zones : zones (contract keccak256 L).init = .empty := by
  cases L with
  | l1 => simp [zones, contract, DocRegistry.contract, DocRegistry.empty, Zones.empty, ERC721.empty, idOfOwner]
  | l2 => simp [zones, contract, DocRegistryL2.contract, DocRegistryL2.empty, Zones.empty, idOfEntry]

theorem reached_trace (steps : List Step) :
    Trace (contract keccak256 L) (contract keccak256 L).init (reached keccak256 L steps).journal
      (reached keccak256 L steps).storage := Calls.run_trace ..

theorem continued_trace (s : Storage L) (steps : List Step) :
    Trace (contract keccak256 L) s (continued keccak256 s steps).journal (continued keccak256 s steps).storage :=
  Calls.run_trace ..

/-- A call without a hook whose body runs through is in effect. -/
theorem reached_call {steps : List Step} {sender : Address} {op : Op} {code : Bool} {events : List Event}
    (hh : op.hook = none)
    (hb : (contract keccak256 L).body sender op (reached keccak256 L steps).storage = .ok (s, events)) :
    reached keccak256 L (steps ++ [.call sender op code]) = (reached keccak256 L steps).commit sender op s events := by
  have hh' : (contract keccak256 L).hook op = none := by rw [contract_hook, hh]
  rw [reached, Calls.run_append, Calls.run_cons, Calls.run_nil, Calls.exec_ok hh' hb]
  rfl

/-- A name claimed in a run is one the run tries to claim. -/
theorem mem_claimedNames {steps : List Step} {e : Entry L} (he : e ∈ (reached keccak256 L steps).journal)
    {zoneName : Bytes} (hop : e.op = .claimZone zoneName) : zoneName ∈ claimedNames steps := by
  obtain ⟨code, hstep⟩ := Calls.run_calls _ _ e he
  apply List.mem_filterMap.2 ⟨_, hstep, by rw [hop]⟩

theorem mem_revisionNames {steps : List Step} {e : Entry L} (he : e ∈ (reached keccak256 L steps).journal)
    {zone : Uint256} {key : Bytes32} {revisionName value : Bytes}
    (hop : e.op = .updateAgreement zone key revisionName value) : revisionName ∈ revisionNames steps := by
  obtain ⟨code, hstep⟩ := Calls.run_calls _ _ e he
  apply List.mem_filterMap.2 ⟨_, hstep, by rw [hop]⟩

/-! ## What a trace keeps -/

theorem trace_inv (h : Trace (contract keccak256 L) s₀ es s) (hi : (zones s₀).Inv keccak256) :
    (zones s).Inv keccak256 :=
  h.inv (I := fun s => (zones s).Inv keccak256) hi fun _ _ hi hb => (body_effect hb).inv hi

theorem trace_inv_init (h : Trace (contract keccak256 L) (contract keccak256 L).init es s) :
    (zones s).Inv keccak256 := trace_inv h (by rw [init_zones]; exact Zones.empty_inv)

theorem reached_inv (steps : List Step) : (zones (reached keccak256 L steps).storage).Inv keccak256 :=
  trace_inv_init (reached_trace steps)

theorem trace_index_keep (h : Trace (contract keccak256 L) s₀ es s) {hash : Bytes32} {id : Uint256}
    (he : (zones s₀).index hash = some id) : (zones s).index hash = some id :=
  h.inv (I := fun s => (zones s).index hash = some id) he fun _ _ he hb => (body_effect hb).index_keep he

/-- An id looked up earlier is still the id of its hash, if it is a zone's at all. -/
theorem trace_zoneID_index (h : Trace (contract keccak256 L) s₀ es s) {hash : Bytes32} {id : Uint256}
    (hid : zoneID s₀ hash = .ok id) (h0 : (tokens s)._owners id ≠ .zero) : (zones s).index hash = some id := by
  cases L with
  | l1 =>
    cases hid
    exact idOfOwner_some.2 ⟨h0, rfl⟩
  | l2 => exact trace_index_keep h (l2_zoneID_ok.1 hid)

theorem trace_exists_keep (h : Trace (contract keccak256 L) s₀ es s) {id : Uint256}
    (he : (tokens s₀)._owners id ≠ .zero) : (tokens s)._owners id ≠ .zero :=
  h.inv (I := fun s => (tokens s)._owners id ≠ .zero) he fun e _ he hb => by
    simpa using (body_effect hb).exists_keep (by simpa using he)

theorem trace_name_keep (h : Trace (contract keccak256 L) s₀ es s) {id : Uint256}
    (he : (tokens s₀)._owners id ≠ .zero) : nameOf s id = nameOf s₀ id := by
  refine (h.inv (I := fun s => (tokens s)._owners id ≠ .zero ∧ nameOf s id = nameOf s₀ id) ⟨he, rfl⟩ ?_).2
  rintro e - ⟨he, hn⟩ hb
  have hv : (zones e.before).tokens._owners id ≠ .zero := by simpa using he
  have hk := (body_effect hb).exists_keep hv
  have hn' := (body_effect hb).name_keep hv
  exact ⟨by simpa using hk, by rw [← hn]; simpa using hn'⟩

theorem trace_agreement_keep (h : Trace (contract keccak256 L) s₀ es s) {id : Uint256} {key revision : Bytes32}
    (hr : revision ≠ keccak256 latest) (hne : agreementOf s₀ id key revision ≠ []) :
    agreementOf s id key revision = agreementOf s₀ id key revision := by
  refine h.inv (I := fun s => agreementOf s id key revision = agreementOf s₀ id key revision) rfl ?_
  intro e _ he hb
  have hv : (zones e.before).agreements id key revision ≠ [] := by simpa [he] using hne
  have hk := (body_effect hb).agreement_keep hr hv
  rw [← he]; simpa using hk

/-! ## The calls in effect -/

/-- A claim, and the id it got. -/
def Creates (e : Entry L) (zone : Uint256) : Prop :=
  ∃ zoneName, e.op = .claimZone zoneName ∧ (∀ owner, (tokens e.before).ownerOf zone ≠ .ok owner) ∧
    (tokens e.after).ownerOf zone = .ok e.sender

theorem Creates.unowned {e : Entry L} {zone : Uint256} (hc : Creates e zone) :
    (zones e.before).tokens._owners zone = .zero := by
  obtain ⟨_, -, hno, -⟩ := hc
  by_contra h0
  rw [zones_tokens] at h0
  apply hno _ (ERC721.ownerOf_ok.2 ⟨h0, rfl⟩)

/-- What a claim in effect did. -/
theorem claim_entry {e : Entry L} {zoneName : Bytes} (hop : e.op = .claimZone zoneName)
    (hb : (contract keccak256 L).body e.sender e.op e.before = .ok (e.after, e.events)) :
    ∃ id, e.sender ≠ .zero ∧ (zones e.before).index (keccak256 zoneName) = none ∧
      (tokens e.before)._owners id = .zero ∧ zones e.after = (zones e.before).claim keccak256 e.sender zoneName id := by
  rw [hop] at hb
  apply claim_zones hb

theorem creates_of_claim {e : Entry L} {zoneName : Bytes} {zone : Uint256} (hop : e.op = .claimZone zoneName)
    (hb : (contract keccak256 L).body e.sender e.op e.before = .ok (e.after, e.events)) :
    (zones e.after).index (keccak256 zoneName) = some zone ↔ Creates e zone := by
  obtain ⟨id, h0, hnew, hfree, ha⟩ := claim_entry hop hb
  have ht : tokens e.after = (tokens e.before).minted e.sender id := by
    rw [← zones_tokens, ha]; simp [Zones.claim]
  have hid : (zones e.after).index (keccak256 zoneName) = some id := by simp [ha, Zones.claim]
  rw [hid, Option.some.injEq]
  constructor
  · rintro rfl
    refine ⟨zoneName, hop, fun owner ho => (ERC721.ownerOf_ok.1 ho).1 hfree, ERC721.ownerOf_ok.2 ?_⟩
    simp [ht, h0]
  · rintro ⟨_, -, hno, hyes⟩
    by_contra hne
    rw [ERC721.ownerOf_ok, ht, ERC721.minted_owners, if_neg (Ne.symm hne)] at hyes
    exact hno _ (ERC721.ownerOf_ok.2 hyes)

/-- A zone is indexed under a hash because a claim in effect put it there. -/
theorem claim_of_index (h : Trace (contract keccak256 L) (contract keccak256 L).init es s) {hash : Bytes32}
    {id : Uint256} (hx : (zones s).index hash = some id) :
    ∃ e ∈ es, ∃ zoneName, e.op = .claimZone zoneName ∧ keccak256 zoneName = hash ∧ Creates e id ∧
      (zones e.after).index hash = some id := by
  induction h with
  | nil => simp [Zones.empty] at hx
  | @snoc es s a op s' evs ht hb ih =>
    cases hx' : (zones s).index hash with
    | some id' =>
      have hk := (body_effect hb).index_keep hx'
      obtain ⟨e, he, hc⟩ := ih (by rw [hx', ← hk, hx])
      exact ⟨e, List.mem_append_left _ he, hc⟩
    | none =>
      have he := body_effect hb
      generalize hv : zones s' = v at he
      cases he with
      | @claimZone zoneName i h0 hnew hfree =>
        have hh : keccak256 zoneName = hash := by
          by_contra hne
          rw [hv] at hx
          simp [Zones.claim, Ne.symm hne, hx'] at hx
        subst hh
        exact ⟨⟨a, _, s, s', _⟩, by simp, zoneName, rfl, rfl,
          (creates_of_claim (e := ⟨a, _, s, s', _⟩) rfl hb).1 hx, hx⟩
      | updateAgreement | erc721 => rw [hv] at hx; simp [hx'] at hx

/-- A claim in effect is still indexed. -/
theorem index_of_claim (h : Trace (contract keccak256 L) s₀ es s) {e : Entry L} (he : e ∈ es) {zoneName : Bytes}
    (hop : e.op = .claimZone zoneName) :
    ∃ id, Creates e id ∧ (zones e.after).index (keccak256 zoneName) = some id ∧
      (zones s).index (keccak256 zoneName) = some id := by
  obtain ⟨pre, post, rfl⟩ := List.append_of_mem he
  obtain ⟨-, hb, ht⟩ := h.split rfl
  obtain ⟨id, -, -, -, ha⟩ := claim_entry hop hb
  have hx : (zones e.after).index (keccak256 zoneName) = some id := by simp [ha, Zones.claim]
  exact ⟨id, (creates_of_claim hop hb).1 hx, hx, trace_index_keep ht hx⟩

end Registry

/-! ## Sample inputs, for runs on fixed steps -/

/-- The bytes of `"zone"`. -/
def zoneSample : Bytes := [0x7a, 0x6f, 0x6e, 0x65]

/-- The bytes of `"key"`. -/
def keySample : Bytes := [0x6b, 0x65, 0x79]

/-- The bytes of `"v1"`. -/
def v1Sample : Bytes := [0x76, 0x31]

/-- What keccak256 gives on a few strings; the last three are `"0x7a6f6e65"`, `"0x7631"` and
`"0x6c6174657374"`. -/
def keccakSamples : List (Bytes × Bytes32) :=
  [(latest, 0x5d7c83ff6d08efb2f110018d8b6814a4719a93273a3ea09ced5cfe0d5db1d001),
   (zoneSample, 0x840f588d7b282ccfd86567bd7bf5a39f5276a517cdef806d95e1024ea339f953),
   (keySample, 0x07855b46a623a8ecabac76ed697aa4e13631e3b6718c8a0d342860c13c30d2fc),
   (v1Sample, 0x0984d5efd47d99151ae1be065a709e56c602102f24c1abc4008eb3f815a8d217),
   ([0x30, 0x78, 0x37, 0x61, 0x36, 0x66, 0x36, 0x65, 0x36, 0x35],
    0xdb714c407b0d6c7b67cd50f81178e744c9f7fd421c58af5ccfe14cd395c8dee7),
   ([0x30, 0x78, 0x37, 0x36, 0x33, 0x31],
    0x1a69f831fe501c8d0310e771b1ae6b73792513a97d072a34236bfe0c71904a91),
   ([0x30, 0x78, 0x36, 0x63, 0x36, 0x31, 0x37, 0x34, 0x36, 0x35, 0x37, 0x33, 0x37, 0x34],
    0xbec03099ace1571f619d3bce62154c0c15a362fe4d73e80b5ca25b599b5a6370)]

def keccakSample (input : Bytes) : Bytes32 := (keccakSamples.lookup input).getD 0

end LawRegistry
