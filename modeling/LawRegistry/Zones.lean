import LawRegistry.Agreements
/-!
# What a registry is for

The abstract registry: tokens, names and agreements by token id, and an index of the names
claimed, by hash. How a claim picks its id is left open. `Effect` says what a call may do to it,
`Inv` what then always holds, and the lemmas at the end what no call ever changes.
-/

namespace LawRegistry

structure Zones where
  tokens : ERC721
  agreements : Agreements
  names : Uint256 → Bytes
  /-- The id of the zone claimed under a name with this hash. -/
  index : Bytes32 → Option Uint256

namespace Zones

def empty : Zones := ⟨.empty, fun _ _ _ => [], fun _ => [], fun _ => none⟩

section
variable (keccak256 : Bytes → Bytes32)

/-- `sender` claims `zoneName` as token `id`. -/
def claim (v : Zones) (sender : Address) (zoneName : Bytes) (id : Uint256) : Zones :=
  { v with
    tokens := v.tokens.minted sender id
    names := Function.update v.names id zoneName
    index := Function.update v.index (keccak256 zoneName) (some id) }

/-- What a successful call by `sender` does. -/
inductive Effect (sender : Address) (v : Zones) : Op → Zones → List Event → Prop where
  | claimZone {zoneName id} : sender ≠ .zero → v.index (keccak256 zoneName) = none →
      v.tokens._owners id = .zero →
      Effect sender v (.claimZone zoneName) (v.claim keccak256 sender zoneName id)
        [.erc721 (.Transfer .zero sender id)]
  | updateAgreement {zone key revisionName value} : v.tokens._owners zone ≠ .zero →
      v.tokens._owners zone = sender → Writable keccak256 v.agreements zone key (keccak256 revisionName) →
      Effect sender v (.updateAgreement zone key revisionName value)
        { v with agreements := v.agreements.set zone key (keccak256 revisionName) value }
        [.AgreementUpdated zone key value (keccak256 revisionName)]
  | erc721 {op tokens events} : ERC721.Effect sender v.tokens op tokens events →
      Effect sender v (.erc721 op) { v with tokens } (events.map .erc721)

structure Inv (v : Zones) : Prop where
  /-- The tokens are the zones claimed. -/
  owned : ∀ id, v.tokens._owners id ≠ .zero ↔ ∃ h, v.index h = some id
  /-- A zone is found under the hash of its name. -/
  hashed : ∀ h id, v.index h = some id → keccak256 (v.names id) = h
  unapproved : ∀ id, v.tokens._owners id = .zero → v.tokens._tokenApprovals id = .zero
  blank : ∀ id key revision, v.tokens._owners id = .zero → v.agreements id key revision = []
  unnamed : ∀ id, v.tokens._owners id = .zero → v.names id = []

end

variable {keccak256 : Bytes → Bytes32} {v v' : Zones} {sender : Address} {op : Op} {events : List Event}

namespace Inv

theorem inj (hi : v.Inv keccak256) {h h' : Bytes32} {id : Uint256} (he : v.index h = some id)
    (he' : v.index h' = some id) : h = h' := by
  rw [← hi.hashed h id he, ← hi.hashed h' id he']

theorem index_iff (hi : v.Inv keccak256) {h : Bytes32} {id : Uint256} :
    v.index h = some id ↔ v.tokens._owners id ≠ .zero ∧ keccak256 (v.names id) = h := by
  constructor
  · intro he
    exact ⟨(hi.owned id).2 ⟨h, he⟩, hi.hashed h id he⟩
  · rintro ⟨h0, rfl⟩
    obtain ⟨h, he⟩ := (hi.owned id).1 h0
    rw [hi.hashed h id he]
    exact he

end Inv

/-! ## The invariants hold in every state a registry reaches -/

theorem empty_inv : empty.Inv keccak256 := by
  constructor <;> simp [empty, ERC721.empty]

theorem claim_inv (hi : v.Inv keccak256) {zoneName : Bytes} {id : Uint256} (h0 : sender ≠ .zero)
    (hnew : v.index (keccak256 zoneName) = none) (hfree : v.tokens._owners id = .zero) :
    (v.claim keccak256 sender zoneName id).Inv keccak256 := by
  have hne : ∀ h, v.index h ≠ some id := fun h he => (hi.owned id).2 ⟨h, he⟩ hfree
  constructor
  · intro i
    simp only [claim, ERC721.minted_owners, Function.update_apply]
    by_cases hid : i = id
    · subst hid
      exact ⟨fun _ => ⟨keccak256 zoneName, by simp⟩, fun _ => by simpa using h0⟩
    · rw [if_neg hid, hi.owned i]
      constructor
      · rintro ⟨h, he⟩
        refine ⟨h, ?_⟩
        rw [if_neg (by rintro rfl; simp [hnew] at he), he]
      · rintro ⟨h, he⟩
        refine ⟨h, ?_⟩
        split at he
        · cases he; exact absurd rfl hid
        · exact he
  · intro h i he
    simp only [claim, Function.update_apply] at he ⊢
    split at he
    · cases he; simp [*]
    · rw [if_neg (by rintro rfl; exact hne h he)]
      exact hi.hashed h i he
  · intro i hi0
    simp only [claim, ERC721.minted_owners, ERC721.minted_approvals] at hi0 ⊢
    split at hi0
    · exact absurd hi0 h0
    · exact hi.unapproved i hi0
  · intro i key revision hi0
    simp only [claim, ERC721.minted_owners] at hi0 ⊢
    split at hi0
    · exact absurd hi0 h0
    · exact hi.blank i key revision hi0
  · intro i hi0
    simp only [claim, ERC721.minted_owners, Function.update_apply] at hi0 ⊢
    split at hi0
    · exact absurd hi0 h0
    · rw [if_neg (by assumption)]
      exact hi.unnamed i hi0

theorem Effect.inv (h : Effect keccak256 sender v op v' events) (hi : v.Inv keccak256) : v'.Inv keccak256 := by
  cases h with
  | claimZone h0 hnew hfree => exact claim_inv hi h0 hnew hfree
  | @updateAgreement zone key revisionName value h0 _ _ =>
    refine ⟨hi.owned, hi.hashed, hi.unapproved, fun id k r hid => ?_, hi.unnamed⟩
    have hne : id ≠ zone := by rintro rfl; exact h0 hid
    simpa [hne] using hi.blank id k r hid
  | @erc721 op tokens events he =>
    refine ⟨fun id => ?_, hi.hashed, he.unapproved hi.unapproved, fun id k r hid => ?_, fun id hid => ?_⟩
    · rw [ne_eq, he.exists_iff id]; exact hi.owned id
    · exact hi.blank id k r ((he.exists_iff id).1 hid)
    · exact hi.unnamed id ((he.exists_iff id).1 hid)

/-! ## What no call changes -/

theorem Effect.exists_keep (h : Effect keccak256 sender v op v' events) {id : Uint256}
    (hid : v.tokens._owners id ≠ .zero) : v'.tokens._owners id ≠ .zero := by
  cases h with
  | @claimZone _ id' h0 =>
    simp only [claim, ERC721.minted_owners]
    split
    · exact h0
    · exact hid
  | updateAgreement => exact hid
  | erc721 he => rwa [ne_eq, he.exists_iff id]

theorem Effect.index_keep (h : Effect keccak256 sender v op v' events) {hash : Bytes32} {id : Uint256}
    (he : v.index hash = some id) : v'.index hash = some id := by
  cases h with
  | @claimZone zoneName _ _ hnew =>
    have hne : hash ≠ keccak256 zoneName := by rintro rfl; simp [hnew] at he
    simpa [claim, hne] using he
  | updateAgreement | erc721 => exact he

theorem Effect.name_keep (h : Effect keccak256 sender v op v' events) {id : Uint256}
    (hid : v.tokens._owners id ≠ .zero) : v'.names id = v.names id := by
  cases h with
  | @claimZone _ id' _ _ hfree =>
    have hne : id ≠ id' := by rintro rfl; exact hid hfree
    simp [claim, hne]
  | updateAgreement | erc721 => rfl

/-- A published revision is written once: only `latest` and empty slots are ever written. -/
theorem Effect.agreement_keep (h : Effect keccak256 sender v op v' events) {id : Uint256} {key revision : Bytes32}
    (hr : revision ≠ keccak256 latest) (hne : v.agreements id key revision ≠ []) :
    v'.agreements id key revision = v.agreements id key revision := by
  cases h with
  | claimZone | erc721 => rfl
  | @updateAgreement zone k revisionName value _ _ hw =>
    have : ¬(id = zone ∧ key = k ∧ revision = keccak256 revisionName) := by
      rintro ⟨rfl, rfl, rfl⟩
      exact hw.elim hr hne
    simp [this]

end Zones

end LawRegistry
