import LawRegistry.Sdk.Connection
/-!
# Ways to name a registry

A configuration names its registry by address, by a contract object, or not at all, and then the
table of the SDK names it. All of them lead to the same calls, but for an object of the L2
registry: `resolveContract` does not look at it and takes it for the L1 registry.
-/

namespace LawRegistry.Sdk

open Registry (Storage reached)

namespace Connection
variable {L : Layer} {c : Connection L} {s : Storage L} {arg : Option ContractArg}

/-- The same registry, named by `arg`. -/
def named (c : Connection L) (arg : Option ContractArg) (names : Names c.addresses c.chainId c.registry L arg) :
    Connection L :=
  { c with contract := arg, names }

/-- Both send the same function with the same arguments to the same address, or fail alike. -/
structure SameCalls (c c' : Connection L) (s : Storage L) : Prop where
  revisionData : ∀ zone key revision,
    revisionQuery c.pkgs c.addresses zone key revision c.contract (chain c.chainId c.registry s) =
      revisionQuery c'.pkgs c'.addresses zone key revision c'.contract (chain c'.chainId c'.registry s)
  createRevision : ∀ zone key revision ipfsCid,
    c.createRevision s zone key revision ipfsCid = c'.createRevision s zone key revision ipfsCid

/-! ## The flag decides -/

/-- The flag of `resolveContract` is the type of the registry, unless it is mistaken. -/
theorem isL1_iff : c.isL1 = (Registry.registryType L == 1) ↔ ¬c.Mistaken := by
  unfold isL1 Mistaken
  cases L with
  | l1 => simp [Registry.registryType, DocRegistry.registryType]
  | l2 => simp [Registry.registryType, DocRegistryL2.registryType]

theorem isL1_named {names : Names c.addresses c.chainId c.registry L arg}
    (h : c.Mistaken ↔ (c.named arg names).Mistaken) : c.isL1 = (c.named arg names).isL1 := by
  unfold Mistaken at h
  unfold isL1
  cases L with
  | l1 => rfl
  | l2 =>
    simp only [true_and] at h
    rw [Bool.eq_iff_iff.2 h]

/-- With the same flag both call the same. -/
theorem sameCalls_of_isL1 {names : Names c.addresses c.chainId c.registry L arg}
    (h : c.isL1 = (c.named arg names).isL1) : SameCalls c (c.named arg names) s := by
  constructor
  · intro zone key revision
    unfold revisionQuery
    rw [resolveContract_eq, resolveContract_eq, h]
    rfl
  · intro zone key revision ipfsCid
    unfold Connection.createRevision Sdk.createRevision
    simp only
    rw [resolveContract_eq, resolveContract_eq, h]
    rfl

/-- A read tells whether the registry is mistaken. -/
theorem mistaken_iff_of_sameCalls {c' : Connection L} (h : SameCalls c c' s) : c.Mistaken ↔ c'.Mistaken := by
  have hread {c : Connection L} : c.Mistaken ↔
      ∀ q, revisionQuery c.pkgs c.addresses [] [] [] c.contract (chain c.chainId c.registry s) ≠ .ok q := by
    constructor
    · intro hm q hq
      exact (revisionQuery_ok.1 hq).1 hm
    · intro hno
      by_contra hm
      exact hno _ (revisionQuery_ok.2 ⟨hm, rfl⟩)
  rw [hread, hread, h.revisionData]

/-! ## Every way -/

/-- However the configuration names the registry, the contract object found is the registry's; the flag
is its type, and the calls are those of every other way, exactly where it is not mistaken. -/
theorem naming (c : Connection L) (s : Storage L) :
    (∃ isL1, resolveContract c.addresses c.contract (chain c.chainId c.registry s) = .ok (⟨c.registry, L⟩, isL1) ∧
      (isL1 = (Registry.registryType L == 1) ↔ ¬c.Mistaken)) ∧
    ∀ arg names, SameCalls c (c.named arg names) s ↔ (c.Mistaken ↔ (c.named arg names).Mistaken) := by
  refine ⟨⟨c.isL1, resolveContract_eq, isL1_iff⟩, fun arg names => ?_⟩
  constructor
  · exact mistaken_iff_of_sameCalls
  · intro h
    exact sameCalls_of_isL1 (isL1_named h)

/-- An L2 registry, named by its address and by an object. For the object the flag says L1: there is no
`zoneAgreement` to read with, and the hash of the zone is sent in place of its id. -/
theorem object_mistaken :
    let c := sampleConnection .l2
    let object : Option ContractArg := some (.object ⟨c.registry, .l2⟩)
    let c' := c.named object rfl
    let s := (reached keccakSample .l2 [.call 1 (.claimZone zoneSample) false]).storage
    let provider := chain (L := .l2) c.chainId c.registry s
    let zone := literal ['z', 'o', 'n', 'e']
    let key := literal ['k', 'e', 'y']
    let v1 := literal ['v', '1']
    resolveContract c.addresses object provider = .ok (⟨c.registry, .l2⟩, true) ∧
    provider.registryType c.registry = .ok 2 ∧
    revisionQuery c.pkgs c.addresses zone key v1 c.contract provider =
      .ok ⟨c.registry, keccakSample zoneSample, keccakSample keySample, keccakSample v1Sample⟩ ∧
    revisionQuery c.pkgs c.addresses zone key v1 object provider = .error .typeError ∧
    c.createRevision (L := .l2) s zone key v1 (literal ['Q']) =
      .ok ⟨c.registry, .l2, .updateAgreement 0 (keccakSample keySample) v1Sample [0x51]⟩ ∧
    c'.createRevision (L := .l2) s zone key v1 (literal ['Q']) =
      .ok ⟨c.registry, .l2, .updateAgreement (keccakSample zoneSample) (keccakSample keySample) v1Sample [0x51]⟩ ∧
    ¬SameCalls (L := .l2) c c' s := by
  intro c object c' s provider zone key v1
  refine ⟨rfl, rfl, rfl, rfl, by decide, rfl, fun h => ?_⟩
  have he : (Except.ok _ : Except Failure Query) = .error .typeError := h.revisionData zone key v1
  cases he

end Connection

end LawRegistry.Sdk
