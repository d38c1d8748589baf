import LawRegistry.History
import LawRegistry.Sdk.Index
/-!
# The SDK connected to a registry

A `Connection` is a configuration that names a registry on a chain, in any of the ways the SDK
allows. For each function of the SDK one lemma says when it succeeds, and with what.
-/

namespace LawRegistry.Sdk

open Registry (Storage)

/-- `contract` names the registry of layer `L` at `registry`: by the table, by its address, or by
an object with its own ABI. -/
def Names (addresses : Nat → Option AddressEntry) (chainId : Nat) (registry : Address) (L : Layer) :
    Option ContractArg → Prop
  | none => addresses chainId = some ⟨registry, L⟩
  | some (.address a) => a = registry
  | some (.object c) => c = ⟨registry, L⟩

structure Connection (L : Layer) where
  pkgs : Packages
  addresses : Nat → Option AddressEntry
  mainnet : Provider
  chainId : Nat
  registry : Address
  contract : Option ContractArg
  names : Names addresses chainId registry L contract

namespace Connection
variable {L : Layer} (c : Connection L) (s : Storage L)

/-- The hash on chain. -/
abbrev keccak256 : Bytes → Bytes32 := c.pkgs.keccak256

def revisionData (zone key revision : JSString) : Except Failure JSString :=
  Sdk.revisionData c.pkgs c.addresses c.mainnet zone key revision
    (some ⟨c.contract, some (chain c.chainId c.registry s)⟩)

def zoneOwner (zone : JSString) : Except Failure Address :=
  Sdk.zoneOwner c.pkgs c.addresses c.mainnet zone (some ⟨c.contract, some (chain c.chainId c.registry s)⟩)

def createRevision (zone key revision ipfsCid : JSString) : Except Failure Transaction :=
  Sdk.createRevision c.pkgs c.addresses zone key revision ipfsCid ⟨c.contract, chain c.chainId c.registry s⟩

def claimZone (zone : JSString) : Except Failure Transaction :=
  Sdk.claimZone c.pkgs c.addresses zone ⟨c.contract, chain c.chainId c.registry s⟩

/-- A transaction of the SDK runs. -/
def execute (t : Transaction) (sender : Address) : Except Failure (Storage L × List Event) :=
  t.execute c.keccak256 c.registry s sender

/-- The configuration holds a contract object. -/
def isObject : Bool :=
  match c.contract with
  | some (.object _) => true
  | _ => false

/-- `isL1` as `resolveContract` finds it: an object always passes for L1. -/
def isL1 : Bool := L == .l1 || c.isObject

/-- The L2 registry is taken for the L1 registry. -/
def Mistaken : Prop := L = .l2 ∧ c.isObject = true

variable {c s} {zone key revision ipfsCid : JSString}

theorem answer_self {α : Type} {a : Address} {x : Except Revert α} : answer a a x = x.mapError .reverted := by
  rw [answer, if_pos rfl]

theorem resolveContract_eq :
    resolveContract c.addresses c.contract (chain c.chainId c.registry s) = .ok (⟨c.registry, L⟩, c.isL1) := by
  have hn := c.names
  unfold isL1 isObject
  match hc : c.contract with
  | none =>
    rw [hc] at hn
    simp only [Names] at hn
    simp only [resolveContract, chain, hn]
    cases L <;> rfl
  | some (.address a) =>
    rw [hc] at hn
    simp only [Names] at hn
    subst hn
    simp only [resolveContract, checkRegistryL1, chain, answer_self]
    cases L <;> rfl
  | some (.object o) =>
    rw [hc] at hn
    simp only [Names] at hn
    simp [resolveContract, hn]

theorem encode_ok {t : JSString} {b : Bytes} : encode c.pkgs t = .ok b ↔ c.pkgs.toUtf8Bytes t = some b := by
  unfold encode
  split <;> simp [*]

theorem decode_ok {t : JSString} {b : Bytes} : decode c.pkgs b = .ok t ↔ c.pkgs.toUtf8String b = some t := by
  unfold decode
  split <;> simp [*]

theorem isL1_cases :
    (L = .l1 ∧ c.isL1 = true) ∨ (c.Mistaken ∧ c.isL1 = true) ∨ (L = .l2 ∧ ¬c.Mistaken ∧ c.isL1 = false) := by
  unfold Mistaken isL1
  cases L <;> cases c.isObject <;> simp

theorem revisionQuery_ok {q : Query} :
    revisionQuery c.pkgs c.addresses zone key revision c.contract (chain c.chainId c.registry s) = .ok q ↔
      ¬c.Mistaken ∧ q = ⟨c.registry, c.pkgs.hash zone, c.pkgs.hash key, c.pkgs.hash revision⟩ := by
  unfold revisionQuery
  rw [resolveContract_eq]
  simp only [bind_ok, Except.ok.injEq, exists_eq_left']
  rcases c.isL1_cases with ⟨rfl, h1⟩ | ⟨hm, h1⟩ | ⟨rfl, hm, h1⟩
  · have hm : ¬c.Mistaken := fun hm => by cases hm.1
    simp [h1, hm, ContractObject.zoneAgreement, eq_comm]
  · obtain ⟨rfl, -⟩ := id hm
    simp [h1, hm, ContractObject.zoneAgreement]
  · simp [h1, hm, ContractObject.zoneAgreementBytes32, eq_comm]

/-- A read looks up the hashes the SDK computes, or fails for an L2 contract object. -/
theorem revisionData_ok {value : JSString} : c.revisionData s zone key revision = .ok value ↔
    ¬c.Mistaken ∧ ∃ b,
      Registry.zoneAgreement s (c.pkgs.hash zone) (c.pkgs.hash key) (c.pkgs.hash revision) = .ok b ∧
      c.pkgs.toUtf8String b = some value := by
  simp only [Connection.revisionData, Sdk.revisionData, Option.getD_some, bind_ok, revisionQuery_ok, decode_ok]
  constructor
  · rintro ⟨_, ⟨hm, rfl⟩, b, hb, hv⟩
    simp only [chain, answer_self, mapError_ok] at hb
    exact ⟨hm, b, hb, hv⟩
  · rintro ⟨hm, b, hb, hv⟩
    refine ⟨_, ⟨hm, rfl⟩, b, ?_, hv⟩
    simp only [chain, answer_self, mapError_ok]
    exact hb

theorem zoneOwner_ok {owner : Address} :
    c.zoneOwner s zone = .ok owner ↔ Registry.zoneOwner s (c.pkgs.hash zone) = .ok owner := by
  simp only [Connection.zoneOwner, Sdk.zoneOwner, Option.getD_some, resolveContract_eq, bind_ok, Except.ok.injEq,
    exists_eq_left']
  simp only [chain, answer_self, mapError_ok]

/-- A publication names the zone by the id of its hash; mistaken for L1, by the hash itself. -/
theorem createRevision_ok {t : Transaction} : c.createRevision s zone key revision ipfsCid = .ok t ↔
    ∃ id rb vb, (c.Mistaken ∧ id = c.pkgs.hash zone ∨ ¬c.Mistaken ∧ Registry.zoneID s (c.pkgs.hash zone) = .ok id) ∧
      c.pkgs.toUtf8Bytes revision = some rb ∧ c.pkgs.toUtf8Bytes ipfsCid = some vb ∧
      ⟨c.registry, L, .updateAgreement id (c.pkgs.hash key) rb vb⟩ = t := by
  unfold Connection.createRevision Sdk.createRevision
  rw [resolveContract_eq]
  simp only [bind_ok, Except.ok.injEq, exists_eq_left']
  rcases c.isL1_cases with ⟨rfl, h1⟩ | ⟨hm, h1⟩ | ⟨rfl, hm, h1⟩
  · have hm : ¬c.Mistaken := fun hm => by cases hm.1
    simp only [h1, if_true, bind_ok, encode_ok, pure_ok, hm, false_and, not_false_eq_true, true_and, false_or,
      Registry.zoneID, DocRegistry.zoneID, Except.ok.injEq, exists_and_left, exists_eq_left']
  · simp only [h1, if_true, bind_ok, encode_ok, pure_ok, hm, not_true_eq_false, true_and, false_and, or_false,
      exists_and_left, exists_eq_left]
  · simp only [h1, if_false, bind_ok, encode_ok, pure_ok, hm, not_false_eq_true, true_and, false_and, false_or,
      Bool.false_eq_true, chain, answer_self, mapError_ok, exists_and_left]

theorem claimZone_ok {t : Transaction} : c.claimZone s zone = .ok t ↔
    ∃ b, c.pkgs.toUtf8Bytes zone = some b ∧ ⟨c.registry, L, .claimZone b⟩ = t := by
  simp only [Connection.claimZone, Sdk.claimZone, resolveContract_eq, bind_ok, Except.ok.injEq, exists_eq_left',
    encode_ok, pure_ok]

theorem execute_ok {op : Op} {sender : Address} {r} :
    c.execute s ⟨c.registry, L, op⟩ sender = .ok r ↔ (Registry.contract c.keccak256 L).body sender op s = .ok r := by
  have hr : Transaction.reaches ⟨c.registry, L, op⟩ c.registry L = true := by simp [Transaction.reaches]
  rw [Connection.execute, Transaction.execute, if_pos hr, mapError_ok]

end Connection

/-! ## A sample connection, for runs on fixed steps -/

/-- A registry named by its address, on a chain of its own. -/
def sampleConnection (L : Layer) : Connection L where
  pkgs := asciiPackages keccakSample
  addresses := addresses 0
  mainnet := chain (L := .l1) 1 0 .empty
  chainId := 5
  registry := 0x5fbdb2315678afecb367f032d93f642f64180aa3
  contract := some (.address 0x5fbdb2315678afecb367f032d93f642f64180aa3)
  names := rfl

end LawRegistry.Sdk
