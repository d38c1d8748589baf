import LawRegistry.AccountingL1
import LawRegistry.ByName
import LawRegistry.Reentrancy
/-!
# From one registry to the other

Whatever the zones of one registry have come to, the zones of the other can come to, with no more calls:
each call in effect, by id, is followed by the call by hash on the same zone. Only the ids of L2 end, so
what it cannot follow is a registry with all the 2^256 zones there can be.
-/

namespace LawRegistry

open Calls (Trace)

namespace Registry
variable {keccak256 : Bytes → Bytes32} {L M : Layer} {s s' : Storage L} {t : Storage M} {sender : Address} {op : Op}
  {events : List Event}

/-- A call that goes through on one registry is followed on the other. -/
theorem follow (hr : SameView keccak256 s t) (hroom : op.isClaim = true → HasRoom t)
    (hb : (contract keccak256 L).body sender op s = .ok (s', events)) :
    ∃ op' t' events', (contract keccak256 M).body sender op' t = .ok (t', events') ∧ SameView keccak256 s' t' ∧
      op'.isClaim = op.isClaim := by
  obtain ⟨hgs, hgt, hv⟩ := hr
  have hzone : ∀ id, op.zone = some id → (tokens s)._owners id ≠ .zero := by
    intro id hz
    have h0 := (body_effect hb).zone_exists hz
    rwa [zones_tokens] at h0
  have hclaim : (byHashOf keccak256 s op).isClaim = op.isClaim := by
    unfold byHashOf
    split
    · rfl
    · cases op <;> rfl
  rw [← byHash_byHashOf hgs.inv hzone] at hb
  obtain ⟨hgs', hstep⟩ := byHash_step hgs hb
  rw [hv] at hstep
  obtain ⟨⟨t', events'⟩, hb'⟩ := byHash_succeeds hgt (fun hc => hroom (hclaim.symm.trans hc)) hstep
  obtain ⟨hgt', hstep'⟩ := byHash_step hgt hb'
  obtain ⟨op', hop', hb'⟩ := bind_ok.1 hb'
  refine ⟨op', t', events', hb', ⟨hgs', hgt', ?_⟩, (resolve_isClaim hop').trans hclaim⟩
  exact Option.some.inj (hstep.symm.trans hstep')

/-- On L2 there are as many ids handed out as claims in effect. -/
theorem hasRoom_of_claims {es : List (Entry M)} (h : Trace (contract keccak256 M) (contract keccak256 M).init es t)
    (hfew : es.countP (·.op.isClaim) < 2 ^ 256 - 1) : HasRoom t := by
  cases M with
  | l1 => trivial
  | l2 =>
    have hcount := DocRegistryL2.trace_counter DocRegistryL2.body_counter h
    exact Nat.lt_of_le_of_lt (Nat.le_of_eq (hcount.trans (Nat.zero_add _))) hfew

/-- A run is followed call by call, on L2 as far as the ids go. -/
theorem trace_follow (M : Layer) {es : List (Entry L)}
    (h : Trace (contract keccak256 L) (contract keccak256 L).init es s)
    (hfew : M = .l2 → es.countP (·.op.isClaim) < 2 ^ 256) :
    ∃ (es' : List (Entry M)) (t : Storage M), Trace (contract keccak256 M) (contract keccak256 M).init es' t ∧
      es'.length = es.length ∧ es'.countP (·.op.isClaim) = es.countP (·.op.isClaim) ∧ SameView keccak256 s t := by
  induction h with
  | nil =>
    refine ⟨[], _, .nil, rfl, rfl, init_good, init_good, ?_⟩
    simp only [view, init_zones]
  | @snoc es s a op s' evs _ hb ih =>
    rw [List.countP_append, List.countP_singleton] at hfew
    obtain ⟨es', t, ht, hlength, hclaims, hr⟩ := ih fun hM => Nat.lt_of_le_of_lt (Nat.le_add_right ..) (hfew hM)
    have hroom : op.isClaim = true → HasRoom t := by
      intro hc
      cases M with
      | l1 => trivial
      | l2 =>
        have hnext := hfew rfl
        rw [if_pos hc] at hnext
        refine hasRoom_of_claims ht ?_
        omega
    obtain ⟨op', t', evs', hb', hr', hop⟩ := follow hr hroom hb
    refine ⟨_, t', .snoc ht hb', ?_, ?_, hr'⟩
    · rw [List.length_append, List.length_append, hlength]
      rfl
    · rw [List.countP_append, List.countP_append, hclaims, List.countP_singleton, List.countP_singleton]
      simp only [hop]

/-- The calls of a trace, made one by one, lead where it leads. -/
theorem reached_flat {es : List (Entry L)} (h : Trace (contract keccak256 L) (contract keccak256 L).init es s) :
    (reached keccak256 L (Trace.flat es)).storage = s := by
  rw [reached, deployed, h.run_flat acceptsPlain]

/-- On L1 the zones in view are the tokens. -/
theorem zones_in_view {s : DocRegistry} :
    {h | ((view (L := .l1) s).zone h).isSome = true}.ncard = s.claimedTokens.card := by
  rw [← Set.ncard_coe_finset]
  congr 1
  ext h
  have hx : (zones (L := .l1) s).index h = none ↔ s._owners h = .zero := idOfOwner_none
  rw [Set.mem_ofPred_eq, Finset.mem_coe, ERC721.mem_claimedTokens, view, Zones.view, Option.isSome_map,
    Option.isSome_iff_ne_none, ne_eq, ne_eq, hx]

/-- The registries can say the same of their zones, and it takes them as many calls, by any addresses, the
zero address as well. L2 cannot speak of 2^256 zones. -/
theorem same_views (keccak256 : Bytes → Bytes32) (v : View) (n : Nat) :
    (∃ steps : List Step, steps.length ≤ n ∧ view (reached keccak256 .l2 steps).storage = v) ↔
      (∃ steps : List Step, steps.length ≤ n ∧ view (reached keccak256 .l1 steps).storage = v) ∧
        {h | (v.zone h).isSome = true}.ncard < 2 ^ 256 := by
  have hcalls {L : Layer} (steps : List Step) : (reached keccak256 L steps).journal.length ≤ steps.length :=
    Calls.journal_length _ steps
  constructor
  · rintro ⟨steps, hn, rfl⟩
    obtain ⟨es, t, ht, hlength, hclaims, hr⟩ := trace_follow .l1 (reached_trace (L := .l2) steps) nofun
    have hview := hr.2.2
    refine ⟨⟨Trace.flat es, ?_, ?_⟩, ?_⟩
    · rw [Trace.flat, List.length_map, hlength]
      exact Nat.le_trans (hcalls steps) hn
    · rw [reached_flat ht, hview]
    · rw [hview, zones_in_view, DocRegistry.trace_claimedTokens ht, hclaims, ← DocRegistryL2.reached_counter]
      exact BitVec.isLt _
  · rintro ⟨⟨steps, hn, rfl⟩, hfew⟩
    have ht : Trace (contract keccak256 .l1) _ _ _ := reached_trace steps
    rw [zones_in_view, DocRegistry.trace_claimedTokens ht] at hfew
    obtain ⟨es, t, ht', hlength, -, hr⟩ := trace_follow .l2 ht fun _ => hfew
    refine ⟨Trace.flat es, ?_, ?_⟩
    · rw [Trace.flat, List.length_map, hlength]
      exact Nat.le_trans (hcalls steps) hn
    · rw [reached_flat ht', hr.2.2]

end Registry

end LawRegistry
