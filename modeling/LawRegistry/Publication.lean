import LawRegistry.History
/-!
# Published agreements

The agreement store is the replay of the event log, and each event was written by the owner of a
zone claimed before. A revision other than `latest` is written only while its slot is empty: what
was published and is not empty stays for ever, and what was published empty can be published
again.
-/

namespace LawRegistry

open Calls (Trace)

/-! ## One call -/

/-- What a call writes: nothing, or one slot, as its one event says. -/
theorem Zones.Effect.writes {keccak256 : Bytes → Bytes32} {v v' : Zones} {sender : Address} {op : Op}
    {events : List Event} (h : Effect keccak256 sender v op v' events) :
    (events.filterMap Event.write = [] ∧ v'.agreements = v.agreements ∧
      ∀ zone key revisionName value, op ≠ .updateAgreement zone key revisionName value) ∨
    ∃ zone key revisionName value, op = .updateAgreement zone key revisionName value ∧
      events.filterMap Event.write = [((zone, key, keccak256 revisionName), value)] ∧
      v'.agreements = v.agreements.set zone key (keccak256 revisionName) value ∧
      Writable keccak256 v.agreements zone key (keccak256 revisionName) := by
  cases h with
  | claimZone => exact .inl ⟨rfl, rfl, by simp⟩
  | @updateAgreement zone key revisionName value _ _ hw =>
    exact .inr ⟨zone, key, revisionName, value, rfl, rfl, rfl, hw⟩
  | @erc721 op tokens events =>
    refine .inl ⟨?_, rfl, by simp⟩
    rw [List.filterMap_map]
    exact List.filterMap_eq_nil_iff.2 fun _ _ => rfl

namespace Registry
variable {keccak256 : Bytes → Bytes32} {L : Layer} {s s₀ : Storage L} {es : List (Entry L)}
  {zone : Uint256} {key revision : Bytes32} {value : Bytes}

/-! ## The log -/

/-- The store as one map. -/
def slots (a : Agreements) (slot : Uint256 × Bytes32 × Bytes32) : Bytes := a slot.1 slot.2.1 slot.2.2

theorem slots_set (a : Agreements) (zone : Uint256) (key revision : Bytes32) (value : Bytes) :
    slots (a.set zone key revision value) = Function.update (slots a) (zone, key, revision) value := by
  funext ⟨z, k, r⟩
  simp only [slots, Agreements.set_apply, Function.update_apply, Prod.mk.injEq]

/-- The slots calls wrote, oldest first. -/
def writes (es : List (Entry L)) : List ((Uint256 × Bytes32 × Bytes32) × Bytes) :=
  (es.flatMap (·.events)).filterMap Event.write

theorem writes_snoc (es : List (Entry L)) (e : Entry L) :
    writes (es ++ [e]) = writes es ++ e.events.filterMap Event.write := by
  simp [writes]

theorem published_eq (w : World L) (zone : Uint256) (key revision : Bytes32) :
    published w zone key revision = Replay.values (zone, key, revision) (writes w.journal) := rfl

/-- Replaying the log rebuilds the store. -/
theorem trace_replay (h : Trace (contract keccak256 L) s₀ es s) :
    slots (agreementOf s) = Replay.replay (slots (agreementOf s₀)) (writes es) := by
  induction h with
  | nil => rfl
  | @snoc es s a op s' evs _ hb ih =>
    rw [writes_snoc]
    rcases (body_effect hb).writes with ⟨he, ha, -⟩ | ⟨z, k, n, v, -, he, ha, -⟩
    · simp only [zones_agreements] at ha
      rw [he, List.append_nil, ha, ih]
    · simp only [zones_agreements] at ha
      rw [he, Replay.replay_snoc, ha, slots_set, ih]

/-- A revision other than `latest` is written only while its slot is empty. -/
theorem trace_guarded (h : Trace (contract keccak256 L) s₀ es s) (hr : revision ≠ keccak256 latest) :
    Replay.Guarded (slots (agreementOf s₀)) [] (zone, key, revision) (writes es) := by
  induction h with
  | nil => exact .nil
  | @snoc es s a op s' evs ht hb ih =>
    rw [writes_snoc]
    rcases (body_effect hb).writes with ⟨he, -⟩ | ⟨z, k, n, v, -, he, -, hw⟩
    · rw [he, List.append_nil]; exact ih
    · rw [he]
      refine ih.snoc fun hslot => ?_
      cases hslot
      rw [← trace_replay ht]
      simp only [zones_agreements] at hw
      exact hw.resolve_left hr

theorem mem_writes (h : Trace (contract keccak256 L) s₀ es s) :
    ((zone, key, revision), value) ∈ writes es ↔
      ∃ e ∈ es, ∃ revisionName, e.op = .updateAgreement zone key revisionName value ∧
        keccak256 revisionName = revision := by
  induction h with
  | nil => simp [writes]
  | @snoc es s a op s' evs _ hb ih =>
    simp only [writes_snoc, List.mem_append, ih, List.mem_singleton, or_and_right, exists_or, exists_eq_left]
    refine or_congr_right ?_
    rcases (body_effect hb).writes with ⟨he, -, hop⟩ | ⟨z, k, n, v, rfl, he, -⟩
    · simp [he, hop]
    · simp only [he, List.mem_singleton, Prod.mk.injEq, Op.updateAgreement.injEq]
      constructor
      · rintro ⟨⟨rfl, rfl, rfl⟩, rfl⟩
        exact ⟨n, ⟨rfl, rfl, rfl, rfl⟩, rfl⟩
      · rintro ⟨_, ⟨rfl, rfl, rfl, rfl⟩, rfl⟩
        exact ⟨⟨rfl, rfl, rfl⟩, rfl⟩

@[simp] theorem init_slots : slots (agreementOf (contract keccak256 L).init) = fun _ => [] := by
  rw [← zones_agreements, init_zones]; rfl

theorem reached_slot (steps : List Step) (zone : Uint256) (key revision : Bytes32) :
    agreementOf (reached keccak256 L steps).storage zone key revision =
      (published (reached keccak256 L steps) zone key revision).getLast?.getD [] := by
  have ht : Trace (contract keccak256 L) _ _ _ := reached_trace steps
  have hr := congrFun (trace_replay ht) (zone, key, revision)
  rw [Replay.replay_apply, init_slots] at hr
  exact hr

/-! ## Every agreement is accounted for -/

/-- A publication was made by the owner of its zone, after the claim that created the zone. -/
theorem update_attributed (h : Trace (contract keccak256 L) (contract keccak256 L).init es s)
    {pre post : List (Entry L)} {e : Entry L} (he : es = pre ++ e :: post) {revisionName : Bytes}
    (hop : e.op = .updateAgreement zone key revisionName value) :
    (tokens e.before).ownerOf zone = .ok e.sender ∧ ∃ c ∈ pre, ∃ zoneName, c.op = .claimZone zoneName ∧
      Creates c zone ∧ (zones s).index (keccak256 zoneName) = some zone := by
  obtain ⟨hpre, hb, hpost⟩ := h.split he
  have hbody := hb
  rw [hop] at hbody
  obtain ⟨h0, ho, -⟩ := updateAgreement_ok.1 ⟨_, hbody⟩
  obtain ⟨hash, hx⟩ := ((trace_inv_init hpre).owned zone).1 (by simpa using h0)
  obtain ⟨c, hc, zoneName, hclaim, rfl, hcreates, -⟩ := claim_of_index hpre hx
  have hkeep := (body_effect hb).index_keep hx
  exact ⟨ERC721.ownerOf_ok.2 ⟨h0, ho⟩, c, hc, zoneName, hclaim, hcreates, trace_index_keep hpost hkeep⟩

theorem event_attributed (h : Trace (contract keccak256 L) (contract keccak256 L).init es s) {pre post : List (Entry L)}
    {e : Entry L} (he : es = pre ++ e :: post) (hev : .AgreementUpdated zone key value revision ∈ e.events) :
    (tokens e.before).ownerOf zone = .ok e.sender ∧ ∃ c ∈ pre, Creates c zone := by
  obtain ⟨-, hb, -⟩ := h.split he
  have hw : ((zone, key, revision), value) ∈ e.events.filterMap Event.write :=
    List.mem_filterMap.2 ⟨_, hev, rfl⟩
  rcases (body_effect hb).writes with ⟨hnil, -⟩ | ⟨z, k, n, v, hop, hone, -⟩
  · simp [hnil] at hw
  · simp only [hone, List.mem_singleton, Prod.mk.injEq] at hw
    obtain ⟨⟨rfl, rfl, -⟩, rfl⟩ := hw
    obtain ⟨ho, c, hc, -, -, hcreates, -⟩ := update_attributed h he hop
    exact ⟨ho, c, hc, hcreates⟩

/-- A zone is claimed empty. -/
theorem created_blank (h : Trace (contract keccak256 L) (contract keccak256 L).init es s) {e : Entry L} (he : e ∈ es)
    (hc : Creates e zone) : agreementOf e.after zone key revision = [] := by
  obtain ⟨pre, post, rfl⟩ := List.append_of_mem he
  obtain ⟨hpre, hb, -⟩ := h.split rfl
  have h0 := hc.unowned
  obtain ⟨zoneName, hop, -⟩ := hc
  obtain ⟨id, -, -, -, ha⟩ := claim_entry hop hb
  rw [← zones_agreements, ha]
  apply (trace_inv_init hpre).blank zone key revision h0

/-- Every stored agreement is the last one published for its slot, by the owner of the zone at the
time, after the zone was claimed empty. -/
theorem agreements_accounted (keccak256 : Bytes → Bytes32) (L : Layer) (steps : List Step) :
    let w := reached keccak256 L steps
    (∀ zone key revision,
      agreementOf w.storage zone key revision = (published w zone key revision).getLast?.getD []) ∧
    slots (agreementOf w.storage) = Replay.replay (fun _ => []) (w.events.filterMap Event.write) ∧
    (∀ pre e post, w.journal = pre ++ e :: post → ∀ zone key value revision,
      .AgreementUpdated zone key value revision ∈ e.events →
        (tokens e.before).ownerOf zone = .ok e.sender ∧ ∃ c ∈ pre, Creates c zone) ∧
    (∀ sender zone key revisionName value, (tokens w.storage).ownerOf zone ≠ .ok sender →
      ¬Succeeds keccak256 w.storage sender (.updateAgreement zone key revisionName value)) ∧
    (∀ e ∈ w.journal, ∀ zone, Creates e zone → ∀ key revision, agreementOf e.after zone key revision = []) := by
  intro w
  have ht : Trace (contract keccak256 L) (contract keccak256 L).init w.journal w.storage := reached_trace steps
  refine ⟨reached_slot steps, ?_, fun pre e post he zone key value revision hev => event_attributed ht he hev, ?_,
    fun e he zone hc key revision => created_blank ht he hc⟩
  · have hr := trace_replay ht
    rw [init_slots] at hr
    exact hr
  · intro sender zone key revisionName value hno hs
    obtain ⟨h0, ho, -⟩ := updateAgreement_ok.1 hs
    exact hno (ERC721.ownerOf_ok.2 ⟨h0, ho⟩)

/-- Somebody else's attempt fails, the owner's publication is stored and logged. -/
theorem agreements_accounted_sample :
    let key := keccakSample keySample
    let v1 := keccakSample v1Sample
    let w := reached keccakSample .l2
      [.call 1 (.claimZone zoneSample) false, .call 2 (.updateAgreement 0 key v1Sample [0x52]) false,
       .call 1 (.updateAgreement 0 key v1Sample [0x51]) false]
    published w 0 key v1 = [[0x51]] ∧ agreementOf w.storage 0 key v1 = [0x51] ∧
    ∃ pre e, w.journal = pre ++ [e] ∧ e.events = [.AgreementUpdated 0 key [0x51] v1] ∧ e.sender = 1 ∧
      (tokens e.before).ownerOf 0 = .ok e.sender ∧ ∃ c ∈ pre, Creates c 0 := by
  intro key v1 w
  obtain ⟨hstore, -, hwrote, -, -⟩ := agreements_accounted keccakSample .l2
    [.call 1 (.claimZone zoneSample) false, .call 2 (.updateAgreement 0 key v1Sample [0x52]) false,
     .call 1 (.updateAgreement 0 key v1Sample [0x51]) false]
  have hpublished : published w 0 key v1 = [[0x51]] := rfl
  have hlog : ∃ pre e, w.journal = pre ++ [e] ∧ e.events = [.AgreementUpdated 0 key [0x51] v1] ∧ e.sender = 1 :=
    ⟨[_], _, rfl, rfl, rfl⟩
  obtain ⟨pre, e, hsplit, hevents, hsender⟩ := hlog
  refine ⟨hpublished, ?_, pre, e, hsplit, hevents, hsender, hwrote pre e [] hsplit 0 key [0x51] v1 ?_⟩
  · rw [hstore, hpublished]
    rfl
  · rw [hevents]
    exact List.mem_singleton_self _

/-! ## Published for good -/

theorem trace_zoneAgreement_keep (hi : (zones s₀).Inv keccak256) (ht : Trace (contract keccak256 L) s₀ es s)
    {hash : Bytes32} (hr : revision ≠ keccak256 latest) (hread : zoneAgreement s₀ hash key revision = .ok value)
    (hne : value ≠ []) : zoneAgreement s hash key revision = .ok value := by
  obtain ⟨id, hx, rfl⟩ := zoneAgreement_some hi hread hne
  rw [zoneAgreement_ok (trace_index_keep ht hx), trace_agreement_keep ht hr hne]

/-- What a hash-keyed read finds under a revision other than `latest`, it finds for ever. -/
theorem zoneAgreement_write_once (keccak256 : Bytes → Bytes32) (L : Layer) (steps later : List Step)
    (h key revision : Bytes32) (value : Bytes) (hr : revision ≠ keccak256 latest)
    (hread : zoneAgreement (reached keccak256 L steps).storage h key revision = .ok value) (hne : value ≠ []) :
    zoneAgreement (continued keccak256 (reached keccak256 L steps).storage later).storage h key revision =
      .ok value := by
  have ht : Trace (contract keccak256 L) _ _ _ := continued_trace (reached keccak256 L steps).storage later
  exact trace_zoneAgreement_keep (reached_inv steps) ht hr hread hne

/-- A revision published, then another attempt at it, and a transfer. -/
theorem zoneAgreement_write_once_sample :
    zoneAgreement (continued keccakSample (reached keccakSample .l2
        [.call 1 (.claimZone zoneSample) false,
         .call 1 (.updateAgreement 0 (keccakSample keySample) v1Sample [0x51]) false]).storage
        [.call 1 (.updateAgreement 0 (keccakSample keySample) v1Sample [0x52]) false,
         .call 1 (.erc721 (.transferFrom 1 2 0)) false]).storage
      (keccakSample zoneSample) (keccakSample keySample) (keccakSample v1Sample) = .ok [0x51] :=
  zoneAgreement_write_once keccakSample .l2 _ _ _ _ _ [0x51] (by decide) (by rfl) (by decide)

/-! ## The guard and the history -/

/-- An earlier call published this revision. -/
def Published (w : World L) (zone : Uint256) (key : Bytes32) (revisionName : Bytes) : Prop :=
  ∃ e ∈ w.journal, ∃ value, e.op = .updateAgreement zone key revisionName value

/-- An earlier call published this revision, and with a value that is not empty. -/
def PublishedText (w : World L) (zone : Uint256) (key : Bytes32) (revisionName : Bytes) : Prop :=
  ∃ e ∈ w.journal, ∃ value, e.op = .updateAgreement zone key revisionName value ∧ value ≠ []

theorem mem_published {steps : List Step} {revisionName : Bytes}
    (hc : NoCollision keccak256 (revisionName :: revisionNames steps)) :
    value ∈ published (reached keccak256 L steps) zone key (keccak256 revisionName) ↔
      ∃ e ∈ (reached keccak256 L steps).journal, e.op = .updateAgreement zone key revisionName value := by
  rw [published_eq, Replay.mem_values, mem_writes (reached_trace steps)]
  refine exists_congr fun e => and_congr_right fun he => ?_
  constructor
  · rintro ⟨n, hop, hn⟩
    -- The text was published by a step of the run, so its hash tells it apart.
    rw [hc.head_eq (mem_revisionNames he hop) hn] at hop
    exact hop
  · intro hop
    exact ⟨revisionName, hop, rfl⟩

theorem published_iff {steps : List Step} {revisionName : Bytes}
    (hc : NoCollision keccak256 (revisionName :: revisionNames steps)) :
    Published (reached keccak256 L steps) zone key revisionName ↔
      ∃ v, v ∈ published (reached keccak256 L steps) zone key (keccak256 revisionName) := by
  simp only [Published, mem_published hc]
  constructor
  · rintro ⟨e, he, v, hop⟩
    exact ⟨v, e, he, hop⟩
  · rintro ⟨v, e, he, hop⟩
    exact ⟨e, he, v, hop⟩

theorem publishedText_iff {steps : List Step} {revisionName : Bytes}
    (hc : NoCollision keccak256 (revisionName :: revisionNames steps)) :
    PublishedText (reached keccak256 L steps) zone key revisionName ↔
      ∃ v ∈ published (reached keccak256 L steps) zone key (keccak256 revisionName), v ≠ [] := by
  simp only [PublishedText, mem_published hc]
  constructor
  · rintro ⟨e, he, v, hop, hne⟩
    exact ⟨v, ⟨e, he, hop⟩, hne⟩
  · rintro ⟨v, ⟨e, he, hop⟩, hne⟩
    exact ⟨e, he, v, hop, hne⟩

/-- The call succeeds while nothing but empty values was published. -/
theorem republish_ok {steps : List Step} {owner : Address} {revisionName : Bytes}
    (hr : keccak256 revisionName ≠ keccak256 latest)
    (ho : (tokens (reached keccak256 L steps).storage).ownerOf zone = .ok owner) :
    Succeeds keccak256 (reached keccak256 L steps).storage owner (.updateAgreement zone key revisionName value) ↔
      ∀ v ∈ published (reached keccak256 L steps) zone key (keccak256 revisionName), v = [] := by
  obtain ⟨h0, ho⟩ := ERC721.ownerOf_ok.1 ho
  have hg : Replay.Guarded _ _ (zone, key, _) _ := trace_guarded (reached_trace (L := L) steps) hr
  rw [published_eq, ← hg.blank_iff (by rw [init_slots]), ← trace_replay (reached_trace steps), updateAgreement_ok]
  exact ⟨fun h => h.2.2.resolve_left hr, fun h => ⟨h0, ho, .inr h⟩⟩

/-- Of two publications in one slot, the later one was a call that found the earlier one. -/
theorem published_twice (h : Trace (contract keccak256 L) s₀ es s)
    (htwo : 2 ≤ (Replay.values (zone, key, revision) (writes es)).length) :
    ∃ pre e post n v, es = pre ++ e :: post ∧ e.op = .updateAgreement zone key n v ∧ keccak256 n = revision ∧
      Replay.values (zone, key, revision) (writes pre) ≠ [] := by
  induction h with
  | nil => simp [writes] at htwo
  | @snoc es s a op s' evs _ hb ih =>
    have hearlier (hes : 2 ≤ (Replay.values (zone, key, revision) (writes es)).length) :
        ∃ pre e post n v, es ++ [⟨a, op, s, s', evs⟩] = pre ++ e :: post ∧ e.op = .updateAgreement zone key n v ∧
          keccak256 n = revision ∧ Replay.values (zone, key, revision) (writes pre) ≠ [] := by
      obtain ⟨pre, e, post, n, v, rfl, hrest⟩ := ih hes
      exact ⟨pre, e, post ++ [⟨a, op, s, s', evs⟩], n, v, by simp, hrest⟩
    rw [writes_snoc] at htwo
    rcases (body_effect hb).writes with ⟨he, -⟩ | ⟨z, k, n, v, rfl, he, -⟩
    · rw [he, List.append_nil] at htwo
      exact hearlier htwo
    · rw [he, Replay.values_append, Replay.values_singleton] at htwo
      split at htwo
      next hslot =>
        cases hslot
        refine ⟨es, _, [], n, v, rfl, rfl, rfl, ?_⟩
        rintro hnil
        rw [hnil] at htwo
        simp at htwo
      next =>
        rw [List.append_nil] at htwo
        exact hearlier htwo

/-- A slot gets no second event exactly if its owner never asks again while only empty values are published. -/
theorem published_once {steps : List Step} {revisionName : Bytes} (hr : keccak256 revisionName ≠ keccak256 latest)
    (hc : NoCollision keccak256 (revisionName :: revisionNames steps)) :
    (∀ before, before <+: steps →
        (published (reached keccak256 L before) zone key (keccak256 revisionName)).length ≤ 1) ↔
      ∀ before sender v code, before ++ [.call sender (.updateAgreement zone key revisionName v) code] <+: steps →
        (tokens (reached keccak256 L before).storage).ownerOf zone = .ok sender →
        Published (reached keccak256 L before) zone key revisionName →
        PublishedText (reached keccak256 L before) zone key revisionName := by
  constructor
  · intro hone before sender v code hp ho hpub
    have hc' := hc.before ((List.prefix_append before _).trans hp)
    by_contra htext
    rw [publishedText_iff hc'] at htext
    push Not at htext
    obtain ⟨v', hv'⟩ := (published_iff hc').1 hpub
    -- Nothing but empty values: the call goes through, and is the second.
    obtain ⟨⟨s', events⟩, hb⟩ := (republish_ok hr ho).2 htext
    have hlen := hone _ hp
    rw [reached_call rfl hb, published_eq, Calls.World.commit, writes_snoc, Replay.values_append, List.length_append,
      ← published_eq] at hlen
    have hpos := List.length_pos_of_mem hv'
    rcases (body_effect hb).writes with ⟨-, -, hno⟩ | ⟨z, k, n, v₁, hop, he, -⟩
    · exact hno _ _ _ _ rfl
    · cases hop
      rw [he, Replay.values_singleton, if_pos rfl, List.length_singleton] at hlen
      omega
  · intro hcond before hp
    by_contra hlen
    have ht : Trace (contract keccak256 L) _ _ _ := reached_trace before
    obtain ⟨pre, e, post, n, v, hj, hop, hn, hpre⟩ := published_twice ht (Nat.lt_of_not_le hlen)
    have hmem : e ∈ (reached keccak256 L before).journal := hj ▸ List.mem_append_right _ List.mem_cons_self
    obtain rfl : n = revisionName := (hc.before hp).head_eq (mem_revisionNames hmem hop) hn
    obtain ⟨howner, -⟩ := update_attributed ht hj hop
    obtain ⟨-, hb, -⟩ := ht.split hj
    -- The moment of the later call.
    obtain ⟨start, rest, code, hbefore, hstart, hs⟩ := Calls.run_prefix _ before hj
    rw [hop] at hbefore hb
    have hasked : start ++ [.call e.sender (.updateAgreement zone key n v) code] <+: steps := by
      refine List.IsPrefix.trans ⟨rest, ?_⟩ hp
      rw [hbefore, List.append_assoc]
      rfl
    have hc' := hc.before ((List.prefix_append start _).trans hasked)
    change (reached keccak256 L start).journal = pre at hstart
    change (reached keccak256 L start).storage = e.before at hs
    rw [← hs] at howner hb
    obtain ⟨v₀, hv₀⟩ := List.exists_mem_of_ne_nil _ hpre
    rw [← hstart, ← published_eq] at hv₀
    have htext := hcond start e.sender v code hasked howner ((published_iff hc').2 ⟨v₀, hv₀⟩)
    obtain ⟨v₁, hv₁, hne⟩ := (publishedText_iff hc').1 htext
    exact hne ((republish_ok hr howner).1 ⟨_, hb⟩ v₁ hv₁)

/-- The guard agrees with the history for a call exactly if some earlier publication of the revision, if there was
any, had a value that is not empty; and no slot ever gets a second event exactly if no owner asks again where that
is not so. -/
theorem guard_agrees_iff (keccak256 : Bytes → Bytes32) (L : Layer) (steps : List Step) (owner : Address)
    (zone : Uint256) (key : Bytes32) (revisionName value : Bytes) (hr : keccak256 revisionName ≠ keccak256 latest)
    (hc : NoCollision keccak256 (revisionName :: revisionNames steps))
    (ho : (tokens (reached keccak256 L steps).storage).ownerOf zone = .ok owner) :
    let w := reached keccak256 L steps
    ((Succeeds keccak256 w.storage owner (.updateAgreement zone key revisionName value) ↔
        ¬Published w zone key revisionName) ↔
      (Published w zone key revisionName → PublishedText w zone key revisionName)) ∧
    ((∀ before, before <+: steps →
        (published (reached keccak256 L before) zone key (keccak256 revisionName)).length ≤ 1) ↔
      ∀ before sender v code, before ++ [.call sender (.updateAgreement zone key revisionName v) code] <+: steps →
        (tokens (reached keccak256 L before).storage).ownerOf zone = .ok sender →
        Published (reached keccak256 L before) zone key revisionName →
        PublishedText (reached keccak256 L before) zone key revisionName) := by
  intro w
  refine ⟨?_, published_once hr hc⟩
  rw [republish_ok hr ho, published_iff hc, publishedText_iff hc]
  constructor
  · rintro h ⟨v, hv⟩
    by_contra hno
    push Not at hno
    exact h.1 hno ⟨v, hv⟩
  · intro h
    constructor
    · rintro hall hv
      obtain ⟨v, hv, hne⟩ := h hv
      exact hne (hall v hv)
    · intro hno v hv
      exact absurd ⟨v, hv⟩ hno

/-- A revision published with a value: the guard holds the next attempt back. -/
theorem guard_agrees_sample :
    let w := reached keccakSample .l1
      [.call 1 (.claimZone zoneSample) false,
       .call 1 (.updateAgreement (keccakSample zoneSample) (keccakSample keySample) v1Sample [0x51]) false]
    Succeeds keccakSample w.storage 1
      (.updateAgreement (keccakSample zoneSample) (keccakSample keySample) v1Sample [0x52]) ↔
      ¬Published w (keccakSample zoneSample) (keccakSample keySample) v1Sample :=
  (guard_agrees_iff keccakSample .l1 _ 1 _ _ v1Sample [0x52] (by decide) (by decide) rfl).1.2
    fun _ => ⟨_, List.mem_cons_of_mem _ List.mem_cons_self, [0x51], rfl, by decide⟩

/-- An empty value, then a second publication of the same revision. -/
theorem republished_after_empty :
    let zone := keccakSample zoneSample
    let key := keccakSample keySample
    let steps : List Step :=
      [.call 1 (.claimZone zoneSample) false, .call 1 (.updateAgreement zone key v1Sample []) false]
    let again : Step := .call 1 (.updateAgreement zone key v1Sample [0x51]) false
    let w := reached keccakSample .l1 steps
    NoCollision keccakSample (v1Sample :: revisionNames steps) ∧ keccakSample v1Sample ≠ keccakSample latest ∧
    (tokens w.storage).ownerOf zone = .ok 1 ∧ Published w zone key v1Sample ∧
    Succeeds keccakSample w.storage 1 (.updateAgreement zone key v1Sample [0x51]) ∧
    published (reached keccakSample .l1 (steps ++ [again])) zone key (keccakSample v1Sample) = [[], [0x51]] := by
  refine ⟨?_, by decide, rfl, ⟨_, List.mem_cons_of_mem _ List.mem_cons_self, [], rfl⟩, ⟨_, rfl⟩, rfl⟩
  decide

end Registry

end LawRegistry
