import LawRegistry.Lib.Hashed
import LawRegistry.Catalogue
import LawRegistry.Refinement
/-!
# The registries keep a catalogue

As long as `keccak256` does not collide on the names in use, both registries do what the catalogue
does: each call in effect is a request it grants, and each request it grants is a call that
succeeds. A zone is found under the hash of its name and a document under the hash of its
revision; the keys are hashed by the caller, and opaque here.
-/

namespace LawRegistry

open Calls (Trace outcome)
open Hashed (Kept)

/-- What an account reads for the zero address. -/
def account (a : Address) : Option Address := if a = .zero then none else some a

/-- An empty string stands for no document. -/
def document (value : Bytes) : Option Bytes := if value = [] then none else some value

theorem account_eq_some {a sender : Address} (h0 : sender ≠ .zero) : account a = some sender ↔ a = sender := by
  unfold account
  split
  next h => simp [h, h0.symm]
  next h => simp

theorem document_eq_none {value : Bytes} : document value = none ↔ value = [] := by
  simp [document]

/-- The byte strings a call hashes. -/
def Op.names : Op → List Bytes
  | .claimZone zoneName => [zoneName]
  | .updateAgreement _ _ revisionName _ => [revisionName]
  | .erc721 _ => []

/-- The request a call on the zone named `n` makes; nobody can be handed a zone under the zero
address. -/
def Op.request (n : Bytes) : Op → Option (Request Address Bytes Bytes32 Bytes)
  | .claimZone zoneName => some (.claim zoneName)
  | .updateAgreement _ key revisionName value => some (.publish n key revisionName (document value))
  | .erc721 (.approve to_ _) => some (.delegate n (account to_))
  | .erc721 (.setApprovalForAll operator approved) => some (.trust operator approved)
  | .erc721 (.transferFrom from_ to_ _) | .erc721 (.safeTransferFrom from_ to_ _)
  | .erc721 (.safeTransferFromData from_ to_ _ _) => if to_ = .zero then none else some (.transfer n from_ to_)

/-! ## A catalogue in a view -/

section
variable (keccak256 : Bytes → Bytes32) (U : Set Bytes)

/-- The listing named `n`, as it is kept by hash. -/
structure SameZone (n : Bytes) (l : Listing Address Bytes Bytes32 Bytes) (z : Zone) : Prop where
  owner : l.owner = z.owner
  owned : z.owner ≠ .zero
  delegate : l.delegate = account z.approved
  name : z.name = n
  documents : ∀ key, Kept keccak256 U (fun _ d v => d = document v) (l.documents key) (z.agreements key)

/-- The catalogue `c` on the names `U`, as it is kept by hash. -/
structure Represents (c : Catalogue Address Bytes Bytes32 Bytes) (v : View) : Prop where
  trusts : c.trusts = v.operators
  listed : Kept keccak256 U (fun n => Option.Rel (SameZone keccak256 U n)) c.listing v.zone
  /-- No zone has another name. -/
  named : ∀ h z, v.zone h = some z → z.name ∈ U ∧ keccak256 z.name = h

end

variable {keccak256 : Bytes → Bytes32} {U : Set Bytes} {c : Catalogue Address Bytes Bytes32 Bytes} {v : View}
  {sender : Address} {n : Bytes} {op : Op}

theorem represents_empty : Represents keccak256 U .empty Zones.empty.view := by
  constructor
  · rfl
  · intro n _
    exact .none
  · intro h z hz
    cases hz

/-- A zone is listed under its name, and reads the same there. -/
theorem Represents.listing (hr : Represents keccak256 U c v) (hn : n ∈ U) :
    Option.Rel (SameZone keccak256 U n) (c.listing n) (v.zone (keccak256 n)) := hr.listed n hn

theorem Represents.put (hr : Represents keccak256 U c v) (hinj : Set.InjOn keccak256 U) (hn : n ∈ U)
    {l : Listing Address Bytes Bytes32 Bytes} {z : Zone} (hz : SameZone keccak256 U n l z) {balances} :
    Represents keccak256 U (c.put n l) ⟨balances, v.operators, Function.update v.zone (keccak256 n) (some z)⟩ := by
  constructor
  · exact hr.trusts
  · exact hr.listed.update hinj hn (.some hz)
  · intro h z' hz'
    simp only [Function.update_apply] at hz'
    split at hz'
    next he =>
      cases hz'
      rw [hz.name]
      exact ⟨hn, he.symm⟩
    next => exact hr.named h z' hz'

/-! ## Requests and calls by hash -/

/-- The same condition on the same zone, and the same zone after. -/
theorem onListing_rel (hr : Represents keccak256 U c v) (hn : n ∈ U)
    {p : Listing Address Bytes Bytes32 Bytes → Prop} [DecidablePred p] {q : Zone → Prop} [DecidablePred q]
    {f : Listing Address Bytes Bytes32 Bytes → Listing Address Bytes Bytes32 Bytes} {g : Zone → View}
    (hpq : ∀ l z, SameZone keccak256 U n l z → (p l ↔ q z))
    (hfg : ∀ l z, SameZone keccak256 U n l z → Represents keccak256 U (c.put n (f l)) (g z)) :
    Option.Rel (Represents keccak256 U) (c.onListing n p f) (v.onZone (keccak256 n) q g) := by
  have hl := hr.listing hn
  unfold Catalogue.onListing View.onZone
  cases hc : c.listing n with
  | none =>
    rw [hc] at hl
    cases hv : v.zone (keccak256 n) with
    | none => exact .none
    | some z => rw [hv] at hl; cases hl
  | some l =>
    rw [hc] at hl
    cases hv : v.zone (keccak256 n) with
    | none => rw [hv] at hl; cases hl
    | some z =>
      rw [hv] at hl
      cases hl with
      | some hz =>
        simp only [hpq l z hz]
        split
        · exact .some (hfg l z hz)
        · exact .none

theorem transfer_rel (hr : Represents keccak256 U c v) (hinj : Set.InjOn keccak256 U) (hn : n ∈ U)
    (h0 : sender ≠ .zero) {from_ to_ : Address} :
    Option.Rel (Represents keccak256 U)
      ((if to_ = .zero then none else some (.transfer n from_ to_)).bind (c.ask latest sender))
      (View.transfer sender v from_ to_ (keccak256 n)) := by
  by_cases ht : to_ = .zero
  · -- Refused on both sides, whatever the zone.
    have hnone : View.transfer sender v from_ to_ (keccak256 n) = none := by
      rw [Option.eq_none_iff_forall_ne_some]
      intro w hw
      obtain ⟨z, -, hp, -⟩ := View.onZone_some.1 hw
      exact hp.2.1 ht
    rw [if_pos ht, Option.bind_none, hnone]
    exact .none
  · rw [if_neg ht, Option.bind_some]
    refine onListing_rel hr hn (fun l z hlz => ?_) (fun l z hlz => ?_)
    · rw [hlz.owner, hlz.delegate, account_eq_some h0, hr.trusts]
      simp only [ne_eq, ht, not_false_eq_true, true_and]
    · refine hr.put hinj hn ?_
      exact ⟨rfl, ht, rfl, hlz.name, hlz.documents⟩

/-- A call by hash does what its request does. -/
theorem ask_step (hr : Represents keccak256 U c v) (hinj : Set.InjOn keccak256 U) (hlatest : latest ∈ U)
    (h0 : sender ≠ .zero) (hn : ∀ h, op.zone = some h → n ∈ U ∧ keccak256 n = h) (hU : ∀ x ∈ op.names, x ∈ U) :
    Option.Rel (Represents keccak256 U) ((op.request n).bind (c.ask latest sender))
      (View.step keccak256 sender v op) := by
  cases op with
  | claimZone zoneName =>
    have hz : zoneName ∈ U := hU _ List.mem_cons_self
    have hl := hr.listing hz
    have hnone : c.listing zoneName = none ↔ v.zone (keccak256 zoneName) = none := by
      generalize c.listing zoneName = x at hl
      generalize v.zone (keccak256 zoneName) = y at hl
      cases hl <;> simp
    simp only [Op.request, Option.bind_some, Catalogue.ask, View.step, View.claimZone, Option.isNone_iff_eq_none,
      hnone, ne_eq, h0, not_false_eq_true, true_and]
    split
    · refine .some (hr.put hinj hz ⟨rfl, h0, by simp [account], rfl, ?_⟩)
      intro key r _
      simp [document]
    · exact .none
  | updateAgreement h key revisionName value =>
    obtain ⟨hz, rfl⟩ := hn h rfl
    have hrev : revisionName ∈ U := hU _ List.mem_cons_self
    have hl : revisionName = latest ↔ keccak256 revisionName = keccak256 latest :=
      ⟨fun he => by rw [he], fun he => hinj hrev hlatest he⟩
    refine onListing_rel hr hz (fun l z hz => ?_) (fun l z hlz => ?_)
    · rw [hz.owner, hl, hz.documents key revisionName hrev, document_eq_none]
    · refine hr.put hinj hz ?_
      refine ⟨hlz.owner, hlz.owned, hlz.delegate, hlz.name, fun k => ?_⟩
      by_cases hk : k = key
      · subst hk
        simp only [Function.update_self]
        exact (hlz.documents k).update hinj hrev rfl
      · simp only [Function.update_of_ne hk]
        exact hlz.documents k
  | erc721 op =>
    cases op with
    | setApprovalForAll operator b =>
      simp only [Op.request, Option.bind_some, Catalogue.ask, View.step, View.setApprovalForAll, hr.trusts]
      split
      · exact .some ⟨rfl, hr.listed, hr.named⟩
      · exact .none
    | approve to_ h =>
      obtain ⟨hz, rfl⟩ := hn h rfl
      refine onListing_rel hr hz (fun l z hlz => ?_) (fun l z hlz => ?_)
      · rw [hlz.owner, hr.trusts, ne_eq, ne_eq, account_eq_some hlz.owned]
      · refine hr.put hinj hz ?_
        exact ⟨hlz.owner, hlz.owned, rfl, hlz.name, hlz.documents⟩
    | transferFrom from_ to_ h | safeTransferFrom from_ to_ h | safeTransferFromData from_ to_ h =>
      obtain ⟨hz, rfl⟩ := hn h rfl
      exact transfer_rel hr hinj hz h0

/-! ## Requests and calls by id -/

theorem Op.withZone_withZone (op : Op) (h id : Uint256) : (op.withZone h).withZone id = op.withZone id := by
  cases op with
  | claimZone | updateAgreement => rfl
  | erc721 op => cases op <;> rfl

theorem Op.request_withZone (op : Op) (h : Uint256) (n : Bytes) : (op.withZone h).request n = op.request n := by
  cases op with
  | claimZone | updateAgreement => rfl
  | erc721 op => cases op <;> rfl

theorem Op.names_withZone (op : Op) (h : Uint256) : (op.withZone h).names = op.names := by
  cases op <;> rfl

namespace Registry
variable {L : Layer} {s s' : Storage L} {events : List Event}

/-- The request a call makes in `s`: about the zone with the id it names, if there is one. -/
def request (s : Storage L) (op : Op) : Option (Request Address Bytes Bytes32 Bytes) :=
  match op.zone with
  | none => op.request []
  | some id => if (tokens s)._owners id = .zero then none else op.request (nameOf s id)

/-- The hash to name the zone by, where a call names it by id. -/
def byHashOf (keccak256 : Bytes → Bytes32) (s : Storage L) (op : Op) : Op :=
  match op.zone with
  | none => op
  | some id => op.withZone (keccak256 (nameOf s id))

/-- A call on a zone by its id is the call by its hash. -/
theorem byHash_byHashOf (hi : (zones s).Inv keccak256)
    (hz : ∀ id, op.zone = some id → (tokens s)._owners id ≠ .zero) :
    (byHash keccak256 L).body sender (byHashOf keccak256 s op) s = (contract keccak256 L).body sender op s := by
  have hres : resolve s (byHashOf keccak256 s op) = .ok op := by
    unfold byHashOf
    cases hop : op.zone with
    | none => simp only [resolve, hop]
    | some id =>
      have hx : (zones s).index (keccak256 (nameOf s id)) = some id :=
        hi.index_iff.2 ⟨by simpa using hz id hop, by simp⟩
      simp only [resolve, Op.zone_withZone hop, zoneID_ok hx]
      exact congrArg Except.ok ((op.withZone_withZone _ _).trans (Op.withZone_self hop))
  simp only [byHash, hres]
  rfl

/-- What `ask_step` needs to know of the call by hash. -/
theorem byHashOf_named (hi : (zones s).Inv keccak256) (hr : Represents keccak256 U c (view s))
    (hz : ∀ id, op.zone = some id → (tokens s)._owners id ≠ .zero) :
    ∃ n, (byHashOf keccak256 s op).request n = request s op ∧
      (∀ h, (byHashOf keccak256 s op).zone = some h → n ∈ U ∧ keccak256 n = h) ∧
      (byHashOf keccak256 s op).names = op.names := by
  unfold byHashOf request
  cases hop : op.zone with
  | none =>
    refine ⟨[], rfl, fun h hh => ?_, rfl⟩
    simp only [hop] at hh
    cases hh
  | some id =>
    have hx : (zones s).index (keccak256 (nameOf s id)) = some id :=
      hi.index_iff.2 ⟨by simpa using hz id hop, by simp⟩
    refine ⟨nameOf s id, ?_, fun h hh => ?_, op.names_withZone _⟩
    · simp only [op.request_withZone, if_neg (hz id hop)]
    · simp only [Op.zone_withZone hop, Option.some.injEq] at hh
      have hn := hr.named _ _ (Zones.view_zone hx)
      rw [Zones.read, zones_names] at hn
      exact ⟨hn.1, hh⟩

/-- A call by hash that goes through is a request the catalogue grants. -/
theorem byHash_ask (hg : Good keccak256 s) (hr : Represents keccak256 U c (view s)) (hinj : Set.InjOn keccak256 U)
    (hlatest : latest ∈ U) (h0 : sender ≠ .zero) (hn : ∀ h, op.zone = some h → n ∈ U ∧ keccak256 n = h)
    (hU : ∀ x ∈ op.names, x ∈ U) (hb : (byHash keccak256 L).body sender op s = .ok (s', events)) :
    Good keccak256 s' ∧
      ∃ c', (op.request n).bind (c.ask latest sender) = some c' ∧ Represents keccak256 U c' (view s') := by
  obtain ⟨hg', hstep⟩ := byHash_step hg hb
  have hrel := ask_step hr hinj hlatest h0 hn hU
  rw [hstep] at hrel
  generalize (op.request n).bind (c.ask latest sender) = x at hrel
  cases hrel with
  | some h => exact ⟨hg', _, rfl, h⟩

/-- A request the catalogue grants is a call by hash that goes through. -/
theorem ask_byHash (hg : Good keccak256 s) (hr : Represents keccak256 U c (view s)) (hinj : Set.InjOn keccak256 U)
    (hlatest : latest ∈ U) (h0 : sender ≠ .zero) (hn : ∀ h, op.zone = some h → n ∈ U ∧ keccak256 n = h)
    (hU : ∀ x ∈ op.names, x ∈ U) (hroom : op.isClaim = true → HasRoom s)
    (hask : ((op.request n).bind (c.ask latest sender)).isSome = true) :
    ∃ r, (byHash keccak256 L).body sender op s = .ok r := by
  have hrel := ask_step hr hinj hlatest h0 hn hU
  obtain ⟨c', hc'⟩ := Option.isSome_iff_exists.1 hask
  rw [hc'] at hrel
  generalize hv : View.step keccak256 sender (view s) op = x at hrel
  cases hrel with
  | some h => exact byHash_succeeds hg hroom hv

/-- A call in effect is a request the catalogue grants. -/
theorem body_ask (hg : Good keccak256 s) (hr : Represents keccak256 U c (view s)) (hinj : Set.InjOn keccak256 U)
    (hlatest : latest ∈ U) (h0 : sender ≠ .zero) (hU : ∀ x ∈ op.names, x ∈ U)
    (hb : (contract keccak256 L).body sender op s = .ok (s', events)) :
    Good keccak256 s' ∧
      ∃ c', (request s op).bind (c.ask latest sender) = some c' ∧ Represents keccak256 U c' (view s') := by
  have hz : ∀ id, op.zone = some id → (tokens s)._owners id ≠ .zero := by
    intro id hid
    simpa using (body_effect hb).zone_exists hid
  obtain ⟨n, hreq, hn, hnames⟩ := byHashOf_named hg.inv hr hz
  rw [← byHash_byHashOf hg.inv hz] at hb
  rw [← hreq]
  exact byHash_ask hg hr hinj hlatest h0 hn (by rwa [hnames]) hb

/-- A request the catalogue grants is a call that succeeds. -/
theorem ask_succeeds (hg : Good keccak256 s) (hr : Represents keccak256 U c (view s)) (hinj : Set.InjOn keccak256 U)
    (hlatest : latest ∈ U) (h0 : sender ≠ .zero) (hU : ∀ x ∈ op.names, x ∈ U) (hroom : HasRoom s)
    (hask : ((request s op).bind (c.ask latest sender)).isSome = true) : Succeeds keccak256 s sender op := by
  have hz : ∀ id, op.zone = some id → (tokens s)._owners id ≠ .zero := by
    intro id hid hzero
    simp [request, hid, hzero] at hask
  obtain ⟨n, hreq, hn, hnames⟩ := byHashOf_named hg.inv hr hz
  rw [← hreq] at hask
  obtain ⟨r, hb⟩ := ask_byHash hg hr hinj hlatest h0 hn (by rwa [hnames]) (fun _ => hroom) hask
  rw [byHash_byHashOf hg.inv hz] at hb
  exact ⟨r, hb⟩

/-! ## Runs -/

/-- The catalogue after the requests of the calls in effect, if it grants them all. -/
def granted (c : Catalogue Address Bytes Bytes32 Bytes) (es : List (Entry L)) :
    Option (Catalogue Address Bytes Bytes32 Bytes) :=
  es.foldlM (fun c e => (request e.before e.op).bind (c.ask latest e.sender)) c

theorem trace_granted {s₀ : Storage L} {es : List (Entry L)} (h : Trace (contract keccak256 L) s₀ es s)
    (hg : Good keccak256 s₀) (hr : Represents keccak256 U c (view s₀)) (hinj : Set.InjOn keccak256 U)
    (hlatest : latest ∈ U) (hes : ∀ e ∈ es, e.sender ≠ .zero ∧ ∀ x ∈ e.op.names, x ∈ U) :
    Good keccak256 s ∧ ∃ c', granted c es = some c' ∧ Represents keccak256 U c' (view s) := by
  induction h with
  | nil => exact ⟨hg, c, rfl, hr⟩
  | @snoc es s a op s' evs _ hb ih =>
    obtain ⟨hg, c₁, hc, hr⟩ := ih fun e he => hes e (List.mem_append_left _ he)
    obtain ⟨h0, hU⟩ := hes ⟨a, op, s, s', evs⟩ (List.mem_append_right _ List.mem_cons_self)
    obtain ⟨hg', c₂, hask, hr'⟩ := body_ask hg hr hinj hlatest h0 hU hb
    refine ⟨hg', c₂, ?_, hr'⟩
    unfold granted at hc ⊢
    rw [List.foldlM_append, hc]
    simp only [List.foldlM_cons, List.foldlM_nil, Option.bind_eq_bind, Option.bind_some, hask, Option.pure_def]

theorem init_represents : Represents keccak256 U .empty (view (contract keccak256 L).init) := by
  rw [view, init_zones]
  exact represents_empty

/-! ## Reads -/

/-- A name is listed exactly if its hash is claimed. -/
theorem listing_some (hr : Represents keccak256 U c (view s)) (hn : n ∈ U) {l : Listing Address Bytes Bytes32 Bytes}
    (hl : c.listing n = some l) : ∃ id, (zones s).index (keccak256 n) = some id ∧
      SameZone keccak256 U n l ((zones s).read id) := by
  have hrel := hr.listing hn
  rw [hl] at hrel
  generalize hv : (view s).zone (keccak256 n) = x at hrel
  cases hrel with
  | some h =>
    obtain ⟨id, hx, rfl⟩ := zone_some hv
    exact ⟨id, hx, h⟩

theorem listing_of_index (hr : Represents keccak256 U c (view s)) (hn : n ∈ U) {id : Uint256}
    (hx : (zones s).index (keccak256 n) = some id) : ∃ l, c.listing n = some l := by
  have hrel := hr.listing hn
  rw [view, Zones.view_zone hx] at hrel
  generalize c.listing n = x at hrel
  cases hrel with
  | some h => exact ⟨_, rfl⟩

theorem zoneOwner_listing (hr : Represents keccak256 U c (view s)) (hn : n ∈ U) {owner : Address} :
    zoneOwner s (keccak256 n) = .ok owner ↔ ∃ l, c.listing n = some l ∧ l.owner = owner := by
  rw [zoneOwner_ok]
  constructor
  · rintro ⟨id, hx, ho⟩
    obtain ⟨l, hl⟩ := listing_of_index hr hn hx
    obtain ⟨id', hx', hz⟩ := listing_some hr hn hl
    rw [hx] at hx'
    cases hx'
    refine ⟨l, hl, hz.owner.trans ?_⟩
    simpa [Zones.read] using (ERC721.ownerOf_ok.1 ho).2
  · rintro ⟨l, hl, rfl⟩
    obtain ⟨id, hx, hz⟩ := listing_some hr hn hl
    have ho := hz.owned
    refine ⟨id, hx, ERC721.ownerOf_ok.2 ?_⟩
    rw [hz.owner]
    simpa [Zones.read] using ho

/-- What is read by hash of a listed zone. -/
theorem reads_listing (hr : Represents keccak256 U c (view s)) (hn : n ∈ U)
    {l : Listing Address Bytes Bytes32 Bytes} (hl : c.listing n = some l) :
    name s (keccak256 n) = .ok n ∧
      (∃ id a, zoneID s (keccak256 n) = .ok id ∧ (tokens s).getApproved id = .ok a ∧ account a = l.delegate) ∧
      ∀ key, ∀ r ∈ U, ∃ value, zoneAgreement s (keccak256 n) key (keccak256 r) = .ok value ∧
        document value = l.documents key r := by
  obtain ⟨id, hx, hz⟩ := listing_some hr hn hl
  have ho : (tokens s)._owners id ≠ .zero := by simpa [Zones.read] using hz.owned
  refine ⟨?_, ⟨id, _, zoneID_ok hx, ERC721.getApproved_ok.2 ⟨ho, rfl⟩, ?_⟩, fun key r hrU => ?_⟩
  · rw [name_ok hx]
    simpa [Zones.read] using hz.name
  · rw [hz.delegate]
    simp [Zones.read]
  · refine ⟨_, zoneAgreement_ok hx, ?_⟩
    rw [hz.documents key r hrU]
    simp [Zones.read]

/-- On names of `U`, which the hash tells apart, and with no call from the zero address: in every run the calls in
effect are requests that the catalogue grants one after the other; what is then read by hash is what it lists by
name; and while L2 has ids left, the next call succeeds exactly if the catalogue grants its request and, where it
hands over to a recipient, that acknowledges. -/
theorem keeps_catalogue (keccak256 : Bytes → Bytes32) (L : Layer) (steps : List Step) (U : Set Bytes)
    (hinj : Set.InjOn keccak256 U) (hlatest : latest ∈ U)
    (hsteps : ∀ a op code, .call a op code ∈ steps → a ≠ .zero ∧ ∀ x ∈ op.names, x ∈ U) :
    let w := reached keccak256 L steps
    ∃ c, granted .empty w.journal = some c ∧
      c.trusts = (tokens w.storage).isApprovedForAll ∧
      (∀ n ∈ U, (∀ owner, zoneOwner w.storage (keccak256 n) = .ok owner ↔
          ∃ l, c.listing n = some l ∧ l.owner = owner) ∧
        ∀ l, c.listing n = some l → name w.storage (keccak256 n) = .ok n ∧
          (∃ id a, zoneID w.storage (keccak256 n) = .ok id ∧ (tokens w.storage).getApproved id = .ok a ∧
            account a = l.delegate) ∧
          ∀ key, ∀ r ∈ U, ∃ value, zoneAgreement w.storage (keccak256 n) key (keccak256 r) = .ok value ∧
            document value = l.documents key r) ∧
      ∀ sender op answer, sender ≠ .zero → (∀ x ∈ op.names, x ∈ U) → Room w →
        ((∃ r, outcome (contract keccak256 L) sender op w.storage answer = .ok r) ↔
          ((request w.storage op).bind (c.ask latest sender)).isSome = true ∧
            (op.hook.isSome = true → ERC721.acknowledged answer = true)) := by
  intro w
  have hes : ∀ e ∈ w.journal, e.sender ≠ .zero ∧ ∀ x ∈ e.op.names, x ∈ U := by
    intro e he
    obtain ⟨code, hstep⟩ := Calls.run_calls _ _ e he
    exact hsteps _ _ _ hstep
  obtain ⟨hg, c, hc, hr⟩ := trace_granted (reached_trace steps) init_good init_represents hinj hlatest hes
  refine ⟨c, hc, ?_, fun n hn => ⟨fun owner => zoneOwner_listing hr hn, fun l hl => reads_listing hr hn hl⟩, ?_⟩
  · rw [hr.trusts]
    simp only [view, Zones.view, zones_tokens]
    rfl
  · intro sender op answer h0 hU hroom
    rw [outcome_ok]
    refine and_congr_left fun _ => ?_
    constructor
    · rintro ⟨⟨s', events⟩, hb⟩
      obtain ⟨-, c', hask, -⟩ := body_ask hg hr hinj hlatest h0 hU hb
      rw [hask, Option.isSome_some]
    · intro hask
      exact ask_succeeds hg hr hinj hlatest h0 hU (hasRoom_of_room hroom) hask

/-- A zone claimed, and a document published in it. -/
theorem keeps_catalogue_sample :
    let steps : List Step := [.call 1 (.claimZone zoneSample) false,
      .call 1 (.updateAgreement 0 (keccakSample keySample) v1Sample [0x51]) false]
    ∃ c, granted .empty (reached keccakSample .l2 steps).journal = some c ∧
      ∃ l, c.listing zoneSample = some l ∧ l.owner = 1 ∧
        l.documents (keccakSample keySample) v1Sample = some [0x51] := by
  intro steps
  have hinj : Set.InjOn keccakSample {x | x ∈ [latest, zoneSample, v1Sample]} :=
    fun x hx y hy h => (by decide : NoCollision keccakSample [latest, zoneSample, v1Sample]) x hx y hy h
  have hsteps : ∀ a op code, Calls.Step.call a op code ∈ steps →
      a ≠ .zero ∧ ∀ x ∈ op.names, x ∈ {x | x ∈ [latest, zoneSample, v1Sample]} := by
    intro a op code hst
    simp only [steps, List.mem_cons, List.not_mem_nil, or_false] at hst
    rcases hst with hst | hst <;> cases hst <;> exact ⟨by decide, by simp [Op.names]⟩
  obtain ⟨c, hc, -, hread, -⟩ := keeps_catalogue keccakSample .l2 steps _ hinj (by simp) hsteps
  obtain ⟨howner, hlisted⟩ := hread zoneSample (by simp)
  obtain ⟨l, hl, ho⟩ := (howner 1).1 (by decide)
  obtain ⟨-, -, hdocs⟩ := hlisted l hl
  obtain ⟨value, hv, hd⟩ := hdocs (keccakSample keySample) v1Sample (by simp)
  cases (hv.symm.trans (by decide) : Except.ok value = Except.ok [0x51])
  exact ⟨c, hc, l, hl, ho, hd.symm⟩

end Registry

end LawRegistry
