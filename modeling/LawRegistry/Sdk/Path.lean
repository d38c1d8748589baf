import Mathlib.Data.List.Basic
import LawRegistry.Lib.Regex
import LawRegistry.Sdk.Packages
/-!
# Paths

`resolvePath`, run by the regular expression it is written with.
-/

namespace LawRegistry.Sdk

open Regex (Pattern State Matches)

/-- `[a-z0-9\-]`. -/
def isNameUnit (c : UInt16) : Bool := (0x61 ≤ c && c ≤ 0x7a) || (0x30 ≤ c && c ≤ 0x39) || c == 0x2d

/-- `[a-z0-9\-\._]`. -/
def isRevisionUnit (c : UInt16) : Bool := isNameUnit c || c == 0x2e || c == 0x5f

/-- `([a-z0-9\-]{1,32})` as group `n`, and the like. -/
def word (n : Nat) (p : UInt16 → Bool) : Pattern UInt16 := .group n (.rep (.char p) 1 32)

/-- `^([a-z0-9\-]{1,32})\/([a-z0-9\-]{1,32})(?:@([a-z0-9\-\._]{1,32})){0,1}$`. -/
def regex : Pattern UInt16 :=
  .seq .first <| .seq (word 1 isNameUnit) <| .seq (.char (· == 0x2f)) <| .seq (word 2 isNameUnit) <|
    .seq (.rep (.seq (.char (· == 0x40)) (word 3 isRevisionUnit)) 0 1) .last

/-- The text `"latest"`. -/
def latestText : JSString := literal ['l', 'a', 't', 'e', 's', 't']

/-- Zone, agreement and revision of a path. Groups 1 and 2 take part in every match. -/
def resolvePath (path : JSString) : Option (JSString × JSString × JSString) := do
  let result ← regex.exec path
  let zone ← result.caps 1
  let agreement ← result.caps 2
  let revision := (result.caps 3).getD latestText
  return (zone, agreement, revision)

/-! ## What a path resolves to -/

/-- One to 32 characters of a class. -/
def IsWord (p : UInt16 → Bool) (s : JSString) : Prop := 1 ≤ s.length ∧ s.length ≤ 32 ∧ ∀ c ∈ s, p c = true

theorem latestText_isWord : IsWord isRevisionUnit latestText := ⟨by decide, by decide, List.all_eq_true.1 rfl⟩

/-- The text a path resolves from. -/
structure Parts (path z a r : JSString) : Prop where
  zone : IsWord isNameUnit z
  agreement : IsWord isNameUnit a
  revision : IsWord isRevisionUnit r
  text : path = z ++ 0x2f :: (a ++ 0x40 :: r) ∨ (path = z ++ 0x2f :: a ∧ r = latestText)

theorem matches_word {n : Nat} {p : UInt16 → Bool} {x y : State UInt16} (h : Matches (word n p) x y) :
    ∃ s, IsWord p s ∧ x.rest = s ++ y.rest ∧ y.caps = Function.update x.caps n (some s) := by
  obtain ⟨s, hs, hcaps, hlo, hhi, hall⟩ := h.group_word (by decide)
  exact ⟨s, ⟨hlo, hhi, hall⟩, hs, hcaps⟩

theorem matches_unit {u : UInt16} {x y : State UInt16} (h : Matches (.char (· == u)) x y) :
    x.rest = u :: y.rest ∧ y.caps = x.caps := by
  cases h with
  | char hr hu =>
    rw [beq_iff_eq] at hu
    exact ⟨hu ▸ hr, rfl⟩

/-- The optional revision. -/
theorem matches_revision {x y : State UInt16} (h3 : x.caps 3 = none)
    (h : Matches (.rep (.seq (.char (· == 0x40)) (word 3 isRevisionUnit)) 0 1) x y) :
    y.caps 1 = x.caps 1 ∧ y.caps 2 = x.caps 2 ∧ ((x.rest = y.rest ∧ y.caps 3 = none) ∨
      ∃ r, IsWord isRevisionUnit r ∧ x.rest = 0x40 :: (r ++ y.rest) ∧ y.caps 3 = some r) := by
  cases h with
  | repStop => exact ⟨rfl, rfl, .inl ⟨rfl, h3⟩⟩
  | @repMore _ _ _ _ w _ hbody hrest =>
    have hy : y = w := by cases hrest <;> rfl
    subst hy
    cases hbody with
    | seq hat hword =>
      obtain ⟨hrat, hcat⟩ := matches_unit hat
      obtain ⟨r, hr, hrest, hcaps⟩ := matches_word hword
      rw [hcat] at hcaps
      refine ⟨by simp [hcaps, State.reset, Pattern.groups, word], by simp [hcaps, State.reset, Pattern.groups, word],
        .inr ⟨r, hr, ?_, by simp [hcaps]⟩⟩
      rw [← hrest]
      exact hrat

/-- What the pattern matches, and what it captures. -/
theorem regex_matches {x y : State UInt16} (h3 : x.caps 3 = none) (h : Matches regex x y) :
    x.pos = 0 ∧ ∃ z a, IsWord isNameUnit z ∧ IsWord isNameUnit a ∧ y.caps 1 = some z ∧ y.caps 2 = some a ∧
      ((x.rest = z ++ 0x2f :: a ∧ y.caps 3 = none) ∨
        ∃ r, IsWord isRevisionUnit r ∧ x.rest = z ++ 0x2f :: (a ++ 0x40 :: r) ∧ y.caps 3 = some r) := by
  cases h with | seq hfirst h =>
  cases hfirst with | first h0 =>
  cases h with | seq hz h =>
  cases h with | seq hslash h =>
  cases h with | seq ha h =>
  cases h with | seq hr hlast =>
  cases hlast with | last hend =>
  obtain ⟨z, hz, hrest1, hcaps1⟩ := matches_word hz
  obtain ⟨hrest2, hcaps2⟩ := matches_unit hslash
  obtain ⟨a, ha, hrest3, hcaps3⟩ := matches_word ha
  rw [hcaps2, hcaps1] at hcaps3
  obtain ⟨hcap1, hcap2, hr⟩ := matches_revision (by simp [hcaps3, h3]) hr
  refine ⟨h0, z, a, hz, ha, by simp [hcap1, hcaps3], by simp [hcap2, hcaps3], ?_⟩
  rw [hrest1, hrest2, hrest3]
  rcases hr with ⟨hrest4, hcap3⟩ | ⟨r, hr, hrest4, hcap3⟩
  · exact .inl ⟨by rw [hrest4, hend, List.append_nil], hcap3⟩
  · exact .inr ⟨r, hr, by rw [hrest4, hend, List.append_nil], hcap3⟩

/-- A path resolves to the words it is made of, and without a revision to `latest`. -/
theorem resolvePath_parts {path zone agreement revision : JSString}
    (h : resolvePath path = some (zone, agreement, revision)) : Parts path zone agreement revision := by
  simp only [resolvePath, Option.bind_eq_bind, Option.bind_eq_some_iff, Option.pure_def, Option.some.injEq,
    Prod.mk.injEq] at h
  obtain ⟨y, hy, z, hz, a, ha, rfl, rfl, rfl⟩ := h
  obtain ⟨i, hm⟩ := Pattern.exec_sound hy
  obtain ⟨hi, z', a', hzone, hagreement, hz', ha', hr⟩ := regex_matches rfl hm
  rw [hz] at hz'
  rw [ha] at ha'
  cases hz'
  cases ha'
  dsimp only at hi hr
  subst hi
  rw [List.drop_zero] at hr
  rcases hr with ⟨ht, hnone⟩ | ⟨r, hrev, ht, hsome⟩
  · rw [hnone, Option.getD_none]
    exact ⟨hzone, hagreement, latestText_isWord, .inr ⟨ht, rfl⟩⟩
  · rw [hsome, Option.getD_some]
    exact ⟨hzone, hagreement, hrev, .inl ht⟩

/-! ## The words of a path are ASCII, and their hex digits small -/

theorem isRevisionUnit_toNat {c : UInt16} (h : isRevisionUnit c = true) :
    (97 ≤ c.toNat ∧ c.toNat ≤ 122) ∨ (48 ≤ c.toNat ∧ c.toNat ≤ 57) ∨ c.toNat = 45 ∨ c.toNat = 46 ∨ c.toNat = 95 := by
  simp only [isRevisionUnit, isNameUnit, Bool.or_eq_true, Bool.and_eq_true, decide_eq_true_eq, beq_iff_eq,
    UInt16.le_iff_toNat_le, ← UInt16.toNat_inj, UInt16.reduceToNat] at h
  omega

theorem IsWord.revision {s : JSString} (h : IsWord isNameUnit s) : IsWord isRevisionUnit s :=
  ⟨h.1, h.2.1, fun c hc => by simp [isRevisionUnit, h.2.2 c hc]⟩

theorem IsWord.ascii {s : JSString} (h : IsWord isRevisionUnit s) : IsAscii s := by
  intro c hc
  have hn := isRevisionUnit_toNat (h.2.2 c hc)
  have h80 : c < 0x80 ↔ c.toNat < 128 := UInt16.lt_iff_toNat_lt
  rw [h80]
  omega

theorem isLowerDigit_of_unit {c : UInt16} (h : isRevisionUnit c = true) (hx : isHexDigit c = true) :
    isLowerDigit c = true := by
  have hn := isRevisionUnit_toNat h
  simp only [isHexDigit, Bool.or_eq_true, Bool.and_eq_true, decide_eq_true_eq, UInt16.le_iff_toNat_le,
    UInt16.reduceToNat] at hx
  rw [isLowerDigit_iff]
  omega

/-- The only word the package reads as the bytes of `latest`. -/
theorem IsWord.hexBytes_latest {s : JSString} (h : IsWord isRevisionUnit s) (hx : isHexString s = true) :
    hexBytes s = latest ↔ s = latestHex := by
  refine Sdk.hexBytes_latest hx fun c hc => isLowerDigit_of_unit (h.2.2 c (List.mem_of_mem_drop hc)) ?_
  match s with
  | [] | [_] => simp [isHexString] at hx
  | a :: b :: digits =>
    simp only [isHexString, Bool.and_eq_true, List.all_eq_true] at hx
    exact hx.2 c hc

/-! ## The grammar of paths -/

section Grammar
variable {p q z a r z' a' r' : JSString}

theorem IsWord.slash_notMem {s : JSString} (h : IsWord isRevisionUnit s) : (0x2f : UInt16) ∉ s := by
  intro hm
  exact absurd (h.2.2 _ hm) (by decide)

theorem IsWord.at_notMem {s : JSString} (h : IsWord isRevisionUnit s) : (0x40 : UInt16) ∉ s := by
  intro hm
  exact absurd (h.2.2 _ hm) (by decide)

theorem matches_of_word {n : Nat} {c : UInt16 → Bool} {s : JSString} (h : IsWord c s) {x : State UInt16}
    {rest : JSString} (hx : x.rest = s ++ rest) :
    ∃ y, Matches (word n c) x y ∧ y.rest = rest :=
  ⟨_, Matches.of_group_word h.1 h.2.1 h.2.2 hx, rfl⟩

theorem matches_of_unit {u : UInt16} {x : State UInt16} {rest : JSString} (hx : x.rest = u :: rest) :
    ∃ y, Matches (.char (· == u)) x y ∧ y.rest = rest :=
  ⟨_, .char hx (beq_self_eq_true u), rfl⟩

/-- Whatever is made of the right parts is matched. -/
theorem Parts.matches (h : Parts p z a r) : ∃ y, Matches regex ⟨0, p, fun _ => none⟩ y := by
  obtain ⟨tail, htail, hp⟩ : ∃ tail, (tail = 0x40 :: r ∨ tail = []) ∧ p = z ++ 0x2f :: (a ++ tail) := by
    rcases h.text with hp | ⟨hp, -⟩
    · exact ⟨_, .inl rfl, hp⟩
    · exact ⟨[], .inr rfl, by rw [List.append_nil]; exact hp⟩
  obtain ⟨x₁, hz, hx₁⟩ := matches_of_word (n := 1) h.zone (x := ⟨0, p, fun _ => none⟩) hp
  obtain ⟨x₂, hslash, hx₂⟩ := matches_of_unit hx₁
  obtain ⟨x₃, ha, hx₃⟩ := matches_of_word (n := 2) h.agreement hx₂
  have hrev : ∃ x₄, Matches (.rep (.seq (.char (· == 0x40)) (word 3 isRevisionUnit)) 0 1) x₃ x₄ ∧ x₄.rest = [] := by
    rcases htail with rfl | rfl
    · obtain ⟨y, hat, hy⟩ := matches_of_unit (x := x₃.reset _) hx₃
      obtain ⟨w, hr, hw⟩ := matches_of_word (n := 3) h.revision (hy.trans (List.append_nil r).symm)
      exact ⟨w, .repMore (.seq hat hr) .repDone, hw⟩
    · exact ⟨x₃, .repStop, hx₃⟩
  obtain ⟨x₄, hrev, hx₄⟩ := hrev
  exact ⟨x₄, .seq (.first rfl) (.seq hz (.seq hslash (.seq ha (.seq hrev (.last hx₄)))))⟩

/-- What follows the first slash of a path. -/
theorem Parts.tail (h : Parts p z a r) :
    ∃ t, p = z ++ 0x2f :: t ∧ (0x2f : UInt16) ∉ t ∧ (t = a ++ 0x40 :: r ∨ (t = a ∧ r = latestText)) := by
  rcases h.text with hp | ⟨hp, hr⟩
  · refine ⟨_, hp, ?_, .inl rfl⟩
    intro hm
    rcases List.mem_append.1 hm with hm | hm
    · exact h.agreement.revision.slash_notMem hm
    · rcases List.mem_cons.1 hm with hm | hm
      · exact absurd hm (by decide)
      · exact h.revision.slash_notMem hm
  · exact ⟨a, hp, h.agreement.revision.slash_notMem, .inr ⟨rfl, hr⟩⟩

/-- A path has one first slash. -/
theorem Parts.split_slash (h : Parts p z a r) {t t' : JSString} (ht : (0x2f : UInt16) ∉ t) (hp : p = z ++ 0x2f :: t)
    (hp' : p = z' ++ 0x2f :: t') : z = z' ∧ t = t' := by
  obtain ⟨hz, -, ht⟩ := (List.append_cons_inj_of_notMem h.zone.revision.slash_notMem ht).1 (hp.symm.trans hp')
  exact ⟨hz, ht⟩

/-- Whether there is an `@` tells if there is a revision, and which. -/
theorem Parts.split_at (h : Parts p z a r) {s s' : JSString} (he : a ++ 0x40 :: r = s ++ 0x40 :: s') :
    a = s ∧ r = s' := by
  obtain ⟨ha, -, hr⟩ :=
    (List.append_cons_inj_of_notMem h.agreement.revision.at_notMem h.revision.at_notMem).1 he
  exact ⟨ha, hr⟩

theorem Parts.agreement_ne (h : Parts p z a r) (s s' : JSString) : a ≠ s ++ 0x40 :: s' := by
  intro he
  apply h.agreement.revision.at_notMem
  rw [he]
  exact List.mem_append_right s List.mem_cons_self

/-- A path has one reading. -/
theorem Parts.unique (h : Parts p z a r) (h' : Parts p z' a' r') : z = z' ∧ a = a' ∧ r = r' := by
  obtain ⟨t, hp, hslash, ht⟩ := h.tail
  obtain ⟨t', hp', -, ht'⟩ := h'.tail
  obtain ⟨hz, htail⟩ := h.split_slash hslash hp hp'
  subst htail
  refine ⟨hz, ?_⟩
  rcases ht with ht | ⟨ht, hr⟩ <;> rcases ht' with ht' | ⟨ht', hr'⟩
  · exact h.split_at (ht.symm.trans ht')
  · exact absurd (ht'.symm.trans ht) (h'.agreement_ne a r)
  · exact absurd (ht.symm.trans ht') (h.agreement_ne a' r')
  · exact ⟨ht.symm.trans ht', hr.trans hr'.symm⟩

theorem resolvePath_isSome (h : Parts p z a r) : (resolvePath p).isSome := by
  obtain ⟨y, hy⟩ := h.matches
  obtain ⟨w, hw⟩ := Option.isSome_iff_exists.1 (Pattern.exec_complete rfl hy)
  obtain ⟨i, hm⟩ := Pattern.exec_sound hw
  obtain ⟨-, z', a', -, -, hz', ha', -⟩ := regex_matches rfl hm
  simp only [resolvePath, hw, hz', ha', Option.bind_eq_bind, Option.bind_some, Option.pure_def, Option.isSome_some]

/-- A path resolves exactly to its parts. -/
theorem resolvePath_iff : resolvePath p = some (z, a, r) ↔ Parts p z a r := by
  constructor
  · exact resolvePath_parts
  · intro h
    obtain ⟨⟨z', a', r'⟩, hs⟩ := Option.isSome_iff_exists.1 (resolvePath_isSome h)
    obtain ⟨rfl, rfl, rfl⟩ := h.unique (resolvePath_parts hs)
    exact hs

/-- The parts put together again. -/
theorem Parts.format (h : Parts p z a r) : Parts (z ++ 0x2f :: (a ++ 0x40 :: r)) z a r :=
  ⟨h.zone, h.agreement, h.revision, .inl rfl⟩

/-- Two paths with the same parts are one path, or differ in an `@latest` at the end. -/
theorem Parts.text_eq (h : Parts p z a r) (h' : Parts q z a r) :
    p = q ∨ p = q ++ 0x40 :: latestText ∨ q = p ++ 0x40 :: latestText := by
  rcases h.text with hp | ⟨hp, hr⟩ <;> rcases h'.text with hq | ⟨hq, hr'⟩
  · exact .inl (hp.trans hq.symm)
  · refine .inr (.inl ?_)
    rw [hp, hq, hr', List.append_assoc, List.cons_append]
  · refine .inr (.inr ?_)
    rw [hp, hq, hr, List.append_assoc, List.cons_append]
  · exact .inl (hp.trans hq.symm)

/-- With `@latest` appended, a path still resolves only if it names no revision, and then to the same. -/
theorem Parts.append_latest (h : Parts p z a r) (h' : Parts (p ++ 0x40 :: latestText) z' a' r') :
    z = z' ∧ a = a' ∧ r = r' := by
  rcases h.text with hp | ⟨hp, rfl⟩
  · exfalso
    have hp₂ : p ++ 0x40 :: latestText = z ++ 0x2f :: (a ++ 0x40 :: (r ++ 0x40 :: latestText)) := by
      simp only [hp, List.append_assoc, List.cons_append]
    obtain ⟨t', hp', hslash, ht'⟩ := h'.tail
    obtain ⟨-, htail⟩ := h'.split_slash hslash hp' hp₂
    rcases ht' with ht' | ⟨ht', -⟩
    · obtain ⟨-, hr⟩ := h'.split_at (ht'.symm.trans htail)
      apply h'.revision.at_notMem
      rw [hr]
      exact List.mem_append_right r List.mem_cons_self
    · exact h'.agreement_ne _ _ (ht'.symm.trans htail)
  · apply Parts.unique (p := p ++ 0x40 :: latestText) ?_ h'
    refine ⟨h.zone, h.agreement, h.revision, .inl ?_⟩
    rw [hp, List.append_assoc, List.cons_append]

/-- Two accepted paths mean the same if they are equal up to an `@latest` at the end. -/
theorem Parts.same_iff (h : Parts p z a r) (h' : Parts q z' a' r') :
    (z = z' ∧ a = a' ∧ r = r') ↔ p = q ∨ p = q ++ 0x40 :: latestText ∨ q = p ++ 0x40 :: latestText := by
  constructor
  · rintro ⟨rfl, rfl, rfl⟩
    apply h.text_eq h'
  · rintro (rfl | rfl | rfl)
    · apply h.unique h'
    · obtain ⟨hz, ha, hr⟩ := h'.append_latest h
      exact ⟨hz.symm, ha.symm, hr.symm⟩
    · apply h.append_latest h'

end Grammar

/-- `resolvePath` accepts the paths of the grammar, and nothing else; it reads each in one way, and
reads what it read back from the formatted path. -/
theorem resolvePath_grammar :
    (∀ p z a r, resolvePath p = some (z, a, r) ↔ Parts p z a r) ∧
    (∀ p, resolvePath p = none ↔ ¬∃ z a r, Parts p z a r) ∧
    (∀ p z a r, resolvePath p = some (z, a, r) → resolvePath (z ++ 0x2f :: (a ++ 0x40 :: r)) = some (z, a, r)) ∧
    ∀ p q t t', resolvePath p = some t → resolvePath q = some t' →
      (t = t' ↔ p = q ∨ p = q ++ 0x40 :: latestText ∨ q = p ++ 0x40 :: latestText) := by
  refine ⟨fun p z a r => resolvePath_iff, fun p => ?_, fun p z a r h => ?_, fun p q t t' h h' => ?_⟩
  · rw [Option.eq_none_iff_forall_ne_some]
    constructor
    · rintro hno ⟨z, a, r, hp⟩
      exact hno _ (resolvePath_iff.2 hp)
    · rintro hno ⟨z, a, r⟩ h
      exact hno ⟨z, a, r, resolvePath_iff.1 h⟩
  · exact resolvePath_iff.2 (resolvePath_iff.1 h).format
  · obtain ⟨z, a, r⟩ := t
    obtain ⟨z', a', r'⟩ := t'
    rw [Prod.mk.injEq, Prod.mk.injEq]
    apply (resolvePath_iff.1 h).same_iff (resolvePath_iff.1 h')

/-- An `@` with nothing after it, and a second slash, are not paths. -/
example : resolvePath (literal ['z', '/', 'a', '@']) = none ∧
    resolvePath (literal ['z', '/', 'a', '/', 'b']) = none := by
  decide

/-! ## The hash of a word -/

namespace Packages
variable {pkgs : Packages} {s : JSString}

theorem hash_text (hw : IsWord isRevisionUnit s) (hx : isHexString s = false) :
    pkgs.hash s = pkgs.keccak256 (asciiBytes s) := by
  rw [hash, pkgs.toBuffer_ascii hx hw.ascii]

theorem hash_hex (hx : isHexString s = true) : pkgs.hash s = pkgs.keccak256 (hexBytes s) := by
  rw [hash, pkgs.toBuffer_hex s hx]

end Packages

end LawRegistry.Sdk
