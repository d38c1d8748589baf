import LawRegistry.Agreements
/-!
# The packages the SDK hashes and encodes with

JavaScript strings are lists of UTF-16 code units. `Packages` is what the SDK uses of the npm
package `keccak256` and of ethers, with what they document as fields. The package `keccak256`
reads some strings as hex; the lemmas here say how far that is from their text.
-/

namespace LawRegistry.Sdk

abbrev JSString := List UInt16

/-- An ASCII literal. -/
def literal (text : List Char) : JSString := text.map fun c => UInt16.ofNat c.toNat

/-- The UTF-8 bytes of an ASCII string. -/
def asciiBytes (s : JSString) : Bytes := s.map UInt16.toUInt8

def IsAscii (s : JSString) : Prop := ∀ c ∈ s, c < 0x80

/-! ## Surrogates -/

def isHighSurrogate (c : UInt16) : Bool := 0xd800 ≤ c && c ≤ 0xdbff

def isLowSurrogate (c : UInt16) : Bool := 0xdc00 ≤ c && c ≤ 0xdfff

/-- Each high surrogate is followed by a low one, and each low one follows a high one. -/
def isWellFormed : JSString → Bool
  | [] => true
  | [c] => !isHighSurrogate c && !isLowSurrogate c
  | c :: d :: s =>
    if isHighSurrogate c then isLowSurrogate d && isWellFormed s else !isLowSurrogate c && isWellFormed (d :: s)

theorem isWellFormed_of_lt {s : JSString} (h : ∀ c ∈ s, c < 0xd800) : isWellFormed s = true := by
  have hunit {c : UInt16} (hc : c < 0xd800) : isHighSurrogate c = false ∧ isLowSurrogate c = false := by
    have hle {a : UInt16} (ha : 0xd800 ≤ a) : ¬a ≤ c := fun hac =>
      UInt16.not_lt.2 (UInt16.le_trans ha hac) hc
    have h1 := hle (a := 0xd800) (by decide)
    have h2 := hle (a := 0xdc00) (by decide)
    simp [isHighSurrogate, isLowSurrogate, h1, h2]
  induction s using isWellFormed.induct with
  | case1 => rfl
  | case2 c =>
    obtain ⟨h1, h2⟩ := hunit (h c (by simp))
    simp [isWellFormed, h1, h2]
  | case3 c d s hc ih =>
    rw [(hunit (h c (by simp))).1] at hc
    cases hc
  | case4 c d s hc ih =>
    rw [isWellFormed, if_neg hc, (hunit (h c (by simp))).2, ih fun x hx => h x (List.mem_cons_of_mem _ hx)]
    rfl

theorem IsAscii.wellFormed {s : JSString} (h : IsAscii s) : isWellFormed s = true := by
  refine isWellFormed_of_lt fun c hc => UInt16.lt_trans (h c hc) ?_
  decide

/-! ## Hex strings -/

def isHexDigit (c : UInt16) : Bool := (0x30 ≤ c && c ≤ 0x39) || (0x41 ≤ c && c ≤ 0x46) || (0x61 ≤ c && c ≤ 0x66)

/-- `^0x[0-9A-Fa-f]*$`. -/
def isHexString : JSString → Bool
  | c :: x :: digits => c == 0x30 && x == 0x78 && digits.all isHexDigit
  | _ => false

def digitValue (c : UInt16) : Nat :=
  if c ≤ 0x39 then c.toNat - 0x30 else if c ≤ 0x46 then c.toNat - 0x37 else c.toNat - 0x57

def digitBytes : List UInt16 → Bytes
  | a :: b :: digits => UInt8.ofNat (16 * digitValue a + digitValue b) :: digitBytes digits
  | _ => []

/-- The digits of a hex string, an odd number of them padded with a 0. -/
def hexDigits (s : JSString) : List UInt16 :=
  let digits := s.drop 2
  if digits.length % 2 = 1 then 0x30 :: digits else digits

def hexBytes (s : JSString) : Bytes := digitBytes (hexDigits s)

/-! ## The packages -/

/-- `toBuffer` is what npm `keccak256` makes of a string before it hashes it, `toUtf8Bytes` and
`toUtf8String` are how ethers encodes and decodes a Solidity `string`; both fail on malformed
input. On bytes the two `keccak256` are one function. Nothing is asked of strings with lone surrogates, which
have no UTF-8 bytes, but that none is ever decoded. -/
structure Packages where
  keccak256 : Bytes → Bytes32
  toBuffer : JSString → Bytes
  toUtf8Bytes : JSString → Option Bytes
  toUtf8String : Bytes → Option JSString
  toBuffer_hex : ∀ s, isHexString s = true → toBuffer s = hexBytes s
  toBuffer_text : ∀ s b, isWellFormed s = true → isHexString s = false → toUtf8Bytes s = some b → toBuffer s = b
  toUtf8Bytes_ascii : ∀ s, IsAscii s → toUtf8Bytes s = some (asciiBytes s)
  toUtf8String_bytes : ∀ s b, isWellFormed s = true → toUtf8Bytes s = some b → toUtf8String b = some s
  toUtf8String_wellFormed : ∀ b s, toUtf8String b = some s → isWellFormed s = true

namespace Packages
variable (pkgs : Packages)

/-- The SDK's `keccak256(s)`. -/
def hash (s : JSString) : Bytes32 := pkgs.keccak256 (pkgs.toBuffer s)

theorem toBuffer_ascii {s : JSString} (hx : isHexString s = false) (hs : IsAscii s) : pkgs.toBuffer s = asciiBytes s :=
  pkgs.toBuffer_text s _ hs.wellFormed hx (pkgs.toUtf8Bytes_ascii s hs)

theorem toUtf8String_nil : pkgs.toUtf8String [] = some [] :=
  pkgs.toUtf8String_bytes [] [] rfl (pkgs.toUtf8Bytes_ascii [] (by simp [IsAscii]))

end Packages

/-! ## Text and hex apart -/

theorem asciiBytes_units {s : JSString} (h : IsAscii s) : (asciiBytes s).map UInt8.toUInt16 = s := by
  rw [asciiBytes, List.map_map]
  refine (List.map_congr_left fun c hc => ?_).trans (List.map_id s)
  have hc := UInt16.lt_iff_toNat_lt.1 (h c hc)
  have h80 : (0x80 : UInt16).toNat = 128 := rfl
  refine UInt16.toNat_inj.1 ?_
  simp only [Function.comp_apply, UInt8.toNat_toUInt16, UInt16.toNat_toUInt8, id_eq]
  omega

/-- The packages on ASCII strings. -/
def asciiPackages (keccak256 : Bytes → Bytes32) : Packages where
  keccak256
  toBuffer s := if isHexString s then hexBytes s else asciiBytes s
  toUtf8Bytes s := if s.all (· < 0x80) then some (asciiBytes s) else none
  toUtf8String b := some (b.map UInt8.toUInt16)
  toBuffer_hex s h := by rw [if_pos h]
  toBuffer_text s b _ h hb := by
    rw [Option.ite_none_right_eq_some] at hb
    rw [if_neg (by simp [h])]
    exact Option.some.inj hb.2
  toUtf8Bytes_ascii s h := by rw [if_pos (by simpa [IsAscii] using h)]
  toUtf8String_bytes s b _ hb := by
    rw [Option.ite_none_right_eq_some] at hb
    rw [← Option.some.inj hb.2, asciiBytes_units (by simpa [IsAscii] using hb.1)]
  toUtf8String_wellFormed b s hs := by
    cases hs
    refine isWellFormed_of_lt fun c hc => ?_
    obtain ⟨x, -, rfl⟩ := List.mem_map.1 hc
    rw [UInt16.lt_iff_toNat_lt, UInt8.toNat_toUInt16]
    exact Nat.lt_trans x.toNat_lt (by decide)

theorem asciiBytes_inj {s t : JSString} (hs : IsAscii s) (ht : IsAscii t) (h : asciiBytes s = asciiBytes t) :
    s = t := by
  rw [← asciiBytes_units hs, ← asciiBytes_units ht, h]

theorem digitBytes_length (digits : List UInt16) : (digitBytes digits).length = digits.length / 2 := by
  induction digits using digitBytes.induct with
  | case1 a b digits ih =>
    simp only [digitBytes, List.length_cons, ih]
    omega
  | case2 digits h =>
    match digits with
    | [] => rfl
    | [_] => simp [digitBytes]
    | a :: b :: digits => exact absurd rfl (h a b digits)

/-- A hex string stands for fewer bytes than it has characters. -/
theorem hexBytes_length {s : JSString} (h : isHexString s = true) : (hexBytes s).length < s.length := by
  match s with
  | [] | [_] => simp [isHexString] at h
  | c :: x :: digits =>
    rw [hexBytes, digitBytes_length]
    simp only [hexDigits, List.drop_succ_cons, List.drop_zero]
    split <;> simp only [List.length_cons] <;> omega

theorem hexBytes_ne {s : JSString} (h : isHexString s = true) : hexBytes s ≠ asciiBytes s := by
  intro he
  have hl := hexBytes_length h
  rw [he, asciiBytes, List.length_map] at hl
  omega

/-! ## The hex strings without capitals -/

/-- `[0-9a-f]`. -/
def isLowerDigit (c : UInt16) : Bool := (0x30 ≤ c && c ≤ 0x39) || (0x61 ≤ c && c ≤ 0x66)

theorem isLowerDigit_iff {c : UInt16} : isLowerDigit c = true ↔
    (48 ≤ c.toNat ∧ c.toNat ≤ 57) ∨ (97 ≤ c.toNat ∧ c.toNat ≤ 102) := by
  simp only [isLowerDigit, Bool.or_eq_true, Bool.and_eq_true, decide_eq_true_eq, UInt16.le_iff_toNat_le]
  rfl

theorem digitValue_lower {c : UInt16} (h : isLowerDigit c = true) :
    digitValue c = if c.toNat ≤ 57 then c.toNat - 48 else c.toNat - 87 := by
  rw [isLowerDigit_iff] at h
  have h39 : c ≤ 0x39 ↔ c.toNat ≤ 57 := UInt16.le_iff_toNat_le
  have h46 : c ≤ 0x46 ↔ c.toNat ≤ 70 := UInt16.le_iff_toNat_le
  simp only [digitValue, h39, h46]
  split
  · rfl
  · rw [if_neg (by omega)]

theorem digitValue_lt {c : UInt16} (h : isLowerDigit c = true) : digitValue c < 16 := by
  have hc := isLowerDigit_iff.1 h
  rw [digitValue_lower h]
  split <;> omega

theorem digitValue_inj {c d : UInt16} (hc : isLowerDigit c = true) (hd : isLowerDigit d = true)
    (h : digitValue c = digitValue d) : c = d := by
  have hc' := isLowerDigit_iff.1 hc
  have hd' := isLowerDigit_iff.1 hd
  rw [digitValue_lower hc, digitValue_lower hd] at h
  refine UInt16.toNat_inj.1 ?_
  split at h <;> split at h <;> omega

theorem digitBytes_inj {ds es : List UInt16} (hds : ∀ c ∈ ds, isLowerDigit c = true)
    (hes : ∀ c ∈ es, isLowerDigit c = true) (hde : ds.length % 2 = 0) (hee : es.length % 2 = 0)
    (h : digitBytes ds = digitBytes es) : ds = es := by
  induction ds using digitBytes.induct generalizing es with
  | case1 a b ds ih =>
    match es with
    | [] => simp [digitBytes] at h
    | [_] => simp at hee
    | c :: d :: es =>
      simp only [List.mem_cons, forall_eq_or_imp] at hds hes
      obtain ⟨ha, hb, hds⟩ := hds
      obtain ⟨hc, hd, hes⟩ := hes
      simp only [digitBytes, List.cons.injEq] at h
      obtain ⟨h1, h2⟩ := h
      simp only [List.length_cons] at hde hee
      rw [ih hds hes (by omega) (by omega) h2]
      -- A byte is its two digits.
      have ha' := digitValue_lt ha
      have hb' := digitValue_lt hb
      have hc' := digitValue_lt hc
      have hd' := digitValue_lt hd
      have hn := congrArg UInt8.toNat h1
      simp only [UInt8.toNat_ofNat'] at hn
      rw [digitValue_inj ha hc (by omega), digitValue_inj hb hd (by omega)]
  | case2 ds hne =>
    match ds with
    | [] =>
      match es with
      | [] => rfl
      | [_] => simp at hee
      | _ :: _ :: _ => simp [digitBytes] at h
    | [_] => simp at hde
    | a :: b :: ds => exact absurd rfl (hne a b ds)

theorem hexDigits_even (s : JSString) : (hexDigits s).length % 2 = 0 := by
  simp only [hexDigits]
  split
  · rw [List.length_cons]
    omega
  · omega

/-- `"0x6c6174657374"`: the one hex string without capitals that stands for `latest`. -/
def latestHex : JSString := literal ['0', 'x', '6', 'c', '6', '1', '7', '4', '6', '5', '7', '3', '7', '4']

theorem hexBytes_latest {s : JSString} (h : isHexString s = true) (hs : ∀ c ∈ s.drop 2, isLowerDigit c = true) :
    hexBytes s = latest ↔ s = latestHex := by
  constructor
  · intro he
    have hl : digitBytes (hexDigits s) = digitBytes (hexDigits latestHex) := he.trans (by decide)
    have hlower : ∀ c ∈ hexDigits s, isLowerDigit c = true := by
      intro c hc
      simp only [hexDigits] at hc
      split at hc
      · rcases List.mem_cons.1 hc with rfl | hc
        · decide
        · exact hs c hc
      · exact hs c hc
    have hlatest : ∀ c ∈ hexDigits latestHex, isLowerDigit c = true := List.all_eq_true.1 rfl
    have hd := digitBytes_inj hlower hlatest (hexDigits_even s) (hexDigits_even latestHex) hl
    match s with
    | [] | [_] => simp [isHexString] at h
    | c :: x :: digits =>
      simp only [isHexString, Bool.and_eq_true, beq_iff_eq] at h
      obtain ⟨⟨rfl, rfl⟩, -⟩ := h
      simp only [hexDigits, List.drop_succ_cons, List.drop_zero] at hd
      -- The first digit is not the 0 that pads, so nothing was padded.
      split at hd
      · have hhead := congrArg List.head? hd
        rw [List.head?_cons] at hhead
        exact absurd hhead (by decide)
      · rw [hd]
        decide
  · rintro rfl
    decide

end LawRegistry.Sdk
