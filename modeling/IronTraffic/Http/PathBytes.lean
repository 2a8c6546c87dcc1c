import IronTraffic.Foundation.Fallible
import IronTraffic.Http.Path

/-! # Canonical path bytes

What decoding leaves: every escape spells, in uppercase, a byte that has to stay
escaped. Escapes do not reach across a slash.
-/

namespace IronTraffic.Http

open List

def isUpperHexdigit (byte : UInt8) : Bool :=
  isAsciiDigit byte || decide (65 ≤ byte ∧ byte ≤ 70)

/-- The escape stays as it is: uppercase digits, not NUL, not an unreserved byte
other than the dot. -/
def isKeptEscape (high low : UInt8) : Bool :=
  isUpperHexdigit high && isUpperHexdigit low && hexPairValue high low != 0 &&
    !isUnreservedMinusDot (hexPairValue high low)

def isCanonical : Bytes → Bool
  | [] => true
  | byte :: rest =>
    if byte = percent then
      match rest with
      | high :: low :: rest => isKeptEscape high low && isCanonical rest
      | _ => false
    else isPathByteOk byte && isCanonical rest

/-! ## Single bytes -/

lemma upperHexdigit_spec :
    ∀ byte, isUpperHexdigit byte → toAsciiUppercase byte = byte ∧ isAsciiHexdigit byte ∧
        byte ≠ slash ∧ byte ≠ 35 ∧ byte ≠ question ∧ ((hexDigitValue byte).toNat = 2 → byte = 50) ∧
        ((hexDigitValue byte).toNat = 5 → byte = 53) ∧
        ((hexDigitValue byte).toNat = 12 → byte = 67) ∧
        ((hexDigitValue byte).toNat = 14 → byte = 69) ∧
        ((hexDigitValue byte).toNat = 15 → byte = 70) :=
  forall_byte (by decide +kernel)

lemma hexDigitValue_spec :
    ∀ byte, hexDigitValue (toAsciiUppercase byte) = hexDigitValue byte ∧
      (hexDigitValue byte).toNat < 16 ∧
      (isAsciiHexdigit byte → isUpperHexdigit (toAsciiUppercase byte)) :=
  forall_byte (by decide +kernel)

lemma pathByte_spec :
    ∀ byte, (isUnreservedMinusDot byte → isPathByteOk byte ∧ byte ≠ percent ∧ byte ≠ slash) ∧
      (isPathByteOk byte → byte ≠ 0 ∧ byte ≠ 35 ∧ byte ≠ question ∧ byte ≠ 92) :=
  forall_byte (by decide +kernel)

lemma hexPairValue_toNat (high low : UInt8) :
    (hexPairValue high low).toNat =
      (hexDigitValue high).toNat * 16 + (hexDigitValue low).toNat := by
  have highSmall := (hexDigitValue_spec high).2.1
  have lowSmall := (hexDigitValue_spec low).2.1
  rw [hexPairValue, UInt8.toNat_add, UInt8.toNat_mul, show (16 : UInt8).toNat = 16 from rfl]
  omega

/-! ## Reading byte by byte -/

section Reading

variable {byte high low : UInt8} {rest : Bytes}

lemma isCanonical_plain (plain : byte ≠ percent) :
    isCanonical (byte :: rest) = (isPathByteOk byte && isCanonical rest) := by
  rw [isCanonical.eq_def]
  simp only [if_neg plain]

lemma isCanonical_escape :
    isCanonical (percent :: high :: low :: rest) = (isKeptEscape high low && isCanonical rest) := by
  rw [isCanonical.eq_def]
  simp only [if_true]

lemma isCanonical_truncated (short : rest.length < 2) : isCanonical (percent :: rest) = false := by
  match rest, short with
  | [], _ => rfl
  | [_], _ => rfl

lemma validatePathSyntax_plain (plain : byte ≠ percent) (ok : isPathByteOk byte) :
    validatePathSyntax (byte :: rest) = validatePathSyntax rest := by
  rw [validatePathSyntax.eq_def]
  simp only [if_neg plain, if_pos ok]

lemma validatePathSyntax_escape (digits : isAsciiHexdigit high && isAsciiHexdigit low) :
    validatePathSyntax (percent :: high :: low :: rest) = validatePathSyntax rest := by
  rw [validatePathSyntax.eq_def]
  simp only [if_true, if_pos digits]

lemma decodePath_plain (plain : byte ≠ percent) :
    decodePath (byte :: rest) = (do
      let decoded ← decodePath rest
      .ok (byte :: decoded)) := by
  rw [decodePath.eq_def]
  simp only [if_neg plain]

lemma decodePath_escape (nonzero : hexPairValue high low ≠ 0) :
    decodePath (percent :: high :: low :: rest) = (do
      let decoded ← decodePath rest
      if isUnreservedMinusDot (hexPairValue high low) then
        .ok (hexPairValue high low :: decoded)
      else .ok (percent :: toAsciiUppercase high :: toAsciiUppercase low :: decoded)) := by
  rw [decodePath.eq_def]
  simp only [if_true, if_neg nonzero]

lemma decodePath_nul (zero : hexPairValue high low = 0) :
    decodePath (percent :: high :: low :: rest) = .error .pathEncodedNul := by
  rw [decodePath.eq_def]
  simp only [if_true, if_pos zero]

end Reading

lemma escapeInduct {motive : Bytes → Prop} (nil : motive [])
    (plain : ∀ byte rest, byte ≠ percent → motive rest → motive (byte :: rest))
    (escape : ∀ high low rest, motive rest → motive (percent :: high :: low :: rest))
    (truncated : ∀ rest, rest.length < 2 → motive (percent :: rest)) (bytes) : motive bytes := by
  induction length : bytes.length using Nat.strong_induction_on generalizing bytes with
  | _ count induction =>
    cases bytes with
    | nil => exact nil
    | cons byte rest =>
      rw [length_cons] at length
      by_cases isPercent : byte = percent
      · subst byte
        match rest, length with
        | [], _ => exact truncated [] (by decide)
        | [only], _ => exact truncated [only] (by simp)
        | high :: low :: rest, length =>
          simp only [length_cons] at length
          exact escape high low rest (induction rest.length (by omega) rest rfl)
      · exact plain byte rest isPercent (induction rest.length (by omega) rest rfl)

/-! ## What decoding leaves -/

lemma hexPairValue_toAsciiUppercase (high low : UInt8) :
    hexPairValue (toAsciiUppercase high) (toAsciiUppercase low) = hexPairValue high low := by
  unfold hexPairValue
  rw [(hexDigitValue_spec high).1, (hexDigitValue_spec low).1]

lemma isKeptEscape_iff :
    isKeptEscape high low ↔
      isUpperHexdigit high ∧ isUpperHexdigit low ∧ hexPairValue high low ≠ 0 ∧
        isUnreservedMinusDot (hexPairValue high low) = false := by
  simp [isKeptEscape, and_assoc]

/-- Path bytes and escapes that decoding keeps. -/
inductive Canonical : Bytes → Prop
  | nil : Canonical []
  | plain (plain : byte ≠ percent) (ok : isPathByteOk byte) (rest : Canonical bytes) :
    Canonical (byte :: bytes)
  | escape (highUpper : isUpperHexdigit high) (lowUpper : isUpperHexdigit low)
    (nonzero : hexPairValue high low ≠ 0)
    (reserved : isUnreservedMinusDot (hexPairValue high low) = false) (rest : Canonical bytes) :
    Canonical (percent :: high :: low :: bytes)

lemma Canonical.of_isCanonical (canonical : isCanonical bytes) : Canonical bytes := by
  induction bytes using escapeInduct with
  | nil => exact .nil
  | plain byte rest plain induction =>
    rw [isCanonical_plain plain, Bool.and_eq_true] at canonical
    exact .plain plain canonical.1 (induction canonical.2)
  | escape high low rest induction =>
    rw [isCanonical_escape, Bool.and_eq_true, isKeptEscape_iff] at canonical
    rcases canonical with ⟨⟨highUpper, lowUpper, nonzero, reserved⟩, canonical⟩
    exact .escape highUpper lowUpper nonzero reserved (induction canonical)
  | truncated rest short =>
    rw [isCanonical_truncated short] at canonical
    cases canonical

lemma decodePath_canonical (raw : Bytes) (valid : validatePathSyntax raw = .ok ())
    (gave : decodePath raw = .ok decoded) :
    isCanonical decoded ∧ decoded.length ≤ raw.length := by
  induction raw using escapeInduct generalizing decoded with
  | nil =>
    cases gave
    exact ⟨rfl, le_refl _⟩
  | plain byte rest plain induction =>
    have ok : isPathByteOk byte := by
      by_contra bad
      rw [validatePathSyntax.eq_def] at valid
      simp only [if_neg plain, if_neg bad] at valid
      cases valid
    rw [validatePathSyntax_plain plain ok] at valid
    rw [decodePath_plain plain] at gave
    rcases bind_eq_ok_iff.mp gave with ⟨tail, decodes, equal⟩
    cases equal
    rcases induction valid decodes with ⟨canonical, shorter⟩
    refine ⟨?_, Nat.succ_le_succ shorter⟩
    rw [isCanonical_plain plain, ok, canonical]
    rfl
  | escape high low rest induction =>
    have digits : isAsciiHexdigit high && isAsciiHexdigit low := by
      by_contra bad
      rw [validatePathSyntax.eq_def] at valid
      simp only [if_true, if_neg bad] at valid
      cases valid
    rw [validatePathSyntax_escape digits] at valid
    by_cases zero : hexPairValue high low = 0
    · rw [decodePath_nul zero] at gave
      cases gave
    rw [decodePath_escape zero] at gave
    rcases bind_eq_ok_iff.mp gave with ⟨tail, decodes, equal⟩
    rcases induction valid decodes with ⟨canonical, shorter⟩
    rw [Bool.and_eq_true] at digits
    split at equal
    case isTrue unreserved =>
      cases equal
      rcases (pathByte_spec _).1 unreserved with ⟨ok, plain, _⟩
      refine ⟨?_, ?_⟩
      · rw [isCanonical_plain plain, ok, canonical]
        rfl
      · simp only [length_cons]
        omega
    case isFalse reserved =>
      cases equal
      refine ⟨?_, ?_⟩
      · rw [isCanonical_escape, canonical, Bool.and_true, isKeptEscape_iff,
          hexPairValue_toAsciiUppercase]
        exact ⟨(hexDigitValue_spec high).2.2 digits.1,
          (hexDigitValue_spec low).2.2 digits.2, zero, by simpa using reserved⟩
      · simp only [length_cons]
        omega
  | truncated rest short =>
    match rest, short with
    | [], _ => cases valid
    | [_], _ => cases valid

lemma decodePath_of_canonical (bytes : Bytes) (canonical : isCanonical bytes) :
    validatePathSyntax bytes = .ok () ∧ decodePath bytes = .ok bytes := by
  replace canonical := Canonical.of_isCanonical canonical
  induction canonical with
  | nil => exact ⟨rfl, rfl⟩
  | plain plain ok _ induction =>
    rcases induction with ⟨valid, decodes⟩
    rw [validatePathSyntax_plain plain ok, decodePath_plain plain, decodes]
    exact ⟨valid, rfl⟩
  | @escape high low _ highUpper lowUpper nonzero reserved _ induction =>
    rcases induction with ⟨valid, decodes⟩
    have digits : isAsciiHexdigit high && isAsciiHexdigit low := by
      rw [(upperHexdigit_spec _ highUpper).2.1, (upperHexdigit_spec _ lowUpper).2.1]
      rfl
    rw [validatePathSyntax_escape digits, decodePath_escape nonzero, decodes, reserved,
      (upperHexdigit_spec _ highUpper).1, (upperHexdigit_spec _ lowUpper).1]
    exact ⟨valid, rfl⟩

lemma keptEscape_of_percent (canonical : isCanonical (front ++ percent :: back)) :
    ∃ high low rest, back = high :: low :: rest ∧ isKeptEscape high low := by
  induction front using escapeInduct with
  | nil =>
    rw [nil_append] at canonical
    match back, canonical with
    | high :: low :: rest, canonical =>
      rw [isCanonical_escape, Bool.and_eq_true] at canonical
      exact ⟨high, low, rest, rfl, canonical.1⟩
  | plain byte rest plain induction =>
    rw [cons_append, isCanonical_plain plain, Bool.and_eq_true] at canonical
    exact induction canonical.2
  | escape high low rest induction =>
    simp only [cons_append] at canonical
    rw [isCanonical_escape, Bool.and_eq_true] at canonical
    exact induction canonical.2
  | truncated rest short =>
    -- The percent sign would be a digit of the escape before it.
    have noDigit : isUpperHexdigit percent = false := by decide
    match rest, short with
    | [], _ =>
      cases back with
      | nil => cases canonical
      | cons low back =>
        have escape : isCanonical (percent :: percent :: low :: back) := canonical
        cases escape
    | [high], _ =>
      have escape : isCanonical (percent :: high :: percent :: back) := canonical
      rw [isCanonical_escape, isKeptEscape, noDigit, Bool.and_false] at escape
      cases escape

lemma canonical_ne_delimiter (canonical : isCanonical bytes) :
    ∀ byte ∈ bytes, byte ≠ 35 ∧ byte ≠ question := by
  replace canonical := Canonical.of_isCanonical canonical
  induction canonical with
  | nil => simp
  | plain _ ok _ induction =>
    rcases (pathByte_spec _).2 ok with ⟨_, noHash, noMark, _⟩
    exact forall_mem_cons.mpr ⟨⟨noHash, noMark⟩, induction⟩
  | escape highUpper lowUpper _ _ _ induction =>
    rcases upperHexdigit_spec _ highUpper with ⟨_, _, _, noHash, noMark, _⟩
    rcases upperHexdigit_spec _ lowUpper with ⟨_, _, _, noHash', noMark', _⟩
    simp only [forall_mem_cons]
    exact ⟨by decide, ⟨noHash, noMark⟩, ⟨noHash', noMark'⟩, induction⟩

lemma isCanonical_append_slash (front back : Bytes) :
    isCanonical (front ++ slash :: back) = (isCanonical front && isCanonical back) := by
  have atSlash : isCanonical (slash :: back) = isCanonical back :=
    isCanonical_plain (by decide)
  induction front using escapeInduct with
  | nil => exact atSlash
  | plain byte rest plain induction =>
    rw [cons_append, isCanonical_plain plain, isCanonical_plain plain, induction, Bool.and_assoc]
  | escape high low rest induction =>
    simp only [cons_append]
    rw [isCanonical_escape, isCanonical_escape, induction, Bool.and_assoc]
  | truncated rest short =>
    match rest, short with
    | [], _ =>
      cases back with
      | nil => rfl
      | cons low back =>
        show isCanonical (percent :: slash :: low :: back) = false
        rfl
    | [high], _ =>
      show isCanonical (percent :: high :: slash :: back) = false
      rw [isCanonical_escape, isKeptEscape, show isUpperHexdigit slash = false by decide,
        Bool.and_false]
      rfl

lemma isCanonical_joined (segments : List Bytes) :
    isCanonical (joined slash segments) = segments.all isCanonical := by
  have atSlash : ∀ bytes, isCanonical (slash :: bytes) = isCanonical bytes :=
    fun bytes => isCanonical_plain (by decide)
  induction segments with
  | nil => rfl
  | cons segment rest induction =>
    rw [joined_cons, atSlash, all_cons, ← induction]
    cases rest with
    | nil => simp [isCanonical]
    | cons next rest => rw [joined_cons, isCanonical_append_slash, atSlash]

end IronTraffic.Http
