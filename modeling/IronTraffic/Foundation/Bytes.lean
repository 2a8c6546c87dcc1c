import Mathlib

/-! # Machine words and byte strings

Words are natural numbers that the code clamps or saturates. Byte strings are lists of bytes; a
byte-string literal of the source is written as the text it spells.
-/

namespace IronTraffic

def u16Max : Nat := 65535

def u32Max : Nat := 4294967295

def u64Max : Nat := 2 ^ 64 - 1

/-- `u16::try_from(..).unwrap_or(u16::MAX)`. -/
def toU16 (number : Nat) : Nat := min number (2 ^ 16 - 1)

/-- `u32::try_from(..).unwrap_or(u32::MAX)`. -/
def toU32 (number : Nat) : Nat := min number (2 ^ 32 - 1)

/-- `u32::saturating_add`. -/
def saturatingAdd32 (left right : Nat) : Nat := min (left + right) (2 ^ 32 - 1)

/-- `u64::saturating_add`. -/
def saturatingAdd64 (left right : Nat) : Nat := min (left + right) (2 ^ 64 - 1)

/-! ## Bytes -/

abbrev Bytes := List UInt8

abbrev quote : UInt8 := 34

abbrev percent : UInt8 := 37

abbrev star : UInt8 := 42

abbrev comma : UInt8 := 44

abbrev hyphen : UInt8 := 45

abbrev dot : UInt8 := 46

abbrev slash : UInt8 := 47

abbrev colon : UInt8 := 58

abbrev semicolon : UInt8 := 59

abbrev question : UInt8 := 63

abbrev backslash : UInt8 := 92

lemma forall_byte {property : UInt8 → Prop}
    (checked : ∀ number : Fin 256, property (UInt8.ofNat number)) (byte : UInt8) :
    property byte := by
  have holds := checked ⟨byte.toNat, byte.toNat_lt⟩
  rw [UInt8.ofNat_toNat] at holds
  exact holds

def ascii (text : String) : Bytes := text.toList.map fun char => char.toNat.toUInt8

/-- `u8::to_ascii_lowercase`. -/
def toAsciiLowercase (byte : UInt8) : UInt8 :=
  if 65 ≤ byte ∧ byte ≤ 90 then byte + 32 else byte

/-- `u8::eq_ignore_ascii_case`. -/
def eqIgnoreAsciiCase (left right : UInt8) : Bool :=
  toAsciiLowercase left == toAsciiLowercase right

section

variable (byte : UInt8)

def isAsciiUppercase : Bool := decide (65 ≤ byte ∧ byte ≤ 90)

def isAsciiLowercase : Bool := decide (97 ≤ byte ∧ byte ≤ 122)

def isAsciiAlphabetic : Bool := isAsciiUppercase byte || isAsciiLowercase byte

def isAsciiDigit : Bool := decide (48 ≤ byte ∧ byte ≤ 57)

def isAsciiAlphanumeric : Bool := isAsciiAlphabetic byte || isAsciiDigit byte

/-- A byte of an HTTP token. -/
def isTchar : Bool :=
  (ascii "!#$%&'*+-.^_`|~").contains byte || isAsciiAlphanumeric byte

end

/-! ## UTF-8 -/

def isContinuation (byte : UInt8) : Bool := decide (128 ≤ byte ∧ byte ≤ 191)

def utf8Rest : Bytes → Option Bytes
  | [] => none
  | lead :: rest =>
    if lead ≤ 127 then some rest
    else if 194 ≤ lead ∧ lead ≤ 223 then
      match rest with
      | second :: rest => if isContinuation second then some rest else none
      | _ => none
    else if 224 ≤ lead ∧ lead ≤ 239 then
      match rest with
      | second :: third :: rest =>
        -- No overlong forms, no surrogates.
        if isContinuation second ∧ isContinuation third ∧ (lead = 224 → 160 ≤ second) ∧
            (lead = 237 → second ≤ 159) then
          some rest
        else none
      | _ => none
    else if 240 ≤ lead ∧ lead ≤ 244 then
      match rest with
      | second :: third :: fourth :: rest =>
        if isContinuation second ∧ isContinuation third ∧ isContinuation fourth ∧
            (lead = 240 → 144 ≤ second) ∧ (lead = 244 → second ≤ 143) then
          some rest
        else none
      | _ => none
    else none

/-- Where the first sequence that is not UTF-8 starts. Every turn reads at least
one byte, so `fuel` bytes are enough turns. -/
def utf8ErrorFrom : Nat → Nat → Bytes → Option Nat
  | _, _, [] => none
  | 0, offset, _ :: _ => some offset
  | fuel + 1, offset, bytes =>
    match utf8Rest bytes with
    | some rest => utf8ErrorFrom fuel (offset + (bytes.length - rest.length)) rest
    | none => some offset

/-- `Utf8Error::valid_up_to` of `str::from_utf8`, or `none` for valid UTF-8. -/
def utf8Error (bytes : Bytes) : Option Nat := utf8ErrorFrom bytes.length 0 bytes

lemma utf8Error_of_ascii (small : ∀ byte ∈ bytes, byte ≤ 127) : utf8Error bytes = none := by
  have scan : ∀ (bytes : Bytes) (offset : Nat), (∀ byte ∈ bytes, byte ≤ 127) →
      utf8ErrorFrom bytes.length offset bytes = none := by
    intro bytes
    induction bytes with
    | nil => exact fun _ _ => rfl
    | cons byte rest induction =>
      intro offset small
      rw [List.forall_mem_cons] at small
      simp only [List.length_cons, utf8ErrorFrom, utf8Rest, small.1, ↓reduceIte]
      exact induction _ small.2
  exact scan bytes 0 small

end IronTraffic
