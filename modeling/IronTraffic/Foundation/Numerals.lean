import IronTraffic.Foundation.Bytes

/-! # Numerals

The text of a number in some base, most significant digit first and without leading zeros, and
the number of a text. Writers find the digits by repeated division, least significant first.
-/

namespace IronTraffic

open List

def numeral (base value : Nat) : List Nat :=
  if value = 0 then [0] else (Nat.digits base value).reverse

lemma numeral_ne_nil (base value : Nat) : numeral base value ≠ [] := by
  unfold numeral
  split
  case isTrue => exact cons_ne_nil 0 []
  case isFalse notZero =>
    rw [Ne, reverse_eq_nil_iff]
    exact Nat.digits_ne_nil_iff_ne_zero.mpr notZero

lemma ofDigits_numeral (base value : Nat) :
    Nat.ofDigits base (numeral base value).reverse = value := by
  unfold numeral
  split
  case isTrue zero => simp [zero]
  case isFalse => rw [reverse_reverse, Nat.ofDigits_digits]

variable {base value digit count : Nat} {byte : UInt8}

lemma lt_of_mem_numeral (many : 1 < base) (mem : digit ∈ numeral base value) : digit < base := by
  unfold numeral at mem
  split at mem
  · rw [mem_singleton.mp mem]
    omega
  · exact Nat.digits_lt_base many (mem_reverse.mp mem)

lemma length_numeral_le (many : 1 < base) (some : count ≠ 0) (small : value < base ^ count) :
    (numeral base value).length ≤ count := by
  unfold numeral
  split
  · exact Nat.one_le_iff_ne_zero.mpr some
  · rw [length_reverse]
    exact (Nat.digits_length_le_iff many value).mpr small

/-- Digits found by repeated division, least significant first: at least one, and at most as
many as there is room for. -/
def divisionDigits (base : Nat) : (room value : Nat) → List Nat
  | 0, _ => []
  | room + 1, value =>
    value % base :: if value / base = 0 then [] else divisionDigits base room (value / base)

lemma divisionDigits_eq (many : 1 < base) :
    ∀ {room value : Nat}, room ≠ 0 → value < base ^ room →
      divisionDigits base room value = (numeral base value).reverse
  | 0, _, noRoom, _ => absurd rfl noRoom
  | room + 1, value, _, small => by
    unfold divisionDigits numeral
    by_cases zero : value = 0
    · simp [zero]
    rw [if_neg zero, reverse_reverse, Nat.digits_def' many (Nat.pos_of_ne_zero zero)]
    split
    case isTrue last => rw [last, Nat.digits_zero]
    case isFalse more =>
      have less : value / base < base ^ room := by
        rw [Nat.div_lt_iff_lt_mul (by omega)]
        rwa [pow_succ] at small
      have someRoom : room ≠ 0 := by
        rintro rfl
        rw [pow_zero, Nat.lt_one_iff] at less
        exact more less
      rw [divisionDigits_eq many someRoom less, numeral, if_neg more, reverse_reverse]

lemma ofDigits_written (many : 1 < base) {read : UInt8 → Nat}
    (inverse : ∀ digit < base, read (write digit) = digit) :
    Nat.ofDigits base (((numeral base value).map write).reverse.map read) = value := by
  have digits : (numeral base value).reverse.map (read ∘ write) =
      (numeral base value).reverse.map id := by
    apply map_congr_left
    intro digit mem
    exact inverse digit (lt_of_mem_numeral many (mem_reverse.mp mem))
  rw [← map_reverse, map_map, digits, map_id, ofDigits_numeral]

/-! ## Decimal texts -/

def decimalText (value : Nat) : Bytes := (numeral 10 value).map fun digit => (48 + digit).toUInt8

def decimal (digits : Bytes) : Nat :=
  Nat.ofDigits 10 (digits.reverse.map fun byte => byte.toNat - 48)

lemma toNat_digitByte (small : digit < 10) : ((48 + digit).toUInt8).toNat = 48 + digit := by
  change (UInt8.ofNat (48 + digit)).toNat = 48 + digit
  rw [UInt8.toNat_ofNat', Nat.mod_eq_of_lt (by omega)]

lemma decimal_decimalText (value : Nat) : decimal (decimalText value) = value := by
  refine ofDigits_written (by decide) fun digit small => ?_
  rw [toNat_digitByte small, Nat.add_sub_cancel_left]

lemma mem_decimalText (mem : byte ∈ decimalText value) : 48 ≤ byte ∧ byte ≤ 57 := by
  rcases mem_map.mp mem with ⟨digit, isDigit, rfl⟩
  have small := lt_of_mem_numeral (by decide) isDigit
  rw [UInt8.le_iff_toNat_le, UInt8.le_iff_toNat_le, toNat_digitByte small]
  constructor
  · exact Nat.le_add_right 48 digit
  · change 48 + digit ≤ 57
    omega

lemma length_decimalText_le (some : count ≠ 0) (small : value < 10 ^ count) :
    (decimalText value).length ≤ count := by
  rw [decimalText, length_map]
  exact length_numeral_le (by decide) some small

/-! ## Hexadecimal texts -/

def hexByte (digit : Nat) : UInt8 :=
  if digit < 10 then (48 + digit).toUInt8 else (87 + digit).toUInt8

def hexText (value : Nat) : Bytes := (numeral 16 value).map hexByte

lemma mem_hexText (mem : byte ∈ hexText value) :
    48 ≤ byte ∧ byte ≤ 57 ∨ 97 ≤ byte ∧ byte ≤ 102 := by
  rcases mem_map.mp mem with ⟨digit, isDigit, rfl⟩
  have bytes : ∀ digit < 16, 48 ≤ hexByte digit ∧ hexByte digit ≤ 57 ∨
      97 ≤ hexByte digit ∧ hexByte digit ≤ 102 := by decide
  exact bytes digit (lt_of_mem_numeral (by decide) isDigit)

lemma length_hexText_le (some : count ≠ 0) (small : value < 16 ^ count) :
    (hexText value).length ≤ count := by
  rw [hexText, length_map]
  exact length_numeral_le (by decide) some small

def hexadecimal (digits : Bytes) : Nat :=
  Nat.ofDigits 16 (digits.reverse.map fun byte =>
    if byte ≤ 57 then byte.toNat - 48 else byte.toNat - 87)

lemma hexadecimal_hexText (value : Nat) : hexadecimal (hexText value) = value :=
  ofDigits_written (by decide) (by decide)

lemma hexText_ne_nil (value : Nat) : hexText value ≠ [] := by
  rw [hexText, Ne, map_eq_nil_iff]
  exact numeral_ne_nil 16 value

end IronTraffic
