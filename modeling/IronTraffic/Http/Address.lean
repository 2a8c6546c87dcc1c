import IronTraffic.Foundation.Bytes

/-! # Addresses and address prefixes -/

namespace IronTraffic.Http

open List hiding Vector

/-- An IPv4 address by octets, an IPv6 address by segments. -/
inductive IpAddr where
  | v4 (octets : Vector UInt8 4)
  | v6 (segments : Vector UInt16 8)
  deriving DecidableEq

namespace IpAddr

def isIpv6 : IpAddr → Bool
  | .v4 _ => false
  | .v6 _ => true

def octets : IpAddr → Bytes
  | .v4 octets => octets.toList
  | .v6 segments =>
    segments.toList.flatMap fun segment : UInt16 => [(segment >>> 8).toUInt8, segment.toUInt8]

def width : IpAddr → Nat
  | .v4 _ => 32
  | .v6 _ => 128

lemma length_octets (addr : IpAddr) : addr.octets.length * 8 = addr.width := by
  cases addr with
  | v4 | v6 => simp [octets, width]

end IpAddr

structure SocketAddr where
  ip : IpAddr
  port : UInt16

/-! ## Prefixes -/

structure IpCidr where
  addr : IpAddr
  prefixLen : Nat
  fits : prefixLen ≤ addr.width

/-- Whether the first `prefixLen` bits are the same: whole octets, then a part of one. -/
def bitsMatch (left right : Bytes) (prefixLen : Nat) : Bool :=
  let fullBytes := prefixLen / 8
  let rem := prefixLen % 8
  if left.length < fullBytes || right.length < fullBytes then false
  else if left.take fullBytes != right.take fullBytes then false
  else if rem = 0 then true
  else
    let mask : UInt8 := 255 <<< (8 - rem).toUInt8
    match left[fullBytes]?, right[fullBytes]? with
    | some leftByte, some rightByte => leftByte &&& mask == rightByte &&& mask
    | _, _ => false

namespace IpCidr

def new (addr : IpAddr) (prefixLen : Nat) : Option IpCidr :=
  if fits : prefixLen ≤ addr.width then some ⟨addr, prefixLen, fits⟩ else none

def contains (cidr : IpCidr) (other : IpAddr) : Bool :=
  match cidr.addr, other with
  | .v4 _, .v4 _ | .v6 _, .v6 _ => bitsMatch cidr.addr.octets other.octets cidr.prefixLen
  | .v4 _, .v6 _ | .v6 _, .v4 _ => false

end IpCidr

def bitAt (octets : Bytes) (spot : Nat) : Bool :=
  (octets.getD (spot / 8) 0).toBitVec.getMsbD (spot % 8)

/-- An address is in a prefix when it is of its family and starts with its bits. -/
def IpCidr.Covers (cidr : IpCidr) (other : IpAddr) : Prop :=
  cidr.addr.isIpv6 = other.isIpv6 ∧
    ∀ spot < cidr.prefixLen, bitAt cidr.addr.octets spot = bitAt other.octets spot

variable {rem : Nat} {left right : Bytes}

/-- The mask has the first `rem` bits. -/
lemma getMsbD_mask (some : rem ≠ 0) (part : rem < 8) :
    ∀ spot < 8, ((255 : UInt8) <<< (8 - rem).toUInt8).toBitVec.getMsbD spot =
      decide (spot < rem) := by
  interval_cases rem
  case «0» => exact absurd rfl some
  all_goals decide

/-- The mask of the last octet keeps its first `rem` bits. -/
lemma and_mask_eq_iff (left right : UInt8) (some : rem ≠ 0) (part : rem < 8) :
    left &&& (255 <<< (8 - rem).toUInt8) = right &&& (255 <<< (8 - rem).toUInt8) ↔
      ∀ spot < rem, left.toBitVec.getMsbD spot = right.toBitVec.getMsbD spot := by
  have masked := getMsbD_mask some part
  rw [← UInt8.toBitVec_inj, UInt8.toBitVec_and, UInt8.toBitVec_and]
  constructor
  · intro same spot early
    have bits := congrArg (·.getMsbD spot) same
    simp only [BitVec.getMsbD_and, masked spot (by omega), early, decide_true,
      Bool.and_true] at bits
    exact bits
  · intro same
    apply BitVec.eq_of_getMsbD_eq
    intro spot inside
    rw [BitVec.getMsbD_and, BitVec.getMsbD_and, masked spot inside]
    by_cases early : spot < rem
    · rw [same spot early]
    · simp [early]

lemma bitAt_mul_add (octets : Bytes) (index : Nat) (inside : spot < 8) :
    bitAt octets (8 * index + spot) = (octets.getD index 0).toBitVec.getMsbD spot := by
  rw [bitAt, Nat.mul_add_div (by decide), Nat.div_eq_of_lt inside, add_zero, Nat.mul_add_mod,
    Nat.mod_eq_of_lt inside]

lemma take_eq_take_iff_bits {count : Nat} (inLeft : count ≤ left.length)
    (inRight : count ≤ right.length) :
    left.take count = right.take count ↔
      ∀ spot < 8 * count, bitAt left spot = bitAt right spot := by
  constructor
  · intro same spot early
    have octet : left.getD (spot / 8) 0 = right.getD (spot / 8) 0 := by
      have inside : spot / 8 < count := by omega
      rw [getD_eq_getElem?_getD, getD_eq_getElem?_getD,
        ← getElem?_take_of_lt inside, same, getElem?_take_of_lt inside]
    unfold bitAt
    rw [octet]
  · intro same
    apply ext_getElem (by simp [inLeft, inRight])
    intro index inside _
    rw [length_take] at inside
    have bits : ∀ spot < 8, (left.getD index 0).toBitVec.getMsbD spot =
        (right.getD index 0).toBitVec.getMsbD spot := by
      intro spot early
      rw [← bitAt_mul_add left index early, ← bitAt_mul_add right index early]
      exact same _ (by omega)
    have octet := UInt8.toBitVec_inj.mp (BitVec.eq_of_getMsbD_eq bits)
    rw [getD_eq_getElem _ _ (by omega), getD_eq_getElem _ _ (by omega)] at octet
    rw [getElem_take, getElem_take]
    exact octet

lemma bitsMatch_iff (inLeft : prefixLen ≤ left.length * 8)
    (inRight : prefixLen ≤ right.length * 8) :
    bitsMatch left right prefixLen = true ↔
      ∀ spot < prefixLen, bitAt left spot = bitAt right spot := by
  have fullLeft : prefixLen / 8 ≤ left.length := by omega
  have fullRight : prefixLen / 8 ≤ right.length := by omega
  have heads := take_eq_take_iff_bits fullLeft fullRight
  unfold bitsMatch
  simp only [not_lt.mpr fullLeft, not_lt.mpr fullRight, decide_false, Bool.or_self,
    Bool.false_eq_true, ↓reduceIte, bne_iff_ne, ne_eq]
  by_cases same : left.take (prefixLen / 8) = right.take (prefixLen / 8)
  · rw [if_neg (not_not_intro same)]
    have early := heads.mp same
    by_cases whole : prefixLen % 8 = 0
    · rw [if_pos whole]
      refine iff_of_true rfl fun spot inside => early spot (by omega)
    have inLeft : prefixLen / 8 < left.length := by omega
    have inRight : prefixLen / 8 < right.length := by omega
    rw [if_neg whole, getElem?_eq_getElem inLeft, getElem?_eq_getElem inRight]
    simp only [beq_iff_eq]
    rw [and_mask_eq_iff _ _ whole (Nat.mod_lt _ (by decide)),
      ← getD_eq_getElem left 0 inLeft, ← getD_eq_getElem right 0 inRight]
    constructor
    · intro last spot inside
      by_cases before : spot < 8 * (prefixLen / 8)
      · exact early spot before
      · have bit := last (spot - 8 * (prefixLen / 8)) (by omega)
        rw [← bitAt_mul_add left _ (by omega), ← bitAt_mul_add right _ (by omega),
          Nat.add_sub_cancel' (by omega)] at bit
        exact bit
    · intro all spot inside
      have part : spot < 8 := by omega
      rw [← bitAt_mul_add left _ part, ← bitAt_mul_add right _ part]
      exact all _ (by omega)
  · rw [if_pos same]
    refine iff_of_false nofun fun all => same (heads.mpr fun spot early => ?_)
    exact all spot (by omega)

lemma IpCidr.contains_iff (cidr : IpCidr) (other : IpAddr) :
    cidr.contains other = true ↔ cidr.Covers other := by
  have fits := cidr.fits
  have own := cidr.addr.length_octets
  have others := other.length_octets
  unfold contains Covers
  cases family : cidr.addr <;> cases other <;>
    simp only [IpAddr.isIpv6, IpAddr.width, family, true_and, Bool.false_eq_true, false_and,
      reduceCtorEq] at fits own others ⊢
  case v4.v4 => exact bitsMatch_iff (by omega) (by omega)
  case v6.v6 => exact bitsMatch_iff (by omega) (by omega)

end IronTraffic.Http
