import IronTraffic.Foundation.Numerals
import IronTraffic.Foundation.Split
import IronTraffic.Http.Forwarded

/-! # Texts of addresses

Addresses are written by this code and read by the standard library. An IPv6 address is written
in its canonical form: the leftmost longest run of two or more zero groups becomes `::`.
-/

namespace IronTraffic.Http

open List hiding Vector

/-! ## Numbers -/

/-- `write_decimal`, from a buffer of ten digits. -/
def writeDecimal (value : Nat) : Bytes :=
  ((divisionDigits 10 10 value).map fun digit => (48 + digit).toUInt8).reverse

lemma writeDecimal_eq (small : value < 10 ^ 10) : writeDecimal value = decimalText value := by
  unfold writeDecimal decimalText
  rw [divisionDigits_eq (by decide) (by decide) small, map_reverse, reverse_reverse]

def hexDigits : Bytes := ascii "0123456789abcdef"

/-- `write_group_hex`: four nibbles without leading zeros, at least one of them. -/
def writeGroupHex (group : UInt16) : Bytes :=
  let nibbles := [(group >>> 12) &&& 15, (group >>> 8) &&& 15, (group >>> 4) &&& 15, group &&& 15]
  let firstNonzero := (nibbles.findIdx? (· != 0)).getD 3
  (nibbles.drop firstNonzero).map fun nibble => hexDigits.getD nibble.toNat 48

/-! ## The zero run -/

structure RunState where
  best : Option (Nat × Nat)
  currentStart : Nat
  currentLen : Nat

def RunState.longest (state : RunState) : Option (Nat × Nat) :=
  if decide (2 ≤ state.currentLen) && state.best.all fun run => decide (run.2 < state.currentLen)
  then some (state.currentStart, state.currentLen)
  else state.best

def RunState.take (state : RunState) (indexed : UInt16 × Nat) : RunState :=
  if indexed.1 = 0 then
    { state with
      currentStart := if state.currentLen = 0 then indexed.2 else state.currentStart
      currentLen := state.currentLen + 1 }
  else { state with best := state.longest, currentLen := 0 }

def zeroRun (segments : List UInt16) : Option (Nat × Nat) :=
  (segments.zipIdx.foldl RunState.take ⟨none, 0, 0⟩).longest

/-! ## Addresses -/

/-- The loop over the groups. A separator is written between groups, and none beside `::`. -/
def writeGroupsFrom (segments : List UInt16) (run : Option (Nat × Nat)) :
    (fuel index : Nat) → (wroteAGroup : Bool) → Bytes
  | 0, _, _ => []
  | fuel + 1, index, wroteAGroup =>
    if segments.length ≤ index then []
    else
      match run with
      | some (start, runLen) =>
        if index = start then
          colon :: colon :: writeGroupsFrom segments run fuel (index + max runLen 1) false
        else
          (if wroteAGroup then [colon] else []) ++ writeGroupHex (segments.getD index 0) ++
            writeGroupsFrom segments run fuel (index + 1) true
      | none =>
        (if wroteAGroup then [colon] else []) ++ writeGroupHex (segments.getD index 0) ++
          writeGroupsFrom segments run fuel (index + 1) true

def writeIpv6Canonical (segments : Vector UInt16 8) : Bytes :=
  writeGroupsFrom segments.toList (zeroRun segments.toList) 8 0 false

def writeAddrText : IpAddr → Bytes
  | .v4 octets =>
    [dot].intercalate (octets.toList.map fun octet : UInt8 => writeDecimal octet.toNat)
  | .v6 segments => writeIpv6Canonical segments

def writeNodePort : Option UInt16 → Bytes
  | some port => colon :: writeDecimal port.toNat
  | none => []

def writeNode (addr : IpAddr) (port : Option UInt16) : Bytes :=
  (if addr.isIpv6 then 91 :: writeAddrText addr ++ [93] else writeAddrText addr) ++
    writeNodePort port

/-! ## The written texts -/

lemma toNat_nibble (group shift : UInt16) :
    ((group >>> shift) &&& 15).toNat = group.toNat / 2 ^ (shift.toNat % 16) % 16 := by
  rw [UInt16.toNat_and, UInt16.toNat_shiftRight, Nat.shiftRight_eq_div_pow]
  exact Nat.and_two_pow_sub_one_eq_mod _ 4

lemma getD_hexDigits : ∀ digit < 16, hexDigits[digit]?.getD 48 = hexByte digit := by decide

lemma writeGroupHex_eq (group) : writeGroupHex group = hexText group.toNat := by
  have small : group.toNat < 16 ^ 4 := group.toNat_lt
  have first : ((group >>> 12) &&& 15).toNat = group.toNat / 4096 % 16 := toNat_nibble group 12
  have second : ((group >>> 8) &&& 15).toNat = group.toNat / 256 % 16 := toNat_nibble group 8
  have third : ((group >>> 4) &&& 15).toNat = group.toNat / 16 % 16 := toNat_nibble group 4
  have fourth : (group &&& 15).toNat = group.toNat % 16 := by
    have shifted := toNat_nibble group 0
    simpa using shifted
  have isZero : ∀ nibble : UInt16, nibble = 0 ↔ nibble.toNat = 0 := fun nibble =>
    UInt16.toNat_inj.symm
  have digit : ∀ value : Nat, hexDigits[value % 16]?.getD 48 = hexByte (value % 16) :=
    fun value => getD_hexDigits _ (Nat.mod_lt _ (by decide))
  unfold writeGroupHex hexText
  rw [← reverse_reverse (numeral 16 _), ← divisionDigits_eq (by decide) (by decide) small]
  simp only [divisionDigits, Nat.div_div_eq_div_mul, findIdx?_cons, bne_iff_ne, ne_eq, isZero,
    first, second, third, fourth, findIdx?_nil]
  -- The leading digit is the first of the four that is not zero.
  by_cases four : group.toNat / 4096 = 0
  · by_cases three : group.toNat / 256 = 0
    case neg =>
      have leading : group.toNat / 256 % 16 ≠ 0 := by omega
      have more : group.toNat / 16 ≠ 0 := by omega
      simp [four, three, leading, more, second, third, fourth, digit]
    case pos =>
      by_cases two : group.toNat / 16 = 0
      · by_cases zero : group.toNat % 16 = 0
        case neg => simp [four, three, two, zero, fourth, digit]
        case pos => simp [four, three, two, zero, fourth, getD_hexDigits 0]
      · have leading : group.toNat / 16 % 16 ≠ 0 := by omega
        simp [four, three, two, leading, third, fourth, digit]
  · have leading : group.toNat / 4096 % 16 ≠ 0 := by omega
    have more : group.toNat / 256 ≠ 0 ∧ group.toNat / 16 ≠ 0 := by omega
    simp [four, leading, more, first, second, third, fourth, digit]

def IsZeroRun (segments : List UInt16) (run : Nat × Nat) : Prop :=
  2 ≤ run.2 ∧ run.1 + run.2 ≤ segments.length ∧
    ∀ index, run.1 ≤ index → index < run.1 + run.2 → segments[index]? = some 0

structure RunState.Scanned (state : RunState) (segments : List UInt16) : Prop where
  best : ∀ run ∈ state.best, IsZeroRun segments run
  current : state.currentLen ≠ 0 → state.currentStart + state.currentLen = segments.length
  zeros : ∀ index, segments.length - state.currentLen ≤ index → index < segments.length →
    segments[index]? = some 0
  fits : state.currentLen ≤ segments.length

variable {segments groups : List UInt16} {state : RunState} {text : Bytes} {octets : List UInt8}
  {byte : UInt8} {port : Option UInt16}

lemma IsZeroRun.append (isRun : IsZeroRun segments run) (more) :
    IsZeroRun (segments ++ more) run := by
  rcases isRun with ⟨long, fits, zeros⟩
  refine ⟨long, by rw [length_append]; omega, fun index after before => ?_⟩
  rw [getElem?_append_left (by omega)]
  exact zeros index after before

lemma RunState.Scanned.longest (scanned : state.Scanned segments) :
    ∀ run ∈ state.longest, IsZeroRun segments run := by
  unfold RunState.longest
  split
  case isTrue longer =>
    intro run isRun
    cases isRun
    simp only [Bool.and_eq_true, decide_eq_true_eq] at longer
    have ends := scanned.current (by omega)
    refine ⟨longer.1, le_of_eq ends, fun index after before => ?_⟩
    exact scanned.zeros index (by omega) (by omega)
  case isFalse => exact scanned.best

lemma RunState.Scanned.take (scanned : state.Scanned segments) (group) :
    (state.take (group, segments.length)).Scanned (segments ++ [group]) := by
  have fits := scanned.fits
  unfold RunState.take
  by_cases zero : group = 0
  · rw [if_pos zero]
    refine ⟨fun run isRun => (scanned.best run isRun).append _, fun _ => ?_, ?_, ?_⟩
    · have ends := scanned.current
      simp only [length_append, length_singleton]
      split <;> omega
    · intro index after before
      simp only [length_append, length_singleton] at after before
      by_cases last : index = segments.length
      · simp [last, zero]
      · rw [getElem?_append_left (by omega)]
        exact scanned.zeros index (by omega) (by omega)
    · simp only [length_append, length_singleton]
      omega
  · rw [if_neg zero]
    refine ⟨fun run isRun => (scanned.longest run isRun).append _, fun some => absurd rfl some,
      fun index after before => ?_, Nat.zero_le _⟩
    exact absurd before (not_lt.mpr after)

lemma zeroRun_isZeroRun (segments) : ∀ run ∈ zeroRun segments, IsZeroRun segments run := by
  have scanned : ∀ segments : List UInt16,
      (segments.zipIdx.foldl RunState.take ⟨none, 0, 0⟩).Scanned segments := by
    intro segments
    induction segments using reverseRecOn with
    | nil => exact ⟨nofun, nofun, nofun, le_refl 0⟩
    | append_singleton segments group induction =>
      rw [zipIdx_append, foldl_append]
      simp only [zipIdx_cons, zipIdx_nil, foldl_cons, foldl_nil, zero_add]
      exact induction.take group
  exact (scanned segments).longest

def groupsText (groups : List UInt16) : Bytes :=
  [colon].intercalate (groups.map fun group : UInt16 => hexText group.toNat)

def separated : (wroteAGroup : Bool) → List UInt16 → Bytes
  | _, [] => []
  | wroteAGroup, group :: groups =>
    (if wroteAGroup then [colon] else []) ++ hexText group.toNat ++ separated true groups

lemma separated_false (groups) : separated false groups = groupsText groups := by
  have inner : ∀ (group : UInt16) (groups : List UInt16),
      hexText group.toNat ++ separated true groups = groupsText (group :: groups) := by
    intro group groups
    induction groups generalizing group with
    | nil => simp [separated, groupsText]
    | cons next groups induction =>
      have rest := induction next
      simp only [separated, groupsText, map_cons, intercalate_cons_cons, ↓reduceIte] at rest ⊢
      rw [← rest]
      simp
  cases groups with
  | nil => rfl
  | cons group groups => exact inner group groups

section Writing

lemma writeGroupsFrom_past (wroteAGroup : Bool) (enough : segments.length ≤ index + fuel)
    (past : ∀ zeros ∈ run, zeros.1 < index) :
    writeGroupsFrom segments run fuel index wroteAGroup =
      separated wroteAGroup (segments.drop index) := by
  induction fuel generalizing index wroteAGroup with
  | zero =>
    rw [drop_eq_nil_of_le (by omega)]
    rfl
  | succ fuel induction =>
    unfold writeGroupsFrom
    by_cases done : segments.length ≤ index
    · rw [if_pos done, drop_eq_nil_of_le done]
      rfl
    have inside : index < segments.length := not_le.mp done
    have group : segments.getD index 0 = segments[index] :=
      getD_eq_getElem segments 0 inside
    have later : ∀ zeros ∈ run, zeros.1 < index + 1 := fun zeros isRun =>
      Nat.lt_succ_of_lt (past zeros isRun)
    rw [if_neg done, ← getElem_cons_drop inside, separated, group, writeGroupHex_eq,
      induction true (by omega) later]
    cases run with
    | none => rfl
    | some zeros =>
      rcases zeros with ⟨start, runLen⟩
      have notStart : index ≠ start := ne_of_gt (past _ rfl)
      simp only [notStart, ↓reduceIte]

lemma writeGroupsFrom_until (long : 2 ≤ runLen) (fits : start + runLen ≤ segments.length) :
    ∀ {fuel index : Nat} (wroteAGroup : Bool), segments.length ≤ index + fuel → index ≤ start →
      writeGroupsFrom segments (some (start, runLen)) fuel index wroteAGroup =
        separated wroteAGroup ((segments.take start).drop index) ++
          colon :: colon :: groupsText (segments.drop (start + runLen)) := by
  intro fuel
  induction fuel with
  | zero => intro index wroteAGroup enough before; omega
  | succ fuel induction =>
    intro index wroteAGroup enough before
    have inside : index < segments.length := by omega
    rw [writeGroupsFrom, if_neg (not_le.mpr inside)]
    by_cases atStart : index = start
    · have past : ∀ zeros ∈ some (start, runLen), zeros.1 < start + runLen := by
        intro zeros isRun
        cases isRun
        exact Nat.lt_add_of_pos_right (by omega)
      subst atStart
      have nothing : (segments.take index).drop index = [] :=
        drop_eq_nil_of_le (by simp)
      simp only [↓reduceIte, Nat.max_eq_left (show 1 ≤ runLen by omega), nothing]
      rw [writeGroupsFrom_past false (by omega) past, separated_false]
      rfl
    · have taken : index < (segments.take start).length := by
        rw [length_take]
        omega
      have group : segments.getD index 0 = (segments.take start)[index] := by
        rw [getElem_take, getD_eq_getElem segments 0 inside]
      simp only [atStart, ↓reduceIte]
      rw [induction true (by omega) (by omega), ← getElem_cons_drop taken, separated,
        writeGroupHex_eq, group]
      simp only [append_assoc]

end Writing

/-- The forms in which an address is written: all groups, or a run of zeros as `::`. -/
inductive IsIpv6Text : List UInt16 → Bytes → Prop
  | full (groups : List UInt16) : IsIpv6Text groups (groupsText groups)
  | shortened (left right : List UInt16) {zeros : Nat} (some : zeros ≠ 0) :
      IsIpv6Text (left ++ replicate zeros 0 ++ right)
        (groupsText left ++ colon :: colon :: groupsText right)

lemma writeIpv6Canonical_isIpv6Text (segments : Vector UInt16 8) :
    IsIpv6Text segments.toList (writeIpv6Canonical segments) := by
  have length : segments.toList.length = 8 := segments.length_toList
  have runs := zeroRun_isZeroRun segments.toList
  unfold writeIpv6Canonical
  cases isRun : zeroRun segments.toList with
  | none =>
    rw [writeGroupsFrom_past false (by omega) (by simp), drop_zero, separated_false]
    exact .full _
  | some run =>
    rcases run with ⟨start, runLen⟩
    rcases runs (start, runLen) isRun with ⟨long, fits, zeros⟩
    rw [writeGroupsFrom_until long fits false (by omega) (Nat.zero_le start), drop_zero,
      separated_false]
    have run : (segments.toList.drop start).take runLen = replicate runLen 0 := by
      rw [eq_replicate_iff]
      refine ⟨by rw [length_take, length_drop]; omega, fun group mem => ?_⟩
      rcases getElem?_of_mem mem with ⟨index, hit⟩
      have inside := lt_of_getElem? hit
      rw [length_take] at inside
      rw [getElem?_take_of_lt (by omega), getElem?_drop,
        zeros _ (by omega) (by simp only; omega)] at hit
      exact (Option.some.inj hit).symm
    have parts : segments.toList.take start ++ replicate runLen 0 ++
        segments.toList.drop (start + runLen) = segments.toList := by
      rw [← run, append_assoc, ← drop_drop, take_append_drop, take_append_drop]
    have written := IsIpv6Text.shortened (segments.toList.take start)
      (segments.toList.drop (start + runLen)) (show runLen ≠ 0 by omega)
    rwa [parts] at written

lemma length_groupsText_le (groups) : (groupsText groups).length ≤ 5 * groups.length := by
  have each : ∀ text ∈ groups.map fun group : UInt16 => hexText group.toNat, text.length ≤ 4 := by
    intro text mem
    rcases mem_map.mp mem with ⟨group, _, rfl⟩
    exact length_hexText_le (by decide) group.toNat_lt
  have joined := @length_intercalate_le _ colon _ 4 each
  rwa [length_map] at joined

lemma IsIpv6Text.length_le (isText : IsIpv6Text groups text) :
    text.length ≤ 5 * groups.length + 2 := by
  cases isText with
  | full => exact Nat.le_add_right_of_le (length_groupsText_le groups)
  | shortened left right =>
    have inLeft := length_groupsText_le left
    have inRight := length_groupsText_le right
    simp only [length_append, length_cons, length_replicate]
    omega

def isNodeByte (byte : UInt8) : Bool :=
  decide (48 ≤ byte ∧ byte ≤ 57 ∨ 97 ≤ byte ∧ byte ≤ 102) || byte == colon || byte == dot

lemma mem_v4Text
    (mem : byte ∈ [dot].intercalate (octets.map fun octet : UInt8 => decimalText octet.toNat)) :
    48 ≤ byte ∧ byte ≤ 57 ∨ byte = dot := by
  rcases mem_of_mem_intercalate mem with isDot | ⟨part, isPart, inPart⟩
  · exact .inr isDot
  · rcases mem_map.mp isPart with ⟨octet, _, rfl⟩
    exact .inl (mem_decimalText inPart)

lemma mem_groupsText (mem : byte ∈ groupsText groups) :
    (48 ≤ byte ∧ byte ≤ 57 ∨ 97 ≤ byte ∧ byte ≤ 102) ∨ byte = colon := by
  rcases mem_of_mem_intercalate mem with isColon | ⟨part, isPart, inPart⟩
  · exact .inr isColon
  · rcases mem_map.mp isPart with ⟨group, _, rfl⟩
    exact .inl (mem_hexText inPart)

lemma IsIpv6Text.mem (isText : IsIpv6Text groups text) (mem : byte ∈ text) :
    (48 ≤ byte ∧ byte ≤ 57 ∨ 97 ≤ byte ∧ byte ≤ 102) ∨ byte = colon := by
  cases isText with
  | full => exact mem_groupsText mem
  | shortened left right =>
    rw [mem_append, mem_cons, mem_cons] at mem
    rcases mem with inLeft | isColon | isColon | inRight
    · exact mem_groupsText inLeft
    · exact .inr isColon
    · exact .inr isColon
    · exact mem_groupsText inRight

/-! ## Reading back -/

/-- What is documented of the standard library's readers: they accept dotted decimal octets, the
textual forms of IPv6 addresses and decimal numbers. -/
structure TextReader.Standard (reader : TextReader) : Prop where
  v4 : ∀ octets : Vector UInt8 4, reader.v4
    ([dot].intercalate (octets.toList.map fun octet : UInt8 => decimalText octet.toNat)) =
      some octets
  v6 : ∀ (segments : Vector UInt16 8) (text : Bytes), IsIpv6Text segments.toList text →
    reader.v6 text = some segments
  u16 : ∀ port : UInt16, reader.u16 (decimalText port.toNat) = some port

lemma writeDecimal_port (port : UInt16) : writeDecimal port.toNat = decimalText port.toNat :=
  writeDecimal_eq (lt_trans port.toNat_lt (by decide))

lemma writeAddrText_v4 (octets : Vector UInt8 4) :
    writeAddrText (.v4 octets) =
      [dot].intercalate (octets.toList.map fun octet : UInt8 => decimalText octet.toNat) := by
  have each : ∀ octet ∈ octets.toList, writeDecimal octet.toNat = decimalText octet.toNat :=
    fun octet _ => writeDecimal_eq (lt_trans octet.toNat_lt (by decide))
  exact congrArg [dot].intercalate (map_congr_left each)

lemma writeAddrText_bytes (addr) : ∀ byte ∈ writeAddrText addr, isNodeByte byte := by
  intro byte mem
  unfold isNodeByte
  cases addr with
  | v4 octets =>
    rw [writeAddrText_v4] at mem
    rcases mem_v4Text mem with digit | isDot
    · simp [digit]
    · simp [isDot]
  | v6 segments =>
    rcases (writeIpv6Canonical_isIpv6Text segments).mem mem with digit | isColon
    · simp [digit]
    · simp [isColon]

lemma isNodeByte_plain :
    ∀ byte : UInt8, isNodeByte byte = true →
      byte ≤ 127 ∧ toAsciiLowercase byte ≠ 117 ∧ byte ≠ 95 ∧ byte ≠ 91 ∧ byte ≠ 93 :=
  forall_byte (by decide +kernel)

lemma classifyUnquoted_of_isNodeByte (reader) (plain : ∀ byte ∈ value, isNodeByte byte = true) :
    classifyUnquoted reader value = classifyPlain reader value := by
  have notUnknown : value.map toAsciiLowercase ≠ ascii "unknown" := by
    intro spelled
    have inText : (117 : UInt8) ∈ value.map toAsciiLowercase := by
      rw [spelled]
      decide
    rcases mem_map.mp inText with ⟨byte, mem, lowered⟩
    exact (isNodeByte_plain byte (plain byte mem)).2.1 lowered
  have notHead : ∀ byte, value.head? = some byte → byte ≠ 95 ∧ byte ≠ 91 := by
    intro byte isHead
    have isPlain := isNodeByte_plain byte (plain byte (mem_of_mem_head? isHead))
    exact ⟨isPlain.2.2.1, isPlain.2.2.2.1⟩
  rw [classifyUnquoted, if_neg notUnknown, if_neg fun isHead => (notHead _ isHead).1 rfl,
    if_neg fun isHead => (notHead _ isHead).2 rfl]

lemma writePort_bytes (port : UInt16) :
    ∀ byte ∈ decimalText port.toNat, isNodeByte byte = true := by
  intro byte mem
  simp [isNodeByte, mem_decimalText mem]

lemma normalizePort_of_ne {port} (notZero : some port ≠ some 0) :
    normalizePort port = some port := by
  rw [normalizePort, if_neg fun zero => notZero (congrArg some zero)]

section Reading

variable {reader : TextReader} (standard : reader.Standard)

include standard

lemma parseV4_written (octets : Vector UInt8 4) :
    parseV4 reader (writeAddrText (.v4 octets)) = some octets := by
  have isAscii := utf8Error_of_ascii fun byte mem =>
    (isNodeByte_plain byte (writeAddrText_bytes (.v4 octets) byte mem)).1
  rw [parseV4, if_pos isAscii, writeAddrText_v4]
  exact standard.v4 octets

lemma parseV6_written (segments : Vector UInt16 8) :
    parseV6 reader (writeAddrText (.v6 segments)) = some segments := by
  have isAscii := utf8Error_of_ascii fun byte mem =>
    (isNodeByte_plain byte (writeAddrText_bytes (.v6 segments) byte mem)).1
  rw [parseV6, if_pos isAscii]
  exact standard.v6 segments _ (writeIpv6Canonical_isIpv6Text segments)

lemma parsePort_written (port) : parsePort reader (decimalText port.toNat) = some port := by
  have isAscii := utf8Error_of_ascii fun byte mem =>
    (isNodeByte_plain byte (writePort_bytes port byte mem)).1
  rw [parsePort, if_pos isAscii]
  exact standard.u16 port

lemma classifyUnquoted_v4 (octets : Vector UInt8 4) (notZero : port ≠ some 0) :
    classifyUnquoted reader (writeNode (.v4 octets) port) = .addr (.v4 octets) port := by
  have noColon : colon ∉ writeAddrText (.v4 octets) := by
    intro mem
    rw [writeAddrText_v4] at mem
    exact absurd (mem_v4Text mem) (by decide)
  have text := writeAddrText_bytes (.v4 octets)
  cases port with
  | none =>
    have node : writeNode (.v4 octets) none = writeAddrText (.v4 octets) := by
      simp [writeNode, writeNodePort, IpAddr.isIpv6]
    rw [node, classifyUnquoted_of_isNodeByte reader text, classifyPlain, count_eq_zero.mpr noColon]
    simp only [parseV4_written standard octets]
  | some port =>
    have node : writeNode (.v4 octets) (some port) =
        writeAddrText (.v4 octets) ++ colon :: decimalText port.toNat := by
      simp [writeNode, writeNodePort, IpAddr.isIpv6, writeDecimal_port, colon]
    have portColon : colon ∉ decimalText port.toNat := fun mem =>
      absurd (mem_decimalText mem) (by decide)
    have plain : ∀ byte ∈ writeAddrText (.v4 octets) ++ colon :: decimalText port.toNat,
        isNodeByte byte = true := by
      rw [forall_mem_append, forall_mem_cons]
      exact ⟨text, rfl, writePort_bytes port⟩
    have one : (writeAddrText (.v4 octets) ++ colon :: decimalText port.toNat).count colon = 1 := by
      rw [count_append, count_eq_zero.mpr noColon, count_cons_self, count_eq_zero.mpr portColon]
    have notColon : ∀ byte ∈ writeAddrText (.v4 octets), (byte == colon) = false := by
      intro byte mem
      rw [beq_eq_false_iff_ne]
      rintro rfl
      exact noColon mem
    have past : (writeAddrText (.v4 octets) ++ colon :: decimalText port.toNat).drop
        ((writeAddrText (.v4 octets)).length + 1) = decimalText port.toNat := by
      rw [← drop_drop, drop_left, drop_one, tail_cons]
    rw [node, classifyUnquoted_of_isNodeByte reader plain, classifyPlain, one,
      findIdx?_append_cons notColon rfl]
    simp only [take_left, past, parseV4_written standard octets,
      parsePort_written standard port, normalizePort_of_ne notZero]

lemma classifyBracketed_written (segments : Vector UInt16 8) (tail : Bytes) :
    classifyBracketed reader ((91 :: writeAddrText (.v6 segments)) ++ 93 :: tail) =
      if tail = [] then .addr (.v6 segments) none
      else if tail.head? ≠ some colon then .unknown
      else (parsePort reader (tail.drop 1)).elim .unknown fun port =>
        .addr (.v6 segments) (normalizePort port) := by
  have notClose : ∀ byte ∈ 91 :: writeAddrText (.v6 segments), (byte == 93) = false := by
    rw [forall_mem_cons]
    refine ⟨rfl, fun byte mem => ?_⟩
    rw [beq_eq_false_iff_ne]
    exact (isNodeByte_plain byte (writeAddrText_bytes _ byte mem)).2.2.2.2
  have past : ((91 :: writeAddrText (.v6 segments)) ++ 93 :: tail).drop
      ((91 :: writeAddrText (.v6 segments)).length + 1) = tail := by
    rw [← drop_drop, drop_left, drop_one, tail_cons]
  rw [classifyBracketed, findIdx?_append_cons notClose rfl]
  simp only [take_left, drop_one, tail_cons, parseV6_written standard segments, past]
  cases parsePort reader tail.tail <;> rfl

lemma classifyUnquoted_v6 (segments : Vector UInt16 8) (notZero : port ≠ some 0) :
    classifyUnquoted reader (writeNode (.v6 segments) port) = .addr (.v6 segments) port := by
  have bracketed : ∀ tail : Bytes,
      classifyUnquoted reader ((91 :: writeAddrText (.v6 segments)) ++ 93 :: tail) =
        classifyBracketed reader ((91 :: writeAddrText (.v6 segments)) ++ 93 :: tail) := by
    intro tail
    rfl
  cases port with
  | none =>
    have node : writeNode (.v6 segments) none =
        (91 :: writeAddrText (.v6 segments)) ++ 93 :: [] := by
      simp [writeNode, writeNodePort, IpAddr.isIpv6]
    rw [node, bracketed, classifyBracketed_written standard, if_pos rfl]
  | some port =>
    have node : writeNode (.v6 segments) (some port) =
        (91 :: writeAddrText (.v6 segments)) ++ 93 :: colon :: decimalText port.toNat := by
      simp [writeNode, writeNodePort, IpAddr.isIpv6, writeDecimal_port, colon]
    rw [node, bracketed, classifyBracketed_written standard]
    simp only [reduceCtorEq, ↓reduceIte, head?_cons, ne_eq, not_true_eq_false, drop_one,
      tail_cons, parsePort_written standard port, Option.elim_some, normalizePort_of_ne notZero]

lemma classifyUnquoted_writeNode (addr) (notZero : port ≠ some 0) :
    classifyUnquoted reader (writeNode addr port) = .addr addr port := by
  cases addr with
  | v4 octets => exact classifyUnquoted_v4 standard octets notZero
  | v6 segments => exact classifyUnquoted_v6 standard segments notZero

end Reading

lemma writeNode_bytes (addr port) :
    ∀ byte ∈ writeNode addr port, isNodeByte byte = true ∨ byte = 91 ∨ byte = 93 := by
  have text : ∀ byte ∈ writeAddrText addr, isNodeByte byte = true ∨ byte = 91 ∨ byte = 93 :=
    fun byte mem => .inl (writeAddrText_bytes addr byte mem)
  rw [writeNode, forall_mem_append]
  constructor
  · split
    case isTrue =>
      simp only [cons_append, forall_mem_cons, forall_mem_append, mem_singleton, forall_eq]
      exact ⟨by decide, text, by decide⟩
    case isFalse => exact text
  · cases port with
    | none => exact nofun
    | some port =>
      simp only [writeNodePort, forall_mem_cons, writeDecimal_port]
      exact ⟨.inl rfl, fun byte mem => .inl (writePort_bytes port byte mem)⟩

lemma length_writeAddrText_le (addr) : (writeAddrText addr).length ≤ 42 := by
  cases addr with
  | v4 octets =>
    have each : ∀ text ∈ octets.toList.map fun octet : UInt8 => decimalText octet.toNat,
        text.length ≤ 3 := by
      intro text mem
      rcases mem_map.mp mem with ⟨octet, _, rfl⟩
      exact length_decimalText_le (by decide) (lt_trans octet.toNat_lt (by decide))
    have joined := @length_intercalate_le _ dot _ 3 each
    rw [length_map, Vector.length_toList] at joined
    rw [writeAddrText_v4]
    omega
  | v6 segments =>
    have short := (writeIpv6Canonical_isIpv6Text segments).length_le
    rw [Vector.length_toList] at short
    exact short

lemma length_writeNode_le (addr port) : (writeNode addr port).length ≤ 64 := by
  have text := length_writeAddrText_le addr
  have portText : (writeNodePort port).length ≤ 6 := by
    cases port with
    | none => exact Nat.zero_le _
    | some port =>
      simp only [writeNodePort, length_cons, writeDecimal_port]
      have short := @length_decimalText_le port.toNat 5 (by decide)
        (lt_trans port.toNat_lt (by decide))
      omega
  rw [writeNode, length_append]
  split
  · simp only [length_append, length_cons, length_nil]
    omega
  · omega

/-! ## A reader -/

def readGroups (parts : List Bytes) : List UInt16 :=
  let left := parts.takeWhile (· ≠ [])
  let right := (parts.reverse.takeWhile (· ≠ [])).reverse
  let read (texts : List Bytes) : List UInt16 := texts.map fun text => (hexadecimal text).toUInt16
  if left.length = parts.length then read left
  else read left ++ replicate (8 - left.length - right.length) 0 ++ read right

def vectorOf (size : Nat) (items : List Item) : Option (Vector Item size) :=
  if sized : items.length = size then some ⟨items.toArray, by simpa using sized⟩ else none

lemma vectorOf_toList (items : Vector Item size) : vectorOf size items.toList = some items := by
  rw [vectorOf, dif_pos items.length_toList, Option.some.injEq]
  exact Vector.toArray_inj.mp Array.toArray_toList

def lenientReader : TextReader where
  v4 text := vectorOf 4 ((text.splitOn dot).map fun part => (decimal part).toUInt8)
  v6 text := vectorOf 8 (readGroups (text.splitOn colon))
  u16 text := some (decimal text).toUInt16

lemma splitOn_decimals (some : octets ≠ []) :
    ([dot].intercalate (octets.map fun octet : UInt8 => decimalText octet.toNat)).splitOn dot =
      octets.map fun octet : UInt8 => decimalText octet.toNat := by
  refine splitOn_intercalate dot ?_ (by simpa using some)
  intro text mem dot
  rcases mem_map.mp mem with ⟨octet, _, rfl⟩
  exact absurd (mem_decimalText dot) (by decide)

lemma splitOn_groupsText (some : groups ≠ []) :
    (groupsText groups).splitOn colon = groups.map fun group : UInt16 => hexText group.toNat := by
  refine splitOn_intercalate colon ?_ (by simpa using some)
  intro text mem isColon
  rcases mem_map.mp mem with ⟨group, _, rfl⟩
  exact absurd (mem_hexText isColon) (by decide)

lemma takeWhile_texts (some : ∀ text ∈ texts, text ≠ []) (rest : List Bytes) :
    (texts ++ [] :: rest).takeWhile (· ≠ []) = texts := by
  rw [takeWhile_append_of_pos fun text mem => decide_eq_true (some text mem)]
  simp

lemma takeWhile_groupsText (groups) (rest : List Bytes) :
    ((groupsText groups).splitOn colon ++ [] :: rest).takeWhile (· ≠ []) =
        (groups.map fun group : UInt16 => hexText group.toNat) ∧
      (((groupsText groups).splitOn colon).reverse ++ [] :: rest).takeWhile (· ≠ []) =
        (groups.map fun group : UInt16 => hexText group.toNat).reverse := by
  have texts : ∀ text ∈ groups.map fun group : UInt16 => hexText group.toNat, text ≠ [] := by
    intro text mem
    rcases mem_map.mp mem with ⟨group, _, rfl⟩
    exact hexText_ne_nil group.toNat
  by_cases none : groups = []
  · subst none
    exact ⟨rfl, rfl⟩
  · rw [splitOn_groupsText none]
    exact ⟨takeWhile_texts texts rest,
      takeWhile_texts (fun text mem => texts text (mem_reverse.mp mem)) rest⟩

lemma read_hexTexts (groups : List UInt16) :
    (groups.map fun group : UInt16 => hexText group.toNat).map (fun text =>
      (hexadecimal text).toUInt16) = groups := by
  rw [map_map]
  apply map_id''
  simp [hexadecimal_hexText]

lemma readGroups_of_isIpv6Text (eight : groups.length = 8) (isText : IsIpv6Text groups text) :
    readGroups (text.splitOn colon) = groups := by
  cases isText with
  | full =>
    have some : groups ≠ [] := by
      rintro rfl
      cases eight
    have all : (groups.map fun group : UInt16 => hexText group.toNat).takeWhile (· ≠ []) =
        groups.map fun group : UInt16 => hexText group.toNat := by
      rw [takeWhile_eq_self_iff]
      intro text mem
      rcases mem_map.mp mem with ⟨group, _, rfl⟩
      exact decide_eq_true (hexText_ne_nil group.toNat)
    simp only [readGroups, splitOn_groupsText some, all, ↓reduceIte, read_hexTexts]
  | shortened left right isSome =>
    rename_i zeros
    have parts : (groupsText left ++ colon :: colon :: groupsText right).splitOn colon =
        (groupsText left).splitOn colon ++ [] :: (groupsText right).splitOn colon := by
      rw [splitOn_append_cons_self]
      exact congrArg _ (splitOn_append_cons_self [] (groupsText right))
    have inLeft := (takeWhile_groupsText left ((groupsText right).splitOn colon)).1
    have inRight := (takeWhile_groupsText right ((groupsText left).splitOn colon).reverse).2
    have reversed : ((groupsText left).splitOn colon ++
        [] :: (groupsText right).splitOn colon).reverse =
          ((groupsText right).splitOn colon).reverse ++
            [] :: ((groupsText left).splitOn colon).reverse := by simp
    have emptyPart : (left.map fun group : UInt16 => hexText group.toNat).length ≠
        ((groupsText left).splitOn colon ++ [] :: (groupsText right).splitOn colon).length := by
      intro same
      have whole := ( takeWhile_prefix (· ≠ [])).eq_of_length (inLeft ▸ same)
      have mem : ([] : Bytes) ∈ left.map fun group : UInt16 => hexText group.toNat := by
        rw [← inLeft, whole]
        exact mem_append_right _ mem_cons_self
      rcases mem_map.mp mem with ⟨group, _, isNil⟩
      exact hexText_ne_nil group.toNat isNil
    have count : 8 - left.length - right.length = zeros := by
      simp only [length_append, length_replicate] at eight
      omega
    rw [length_map] at emptyPart
    simp only [readGroups, parts, inLeft, reversed, inRight, reverse_reverse, read_hexTexts,
      length_map, count]
    rw [if_neg emptyPart]

lemma lenientReader_standard : lenientReader.Standard where
  v4 octets := by
    have some : octets.toList ≠ [] := by
      rw [← length_pos_iff, Vector.length_toList]
      decide
    have values : (octets.toList.map fun octet : UInt8 => decimalText octet.toNat).map
        (fun part => (decimal part).toUInt8) = octets.toList := by
      rw [map_map]
      apply map_id''
      simp [decimal_decimalText]
    simp only [lenientReader, splitOn_decimals some, values, vectorOf_toList]
  v6 segments text isText := by
    simp only [lenientReader, readGroups_of_isIpv6Text segments.length_toList isText,
      vectorOf_toList]
  u16 port := by
    simp [lenientReader, decimal_decimalText]

end IronTraffic.Http
