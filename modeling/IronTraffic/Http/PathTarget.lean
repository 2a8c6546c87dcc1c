import IronTraffic.Http.PathNormal

/-! # Normalized targets

What `parse_into` accepts it accepts again, unchanged. Under the rejecting policy, an
origin that decodes the path once more sees the same segments.
-/

namespace IronTraffic.Http

open List

def withQuery (path : Bytes) : Option Bytes → Bytes
  | none => path
  | some query => path ++ question :: query

variable {policy : PathPolicy} {limits : ClampedLimits}

variable {rawPath path rest : Bytes} {rawQuery query : Option Bytes} {byte high low : UInt8}

lemma withQuery_splits (free : question ∉ rawPath) (query : Option Bytes) :
    let questionMark := (withQuery rawPath query).findIdx? (· == question)
    questionMark.elim (withQuery rawPath query)
        (fun spot => (withQuery rawPath query).take spot) = rawPath ∧
    questionMark.map (fun spot => (withQuery rawPath query).drop (spot + 1)) = query := by
  have nowhere : rawPath.findIdx? (· == question) = none := by
    rw [findIdx?_eq_none_iff]
    intro byte mem
    exact beq_eq_false_iff_ne.mpr (fun same => free (same ▸ mem))
  cases query with
  | none => simp only [withQuery, nowhere, Option.elim_none, Option.map_none, and_self]
  | some query =>
    have hit : (rawPath ++ question :: query).findIdx? (· == question) = some rawPath.length := by
      rw [findIdx?_append, nowhere]
      simp [findIdx?_cons]
    simp only [withQuery, hit, Option.elim_some, take_left, Option.map_some, true_and]
    rw [← drop_drop, drop_left, drop_one, tail_cons]

lemma exists_withQuery (raw : Bytes) :
    ∃ rawPath query, question ∉ rawPath ∧ raw = withQuery rawPath query := by
  by_cases present : question ∈ raw
  · rcases eq_append_cons_of_mem present with ⟨rawPath, query, equal, free⟩
    exact ⟨rawPath, some query, free, equal⟩
  · exact ⟨raw, none, present, rfl⟩

/-- What `parse_into` checks and returns. -/
lemma parseInto_eq_ok_iff (free : question ∉ rawPath) :
    parseInto (withQuery rawPath rawQuery) policy limits = .ok (path, query) ↔
      (withQuery rawPath rawQuery).length ≤ limits.maxPathBytes ∧ 35 ∉ withQuery rawPath rawQuery ∧
      (∀ bytes ∈ rawQuery, ∀ byte ∈ bytes, queryByteOk byte) ∧
      (∃ rest, rawPath = slash :: rest) ∧ normalizePath policy rawPath = .ok path ∧
      query = rawQuery := by
  rcases withQuery_splits free rawQuery with ⟨splitPath, splitQuery⟩
  simp only [parseInto, splitQuery, splitPath, rejectIf_bind_eq_ok]
  rw [bind_eq_ok_iff]
  have short : decide (limits.maxPathBytes < (withQuery rawPath rawQuery).length) = false ↔
      (withQuery rawPath rawQuery).length ≤ limits.maxPathBytes := by simp
  have noHash : (withQuery rawPath rawQuery).contains 35 = false ↔
      35 ∉ withQuery rawPath rawQuery := by simp
  have queryOk : (rawQuery.any fun query => !query.all queryByteOk) = false ↔
      ∀ bytes ∈ rawQuery, ∀ byte ∈ bytes, queryByteOk byte := by
    cases rawQuery with
    | none | some => simp
  have rooted : (rawPath.head? != some slash) = false ↔ ∃ rest, rawPath = slash :: rest := by
    cases rawPath with
    | nil | cons => simp
  rw [short, noHash, queryOk, rooted]
  constructor
  · rintro ⟨_, short, noHash, queryOk, _, rooted, normal, normalizes, equal⟩
    cases equal
    exact ⟨short, noHash, queryOk, rooted, normalizes, rfl⟩
  · rintro ⟨short, noHash, queryOk, ⟨rest, rfl⟩, normalizes, rfl⟩
    refine ⟨?_, short, noHash, queryOk, rfl, ⟨rest, rfl⟩, path, normalizes, rfl⟩
    cases query with
    | none | some => rfl

lemma length_path_le (short : (withQuery rawPath rawQuery).length ≤ limits.maxPathBytes) :
    rawPath.length ≤ 2 ^ 32 := by
  have ceiling := limits.pathBytes
  cases rawQuery with
  | none =>
    rw [withQuery] at short
    omega
  | some query =>
    rw [withQuery, length_append] at short
    omega

/-! ## Normalization is a projection -/

lemma not_mem_withQuery (other : byte ≠ question) :
    byte ∉ withQuery path query ↔ byte ∉ path ∧ ∀ bytes ∈ query, byte ∉ bytes := by
  cases query with
  | none => simp [withQuery]
  | some query => simp [withQuery, other]

lemma length_withQuery_le (shorter : path.length ≤ rawPath.length) (query) :
    (withQuery path query).length ≤ (withQuery rawPath query).length := by
  cases query with
  | none => exact shorter
  | some query =>
    simp only [withQuery, length_append]
    omega

/-- An accepted target is returned in a form that is accepted as it is: rooted, no
longer, without dot segments, with uppercase escapes of the bytes that have to stay
escaped, and with the query as it came. -/
theorem parseInto_projection {raw path : Bytes} {query : Option Bytes}
    (accepted : parseInto raw policy limits = .ok (path, query)) :
    parseInto (withQuery path query) policy limits = .ok (path, query) ∧
    (∃ rawPath, raw = withQuery rawPath query ∧ question ∉ rawPath ∧ path.length ≤ rawPath.length) ∧
    path.head? = some slash ∧
    (∀ segment ∈ segmentsOf slash path, segment ≠ ascii "." ∧ segment ≠ ascii "..") ∧
    ∀ front back, path = front ++ percent :: back → ∃ high low rest, back = high :: low :: rest ∧
        isUpperHexdigit high ∧ isUpperHexdigit low ∧ hexPairValue high low ≠ 0 ∧
        isUnreservedMinusDot (hexPairValue high low) = false := by
  rcases exists_withQuery raw with ⟨rawPath, rawQuery, free, equal⟩
  rw [equal] at accepted
  rcases (parseInto_eq_ok_iff free).mp accepted with
    ⟨short, noHash, queryOk, ⟨rest, rfl⟩, normalizes, rfl⟩
  have rawShort := length_path_le short
  rcases normalForm_of_normalizePath rawShort normalizes with
    ⟨segments, normal, path_eq, shorter⟩
  have canonical : isCanonical path := by
    rw [path_eq, isCanonical_joined, all_eq_true]
    exact normal.canonical
  have delimiters := canonical_ne_delimiter canonical
  have pathRooted : ∃ rest, path = slash :: rest := by
    cases segments with
    | nil => exact absurd rfl normal.nonempty
    | cons segment segments => exact ⟨_, path_eq.trans (joined_cons _ _)⟩
  refine ⟨?_, ⟨_, equal, free, shorter⟩, ?_, ?_, ?_⟩
  · refine (parseInto_eq_ok_iff fun mem => (delimiters _ mem).2 rfl).mpr
      ⟨le_trans (length_withQuery_le shorter query) short, ?_, queryOk, pathRooted, ?_, rfl⟩
    · rw [not_mem_withQuery (by decide)] at noHash ⊢
      exact ⟨fun mem => (delimiters _ mem).1 rfl, noHash.2⟩
    · have pathShort := le_trans shorter rawShort
      rw [path_eq] at pathShort ⊢
      exact normalizePath_of_normalForm pathShort normal
  · rcases pathRooted with ⟨rest, rooted⟩
    rw [rooted]
    rfl
  · rw [path_eq, segmentsOf_joined normal.nonempty normal.free]
    exact normal.plain
  · intro front back splits
    rw [splits] at canonical
    rcases keptEscape_of_percent canonical with ⟨high, low, rest, equal, kept⟩
    exact ⟨high, low, rest, equal, isKeptEscape_iff.mp kept⟩

theorem parseInto_dottedTarget :
    parseInto (ascii "/a/./b/../%41%2a?x=1") .default Limits.default.clamped =
      .ok (ascii "/a/A%2A", some (ascii "x=1")) ∧
    parseInto (ascii "/a/A%2A?x=1") .default Limits.default.clamped =
      .ok (ascii "/a/A%2A", some (ascii "x=1")) :=
  have accepted : parseInto (ascii "/a/./b/../%41%2a?x=1") .default Limits.default.clamped =
      .ok (ascii "/a/A%2A", some (ascii "x=1")) := by decide +kernel
  ⟨accepted, (parseInto_projection accepted).1⟩

/-! ## Decoding once more -/

def percentDecode : Bytes → Bytes
  | [] => []
  | byte :: rest =>
    if byte = percent then
      match rest with
      | high :: low :: rest => hexPairValue high low :: percentDecode rest
      | _ => byte :: rest
    else byte :: percentDecode rest

lemma percentDecode_plain (plain : byte ≠ percent) :
    percentDecode (byte :: rest) = byte :: percentDecode rest := by
  rw [percentDecode.eq_def]
  simp only [if_neg plain]

lemma percentDecode_escape :
    percentDecode (percent :: high :: low :: rest) =
      hexPairValue high low :: percentDecode rest := by
  rw [percentDecode.eq_def]
  simp only [if_true]

lemma percentDecode_append_slash (canonical : isCanonical front) (back : Bytes) :
    percentDecode (front ++ slash :: back) = percentDecode front ++
      slash :: percentDecode back := by
  replace canonical := Canonical.of_isCanonical canonical
  induction canonical with
  | nil => exact percentDecode_plain (by decide)
  | plain plain _ _ induction =>
    rw [cons_append, percentDecode_plain plain, percentDecode_plain plain, induction]
    rfl
  | escape _ _ _ _ _ induction =>
    simp only [cons_append]
    rw [percentDecode_escape, percentDecode_escape, induction]
    rfl

lemma percentDecode_joined (canonical : ∀ segment ∈ segments, isCanonical segment) :
    percentDecode (joined slash segments) = joined slash (segments.map percentDecode) := by
  induction segments with
  | nil => rfl
  | cons segment rest induction =>
    rcases forall_mem_cons.mp canonical with ⟨here, others⟩
    rw [map_cons, joined_cons, joined_cons, percentDecode_plain (by decide), ← induction others]
    cases rest with
    | nil => simp [percentDecode]
    | cons next rest =>
      rw [joined_cons, percentDecode_append_slash here, percentDecode_plain (by decide)]

lemma keptEscape_spelling (highUpper : isUpperHexdigit high) (lowUpper : isUpperHexdigit low) :
    (hexPairValue high low = slash → high = 50 ∧ low = 70) ∧
    (hexPairValue high low = 92 → high = 53 ∧ low = 67) ∧
    (hexPairValue high low = dot → high = 50 ∧ low = 69) := by
  have value := hexPairValue_toNat high low
  have lowSmall := (hexDigitValue_spec low).2.1
  rcases upperHexdigit_spec high highUpper with ⟨_, _, _, _, _, two, five, _⟩
  rcases upperHexdigit_spec low lowUpper with ⟨_, _, _, _, _, _, _, twelve, fourteen, fifteen⟩
  refine ⟨?_, ?_, ?_⟩
  · intro spelled
    rw [spelled, show slash.toNat = 47 from rfl] at value
    exact ⟨two (by omega), fifteen (by omega)⟩
  · intro spelled
    rw [spelled, show (92 : UInt8).toNat = 92 from rfl] at value
    exact ⟨five (by omega), twelve (by omega)⟩
  · intro spelled
    rw [spelled, show dot.toNat = 46 from rfl] at value
    exact ⟨two (by omega), fourteen (by omega)⟩

lemma hasEncodedSlash_escape
    (unescaped : hasEncodedSlash (percent :: high :: low :: rest) = false) :
    ¬(high = 50 ∧ low = 70) ∧ ¬(high = 53 ∧ low = 67) ∧ hasEncodedSlash rest = false := by
  simp only [hasEncodedSlash, Bool.or_eq_false_iff] at unescaped
  rcases unescaped with ⟨⟨noSlash, noBackslash⟩, _, _, others⟩
  refine ⟨?_, ?_, others⟩
  · rintro ⟨rfl, rfl⟩
    simp at noSlash
  · rintro ⟨rfl, rfl⟩
    simp at noBackslash

lemma percentDecode_ne {segment : Bytes} (canonical : isCanonical segment)
    (free : slash ∉ segment) (unescaped : hasEncodedSlash segment = false) :
    ∀ byte ∈ percentDecode segment, byte ≠ slash ∧ byte ≠ 92 ∧ byte ≠ 0 := by
  replace canonical := Canonical.of_isCanonical canonical
  induction canonical with
  | nil => simp [percentDecode]
  | plain plain ok _ induction =>
    rw [mem_cons, not_or] at free
    rw [hasEncodedSlash, Bool.or_eq_false_iff] at unescaped
    rcases (pathByte_spec _).2 ok with ⟨noNul, _, _, noBackslash⟩
    rw [percentDecode_plain plain, forall_mem_cons]
    exact ⟨⟨Ne.symm free.1, noBackslash, noNul⟩, induction free.2 unescaped.2⟩
  | escape highUpper lowUpper nonzero _ _ induction =>
    rcases keptEscape_spelling highUpper lowUpper with ⟨slashes, backslashes, _⟩
    rcases hasEncodedSlash_escape unescaped with ⟨noSlash, noBackslash, others⟩
    simp only [mem_cons, not_or] at free
    rw [percentDecode_escape, forall_mem_cons]
    exact ⟨⟨mt slashes noSlash, mt backslashes noBackslash, nonzero⟩,
      induction free.2.2.2 others⟩

lemma encodedDots_dot (rest : Bytes) :
    encodedDots (dot :: rest) = (encodedDots rest).map (· + 1) := by
  rw [encodedDots.eq_def]
  simp only [if_true]

lemma encodedDots_escapedDot (rest : Bytes) :
    encodedDots (percent :: 50 :: 69 :: rest) = (encodedDots rest).map (· + 1) := by
  rw [encodedDots.eq_def]
  simp only [if_neg (show percent ≠ dot by decide), if_true, and_self]

lemma encodedDots_of_percentDecode {segment : Bytes} (canonical : isCanonical segment) {count : Nat}
    (decodes : percentDecode segment = List.replicate count dot) :
    encodedDots segment = some count := by
  replace canonical := Canonical.of_isCanonical canonical
  induction canonical generalizing count with
  | nil =>
    cases count with
    | zero => rfl
    | succ count => cases decodes
  | plain plain _ _ induction =>
    rw [percentDecode_plain plain] at decodes
    cases count with
    | zero => cases decodes
    | succ count =>
      rcases List.cons.inj decodes with ⟨isDot, others⟩
      rw [isDot, encodedDots_dot, induction others]
      rfl
  | escape highUpper lowUpper _ _ _ induction =>
    cases count with
    | zero => cases decodes
    | succ count =>
      rcases List.cons.inj decodes with ⟨isDot, others⟩
      rcases (keptEscape_spelling highUpper lowUpper).2.2 isDot with ⟨rfl, rfl⟩
      rw [encodedDots_escapedDot, induction others]
      rfl

/-- Under the rejecting policy, an origin that decodes the path once more sees the
segments of the path, decoded, and neither dot segments nor NUL nor backslashes. -/
theorem percentDecode_parseInto {raw path : Bytes} {query : Option Bytes}
    (rejectsDots : policy.encodedDot = .reject) (rejectsSlashes : policy.encodedSlash = .reject)
    (accepted : parseInto raw policy limits = .ok (path, query)) :
    segmentsOf slash (percentDecode path) = (segmentsOf slash path).map percentDecode ∧
    (∀ segment ∈ segmentsOf slash (percentDecode path),
      segment ≠ ascii "." ∧ segment ≠ ascii "..") ∧
    0 ∉ percentDecode path ∧ 92 ∉ percentDecode path := by
  rcases exists_withQuery raw with ⟨rawPath, rawQuery, free, equal⟩
  rw [equal] at accepted
  rcases (parseInto_eq_ok_iff free).mp accepted with
    ⟨short, _, _, ⟨rest, rfl⟩, normalizes, _⟩
  rcases normalForm_of_normalizePath (length_path_le short) normalizes with
    ⟨segments, normal, path_eq, _⟩
  have bytes : ∀ segment ∈ segments, ∀ byte ∈ percentDecode segment,
      byte ≠ slash ∧ byte ≠ 92 ∧ byte ≠ 0 := fun segment mem =>
    percentDecode_ne (normal.canonical segment mem) (normal.free segment mem)
      (normal.slashes rejectsSlashes segment mem)
  have decoded := percentDecode_joined normal.canonical
  have decodedSegments : segmentsOf slash (percentDecode path) = segments.map percentDecode := by
    rw [path_eq, decoded]
    apply segmentsOf_joined (by simpa using normal.nonempty)
    intro segment mem
    rcases mem_map.mp mem with ⟨source, present, rfl⟩
    exact fun inside => (bytes source present slash inside).1 rfl
  have notIn : ∀ byte, byte ≠ slash → (∀ segment ∈ segments, byte ∉ percentDecode segment) →
      byte ∉ percentDecode path := by
    intro byte other nowhere mem
    rw [path_eq, decoded, joined, mem_flatMap] at mem
    rcases mem with ⟨segment, mapped, inside⟩
    rcases mem_map.mp mapped with ⟨source, present, rfl⟩
    rcases mem_cons.mp inside with same | inside
    · exact other same
    · exact nowhere source present inside
  refine ⟨?_, ?_, ?_, ?_⟩
  · rw [decodedSegments, path_eq, segmentsOf_joined normal.nonempty normal.free]
  · rw [decodedSegments]
    intro segment mem
    rcases mem_map.mp mem with ⟨source, present, rfl⟩
    have counted := normal.dots rejectsDots source present
    have canonical := normal.canonical source present
    unfold isEncodedDotSegment at counted
    constructor
    · intro isDot
      rw [@encodedDots_of_percentDecode _ canonical 1 isDot] at counted
      cases counted
    · intro isDotDot
      rw [@encodedDots_of_percentDecode _ canonical 2 isDotDot] at counted
      cases counted
  · exact notIn 0 (by decide) fun segment mem inside => (bytes segment mem 0 inside).2.2 rfl
  · exact notIn 92 (by decide) fun segment mem inside => (bytes segment mem 92 inside).2.1 rfl

theorem percentDecode_escapedTarget :
    parseInto (ascii "/a%3a/%2541/x/../b") .default Limits.default.clamped =
        .ok (ascii "/a%3A/%2541/b", none) ∧
      segmentsOf slash (percentDecode (ascii "/a%3A/%2541/b")) =
        (segmentsOf slash (ascii "/a%3A/%2541/b")).map percentDecode :=
  have accepted : parseInto (ascii "/a%3a/%2541/x/../b") .default Limits.default.clamped =
      .ok (ascii "/a%3A/%2541/b", none) := by decide +kernel
  ⟨accepted, (percentDecode_parseInto rfl rfl accepted).1⟩

end IronTraffic.Http
