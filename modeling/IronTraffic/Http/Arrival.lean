import IronTraffic.Foundation.Fallible
import IronTraffic.Http.Head

/-! # Heads that arrive in pieces

The parser sees longer and longer front parts of one byte stream. What it says
about a front part agrees with what it says about the whole, except that a head
padded past `maxHeadBytes` is refused when it arrives in pieces.
-/

namespace IronTraffic.Http

open List

variable {items : List Item} {count terminator : Nat} {region part : Bytes} {head : RawHead}

lemma slice_take (inside : stop ≤ count) :
    slice (items.take count) start stop = slice items start stop := by
  unfold slice
  rw [length_take]
  by_cases bounds : start ≤ stop ∧ stop ≤ items.length
  · rw [if_pos bounds, if_pos (by omega), drop_take, take_take]
    congr 2
    omega
  · rw [if_neg bounds, if_neg (by omega)]

/-! ## The bare CR and bare LF check -/

def Paired (region : Bytes) : Prop :=
  ∀ (index : Nat) (byte : UInt8), region[index]? = some byte →
    (byte = 13 → region[index + 1]? = some 10) ∧
      (byte = 10 → 0 < index ∧ region[index - 1]? = some 13)

lemma bareCheckAt_eq_ok :
    bareCheckAt region index byte = .ok () ↔
      (byte = 13 → region[index + 1]? = some 10) ∧
        (byte = 10 → 0 < index ∧ region[index - 1]? = some 13) := by
  unfold bareCheckAt rejectIf
  by_cases isCr : byte = 13
  · subst byte
    simp
  · by_cases isLf : byte = 10
    · subst byte
      simp [Nat.pos_iff_ne_zero]
    · simp [isCr, isLf]

lemma forM_eq_ok {visit : Item → Except Reason Unit} :
    items.forM visit = .ok () ↔ ∀ item ∈ items, visit item = .ok () := by
  induction items with
  | nil => simp [forM_nil, pure, Except.pure]
  | cons item rest induction =>
    show (visit item >>= fun _ => rest.forM visit) = .ok () ↔ _
    rw [bind_eq_ok_iff, forall_mem_cons, ← induction]
    constructor
    · rintro ⟨_, first, others⟩
      exact ⟨first, others⟩
    · intro both
      exact ⟨(), both⟩

lemma checkBareCrLf_eq_ok : checkBareCrLf region = .ok () ↔ Paired region := by
  rw [checkBareCrLf, forM_eq_ok]
  constructor
  · intro checked index byte hit
    have mem : (byte, index) ∈ region.zipIdx := by
      rw [mem_zipIdx_iff_getElem?]
      exact hit
    exact bareCheckAt_eq_ok.mp (checked _ mem)
  · intro paired item mem
    rw [mem_zipIdx_iff_getElem?] at mem
    exact bareCheckAt_eq_ok.mpr (paired _ _ mem)

lemma checkBareCrLf_cases (region : Bytes) :
    checkBareCrLf region = .ok () ∨ ∃ reason, checkBareCrLf region = .error reason := by
  cases outcome : checkBareCrLf region with
  | ok => exact .inl rfl
  | error reason => exact .inr ⟨reason, rfl⟩

lemma paired_take (paired : Paired region) (count : Nat) :
    Paired (bareCheckRegion (region.take count) none) := by
  show Paired (if (region.take count).getLast? = some 13 then (region.take count).dropLast
    else region.take count)
  generalize arrived : region.take count = part
  have early : ∀ spot : Nat, spot < part.length → part[spot]? = region[spot]? := by
    intro spot inside
    rw [← arrived, length_take] at inside
    rw [← arrived, getElem?_take_of_lt (by omega)]
  have final : part.getLast? = part[part.length - 1]? := getLast?_eq_getElem?
  split
  case isTrue endsInCr =>
    rw [endsInCr] at final
    intro index byte hit
    have inside := lt_of_getElem? hit
    rw [length_dropLast] at inside
    rw [getElem?_dropLast, if_pos inside, early index (by omega)] at hit
    rcases paired index byte hit with ⟨followed, preceded⟩
    constructor
    · intro isCr
      have next := followed isCr
      have notLast : index + 1 ≠ part.length - 1 := by
        intro last
        rw [← last, early (index + 1) (by omega), next] at final
        cases final
      rw [getElem?_dropLast, if_pos (by omega), early (index + 1) (by omega)]
      exact next
    · intro isLf
      rcases preceded isLf with ⟨positive, previous⟩
      rw [getElem?_dropLast, if_pos (by omega), early (index - 1) (by omega)]
      exact ⟨positive, previous⟩
  case isFalse notCr =>
    intro index byte hit
    have inside := lt_of_getElem? hit
    have original := hit
    rw [early index inside] at hit
    rcases paired index byte hit with ⟨followed, preceded⟩
    constructor
    · intro isCr
      have notLast : index ≠ part.length - 1 := by
        intro last
        rw [final, ← last, original, isCr] at notCr
        exact notCr rfl
      rw [early (index + 1) (by omega)]
      exact followed isCr
    · intro isLf
      rcases preceded isLf with ⟨positive, previous⟩
      rw [early (index - 1) (by omega)]
      exact ⟨positive, previous⟩

lemma paired_front (paired : Paired (bareCheckRegion buf none)) (inside : count ≤ buf.length) :
    Paired (bareCheckRegion (buf.take count) none) := by
  rcases Nat.lt_or_eq_of_le inside with shorter | whole
  · change Paired (if buf.getLast? = some 13 then buf.dropLast else buf) at paired
    split at paired
    · have front := paired_take paired count
      rw [dropLast_eq_take, take_take, min_eq_left (by omega)] at front
      exact front
    · exact paired_take paired count
  · rw [whole, take_length]
    exact paired

/-! ## Field lines and the first line -/

section Front

variable {buf : Bytes} {limits : ClampedLimits}

lemma parseFieldLinesFrom_take (arrived : terminator + 2 ≤ count) (turns pos : Nat)
    (fields budget) :
    parseFieldLinesFrom (buf.take count) terminator limits underscores turns pos fields budget =
      parseFieldLinesFrom buf terminator limits underscores turns pos fields budget := by
  induction turns generalizing pos fields budget with
  | zero =>
    rfl
  | succ turns induction =>
    rw [parseFieldLinesFrom, parseFieldLinesFrom, slice_take arrived]
    split
    · cases sliced : slice buf pos (terminator + 2) with
      | none => rfl
      | some region =>
        cases hit : findSub crlf region with
        | none =>
          simp only [orReject, bind, Except.bind, hit]
        | some rel =>
          have length : region.length = terminator + 2 - pos := by
            unfold slice at sliced
            split at sliced
            case isFalse => cases sliced
            case isTrue bounds =>
              cases sliced
              rw [length_take, length_drop]
              omega
          have inside := findSub_le hit
          simp only [orReject, bind, Except.bind, hit]
          rw [slice_take (by omega)]
          simp only [induction]
    · rfl

section

variable (hit : findSub (crlf ++ crlf) buf = some terminator)

include hit

lemma findSub_crlf_of_terminator : ∃ first ≤ terminator, findSub crlf buf = some first := by
  rcases findSub_found hit with ⟨before, after, equal, length⟩
  rcases findSub_of_append before (crlf ++ after) with ⟨first, bound, early⟩
  refine ⟨first, by omega, ?_⟩
  rw [equal]
  simpa using early

lemma firstLine_take (arrived : terminator + 4 ≤ count) :
    firstLine limits (buf.take count) = firstLine limits buf := by
  rcases findSub_crlf_of_terminator hit with ⟨first, bound, early⟩
  have length : crlf.length = 2 := rfl
  unfold firstLine
  rw [findSub_take early (by omega), early]
  simp only [orReject, bind, Except.bind]
  rw [slice_take (by omega)]

lemma requestHeadAt_take (parser : H1Parser) (arrived : terminator + 4 ≤ count) :
    parser.requestHeadAt (buf.take count) terminator = parser.requestHeadAt buf terminator := by
  unfold H1Parser.requestHeadAt
  rw [firstLine_take hit arrived]
  simp only [parseFieldLines, parseFieldLinesFrom_take (show terminator + 2 ≤ count by omega)]

end

end Front

/-! ## The parser on front parts -/

section Parser

variable (parser : H1Parser) {buf : Bytes}

/-- What the parser says about front parts of the buffer agrees with what it says
about the buffer. -/
structure ArrivalIndependent (buf : Bytes) : Prop where
  complete : ∀ head consumed, parser.parseRequestHead buf = .ok (.complete head consumed) →
    ∀ count ≤ buf.length,
      (count < consumed → parser.parseRequestHead (buf.take count) = .ok .needsMore) ∧
      (consumed ≤ count → parser.parseRequestHead (buf.take count) = .ok (.complete head consumed))
  refused : ∀ count ≤ buf.length, ∀ reason,
    parser.parseRequestHead (buf.take count) = .error reason →
      ∃ other, parser.parseRequestHead buf = .error other

/-- The head, if it ends in the buffer, ends within `maxHeadBytes` and one byte. -/
def HeadFits (limits : ClampedLimits) (buf : Bytes) : Prop :=
  ∀ terminator, findSub (crlf ++ crlf) buf = some terminator →
    terminator + 4 ≤ maxHeadBytes limits + 1

variable {parser}

lemma parseRequestHead_cases (buf : Bytes) :
    (∃ reason, parser.parseRequestHead buf = .error reason) ∨
    (parser.parseRequestHead buf = .ok .needsMore ∧ findSub (crlf ++ crlf) buf = none ∧
      Paired (bareCheckRegion buf none) ∧ buf.length ≤ maxHeadBytes parser.limits) ∨
    ∃ terminator head, parser.parseRequestHead buf = .ok (.complete head (terminator + 4)) ∧
      findSub (crlf ++ crlf) buf = some terminator ∧
      Paired (bareCheckRegion buf (some terminator)) ∧
      parser.requestHeadAt buf terminator = .ok head := by
  unfold H1Parser.parseRequestHead locateTerminator
  cases hit : findSub (crlf ++ crlf) buf with
  | none =>
    rcases checkBareCrLf_cases (bareCheckRegion buf none) with passed | ⟨reason, failed⟩
    · by_cases long : maxHeadBytes parser.limits < buf.length
      · left
        refine ⟨.headerListTooLarge, ?_⟩
        simp only [passed, bind, Except.bind, if_pos long]
      · right
        left
        refine ⟨?_, rfl, checkBareCrLf_eq_ok.mp passed, Nat.le_of_not_lt long⟩
        simp only [passed, bind, Except.bind, if_neg long]
    · left
      refine ⟨reason, ?_⟩
      simp only [failed, bind, Except.bind]
  | some terminator =>
    rcases checkBareCrLf_cases (bareCheckRegion buf (some terminator)) with
      passed | ⟨reason, failed⟩
    · cases parsed : parser.requestHeadAt buf terminator with
      | error reason =>
        left
        refine ⟨reason, ?_⟩
        simp only [passed, bind, Except.bind, parsed]
      | ok head =>
        right
        right
        refine ⟨terminator, head, ?_, rfl, checkBareCrLf_eq_ok.mp passed, parsed⟩
        simp only [passed, bind, Except.bind, parsed]
    · left
      refine ⟨reason, ?_⟩
      simp only [failed, bind, Except.bind]

lemma bareCheckRegion_found (hit : findSub (crlf ++ crlf) buf = some terminator) :
    bareCheckRegion buf (some terminator) = buf.take (terminator + 4) := by
  have inside := findSub_le hit
  have length : (crlf ++ crlf).length = 4 := rfl
  show (slice buf 0 (terminator + 4)).getD buf = _
  rw [slice, if_pos (by omega)]
  rfl

lemma parseRequestHead_incomplete (absent : findSub (crlf ++ crlf) part = none)
    (paired : Paired (bareCheckRegion part none)) :
    parser.parseRequestHead part = if maxHeadBytes parser.limits < part.length then
      .error .headerListTooLarge else .ok .needsMore := by
  unfold H1Parser.parseRequestHead locateTerminator
  simp only [absent, checkBareCrLf_eq_ok.mpr paired, bind, Except.bind]
  by_cases long : maxHeadBytes parser.limits < part.length
  · simp only [if_pos long]
  · simp only [if_neg long]

lemma parseRequestHead_complete (hit : findSub (crlf ++ crlf) part = some terminator)
    (paired : Paired (bareCheckRegion part (some terminator)))
    (parsed : parser.requestHeadAt part terminator = .ok head) :
    parser.parseRequestHead part = .ok (.complete head (terminator + 4)) := by
  unfold H1Parser.parseRequestHead locateTerminator
  simp only [hit, checkBareCrLf_eq_ok.mpr paired, bind, Except.bind, parsed]

lemma parseRequestHead_take (hit : findSub (crlf ++ crlf) buf = some terminator)
    (paired : Paired (bareCheckRegion buf (some terminator)))
    (parsed : parser.requestHeadAt buf terminator = .ok head) (inside : count ≤ buf.length) :
    parser.parseRequestHead (buf.take count) = if terminator + 4 ≤ count then
      .ok (.complete head (terminator + 4)) else if maxHeadBytes parser.limits < count then
      .error .headerListTooLarge else .ok .needsMore := by
  have length : (crlf ++ crlf).length = 4 := rfl
  rw [bareCheckRegion_found hit] at paired
  split
  case isTrue arrived =>
    have early := findSub_take hit (by omega : terminator + (crlf ++ crlf).length ≤ count)
    apply parseRequestHead_complete early
    · rw [bareCheckRegion_found early, take_take, min_eq_left arrived]
      exact paired
    · rw [requestHeadAt_take hit parser arrived]
      exact parsed
  case isFalse short =>
    have pairedFront := paired_take paired count
    rw [take_take, min_eq_left (by omega)] at pairedFront
    rw [parseRequestHead_incomplete (findSub_take_none hit (by omega)) pairedFront,
      length_take, min_eq_left inside]

lemma parseRequestHead_take_incomplete (absent : findSub (crlf ++ crlf) buf = none)
    (paired : Paired (bareCheckRegion buf none)) (short : buf.length ≤ maxHeadBytes parser.limits)
    (inside : count ≤ buf.length) : parser.parseRequestHead (buf.take count) = .ok .needsMore := by
  rw [parseRequestHead_incomplete (findSub_take_of_none absent count)
    (paired_front paired inside), length_take, if_neg (by omega)]

variable (parser)

lemma arrivalIndependent_of_refused (failed : parser.parseRequestHead buf = .error reason) :
    ArrivalIndependent parser buf := by
  refine ⟨?_, fun _ _ _ _ => ⟨reason, failed⟩⟩
  intro head consumed done
  rw [failed] at done
  cases done

lemma arrivalIndependent_of_fits (fits : HeadFits parser.limits buf) :
    ArrivalIndependent parser buf := by
  rcases @parseRequestHead_cases parser buf with
    ⟨reason, failed⟩ | ⟨waiting, absent, paired, short⟩ |
    ⟨terminator, head, done, hit, paired, parsed⟩
  · exact arrivalIndependent_of_refused parser failed
  · refine ⟨?_, ?_⟩
    · intro head consumed done
      rw [waiting] at done
      cases done
    · intro count inside reason failed
      rw [parseRequestHead_take_incomplete absent paired short inside] at failed
      cases failed
  · have bound := fits terminator hit
    refine ⟨?_, ?_⟩
    · intro other consumed complete count inside
      rw [done] at complete
      cases complete
      rw [parseRequestHead_take hit paired parsed inside]
      constructor
      · intro short
        rw [if_neg (by omega), if_neg (by omega)]
      · intro arrived
        rw [if_pos arrived]
    · intro count inside reason failed
      rw [parseRequestHead_take hit paired parsed inside] at failed
      split at failed
      · cases failed
      · rw [if_neg (by omega)] at failed
        cases failed

/-- The verdict on a head does not depend on how its bytes arrive exactly if it is refused when
whole, or fits. -/
theorem arrivalIndependent_iff (parser : H1Parser) (buf : Bytes) :
    ArrivalIndependent parser buf ↔
      (∃ reason, parser.parseRequestHead buf = .error reason) ∨ HeadFits parser.limits buf := by
  constructor
  · intro independent
    rcases @parseRequestHead_cases parser buf with
      refused | ⟨_, absent, _⟩ | ⟨terminator, head, complete, hit, paired, parsed⟩
    · exact .inl refused
    · exact .inr fun terminator hit => absurd (absent.symm.trans hit) (by simp)
    · refine .inr fun other again => ?_
      cases hit.symm.trans again
      by_contra long
      -- The front part one byte longer than the bound is refused, though it is no whole head.
      have inside := findSub_le hit
      have length : (crlf ++ crlf).length = 4 := rfl
      have bound : maxHeadBytes parser.limits + 1 ≤ buf.length := by omega
      have waits := (independent.complete _ _ complete _ bound).1 (by omega)
      rw [parseRequestHead_take hit paired parsed bound, if_neg (by omega),
        if_pos (by omega)] at waits
      cases waits
  · rintro (⟨reason, refused⟩ | fits)
    · exact arrivalIndependent_of_refused parser refused
    · exact arrivalIndependent_of_fits parser fits

end Parser

/-! ## A padded head -/

def tightLimits : ClampedLimits :=
  Limits.clamped { Limits.default with maxRequestLineBytes := 16, maxHeaderListBytes := 40 }

def tightParser : H1Parser := ⟨tightLimits, .reject⟩

def paddedHead : Bytes :=
  ascii "GET / HTTP/1.1\r\n" ++ ascii "a:" ++ replicate 60 32 ++ ascii "v\r\n\r\n"

/-- The whole head is accepted, and its first seventy bytes are refused. -/
theorem paddedHead_depends_on_arrival :
    (∃ head, tightParser.parseRequestHead paddedHead = .ok (.complete head 83)) ∧
    tightParser.parseRequestHead (paddedHead.take 70) = .error .headerListTooLarge ∧
    ¬ArrivalIndependent tightParser paddedHead := by
  have whole : tightParser.parseRequestHead paddedHead =
      .ok (.complete ⟨⟨0, 3⟩, ⟨4, 5⟩, .http11, [⟨⟨16, 17⟩, ⟨78, 79⟩, false⟩]⟩ 83) := by
    decide +kernel
  have front : tightParser.parseRequestHead (paddedHead.take 70) = .error .headerListTooLarge := by
    decide +kernel
  refine ⟨⟨_, whole⟩, front, ?_⟩
  intro independent
  have waits := (independent.complete _ _ whole 70 (by decide)).1 (by decide)
  rw [front] at waits
  cases waits

end IronTraffic.Http
