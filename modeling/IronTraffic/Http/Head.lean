import IronTraffic.Foundation.Search
import IronTraffic.Http.Field

/-! # The HTTP/1 head parser

The parser keeps no state: it runs from the start of the buffer on every read.
-/

namespace IronTraffic.Http

def orReject (reason : RejectReason) : Option Value → Except RejectReason Value
  | some value => .ok value
  | none => .error reason

def rejectIf (condition : Bool) (reason : RejectReason) : Except RejectReason Unit :=
  if condition then .error reason else .ok ()

lemma rejectIf_bind_eq_ok :
    (rejectIf condition reason >>= next) = .ok value ↔ condition = false ∧ next () = .ok value := by
  cases condition with
  | false => exact ⟨fun gave => ⟨rfl, gave⟩, fun both => both.2⟩
  | true => exact ⟨nofun, fun both => nomatch both.1⟩

def makeSpan (start stop : Nat) : Except RejectReason Span := do
  rejectIf (decide (2 ^ 32 ≤ start)) .headerListTooLarge
  rejectIf (decide (2 ^ 32 ≤ stop)) .headerListTooLarge
  .ok ⟨start, stop⟩

structure RawField where
  name : Span
  value : Span
  needsLowercase : Bool
  deriving DecidableEq

structure RawHead where
  method : Span
  target : Span
  version : WireVersion
  fields : List RawField
  deriving DecidableEq

/-! ## Where the head ends -/

def crlf : Bytes := [13, 10]

def maxHeadBytes (limits : ClampedLimits) : Nat :=
  limits.maxRequestLineBytes + limits.maxHeaderListBytes + 2

/-- The bytes the bare CR and bare LF check runs over. A CR at the very end of an
incomplete head may still get its LF. -/
def bareCheckRegion (buf : Bytes) : Option Nat → Bytes
  | some terminator => (slice buf 0 (terminator + 4)).getD buf
  | none => if buf.getLast? = some 13 then buf.dropLast else buf

def bareCheckAt (region : Bytes) (index : Nat) (byte : UInt8) : Except RejectReason Unit :=
  if byte = 13 then rejectIf (region[index + 1]? != some 10) .bareCr
  else if byte = 10 then
    rejectIf (index == 0 || region[index - 1]? != some 13) .bareLf
  else .ok ()

def checkBareCrLf (region : Bytes) : Except RejectReason Unit :=
  region.zipIdx.forM fun item => bareCheckAt region item.2 item.1

def locateTerminator (buf : Bytes) (limits : ClampedLimits) :
    Except RejectReason (Option Nat) := do
  let terminator := findSub (crlf ++ crlf) buf
  checkBareCrLf (bareCheckRegion buf terminator)
  match terminator with
  | some spot => .ok (some spot)
  | none =>
    if maxHeadBytes limits < buf.length then .error .headerListTooLarge else .ok none

/-! ## Field lines -/

/-- The name of a field line: uppercase is noted, `_` is up to the policy. -/
def scanName (underscores : UnderscorePolicy) (name : Bytes) : Except RejectReason Bool :=
  name.foldlM (fun needsLowercase byte =>
    if isAsciiUppercase byte then .ok true
    else if byte = 95 then
      match underscores with
      | .reject => .error .fieldNameUnderscore
      | .mapToHyphen => .ok needsLowercase
    else if nameByteOk byte then .ok needsLowercase
    else .error .fieldNameInvalidByte) false

/-- One field line that starts at offset `pos`. -/
def parseFieldLine (limits : ClampedLimits) (underscores : UnderscorePolicy) (line : Bytes)
    (pos : Nat) (budget : HeaderListBudget) :
    Except RejectReason (RawField × HeaderListBudget) := do
  rejectIf (line.head?.any isOws) .obsFold
  let colonAt ← orReject .requestLineMalformed (line.findIdx? (· == colon))
  rejectIf (colonAt == 0) .fieldNameEmpty
  rejectIf ((line)[colonAt - 1]?.any isOws) .whitespaceBeforeColon
  let nameRaw := line.take colonAt
  let needsLowercase ← scanName underscores nameRaw
  let valueRaw := line.drop (colonAt + 1)
  let valueTrimmed := trimOws valueRaw
  rejectIf (!valueTrimmed.all valueByteOk) .fieldValueInvalidByte
  rejectIf (decide (limits.maxFieldLineBytes < nameRaw.length + valueTrimmed.length))
    .fieldLineTooLong
  let budget ← budget.charge nameRaw.length valueTrimmed.length
  let name ← makeSpan pos (pos + colonAt)
  let valueStart := pos + colonAt + 1 + (trimRange valueRaw).1
  let value ← makeSpan valueStart (valueStart + valueTrimmed.length)
  .ok (⟨name, value, needsLowercase⟩, budget)

/-- The field lines from `pos` up to the terminator. Every turn moves `pos`
forward, so as many turns as there are bytes are enough. -/
def parseFieldLinesFrom (buf : Bytes) (terminator : Nat) (limits : ClampedLimits)
    (underscores : UnderscorePolicy) :
    Nat → Nat → List RawField → HeaderListBudget → Except RejectReason (List RawField)
  | 0, _, fields, _ => .ok fields
  | turns + 1, pos, fields, budget =>
    if pos < terminator then do
      let region ← orReject .requestLineMalformed (slice buf pos (terminator + 2))
      let rel ← orReject .requestLineMalformed (findSub crlf region)
      let line ← orReject .requestLineMalformed (slice buf pos (pos + rel))
      let (field, budget) ← parseFieldLine limits underscores line pos budget
      parseFieldLinesFrom buf terminator limits underscores turns (pos + rel + 2)
        (fields ++ [field]) budget
    else .ok fields

def parseFieldLines (buf : Bytes) (start terminator : Nat) (limits : ClampedLimits)
    (underscores : UnderscorePolicy) : Except RejectReason (List RawField) :=
  parseFieldLinesFrom buf terminator limits underscores (terminator - start) start []
    (.new limits)

/-! ## Request and status lines -/

def parseVersion (bytes : Bytes) : Except RejectReason WireVersion :=
  if bytes = ascii "HTTP/1.1" then .ok .http11
  else if bytes = ascii "HTTP/1.0" then .ok .http10
  else .error .versionUnsupported

def parseRequestLine (limits : ClampedLimits) (line : Bytes) :
    Except RejectReason (Span × Span × WireVersion) := do
  rejectIf (line.contains 9 || line.head? == some 32 || line.getLast? == some 32)
    .requestLineMalformed
  let firstSp ← orReject .requestLineMalformed (line.findIdx? (· == 32))
  let afterMethod := line.drop (firstSp + 1)
  let secondSp ← orReject .requestLineMalformed (afterMethod.findIdx? (· == 32))
  let versionBytes := afterMethod.drop (secondSp + 1)
  rejectIf (versionBytes.contains 32) .requestLineMalformed
  let _ ← Method.parse (line.take firstSp) limits
  let version ← parseVersion versionBytes
  let targetBytes := afterMethod.take secondSp
  rejectIf (targetBytes.contains 35) .targetFragment
  rejectIf targetBytes.isEmpty .requestLineMalformed
  let method ← makeSpan 0 firstSp
  let target ← makeSpan (firstSp + 1) (firstSp + 1 + secondSp)
  .ok (method, target, version)

structure H1Parser where
  limits : ClampedLimits
  underscores : UnderscorePolicy

def firstLine (limits : ClampedLimits) (buf : Bytes) : Except RejectReason (Nat × Bytes) := do
  let firstCrlf ← orReject .requestLineMalformed (findSub crlf buf)
  rejectIf (decide (limits.maxRequestLineBytes < firstCrlf + 2)) .requestLineTooLong
  let line ← orReject .requestLineMalformed (slice buf 0 firstCrlf)
  .ok (firstCrlf, line)

def H1Parser.requestHeadAt (parser : H1Parser) (buf : Bytes) (terminator : Nat) :
    Except RejectReason RawHead := do
  let (firstCrlf, line) ← firstLine parser.limits buf
  let (method, target, version) ← parseRequestLine parser.limits line
  let fields ← parseFieldLines buf (firstCrlf + 2) terminator parser.limits parser.underscores
  .ok ⟨method, target, version, fields⟩

def H1Parser.parseRequestHead (parser : H1Parser) (buf : Bytes) :
    Except RejectReason (ParseStatus RawHead) := do
  match ← locateTerminator buf parser.limits with
  | none => .ok .needsMore
  | some terminator =>
    let head ← parser.requestHeadAt buf terminator
    .ok (.complete head (terminator + 4))

end IronTraffic.Http
