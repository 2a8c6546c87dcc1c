import IronTraffic.Foundation.Segments
import IronTraffic.Http.Head

/-! # Path normalization

The pipeline splits off the query, validates and decodes the path, and then works
in place on one shrinking buffer: dot segments are removed, two policies are
checked, and slashes are merged.
-/

namespace IronTraffic.Http

inductive EncodedDot where
  | reject | keep
  deriving DecidableEq

inductive EncodedSlash where
  | reject | keep
  deriving DecidableEq

structure PathPolicy where
  encodedDot : EncodedDot
  encodedSlash : EncodedSlash
  mergeSlashes : Bool

/-- `PathPolicy::DEFAULT`. -/
def PathPolicy.default : PathPolicy := ⟨.reject, .reject, false⟩

/-! ## Bytes -/

def isPathByteOk (byte : UInt8) : Bool :=
  isAsciiAlphanumeric byte || (ascii "-._~!$&'()*+,;=:@/").contains byte

def isUnreservedMinusDot (byte : UInt8) : Bool :=
  isAsciiAlphanumeric byte || (ascii "-_~").contains byte

def isAsciiHexdigit (byte : UInt8) : Bool :=
  isAsciiDigit byte || decide (97 ≤ byte ∧ byte ≤ 102) || decide (65 ≤ byte ∧ byte ≤ 70)

def toAsciiUppercase (byte : UInt8) : UInt8 :=
  if isAsciiLowercase byte then byte - 32 else byte

def hexDigitValue (byte : UInt8) : UInt8 :=
  if isAsciiDigit byte then byte - 48
  else if 97 ≤ byte ∧ byte ≤ 102 then byte - 97 + 10
  else if 65 ≤ byte ∧ byte ≤ 70 then byte - 65 + 10
  else 0

def hexPairValue (high low : UInt8) : UInt8 := hexDigitValue high * 16 + hexDigitValue low

/-! ## Validation and decoding -/

def validatePathSyntax : Bytes → Except RejectReason Unit
  | [] => .ok ()
  | byte :: rest =>
    if byte = percent then
      match rest with
      | high :: low :: rest =>
        if isAsciiHexdigit high && isAsciiHexdigit low then validatePathSyntax rest
        else .error .pathPercentInvalidHex
      | _ => .error .pathPercentTruncated
    else if isPathByteOk byte then validatePathSyntax rest
    else .error .pathInvalidByte

/-- Decodes the unreserved bytes but the dot, and spells the other escapes in
uppercase. Runs on validated paths: every `%` is followed by two digits. -/
def decodePath : Bytes → Except RejectReason Bytes
  | [] => .ok []
  | byte :: rest =>
    if byte = percent then
      match rest with
      | high :: low :: rest =>
        let value := hexPairValue high low
        if value = 0 then .error .pathEncodedNul
        else do
          let decoded ← decodePath rest
          if isUnreservedMinusDot value then .ok (value :: decoded)
          else .ok (percent :: toAsciiUppercase high :: toAsciiUppercase low :: decoded)
      -- Validation leaves no such path; the missing digits read as zero.
      | _ => .error .pathEncodedNul
    else do
      let decoded ← decodePath rest
      .ok (byte :: decoded)

/-! ## Dot segments -/

/-- `slice::copy_within(start..stop, dest)`. -/
def copyWithin (buf : Bytes) (start stop dest : Nat) : Bytes :=
  buf.take dest ++ (buf.drop start).take (stop - start) ++ buf.drop (dest + (stop - start))

/-- The buffer, the read and write cursors, and the offsets at which the kept
segments start, last first. -/
structure DotState where
  buf : Bytes
  read : Nat
  write : Nat
  stack : List Nat

def DotState.closeWith (state : DotState) (exact : Bool) : DotState :=
  if exact then
    { state with buf := state.buf.set state.write slash, write := state.write + 1 }
  else state

/-- Where the segment that starts at `read` ends: at the next slash, or at the end. -/
def nextSlash (buf : Bytes) (len read : Nat) : Nat :=
  match ((buf.take len).drop (read + 1)).findIdx? (· == slash) with
  | some spot => read + 1 + spot
  | none => len

def removeDotStep (len : Nat) (state : DotState) : Except RejectReason DotState :=
  let rest := (state.buf.take len).drop state.read
  if rest = [slash, dot] ∨ [slash, dot, slash] <+: rest then
    .ok ({ state with read := state.read + 2 }.closeWith (rest = [slash, dot]))
  else if rest = [slash, dot, dot] ∨ [slash, dot, dot, slash] <+: rest then
    match state.stack with
    | [] => .error .pathTraversalAboveRoot
    | popped :: stack =>
      .ok ({ state with read := state.read + 3, write := popped, stack }.closeWith
        (rest = [slash, dot, dot]))
  else
    let nextSlash := nextSlash state.buf len state.read
    .ok
      { buf := copyWithin state.buf state.read nextSlash state.write
        read := nextSlash
        write := state.write + (nextSlash - state.read)
        stack := toU32 state.write :: state.stack }

def removeDotLoop (len : Nat) : Nat → DotState → Except RejectReason DotState
  | 0, state => .ok state
  | turns + 1, state =>
    if state.read < len then do
      let state ← removeDotStep len state
      removeDotLoop len turns state
    else .ok state

/-- Removes dot segments in place; the first `len` bytes count. -/
def removeDotSegments (buf : Bytes) (len : Nat) : Except RejectReason (Bytes × Nat) := do
  let state ← removeDotLoop len len ⟨buf, 0, 0, []⟩
  .ok (state.buf, state.write)

/-! ## Policies -/

def encodedDots : Bytes → Option Nat
  | [] => some 0
  | byte :: rest =>
    if byte = dot then (encodedDots rest).map (· + 1)
    else if byte = percent then
      match rest with
      | second :: third :: rest =>
        if second = 50 ∧ third = 69 then (encodedDots rest).map (· + 1) else none
      | _ => none
    else none

def isEncodedDotSegment (segment : Bytes) : Bool :=
  encodedDots segment == some 1 || encodedDots segment == some 2

def hasEncodedDotSegment (buf : Bytes) : Bool :=
  (segmentsOf slash buf).any isEncodedDotSegment

def hasEncodedSlash : Bytes → Bool
  | [] => false
  | byte :: rest =>
    [percent, 50, 70].isPrefixOf (byte :: rest) ||
      [percent, 53, 67].isPrefixOf (byte :: rest) || hasEncodedSlash rest

/-! ## Slashes -/

def skipSlashes (buf : Bytes) (len : Nat) : Nat → Nat → Nat
  | 0, read => read
  | turns + 1, read =>
    if read < len ∧ buf[read]? = some slash then skipSlashes buf len turns (read + 1) else read

def mergeSlashesLoop (len : Nat) : Nat → Bytes → Nat → Nat → Bytes × Nat
  | 0, buf, _, write => (buf, write)
  | turns + 1, buf, read, write =>
    if read < len then
      let byte := buf[read]?.getD 0
      let buf := buf.set write byte
      let read := if byte = slash then skipSlashes buf len len (read + 1) else read + 1
      mergeSlashesLoop len turns buf read (write + 1)
    else (buf, write)

/-- Collapses runs of slashes in place; the first `len` bytes count. -/
def mergeSlashes (buf : Bytes) (len : Nat) : Bytes × Nat := mergeSlashesLoop len len buf 0 0

/-! ## The pipeline -/

def queryByteOk (byte : UInt8) : Bool := decide (32 < byte ∧ byte < 127) && byte != 35

def normalizePath (policy : PathPolicy) (pathRaw : Bytes) : Except RejectReason Bytes := do
  validatePathSyntax pathRaw
  let decoded ← decodePath pathRaw
  let (buf, pathLen) ← removeDotSegments decoded decoded.length
  rejectIf (policy.encodedDot == .reject && hasEncodedDotSegment (buf.take pathLen))
    .pathEncodedDot
  rejectIf (policy.encodedSlash == .reject && hasEncodedSlash (buf.take pathLen))
    .pathEncodedSlash
  let (buf, pathLen) := if policy.mergeSlashes then mergeSlashes buf pathLen else (buf, pathLen)
  .ok (buf.take pathLen)

/-- `NormalizedPath::parse_into`: the path and the query of an origin-form target. -/
def parseInto (raw : Bytes) (policy : PathPolicy) (limits : ClampedLimits) :
    Except RejectReason (Bytes × Option Bytes) := do
  rejectIf raw.isEmpty .pathEmpty
  rejectIf (decide (limits.maxPathBytes < raw.length)) .pathTooLong
  rejectIf (raw.contains 35) .targetFragment
  let questionMark := raw.findIdx? (· == question)
  let pathRaw := questionMark.elim raw fun spot => raw.take spot
  let queryRaw := questionMark.map fun spot => raw.drop (spot + 1)
  rejectIf (queryRaw.any fun query => !query.all queryByteOk) .queryInvalidByte
  rejectIf pathRaw.isEmpty .pathEmpty
  rejectIf (pathRaw.head? != some slash) .targetFormInvalid
  let path ← normalizePath policy pathRaw
  .ok (path, queryRaw)

end IronTraffic.Http
