import IronTraffic.Foundation.Bytes

/-! # Reasons, limits and scalars of HTTP messages -/

namespace IronTraffic.Http

inductive RejectReason where
  | requestLineTooLong | requestLineMalformed | methodInvalid | methodTooLong
  | versionUnsupported | targetFormInvalid | targetFragment
  | fieldNameEmpty | fieldNameInvalidByte | fieldNameUppercase | fieldNameUnderscore
  | fieldValueInvalidByte | fieldValueLeadingWhitespace | fieldValueTrailingWhitespace
  | whitespaceBeforeColon | obsFold | bareCr | bareLf
  | fieldLineTooLong | fieldCountExceeded | headerListTooLarge
  | contentLengthDuplicate | contentLengthInvalid | contentLengthOverflow
  | contentLengthMismatch | transferEncodingWithContentLength
  | transferEncodingFinalNotChunked | transferEncodingChunkedRepeated
  | transferEncodingEmptyToken | transferEncodingUnsupportedCoding | transferEncodingOnHttp10
  | bodyNotAllowedForMethod
  | chunkSizeInvalid | chunkSizeOverflow | chunkExtInvalid | chunkExtTooLong
  | chunkTerminatorInvalid | trailerFieldForbidden | trailingGarbage
  | hostMissing | hostDuplicate | authorityEmpty | authorityTooLong | authorityInvalidByte
  | authorityNonAscii | authorityPortInvalid | authorityMismatch
  | pathEmpty | pathTooLong | pathInvalidByte | pathPercentTruncated | pathPercentInvalidHex
  | pathEncodedNul | pathEncodedDot | pathEncodedSlash | pathTraversalAboveRoot
  | queryInvalidByte | expectUnsupported
  | pseudoHeaderUnknown | pseudoProtocolUnsupported | pseudoHeaderDuplicate
  | pseudoHeaderMissing | pseudoHeaderAfterField | pseudoHeaderInTrailer
  | connectionSpecificField | teValueNotTrailers
  | forwardedElementLimit | forwardedBytesLimit | forwardedDuplicateParam | forwardedSyntax
  deriving DecidableEq

/-! ## Limits -/

structure Limits where
  maxFieldCount : Nat
  maxFieldLineBytes : Nat
  maxHeaderListBytes : Nat
  maxRequestLineBytes : Nat
  maxPathBytes : Nat
  maxAuthorityBytes : Nat
  maxChunkExtBytes : Nat
  maxForwardedElements : Nat
  maxForwardedBytes : Nat
  maxMethodBytes : Nat

/-- Limits within the ceiling, the only ones a parser takes. -/
structure ClampedLimits extends Limits where
  fieldCount : maxFieldCount ≤ 1000
  fieldLineBytes : maxFieldLineBytes ≤ 65535
  headerListBytes : maxHeaderListBytes ≤ 1048576
  requestLineBytes : maxRequestLineBytes ≤ 65536
  pathBytes : maxPathBytes ≤ 65536
  authorityBytes : maxAuthorityBytes ≤ 1024
  chunkExtBytes : maxChunkExtBytes ≤ 4096
  forwardedElements : maxForwardedElements ≤ 255
  forwardedBytes : maxForwardedBytes ≤ 65536
  methodBytes : maxMethodBytes ≤ 16

/-- `Limits::clamped`. -/
def Limits.clamped (limits : Limits) : ClampedLimits where
  maxFieldCount := min limits.maxFieldCount 1000
  maxFieldLineBytes := min limits.maxFieldLineBytes 65535
  maxHeaderListBytes := min limits.maxHeaderListBytes 1048576
  maxRequestLineBytes := min limits.maxRequestLineBytes 65536
  maxPathBytes := min limits.maxPathBytes 65536
  maxAuthorityBytes := min limits.maxAuthorityBytes 1024
  maxChunkExtBytes := min limits.maxChunkExtBytes 4096
  maxForwardedElements := min limits.maxForwardedElements 255
  maxForwardedBytes := min limits.maxForwardedBytes 65536
  maxMethodBytes := min limits.maxMethodBytes 16
  fieldCount := min_le_right _ _
  fieldLineBytes := min_le_right _ _
  headerListBytes := min_le_right _ _
  requestLineBytes := min_le_right _ _
  pathBytes := min_le_right _ _
  authorityBytes := min_le_right _ _
  chunkExtBytes := min_le_right _ _
  forwardedElements := min_le_right _ _
  forwardedBytes := min_le_right _ _
  methodBytes := min_le_right _ _

/-- `Limits::DEFAULT`. -/
def Limits.default : Limits where
  maxFieldCount := 100
  maxFieldLineBytes := 8192
  maxHeaderListBytes := 65536
  maxRequestLineBytes := 8192
  maxPathBytes := 8192
  maxAuthorityBytes := 255
  maxChunkExtBytes := 256
  maxForwardedElements := 32
  maxForwardedBytes := 4096
  maxMethodBytes := 16

/-! ## Scalars -/

structure MethodToken where
  bytes : Bytes
  short : bytes.length ≤ 16

inductive Method where
  | get | head | post | put | delete | connect | options | trace | patch
  | other (token : MethodToken)

namespace Method

/-- `MethodToken::CAP`. -/
def tokenCap : Nat := 16

def parse (raw : Bytes) (limits : ClampedLimits) : Except RejectReason Method :=
  if raw = [] then .error .methodInvalid
  else if long : tokenCap < raw.length then .error .methodTooLong
  else if raw = ascii "GET" then .ok .get
  else if raw = ascii "HEAD" then .ok .head
  else if raw = ascii "POST" then .ok .post
  else if raw = ascii "PUT" then .ok .put
  else if raw = ascii "DELETE" then .ok .delete
  else if raw = ascii "CONNECT" then .ok .connect
  else if raw = ascii "OPTIONS" then .ok .options
  else if raw = ascii "TRACE" then .ok .trace
  else if raw = ascii "PATCH" then .ok .patch
  else if limits.maxMethodBytes < raw.length then .error .methodTooLong
  else if raw.all isTchar then .ok (.other ⟨raw, Nat.le_of_not_lt long⟩)
  else .error .methodInvalid

end Method

inductive WireVersion where
  | http10 | http11 | h2 | h3
  deriving DecidableEq

def WireVersion.isMultiplexed : WireVersion → Bool
  | .h2 | .h3 => true
  | .http10 | .http11 => false

inductive Scheme where
  | http | https
  deriving DecidableEq

def Scheme.defaultPort : Scheme → Nat
  | .http => 80
  | .https => 443

inductive ParseStatus (Value : Type) where
  | complete (value : Value) (consumed : Nat)
  | needsMore
  deriving DecidableEq

end IronTraffic.Http
