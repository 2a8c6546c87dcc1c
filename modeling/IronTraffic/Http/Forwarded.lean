import IronTraffic.Http.Address
import IronTraffic.Http.Field

/-! # Forwarding chains

The `Forwarded`, `X-Forwarded-For` and `X-Forwarded-Proto` lines of a request, as one list of
what each hop claimed. Splitting knows quoted strings; everything that is not an address is
marked as such.
-/

namespace IronTraffic.Http

/-- What a `for` or `by` parameter named. -/
inductive NodeName where
  | addr (addr : IpAddr) (port : Option UInt16)
  | unknown
  | obfuscated
  | absent
  deriving DecidableEq

structure ForwardedElement where
  node : NodeName
  proto : Option Scheme
  fromXff : Bool
  deriving DecidableEq

structure ForwardedChain where
  elements : List ForwardedElement
  hostClaim : Option (Nat × Nat)
  hostBuf : Bytes
  bytes : Nat
  deriving DecidableEq

/-- The readers of addresses and numbers that the standard library provides. -/
structure TextReader where
  v4 : Bytes → Option (Vector UInt8 4)
  v6 : Bytes → Option (Vector UInt16 8)
  u16 : Bytes → Option UInt16

/-! ## Quoted strings -/

def consPiece (byte : UInt8) : List Bytes → List Bytes
  | [] => [[byte]]
  | piece :: pieces => (byte :: piece) :: pieces

/-- `TopLevelSplit` from inside a piece: a delimiter in quotes separates nothing, and a
backslash in quotes escapes the next byte. -/
def topLevelSplitFrom (delim : UInt8) : (inQuotes escaped : Bool) → Bytes → List Bytes
  | _, _, [] => [[]]
  | inQuotes, true, byte :: rest => consPiece byte (topLevelSplitFrom delim inQuotes false rest)
  | true, false, byte :: rest =>
    if byte = backslash then consPiece byte (topLevelSplitFrom delim true true rest)
    else consPiece byte (topLevelSplitFrom delim (byte ≠ quote) false rest)
  | false, false, byte :: rest =>
    if byte = quote then consPiece byte (topLevelSplitFrom delim true false rest)
    else if byte = delim then [] :: topLevelSplitFrom delim false false rest
    else consPiece byte (topLevelSplitFrom delim false false rest)

def topLevelSplit (delim : UInt8) (input : Bytes) : List Bytes :=
  topLevelSplitFrom delim false false input

def unescape : (escaped : Bool) → Bytes → Bytes
  | _, [] => []
  | true, byte :: rest => byte :: unescape false rest
  | false, byte :: rest =>
    if byte = backslash then unescape true rest else byte :: unescape false rest

/-- `unescape_into`: at most 64 bytes. -/
def unescapeInto (interior : Bytes) : Option Bytes :=
  let text := unescape false interior
  if text.length ≤ 64 then some text else none

def isQuoted (raw : Bytes) : Bool :=
  decide (2 ≤ raw.length) && raw.head? == some quote && raw.getLast? == some quote

def interiorOf (raw : Bytes) : Bytes := (raw.drop 1).dropLast

/-- `write_unquoted`. -/
def unquoted (raw : Bytes) : Bytes :=
  if isQuoted raw then unescape false (interiorOf raw) else raw

/-! ## Values -/

def normalizePort (port : UInt16) : Option UInt16 := if port = 0 then none else some port

def valueMatchesScheme (value : Bytes) : Option Scheme :=
  if value.map toAsciiLowercase = ascii "http" then some .http
  else if value.map toAsciiLowercase = ascii "https" then some .https
  else none

def parseProto (raw : Bytes) : Option Scheme :=
  if isQuoted raw then (unescapeInto (interiorOf raw)).bind valueMatchesScheme
  else valueMatchesScheme raw

section Parsing

variable (reader : TextReader)

def parseV4 (text : Bytes) : Option (Vector UInt8 4) :=
  if utf8Error text = none then reader.v4 text else none

def parseV6 (text : Bytes) : Option (Vector UInt16 8) :=
  if utf8Error text = none then reader.v6 text else none

def parsePort (text : Bytes) : Option UInt16 :=
  if utf8Error text = none then reader.u16 text else none

def classifyBracketed (value : Bytes) : NodeName :=
  match value.findIdx? (· == 93) with
  | none => .unknown
  | some close =>
    match parseV6 reader ((value.take close).drop 1) with
    | none => .unknown
    | some segments =>
      let after := value.drop (close + 1)
      if after = [] then .addr (.v6 segments) none
      else if after.head? ≠ some colon then .unknown
      else
        match parsePort reader (after.drop 1) with
        | some port => .addr (.v6 segments) (normalizePort port)
        | none => .unknown

def classifyPlain (value : Bytes) : NodeName :=
  match value.count colon with
  | 0 =>
    match parseV4 reader value with
    | some octets => .addr (.v4 octets) none
    | none => .unknown
  | 1 =>
    match value.findIdx? (· == colon) with
    | none => .unknown
    | some colonAt =>
      match parseV4 reader (value.take colonAt), parsePort reader (value.drop (colonAt + 1)) with
      | some octets, some port => .addr (.v4 octets) (normalizePort port)
      | _, _ => .unknown
  | _ => .unknown

def classifyUnquoted (value : Bytes) : NodeName :=
  if value.map toAsciiLowercase = ascii "unknown" then .unknown
  else if value.head? = some 95 then .obfuscated
  else if value.head? = some 91 then classifyBracketed reader value
  else classifyPlain reader value

def parseNodeName (raw : Bytes) : NodeName :=
  if raw.head? = some quote then
    if !isQuoted raw then .unknown
    else
      match unescapeInto (interiorOf raw) with
      | some text => classifyUnquoted reader text
      | none => .unknown
  else classifyUnquoted reader raw

/-! ## Elements -/

structure ElementState where
  node : NodeName := .absent
  proto : Option Scheme := none
  hostRaw : Option Bytes := none
  seenFor : Bool := false
  seenProto : Bool := false
  seenHost : Bool := false
  seenBy : Bool := false

def takeParam (state : ElementState) (nameLower value : Bytes) :
    Except RejectReason ElementState :=
  if 16 < nameLower.length then .ok state
  else if nameLower = ascii "for" then
    if state.seenFor then .error .forwardedDuplicateParam
    else .ok { state with seenFor := true, node := parseNodeName reader value }
  else if nameLower = ascii "proto" then
    if state.seenProto then .error .forwardedDuplicateParam
    else .ok { state with seenProto := true, proto := parseProto value }
  else if nameLower = ascii "host" then
    if state.seenHost then .error .forwardedDuplicateParam
    else .ok { state with seenHost := true, hostRaw := some value }
  else if nameLower = ascii "by" then
    if state.seenBy then .error .forwardedDuplicateParam
    else .ok { state with seenBy := true }
  else .ok state

def takePair (state : ElementState) (raw : Bytes) : Except RejectReason ElementState :=
  let pair := trimOws raw
  match pair.findIdx? (· == 61) with
  | none => .error .forwardedSyntax
  | some eqPos =>
    takeParam reader state ((trimOws (pair.take eqPos)).map toAsciiLowercase)
      (trimOws (pair.drop (eqPos + 1)))

def parseElement (raw : Bytes) : Except RejectReason ElementState :=
  let trimmed := trimOws raw
  if trimmed = [] then .error .forwardedSyntax
  else (topLevelSplit semicolon trimmed).foldlM (takePair reader) {}

/-! ## Chains -/

/-- `charge_bytes`, with saturating 32-bit sums. -/
def chargeBytes (limits : ClampedLimits) (bytes additional : Nat) : Except RejectReason Nat :=
  let next := min (bytes + toU32 additional) (2 ^ 32 - 1)
  if limits.maxForwardedBytes < next then .error .forwardedBytesLimit else .ok next

/-- One element of a `Forwarded` line. The last host claim wins; earlier ones stay in the
buffer. -/
def takeForwarded (limits : ClampedLimits) (chain : ForwardedChain) (span : Bytes) :
    Except RejectReason ForwardedChain :=
  if limits.maxForwardedElements ≤ chain.elements.length then .error .forwardedElementLimit
  else do
    let state ← parseElement reader span
    let element : ForwardedElement := ⟨state.node, state.proto, false⟩
    match state.hostRaw with
    | none => return { chain with elements := chain.elements ++ [element] }
    | some hostRaw =>
      let written := unquoted hostRaw
      return { chain with
        elements := chain.elements ++ [element]
        hostClaim := some (toU32 chain.hostBuf.length, toU16 written.length)
        hostBuf := chain.hostBuf ++ written }

/-- One element of an `X-Forwarded-For` line. -/
def takeXff (limits : ClampedLimits) (chain : ForwardedChain) (span : Bytes) :
    Except RejectReason ForwardedChain :=
  if limits.maxForwardedElements ≤ chain.elements.length then .error .forwardedElementLimit
  else
    let token := trimOws span
    if token = [] then .error .forwardedSyntax
    else
      .ok { chain with
        elements := chain.elements ++ [⟨parseNodeName reader token, none, true⟩] }

def takeLine (take : ForwardedChain → Bytes → Except RejectReason ForwardedChain)
    (limits : ClampedLimits) (chain : ForwardedChain) (value : Bytes) :
    Except RejectReason ForwardedChain := do
  let bytes ← chargeBytes limits chain.bytes value.length
  (topLevelSplit comma value).foldlM take { chain with bytes }

def supplyProto (scheme : Scheme) (elements : List ForwardedElement) : List ForwardedElement :=
  match elements.getLast? with
  | some last =>
    if last.proto = none then elements.dropLast ++ [{ last with proto := some scheme }]
    else elements
  | none => elements

def ForwardedChain.parseInto (forwardedValues xffValues xfpValues : List Bytes)
    (limits : ClampedLimits) : Except RejectReason ForwardedChain := do
  let chain ← forwardedValues.foldlM (takeLine (takeForwarded reader limits) limits)
    ⟨[], none, [], 0⟩
  let chain ← xffValues.foldlM (takeLine (takeXff reader limits) limits) chain
  let bytes ← xfpValues.foldlM (fun bytes value => chargeBytes limits bytes value.length)
    chain.bytes
  let scheme := do
    let token ← (topLevelSplit comma (← xfpValues.getLast?)).getLast?
    parseProto (trimOws token)
  let elements :=
    match scheme with
    | some scheme => supplyProto scheme chain.elements
    | none => chain.elements
  return { chain with elements, bytes }

end Parsing

/-- The rightmost claimed `host`. -/
def ForwardedChain.hostClaimBytes (chain : ForwardedChain) : Option Bytes := do
  let (offset, len) ← chain.hostClaim
  slice chain.hostBuf offset (offset + len)

end IronTraffic.Http
