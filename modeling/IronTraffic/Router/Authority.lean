import IronTraffic.Foundation.Bytes
import IronTraffic.Foundation.Split

/-! # Authorities and host keys

An authority is normalized to lowercase without its port and one trailing dot. The host trie is
keyed by the listener and the labels of a host from the last one to the first.
-/

namespace IronTraffic.Router

def maxAuthorityBytes : Nat := 255

def authorityBufBytes : Nat := 256

def hostKeyBufBytes : Nat := 264

inductive AuthorityError where
  | empty | tooLong | nonAscii | invalidByte | portInvalid | malformed
  deriving DecidableEq

structure ListenerId where
  index : UInt16

/-! ## Normalization -/

def isPort (digits : Bytes) : Bool := decide (digits.length ≤ 5) && digits.all isAsciiDigit

def hostSpanAndBracket (raw : Bytes) : Except AuthorityError (Bytes × Bool) := do
  let bracket := raw.head? == some 91
  let hostSpan ←
    if bracket then
      match raw.findIdx? (· == 93) with
      | none => throw .malformed
      | some close =>
        let rest := raw.drop (close + 1)
        if rest = [] then pure (raw.take (close + 1))
        else if rest.head? ≠ some colon then throw .portInvalid
        else if ¬isPort (rest.drop 1) then throw .portInvalid
        else pure (raw.take (close + 1))
    else
      match rposition (· == colon) raw with
      | some colon =>
        if ¬isPort (raw.drop (colon + 1)) then throw .portInvalid else pure (raw.take colon)
      | none => pure raw
  if hostSpan = [] then throw .empty else pure (hostSpan, bracket)

def stripTrailingDot (hostSpan : Bytes) : Bytes :=
  if 1 < hostSpan.length ∧ hostSpan.getLast? = some dot then hostSpan.dropLast else hostSpan

def trimAndCheckShape (hostSpan : Bytes) : Except AuthorityError Bytes :=
  let stripped := stripTrailingDot hostSpan
  if stripped.getLast? = some dot then throw .malformed
  else if stripped.head? = some dot then throw .malformed
  else if maxAuthorityBytes < stripped.length then throw .tooLong
  else pure stripped

def bracketByte (seenPercent : Bool) (byte : UInt8) : Except AuthorityError (UInt8 × Bool) :=
  if seenPercent then
    if isAsciiDigit byte || isAsciiLowercase byte ||
        [hyphen, 95, dot, percent, 93].contains byte then
      pure (byte, true)
    else if isAsciiUppercase byte then pure (toAsciiLowercase byte, true)
    else throw .invalidByte
  else if isAsciiDigit byte || decide (97 ≤ byte ∧ byte ≤ 102) ||
      [colon, dot, 91, 93].contains byte then
    pure (byte, false)
  else if 65 ≤ byte ∧ byte ≤ 70 then pure (toAsciiLowercase byte, false)
  else if byte = percent then pure (byte, true)
  else throw .invalidByte

def plainByte (prevDot : Bool) (byte : UInt8) : Except AuthorityError (UInt8 × Bool) :=
  if isAsciiLowercase byte || isAsciiDigit byte || byte == hyphen || byte == 95 then
    pure (byte, false)
  else if byte = dot then if prevDot then throw .malformed else pure (byte, true)
  else if isAsciiUppercase byte then pure (toAsciiLowercase byte, false)
  else if 128 ≤ byte then throw .nonAscii
  else throw .invalidByte

def writeHost (writeByte : Bool → UInt8 → Except AuthorityError (UInt8 × Bool)) :
    Bytes → Bool → Bytes → Except AuthorityError Bytes
  | [], _, buf => pure buf
  | byte :: rest, flag, buf => do
    let out ← writeByte flag byte
    if buf.length < authorityBufBytes then writeHost writeByte rest out.2 (buf ++ [out.1])
    else throw .tooLong

def writeBracketHost (hostSpan : Bytes) : Except AuthorityError Bytes :=
  writeHost bracketByte hostSpan false []

def writePlainHost (hostSpan : Bytes) : Except AuthorityError Bytes :=
  writeHost plainByte hostSpan false []

def normalizeAuthority (raw : Bytes) : Except AuthorityError Bytes :=
  if raw = [] then throw .empty
  else if 1024 < raw.length then throw .tooLong
  else do
    let (hostSpan, bracket) ← hostSpanAndBracket raw
    let trimmed ← trimAndCheckShape hostSpan
    if bracket then writeBracketHost trimmed else writePlainHost trimmed

/-! ## Host keys -/

def writeKeyByte (out : Bytes) (byte : UInt8) : Except AuthorityError Bytes :=
  if out.length < hostKeyBufBytes then pure (out ++ [byte]) else throw .tooLong

def writeKeyBytes (out bytes : Bytes) : Except AuthorityError Bytes :=
  bytes.foldlM writeKeyByte out

def lastLabel (rest : Bytes) : Bytes × Bytes :=
  match rposition (· == dot) rest with
  | some index => (rest.drop (index + 1), rest.take index)
  | none => (rest, [])

def writeLabels : Nat → Bytes → Bytes → Except AuthorityError Bytes
  | 0, _, out => pure out
  | fuel + 1, rest, out =>
    if rest = [] then pure out
    else do
      let labelled ← writeKeyBytes out (lastLabel rest).1
      let ended ← writeKeyByte labelled dot
      writeLabels fuel (lastLabel rest).2 ended

/-- `to_be_bytes` of a `u16`. -/
def toBeBytes (number : UInt16) : Bytes := [(number >>> 8).toUInt8, number.toUInt8]

def hostKey (listener : ListenerId) (host : Bytes) : Except AuthorityError Bytes := do
  let out ← writeKeyBytes [] (toBeBytes listener.index)
  if host = [] then pure out
  else if maxAuthorityBytes < host.length then throw .tooLong
  else writeLabels host.length host out

end IronTraffic.Router
