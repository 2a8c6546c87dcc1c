import IronTraffic.Foundation.Numerals
import IronTraffic.Foundation.Split
import IronTraffic.Http.Scalar

/-! # Authorities

A validated host with an optional port. The host is kept in lower case; an IPv6 literal keeps
its brackets.
-/

namespace IronTraffic.Http

/-- `HOST_BYTES`. -/
def hostBytes : Bytes :=
  ascii "!$%&'()*+,-.0123456789:;=ABCDEFGHIJKLMNOPQRSTUVWXYZ[]_abcdefghijklmnopqrstuvwxyz~"

def hostByteOk (byte : UInt8) : Bool := hostBytes.contains byte

lemma of_hostByteOk {property : UInt8 → Bool} (checked : hostBytes.all property = true)
    (byte : UInt8) (ok : hostByteOk byte = true) : property byte = true :=
  List.all_eq_true.mp checked byte (List.contains_iff_mem.mp ok)

lemma hostByteOk_toAsciiLowercase :
    ∀ byte : UInt8, hostByteOk byte = true → hostByteOk (toAsciiLowercase byte) = true :=
  of_hostByteOk (by decide +kernel)

structure Authority where
  host : Bytes
  port : Option UInt16
  bytes : ∀ byte ∈ host, hostByteOk byte = true
  short : host.length ≤ 1024
  deriving DecidableEq

namespace Authority

def splitHost (raw : Bytes) : Except RejectReason (Nat × Option Bytes) :=
  if raw.head? = some 91 then
    match raw.findIdx? (· == 93) with
    | none => .error .authorityInvalidByte
    | some close =>
      let after := raw.drop (close + 1)
      if after = [] then .ok (close + 1, none)
      else if after.head? ≠ some colon then .error .authorityInvalidByte
      else .ok (close + 1, some (after.drop 1))
  else
    match rposition (· == colon) raw with
    | some colonAt =>
      if (raw.take colonAt).contains colon then .error .authorityInvalidByte
      else .ok (colonAt, some (raw.drop (colonAt + 1)))
    | none => .ok (raw.length, none)

def isAsciiHexByte (byte : UInt8) : Bool :=
  isAsciiDigit byte || decide (65 ≤ byte ∧ byte ≤ 70) || decide (97 ≤ byte ∧ byte ≤ 102)

def checkHost (bracketed : Bool) (hostSpan : Bytes) : Except RejectReason Unit :=
  if hostSpan = [] then .error .authorityEmpty
  else if bracketed then
    let inner := (hostSpan.drop 1).dropLast
    if inner = [] || !inner.contains colon then .error .authorityInvalidByte
    else if inner.all fun byte => isAsciiHexByte byte || byte == colon || byte == dot then .ok ()
    else .error .authorityInvalidByte
  else if hostSpan.contains 91 || hostSpan.contains 93 || hostSpan.contains 37 then
    .error .authorityInvalidByte
  else if hostSpan = [dot] then .error .authorityInvalidByte
  else .ok ()

def readPort (text : Bytes) : Except RejectReason UInt16 :=
  if text = [] || decide (5 < text.length) || !text.all isAsciiDigit then
    .error .authorityPortInvalid
  else
    let value := decimal text
    if value = 0 ∨ 65535 < value then .error .authorityPortInvalid else .ok value.toUInt16

def parseInto (raw : Bytes) (scheme : Scheme) (limits : ClampedLimits) :
    Except RejectReason Authority :=
  if raw = [] then .error .authorityEmpty
  else if fits : raw.length ≤ limits.maxAuthorityBytes then
    match checked : raw.find? (!hostByteOk ·) with
    | some byte => if 128 ≤ byte then .error .authorityNonAscii else .error .authorityInvalidByte
    | none => do
      let (hostEnd, portText) ← splitHost raw
      checkHost (raw.head? = some 91) (raw.take hostEnd)
      let parsedPort ← portText.mapM readPort
      let port := if parsedPort.map UInt16.toNat = some scheme.defaultPort then none else parsedPort
      return {
        host := (raw.take hostEnd).map toAsciiLowercase
        port
        bytes := by
          intro byte mem
          rcases List.mem_map.mp mem with ⟨upper, taken, rfl⟩
          have ok := List.find?_eq_none.mp checked upper (List.mem_of_mem_take taken)
          exact hostByteOk_toAsciiLowercase upper (by simpa using ok)
        short := by
          have ceiling := limits.authorityBytes
          rw [List.length_map, List.length_take]
          omega }
  else .error .authorityTooLong

def isIpv6Literal (authority : Authority) : Bool := authority.host.head? == some 91

/-- `host` or `host:port`. -/
def writeTo (authority : Authority) : Bytes :=
  authority.host ++
    match authority.port with
    | some port =>
      colon :: ((divisionDigits 10 5 port.toNat).map fun digit => (48 + digit).toUInt8).reverse
    | none => []

end Authority

end IronTraffic.Http
