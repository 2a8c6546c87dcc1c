import IronTraffic.Foundation.Bytes
import IronTraffic.Foundation.Monitor

/-! # The exchange ledger

One-request-one-response accounting for a pooled upstream connection. The ledger is told
what happened and answers whether the connection may be pooled.
-/

namespace IronTraffic.Conn

/-! ## The ledger -/

inductive ResponseFraming where
  | empty
  | exact (len : UInt64)
  | streamed
  | untilClose
  deriving DecidableEq

namespace ResponseFraming

def knownLen : ResponseFraming → Option UInt64
  | .empty => some 0
  | .exact len => some len
  | .streamed => none
  | .untilClose => none

def forbidsReuse : ResponseFraming → Bool
  | .untilClose => true
  | _ => false

end ResponseFraming

inductive PoisonReason where
  | responseFramingRefused | earlyFinalResponse | bodyLengthMismatch | exchangeCountMismatch
  | trailingBytes | closedInFlight | closeDelimitedResponse | protocolAnomaly
  deriving DecidableEq

inductive Purity where
  | clean
  | poisoned (reason : PoisonReason)
  deriving DecidableEq

structure ExchangeLedger where
  requestsSent : Nat
  responsesReceived : Nat
  inFlight : Bool
  requestBodyComplete : Bool
  declaredBody : Option UInt64
  receivedBody : Nat
  purity : Purity

namespace ExchangeLedger

def new : ExchangeLedger := ⟨0, 0, false, false, none, 0, .clean⟩

def poison (ledger : ExchangeLedger) (reason : PoisonReason) : ExchangeLedger :=
  if ledger.purity = .clean then { ledger with purity := .poisoned reason } else ledger

/-! The methods that report an error report the purity after the call, so the ledger alone
is returned. -/

section

variable (ledger : ExchangeLedger)

def beginRequest : ExchangeLedger :=
  if ledger.purity ≠ .clean then ledger
  else if ledger.inFlight then ledger.poison .protocolAnomaly
  else
    { ledger with
      requestsSent := saturatingAdd32 ledger.requestsSent 1
      inFlight := true
      requestBodyComplete := false
      declaredBody := none
      receivedBody := 0 }

def requestBodyWritten : ExchangeLedger :=
  { ledger with requestBodyComplete := true }

def responseHead (framing : ResponseFraming) : ExchangeLedger :=
  if ledger.purity ≠ .clean then ledger
  else if ledger.requestBodyComplete = false then ledger.poison .earlyFinalResponse
  else
    let checked := if framing.forbidsReuse then ledger.poison .closeDelimitedResponse else ledger
    { checked with declaredBody := framing.knownLen }

def responseFramingRefused : ExchangeLedger :=
  ledger.poison .responseFramingRefused

def responseBodyBytes (octets : UInt64) : ExchangeLedger :=
  if ledger.purity ≠ .clean then ledger
  else if octets = 0 then ledger
  else if ledger.inFlight = false then ledger.poison .bodyLengthMismatch
  else
    let counted :=
      { ledger with receivedBody := saturatingAdd64 ledger.receivedBody octets.toNat }
    if counted.declaredBody.any fun declared => declared.toNat < counted.receivedBody then
      counted.poison .bodyLengthMismatch
    else counted

def responseComplete : ExchangeLedger :=
  if ledger.purity ≠ .clean then ledger
  else if ledger.declaredBody.any fun declared => ledger.receivedBody ≠ declared.toNat then
    ledger.poison .bodyLengthMismatch
  else
    let ended := { ledger with inFlight := false }
    let nextResponsesReceived := saturatingAdd32 ended.responsesReceived 1
    if nextResponsesReceived ≠ ended.requestsSent then ended.poison .exchangeCountMismatch
    else { ended with responsesReceived := nextResponsesReceived }

def socketHadTrailingBytes : ExchangeLedger :=
  ledger.poison .trailingBytes

def upstreamClosed : ExchangeLedger :=
  if ledger.inFlight then ledger.poison .closedInFlight else ledger

def mayPool : Bool :=
  decide (ledger.purity = .clean) && !ledger.inFlight

end

end ExchangeLedger

inductive Call where
  | beginRequest
  | requestBodyWritten
  | responseHead (framing : ResponseFraming)
  | responseFramingRefused
  | responseBodyBytes (octets : UInt64)
  | responseComplete
  | socketHadTrailingBytes
  | upstreamClosed
  deriving DecidableEq

def ExchangeLedger.step (ledger : ExchangeLedger) : Call → ExchangeLedger
  | .beginRequest => ledger.beginRequest
  | .requestBodyWritten => ledger.requestBodyWritten
  | .responseHead framing => ledger.responseHead framing
  | .responseFramingRefused => ledger.responseFramingRefused
  | .responseBodyBytes octets => ledger.responseBodyBytes octets
  | .responseComplete => ledger.responseComplete
  | .socketHadTrailingBytes => ledger.socketHadTrailingBytes
  | .upstreamClosed => ledger.upstreamClosed

def ExchangeLedger.run (calls : List Call) (ledger : ExchangeLedger) : ExchangeLedger :=
  calls.foldl ExchangeLedger.step ledger

end IronTraffic.Conn
