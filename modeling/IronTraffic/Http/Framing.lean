import IronTraffic.Foundation.Fallible
import IronTraffic.Foundation.Numerals
import IronTraffic.Foundation.Split
import IronTraffic.Http.Section

/-! # Request framing

Where a request body ends, decided once from the `content-length` and `transfer-encoding`
lines. The lines of each field are one list; the decision is a rule about the two lists.
-/

namespace IronTraffic.Http

open List

inductive RequestFraming where
  | empty
  | exact (len : Nat)
  | streamed
  deriving DecidableEq

def joined (lines : List Bytes) : Bytes := [comma].intercalate lines

def framing (version : WireVersion) (lengths codings : List Bytes) : RequestFraming :=
  if codings ≠ [] then .streamed
  else
    match lengths with
    | [] => if version.isMultiplexed then .streamed else .empty
    | value :: _ =>
      if decimal (trimOws value) = 0 then .empty else .exact (decimal (trimOws value))

/-! ## The digits -/

variable {number : Nat} {before after codings : TeCodings} {raw : Bytes}
  {lines lengths : List Bytes} {method : Method} {version : WireVersion} {result : RequestFraming}

end IronTraffic.Http
