import IronTraffic.Foundation.Slice
import IronTraffic.Http.Scalar

/-! # Field names, field values and the header list budget -/

namespace IronTraffic.Http

/-- `NAME_BYTES`: the bytes of a lowercase field name. -/
def nameBytes : Bytes := ascii "!#$%&'*+-.^_`|~0123456789abcdefghijklmnopqrstuvwxyz"

def nameByteOk (byte : UInt8) : Bool := nameBytes.contains byte

def valueByteOk (byte : UInt8) : Bool := byte != 0 && byte != 10 && byte != 13

inductive UnderscorePolicy where
  | reject | mapToHyphen

def isOws (byte : UInt8) : Bool := byte == 32 || byte == 9

def trimRange (value : Bytes) : Nat × Nat :=
  let start := (value.findIdx? fun byte => !isOws byte).getD value.length
  let stop :=
    match value.reverse.findIdx? fun byte => !isOws byte with
    | some fromEnd => value.length - fromEnd
    | none => start
  (start, stop)

def trimOws (value : Bytes) : Bytes :=
  (slice value (trimRange value).1 (trimRange value).2).getD []

structure HeaderListBudget where
  used : Nat
  limit : Nat
  count : Nat
  maxCount : Nat

namespace HeaderListBudget

def withLimits (maxHeaderListBytes maxFieldCount : Nat) : HeaderListBudget :=
  ⟨0, maxHeaderListBytes, 0, maxFieldCount⟩

def new (limits : ClampedLimits) : HeaderListBudget :=
  withLimits limits.maxHeaderListBytes limits.maxFieldCount

def charge (budget : HeaderListBudget) (nameLen valueLen : Nat) :
    Except RejectReason HeaderListBudget :=
  let count := budget.count + 1
  if budget.maxCount < count then .error .fieldCountExceeded
  else
    let used := budget.used + (nameLen + valueLen + 32)
    if budget.limit < used then .error .headerListTooLarge
    else .ok { budget with used, count }

end HeaderListBudget

end IronTraffic.Http
