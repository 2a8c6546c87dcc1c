import IronTraffic.Router.Scratch

/-! # Predicate runs

The predicates of one candidate are a run of records in the arena of its group. They are
evaluated one after the other, each against the slots of the scratch.
-/

namespace IronTraffic.Router

def maxPredsPerCand : Nat := 64

def predLast : UInt8 := 1

inductive PredOp where
  | method | headerExact | headerPresent | headerAbsent | queryExact | queryPresent
  deriving DecidableEq

def PredOp.fromU8 (value : UInt8) : Option PredOp :=
  if value = 0 then some .method
  else if value = 1 then some .headerExact
  else if value = 2 then some .headerPresent
  else if value = 3 then some .headerAbsent
  else if value = 4 then some .queryExact
  else if value = 5 then some .queryPresent
  else none

inductive RejectReason where
  | exactLengthMismatch
  | prefixNotAtSegmentBoundary
  | method
  | headerMissing
  | headerValue
  | headerPresentButForbidden
  | queryMissing
  | queryValue
  | regex
  | malformedPredicate
  deriving DecidableEq

inductive PredOutcome where
  | pass
  | fail (reason : RejectReason)
  deriving DecidableEq

structure RequestView where
  query : Bytes
  method : UInt32
  head : Bytes

def NameId.isNone (id : NameId) : Bool := id.index == UInt16.ofNat (2 ^ 16 - 1)

namespace Group

/-- The first record with `PRED_LAST` among the next ones. -/
def predRunEndFrom (group : Group) (start : Nat) : Nat → Nat → Option Nat
  | 0, _ => none
  | left + 1, index => do
    let pred ← group.preds[start + index]?
    if pred.tag &&& predLast ≠ 0 then some (start + index)
    else group.predRunEndFrom start left (index + 1)

def predRunEnd (group : Group) (start : Nat) : Option Nat :=
  group.predRunEndFrom start maxPredsPerCand 0

def predsFrom (group : Group) (start : Nat) : List Pred :=
  match group.predRunEnd start with
  | none => []
  | some stop => (slice group.preds start (stop + 1)).getD []

def literal (group : Group) (pred : Pred) : Bytes :=
  (slice group.blob pred.b.toNat (pred.b.toNat + pred.c.toNat)).getD []

end Group

/-! ## Evaluation -/

def reasonFor (op : PredOp) (pred : Pred) (scratch : MatchScratch) : RejectReason :=
  match op with
  | .method => .method
  | .headerPresent => .headerMissing
  | .headerAbsent => .headerPresentButForbidden
  | .headerExact => if scratch.headerPresent pred.a then .headerValue else .headerMissing
  | .queryPresent => .queryMissing
  | .queryExact => if scratch.queryPresent pred.a then .queryValue else .queryMissing

def nameUnusable (table : RouteTable) (scratch : MatchScratch) (op : PredOp) (pred : Pred) : Bool :=
  match op with
  | .headerExact | .headerPresent | .headerAbsent =>
    pred.a.isNone || decide (scratch.headerSlotCount ≤ pred.a.index.toNat)
  | .queryExact | .queryPresent =>
    pred.a.isNone || decide (table.queryNames.count ≤ pred.a.index.toNat)
  | .method => false

def testPred (group : Group) (table : RouteTable) (request : RequestView) (op : PredOp)
    (pred : Pred) (scratch : MatchScratch) : MatchScratch × Bool :=
  match op with
  | .method => (scratch, request.method &&& pred.d != 0)
  | .headerPresent => (scratch, scratch.headerPresent pred.a)
  | .headerAbsent => (scratch, !scratch.headerPresent pred.a)
  | .headerExact =>
    (scratch, match scratch.headerValue pred.a request.head with
      | some value => value == group.literal pred
      | none => false)
  | .queryPresent =>
    let indexed := scratch.indexQuery table request.query
    (indexed, indexed.queryPresent pred.a)
  | .queryExact =>
    let indexed := scratch.indexQuery table request.query
    (indexed, match indexed.queryValue pred.a request.query with
      | some value => value == group.literal pred
      | none => false)

def evalRun (group : Group) (table : RouteTable) (request : RequestView) :
    List Pred → MatchScratch → Nat → PredOutcome × MatchScratch × Nat
  | [], scratch, budget => (.pass, scratch, budget)
  | _ :: _, scratch, 0 => (.fail .malformedPredicate, scratch, 0)
  | pred :: rest, scratch, budget + 1 =>
    match PredOp.fromU8 pred.op with
    | none => (.fail .malformedPredicate, scratch, budget)
    | some op =>
      if nameUnusable table scratch op pred then (.fail .malformedPredicate, scratch, budget)
      else
        let tested := testPred group table request op pred scratch
        if tested.2 then evalRun group table request rest tested.1 budget
        else (.fail (reasonFor op pred tested.1), tested.1, budget)

def evalPreds (group : Group) (table : RouteTable) (start : Nat) (request : RequestView)
    (scratch : MatchScratch) (budget : Nat) : PredOutcome × MatchScratch × Nat :=
  if start = sentinel then (.pass, scratch, budget)
  else
    match group.predsFrom start with
    | [] => (.fail .malformedPredicate, scratch, budget)
    | run => evalRun group table request run scratch budget

end IronTraffic.Router
