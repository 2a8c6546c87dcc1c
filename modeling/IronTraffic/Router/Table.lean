import IronTraffic.Foundation.Slice

/-! # Route table arenas

The finished, immutable form of one group's path trie: flat arenas of fixed-size
records, and the bounds-checked accessors every reader goes through.
-/

namespace IronTraffic.Router

/-- `SENTINEL`, the all-ones `u32` that stands for "no index". -/
def sentinel : Nat := 2 ^ 32 - 1

def maxPathBytes : Nat := 8192

def visitBudget (pathLen : Nat) : Nat :=
  let len := if pathLen > maxPathBytes then maxPathBytes else pathLen
  min (min (len * 4) (2 ^ 32 - 1) + 64) (2 ^ 32 - 1)

abbrev NodeId := Nat

def NodeId.root : NodeId := 0

structure GroupId where
  index : UInt32

structure RouteId where
  index : UInt32
  deriving DecidableEq

structure ActionId where
  index : UInt32
  deriving DecidableEq

structure NameId where
  index : UInt16
  deriving DecidableEq

inductive PathKind where
  | rootDefault
  | segmentPrefix
  | regex
  | exact
  deriving DecidableEq

namespace PathKind

def toU8 : PathKind → UInt8
  | .rootDefault => 1
  | .segmentPrefix => 3
  | .regex => 5
  | .exact => 7

def fromU8 (value : UInt8) : Option PathKind :=
  if value = 1 then some .rootDefault
  else if value = 3 then some .segmentPrefix
  else if value = 5 then some .regex
  else if value = 7 then some .exact
  else none

@[simp] lemma fromU8_toU8 (kind : PathKind) : fromU8 kind.toU8 = some kind := by
  cases kind <;> rfl

end PathKind

/-- Packed build-time precedence. Larger wins; the order is that of the `u64`. -/
structure Precedence where
  bits : UInt64
  deriving DecidableEq

structure PathNode where
  blobOff : Nat
  children : Nat
  cands : Nat
  up : Nat
  blobLen : Nat
  candN : Nat
  keyLen : Nat
  childN : Nat
  flags : UInt8

def nodeDense : UInt8 := 1
def nodeSingleUncond : UInt8 := 2
def nodeHasPrefix : UInt8 := 4
def nodeHasExact : UInt8 := 8

structure Cand where
  prec : Precedence
  preds : UInt32
  action : ActionId

structure Pred where
  tag : UInt8
  op : UInt8
  a : NameId
  b : UInt32
  c : UInt32
  d : UInt32
  deriving DecidableEq

/-- One `(listener, host pattern)` scope with its own arenas. -/
structure Group where
  nodes : List PathNode
  childBytes : List UInt8
  childNodes : List Nat
  cands : List Cand
  candRoutes : List RouteId
  candKinds : List UInt8
  preds : List Pred
  blob : List UInt8
  next : GroupId
  contentHash : BitVec 128

namespace Group

def node (group : Group) (id : NodeId) : Option PathNode := group.nodes[id]?

def label (group : Group) (node : PathNode) : List UInt8 :=
  (slice group.blob node.blobOff (node.blobOff + node.blobLen)).getD []

def candsOf (group : Group) (node : PathNode) : List Cand :=
  (slice group.cands node.cands (node.cands + node.candN)).getD []

def candRoute (group : Group) (index : Nat) : Option RouteId := group.candRoutes[index]?

def candKind (group : Group) (index : Nat) : Option PathKind :=
  group.candKinds[index]?.bind PathKind.fromU8

/-- The child reached by one byte: a 256-entry block for a dense node, a scan of
the dispatch bytes for a sparse one. -/
def child (group : Group) (node : PathNode) (byte : UInt8) : Option NodeId :=
  if node.flags &&& nodeDense != 0 then do
    let value ← group.childNodes[node.children + byte.toNat]?
    if value = sentinel then none else some value
  else do
    let bytes ← slice group.childBytes node.children (node.children + node.childN)
    let spot ← bytes.findIdx? (· == byte)
    group.childNodes[node.children + spot]?

end Group

end IronTraffic.Router
