import IronTraffic.Router.Table

/-! # Descent

Byte-wise descent of a group's path trie. Every turn of the loop is charged to
the visit budget before any arena is read.
-/

namespace IronTraffic.Router

structure Descent where
  node : NodeId
  keyLen : Nat
  budget : Nat
  exhausted : Bool

/-- The loop of `descend`, by its remaining budget. -/
def descendFrom (group : Group) (path : List UInt8) : Nat → NodeId → NodeId → Nat → Descent
  | 0, _, best, consumed =>
    { node := best, keyLen := consumed % 2 ^ 16, budget := 0, exhausted := true }
  | budget + 1, nodeIdx, best, consumed =>
    let stop : Descent :=
      { node := best, keyLen := consumed % 2 ^ 16, budget := budget, exhausted := false }
    if consumed = path.length then stop else
    match group.node nodeIdx with
    | none => stop
    | some parent =>
    match path[consumed]? with
    | none => stop
    | some byte =>
    match group.child parent byte with
    | none => stop
    | some child =>
    match group.node child with
    | none => stop
    | some childNode =>
      let label := group.label childNode
      if label.isEmpty then stop else
      match slice path consumed path.length with
      | none => stop
      | some rest =>
        if rest.length < label.length then stop
        else if slice rest 0 label.length ≠ some label then stop
        else descendFrom group path budget child child (consumed + label.length)

/-- The deepest node whose full key is a prefix of `path`. -/
def descend (group : Group) (path : List UInt8) (budget : Nat) : Descent :=
  if path.length > maxPathBytes then
    { node := NodeId.root, keyLen := 0, budget := budget, exhausted := true }
  else
    descendFrom group path budget NodeId.root NodeId.root 0

end IronTraffic.Router
