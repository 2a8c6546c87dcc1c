import IronTraffic.Foundation.Bytes
import IronTraffic.Foundation.Worklist
import IronTraffic.Router.Table

/-! # Building a group's path trie

The build works on an intermediate arena of nodes that own their label and a
sorted map of children. Keys are inserted one by one, edges are split where a
key leaves them, and the finished tree is renumbered in preorder and written
out into the flat arenas of a `Group`.
-/

namespace IronTraffic.Router

inductive TrieBuildError where
  | tooManyNodes (limit : UInt32)
  | tooManyCandidates
  | blobTooLarge
  | keyTooLong
  | keyNotAbsolute
  | duplicatePrecedence (prec : Precedence)
  deriving DecidableEq

structure CandInput where
  key : List UInt8
  kind : PathKind
  prec : Precedence
  action : ActionId
  route : RouteId
  preds : UInt32
  deriving DecidableEq

def CandInput.toCand (cand : CandInput) : Cand :=
  { prec := cand.prec, preds := cand.preds, action := cand.action }

/-- Everything about a group that is not derived from the trie. -/
structure GroupParts where
  preds : List Pred
  blob : List UInt8
  next : GroupId
  contentHash : BitVec 128
  maxNodes : UInt32
  maxBlobBytes : UInt32

structure BuildNode where
  label : List UInt8
  children : Std.TreeMap UInt8 Nat
  cands : List Nat
  keyLen : Nat
  subtree : Nat

/-- `children.values()`, in ascending order of the bytes. -/
def BuildNode.childIds (node : BuildNode) : List Nat := node.children.toList.map Prod.snd

abbrev Build := Fallible TrieBuildError

open Fallible

def nodeRef (arena : List BuildNode) (index : Nat) (maxNodes : UInt32) : Build BuildNode :=
  okOr (.tooManyNodes maxNodes) arena[index]?

/-- `node_mut` together with the assignment made through it. -/
def nodeMut (arena : List BuildNode) (index : Nat) (maxNodes : UInt32)
    (update : BuildNode → BuildNode) : Build (List BuildNode) := do
  let node ← nodeRef arena index maxNodes
  pure (arena.set index (update node))

def pushNode (arena : List BuildNode) (node : BuildNode) (maxNodes : UInt32) :
    Build (List BuildNode × Nat) :=
  let grown := arena ++ [node]
  if grown.length < 2 ^ 32 ∧ grown.length ≤ maxNodes.toNat then
    pure (grown, grown.length - 1)
  else
    report (.tooManyNodes maxNodes)

def keyLenU32 (n : Nat) : Build Nat :=
  if n < 2 ^ 32 then pure n else report .keyTooLong

def commonPrefixLen (a b : List UInt8) : Nat :=
  ((a.zip b).takeWhile fun pair => pair.1 == pair.2).length

/-- Push a leaf carrying the rest of `key` and enter it into its parent. The
source writes this out once below an existing node and once below the
intermediate of a split. -/
def attachLeaf (arena : List BuildNode) (parent : Nat) (byte : UInt8)
    (key : List UInt8) (pos : Nat) (maxNodes : UInt32) :
    Build (List BuildNode × Nat) := do
  let rest := key.drop pos
  let newKeyLen ← keyLenU32 key.length
  let (arena, newIdx) ← pushNode arena
    { label := rest, children := ∅, cands := [], keyLen := newKeyLen, subtree := 0 }
    maxNodes
  let arena ← nodeMut arena parent maxNodes fun node =>
    { node with children := node.children.insert byte newIdx }
  pure (arena, newIdx)

/-- Split the edge into `child` after `common` bytes: `child` keeps the tail, a
new intermediate below `parent` takes the head. -/
def splitEdge (arena : List BuildNode) (parent : Nat) (byte : UInt8) (child : Nat)
    (common : Nat) (maxNodes : UInt32) : Build (List BuildNode × Nat) := do
  let childLabel := (← nodeRef arena child maxNodes).label
  let parentKeyLen := (← nodeRef arena parent maxNodes).keyLen
  let head := childLabel.take common
  let tailFirst ← okOr .keyTooLong childLabel[common]?
  let newChildLabel := childLabel.drop common
  let arena ← nodeMut arena child maxNodes fun node => { node with label := newChildLabel }
  let commonU32 ← keyLenU32 common
  -- `checked_add` of two `u32`s
  let midKeyLen ← keyLenU32 (parentKeyLen + commonU32)
  let (arena, midIdx) ← pushNode arena
    { label := head, children := (∅ : Std.TreeMap UInt8 Nat).insert tailFirst child,
      cands := [], keyLen := midKeyLen, subtree := 0 } maxNodes
  let arena ← nodeMut arena parent maxNodes fun node =>
    { node with children := node.children.insert byte midIdx }
  pure (arena, midIdx)

/-- The loop of `insert`, standing at `node` with `pos` bytes of the key
consumed. -/
def insertFrom (key : List UInt8) (maxNodes : UInt32) :
    Nat → List BuildNode → Nat → Nat → Build (List BuildNode × Nat)
  | 0, _, _, _ => .error .outOfFuel
  | fuel + 1, arena, node, pos =>
    if pos = key.length then pure (arena, node) else
    match key[pos]? with
    | none => pure (arena, node)
    | some byte => do
        let parent ← nodeRef arena node maxNodes
        match parent.children[byte]? with
        | none => attachLeaf arena node byte key pos maxNodes
        | some child => do
            let childRef ← nodeRef arena child maxNodes
            let common := commonPrefixLen childRef.label (key.drop pos)
            if common = childRef.label.length then
              insertFrom key maxNodes fuel arena child (pos + common)
            else do
              let (arena, midIdx) ← splitEdge arena node byte child common maxNodes
              let pos := pos + common
              if pos = key.length then pure (arena, midIdx) else
              match key[pos]? with
              | none => pure (arena, midIdx)
              | some byte => attachLeaf arena midIdx byte key pos maxNodes

/-- Insert `key` and return the node whose full key it is. Every turn of the
loop consumes a byte of the key. -/
def insert (arena : List BuildNode) (key : List UInt8) (maxNodes : UInt32) :
    Build (List BuildNode × Nat) :=
  insertFrom key maxNodes (key.length + 1) arena 0 0

/-! ## Subtree sizes, up links and final numbering -/

def sizesVisit (maxNodes : UInt32) (arena : List BuildNode) :
    Nat × Bool → Build (List BuildNode × List (Nat × Bool))
  | (idx, true) => do
      let childIds := (← nodeRef arena idx maxNodes).childIds
      let total ← childIds.foldlM (fun total child => do
        let childSubtree := (← nodeRef arena child maxNodes).subtree
        pure (saturatingAdd32 total childSubtree)) 1
      let arena ← nodeMut arena idx maxNodes fun node => { node with subtree := total }
      pure (arena, [])
  | (idx, false) => do
      let childIds := (← nodeRef arena idx maxNodes).childIds
      pure (arena, (idx, true) :: childIds.map fun child => (child, false))

def sizes (arena : List BuildNode) (maxNodes : UInt32) : Build (List BuildNode) :=
  Worklist.drain (sizesVisit maxNodes) (2 * arena.length) [(0, false)] arena

def nextOwner (node : BuildNode) (idx owner : Nat) (maxNodes : UInt32) : Build Nat :=
  if node.cands.isEmpty then pure owner
  else if idx < 2 ^ 32 then pure idx
  else report (.tooManyNodes maxNodes)

def upVisit (arena : List BuildNode) (maxNodes : UInt32) (up : List Nat) :
    Nat × Nat → Build (List Nat × List (Nat × Nat))
  | (idx, owner) => do
      let _ ← okOr (.tooManyNodes maxNodes) up[idx]?
      let node ← nodeRef arena idx maxNodes
      let next ← nextOwner node idx owner maxNodes
      pure (up.set idx owner, node.childIds.map fun child => (child, next))

def visit (arena : List BuildNode) (maxNodes : UInt32) : Build (List Nat) :=
  Worklist.drain (upVisit arena maxNodes) arena.length [(0, sentinel)]
    (List.replicate arena.length sentinel)

/-- The children of a node by descending subtree size. The map is iterated in
ascending byte order and the sort is stable, which settles ties. -/
def sortedChildren (arena : List BuildNode) (idx : Nat) (maxNodes : UInt32) :
    Build (List (UInt8 × Nat × Nat)) := do
  let node ← nodeRef arena idx maxNodes
  let out ← node.children.toList.mapM fun (byte, child) => do
    let subtree := (← nodeRef arena child maxNodes).subtree
    pure (byte, child, subtree)
  pure (out.insertionSort fun left right => right.2.2 ≤ left.2.2)

structure Numbering where
  order : List Nat
  oldToNew : List Nat

def numberVisit (arena : List BuildNode) (maxNodes : UInt32) (numbering : Numbering)
    (idx : Nat) : Build (Numbering × List Nat) := do
  if numbering.order.length < 2 ^ 32 then
    let _ ← okOr (.tooManyNodes maxNodes) numbering.oldToNew[idx]?
    let childList ← sortedChildren arena idx maxNodes
    pure ({ order := numbering.order ++ [idx],
            oldToNew := numbering.oldToNew.set idx numbering.order.length },
      (childList.map fun entry => entry.2.1).reverse)
  else
    report (.tooManyNodes maxNodes)

def number (arena : List BuildNode) (maxNodes : UInt32) : Build Numbering :=
  Worklist.drain (numberVisit arena maxNodes) arena.length [0]
    { order := [], oldToNew := List.replicate arena.length sentinel }

/-! ## Emission -/

def checkBlobBudget (blobLen labelLen : Nat) (maxBlobBytes : UInt32) : Build Unit :=
  if blobLen + labelLen ≤ min maxBlobBytes.toNat (2 ^ 32 - 1) then pure ()
  else report .blobTooLarge

structure Emission where
  nodes : List PathNode
  childBytes : List UInt8
  childNodes : List Nat
  cands : List Cand
  candRoutes : List RouteId
  candKinds : List UInt8
  blob : List UInt8

def sortedCands (cands : List CandInput) (indices : List Nat) : Build (List CandInput) := do
  let hit ← indices.mapM fun index => okOr .tooManyCandidates cands[index]?
  pure (hit.insertionSort fun left right => right.prec.bits ≤ left.prec.bits)

/-- The child dispatch of one node: the bytes and nodes it appends, its
`child_n` and whether it is dense. -/
structure ChildBlock where
  bytes : List UInt8
  nodes : List Nat
  childN : Nat
  dense : Bool

def childBlock (oldToNew : List Nat) (childList : List (UInt8 × Nat × Nat))
    (maxNodes : UInt32) : Build ChildBlock := do
  let renumbered ← childList.mapM fun (byte, child, _) => do
    let newChild ← okOr (.tooManyNodes maxNodes) oldToNew[child]?
    pure (byte, newChild)
  if childList.length ≤ 16 then
    pure { bytes := renumbered.map Prod.fst, nodes := renumbered.map Prod.snd,
           childN := childList.length, dense := false }
  else
    pure { bytes := List.replicate 256 0,
           nodes := renumbered.foldl (fun slots entry => slots.set entry.1.toNat entry.2)
             (List.replicate 256 sentinel),
           childN := 0, dense := true }

def nodeFlags (dense singleUncond hasPrefix hasExact : Bool) : UInt8 :=
  let flags : UInt8 := 0
  let flags := if dense then flags ||| nodeDense else flags
  let flags := if singleUncond then flags ||| nodeSingleUncond else flags
  let flags := if hasPrefix then flags ||| nodeHasPrefix else flags
  if hasExact then flags ||| nodeHasExact else flags

def tryU32 (error : TrieBuildError) (n : Nat) : Build Nat :=
  if n < 2 ^ 32 then pure n else report error

def tryU16 (error : TrieBuildError) (n : Nat) : Build Nat :=
  if n < 2 ^ 16 then pure n else report error

/-- `up`, remapped from the intermediate index to the final one. -/
def remapUp (oldToNew upOld : List Nat) (old : Nat) (maxNodes : UInt32) : Build Nat := do
  let upOldVal ← okOr (.tooManyNodes maxNodes) upOld[old]?
  if upOldVal = sentinel then pure sentinel
  else okOr (.tooManyNodes maxNodes) oldToNew[upOldVal]?

def emitNode (arena : List BuildNode) (oldToNew upOld : List Nat)
    (cands : List CandInput) (parts : GroupParts) (out : Emission) (old : Nat) :
    Build Emission := do
  let bnode ← nodeRef arena old parts.maxNodes
  checkBlobBudget out.blob.length bnode.label.length parts.maxBlobBytes
  let blobOff ← tryU32 .blobTooLarge out.blob.length
  let blobLen ← tryU16 .keyTooLong bnode.label.length
  let sorted ← sortedCands cands bnode.cands
  let candsStart ← tryU32 .tooManyCandidates out.cands.length
  let candN ← tryU16 .tooManyCandidates sorted.length
  let hasPrefix := sorted.any fun cand =>
    cand.kind = .segmentPrefix ∨ cand.kind = .rootDefault
  let hasExact := sorted.any fun cand => cand.kind = .exact
  let singleUncond := sorted.length = 1 ∧
    (sorted.head?.map fun cand => cand.preds.toNat) = some sentinel
  let childList ← sortedChildren arena old parts.maxNodes
  let childrenOffset ← tryU32 (.tooManyNodes parts.maxNodes) out.childBytes.length
  let block ← childBlock oldToNew childList parts.maxNodes
  let up ← remapUp oldToNew upOld old parts.maxNodes
  if bnode.keyLen > maxPathBytes then report .keyTooLong
  else do
    let keyLen ← tryU16 .keyTooLong bnode.keyLen
    pure {
      nodes := out.nodes ++ [{
        blobOff := blobOff, children := childrenOffset, cands := candsStart, up := up,
        blobLen := blobLen, candN := candN, keyLen := keyLen, childN := block.childN,
        flags := nodeFlags block.dense singleUncond hasPrefix hasExact }],
      childBytes := out.childBytes ++ block.bytes,
      childNodes := out.childNodes ++ block.nodes,
      cands := out.cands ++ sorted.map CandInput.toCand,
      candRoutes := out.candRoutes ++ sorted.map CandInput.route,
      candKinds := out.candKinds ++ sorted.map fun cand => cand.kind.toU8,
      blob := out.blob ++ bnode.label }

def emit (arena : List BuildNode) (order oldToNew upOld : List Nat)
    (cands : List CandInput) (parts : GroupParts) : Build Group := do
  let out ← order.foldlM (emitNode arena oldToNew upOld cands parts)
    { nodes := [], childBytes := [], childNodes := [], cands := [], candRoutes := [],
      candKinds := [], blob := parts.blob }
  pure {
    nodes := out.nodes, childBytes := out.childBytes, childNodes := out.childNodes,
    cands := out.cands, candRoutes := out.candRoutes, candKinds := out.candKinds,
    preds := parts.preds, blob := out.blob, next := parts.next,
    contentHash := parts.contentHash }

/-! ## The whole build -/

def checkKey (cand : CandInput) : Build Unit :=
  if cand.key.isEmpty ∨ cand.key.head? ≠ some 47 then report .keyNotAbsolute
  else if cand.key.length > maxPathBytes then report .keyTooLong
  else pure ()

def adjacentDuplicate : List Precedence → Option Precedence
  | first :: second :: rest =>
    if first = second then some first else adjacentDuplicate (second :: rest)
  | _ => none

def checkPrecedences (cands : List CandInput) : Build Unit :=
  let byPrec := (cands.map fun cand => cand.prec).insertionSort
    fun left right => right.bits ≤ left.bits
  match adjacentDuplicate byPrec with
  | some prec => report (.duplicatePrecedence prec)
  | none => pure ()

def insertKeys (maxNodes : UInt32) (arena : List BuildNode) (keys : List (List UInt8)) :
    Build (List BuildNode × List (List UInt8 × Nat)) :=
  keys.foldlM (fun (arena, pairs) key => do
    let (arena, idx) ← insert arena key maxNodes
    pure (arena, pairs ++ [(key, idx)])) (arena, [])

/-- Attach candidate `i` at the node of its key. -/
def attachCand (maxNodes : UInt32) (nodeOf : Std.TreeMap (List UInt8) Nat)
    (arena : List BuildNode) (entry : CandInput × Nat) : Build (List BuildNode) := do
  let nodeIdx ← okOr (.tooManyNodes maxNodes) nodeOf[entry.1.key]?
  nodeMut arena nodeIdx maxNodes fun node => { node with cands := node.cands ++ [entry.2] }

def buildGroup (cands : List CandInput) (parts : GroupParts) : Build Group := do
  cands.forM checkKey
  checkPrecedences cands
  let maxNodes := parts.maxNodes
  let (arena, _) ← pushNode []
    { label := [], children := ∅, cands := [], keyLen := 0, subtree := 0 } maxNodes
  let distinct := Std.TreeSet.ofList (cands.map fun cand => cand.key)
  let (arena, pairs) ← insertKeys maxNodes arena distinct.toList
  let nodeOf := Std.TreeMap.ofList pairs
  let arena ← cands.zipIdx.foldlM (attachCand maxNodes nodeOf) arena
  let arena ← sizes arena maxNodes
  let upOld ← visit arena maxNodes
  let numbering ← number arena maxNodes
  emit arena numbering.order numbering.oldToNew upOld cands parts

end IronTraffic.Router
