import IronTraffic.Foundation.Stateful
import IronTraffic.Policy.Schema

/-! # The type checker

One forward pass over the arena. Children precede their parents, so the type of
every operand is known when a node is checked. Attribute references are
resolved and given dense slots on the way.
-/

namespace IronTraffic.Policy

open Fallible

/-- `node_slot` of a node that reads no attribute. -/
def noSlot : Nat := u16Max

structure Checked where
  ast : Ast
  types : List Ty
  slots : List AttrRef
  nodeSlot : List Nat
  phase : Phase
  result : Ty
  strings : Bytes

inductive CheckError where
  | unknownAttribute (spot : Nat) (path : Span)
  | notAvailableInPhase (spot : Nat) (attr : AttrId) (phase earliest : Phase)
  | mapNotAvailableInPhase (spot : Nat) (map : MapId) (phase earliest : Phase)
  | typeMismatch (spot : Nat) (expected found : Ty)
  | notOrdered (spot : Nat) (found : Ty)
  | notIndexable (spot : Nat) (found : Ty)
  | dynamicIndex (spot : Nat)
  | badReceiver (spot : Nat) (method : Method) (found : Ty)
  | badArgument (spot : Nat) (method : Method) (found : Ty)
  | heterogeneousList (spot : Nat) (first found : Ty)
  | inRequiresList (spot : Nat) (found : Ty)
  | nonConstantRegex (spot : Nat)
  | tooManyAttrSlots (max : Nat)
  | notANamespace (spot : Nat)

def namespaceOrError (name : Span) (source : Bytes) : Fallible CheckError Unit :=
  match name.slice source with
  | some bytes =>
    if bytes ∈ namespaces then .ok () else report (.unknownAttribute name.start name)
  | none => report (.unknownAttribute name.start name)

/-- Writes a segment in front of the path assembled so far, followed by a `.`
unless it is the first one written. The path fills a fixed buffer from its end. -/
def pushSegment (tail segment : Bytes) (first : Bool) : Option Bytes :=
  let written := if first then segment ++ tail else segment ++ ascii "." ++ tail
  if written.length ≤ maxPathBytes then some written else none

/-- The walk from a field back to its root identifier. Every turn but the first
writes at least one byte, so the buffer bounds the turns. -/
def assembleFrom (ast : Ast) (source : Bytes) (name : Span) :
    Nat → Bytes → Span → NodeId → Bool → Fallible CheckError (Bytes × Span)
  | 0, _, _, _, _ => .error .outOfFuel
  | fuel + 1, tail, segment, current, first =>
    match segment.slice source with
    | none => report (.unknownAttribute segment.start segment)
    | some bytes =>
      match pushSegment tail bytes first with
      | none => report (.unknownAttribute segment.start ⟨segment.start, name.stop⟩)
      | some tail =>
        match ast.node current with
        | some (.ident root) =>
          match root.slice source with
          | none => report (.unknownAttribute root.start root)
          | some bytes =>
            match pushSegment tail bytes false with
            | none => report (.unknownAttribute root.start ⟨root.start, name.stop⟩)
            | some path => .ok (path, ⟨root.start, name.stop⟩)
        | some (.field base outer) => assembleFrom ast source name fuel tail outer base false
        | _ => report (.notANamespace segment.start)

def assemblePath (ast : Ast) (source : Bytes) (base : NodeId) (name : Span) :
    Fallible CheckError (Bytes × Span) :=
  assembleFrom ast source name (maxPathBytes + 2) [] name base true

def keyBytesOf (strings : Bytes) : AttrRef → Bytes
  | .scalar _ => []
  | .field _ key => (key.slice strings).getD []

def sameRef (strings : Bytes) : AttrRef → AttrRef → Bool
  | .scalar left, .scalar right => left == right
  | .field leftMap leftKey, .field rightMap rightKey =>
    leftMap == rightMap &&
      keyBytesOf strings (.field leftMap leftKey) == keyBytesOf strings (.field rightMap rightKey)
  | _, _ => false

def internSlot (slots : List AttrRef) (strings : Bytes) (want : AttrRef) :
    Option (Nat × List AttrRef) :=
  match slots.findIdx? fun slot => sameRef strings slot want with
  | some index => if index ≤ u16Max then some (index, slots) else none
  | none => if slots.length ≤ u16Max then some (slots.length, slots ++ [want]) else none

structure CheckInput where
  ast : Ast
  source : Bytes
  phase : Phase
  limits : PolicyLimits
  isFieldBase : List Bool

structure Checker where
  strings : Bytes
  types : List Ty
  starts : List Nat
  nodeSlot : List Nat
  nodeMap : List (Option MapId)
  slots : List AttrRef

abbrev CheckM := StateT Checker (Fallible CheckError)

def CheckM.fail (reason : CheckError) : CheckM Value := fun _ => report reason

namespace Checker

def tyOf (checker : Checker) (id : NodeId) : Ty := checker.types[id]?.getD .null

def startOf (checker : Checker) (id : NodeId) : Nat := checker.starts[id]?.getD 0

end Checker

section Nodes

variable (input : CheckInput)

def intern (want : AttrRef) : CheckM Nat := fun checker =>
  match internSlot checker.slots checker.strings want with
  | some (slot, slots) => .ok (slot, { checker with slots })
  | none => report (.tooManyAttrSlots input.limits.maxAttrSlots.toNat)

def expectTy (id : NodeId) (want : Ty) : CheckM Unit := fun checker =>
  if checker.tyOf id = want then .ok ((), checker)
  else report (.typeMismatch (checker.startOf id) want (checker.tyOf id))

def setSlot (index slot : Nat) : CheckM Unit :=
  modify fun checker => { checker with nodeSlot := checker.nodeSlot.set index slot }

def setMap (index : Nat) (map : MapId) : CheckM Unit :=
  modify fun checker => { checker with nodeMap := checker.nodeMap.set index (some map) }

def resolveField (index : Nat) (base : NodeId) (name : Span) : CheckM Ty := do
  let checker ← get
  if checker.tyOf base ≠ .map then .fail (.notANamespace (checker.startOf base))
  else do
    let (path, span) ← StateT.lift (assemblePath input.ast input.source base name)
    match resolvePath path with
    | none => .fail (.unknownAttribute span.start span)
    | some entry =>
      match entry.attr, entry.map with
      | some attr, _ =>
        if attr.availableIn input.phase then do
          let slot ← intern input (.scalar attr)
          setSlot index slot
          pure attr.ty
        else .fail (.notAvailableInPhase span.start attr input.phase attr.fromPhase)
      | none, some map => do
        setMap index map
        pure .map
      | none, none => .fail (.unknownAttribute span.start span)

def canonicalKey (map : MapId) (key : Span) : CheckM Span := fun checker =>
  if map.lowercaseKeys then
    let lowered := ((key.slice checker.strings).getD []).map toAsciiLowercase
    .ok (⟨toU32 checker.strings.length, toU32 (checker.strings.length + lowered.length)⟩,
      { checker with strings := checker.strings ++ lowered })
  else .ok (key, checker)

def resolveIndex (index : Nat) (base key : NodeId) : CheckM Ty := do
  let checker ← get
  match (checker.nodeMap[base]?).join with
  | none => .fail (.notIndexable (checker.startOf base) (checker.tyOf base))
  | some map =>
    match input.ast.node key with
    | some (.str text) => do
      let span ← canonicalKey map text
      if map.fromPhase.index ≤ input.phase.index then do
        let slot ← intern input (.field map span)
        setSlot index slot
        pure .str
      else
        .fail (.mapNotAvailableInPhase (checker.startOf key) map input.phase map.fromPhase)
    | _ => .fail (.dynamicIndex (checker.startOf key))

def isLiteralStr : Option Node → Bool
  | some (.str _) => true
  | _ => false

def checkCall (base : NodeId) (method : Method) (argsFrom argsLen : Nat) : CheckM Ty := do
  let checker ← get
  let baseTy := checker.tyOf base
  if method = .size then
    if baseTy = .str ∨ baseTy = .list then pure .int
    else .fail (.badReceiver (checker.startOf base) method baseTy)
  else if ¬(baseTy = .str ∨ baseTy = .null) then
    .fail (.badReceiver (checker.startOf base) method baseTy)
  else
    match (input.ast.argsOf argsFrom argsLen).head? with
    | none => .fail (.badArgument (checker.startOf base) method .null)
    | some arg =>
      if checker.tyOf arg ≠ .str then
        .fail (.badArgument (checker.startOf arg) method (checker.tyOf arg))
      else if method = .isMatch ∧ ¬isLiteralStr (input.ast.node arg) then
        .fail (.nonConstantRegex (checker.startOf arg))
      else pure .bool

/-- Types that `null` unifies with. -/
def Ty.nullable : Ty → Bool
  | .str | .int | .bool => true
  | _ => false

def equatable (left right : Ty) : Bool :=
  if left = right then decide (left ≠ .map ∧ left ≠ .list)
  else (left == .null && right.nullable) || (right == .null && left.nullable)

def checkBin (op : BinOp) (lhs rhs : NodeId) : CheckM Ty := do
  let checker ← get
  let lty := checker.tyOf lhs
  let rty := checker.tyOf rhs
  match op with
  | .eq | .ne =>
    if equatable lty rty then pure .bool
    else .fail (.typeMismatch (checker.startOf lhs) lty rty)
  | .lt | .le | .gt | .ge =>
    if lty = .int ∧ rty = .int then pure .bool
    else .fail (.notOrdered (checker.startOf lhs) (if lty = .int then rty else lty))
  | .isIn =>
    match input.ast.node rhs with
    | some (.list start len) =>
      if lty = .map ∨ lty = .list then
        .fail (.heterogeneousList (checker.startOf lhs) lty lty)
      else
        match (input.ast.argsOf start len).head? with
        | none => pure .bool
        | some first =>
          if checker.tyOf first = lty then pure .bool
          else .fail (.heterogeneousList (checker.startOf rhs) (checker.tyOf first) lty)
    | _ => .fail (.inRequiresList (checker.startOf rhs) rty)

def checkElems (first : Ty) : List NodeId → CheckM Unit
  | [] => pure ()
  | elem :: rest => do
    let checker ← get
    if checker.tyOf elem = first then checkElems first rest
    else .fail (.heterogeneousList (checker.startOf elem) first (checker.tyOf elem))

def checkList (start len : Nat) : CheckM Ty := do
  let checker ← get
  match input.ast.argsOf start len with
  | [] => pure .list
  | first :: rest =>
    if (checker.tyOf first).nullable then do
      checkElems (checker.tyOf first) rest
      pure .list
    else
      .fail (.heterogeneousList (checker.startOf first) (checker.tyOf first) (checker.tyOf first))

def unify (thenNode elseNode : NodeId) : CheckM Ty := do
  let checker ← get
  let thenTy := checker.tyOf thenNode
  let elseTy := checker.tyOf elseNode
  if thenTy = elseTy then pure thenTy
  else if thenTy = .null ∧ elseTy.nullable then pure elseTy
  else if elseTy = .null ∧ thenTy.nullable then pure thenTy
  else .fail (.typeMismatch (checker.startOf thenNode) thenTy elseTy)

/-- The position later errors cite for a node built on `id`. -/
def startAt (id : NodeId) : CheckM Nat := fun checker => .ok (checker.startOf id, checker)

def checkNode (index : Nat) (node : Node) : CheckM (Ty × Nat) :=
  match node with
  | .bool _ => pure (.bool, 0)
  | .int _ => pure (.int, 0)
  | .str text => pure (.str, text.start)
  | .null => pure (.null, 0)
  | .ident name => do
    if input.isFieldBase[index]?.getD false then pure (.map, name.start)
    else do
      StateT.lift (namespaceOrError name input.source)
      pure (.map, name.start)
  | .field base name => do
    let ty ← resolveField input index base name
    pure (ty, ← startAt base)
  | .index base key => do
    let ty ← resolveIndex input index base key
    pure (ty, ← startAt base)
  | .call base method argsFrom argsLen => do
    let ty ← checkCall input base method argsFrom argsLen
    pure (ty, ← startAt base)
  | .not inner => do
    expectTy inner .bool
    pure (.bool, ← startAt inner)
  | .and lhs rhs | .or lhs rhs => do
    expectTy lhs .bool
    expectTy rhs .bool
    pure (.bool, ← startAt lhs)
  | .bin op lhs rhs => do
    let ty ← checkBin input op lhs rhs
    pure (ty, ← startAt lhs)
  | .ternary cond thenNode elseNode => do
    expectTy cond .bool
    let ty ← unify thenNode elseNode
    pure (ty, ← startAt cond)
  | .list start len => do
    let ty ← checkList input start len
    match (input.ast.argsOf start len).head? with
    | some first => pure (ty, ← startAt first)
    | none => pure (ty, 0)

def checkStep (index : Nat) (node : Node) : CheckM Unit := do
  let (ty, start) ← checkNode input index node
  modify fun checker =>
    { checker with
      types := checker.types.set index ty
      starts := checker.starts.set index start }

end Nodes

def fieldBases (nodes : List Node) : List Bool :=
  nodes.foldl
    (fun marked node =>
      match node with
      | .field base _ => marked.set base true
      | _ => marked)
    (List.replicate nodes.length false)

def Checker.initial (strings : Bytes) (count : Nat) : Checker where
  strings := strings
  types := List.replicate count .null
  starts := List.replicate count 0
  nodeSlot := List.replicate count noSlot
  nodeMap := List.replicate count none
  slots := []

/-- Type checks one parsed expression against the schema for `phase`. -/
def check (ast : Ast) (strings : Bytes) (source : Bytes) (phase : Phase)
    (limits : PolicyLimits) : Fallible CheckError Checked := do
  let count := ast.nodes.length
  let (_, checker) ← (passFrom ast.nodes
    (checkStep ⟨ast, source, phase, limits, fieldBases ast.nodes⟩) 0 count).run
      (.initial strings count)
  if limits.maxAttrSlots.toNat < checker.slots.length then
    report (.tooManyAttrSlots limits.maxAttrSlots.toNat)
  else if checker.tyOf ast.root = .map then
    report (.typeMismatch (checker.startOf ast.root) .bool .map)
  else
    .ok
      { ast
        types := checker.types
        slots := checker.slots
        nodeSlot := checker.nodeSlot
        phase
        result := checker.tyOf ast.root
        strings := checker.strings }

end IronTraffic.Policy
