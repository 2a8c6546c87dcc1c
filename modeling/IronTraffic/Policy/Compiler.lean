import IronTraffic.Policy.Checker
import IronTraffic.Policy.Machine

/-! # The compiler

One forward pass over the checked arena emits the instructions in post order.
The jump of a short-circuit operator or a ternary is reserved before the first
node of the operand it may skip, and patched when its own node is reached.
-/

namespace IronTraffic.Policy

inductive CompileError where
  | badRegex (spot : Nat) (message : String)
  | tooManyRegexes (max : Nat)
  | tooManyConsts (max : Nat)
  | verify (reason : VerifyError)

inductive HoleKind where
  | jumpIfFalse
  | jumpIfTrue
  | branchIfFalse
  | jump

def placeholderFor : HoleKind → Op
  | .jumpIfFalse => .jumpIfFalse 0
  | .jumpIfTrue => .jumpIfTrue 0
  | .branchIfFalse => .branchIfFalse 0
  | .jump => .jump 0

def markHoles (holes : List (Option HoleKind)) : Node → List (Option HoleKind)
  | .and lhs _ => holes.set (lhs + 1) (some .jumpIfFalse)
  | .or lhs _ => holes.set (lhs + 1) (some .jumpIfTrue)
  | .ternary cond thenNode _ =>
    (holes.set (cond + 1) (some .branchIfFalse)).set (thenNode + 1) (some .jump)
  | _ => holes

def buildHoleBefore (ast : Ast) : List (Option HoleKind) :=
  ast.nodes.foldl markHoles (List.replicate ast.nodes.length none)

def isLiteralNode (ast : Ast) (id : NodeId) : Bool :=
  match ast.node id with
  | some (.bool _) | some (.int _) | some (.str _) | some .null => true
  | _ => false

def markSuppressed (ast : Ast) (suppressed : List Bool) : Node → List Bool
  | .list start len =>
    (ast.argsOf start len).foldl
      (fun suppressed elem =>
        if isLiteralNode ast elem then suppressed.set elem true else suppressed)
      suppressed
  | .call _ .isMatch argsFrom argsLen =>
    match (ast.argsOf argsFrom argsLen).head? with
    | some pattern => suppressed.set pattern true
    | none => suppressed
  | _ => suppressed

def buildSuppressed (ast : Ast) : List Bool :=
  ast.nodes.foldl (markSuppressed ast) (List.replicate ast.nodes.length false)

def scalarEq (strings : Bytes) : Const → Const → Bool
  | .bool left, .bool right => left == right
  | .int left, .int right => left == right
  | .null, .null => true
  | .str leftStart leftLen, .str rightStart rightLen =>
    rangeOf strings leftStart leftLen == rangeOf strings rightStart rightLen
  | _, _ => false

/-- Interning compares contents, not ranges. The elements of a list literal are
scalars, so one level of elements is all there is. -/
def constEq (strings : Bytes) (listElems : List Const) : Const → Const → Bool
  | .list leftStart leftLen, .list rightStart rightLen =>
    let left := rangeOf listElems leftStart leftLen
    let right := rangeOf listElems rightStart rightLen
    left.length == right.length &&
      (left.zip right).all fun pair => scalarEq strings pair.1 pair.2
  | left, right => scalarEq strings left right

def constOfLeaf (ast : Ast) (id : NodeId) : Const :=
  match ast.node id with
  | some (.bool value) => .bool value
  | some (.int value) => .int value
  | some (.str text) => .str text.start text.len
  | _ => .null

def isListNode (ast : Ast) (id : NodeId) : Bool :=
  match ast.node id with
  | some (.list _ _) => true
  | _ => false

def listLenOf (ast : Ast) (id : NodeId) : Nat :=
  match ast.node id with
  | some (.list _ len) => len
  | _ => 0

def comparisonOp : BinOp → Op
  | .eq | .isIn => .eq
  | .ne => .ne
  | .lt => .lt
  | .le => .le
  | .gt => .gt
  | .ge => .ge

def methodOp : Method → Op
  | .startsWith => .startsWith
  | .endsWith => .endsWith
  | .contains => .contains
  | .equalsIgnoreCase => .eqIgnoreCase
  | .startsWithIgnoreCase => .startsWithIgnoreCase
  | .size | .isMatch => .not

structure CompileInput where
  checked : Checked
  limits : PolicyLimits
  engine : RegexEngine
  holeBefore : List (Option HoleKind)
  suppressed : List Bool

structure Compiler where
  holePos : List Nat
  nodeConst : List Nat
  code : List Op
  consts : List Const
  listElems : List Const
  regexes : List Bytes

abbrev CompileM := StateT Compiler (Except CompileError)

def CompileM.fail {Result : Type} (reason : CompileError) : CompileM Result :=
  fun _ => .error reason

def emit (op : Op) : CompileM Unit :=
  modify fun compiler => { compiler with code := compiler.code ++ [op] }

def Op.retarget (target : Nat) : Op → Op
  | .jump _ => .jump target
  | .jumpIfFalse _ => .jumpIfFalse target
  | .jumpIfTrue _ => .jumpIfTrue target
  | .branchIfFalse _ => .branchIfFalse target
  | op => op

/-- Points the jump reserved before node `key` at `target`. -/
def patch (key target : Nat) : CompileM Unit :=
  modify fun compiler =>
    match compiler.holePos[key]? with
    | some spot => { compiler with code := compiler.code.modify spot (Op.retarget target) }
    | none => compiler

section Nodes

variable (input : CompileInput)

def internConst (want : Const) : CompileM Nat := fun compiler =>
  match compiler.consts.findIdx? fun const =>
      constEq input.checked.strings compiler.listElems const want with
  | some index => .ok (toU16 index, compiler)
  | none =>
    if input.limits.maxConsts.toNat ≤ compiler.consts.length then
      .error (.tooManyConsts input.limits.maxConsts.toNat)
    else
      .ok (toU16 compiler.consts.length, { compiler with consts := compiler.consts ++ [want] })

def internRegex (pattern : Bytes) (spot : Nat) : CompileM Nat := fun compiler =>
  match compiler.regexes.findIdx? fun regex => regex == pattern with
  | some index => .ok (toU16 index, compiler)
  | none =>
    if input.limits.maxRegex.toNat ≤ compiler.regexes.length then
      .error (.tooManyRegexes input.limits.maxRegex.toNat)
    else
      match input.engine.build pattern input.limits.maxRegexSize.toNat with
      | .error message => .error (.badRegex spot message)
      | .ok _ =>
        .ok (toU16 compiler.regexes.length,
          { compiler with regexes := compiler.regexes ++ [pattern] })

/-- Reserves the jump that belongs before node `index`, if any. -/
def openHole (index : Nat) : CompileM Unit :=
  match (input.holeBefore[index]?).join with
  | none => pure ()
  | some kind => modify fun compiler =>
    { compiler with
      holePos := compiler.holePos.set index (toU16 compiler.code.length)
      code := compiler.code ++ [placeholderFor kind] }

def isSuppressed (index : Nat) : Bool := input.suppressed[index]?.getD false

def emitLeaf (index : Nat) (want : Const) : CompileM Unit :=
  if isSuppressed input index then pure ()
  else do
    let const ← internConst input want
    emit (.loadConst const)

def emitAttr (index : Nat) : CompileM Unit :=
  if isSuppressed input index then pure ()
  else
    let slot := input.checked.nodeSlot[index]?.getD noSlot
    if slot ≠ noSlot then emit (.loadAttr slot) else pure ()

def emitSizeCall (base : NodeId) : CompileM Unit :=
  if isListNode input.checked.ast base then do
    let const ← internConst input (.int (listLenOf input.checked.ast base))
    emit (.loadConst const)
  else emit .size

/-- The pattern of a `matches` call and its offset. -/
def patternOf (argsFrom argsLen : Nat) : Bytes × Nat :=
  match ((input.checked.ast.argsOf argsFrom argsLen).head?).bind input.checked.ast.node with
  | some (.str text) => (rangeOf input.checked.strings text.start text.len, text.start)
  | _ => ([], 0)

def emitMatchesCall (argsFrom argsLen : Nat) : CompileM Unit := do
  let (pattern, spot) := patternOf input argsFrom argsLen
  if (utf8Error pattern).isSome then
    .fail (.badRegex spot "regex pattern is not valid UTF-8")
  else do
    let regex ← internRegex input pattern spot
    emit (.regexMatch regex)

def emitList (index start len : Nat) : CompileM Unit := do
  let elems := input.checked.ast.argsOf start len
  let compiler ← get
  set { compiler with
    listElems := compiler.listElems ++ elems.map (constOfLeaf input.checked.ast) }
  let const ← internConst input (.list (toU32 compiler.listElems.length) (toU32 elems.length))
  modify fun compiler => { compiler with nodeConst := compiler.nodeConst.set index const }

def closeShortCircuit (lhs : NodeId) : CompileM Unit := do
  let compiler ← get
  patch (lhs + 1) (toU16 compiler.code.length)

def closeTernary (cond thenNode : NodeId) : CompileM Unit := do
  let compiler ← get
  patch (thenNode + 1) (toU16 compiler.code.length)
  -- The else branch starts right after the jump that ends the then branch.
  patch (cond + 1) (toU16 (compiler.holePos[thenNode + 1]?.getD u16Max + 1))

def emitNode (index : Nat) (node : Node) : CompileM Unit :=
  match node with
  | .bool value => emitLeaf input index (.bool value)
  | .int value => emitLeaf input index (.int value)
  | .str text => emitLeaf input index (.str text.start text.len)
  | .null => emitLeaf input index .null
  | .ident _ | .field _ _ | .index _ _ => emitAttr input index
  | .not _ => emit .not
  | .bin .isIn _ rhs => do
    let compiler ← get
    emit (.inSet (compiler.nodeConst[rhs]?.getD 0))
  | .bin op _ _ => emit (comparisonOp op)
  | .call base .size _ _ => emitSizeCall input base
  | .call _ .isMatch argsFrom argsLen => emitMatchesCall input argsFrom argsLen
  | .call _ method _ _ => emit (methodOp method)
  | .and lhs _ | .or lhs _ => closeShortCircuit lhs
  | .ternary cond thenNode _ => closeTernary cond thenNode
  | .list start len => emitList input index start len

def emitStep (index : Nat) (node : Node) : CompileM Unit := do
  openHole input index
  emitNode input index node

end Nodes

def compile (engine : RegexEngine) (checked : Checked) (limits : PolicyLimits) :
    Except CompileError Program := do
  let ast := checked.ast
  let count := ast.nodes.length
  let (_, compiler) ←
    (passFrom ast.nodes
      (emitStep ⟨checked, limits, engine, buildHoleBefore ast, buildSuppressed ast⟩) 0
      count).run
        { holePos := List.replicate count u16Max
          nodeConst := List.replicate count 0
          code := []
          consts := []
          listElems := []
          regexes := [] }
  let ops := compiler.code ++ [.ret]
  match verify ops compiler.consts checked.slots compiler.regexes.length limits with
  | .error reason => .error (.verify reason)
  | .ok maxStack =>
    .ok
      { ops
        consts := compiler.consts
        listElems := compiler.listElems
        strings := checked.strings
        slots := checked.slots
        regexes := compiler.regexes
        result := checked.result
        phase := checked.phase
        maxStack }

end IronTraffic.Policy
