import IronTraffic.Policy.Syntax

/-! # The parser

A precedence-climbing parser from tokens to the flat arena. `expr` is the only
production that re-enters the grammar and the only one that counts depth; the
other productions are written over the production they re-enter.
-/

namespace IronTraffic.Policy

open Fallible

inductive ParseError where
  | unexpectedEof (spot : Nat)
  | unexpected (spot : Nat) (found : Tok)
  | tooDeep (spot max : Nat)
  | notImplemented (spot : Nat) (construct : Span)
  | badArity (spot : Nat) (method : Method) (expected found : Nat)
  | listTooLong (spot max : Nat)
  | tooManyNodes (max : Nat)
  | trailingTokens (spot : Nat)

structure ParseInput where
  toks : List Spanned
  source : Bytes
  limits : PolicyLimits

structure Parser where
  pos : Nat
  depth : Nat
  maxReached : Nat
  nodes : List Node
  args : List NodeId

abbrev ParserM := StateT Parser (Fallible ParseError)

def ParserM.fail (reason : ParseError) : ParserM Value := fun _ => report reason

def relopOf : Tok → Option BinOp
  | .eqEq => some .eq
  | .bangEq => some .ne
  | .lt => some .lt
  | .le => some .le
  | .gt => some .gt
  | .ge => some .ge
  | .isIn => some .isIn
  | _ => none

def spanAt (toks : List Spanned) (source : Bytes) (pos : Nat) : Span :=
  match toks[pos]? with
  | some spanned => spanned.span
  | none => Span.empty (toU32 source.length)

section Productions

variable (input : ParseInput)

def positionOf (state : Parser) : Nat := (spanAt input.toks input.source state.pos).start

def peek : ParserM (Option Tok) := fun state =>
  .ok (input.toks[state.pos]?.map Spanned.tok, state)

def advance : ParserM Unit := modify fun state => { state with pos := state.pos + 1 }

def errHere : ParserM Value := fun state =>
  match input.toks[state.pos]? with
  | some spanned => report (.unexpected (positionOf input state) spanned.tok)
  | none => report (.unexpectedEof (positionOf input state))

def eat (want : Tok) : ParserM Bool := do
  if (← peek input) = some want then
    advance
    pure true
  else
    pure false

def eatRelop : ParserM (Option BinOp) := do
  match (← peek input).bind relopOf with
  | some op =>
    advance
    pure (some op)
  | none => pure none

def next : ParserM Tok := do
  match ← peek input with
  | some tok =>
    advance
    pure tok
  | none => errHere input

def expect (want : Tok) : ParserM Unit := do
  if ← eat input want then pure () else errHere input

def expectIdent : ParserM Span := do
  match ← peek input with
  | some (.ident name) =>
    advance
    pure name
  | _ => errHere input

def pushNode (node : Node) : ParserM NodeId := fun state =>
  match NodeId.new state.nodes.length with
  | some id => .ok (id, { state with nodes := state.nodes ++ [node] })
  | none => report (.tooManyNodes u16Max)

def enter : ParserM Unit := fun state =>
  if input.limits.maxDepth.toNat < state.depth + 1 then
    report (.tooDeep (positionOf input state) input.limits.maxDepth.toNat)
  else
    .ok ((), { state with
      depth := state.depth + 1
      maxReached := max state.maxReached (state.depth + 1) })

def leave : ParserM Unit := modify fun state => { state with depth := state.depth - 1 }

/-- `u16::try_from`, reported as too many nodes. -/
def fitU16 (number : Nat) : ParserM Nat :=
  if number ≤ u16Max then pure number else .fail (.tooManyNodes u16Max)

def argsLength : ParserM Nat := fun state => .ok (state.args.length, state)

def extendArgs (elems : List NodeId) : ParserM Unit :=
  modify fun state => { state with args := state.args ++ elems }

def turns : Nat := input.toks.length + 1

variable (expr : ParserM NodeId)

def elemLoop (close : Tok) : Nat → List NodeId → ParserM (List NodeId)
  | 0, _ => fun _ => .error .outOfFuel
  | fuel + 1, elems => do
    if input.limits.maxListElems.toNat ≤ elems.length then
      fun state => report
        (.listTooLong (positionOf input state) input.limits.maxListElems.toNat)
    else do
      let elem ← expr
      if ← eat input .comma then elemLoop close fuel (elems ++ [elem])
      else do
        expect input close
        pure (elems ++ [elem])

def elemList (close : Tok) : ParserM (Nat × Nat) := do
  if ← eat input close then do
    let start ← fitU16 (← argsLength)
    pure (start, 0)
  else do
    let elems ← elemLoop input expr close (turns input) []
    let start ← fitU16 (← argsLength)
    let len ← fitU16 elems.length
    extendArgs elems
    pure (start, len)

/-- `.name(` was read: the rest of a method call on `base`. -/
def methodCall (base : NodeId) (name : Span) : ParserM NodeId := do
  match name.slice input.source with
  | none => .fail (.unexpected name.start (.ident name))
  | some bytes =>
    match Method.fromName bytes with
    | none => .fail (.notImplemented name.start name)
    | some method => do
      let (start, len) ← elemList input expr .rParen
      if len = method.arity then pushNode (.call base method start len)
      else .fail (.badArity name.start method method.arity (min len 255))

/-- One turn of the postfix loop: a longer expression, or `none` at its end. -/
def postfixStep (base : NodeId) : ParserM (Option NodeId) := do
  if ← eat input .dot then do
    let name ← expectIdent input
    if ← eat input .lParen then some <$> methodCall input expr base name
    else some <$> pushNode (.field base name)
  else if ← eat input .lBracket then do
    let index ← expr
    expect input .rBracket
    some <$> pushNode (.index base index)
  else pure none

def postfixLoop : Nat → NodeId → ParserM NodeId
  | 0, _ => fun _ => .error .outOfFuel
  | fuel + 1, base => do
    match ← postfixStep input expr base with
    | some longer => postfixLoop fuel longer
    | none => pure base

def primary : ParserM NodeId := do
  let start ← (fun state => .ok (positionOf input state, state) : ParserM Nat)
  match ← next input with
  | .bool value => pushNode (.bool value)
  | .int value => pushNode (.int value)
  | .str text => pushNode (.str text)
  | .null => pushNode .null
  | .lParen => do
    let inner ← expr
    expect input .rParen
    pure inner
  | .lBracket => do
    let (start, len) ← elemList input expr .rBracket
    pushNode (.list start len)
  | .ident name => do
    -- A bare call: the language has no bare functions.
    if (← peek input) = some .lParen then .fail (.notImplemented name.start name)
    else pushNode (.ident name)
  | other => .fail (.unexpected start other)

def postfixExpr : ParserM NodeId := do
  let base ← primary input expr
  postfixLoop input expr (turns input) base

/-- Counts leading `!` tokens. -/
def bangLoop : Nat → Nat → ParserM Nat
  | 0, _ => fun _ => .error .outOfFuel
  | fuel + 1, bangs => do
    if ← eat input .bang then bangLoop fuel (bangs + 1) else pure bangs

def pushNots : Nat → NodeId → ParserM NodeId
  | 0, inner => pure inner
  | bangs + 1, inner => do
    let outer ← pushNode (.not inner)
    pushNots bangs outer

def unary : ParserM NodeId := do
  let bangs ← bangLoop input (turns input) 0
  let inner ← postfixExpr input expr
  pushNots bangs inner

def rel : ParserM NodeId := do
  let lhs ← unary input expr
  match ← eatRelop input with
  | none => pure lhs
  | some op => do
    let rhs ← unary input expr
    match (← peek input).bind relopOf with
    | some _ => errHere input
    | none => pushNode (.bin op lhs rhs)

def junctionLoop (sign : Tok) (operand : ParserM NodeId) (node : NodeId → NodeId → Node) :
    Nat → NodeId → ParserM NodeId
  | 0, _ => fun _ => .error .outOfFuel
  | fuel + 1, lhs => do
    if ← eat input sign then do
      let rhs ← operand
      let joined ← pushNode (node lhs rhs)
      junctionLoop sign operand node fuel joined
    else pure lhs

def andExpr : ParserM NodeId := do
  let lhs ← rel input expr
  junctionLoop input .andAnd (rel input expr) .and (turns input) lhs

def orExpr : ParserM NodeId := do
  let lhs ← andExpr input expr
  junctionLoop input .orOr (andExpr input expr) .or (turns input) lhs

def exprInner : ParserM NodeId := do
  let cond ← orExpr input expr
  if ← eat input .question then do
    let thenNode ← expr
    expect input .colon
    let elseNode ← expr
    pushNode (.ternary cond thenNode elseNode)
  else pure cond

end Productions

/-- The recursive production. Each level of nesting is entered before it is
parsed, so the depth limit bounds the recursion. -/
def expr (input : ParseInput) : Nat → ParserM NodeId
  | 0 => do
    enter input
    fun _ => .error .outOfFuel
  | levels + 1 => do
    enter input
    let id ← exprInner input (expr input levels)
    leave
    pure id

/-- Parses one expression starting at token `start`; also returns the index of
the first token it did not consume. -/
def parseExprAt (toks : TokenStream) (source : Bytes) (limits : PolicyLimits) (start : Nat) :
    Fallible ParseError (Ast × Nat) := do
  let (root, state) ← (expr ⟨toks.toks, source, limits⟩ limits.maxDepth.toNat).run
    ⟨start, 0, 0, [], []⟩
  .ok (⟨state.nodes, state.args, root, state.maxReached⟩, state.pos)

def parse (toks : TokenStream) (source : Bytes) (limits : PolicyLimits) :
    Fallible ParseError Ast := do
  let (ast, pos) ← parseExprAt toks source limits 0
  if pos = toks.toks.length then .ok ast
  else report (.trailingTokens (spanAt toks.toks source pos).start)

end IronTraffic.Policy
