import IronTraffic.Policy.Syntax

/-! # Expression trees

The arena stores an expression in post order: the nodes of an operand are
consecutive, operands follow each other, and a node comes right after its last
operand. An expression tree is what the arena stands for, and `Laid` says that
the arena holds a tree from a position on.
-/

namespace IronTraffic.Policy

open List

inductive Literal where
  | bool (value : Bool)
  | int (value : Int)
  | str (text : Span)
  | null

def Literal.node : Literal → Node
  | .bool value => .bool value
  | .int value => .int value
  | .str text => .str text
  | .null => .null

/-- A parsed expression as a tree. A junction is `&&` or `||`, told apart by the
truth value at which its left operand decides. -/
inductive Expr where
  | literal (literal : Literal)
  | ident (name : Span)
  | field (base : Expr) (name : Span)
  | index (base key : Expr)
  | size (base : Expr)
  | test (method : Method) (base arg : Expr)
  | not (inner : Expr)
  | bin (op : BinOp) (lhs rhs : Expr)
  | junction (stop : Bool) (lhs rhs : Expr)
  | ternary (cond thenExpr elseExpr : Expr)
  | list (elems : List Expr)

def junctionNode (stop : Bool) (lhs rhs : NodeId) : Node :=
  if stop then .or lhs rhs else .and lhs rhs

namespace Expr

def isLiteral : Expr → Bool
  | .literal _ => true
  | _ => false

@[induction_eliminator]
lemma induct {motive : Expr → Prop} (literal : ∀ constant, motive (.literal constant))
    (ident : ∀ name, motive (.ident name))
    (field : ∀ base name, motive base → motive (.field base name))
    (index : ∀ base key, motive base → motive key → motive (.index base key))
    (size : ∀ base, motive base → motive (.size base))
    (test : ∀ method base arg, motive base → motive arg → motive (.test method base arg))
    (not : ∀ inner, motive inner → motive (.not inner))
    (bin : ∀ op lhs rhs, motive lhs → motive rhs → motive (.bin op lhs rhs))
    (junction : ∀ stop lhs rhs, motive lhs → motive rhs → motive (.junction stop lhs rhs))
    (ternary : ∀ cond thenExpr elseExpr, motive cond → motive thenExpr → motive elseExpr →
      motive (.ternary cond thenExpr elseExpr))
    (list : ∀ elems, (∀ elem ∈ elems, motive elem) → motive (.list elems)) (expr) :
    motive expr := by
  exact Expr.rec literal ident field index size test not bin junction ternary list
    (fun _ mem => by cases mem)
    (fun head tail holds rest elem mem => by
      rcases mem_cons.mp mem with equal | later
      · subst elem
        exact holds
      · exact rest elem later) expr

mutual

def nodeCount : Expr → Nat
  | .literal _ => 1
  | .ident _ => 1
  | .field base _ => base.nodeCount + 1
  | .index base key => base.nodeCount + key.nodeCount + 1
  | .size base => base.nodeCount + 1
  | .test _ base arg => base.nodeCount + arg.nodeCount + 1
  | .not inner => inner.nodeCount + 1
  | .bin _ lhs rhs => lhs.nodeCount + rhs.nodeCount + 1
  | .junction _ lhs rhs => lhs.nodeCount + rhs.nodeCount + 1
  | .ternary cond thenExpr elseExpr =>
    cond.nodeCount + thenExpr.nodeCount + elseExpr.nodeCount + 1
  | .list elems => nodeCounts elems + 1

def nodeCounts : List Expr → Nat
  | [] => 0
  | elem :: rest => elem.nodeCount + nodeCounts rest

end

attribute [grind =] nodeCount nodeCounts

lemma nodeCount_pos (expr : Expr) : 0 < expr.nodeCount := by
  cases expr <;> simp [nodeCount]

/-- The arena index of the root of an expression laid out from `start` on. -/
def rootFrom (expr : Expr) (start : Nat) : Nat := start + expr.nodeCount - 1

def rootsFrom : List Expr → Nat → List NodeId
  | [], _ => []
  | elem :: rest, start => elem.rootFrom start :: rootsFrom rest (start + elem.nodeCount)

lemma rootFrom_succ (expr : Expr) (start : Nat) :
    expr.rootFrom start + 1 = start + expr.nodeCount := by
  have positive := expr.nodeCount_pos
  unfold rootFrom
  omega

lemma length_rootsFrom (elems) (start : Nat) : (rootsFrom elems start).length = elems.length := by
  induction elems generalizing start with
  | nil => rfl
  | cons elem rest induction =>
    simp only [rootsFrom, length_cons, induction]

lemma nodeCounts_append (left right) :
    nodeCounts (left ++ right) = nodeCounts left + nodeCounts right := by
  induction left with
  | nil => simp [nodeCounts]
  | cons elem rest induction =>
    simp only [cons_append, nodeCounts, induction]
    omega

lemma rootsFrom_append (left right) (start : Nat) :
    rootsFrom (left ++ right) start =
      rootsFrom left start ++ rootsFrom right (start + nodeCounts left) := by
  induction left generalizing start with
  | nil => simp [rootsFrom, nodeCounts]
  | cons elem rest induction =>
    simp only [cons_append, rootsFrom, nodeCounts, induction, add_assoc]

lemma length_le_nodeCounts (elems) : elems.length ≤ nodeCounts elems := by
  induction elems with
  | nil => exact Nat.zero_le _
  | cons elem rest induction =>
    have positive := elem.nodeCount_pos
    simp only [length_cons, nodeCounts]
    omega

def operands : Expr → List Expr
  | .literal _ | .ident _ => []
  | .field base _ => [base]
  | .index base key => [base, key]
  | .size base => [base]
  | .test _ base arg => [base, arg]
  | .not inner => [inner]
  | .bin _ lhs rhs => [lhs, rhs]
  | .junction _ lhs rhs => [lhs, rhs]
  | .ternary cond thenExpr elseExpr => [cond, thenExpr, elseExpr]
  | .list elems => elems

lemma nodeCount_operands (expr : Expr) : expr.nodeCount = nodeCounts expr.operands + 1 := by
  cases expr <;> simp only [nodeCount, operands, nodeCounts] <;> omega

lemma rootFrom_operands (expr : Expr) (start : Nat) :
    expr.rootFrom start = start + nodeCounts expr.operands := by
  rw [rootFrom, nodeCount_operands]
  rfl

/-- The arena node of an expression laid out from `start` on; a call or a list
literal refers to its arguments by their place in the argument list. -/
def node (start argsFrom : Nat) : Expr → Node
  | .literal constant => constant.node
  | .ident name => .ident name
  | .field base name => .field (base.rootFrom start) name
  | .index base key => .index (base.rootFrom start) (key.rootFrom (start + base.nodeCount))
  | .size base => .call (base.rootFrom start) .size argsFrom 0
  | .test method base _ => .call (base.rootFrom start) method argsFrom 1
  | .not inner => .not (inner.rootFrom start)
  | .bin op lhs rhs => .bin op (lhs.rootFrom start) (rhs.rootFrom (start + lhs.nodeCount))
  | .junction stop lhs rhs =>
    junctionNode stop (lhs.rootFrom start) (rhs.rootFrom (start + lhs.nodeCount))
  | .ternary cond thenExpr elseExpr =>
    .ternary (cond.rootFrom start) (thenExpr.rootFrom (start + cond.nodeCount))
      (elseExpr.rootFrom (start + cond.nodeCount + thenExpr.nodeCount))
  | .list elems => .list argsFrom elems.length

lemma operandInduct {motive : Expr → Prop}
    (whole : ∀ expr : Expr, (∀ operand ∈ expr.operands, motive operand) → motive expr) :
    ∀ expr, motive expr := by
  intro expr
  induction expr with
  | literal | ident => exact whole _ (by simp [operands])
  | field base name holds => exact whole _ (by simpa [operands] using holds)
  | size base holds => exact whole _ (by simpa [operands] using holds)
  | not inner holds => exact whole _ (by simpa [operands] using holds)
  | index base key left right => exact whole _ (by simpa [operands] using ⟨left, right⟩)
  | test method base arg left right | junction stop lhs rhs left right =>
    exact whole _ (by simpa [operands] using ⟨left, right⟩)
  | bin op lhs rhs left right => exact whole _ (by simpa [operands] using ⟨left, right⟩)
  | ternary cond thenExpr elseExpr first second third =>
    exact whole _ (by simpa [operands] using ⟨first, second, third⟩)
  | list elems each => exact whole _ each

end Expr

structure Arena where
  nodes : List Node
  args : List NodeId

def Ast.arena (ast : Ast) : Arena := ⟨ast.nodes, ast.args⟩

variable {before after : Arena} {expr : Expr} {start argsFrom : Nat} {elems rest : List Expr}
  {note other : Expr → Nat → Prop}

namespace Arena

def Grows (before after : Arena) : Prop :=
  before.nodes <+: after.nodes ∧ before.args <+: after.args

lemma Grows.refl (arena : Arena) : Grows arena arena :=
  ⟨prefix_refl _, prefix_refl _⟩

lemma Grows.trans (left : Grows first second) (right : Grows second third) : Grows first third :=
  ⟨left.1.trans right.1, left.2.trans right.2⟩

lemma Grows.node (grows : Grows before after) {index : Nat} {node : Node}
    (hit : before.nodes[index]? = some node) : after.nodes[index]? = some node := by
  rcases grows.1 with ⟨rest, equal⟩
  rw [← equal]
  exact getElem?_append_of_eq_some hit rest

lemma Grows.slice (grows : Grows before after)
    (hit : IronTraffic.slice before.args start stop = some part) :
    IronTraffic.slice after.args start stop = some part := by
  rcases grows.2 with ⟨rest, equal⟩
  rw [← equal]
  exact slice_append_of_eq_some hit rest

end Arena

/-! ## Facts about every node -/

/-- The note holds of the expression and of all expressions inside it. -/
inductive Everywhere (note : Expr → Nat → Prop) : Expr → Nat → Prop where
  | whole {expr : Expr} {start : Nat} (here : note expr start)
      (inside : ∀ before operand after, expr.operands = before ++ operand :: after →
        Everywhere note operand (start + Expr.nodeCounts before)) :
      Everywhere note expr start

/-- The note stands at each of the expressions, with everything inside it. -/
def EverywhereAll (note : Expr → Nat → Prop) (exprs : List Expr) (start : Nat) : Prop :=
  ∀ before expr after, exprs = before ++ expr :: after →
    Everywhere note expr (start + Expr.nodeCounts before)

namespace Everywhere

section

variable (everywhere : Everywhere note expr start)

include everywhere

lemma here : note expr start := by
  cases everywhere with
  | whole here _ => exact here

lemma inside {before after} {operand : Expr} (split : expr.operands = before ++ operand :: after) :
    Everywhere note operand (start + Expr.nodeCounts before) := by
  cases everywhere with
  | whole _ inside => exact inside before operand after split

lemma operands : EverywhereAll note expr.operands start :=
  fun _ _ _ split => everywhere.inside split

lemma mono (implies : ∀ expr start, note expr start → other expr start) :
    Everywhere other expr start := by
  induction everywhere with
  | whole here _ induction => exact .whole (implies _ _ here) induction

end

lemma intro (here : note expr start) (operands : EverywhereAll note expr.operands start) :
    Everywhere note expr start :=
  .whole here operands

lemma and (left : Everywhere note expr start) (right : Everywhere other expr start) :
    Everywhere (fun expr start => note expr start ∧ other expr start) expr start := by
  induction left with
  | whole here _ induction =>
    refine .whole ⟨here, right.here⟩ ?_
    intro before operand after split
    exact induction before operand after split (right.inside split)

lemma of_forall (holds : ∀ expr start, note expr start) (expr : Expr) (start : Nat) :
    Everywhere note expr start := by
  induction expr using Expr.operandInduct generalizing start with
  | whole expr each =>
    refine .whole (holds expr start) ?_
    intro before operand after split
    exact each operand (by rw [split]; simp) _

end Everywhere

lemma EverywhereAll.head (all : EverywhereAll note (expr :: rest) start) :
    Everywhere note expr start :=
  all [] expr rest rfl

lemma EverywhereAll.tail (all : EverywhereAll note (expr :: rest) start) :
    EverywhereAll note rest (start + expr.nodeCount) := by
  intro before operand after split
  have noted := all (expr :: before) operand after (by rw [split]; rfl)
  rw [Expr.nodeCounts, ← add_assoc] at noted
  exact noted

lemma EverywhereAll.nil : EverywhereAll note [] start := by
  intro before operand after split
  cases before <;> cases split

lemma EverywhereAll.cons (first : Everywhere note expr start)
    (others : EverywhereAll note rest (start + expr.nodeCount)) :
    EverywhereAll note (expr :: rest) start := by
  intro before operand after split
  cases before with
  | nil =>
    cases split
    exact first
  | cons other before =>
    cases split
    rw [Expr.nodeCounts, ← add_assoc]
    exact others before operand after rfl

lemma EverywhereAll.snoc (all : EverywhereAll note elems start)
    (last : Everywhere note expr (start + Expr.nodeCounts elems)) :
    EverywhereAll note (elems ++ [expr]) start := by
  induction elems generalizing start with
  | nil => exact .cons last .nil
  | cons elem elems induction =>
    rw [Expr.nodeCounts, ← add_assoc] at last
    exact .cons all.head (induction all.tail last)

/-! ## Layouts -/

/-- A call or a list literal has its arguments where its node says. -/
def Expr.Lists (arena : Arena) (start argsFrom : Nat) : Expr → Prop
  | .test method base arg =>
    method ≠ .size ∧
      slice arena.args argsFrom (argsFrom + 1) = some [arg.rootFrom (start + base.nodeCount)]
  | .list elems =>
    slice arena.args argsFrom (argsFrom + elems.length) = some (rootsFrom elems start)
  | _ => True

/-- The node of an expression is where it belongs, and so are its arguments. -/
structure LaidNode (arena : Arena) (expr : Expr) (start argsFrom : Nat) : Prop where
  hit : arena.nodes[expr.rootFrom start]? = some (expr.node start argsFrom)
  listed : expr.Lists arena start argsFrom

/-- The arena holds the expression in post order from `start` on. -/
abbrev Laid (arena : Arena) : Expr → Nat → Prop :=
  Everywhere fun expr start => ∃ argsFrom, LaidNode arena expr start argsFrom

abbrev LaidAll (arena : Arena) : List Expr → Nat → Prop :=
  EverywhereAll fun expr start => ∃ argsFrom, LaidNode arena expr start argsFrom

lemma LaidNode.of_grows (grows : before.Grows after) (node : LaidNode before expr start argsFrom) :
    LaidNode after expr start argsFrom := by
  refine ⟨grows.node node.hit, ?_⟩
  have listed := node.listed
  cases expr with
  | test => exact ⟨listed.1, grows.slice listed.2⟩
  | list => exact grows.slice listed
  | _ => trivial

lemma Laid.of_grows (grows : before.Grows after) (laid : Laid before expr start) :
    Laid after expr start := by
  apply laid.mono
  rintro expr start ⟨argsFrom, node⟩
  exact ⟨argsFrom, node.of_grows grows⟩

lemma LaidAll.of_grows (grows : before.Grows after) (laid : LaidAll before elems start) :
    LaidAll after elems start :=
  fun earlier operand later split => Laid.of_grows grows (laid earlier operand later split)

lemma LaidNode.argsOf_test {ast : Ast}
    (node : LaidNode ast.arena (.test method base arg) start argsFrom) :
    ast.argsOf argsFrom 1 = [arg.rootFrom (start + base.nodeCount)] :=
  congrArg (Option.getD · []) node.listed.2

lemma LaidNode.argsOf_list {ast : Ast} (node : LaidNode ast.arena (.list elems) start argsFrom) :
    ast.argsOf argsFrom elems.length = Expr.rootsFrom elems start :=
  congrArg (Option.getD · []) node.listed

end IronTraffic.Policy
