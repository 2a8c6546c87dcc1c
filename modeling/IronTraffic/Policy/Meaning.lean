import IronTraffic.Policy.Checker
import IronTraffic.Policy.Machine
import IronTraffic.Policy.Tree

/-! # Direct evaluation

What an expression means, read off its tree: attributes are looked up by their
dotted path, `&&`, `||` and `?:` evaluate only what they need, and every other
operator evaluates all its operands. Evaluation gets stuck where an operator has
no meaning for its operands.
-/

namespace IronTraffic.Policy

/-- The surroundings of an evaluation: the source text that names refer to, the
decoded strings of the literals, request state and the regex engine. -/
structure World where
  text : Bytes
  strings : Bytes
  attrs : AttrSource
  engine : RegexEngine

inductive Meaning where
  | scalar (value : Value)
  | list (elems : List Value)
  deriving DecidableEq

namespace Literal

def value (strings : Bytes) : Literal → Value
  | .bool value => .bool value
  | .int value => .int value
  | .str text => .str (rangeOf strings text.start text.len)
  | .null => .null

def ty : Literal → Ty
  | .bool _ => .bool
  | .int _ => .int
  | .str _ => .str
  | .null => .null

lemma ty_value (strings : Bytes) (literal : Literal) : (literal.value strings).ty = literal.ty := by
  cases literal <;> rfl

end Literal

namespace Expr

def path (text : Bytes) : Expr → Option Bytes
  | .ident name => name.slice text
  | .field base name => do
    let front ← base.path text
    let segment ← name.slice text
    some (front ++ ascii "." ++ segment)
  | _ => none

def entry (text : Bytes) : Expr → Option AttrEntry
  | .field base name => ((Expr.field base name).path text).bind resolvePath
  | _ => none

def attrOf (text : Bytes) (expr : Expr) : Option AttrId :=
  (expr.entry text).bind AttrEntry.attr

def mapOf (text : Bytes) (expr : Expr) : Option MapId :=
  match expr.attrOf text with
  | some _ => none
  | none => (expr.entry text).bind AttrEntry.map

def isList : Expr → Bool
  | .list _ => true
  | _ => false

def isListValued : Expr → Bool
  | .list _ => true
  | .junction _ _ rhs => rhs.isListValued
  | .ternary _ thenExpr elseExpr => thenExpr.isListValued || elseExpr.isListValued
  | _ => false

end Expr

namespace Meaning

def truth : Meaning → Option Bool
  | .scalar (.bool flag) => some flag
  | _ => none

def number : Meaning → Option Int
  | .scalar (.int number) => some number
  | _ => none

def value : Meaning → Option Value
  | .scalar value => some value
  | .list _ => none

/-- A string, or `none` for null. -/
def chars : Meaning → Option (Option Bytes)
  | .scalar (.str bytes) => some (some bytes)
  | .scalar .null => some none
  | _ => none

/-- `.size()`: bytes of a string, elements of a list. -/
def size : Meaning → Option Value
  | .scalar (.str bytes) => some (.int (toI64 bytes.length))
  | .list elems => some (.int elems.length)
  | _ => none

def negate (operand : Meaning) : Option Value := operand.truth.map fun flag => .bool !flag

end Meaning

def Method.holds (engine : RegexEngine) : Method → Bytes → Bytes → Bool
  | .startsWith => fun left right => right.isPrefixOf left
  | .endsWith => fun left right => right.isSuffixOf left
  | .contains => fun left right => decide (right <:+: left)
  | .isMatch => fun subject pattern => engine.isMatch pattern subject
  | .equalsIgnoreCase => asciiEqIgnoreCase
  | .startsWithIgnoreCase => asciiStartsWithIgnoreCase
  | .size => fun _ _ => false

def Method.apply (engine : RegexEngine) (method : Method) (left right : Meaning) :
    Option Value := do
  let left ← left.chars
  let right ← right.chars
  some (.bool (testStrings (method.holds engine) left right))

def BinOp.isOrdering : BinOp → Bool
  | .lt | .le | .gt | .ge => true
  | .eq | .ne | .isIn => false

def BinOp.orders : BinOp → Int → Int → Bool
  | .lt => fun left right => decide (left < right)
  | .le => fun left right => decide (left ≤ right)
  | .gt => fun left right => decide (left > right)
  | .ge => fun left right => decide (left ≥ right)
  | .eq | .ne | .isIn => fun _ _ => false

def BinOp.apply (op : BinOp) (left right : Meaning) : Option Value :=
  match op with
  | .eq => do some (.bool ((← left.value).itplEq (← right.value)))
  | .ne => do some (.bool (!(← left.value).itplEq (← right.value)))
  | .isIn =>
    match left, right with
    | .scalar value, .list elems => some (.bool (elems.any fun elem => elem.itplEq value))
    | _, _ => none
  | op => do some (.bool (op.orders (← left.number) (← right.number)))

lemma BinOp.apply_ordering {op : BinOp} (isOrdering : op.isOrdering) (left right) :
    op.apply left right = (do some (.bool (op.orders (← left.number) (← right.number)))) := by
  cases op with
  | eq | ne | isIn => cases isOrdering
  | lt | le | gt | ge => rfl

def World.lookup (world : World) (map : MapId) (key : Span) : Value :=
  let bytes := (key.slice world.strings).getD []
  let key := if map.lowercaseKeys then bytes.map toAsciiLowercase else bytes
  match world.attrs.field map key with
  | .present bytes => .str bytes
  | .absent | .duplicate => .null

def World.index (world : World) (base key : Expr) : Option Value :=
  match base.mapOf world.text, key with
  | some map, .literal (.str key) => some (world.lookup map key)
  | _, _ => none

mutual

def evaluate (world : World) : Expr → Option Meaning
  | .literal constant => some (.scalar (constant.value world.strings))
  | .ident _ => none
  | .field base name =>
    ((Expr.field base name).attrOf world.text).map fun attr =>
      .scalar (world.attrs.scalar attr)
  | .index base key => (world.index base key).map .scalar
  | .size base => do
    let operand ← evaluate world base
    operand.size.map .scalar
  | .test method base arg => do
    let left ← evaluate world base
    let right ← evaluate world arg
    (method.apply world.engine left right).map .scalar
  | .not inner => do
    let operand ← evaluate world inner
    operand.negate.map .scalar
  | .bin op lhs rhs => do
    let left ← evaluate world lhs
    let right ← evaluate world rhs
    (op.apply left right).map .scalar
  | .junction stop lhs rhs => do
    let flag ← (← evaluate world lhs).truth
    if flag = stop then some (.scalar (.bool stop)) else evaluate world rhs
  | .ternary cond thenExpr elseExpr => do
    let flag ← (← evaluate world cond).truth
    if flag then evaluate world thenExpr else evaluate world elseExpr
  | .list elems => (evaluateAll world elems).map .list

def evaluateAll (world : World) : List Expr → Option (List Value)
  | [] => some []
  | elem :: rest => do
    let value ← (← evaluate world elem).value
    let values ← evaluateAll world rest
    some (value :: values)

end

def World.decides (world : World) (expr : Expr) : Option Bool :=
  (evaluate world expr).bind Meaning.truth

lemma World.decides_eq_some {expr} :
    world.decides expr = some flag ↔ evaluate world expr = some (.scalar (.bool flag)) := by
  unfold World.decides
  constructor
  · intro decided
    rw [Option.bind_eq_some_iff] at decided
    rcases decided with ⟨meaning, evaluates, isTruth⟩
    cases meaning with
    | list => cases isTruth
    | scalar value =>
      cases value with
      | bool other =>
        cases isTruth
        exact evaluates
      | int | str | null => cases isTruth
  · intro evaluates
    rw [evaluates]
    rfl

section Choices

variable {world : World} {cond thenExpr elseExpr lhs rhs : Expr} {stop : Bool}

lemma evaluate_junction :
    evaluate world (.junction stop lhs rhs) = (world.decides lhs).bind fun flag =>
      if flag = stop then some (.scalar (.bool stop)) else evaluate world rhs := by
  exact (Option.bind_assoc ..).symm

lemma evaluate_ternary :
    evaluate world (.ternary cond thenExpr elseExpr) = (world.decides cond).bind fun flag =>
      if flag then evaluate world thenExpr else evaluate world elseExpr := by
  exact (Option.bind_assoc ..).symm

end Choices

/-! ## Faults on the way -/

namespace Expr

mutual

/-- Whether a fault lies in a part of the expression that is evaluated, given
what is known about the operands that decide. -/
def meets (decides : Expr → Option Bool) (fault : Expr → Bool) : Expr → Bool
  | .literal constant => fault (.literal constant)
  | .ident name => fault (.ident name)
  | .field base name => fault (.field base name)
  | .index base key => fault (.index base key)
  | .size base => meets decides fault base || fault (.size base)
  | .test method base arg =>
    meets decides fault base || meets decides fault arg || fault (.test method base arg)
  | .not inner => meets decides fault inner || fault (.not inner)
  | .bin op lhs rhs =>
    meets decides fault lhs || meets decides fault rhs || fault (.bin op lhs rhs)
  | .junction stop lhs rhs =>
    meets decides fault lhs || fault (.junction stop lhs rhs) ||
      (decides lhs != some stop && meets decides fault rhs)
  | .ternary cond thenExpr elseExpr =>
    meets decides fault cond || fault (.ternary cond thenExpr elseExpr) ||
      (decides cond != some false && meets decides fault thenExpr) ||
      (decides cond != some true && meets decides fault elseExpr)
  | .list elems => meetsAny decides fault elems || fault (.list elems)

def meetsAny (decides : Expr → Option Bool) (fault : Expr → Bool) : List Expr → Bool
  | [] => false
  | elem :: rest => meets decides fault elem || meetsAny decides fault rest

end

/-- `.size()` of a list that is not written as a literal. -/
def sizesChoice : Expr → Bool
  | .size base => base.isListValued && !base.isList
  | _ => false

/-- Some `.size()` in the expression applies to a choice between lists. -/
def sizesSomeChoice (expr : Expr) : Bool := expr.meets (fun _ => none) sizesChoice

end Expr

namespace World

variable (world : World)

def isNull (expr : Expr) : Bool := evaluate world expr == some (.scalar .null)

def strictOnNull : Expr → Bool
  | .size base => world.isNull base
  | .not inner => world.isNull inner
  | .bin op lhs rhs => op.isOrdering && (world.isNull lhs || world.isNull rhs)
  | .junction _ lhs _ => world.isNull lhs
  | .ternary cond _ _ => world.isNull cond
  | _ => false

def sizesChoice (expr : Expr) : Bool := expr.meets world.decides Expr.sizesChoice

def meetsNull (expr : Expr) : Bool := expr.meets world.decides world.strictOnNull

end World

end IronTraffic.Policy
