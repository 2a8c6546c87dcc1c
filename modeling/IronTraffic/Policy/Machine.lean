import IronTraffic.Foundation.Run
import IronTraffic.Policy.Program

/-! # The evaluator

A program runs on an operand stack of fixed depth and an environment that
resolves attribute slots on first touch. One turn of the evaluator's loop is a
step of a machine; the loop is a run with a step budget.
-/

namespace IronTraffic.Policy

inductive Value where
  | bool (value : Bool)
  | int (value : Int)
  | str (bytes : Bytes)
  | null
  deriving DecidableEq

namespace Value

def asInt : Value → Option Int
  | .int value => some value
  | _ => none

def asBool : Value → Option Bool
  | .bool value => some value
  | _ => none

def isNull : Value → Bool
  | .null => true
  | _ => false

def ty : Value → Ty
  | .bool _ => .bool
  | .int _ => .int
  | .str _ => .str
  | .null => .null

/-- Equality of the language: `null` equals only `null`, and values of
different types differ. -/
def itplEq (left right : Value) : Bool :=
  if left.isNull || right.isNull then left.isNull && right.isNull
  else
    match left, right with
    | .bool a, .bool b => a == b
    | .int a, .int b => a == b
    | .str a, .str b => a == b
    | _, _ => false

end Value

inductive FieldOutcome where
  | present (bytes : Bytes)
  | absent
  | duplicate

structure AttrSource where
  scalar : AttrId → Value
  field : MapId → Bytes → FieldOutcome

/-- The regex crate: whether a pattern compiles within a size limit, or the
message it is refused with, and which byte strings a pattern matches. -/
structure RegexEngine where
  build : Bytes → Nat → Except String Unit
  isMatch : Bytes → Bytes → Bool

inductive EvalError where
  | badPc (pc : Nat)
  | badOperand (pc : Nat)
  | stackUnderflow (pc : Nat)
  | stackOverflow (pc : Nat)
  | stepBudget (steps : Nat)
  | typeError (pc : Nat)
  deriving DecidableEq

structure Env where
  slots : List (Option Value)
  used : Nat
  sawDuplicate : Bool

namespace Env

def maxSlots : Nat := 16

def new (used : Nat) : Env := ⟨List.replicate maxSlots none, used, false⟩

def lookup (source : AttrSource) (program : Program) : AttrRef → Value × Bool
  | .scalar attr => (source.scalar attr, false)
  | .field map key =>
    match source.field map (program.keyBytes key) with
    | .present bytes => (.str bytes, false)
    | .absent => (.null, false)
    | .duplicate => (.null, true)

def slot (env : Env) (index : Nat) (source : AttrSource) (program : Program) :
    Except EvalError (Value × Env) :=
  if maxSlots ≤ index ∨ env.used ≤ index then .error (.badOperand index)
  else
    match (env.slots[index]?).join with
    | some value => .ok (value, env)
    | none =>
      match program.slots[index]? with
      | none => .error (.badOperand index)
      | some reference =>
        let hit := lookup source program reference
        .ok (hit.1, { env with
            slots := env.slots.set index (some hit.1)
            sawDuplicate := env.sawDuplicate || hit.2 })

end Env

def constToValue (program : Program) : Const → Option Value
  | .bool value => some (.bool value)
  | .int value => some (.int value)
  | .str start len => some (.str (program.constStr (.str start len)))
  | .null => some .null
  | .list _ _ => none

def constValue (program : Program) (index : Nat) : Option Value :=
  program.consts[index]?.bind (constToValue program)

def asciiEqIgnoreCase (left right : Bytes) : Bool :=
  left.length == right.length &&
    (left.zip right).all fun pair => eqIgnoreAsciiCase pair.1 pair.2

def asciiStartsWithIgnoreCase (left right : Bytes) : Bool :=
  decide (right.length ≤ left.length) &&
    asciiEqIgnoreCase (left.take right.length) right

abbrev Stack := List Value

section

variable (stack : Stack)

def push (pc : Nat) (value : Value) : Except EvalError Stack :=
  if stack.length < Program.stackLimit then .ok (value :: stack)
  else .error (.stackOverflow (toU16 pc))

def pop (pc : Nat) : Except EvalError (Value × Stack) :=
  match stack with
  | [] => .error (.stackUnderflow (toU16 pc))
  | top :: rest => .ok (top, rest)

def popInt (pc : Nat) : Except EvalError (Int × Stack) := do
  let (value, rest) ← pop stack pc
  match value.asInt with
  | some number => .ok (number, rest)
  | none => .error (.typeError (toU16 pc))

def popBool (pc : Nat) : Except EvalError (Bool × Stack) := do
  let (value, rest) ← pop stack pc
  match value.asBool with
  | some flag => .ok (flag, rest)
  | none => .error (.typeError (toU16 pc))

/-- A string, or `none` for a null operand. -/
def popStrOrNull (pc : Nat) : Except EvalError (Option Bytes × Stack) := do
  let (value, rest) ← pop stack pc
  match value with
  | .str bytes => .ok (some bytes, rest)
  | .null => .ok (none, rest)
  | .bool _ | .int _ => .error (.typeError (toU16 pc))

def peekBool (pc : Nat) : Except EvalError Bool :=
  match stack with
  | [] => .error (.stackUnderflow (toU16 pc))
  | top :: _ =>
    match top.asBool with
    | some flag => .ok flag
    | none => .error (.typeError (toU16 pc))

end

inductive Effect where
  | fallThrough (stack : Stack) (env : Env)
  | goTo (target : Nat) (stack : Stack) (env : Env)
  | return (value : Value)

def compareValues (test : Value → Value → Bool) (stack : Stack) (pc : Nat) :
    Except EvalError Stack := do
  let (right, stack) ← pop stack pc
  let (left, stack) ← pop stack pc
  push stack pc (.bool (test left right))

def compareInts (test : Int → Int → Bool) (stack : Stack) (pc : Nat) :
    Except EvalError Stack := do
  let (right, stack) ← popInt stack pc
  let (left, stack) ← popInt stack pc
  push stack pc (.bool (test left right))

def testStrings (test : Bytes → Bytes → Bool) (left right : Option Bytes) : Bool :=
  match left, right with
  | some left, some right => test left right
  | _, _ => false

def compareStrings (test : Bytes → Bytes → Bool) (stack : Stack) (pc : Nat) :
    Except EvalError Stack := do
  let (right, stack) ← popStrOrNull stack pc
  let (left, stack) ← popStrOrNull stack pc
  push stack pc (.bool (testStrings test left right))

def inList (program : Program) (elems : List Const) (value : Value) : Bool :=
  (elems.filterMap (constToValue program)).any fun elem => elem.itplEq value

/-- `i64::try_from(len).unwrap_or(i64::MAX)`. -/
def toI64 (len : Nat) : Int := min (len : Int) 9223372036854775807

/-- The operand effect of an instruction that neither jumps nor returns nor
reads the environment. -/
def operate (engine : RegexEngine) (program : Program) (op : Op) (stack : Stack)
    (pc : Nat) : Except EvalError Stack :=
  match op with
  | .loadConst index =>
    match constValue program index with
    | some value => push stack pc value
    | none => .error (.badOperand (toU16 pc))
  | .eq => compareValues Value.itplEq stack pc
  | .ne => compareValues (fun left right => !left.itplEq right) stack pc
  | .lt => compareInts (fun left right => decide (left < right)) stack pc
  | .le => compareInts (fun left right => decide (left ≤ right)) stack pc
  | .gt => compareInts (fun left right => decide (left > right)) stack pc
  | .ge => compareInts (fun left right => decide (left ≥ right)) stack pc
  | .inSet index => do
    let (value, stack) ← pop stack pc
    match program.listOf index with
    | some elems => push stack pc (.bool (inList program elems value))
    | none => .error (.badOperand (toU16 pc))
  | .startsWith => compareStrings (fun left right => right.isPrefixOf left) stack pc
  | .endsWith => compareStrings (fun left right => right.isSuffixOf left) stack pc
  | .contains => compareStrings (fun left right => decide (right <:+: left)) stack pc
  | .eqIgnoreCase => compareStrings asciiEqIgnoreCase stack pc
  | .startsWithIgnoreCase => compareStrings asciiStartsWithIgnoreCase stack pc
  | .regexMatch index => do
    let (subject, stack) ← popStrOrNull stack pc
    match program.regex index with
    | some pattern => push stack pc (.bool (subject.any (engine.isMatch pattern)))
    | none => .error (.badOperand (toU16 pc))
  | .size => do
    let (value, stack) ← pop stack pc
    match value with
    | .str bytes => push stack pc (.int (toI64 bytes.length))
    | _ => .error (.typeError (toU16 pc))
  | .not => do
    let (flag, stack) ← popBool stack pc
    push stack pc (.bool (!flag))
  | _ => .ok stack

def execute (engine : RegexEngine) (program : Program) (source : AttrSource) (op : Op)
    (stack : Stack) (env : Env) (pc : Nat) : Except EvalError Effect :=
  match op with
  | .loadAttr index => do
    let (value, env) ← env.slot index source program
    let stack ← push stack pc value
    .ok (.fallThrough stack env)
  | .jumpIfFalse target => do
    let flag ← peekBool stack pc
    .ok (if flag then .fallThrough stack.tail env else .goTo target stack env)
  | .jumpIfTrue target => do
    let flag ← peekBool stack pc
    .ok (if flag then .goTo target stack env else .fallThrough stack.tail env)
  | .branchIfFalse target => do
    let (flag, stack) ← popBool stack pc
    .ok (if flag then .fallThrough stack env else .goTo target stack env)
  | .jump target => .ok (.goTo target stack env)
  | .ret =>
    match stack with
    | [value] => .ok (.return value)
    | _ => .error (.stackUnderflow (toU16 pc))
  | _ => do
    let stack ← operate engine program op stack pc
    .ok (.fallThrough stack env)

structure Machine where
  pc : Nat
  stack : Stack
  env : Env

def step (engine : RegexEngine) (program : Program) (source : AttrSource)
    (machine : Machine) : Transition Machine (Except EvalError Value) :=
  match program.ops[machine.pc]? with
  | none => .halt (.error (.badPc (toU16 machine.pc)))
  | some op =>
    match execute engine program source op machine.stack machine.env machine.pc with
    | .error reason => .halt (.error reason)
    | .ok (.fallThrough stack env) => .next ⟨machine.pc + 1, stack, env⟩
    | .ok (.goTo target stack env) => .next ⟨target, stack, env⟩
    | .ok (.return value) => .halt (.ok value)

def stepBudget (program : Program) : Nat := toU32 program.ops.length

def Machine.initial (env : Env) : Machine := ⟨0, [], env⟩

/-- Evaluates a program. The loop refuses to start a turn once more steps were
taken than the budget. -/
def eval (engine : RegexEngine) (program : Program) (source : AttrSource) (env : Env) :
    Except EvalError Value :=
  match runFor (step engine program source) (stepBudget program + 1) (.initial env) with
  | some outcome => outcome
  | none => .error (.stepBudget (stepBudget program + 1))

/-- The machine states in which `eval` executes an instruction. -/
def executed (engine : RegexEngine) (program : Program) (source : AttrSource) (env : Env) :
    List Machine :=
  visited (step engine program source) (stepBudget program + 1) (.initial env)

end IronTraffic.Policy
