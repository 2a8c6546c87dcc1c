import IronTraffic.Policy.Schema

/-! # Programs and the bytecode verifier

A compiled policy is a flat array of instructions with forward jumps only, next
to its constant, slot and regex tables. `verify` interprets the instructions
once, front to back, over the depth of the operand stack.
-/

namespace IronTraffic.Policy

inductive Op where
  | loadAttr (slot : Nat)
  | loadConst (const : Nat)
  | eq
  | ne
  | lt
  | le
  | gt
  | ge
  | inSet (const : Nat)
  | startsWith
  | endsWith
  | contains
  | eqIgnoreCase
  | startsWithIgnoreCase
  | regexMatch (regex : Nat)
  | size
  | not
  | jumpIfFalse (target : Nat)
  | jumpIfTrue (target : Nat)
  | branchIfFalse (target : Nat)
  | jump (target : Nat)
  | ret
  deriving DecidableEq

/-- A compile-time constant. Strings are ranges of `Program.strings`, lists are
ranges of `Program.listElems`. -/
inductive Const where
  | bool (value : Bool)
  | int (value : Int)
  | str (start len : Nat)
  | null
  | list (start len : Nat)
  deriving DecidableEq

structure Program where
  ops : List Op
  consts : List Const
  listElems : List Const
  strings : Bytes
  slots : List AttrRef
  regexes : List Bytes
  result : Ty
  phase : Phase
  maxStack : Nat

/-- A `(from, len)` range, or nothing when the range is invalid. -/
def rangeOf (items : List Item) (start len : Nat) : List Item :=
  (slice items start (start + len)).getD []

namespace Program

def stackLimit : Nat := 16

def constStr (program : Program) : Const → Bytes
  | .str start len => rangeOf program.strings start len
  | _ => []

def regex (program : Program) (index : Nat) : Option Bytes := program.regexes[index]?

def keyBytes (program : Program) (key : Span) : Bytes := (key.slice program.strings).getD []

def listOf (program : Program) (index : Nat) : Option (List Const) :=
  match program.consts[index]? with
  | some (.list start len) => some (rangeOf program.listElems start len)
  | _ => none

end Program

inductive VerifyError where
  | backwardJump (spot target : Nat)
  | jumpOutOfRange (spot target len : Nat)
  | operandOutOfRange (spot operand : Nat)
  | missingRet
  | stackUnderflow (spot : Nat)
  | stackOverflow (spot max : Nat)
  | stackNotSingleton (spot depth : Nat)
  | tooManyOps (len max : Nat)
  deriving DecidableEq

def clampU8 (depth : Int) : Nat := (min (max depth 0) 255).toNat

def effect : Op → Int × Int
  | .loadAttr _ | .loadConst _ => (0, 1)
  | .not | .size | .regexMatch _ | .inSet _ => (1, 1)
  | .eq | .ne | .lt | .le | .gt | .ge | .startsWith | .endsWith | .contains
  | .eqIgnoreCase | .startsWithIgnoreCase => (2, 1)
  | .branchIfFalse _ | .jumpIfFalse _ | .jumpIfTrue _ => (1, 0)
  | .jump _ | .ret => (0, 0)

/-- Depth on the taken branch: only `branchIfFalse` pops when it jumps. -/
def depthAfterJump (op : Op) (depth : Int) : Int :=
  match op with
  | .branchIfFalse _ => depth - 1
  | _ => depth

/-- Records the depth on entry to an instruction; a second path has to arrive
with the same depth. -/
def merge (depths : List Int) (spot : Nat) (incoming : Int) :
    Except VerifyError (List Int) :=
  match depths[spot]? with
  | none => .ok depths
  | some recorded =>
    if recorded < 0 then .ok (depths.set spot incoming)
    else if recorded = incoming then .ok depths
    else .error (.stackNotSingleton (toU16 spot) (clampU8 incoming))

def checkOperand (op : Op) (spot : Nat) (consts : List Const) (slots : List AttrRef)
    (regexes : Nat) : Except VerifyError Unit :=
  match op with
  | .loadConst index =>
    if index < consts.length then .ok () else .error (.operandOutOfRange (toU16 spot) index)
  | .loadAttr index =>
    if index < slots.length then .ok () else .error (.operandOutOfRange (toU16 spot) index)
  | .regexMatch index =>
    if index < regexes then .ok () else .error (.operandOutOfRange (toU16 spot) index)
  | .inSet index =>
    match consts[index]? with
    | some (.list _ _) => .ok ()
    | _ => .error (.operandOutOfRange (toU16 spot) index)
  | _ => .ok ()

/-- The successors of one instruction reached at `depth`; `next` is the depth
when it falls through. -/
def recordSuccessors (len : Nat) (spot : Nat) (op : Op) (depth next : Int)
    (depths : List Int) : Except VerifyError (List Int) :=
  match op with
  | .ret =>
    if depth = 1 then .ok depths
    else .error (.stackNotSingleton (toU16 spot) (clampU8 depth))
  | .jump target | .jumpIfFalse target | .jumpIfTrue target | .branchIfFalse target =>
    if target ≤ spot then .error (.backwardJump (toU16 spot) target)
    else if len ≤ target then .error (.jumpOutOfRange (toU16 spot) target (toU16 len))
    else do
      let depths ← merge depths target (depthAfterJump op depth)
      match op with
      | .jump _ => .ok depths
      | _ => merge depths (spot + 1) next
  | _ => merge depths (spot + 1) next

def verifyOp (consts : List Const) (slots : List AttrRef) (regexes len : Nat)
    (spot : Nat) (op : Op) (depths : List Int) : Except VerifyError (List Int) :=
  match depths[spot]? with
  | none => .ok depths
  | some depth =>
    if depth < 0 then .ok depths
    else do
      checkOperand op spot consts slots regexes
      if depth < (effect op).1 then .error (.stackUnderflow (toU16 spot))
      else if (Program.stackLimit : Int) < depth - (effect op).1 + (effect op).2 then
        .error (.stackOverflow (toU16 spot) Program.stackLimit)
      else
        recordSuccessors len spot op depth (depth - (effect op).1 + (effect op).2) depths

/-- The verifier's loop over the instructions from `spot` on. -/
def verifyFrom (consts : List Const) (slots : List AttrRef) (regexes len : Nat) :
    Nat → List Op → List Int → Except VerifyError (List Int)
  | _, [], depths => .ok depths
  | spot, op :: rest, depths => do
    let depths ← verifyOp consts slots regexes len spot op depths
    verifyFrom consts slots regexes len (spot + 1) rest depths

/-- The depths `verify` records, one for each instruction; `-1` for an
instruction no path reaches. -/
def recordDepths (ops : List Op) (consts : List Const) (slots : List AttrRef)
    (regexes : Nat) (limits : PolicyLimits) : Except VerifyError (List Int) :=
  if limits.maxOps.toNat < ops.length then
    .error (.tooManyOps ops.length limits.maxOps.toNat)
  else if ops.getLast? = some .ret then
    verifyFrom consts slots regexes ops.length 0 ops
      ((List.replicate ops.length (-1)).set 0 0)
  else
    .error .missingRet

/-- Verifies a bytecode array against its tables and returns the maximum depth
of the operand stack. -/
def verify (ops : List Op) (consts : List Const) (slots : List AttrRef) (regexes : Nat)
    (limits : PolicyLimits) : Except VerifyError Nat := do
  let depths ← recordDepths ops consts slots regexes limits
  .ok ((depths.filter fun depth => 0 ≤ depth).max?.elim 0 clampU8)

end IronTraffic.Policy
