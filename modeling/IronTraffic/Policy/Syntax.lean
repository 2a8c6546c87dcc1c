import IronTraffic.Foundation.Bytes
import IronTraffic.Foundation.Fallible
import IronTraffic.Foundation.Slice

/-! # ITPL syntax

Tokens, the flat expression arena and the admission limits of the policy
language. Nodes refer to their children by index into the arena, so nothing
here is recursive.
-/

namespace IronTraffic.Policy

open Fallible

inductive Tok where
  | ident (name : Span)
  | int (value : Int)
  | str (text : Span)
  | bool (value : Bool)
  | null
  | lParen
  | rParen
  | lBracket
  | rBracket
  | comma
  | dot
  | question
  | colon
  | bang
  | andAnd
  | orOr
  | eqEq
  | bangEq
  | lt
  | le
  | gt
  | ge
  | isIn
  deriving DecidableEq

structure Spanned where
  tok : Tok
  span : Span

/-- The tokens in source order, and the decoded bytes their string spans name. -/
structure TokenStream where
  toks : List Spanned
  strings : Bytes

/-! ## Admission limits -/

structure PolicyLimits where
  maxSourceBytes : UInt32
  maxTokens : UInt32
  maxStringBytes : UInt32
  maxDepth : UInt16
  maxOps : UInt16
  maxConsts : UInt16
  maxAttrSlots : UInt16
  maxRegex : UInt16
  maxRegexSize : UInt32
  maxListElems : UInt16

inductive LimitError where
  | zero (field : String)
  | aboveCap (field : String) (requested : Nat) (cap : Nat)
  deriving DecidableEq

namespace PolicyLimits

def defaults : PolicyLimits where
  maxSourceBytes := 8192
  maxTokens := 1024
  maxStringBytes := 1024
  maxDepth := 16
  maxOps := 256
  maxConsts := 128
  maxAttrSlots := 16
  maxRegex := 8
  maxRegexSize := 65536
  maxListElems := 64

/-- A limit that may not be zero. The source has one such check for `u32` and
one for `u16` fields; every cap fits the field it caps. -/
def checkField (value : Nat) (field : String) (cap : Nat) : Except LimitError Unit :=
  if value = 0 then .error (.zero field)
  else if cap < value then .error (.aboveCap field value cap)
  else .ok ()

/-- `max_regex` may be zero: no regex operators are allowed then. -/
def checkU16Regex (value : Nat) (field : String) (cap : Nat) : Except LimitError Unit :=
  if cap < value then .error (.aboveCap field value cap) else .ok ()

def validate (limits : PolicyLimits) : Except LimitError Unit := do
  checkField limits.maxSourceBytes.toNat "max_source_bytes" 65536
  checkField limits.maxTokens.toNat "max_tokens" 8192
  checkField limits.maxStringBytes.toNat "max_string_bytes" 8192
  checkField limits.maxDepth.toNat "max_depth" 16
  checkField limits.maxOps.toNat "max_ops" 4096
  checkField limits.maxConsts.toNat "max_consts" 1024
  checkField limits.maxAttrSlots.toNat "max_attr_slots" 16
  checkU16Regex limits.maxRegex.toNat "max_regex" 64
  checkField limits.maxRegexSize.toNat "max_regex_size" 1048576
  checkField limits.maxListElems.toNat "max_list_elems" 1024

private lemma le_of_checkField (passed : checkField value field cap = .ok ()) : value ≤ cap := by
  exact not_lt.mp (of_ite_error (of_ite_error passed).2).1

private lemma bind_ok {second : Except LimitError Unit}
    (passed : (first >>= fun _ => second) = .ok ()) : first = .ok () ∧ second = .ok () := by
  cases first with
  | error reason => cases passed
  | ok _ => exact ⟨rfl, passed⟩

lemma maxAttrSlots_le_of_validate {limits : PolicyLimits}
    (valid : limits.validate = .ok ()) : limits.maxAttrSlots.toNat ≤ 16 := by
  have rest := (bind_ok (bind_ok (bind_ok (bind_ok (bind_ok (bind_ok valid).2).2).2).2).2).2
  exact le_of_checkField (bind_ok rest).1

end PolicyLimits

/-! ## The arena -/

abbrev NodeId := Nat

/-- `NodeId::new`: the index `0xFFFF` is never assigned. -/
def NodeId.new (index : Nat) : Option NodeId := if 65535 ≤ index then none else some index

inductive Method where
  | startsWith
  | endsWith
  | contains
  | isMatch
  | equalsIgnoreCase
  | startsWithIgnoreCase
  | size
  deriving DecidableEq

namespace Method

def name : Method → Bytes
  | startsWith => ascii "startsWith"
  | endsWith => ascii "endsWith"
  | contains => ascii "contains"
  | isMatch => ascii "matches"
  | equalsIgnoreCase => ascii "equalsIgnoreCase"
  | startsWithIgnoreCase => ascii "startsWithIgnoreCase"
  | size => ascii "size"

def all : List Method :=
  [startsWith, endsWith, contains, isMatch, equalsIgnoreCase, startsWithIgnoreCase, size]

def fromName (bytes : Bytes) : Option Method :=
  all.find? fun method => method.name == bytes

def arity : Method → Nat
  | size => 0
  | startsWith | endsWith | contains | isMatch | equalsIgnoreCase | startsWithIgnoreCase => 1

end Method

inductive BinOp where
  | eq
  | ne
  | lt
  | le
  | gt
  | ge
  | isIn
  deriving DecidableEq

inductive Node where
  | bool (value : Bool)
  | int (value : Int)
  | str (text : Span)
  | null
  | ident (name : Span)
  | field (base : NodeId) (name : Span)
  | index (base index : NodeId)
  | call (base : NodeId) (method : Method) (argsFrom argsLen : Nat)
  | not (inner : NodeId)
  | bin (op : BinOp) (lhs rhs : NodeId)
  | and (lhs rhs : NodeId)
  | or (lhs rhs : NodeId)
  | ternary (cond thenNode elseNode : NodeId)
  | list (start len : Nat)
  deriving DecidableEq

/-- A parsed expression: nodes in creation order, and the child lists of calls
and list literals. -/
structure Ast where
  nodes : List Node
  args : List NodeId
  root : NodeId
  depth : Nat
  deriving DecidableEq

namespace Ast

def node (ast : Ast) (id : NodeId) : Option Node := ast.nodes[id]?

def argsOf (ast : Ast) (start len : Nat) : List NodeId :=
  (slice ast.args start (start + len)).getD []

end Ast

end IronTraffic.Policy
