import IronTraffic.Router.Predicates
import IronTraffic.Router.QueryParams

/-! # Conditions on a request

What the predicates of a run say about a request, by plain scans of its headers and of its
query parameters. A condition names a header or a parameter by its bytes.
-/

namespace IronTraffic.Router

open List

inductive Condition where
  | method (mask : UInt32)
  | headerExact (name literal : Bytes)
  | headerPresent (name : Bytes)
  | headerAbsent (name : Bytes)
  | queryExact (name literal : Bytes)
  | queryPresent (name : Bytes)
  deriving DecidableEq

/-- What conditions are about. The value of a header is what its place in the head holds. -/
structure Facts where
  method : UInt32
  headers : List (Bytes × Option Bytes)
  params : List (Bytes × Bytes)

section Reference

variable (sameName : Bytes → Bytes → Bool)

def lastHeader (headers : List (Bytes × Option Bytes)) (name : Bytes) : Option (Option Bytes) :=
  headers.foldl (fun hit header => if sameName header.1 name then some header.2 else hit) none

def headerSeen (headers : List (Bytes × Option Bytes)) (name : Bytes) : Bool :=
  headers.any fun header => sameName header.1 name

def firstParam (params : List (Bytes × Bytes)) (name : Bytes) : Option Bytes :=
  (params.find? fun param => param.1 == name).map Prod.snd

def paramSeen (params : List (Bytes × Bytes)) (name : Bytes) : Bool :=
  params.any fun param => param.1 == name

namespace Condition

def holds (facts : Facts) : Condition → Bool
  | .method mask => facts.method &&& mask != 0
  | .headerExact name literal => lastHeader sameName facts.headers name == some (some literal)
  | .headerPresent name => headerSeen sameName facts.headers name
  | .headerAbsent name => !headerSeen sameName facts.headers name
  | .queryExact name literal => firstParam facts.params name == some literal
  | .queryPresent name => paramSeen facts.params name

def reason (facts : Facts) : Condition → RejectReason
  | .method _ => .method
  | .headerExact name _ =>
    if headerSeen sameName facts.headers name then .headerValue else .headerMissing
  | .headerPresent _ => .headerMissing
  | .headerAbsent _ => .headerPresentButForbidden
  | .queryExact name _ => if paramSeen facts.params name then .queryValue else .queryMissing
  | .queryPresent _ => .queryMissing

def usesQuery : Condition → Bool
  | .queryExact _ _ | .queryPresent _ => true
  | _ => false

def headerName? : Condition → Option Bytes
  | .headerExact name _ | .headerPresent name | .headerAbsent name => some name
  | _ => none

end Condition

def referenceEval (facts : Facts) (conditions : List Condition) : PredOutcome :=
  match conditions.find? fun condition => !condition.holds sameName facts with
  | none => .pass
  | some condition => .fail (condition.reason sameName facts)

def examined (facts : Facts) (conditions : List Condition) : Nat :=
  match conditions.findIdx? fun condition => !condition.holds sameName facts with
  | none => conditions.length
  | some index => index + 1

lemma referenceEval_cons (facts : Facts) (condition rest) :
    referenceEval sameName facts (condition :: rest) = if condition.holds sameName facts then
      referenceEval sameName facts rest else .fail (condition.reason sameName facts) := by
  unfold referenceEval
  rw [find?_cons]
  cases condition.holds sameName facts <;> simp

lemma examined_cons (facts : Facts) (condition rest) :
    examined sameName facts (condition :: rest) =
      if condition.holds sameName facts then examined sameName facts rest + 1 else 1 := by
  unfold examined
  rw [findIdx?_cons]
  cases condition.holds sameName facts with
  | false => rfl
  | true =>
    cases rest.findIdx? fun condition => !condition.holds sameName facts <;> rfl

lemma isSome_lastHeader (headers) (name : Bytes) :
    (lastHeader sameName headers name).isSome = headerSeen sameName headers name := by
  unfold lastHeader headerSeen
  induction headers using reverseRecOn with
  | nil => rfl
  | append_singleton headers header induction =>
    rw [foldl_append, any_append, ← induction]
    simp only [foldl_cons, foldl_nil, any_cons, any_nil, Bool.or_false]
    cases sameName header.1 name <;> simp

end Reference

lemma isSome_firstParam (params) (name : Bytes) :
    (firstParam params name).isSome = paramSeen params name := by
  rw [firstParam, paramSeen, Option.isSome_map, Bool.eq_iff_iff, find?_isSome, any_eq_true]

/-! ## The records of a run -/

def literalOf (group : Group) (pred : Pred) : Option Bytes :=
  slice group.blob pred.b.toNat (pred.b.toNat + pred.c.toNat)

def conditionOf (group : Group) (table : RouteTable) (pred : Pred) : Option Condition := do
  match ← PredOp.fromU8 pred.op with
  | .method => some (.method pred.d)
  | .headerExact => some (.headerExact (← table.headerNames.nameOf pred.a) (← literalOf group pred))
  | .headerPresent => some (.headerPresent (← table.headerNames.nameOf pred.a))
  | .headerAbsent => some (.headerAbsent (← table.headerNames.nameOf pred.a))
  | .queryExact => some (.queryExact (← table.queryNames.nameOf pred.a) (← literalOf group pred))
  | .queryPresent => some (.queryPresent (← table.queryNames.nameOf pred.a))

/-- A run of records in the arena, of which only the last one has `PRED_LAST`. -/
structure RunAt (group : Group) (start : Nat) (run : List Pred) : Prop where
  proper : start ≠ sentinel
  short : run.length ≤ maxPredsPerCand
  there : slice group.preds start (start + run.length) = some run
  marked : ∃ before last, run = before ++ [last] ∧ last.tag &&& predLast ≠ 0 ∧
    ∀ pred ∈ before, pred.tag &&& predLast = 0

structure WellFormed (group : Group) (table : RouteTable) (pred : Pred) : Prop where
  op : (PredOp.fromU8 pred.op).isSome
  header : ∀ op ∈ PredOp.fromU8 pred.op,
    op = .headerExact ∨ op = .headerPresent ∨ op = .headerAbsent →
      pred.a.index.toNat < table.headerNames.count
  query : ∀ op ∈ PredOp.fromU8 pred.op, op = .queryExact ∨ op = .queryPresent →
    pred.a.index.toNat < table.queryNames.count
  literal : ∀ op ∈ PredOp.fromU8 pred.op, op = .headerExact ∨ op = .queryExact →
    (literalOf group pred).isSome

variable {group : Group} {start : Nat}

lemma predRunEndFrom_of_marked (isLast : last.tag &&& predLast ≠ 0)
    (others : ∀ pred ∈ before, pred.tag &&& predLast = 0) (left index : Nat)
    (enough : before.length < left)
    (there : ∀ offset < before.length + 1, group.preds[start + (index + offset)]? =
      (before ++ [last])[offset]?) :
    group.predRunEndFrom start left index = some (start + (index + before.length)) := by
  induction before generalizing left index with
  | nil =>
    cases left with
    | zero => cases enough
    | succ left =>
      have isThere := there 0 (by simp)
      unfold Group.predRunEndFrom
      rw [add_zero] at isThere
      simp [isThere, isLast]
  | cons pred before induction =>
    cases left with
    | zero => cases enough
    | succ left =>
      have isThere := there 0 (by simp)
      rw [add_zero] at isThere
      have unmarked := others pred mem_cons_self
      have later := induction (fun other mem => others other (mem_cons_of_mem _ mem))
        left (index + 1) (Nat.lt_of_succ_lt_succ enough) (by
          intro offset below
          have next := there (offset + 1) (Nat.succ_lt_succ below)
          rwa [add_comm offset 1, ← add_assoc index 1 offset,
            add_comm 1 offset] at next)
      unfold Group.predRunEndFrom
      simp only [isThere, cons_append, getElem?_cons_zero, Option.bind_eq_bind,
        Option.bind_some, unmarked, ne_eq, not_true_eq_false, if_false]
      rw [later, length_cons]
      congr 1
      omega

lemma RunAt.predsFrom_eq (runAt : RunAt group start run) : group.predsFrom start = run := by
  rcases runAt.marked with ⟨before, last, isRun, isLast, others⟩
  have length : run.length = before.length + 1 := by rw [isRun, length_append]; rfl
  have short := runAt.short
  have ends : group.predRunEnd start = some (start + (0 + before.length)) := by
    apply predRunEndFrom_of_marked isLast others maxPredsPerCand 0 (by omega)
    intro offset below
    rw [zero_add, ← isRun]
    exact getElem?_of_slice runAt.there (by omega)
  have extent : start + (0 + before.length) + 1 = start + run.length := by omega
  simp only [Group.predsFrom, ends, extent, runAt.there, Option.getD_some]

lemma WellFormed.conditionOf_isSome (wellFormed : WellFormed group table pred) :
    (conditionOf group table pred).isSome := by
  rcases table.headersBuilt with ⟨headers, isHeaders⟩
  rcases table.queriesBuilt with ⟨queries, isQueries⟩
  have header := (NameSetBuilder.exactNames_finish headers).nameOf_isSome pred.a
  have query := (NameSetBuilder.exactNames_finish queries).nameOf_isSome pred.a
  rw [← isHeaders] at header
  rw [← isQueries] at query
  rcases Option.isSome_iff_exists.mp wellFormed.op with ⟨op, isOp⟩
  have isHeader := wellFormed.header op isOp
  have isQuery := wellFormed.query op isOp
  have isLiteral := wellFormed.literal op isOp
  rw [conditionOf, isOp]
  cases op with
  | method => rfl
  | headerExact =>
    rcases Option.isSome_iff_exists.mp (header (isHeader (by simp))) with ⟨name, isName⟩
    rcases Option.isSome_iff_exists.mp (isLiteral (by simp)) with ⟨literal, hit⟩
    simp [isName, hit]
  | headerPresent | headerAbsent =>
    rcases Option.isSome_iff_exists.mp (header (isHeader (by simp))) with ⟨name, isName⟩
    simp [isName]
  | queryExact =>
    rcases Option.isSome_iff_exists.mp (query (isQuery (by simp))) with ⟨name, isName⟩
    rcases Option.isSome_iff_exists.mp (isLiteral (by simp)) with ⟨literal, hit⟩
    simp [isName, hit]
  | queryPresent =>
    rcases Option.isSome_iff_exists.mp (query (isQuery (by simp))) with ⟨name, isName⟩
    simp [isName]

end IronTraffic.Router
