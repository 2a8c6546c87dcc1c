import IronTraffic.Router.ScratchState

/-! # Evaluating predicates

The evaluator reads slots where the plain scans read the request; both come to the same
outcome, for the same reason.
-/

namespace IronTraffic.Router

open NameSetBuilder

open List

def factsOf (request : RequestView) (observed : List (Bytes × Nat × Nat))
    (params : List (Bytes × Bytes)) : Facts where
  method := request.method
  headers := observed.map fun header =>
    (header.1, slice request.head header.2.1 (header.2.1 + header.2.2))
  params := params

def sameBytes (left right : Bytes) : Bool := left == right

/-! ## Reading the slots -/

lemma lastHeader_map (head : Bytes) (observed) (name : Bytes) :
    lastHeader sameBytes (observed.map fun header =>
        (header.1, slice head header.2.1 (header.2.1 + header.2.2))) name =
      (lastPlace observed name).map fun place => slice head place.1 (place.1 + place.2) := by
  induction observed using reverseRecOn with
  | nil => rfl
  | append_singleton observed header induction =>
    rw [lastPlace_append, map_append]
    unfold lastHeader at induction ⊢
    rw [foldl_append, induction]
    by_cases same : header.1 = name
    · simp [sameBytes, same]
    · simp [sameBytes, same]

section Reading

variable {table : RouteTable} {request : RequestView} {observed : List (Bytes × Nat × Nat)}
variable {scratch : MatchScratch} {id : NameId} {name : Bytes}

lemma exact_headerNames (table : RouteTable) : ExactNames table.headerNames := by
  rcases table.headersBuilt with ⟨names, isBuilt⟩
  rw [isBuilt]
  exact exactNames_finish names

lemma exact_queryNames (table : RouteTable) : ExactNames table.queryNames := by
  rcases table.queriesBuilt with ⟨names, isBuilt⟩
  rw [isBuilt]
  exact exactNames_finish names

lemma find?_slots (located : List.Forall₂ (Locates table.queryNames query) slots params)
    (isName : table.queryNames.nameOf id = some name) :
    ((slots.find? fun slot => slot.name == id).bind fun slot =>
        slice query slot.off (slot.off + slot.len)) = firstParam params name ∧
      (slots.any fun slot => slot.name == id) = paramSeen params name := by
  have hit := ((exact_queryNames table).nameOf_eq_some_iff name id).mp isName
  induction located with
  | nil => exact ⟨rfl, rfl⟩
  | @cons slot param slots params locates _ induction =>
    have same : (slot.name == id) = (param.1 == name) := by
      rw [Bool.eq_iff_iff, beq_iff_eq, beq_iff_eq]
      constructor
      · rintro rfl
        exact (exact_queryNames table).eq_of_lookup_eq locates.1 hit
      · intro isParam
        rw [← isParam, locates.1] at hit
        exact Option.some.inj hit
    unfold firstParam paramSeen at induction ⊢
    rw [find?_cons, find?_cons, any_cons, any_cons, same, induction.2]
    cases param.1 == name with
    | false => exact ⟨induction.1, rfl⟩
    | true => exact ⟨locates.2, rfl⟩

section

variable (serves : Serves table request.query observed scratch)

include serves

lemma Serves.header_eq (params) (isName : table.headerNames.nameOf id = some name) :
    scratch.headerValue id request.head =
      (lastHeader sameBytes (factsOf request observed params).headers name).bind (fun value =>
        value) ∧
    scratch.headerPresent id =
      headerSeen sameBytes (factsOf request observed params).headers name := by
  have hit := ((exact_headerNames table).nameOf_eq_some_iff name id).mp isName
  rw [headerValue_eq, headerPresent_eq, serves.headers name id hit, ← isSome_lastHeader, factsOf,
    lastHeader_map]
  cases lastPlace observed name <;> exact ⟨rfl, rfl⟩

lemma Serves.usedSlots_eq : scratch.usedSlots = scratch.querySlots.take scratch.queryN := by
  have few := serves.few
  rw [MatchScratch.usedSlots, slice, if_pos ⟨Nat.zero_le _, serves.all.symm ▸ few⟩]
  rfl

lemma Serves.query_eq (indexed : scratch.queryIndexed = true)
    (isName : table.queryNames.nameOf id = some name) :
    scratch.queryValue id request.query = firstParam (seenParams table request.query) name ∧
    scratch.queryPresent id = paramSeen (seenParams table request.query) name := by
  rw [MatchScratch.queryValue, MatchScratch.queryPresent, serves.usedSlots_eq]
  exact find?_slots (serves.params indexed) isName

end

lemma queryIndexed_indexQuery (needed : table.needsQuery = true) (query : Bytes) :
    (scratch.indexQuery table query).queryIndexed = true := by
  unfold MatchScratch.indexQuery
  split
  · assumption
  · rfl

end Reading

/-! ## One predicate -/

variable {pred : Pred} {name : Bytes} {run : List Pred} {conditions : List Condition}

section Evaluation

variable {group : Group} {table : RouteTable} {request : RequestView}
variable {observed : List (Bytes × Nat × Nat)} {scratch : MatchScratch}

lemma usable_of_nameOf {set} (exact : ExactNames set) (isName : set.nameOf pred.a = some name) :
    (pred.a.isNone || decide (set.count ≤ pred.a.index.toNat)) = false := by
  have inside := exact.below name pred.a ((exact.nameOf_eq_some_iff _ _).mp isName)
  have small := exact.small
  unfold maxNames at small
  rw [Bool.or_eq_false_iff, NameId.isNone, beq_eq_false_iff_ne, decide_eq_false_iff_not, not_le]
  refine ⟨?_, inside⟩
  rintro isNone
  rw [isNone] at inside
  have large : (UInt16.ofNat (2 ^ 16 - 1)).toNat = 65535 := rfl
  omega

lemma headerName_usable (serves : Serves table request.query observed scratch)
    (isName : table.headerNames.nameOf pred.a = some name) :
    (pred.a.isNone || decide (scratch.headerSlotCount ≤ pred.a.index.toNat)) = false := by
  rw [MatchScratch.headerSlotCount, serves.counted]
  exact usable_of_nameOf (exact_headerNames table) isName

lemma literal_eq (hit : literalOf group pred = some literal) : group.literal pred = literal := by
  unfold literalOf at hit
  rw [Group.literal, hit]
  rfl

lemma match_eq_literal (value) (literal : Bytes) :
    (match value with | some value => value == literal | none => false) =
      (value == some literal) := by
  cases value <;> rfl

lemma match_bind_eq_literal (value) (literal : Bytes) :
    (match value.bind fun value => value with | some value => value == literal | none => false) =
      (value == some (some literal)) := by
  cases value with
  | none => rfl
  | some value => exact match_eq_literal value literal

/-- What the test of one record says about its condition. -/
structure Tested (group : Group) (table : RouteTable) (request : RequestView)
    (observed : List (Bytes × Nat × Nat)) (scratch : MatchScratch) (pred : Pred)
    (condition : Condition) (op : PredOp) : Prop where
  isOp : PredOp.fromU8 pred.op = some op
  usable : nameUnusable table scratch op pred = false
  serves : Serves table request.query observed (testPred group table request op pred scratch).1
  holds : (testPred group table request op pred scratch).2 =
    condition.holds sameBytes (factsOf request observed (seenParams table request.query))
  reason : reasonFor op pred (testPred group table request op pred scratch).1 =
    condition.reason sameBytes (factsOf request observed (seenParams table request.query))

lemma exists_tested (serves : Serves table request.query observed scratch)
    (isCondition : conditionOf group table pred = some condition)
    (needed : condition.usesQuery = true → table.needsQuery = true) :
    ∃ op, Tested group table request observed scratch pred condition op := by
  simp only [conditionOf, Option.bind_eq_bind, Option.bind_eq_some_iff] at isCondition
  rcases isCondition with ⟨op, isOp, isCondition⟩
  refine ⟨op, ?_⟩
  let params := seenParams table request.query
  cases op <;> simp only [Option.bind_eq_some_iff, Option.some.injEq] at isCondition
  case method =>
    cases isCondition
    exact ⟨isOp, rfl, serves, rfl, rfl⟩
  case headerExact =>
    rcases isCondition with ⟨name, isName, literal, isLiteral, rfl⟩
    refine ⟨isOp, headerName_usable serves isName, serves, ?_, ?_⟩
    · simp only [testPred, literal_eq isLiteral, (serves.header_eq params isName).1]
      exact match_bind_eq_literal _ _
    · simp only [reasonFor, testPred, (serves.header_eq params isName).2]
      rfl
  case headerPresent =>
    rcases isCondition with ⟨name, isName, rfl⟩
    exact ⟨isOp, headerName_usable serves isName, serves,
      (serves.header_eq params isName).2, rfl⟩
  case headerAbsent =>
    rcases isCondition with ⟨name, isName, rfl⟩
    exact ⟨isOp, headerName_usable serves isName, serves,
      congrArg (! ·) (serves.header_eq params isName).2, rfl⟩
  case queryExact =>
    rcases isCondition with ⟨name, isName, literal, isLiteral, rfl⟩
    have indexed := serves.indexQuery
    have read := indexed.query_eq (queryIndexed_indexQuery (needed rfl) request.query) isName
    refine ⟨isOp, usable_of_nameOf (exact_queryNames table) isName, indexed, ?_, ?_⟩
    · simp only [testPred, literal_eq isLiteral, read.1]
      exact match_eq_literal _ _
    · simp only [reasonFor, testPred, read.2]
      rfl
  case queryPresent =>
    rcases isCondition with ⟨name, isName, rfl⟩
    have indexed := serves.indexQuery
    have read := indexed.query_eq (queryIndexed_indexQuery (needed rfl) request.query) isName
    exact ⟨isOp, usable_of_nameOf (exact_queryNames table) isName, indexed, read.2, rfl⟩

/-! ## A run -/

def Encodes (group : Group) (table : RouteTable) (run : List Pred)
    (conditions : List Condition) : Prop :=
  List.Forall₂ (fun pred condition => conditionOf group table pred = some condition) run conditions

lemma evalRun_spec (serves : Serves table request.query observed scratch)
    (encodes : Encodes group table run conditions)
    (needed : ∀ condition ∈ conditions, condition.usesQuery = true → table.needsQuery = true)
    (enough : run.length ≤ budget) :
    (evalRun group table request run scratch budget).1 =
      referenceEval sameBytes (factsOf request observed (seenParams table request.query))
        conditions ∧
    (evalRun group table request run scratch budget).2.2 +
      examined sameBytes (factsOf request observed (seenParams table request.query)) conditions =
        budget := by
  induction encodes generalizing scratch budget with
  | nil => exact ⟨rfl, rfl⟩
  | @cons pred condition run conditions isCondition _ induction =>
    rcases exists_tested serves isCondition (needed condition mem_cons_self) with
      ⟨op, tested⟩
    rcases Nat.exists_eq_add_of_le' (le_trans (Nat.le_add_left 1 run.length) enough) with
      ⟨left, rfl⟩
    have later := induction tested.serves
      (fun other mem => needed other (mem_cons_of_mem _ mem))
      (Nat.le_of_succ_le_succ enough)
    simp only [evalRun, tested.isOp, tested.usable, Bool.false_eq_true, if_false, tested.holds]
    rw [referenceEval_cons, examined_cons]
    cases condition.holds sameBytes
        (factsOf request observed (seenParams table request.query)) with
    | true =>
      refine ⟨later.1, ?_⟩
      simp only [if_true]
      omega
    | false => exact ⟨congrArg PredOutcome.fail tested.reason, rfl⟩

lemma evalPreds_spec (serves : Serves table request.query observed scratch)
    (runAt : RunAt group start run) (encodes : Encodes group table run conditions)
    (needed : ∀ condition ∈ conditions, condition.usesQuery = true → table.needsQuery = true)
    (enough : run.length ≤ budget) :
    (evalPreds group table start request scratch budget).1 =
      referenceEval sameBytes (factsOf request observed (seenParams table request.query))
        conditions ∧
    (evalPreds group table start request scratch budget).2.2 +
      examined sameBytes (factsOf request observed (seenParams table request.query)) conditions =
        budget := by
  have isRun := runAt.predsFrom_eq
  rw [evalPreds, if_neg runAt.proper, isRun]
  cases run with
  | nil =>
    rcases runAt.marked with ⟨before, last, impossible, _⟩
    exact absurd impossible.symm (append_ne_nil_of_right_ne_nil _ (cons_ne_nil _ _))
  | cons pred rest => exact evalRun_spec serves encodes needed enough

lemma exists_encodes (wellFormed : ∀ pred ∈ run, WellFormed group table pred) :
    ∃ conditions, Encodes group table run conditions := by
  induction run with
  | nil => exact ⟨[], .nil⟩
  | cons pred run induction =>
    rcases induction (fun other mem => wellFormed other (mem_cons_of_mem _ mem)) with
      ⟨conditions, encodes⟩
    have isSome := (wellFormed pred mem_cons_self).conditionOf_isSome
    rcases Option.isSome_iff_exists.mp isSome with ⟨condition, isCondition⟩
    exact ⟨condition :: conditions, .cons isCondition encodes⟩

end Evaluation

end IronTraffic.Router
