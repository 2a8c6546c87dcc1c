import IronTraffic.Router.PredicateEval

/-! # The evaluator and the plain scans

For a query that is indexed whole, the outcome is that of the plain scans over the request.
-/

namespace IronTraffic.Router

open List

/-! ## Facts that conditions cannot tell apart -/

def Agrees (sameName otherName : Bytes → Bytes → Bool) (facts other : Facts)
    (condition : Condition) : Prop :=
  condition.holds sameName facts = condition.holds otherName other ∧
    condition.reason sameName facts = condition.reason otherName other

variable {facts : Facts} {conditions : List Condition} {name query : Bytes} {condition : Condition}
  {group : Group} {table : RouteTable} {pred : Pred}

lemma referenceEval_congr
    (agree : ∀ condition ∈ conditions, Agrees sameName otherName facts other condition) :
    referenceEval sameName facts conditions = referenceEval otherName other conditions ∧
    examined sameName facts conditions = examined otherName other conditions := by
  induction conditions with
  | nil => exact ⟨rfl, rfl⟩
  | cons condition conditions induction =>
    have first := agree condition mem_cons_self
    have rest := induction fun later mem => agree later (mem_cons_of_mem _ mem)
    rw [referenceEval_cons, referenceEval_cons, examined_cons, examined_cons, first.1, first.2,
      rest.1, rest.2]
    exact ⟨rfl, rfl⟩

/-! ## Names without case -/

def Lowercased (name : Bytes) : Prop := name.map toAsciiLowercase = name

def sameIgnoringCase (left right : Bytes) : Bool :=
  left.map toAsciiLowercase == right.map toAsciiLowercase

lemma sameIgnoringCase_eq (isLeft : Lowercased left) (isRight : Lowercased right) :
    sameIgnoringCase left right = sameBytes left right := by
  rw [sameIgnoringCase, sameBytes, isLeft, isRight]

lemma lastHeader_ignoringCase (lowercased : ∀ header ∈ headers, Lowercased header.1)
    (isLower : Lowercased name) :
    lastHeader sameIgnoringCase headers name = lastHeader sameBytes headers name ∧
      headerSeen sameIgnoringCase headers name = headerSeen sameBytes headers name := by
  have last : lastHeader sameIgnoringCase headers name = lastHeader sameBytes headers name := by
    apply foldl_ext
    intro hit header mem
    rw [sameIgnoringCase_eq (lowercased header mem) isLower]
  rw [← isSome_lastHeader, ← isSome_lastHeader, last]
  exact ⟨rfl, rfl⟩

lemma agrees_ignoringCase (lowercased : ∀ header ∈ facts.headers, Lowercased header.1)
    (isLower : ∀ name ∈ condition.headerName?, Lowercased name) :
    Agrees sameIgnoringCase sameBytes facts facts condition := by
  cases condition with
  | method mask => exact ⟨rfl, rfl⟩
  | headerExact name literal =>
    have same := lastHeader_ignoringCase lowercased (isLower name rfl)
    refine ⟨congrArg (· == some (some literal)) same.1, ?_⟩
    simp only [Condition.reason, same.2]
  | headerPresent name =>
    exact ⟨(lastHeader_ignoringCase lowercased (isLower name rfl)).2, rfl⟩
  | headerAbsent name =>
    exact ⟨congrArg (! ·) (lastHeader_ignoringCase lowercased (isLower name rfl)).2, rfl⟩
  | queryExact | queryPresent => exact ⟨rfl, rfl⟩

/-! ## Parameters that the index leaves out -/

lemma firstParam_interned (isInterned : (names.lookup name).isSome) (params) :
    firstParam (internedParams names params) name = firstParam params name := by
  rw [firstParam, internedParams, find?_filter]
  congr 1
  congr 1
  funext param
  by_cases same : param.1 = name
  · simp [same, isInterned]
  · simp [same]

lemma agrees_params (isCondition : conditionOf group table pred = some condition)
    (same : ∀ name, (table.queryNames.lookup name).isSome →
      firstParam facts.params name = firstParam params name) :
    Agrees sameBytes sameBytes facts { facts with params := params } condition := by
  have onQuery : ∀ name, table.queryNames.nameOf pred.a = some name →
      firstParam facts.params name = firstParam params name ∧
        paramSeen facts.params name = paramSeen params name := by
    intro name isName
    have hit := ((exact_queryNames table).nameOf_eq_some_iff name pred.a).mp isName
    have first := same name (Option.isSome_iff_exists.mpr ⟨_, hit⟩)
    rw [← isSome_firstParam, ← isSome_firstParam, first]
    exact ⟨rfl, rfl⟩
  simp only [conditionOf, Option.bind_eq_bind, Option.bind_eq_some_iff] at isCondition
  rcases isCondition with ⟨op, _, isCondition⟩
  cases op <;> simp only [Option.bind_eq_some_iff, Option.some.injEq] at isCondition
  case method =>
    cases isCondition
    exact ⟨rfl, rfl⟩
  case headerExact =>
    rcases isCondition with ⟨_, _, _, _, rfl⟩
    exact ⟨rfl, rfl⟩
  case headerPresent | headerAbsent =>
    rcases isCondition with ⟨_, _, rfl⟩
    exact ⟨rfl, rfl⟩
  case queryExact =>
    rcases isCondition with ⟨name, isName, literal, _, rfl⟩
    refine ⟨congrArg (· == some literal) (onQuery name isName).1, ?_⟩
    simp only [Condition.reason, (onQuery name isName).2]
  case queryPresent =>
    rcases isCondition with ⟨name, isName, rfl⟩
    exact ⟨(onQuery name isName).2, rfl⟩

lemma firstParam_seen (short : query.length ≤ maxQueryBytes)
    (few : (internedParams table.queryNames (queryPairs query)).length ≤ maxQueryParams)
    (isInterned : (table.queryNames.lookup name).isSome) :
    firstParam (seenParams table query) name = firstParam (queryPairs query) name := by
  rw [seenParams, take_of_length_le short, take_of_length_le few]
  exact firstParam_interned isInterned _

/-! ## Any worker, any request -/

def scratchAfter (earlier : List ScratchCall) (table : RouteTable) (later : List ScratchCall) :
    MatchScratch :=
  (earlier ++ .beginRequest table :: later).foldl MatchScratch.call .new

/-- A worker that serves a request with the query: what it did before used published tables, and
what it did since belongs to the request. -/
structure Serving (tables : List RouteTable) (earlier : List ScratchCall) (table : RouteTable)
    (later : List ScratchCall) (query : Bytes) : Prop where
  published : Published tables
  mem : table ∈ tables
  before : ∀ call ∈ earlier, call.table ∈ tables
  within : ∀ call ∈ later, call.Within table query

lemma Serving.serves (serving : Serving tables earlier table later query) :
    Serves table query (later.filterMap ScratchCall.observed)
      (scratchAfter earlier table later) := by
  have sound := sound_calls serving.published earlier serving.before
  have began := serves_beginRequest serving.published sound serving.mem query
  rw [scratchAfter, foldl_append, foldl_cons]
  exact began.calls later serving.within

def requestFacts (request : RequestView) (later : List ScratchCall) : Facts :=
  factsOf request (later.filterMap ScratchCall.observed) (queryPairs request.query)

def Pred.OnQuery (pred : Pred) : Prop :=
  PredOp.fromU8 pred.op = some .queryExact ∨ PredOp.fromU8 pred.op = some .queryPresent

lemma onQuery_of_usesQuery (isCondition : conditionOf group table pred = some condition)
    (uses : condition.usesQuery = true) : pred.OnQuery := by
  simp only [conditionOf, Option.bind_eq_bind, Option.bind_eq_some_iff] at isCondition
  rcases isCondition with ⟨op, isOp, isCondition⟩
  cases op <;> simp only [Option.bind_eq_some_iff, Option.some.injEq] at isCondition
  case method =>
    cases isCondition
    cases uses
  case headerExact =>
    rcases isCondition with ⟨_, _, _, _, rfl⟩
    cases uses
  case headerPresent | headerAbsent =>
    rcases isCondition with ⟨_, _, rfl⟩
    cases uses
  case queryExact => exact .inl isOp
  case queryPresent => exact .inr isOp

lemma Encodes.needsQuery (encodes : Encodes group table run conditions)
    (needed : ∀ pred ∈ run, pred.OnQuery → table.needsQuery = true) :
    ∀ condition ∈ conditions, condition.usesQuery = true → table.needsQuery = true := by
  intro condition mem uses
  rcases exists_of_forall₂ (List.Forall₂.flip encodes) mem with ⟨pred, isPred, isCondition⟩
  exact needed pred isPred (onQuery_of_usesQuery isCondition uses)

/-- The evaluator passes a run exactly if the conditions of its records hold by the plain scans,
and otherwise gives the reason of the first one that does not; it spends one unit of its budget
for every record that it examines. Names that are all lowercased may be compared without case. -/
theorem evalPreds_eq_reference {tables : List RouteTable} {earlier later : List ScratchCall}
    {table : RouteTable} {request : RequestView} {group : Group} {start : Nat} {run : List Pred}
    {budget : Nat} (serving : Serving tables earlier table later request.query)
    (runAt : RunAt group start run) (wellFormed : ∀ pred ∈ run, WellFormed group table pred)
    (needed : ∀ pred ∈ run, pred.OnQuery → table.needsQuery = true)
    (short : request.query.length ≤ maxQueryBytes)
    (few : (internedParams table.queryNames (queryPairs request.query)).length ≤ maxQueryParams)
    (enough : run.length ≤ budget) :
    ∃ conditions, Encodes group table run conditions ∧
      (evalPreds group table start request (scratchAfter earlier table later) budget).1 =
        referenceEval sameBytes (requestFacts request later) conditions ∧
      (evalPreds group table start request (scratchAfter earlier table later) budget).2.2 +
        examined sameBytes (requestFacts request later) conditions = budget ∧
      ((∀ header ∈ (requestFacts request later).headers, Lowercased header.1) →
        (∀ condition ∈ conditions, ∀ name ∈ condition.headerName?, Lowercased name) →
        referenceEval sameIgnoringCase (requestFacts request later) conditions =
          referenceEval sameBytes (requestFacts request later) conditions) := by
  rcases exists_encodes wellFormed with ⟨conditions, encodes⟩
  have spec := evalPreds_spec serving.serves runAt encodes (encodes.needsQuery needed) enough
  have agree : ∀ condition ∈ conditions, Agrees sameBytes sameBytes
      (factsOf request (later.filterMap ScratchCall.observed) (seenParams table request.query))
      (requestFacts request later) condition := by
    intro condition mem
    rcases exists_of_forall₂ (List.Forall₂.flip encodes) mem with ⟨pred, _, isCondition⟩
    exact agrees_params isCondition fun name isInterned => firstParam_seen short few isInterned
  rw [(referenceEval_congr agree).1, (referenceEval_congr agree).2] at spec
  refine ⟨conditions, encodes, spec.1, spec.2, ?_⟩
  intro lowercased isLower
  exact (referenceEval_congr fun condition mem =>
    agrees_ignoringCase lowercased (isLower condition mem)).1

/-! ## A table that does not ask for the query -/

lemma built_nil :
    ∃ names, (NameSetBuilder.calls []).1.finish = (NameSetBuilder.calls names).1.finish := ⟨_, rfl⟩

lemma built_one :
    ∃ names, (NameSetBuilder.calls [ascii "a"]).1.finish =
      (NameSetBuilder.calls names).1.finish := ⟨_, rfl⟩

def oneParamTable (needsQuery : Bool) : RouteTable where
  generation := 1
  needsQuery := needsQuery
  headerNames := (NameSetBuilder.calls []).1.finish
  queryNames := (NameSetBuilder.calls [ascii "a"]).1.finish
  headersBuilt := built_nil
  queriesBuilt := built_one

def presentPred : Pred := ⟨predLast, 5, ⟨0⟩, 0, 0, 0⟩

def presentGroup : Group := ⟨[], [], [], [], [], [], [presentPred], [], ⟨0⟩, 0⟩

def presentRequest : RequestView := ⟨ascii "a", 1, []⟩

lemma serving_first (proper : (1 : UInt64) = table.generation)
    (within : ∀ call ∈ later, call.Within table query) :
    Serving [table] [] table later query where
  published := published_singleton (proper ▸ by decide)
  mem := mem_singleton_self _
  before := fun _ mem => absurd mem not_mem_nil
  within := within

lemma oneParam_serving (needsQuery : Bool) (query : Bytes) :
    Serving [oneParamTable needsQuery] [] (oneParamTable needsQuery) [] query :=
  serving_first rfl fun _ mem => absurd mem not_mem_nil

lemma presentGroup_runAt : RunAt presentGroup 0 [presentPred] where
  proper := by decide
  short := by decide
  there := rfl
  marked := ⟨[], presentPred, rfl, by decide, nofun⟩

lemma presentPred_wellFormed (needsQuery : Bool) :
    ∀ pred ∈ [presentPred], WellFormed presentGroup (oneParamTable needsQuery) pred := by
  have isOp : PredOp.fromU8 presentPred.op = some .queryPresent := by decide
  intro pred mem
  rw [mem_singleton.mp mem]
  refine ⟨by rw [isOp]; rfl, ?_, ?_, ?_⟩
  · intro op hasOp isHeader
    cases hasOp
    rcases isHeader with isExact | isPresent | isAbsent <;> contradiction
  · intro _ _ _
    cases needsQuery <;> decide +kernel
  · intro op hasOp isExact
    cases hasOp
    rcases isExact with isHeader | isQuery <;> contradiction

/-- A query that is never parsed has no parameters. -/
theorem ungatedQuery_fails :
    Serving [oneParamTable false] [] (oneParamTable false) [] presentRequest.query ∧
      RunAt presentGroup 0 [presentPred] ∧
      (∀ pred ∈ [presentPred], WellFormed presentGroup (oneParamTable false) pred) ∧
      presentRequest.query.length ≤ maxQueryBytes ∧ (internedParams (oneParamTable false).queryNames
        (queryPairs presentRequest.query)).length ≤ maxQueryParams ∧
      Encodes presentGroup (oneParamTable false) [presentPred] [.queryPresent (ascii "a")] ∧
      (evalPreds presentGroup (oneParamTable false) 0 presentRequest
        (scratchAfter [] (oneParamTable false) []) 1).1 = .fail .queryMissing ∧
      referenceEval sameBytes (requestFacts presentRequest []) [.queryPresent (ascii "a")] =
        .pass := by
  refine ⟨oneParam_serving false _, presentGroup_runAt, presentPred_wellFormed false, ?_, ?_,
    .cons ?_ .nil, ?_, ?_⟩ <;> decide +kernel

/-! ## A run of two records -/

def pairTable : RouteTable :=
  { oneParamTable true with
    headerNames := (NameSetBuilder.calls [ascii "a"]).1.finish
    headersBuilt := built_one }

def headerPred : Pred := ⟨0, 1, ⟨0⟩, 0, 1, 0⟩

def exactPred : Pred := ⟨predLast, 4, ⟨0⟩, 0, 1, 0⟩

/-- The header `a` and the parameter `a` must be `v`. -/
def pairGroup : Group := ⟨[], [], [], [], [], [], [headerPred, exactPred], ascii "v", ⟨0⟩, 0⟩

lemma pairGroup_runAt : RunAt pairGroup 0 [headerPred, exactPred] where
  proper := by decide
  short := by decide
  there := rfl
  marked := ⟨[headerPred], exactPred, rfl, by decide, forall_mem_singleton.mpr (by decide)⟩

lemma pairGroup_wellFormed :
    ∀ pred ∈ [headerPred, exactPred], WellFormed pairGroup pairTable pred := by
  have named : ∀ pred ∈ [headerPred, exactPred], (PredOp.fromU8 pred.op).isSome ∧
      pred.a.index.toNat < pairTable.headerNames.count ∧
      pred.a.index.toNat < pairTable.queryNames.count ∧ (literalOf pairGroup pred).isSome := by
    decide +kernel
  intro pred mem
  rcases named pred mem with ⟨op, header, query, literal⟩
  exact ⟨op, fun _ _ _ => header, fun _ _ _ => query, fun _ _ _ => literal⟩

/-- The header has the value and the parameter another one. -/
theorem secondRecord_fails :
    let request : RequestView := ⟨ascii "a=w", 1, ascii "v"⟩
    let header := ScratchCall.observeHeader pairTable (ascii "a") 0 1
    ∃ conditions, Encodes pairGroup pairTable [headerPred, exactPred] conditions ∧
      (evalPreds pairGroup pairTable 0 request (scratchAfter [] pairTable [header]) 2).1 =
        referenceEval sameBytes (requestFacts request [header]) conditions ∧
      (evalPreds pairGroup pairTable 0 request (scratchAfter [] pairTable [header]) 2).1 =
        .fail .queryValue := by
  intro request header
  have serving : Serving [pairTable] [] pairTable [header] request.query :=
    serving_first rfl (forall_mem_singleton.mpr rfl)
  rcases @evalPreds_eq_reference _ _ _ _ request pairGroup 0 _ 2 serving pairGroup_runAt
    pairGroup_wellFormed (fun _ _ _ => rfl) (by decide) (by decide +kernel) (by decide) with
    ⟨conditions, encodes, evaluates, _⟩
  exact ⟨conditions, encodes, evaluates, by decide +kernel⟩

end IronTraffic.Router
