import IronTraffic.Foundation.Split
import IronTraffic.Router.PredicateReference

/-! # Queries that are cut

The index parses a bounded part of a query. What it finds there is in the whole query as well,
but for the parameter that the bound cuts.
-/

namespace IronTraffic.Router

open List

def cutParam (query : Bytes) : Option (Bytes × Bytes) :=
  if query.length ≤ maxQueryBytes ∨ query[maxQueryBytes]? = some 38 then none
  else parsePair (lastPart (· == 38) (query.take maxQueryBytes))

/-- The name of that parameter, if the bound cuts it within the name. -/
def cutName (query : Bytes) : Option Bytes :=
  if query[maxQueryBytes]? = some 61 ∨ 61 ∈ lastPart (· == 38) (query.take maxQueryBytes) then none
  else (cutParam query).map Prod.fst

variable {name value query : Bytes} {index budget : Nat} {pred : Pred}

lemma firstParam_append (hit : firstParam params name = some value)
    (more) : firstParam (params ++ more) name = some value := by
  unfold firstParam at hit ⊢
  rcases Option.map_eq_some_iff.mp hit with ⟨param, isParam, isValue⟩
  rw [find?_append, isParam]
  exact congrArg some isValue

lemma firstParam_append_cases (hit : firstParam (params ++ more) name = some value) :
    firstParam params name = some value ∨ firstParam more name = some value := by
  unfold firstParam at hit ⊢
  rw [find?_append] at hit
  cases first : params.find? fun param => param.1 == name with
  | none =>
    rw [first] at hit
    exact .inr hit
  | some param =>
    rw [first] at hit
    exact .inl hit

lemma mem_of_firstParam (hit : firstParam params name = some value) :
    ∃ param ∈ params, param.1 = name := by
  rcases Option.map_eq_some_iff.mp hit with ⟨param, isParam, _⟩
  have hasName := find?_some isParam
  exact ⟨param, mem_of_find?_eq_some isParam, beq_iff_eq.mp hasName⟩

lemma firstParam_of_take {count : Nat} (hit : firstParam (params.take count) name = some value) :
    firstParam params name = some value := by
  have more := firstParam_append hit (params.drop count)
  rwa [take_append_drop] at more

lemma queryPairs_append (query more : Bytes) :
    queryPairs (query ++ more) = ((query.splitOnP (· == 38)).dropLast).filterMap parsePair ++
        queryPairs (lastPart (· == 38) query ++ more) := by
  unfold queryPairs splitOn
  rw [splitOnP_append, filterMap_append]

lemma queryPairs_eq (query : Bytes) :
    queryPairs query = ((query.splitOnP (· == 38)).dropLast).filterMap parsePair ++
        (parsePair (lastPart (· == 38) query)).toList := by
  have some := splitOnP_ne_nil (· == 38) query
  rw [queryPairs, splitOn, lastPart, getLast?_eq_some_getLast some]
  conv_lhs => rw [← dropLast_append_getLast some, filterMap_append]
  cases parsePair ((query.splitOnP (· == 38)).getLast some) <;> rfl

lemma cut_cases (long : ¬query.length ≤ maxQueryBytes) :
    (∃ more, queryPairs query = queryPairs (query.take maxQueryBytes) ++ more) ∨
      ∃ byte more, query[maxQueryBytes]? = some byte ∧ byte ≠ 38 ∧
        cutParam query = parsePair (lastPart (· == 38) (query.take maxQueryBytes)) ∧
        queryPairs query =
          (((query.take maxQueryBytes).splitOnP (· == 38)).dropLast).filterMap parsePair ++
            queryPairs (lastPart (· == 38) (query.take maxQueryBytes) ++ byte :: more) := by
  have isQuery := take_append_drop maxQueryBytes query
  have isHead : (query.drop maxQueryBytes).head? = query[maxQueryBytes]? := head?_drop
  cases rest : query.drop maxQueryBytes with
  | nil => exact absurd (drop_eq_nil_iff.mp rest) long
  | cons byte more =>
    rw [rest] at isQuery isHead
    by_cases ends : byte = 38
    · refine .inl ⟨queryPairs more, ?_⟩
      conv_lhs => rw [← isQuery]
      have splits := @splitOnP_append_cons _ (· == 38) (query.take maxQueryBytes) more byte
        (beq_iff_eq.mpr ends)
      unfold queryPairs splitOn
      rw [splits, filterMap_append]
    · refine .inr ⟨byte, more, isHead.symm, ends, ?_, ?_⟩
      · apply if_neg
        rintro (isShort | endsHere)
        · exact long isShort
        · rw [← isHead] at endsHere
          exact ends (Option.some.inj endsHere)
      · have isWhole := queryPairs_append (query.take maxQueryBytes) (byte :: more)
        rwa [isQuery] at isWhole

lemma firstParam_of_cut (uncut : ∀ param ∈ cutParam query, param.1 ≠ name)
    (hit : firstParam (queryPairs (query.take maxQueryBytes)) name = some value) :
    firstParam (queryPairs query) name = some value := by
  by_cases short : query.length ≤ maxQueryBytes
  · rwa [take_of_length_le short] at hit
  rcases cut_cases short with ⟨more, isWhole⟩ | ⟨byte, more, _, _, isCut, isWhole⟩
  · rw [isWhole]
    exact firstParam_append hit _
  · rw [queryPairs_eq] at hit
    rw [isWhole]
    rcases firstParam_append_cases hit with before | last
    · exact firstParam_append before _
    · rcases mem_of_firstParam last with ⟨param, mem, isName⟩
      rw [Option.mem_toList, ← isCut] at mem
      exact absurd isName (uncut param mem)

/-- A pair is named by what stands before its first `=`. -/
lemma parsePair_name (pair : Bytes) :
    (parsePair pair).map Prod.fst =
      if pair.takeWhile (· != 61) = [] then none else some (pair.takeWhile (· != 61)) := by
  have isName : pair.takeWhile (· != 61) = pair.take (pair.findIdx (· == 61)) := by
    simp [takeWhile_eq_take_findIdx_not, bne]
  unfold parsePair
  cases pair with
  | nil => rfl
  | cons head rest =>
    cases hit : (head :: rest).findIdx? (· == 61) with
    | some index =>
      rw [isName, (findIdx?_eq_some_iff_findIdx_eq.mp hit).2]
      simp only [reduceCtorEq, ↓reduceIte]
      split <;> rfl
    | none =>
      rw [isName, findIdx_eq_length.mpr (by simpa using hit), take_length]
      rfl

lemma takeWhile_append_of_mem (named : byte = 61 ∨ 61 ∈ last) (more : Bytes) :
    (last ++ byte :: more).takeWhile (· != 61) = last.takeWhile (· != 61) := by
  induction last with
  | nil => simp [named.resolve_right not_mem_nil]
  | cons head last induction =>
    by_cases ends : head = 61
    · simp [ends]
    · have later : byte = 61 ∨ 61 ∈ last :=
        named.imp_right fun mem => (mem_cons.mp mem).resolve_left (Ne.symm ends)
      simp [ends, induction later]

lemma parsePair_append (isPair : parsePair last = some param) (named : byte = 61 ∨ 61 ∈ last)
    (more : Bytes) : ∃ value, parsePair (last ++ byte :: more) = some (param.1, value) := by
  have whole := parsePair_name (last ++ byte :: more)
  rw [takeWhile_append_of_mem named, ← parsePair_name, isPair] at whole
  rcases Option.map_eq_some_iff.mp whole with ⟨⟨name, value⟩, parsed, rfl⟩
  exact ⟨value, parsed⟩

/-- The last pair of a front part keeps its name if the name ends there. -/
lemma paramSeen_append (plain : 38 ∉ last) (isPair : parsePair last = some param)
    (inside : byte ≠ 38) (named : byte = 61 ∨ 61 ∈ last) (more : Bytes) :
    paramSeen (queryPairs (last ++ byte :: more)) param.1 := by
  have first : ∃ tail rest, queryPairs (last ++ byte :: more) =
      (parsePair (last ++ byte :: tail)).toList ++ rest := by
    have noneBefore : last.findIdx? (· == 38) = none :=
      findIdx?_eq_none_iff.mpr fun other mem => beq_false_of_ne fun same => plain (same ▸ mem)
    cases hit : (last ++ byte :: more).findIdx? (· == 38) with
    | none => exact ⟨more, [], by rw [queryPairs_of_none hit, append_nil]⟩
    | some index =>
      have isWhole := queryPairs_of_some hit
      rw [findIdx?_append, noneBefore, findIdx?_cons, if_neg (by simpa using inside)] at hit
      simp only [Option.none_or, Option.map_map, Option.map_eq_some_iff] at hit
      rcases hit with ⟨offset, -, rfl⟩
      have front : (last ++ byte :: more).take (offset + 1 + last.length) =
          last ++ byte :: more.take offset := by
        simp [take_append]
      rw [Function.comp, front] at isWhole
      exact ⟨_, _, isWhole⟩
  rcases first with ⟨tail, rest, isFirst⟩
  rcases parsePair_append isPair named tail with ⟨value, parsed⟩
  rw [isFirst, parsed]
  simp [paramSeen]

/-- A name that is not cut is there in the whole query. -/
lemma paramSeen_of_cut (uncut : cutName query ≠ some name)
    (seen : paramSeen (queryPairs (query.take maxQueryBytes)) name) :
    paramSeen (queryPairs query) name := by
  by_cases others : ∀ param ∈ cutParam query, param.1 ≠ name
  · rw [← isSome_firstParam] at seen ⊢
    rcases Option.isSome_iff_exists.mp seen with ⟨value, isValue⟩
    exact Option.isSome_iff_exists.mpr ⟨value, firstParam_of_cut others isValue⟩
  · simp only [not_forall, not_not] at others
    rcases others with ⟨param, isParam, rfl⟩
    have long : ¬query.length ≤ maxQueryBytes := by
      intro short
      rw [cutParam, if_pos (.inl short)] at isParam
      cases isParam
    have named : query[maxQueryBytes]? = some 61 ∨
        61 ∈ lastPart (· == 38) (query.take maxQueryBytes) := by
      by_contra within
      rw [cutName, if_neg within, isParam] at uncut
      exact uncut rfl
    rcases cut_cases long with ⟨more, isWhole⟩ | ⟨byte, more, isByte, inside, isCut, isWhole⟩
    · rw [isWhole, paramSeen, any_append, ← paramSeen, seen, Bool.true_or]
    · rw [isByte, Option.some.injEq] at named
      have plain : 38 ∉ lastPart (· == 38) (query.take maxQueryBytes) := by
        have some := splitOnP_ne_nil (· == 38) (query.take maxQueryBytes)
        rw [lastPart, getLast?_eq_some_getLast some]
        exact not_mem_splitOn (getLast_mem some)
      have last := paramSeen_append plain (isCut.symm.trans isParam) inside named more
      rw [isWhole, paramSeen, any_append, ← paramSeen, ← paramSeen, last, Bool.or_true]

lemma firstParam_of_seen (isInterned : (table.queryNames.lookup name).isSome)
    (hit : firstParam (seenParams table query) name = some value) :
    firstParam (queryPairs (query.take maxQueryBytes)) name = some value := by
  have all := firstParam_of_take hit
  rwa [firstParam_interned isInterned] at all

/-! ## Predicates that were passed -/

section Passed

variable {group : Group} {table : RouteTable} {request : RequestView}

/-- The evaluator examined the record at the index and went on, or passed the whole run. -/
def Passed (index budget : Nat) (answer : PredOutcome × MatchScratch × Nat) : Prop :=
  index < budget - answer.2.2 ∧ (answer.1 = .pass ∨ index + 1 < budget - answer.2.2)

variable (group table request) in
lemma not_passed_of_fail : ¬Passed index (budget + 1) (.fail reason, scratch, budget) := by
  rintro ⟨examined, isPass | goesOn⟩
  · cases isPass
  · simp only at goesOn
    omega

section

variable (serves : Serves table request.query observed scratch)

include serves

lemma tested_of_passed (isPred : run[index]? = some pred)
    (passed : Passed index budget (evalRun group table request run scratch budget)) :
    ∃ op tested, Serves table request.query observed tested ∧ PredOp.fromU8 pred.op = some op ∧
      (testPred group table request op pred tested).2 = true := by
  induction run generalizing scratch budget index with
  | nil => cases isPred
  | cons first run induction =>
    cases budget with
    | zero => exact absurd passed.1 (by simp)
    | succ budget =>
      unfold evalRun at passed
      split at passed
      · exact absurd passed not_passed_of_fail
      rename_i op isOp
      split at passed
      · exact absurd passed not_passed_of_fail
      simp only at passed
      split at passed
      · rename_i holds
        cases index with
        | zero =>
          cases isPred
          exact ⟨op, scratch, serves, isOp, holds⟩
        | succ index =>
          have still := testPred_scratch group
            (fun _ kept => Serves.indexQuery kept) serves op first
          apply induction still isPred
          refine ⟨?_, passed.2.imp id ?_⟩
          · have examined := passed.1
            omega
          · intro goesOn
            omega
      · exact absurd passed not_passed_of_fail

lemma tested_of_passed_preds (isPred : (group.predsFrom start)[index]? = some pred)
    (passed : Passed index budget (evalPreds group table start request scratch budget)) :
    ∃ op tested, Serves table request.query observed tested ∧ PredOp.fromU8 pred.op = some op ∧
      (testPred group table request op pred tested).2 = true := by
  unfold evalPreds at passed
  split at passed
  · exact absurd passed.1 (by simp)
  · split at passed
    · rename_i empty
      rw [empty] at isPred
      cases isPred
    · exact tested_of_passed serves isPred passed

lemma Serves.firstParam_of_query {id} (isName : table.queryNames.nameOf id = some name) :
    (∀ value, scratch.queryValue id request.query = some value →
       firstParam (seenParams table request.query) name = some value) ∧
    (scratch.queryPresent id = true → paramSeen (seenParams table request.query) name = true) := by
  cases indexed : scratch.queryIndexed with
  | true =>
    have read := serves.query_eq indexed isName
    rw [read.1, read.2]
    exact ⟨fun _ hit => hit, fun seen => seen⟩
  | false =>
    have none : scratch.usedSlots = [] := by
      rw [serves.usedSlots_eq, serves.fresh indexed, take_zero]
    rw [MatchScratch.queryValue, MatchScratch.queryPresent, none]
    simp

end

end Passed

/-- What a passed record says of the query holds for the whole query: a value unless the parameter
is cut, and a name unless it is cut within the name. -/
theorem passed_query_sound {tables : List RouteTable} {earlier later : List ScratchCall}
    {table : RouteTable} {request : RequestView} {group : Group} {start budget index : Nat}
    {pred : Pred} {name : Bytes} (serving : Serving tables earlier table later request.query)
    (isPred : (group.predsFrom start)[index]? = some pred)
    (passed : Passed index budget
      (evalPreds group table start request (scratchAfter earlier table later) budget))
    (isName : table.queryNames.nameOf pred.a = some name) :
    (PredOp.fromU8 pred.op = some .queryExact →
      (∀ param ∈ cutParam request.query, param.1 ≠ name) →
      firstParam (queryPairs request.query) name = some (group.literal pred)) ∧
    (PredOp.fromU8 pred.op = some .queryPresent → cutName request.query ≠ some name →
      paramSeen (queryPairs request.query) name = true) := by
  have hit := ((exact_queryNames table).nameOf_eq_some_iff name pred.a).mp isName
  have isInterned : (table.queryNames.lookup name).isSome := Option.isSome_iff_exists.mpr ⟨_, hit⟩
  rcases tested_of_passed_preds serving.serves isPred passed with ⟨op, tested, serves, isOp, holds⟩
  have read := serves.indexQuery.firstParam_of_query isName
  constructor
  · intro isExact uncut
    cases isOp.symm.trans isExact
    apply firstParam_of_cut uncut
    apply firstParam_of_seen isInterned
    apply read.1
    have compared := (match_eq_literal _ _).symm.trans holds
    exact beq_iff_eq.mp compared
  · intro isPresent uncut
    cases isOp.symm.trans isPresent
    have seen := read.2 holds
    apply paramSeen_of_cut uncut
    rw [← isSome_firstParam] at seen ⊢
    rcases Option.isSome_iff_exists.mp seen with ⟨value, isValue⟩
    exact Option.isSome_iff_exists.mpr ⟨value, firstParam_of_seen isInterned isValue⟩

/-! ## Long queries -/

/-- The value of the parameter must be `v`. -/
def exactGroup : Group := ⟨[], [], [], [], [], [], [exactPred], ascii "v", ⟨0⟩, 0⟩

lemma exactGroup_runAt : RunAt exactGroup 0 [exactPred] where
  proper := by decide
  short := by decide
  there := rfl
  marked := ⟨[], exactPred, rfl, by decide, nofun⟩

lemma exactGroup_passed {request : RequestView}
    (seen : seenParams (oneParamTable true) request.query = [(ascii "a", ascii "v")]) :
    Passed 0 1 (evalPreds exactGroup (oneParamTable true) 0 request
      (scratchAfter [] (oneParamTable true) []) 1) := by
  have encodes : Encodes exactGroup (oneParamTable true) [exactPred]
      [.queryExact (ascii "a") (ascii "v")] := .cons (by decide +kernel) .nil
  have spec := evalPreds_spec (oneParam_serving true request.query).serves exactGroup_runAt encodes
    (fun _ _ _ => rfl) (le_refl 1)
  rw [seen] at spec
  have spent : examined sameBytes (factsOf request ([].filterMap ScratchCall.observed)
    [(ascii "a", ascii "v")]) [.queryExact (ascii "a") (ascii "v")] = 1 := rfl
  exact ⟨by omega, .inl (spec.1.trans rfl)⟩

/-- A parameter with another name is cut. -/
theorem longRequest_sound :
    let request : RequestView := ⟨ascii "a=v&" ++ replicate 4096 120, 1, []⟩
    maxQueryBytes < request.query.length ∧
      firstParam (queryPairs request.query) (ascii "a") = some (ascii "v") := by
  intro request
  have seen : seenParams (oneParamTable true) request.query = [(ascii "a", ascii "v")] := by
    decide +kernel
  have sound := @passed_query_sound _ _ _ _ request exactGroup 0 1 0 exactPred (ascii "a")
    (oneParam_serving true _) (by decide) (exactGroup_passed seen) (by decide +kernel)
  refine ⟨?_, sound.1 (by decide) ?_⟩ <;> decide +kernel

/-- The value of the parameter is `vw`; the bound is between the two bytes. -/
def cutRequest : RequestView := ⟨List.replicate 4092 120 ++ ascii "&a=vw", 1, []⟩

lemma cutRequest_seen :
    seenParams (oneParamTable true) cutRequest.query = [(ascii "a", ascii "v")] := by
  decide +kernel

theorem cutRequest_passes :
    Serving [oneParamTable true] [] (oneParamTable true) [] cutRequest.query ∧
      (exactGroup.predsFrom 0)[0]? = some exactPred ∧
      PredOp.fromU8 exactPred.op = some .queryExact ∧
      (oneParamTable true).queryNames.nameOf exactPred.a = some (ascii "a") ∧
      exactGroup.literal exactPred = ascii "v" ∧
      Passed 0 1 (evalPreds exactGroup (oneParamTable true) 0 cutRequest
        (scratchAfter [] (oneParamTable true) []) 1) ∧
      firstParam (queryPairs cutRequest.query) (ascii "a") = some (ascii "vw") := by
  refine ⟨oneParam_serving true _, ?_, ?_, ?_, ?_, exactGroup_passed cutRequest_seen, ?_⟩ <;>
    decide +kernel

end IronTraffic.Router
