import IronTraffic.Router.Scratch

/-! # Query parameters

The parameters of a query by a plain scan, and the slots that the index records for them.
-/

namespace IronTraffic.Router

open List

/-! ## The plain scan -/

def parsePair (pair : Bytes) : Option (Bytes × Bytes) :=
  if pair = [] then none
  else
    match pair.findIdx? (· == 61) with
    | some index =>
      if pair.take index = [] then none else some (pair.take index, pair.drop (index + 1))
    | none => some (pair, [])

def queryPairs (query : Bytes) : List (Bytes × Bytes) := (query.splitOn 38).filterMap parsePair

lemma queryPairs_nil : queryPairs [] = [] := rfl

variable {query : Bytes} {pos stop : Nat} {names : CompiledNameSet} {slots : List QuerySlot × Nat}
  {done : List (Bytes × Bytes)}

lemma queryPairs_of_none (none : query.findIdx? (· == 38) = none) :
    queryPairs query = (parsePair query).toList := by
  rw [findIdx?_eq_none_iff] at none
  rw [queryPairs, splitOn, splitOnP_eq_singleton none]
  cases parsed : parsePair query <;> simp [parsed]

lemma queryPairs_of_some (hit : query.findIdx? (· == 38) = some index) :
    queryPairs query =
      (parsePair (query.take index)).toList ++ queryPairs (query.drop (index + 1)) := by
  rcases findIdx?_eq_some_iff_getElem.mp hit with ⟨inside, isSep, before⟩
  have isQuery : query = query.take index ++ query[index] :: query.drop (index + 1) := by
    rw [cons_getElem_drop_succ, take_append_drop]
  have noSep : ∀ byte ∈ query.take index, (byte == 38) = false := by
    intro byte mem
    rcases mem_take_iff_getElem.mp mem with ⟨other, below, rfl⟩
    exact Bool.eq_false_iff.mpr (before other (by omega))
  unfold queryPairs splitOn
  conv_lhs => rw [isQuery, splitOnP_append_cons_of_forall_mem noSep _ isSep, filterMap_cons]
  cases parsePair (query.take index) <;> rfl

lemma queryPairs_drop (query : Bytes) (pos : Nat) :
    queryPairs (query.drop pos) = (parsePair ((query.take (pairEnd query pos)).drop pos)).toList ++
        queryPairs (query.drop (pairEnd query pos + 1)) := by
  unfold pairEnd
  cases hit : (query.drop pos).findIdx? (· == 38) with
  | none =>
    have ended : query.drop (query.length + 1) = [] := drop_eq_nil_of_le (by omega)
    rw [queryPairs_of_none hit, take_length, ended, queryPairs_nil, append_nil]
  | some index =>
    rw [queryPairs_of_some hit, drop_drop, ← take_drop, add_assoc]

/-! ## The slots of the index -/

def Locates (names : CompiledNameSet) (query : Bytes) (slot : QuerySlot)
    (param : Bytes × Bytes) : Prop :=
  names.lookup param.1 = some slot.name ∧ slice query slot.off (slot.off + slot.len) = some param.2

def internedParams (names : CompiledNameSet) (params : List (Bytes × Bytes)) :
    List (Bytes × Bytes) :=
  params.filter fun param => (names.lookup param.1).isSome

lemma pairEnd_le (inside : pos < query.length) :
    pos ≤ pairEnd query pos ∧ pairEnd query pos ≤ query.length := by
  unfold pairEnd
  cases hit : (query.drop pos).findIdx? (· == 38) with
  | none => exact ⟨le_of_lt inside, le_refl _⟩
  | some index =>
    have below := (findIdx?_eq_some_iff_getElem.mp hit).1
    rw [length_drop] at below
    simp only
    omega

lemma u32OrZero_of_lt {number : Nat} (small : number < 2 ^ 32) : u32OrZero number = number :=
  if_pos small

lemma splitPair_spec (order : pos ≤ stop) (inside : stop ≤ query.length)
    (small : query.length < 2 ^ 32) :
    match parsePair ((query.take stop).drop pos) with
    | none => (splitPair ((query.take stop).drop pos) pos).1 = []
    | some param =>
      (splitPair ((query.take stop).drop pos) pos).1 = param.1 ∧ param.1 ≠ [] ∧
        slice query (splitPair ((query.take stop).drop pos) pos).2.1
          ((splitPair ((query.take stop).drop pos) pos).2.1 +
            (splitPair ((query.take stop).drop pos) pos).2.2) = some param.2 := by
  have length : ((query.take stop).drop pos).length = stop - pos := by
    rw [length_drop, length_take]
    omega
  generalize isPair : (query.take stop).drop pos = pair at length ⊢
  unfold parsePair splitPair
  by_cases empty : pair = []
  · subst empty
    simp
  rw [if_neg empty]
  cases hit : pair.findIdx? (· == 61) with
  | none =>
    simp only
    refine ⟨trivial, empty, ?_⟩
    rw [u32OrZero_of_lt (by omega)]
    rw [slice, if_pos (by omega)]
    simp
  | some index =>
    have below := (findIdx?_eq_some_iff_getElem.mp hit).1
    simp only
    by_cases nameless : pair.take index = []
    · rw [if_pos nameless]
      exact nameless
    rw [if_neg nameless]
    refine ⟨rfl, nameless, ?_⟩
    rw [u32OrZero_of_lt (by omega), u32OrZero_of_lt (by omega)]
    unfold slice
    have isValue : pair.drop (index + 1) =
        (query.drop (pos + index + 1)).take (stop - (pos + index + 1)) := by
      rw [← isPair, drop_drop, drop_take, add_assoc]
    have extent : pos + index + 1 + (pair.length - index - 1) - (pos + index + 1) =
        stop - (pos + index + 1) := by omega
    rw [if_pos (by omega), extent, isValue]

lemma recordPair_spec (order : pos ≤ stop) (inside : stop ≤ query.length)
    (small : query.length < 2 ^ 32) (room : slots.2 < slots.1.length)
    (located : List.Forall₂ (Locates names query) (slots.1.take slots.2) done) :
    let recorded := recordPair names slots (splitPair ((query.take stop).drop pos) pos)
    recorded.1.length = slots.1.length ∧ recorded.2 ≤ slots.2 + 1 ∧
      List.Forall₂ (Locates names query) (recorded.1.take recorded.2)
        (done ++ internedParams names
          (parsePair ((query.take stop).drop pos)).toList) := by
  have split := splitPair_spec order inside small
  unfold recordPair
  cases parsed : parsePair ((query.take stop).drop pos) with
  | none =>
    rw [parsed] at split
    simp only [split, if_true]
    simpa [internedParams] using located
  | some param =>
    rw [parsed] at split
    rcases split with ⟨isName, named, isValue⟩
    simp only [isName, named, if_false]
    cases hit : names.lookup param.1 with
    | none =>
      simpa [internedParams, hit] using located
    | some id =>
      simp only [if_pos room]
      refine ⟨length_set, le_refl _, ?_⟩
      have taken : (slots.1.set slots.2 ⟨id, (splitPair ((query.take stop).drop pos) pos).2.1,
          (splitPair ((query.take stop).drop pos) pos).2.2⟩).take (slots.2 + 1) =
          slots.1.take slots.2 ++ [⟨id, (splitPair ((query.take stop).drop pos) pos).2.1,
            (splitPair ((query.take stop).drop pos) pos).2.2⟩] := by
        rw [take_add_one, getElem?_set_self room, take_set_of_le (le_refl _)]
        rfl
      rw [taken]
      have kept : internedParams names (some param).toList = [param] := by
        simp [internedParams, hit]
      rw [kept]
      exact rel_append located (List.Forall₂.cons ⟨hit, isValue⟩ .nil)

lemma take_done (all : slots.1.length = maxQueryParams) (few : slots.2 ≤ maxQueryParams)
    (located : List.Forall₂ (Locates names query) (slots.1.take slots.2) done)
    (stops : query.length ≤ pos ∨ slots.2 = maxQueryParams) :
    (done ++ internedParams names (queryPairs (query.drop pos))).take maxQueryParams = done := by
  have length : done.length = slots.2 := by
    rw [← located.length_eq, length_take]
    omega
  rcases stops with ended | full
  · rw [drop_eq_nil_of_le ended, queryPairs_nil]
    simp only [internedParams, filter_nil, append_nil]
    exact take_of_length_le (by omega)
  · exact take_left' (length.trans full)

lemma indexPairs_spec {names : CompiledNameSet} {query : Bytes} (small : query.length < 2 ^ 32)
    (fuel pos : Nat) (enough : query.length - pos ≤ fuel) {slots : List QuerySlot × Nat}
    {done : List (Bytes × Bytes)} (all : slots.1.length = maxQueryParams)
    (few : slots.2 ≤ maxQueryParams)
    (located : List.Forall₂ (Locates names query) (slots.1.take slots.2) done) :
    let indexed := indexPairs names query fuel pos slots
    indexed.1.length = maxQueryParams ∧ indexed.2 ≤ maxQueryParams ∧
      List.Forall₂ (Locates names query) (indexed.1.take indexed.2)
        ((done ++ internedParams names (queryPairs (query.drop pos))).take maxQueryParams) := by
  induction fuel generalizing pos slots done with
  | zero =>
    rw [take_done all few located (.inl (by omega))]
    exact ⟨all, few, located⟩
  | succ fuel induction =>
    unfold indexPairs
    by_cases more : pos < query.length ∧ slots.2 < maxQueryParams
    · simp only [if_pos more]
      have bounds := pairEnd_le more.1
      rcases recordPair_spec bounds.1 bounds.2 small (all ▸ more.2) located with
        ⟨stillAll, atMostOne, recorded⟩
      have later := induction (pairEnd query pos + 1) (by omega) (stillAll.trans all)
        (by omega) recorded
      have isRest : internedParams names (queryPairs (query.drop pos)) =
          internedParams names (parsePair ((query.take (pairEnd query pos)).drop pos)).toList ++
            internedParams names (queryPairs (query.drop (pairEnd query pos + 1))) := by
        rw [queryPairs_drop query pos]
        exact filter_append ..
      rw [isRest, ← append_assoc]
      exact later
    · simp only [if_neg more]
      rw [take_done all few located (by omega)]
      exact ⟨all, few, located⟩

end IronTraffic.Router
