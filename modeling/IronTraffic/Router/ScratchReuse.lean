import IronTraffic.Router.PredicateReference

/-! # Reusing the scratch

A slot is live exactly if the request that is served wrote it. The generation is a counter that
starts again when it would overflow, so runs of any length are covered.
-/

namespace IronTraffic.Router

open List

def ScratchCall.placeOf (id : NameId) : ScratchCall → Option (Nat × Nat)
  | .observeHeader table name valueOff valueLen =>
    if table.headerNames.lookup name = some id then some (valueOff, valueLen) else none
  | _ => none

variable {table : RouteTable}

lemma inside_of_placeOf {id} {call : ScratchCall} (isTable : call.table = table)
    (placed : call.placeOf id = some place) : id.index.toNat < table.internedHeaderCount := by
  cases call with
  | beginRequest other => cases placed
  | observeHeader other name valueOff valueLen =>
    cases isTable
    by_cases hit : other.headerNames.lookup name = some id
    · exact (exact_headerNames other).below name id hit
    · simp [ScratchCall.placeOf, hit] at placed
  | indexQuery | evalPreds => cases placed

def placesOf (id : NameId) (calls : List ScratchCall) : List (Nat × Nat) :=
  calls.filterMap (ScratchCall.placeOf id)

lemma placesOf_append (id calls call) :
    placesOf id (calls ++ [call]) = placesOf id calls ++ (call.placeOf id).toList := by
  unfold placesOf
  cases placed : call.placeOf id <;> simp [placed]

def ScratchCall.Begins : ScratchCall → Prop
  | .beginRequest _ => True
  | _ => False

structure Records (count : Nat) (calls : List ScratchCall) (scratch : MatchScratch) : Prop where
  counted : scratch.hdrSlots.length = count
  live : ∀ id : NameId, scratch.livePlace id =
    if id.index.toNat < count then (placesOf id calls).getLast? else none

section Records

variable {count : Nat} {calls : List ScratchCall} {scratch : MatchScratch}

lemma records_beginRequest (published : Published tables) (sound : Sound tables scratch)
    (mem : table ∈ tables) : Records table.internedHeaderCount [] (scratch.beginRequest table) := by
  refine ⟨(serves_beginRequest published sound mem []).counted, ?_⟩
  intro id
  rw [livePlace_beginRequest sound]
  split <;> rfl

section

variable (records : Records count calls scratch)

include records

lemma Records.keep (nothing : ∀ id, call.placeOf id = none) {next}
    (sameSlots : next.hdrSlots = scratch.hdrSlots) (sameGen : next.gen = scratch.gen) :
    Records count (calls ++ [call]) next := by
  refine ⟨sameSlots ▸ records.counted, ?_⟩
  intro id
  rw [placesOf_append, nothing id, Option.toList_none, append_nil, ← records.live id]
  unfold MatchScratch.livePlace
  rw [sameSlots, sameGen]

lemma Records.observeHeader (table) (name : Bytes) (valueOff valueLen : Nat) :
    Records count (calls ++ [.observeHeader table name valueOff valueLen])
      (scratch.observeHeader table name valueOff valueLen) := by
  unfold MatchScratch.observeHeader
  cases hit : table.headerNames.lookup name with
  | none =>
    refine records.keep ?_ rfl rfl
    simp [ScratchCall.placeOf, hit]
  | some observed =>
    refine ⟨length_set.trans records.counted, ?_⟩
    intro id
    have placed : (ScratchCall.observeHeader table name valueOff valueLen).placeOf id =
        if observed = id then some (valueOff, valueLen) else none := by
      simp [ScratchCall.placeOf, hit]
    rw [placesOf_append, placed]
    by_cases inside : observed.index.toNat < scratch.hdrSlots.length
    · refine (livePlace_set (valueOff, valueLen) inside).trans ?_
      by_cases same : observed = id
      · subst same
        rw [records.counted] at inside
        simp [inside]
      · rw [if_neg same, if_neg same, records.live id]
        simp
    · -- The table has more names than the scratch has slots: nothing is recorded.
      have unchanged : scratch.hdrSlots.set observed.index.toNat
          ⟨scratch.gen, valueOff, valueLen⟩ = scratch.hdrSlots :=
        set_eq_of_length_le (Nat.le_of_not_lt inside)
      simp only [unchanged]
      refine (records.live id).trans ?_
      rw [records.counted] at inside
      by_cases same : observed = id
      · subst same
        rw [if_neg inside, if_neg inside]
      · rw [if_neg same]
        simp

lemma Records.call {call} (within : ¬call.Begins) :
    Records count (calls ++ [call]) (scratch.call call) := by
  cases call with
  | beginRequest table => exact absurd trivial within
  | observeHeader table name valueOff valueLen => exact records.observeHeader ..
  | indexQuery table query =>
    exact records.keep (fun _ => rfl) (slots_indexQuery ..).1 (slots_indexQuery ..).2
  | evalPreds group table start request budget =>
    have indexing : ∀ next : MatchScratch,
        next.hdrSlots = scratch.hdrSlots ∧ next.gen = scratch.gen →
          (next.indexQuery table request.query).hdrSlots = scratch.hdrSlots ∧
            (next.indexQuery table request.query).gen = scratch.gen := by
      intro next same
      have kept := slots_indexQuery next table request.query
      exact ⟨kept.1.trans same.1, kept.2.trans same.2⟩
    have same := @evalPreds_scratch group table request _ scratch indexing start ⟨rfl, rfl⟩ budget
    exact records.keep (fun _ => rfl) same.1 same.2

end

lemma Records.all (records : Records count [] scratch) (later)
    (within : ∀ call ∈ later, ¬call.Begins) :
    Records count later (later.foldl MatchScratch.call scratch) := by
  induction later using reverseRecOn with
  | nil => exact records
  | append_singleton later call induction =>
    rw [foldl_append]
    exact (induction fun other mem => within other (mem_append_left _ mem)).call
      (within call (mem_append_right _ mem_cons_self))

end Records

/-- Over any run of a scratch, a header is present exactly if a call since the last request began
recorded it, and its value is then at the place that was recorded last. Calls that use the table
of the request record headers that have a slot. -/
theorem scratch_never_leaks {tables : List RouteTable} {earlier later : List ScratchCall}
    {table : RouteTable} (published : Published tables) (mem : table ∈ tables)
    (before : ∀ call ∈ earlier, call.table ∈ tables) (within : ∀ call ∈ later, ¬call.Begins)
    (id : NameId) (head : Bytes) :
    ((scratchAfter earlier table later).headerPresent id = true ↔
      id.index.toNat < table.internedHeaderCount ∧ placesOf id later ≠ []) ∧
    (∀ place, id.index.toNat < table.internedHeaderCount →
      (placesOf id later).getLast? = some place →
      (scratchAfter earlier table later).headerValue id head =
        slice head place.1 (place.1 + place.2)) ∧
    ((∀ call ∈ later, call.table = table) →
      ((scratchAfter earlier table later).headerPresent id = true ↔ placesOf id later ≠ [])) := by
  have sound := sound_calls published earlier before
  have records : Records table.internedHeaderCount later (scratchAfter earlier table later) := by
    rw [scratchAfter, foldl_append, foldl_cons]
    exact (records_beginRequest published sound mem).all later within
  have present : (scratchAfter earlier table later).headerPresent id = true ↔
      id.index.toNat < table.internedHeaderCount ∧ placesOf id later ≠ [] := by
    rw [headerPresent_eq, records.live id]
    by_cases inside : id.index.toNat < table.internedHeaderCount
    · simp [inside]
    · simp [inside]
  refine ⟨present, ?_, ?_⟩
  · intro place inside isLast
    rw [headerValue_eq, records.live id, if_pos inside, isLast]
    rfl
  · intro sameTable
    rw [present, and_iff_right_iff_imp]
    intro some
    rcases exists_mem_of_ne_nil _ some with ⟨place, isPlace⟩
    rcases mem_filterMap.mp isPlace with ⟨call, isCall, placed⟩
    exact inside_of_placeOf (sameTable call isCall) placed

def oneHeaderTable : RouteTable where
  generation := 1
  needsQuery := false
  headerNames := (NameSetBuilder.calls [ascii "a"]).1.finish
  queryNames := (NameSetBuilder.calls []).1.finish
  headersBuilt := built_one
  queriesBuilt := built_nil

lemma oneHeader_published : Published [oneHeaderTable] :=
  published_singleton (by decide : (1 : UInt64) ≠ MatchScratch.new.tableGen)

/-- The header of the first request is not there in the second one. -/
theorem secondRequest_forgets :
    (scratchAfter [.beginRequest oneHeaderTable, .observeHeader oneHeaderTable (ascii "a") 0 1]
      oneHeaderTable []).headerPresent ⟨0⟩ = false := by
  have tables : ∀ call ∈ [ScratchCall.beginRequest oneHeaderTable,
      .observeHeader oneHeaderTable (ascii "a") 0 1], call.table ∈ [oneHeaderTable] := by
    intro call mem
    rcases mem_cons.mp mem with rfl | last
    · exact mem_singleton_self _
    · rw [mem_singleton.mp last]
      exact mem_singleton_self _
  have present := (scratch_never_leaks oneHeader_published (mem_singleton_self _) tables
    (fun _ mem => absurd mem not_mem_nil) ⟨0⟩ []).1
  exact Bool.eq_false_iff.mpr fun isPresent => (present.mp isPresent).2 rfl

end IronTraffic.Router
