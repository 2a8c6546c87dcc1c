import IronTraffic.Router.Conditions

/-! # The scratch over its requests

Whatever a worker did before, a request starts with no live slot; from then on the slots hold
the last occurrence of every interned header, and the index holds the parameters of the query.
-/

namespace IronTraffic.Router

open MatchScratch

open List

/-! ## Calls -/

inductive ScratchCall where
  | beginRequest (table : RouteTable)
  | observeHeader (table : RouteTable) (name : Bytes) (valueOff valueLen : Nat)
  | indexQuery (table : RouteTable) (query : Bytes)
  | evalPreds (group : Group) (table : RouteTable) (start : Nat) (request : RequestView)
      (budget : Nat)

namespace ScratchCall

def table : ScratchCall → RouteTable
  | .beginRequest table | .observeHeader table _ _ _ | .indexQuery table _
  | .evalPreds _ table _ _ _ => table

def observed : ScratchCall → Option (Bytes × Nat × Nat)
  | .observeHeader _ name valueOff valueLen => some (name, valueOff, valueLen)
  | _ => none

def Within (table : RouteTable) (query : Bytes) : ScratchCall → Prop
  | .beginRequest _ => False
  | .observeHeader other _ _ _ => other = table
  | .indexQuery other otherQuery => other = table ∧ otherQuery = query
  | .evalPreds _ other _ request _ => other = table ∧ request.query = query

end ScratchCall

def MatchScratch.call (scratch : MatchScratch) : ScratchCall → MatchScratch
  | .beginRequest table => scratch.beginRequest table
  | .observeHeader table name valueOff valueLen =>
    scratch.observeHeader table name valueOff valueLen
  | .indexQuery table query => scratch.indexQuery table query
  | .evalPreds group table start request budget =>
    (evalPreds group table start request scratch budget).2.1

section Indexing

variable {group : Group} {table : RouteTable} {request : RequestView}
variable {keeps : MatchScratch → Prop} {scratch : MatchScratch}

section

variable (indexing : ∀ scratch, keeps scratch → keeps (scratch.indexQuery table request.query))

include indexing

variable (group) in
lemma testPred_scratch (kept : keeps scratch) (op : PredOp) (pred : Pred) :
    keeps (testPred group table request op pred scratch).1 := by
  cases op with
  | method | headerExact | headerPresent | headerAbsent => exact kept
  | queryExact | queryPresent => exact indexing scratch kept

lemma evalRun_scratch (run) (kept : keeps scratch) (budget : Nat) :
    keeps (evalRun group table request run scratch budget).2.1 := by
  induction run generalizing scratch budget with
  | nil => exact kept
  | cons pred run induction =>
    cases budget with
    | zero => exact kept
    | succ budget =>
      unfold evalRun
      split
      · exact kept
      · split
        · exact kept
        · simp only
          split
          · exact induction (testPred_scratch group indexing kept _ pred) budget
          · exact testPred_scratch group indexing kept _ pred

lemma evalPreds_scratch (start : Nat) (kept : keeps scratch) (budget : Nat) :
    keeps (evalPreds group table start request scratch budget).2.1 := by
  unfold evalPreds
  split
  · exact kept
  · split
    · exact kept
    · exact evalRun_scratch indexing _ kept budget

end

end Indexing

lemma slots_indexQuery (scratch : MatchScratch) (table) (query : Bytes) :
    (scratch.indexQuery table query).hdrSlots = scratch.hdrSlots ∧
      (scratch.indexQuery table query).gen = scratch.gen := by
  unfold indexQuery
  split
  · exact ⟨rfl, rfl⟩
  · split <;> exact ⟨rfl, rfl⟩

/-! ## Between requests -/

/-- The tables that a worker is given: one for each generation. -/
structure Published (tables : List RouteTable) : Prop where
  nodup : ∀ left ∈ tables, ∀ right ∈ tables, left.generation = right.generation → left = right
  proper : ∀ table ∈ tables, table.generation ≠ new.tableGen

lemma published_singleton {table : RouteTable} (proper : table.generation ≠ new.tableGen) :
    Published [table] where
  nodup := by
    intro left isLeft right isRight _
    rw [mem_singleton.mp isLeft, mem_singleton.mp isRight]
  proper := forall_mem_singleton.mpr proper

structure Sound (tables : List RouteTable) (scratch : MatchScratch) : Prop where
  gen_le : scratch.gen ≤ 2 ^ 32 - 1
  slots_le : ∀ slot ∈ scratch.hdrSlots, slot.gen ≤ scratch.gen
  sized : ∀ table ∈ tables, scratch.tableGen = table.generation →
    scratch.hdrSlots.length = table.internedHeaderCount
  all : scratch.querySlots.length = maxQueryParams

lemma length_recordPair (names slots split) :
    (recordPair names slots split).1.length = slots.1.length := by
  unfold recordPair
  split
  · rfl
  · split
    · rfl
    · split
      · exact length_set
      · rfl

lemma length_indexPairs (names) (query : Bytes) (fuel pos : Nat) (slots) :
    (indexPairs names query fuel pos slots).1.length = slots.1.length := by
  induction fuel generalizing pos slots with
  | zero => rfl
  | succ fuel induction =>
    unfold indexPairs
    split
    · exact (induction _ _).trans (length_recordPair ..)
    · rfl

section Sound

variable {tables : List RouteTable} {scratch : MatchScratch}

lemma sound_new (published : Published tables) : Sound tables .new where
  gen_le := Nat.zero_le _
  slots_le := nofun
  sized := fun table mem isGen => absurd isGen.symm (published.proper table mem)
  all := length_replicate ..

section

variable (sound : Sound tables scratch)

include sound

lemma Sound.indexQuery (table) (query : Bytes) : Sound tables (scratch.indexQuery table query) := by
  unfold MatchScratch.indexQuery
  split
  · exact sound
  · split
    · exact sound
    · exact { sound with all := (length_indexPairs ..).trans sound.all }

lemma Sound.observeHeader (table) (name : Bytes) (valueOff valueLen : Nat) :
    Sound tables (scratch.observeHeader table name valueOff valueLen) := by
  unfold MatchScratch.observeHeader
  split
  · exact sound
  · refine { sound with slots_le := ?_, sized := ?_ }
    · intro slot mem
      rcases mem_or_eq_of_mem_set mem with old | rfl
      · exact sound.slots_le slot old
      · exact le_refl _
    · intro other mem isGen
      exact length_set.trans (sound.sized other mem isGen)

lemma Sound.beginRequest (published : Published tables) (mem : table ∈ tables) :
    Sound tables (scratch.beginRequest table) := by
  have atMost := sound.gen_le
  unfold MatchScratch.beginRequest
  split
  · refine ⟨by norm_num, ?_, ?_, sound.all⟩
    · intro slot isSlot
      rw [eq_of_mem_replicate isSlot]
      exact Nat.zero_le _
    · intro other isOther sameGen
      rw [published.nodup table mem other isOther sameGen]
      exact length_replicate ..
  · split
    · refine ⟨by norm_num, ?_, ?_, sound.all⟩
      · intro slot isSlot
        rcases mem_map.mp isSlot with ⟨_, _, rfl⟩
        exact Nat.zero_le _
      · intro other isOther sameGen
        exact (length_map _).trans (sound.sized other isOther sameGen)
    · refine ⟨?_, ?_, sound.sized, sound.all⟩
      · simp only
        omega
      · intro slot isSlot
        exact Nat.le_succ_of_le (sound.slots_le slot isSlot)

lemma Sound.call (published : Published tables) {call}
    (mem : call.table ∈ tables) : Sound tables (scratch.call call) := by
  cases call with
  | beginRequest table => exact sound.beginRequest published mem
  | observeHeader table name valueOff valueLen => exact sound.observeHeader ..
  | indexQuery table query => exact sound.indexQuery ..
  | evalPreds group table start request budget =>
    have indexing : ∀ scratch, Sound tables scratch →
        Sound tables (scratch.indexQuery table request.query) :=
      fun _ kept => kept.indexQuery table request.query
    exact evalPreds_scratch indexing start sound budget

end

lemma sound_calls (published : Published tables) (calls : List ScratchCall)
    (members : ∀ call ∈ calls, call.table ∈ tables) : Sound tables (calls.foldl call .new) := by
  induction calls using reverseRecOn with
  | nil => exact sound_new published
  | append_singleton calls call induction =>
    rw [foldl_append]
    exact (induction fun other isOther => members other (mem_append_left _ isOther)).call
      published (members call (mem_append_right _ mem_cons_self))

end Sound

/-! ## Within a request -/

def lastPlace (observed : List (Bytes × Nat × Nat)) (name : Bytes) : Option (Nat × Nat) :=
  observed.foldl (fun hit header => if header.1 = name then some header.2 else hit) none

lemma lastPlace_append (observed header) (name : Bytes) :
    lastPlace (observed ++ [header]) name =
      if header.1 = name then some header.2 else lastPlace observed name := by
  rw [lastPlace, foldl_append]
  rfl

def MatchScratch.livePlace (scratch : MatchScratch) (id : NameId) : Option (Nat × Nat) := do
  let slot ← scratch.hdrSlots[id.index.toNat]?
  if slot.gen ≠ scratch.gen then none else some (slot.off, slot.len)

lemma headerPresent_eq (scratch : MatchScratch) (id : NameId) :
    scratch.headerPresent id = (scratch.livePlace id).isSome := by
  unfold headerPresent livePlace
  cases scratch.hdrSlots[id.index.toNat]? with
  | none => rfl
  | some slot => by_cases live : slot.gen = scratch.gen <;> simp [live]

lemma headerValue_eq (scratch : MatchScratch) (id : NameId) (head : Bytes) :
    scratch.headerValue id head =
      (scratch.livePlace id).bind fun place => slice head place.1 (place.1 + place.2) := by
  unfold headerValue livePlace
  cases scratch.hdrSlots[id.index.toNat]? with
  | none => rfl
  | some slot => by_cases live : slot.gen = scratch.gen <;> simp [live]

def seenParams (table : RouteTable) (query : Bytes) : List (Bytes × Bytes) :=
  (internedParams table.queryNames (queryPairs (query.take maxQueryBytes))).take maxQueryParams

structure Serves (table : RouteTable) (query : Bytes) (observed : List (Bytes × Nat × Nat))
    (scratch : MatchScratch) : Prop where
  counted : scratch.hdrSlots.length = table.headerNames.count
  headers : ∀ name id, table.headerNames.lookup name = some id →
    scratch.livePlace id = lastPlace observed name
  all : scratch.querySlots.length = maxQueryParams
  few : scratch.queryN ≤ maxQueryParams
  params : scratch.queryIndexed = true → List.Forall₂ (Locates table.queryNames query)
    (scratch.querySlots.take scratch.queryN) (seenParams table query)
  fresh : scratch.queryIndexed = false → scratch.queryN = 0

variable {tables : List RouteTable}

section Serves

variable {table : RouteTable} {query : Bytes} {observed : List (Bytes × Nat × Nat)}
variable {scratch : MatchScratch}

lemma livePlace_beginRequest (sound : Sound tables scratch) (id : NameId) :
    (scratch.beginRequest table).livePlace id = none := by
  have stale : ∀ slot ∈ (scratch.beginRequest table).hdrSlots,
      slot.gen ≠ (scratch.beginRequest table).gen := by
    unfold beginRequest
    split
    · intro slot isSlot
      rw [eq_of_mem_replicate isSlot]
      exact Nat.zero_ne_one
    · split
      · intro slot isSlot
        rcases mem_map.mp isSlot with ⟨_, _, rfl⟩
        exact Nat.zero_ne_one
      · intro slot isSlot
        exact ne_of_lt (Nat.lt_succ_of_le (sound.slots_le slot isSlot))
  unfold livePlace
  cases there : (scratch.beginRequest table).hdrSlots[id.index.toNat]? with
  | none => rfl
  | some slot => simp [stale slot (mem_of_getElem? there)]

lemma serves_beginRequest (published : Published tables) (sound : Sound tables scratch)
    (mem : table ∈ tables) (query : Bytes) :
    Serves table query [] (scratch.beginRequest table) := by
  have began := sound.beginRequest published mem
  have isGen : (scratch.beginRequest table).tableGen = table.generation := by
    unfold beginRequest
    split
    · rfl
    · rename_i sameGen
      split <;> exact not_not.mp sameGen
  have isFresh : (scratch.beginRequest table).queryN = 0 ∧
      (scratch.beginRequest table).queryIndexed = false := by
    unfold beginRequest
    split
    · exact ⟨rfl, rfl⟩
    · split <;> exact ⟨rfl, rfl⟩
  refine ⟨began.sized table mem isGen, ?_, began.all, ?_, ?_, fun _ => isFresh.1⟩
  · intro name id _
    exact livePlace_beginRequest sound id
  · rw [isFresh.1]
    exact Nat.zero_le _
  · rw [isFresh.2]
    exact nofun

lemma livePlace_set {id other : NameId} (place : Nat × Nat)
    (inside : id.index.toNat < scratch.hdrSlots.length) :
    ({ scratch with
        hdrSlots := scratch.hdrSlots.set id.index.toNat ⟨scratch.gen, place.1, place.2⟩ } :
      MatchScratch).livePlace other =
      if id = other then some place else scratch.livePlace other := by
  unfold livePlace
  by_cases same : id = other
  · subst same
    simp [getElem?_set_self inside]
  · have differ : id.index.toNat ≠ other.index.toNat := by
      intro sameIndex
      apply same
      exact congrArg NameId.mk (UInt16.toNat_inj.mp sameIndex)
    simp only [getElem?_set_ne differ, if_neg same]

section

variable (serves : Serves table query observed scratch)

include serves

lemma Serves.observeHeader (name : Bytes) (valueOff valueLen : Nat) :
    Serves table query (observed ++ [(name, valueOff, valueLen)])
      (scratch.observeHeader table name valueOff valueLen) := by
  rcases table.headersBuilt with ⟨names, isBuilt⟩
  have exact := NameSetBuilder.exactNames_finish names
  rw [← isBuilt] at exact
  unfold MatchScratch.observeHeader
  cases hit : table.headerNames.lookup name with
  | none =>
    refine { serves with headers := ?_ }
    intro other id isOther
    have differ : name ≠ other := by
      rintro rfl
      rw [hit] at isOther
      cases isOther
    rw [lastPlace_append, if_neg differ]
    exact serves.headers other id isOther
  | some id =>
    refine { serves with counted := length_set.trans serves.counted, headers := ?_ }
    intro other otherId isOther
    have inside : id.index.toNat < scratch.hdrSlots.length := by
      rw [serves.counted]
      exact exact.below name id hit
    have sameName : id = otherId ↔ name = other := by
      constructor
      · rintro rfl
        exact exact.eq_of_lookup_eq hit isOther
      · rintro rfl
        exact Option.some.inj (hit.symm.trans isOther)
    rw [lastPlace_append]
    refine (livePlace_set (valueOff, valueLen) inside).trans ?_
    rw [serves.headers other otherId isOther]
    by_cases same : name = other
    · rw [if_pos (sameName.mpr same), if_pos same]
    · rw [if_neg (mt sameName.mp same), if_neg same]

lemma Serves.indexQuery : Serves table query observed (scratch.indexQuery table query) := by
  unfold MatchScratch.indexQuery
  split
  · exact serves
  rename_i notIndexed
  split
  · exact serves
  have isCut : query.take (min query.length maxQueryBytes) = query.take maxQueryBytes := by
    rw [Nat.min_comm, ← take_take, take_length]
  have small : (query.take maxQueryBytes).length < 2 ^ 32 := by
    rw [length_take]
    unfold maxQueryBytes
    omega
  have none := serves.fresh (Bool.eq_false_iff.mpr notIndexed)
  have nothing : List.Forall₂ (Locates table.queryNames (query.take maxQueryBytes))
      (scratch.querySlots.take scratch.queryN) [] := by
    rw [none, take_zero]
    exact .nil
  have indexed := @indexPairs_spec table.queryNames (query.take maxQueryBytes) small
    (query.take maxQueryBytes).length 0 (Nat.sub_le ..) (scratch.querySlots, scratch.queryN) []
    serves.all serves.few nothing
  rw [isCut]
  refine ⟨serves.counted, serves.headers, indexed.1, indexed.2.1, ?_, nofun⟩
  intro _
  apply indexed.2.2.imp
  intro slot param located
  have whole := slice_append_of_eq_some located.2 (query.drop maxQueryBytes)
  rw [take_append_drop] at whole
  exact ⟨located.1, whole⟩

lemma Serves.call {call} (within : call.Within table query) :
    Serves table query (observed ++ call.observed.toList) (scratch.call call) := by
  cases call with
  | beginRequest other => exact within.elim
  | observeHeader other name valueOff valueLen =>
    cases within
    exact serves.observeHeader name valueOff valueLen
  | indexQuery other otherQuery =>
    rcases within with ⟨rfl, rfl⟩
    have same : observed ++ (ScratchCall.indexQuery other otherQuery).observed.toList =
      observed := append_nil observed
    rw [same]
    exact serves.indexQuery
  | evalPreds group other start request budget =>
    rcases within with ⟨rfl, rfl⟩
    have same : observed ++
        (ScratchCall.evalPreds group other start request budget).observed.toList = observed :=
      append_nil observed
    rw [same]
    exact evalPreds_scratch (fun _ kept => kept.indexQuery) start serves budget

lemma Serves.calls (calls : List ScratchCall) (within : ∀ call ∈ calls, call.Within table query) :
    Serves table query (observed ++ calls.filterMap ScratchCall.observed)
      (calls.foldl MatchScratch.call scratch) := by
  induction calls generalizing observed scratch with
  | nil => simpa using serves
  | cons call calls induction =>
    have later := induction (serves.call (within call mem_cons_self))
      (fun other mem => within other (mem_cons_of_mem _ mem))
    cases isObserved : call.observed with
    | none | some header => simpa [isObserved] using later

end

end Serves

end IronTraffic.Router
