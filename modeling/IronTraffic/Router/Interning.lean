import IronTraffic.Router.NameLookup

/-! # Interning names

Whatever names a builder is given, its finished set finds those that were accepted, each under
the id that the builder answered.
-/

namespace IronTraffic.Router

open List

variable {name : Bytes} {id : NameId} {named : Bytes × NameId}

namespace NameSetBuilder

def call (state : NameSetBuilder × List (Bytes × Except NameSetError NameId)) (name : Bytes) :
    NameSetBuilder × List (Bytes × Except NameSetError NameId) :=
  ((state.1.insert name).1, state.2 ++ [(name, (state.1.insert name).2)])

def calls (names : List Bytes) : NameSetBuilder × List (Bytes × Except NameSetError NameId) :=
  names.foldl call (new, [])

def accepted (answers : List (Bytes × Except NameSetError NameId)) : List Bytes :=
  answers.filterMap fun answer => answer.2.toOption.map fun _ => answer.1

/-! ## One call -/

inductive Inserts (builder : NameSetBuilder) (name : Bytes) :
    NameSetBuilder × Except NameSetError NameId → Prop where
  | refused (error : NameSetError) : Inserts builder name (builder, .error error)
  | known {id : NameId} (there : builder.names.lookup name = some id) :
      Inserts builder name (builder, .ok id)
  | new (absent : builder.names.lookup name = none) (nonempty : name ≠ [])
      (short : name.length ≤ maxNameBytes) (room : builder.names.length < maxNames) :
      Inserts builder name (builder.add name, .ok ⟨UInt16.ofNat builder.next⟩)

lemma insert_inserts (builder) (name : Bytes) : Inserts builder name (builder.insert name) := by
  unfold insert
  by_cases empty : name = []
  · rw [if_pos empty]
    exact .refused _
  rw [if_neg empty]
  split
  · exact .refused _
  split
  · exact .refused _
  rename_i short
  split
  · exact .known ‹_›
  · split
    · exact .refused _
    · rename_i room
      split
      · exact .refused _
      · exact .new ‹_› empty (Nat.le_of_not_lt short) (Nat.lt_of_not_le room)

/-! ## All calls -/

structure Interned (builder : NameSetBuilder)
    (answers : List (Bytes × Except NameSetError NameId)) : Prop where
  admissible : Admissible builder.names
  next : builder.next = builder.names.length
  ids : ∀ (index : Nat) (named : Bytes × NameId), builder.names[index]? = some named →
    named.2 = ⟨UInt16.ofNat index⟩
  order : builder.names.map Prod.fst = (accepted answers).eraseDups
  answered : ∀ name id, (name, .ok id) ∈ answers ↔ (name, id) ∈ builder.names

lemma interned_new : Interned new [] := by
  refine ⟨⟨nodup_nil, ?_, nofun, nofun⟩, rfl, nofun, rfl, ?_⟩
  · exact Nat.zero_le _
  · simp [new]

section Step

variable {builder : NameSetBuilder} {answers : List (Bytes × Except NameSetError NameId)}

lemma accepted_error (answers) (name : Bytes)
    (error) : accepted (answers ++ [(name, .error error)]) = accepted answers := by
  simp [accepted, Except.toOption]

lemma accepted_ok (answers) (name : Bytes)
    (id : NameId) : accepted (answers ++ [(name, .ok id)]) = accepted answers ++ [name] := by
  simp [accepted, Except.toOption]

section

variable (interned : Interned builder answers)

include interned

lemma Interned.mem_accepted_iff (name : Bytes) :
    name ∈ accepted answers ↔ name ∈ builder.names.map Prod.fst := by
  rw [interned.order, mem_eraseDups]

lemma Interned.refused (name : Bytes) (error) :
    Interned builder (answers ++ [(name, .error error)]) :=
  { interned with
    order := by rw [accepted_error, interned.order]
    answered := by
      intro other id
      rw [← interned.answered other id]
      simp }

lemma Interned.known (there : builder.names.lookup name = some id) :
    Interned builder (answers ++ [(name, .ok id)]) := by
  have mem := (lookup_eq_some_iff interned.admissible.nodup).mp there
  have isAccepted : name ∈ accepted answers :=
    (interned.mem_accepted_iff name).mpr (mem_map_of_mem mem)
  refine { interned with order := ?_, answered := ?_ }
  · rw [accepted_ok, eraseDups_append, interned.order]
    simp [removeAll, isAccepted]
  intro other otherId
  rw [mem_append, interned.answered other otherId, mem_singleton]
  constructor
  · rintro (old | same)
    · exact old
    · cases same
      exact mem
  · exact Or.inl

lemma Interned.add (absent : builder.names.lookup name = none) (nonempty : name ≠ [])
    (short : name.length ≤ maxNameBytes) (room : builder.names.length < maxNames) :
    Interned (builder.add name) (answers ++ [(name, .ok ⟨UInt16.ofNat builder.next⟩)]) := by
  have isNew := lookup_isNone_iff.mp (Option.isNone_iff_eq_none.mpr absent)
  have notAccepted : name ∉ accepted answers := mt (interned.mem_accepted_iff name).mp isNew
  have isNames : (builder.add name).names =
    builder.names ++ [(name, ⟨UInt16.ofNat builder.next⟩)] := rfl
  refine ⟨⟨?_, ?_, ?_, ?_⟩, ?_, ?_, ?_, ?_⟩
  · rw [isNames, map_append]
    exact interned.admissible.nodup.append (nodup_singleton _) (by simpa using isNew)
  · rw [isNames, length_append]
    exact room
  · rw [isNames]
    intro named mem
    rcases mem_append.mp mem with old | last
    · exact interned.admissible.short named old
    · rw [mem_singleton.mp last]
      exact short
  · rw [isNames]
    intro named mem
    rcases mem_append.mp mem with old | last
    · exact interned.admissible.nonempty named old
    · rw [mem_singleton.mp last]
      exact nonempty
  · rw [isNames, length_append]
    have isNext : (builder.add name).next = toU16 (builder.next + 1) := rfl
    rw [isNext, interned.next]
    unfold toU16
    unfold maxNames at room
    simp only [length_singleton]
    omega
  · rw [isNames]
    intro index named isNamed
    rw [getElem?_append] at isNamed
    split at isNamed
    · exact interned.ids index named isNamed
    rw [getElem?_singleton] at isNamed
    split at isNamed
    · cases isNamed
      have isIndex : builder.next = index := by
        rw [interned.next]
        omega
      rw [isIndex]
    · cases isNamed
  · rw [isNames, map_append, accepted_ok, eraseDups_append, interned.order]
    simp [removeAll, notAccepted, eraseDups_cons]
  · intro other otherId
    rw [isNames, mem_append, mem_append, interned.answered other otherId]
    simp

lemma Interned.call (name : Bytes) :
    Interned (NameSetBuilder.call (builder, answers) name).1
      (NameSetBuilder.call (builder, answers) name).2 := by
  unfold NameSetBuilder.call
  rcases isInsert : builder.insert name with ⟨next, answer⟩
  have inserts := insert_inserts builder name
  rw [isInsert] at inserts
  cases inserts with
  | refused error => exact interned.refused name error
  | known there => exact interned.known there
  | new absent nonempty short room => exact interned.add absent nonempty short room

end

end Step

lemma calls_interned (names) : Interned (calls names).1 (calls names).2 := by
  unfold calls
  induction names using reverseRecOn with
  | nil => exact interned_new
  | append_singleton names name induction =>
    rw [foldl_append, foldl_cons, foldl_nil]
    exact induction.call name

lemma ascending_perm (builder : NameSetBuilder) : builder.ascending.Perm builder.names :=
  perm_sortBy _ _

section Finished

variable {builder : NameSetBuilder} {answers : List (Bytes × Except NameSetError NameId)}

section

variable (interned : Interned builder answers)

include interned

lemma Interned.lookup_finish (name : Bytes) (id : NameId) :
    builder.finish.lookup name = some id ↔ (name, id) ∈ builder.names := by
  have admissible := interned.admissible.perm builder.ascending_perm
  rw [lookup_iff_mem_names admissible (finish_holds admissible)]
  exact builder.ascending_perm.mem_iff

lemma Interned.index_of_mem (mem : named ∈ builder.names) :
    builder.names[named.2.index.toNat]? = some named := by
  rcases getElem?_of_mem mem with ⟨index, isNamed⟩
  have inside := lt_of_getElem? isNamed
  have few := interned.admissible.few
  unfold maxNames at few
  have isIndex : (UInt16.ofNat index).toNat = index := UInt16.toNat_ofNat_of_lt' (by
    rw [UInt16.size]
    omega)
  rw [interned.ids index named isNamed, isIndex]
  exact isNamed

lemma Interned.eq_of_id_eq (isNamed : named ∈ builder.names) (isOther : other ∈ builder.names)
    (sameId : named.2 = other.2) : named = other := by
  have first := interned.index_of_mem isNamed
  rw [sameId, interned.index_of_mem isOther] at first
  exact (Option.some.inj first).symm

lemma Interned.nameOf_finish (hit : builder.finish.lookup name = some id) :
    builder.finish.nameOf id = some name := by
  have admissible := interned.admissible.perm builder.ascending_perm
  apply (finish_holds admissible).nameOf_of_lookup _ hit
  intro named isNamed other isOther sameId
  exact interned.eq_of_id_eq (builder.ascending_perm.mem_iff.mp isNamed)
    (builder.ascending_perm.mem_iff.mp isOther) sameId

lemma Interned.count_finish : builder.finish.count = (accepted answers).eraseDups.length := by
  have few := interned.admissible.few
  unfold maxNames at few
  have isCount : builder.finish.count = toU16 builder.names.length := rfl
  rw [isCount, ← interned.order, length_map]
  unfold toU16
  omega

lemma Interned.order_finish (index : Nat) (name : Bytes) :
    (accepted answers).eraseDups[index]? = some name ↔
      ∃ id, builder.finish.lookup name = some id ∧ id.index.toNat = index := by
  rw [← interned.order, getElem?_map, Option.map_eq_some_iff]
  constructor
  · rintro ⟨named, isNamed, rfl⟩
    have mem := mem_of_getElem? isNamed
    refine ⟨named.2, (interned.lookup_finish _ _).mpr mem, ?_⟩
    have there := interned.index_of_mem mem
    have inside := lt_of_getElem? there
    exact (getElem?_inj inside (List.Nodup.of_map _ interned.admissible.nodup)).mp
      (there.trans isNamed.symm)
  · rintro ⟨id, hit, rfl⟩
    have mem := (interned.lookup_finish _ _).mp hit
    exact ⟨(name, id), interned.index_of_mem mem, rfl⟩

lemma Interned.lookup_of_nameOf (isName : builder.finish.nameOf id = some name) :
    builder.finish.lookup name = some id := by
  have admissible := interned.admissible.perm builder.ascending_perm
  simp only [CompiledNameSet.nameOf, Option.bind_eq_bind, Option.bind_eq_some_iff] at isName
  rcases isName with ⟨entry, hit, isBytes⟩
  have hasId := find?_some hit
  have isId : entry.id = id := beq_iff_eq.mp hasId
  rw [lookup_iff_mem_names admissible (finish_holds admissible), ← isId]
  exact (finish_holds admissible).mem_of_entry (mem_of_find?_eq_some hit) isBytes

end

end Finished

/-- In a set from a builder every id below the count is the id of one name. -/
structure ExactNames (set : CompiledNameSet) : Prop where
  small : set.count ≤ maxNames
  nameOf_eq_some_iff : ∀ name id, set.nameOf id = some name ↔ set.lookup name = some id
  nameOf_isSome : ∀ id : NameId, id.index.toNat < set.count → (set.nameOf id).isSome
  below : ∀ name id, set.lookup name = some id → id.index.toNat < set.count

lemma ExactNames.eq_of_lookup_eq {set} (exact : ExactNames set)
    (isLeft : set.lookup left = some id) (isRight : set.lookup right = some id) : left = right := by
  rw [← exact.nameOf_eq_some_iff] at isLeft isRight
  exact Option.some.inj (isLeft.symm.trans isRight)

lemma exactNames_finish (names) : ExactNames (calls names).1.finish := by
  have interned := calls_interned names
  have order := interned.order_finish
  refine ⟨?_, ?_, ?_, ?_⟩
  · have isCount : (calls names).1.finish.count = toU16 (calls names).1.names.length := rfl
    have few := interned.admissible.few
    rw [isCount]
    unfold toU16
    omega
  · intro name id
    exact ⟨interned.lookup_of_nameOf, interned.nameOf_finish⟩
  · intro id inside
    rw [interned.count_finish] at inside
    rcases (order _ _).mp (getElem?_eq_getElem inside) with ⟨other, hit, sameIndex⟩
    have isId : other = id := by
      exact congrArg NameId.mk (UInt16.toNat_inj.mp sameIndex)
    rw [← isId, interned.nameOf_finish hit]
    rfl
  · intro name id hit
    rw [interned.count_finish]
    exact (List.getElem?_eq_some_iff.mp ((order _ _).mpr ⟨id, hit, rfl⟩)).1

/-- After any calls the finished set finds exactly the names that were accepted, under the ids
that were answered: the positions of the names in the order of their first acceptance. A call
that is refused leaves the builder as it was. -/
theorem interning_exact (names : List Bytes) :
    (∀ name id, (calls names).1.finish.lookup name = some id ↔ (name, .ok id) ∈ (calls names).2) ∧
    (calls names).1.finish.count = (accepted (calls names).2).eraseDups.length ∧
    (∀ (index : Nat) (name : Bytes), (accepted (calls names).2).eraseDups[index]? = some name ↔
      ∃ id, (calls names).1.finish.lookup name = some id ∧ id.index.toNat = index) ∧
    (∀ name id, (name, .ok id) ∈ (calls names).2 → (calls names).1.finish.nameOf id = some name) ∧
    ∀ name error, ((calls names).1.insert name).2 = .error error →
      ((calls names).1.insert name).1 = (calls names).1 := by
  have interned := calls_interned names
  refine ⟨?_, interned.count_finish, interned.order_finish, ?_, ?_⟩
  · intro name id
    rw [interned.lookup_finish, interned.answered]
  · intro name id isAnswer
    apply interned.nameOf_finish
    rw [interned.lookup_finish, ← interned.answered]
    exact isAnswer
  intro name error refused
  have inserts := insert_inserts (calls names).1 name
  rcases isInsert : (calls names).1.insert name with ⟨next, answer⟩
  rw [isInsert] at inserts refused
  cases inserts with
  | refused error => rfl
  | known | new => cases refused

end NameSetBuilder

end IronTraffic.Router
