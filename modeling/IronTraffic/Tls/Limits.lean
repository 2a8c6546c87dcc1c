import IronTraffic.Tls.ChallengeMap
import IronTraffic.Tls.Rebuild

/-! # Building an index within its limits

An index is built from entries with short names unless there are too many groups, too many
bytes of names, or names with one hash.
-/

namespace IronTraffic.Tls

open List

variable {hashing : Hashing} {heap : Heap}

structure IndexFits (groups : List Group) : Prop where
  few : groups.length ≤ maxIndexGroups
  arena : (groups.map fun group => group.name.length).sum ≤ maxNameArenaBytes

variable {groups : List Group} {arrays : Arrays} {group : Group} {builder : CertIndexBuilder}
  {generation : Nat} {index : CertIndex}

lemma indexGroups_free {hash} (free : CollisionFree hash (groups.map Group.name))
    (ordered : groups.Pairwise fun left right => left.nameKey < right.nameKey)
    {rest} {count : Nat} {maps} (within : ∀ group ∈ rest, group ∈ groups)
    (small : count + rest.length ≤ 2 ^ 32) (indexed : Indexed hash groups count maps)
    (dropped : groups.drop count = rest) :
    ∃ result, indexGroups hash groups (rest.zipIdx count) maps = .ok (some result) := by
  induction rest generalizing count maps with
  | nil => exact ⟨_, rfl⟩
  | cons group rest induction =>
    rcases drop_eq_cons dropped with ⟨here, dropNext⟩
    rw [length_cons] at small
    have withinNext : ∀ other ∈ rest, other ∈ groups := fun other mem =>
      within other (mem_cons_of_mem _ mem)
    rw [zipIdx_cons, indexGroups, if_neg (by omega)]
    cases occupied : (maps.of group.isWild).lookup (hash group.name) with
    | some existing =>
      rcases indexed.sound _ _ _ occupied with ⟨_, other, hit, _, sameHash⟩
      have sameName : other.name = group.name :=
        free other.name (mem_map_of_mem (mem_of_getElem? hit)) group.name
          (mem_map_of_mem (within group mem_cons_self)) sameHash
      exact absurd (by rw [hit, Option.map_some, sameName]) (indexed.apart ordered here occupied)
    | none => exact induction withinNext (by omega) (indexed.insert here occupied) dropNext

lemma internCreds_fits {set} (small : table.creds.length + rest.length ≤ 2 ^ 32) :
    ∃ interned, internCreds rest table set = .ok interned ∧
    interned.1.creds.length ≤ table.creds.length + rest.length := by
  induction rest generalizing table set with
  | nil => exact ⟨_, rfl, le_refl _⟩
  | cons next rest induction =>
    rw [length_cons] at small
    have one : ∃ interned, table.intern next.2 = .ok interned ∧
        interned.1.creds.length ≤ table.creds.length + 1 := by
      unfold CredTable.intern
      cases table.ptrToIdx.lookup next.2 with
      | some existing => exact ⟨_, rfl, Nat.le_succ _⟩
      | none =>
        rw [if_neg (by omega)]
        exact ⟨_, rfl, by simp⟩
    rcases one with ⟨first, interned, grown⟩
    have roomNext : first.1.creds.length + rest.length ≤ 2 ^ 32 := by omega
    rcases induction roomNext with ⟨result, gave, bound⟩
    refine ⟨result, ?_, ?_⟩
    · rw [internCreds, interned]
      exact gave
    · rw [length_cons]
      omega

/-- What the arrays leave for the groups that are still to be added. -/
structure Room (arrays : Arrays) (rest : List Group) : Prop where
  arena : arrays.names.length + (rest.map fun group => group.name.length).sum ≤ maxNameArenaBytes
  creds : arrays.table.creds.length + 4 * rest.length ≤ 2 ^ 32
  short : ∀ group ∈ rest, group.name.length < 2 ^ 16

lemma addGroup_fits (room : Room arrays (group :: rest)) :
    ∃ after, addGroup arrays group = .ok after ∧ Room after rest := by
  have arena := room.arena
  have creds := room.creds
  have short := room.short group mem_cons_self
  rw [map_cons, sum_cons] at arena
  rw [length_cons] at creds
  have four : (group.creds.take 4).length ≤ 4 := length_take_le 4 group.creds
  have roomHere : arrays.table.creds.length + (group.creds.take 4).length ≤ 2 ^ 32 := by omega
  rcases @internCreds_fits (group.creds.take 4) arrays.table [] roomHere with
    ⟨interned, gave, grown⟩
  have notLong : ¬maxNameArenaBytes < arrays.names.length + group.name.length := by omega
  have notFar : ¬2 ^ 32 ≤ arrays.names.length := by
    unfold maxNameArenaBytes at arena
    omega
  rw [addGroup, if_neg notLong, if_neg notFar, if_neg (not_le.mpr short), gave]
  refine ⟨_, rfl, ?_, ?_, fun other mem => room.short other (mem_cons_of_mem _ mem)⟩
  · show (arrays.names ++ group.name).length + _ ≤ _
    rw [length_append]
    omega
  · show interned.1.creds.length + _ ≤ _
    omega

lemma build_fits (inherits : builder.inheritedHasher = some inherited)
    (short : ∀ entry ∈ builder.entries, entry.name.length < 2 ^ 16)
    (fits : IndexFits (groupsOf heap builder.entries))
    (free : CollisionFree (hashing.sipHash inherited)
      ((groupsOf heap builder.entries).map Group.name))
    (entropy) (generation : Nat) :
    ∃ index, builder.buildWithGeneration hashing heap entropy generation = .ok index := by
  have few := fits.few
  have grouping := grouping_groupsOf heap builder.entries
  have shortGroups : ∀ group ∈ groupsOf heap builder.entries, group.name.length < 2 ^ 16 := by
    intro group mem
    rcases grouping.inhabited group mem with ⟨entry, present, key⟩
    rw [← (nameKey_inj.mp key).2]
    exact short entry ((perm_sortBy (sortKey heap) builder.entries).mem_iff.mp present)
  have room : Room .empty (groupsOf heap builder.entries) := by
    refine ⟨?_, ?_, shortGroups⟩
    · simpa [Arrays.empty] using fits.arena
    · unfold maxIndexGroups at few
      simp only [Arrays.empty, length_nil]
      omega
  rcases exists_foldlM Room (fun _ _ _ => addGroup_fits) room with ⟨arrays, added, _⟩
  have small : 0 + (groupsOf heap builder.entries).length ≤ 2 ^ 32 := by
    unfold maxIndexGroups at few
    omega
  rcases indexGroups_free free grouping.ordered (fun _ mem => mem) small (indexed_empty _ _) rfl
    with ⟨maps, hashed⟩
  rw [CertIndexBuilder.buildWithGeneration, inherits]
  show ∃ index, (if maxIndexGroups < (groupsOf heap builder.entries).length then _ else _) =
    Except.ok index
  rw [if_neg (not_lt.mpr few), buildAttempts]
  show ∃ index, (indexGroups (hashing.sipHash inherited) (groupsOf heap builder.entries)
    (groupsOf heap builder.entries).zipIdx ⟨[], []⟩ >>= _) = Except.ok index
  rw [hashed]
  show ∃ index, buildIndexFinish (groupsOf heap builder.entries) maps inherited
    builder.defaultCred generation = .ok index
  rw [buildIndexFinish, added]
  exact ⟨_, rfl⟩

lemma short_of_build
    (gave : builder.buildWithGeneration hashing heap entropy generation = .ok index) :
    ∀ entry ∈ index.rebuildEntries, entry.name.length < 2 ^ 16 := by
  have built := (built_of_build gave).1
  rw [built.rebuildEntries]
  intro entry mem
  rcases mem_flatMap.mp mem with ⟨group, present, inside⟩
  rcases mem_map.mp inside with ⟨cred, _, rfl⟩
  rcases built.stored with ⟨pointers, stored⟩
  exact stored.short group present

end IronTraffic.Tls
