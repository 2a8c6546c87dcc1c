import IronTraffic.Foundation.Keyed
import IronTraffic.Router.NameArena

/-! # Looking up interned names

A finished set finds exactly the names that were inserted, each under its id.
-/

namespace IronTraffic.Router

open List

/-! ## The scans -/

variable {disc len : Nat} {key : UInt8} {entries : List NameEntry} {bucket : LenBucket}
  {names : List (Bytes × NameId)}

section Scans

variable {set : CompiledNameSet} {name : Bytes} {id : NameId}

lemma scanBucket_sound {bucket} (hit : set.scanBucket name disc key bucket = some id) :
    ∃ entry ∈ bucket, set.entryBytes entry = some name ∧ entry.id = id := by
  induction bucket with
  | nil => cases hit
  | cons entry bucket induction =>
    rw [exists_mem_cons_iff]
    unfold CompiledNameSet.scanBucket at hit
    split at hit
    · exact .inr (induction hit)
    rename_i bytes isBytes
    split at hit
    · exact .inr (induction hit)
    · split at hit
      · cases hit
      · split at hit
        · rename_i same
          cases hit
          exact .inl ⟨same.2 ▸ isBytes, rfl⟩
        · exact .inr (induction hit)

lemma scanLong_sound (hit : set.scanLong name entries = some id) :
    ∃ entry ∈ entries, set.entryBytes entry = some name ∧ entry.id = id := by
  induction entries with
  | nil => cases hit
  | cons entry entries induction =>
    rw [exists_mem_cons_iff]
    unfold CompiledNameSet.scanLong at hit
    split at hit
    · cases hit
    split at hit
    · exact .inr (induction hit)
    split at hit
    · exact .inr (induction hit)
    · rename_i bytes isBytes
      split at hit
      · rename_i same
        cases hit
        exact .inl ⟨same ▸ isBytes, rfl⟩
      · exact .inr (induction hit)

lemma scanBucket_complete (spelled : List.Forall₂ (Spells set.blob) entries bucket)
    (inside : ∀ named ∈ bucket, disc < named.1.length) (proper : disc ≠ noDisc)
    (sorted : bucket.Pairwise fun left right => discSortKey left.1 disc ≤ discSortKey right.1 disc)
    (nodup : (bucket.map Prod.fst).Nodup) (mem : (name, id) ∈ bucket)
    (isKey : name[disc]? = some key) : set.scanBucket name disc key entries = some id := by
  induction spelled with
  | nil => cases mem
  | @cons entry named entries bucket spells _ induction =>
    rw [pairwise_cons] at sorted
    rw [map_cons, nodup_cons] at nodup
    have isByte := getElem?_eq_getElem (inside named mem_cons_self)
    have keyOf : ∀ other : Bytes × NameId, ∀ byte, other.1[disc]? = some byte →
        discSortKey other.1 disc = byte := by
      intro other byte isOther
      rw [discSortKey, if_neg proper, isOther]
      rfl
    have isSpelled : set.entryBytes entry = some named.1 := spells.1
    simp only [CompiledNameSet.scanBucket, isSpelled, isByte]
    rcases mem_cons.mp mem with isFirst | later
    · subst isFirst
      have sameKey := Option.some.inj (isByte.symm.trans isKey)
      rw [sameKey, if_neg (UInt8.lt_irrefl key), if_pos ⟨rfl, rfl⟩, spells.2.1]
    have order := sorted.1 (name, id) later
    rw [keyOf named _ isByte, keyOf (name, id) key isKey] at order
    have otherName : named.1 ≠ name := by
      intro same
      exact nodup.1 (same ▸ mem_map_of_mem later)
    rw [if_neg (UInt8.not_lt.mpr order), if_neg (fun both => otherName both.2)]
    exact induction (fun other isOther => inside other (mem_cons_of_mem _ isOther))
      sorted.2 nodup.2 later

lemma scanLong_complete (spelled : List.Forall₂ (Spells set.blob) entries bucket)
    (sorted : bucket.Pairwise fun left right => left.1.length ≤ right.1.length)
    (nodup : (bucket.map Prod.fst).Nodup) (mem : (name, id) ∈ bucket) :
    set.scanLong name entries = some id := by
  induction spelled with
  | nil => cases mem
  | @cons entry named entries bucket spells _ induction =>
    rw [pairwise_cons] at sorted
    rw [map_cons, nodup_cons] at nodup
    have isSpelled : set.entryBytes entry = some named.1 := spells.1
    unfold CompiledNameSet.scanLong
    rcases mem_cons.mp mem with isFirst | later
    · subst isFirst
      rw [spells.2.2, if_neg (lt_irrefl _), if_neg (not_not.mpr rfl)]
      simp only [isSpelled, if_true]
      rw [spells.2.1]
    have order : named.1.length ≤ name.length := sorted.1 (name, id) later
    have otherName : named.1 ≠ name := by
      intro same
      exact nodup.1 (same ▸ mem_map_of_mem later)
    have hit := induction sorted.2 nodup.2 later
    rw [spells.2.2, if_neg (by omega)]
    split
    · exact hit
    · simp only [isSpelled, otherName, if_false]
      exact hit

end Scans

/-! ## Sorting the names into their buckets -/

section Placing

open NameSetBuilder

lemma placeNames_spec (names : List (Bytes × NameId)) (all : placed.1.length = lenBuckets) :
    (names.foldl placeName placed).1.length = lenBuckets ∧
      (∀ len < lenBuckets, ((names.foldl placeName placed).1[len]?).getD [] =
        (placed.1[len]?).getD [] ++ names.filter fun named => named.1.length = len) ∧
      (names.foldl placeName placed).2 =
        placed.2 ++ names.filter fun named => lenBuckets ≤ named.1.length := by
  induction names generalizing placed with
  | nil => simp [all]
  | cons named names induction =>
    rw [foldl_cons]
    have next : (placeName placed named).1.length = lenBuckets := by
      unfold placeName
      split
      · exact (length_modify ..).trans all
      · exact all
    rcases induction next with ⟨length, buckets, long⟩
    refine ⟨length, ?_, ?_⟩
    · intro len inside
      have isBucket := getElem?_eq_getElem (all ▸ inside : len < placed.1.length)
      rw [buckets len inside, filter_cons]
      unfold placeName
      by_cases short : named.1.length < lenBuckets
      · rw [if_pos short]
        simp only [getElem?_modify, isBucket]
        by_cases isLen : named.1.length = len
        · simp [isLen]
        · simp [isLen]
      · have notLen : named.1.length ≠ len := by omega
        rw [if_neg short]
        simp [notLen]
    · rw [long, filter_cons]
      unfold placeName
      by_cases short : named.1.length < lenBuckets
      · simp [short]
      · simp [short, Nat.le_of_not_lt short]

lemma byLength_spec (names) :
    (byLength names).1.length = lenBuckets ∧
      (∀ len < lenBuckets, ((byLength names).1[len]?).getD [] =
        names.filter fun named => named.1.length = len) ∧
      (byLength names).2 = names.filter fun named => lenBuckets ≤ named.1.length := by
  have none : (List.replicate lenBuckets ([] : LenBucket)).length = lenBuckets :=
    length_replicate ..
  rcases @placeNames_spec (List.replicate lenBuckets [], []) names none with
    ⟨length, buckets, long⟩
  refine ⟨length, ?_, long⟩
  intro len inside
  refine (buckets len inside).trans ?_
  simp [inside]

end Placing

/-! ## Finished sets -/

/-- The names of a builder: no name twice, and few of them, none of them too long. -/
structure Admissible (names : List (Bytes × NameId)) : Prop where
  nodup : (names.map Prod.fst).Nodup
  few : names.length ≤ maxNames
  short : ∀ named ∈ names, named.1.length ≤ maxNameBytes
  nonempty : ∀ named ∈ names, named.1 ≠ []

lemma Admissible.perm {others} (admissible : Admissible names)
    (perm : others.Perm names) : Admissible others where
  nodup := (perm.map Prod.fst).nodup_iff.mpr admissible.nodup
  few := perm.length_eq ▸ admissible.few
  short := fun named mem => admissible.short named (perm.mem_iff.mp mem)
  nonempty := fun named mem => admissible.nonempty named (perm.mem_iff.mp mem)

def CompiledNameSet.fastArrays (set : CompiledNameSet) : FastArrays :=
  ⟨set.lenBits, set.discAt, set.buckets, set.entries, set.firstFilter, set.lastFilter⟩

structure Holds (set : CompiledNameSet) (names : List (Bytes × NameId)) : Prop where
  spelled : ∀ entry ∈ set.entries ++ set.long, ∃ named ∈ names, Spells set.blob entry named
  buckets : ∀ len < lenBuckets, (names.filter fun named => named.1.length = len) ≠ [] →
    BucketBuilt set.fastArrays set.blob (names.filter fun named => named.1.length = len) len
  long : List.Forall₂ (Spells set.blob) set.long
    (sortBy NameSetBuilder.longRank (names.filter fun named => lenBuckets ≤ named.1.length))

lemma BucketBuilt.append (built : BucketBuilt arrays blob bucket len) (more : Bytes) :
    BucketBuilt arrays (blob ++ more) bucket len := by
  rcases built.spelled with ⟨start, entries, extent, sliced, spells⟩
  exact { built with
    spelled := ⟨start, entries, extent, sliced, spells.imp fun _ _ spell => spell.append more⟩ }

lemma buildFastArrays_of_admissible (admissible : Admissible names) :
    Built (fun len =>
        if len < lenBuckets then names.filter fun named => named.1.length = len else [])
      lenBuckets (buildFastArrays (NameSetBuilder.byLength names).1 []) := by
  rcases byLength_spec names with ⟨all, buckets, _⟩
  have isBucket : (fun len => ((NameSetBuilder.byLength names).1[len]?).getD []) =
      fun len => if len < lenBuckets then names.filter fun named => named.1.length = len
        else [] := by
    funext len
    by_cases inside : len < lenBuckets
    · rw [if_pos inside]
      exact buckets len inside
    · rw [if_neg inside, getElem?_eq_none (by omega)]
      rfl
  rw [← isBucket]
  apply buildFastArrays_built all
  · intro len named mem
    rw [congrFun isBucket len] at mem
    split at mem
    · exact of_decide_eq_true (mem_filter.mp mem).2
    · cases mem
  · intro len
    rw [congrFun isBucket len]
    split
    · exact le_trans (length_filter_le ..) admissible.few
    · exact Nat.zero_le _

lemma finish_holds {builder : NameSetBuilder} (admissible : Admissible builder.ascending) :
    Holds builder.finish builder.ascending := by
  have built := buildFastArrays_of_admissible admissible
  rcases byLength_spec builder.ascending with ⟨_, _, long⟩
  have perm := perm_sortBy NameSetBuilder.longRank
    (NameSetBuilder.byLength builder.ascending).2
  have fromNames : ∀ named ∈ sortBy NameSetBuilder.longRank
      (NameSetBuilder.byLength builder.ascending).2, named ∈ builder.ascending := by
    intro named mem
    rw [perm.mem_iff, long] at mem
    exact (mem_filter.mp mem).1
  have short := fun named mem => admissible.short named (fromNames named mem)
  have few : (sortBy NameSetBuilder.longRank
      (NameSetBuilder.byLength builder.ascending).2).length ≤ maxNames := by
    rw [perm.length_eq, long]
    exact le_trans (length_filter_le ..) admissible.few
  have total := le_trans (sum_lengths_le short) (Nat.mul_le_mul_right maxNameBytes few)
  have fastBlob := built.blob_le
  rcases pushEntries_spell _ [] (buildFastArrays (NameSetBuilder.byLength builder.ascending).1 []).2
      (fun named mem => lt_of_le_of_lt (short named mem) (by decide))
      (by unfold lenBuckets maxFastNameLen maxNames maxNameBytes at *; omega) with
    ⟨pushed, longPushed, blobGrown, spelled⟩
  have isLong : builder.finish.long = pushed := longPushed
  have isBlob : builder.finish.blob = _ ++ _ := blobGrown
  have isSpelled : List.Forall₂ (Spells builder.finish.blob) pushed _ := spelled
  refine ⟨?_, ?_, ?_⟩
  · intro entry mem
    rcases mem_append.mp mem with isFast | isLongEntry
    · rcases built.spelled entry isFast with ⟨len, inside, named, isNamed, spells⟩
      rw [if_pos inside] at isNamed
      refine ⟨named, (mem_filter.mp isNamed).1, ?_⟩
      rw [isBlob]
      exact spells.append _
    · rw [isLong] at isLongEntry
      rcases exists_of_forall₂ isSpelled isLongEntry with ⟨named, isNamed, spells⟩
      exact ⟨named, fromNames named isNamed, spells⟩
  · intro len inside some
    have bucket := built.buckets len inside (by rwa [if_pos inside])
    rw [if_pos inside] at bucket
    have extended := bucket.append (sortBy NameSetBuilder.longRank
      (NameSetBuilder.byLength builder.ascending).2 |>.map Prod.fst).flatten
    rwa [← isBlob] at extended
  · rw [← long, isLong]
    exact isSpelled

/-! ## Exactness -/

section Exactness

variable {set : CompiledNameSet} {name : Bytes} {id : NameId}

lemma Holds.mem_of_entry (holds : Holds set names) (mem : entry ∈ set.entries ++ set.long)
    (isName : set.entryBytes entry = some name) : (name, entry.id) ∈ names := by
  rcases holds.spelled entry mem with ⟨named, isNamed, isSpelled, isId, _⟩
  have same : name = named.1 := Option.some.inj (isName.symm.trans isSpelled)
  rw [same, isId]
  exact isNamed

lemma entry_of_lookupBucket (hit : set.lookupBucket name = some id) :
    ∃ entry ∈ set.entries ++ set.long, set.entryBytes entry = some name ∧ entry.id = id := by
  have fromEntries : ∀ start stop bucket, slice set.entries start stop = some bucket →
      ∀ entry ∈ bucket, entry ∈ set.entries ++ set.long := by
    intro start stop bucket sliced entry mem
    exact mem_append_left _ (mem_of_slice sliced mem)
  simp only [CompiledNameSet.lookupBucket, Option.bind_eq_bind, Option.bind_eq_some_iff] at hit
  rcases hit with ⟨extent, _, disc, _, bucket, sliced, hit⟩
  split at hit
  · simp only [Option.bind_eq_some_iff] at hit
    rcases hit with ⟨entry, isHead, bytes, isBytes, hit⟩
    split at hit
    · rename_i same
      cases hit
      exact ⟨entry, fromEntries _ _ _ sliced entry (mem_of_mem_head? isHead), same ▸ isBytes, rfl⟩
    · cases hit
  · simp only [Option.bind_eq_some_iff] at hit
    rcases hit with ⟨key, _, hit⟩
    rcases scanBucket_sound hit with ⟨entry, mem, isEntry⟩
    exact ⟨entry, fromEntries _ _ _ sliced entry mem, isEntry⟩

lemma entry_of_lookup (hit : set.lookup name = some id) :
    ∃ entry ∈ set.entries ++ set.long, set.entryBytes entry = some name ∧ entry.id = id := by
  unfold CompiledNameSet.lookup at hit
  split at hit
  · rcases scanLong_sound hit with ⟨entry, mem, isEntry⟩
    exact ⟨entry, mem_append_right _ mem, isEntry⟩
  simp only [Option.bind_eq_bind, Option.bind_eq_some_iff, Option.ite_none_left_eq_some] at hit
  rcases hit with ⟨_, first, _, last, _, firstBits, _, _, lastBits, _, _, hit⟩
  exact entry_of_lookupBucket hit

lemma Holds.mem_of_lookup (holds : Holds set names) (hit : set.lookup name = some id) :
    (name, id) ∈ names := by
  rcases entry_of_lookup hit with ⟨entry, mem, isName, rfl⟩
  exact holds.mem_of_entry mem isName

lemma Holds.nameOf_of_lookup (holds : Holds set names)
    (sameId : ∀ named ∈ names, ∀ other ∈ names, named.2 = other.2 → named = other)
    (hit : set.lookup name = some id) : set.nameOf id = some name := by
  rcases entry_of_lookup hit with ⟨entry, mem, isName, isId⟩
  have isSome : ((set.entries ++ set.long).find? fun entry => entry.id == id).isSome := by
    rw [find?_isSome]
    exact ⟨entry, mem, beq_iff_eq.mpr isId⟩
  rcases Option.isSome_iff_exists.mp isSome with ⟨other, isOther⟩
  have hasId := find?_some isOther
  have otherId : other.id = id := beq_iff_eq.mp hasId
  rcases holds.spelled other (mem_of_find?_eq_some isOther) with
    ⟨named, isNamed, isSpelled, namedId, _⟩
  have same := sameId named isNamed (name, id) (holds.mem_of_lookup hit)
    (namedId.symm.trans otherId)
  simp only [CompiledNameSet.nameOf, isOther, Option.bind_eq_bind, Option.bind_some]
  exact isSpelled.trans (congrArg (fun named => some named.1) same)

lemma lookupLong_complete (admissible : Admissible names) (holds : Holds set names)
    (mem : (name, id) ∈ names) (long : lenBuckets ≤ name.length) :
    set.lookupLong name = some id := by
  have perm := perm_sortBy NameSetBuilder.longRank
    (names.filter fun named => lenBuckets ≤ named.1.length)
  apply scanLong_complete holds.long
  · apply (sorted_sortBy _ _).imp
    intro left right order
    rcases Prod.Lex.le_iff.mp order with shorter | ⟨same, _⟩
    · exact le_of_lt shorter
    · exact le_of_eq same
  · rw [(perm.map Prod.fst).nodup_iff]
    exact admissible.nodup.sublist (filter_sublist.map _)
  · rw [perm.mem_iff]
    exact mem_filter.mpr ⟨mem, decide_eq_true long⟩

lemma lookupBucket_complete (short : len < lenBuckets)
    (lengths : ∀ named ∈ bucket, named.1.length = len) (nodup : (bucket.map Prod.fst).Nodup)
    (built : BucketBuilt set.fastArrays set.blob bucket len) (mem : (name, id) ∈ bucket) :
    set.lookupBucket name = some id := by
  have isLen : name.length = len := lengths _ mem
  have perm := perm_sortBy (bucketRank (chooseDisc bucket)) bucket
  rcases chooseDisc_spec lengths short nodup with ⟨single, proper⟩
  rcases built.spelled with ⟨start, entries, extent, sliced, spells⟩
  have sortedMember := perm.mem_iff.mpr mem
  have isDisc : set.discAt[len]? = some (chooseDisc bucket) := built.disc
  have isExtent : set.buckets[len]? = some (start, bucket.length) := extent
  have isSlice : slice set.entries start (start + bucket.length) = some entries := sliced
  simp only [CompiledNameSet.lookupBucket, isLen, isExtent, isDisc, isSlice, Option.bind_eq_bind,
    Option.bind_some]
  by_cases none : chooseDisc bucket = noDisc
  · rw [if_pos none]
    have one : bucket = [(name, id)] := by
      have few := single none
      match bucket, mem with
      | [only], isOnly => rw [mem_singleton.mp isOnly]
    have isSorted : sortBy (bucketRank (chooseDisc bucket)) bucket = [(name, id)] :=
      perm_singleton.mp (perm.trans (List.Perm.of_eq one))
    rw [isSorted] at spells
    rcases spells with _ | ⟨spell, rest⟩
    have isBytes : set.entryBytes _ = some name := spell.1
    simp only [head?_cons, Option.bind_some, isBytes, if_true]
    exact congrArg some spell.2.1
  · rw [if_neg none]
    have inside := proper none
    have isKey := getElem?_eq_getElem (isLen.symm ▸ inside : chooseDisc bucket < name.length)
    rw [isKey, Option.bind_some]
    apply scanBucket_complete spells _ none _ _ sortedMember isKey
    · intro named isNamed
      rw [lengths named (perm.mem_iff.mp isNamed)]
      exact inside
    · apply (sorted_sortBy _ _).imp
      intro left right order
      rcases Prod.Lex.le_iff.mp order with smaller | ⟨same, _⟩
      · exact UInt8.le_iff_toNat_le.mpr (le_of_lt smaller)
      · exact UInt8.le_iff_toNat_le.mpr (le_of_eq same)
    · exact (perm.map Prod.fst).nodup_iff.mpr nodup

lemma lookup_iff_mem_names (admissible : Admissible names) (holds : Holds set names) :
    set.lookup name = some id ↔ (name, id) ∈ names := by
  refine ⟨holds.mem_of_lookup, ?_⟩
  intro mem
  unfold CompiledNameSet.lookup
  by_cases long : maxFastNameLen < name.length
  · rw [if_pos long]
    exact lookupLong_complete admissible holds mem long
  have short : name.length < lenBuckets := Nat.lt_succ_of_le (Nat.le_of_not_lt long)
  have isMember : (name, id) ∈ names.filter fun named => named.1.length = name.length :=
    mem_filter.mpr ⟨mem, decide_eq_true rfl⟩
  have built := holds.buckets name.length short (ne_nil_of_mem isMember)
  have isReferenced : lenIsReferenced set.lenBits name.length = true := built.referenced
  rcases built.first with ⟨firstBits, firstAt, firstSet⟩
  rcases built.last with ⟨lastBits, lastAt, lastSet⟩
  have nonempty : name ≠ [] := admissible.nonempty _ mem
  have isFirst := head?_eq_some_head nonempty
  have isLast := getLast?_eq_some_getLast nonempty
  have isFirstAt : set.firstFilter[name.length]? = some firstBits := firstAt
  have isLastAt : set.lastFilter[name.length]? = some lastBits := lastAt
  rw [if_neg long, isReferenced, if_neg (by simp)]
  simp only [isFirst, isLast, isFirstAt, isLastAt, Option.bind_eq_bind, Option.bind_some,
    firstSet _ isMember _ isFirst, lastSet _ isMember _ isLast, not_true_eq_false, if_false]
  apply lookupBucket_complete short _ _ built isMember
  · intro named isNamed
    exact of_decide_eq_true (mem_filter.mp isNamed).2
  · exact admissible.nodup.sublist (filter_sublist.map _)

end Exactness

end IronTraffic.Router
