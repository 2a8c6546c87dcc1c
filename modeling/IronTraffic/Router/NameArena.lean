import IronTraffic.Router.Names

/-! # The arenas of a set of names

What the arrays of a finished set hold: the bitmaps, the entries and their bytes, and the bucket
of every length.
-/

namespace IronTraffic.Router

open List

/-! ## Bitmaps -/

lemma and_shiftLeft_ne_zero (word spot : Nat) :
    (word &&& (1 <<< spot) != 0) = word.testBit spot := by
  rw [Nat.one_shiftLeft, Nat.and_two_pow]
  cases word.testBit spot <;> simp

lemma lenIsReferenced_insert (lenBits len n : Nat) :
    lenIsReferenced (lenBits ||| (1 <<< len)) n =
      (lenIsReferenced lenBits n || decide (len = n)) := by
  unfold lenIsReferenced
  rw [and_shiftLeft_ne_zero, and_shiftLeft_ne_zero, Nat.testBit_or, Nat.one_shiftLeft,
    Nat.testBit_two_pow]

lemma byte_word_lt (byte : UInt8) : byte.toNat / 64 < 4 := by
  have small := byte.toNat_lt
  omega

lemma length_setBit (bits : List Nat) (byte : UInt8) : (setBit bits byte).length = bits.length :=
  length_modify ..

variable {bits : List Nat} {byte : UInt8} {byteOf : Bytes → Option UInt8} {named : Bytes × NameId}
  {bucket : LenBucket} {blob : Bytes} {len : Nat} {byLen : Nat → LenBucket}
  {arrays : FastArrays × Bytes}

lemma bitTest_setBit_self (four : bits.length = 4) (byte : UInt8) :
    bitTest (setBit bits byte) byte = true := by
  have inside : byte.toNat / 64 < bits.length := by
    rw [four]
    exact byte_word_lt byte
  rw [bitTest, setBit, getElem?_modify, getElem?_eq_getElem inside]
  simp only [Option.map_eq_map, Option.map_some, if_true]
  rw [and_shiftLeft_ne_zero, Nat.testBit_or, Nat.one_shiftLeft, Nat.testBit_two_pow]
  simp

lemma bitTest_setBit_of (isSet : bitTest bits other = true) :
    bitTest (setBit bits byte) other = true := by
  unfold bitTest at isSet
  rw [bitTest, setBit, getElem?_modify]
  cases word : bits[other.toNat / 64]? with
  | none =>
    rw [word] at isSet
    cases isSet
  | some value =>
    rw [word] at isSet
    simp only [Option.map_eq_map, Option.map_some] at isSet ⊢
    rw [and_shiftLeft_ne_zero] at isSet ⊢
    split
    · rw [Nat.testBit_or, isSet, Bool.true_or]
    · exact isSet

lemma length_markByte (byteOf) (bits : List Nat)
    (named) : (markByte byteOf bits named).length = bits.length := by
  unfold markByte
  split
  · exact length_setBit ..
  · rfl

lemma bitTest_marks (names : LenBucket) (isSet : bitTest bits byte = true) :
    bitTest (names.foldl (markByte byteOf) bits) byte = true := by
  induction names generalizing bits with
  | nil => exact isSet
  | cons named names induction =>
    apply induction
    unfold markByte
    split
    · exact bitTest_setBit_of isSet
    · exact isSet

lemma bitTest_marks_of_mem {names : LenBucket} (mem : named ∈ names)
    (isByte : byteOf named.1 = some byte) (four : bits.length = 4) :
    bitTest (names.foldl (markByte byteOf) bits) byte = true := by
  induction names generalizing bits with
  | nil => exact absurd mem not_mem_nil
  | cons first names induction =>
    rw [foldl_cons]
    rcases mem_cons.mp mem with isFirst | later
    · apply bitTest_marks
      rw [markByte, ← isFirst, isByte]
      exact bitTest_setBit_self four byte
    · exact induction later ((length_markByte ..).trans four)

lemma bitTest_filterBits (mem : named ∈ bucket) (isByte : byteOf named.1 = some byte) :
    bitTest (filterBits byteOf bucket) byte = true :=
  bitTest_marks_of_mem mem isByte rfl

/-! ## Entries and their bytes -/

def Spells (blob : Bytes) (entry : NameEntry) (named : Bytes × NameId) : Prop :=
  slice blob entry.off (entry.off + entry.len) = some named.1 ∧ entry.id = named.2 ∧
    entry.len = named.1.length

lemma Spells.append (spells : Spells blob entry named) (more : Bytes) :
    Spells (blob ++ more) entry named :=
  ⟨slice_append_of_eq_some spells.1 more, spells.2⟩

lemma pushEntries_spell (names : List (Bytes × NameId)) (entries)
    (blob : Bytes) (short : ∀ named ∈ names, named.1.length < 2 ^ 16)
    (room : blob.length + (names.map fun named => named.1.length).sum < 2 ^ 32) :
    ∃ pushed, (names.foldl pushEntry (entries, blob)).1 = entries ++ pushed ∧
      (names.foldl pushEntry (entries, blob)).2 = blob ++ (names.map Prod.fst).flatten ∧
      List.Forall₂ (Spells (names.foldl pushEntry (entries, blob)).2) pushed names := by
  induction names generalizing entries blob with
  | nil => exact ⟨[], by simp⟩
  | cons named names induction =>
    have shortNamed := short named mem_cons_self
    rw [map_cons, sum_cons] at room
    have later := induction (entries ++
        [⟨toU32 blob.length, toU16 named.1.length, named.2⟩]) (blob ++ named.1)
      (fun other mem => short other (mem_cons_of_mem _ mem))
      (by rw [length_append]; omega)
    rcases later with ⟨pushed, allEntries, allBytes, spelled⟩
    have offset : toU32 blob.length = blob.length := min_eq_left (by omega)
    have length : toU16 named.1.length = named.1.length := min_eq_left (by omega)
    have first : Spells (blob ++ named.1) ⟨toU32 blob.length, toU16 named.1.length,
        named.2⟩ named := by
      refine ⟨?_, rfl, length⟩
      simp only [offset, length]
      exact slice_append blob named.1
    refine ⟨⟨toU32 blob.length, toU16 named.1.length, named.2⟩ :: pushed, ?_, ?_, ?_⟩
    · rw [foldl_cons]
      exact allEntries.trans (by simp)
    · rw [foldl_cons]
      exact allBytes.trans (by simp)
    · rw [foldl_cons]
      refine List.Forall₂.cons ?_ spelled
      have grown : (names.foldl pushEntry (pushEntry (entries, blob) named)).2 =
          blob ++ named.1 ++ (names.map Prod.fst).flatten := allBytes
      rw [grown]
      exact first.append _

lemma exists_of_forall₂ {relates} {lefts : List Left} {rights : List Right}
    (related : List.Forall₂ relates lefts rights) {left : Left} (mem : left ∈ lefts) :
    ∃ right ∈ rights, relates left right := by
  induction related with
  | nil => cases mem
  | cons first _ induction =>
    rcases mem_cons.mp mem with rfl | later
    · exact ⟨_, mem_cons_self, first⟩
    · rcases induction later with ⟨right, isRight, holds⟩
      exact ⟨right, mem_cons_of_mem _ isRight, holds⟩

/-! ## The bucket of every length -/

structure BucketBuilt (arrays : FastArrays) (blob : Bytes) (bucket : LenBucket) (len : Nat) :
    Prop where
  referenced : lenIsReferenced arrays.lenBits len = true
  disc : arrays.discAt[len]? = some (chooseDisc bucket)
  spelled : ∃ start entries, arrays.buckets[len]? = some (start, bucket.length) ∧
    slice arrays.entries start (start + bucket.length) = some entries ∧
    List.Forall₂ (Spells blob) entries (sortBy (bucketRank (chooseDisc bucket)) bucket)
  first : ∃ bits, arrays.firstFilter[len]? = some bits ∧
    ∀ named ∈ bucket, ∀ byte, named.1.head? = some byte → bitTest bits byte = true
  last : ∃ bits, arrays.lastFilter[len]? = some bits ∧
    ∀ named ∈ bucket, ∀ byte, named.1.getLast? = some byte → bitTest bits byte = true

/-- The arrays hold the buckets of the lengths below `done`. -/
structure Built (byLen : Nat → LenBucket) (done : Nat) (arrays : FastArrays × Bytes) : Prop where
  discAt_length : arrays.1.discAt.length = lenBuckets
  buckets_length : arrays.1.buckets.length = lenBuckets
  firstFilter_length : arrays.1.firstFilter.length = lenBuckets
  lastFilter_length : arrays.1.lastFilter.length = lenBuckets
  blob_le : arrays.2.length ≤ done * (maxNames * maxFastNameLen)
  entries_le : arrays.1.entries.length ≤ done * maxNames
  spelled : ∀ entry ∈ arrays.1.entries,
    ∃ len < done, ∃ named ∈ byLen len, Spells arrays.2 entry named
  buckets : ∀ len < done, byLen len ≠ [] → BucketBuilt arrays.1 arrays.2 (byLen len) len

lemma built_empty (byLen) : Built byLen 0 (FastArrays.empty, []) := by
  constructor <;> simp [FastArrays.empty]

lemma sum_lengths_le {names : List (Bytes × NameId)}
    (short : ∀ named ∈ names, named.1.length ≤ bound) :
    (names.map fun named => named.1.length).sum ≤ names.length * bound := by
  have each : ∀ length ∈ names.map (fun named => named.1.length), length ≤ bound := by
    intro length mem
    rcases mem_map.mp mem with ⟨named, isMember, rfl⟩
    exact short named isMember
  have sum := sum_le_card_nsmul _ _ each
  rwa [length_map, smul_eq_mul] at sum

lemma BucketBuilt.keep {arrays later : FastArrays} (built : BucketBuilt arrays blob bucket len)
    (differ : other ≠ len) {disc : Nat}
    (isLater : later = ⟨arrays.lenBits ||| (1 <<< other), arrays.discAt.set other disc,
      arrays.buckets.set other extent, arrays.entries ++ entries,
      arrays.firstFilter.set other firstBits, arrays.lastFilter.set other lastBits⟩) :
    BucketBuilt later (blob ++ more) bucket len := by
  subst isLater
  rcases built.spelled with ⟨start, spelled, extentAt, sliced, spells⟩
  rcases built.first with ⟨first, firstAt, firstSet⟩
  rcases built.last with ⟨last, lastAt, lastSet⟩
  refine
    { referenced := ?_
      disc := ?_
      spelled := ⟨start, spelled, ?_, slice_append_of_eq_some sliced _,
        spells.imp fun _ _ spell => spell.append more⟩
      first := ⟨first, ?_, firstSet⟩
      last := ⟨last, ?_, lastSet⟩ }
  · rw [lenIsReferenced_insert, built.referenced, Bool.true_or]
  · rw [getElem?_set_ne differ]
    exact built.disc
  · rw [getElem?_set_ne differ]
    exact extentAt
  · rw [getElem?_set_ne differ]
    exact firstAt
  · rw [getElem?_set_ne differ]
    exact lastAt

lemma Built.skip (built : Built byLen len arrays) (nothing : byLen len = []) :
    Built byLen (len + 1) arrays := by
  have blob := built.blob_le
  have entries := built.entries_le
  refine
    { built with
      blob_le := by rw [Nat.succ_mul]; omega
      entries_le := by rw [Nat.succ_mul]; omega
      spelled := ?_
      buckets := ?_ }
  · intro entry mem
    rcases built.spelled entry mem with ⟨other, below, rest⟩
    exact ⟨other, Nat.lt_succ_of_lt below, rest⟩
  · intro other below some
    by_cases isLen : other = len
    · rw [isLen] at some
      exact absurd nothing some
    · exact built.buckets other (by omega) some

lemma Built.push (built : Built byLen len arrays) (inside : len < lenBuckets)
    (lengths : ∀ named ∈ sorted, named.1.length = len) (few : sorted.length ≤ maxNames) :
    ∃ pushed more, sorted.foldl pushEntry (arrays.1.entries, arrays.2) =
        (arrays.1.entries ++ pushed, arrays.2 ++ more) ∧
      List.Forall₂ (Spells (arrays.2 ++ more)) pushed sorted ∧
      more.length ≤ maxNames * maxFastNameLen ∧
      toU32 arrays.1.entries.length = arrays.1.entries.length ∧
      toU32 sorted.length = sorted.length := by
  have below : len ≤ maxFastNameLen := Nat.le_of_lt_succ inside
  have short : ∀ named ∈ sorted, named.1.length ≤ maxFastNameLen := by
    intro named mem
    rw [lengths named mem]
    exact below
  have total := le_trans (sum_lengths_le short) (Nat.mul_le_mul_right maxFastNameLen few)
  have blob := le_trans built.blob_le (Nat.mul_le_mul_right _ below)
  have entries := le_trans built.entries_le (Nat.mul_le_mul_right _ below)
  have bounds : maxFastNameLen * (maxNames * maxFastNameLen) + maxNames * maxFastNameLen <
      2 ^ 32 ∧ maxFastNameLen * maxNames < 2 ^ 32 ∧ maxFastNameLen < 2 ^ 16 ∧
      maxNames < 2 ^ 32 := by decide
  rcases pushEntries_spell sorted arrays.1.entries arrays.2
      (fun named mem => lt_of_le_of_lt (short named mem) bounds.2.2.1) (by omega) with
    ⟨pushed, allEntries, allBytes, spelled⟩
  rw [allBytes] at spelled
  refine ⟨pushed, _, Prod.ext allEntries allBytes, spelled, ?_, min_eq_left (by omega),
    min_eq_left (by omega)⟩
  rw [length_flatten, map_map]
  exact total

lemma Built.step (built : Built byLen len arrays) (inside : len < lenBuckets)
    (lengths : ∀ named ∈ byLen len, named.1.length = len) (few : (byLen len).length ≤ maxNames) :
    Built byLen (len + 1) (buildBucket arrays (byLen len) len) := by
  unfold buildBucket
  by_cases nothing : byLen len = []
  · rw [if_pos nothing]
    exact built.skip nothing
  rw [if_neg nothing]
  have perm := perm_sortBy (bucketRank (chooseDisc (byLen len))) (byLen len)
  rcases built.push inside (fun named mem => lengths named (perm.mem_iff.mp mem))
      (le_trans (le_of_eq perm.length_eq) few) with
    ⟨pushed, more, isArena, spelled, moreLength, startAt, countAt⟩
  rw [perm.length_eq] at countAt
  simp only [isArena, startAt, countAt]
  have pushedLength : pushed.length = (byLen len).length := by
    rw [spelled.length_eq, perm.length_eq]
  have blob := built.blob_le
  have entries := built.entries_le
  refine
    { discAt_length := (length_set ..).trans built.discAt_length
      buckets_length := (length_set ..).trans built.buckets_length
      firstFilter_length := (length_set ..).trans built.firstFilter_length
      lastFilter_length := (length_set ..).trans built.lastFilter_length
      blob_le := ?_
      entries_le := ?_
      spelled := ?_
      buckets := ?_ }
  · rw [length_append, Nat.succ_mul]
    omega
  · rw [length_append, Nat.succ_mul]
    omega
  · intro entry mem
    rcases mem_append.mp mem with old | new
    · rcases built.spelled entry old with ⟨other, below, named, isNamed, spells⟩
      exact ⟨other, Nat.lt_succ_of_lt below, named, isNamed, spells.append more⟩
    · rcases exists_of_forall₂ spelled new with ⟨named, isNamed, spells⟩
      exact ⟨len, Nat.lt_succ_self len, named, perm.mem_iff.mp isNamed, spells⟩
  · intro other below some
    by_cases isLen : other = len
    · subst isLen
      refine
        { referenced := ?_
          disc := getElem?_set_self (by rw [built.discAt_length]; exact inside)
          spelled := ⟨arrays.1.entries.length, pushed,
            getElem?_set_self (by rw [built.buckets_length]; exact inside), ?_, spelled⟩
          first := ⟨_, getElem?_set_self (by rw [built.firstFilter_length]; exact inside),
            fun named mem byte isByte =>
              bitTest_filterBits (perm.mem_iff.mpr mem) isByte⟩
          last := ⟨_, getElem?_set_self (by rw [built.lastFilter_length]; exact inside),
            fun named mem byte isByte =>
              bitTest_filterBits (perm.mem_iff.mpr mem) isByte⟩ }
      · rw [lenIsReferenced_insert, decide_eq_true rfl, Bool.or_true]
      · rw [← pushedLength]
        exact slice_append _ _
    · exact (built.buckets other (by omega) some).keep (Ne.symm isLen) rfl

lemma buildFastArrays_built {byLen : List LenBucket} (all : byLen.length = lenBuckets)
    (lengths : ∀ len : Nat, ∀ named ∈ (byLen[len]?).getD [], named.1.length = len)
    (few : ∀ len : Nat, ((byLen[len]?).getD []).length ≤ maxNames) :
    Built (fun len => (byLen[len]?).getD []) lenBuckets (buildFastArrays byLen []) := by
  have folds : ∀ done ≤ lenBuckets, Built (fun len => (byLen[len]?).getD []) done
      ((range done).foldl (buildLength byLen) (FastArrays.empty, [])) := by
    intro done
    induction done with
    | zero => exact fun _ => built_empty _
    | succ done induction =>
      intro below
      have inside : done < byLen.length := by
        rw [all]
        exact below
      have isBucket := getElem?_eq_getElem inside
      have next := (induction (by omega)).step below (lengths done) (few done)
      rw [range_succ, foldl_append, foldl_cons, foldl_nil, buildLength]
      simp only [isBucket, Option.getD_some] at next ⊢
      exact next
  exact folds lenBuckets (le_refl _)

/-! ## The discriminating position -/

lemma seeByte_spec (spot : Nat) (seen : Bytes) (named) (nodup : seen.Nodup) :
    (seeByte spot seen named).Nodup ∧ seen ⊆ seeByte spot seen named ∧
      ∀ byte, named.1[spot]? = some byte → byte ∈ seeByte spot seen named := by
  unfold seeByte
  cases there : named.1[spot]? with
  | none => exact ⟨nodup, List.Subset.refl _, nofun⟩
  | some byte =>
    simp only [Option.some.injEq, forall_eq']
    split
    · rename_i isSeen
      exact ⟨nodup, List.Subset.refl _, isSeen⟩
    · rename_i isNew
      exact ⟨nodup_cons.mpr ⟨isNew, nodup⟩, subset_cons_self _ _, mem_cons_self⟩

lemma seen_spec (spot : Nat) (bucket : LenBucket) (nodup : seen.Nodup) :
    (bucket.foldl (seeByte spot) seen).Nodup ∧ seen ⊆ bucket.foldl (seeByte spot) seen ∧
    ∀ named ∈ bucket,
      ∀ byte, named.1[spot]? = some byte → byte ∈ bucket.foldl (seeByte spot) seen := by
  induction bucket generalizing seen with
  | nil => exact ⟨nodup, List.Subset.refl _, nofun⟩
  | cons named bucket induction =>
    rcases seeByte_spec spot seen named nodup with ⟨still, keeps, adds⟩
    rcases induction still with ⟨all, grows, sees⟩
    refine ⟨all, List.Subset.trans keeps grows, ?_⟩
    intro other mem byte isByte
    rcases mem_cons.mp mem with rfl | later
    · exact grows (adds byte isByte)
    · exact sees other later byte isByte

lemma two_le_countDistinctAt (isNamed : named ∈ bucket) (isOther : other ∈ bucket)
    (isByte : named.1[spot]? = some byte) (isOtherByte : other.1[spot]? = some otherByte)
    (differ : byte ≠ otherByte) : 2 ≤ countDistinctAt bucket spot := by
  rcases seen_spec spot bucket nodup_nil with ⟨nodup, _, sees⟩
  have subset : [byte, otherByte] ⊆ bucket.foldl (seeByte spot) [] := by
    intro seen mem
    rcases mem_cons.mp mem with rfl | second
    · exact sees named isNamed _ isByte
    · rw [mem_singleton.mp second]
      exact sees other isOther _ isOtherByte
  have pair : [byte, otherByte].Nodup := by simp [differ]
  exact (subperm_of_subset pair subset).length_le

lemma bestDisc_spec (bucket) (length : Nat) :
    (∀ spot < length, countDistinctAt bucket spot ≤ (bestDisc bucket length).1) ∧
      (0 < (bestDisc bucket length).1 → (bestDisc bucket length).2 < length) := by
  unfold bestDisc
  induction length with
  | zero => exact ⟨nofun, nofun⟩
  | succ length induction =>
    rw [range_succ, foldl_append, foldl_cons, foldl_nil]
    generalize (range length).foldl (betterDisc bucket) (0, 0) = best at induction ⊢
    rcases induction with ⟨most, inside⟩
    unfold betterDisc
    split
    · rename_i better
      refine ⟨?_, fun _ => Nat.lt_succ_self length⟩
      intro spot below
      by_cases isLast : spot = length
      · rw [isLast]
      · have earlier := most spot (by omega)
        omega
    · rename_i notBetter
      refine ⟨?_, fun some => Nat.lt_succ_of_lt (inside some)⟩
      intro spot below
      by_cases isLast : spot = length
      · rw [isLast]
        omega
      · exact most spot (by omega)

lemma exists_getElem?_ne {left right : Bytes} (lengths : left.length = right.length)
    (differ : left ≠ right) :
    ∃ spot byte otherByte, spot < left.length ∧ left[spot]? = some byte ∧
      right[spot]? = some otherByte ∧ byte ≠ otherByte := by
  by_contra none
  apply differ
  apply ext_getElem lengths
  intro spot insideLeft insideRight
  by_contra bytes
  exact none ⟨spot, left[spot], right[spot], insideLeft,
    getElem?_eq_getElem insideLeft, getElem?_eq_getElem insideRight, bytes⟩

lemma chooseDisc_spec (lengths : ∀ named ∈ bucket, named.1.length = len)
    (short : len < lenBuckets) (nodup : (bucket.map Prod.fst).Nodup) :
    (chooseDisc bucket = noDisc → bucket.length ≤ 1) ∧
      (chooseDisc bucket ≠ noDisc → chooseDisc bucket < len) := by
  unfold chooseDisc
  by_cases few : bucket.length < 2
  · rw [if_pos few]
    exact ⟨fun _ => by omega, fun differs => absurd rfl differs⟩
  rw [if_neg few]
  rcases bucket with _ | ⟨named, _ | ⟨other, rest⟩⟩
  · simp at few
  · simp at few
  have isLen := lengths named mem_cons_self
  have isOtherLen := lengths other (by simp)
  have differ : named.1 ≠ other.1 := by
    intro same
    simp [same] at nodup
  rcases exists_getElem?_ne (isLen.trans isOtherLen.symm) differ with
    ⟨spot, byte, otherByte, inside, isByte, isOtherByte, bytesDiffer⟩
  have two : 2 ≤ countDistinctAt (named :: other :: rest) spot :=
    two_le_countDistinctAt mem_cons_self (by simp) isByte isOtherByte bytesDiffer
  rcases bestDisc_spec (named :: other :: rest) len with ⟨most, within⟩
  have best := most spot (by omega)
  have below := within (by omega)
  unfold lenBuckets maxFastNameLen at short
  simp only [head?_cons, Option.map_some, Option.getD_some, isLen]
  rw [if_neg (by omega), if_pos (by omega)]
  unfold noDisc
  exact ⟨fun isNone => by omega, fun _ => below⟩

end IronTraffic.Router
