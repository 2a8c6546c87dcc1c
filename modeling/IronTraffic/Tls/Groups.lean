import IronTraffic.Tls.Index

/-! # Groups of sorted entries

The loop over the sorted entries makes one group for every name and kind, with the first
credential of each key type.
-/

namespace IronTraffic.Tls

open List

/-! ## One credential per key type -/

def collect (creds : List (KeyType × Address)) : List (KeyType × Address) :=
  creds.foldl addCred []

variable {creds : List (KeyType × Address)} {next : KeyType × Address}

lemma collect_append (creds) (next : KeyType × Address) :
    collect (creds ++ [next]) = addCred (collect creds) next := by
  rw [collect, foldl_append]
  rfl

lemma find?_addCred (property : KeyType → Bool) :
    (addCred creds next).find? (fun cred => property cred.1) =
      (creds ++ [next]).find? (fun cred => property cred.1) := by
  unfold addCred
  by_cases present : creds.any fun cred => cred.1 = next.1
  · rw [if_pos present, find?_append]
    rcases any_eq_true.mp present with ⟨cred, mem, same⟩
    rw [decide_eq_true_eq] at same
    cases holds : property next.1 with
    | false => simp [holds]
    | true =>
      have hit : (creds.find? fun cred => property cred.1).isSome := by
        rw [find?_isSome]
        exact ⟨cred, mem, same ▸ holds⟩
      rw [Option.or_of_isSome hit]
  · rw [if_neg present]

lemma find?_collect (property : KeyType → Bool) (creds) :
    (collect creds).find? (fun cred => property cred.1) =
      creds.find? (fun cred => property cred.1) := by
  induction creds using reverseRecOn with
  | nil => rfl
  | append_singleton creds next induction =>
    rw [collect_append, find?_addCred, find?_append, find?_append, induction]

lemma collect_sublist (creds) : (collect creds).Sublist creds := by
  induction creds using reverseRecOn with
  | nil => exact List.Sublist.refl _
  | append_singleton creds next induction =>
    rw [collect_append]
    unfold addCred
    split
    · exact induction.trans (sublist_append_left creds [next])
    · exact induction.append (List.Sublist.refl _)

lemma nodup_collect (creds) : ((collect creds).map Prod.fst).Nodup := by
  induction creds using reverseRecOn with
  | nil => exact nodup_nil
  | append_singleton creds next induction =>
    rw [collect_append]
    unfold addCred
    split
    case isTrue => exact induction
    case isFalse fresh =>
      rw [map_append, nodup_append]
      refine ⟨induction, nodup_singleton _, ?_⟩
      intro keyType mem other single same
      rcases mem_map.mp mem with ⟨cred, present, rfl⟩
      have other : other = next.1 := by simpa using single
      apply fresh
      rw [any_eq_true]
      exact ⟨cred, present, decide_eq_true (same.trans other)⟩

lemma length_collect_le (creds) : (collect creds).length ≤ 4 := by
  have all : (collect creds).map Prod.fst ⊆ [.ecdsaP256, .ecdsaP384, .rsa, .ed25519] := by
    intro keyType _
    cases keyType with
    | ecdsaP256 | ecdsaP384 | rsa | ed25519 => simp
  have small := ((nodup_collect creds).subperm all).length_le
  rwa [length_map] at small

/-! ## Names and kinds -/

lemma byteOrder_injective {left right : Bytes} (same : byteOrder left = byteOrder right) :
    left = right :=
  map_injective_iff.mpr (fun _ _ => UInt8.toNat_inj.mp) same

def ofName (isWild : Bool) (name : Bytes) (entry : PendingEntry) : Bool :=
  entry.isWild == isWild && entry.name == name

variable {isWild : Bool} {name : Bytes} {entry left right : PendingEntry} {heap : Heap}
  {group : Group} {entries : List PendingEntry}

lemma ofName_iff : ofName isWild name entry ↔ entry.isWild = isWild ∧ entry.name = name := by
  rw [ofName, Bool.and_eq_true, beq_iff_eq, beq_iff_eq]

def nameKey (isWild : Bool) (name : Bytes) : Bool ×ₗ List Nat := toLex (isWild, byteOrder name)

lemma nameKey_inj :
    nameKey isWild name = nameKey isWild' name' ↔ isWild = isWild' ∧ name = name' := by
  unfold nameKey
  rw [toLex_inj, Prod.mk.injEq]
  constructor
  · rintro ⟨kind, bytes⟩
    exact ⟨kind, byteOrder_injective bytes⟩
  · rintro ⟨kind, bytes⟩
    exact ⟨kind, congrArg byteOrder bytes⟩

def PendingEntry.nameKey (entry : PendingEntry) : Bool ×ₗ List Nat :=
  Tls.nameKey entry.isWild entry.name

def Group.nameKey (group : Group) : Bool ×ₗ List Nat := Tls.nameKey group.isWild group.name

lemma nameKey_le_of_sortKey_le (ordered : sortKey heap left ≤ sortKey heap right) :
    left.nameKey ≤ right.nameKey := by
  unfold sortKey at ordered
  unfold PendingEntry.nameKey nameKey
  rw [Prod.Lex.toLex_le_toLex] at ordered ⊢
  rcases ordered with kind | ⟨kind, rest⟩
  · exact .inl kind
  · rw [Prod.Lex.toLex_le_toLex] at rest
    rcases rest with name | ⟨name, _⟩
    · exact .inr ⟨kind, name.le⟩
    · exact .inr ⟨kind, name.le⟩

lemma preference_le_of_sortKey_le (ordered : sortKey heap left ≤ sortKey heap right)
    (same : left.nameKey = right.nameKey) :
    preference heap left.cred ≤ preference heap right.cred := by
  rcases nameKey_inj.mp same with ⟨kind, name⟩
  unfold sortKey at ordered
  rw [kind, name, Prod.Lex.toLex_le_toLex] at ordered
  rcases ordered with kind | ⟨_, rest⟩
  · exact absurd kind (lt_irrefl _)
  · rw [Prod.Lex.toLex_le_toLex] at rest
    rcases rest with name | ⟨_, preferred⟩
    · exact absurd name (lt_irrefl _)
    · exact preferred

/-! ## The loop -/

def credsOf (heap : Heap) (entries : List PendingEntry) (isWild : Bool) (name : Bytes) :
    List (KeyType × Address) :=
  collect ((entries.filter (ofName isWild name)).map (typed heap))

structure Grouping (heap : Heap) (entries : List PendingEntry) (groups : List Group) : Prop where
  creds : ∀ group ∈ groups, group.creds = credsOf heap entries group.isWild group.name
  ordered : groups.Pairwise fun left right => left.nameKey < right.nameKey
  covered : ∀ entry ∈ entries, ∃ group ∈ groups, group.nameKey = entry.nameKey
  inhabited : ∀ group ∈ groups, ∃ entry ∈ entries, entry.nameKey = group.nameKey

lemma ofName_iff_nameKey :
    ofName group.isWild group.name entry ↔ entry.nameKey = group.nameKey := by
  rw [ofName_iff]
  exact nameKey_inj.symm

lemma filter_ofName_eq_self (same : ∀ entry ∈ entries, entry.nameKey = group.nameKey) :
    entries.filter (ofName group.isWild group.name) = entries :=
  filter_eq_self.mpr fun entry mem => ofName_iff_nameKey.mpr (same entry mem)

lemma filter_ofName_eq_nil (apart : ∀ entry ∈ entries, entry.nameKey ≠ group.nameKey) :
    entries.filter (ofName group.isWild group.name) = [] :=
  filter_eq_nil_iff.mpr fun entry mem holds =>
    apart entry mem (ofName_iff_nameKey.mp holds)

/-- The groups from inside the loop: `seen` are the entries of the group so far. -/
lemma grouping_groupFrom (creds : group.creds = collect (seen.map (typed heap)))
    (notEmpty : seen ≠ []) (same : ∀ entry ∈ seen, entry.nameKey = group.nameKey)
    (sorted : rest.Pairwise (fun left right => left.nameKey ≤ right.nameKey))
    (later : ∀ entry ∈ rest, group.nameKey ≤ entry.nameKey) :
    Grouping heap (seen ++ rest) (groupFrom heap group rest) := by
  induction rest generalizing seen group with
  | nil =>
    rw [append_nil]
    refine ⟨?_, pairwise_singleton _ _, ?_, ?_⟩
    · intro other mem
      cases mem_singleton.mp mem
      rw [credsOf, filter_ofName_eq_self same]
      exact creds
    · intro entry mem
      exact ⟨group, mem_cons_self, (same entry mem).symm⟩
    · intro other mem
      cases mem_singleton.mp mem
      rcases exists_mem_of_ne_nil seen notEmpty with ⟨entry, present⟩
      exact ⟨entry, present, same entry present⟩
  | cons next rest induction =>
    rw [pairwise_cons] at sorted
    by_cases continues : next.name = group.name ∧ next.isWild = group.isWild
    · have nextKey : next.nameKey = group.nameKey := nameKey_inj.mpr continues.symm
      have split : seen ++ next :: rest = (seen ++ [next]) ++ rest := by simp
      rw [groupFrom, if_pos continues, split]
      refine induction ?_ (by simp) ?_ sorted.2 ?_
      · rw [map_append, map_singleton, collect_append, ← creds]
      · intro entry mem
        rcases mem_append.mp mem with before | last
        · exact same entry before
        · cases mem_singleton.mp last
          exact nextKey
      · intro entry mem
        exact later entry (mem_cons_of_mem _ mem)
    · -- The next entry starts a group, and everything from here on lies after the old one.
      have nextKey : next.nameKey ≠ group.nameKey := fun equal =>
        continues (nameKey_inj.mp equal).symm
      have after : ∀ entry ∈ next :: rest, group.nameKey < entry.nameKey := by
        have first := lt_of_le_of_ne (later next mem_cons_self) nextKey.symm
        intro entry mem
        rcases mem_cons.mp mem with isNext | inRest
        · exact isNext ▸ first
        · exact lt_of_lt_of_le first (sorted.1 entry inRest)
      have groups : Grouping heap ([next] ++ rest)
          (groupFrom heap (Group.start heap next) rest) := by
        refine induction rfl (by simp) ?_ sorted.2 sorted.1
        intro entry mem
        cases mem_singleton.mp mem
        rfl
      have above : ∀ other ∈ groupFrom heap (Group.start heap next) rest,
          group.nameKey < other.nameKey := by
        intro other mem
        rcases groups.inhabited other mem with ⟨entry, present, key⟩
        exact key ▸ after entry present
      rw [groupFrom, if_neg continues]
      refine ⟨?_, pairwise_cons.mpr ⟨above, groups.ordered⟩, ?_, ?_⟩
      · intro other mem
        rw [credsOf, filter_append]
        rcases mem_cons.mp mem with isGroup | inGroups
        · subst isGroup
          rw [filter_ofName_eq_self same,
            filter_ofName_eq_nil fun entry present => (after entry present).ne',
            append_nil]
          exact creds
        · rw [filter_ofName_eq_nil fun entry present =>
          same entry present ▸ (above other inGroups).ne, nil_append]
          exact groups.creds other inGroups
      · intro entry mem
        rcases mem_append.mp mem with before | onward
        · exact ⟨group, mem_cons_self, (same entry before).symm⟩
        · rcases groups.covered entry onward with ⟨other, present, key⟩
          exact ⟨other, mem_cons_of_mem _ present, key⟩
      · intro other mem
        rcases mem_cons.mp mem with isGroup | inGroups
        · subst isGroup
          rcases exists_mem_of_ne_nil seen notEmpty with ⟨entry, present⟩
          exact ⟨entry, mem_append_left _ present, same entry present⟩
        · rcases groups.inhabited other inGroups with ⟨entry, present, key⟩
          exact ⟨entry, mem_append_right _ present, key⟩

lemma grouping_groupEntries
    (sorted : entries.Pairwise fun left right => left.nameKey ≤ right.nameKey) :
    Grouping heap entries (groupEntries heap entries) := by
  cases entries with
  | nil =>
    refine ⟨?_, List.Pairwise.nil, ?_, ?_⟩
    · intro group mem
      cases mem
    · intro entry mem
      cases mem
    · intro group mem
      cases mem
  | cons first rest =>
    rw [pairwise_cons] at sorted
    refine @grouping_groupFrom heap _ [first] rest rfl (by simp) ?_ sorted.2 sorted.1
    intro entry mem
    cases mem_singleton.mp mem
    rfl

def groupsOf (heap : Heap) (entries : List PendingEntry) : List Group :=
  groupEntries heap (sortBy (sortKey heap) entries)

lemma grouping_groupsOf (heap : Heap) (entries) :
    Grouping heap (sortBy (sortKey heap) entries) (groupsOf heap entries) :=
  grouping_groupEntries
    ((sorted_sortBy (sortKey heap) entries).imp fun ordered => nameKey_le_of_sortKey_le ordered)

end IronTraffic.Tls
