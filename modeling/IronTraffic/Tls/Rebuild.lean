import IronTraffic.Tls.Coalescer
import IronTraffic.Tls.Selection

/-! # Rebuilding from an index

An index keeps, for every name and kind, one credential per key type. Its entries, taken
out again, choose like the entries it was built from.
-/

namespace IronTraffic.Tls

open List

variable {heap : Heap} {entries others : List PendingEntry}

/-! ## The best credentials -/

def eligible (heap : Heap) (entries : List PendingEntry) (isWild : Bool) (name : Bytes)
    (property : KeyType → Bool) : List Address :=
  ((entries.filter (ofName isWild name)).filter fun entry =>
    property (heap entry.cred).keyType).map PendingEntry.cred

def best (heap : Heap) (entries : List PendingEntry) (isWild : Bool) (name : Bytes)
    (property : KeyType → Bool) : Option Address :=
  (eligible heap entries isWild name property).argmin (preference heap)

/-- Two lists of entries that prefer the same credentials, whatever the peer can verify. -/
def SameBest (heap : Heap) (entries others : List PendingEntry) : Prop :=
  ∀ isWild name property, best heap entries isWild name property =
    best heap others isWild name property

lemma choose_filter_eq_best (caps entries) (isWild : Bool) (name : Bytes) :
    choose heap caps (entries.filter (ofName isWild name)) =
      best heap entries isWild name caps.admits := by
  rw [choose, best, eligible, argmin_map]

lemma filter_ne_nil_iff (entries) (isWild : Bool) (name : Bytes) :
    entries.filter (ofName isWild name) ≠ [] ↔
      best heap entries isWild name (fun _ => true) ≠ none := by
  rw [best, eligible, ne_eq, ne_eq, argmin_eq_none, map_eq_nil_iff, filter_true]

lemma selection_of_ok (accepted : normalize sni = .ok name) :
    selection heap entries defaultCred sni caps =
      if entries.filter (ofName false name) ≠ [] then
        (best heap entries false name caps.admits).or defaultCred
      else ((parent name).bind fun domain =>
        best heap entries true domain caps.admits).or defaultCred := by
  rw [selection, accepted]
  simp only [choose_filter_eq_best]
  split
  · rfl
  cases parent name with
  | none => rfl
  | some domain =>
    by_cases has : entries.filter (ofName true domain) ≠ []
    · exact if_pos has
    · have nothing : best heap entries true domain caps.admits = none := by
        rw [best, eligible, not_not.mp has]
        rfl
      simp only [if_neg has, Option.bind_some, nothing, Option.none_or]

lemma selection_of_sameBest (same : SameBest heap entries others)
    (defaultCred) (sni : Bytes) (caps) :
    selection heap entries defaultCred sni caps = selection heap others defaultCred sni caps := by
  refine selection_congr id ?_ ?_ sni
  · intro isWild name
    rw [filter_ne_nil_iff, filter_ne_nil_iff, same]
  · intro isWild name
    rw [choose_filter_eq_best, choose_filter_eq_best, same]

/-! ## The entries of an index -/

def Group.toEntries (group : Group) : List PendingEntry :=
  group.creds.map fun cred => ⟨group.name, group.isWild, cred.2⟩

variable {groups : List Group}

lemma exact_count_le_iff (ordered : groups.Pairwise fun left right => left.nameKey < right.nameKey)
    (hit : groups[spot]? = some group) :
    ((groups.countP fun group => !group.isWild) ≤ spot ↔ group.isWild) := by
  induction groups generalizing spot group with
  | nil =>
    simp at hit
  | cons first groups induction =>
    rw [pairwise_cons] at ordered
    cases kind : first.isWild with
    | true =>
      -- After a wildcard group there are only wildcard groups.
      have later : ∀ other ∈ groups, other.isWild = true := by
        intro other mem
        have above := ordered.1 other mem
        unfold Group.nameKey nameKey at above
        rw [kind, Prod.Lex.toLex_lt_toLex] at above
        rcases above with wild | ⟨same, _⟩
        · cases otherKind : other.isWild with
          | true => rfl
          | false =>
            exact absurd wild (by simp)
        · exact same.symm
      have all : ∀ other ∈ first :: groups, other.isWild = true := by
        intro other mem
        rcases mem_cons.mp mem with isFirst | inGroups
        · exact isFirst ▸ kind
        · exact later other inGroups
      have none : (first :: groups).countP (fun group => !group.isWild) = 0 := by
        rw [countP_eq_zero]
        intro other mem
        rw [all other mem]
        simp
      rw [none]
      exact iff_of_true (Nat.zero_le _) (all group (mem_of_getElem? hit))
    | false =>
      rw [countP_cons_of_pos (by simp [kind])]
      cases spot with
      | zero =>
        cases hit
        rw [kind]
        exact iff_of_false (by omega) (by simp)
      | succ spot =>
        rw [Nat.add_le_add_iff_right]
        exact induction ordered.2 hit

lemma map_slots {set : CredSet} {held} (holds : Holds creds set held) (name) (isWild : Bool) :
    set.map (fun slot => (⟨name, isWild, creds[slot.2]?.getD 0⟩ : PendingEntry)) =
      held.map fun cred => ⟨name, isWild, cred.2⟩ := by
  induction holds with
  | nil => rfl
  | @cons slot cred set held first rest induction =>
    rw [map_cons, map_cons, first.2, induction]
    rfl

lemma flatMap_range {items : List Item} {read : Nat → List Output} {output}
    (reads : ∀ index item, items[index]? = some item → read index = output item) :
    (range items.length).flatMap read = items.flatMap output := by
  induction items using reverseRecOn with
  | nil => rfl
  | append_singleton items item induction =>
    have earlier : (range items.length).flatMap read = items.flatMap output := by
      refine induction fun index hit here => reads index hit ?_
      rw [getElem?_append_left (lt_of_getElem? here)]
      exact here
    have last : read items.length = output item := reads _ _ (by simp)
    rw [length_append, length_singleton, range_succ, flatMap_append,
      flatMap_append, earlier, flatMap_singleton, flatMap_singleton, last]

lemma Built.rebuildEntries (built : Built hashing (groupsOf heap entries) index) :
    index.rebuildEntries = (groupsOf heap entries).flatMap Group.toEntries := by
  have grouping := grouping_groupsOf heap entries
  rcases built.stored with ⟨pointers, stored⟩
  unfold CertIndex.rebuildEntries
  rw [show index.nameRefs.length = (groupsOf heap entries).length from stored.nameRefs]
  refine flatMap_range ?_
  intro spot group hit
  rcases stored.creds spot group hit with ⟨set, read, holds⟩
  have all : group.creds.take 4 = group.creds := by
    rw [grouping.creds group (mem_of_getElem? hit)]
    exact take_of_length_le (length_collect_le _)
  have kind : decide (index.exact.length ≤ spot) = group.isWild := by
    have count := built.indexed.exactCount
    rw [take_length] at count
    rw [show index.exact.length = _ from count, Bool.decide_congr
      (exact_count_le_iff grouping.ordered hit), Bool.decide_eq_true]
  unfold CertIndex.groupEntriesAt Group.toEntries
  rw [built.nameAt hit, kind, show index.credSets[spot]? = some set from read]
  rw [all] at holds
  exact map_slots holds _ _

/-! ## The entries of a name -/

lemma filter_flatMap_toEntries
    (ordered : groups.Pairwise fun left right => left.nameKey < right.nameKey)
    (mem : group ∈ groups) :
    (groups.flatMap Group.toEntries).filter (ofName group.isWild group.name) = group.toEntries := by
  have own : ∀ other : Group, other.toEntries.filter (ofName group.isWild group.name) =
      if other.nameKey = group.nameKey then other.toEntries else [] := by
    intro other
    have keys : ∀ entry ∈ other.toEntries, entry.nameKey = other.nameKey := by
      intro entry inside
      rcases mem_map.mp inside with ⟨cred, _, rfl⟩
      rfl
    by_cases same : other.nameKey = group.nameKey
    · rw [if_pos same]
      exact filter_ofName_eq_self fun entry inside => (keys entry inside).trans same
    · rw [if_neg same]
      exact filter_ofName_eq_nil fun entry inside equal =>
        same ((keys entry inside).symm.trans equal)
  induction groups with
  | nil => cases mem
  | cons first groups induction =>
    rw [pairwise_cons] at ordered
    rw [flatMap_cons, filter_append, own]
    rcases mem_cons.mp mem with isFirst | inGroups
    · subst isFirst
      have nothing : (groups.flatMap Group.toEntries).filter (ofName group.isWild group.name) =
          [] := by
        rw [filter_flatMap]
        refine flatMap_eq_nil_iff.mpr fun other inside => ?_
        rw [own, if_neg (ordered.1 other inside).ne']
      rw [if_pos rfl, nothing, append_nil]
    · rw [if_neg (ordered.1 group inGroups).ne, nil_append]
      exact induction ordered.2 inGroups

lemma typed_of_mem_credsOf (mem : cred ∈ credsOf heap entries isWild name) :
    cred.1 = (heap cred.2).keyType := by
  rcases mem_map.mp ((collect_sublist _).subset mem) with ⟨entry, _, rfl⟩
  rfl

lemma sorted_credsOf (heap : Heap) (entries) (isWild : Bool) (name : Bytes) :
    (credsOf heap (sortBy (sortKey heap) entries) isWild name).Pairwise fun left right =>
      preference heap left.2 ≤ preference heap right.2 := by
  refine List.Pairwise.sublist (collect_sublist _) (pairwise_map.mpr ?_)
  have sorted := (sorted_sortBy (sortKey heap) entries).sublist
    (filter_sublist (p := ofName isWild name))
  refine sorted.imp_of_mem ?_
  intro left right leftMember rightMember ordered
  have leftName := ofName_iff.mp (mem_filter.mp leftMember).2
  have rightName := ofName_iff.mp (mem_filter.mp rightMember).2
  exact preference_le_of_sortKey_le ordered (nameKey_inj.mpr
    ⟨leftName.1.trans rightName.1.symm, leftName.2.trans rightName.2.symm⟩)

lemma sameBest_groupsOf (heap : Heap) (entries) :
    SameBest heap ((groupsOf heap entries).flatMap Group.toEntries) entries := by
  intro isWild name property
  have grouping := grouping_groupsOf heap entries
  by_cases present : ∃ group ∈ groupsOf heap entries, group.isWild = isWild ∧ group.name = name
  · rcases present with ⟨group, mem, rfl, rfl⟩
    have creds := grouping.creds group mem
    have same : ∀ cred ∈ group.creds, property (heap cred.2).keyType = property cred.1 := by
      intro cred inside
      rw [creds] at inside
      rw [typed_of_mem_credsOf inside]
    have taken : eligible heap ((groupsOf heap entries).flatMap Group.toEntries) group.isWild
        group.name property =
        (group.creds.filter fun cred => property cred.1).map Prod.snd := by
      unfold eligible
      rw [filter_flatMap_toEntries grouping.ordered mem]
      unfold Group.toEntries
      rw [filter_map, map_map]
      exact congrArg (map Prod.snd) (filter_congr same)
    have sorted := sorted_credsOf heap entries group.isWild group.name
    rw [← creds] at sorted
    have put := find?_credsOf heap entries group.isWild group.name property
    rw [← creds] at put
    unfold best
    rw [taken, argmin_map, argmin_filter_of_sorted sorted, put]
    unfold eligible
    rw [argmin_map]
  · have empty : entries.filter (ofName isWild name) = [] := by
      by_contra notEmpty
      exact present (exists_group_iff.mpr notEmpty)
    have nothing : ((groupsOf heap entries).flatMap Group.toEntries).filter (ofName isWild name) =
        [] := by
      rw [filter_eq_nil_iff]
      intro entry mem holds
      rcases mem_flatMap.mp mem with ⟨group, inGroups, inside⟩
      rcases mem_map.mp inside with ⟨cred, _, rfl⟩
      exact present ⟨group, inGroups, ofName_iff.mp holds⟩
    unfold best eligible
    rw [empty, nothing]

lemma mem_of_mem_groupsOf (mem : entry ∈ (groupsOf heap entries).flatMap Group.toEntries) :
    entry ∈ entries := by
  rcases mem_flatMap.mp mem with ⟨group, inGroups, inside⟩
  rcases mem_map.mp inside with ⟨cred, held, rfl⟩
  rw [(grouping_groupsOf heap entries).creds group inGroups] at held
  rcases mem_map.mp ((collect_sublist _).subset held) with ⟨source, hit, rfl⟩
  rcases mem_filter.mp hit with ⟨sorted, named⟩
  rcases ofName_iff.mp named with ⟨kind, name⟩
  have same : (⟨group.name, group.isWild, source.cred⟩ : PendingEntry) = source := by
    rw [← kind, ← name]
  rw [show (typed heap source).2 = source.cred from rfl, same]
  exact mem_sortBy.mp sorted

end IronTraffic.Tls
