import Mathlib

/-! # Stable sorting

A stable sort by a rank. The first item of the sorted list with some property is the
first item of least rank among those that have it.
-/

namespace IronTraffic

open List

variable {Item Rank : Type*} [LinearOrder Rank]

def sortBy (rank : Item → Rank) (items : List Item) : List Item :=
  items.insertionSort fun left right => rank left ≤ rank right

variable {rank : Item → Rank} {items : List Item} {property : Item → Bool}

lemma mem_sortBy : item ∈ sortBy rank items ↔ item ∈ items :=
  mem_insertionSort _

lemma perm_sortBy (rank : Item → Rank) (items : List Item) : (sortBy rank items).Perm items :=
  perm_insertionSort _ _

lemma sorted_sortBy (rank : Item → Rank) (items : List Item) :
    (sortBy rank items).Pairwise fun left right => rank left ≤ rank right := by
  exact pairwise_insertionSort _ _

lemma argmin_filter_of_sorted (sorted : items.Pairwise fun left right => rank left ≤ rank right) :
    (items.filter property).argmin rank = items.find? property := by
  induction items with
  | nil => rfl
  | cons item items induction =>
    rw [pairwise_cons] at sorted
    cases holds : property item with
    | false =>
      rw [filter_cons_of_neg (by simp [holds]), find?_cons_of_neg (by simp [holds])]
      exact induction sorted.2
    | true =>
      rw [filter_cons_of_pos holds, find?_cons_of_pos holds, argmin_cons]
      cases hit : (items.filter property).argmin rank with
      | none => rfl
      | some other =>
        have mem : other ∈ items :=
          (mem_filter.mp (argmin_mem hit)).1
        exact if_neg (not_lt.mpr (sorted.1 other mem))

lemma argmin_cons_congr (item : Item) (same : items.argmin rank = others.argmin rank) :
    (item :: items).argmin rank = (item :: others).argmin rank := by
  rw [argmin_cons, argmin_cons, same]

lemma argmin_swap (apart : rank right < rank left) :
    (right :: left :: items).argmin rank = (left :: right :: items).argmin rank := by
  simp only [argmin_cons]
  cases items.argmin rank with
  | none =>
    simp only
    rw [if_neg (not_lt.mpr apart.le), if_pos apart]
  | some other =>
    by_cases belowLeft : rank other < rank left
    · by_cases belowRight : rank other < rank right
      · simp [belowLeft, belowRight]
      · simp [belowLeft, belowRight, apart]
    · have notBelow : ¬rank other < rank right := fun below =>
      belowLeft (lt_trans below apart)
      simp [belowLeft, notBelow, apart, not_lt.mpr apart.le]

lemma argmin_filter_cons_congr (item : Item)
    (same : (items.filter property).argmin rank = (others.filter property).argmin rank) :
    ((item :: items).filter property).argmin rank =
      ((item :: others).filter property).argmin rank := by
  cases holds : property item with
  | false =>
    rw [filter_cons_of_neg (by simp [holds]), filter_cons_of_neg (by simp [holds])]
    exact same
  | true =>
    rw [filter_cons_of_pos holds, filter_cons_of_pos holds]
    exact argmin_cons_congr item same

lemma argmin_filter_orderedInsert (item : Item) (items : List Item) :
    ((items.orderedInsert (fun left right => rank left ≤ rank right) item).filter property).argmin
      rank = ((item :: items).filter property).argmin rank := by
  induction items with
  | nil => rfl
  | cons other items induction =>
    by_cases before : rank item ≤ rank other
    · rw [orderedInsert_cons, if_pos before]
    rw [orderedInsert_cons, if_neg before, argmin_filter_cons_congr other induction]
    have apart := not_le.mp before
    cases holdsOther : property other with
    | false =>
      simp only [filter_cons, holdsOther]
      simp
    | true =>
      cases holdsItem : property item with
      | false =>
        simp only [filter_cons, holdsOther, holdsItem]
        simp
      | true =>
        simp only [filter_cons, holdsOther, holdsItem, if_true]
        exact argmin_swap apart

lemma argmin_filter_sortBy (rank : Item → Rank) (property : Item → Bool) (items : List Item) :
    ((sortBy rank items).filter property).argmin rank = (items.filter property).argmin rank := by
  induction items with
  | nil => rfl
  | cons item items induction =>
    rw [sortBy, insertionSort_cons, argmin_filter_orderedInsert]
    exact argmin_filter_cons_congr item induction

lemma find?_sortBy (rank : Item → Rank) (property : Item → Bool) (items : List Item) :
    (sortBy rank items).find? property = (items.filter property).argmin rank := by
  rw [← argmin_filter_sortBy, argmin_filter_of_sorted (sorted_sortBy rank items)]

lemma argmin_congr [LinearOrder Other] {other : Item → Other}
    (alike : ∀ left ∈ items, ∀ right ∈ items, rank left < rank right ↔ other left < other right) :
    items.argmin rank = items.argmin other := by
  induction items with
  | nil => rfl
  | cons item items induction =>
    have tail := induction fun left leftMember right rightMember =>
      alike left (mem_cons_of_mem _ leftMember) right (mem_cons_of_mem _ rightMember)
    rw [argmin_cons, argmin_cons, tail]
    cases hit : items.argmin other with
    | none => rfl
    | some least =>
      have mem := mem_cons_of_mem item (argmin_mem hit)
      simp only [alike least mem item mem_cons_self]

lemma argmin_map (map : Source → Item) (sources : List Source) :
    (sources.map map).argmin rank = (sources.argmin fun source => rank (map source)).map map := by
  induction sources with
  | nil => rfl
  | cons source sources induction =>
    rw [map_cons, argmin_cons, argmin_cons, induction]
    cases sources.argmin fun source => rank (map source) with
    | none => rfl
    | some least =>
      simp only [Option.map_some]
      split
      · rfl
      · rfl

lemma argmin_append_congr (same : items.argmin rank = others.argmin rank) (more : List Item) :
    (items ++ more).argmin rank = (others ++ more).argmin rank := by
  induction more using reverseRecOn with
  | nil =>
    rw [append_nil, append_nil]
    exact same
  | append_singleton more item induction =>
    rw [← append_assoc, ← append_assoc, argmin_concat, argmin_concat, induction]

end IronTraffic
