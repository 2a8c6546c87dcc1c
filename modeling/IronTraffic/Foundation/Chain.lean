import Mathlib

/-! # Doubly linked chains

A chain of items is linked by two functions. Following `next` from the first item
visits the items in order and ends at a distinguished `stop` value; `prev` leads
back. Items are unlinked anywhere and pushed at the front by changing a few links.
-/

namespace IronTraffic

open List

section Chains

variable {Item : Type} (stop : Item)

/-- The items from `first` on, where `before` stands ahead of the first of them. -/
def Chain (next prev : Item → Item) : Item → Item → List Item → Prop
  | _, first, [] => first = stop
  | before, first, item :: rest =>
    first = item ∧ item ≠ stop ∧ prev item = before ∧ Chain next prev item (next item) rest

variable {stop} {next prev next' prev' : Item → Item} {item before first : Item}

namespace Chain

lemma congr (sameNext : ∀ item ∈ items, next' item = next item)
    (samePrev : ∀ item ∈ items, prev' item = prev item) :
    ∀ {before first : Item}, Chain stop next prev before first items →
      Chain stop next' prev' before first items := by
  induction items with
  | nil => exact fun chain => chain
  | cons item rest induction =>
    intro before first chain
    rcases forall_mem_cons.mp sameNext with ⟨nextHere, nextRest⟩
    rcases forall_mem_cons.mp samePrev with ⟨prevHere, prevRest⟩
    refine ⟨chain.1, chain.2.1, prevHere.trans chain.2.2.1, ?_⟩
    rw [nextHere]
    exact induction nextRest prevRest chain.2.2.2

lemma ne_stop :
    ∀ {before first : Item}, Chain stop next prev before first items → stop ∉ items := by
  induction items with
  | nil => exact fun _ => not_mem_nil
  | cons item rest induction =>
    intro before first chain mem
    rcases mem_cons.mp mem with same | later
    · exact chain.2.1 same.symm
    · exact induction chain.2.2.2 later

lemma first_cases (chain : Chain stop next prev before first items) :
    first = stop ∨ first ∈ items := by
  cases items with
  | nil => exact .inl chain
  | cons item rest => exact .inr (chain.1 ▸ mem_cons_self)

lemma first_eq (chain : Chain stop next prev before first items) : first = items.headD stop := by
  cases items with
  | nil => exact chain
  | cons item rest => exact chain.1

lemma tail : ∀ {front : List Item} {before first : Item},
    Chain stop next prev before first (front ++ item :: back) →
      Chain stop next prev item (next item) back := by
  intro front
  induction front with
  | nil => exact fun chain => chain.2.2.2
  | cons head front induction => exact fun chain => induction chain.2.2.2

lemma prev_mem : ∀ {front : List Item} {before first : Item},
    Chain stop next prev before first (front ++ item :: back) → prev item ∈ before :: front := by
  intro front
  induction front with
  | nil => exact fun chain => chain.2.2.1 ▸ mem_cons_self
  | cons head front induction => exact fun chain => mem_cons_of_mem _ (induction chain.2.2.2)

lemma unlink (sameNext : ∀ other, other ≠ prev item → next' other = next other)
    (nextHere : prev item ≠ stop → next' (prev item) = next item)
    (samePrev : ∀ other, other ≠ next item → prev' other = prev other)
    (prevHere : next item ≠ stop → prev' (next item) = prev item)
    (chain : Chain stop next prev before first (front ++ item :: back))
    (nodup : (before :: (front ++ item :: back)).Nodup) :
    Chain stop next' prev' before (if front = [] then next item else first) (front ++ back) := by
  induction front generalizing before first with
  | nil =>
    rcases chain with ⟨_, _, ahead, chain⟩
    cases back with
    | nil => exact chain
    | cons second back =>
      rcases chain with ⟨nextEq, notStop, _, chain⟩
      simp only [nil_append, nodup_cons, mem_cons, not_or] at nodup
      refine ⟨nextEq, notStop, ?_, ?_⟩
      · rw [← nextEq, prevHere (nextEq ▸ notStop), ahead]
      · rw [sameNext second (fun same => nodup.1.2.1 (ahead ▸ same.symm))]
        refine chain.congr ?_ ?_
        · intro other mem
          exact sameNext other (fun same => nodup.1.2.2 (ahead ▸ same ▸ mem))
        · intro other mem
          exact samePrev other fun same =>
            nodup.2.2.1 (nextEq ▸ same ▸ mem)
  | cons head front induction =>
    rcases chain with ⟨firstEq, notStop, ahead, chain⟩
    have others := induction chain (nodup_cons.mp nodup).2
    have nodup := (nodup_cons.mp (nodup_cons.mp nodup).2).1
    refine ⟨firstEq, notStop, ?_, ?_⟩
    · rw [samePrev head ?_, ahead]
      intro same
      rcases chain.tail.first_cases with ended | mem
      · exact notStop (same.trans ended)
      · exact nodup (by simp [same, mem])
    · cases front with
      | nil =>
        have aheadOfItem : prev item = head := chain.2.2.1
        rw [← aheadOfItem, nextHere (aheadOfItem ▸ notStop), aheadOfItem]
        exact others
      | cons second front =>
        rw [sameNext head ?_]
        · exact others
        · intro same
          have mem := chain.2.2.2.prev_mem
          rw [← same] at mem
          exact nodup (mem_append_left _ mem)

lemma push (sameNext : ∀ other, other ≠ item → next' other = next other)
    (nextHere : next' item = first)
    (samePrev : ∀ other, other ≠ item → other ≠ first → prev' other = prev other)
    (prevHere : prev' item = before) (prevFirst : first ≠ stop → prev' first = item)
    (notStop : item ≠ stop) (fresh : item ∉ items) (nodup : items.Nodup)
    (chain : Chain stop next prev before first items) :
    Chain stop next' prev' before item (item :: items) := by
  refine ⟨rfl, notStop, prevHere, ?_⟩
  rw [nextHere]
  cases items with
  | nil => exact chain
  | cons head rest =>
    rcases chain with ⟨rfl, headNotStop, _, chain⟩
    rw [mem_cons, not_or] at fresh
    rw [nodup_cons] at nodup
    refine ⟨rfl, headNotStop, prevFirst headNotStop, ?_⟩
    rw [sameNext first (Ne.symm fresh.1)]
    refine chain.congr ?_ ?_
    · intro other mem
      exact sameNext other (fun same => fresh.2 (same ▸ mem))
    · intro other mem
      exact samePrev other (fun same => fresh.2 (same ▸ mem))
        (fun same => nodup.1 (same ▸ mem))

end Chain

end Chains

end IronTraffic
