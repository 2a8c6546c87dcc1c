import IronTraffic.Foundation.Segments

/-! # Splitting at separators

A list is split into the parts between its separators. Appending to the list changes the last
part and adds further ones after it; parts that are each ended by a separator can be told apart
from the front.
-/

namespace IronTraffic

open List

variable {Item : Type}

lemma forall_or_exists_last (Holds : Item → Prop) (items : List Item) :
    (∀ item ∈ items, Holds item) ∨
      ∃ before last after, items = before ++ last :: after ∧ ¬ Holds last ∧
        ∀ item ∈ after, Holds item := by
  induction items with
  | nil => exact .inl nofun
  | cons item items induction =>
    rcases induction with all | ⟨before, last, after, rfl, fails, all⟩
    · by_cases holds : Holds item
      · exact .inl (forall_mem_cons.mpr ⟨holds, all⟩)
      · exact .inr ⟨[], item, items, rfl, holds, all⟩
    · exact .inr ⟨item :: before, last, after, rfl, fails, all⟩

lemma findIdx?_append_cons (plain : ∀ item ∈ before, separates item = false)
    (isSeparator : separates separator = true) (after : List Item) :
    (before ++ separator :: after).findIdx? separates = some before.length := by
  rw [findIdx?_append, findIdx?_eq_none_iff.mpr plain, findIdx?_cons,
    if_pos isSeparator]
  simp

lemma mem_of_mem_intercalate (mem : item ∈ [separator].intercalate parts) :
    item = separator ∨ ∃ part ∈ parts, item ∈ part := by
  induction parts with
  | nil => cases mem
  | cons part parts induction =>
    cases parts with
    | nil => exact .inr ⟨part, mem_cons_self, by simpa using mem⟩
    | cons next parts =>
      rw [intercalate_cons_cons, mem_append, mem_append, mem_singleton] at mem
      rcases mem with (inPart | isSeparator) | later
      · exact .inr ⟨part, mem_cons_self, inPart⟩
      · exact .inl isSeparator
      · rcases induction later with isSeparator | ⟨other, isOther, inOther⟩
        · exact .inl isSeparator
        · exact .inr ⟨other, mem_cons_of_mem _ isOther, inOther⟩

lemma length_intercalate_le {parts : List (List Item)} {bound : Nat}
    (short : ∀ part ∈ parts, part.length ≤ bound) :
    ([separator].intercalate parts).length ≤ (bound + 1) * parts.length := by
  induction parts with
  | nil => exact Nat.zero_le _
  | cons part parts induction =>
    rw [forall_mem_cons] at short
    have rest := induction short.2
    cases parts with
    | nil =>
      simp only [intercalate_singleton, length_singleton]
      omega
    | cons next parts =>
      rw [intercalate_cons_cons, length_append, length_append,
        length_singleton, length_cons, Nat.mul_succ]
      omega

section Append

variable (separates : Item → Bool)

def lastPart (items : List Item) : List Item := ((items.splitOnP separates).getLast?).getD []

lemma splitOnP_append (items more : List Item) :
    (items ++ more).splitOnP separates = (items.splitOnP separates).dropLast ++
        (lastPart separates items ++ more).splitOnP separates := by
  unfold lastPart
  induction items with
  | nil => simp
  | cons item items induction =>
    have some : items.splitOnP separates ≠ [] := splitOnP_ne_nil separates items
    rw [cons_append, splitOnP_cons_eq_if_modifyHead,
      splitOnP_cons_eq_if_modifyHead, induction]
    cases parts : items.splitOnP separates with
    | nil => exact absurd parts some
    | cons part rest =>
      cases isSeparator : separates item with
      | true => simp
      | false =>
        cases rest with
        | nil => simp [splitOnP_cons_eq_if_modifyHead, isSeparator]
        | cons next rest => simp

/-- `items.iter().rposition(..)`: the last position with the property. -/
def rposition : List Item → Option Nat
  | [] => none
  | item :: items =>
    match rposition items with
    | some index => some (index + 1)
    | none => if separates item then some 0 else none

variable {separates}

lemma rposition_eq_none (none : rposition separates items = none) :
    ∀ item ∈ items, separates item = false := by
  induction items with
  | nil => exact nofun
  | cons item items induction =>
    unfold rposition at none
    split at none
    · cases none
    rename_i later
    split at none
    · cases none
    · rename_i notHere
      intro other mem
      rcases mem_cons.mp mem with rfl | isLater
      · exact Bool.eq_false_iff.mpr notHere
      · exact induction later other isLater

lemma rposition_eq_some (hit : rposition separates items = some index) :
    ∃ separator,
      separates separator = true ∧ items = items.take index ++ separator :: items.drop (index + 1) ∧
      ∀ item ∈ items.drop (index + 1), separates item = false := by
  induction items generalizing index with
  | nil => cases hit
  | cons item items induction =>
    unfold rposition at hit
    split at hit
    · rename_i inner later
      cases hit
      rcases induction later with ⟨separator, isSeparator, isItems, free⟩
      exact ⟨separator, isSeparator, congrArg (item :: ·) isItems, free⟩
    · rename_i noLater
      split at hit
      · rename_i isSeparator
        cases hit
        exact ⟨item, isSeparator, rfl, rposition_eq_none noLater⟩
      · cases hit

end Append

/-! ## Parts that are ended by separators -/

section Ended

variable {separator : Item}

def endParts (separator : Item) (parts : List (List Item)) : List Item :=
  parts.flatMap fun part => part ++ [separator]

lemma endParts_cons (part : List Item) (parts : List (List Item)) :
    endParts separator (part :: parts) = part ++ separator :: endParts separator parts := by
  simp [endParts]

lemma endParts_append (parts more : List (List Item)) :
    endParts separator (parts ++ more) = endParts separator parts ++ endParts separator more :=
  flatMap_append

lemma endParts_isPrefix_iff (free : ∀ part ∈ parts, separator ∉ part)
    (freeOthers : ∀ part ∈ others, separator ∉ part) :
    endParts separator parts <+: endParts separator others ↔ parts <+: others := by
  constructor
  · induction parts generalizing others with
    | nil => exact fun _ => nil_prefix
    | cons part parts induction =>
      rintro ⟨rest, isOthers⟩
      cases others with
      | nil => simp [endParts] at isOthers
      | cons other others =>
        rw [endParts_cons, endParts_cons, append_assoc] at isOthers
        rcases eq_of_append_separator (free part mem_cons_self)
            (freeOthers other mem_cons_self) isOthers with ⟨rfl, sameRest⟩
        rw [prefix_cons_inj]
        exact induction (fun later mem => free later (mem_cons_of_mem _ mem))
          (fun later mem => freeOthers later (mem_cons_of_mem _ mem))
          ⟨rest, sameRest⟩
  · rintro ⟨rest, rfl⟩
    rw [endParts_append]
    exact prefix_append _ _

end Ended

/-! ## Parts at the end -/

section Suffix

variable [DecidableEq Item] {separator : Item}

lemma not_mem_of_mem_splitOn {items part : List Item} (mem : part ∈ items.splitOn separator) :
    separator ∉ part := by
  have isSegment : part ∈ segmentsOf separator (separator :: items) := mem
  exact not_mem_segmentsOf isSegment

lemma splitOn_inj {left right : List Item} :
    left.splitOn separator = right.splitOn separator ↔ left = right := by
  constructor
  · intro same
    have joined := congrArg [separator].intercalate same
    rwa [intercalate_splitOn, intercalate_splitOn] at joined
  · exact congrArg _

lemma splitOn_isSuffix_iff :
    items.splitOn separator <:+ others.splitOn separator ↔
      others = items ∨ separator :: items <:+ others := by
  constructor
  · rintro ⟨before, isOthers⟩
    by_cases none : before = []
    · rw [none, nil_append, splitOn_inj] at isOthers
      exact .inl isOthers.symm
    right
    refine ⟨[separator].intercalate before, ?_⟩
    rw [← @splitOn_inj _ _ separator, splitOn_append_cons_self,
      splitOn_intercalate separator _ none]
    · exact isOthers
    · intro part mem
      have isPart : part ∈ others.splitOn separator :=
        isOthers ▸ mem_append_left _ mem
      exact not_mem_of_mem_splitOn isPart
  · rintro (rfl | ⟨before, rfl⟩)
    · exact suffix_refl _
    · rw [splitOn_append_cons_self]
      exact suffix_append _ _

end Suffix

end IronTraffic
