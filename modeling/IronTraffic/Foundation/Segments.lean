import Mathlib

/-! # Separated segments

A byte string that starts with a separator is a sequence of segments, each after
its own separator. Splitting and joining are inverse to each other for segments
that do not contain the separator.
-/

namespace IronTraffic

open List

section Segments

variable {Item : Type} (separator : Item)

def joined (segments : List (List Item)) : List Item :=
  segments.flatMap (separator :: ·)

def segmentsOf [DecidableEq Item] (text : List Item) : List (List Item) :=
  (text.drop 1).splitOn separator

variable {separator}

@[simp] lemma joined_nil : joined separator [] = [] := rfl

@[simp] lemma joined_cons (segment : List Item) (rest : List (List Item)) :
    joined separator (segment :: rest) = separator :: (segment ++ joined separator rest) := by
  simp [joined]

lemma joined_append (left right : List (List Item)) :
    joined separator (left ++ right) = joined separator left ++ joined separator right := by
  simp [joined]

lemma joined_eq_intercalate (nonempty : segments ≠ []) :
    joined separator segments = separator :: [separator].intercalate segments := by
  induction segments with
  | nil => exact absurd rfl nonempty
  | cons segment rest induction =>
    cases rest with
    | nil => simp [intercalate]
    | cons next rest =>
      rw [joined_cons, induction (cons_ne_nil _ _)]
      simp [intercalate, intersperse]

lemma eq_of_append_separator (leftFree : separator ∉ left) (rightFree : separator ∉ right)
    (equal : left ++ separator :: leftRest = right ++ separator :: rightRest) :
    left = right ∧ leftRest = rightRest := by
  induction left generalizing right with
  | nil =>
    cases right with
    | nil => simpa using equal
    | cons item right =>
      simp only [nil_append, cons_append, List.cons.injEq] at equal
      exact absurd (equal.1 ▸ mem_cons_self) rightFree
  | cons item left induction =>
    cases right with
    | nil =>
      simp only [nil_append, cons_append, List.cons.injEq] at equal
      exact absurd (equal.1 ▸ mem_cons_self) leftFree
    | cons other right =>
      simp only [cons_append, List.cons.injEq] at equal
      rcases induction (fun mem => leftFree (mem_cons_of_mem _ mem))
        (fun mem => rightFree (mem_cons_of_mem _ mem)) equal.2 with ⟨same, rest⟩
      exact ⟨by rw [equal.1, same], rest⟩

variable [DecidableEq Item]

lemma segmentsOf_ne_nil (text : List Item) : segmentsOf separator text ≠ [] :=
  splitOnP_ne_nil _ _

lemma joined_segmentsOf (rest : List Item) :
    joined separator (segmentsOf separator (separator :: rest)) = separator :: rest := by
  rw [joined_eq_intercalate (segmentsOf_ne_nil _), segmentsOf, drop_one, tail_cons,
    intercalate_splitOn]

lemma segmentsOf_joined (nonempty : segments ≠ [])
    (free : ∀ segment ∈ segments, separator ∉ segment) :
    segmentsOf separator (joined separator segments) = segments := by
  rw [segmentsOf, joined_eq_intercalate nonempty, drop_one, tail_cons,
    splitOn_intercalate _ free nonempty]

lemma not_mem_splitOn {items segment : List Item} (mem : segment ∈ items.splitOn separator) :
    separator ∉ segment := by
  induction items generalizing segment with
  | nil =>
    simp at mem
    simp [mem]
  | cons item items induction =>
    rw [splitOn, splitOnP_cons_eq_if_modifyHead] at mem
    split at mem
    case isTrue =>
      rcases mem_cons.mp mem with equal | later
      · simp [equal]
      · exact induction later
    case isFalse apart =>
      cases split : items.splitOnP (· == separator) with
      | nil => exact absurd split (splitOnP_ne_nil _ _)
      | cons first others =>
        rw [split, modifyHead_cons, mem_cons] at mem
        have earlier : ∀ other ∈ first :: others, separator ∉ other := by
          intro other present
          apply induction
          rw [splitOn, split]
          exact present
        rcases mem with equal | later
        · rw [equal, mem_cons, not_or]
          refine ⟨?_, earlier first mem_cons_self⟩
          intro same
          exact apart (by simp [same])
        · exact earlier segment (mem_cons_of_mem _ later)

lemma not_mem_segmentsOf {text segment : List Item}
    (mem : segment ∈ segmentsOf separator text) : separator ∉ segment :=
  not_mem_splitOn mem

end Segments

end IronTraffic
