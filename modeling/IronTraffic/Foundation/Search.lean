import IronTraffic.Foundation.Slice

/-! # Searching a byte string

The first occurrence of a pattern, and what is left of it when only a front part
of the text has arrived: the occurrence is found as soon as all of it is there,
and nothing is found before.
-/

namespace IronTraffic

open List

variable {count : Nat}

section Search

variable {Item : Type} [DecidableEq Item]

def findSub (pattern : List Item) : List Item → Option Nat
  | [] => if pattern.isPrefixOf [] then some 0 else none
  | item :: rest =>
    if pattern.isPrefixOf (item :: rest) then some 0
    else (findSub pattern rest).map (· + 1)

variable {pattern text : List Item} {spot : Nat}

lemma found_of_isPrefixOf (here : pattern.isPrefixOf text) :
    ∃ before after, text = before ++ pattern ++ after ∧ before.length = 0 := by
  rcases isPrefixOf_iff_prefix.mp here with ⟨after, equal⟩
  exact ⟨[], after, by simpa using equal.symm, rfl⟩

lemma findSub_found (hit : findSub pattern text = some spot) :
    ∃ before after, text = before ++ pattern ++ after ∧ before.length = spot := by
  induction text generalizing spot with
  | nil =>
    unfold findSub at hit
    split at hit
    case isTrue here =>
      cases hit
      exact found_of_isPrefixOf here
    case isFalse => cases hit
  | cons item rest induction =>
    unfold findSub at hit
    split at hit
    case isTrue here =>
      cases hit
      exact found_of_isPrefixOf here
    case isFalse =>
      rcases Option.map_eq_some_iff.mp hit with ⟨earlier, tail, equal⟩
      rcases induction tail with ⟨before, after, split, length⟩
      refine ⟨item :: before, after, by simp [split], ?_⟩
      rw [length_cons, length, equal]

lemma findSub_le (hit : findSub pattern text = some spot) :
    spot + pattern.length ≤ text.length := by
  rcases findSub_found hit with ⟨before, after, equal, length⟩
  rw [equal, length_append, length_append]
  omega

lemma findSub_of_append (before after : List Item) :
    ∃ spot ≤ before.length, findSub pattern (before ++ pattern ++ after) = some spot := by
  induction before with
  | nil =>
    refine ⟨0, le_refl _, ?_⟩
    have here : pattern.isPrefixOf ([] ++ pattern ++ after) :=
      isPrefixOf_iff_prefix.mpr (prefix_append _ _)
    cases text : ([] : List Item) ++ pattern ++ after with
    | nil | cons item rest =>
      rw [text] at here
      rw [findSub, if_pos here]
  | cons item before induction =>
    rcases induction with ⟨spot, bound, hit⟩
    rw [cons_append, cons_append, findSub]
    split
    · exact ⟨0, Nat.zero_le _, rfl⟩
    · refine ⟨spot + 1, ?_, by rw [hit]; rfl⟩
      rw [length_cons]
      omega

section

variable (hit : findSub pattern text = some spot)

include hit

lemma findSub_append (more : List Item) : findSub pattern (text ++ more) = some spot := by
  induction text generalizing spot with
  | nil =>
    unfold findSub at hit
    split at hit
    case isFalse => cases hit
    case isTrue empty =>
      cases hit
      have nil : pattern = [] := by
        simpa using isPrefixOf_iff_prefix.mp empty
      subst pattern
      cases more <;> simp [findSub]
  | cons item rest induction =>
    have bound := findSub_le hit
    rw [findSub] at hit
    rw [cons_append, findSub]
    split at hit
    case isTrue here =>
      have whole : pattern.isPrefixOf (item :: (rest ++ more)) := by
        rw [ isPrefixOf_iff_prefix] at here ⊢
        exact here.trans (prefix_append (item :: rest) more)
      rw [if_pos whole]
      exact hit
    case isFalse notHere =>
      rcases Option.map_eq_some_iff.mp hit with ⟨earlier, tail, equal⟩
      have notWhole : ¬pattern.isPrefixOf (item :: (rest ++ more)) := by
        intro whole
        rw [ isPrefixOf_iff_prefix] at whole notHere
        exact notHere (prefix_of_prefix_length_le whole
          (prefix_append (item :: rest) more) (by omega))
      rw [if_neg notWhole, induction tail, Option.map_some, equal]

omit hit in
lemma findSub_of_take (early : findSub pattern (text.take count) = some spot) :
    findSub pattern text = some spot := by
  have whole := findSub_append early (text.drop count)
  rwa [take_append_drop] at whole

lemma findSub_take_none (short : count < spot + pattern.length) :
    findSub pattern (text.take count) = none := by
  cases early : findSub pattern (text.take count) with
  | none => rfl
  | some other =>
    cases hit.symm.trans (findSub_of_take early)
    have inside := findSub_le early
    rw [length_take] at inside
    omega

lemma findSub_take (enough : spot + pattern.length ≤ count) :
    findSub pattern (text.take count) = some spot := by
  rcases findSub_found hit with ⟨before, after, equal, length⟩
  have front : text.take count =
      before ++ pattern ++ after.take (count - (before ++ pattern).length) := by
    rw [equal, take_append, take_of_length_le]
    rw [length_append]
    omega
  rcases @findSub_of_append _ _ pattern before (after.take (count - (before ++ pattern).length))
    with ⟨other, _, early⟩
  rw [← front] at early
  cases hit.symm.trans (findSub_of_take early)
  exact early

end

lemma findSub_take_of_none (absent : findSub pattern text = none) (count : Nat) :
    findSub pattern (text.take count) = none := by
  cases early : findSub pattern (text.take count) with
  | none => rfl
  | some other => cases absent.symm.trans (findSub_of_take early)

end Search

end IronTraffic
