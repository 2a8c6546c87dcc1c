import IronTraffic.Foundation.Split
import IronTraffic.Http.Forwarded

/-! # Splitting around quoted strings

A text whose quoted strings are all closed, with no delimiter outside of them, goes whole into
the piece at hand.
-/

namespace IronTraffic.Http

open List

/-- Bytes outside quotes that are no delimiter, and quoted strings without escapes. -/
inductive Closed (delim : UInt8) : Bytes → Prop
  | nil : Closed delim []
  | plain {byte : UInt8} {rest : Bytes} (notQuote : byte ≠ quote) (notDelim : byte ≠ delim)
      (closed : Closed delim rest) : Closed delim (byte :: rest)
  | quoted {body rest : Bytes} (inside : ∀ byte ∈ body, byte ≠ quote ∧ byte ≠ backslash)
      (closed : Closed delim rest) : Closed delim (quote :: (body ++ quote :: rest))

variable {delim : UInt8} {text body : Bytes}

lemma Closed.of_plain (plain : ∀ byte ∈ text, byte ≠ quote ∧ byte ≠ delim) : Closed delim text := by
  induction text with
  | nil => exact .nil
  | cons byte text induction =>
    rw [forall_mem_cons] at plain
    exact .plain plain.1.1 plain.1.2 (induction plain.2)

lemma Closed.append (closed : Closed delim left) (others : Closed delim right) :
    Closed delim (left ++ right) := by
  induction closed with
  | nil => exact others
  | plain notQuote notDelim _ induction => exact .plain notQuote notDelim induction
  | quoted inside _ induction =>
    rw [cons_append, append_assoc]
    exact .quoted inside induction

def prependPiece (text : Bytes) : List Bytes → List Bytes
  | [] => [text]
  | piece :: pieces => (text ++ piece) :: pieces

lemma consPiece_prependPiece (byte : UInt8) (text : Bytes) (pieces : List Bytes) :
    consPiece byte (prependPiece text pieces) = prependPiece (byte :: text) pieces := by
  cases pieces <;> rfl

lemma prependPiece_append (left right : Bytes) (pieces : List Bytes) :
    prependPiece left (prependPiece right pieces) = prependPiece (left ++ right) pieces := by
  cases pieces with
  | nil => rfl
  | cons piece pieces => simp only [prependPiece, append_assoc]

lemma prependPiece_nil (some : pieces ≠ []) : prependPiece [] pieces = pieces := by
  cases pieces with
  | nil => exact absurd rfl some
  | cons piece pieces => rfl

lemma topLevelSplitFrom_ne_nil (delim : UInt8) (inQuotes escaped : Bool) (input : Bytes) :
    topLevelSplitFrom delim inQuotes escaped input ≠ [] := by
  have cons : ∀ (byte : UInt8) (pieces : List Bytes), consPiece byte pieces ≠ [] := by
    intro byte pieces
    cases pieces <;> exact cons_ne_nil _ _
  fun_cases topLevelSplitFrom delim inQuotes escaped input
  case case1 => exact cons_ne_nil _ _
  case case6 => exact cons_ne_nil _ _
  all_goals exact cons _ _

lemma topLevelSplitFrom_inside (delim : UInt8)
    (inside : ∀ byte ∈ body, byte ≠ quote ∧ byte ≠ backslash) (rest : Bytes) :
    topLevelSplitFrom delim true false (body ++ rest) =
      prependPiece body (topLevelSplitFrom delim true false rest) := by
  induction body with
  | nil => exact (prependPiece_nil (topLevelSplitFrom_ne_nil delim true false rest)).symm
  | cons byte body induction =>
    rw [forall_mem_cons] at inside
    rw [cons_append, topLevelSplitFrom, if_neg inside.1.2]
    simp only [ne_eq, inside.1.1, not_false_eq_true, decide_true]
    rw [induction inside.2, consPiece_prependPiece]

lemma topLevelSplit_quoted (delim : UInt8)
    (inside : ∀ byte ∈ body, byte ≠ quote ∧ byte ≠ backslash) (rest : Bytes) :
    topLevelSplit delim (quote :: (body ++ quote :: rest)) =
      prependPiece (quote :: (body ++ [quote])) (topLevelSplit delim rest) := by
  have closes : topLevelSplitFrom delim true false (quote :: rest) =
      prependPiece [quote] (topLevelSplitFrom delim false false rest) := by
    rfl
  unfold topLevelSplit
  rw [topLevelSplitFrom, if_pos rfl, topLevelSplitFrom_inside delim inside, closes,
    prependPiece_append, consPiece_prependPiece]

lemma topLevelSplit_append (closed : Closed delim text) (rest : Bytes) :
    topLevelSplit delim (text ++ rest) = prependPiece text (topLevelSplit delim rest) := by
  induction closed with
  | nil => exact (prependPiece_nil (topLevelSplitFrom_ne_nil delim false false rest)).symm
  | plain notQuote notDelim _ induction =>
    unfold topLevelSplit at induction ⊢
    rw [cons_append, topLevelSplitFrom, if_neg notQuote, if_neg notDelim, induction,
      consPiece_prependPiece]
  | quoted inside _ induction =>
    rw [cons_append, append_assoc, cons_append,
      topLevelSplit_quoted delim inside, induction, prependPiece_append]
    simp

lemma topLevelSplit_of_closed (closed : Closed delim text) : topLevelSplit delim text = [text] := by
  have whole := topLevelSplit_append closed []
  rw [append_nil] at whole
  rw [whole]
  change [text ++ []] = [text]
  rw [append_nil]

lemma topLevelSplit_cons (notQuote : delim ≠ quote) (closed : Closed delim text) (rest : Bytes) :
    topLevelSplit delim (text ++ delim :: rest) = text :: topLevelSplit delim rest := by
  have atDelim : topLevelSplit delim (delim :: rest) = [] :: topLevelSplit delim rest := by
    rw [topLevelSplit, topLevelSplitFrom, if_neg notQuote, if_pos rfl]
    rfl
  rw [topLevelSplit_append closed, atDelim, prependPiece, append_nil]

/-! ## Values -/

lemma trimOws_of_plain {value : Bytes} (plain : ∀ byte ∈ value, isOws byte = false) :
    trimOws value = value := by
  have first : ∀ text : Bytes, text ≠ [] → (∀ byte ∈ text, isOws byte = false) →
      text.findIdx? (fun byte => !isOws byte) = some 0 := by
    intro text some plain
    cases text with
    | nil => exact absurd rfl some
    | cons byte text => simp [findIdx?_cons, plain byte mem_cons_self]
  by_cases none : value = []
  · rw [none]
    rfl
  · have last := first value.reverse (by simpa using none) (by simpa using plain)
    simp only [trimOws, trimRange, first value none plain, last, Option.getD_some, Nat.sub_zero]
    simp [slice]

lemma unescape_of_plain (plain : ∀ byte ∈ body, byte ≠ backslash) : unescape false body = body := by
  induction body with
  | nil => rfl
  | cons byte body induction =>
    rw [forall_mem_cons] at plain
    rw [unescape, if_neg plain.1, induction plain.2]

lemma isQuoted_quoted (body : Bytes) : isQuoted (quote :: (body ++ [quote])) = true := by
  have last : (quote :: (body ++ [quote])).getLast? = some quote := by
    rw [← cons_append, getLast?_append]
    rfl
  simp [isQuoted, last]

lemma interiorOf_quoted (body : Bytes) : interiorOf (quote :: (body ++ [quote])) = body := by
  simp [interiorOf]

end IronTraffic.Http
