import IronTraffic.Foundation.Fallible
import IronTraffic.Http.Path

/-! # Merged slashes

Merging in place drops the empty segments but a last one.
-/

namespace IronTraffic.Http

open List

/-! ## Merging bytes -/

def squeeze : Bool → Bytes → Bytes
  | _, [] => []
  | afterSlash, byte :: rest =>
    if byte = slash then
      if afterSlash then squeeze true rest else slash :: squeeze true rest
    else byte :: squeeze false rest

lemma squeeze_true (bytes : Bytes) :
    squeeze true bytes = squeeze false (bytes.dropWhile (· == slash)) := by
  induction bytes with
  | nil => rfl
  | cons byte rest induction =>
    by_cases isSlash : byte = slash
    · subst byte
      rw [squeeze, if_pos rfl, if_pos rfl, induction, dropWhile_cons_of_pos (by decide)]
    · rw [dropWhile_cons_of_neg (by simpa using isSlash), squeeze, squeeze, if_neg isSlash,
        if_neg isSlash]

lemma length_squeeze_le (bytes : Bytes) (afterSlash) :
    (squeeze afterSlash bytes).length ≤ bytes.length := by
  induction bytes generalizing afterSlash with
  | nil => exact le_refl _
  | cons byte rest induction =>
    rw [squeeze]
    split
    · split
      case isTrue => exact le_trans (induction true) (Nat.le_succ _)
      case isFalse => exact Nat.succ_le_succ (induction true)
    · exact Nat.succ_le_succ (induction false)

variable {buf segment : Bytes}

lemma drop_skipSlashes (size : len ≤ buf.length) {turns read : Nat} (enough : len ≤ read + turns) :
    (buf.take len).drop (skipSlashes buf len turns read) =
      ((buf.take len).drop read).dropWhile (· == slash) := by
  induction turns generalizing read with
  | zero =>
    rw [skipSlashes, drop_eq_nil_of_le (by rw [length_take]; omega)]
    rfl
  | succ turns induction =>
    rw [skipSlashes]
    by_cases inside : read < len
    · have there : read < (buf.take len).length := by
        rw [length_take]
        omega
      have same : buf[read]? = some (buf.take len)[read] := by
        rw [← getElem?_eq_getElem there, getElem?_take_of_lt inside]
      rw [drop_eq_getElem_cons there]
      by_cases isSlash : (buf.take len)[read] = slash
      · rw [if_pos ⟨inside, by rw [same, isSlash]⟩, induction (by omega),
          dropWhile_cons_of_pos (by simpa using isSlash)]
      · rw [if_neg (fun both => isSlash (Option.some.inj (same.symm.trans both.2))),
          dropWhile_cons_of_neg (by simpa using isSlash), drop_eq_getElem_cons there]
    · rw [if_neg (fun both => inside both.1), drop_eq_nil_of_le (by rw [length_take]; omega)]
      rfl

lemma le_skipSlashes (buf : Bytes) (len : Nat) (turns read) :
    read ≤ skipSlashes buf len turns read := by
  induction turns generalizing read with
  | zero => exact le_refl read
  | succ turns induction =>
    rw [skipSlashes]
    split
    · exact le_trans (Nat.le_succ read) (induction (read + 1))
    · exact le_refl read

lemma mergeSlashesLoop_squeeze {read write : Nat} (size : len ≤ buf.length) (behind : write ≤ read)
    (enough : len ≤ read + turns) :
    (mergeSlashesLoop len turns buf read write).1.take
        (mergeSlashesLoop len turns buf read write).2 =
      buf.take write ++ squeeze false ((buf.take len).drop read) := by
  induction turns generalizing buf read write with
  | zero =>
    rw [mergeSlashesLoop, drop_eq_nil_of_le (by rw [length_take]; omega), squeeze, append_nil]
  | succ turns induction =>
    rw [mergeSlashesLoop]
    by_cases inside : read < len
    · have there : read < (buf.take len).length := by
        rw [length_take]
        omega
      have byteAt : buf[read]?.getD 0 = (buf.take len)[read] := by
        rw [← getElem?_take_of_lt inside, getElem?_eq_getElem there]
        rfl
      have unread := drop_eq_getElem_cons there
      generalize (buf.take len)[read] = byte at byteAt unread
      have ahead : ∀ byte, ((buf.set write byte).take len).drop (read + 1) =
          (buf.take len).drop (read + 1) := by
        intro byte
        rw [drop_take, drop_set_of_lt (by omega), ← drop_take]
      have kept : ∀ byte, (buf.set write byte).take (write + 1) = buf.take write ++ [byte] := by
        intro byte
        rw [take_add_one, take_set_of_le (le_refl _), getElem?_set_self (by omega)]
        rfl
      simp only [if_pos inside, byteAt]
      by_cases isSlash : byte = slash
      · subst isSlash
        simp only [if_true]
        have further := le_skipSlashes (buf.set write slash) len len (read + 1)
        rw [induction (by rw [length_set]; exact size) (by omega) (by omega), kept,
          drop_skipSlashes (by rw [length_set]; exact size) (by omega), ahead,
          ← squeeze_true, unread, squeeze, if_pos rfl, if_neg Bool.false_ne_true]
        simp
      · simp only [if_neg isSlash]
        rw [induction (by rw [length_set]; exact size) (by omega) (by omega), kept, ahead,
          unread, squeeze, if_neg isSlash]
        simp
    · rw [if_neg inside, drop_eq_nil_of_le (by rw [length_take]; omega), squeeze, append_nil]

/-! ## Merging segments -/

def squeezed : List Bytes → List Bytes
  | [] => []
  | [last] => [last]
  | segment :: next :: rest =>
    if segment = [] then squeezed (next :: rest) else segment :: squeezed (next :: rest)

lemma squeezed_ne_nil (nonempty : segments ≠ []) : squeezed segments ≠ [] := by
  induction segments using squeezed.induct with
  | case1 | case2 => exact nonempty
  | case3 next rest induction =>
    exact induction (cons_ne_nil _ _)
  | case4 segment next rest long induction =>
    rw [squeezed, if_neg long]
    exact cons_ne_nil _ _

lemma mem_of_mem_squeezed (mem : segment ∈ squeezed segments) : segment ∈ segments := by
  induction segments using squeezed.induct with
  | case1 | case2 => exact mem
  | case3 next rest induction =>
    exact mem_cons_of_mem _ (induction mem)
  | case4 first next rest long induction =>
    rw [squeezed, if_neg long, mem_cons] at mem
    rcases mem with same | later
    · exact same ▸ mem_cons_self
    · exact mem_cons_of_mem _ (induction later)

lemma dropLast_squeezed_ne_nil (mem : segment ∈ (squeezed segments).dropLast) :
    segment ≠ [] := by
  induction segments using squeezed.induct with
  | case1 | case2 => cases mem
  | case3 next rest induction =>
    exact induction mem
  | case4 first next rest long induction =>
    rw [squeezed, if_neg long, dropLast_cons_of_ne_nil (squeezed_ne_nil (cons_ne_nil _ _)),
      mem_cons] at mem
    rcases mem with same | later
    · exact same ▸ long
    · exact induction later

lemma squeezed_of_dropLast (long : ∀ segment ∈ segments.dropLast, segment ≠ []) :
    squeezed segments = segments := by
  induction segments using squeezed.induct with
  | case1 | case2 => rfl
  | case3 next rest induction => exact absurd rfl (long [] mem_cons_self)
  | case4 first next rest nonempty induction =>
    rw [squeezed, if_neg nonempty,
      induction fun segment mem => long segment (mem_cons_of_mem _ mem)]

lemma squeeze_append (free : slash ∉ segment) (long : segment ≠ []) (afterSlash) :
    squeeze afterSlash (segment ++ rest) = segment ++ squeeze false rest := by
  induction segment generalizing afterSlash with
  | nil => exact absurd rfl long
  | cons byte segment induction =>
    rw [mem_cons, not_or] at free
    rw [cons_append, squeeze, if_neg (Ne.symm free.1), cons_append]
    cases segment with
    | nil => rfl
    | cons next segment => rw [induction free.2 (cons_ne_nil _ _) false]

lemma squeeze_joined (free : ∀ segment ∈ segments, slash ∉ segment) :
    squeeze false (joined slash segments) = joined slash (squeezed segments) := by
  have atSlash : ∀ bytes, squeeze false (slash :: bytes) = slash :: squeeze true bytes := by
    intro bytes
    rw [squeeze, if_pos rfl, if_neg Bool.false_ne_true]
  have longFirst : ∀ {segment rest : Bytes}, slash ∉ segment → segment ≠ [] →
      squeeze false (slash :: (segment ++ rest)) = slash :: (segment ++ squeeze false rest) := by
    intro segment rest free long
    rw [atSlash, squeeze_append free long]
  induction segments using squeezed.induct with
  | case1 => rfl
  | case2 last =>
    rw [squeezed, joined_cons, joined_nil]
    by_cases empty : last = []
    · subst last
      rfl
    · rw [longFirst (free last mem_cons_self) empty]
      rfl
  | case3 next rest induction =>
    rw [squeezed, if_pos rfl,
      ← induction fun segment mem => free segment (mem_cons_of_mem _ mem),
      joined_cons, joined_cons, nil_append, atSlash, atSlash, squeeze, if_pos rfl, if_pos rfl]
  | case4 first next rest long induction =>
    have others := induction fun segment mem => free segment (mem_cons_of_mem _ mem)
    rw [squeezed, if_neg long, joined_cons, longFirst (free first mem_cons_self) long, others,
      joined_cons]

lemma mergeSlashes_joined (free : ∀ segment ∈ segments, slash ∉ segment)
    (size : len ≤ buf.length) (holds : buf.take len = joined slash segments) :
    (mergeSlashes buf len).1.take (mergeSlashes buf len).2 = joined slash (squeezed segments) := by
  rw [mergeSlashes, mergeSlashesLoop_squeeze size (le_refl _) (by omega), take_zero, nil_append,
    drop_zero, holds, squeeze_joined free]

end IronTraffic.Http
