import Mathlib

/-! # Checked slices

`slice::get` over a range answers `None` when the range leaves the slice.
Arenas only ever grow at the end, so the facts here are about slices of a list
to which something was appended.
-/

namespace IronTraffic

open List

/-- `items.get(start..stop)`. -/
def slice (items : List Item) (start stop : Nat) : Option (List Item) :=
  if start ≤ stop ∧ stop ≤ items.length then
    some ((items.drop start).take (stop - start))
  else
    none

/-- A byte range. -/
structure Span where
  start : Nat
  stop : Nat
  deriving DecidableEq

namespace Span

def empty (spot : Nat) : Span := ⟨spot, spot⟩

def len (span : Span) : Nat := span.stop - span.start

def slice (span : Span) (source : List Item) : Option (List Item) :=
  IronTraffic.slice source span.start span.stop

end Span

lemma lt_of_getElem? {items : List Item} (hit : items[index]? = some item) :
    index < items.length := (List.getElem?_eq_some_iff.mp hit).1

lemma drop_eq_cons {items rest : List Item} (dropped : items.drop index = item :: rest) :
    items[index]? = some item ∧ items.drop (index + 1) = rest := by
  rw [← head?_drop, ← tail_drop, dropped]
  exact ⟨rfl, rfl⟩

lemma slice_append (before part : List Item) :
    slice (before ++ part) before.length (before.length + part.length) = some part := by
  simp [slice]

variable {items part : List Item} {start stop index : Nat}

section

variable (hit : slice items start stop = some part)

include hit

lemma slice_append_of_eq_some (after : List Item) :
    slice (items ++ after) start stop = some part := by
  unfold slice at hit ⊢
  split at hit
  case isTrue bounds =>
    have grown : start ≤ stop ∧ stop ≤ (items ++ after).length := by
      simp only [length_append]
      omega
    simp only [grown, and_self, ↓reduceIte]
    rw [← hit, drop_append_of_le_length (by omega), take_append_of_le_length (by simp; omega)]
  case isFalse => cases hit

lemma getElem?_of_slice (inside : index < part.length) : items[start + index]? = part[index]? := by
  unfold slice at hit
  split at hit
  · cases hit
    rw [length_take] at inside
    rw [getElem?_take_of_lt (by omega), getElem?_drop]
  · cases hit

lemma mem_of_slice (mem : item ∈ part) : item ∈ items := by
  rcases getElem?_of_mem mem with ⟨index, isItem⟩
  have inside := lt_of_getElem? isItem
  exact mem_of_getElem? ((getElem?_of_slice hit inside).trans isItem)

end

lemma getElem?_append_of_eq_some (hit : items[index]? = some item) (after : List Item) :
    (items ++ after)[index]? = some item := by
  rw [getElem?_append_left (lt_of_getElem? hit)]
  exact hit

end IronTraffic
