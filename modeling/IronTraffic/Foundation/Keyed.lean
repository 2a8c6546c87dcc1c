import Mathlib

/-! # Keyed lists

A map as a list of keys and values in which no key is repeated.
-/

namespace IronTraffic

open List

variable {Key Value : Type} {map : List (Key × Value)} {key : Key}

section Reading

variable [BEq Key] [LawfulBEq Key]

lemma lookup_eq_some_iff (nodup : (map.map Prod.fst).Nodup) :
    map.lookup key = some value ↔ (key, value) ∈ map := by
  induction map with
  | nil => simp
  | cons entry map induction =>
    rw [map_cons, nodup_cons] at nodup
    rw [lookup_cons, mem_cons]
    by_cases isKey : key = entry.1
    · rw [beq_iff_eq.mpr isKey]
      constructor
      · intro hit
        cases hit
        exact .inl (Prod.ext isKey rfl)
      · rintro (here | later)
        · rw [← here]
        · exact absurd (mem_map.mpr ⟨_, later, isKey⟩) nodup.1
    · rw [beq_eq_false_iff_ne.mpr isKey]
      rw [induction nodup.2]
      constructor
      · exact .inr
      · rintro (here | later)
        · exact absurd (congrArg Prod.fst here) isKey
        · exact later

lemma lookup_isNone_iff : (map.lookup key).isNone ↔ key ∉ map.map Prod.fst := by
  rw [Option.isNone_iff_eq_none, lookup_eq_none_iff]
  simp only [bne_iff_ne, ne_eq, mem_map, not_exists, not_and]
  constructor
  · intro absent entry mem isKey
    exact absent entry mem isKey.symm
  · intro absent entry mem isKey
    exact absent entry mem isKey.symm

end Reading

section Changing

variable [DecidableEq Key]

def insertKey (map : List (Key × Value)) (key : Key) (value : Value) : List (Key × Value) :=
  (key, value) :: map.filter fun entry => entry.1 ≠ key

def removeKey (map : List (Key × Value)) (key : Key) : List (Key × Value) :=
  map.filter fun entry => entry.1 ≠ key

lemma nodup_removeKey (nodup : (map.map Prod.fst).Nodup) (key : Key) :
    ((removeKey map key).map Prod.fst).Nodup :=
  nodup.sublist (filter_sublist.map _)

lemma nodup_insertKey (nodup : (map.map Prod.fst).Nodup) (key : Key) (value : Value) :
    ((insertKey map key value).map Prod.fst).Nodup := by
  refine nodup_cons.mpr ⟨?_, nodup_removeKey nodup key⟩
  intro mem
  rcases mem_map.mp mem with ⟨entry, kept, isKey⟩
  have other := (mem_filter.mp kept).2
  simp [isKey] at other

variable [BEq Key] [LawfulBEq Key]

lemma lookup_removeKey (map : List (Key × Value)) (key other : Key) :
    (removeKey map key).lookup other = if other = key then none else map.lookup other := by
  unfold removeKey
  induction map with
  | nil => simp
  | cons entry map induction =>
    by_cases removed : entry.1 = key
    · rw [filter_cons_of_neg (by simpa using removed), induction, lookup_cons]
      by_cases isKey : other = key
      · rw [if_pos isKey, if_pos isKey]
      · have notEntry : (other == entry.1) = false := by
          rw [removed]
          simpa using isKey
        rw [if_neg isKey, if_neg isKey, notEntry]
    · rw [filter_cons_of_pos (by simpa using removed), lookup_cons, lookup_cons,
        induction]
      by_cases isKey : other = key
      · have notEntry : (other == entry.1) = false := by
          rw [isKey]
          simpa using Ne.symm removed
        rw [if_pos isKey, if_pos isKey, notEntry]
      · rw [if_neg isKey, if_neg isKey]

lemma lookup_insertKey (map : List (Key × Value)) (key other : Key) (value : Value) :
    (insertKey map key value).lookup other =
      if other = key then some value else map.lookup other := by
  rw [insertKey, lookup_cons]
  by_cases isKey : other = key
  · rw [if_pos isKey, beq_iff_eq.mpr isKey]
  · rw [if_neg isKey, beq_eq_false_iff_ne.mpr isKey]
    exact (lookup_removeKey map key other).trans (if_neg isKey)

lemma length_insertKey_le (value : Value) (small : map.length ≤ bound)
    (room : (map.lookup key).isNone → map.length < bound) :
    (insertKey map key value).length ≤ bound := by
  rw [insertKey, length_cons]
  by_cases absent : (map.lookup key).isNone
  · have kept := length_filter_le (fun entry : Key × Value => decide (entry.1 ≠ key)) map
    have less := room absent
    omega
  · rw [lookup_isNone_iff, not_not, mem_map] at absent
    rcases absent with ⟨entry, mem, isKey⟩
    have dropped : (map.filter fun entry => decide (entry.1 ≠ key)).length < map.length := by
      rw [length_filter_lt_length_iff_exists]
      exact ⟨entry, mem, by simpa using isKey⟩
    omega

omit [BEq Key] [LawfulBEq Key] in
lemma removeKey_of_absent (absent : key ∉ map.map Prod.fst) : removeKey map key = map := by
  rw [removeKey, filter_eq_self]
  intro entry mem
  simp only [ne_eq, decide_eq_true_eq]
  rintro rfl
  exact absent (mem_map_of_mem mem)

lemma length_insertKey_of_absent (value : Value) (absent : map.lookup key = none) :
    (insertKey map key value).length = map.length + 1 := by
  have notThere := lookup_isNone_iff.mp (Option.isNone_iff_eq_none.mpr absent)
  show (removeKey map key).length + 1 = map.length + 1
  rw [removeKey_of_absent notThere]

lemma length_removeKey_of_present (nodup : (map.map Prod.fst).Nodup)
    (present : map.lookup key = some value) : (removeKey map key).length + 1 = map.length := by
  induction map with
  | nil => simp at present
  | cons entry map induction =>
    rw [map_cons, nodup_cons] at nodup
    rw [lookup_cons] at present
    by_cases isKey : key = entry.1
    · have kept : removeKey (entry :: map) key = removeKey map key :=
        filter_cons_of_neg (by simpa using isKey.symm)
      rw [kept, removeKey_of_absent (isKey ▸ nodup.1), length_cons]
    · have kept : removeKey (entry :: map) key = entry :: removeKey map key :=
        filter_cons_of_pos (by simpa using Ne.symm isKey)
      rw [beq_eq_false_iff_ne.mpr isKey] at present
      rw [kept, length_cons, length_cons, induction nodup.2 present]

end Changing

end IronTraffic
