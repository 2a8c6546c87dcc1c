import Mathlib

/-! # Sums of weights over a list -/

namespace IronTraffic

open List

/-- Replacing an element moves the sum by the difference of the weights. -/
lemma sum_map_set {weight : Item → Nat} {items : List Item} {item : Item} (next : Item)
    (hit : items[index]? = some item) :
    ((items.set index next).map weight).sum + weight item =
      (items.map weight).sum + weight next := by
  induction items generalizing index with
  | nil => cases hit
  | cons head rest induction =>
    cases index with
    | zero =>
      cases hit
      simp only [set_cons_zero, map_cons, sum_cons]
      omega
    | succ index =>
      have later := induction hit
      simp only [set_cons_succ, map_cons, sum_cons]
      omega

end IronTraffic
