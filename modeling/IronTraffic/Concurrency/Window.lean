import Mathlib

/-! # The sliding minimum

`MonotonicMinDeque` keeps, of the last `capacity` values, those that no later value
undercuts. The invariant says so by numbers: the entries are values of the window in
order, and every value of the window has an entry at or after it that is no larger.
-/

namespace IronTraffic.Concurrency

open List

/-- Pairs of a value and its sequence number, front first. -/
structure MonotonicMinDeque where
  buf : List (Nat × Nat)
  seq : Nat
  capacity : Nat

namespace MonotonicMinDeque

def new (capacity : Nat) : MonotonicMinDeque := ⟨[], 0, max capacity 1⟩

def push (deque : MonotonicMinDeque) (value : Nat) : MonotonicMinDeque :=
  -- `saturating_add` of `u64`
  let seq := min (deque.seq + 1) (2 ^ 64 - 1)
  let buf := deque.buf.rdropWhile (fun back => decide (value ≤ back.1)) ++ [(value, seq)]
  let cutoff := seq - deque.capacity
  { deque with buf := buf.dropWhile (fun front => decide (front.2 ≤ cutoff)), seq := seq }

def min (deque : MonotonicMinDeque) : Option Nat := deque.buf.head?.map Prod.fst

def retained (deque : MonotonicMinDeque) : Nat := deque.buf.length

/-- Values and sequence numbers grow together from front to back. -/
abbrev Ascending (buf : List (Nat × Nat)) : Prop :=
  buf.Pairwise fun front back => front.1 < back.1 ∧ front.2 < back.2

structure Exact (values : List Nat) (deque : MonotonicMinDeque) : Prop where
  seq : deque.seq = values.length
  positive : 0 < deque.capacity
  ascending : Ascending deque.buf
  pushed : ∀ entry ∈ deque.buf,
    values.length < entry.2 + deque.capacity ∧ values[entry.2 - 1]? = some entry.1 ∧ 0 < entry.2
  undercut : ∀ index value, values[index]? = some value →
    values.length ≤ index + deque.capacity → ∃ entry ∈ deque.buf, entry.1 ≤ value ∧ index < entry.2

lemma dropWhile_eq_filter {Item : Type u} {test} :
    ∀ {list : List Item}, list.Pairwise (fun front back => test back → test front) →
      list.dropWhile test = list.filter (fun item => !test item)
  | [], _ => rfl
  | item :: list, ordered => by
    rw [pairwise_cons] at ordered
    by_cases drops : test item
    · rw [dropWhile_cons_of_pos drops, filter_cons_of_neg (by simp [drops]),
        dropWhile_eq_filter ordered.2]
    · rw [dropWhile_cons_of_neg drops, eq_comm, filter_eq_self]
      intro other mem
      rcases mem_cons.mp mem with rfl | later
      · simp [drops]
      · simpa using fun dropped => drops (ordered.1 other later dropped)

lemma rdropWhile_eq_filter {test} {list : List Item}
    (ordered : list.Pairwise (fun front back => test front → test back)) :
    list.rdropWhile test = list.filter (fun item => !test item) := by
  rw [rdropWhile, dropWhile_eq_filter (pairwise_reverse.mpr ordered),
    filter_reverse, reverse_reverse]

variable {deque : MonotonicMinDeque} {values : List Nat} {value : Nat}

/-- What a push keeps, by membership. -/
lemma push_buf (ascending : Ascending deque.buf)
    (earlier : ∀ entry ∈ deque.buf, entry.2 < (deque.push value).seq) :
    Ascending (deque.push value).buf ∧ ∀ entry, entry ∈ (deque.push value).buf ↔
      (entry ∈ deque.buf ∧ entry.1 < value ∨ entry = (value, (deque.push value).seq)) ∧
        (deque.push value).seq - deque.capacity < entry.2 := by
  have kept : deque.buf.rdropWhile (fun back => decide (value ≤ back.1)) =
      deque.buf.filter (fun back => decide (back.1 < value)) := by
    rw [rdropWhile_eq_filter (ascending.imp fun below => by simp; omega)]
    simp only [← decide_not, not_le]
  have appended : Ascending (deque.buf.filter (fun back => decide (back.1 < value)) ++
      [(value, (deque.push value).seq)]) := by
    refine pairwise_append.mpr ⟨ascending.filter _, pairwise_singleton _ _, ?_⟩
    intro front mem back isLast
    rw [mem_filter, decide_eq_true_eq] at mem
    rw [mem_singleton.mp isLast]
    exact ⟨mem.2, earlier front mem.1⟩
  have result : (deque.push value).buf = filter
      (fun entry => !decide (entry.2 ≤ (deque.push value).seq - deque.capacity))
      (deque.buf.filter (fun back => decide (back.1 < value)) ++
        [(value, (deque.push value).seq)]) := by
    rw [← kept]
    exact dropWhile_eq_filter (kept ▸ appended.imp fun below => by simp; omega)
  rw [result]
  refine ⟨appended.filter _, fun entry => ?_⟩
  rw [mem_filter, mem_append, mem_filter, mem_singleton]
  simp only [decide_eq_true_eq, ← decide_not, not_le]

lemma Exact.push (holds : Exact values deque) (few : values.length + 1 < 2 ^ 64) (value : Nat) :
    Exact (values ++ [value]) (deque.push value) := by
  have seq : (deque.push value).seq = values.length + 1 := by
    have := holds.seq
    simp only [MonotonicMinDeque.push]
    omega
  have inside : ∀ entry ∈ deque.buf, entry.2 ≤ values.length := by
    intro entry mem
    have bound := (List.getElem?_eq_some_iff.mp (holds.pushed entry mem).2.1).1
    omega
  rcases push_buf holds.ascending (fun entry mem => by
    rw [seq]
    exact Nat.lt_succ_of_le (inside entry mem)) with ⟨ascending, kept⟩
  rw [seq] at kept
  have positive := holds.positive
  have length : (values ++ [value]).length = values.length + 1 := by simp
  refine ⟨seq.trans length.symm, positive, ascending, ?_, ?_⟩
  · intro entry mem
    rcases (kept entry).mp mem with ⟨⟨old, -⟩ | rfl, recent⟩
    · have hit := holds.pushed entry old
      have bound := inside entry old
      refine ⟨?_, ?_, hit.2.2⟩
      · rw [length]
        change _ < entry.2 + deque.capacity
        omega
      · rw [getElem?_append_left (by omega)]
        exact hit.2.1
    · refine ⟨?_, by simp, Nat.succ_pos _⟩
      rw [length]
      change _ < _ + deque.capacity
      omega
  · intro index other hit recent
    rw [length] at recent
    change _ ≤ index + deque.capacity at recent
    have last : (value, values.length + 1) ∈ (deque.push value).buf :=
      (kept _).mpr ⟨.inr rfl, by simp; omega⟩
    have bound : index < values.length + 1 := length ▸ (List.getElem?_eq_some_iff.mp hit).1
    by_cases isLast : index = values.length
    · subst isLast
      rw [getElem?_append_right (le_refl _), Nat.sub_self] at hit
      cases hit
      exact ⟨_, last, le_refl _, bound⟩
    · rw [getElem?_append_left (by omega)] at hit
      rcases holds.undercut index other hit (by omega) with ⟨entry, mem, below, after⟩
      by_cases stays : entry.1 < value
      · exact ⟨entry, (kept entry).mpr ⟨.inl ⟨mem, stays⟩, by omega⟩, below, after⟩
      · exact ⟨_, last, by simp; omega, bound⟩

lemma Exact.run (capacity : Nat) (few : values.length < 2 ^ 64) :
    Exact values (values.foldl MonotonicMinDeque.push (new capacity)) := by
  induction values using reverseRecOn with
  | nil =>
    exact ⟨rfl, lt_of_lt_of_le Nat.one_pos (le_max_right _ _), .nil, by simp [new], by simp⟩
  | append_singleton values value induction =>
    rw [length_append, length_singleton] at few
    rw [foldl_append]
    exact (induction (by omega)).push few value

lemma Exact.min_eq (holds : Exact values deque) :
    deque.min = (values.drop (values.length - deque.capacity)).min? := by
  have undercut : ∀ value ∈ values.drop (values.length - deque.capacity),
      ∃ entry ∈ deque.buf, entry.1 ≤ value := by
    intro value mem
    rcases mem_iff_getElem?.mp mem with ⟨index, hit⟩
    rw [getElem?_drop] at hit
    rcases holds.undercut _ value hit (by omega) with ⟨entry, stored, below, -⟩
    exact ⟨entry, stored, below⟩
  have ascending := holds.ascending
  have pushed := holds.pushed
  rw [MonotonicMinDeque.min]
  cases stored : deque.buf with
  | nil =>
    rw [stored] at undercut
    have empty : values.drop (values.length - deque.capacity) = [] :=
      eq_nil_iff_forall_not_mem.mpr fun value mem => by simpa using undercut value mem
    rw [empty]
    rfl
  | cons front rest =>
    rw [stored] at undercut ascending pushed
    rw [head?_cons, Option.map_some, eq_comm, min?_eq_some_iff]
    refine ⟨mem_iff_getElem?.mpr ⟨front.2 - 1 - (values.length - deque.capacity), ?_⟩, ?_⟩
    · rcases pushed front mem_cons_self with ⟨recent, hit, positive⟩
      rw [getElem?_drop, ← hit]
      congr 1
      omega
    · intro value mem
      rcases undercut value mem with ⟨entry, isStored, below⟩
      rcases mem_cons.mp isStored with rfl | later
      · exact below
      · exact (((pairwise_cons.mp ascending).1 entry later).1.le).trans below

lemma Exact.retained_le (holds : Exact values deque) : deque.retained ≤ deque.capacity := by
  have nodup : (deque.buf.map Prod.snd).Nodup :=
    pairwise_map.mpr (holds.ascending.imp fun below => below.2.ne)
  have window : (deque.buf.map Prod.snd).toFinset ⊆
      Finset.Ioc (values.length - deque.capacity) values.length := by
    intro seq mem
    rcases mem_map.mp (mem_toFinset.mp mem) with ⟨entry, stored, rfl⟩
    rcases holds.pushed entry stored with ⟨recent, hit, positive⟩
    have bound := (List.getElem?_eq_some_iff.mp hit).1
    rw [Finset.mem_Ioc]
    omega
  have counted := Finset.card_le_card window
  rw [toFinset_card_of_nodup nodup, length_map, Nat.card_Ioc] at counted
  rw [retained]
  omega

lemma capacity_foldl_push (values : List Nat) :
    (values.foldl push deque).capacity = deque.capacity := by
  induction values generalizing deque with
  | nil => rfl
  | cons value values induction => exact induction

/-- The value just pushed is in the window. -/
lemma min_push_isSome (positive : 0 < deque.capacity) : (deque.push value).min.isSome := by
  rw [min, Option.isSome_map, isSome_head?, push, ne_eq, dropWhile_eq_nil_iff]
  intro aged
  have last := aged _ (mem_append_right _ (mem_singleton_self _))
  simp only [decide_eq_true_eq] at last
  omega

/-- The minimum of the last `capacity` values, with no more entries than that. A capacity of 0
counts as 1. -/
theorem min_of_pushes (capacity : Nat) (values : List Nat) (few : values.length < 2 ^ 64) :
    (values.foldl push (new capacity)).min =
        (values.drop (values.length - max capacity 1)).min? ∧
      (values.foldl push (new capacity)).retained ≤ max capacity 1 := by
  have holds := Exact.run capacity few
  have atMost : (values.foldl push (new capacity)).capacity = max capacity 1 :=
    capacity_foldl_push values
  rw [← atMost]
  exact ⟨holds.min_eq, holds.retained_le⟩

theorem min_of_pushes_five :
    ([4, 1, 3, 5, 2].foldl push (new 3)).min = some 2 ∧
      ([4, 1, 3, 5, 2].foldl push (new 3)).retained ≤ 3 := by
  rcases min_of_pushes 3 [4, 1, 3, 5, 2] (by decide) with ⟨least, few⟩
  exact ⟨least.trans (by decide), few⟩

/-- A deque of capacity 0 keeps the last value, which is not among the last 0 values. -/
theorem zeroCapacity_retains :
    ([7].foldl push (new 0)).min = some 7 ∧ (([7] : List Nat).drop (1 - 0)).min? = none ∧
      ¬ ([7].foldl push (new 0)).retained ≤ 0 := by
  decide

end MonotonicMinDeque

end IronTraffic.Concurrency
