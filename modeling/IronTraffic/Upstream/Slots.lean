import IronTraffic.Foundation.Fallible
import IronTraffic.Upstream.Registry

/-! # The slots of the registry

The states, the keys, the index and the queue of retired ids describe the same slots. Giving
a free slot a tenant, retiring a live one and freeing a retired one keep it that way.
-/

namespace IronTraffic.Upstream.EndpointRegistryWriter

open List

structure Consistent (writer : EndpointRegistryWriter) : Prop where
  positive : 0 < writer.capacity
  bounded : writer.capacity ≤ maxCapacity
  states_length : writer.states.length = writer.capacity
  stats_length : writer.stats.length = writer.capacity
  keys_length : writer.keys.length = writer.capacity
  cursor : writer.nextFree < writer.capacity
  nodup : (writer.index.map Prod.fst).Nodup
  indexed : ∀ key id, writer.index.lookup key = some id ↔ writer.keys[id]? = some (some key)
  keyed : ∀ id : EndpointId,
    writer.states[id]? = some .live ↔ ∃ key, writer.keys[id]? = some (some key)
  resting_distinct : (writer.retired.map Retired.id).Nodup
  resting : ∀ id : EndpointId,
    id ∈ writer.retired.map Retired.id ↔ writer.states[id]? = some .retired
  live_length : writer.index.length = writer.states.count .live
  resting_length : writer.retired.length = writer.states.count .retired
  counted : writer.interned = (writer.retiredTotal + writer.index.length) % 2 ^ 32
  retired_bounded : writer.retiredTotal < 2 ^ 32

variable {writer : EndpointRegistryWriter}

lemma install_consistent {capacity : Nat} (installed : install capacity = .ok writer) :
    writer.Consistent := by
  rcases of_ite_error installed with ⟨allowed, installed⟩
  cases installed
  constructor <;> simp [getElem?_replicate, count_replicate] <;> omega

/-! ## Counting states -/

lemma count_states (states : List SlotState) :
    states.count .free + states.count .live + states.count .retired = states.length := by
  induction states with
  | nil => rfl
  | cons state states induction =>
    cases state <;> simp <;> omega

variable {key : Bytes} {entry : Retired}

lemma count_set_state {states : List SlotState} (now : states[slot]? = some old) (new state) :
    (states.set slot new).count state + (if old = state then 1 else 0) =
      states.count state + (if new = state then 1 else 0) := by
  rcases List.getElem?_eq_some_iff.mp now with ⟨inside, isOld⟩
  rw [count_set inside, isOld]
  have there : old = state → 0 < states.count state := by
    rintro rfl
    exact count_pos_iff.mpr (mem_of_getElem? now)
  split <;> split <;> simp_all

lemma findFree_some (hit : writer.findFree = some slot) : writer.states[slot]? = some .free := by
  have isFree : writer.isFree slot = true := find?_some hit
  exact beq_iff_eq.mp isFree

def withdraw (writer : EndpointRegistryWriter) (entry : Retired) : EndpointRegistryWriter :=
  { writer with
    states := writer.states.set entry.id .retired
    keys := writer.keys.set entry.id none
    index := removeKey writer.index entry.key
    retired := writer.retired ++ [entry]
    retiredTotal := (writer.retiredTotal + 1) % 2 ^ 32 }

lemma recycleFrom_keeps {Invariant : EndpointRegistryWriter → Prop} {nowMs generation : Nat}
    (keeps : ∀ writer front rest, Invariant writer → writer.retired = front :: rest →
      eligible front nowMs generation = true →
      Invariant { writer with retired := rest, states := writer.states.set front.id .free })
    (left : Nat) (holds : Invariant writer) :
    Invariant (recycleFrom nowMs generation left writer).1 := by
  induction left generalizing writer with
  | zero => exact holds
  | succ left induction =>
    unfold recycleFrom
    cases queue : writer.retired with
    | nil => exact holds
    | cons front rest =>
      simp only
      by_cases ready : eligible front nowMs generation = true
      · rw [if_pos ready]
        exact induction (keeps writer front rest holds queue ready)
      · rw [if_neg ready]
        exact holds

section

variable (sane : writer.Consistent)

include sane

lemma Consistent.live_of_named {id : EndpointId}
    (named : writer.keys[id]? = some (some key)) : writer.states[id]? = some .live :=
  (sane.keyed id).mpr ⟨key, named⟩

lemma Consistent.full_iff :
    writer.index.length + writer.retired.length = writer.capacity ↔
      ∀ slot : Nat, writer.states[slot]? ≠ some .free := by
  have all := count_states writer.states
  rw [sane.states_length] at all
  rw [sane.live_length, sane.resting_length]
  constructor
  · intro full slot free
    have some := count_pos_iff.mpr (mem_of_getElem? free)
    omega
  · intro none
    have zero : writer.states.count .free = 0 := by
      rw [count_eq_zero]
      intro mem
      rcases mem_iff_getElem?.mp mem with ⟨slot, free⟩
      exact none slot free
    omega

/-! ## The scan -/

lemma Consistent.scan_reaches (inside : slot < writer.capacity) :
    ∃ offset < writer.capacity, (writer.nextFree + offset) % 2 ^ 32 % writer.capacity = slot := by
  have cursor := sane.cursor
  have bounded := sane.bounded
  unfold maxCapacity at bounded
  by_cases below : slot < writer.nextFree
  · refine ⟨slot + writer.capacity - writer.nextFree, by omega, ?_⟩
    have sum : writer.nextFree + (slot + writer.capacity - writer.nextFree) =
        slot + writer.capacity := by omega
    have small : slot + writer.capacity < 2 ^ 32 := by omega
    rw [sum, Nat.mod_eq_of_lt small, Nat.add_mod_right, Nat.mod_eq_of_lt inside]
  · refine ⟨slot - writer.nextFree, by omega, ?_⟩
    have sum : writer.nextFree + (slot - writer.nextFree) = slot := by omega
    have small : slot < 2 ^ 32 := by omega
    rw [sum, Nat.mod_eq_of_lt small, Nat.mod_eq_of_lt inside]

lemma Consistent.findFree_none
    (nothing : writer.findFree = none) : ∀ slot : Nat, writer.states[slot]? ≠ some .free := by
  intro slot free
  have inside : slot < writer.capacity := by
    rw [← sane.states_length]
    exact (List.getElem?_eq_some_iff.mp free).1
  rcases sane.scan_reaches inside with ⟨offset, small, reached⟩
  rw [findFree, find?_eq_none] at nothing
  apply nothing slot
  · exact mem_map.mpr ⟨offset, mem_range.mpr small, reached⟩
  · rw [isFree, free]
    rfl

/-! ## The three changes of a slot -/

lemma Consistent.occupy (free : writer.states[slot]? = some .free)
    (absent : writer.index.lookup key = none) : (writer.occupy slot key).Consistent := by
  have insideStates := (List.getElem?_eq_some_iff.mp free).1
  have inside : slot < writer.keys.length := by
    rw [sane.keys_length, ← sane.states_length]
    exact insideStates
  have longer : (insertKey writer.index key slot).length = writer.index.length + 1 :=
    length_insertKey_of_absent slot absent
  have counts := count_set_state free .live
  refine
    { sane with
      states_length := (length_set ..).trans sane.states_length
      stats_length := (length_modify ..).trans sane.stats_length
      keys_length := (length_set ..).trans sane.keys_length
      cursor := Nat.mod_lt _ sane.positive
      nodup := nodup_insertKey sane.nodup key slot
      indexed := ?_
      keyed := ?_
      resting := ?_
      live_length := ?_
      resting_length := ?_
      counted := ?_ }
  · intro other id
    have unnamed : writer.keys[slot]? = some (some other) → writer.states[slot]? = some .live :=
      sane.live_of_named
    have indexed := sane.indexed
    show (insertKey writer.index key slot).lookup other = some id ↔
      (writer.keys.set slot (some key))[id]? = some (some other)
    rw [lookup_insertKey, getElem?_set]
    grind
  · intro id
    have keyed := sane.keyed id
    show (writer.states.set slot .live)[id]? = some .live ↔
      ∃ key', (writer.keys.set slot (some key))[id]? = some (some key')
    simp only [getElem?_set]
    by_cases isSlot : slot = id
    · simp only [if_pos isSlot, if_pos inside, if_pos insideStates, true_iff]
      exact ⟨key, rfl⟩
    · simp only [if_neg isSlot]
      exact keyed
  · intro id
    have resting := sane.resting id
    show id ∈ writer.retired.map Retired.id ↔ (writer.states.set slot .live)[id]? = some .retired
    grind
  · have live := counts .live
    have before := sane.live_length
    show (insertKey writer.index key slot).length = (writer.states.set slot .live).count .live
    simp at live
    omega
  · have retired := counts .retired
    have before := sane.resting_length
    show writer.retired.length = (writer.states.set slot .live).count .retired
    simp at retired
    omega
  · have before := sane.counted
    show (writer.interned + 1) % 2 ^ 32 =
      (writer.retiredTotal + (insertKey writer.index key slot).length) % 2 ^ 32
    omega

lemma Consistent.retire_cases (id) (nowMs generation : Nat) :
    (writer.states[id]? ≠ some .live ∧ writer.retire id nowMs generation = writer) ∨
    ∃ key, writer.keys[id]? = some (some key) ∧
    writer.retire id nowMs generation = writer.withdraw ⟨id, key, generation, nowMs⟩ := by
  unfold EndpointRegistryWriter.retire
  by_cases live : writer.states[id]? = some .live
  · rcases (sane.keyed id).mp live with ⟨key, named⟩
    refine .inr ⟨key, named, ?_⟩
    rw [if_neg (not_not.mpr live)]
    simp only [named]
    rfl
  · exact .inl ⟨live, if_pos live⟩

lemma Consistent.withdraw (named : writer.keys[entry.id]? = some (some entry.key)) :
    (writer.withdraw entry).Consistent := by
  have live := sane.live_of_named named
  have present := (sane.indexed entry.key entry.id).mpr named
  have shorter := length_removeKey_of_present sane.nodup present
  have counts := count_set_state live .retired
  have awake : entry.id ∉ writer.retired.map Retired.id := by
    rw [sane.resting, live]
    simp
  refine
    { sane with
      states_length := (length_set ..).trans sane.states_length
      keys_length := (length_set ..).trans sane.keys_length
      nodup := nodup_removeKey sane.nodup entry.key
      indexed := ?_
      keyed := ?_
      resting_distinct := ?_
      resting := ?_
      live_length := ?_
      resting_length := ?_
      counted := ?_
      retired_bounded := Nat.mod_lt _ (by decide) }
  · intro other id
    have indexed := sane.indexed
    show (removeKey writer.index entry.key).lookup other = some id ↔
      (writer.keys.set entry.id none)[id]? = some (some other)
    rw [lookup_removeKey, getElem?_set]
    grind
  · intro id
    have keyed := sane.keyed id
    show (writer.states.set entry.id .retired)[id]? = some .live ↔
      ∃ key, (writer.keys.set entry.id none)[id]? = some (some key)
    simp only [getElem?_set]
    by_cases isEntry : entry.id = id
    · simp [isEntry]
    · simp only [if_neg isEntry]
      exact keyed
  · show ((writer.retired ++ [entry]).map Retired.id).Nodup
    rw [map_append, nodup_append]
    refine ⟨sane.resting_distinct, nodup_singleton _, ?_⟩
    rintro id mem _ (_ | ⟨_, ⟨⟩⟩) rfl
    exact awake mem
  · intro id
    have resting := sane.resting id
    show id ∈ (writer.retired ++ [entry]).map Retired.id ↔
      (writer.states.set entry.id .retired)[id]? = some .retired
    grind
  · have now := counts .live
    have before := sane.live_length
    show (removeKey writer.index entry.key).length =
      (writer.states.set entry.id .retired).count .live
    simp only [reduceCtorEq, if_true, if_false] at now
    omega
  · have now := counts .retired
    have before := sane.resting_length
    show (writer.retired ++ [entry]).length = (writer.states.set entry.id .retired).count .retired
    simp only [reduceCtorEq, if_true, if_false] at now
    rw [length_append, length_singleton]
    omega
  · have before := sane.counted
    show writer.interned =
      ((writer.retiredTotal + 1) % 2 ^ 32 + (removeKey writer.index entry.key).length) % 2 ^ 32
    omega

lemma Consistent.release (queue : writer.retired = front :: rest) :
    { writer with retired := rest, states := writer.states.set front.id .free }.Consistent := by
  have resting := sane.resting
  have nodup := sane.resting_distinct
  rw [queue, map_cons, nodup_cons] at nodup
  have retired : writer.states[front.id]? = some .retired := by
    rw [← resting, queue]
    exact mem_cons_self
  have counts := count_set_state retired .free
  refine
    { sane with
      states_length := (length_set ..).trans sane.states_length
      keyed := ?_
      resting_distinct := nodup.2
      resting := ?_
      live_length := ?_
      resting_length := ?_ }
  · intro id
    have keyed := sane.keyed id
    grind
  · intro id
    grind
  · have now := counts .live
    have before := sane.live_length
    simp only [reduceCtorEq, if_false] at now
    simp only
    omega
  · have now := counts .retired
    have before := sane.resting_length
    rw [queue, length_cons] at before
    simp only [reduceCtorEq, if_true, if_false] at now
    simp only
    omega

/-! ## The calls -/

lemma Consistent.internKey_cases (key : Bytes) :
    (∃ id, writer.index.lookup key = some id ∧ writer.internKey key = (writer, .ok id)) ∨
      (writer.index.lookup key = none ∧
        writer.index.length + writer.retired.length = writer.capacity ∧
        writer.internKey key = (writer, .error (.capacityExhausted writer.capacity))) ∨
      (writer.index.lookup key = none ∧
        writer.index.length + writer.retired.length ≠ writer.capacity ∧
        ∃ slot, writer.states[slot]? = some .free ∧
          writer.internKey key = (writer.occupy slot key, .ok slot)) := by
  unfold internKey
  cases hit : writer.index.lookup key with
  | some id => exact .inl ⟨id, rfl, rfl⟩
  | none =>
    simp only
    by_cases full : writer.index.length + writer.retired.length = writer.capacity
    · rw [if_pos full]
      exact .inr (.inl ⟨trivial, full, rfl⟩)
    · rw [if_neg full]
      cases scanned : writer.findFree with
      | none => exact absurd (sane.full_iff.mpr (sane.findFree_none scanned)) full
      | some slot => exact .inr (.inr ⟨trivial, full, slot, findFree_some scanned, rfl⟩)

lemma Consistent.recycle
    (nowMs generation : Nat) : (writer.recycle nowMs generation).1.Consistent :=
  recycleFrom_keeps (fun _ _ _ holds queue _ => holds.release queue) recycleBatch sane

end

lemma recycle_frame (writer : EndpointRegistryWriter) (nowMs generation : Nat) :
    (writer.recycle nowMs generation).1.index = writer.index ∧
      (writer.recycle nowMs generation).1.stats = writer.stats ∧
      (writer.recycle nowMs generation).1.capacity = writer.capacity := by
  have keeps := @recycleFrom_keeps writer
    (fun later => later.index = writer.index ∧ later.stats = writer.stats ∧
      later.capacity = writer.capacity) nowMs generation (fun _ _ _ holds _ _ => holds)
  exact keeps recycleBatch ⟨rfl, rfl, rfl⟩

lemma recycle_keeps_ineligible (mem : entry ∈ writer.retired)
    (early : eligible entry nowMs generation = false) :
    entry ∈ (writer.recycle nowMs generation).1.retired := by
  have keeps := @recycleFrom_keeps writer (fun later => entry ∈ later.retired) nowMs generation
  refine keeps ?_ recycleBatch mem
  intro later front rest holds queue ready
  rw [queue] at holds
  rcases mem_cons.mp holds with rfl | waits
  · rw [early] at ready
    cases ready
  · exact waits

end IronTraffic.Upstream.EndpointRegistryWriter
