import IronTraffic.Foundation.Chain
import IronTraffic.Health.Wheel

/-! # Lists of the timer wheel

The nodes whose slot is `flat` form the chain that starts at the head of `flat`.
Unlinking a node leaves it loose until it is linked again or released.
-/

namespace IronTraffic.Health

open Function

open List

variable {node : WheelNode}

namespace TimerWheel

/-! ## Views of the nodes -/

def nextOf (wheel : TimerWheel) (id : Nat) : Nat := ((wheel.node id).map WheelNode.next).getD nil

def prevOf (wheel : TimerWheel) (id : Nat) : Nat := ((wheel.node id).map WheelNode.prev).getD nil

def slotOf (wheel : TimerWheel) (id : Nat) : Nat :=
  ((wheel.node id).map WheelNode.slot).getD noSlot

def timeOf (wheel : TimerWheel) (id : Nat) : Option Millis :=
  (wheel.node id).map WheelNode.deadline

variable {wheel : TimerWheel} {id other flat : Nat}

lemma node_nodeMut (change) :
    (wheel.nodeMut id change).node other =
      (wheel.node other).map fun current => if other = id then change current else current := by
  unfold nodeMut node
  by_cases same : other = id
  · subst same
    simp
  · simp [same, Ne.symm same]

lemma map_node_nodeMut (same : ∀ node, view (change node) = view node) :
    ((wheel.nodeMut id change).node other).map view = (wheel.node other).map view := by
  rw [node_nodeMut, Option.map_map]
  congr 1
  funext current
  simp only [comp_apply]
  split <;> simp [same]

lemma nextOf_nodeMut (same : ∀ node, (change node).next = node.next) :
    (wheel.nodeMut id change).nextOf other = wheel.nextOf other :=
  congrArg (Option.getD · nil) (map_node_nodeMut same)

lemma prevOf_nodeMut (same : ∀ node, (change node).prev = node.prev) :
    (wheel.nodeMut id change).prevOf other = wheel.prevOf other :=
  congrArg (Option.getD · nil) (map_node_nodeMut same)

lemma headAt_setHead {head : Nat} (inside : flat < wheel.heads.length) (slot : Nat) :
    (wheel.setHead flat head).headAt slot = if slot = flat then head else wheel.headAt slot := by
  unfold setHead headAt
  by_cases same : slot = flat
  · subst same
    simp [getElem?_set_self inside]
  · rw [if_neg same, getElem?_set_ne (Ne.symm same)]

/-- What unlinking `node` changes in another one. -/
def relinked (node : WheelNode) (other : Nat) (current : WheelNode) : WheelNode :=
  { current with
    next := if node.prev ≠ nil ∧ other = node.prev then node.next else current.next
    prev := if node.next ≠ nil ∧ other = node.next then node.prev else current.prev }

lemma node_unlink (hit : wheel.node id = some node) :
    (wheel.unlink id).node other = (wheel.node other).map (relinked node other) := by
  have first : (if node.prev = nil then wheel.setHead node.slot node.next
      else wheel.nodeMut node.prev fun prevNode => { prevNode with next := node.next }).node other =
      (wheel.node other).map fun current =>
        { current with
          next := if node.prev ≠ nil ∧ other = node.prev then node.next else current.next } := by
    by_cases ends : node.prev = nil
    · simp [ends, setHead, TimerWheel.node]
    · rw [if_neg ends, node_nodeMut]
      by_cases same : other = node.prev <;> simp [ends, same]
  simp only [unlink, hit]
  by_cases ends : node.next = nil
  · rw [if_neg (by simpa using ends), first]
    congr 1
    funext current
    simp [relinked, ends]
  · rw [if_pos ends, node_nodeMut, first, Option.map_map]
    congr 1
    funext current
    by_cases same : other = node.next <;> simp [relinked, ends, same]

lemma headAt_unlink (hit : wheel.node id = some node)
    (inside : node.slot < wheel.heads.length) (slot : Nat) :
    (wheel.unlink id).headAt slot =
      if node.prev = nil ∧ slot = node.slot then node.next else wheel.headAt slot := by
  have heads : (wheel.unlink id).headAt slot =
      (if node.prev = nil then wheel.setHead node.slot node.next else wheel).headAt slot := by
    simp only [unlink, hit]
    split <;> split <;> rfl
  rw [heads]
  by_cases ends : node.prev = nil
  · simp [ends, headAt_setHead inside]
  · simp [ends]

/-- What linking `id` at the head of a slot changes in a node. -/
def linkedAt (id flat oldHead other : Nat) (current : WheelNode) : WheelNode :=
  { current with
    slot := if other = id then flat else current.slot
    next := if other = id then oldHead else current.next
    prev :=
      if oldHead ≠ nil ∧ other = oldHead then id else if other = id then nil else current.prev }

lemma node_link :
    (wheel.link id flat).node other =
      (wheel.node other).map (linkedAt id flat (wheel.headAt flat) other) := by
  have nodes : ∀ wheel : TimerWheel, (wheel.setHead flat id).node other = wheel.node other :=
    fun _ => rfl
  unfold link
  simp only [nodes]
  generalize wheel.headAt flat = oldHead
  by_cases ends : oldHead = nil
  · rw [if_neg (by simpa using ends), node_nodeMut]
    congr 1
    funext current
    by_cases same : other = id <;> simp [linkedAt, ends, same]
  · rw [if_pos ends, node_nodeMut, node_nodeMut, Option.map_map]
    congr 1
    funext current
    by_cases atHead : other = oldHead <;> by_cases same : other = id <;>
      simp_all [linkedAt]

lemma headAt_link (inside : flat < wheel.heads.length) (slot : Nat) :
    (wheel.link id flat).headAt slot = if slot = flat then id else wheel.headAt slot := by
  unfold link
  simp only
  split
  · exact headAt_setHead inside slot
  · exact headAt_setHead inside slot

/-! ## What unlinking and linking leave alone -/

lemma slotOf_unlink : (wheel.unlink id).slotOf other = wheel.slotOf other := by
  unfold slotOf
  cases hit : wheel.node id with
  | none => simp [unlink, hit]
  | some node => simp [node_unlink hit, relinked, comp_def]

lemma timeOf_unlink : (wheel.unlink id).timeOf other = wheel.timeOf other := by
  unfold timeOf
  cases hit : wheel.node id with
  | none => simp [unlink, hit]
  | some node => simp [node_unlink hit, relinked, comp_def]

lemma slotOf_link (exists' : (wheel.node id).isSome) :
    (wheel.link id flat).slotOf other = if other = id then flat else wheel.slotOf other := by
  unfold slotOf
  rw [node_link]
  by_cases same : other = id
  · subst same
    rcases Option.isSome_iff_exists.mp exists' with ⟨node, hit⟩
    simp [hit, linkedAt]
  · simp [same, linkedAt, comp_def]

lemma timeOf_link : (wheel.link id flat).timeOf other = wheel.timeOf other := by
  unfold timeOf
  simp [node_link, linkedAt, comp_def]

structure SameSettings (before after : TimerWheel) : Prop where
  now : after.now = before.now
  maxIds : after.maxIds = before.maxIds
  len : after.len = before.len
  headCount : after.heads.length = before.heads.length
  nodeCount : after.nodes.length = before.nodes.length

lemma SameSettings.trans (left : SameSettings first second) (right : SameSettings second third) :
    SameSettings first third :=
  ⟨right.now.trans left.now, right.maxIds.trans left.maxIds, right.len.trans left.len,
    right.headCount.trans left.headCount, right.nodeCount.trans left.nodeCount⟩

lemma sameSettings_nodeMut (change) : SameSettings wheel (wheel.nodeMut id change) :=
  ⟨rfl, rfl, rfl, rfl, length_modify _ _ _⟩

lemma sameSettings_setHead (head : Nat) : SameSettings wheel (wheel.setHead flat head) :=
  ⟨rfl, rfl, rfl, length_set, rfl⟩

lemma sameSettings_unlink : SameSettings wheel (wheel.unlink id) := by
  unfold unlink
  cases wheel.node id with
  | none => exact ⟨rfl, rfl, rfl, rfl, rfl⟩
  | some node =>
    have first : SameSettings wheel (if node.prev = nil then wheel.setHead node.slot node.next
        else wheel.nodeMut node.prev fun prevNode => { prevNode with next := node.next }) := by
      split
      · exact sameSettings_setHead _
      · exact sameSettings_nodeMut _
    simp only
    split
    · exact first.trans (sameSettings_nodeMut _)
    · exact first

lemma sameSettings_link : SameSettings wheel (wheel.link id flat) := by
  unfold link
  simp only
  split
  · exact ((sameSettings_nodeMut _).trans (sameSettings_nodeMut _)).trans (sameSettings_setHead _)
  · exact (sameSettings_nodeMut _).trans (sameSettings_setHead _)

lemma node_isSome_of_slotOf (scheduled : wheel.slotOf id ≠ noSlot) : (wheel.node id).isSome := by
  unfold slotOf at scheduled
  cases hit : wheel.node id with
  | none => exact absurd (by rw [hit]; rfl) scheduled
  | some node => rfl

lemma nextOf_unlink_of_ne (other_ne : other ≠ wheel.prevOf id) :
    (wheel.unlink id).nextOf other = wheel.nextOf other := by
  unfold nextOf
  unfold prevOf at other_ne
  cases hit : wheel.node id with
  | none => simp [unlink, hit]
  | some node =>
    have apart : other ≠ node.prev := by simpa [hit] using other_ne
    simp [node_unlink hit, relinked, apart, comp_def]

lemma prevOf_unlink_of_ne (other_ne : other ≠ wheel.nextOf id) :
    (wheel.unlink id).prevOf other = wheel.prevOf other := by
  unfold prevOf
  unfold nextOf at other_ne
  cases hit : wheel.node id with
  | none => simp [unlink, hit]
  | some node =>
    have apart : other ≠ node.next := by simpa [hit] using other_ne
    simp [node_unlink hit, relinked, apart, comp_def]

lemma nextOf_unlink_prev (inner : wheel.prevOf id ≠ nil)
    (present : (wheel.node (wheel.prevOf id)).isSome) :
    (wheel.unlink id).nextOf (wheel.prevOf id) = wheel.nextOf id := by
  unfold nextOf
  cases hit : wheel.node id with
  | none => simp [prevOf, hit] at inner
  | some node =>
    have same : wheel.prevOf id = node.prev := by simp [prevOf, hit]
    rw [same] at inner present ⊢
    rcases Option.isSome_iff_exists.mp present with ⟨before, foundBefore⟩
    simp [node_unlink hit, relinked, foundBefore, inner]

lemma prevOf_unlink_next (inner : wheel.nextOf id ≠ nil)
    (present : (wheel.node (wheel.nextOf id)).isSome) :
    (wheel.unlink id).prevOf (wheel.nextOf id) = wheel.prevOf id := by
  unfold prevOf
  cases hit : wheel.node id with
  | none => simp [nextOf, hit] at inner
  | some node =>
    have same : wheel.nextOf id = node.next := by simp [nextOf, hit]
    rw [same] at inner present ⊢
    rcases Option.isSome_iff_exists.mp present with ⟨after, foundAfter⟩
    simp [node_unlink hit, relinked, foundAfter, inner]

/-! ## Lists -/

lemma ne_noSlot (inside : flat < slotCount * levelCount) : flat ≠ noSlot := by
  unfold slotCount levelCount at inside
  unfold noSlot
  omega

/-- The ids of every slot, linked in their order. A loose id is in no list, whatever
its slot field says. -/
structure Linked (wheel : TimerWheel) (slots : Nat → List Nat) (loose : Option Nat) : Prop where
  headCount : wheel.heads.length = slotCount * levelCount
  chained : ∀ flat < slotCount * levelCount,
    Chain nil wheel.nextOf wheel.prevOf nil (wheel.headAt flat) (slots flat)
  nodup : ∀ flat < slotCount * levelCount, (slots flat).Nodup
  mem : ∀ flat < slotCount * levelCount, ∀ id,
    id ∈ slots flat ↔ wheel.slotOf id = flat ∧ loose ≠ some id
  bounded : ∀ id, wheel.slotOf id = noSlot ∨ wheel.slotOf id < slotCount * levelCount

namespace Linked

variable {slots : Nat → List Nat} {loose : Option Nat}

section

variable (linked : Linked wheel slots loose)

include linked

section

variable (inside : flat < slotCount * levelCount)

include inside

lemma scheduled (mem : id ∈ slots flat) : wheel.slotOf id ≠ noSlot := by
  rw [((linked.mem flat inside id).mp mem).1]
  exact ne_noSlot inside

lemma isSome (mem : id ∈ slots flat) : (wheel.node id).isSome :=
  node_isSome_of_slotOf (linked.scheduled inside mem)

lemma disjoint (slotInside : slot < slotCount * levelCount) (apart : slot ≠ flat)
    (mem : id ∈ slots flat) : id ∉ slots slot := fun other =>
  apart (((linked.mem slot slotInside id).mp other).1.symm.trans
    ((linked.mem flat inside id).mp mem).1)

lemma head_cases : wheel.headAt flat = nil ∨ wheel.headAt flat ∈ slots flat :=
  (linked.chained flat inside).first_cases

lemma neighbours (mem : id ∈ slots flat) :
    (wheel.prevOf id = nil ∨ wheel.prevOf id ∈ slots flat) ∧
    (wheel.nextOf id = nil ∨ wheel.nextOf id ∈ slots flat) := by
  rcases append_of_mem mem with ⟨front, back, equal⟩
  have chain := linked.chained flat inside
  rw [equal] at chain ⊢
  constructor
  · rcases mem_cons.mp chain.prev_mem with first | later
    · exact .inl first
    · exact .inr (mem_append_left _ later)
  · rcases chain.tail.first_cases with ended | later
    · exact .inl ended
    · exact .inr (mem_append_right _ (mem_cons_of_mem _ later))

lemma prevOf_eq_nil_iff (equal : slots flat = front ++ id :: back) :
    wheel.prevOf id = nil ↔ front = [] := by
  have chain := linked.chained flat inside
  rw [equal] at chain
  cases front with
  | nil => exact ⟨fun _ => rfl, fun _ => chain.2.2.1⟩
  | cons head front =>
    constructor
    · intro ends
      have later := chain.2.2.2.prev_mem
      rw [ends] at later
      exact absurd (mem_append_left _ later) chain.ne_stop
    · exact fun absurdity => absurd absurdity (cons_ne_nil _ _)

end

end

lemma unlink (linked : Linked wheel slots none) (scheduled : wheel.slotOf id ≠ noSlot) :
    Linked (wheel.unlink id) (fun flat => (slots flat).erase id) (some id) := by
  have inside := (linked.bounded id).resolve_left scheduled
  have mem : id ∈ slots (wheel.slotOf id) :=
    (linked.mem _ inside id).mpr ⟨rfl, by simp⟩
  rcases linked.neighbours inside mem with ⟨prevWhere, nextWhere⟩
  rcases Option.isSome_iff_exists.mp (node_isSome_of_slotOf scheduled) with ⟨node, hit⟩
  have slot_eq : wheel.slotOf id = node.slot := by simp [slotOf, hit]
  have prev_eq : wheel.prevOf id = node.prev := by simp [prevOf, hit]
  have next_eq : wheel.nextOf id = node.next := by simp [nextOf, hit]
  have heads := headAt_unlink hit (by rw [← slot_eq, linked.headCount]; exact inside)
  rw [← slot_eq, ← prev_eq, ← next_eq] at heads
  refine
    { headCount := sameSettings_unlink.headCount.trans linked.headCount
      chained := ?_
      nodup := fun flat inside => (linked.nodup flat inside).erase id
      mem := ?_
      bounded := fun other => by rw [slotOf_unlink]; exact linked.bounded other }
  · intro flat flatInside
    by_cases same : flat = wheel.slotOf id
    · subst same
      rcases exists_erase_eq mem with ⟨front, back, _, equal, erased⟩
      have chain := linked.chained _ inside
      have nodup := linked.nodup _ inside
      have prevNil := linked.prevOf_eq_nil_iff inside equal
      rw [erased]
      rw [equal] at chain nodup
      have unlinked := chain.unlink (fun _ => nextOf_unlink_of_ne)
        (fun inner => nextOf_unlink_prev inner
          (linked.isSome inside (prevWhere.resolve_left inner)))
        (fun _ => prevOf_unlink_of_ne)
        (fun inner => prevOf_unlink_next inner
          (linked.isSome inside (nextWhere.resolve_left inner)))
        (nodup_cons.mpr ⟨chain.ne_stop, nodup⟩)
      rw [heads]
      simp only [prevNil, and_true]
      exact unlinked
    · rw [heads, if_neg (fun both => same both.2), erase_of_not_mem
        (linked.disjoint inside flatInside same mem)]
      have elsewhere : ∀ neighbour, neighbour = nil ∨ neighbour ∈ slots (wheel.slotOf id) →
          ∀ item ∈ slots flat, item ≠ neighbour := by
        rintro neighbour place item present rfl
        rcases place with ends | there
        · exact (linked.chained flat flatInside).ne_stop (ends ▸ present)
        · exact linked.disjoint inside flatInside same there present
      exact (linked.chained flat flatInside).congr
        (fun item present => nextOf_unlink_of_ne (elsewhere _ prevWhere item present))
        (fun item present => prevOf_unlink_of_ne (elsewhere _ nextWhere item present))
  · intro flat flatInside other
    rw [(linked.nodup flat flatInside).mem_erase_iff, linked.mem flat flatInside,
      slotOf_unlink]
    simp only [ne_eq, reduceCtorEq, not_false_eq_true, and_true, Option.some.injEq]
    exact ⟨fun both => ⟨both.2, Ne.symm both.1⟩, fun both => ⟨Ne.symm both.2, both.1⟩⟩

lemma link (linked : Linked wheel slots loose)
    (free : ∀ flat < slotCount * levelCount, id ∉ slots flat)
    (others : ∀ other, other ≠ id → loose ≠ some other) (present : (wheel.node id).isSome)
    (notNil : id ≠ nil) (inside : flat < slotCount * levelCount) :
    Linked (wheel.link id flat) (update slots flat (id :: slots flat)) none := by
  have heads := @headAt_link wheel id flat (by rw [linked.headCount]; exact inside)
  have slot_eq : ∀ other, (wheel.link id flat).slotOf other =
      if other = id then flat else wheel.slotOf other := fun _ => slotOf_link present
  have headWhere := linked.head_cases inside
  have headSome : wheel.headAt flat ≠ nil → (wheel.node (wheel.headAt flat)).isSome :=
    fun inner => linked.isSome inside (headWhere.resolve_left inner)
  have sameNext : ∀ other, other ≠ id → (wheel.link id flat).nextOf other = wheel.nextOf other := by
    intro other apart
    unfold nextOf
    simp [node_link, linkedAt, apart, comp_def]
  have samePrev : ∀ other, other ≠ id → other ≠ wheel.headAt flat →
      (wheel.link id flat).prevOf other = wheel.prevOf other := by
    intro other apart notHead
    unfold prevOf
    simp [node_link, linkedAt, apart, notHead, comp_def]
  have headNe : wheel.headAt flat ≠ id := by
    rintro rfl
    rcases headWhere with ends | mem
    · exact notNil ends
    · exact free flat inside mem
  refine
    { headCount := sameSettings_link.headCount.trans linked.headCount
      chained := ?_
      nodup := ?_
      mem := ?_
      bounded := ?_ }
  · intro slot slotInside
    rw [heads]
    by_cases same : slot = flat
    · subst same
      rw [if_pos rfl, update_self]
      rcases Option.isSome_iff_exists.mp present with ⟨node, hit⟩
      refine Chain.push sameNext ?_ samePrev ?_ ?_ notNil (free slot inside)
        (linked.nodup slot inside) (linked.chained slot inside)
      · simp [nextOf, node_link, linkedAt, hit]
      · simp [prevOf, node_link, linkedAt, hit, Ne.symm headNe]
      · intro inner
        rcases Option.isSome_iff_exists.mp (headSome inner) with ⟨first, foundFirst⟩
        simp [prevOf, node_link, linkedAt, foundFirst, inner]
    · rw [if_neg same, update_of_ne same]
      have notId : ∀ item ∈ slots slot, item ≠ id := fun item mem equal =>
        free slot slotInside (equal ▸ mem)
      refine (linked.chained slot slotInside).congr
        (fun item mem => sameNext item (notId item mem))
        (fun item mem => samePrev item (notId item mem) ?_)
      rintro rfl
      rcases headWhere with ends | there
      · exact (linked.chained slot slotInside).ne_stop (ends ▸ mem)
      · exact linked.disjoint inside slotInside same there mem
  · intro slot slotInside
    by_cases same : slot = flat
    · subst same
      rw [update_self]
      exact nodup_cons.mpr ⟨free slot inside, linked.nodup slot inside⟩
    · rw [update_of_ne same]
      exact linked.nodup slot slotInside
  · intro slot slotInside other
    rw [slot_eq]
    simp only [ne_eq, reduceCtorEq, not_false_eq_true, and_true]
    by_cases isId : other = id
    · subst isId
      rw [if_pos rfl]
      by_cases same : slot = flat
      · subst same
        simp
      · rw [update_of_ne same]
        exact iff_of_false (free slot slotInside) (Ne.symm same)
    · rw [if_neg isId]
      have mem := linked.mem slot slotInside other
      simp only [others other isId, ne_eq, not_false_eq_true, and_true] at mem
      by_cases same : slot = flat
      · subst same
        rw [update_self, mem_cons, or_iff_right isId]
        exact mem
      · rw [update_of_ne same]
        exact mem
  · intro other
    rw [slot_eq]
    by_cases isId : other = id
    · rw [if_pos isId]
      exact .inr inside
    · rw [if_neg isId]
      exact linked.bounded other

end Linked

end TimerWheel

end IronTraffic.Health
