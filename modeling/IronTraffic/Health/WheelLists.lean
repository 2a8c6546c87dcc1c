import IronTraffic.Health.WheelLinks

/-! # Moving nodes between lists

The loops of the wheel walk one list each. What they do to the nodes is said in
terms of the slot fields: a cascade moves the nodes of a slot, a drain and a
collection take them out.
-/

namespace IronTraffic.Health

open Function

open List

variable {after : TimerWheel}

namespace TimerWheel

variable {wheel : TimerWheel} {id flat : Nat} {slots : Nat → List Nat}

def scheduled (wheel : TimerWheel) : Finset Nat :=
  (Finset.range wheel.nodes.length).filter fun id => wheel.slotOf id ≠ noSlot

lemma mem_scheduled : id ∈ wheel.scheduled ↔ wheel.slotOf id ≠ noSlot := by
  rw [scheduled, Finset.mem_filter, Finset.mem_range, and_iff_right_iff_imp]
  intro scheduled
  have present := node_isSome_of_slotOf scheduled
  unfold node at present
  by_contra outside
  rw [getElem?_eq_none (not_lt.mp outside)] at present
  cases present

/-- The nodes keep their deadlines and stand in the given slots. -/
structure Moved (before after : TimerWheel) (slotOf : Nat → Nat) : Prop where
  now : after.now = before.now
  maxIds : after.maxIds = before.maxIds
  times : ∀ id, after.timeOf id = before.timeOf id
  slots : ∀ id, after.slotOf id = slotOf id

lemma Moved.trans (first : Moved before middle move) (second : Moved middle after move')
    (both : ∀ id, move' id = whole id) : Moved before after whole where
  now := second.now.trans first.now
  maxIds := second.maxIds.trans first.maxIds
  times id := (second.times id).trans (first.times id)
  slots id := (second.slots id).trans (both id)

lemma Linked.of_views (linked : Linked wheel slots loose) (heads : after.heads = wheel.heads)
    (next : ∀ id, after.nextOf id = wheel.nextOf id)
    (prev : ∀ id, after.prevOf id = wheel.prevOf id)
    (slot : ∀ id, after.slotOf id = wheel.slotOf id) : Linked after slots loose where
  headCount := heads ▸ linked.headCount
  chained := by
    intro flat inside
    have headSame : after.headAt flat = wheel.headAt flat := by rw [headAt, headAt, heads]
    rw [headSame]
    exact (linked.chained flat inside).congr (fun id _ => next id) (fun id _ => prev id)
  nodup := linked.nodup
  mem := by
    intro flat inside id
    rw [slot]
    exact linked.mem flat inside id
  bounded := fun id => by rw [slot]; exact linked.bounded id

/-! ## Taking a node out -/

lemma slotOf_mark (present : (wheel.node id).isSome) (other : Nat) :
    (wheel.nodeMut id fun node => { node with slot := noSlot }).slotOf other =
      if other = id then noSlot else wheel.slotOf other := by
  unfold slotOf
  rw [node_nodeMut]
  by_cases same : other = id
  · rcases Option.isSome_iff_exists.mp present with ⟨node, hit⟩
    simp [same, hit]
  · simp [same]

lemma Linked.mark (linked : Linked wheel slots (some id)) (present : (wheel.node id).isSome) :
    Linked (wheel.nodeMut id fun node => { node with slot := noSlot }) slots none := by
  have slot_eq := slotOf_mark present
  exact
    { headCount := linked.headCount
      chained := by
        intro flat inside
        refine (linked.chained flat inside).congr (fun other _ => ?_) (fun other _ => ?_)
        · exact nextOf_nodeMut fun _ => rfl
        · exact prevOf_nodeMut fun _ => rfl
      nodup := linked.nodup
      mem := by
        intro flat inside other
        rw [linked.mem flat inside, slot_eq]
        by_cases same : other = id
        · subst same
          simp [(ne_noSlot inside).symm]
        · simp [same, Ne.symm same]
      bounded := by
        intro other
        rw [slot_eq]
        by_cases same : other = id
        · exact .inl (if_pos same)
        · rw [if_neg same]
          exact linked.bounded other }

lemma Linked.release (linked : Linked wheel slots none) (scheduled : wheel.slotOf id ≠ noSlot) :
    Linked (wheel.release id) (fun flat => (slots flat).erase id) none ∧
      Moved wheel (wheel.release id) (fun other =>
        if other = id then noSlot else wheel.slotOf other) ∧
      (wheel.release id).len = wheel.len - 1 := by
  have present : ((wheel.unlink id).node id).isSome :=
    node_isSome_of_slotOf (by rw [slotOf_unlink]; exact scheduled)
  have settings := @sameSettings_unlink wheel id
  refine ⟨?_, ?_, ?_⟩
  · exact ((linked.unlink scheduled).mark present).of_views rfl (fun _ => rfl) (fun _ => rfl)
      (fun _ => rfl)
  · exact
      { now := settings.now
        maxIds := settings.maxIds
        times := by
          intro other
          rw [← @timeOf_unlink wheel id other]
          show (((wheel.unlink id).nodeMut id _).timeOf other) = _
          exact map_node_nodeMut fun _ => rfl
        slots := by
          intro other
          show ((wheel.unlink id).nodeMut id _).slotOf other = _
          rw [slotOf_mark present, slotOf_unlink] }
  · show (wheel.unlink id).len - 1 = wheel.len - 1
    rw [settings.len]

/-! ## Draining a list -/

section

variable (inside : flat < slotCount * levelCount)

include inside

lemma Linked.length_le (linked : Linked wheel slots loose) :
    (slots flat).length ≤ wheel.nodes.length := by
  rw [← toFinset_card_of_nodup (linked.nodup flat inside), ← Finset.card_range wheel.nodes.length]
  apply Finset.card_le_card
  intro id mem
  have present := linked.isSome inside (mem_toFinset.mp mem)
  rw [Finset.mem_range]
  by_contra outside
  rw [node, getElem?_eq_none (not_lt.mp outside)] at present
  cases present

lemma Linked.first (linked : Linked wheel slots loose) (equal : slots flat = id :: rest) :
    wheel.headAt flat = id ∧ id ≠ nil ∧ wheel.slotOf id ≠ noSlot ∧ ∃ node,
    wheel.node id = some node ∧ node.next = rest.headD nil := by
  have chain := linked.chained flat inside
  rw [equal] at chain
  have mem : id ∈ slots flat := by
    rw [equal]
    exact mem_cons_self
  have present := linked.isSome inside mem
  rcases Option.isSome_iff_exists.mp present with ⟨node, hit⟩
  refine ⟨chain.1, chain.2.1, linked.scheduled inside mem, node, hit, ?_⟩
  have following := chain.2.2.2.first_eq
  simpa [nextOf, hit] using following

lemma drainLoop_spec (linked : Linked wheel slots none) (equal : slots flat = ids)
    (enough : ids.length ≤ turns) :
    ∃ after slots', drainLoop turns (wheel.headAt flat) (wheel, out) = (after, out ++ ids) ∧
      Linked after slots' none ∧
      Moved wheel after (fun id => if id ∈ ids then noSlot else wheel.slotOf id) ∧
      after.len = wheel.len - ids.length := by
  induction ids generalizing turns wheel slots out with
  | nil =>
    have head : wheel.headAt flat = nil := by
      rw [(linked.chained flat inside).first_eq, equal]
      rfl
    refine ⟨wheel, slots, ?_, linked, ⟨rfl, rfl, fun _ => rfl, by simp⟩, rfl⟩
    rw [head, append_nil]
    cases turns with
    | zero => rfl
    | succ turns => rw [drainLoop, if_pos rfl]
  | cons id rest induction =>
    rcases linked.first inside equal with ⟨head, notNil, scheduled, node, hit, following⟩
    rcases linked.release scheduled with ⟨linked', moved, len⟩
    have erased : (slots flat).erase id = rest := by rw [equal, erase_cons_head]
    cases turns with
    | zero => exact absurd enough (Nat.not_succ_le_zero _)
    | succ turns =>
      rcases @induction _ _ turns (out ++ [id]) linked' erased
        (Nat.le_of_succ_le_succ enough) with
        ⟨after, slots', drained, linkedAfter, movedAfter, lenAfter⟩
      have next : node.next = (wheel.release id).headAt flat := by
        rw [following, (linked'.chained flat inside).first_eq, erased]
      refine ⟨after, slots', ?_, linkedAfter, ?_, ?_⟩
      · rw [head, drainLoop, if_neg notNil]
        simp only [hit]
        rw [next, drained, append_assoc]
        rfl
      · refine moved.trans movedAfter fun other => ?_
        rw [moved.slots]
        by_cases same : other = id
        · simp [same]
        · simp [same]
      · rw [lenAfter, len, length_cons]
        omega

end

/-! ## Cascading a list -/

def flatAt (now deadline : Millis) : Nat :=
  (levelAndSlot now deadline).1 * slotCount + (levelAndSlot now deadline).2

lemma flatAt_lt (now deadline) : flatAt now deadline < slotCount * levelCount := by
  unfold flatAt levelAndSlot slotCount levelCount
  simp only
  split
  · simp only; omega
  · split
    case isTrue => simp only; omega
    case isFalse =>
      split
      · simp only; omega
      · simp only; omega

lemma flatAt_ne_noSlot (now deadline) : flatAt now deadline ≠ noSlot :=
  ne_noSlot (flatAt_lt now deadline)

def ownSlot (wheel : TimerWheel) (id : Nat) : Nat :=
  flatAt wheel.now ((wheel.timeOf id).getD wheel.now)

lemma Moved.ownSlot (moved : Moved wheel after move) (id : Nat) :
    after.ownSlot id = wheel.ownSlot id := by
  unfold TimerWheel.ownSlot
  rw [moved.now, moved.times]

lemma Linked.relink (linked : Linked wheel slots none) (scheduled : wheel.slotOf id ≠ noSlot)
    (notNil : id ≠ nil) (inside : flat < slotCount * levelCount) :
    Linked ((wheel.unlink id).link id flat)
        (update (fun slot => (slots slot).erase id) flat (id :: (slots flat).erase id)) none ∧
      Moved wheel ((wheel.unlink id).link id flat)
        (fun other => if other = id then flat else wheel.slotOf other) ∧
      ((wheel.unlink id).link id flat).len = wheel.len := by
  have unlinked := linked.unlink scheduled
  have present : ((wheel.unlink id).node id).isSome :=
    node_isSome_of_slotOf (by rw [slotOf_unlink]; exact scheduled)
  have first := @sameSettings_unlink wheel id
  have second := @sameSettings_link (wheel.unlink id) id flat
  refine ⟨?_, ?_, second.len.trans first.len⟩
  · apply unlinked.link _ _ present notNil inside
    · intro slot slotInside mem
      exact ((unlinked.mem slot slotInside id).mp mem).2 rfl
    · exact fun other apart equal => apart (Option.some.inj equal).symm
  · exact
      { now := second.now.trans first.now
        maxIds := second.maxIds.trans first.maxIds
        times := fun other => timeOf_link.trans timeOf_unlink
        slots := fun other => by rw [slotOf_link present, slotOf_unlink] }

lemma cascadeLoop_spec (inside : flat < slotCount * levelCount)
    (linked : Linked wheel slots none) (equal : slots flat = ids) (enough : ids.length ≤ turns)
    (elsewhere : ∀ id ∈ ids, wheel.ownSlot id ≠ flat) :
    ∃ slots', Linked (cascadeLoop turns (wheel.headAt flat) wheel) slots' none ∧
        Moved wheel (cascadeLoop turns (wheel.headAt flat) wheel) (fun id =>
          if id ∈ ids then wheel.ownSlot id else wheel.slotOf id) ∧
        (cascadeLoop turns (wheel.headAt flat) wheel).len = wheel.len := by
  induction ids generalizing turns wheel slots with
  | nil =>
    have head : wheel.headAt flat = nil := by
      rw [(linked.chained flat inside).first_eq, equal]
      rfl
    have stays : cascadeLoop turns (wheel.headAt flat) wheel = wheel := by
      rw [head]
      cases turns with
      | zero => rfl
      | succ turns => rw [cascadeLoop, if_pos rfl]
    rw [stays]
    exact ⟨slots, linked, ⟨rfl, rfl, fun _ => rfl, by simp⟩, rfl⟩
  | cons id rest induction =>
    rcases linked.first inside equal with ⟨head, notNil, scheduled, node, hit, following⟩
    rcases forall_mem_cons.mp elsewhere with ⟨leaves, othersLeave⟩
    have own : wheel.ownSlot id = flatAt wheel.now node.deadline := by
      simp [ownSlot, timeOf, hit]
    have nodup := linked.nodup flat inside
    rw [equal, nodup_cons] at nodup
    rcases linked.relink scheduled notNil (flatAt_lt wheel.now node.deadline) with
      ⟨linked', moved, len⟩
    rw [← own] at linked' moved len
    have rest_eq : update (fun slot => (slots slot).erase id) (wheel.ownSlot id)
        (id :: (slots (wheel.ownSlot id)).erase id) flat = rest := by
      rw [update_of_ne (Ne.symm leaves), equal, erase_cons_head]
    cases turns with
    | zero => exact absurd enough (Nat.not_succ_le_zero _)
    | succ turns =>
      have owns : ∀ other, ((wheel.unlink id).link id (wheel.ownSlot id)).ownSlot other =
          wheel.ownSlot other := fun other => moved.ownSlot other
      have next : node.next = ((wheel.unlink id).link id (wheel.ownSlot id)).headAt flat := by
        rw [following, (linked'.chained flat inside).first_eq, rest_eq]
      have turn : cascadeLoop (turns + 1) (wheel.headAt flat) wheel =
          cascadeLoop turns (((wheel.unlink id).link id (wheel.ownSlot id)).headAt flat)
            ((wheel.unlink id).link id (wheel.ownSlot id)) := by
        rw [head, cascadeLoop, if_neg notNil]
        simp only [hit]
        rw [next, own, sameSettings_unlink.now]
        rfl
      rw [turn]
      rcases induction linked' rest_eq (Nat.le_of_succ_le_succ enough)
        (fun other mem => by rw [owns]; exact othersLeave other mem) with
        ⟨slots', linkedAfter, movedAfter, lenAfter⟩
      refine ⟨slots', linkedAfter, moved.trans movedAfter fun other => ?_, lenAfter.trans len⟩
      rw [moved.slots, owns]
      by_cases same : other = id
      · subst same
        simp [nodup.1]
      · simp [same]

/-! ## Collecting the lists -/

def cleared (node : WheelNode) : WheelNode := { node with prev := nil, next := nil, slot := noSlot }

lemma node_resets {ids : List Nat} (other : Nat) {wheel} :
    (ids.foldl reset wheel).node other = if other ∈ ids then
      (wheel.node other).map cleared else wheel.node other := by
  induction ids generalizing wheel with
  | nil =>
    simp
  | cons id rest induction =>
    have first : (wheel.reset id).node other = _ := node_nodeMut cleared
    have twice : cleared ∘ cleared = cleared := rfl
    rw [foldl_cons, induction, first]
    by_cases same : other = id
    · subst same
      simp [twice]
    · simp [same]

lemma settings_resets {ids : List Nat} {wheel} :
    (ids.foldl reset wheel).heads = wheel.heads ∧ (ids.foldl reset wheel).now = wheel.now ∧
      (ids.foldl reset wheel).maxIds = wheel.maxIds ∧
      (ids.foldl reset wheel).len = wheel.len - ids.length := by
  induction ids generalizing wheel with
  | nil => exact ⟨rfl, rfl, rfl, rfl⟩
  | cons id rest induction =>
    rcases @induction (wheel.reset id) with ⟨heads, now, maxIds, len⟩
    refine ⟨heads, now, maxIds, ?_⟩
    rw [foldl_cons, len, length_cons]
    show wheel.len - 1 - rest.length = _
    omega

lemma collectLoop_spec {ids} {turns before first : Nat} {wheel scratch}
    (chain : Chain nil wheel.nextOf wheel.prevOf before first ids) (nodup : ids.Nodup)
    (present : ∀ id ∈ ids, (wheel.node id).isSome) (enough : ids.length ≤ turns) :
    collectLoop turns first (wheel, scratch) = (ids.foldl reset wheel, scratch ++ ids) := by
  induction ids generalizing turns before first wheel scratch with
  | nil =>
    have ends : first = nil := chain
    rw [ends, append_nil]
    cases turns with
    | zero => rfl
    | succ turns => rw [collectLoop, if_pos rfl, foldl_nil]
  | cons id rest induction =>
    rcases chain with ⟨head, notNil, _, chain⟩
    rw [nodup_cons] at nodup
    rcases forall_mem_cons.mp present with ⟨here, others⟩
    rcases Option.isSome_iff_exists.mp here with ⟨node, hit⟩
    have next : wheel.nextOf id = node.next := by simp [nextOf, hit]
    have untouched : ∀ other ∈ rest, (wheel.reset id).node other = wheel.node other := by
      intro other mem
      have apart : other ≠ id := fun same => nodup.1 (same ▸ mem)
      have first : (wheel.reset id).node other = _ := node_nodeMut cleared
      simpa [apart] using first
    cases turns with
    | zero => exact absurd enough (Nat.not_succ_le_zero _)
    | succ turns =>
      rw [head, collectLoop, if_neg notNil]
      simp only [hit]
      rw [← next, foldl_cons, append_cons scratch id rest]
      refine induction (chain.congr ?_ ?_) nodup.2 ?_ (Nat.le_of_succ_le_succ enough)
      · exact fun other mem => by rw [nextOf, nextOf, untouched other mem]
      · exact fun other mem => by rw [prevOf, prevOf, untouched other mem]
      · exact fun other mem => by rw [untouched other mem]; exact others other mem

lemma collectSlot_spec (linked : Linked wheel slots none)
    (inside : flat < slotCount * levelCount) (scratch) :
    ∃ after, collectSlot (wheel, scratch) flat = (after, scratch ++ slots flat) ∧
      Linked after (update slots flat []) none ∧
      Moved wheel after (fun id => if wheel.slotOf id = flat then noSlot else wheel.slotOf id) ∧
      after.len = wheel.len - (slots flat).length := by
  rcases @settings_resets (slots flat) wheel with ⟨heads, now, maxIds, len⟩
  have collected := @collectLoop_spec (slots flat) wheel.nodes.length nil (wheel.headAt flat)
    wheel scratch (linked.chained flat inside) (linked.nodup flat inside)
    (fun id mem => linked.isSome inside mem) (linked.length_le inside)
  have mem : ∀ id, id ∈ slots flat ↔ wheel.slotOf id = flat := by
    intro id
    rw [linked.mem flat inside]
    simp
  have nodes := fun other => @node_resets (slots flat) other wheel
  generalize (slots flat).foldl reset wheel = after at *
  have slot_eq : ∀ id,
      after.slotOf id = if wheel.slotOf id = flat then noSlot else wheel.slotOf id := by
    intro id
    unfold slotOf
    rw [nodes]
    have here := mem id
    unfold slotOf at here
    by_cases inList : id ∈ slots flat
    · rw [if_pos inList, if_pos (here.mp inList), Option.map_map]
      cases wheel.node id with
      | none | some => rfl
    · rw [if_neg inList, if_neg (mt here.mpr inList)]
  have noSlot_ne := (ne_noSlot inside).symm
  have headInside : flat < after.heads.length := by
    rw [heads, linked.headCount]
    exact inside
  refine ⟨after.setHead flat nil, ?_, ?_, ?_, len⟩
  · rw [collectSlot, collected]
  · exact
      { headCount := (sameSettings_setHead nil).headCount.trans (heads ▸ linked.headCount)
        chained := by
          intro slot slotInside
          rw [headAt_setHead headInside]
          by_cases same : slot = flat
          · rw [if_pos same, same, update_self]
            rfl
          rw [if_neg same, update_of_ne same]
          have head : after.headAt slot = wheel.headAt slot := by rw [headAt, headAt, heads]
          rw [head]
          have untouched : ∀ id ∈ slots slot, after.node id = wheel.node id := by
            intro id present
            rw [nodes, if_neg (linked.disjoint slotInside inside (Ne.symm same) present)]
          refine (linked.chained slot slotInside).congr ?_ ?_
          · exact fun id present => by
              show after.nextOf id = _
              rw [nextOf, nextOf, untouched id present]
          · exact fun id present => by
              show after.prevOf id = _
              rw [prevOf, prevOf, untouched id present]
        nodup := by
          intro slot slotInside
          by_cases same : slot = flat
          · rw [same, update_self]
            exact nodup_nil
          · rw [update_of_ne same]
            exact linked.nodup slot slotInside
        mem := by
          intro slot slotInside id
          show _ ↔ after.slotOf id = slot ∧ _
          rw [slot_eq]
          by_cases same : slot = flat
          · rw [same, update_self]
            by_cases here : wheel.slotOf id = flat
            · simp [here, noSlot_ne]
            · simp [here]
          rw [update_of_ne same, linked.mem slot slotInside]
          by_cases here : wheel.slotOf id = flat
          · simp [here, Ne.symm same, (ne_noSlot slotInside).symm]
          · simp [here]
        bounded := by
          intro id
          show after.slotOf id = noSlot ∨ after.slotOf id < _
          rw [slot_eq]
          by_cases here : wheel.slotOf id = flat
          · exact .inl (if_pos here)
          · rw [if_neg here]
            exact linked.bounded id }
  · exact
      { now := now
        maxIds := maxIds
        times := by
          intro id
          show after.timeOf id = _
          rw [timeOf, nodes]
          split
          · rw [Option.map_map]
            rfl
          · rfl
        slots := slot_eq }

end TimerWheel

end IronTraffic.Health
