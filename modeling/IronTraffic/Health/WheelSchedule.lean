import IronTraffic.Health.WheelLists

/-! # Scheduling and collecting

`schedule` puts one id into the slot of its deadline and leaves all others; the
first half of a sweep empties all lists and notes the ids that were in them.
-/

namespace IronTraffic.Health

open List

namespace TimerWheel

variable {wheel : TimerWheel} {id flat : Nat} {slots : Nat → List Nat}

/-! ## Room for an id -/

lemma node_ensureCapacity (other : Nat) :
    (wheel.ensureCapacity id).node other = if other < wheel.nodes.length then
      wheel.node other else if other ≤ id then some ⟨nil, nil, wheel.now, noSlot⟩ else none := by
  unfold ensureCapacity node
  by_cases inside : other < wheel.nodes.length
  · rw [if_pos inside, getElem?_append_left inside]
  · rw [if_neg inside, getElem?_append_right (not_lt.mp inside), getElem?_replicate]
    by_cases covered : other ≤ id
    · rw [if_pos covered, if_pos (by omega)]
    · rw [if_neg covered, if_neg (by omega)]

lemma views_ensureCapacity (other : Nat) :
    (wheel.ensureCapacity id).nextOf other = wheel.nextOf other ∧
      (wheel.ensureCapacity id).prevOf other = wheel.prevOf other ∧
      (wheel.ensureCapacity id).slotOf other = wheel.slotOf other := by
  unfold nextOf prevOf slotOf
  rw [node_ensureCapacity]
  by_cases inside : other < wheel.nodes.length
  · simp [inside]
  · have missing : wheel.node other = none := getElem?_eq_none (not_lt.mp inside)
    rw [if_neg inside, missing]
    by_cases covered : other ≤ id
    · simp [covered]
    · simp [covered]

lemma timeOf_ensureCapacity (hit : wheel.timeOf other = some stamp) :
    (wheel.ensureCapacity id).timeOf other = some stamp := by
  unfold timeOf at hit ⊢
  rw [node_ensureCapacity]
  by_cases inside : other < wheel.nodes.length
  · rw [if_pos inside]
    exact hit
  · have missing : wheel.node other = none := getElem?_eq_none (not_lt.mp inside)
    rw [missing] at hit
    cases hit

lemma isSome_ensureCapacity : ((wheel.ensureCapacity id).node id).isSome := by
  rw [node_ensureCapacity]
  by_cases inside : id < wheel.nodes.length
  · rw [if_pos inside, node, getElem?_eq_getElem inside]
    rfl
  · simp [inside]

lemma Linked.ensureCapacity (linked : Linked wheel slots none) :
    Linked (wheel.ensureCapacity id) slots none :=
  linked.of_views rfl (fun other => (views_ensureCapacity other).1)
    (fun other => (views_ensureCapacity other).2.1)
    (fun other => (views_ensureCapacity other).2.2)

/-! ## Scheduling -/

lemma isScheduled_iff : wheel.isScheduled id ↔ wheel.slotOf id ≠ noSlot := by
  unfold isScheduled slotOf
  cases wheel.node id with
  | none | some => simp

lemma deadlineOf_eq (id : Nat) :
    wheel.deadlineOf id = if wheel.slotOf id ≠ noSlot then wheel.timeOf id else none := by
  unfold deadlineOf slotOf timeOf
  cases wheel.node id with
  | none | some => rfl

/-- The deadline a timer gets: the given time, or the next tick when that lies at
or behind the wheel's time or beyond the horizon. -/
def effectiveAt (now time : Millis) : Millis :=
  if time.wrappingSub now = 0 ∨ horizonMs < time.wrappingSub now then now.addMs 1 else time

lemma slotOf_setDeadline (deadline) (other : Nat) :
    (wheel.nodeMut id fun node => { node with deadline }).slotOf other = wheel.slotOf other := by
  exact congrArg (Option.getD · noSlot) (map_node_nodeMut fun _ => rfl)

lemma timeOf_setDeadline (present : (wheel.node id).isSome) (deadline) (other : Nat) :
    (wheel.nodeMut id fun node => { node with deadline }).timeOf other =
      if other = id then some deadline else wheel.timeOf other := by
  unfold timeOf
  rw [node_nodeMut]
  rcases Option.isSome_iff_exists.mp present with ⟨node, hit⟩
  by_cases same : other = id
  · simp [same, hit]
  · simp [same]

lemma Linked.setDeadline (linked : Linked wheel slots loose) (deadline) :
    Linked (wheel.nodeMut id fun node => { node with deadline }) slots loose := by
  exact linked.of_views rfl (fun _ => nextOf_nodeMut fun _ => rfl)
    (fun _ => prevOf_nodeMut fun _ => rfl) (slotOf_setDeadline deadline)

/-- What `schedule` does to the nodes. -/
structure Rescheduled (before after : TimerWheel) (id : Nat) (deadline : Millis) : Prop where
  now : after.now = before.now
  maxIds : after.maxIds = before.maxIds
  time : after.timeOf id = some deadline
  times : ∀ other stamp, other ≠ id → before.timeOf other = some stamp →
    after.timeOf other = some stamp
  slots : ∀ other, after.slotOf other =
    if other = id then flatAt before.now deadline else before.slotOf other
  len : after.len = if before.slotOf id ≠ noSlot then before.len else before.len + 1

lemma freed_spec (linked : Linked wheel slots none) (id : Nat) :
    ∃ slots' loose, Linked (if wheel.isScheduled id then wheel.unlink id else wheel) slots' loose ∧
      (∀ flat < slotCount * levelCount, id ∉ slots' flat) ∧
      ∀ other, other ≠ id → loose ≠ some other := by
  by_cases scheduled : wheel.isScheduled id
  · rw [if_pos scheduled]
    have unlinked := linked.unlink (isScheduled_iff.mp scheduled)
    refine ⟨_, some id, unlinked, ?_, ?_⟩
    · intro flat inside mem
      exact ((unlinked.mem flat inside id).mp mem).2 rfl
    · exact fun other apart equal => apart (Option.some.inj equal).symm
  · rw [if_neg scheduled]
    refine ⟨slots, none, linked, ?_, ?_⟩
    · intro flat inside mem
      rw [isScheduled_iff, not_not] at scheduled
      exact linked.scheduled inside mem scheduled
    · exact fun other _ equal => nomatch equal

lemma freed_views (id : Nat) :
    let freed := if wheel.isScheduled id then wheel.unlink id else wheel
    SameSettings wheel freed ∧ (∀ other, freed.slotOf other = wheel.slotOf other) ∧
      ∀ other, freed.timeOf other = wheel.timeOf other := by
  by_cases scheduled : wheel.isScheduled id
  · rw [if_pos scheduled]
    exact ⟨sameSettings_unlink, fun _ => slotOf_unlink, fun _ => timeOf_unlink⟩
  · rw [if_neg scheduled]
    exact ⟨⟨rfl, rfl, rfl, rfl, rfl⟩, fun _ => rfl, fun _ => rfl⟩

lemma isSome_iff_timeOf : (wheel.node id).isSome ↔ (wheel.timeOf id).isSome := by
  rw [timeOf, Option.isSome_map]

lemma schedule_spec (linked : Linked wheel slots none) (notNil : id ≠ nil)
    (valid : id < wheel.maxIds) (time) :
    ∃ after slots', wheel.schedule id time = .ok after ∧ Linked after slots' none ∧
      Rescheduled wheel after id (effectiveAt wheel.now time) := by
  have roomLinked : Linked (wheel.ensureCapacity id) slots none := linked.ensureCapacity
  have roomPresent := @isSome_ensureCapacity wheel id
  have roomSlots := fun other => (@views_ensureCapacity wheel id other).2.2
  have roomTimes := fun other stamp => @timeOf_ensureCapacity wheel id other stamp
  rcases freed_spec roomLinked id with ⟨slots', loose, freedLinked, free, others⟩
  rcases @freed_views (wheel.ensureCapacity id) id with ⟨settings, freedSlots, freedTimes⟩
  rw [schedule, if_neg notNil, if_neg (not_le.mpr valid)]
  have scheduled_iff := @isScheduled_iff (wheel.ensureCapacity id) id
  rw [roomSlots] at scheduled_iff
  simp only
  generalize (wheel.ensureCapacity id).isScheduled id = wasScheduled at *
  generalize (if wasScheduled = true then (wheel.ensureCapacity id).unlink id
    else wheel.ensureCapacity id) = freed at *
  have now : freed.now = wheel.now := settings.now
  have freedPresent : (freed.node id).isSome := by
    rw [isSome_iff_timeOf, freedTimes, ← isSome_iff_timeOf]
    exact roomPresent
  rw [now]
  show ∃ after slots', Except.ok _ = Except.ok after ∧ _ ∧
    Rescheduled wheel after id (effectiveAt wheel.now time)
  have effective : (if time.wrappingSub wheel.now = 0 ∨ horizonMs < time.wrappingSub wheel.now then
      wheel.now.addMs 1 else time) = effectiveAt wheel.now time := rfl
  rw [effective]
  generalize effectiveAt wheel.now time = deadline
  have dated : Linked (freed.nodeMut id fun node => { node with deadline }) slots' loose :=
    freedLinked.setDeadline deadline
  have datedSlots := @slotOf_setDeadline freed id deadline
  have datedTimes := @timeOf_setDeadline freed id freedPresent deadline
  have datedPresent : ((freed.nodeMut id fun node => { node with deadline }).node id).isSome := by
    rw [isSome_iff_timeOf, datedTimes, if_pos rfl]
    rfl
  have datedSettings := @sameSettings_nodeMut freed id fun node => { node with deadline }
  generalize (freed.nodeMut id fun node => { node with deadline }) = marked at *
  have placed := dated.link free others datedPresent notNil (flatAt_lt wheel.now deadline)
  have placedSettings := (settings.trans datedSettings).trans
    (@sameSettings_link marked id (flatAt wheel.now deadline))
  refine ⟨_, _, rfl, placed.of_views rfl (fun _ => rfl) (fun _ => rfl) (fun _ => rfl), ?_⟩
  exact
    { now := placedSettings.now
      maxIds := placedSettings.maxIds
      time := by
        show (marked.link id _).timeOf id = _
        rw [timeOf_link, datedTimes, if_pos rfl]
      times := by
        intro other stamp apart hit
        show (marked.link id _).timeOf other = _
        rw [timeOf_link, datedTimes, if_neg apart, freedTimes]
        exact roomTimes other stamp hit
      slots := by
        intro other
        show (marked.link id _).slotOf other = _
        rw [slotOf_link datedPresent, datedSlots, freedSlots, roomSlots]
        rfl
      len := by
        show (if wasScheduled = true then (marked.link id _).len
          else (marked.link id _).len + 1) = _
        by_cases was : wasScheduled
        · rw [if_pos was, if_pos (scheduled_iff.mp was)]
          exact placedSettings.len
        · rw [if_neg was, if_neg (mt scheduled_iff.mpr was)]
          exact congrArg (· + 1) placedSettings.len }

/-! ## Collecting all lists -/

lemma collectSlots_spec {flats : List Nat} {wheel slots scratch} (linked : Linked wheel slots none)
    (nodup : flats.Nodup) (inside : ∀ flat ∈ flats, flat < slotCount * levelCount) :
    ∃ after slots',
      flats.foldl collectSlot (wheel, scratch) = (after, scratch ++ flats.flatMap slots) ∧
      Linked after slots' none ∧
      Moved wheel after (fun id => if wheel.slotOf id ∈ flats then noSlot else wheel.slotOf id) ∧
      after.len = wheel.len - (flats.flatMap slots).length := by
  induction flats generalizing wheel slots scratch with
  | nil =>
    exact ⟨wheel, slots, by simp, linked, ⟨rfl, rfl, fun _ => rfl, by simp⟩, rfl⟩
  | cons flat rest induction =>
    rw [nodup_cons] at nodup
    rcases forall_mem_cons.mp inside with ⟨here, others⟩
    rcases collectSlot_spec linked here scratch with ⟨middle, collected, linked', moved, len⟩
    rcases @induction middle _ (scratch ++ slots flat) linked' nodup.2 others with
      ⟨after, slots', collectedRest, linkedAfter, movedAfter, lenAfter⟩
    have unchanged : rest.flatMap (Function.update slots flat []) = rest.flatMap slots := by
      refine flatMap_congr fun other mem => ?_
      have apart : other ≠ flat := fun same => nodup.1 (same ▸ mem)
      rw [Function.update_of_ne apart]
    rw [unchanged] at collectedRest lenAfter
    refine ⟨after, slots', ?_, linkedAfter, ?_, ?_⟩
    · rw [foldl_cons, collected, collectedRest, flatMap_cons, append_assoc]
    · refine moved.trans movedAfter fun id => ?_
      rw [moved.slots]
      by_cases same : wheel.slotOf id = flat
      · have outside : noSlot ∉ rest := by
          intro mem
          have impossible := others noSlot mem
          unfold slotCount levelCount noSlot at impossible
          omega
        simp [same, outside]
      · simp [same]
    · rw [lenAfter, len, flatMap_cons, length_append]
      omega

lemma collectAll_spec (linked : Linked wheel slots none)
    (counted : wheel.len = wheel.scheduled.card) :
    ∃ after slots' ids, wheel.collectAll = (after, ids) ∧
      Linked after slots' none ∧ Moved wheel after (fun _ => noSlot) ∧ after.len = 0 ∧
      ids.Nodup ∧ ∀ id, id ∈ ids ↔ wheel.slotOf id ≠ noSlot := by
  have isFlat :
      ∀ flat, flat ∈ List.range (slotCount * levelCount) ↔ flat < slotCount * levelCount :=
    fun flat => mem_range
  have flatsDistinct : (List.range (slotCount * levelCount)).Nodup := nodup_range
  unfold collectAll
  -- The flat slots are not to be enumerated.
  generalize List.range (slotCount * levelCount) = flats at *
  rcases @collectSlots_spec flats wheel slots [] linked flatsDistinct
    (fun flat mem => (isFlat flat).mp mem) with
    ⟨after, slots', collected, linked', moved, len⟩
  have members : ∀ id, id ∈ flats.flatMap slots ↔ wheel.slotOf id ≠ noSlot := by
    intro id
    rw [mem_flatMap]
    constructor
    · rintro ⟨flat, inside, mem⟩
      rw [isFlat] at inside
      exact linked.scheduled inside mem
    · intro scheduled
      have inside := (linked.bounded id).resolve_left scheduled
      exact ⟨_, (isFlat _).mpr inside, (linked.mem _ inside id).mpr ⟨rfl, by simp⟩⟩
  have nodup : (flats.flatMap slots).Nodup := by
    rw [nodup_flatMap]
    constructor
    · exact fun flat mem => linked.nodup flat ((isFlat flat).mp mem)
    · refine flatsDistinct.imp_of_mem ?_
      intro left right leftIn rightIn apart id inLeft inRight
      exact linked.disjoint ((isFlat left).mp leftIn) ((isFlat right).mp rightIn)
        (Ne.symm apart) inLeft inRight
  refine ⟨after, slots', _, collected, linked', ?_, ?_, nodup, members⟩
  · refine { moved with slots := fun id => ?_ }
    rw [moved.slots]
    by_cases inside : wheel.slotOf id ∈ flats
    · rw [if_pos inside]
    · rw [if_neg inside]
      exact (linked.bounded id).resolve_right (mt (isFlat _).mpr inside)
  · have all : (flats.flatMap slots).toFinset = wheel.scheduled := by
      ext id
      rw [mem_toFinset, members, mem_scheduled]
    have size := toFinset_card_of_nodup nodup
    rw [all, ← counted] at size
    omega

end TimerWheel

end IronTraffic.Health
