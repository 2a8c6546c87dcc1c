import IronTraffic.Health.WheelTime

/-! # Runs of the timer wheel

Between calls every timer waits in its slot. A tick fires the timers of its
millisecond; a sweep fires what many ticks would.
-/

namespace IronTraffic.Health

open Function

open List

variable {id : Nat} {settled : Nat → Prop}

namespace TimerWheel

variable {wheel : TimerWheel} {time : Nat} {due : Nat → Nat}

structure Running (wheel : TimerWheel) (time : Nat) (due : Nat → Nat) : Prop where
  linked : ∃ slots, Linked wheel slots none
  timed : Timed wheel time due (fun _ => True)
  counted : wheel.len = wheel.scheduled.card

lemma Running.of_empty (linked : Linked wheel slots none) (now : wheel.now.toNat = time % 2 ^ 32)
    (empty : ∀ id, wheel.slotOf id = noSlot) (len : wheel.len = 0) : Running wheel time due where
  linked := ⟨slots, linked⟩
  timed :=
    { now
      ids := fun id scheduled => absurd (empty id) scheduled
      times := fun id scheduled => absurd (empty id) scheduled
      near := fun id scheduled => absurd (empty id) scheduled
      placed := fun id scheduled => absurd (empty id) scheduled }
  counted := by
    have none : wheel.scheduled = ∅ := by
      ext id
      rw [mem_scheduled]
      exact iff_of_false (fun scheduled => scheduled (empty id)) (Finset.notMem_empty id)
    rw [none]
    exact len

/-- The timers that are due were fired, each once, and the others are left. -/
structure Fired (before after : TimerWheel) (fired : List Nat) (isDue : Nat → Prop) : Prop where
  maxIds : after.maxIds = before.maxIds
  nodup : fired.Nodup
  members : ∀ id, id ∈ fired ↔ before.slotOf id ≠ noSlot ∧ isDue id
  left : ∀ id, after.slotOf id ≠ noSlot ↔ before.slotOf id ≠ noSlot ∧ ¬isDue id
  times : ∀ id, after.slotOf id ≠ noSlot → after.timeOf id = before.timeOf id

lemma Running.lt_due (running : Running wheel time due) (scheduled : wheel.slotOf id ≠ noSlot) :
    time < due id := by
  rcases running.timed.placed id scheduled with ⟨level, valid, placed⟩
  exact placed.lt_due valid

/-! ## Ticks -/

lemma Running.clockTick (running : Running wheel time due) :
    Timed { wheel with now := wheel.now.addMs 1 } (time + 1) due (fun _ => False) where
  now := by
    have now := running.timed.now
    show (wheel.now + UInt32.ofNat 1).toNat = _
    rw [UInt32.toNat_add, now, show (UInt32.ofNat 1).toNat = 1 from rfl]
    omega
  ids := running.timed.ids
  times := running.timed.times
  near := by
    intro id scheduled
    have near := running.timed.near id scheduled
    omega
  placed := by
    intro id scheduled
    rcases running.timed.placed id scheduled with ⟨level, valid, placed⟩
    exact ⟨level, valid, placed.tick valid⟩

lemma Timed.slotOf_eq_now_iff (timed : Timed wheel time due settled)
    (higher : ∀ level, settled level ↔ level ≠ 0 ∧ level < 4) (id : Nat) :
    wheel.slotOf id = time % 256 ↔ wheel.slotOf id ≠ noSlot ∧ due id = time := by
  constructor
  · intro here
    have scheduled : wheel.slotOf id ≠ noSlot := by
      unfold noSlot
      omega
    refine ⟨scheduled, ?_⟩
    have block := timed.slotOf_eq_iff (by decide : 0 < 4) (by simp [higher]) (Nat.mod_one _)
      scheduled (by simpa [span] using here)
    simpa [span] using block
  · rintro ⟨scheduled, isDue⟩
    rcases timed.placed id scheduled with ⟨level, valid, placed⟩
    by_cases zero : level = 0
    · subst zero
      have slot_eq := placed.slot_eq
      simpa [span, isDue] using slot_eq
    · have strict := placed.strict ((higher level).mpr ⟨zero, valid⟩)
      rw [isDue] at strict
      exact absurd strict (lt_irrefl _)

lemma Timed.drain (timed : Timed wheel time due settled)
    (higher : ∀ level, settled level ↔ level ≠ 0 ∧ level < 4) (linked : Linked wheel slots none)
    (counted : wheel.len = wheel.scheduled.card) (out) :
    ∃ after fired,
      drainLoop wheel.nodes.length (wheel.headAt (time % 256)) (wheel, out) =
        (after, out ++ fired) ∧
      Running after time due ∧ Fired wheel after fired (fun id => due id = time) := by
  have inside : time % 256 < slotCount * levelCount := by
    unfold slotCount levelCount
    omega
  rcases drainLoop_spec inside linked rfl (linked.length_le inside) with
    ⟨after, slots', drained, linked', moved, len⟩
  have members : ∀ id, id ∈ slots (time % 256) ↔ wheel.slotOf id ≠ noSlot ∧ due id = time := by
    intro id
    rw [← timed.slotOf_eq_now_iff higher, linked.mem _ inside]
    simp
  have nodup := linked.nodup _ inside
  generalize slots (time % 256) = fired at *
  have left : ∀ id, after.slotOf id ≠ noSlot ↔ wheel.slotOf id ≠ noSlot ∧ ¬due id = time := by
    intro id
    rw [moved.slots]
    by_cases mem : id ∈ fired
    · have both := (members id).mp mem
      rw [if_pos mem]
      exact iff_of_false (fun absurdity => absurdity rfl) (fun stays => stays.2 both.2)
    · rw [if_neg mem]
      have either := mt (members id).mpr mem
      exact ⟨fun scheduled => ⟨scheduled, fun isDue => either ⟨scheduled, isDue⟩⟩, And.left⟩
  refine ⟨after, fired, drained, ⟨⟨slots', linked'⟩, ?_, ?_⟩, ?_⟩
  · exact
      { now := moved.now ▸ timed.now
        ids := fun id scheduled => moved.maxIds ▸ timed.ids id ((left id).mp scheduled).1
        times := fun id scheduled => by
          rw [moved.times]
          exact timed.times id ((left id).mp scheduled).1
        near := fun id scheduled => timed.near id ((left id).mp scheduled).1
        placed := by
          intro id scheduled
          rcases (left id).mp scheduled with ⟨was, notDue⟩
          have stays : after.slotOf id = wheel.slotOf id := by
            rw [moved.slots, if_neg (fun mem => notDue ((members id).mp mem).2)]
          rw [stays]
          rcases timed.placed id was with ⟨level, valid, placed⟩
          refine ⟨level, valid, placed.slot_eq, placed.lower, placed.upper, fun _ => ?_,
            fun never => absurd trivial never, fun never => absurd trivial never⟩
          by_cases zero : level = 0
          · subst zero
            have lower := placed.lower
            simp only [span, Nat.div_one] at lower ⊢
            omega
          · exact placed.strict ((higher level).mpr ⟨zero, valid⟩) }
  · have remaining : after.scheduled = wheel.scheduled \ fired.toFinset := by
      ext id
      rw [Finset.mem_sdiff, mem_scheduled, mem_scheduled, left, mem_toFinset, members]
      tauto
    have contained : fired.toFinset ⊆ wheel.scheduled := by
      intro id mem
      rw [mem_scheduled]
      exact ((members id).mp (mem_toFinset.mp mem)).1
    rw [len, counted, remaining, Finset.card_sdiff_of_subset contained,
      toFinset_card_of_nodup nodup]
  · exact
      { maxIds := moved.maxIds
        nodup
        members
        left
        times := fun id _ => moved.times id }

lemma Running.tick (running : Running wheel time due) (out : List Nat) (cascades : Nat) :
    ∃ after fired counted, tick (wheel, out, cascades) = (after, out ++ fired, counted) ∧
      Running after (time + 1) due ∧ Fired wheel after fired (fun id => due id = time + 1) := by
  rcases running.linked with ⟨slots, linked⟩
  have linkedNow : Linked { wheel with now := wheel.now.addMs 1 } slots none :=
    linked.of_views rfl (fun _ => rfl) (fun _ => rfl) (fun _ => rfl)
  have ticked := running.clockTick
  unfold TimerWheel.tick
  simp only
  rcases ticked.cascadeWhenAligned linkedNow (by decide : 1 < 4) (by decide) (by simp) (by simp)
    cascades with ⟨slots₁, linked₁, same₁, timed₁⟩
  generalize cascadeWhenAligned 1 (_, cascades) = first at *
  rcases timed₁.cascadeWhenAligned linked₁ (by decide : 2 < 4) (by decide) (by simp) (by simp)
    first.2 with ⟨slots₂, linked₂, same₂, timed₂⟩
  generalize cascadeWhenAligned 2 (first.1, first.2) = second at *
  rcases timed₂.cascadeWhenAligned linked₂ (by decide : 3 < 4) (by decide) (by simp) (by simp)
    second.2 with ⟨slots₃, linked₃, same₃, timed₃⟩
  generalize cascadeWhenAligned 3 (second.1, second.2) = third at *
  have same := (same₁.trans same₂).trans same₃
  have higher : ∀ level : Nat, ((False ∨ level = 1) ∨ level = 2) ∨ level = 3 ↔
      level ≠ 0 ∧ level < 4 := by
    intro level
    rw [false_or]
    omega
  have counted : third.1.len = third.1.scheduled.card := by
    have sameScheduled : third.1.scheduled = wheel.scheduled := by
      ext id
      rw [mem_scheduled, mem_scheduled]
      exact same.scheduled id
    rw [same.len, sameScheduled]
    exact running.counted
  have slot : third.1.now.toNat % 256 = (time + 1) % 256 := by
    have now := timed₃.now
    omega
  rcases timed₃.drain higher linked₃ counted out with ⟨after, fired, drained, runs, fires⟩
  refine ⟨after, fired, third.2, ?_, runs, ?_⟩
  · rw [slot, drained]
  · exact
      { maxIds := fires.maxIds.trans same.maxIds
        nodup := fires.nodup
        members := fun id => (fires.members id).trans (and_congr_left fun _ => same.scheduled id)
        left := fun id => (fires.left id).trans (and_congr_left fun _ => same.scheduled id)
        times := fun id scheduled => (fires.times id scheduled).trans (same.times id) }

lemma Running.idle (running : Running wheel time due) :
    Fired wheel wheel [] (fun id => due id ≤ time) :=
  have later := fun id (scheduled : wheel.slotOf id ≠ noSlot) => running.lt_due scheduled
  { maxIds := rfl
    nodup := nodup_nil
    members := fun id => iff_of_false not_mem_nil
      fun both => absurd both.2 (not_le.mpr (later id both.1))
    left := fun id => ⟨fun scheduled => ⟨scheduled, not_le.mpr (later id scheduled)⟩, And.left⟩
    times := fun _ _ => rfl }

lemma Running.ticks {gap : Nat} {wheel} {time : Nat} (running : Running wheel time due)
    (out) (cascades : Nat) :
    ∃ after fired counted,
      TimerWheel.tick^[gap] (wheel, out, cascades) = (after, out ++ fired, counted) ∧
      Running after (time + gap) due ∧ Fired wheel after fired (fun id => due id ≤ time + gap) := by
  induction gap generalizing wheel time out cascades with
  | zero =>
    exact ⟨wheel, [], cascades, by simp, running, running.idle⟩
  | succ gap induction =>
    rcases running.tick out cascades with ⟨middle, first, counted, ticked, runs, fires⟩
    rcases induction runs (out ++ first) counted with
      ⟨after, rest, counted', tickedRest, runsAfter, firesRest⟩
    refine ⟨after, first ++ rest, counted', ?_, ?_, ?_⟩
    · rw [iterate_succ_apply, ticked, tickedRest, append_assoc]
    · rw [show time + (gap + 1) = time + 1 + gap by omega]
      exact runsAfter
    exact
      { maxIds := firesRest.maxIds.trans fires.maxIds
        nodup := by
          refine nodup_append'.mpr ⟨fires.nodup, firesRest.nodup, ?_⟩
          intro id inFirst inRest
          exact ((fires.left id).mp ((firesRest.members id).mp inRest).1).2
            ((fires.members id).mp inFirst).2
        members := by
          intro id
          rw [mem_append, fires.members, firesRest.members, fires.left]
          constructor
          · rintro (⟨scheduled, isDue⟩ | ⟨⟨scheduled, _⟩, isDue⟩)
            · exact ⟨scheduled, by omega⟩
            · exact ⟨scheduled, by omega⟩
          · rintro ⟨scheduled, isDue⟩
            by_cases next : due id = time + 1
            · exact .inl ⟨scheduled, next⟩
            · exact .inr ⟨⟨scheduled, next⟩, by omega⟩
        left := by
          intro id
          rw [firesRest.left, fires.left]
          constructor
          · rintro ⟨⟨scheduled, _⟩, notDue⟩
            exact ⟨scheduled, by omega⟩
          · rintro ⟨scheduled, notDue⟩
            exact ⟨⟨scheduled, by omega⟩, by omega⟩
        times := fun id scheduled =>
          (firesRest.times id scheduled).trans
            (fires.times id ((firesRest.left id).mp scheduled).1) }

/-! ## Scheduling -/

def delayOf (now time : Millis) : Nat :=
  if time.wrappingSub now = 0 ∨ horizonMs < time.wrappingSub now then 1 else time.wrappingSub now

lemma delayOf_bounds (now stamp) : 0 < delayOf now stamp ∧ delayOf now stamp < 2 ^ 31 := by
  unfold delayOf horizonMs
  split
  · omega
  · omega

lemma effectiveAt_toNat {now} (nowEq : now.toNat = time % 2 ^ 32) (stamp) :
    (effectiveAt now stamp).toNat = (time + delayOf now stamp) % 2 ^ 32 := by
  unfold effectiveAt delayOf
  split
  · show (now + UInt32.ofNat 1).toNat = _
    rw [UInt32.toNat_add, nowEq, show (UInt32.ofNat 1).toNat = 1 from rfl]
    omega
  · rw [Millis.wrappingSub, UInt32.toNat_sub, nowEq]
    have bound := stamp.toNat_lt
    omega

lemma Running.schedule (running : Running wheel time due) (notNil : id ≠ nil)
    (valid : id < wheel.maxIds) (stamp) :
    ∃ after, wheel.schedule id stamp = .ok after ∧
      Rescheduled wheel after id (effectiveAt wheel.now stamp) ∧
      Running after time (update due id (time + delayOf wheel.now stamp)) := by
  rcases running.linked with ⟨slots, linked⟩
  rcases schedule_spec linked notNil valid stamp with ⟨after, slots', scheduled, linked', changed⟩
  have effective := effectiveAt_toNat running.timed.now stamp
  rcases delayOf_bounds wheel.now stamp with ⟨positive, bounded⟩
  have others : ∀ other, other ≠ id → after.slotOf other = wheel.slotOf other := by
    intro other apart
    rw [changed.slots, if_neg apart]
  have slot : after.slotOf id ≠ noSlot := by
    rw [changed.slots, if_pos rfl]
    exact flatAt_ne_noSlot _ _
  refine ⟨after, scheduled, changed, ⟨slots', linked'⟩, ?_, ?_⟩
  · exact
      { now := changed.now ▸ running.timed.now
        ids := by
          intro other present
          rw [changed.maxIds]
          by_cases same : other = id
          · exact same ▸ ⟨notNil, valid⟩
          · exact running.timed.ids other (others other same ▸ present)
        times := by
          intro other present
          by_cases same : other = id
          · subst same
            rw [update_self]
            exact ⟨_, changed.time, effective⟩
          · rw [update_of_ne same]
            rcases running.timed.times other (others other same ▸ present) with
              ⟨hit, timeOf, equal⟩
            exact ⟨hit, changed.times other hit same timeOf, equal⟩
        near := by
          intro other present
          by_cases same : other = id
          · subst same
            rw [update_self]
            omega
          · rw [update_of_ne same]
            exact running.timed.near other (others other same ▸ present)
        placed := by
          intro other present
          by_cases same : other = id
          · subst same
            rw [update_self, changed.slots, if_pos rfl]
            exact placed_of_flatAt running.timed.now effective (by omega) (by omega)
              (fun _ => by omega)
          · rw [update_of_ne same, others other same]
            exact running.timed.placed other (others other same ▸ present) }
  · have inserted : after.scheduled = insert id wheel.scheduled := by
      ext other
      rw [Finset.mem_insert, mem_scheduled, mem_scheduled]
      by_cases same : other = id
      · subst same
        exact iff_of_true slot (.inl rfl)
      · rw [others other same]
        exact ⟨.inr, fun either => either.resolve_left same⟩
    rw [changed.len, inserted]
    by_cases was : wheel.slotOf id ≠ noSlot
    · rw [if_pos was, Finset.insert_eq_of_mem (mem_scheduled.mpr was)]
      exact running.counted
    · rw [if_neg was, Finset.card_insert_of_notMem (mt mem_scheduled.mp was), running.counted]

/-! ## Sweeps -/

lemma isAtOrBefore_iff {stamp : Millis} (targetEq : target.toNat = time % 2 ^ 32)
    (stampEq : stamp.toNat = deadline % 2 ^ 32) (near : deadline < time + 2 ^ 31)
    (recent : time < deadline + 2 ^ 31) : stamp.isAtOrBefore target ↔ deadline ≤ time := by
  rw [Millis.isAtOrBefore, beq_iff_eq]
  by_cases later : time ≤ deadline
  · rw [since_eq targetEq stampEq later near]
    omega
  · have past : stamp.since target = 0 := by
      rw [Millis.since, Millis.wrappingSub, horizonMs, UInt32.toNat_sub, targetEq, stampEq]
      rw [if_pos (by omega)]
    exact iff_of_true past (by omega)

lemma resettle_spec {target} {ids : List Nat} {wheel out}
    (running : Running wheel time due) (nowEq : wheel.now = target) (nodup : ids.Nodup)
    (collected : ∀ id ∈ ids, wheel.slotOf id = noSlot ∧ id ≠ nil ∧ id < wheel.maxIds ∧
      (∃ stamp, wheel.timeOf id = some stamp ∧ stamp.toNat = due id % 2 ^ 32) ∧
      due id < time + 2 ^ 31 ∧ time < due id + 2 ^ 31) :
    ∃ after, ids.foldl (resettle target) (wheel, out) =
      (after, out ++ ids.filter fun id => decide (due id ≤ time)) ∧ Running after time due ∧
      after.maxIds = wheel.maxIds ∧ after.now = wheel.now ∧
      (∀ id, after.slotOf id ≠ noSlot ↔ wheel.slotOf id ≠ noSlot ∨ (id ∈ ids ∧ ¬due id ≤ time)) ∧
      ∀ id stamp, wheel.timeOf id = some stamp → after.timeOf id = some stamp := by
  induction ids generalizing wheel out with
  | nil =>
    exact ⟨wheel, by simp, running, rfl, rfl, by simp, fun _ _ hit => hit⟩
  | cons id rest induction =>
    rw [nodup_cons] at nodup
    rcases forall_mem_cons.mp collected with ⟨here, others⟩
    rcases here with ⟨fresh, notNil, valid, ⟨stamp, hit, stampEq⟩, near, recent⟩
    have deadline : ((wheel.node id).map WheelNode.deadline).getD target = stamp := by
      have hit : (wheel.node id).map WheelNode.deadline = some stamp := hit
      rw [hit]
      rfl
    have isDue := isAtOrBefore_iff (nowEq ▸ running.timed.now) stampEq near recent
    rw [foldl_cons]
    by_cases past : due id ≤ time
    · have step : resettle target (wheel, out) id = (wheel, out ++ [id]) := by
        unfold resettle
        simp only
        rw [deadline, if_pos (isDue.mpr past)]
      rw [step]
      rcases @induction wheel (out ++ [id]) running nowEq nodup.2 others with
        ⟨after, folded, runs, maxIds, now, slots, times⟩
      refine ⟨after, ?_, runs, maxIds, now, ?_, times⟩
      · rw [folded, filter_cons_of_pos (by simpa using past), append_assoc]
        rfl
      · intro other
        rw [slots, mem_cons]
        by_cases same : other = id
        · subst same
          simp [past]
        · simp [same]
    · rcases running.schedule notNil valid stamp with ⟨middle, scheduled, changed, runs⟩
      have distance : stamp.wrappingSub wheel.now = due id - time :=
        wrappingSub_eq running.timed.now stampEq (by omega) (by omega)
      have inRange :
          ¬(stamp.wrappingSub wheel.now = 0 ∨ horizonMs < stamp.wrappingSub wheel.now) := by
        unfold horizonMs
        omega
      have delay : time + delayOf wheel.now stamp = due id := by
        rw [delayOf, if_neg inRange, distance]
        omega
      have effective : effectiveAt wheel.now stamp = stamp := if_neg inRange
      rw [delay, update_eq_self] at runs
      rw [effective] at changed
      have step : resettle target (wheel, out) id = (middle, out) := by
        unfold resettle
        simp only
        rw [deadline, if_neg (mt isDue.mp past), scheduled]
      rw [step]
      have untouched : ∀ other ∈ rest, middle.slotOf other = wheel.slotOf other := by
        intro other mem
        have apart : other ≠ id := fun same => nodup.1 (same ▸ mem)
        rw [changed.slots, if_neg apart]
      have kept : ∀ other hit, wheel.timeOf other = some hit →
          middle.timeOf other = some hit := by
        intro other was timeOf
        by_cases same : other = id
        · subst same
          rw [changed.time, ← hit, timeOf]
        · exact changed.times other was same timeOf
      rcases @induction middle out runs (changed.now.trans nowEq) nodup.2
        (fun other mem => by
          rcases others other mem with ⟨unscheduled, ok, inRange, ⟨was, timeOf, equal⟩, bounds⟩
          exact ⟨(untouched other mem).trans unscheduled, ok, changed.maxIds ▸ inRange,
            ⟨was, kept other was timeOf, equal⟩, bounds⟩) with
        ⟨after, folded, runsAfter, maxIds, now, slots, times⟩
      refine ⟨after, ?_, runsAfter, maxIds.trans changed.maxIds, now.trans changed.now, ?_, ?_⟩
      · rw [folded, filter_cons_of_neg (by simpa using past)]
      · intro other
        rw [slots, changed.slots, mem_cons]
        by_cases same : other = id
        · subst same
          simp [past, flatAt_ne_noSlot]
        · simp [same]
      · exact fun other was timeOf => times other was (kept other was timeOf)

lemma Running.sweep (running : Running wheel time due) {gap : Nat} (bounded : gap < 2 ^ 31)
    (targetEq : target.toNat = (time + gap) % 2 ^ 32) (out) :
    ∃ after fired, wheel.sweep target out = (after, out ++ fired) ∧
      Running after (time + gap) due ∧ Fired wheel after fired (fun id => due id ≤ time + gap) := by
  rcases running.linked with ⟨slots, linked⟩
  rcases collectAll_spec linked running.counted with
    ⟨collected, slots', ids, folded, linked', moved, len, nodup, members⟩
  have runs : Running { collected with now := target } (time + gap) due :=
    .of_empty (linked'.of_views rfl (fun _ => rfl) (fun _ => rfl) (fun _ => rfl)) targetEq
      moved.slots len
  rcases @resettle_spec (time + gap) due target ids _ out runs rfl nodup
    (fun id mem => by
      have scheduled := (members id).mp mem
      have later := running.lt_due scheduled
      have near := running.timed.near id scheduled
      rcases running.timed.ids id scheduled with ⟨notNil, valid⟩
      rcases running.timed.times id scheduled with ⟨stamp, hit, stampEq⟩
      exact ⟨moved.slots id, notNil, moved.maxIds ▸ valid,
        ⟨stamp, (moved.times id).trans hit, stampEq⟩, by omega, by omega⟩) with
    ⟨after, refolded, runsAfter, maxIds, now, slotsAfter, times⟩
  refine ⟨after, ids.filter fun id => decide (due id ≤ time + gap), ?_, runsAfter, ?_⟩
  · simp only [TimerWheel.sweep, folded]
    exact refolded
  have left : ∀ id, after.slotOf id ≠ noSlot ↔ wheel.slotOf id ≠ noSlot ∧ ¬due id ≤ time + gap := by
    intro id
    rw [slotsAfter, members]
    exact or_iff_right (fun scheduled => scheduled (moved.slots id))
  exact
    { maxIds := maxIds.trans moved.maxIds
      nodup := nodup.filter _
      members := by
        intro id
        rw [mem_filter, members, decide_eq_true_iff]
      left
      times := by
        intro id scheduled
        rcases running.timed.times id ((left id).mp scheduled).1 with ⟨stamp, hit, _⟩
        rw [hit]
        exact times id stamp ((moved.times id).trans hit) }

end TimerWheel

end IronTraffic.Health
