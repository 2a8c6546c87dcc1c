import IronTraffic.Health.WheelRun

/-! # The timer wheel is a map

Every call keeps the wheel running. What the calls do is said here in terms of
`deadline_of` alone: the wheel is a finite map from ids to deadlines.
-/

namespace IronTraffic.Health

open Function

open List

variable {after : TimerWheel} {id : Nat} {deadline : Millis}

namespace TimerWheel

variable {wheel : TimerWheel} {due : Nat → Nat}

/-! ## The calls -/

lemma Running.of_settings (running : Running wheel time due) (heads : after.heads = wheel.heads)
    (nodes : after.nodes = wheel.nodes) (now : after.now = wheel.now)
    (len : after.len = wheel.len) (maxIds : wheel.maxIds ≤ after.maxIds) :
    Running after time due := by
  cases after
  subst heads nodes now len
  rcases running.linked with ⟨slots, linked⟩
  exact
    { linked := ⟨slots, linked.of_views rfl (fun _ => rfl) (fun _ => rfl) (fun _ => rfl)⟩
      timed :=
        { now := running.timed.now
          ids := fun id scheduled =>
            ⟨(running.timed.ids id scheduled).1,
              lt_of_lt_of_le (running.timed.ids id scheduled).2 maxIds⟩
          times := running.timed.times
          near := running.timed.near
          placed := running.timed.placed }
      counted := running.counted }

lemma Running.advance (running : Running wheel time due)
    (bounded : target.wrappingSub wheel.now < 2 ^ 31) (out : List Nat) :
    ∃ after fired stats, wheel.advance target out = (after, out ++ fired, stats) ∧
      Running after (time + target.wrappingSub wheel.now) due ∧
      Fired wheel after fired (fun id => due id ≤ time + target.wrappingSub wheel.now) := by
  have inHorizon : target.since wheel.now = target.wrappingSub wheel.now := by
    rw [Millis.since, horizonMs, if_neg (by omega)]
  have targetEq : target.toNat = (time + target.wrappingSub wheel.now) % 2 ^ 32 := by
    have now := running.timed.now
    have bound := target.toNat_lt
    rw [Millis.wrappingSub, UInt32.toNat_sub]
    omega
  rw [TimerWheel.advance, inHorizon]
  generalize target.wrappingSub wheel.now = gap at *
  by_cases zero : gap = 0
  · subst zero
    exact ⟨wheel, [], .none, by simp, running, running.idle⟩
  simp only [if_neg zero]
  by_cases far : wheel.maxCatchupMs < gap
  · simp only [if_pos far]
    rcases running.sweep bounded targetEq out with ⟨after, fired, swept, runs, fires⟩
    simp only [swept]
    refine ⟨_, fired, _, rfl, runs.of_settings rfl rfl rfl rfl (le_refl _), ?_⟩
    exact ⟨fires.maxIds, fires.nodup, fires.members, fires.left, fires.times⟩
  · simp only [if_neg far]
    rcases @Running.ticks due gap wheel time running out 0 with
      ⟨after, fired, counted, ticked, runs, fires⟩
    simp only [ticked]
    exact ⟨after, fired, _, rfl, runs, fires⟩

lemma Running.cancel (running : Running wheel time due) (id : Nat) :
    Running (wheel.cancel id).1 time due ∧ (wheel.cancel id).2 = decide (wheel.slotOf id ≠ noSlot) ∧
      (wheel.cancel id).1.now = wheel.now ∧
      (∀ other, (wheel.cancel id).1.timeOf other = wheel.timeOf other) ∧
      ∀ other, (wheel.cancel id).1.slotOf other =
        if other = id then noSlot else wheel.slotOf other := by
  rcases running.linked with ⟨slots, linked⟩
  have unscheduled : wheel.slotOf id = noSlot →
      ∀ other, wheel.slotOf other = if other = id then noSlot else wheel.slotOf other := by
    intro fresh other
    by_cases same : other = id
    · rw [if_pos same, same, fresh]
    · rw [if_neg same]
  unfold TimerWheel.cancel
  by_cases outside : wheel.nodes.length ≤ id
  · have fresh : wheel.slotOf id = noSlot := by
      have missing : wheel.node id = none := getElem?_eq_none outside
      rw [slotOf, missing]
      rfl
    rw [if_pos outside]
    exact ⟨running, by simp [fresh], rfl, fun _ => rfl, unscheduled fresh⟩
  · rw [if_neg outside]
    by_cases scheduled : wheel.isScheduled id
    · rw [if_pos scheduled]
      rw [isScheduled_iff] at scheduled
      rcases linked.release scheduled with ⟨linked', moved, len⟩
      have left : ∀ other, (wheel.release id).slotOf other ≠ noSlot →
          other ≠ id ∧ wheel.slotOf other ≠ noSlot := by
        intro other stays
        rw [moved.slots] at stays
        by_cases same : other = id
        · rw [if_pos same] at stays
          exact absurd rfl stays
        · rw [if_neg same] at stays
          exact ⟨same, stays⟩
      refine ⟨⟨⟨_, linked'⟩, ?_, ?_⟩, by simp [scheduled], moved.now, moved.times, moved.slots⟩
      · exact
          { now := moved.now ▸ running.timed.now
            ids := fun other stays => moved.maxIds ▸ running.timed.ids other (left other stays).2
            times := fun other stays => by
              rw [moved.times]
              exact running.timed.times other (left other stays).2
            near := fun other stays => running.timed.near other (left other stays).2
            placed := by
              intro other stays
              rcases left other stays with ⟨apart, was⟩
              rw [moved.slots, if_neg apart]
              exact running.timed.placed other was }
      · have erased : (wheel.release id).scheduled = wheel.scheduled.erase id := by
          ext other
          rw [Finset.mem_erase, mem_scheduled, mem_scheduled, moved.slots]
          by_cases same : other = id
          · simp [same]
          · simp [same]
        rw [len, erased, Finset.card_erase_of_mem (mem_scheduled.mpr scheduled), running.counted]
    · rw [if_neg scheduled]
      rw [isScheduled_iff, not_not] at scheduled
      exact ⟨running, by simp [scheduled], rfl, fun _ => rfl, unscheduled scheduled⟩

lemma running_new (start : Millis) (capacity : Nat) :
    Running (new start capacity) start.toNat (fun _ => 0) := by
  have empty : ∀ id, (new start capacity).slotOf id = noSlot := by
    intro id
    rw [slotOf, node, new, getElem?_replicate]
    split
    · rfl
    · rfl
  have heads : ∀ flat, (new start capacity).headAt flat = nil := by
    intro flat
    rw [headAt, new, getElem?_replicate]
    split
    · rfl
    · rfl
  refine @Running.of_empty _ _ _ (fun _ => []) ?_ ?_ empty rfl
  · exact
      { headCount := length_replicate
        chained := fun flat _ => heads flat
        nodup := fun _ _ => nodup_nil
        mem := by
          intro flat inside id
          rw [empty]
          exact iff_of_false not_mem_nil fun both => ne_noSlot inside both.1.symm
        bounded := fun id => .inl (empty id) }
  · have bound := start.toNat_lt
    show start.toNat = _
    omega

/-! ## All runs -/

/-- The wheels that calls lead to. The clock moves on by less than half its range at a
time, and the bound on ids is never lowered. -/
inductive Reachable : TimerWheel → Prop where
  | new (start : Millis) (capacity : Nat) : Reachable (new start capacity)
  | schedule {wheel after : TimerWheel} {id : Nat} {stamp : Millis} :
      Reachable wheel → wheel.schedule id stamp = .ok after → Reachable after
  | cancel {wheel : TimerWheel} (id : Nat) : Reachable wheel → Reachable (wheel.cancel id).1
  | advance {wheel : TimerWheel} {target : Millis} (out : List Nat) :
      Reachable wheel → target.wrappingSub wheel.now < 2 ^ 31 →
      Reachable (wheel.advance target out).1
  | setMaxIds {wheel : TimerWheel} {maxIds : Nat} :
      Reachable wheel → wheel.maxIds ≤ maxIds → Reachable (wheel.setMaxIds maxIds)
  | setMaxCatchupMs {wheel : TimerWheel} (ms : Nat) :
      Reachable wheel → Reachable (wheel.setMaxCatchupMs ms)

lemma valid_of_schedule (scheduled : wheel.schedule id stamp = .ok after) :
    id ≠ nil ∧ id < wheel.maxIds := by
  unfold TimerWheel.schedule at scheduled
  by_cases isNil : id = nil
  · rw [if_pos isNil] at scheduled
    cases scheduled
  · rw [if_neg isNil] at scheduled
    by_cases outside : wheel.maxIds ≤ id
    · rw [if_pos outside] at scheduled
      cases scheduled
    · exact ⟨isNil, not_le.mp outside⟩

lemma Reachable.running (reachable : Reachable wheel) : ∃ time due, Running wheel time due := by
  induction reachable with
  | new start capacity => exact ⟨_, _, running_new start capacity⟩
  | schedule _ scheduled induction =>
    rcases induction with ⟨time, due, running⟩
    rcases valid_of_schedule scheduled with ⟨notNil, valid⟩
    rcases running.schedule notNil valid _ with ⟨after, equal, _, runs⟩
    rw [scheduled] at equal
    cases equal
    exact ⟨_, _, runs⟩
  | cancel id _ induction =>
    rcases induction with ⟨time, due, running⟩
    exact ⟨_, _, (running.cancel id).1⟩
  | advance out _ bounded induction =>
    rcases induction with ⟨time, due, running⟩
    rcases running.advance bounded out with ⟨after, fired, stats, equal, runs, _⟩
    rw [equal]
    exact ⟨_, _, runs⟩
  | setMaxIds _ raised induction =>
    rcases induction with ⟨time, due, running⟩
    exact ⟨_, _, running.of_settings rfl rfl rfl rfl raised⟩
  | setMaxCatchupMs ms _ induction =>
    rcases induction with ⟨time, due, running⟩
    exact ⟨_, _, running.of_settings rfl rfl rfl rfl (le_refl _)⟩

/-! ## Deadlines -/

lemma deadlineOf_of_scheduled (scheduled : wheel.slotOf id ≠ noSlot) :
    wheel.deadlineOf id = wheel.timeOf id := by
  rw [deadlineOf_eq, if_pos scheduled]

lemma deadlineOf_of_unscheduled (fresh : wheel.slotOf id = noSlot) :
    wheel.deadlineOf id = none := by
  rw [deadlineOf_eq, if_neg (not_not.mpr fresh)]

lemma Running.deadlineOf_isSome (running : Running wheel time due) (id : Nat) :
    (wheel.deadlineOf id).isSome ↔ wheel.slotOf id ≠ noSlot := by
  by_cases scheduled : wheel.slotOf id ≠ noSlot
  · rcases running.timed.times id scheduled with ⟨stamp, hit, _⟩
    rw [deadlineOf_of_scheduled scheduled, hit]
    exact iff_of_true rfl scheduled
  · rw [deadlineOf_of_unscheduled (not_not.mp scheduled)]
    exact iff_of_false (fun impossible => nomatch impossible) scheduled

lemma Running.distance (running : Running wheel time due)
    (hit : wheel.deadlineOf id = some deadline) :
    wheel.slotOf id ≠ noSlot ∧ time < due id ∧ due id < time + 2 ^ 31 ∧
      deadline.wrappingSub wheel.now = due id - time := by
  have scheduled : wheel.slotOf id ≠ noSlot := by
    rw [← running.deadlineOf_isSome, hit]
    rfl
  rcases running.timed.times id scheduled with ⟨stamp, timeOf, stampEq⟩
  rw [deadlineOf_of_scheduled scheduled, timeOf] at hit
  cases hit
  have later := running.lt_due scheduled
  have near := running.timed.near id scheduled
  exact ⟨scheduled, later, near, wrappingSub_eq running.timed.now stampEq (by omega) (by omega)⟩

lemma Running.deadlineOf_schedule (running : Running wheel time due)
    (changed : Rescheduled wheel after id deadline) :
    after.deadlineOf = update wheel.deadlineOf id (some deadline) := by
  funext other
  by_cases same : other = id
  · subst same
    rw [update_self, deadlineOf_of_scheduled ?_, changed.time]
    rw [changed.slots, if_pos rfl]
    exact flatAt_ne_noSlot _ _
  · rw [update_of_ne same, deadlineOf_eq, deadlineOf_eq, changed.slots, if_neg same]
    by_cases scheduled : wheel.slotOf other ≠ noSlot
    · rcases running.timed.times other scheduled with ⟨stamp, hit, _⟩
      rw [if_pos scheduled, if_pos scheduled, changed.times other stamp same hit, hit]
    · rw [if_neg scheduled, if_neg scheduled]

/-- The wheel is a finite map from ids to deadlines. Scheduling sets one deadline and
canceling removes one. Advancing fires the ids whose deadlines lie at or before the
target, each once, and removes them. All deadlines lie ahead, within the horizon. -/
theorem wheel_isDeadlineMap (reachable : Reachable wheel) :
    (∀ id stamp after, wheel.schedule id stamp = .ok after → after.now = wheel.now ∧
      after.deadlineOf = update wheel.deadlineOf id (some (effectiveAt wheel.now stamp))) ∧
    (∀ id, (wheel.cancel id).1.now = wheel.now ∧
      (wheel.cancel id).2 = (wheel.deadlineOf id).isSome ∧
      (wheel.cancel id).1.deadlineOf = update wheel.deadlineOf id none) ∧
    (∀ target out, target.wrappingSub wheel.now < 2 ^ 31 →
      (wheel.advance target out).1.now = target ∧
      ∃ fired, (wheel.advance target out).2.1 = out ++ fired ∧ fired.Nodup ∧
        (∀ id, id ∈ fired ↔ ∃ deadline, wheel.deadlineOf id = some deadline ∧
          deadline.wrappingSub wheel.now ≤ target.wrappingSub wheel.now) ∧
        ∀ id, (wheel.advance target out).1.deadlineOf id =
          if id ∈ fired then none else wheel.deadlineOf id) ∧
    (∀ id deadline, wheel.deadlineOf id = some deadline →
      1 ≤ deadline.wrappingSub wheel.now ∧ deadline.wrappingSub wheel.now ≤ horizonMs) ∧
    ∃ present : Finset Nat, (∀ id, id ∈ present ↔ (wheel.deadlineOf id).isSome) ∧
      wheel.len = present.card := by
  rcases reachable.running with ⟨time, due, running⟩
  refine ⟨?_, ?_, ?_, ?_, ?_⟩
  · intro id stamp after scheduled
    rcases valid_of_schedule scheduled with ⟨notNil, valid⟩
    rcases running.schedule notNil valid stamp with ⟨hit, equal, changed, _⟩
    rw [scheduled] at equal
    cases equal
    exact ⟨changed.now, running.deadlineOf_schedule changed⟩
  · intro id
    rcases running.cancel id with ⟨_, gave, now, times, slots⟩
    refine ⟨now, ?_, ?_⟩
    · rw [gave]
      by_cases scheduled : wheel.slotOf id ≠ noSlot
      · rw [(running.deadlineOf_isSome id).mpr scheduled, decide_eq_true scheduled]
      · rw [deadlineOf_of_unscheduled (not_not.mp scheduled), decide_eq_false scheduled]
        rfl
    · funext other
      rw [deadlineOf_eq, slots, times]
      by_cases same : other = id
      · subst same
        simp
      · rw [if_neg same, update_of_ne same, deadlineOf_eq]
  · intro target out bounded
    rcases running.advance bounded out with ⟨after, fired, stats, equal, runs, fires⟩
    rw [equal]
    have now : after.now = target := by
      apply UInt32.toNat_inj.mp
      have start := running.timed.now
      have targetBound := target.toNat_lt
      rw [runs.timed.now]
      rw [Millis.wrappingSub, UInt32.toNat_sub]
      omega
    refine ⟨now, fired, rfl, fires.nodup, ?_, ?_⟩
    · intro id
      rw [fires.members]
      constructor
      · rintro ⟨scheduled, isDue⟩
        rcases Option.isSome_iff_exists.mp ((running.deadlineOf_isSome id).mpr scheduled) with
          ⟨deadline, hit⟩
        refine ⟨deadline, hit, ?_⟩
        rw [(running.distance hit).2.2.2]
        omega
      · rintro ⟨deadline, hit, isDue⟩
        rcases running.distance hit with ⟨scheduled, later, _, distance⟩
        rw [distance] at isDue
        exact ⟨scheduled, by omega⟩
    · intro id
      rw [deadlineOf_eq]
      by_cases mem : id ∈ fired
      · rw [if_pos mem, if_neg]
        exact fun scheduled => ((fires.left id).mp scheduled).2 ((fires.members id).mp mem).2
      rw [if_neg mem]
      by_cases scheduled : after.slotOf id ≠ noSlot
      · rw [if_pos scheduled, fires.times id scheduled,
          deadlineOf_of_scheduled ((fires.left id).mp scheduled).1]
      · rw [if_neg scheduled, deadlineOf_of_unscheduled]
        by_contra was
        have notDue := fun isDue => mem ((fires.members id).mpr ⟨was, isDue⟩)
        exact scheduled ((fires.left id).mpr ⟨was, notDue⟩)
  · intro id deadline hit
    rcases running.distance hit with ⟨_, later, near, distance⟩
    rw [distance]
    unfold horizonMs
    omega
  · refine ⟨wheel.scheduled, ?_, running.counted⟩
    intro id
    rw [mem_scheduled, running.deadlineOf_isSome]

/-- Of two timers one is cancelled, and the other one fires in a sweep. -/
theorem twoTimers_isDeadlineMap :
    ∃ first both, (new 0 4).schedule 1 300 = .ok first ∧ first.schedule 2 700 = .ok both ∧
      (both.cancel 2).2 = true ∧
      (((both.cancel 2).1.setMaxCatchupMs 1).advance 6000 []).2.2.swept = true ∧
      ∀ id, id ∈ (((both.cancel 2).1.setMaxCatchupMs 1).advance 6000 []).2.1 ↔ id = 1 := by
  rcases (running_new 0 4).schedule (by decide : 1 ≠ nil) (by decide) 300 with
    ⟨first, setFirst, changed, running⟩
  rcases running.schedule (by decide : 2 ≠ nil) (by rw [changed.maxIds]; decide) 700 with
    ⟨both, setBoth, _, _⟩
  have reachFirst : Reachable first := .schedule (.new 0 4) setFirst
  have reachBoth : Reachable both := .schedule reachFirst setBoth
  rcases (wheel_isDeadlineMap (.new 0 4)).1 1 300 first setFirst with ⟨nowFirst, onlyFirst⟩
  rcases (wheel_isDeadlineMap reachFirst).1 2 700 both setBoth with ⟨nowBoth, twoSet⟩
  rcases (wheel_isDeadlineMap reachBoth).2.1 2 with ⟨nowLeft, cancelled, oneLeft⟩
  have noneSet : ∀ id, (new 0 4).deadlineOf id = none := by
    rcases (wheel_isDeadlineMap (.new 0 4)).2.2.2.2 with ⟨present, members, counted⟩
    intro id
    have absent : id ∉ present := by
      rw [Finset.card_eq_zero.mp counted.symm]
      exact Finset.notMem_empty id
    simpa using mt (members id).mpr absent
  have start : ((both.cancel 2).1.setMaxCatchupMs 1).now = 0 :=
    nowLeft.trans (nowBoth.trans nowFirst)
  refine ⟨first, both, setFirst, setBoth, ?_, ?_, fun id => ?_⟩
  · rw [cancelled, twoSet, update_self, Option.isSome_some]
  · have gap : Millis.since 6000 0 = 6000 := by decide
    rw [advance, start, gap, if_neg (by decide), if_pos]
    exact (by decide : 1 < 6000)
  · rcases (wheel_isDeadlineMap (.setMaxCatchupMs 1 (.cancel 2 reachBoth))).2.2.1 6000 []
      (by rw [start]; decide) with ⟨_, fired, out, _, members, _⟩
    have deadlines : ((both.cancel 2).1.setMaxCatchupMs 1).deadlineOf =
        update (new 0 4).deadlineOf 1 (some 300) := by
      refine oneLeft.trans ?_
      rw [twoSet, onlyFirst]
      funext other
      by_cases two : other = 2
      · rw [two, update_self, update_of_ne (by decide), noneSet]
      · rw [update_of_ne two, update_of_ne two]
        rfl
    rw [out, nil_append, members, deadlines, start]
    by_cases one : id = 1
    · rw [one, update_self]
      exact iff_of_true ⟨300, rfl, by decide⟩ rfl
    · rw [update_of_ne one, noneSet]
      exact iff_of_false (by simp) one

/-! ## Jumps of the clock -/

lemma Running.now_of_advance (running : Running wheel time due)
    (runs : Running after (time + target.wrappingSub wheel.now) due) : after.now = target := by
  apply UInt32.toNat_inj.mp
  have start := running.timed.now
  have bound := target.toNat_lt
  rw [runs.timed.now, Millis.wrappingSub, UInt32.toNat_sub]
  omega

lemma Fired.trans (first : Fired wheel halfway fired (due · ≤ early))
    (second : Fired halfway after later (due · ≤ late)) (ordered : early ≤ late) :
    Fired wheel after (fired ++ later) (due · ≤ late) where
  maxIds := second.maxIds.trans first.maxIds
  nodup := by
    refine nodup_append.mpr ⟨first.nodup, second.nodup, ?_⟩
    rintro id mem _ again rfl
    exact ((first.left id).mp ((second.members id).mp again).1).2 ((first.members id).mp mem).2
  members := by
    intro id
    rw [mem_append, first.members, second.members, first.left]
    grind
  left := by
    intro id
    rw [second.left, first.left]
    grind
  times id left := (second.times id left).trans (first.times id ((second.left id).mp left).1)

lemma Fired.agree (first : Fired wheel after fired isDue) (second : Fired wheel other again isDue) :
    fired.Perm again ∧ after.deadlineOf = other.deadlineOf := by
  constructor
  · rw [perm_ext_iff_of_nodup first.nodup second.nodup]
    intro id
    rw [first.members, second.members]
  · funext id
    have slots := (first.left id).trans (second.left id).symm
    rw [deadlineOf_eq, deadlineOf_eq]
    by_cases left : after.slotOf id ≠ noSlot
    · rw [if_pos left, if_pos (slots.mp left), first.times id left,
        second.times id (slots.mp left)]
    · rw [if_neg left, if_neg (mt slots.mpr left)]

/-- A jump of the clock fires and leaves what two shorter advances do, by ticks or by a sweep. -/
theorem advance_split (reachable : Reachable wheel) (middle target : Millis) (catchupMs : Nat)
    (bounded : middle.wrappingSub wheel.now + target.wrappingSub middle < 2 ^ 31) :
    let halfway := wheel.advance middle []
    let stepped := halfway.1.advance target halfway.2.1
    let jumped := (wheel.setMaxCatchupMs catchupMs).advance target []
    jumped.2.1.Nodup ∧ stepped.2.1.Perm jumped.2.1 ∧
      stepped.1.deadlineOf = jumped.1.deadlineOf := by
  rcases reachable.running with ⟨time, due, running⟩
  rcases running.advance (lt_of_le_of_lt (Nat.le_add_right ..) bounded) [] with
    ⟨half, fired, _, advanced, runs, fires⟩
  have now := running.now_of_advance runs
  subst now
  rcases runs.advance (lt_of_le_of_lt (Nat.le_add_left ..) bounded) fired with
    ⟨after, later, _, again, _, firesLater⟩
  have total : target.wrappingSub wheel.now =
      half.now.wrappingSub wheel.now + target.wrappingSub half.now := by
    have bounds := And.intro half.now.toNat_lt (And.intro target.toNat_lt wheel.now.toNat_lt)
    simp only [Millis.wrappingSub, UInt32.toNat_sub] at *
    omega
  have same : Running (wheel.setMaxCatchupMs catchupMs) time due :=
    running.of_settings rfl rfl rfl rfl le_rfl
  rcases same.advance (total.trans_lt bounded) [] with ⟨jump, all, _, jumps, _, firesAll⟩
  simp only [advanced, again, jumps, nil_append]
  have inSteps := fires.trans firesLater (Nat.le_add_right ..)
  rw [add_assoc, ← total] at inSteps
  exact ⟨firesAll.nodup, inSteps.agree { firesAll with }⟩

/-- One timer, in two steps and in one sweep. -/
theorem oneTimer_split :
    ∃ wheel, (new 0 2).schedule 1 300 = .ok wheel ∧
      ((wheel.advance 200 []).1.advance 400 (wheel.advance 200 []).2.1).2.1.Perm
        ((wheel.setMaxCatchupMs 0).advance 400 []).2.1 := by
  rcases (running_new 0 2).schedule (by decide : 1 ≠ nil) (by decide) 300 with
    ⟨wheel, scheduled, changed, _⟩
  refine ⟨wheel, scheduled, (advance_split (.schedule (.new 0 2) scheduled) 200 400 0 ?_).2.1⟩
  rw [changed.now]
  decide

end TimerWheel

end IronTraffic.Health
