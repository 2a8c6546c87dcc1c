import IronTraffic.Health.Scheduler
import IronTraffic.Health.WheelMap

/-! # Bookkeeping of the health scheduler

The vectors have one length, the counters count flags, and the wheel holds every
endpoint. While a poll works through the due endpoints, those that are still to come
are in no list of the wheel.
-/

namespace IronTraffic.Health

open List

/-! ## Armed wheels -/

/-- The wheel has an entry for exactly these ids, and room for every endpoint. -/
structure Armed (wheel : TimerWheel) (ids : Nat → Prop) : Prop where
  running : ∃ time due, wheel.Running time due
  scheduled : ∀ id, wheel.slotOf id ≠ noSlot ↔ ids id
  room : maxEndpoints ≤ wheel.maxIds

variable {id : Nat}

namespace Armed

variable {wheel : TimerWheel} {ids : Nat → Prop}

section

variable (armed : Armed wheel ids)

include armed

lemma congr {others} (same : ∀ id, ids id ↔ others id) : Armed wheel others :=
  ⟨armed.running, fun id => (armed.scheduled id).trans (same id), armed.room⟩

lemma deadlineOf_isSome (id : Nat) : (wheel.deadlineOf id).isSome ↔ ids id := by
  rcases armed.running with ⟨time, due, running⟩
  rw [running.deadlineOf_isSome, armed.scheduled]

lemma schedule (valid : id < maxEndpoints) (time) :
    ∃ after, wheel.schedule id time = .ok after ∧
      Armed after (fun other => ids other ∨ other = id) := by
  rcases armed.running with ⟨clock, due, running⟩
  have room := armed.room
  have notNil : id ≠ nil := by
    unfold maxEndpoints at valid
    unfold nil
    omega
  rcases running.schedule notNil (lt_of_lt_of_le valid room) time with
    ⟨after, scheduled, changed, runs⟩
  refine ⟨after, scheduled, ⟨_, _, runs⟩, ?_, changed.maxIds ▸ room⟩
  intro other
  rw [changed.slots]
  by_cases same : other = id
  · rw [if_pos same]
    exact iff_of_true (TimerWheel.flatAt_ne_noSlot _ _) (.inr same)
  · rw [if_neg same, armed.scheduled]
    exact ⟨.inl, fun either => either.resolve_right same⟩

lemma rearm (valid : id < maxEndpoints) (time) :
    Armed (wheel.rearm id time) (fun other => ids other ∨ other = id) := by
  rcases armed.schedule valid time with ⟨after, scheduled, armed'⟩
  rw [TimerWheel.rearm, scheduled]
  exact armed'

lemma cancel (id : Nat) : Armed (wheel.cancel id).1 (fun other => ids other ∧ other ≠ id) := by
  rcases armed.running with ⟨clock, due, running⟩
  rcases running.cancel id with ⟨runs, _, _, _, slots⟩
  refine ⟨⟨_, _, runs⟩, ?_, ?_⟩
  · intro other
    rw [slots]
    by_cases same : other = id
    · rw [if_pos same]
      exact iff_of_false (fun absurdity => absurdity rfl) (fun both => both.2 same)
    · rw [if_neg same, armed.scheduled]
      exact ⟨fun holds => ⟨holds, same⟩, And.left⟩
  · have maxIds : (wheel.cancel id).1.maxIds = wheel.maxIds := by
      unfold TimerWheel.cancel
      split
      · rfl
      · split
        case isTrue => exact TimerWheel.sameSettings_unlink.maxIds
        case isFalse => rfl
    rw [maxIds]
    exact armed.room

lemma advance (target out) :
    ∃ after fired stats, wheel.advance target out = (after, out ++ fired, stats) ∧ fired.Nodup ∧
      (∀ id ∈ fired, ids id) ∧ Armed after (fun id => ids id ∧ id ∉ fired) := by
  rcases armed.running with ⟨clock, due, running⟩
  by_cases bounded : target.wrappingSub wheel.now < 2 ^ 31
  · rcases running.advance bounded out with ⟨after, fired, stats, advanced, runs, fires⟩
    refine ⟨after, fired, stats, advanced, fires.nodup, ?_, ⟨_, _, runs⟩, ?_,
      fires.maxIds ▸ armed.room⟩
    · intro id mem
      exact (armed.scheduled id).mp ((fires.members id).mp mem).1
    · intro id
      rw [fires.left, fires.members, armed.scheduled]
      tauto
  · -- A time beyond the horizon is not after the wheel's time, and nothing happens.
    have still : target.since wheel.now = 0 := by
      rw [Millis.since, horizonMs, if_pos (by omega)]
    refine ⟨wheel, [], .none, ?_, nodup_nil, by simp, armed.congr (by simp)⟩
    rw [TimerWheel.advance, still, if_pos rfl, append_nil]

end

lemma new (now) (capacity : Nat) : Armed (TimerWheel.new now capacity) (fun _ => False) := by
  refine ⟨⟨_, _, TimerWheel.running_new now capacity⟩, ?_, ?_⟩
  · intro id
    refine iff_of_false (fun scheduled => scheduled ?_) not_false
    rw [TimerWheel.slotOf, TimerWheel.node, TimerWheel.new, getElem?_replicate]
    split
    · rfl
    · rfl
  · exact le_max_right _ _

lemma setMaxCatchupMs (armed : Armed wheel ids) (ms : Nat) :
    Armed (wheel.setMaxCatchupMs ms) ids := by
  rcases armed.running with ⟨clock, due, running⟩
  exact ⟨⟨_, _, running.of_settings rfl rfl rfl rfl (le_refl _)⟩, armed.scheduled, armed.room⟩

end Armed

/-! ## Flags -/

section Flags

variable {index : Nat}

lemma flagAt_set (value : Bool) (inside : index < flags.length) (other : Nat) :
    flagAt (flags.set index value) other = if other = index then value else flagAt flags other := by
  unfold flagAt
  by_cases same : other = index
  · rw [if_pos same, same, getElem?_set_self inside]
    rfl
  · rw [if_neg same, getElem?_set_ne (Ne.symm same)]

lemma lt_length_of_flagAt (set : flagAt flags index) : index < flags.length := by
  by_contra outside
  rw [flagAt, getElem?_eq_none (not_lt.mp outside)] at set
  cases set

lemma flagAt_eq_getElem (inside : index < flags.length) : flagAt flags index = flags[index] := by
  rw [flagAt, getElem?_eq_getElem inside]
  rfl

lemma count_set_true (inside : index < flags.length) (unset : flagAt flags index = false) :
    (flags.set index true).count true = flags.count true + 1 := by
  rw [count_set inside, ← flagAt_eq_getElem inside, unset]
  rfl

lemma count_set_false (set : flagAt flags index) :
    (flags.set index false).count true + 1 = flags.count true := by
  have inside := lt_length_of_flagAt set
  have positive : 0 < flags.count true := by
    rw [count_pos_iff]
    rw [flagAt_eq_getElem inside] at set
    exact mem_of_getElem set
  rw [count_set inside, ← flagAt_eq_getElem inside, set]
  simp
  omega

lemma set_of_unset (unset : flagAt flags index = false) : flags.set index false = flags := by
  by_cases inside : index < flags.length
  · rw [flagAt_eq_getElem inside] at unset
    rw [← unset, set_getElem_self]
  · rw [set_eq_of_length_le (not_lt.mp inside)]

end Flags

/-! ## Consistent schedulers -/

namespace HealthScheduler

/-- The scheduler while the entries of the pending endpoints are taken out of the wheel. -/
structure Consistent (scheduler : HealthScheduler) (pending : List Nat) : Prop where
  endpointIds : scheduler.endpointIds.length = scheduler.len
  inflight : scheduler.inflight.length = scheduler.len
  dispatchedAt : scheduler.dispatchedAt.length = scheduler.len
  stuck : scheduler.stuck.length = scheduler.len
  ejected : scheduler.ejected.length = scheduler.len
  ramping : scheduler.ramping.length = scheduler.len
  draining : scheduler.draining.length = scheduler.len
  bounded : scheduler.len ≤ maxEndpoints
  counted : scheduler.inflightCount = scheduler.inflight.count true
  capped : scheduler.inflightCount ≤ scheduler.maxConcurrent
  cap : scheduler.maxConcurrent ≤ maxConcurrentChecks
  gauge : scheduler.stats.stuckInflight = scheduler.stuck.count true
  stuckInflight : ∀ index, flagAt scheduler.stuck index → flagAt scheduler.inflight index
  armed : Armed scheduler.wheel (fun index => index < scheduler.len ∧ index ∉ pending)

variable {scheduler : HealthScheduler} {pending rest : List Nat}

lemma Consistent.gauge_le (sane : Consistent scheduler pending) :
    scheduler.stats.stuckInflight ≤ maxEndpoints := by
  rw [sane.gauge]
  exact le_trans count_le_length (sane.stuck.trans_le sane.bounded)

lemma armed_rest {wheel} {len : Nat} {time}
    (armed : Armed wheel (fun index => index < len ∧ index ∉ id :: rest))
    (bounded : len ≤ maxEndpoints) (inside : id < len) (fresh : id ∉ rest) :
    Armed (wheel.rearm id time) (fun index => index < len ∧ index ∉ rest) := by
  refine (armed.rearm (lt_of_lt_of_le inside bounded) time).congr ?_
  intro index
  by_cases same : index = id
  · subst same
    exact iff_of_true (.inr rfl) ⟨inside, fresh⟩
  · simp [same]

lemma saturatingAdd32_eq (small : left ≤ maxEndpoints) : saturatingAdd32 left 1 = left + 1 := by
  unfold saturatingAdd32
  unfold maxEndpoints at small
  omega

/-! ## Polling -/

section

variable {polling : Polling} (sane : Consistent polling.scheduler (id :: rest))
  (inside : id < polling.scheduler.len)

include sane inside

lemma consistent_deferInflight (fresh : id ∉ rest) (out : flagAt polling.scheduler.inflight id) :
    Consistent (deferInflight now polling id).scheduler rest := by
  have gauge_le := sane.gauge_le
  have armed := @armed_rest id rest _ _ (now.addMs polling.scheduler.deferMs) sane.armed
    sane.bounded inside fresh
  have stuckInside : id < polling.scheduler.stuck.length := by
    rw [sane.stuck]
    exact inside
  unfold deferInflight
  simp only
  split
  case isTrue late =>
    exact
      { sane with
        stuck := length_set.trans sane.stuck
        gauge := by
          rw [saturatingAdd32_eq gauge_le, count_set_true stuckInside late.2, sane.gauge]
        stuckInflight := by
          intro index flagged
          rw [flagAt_set _ stuckInside] at flagged
          by_cases same : index = id
          · rw [same]
            exact out
          · rw [if_neg same] at flagged
            exact sane.stuckInflight index flagged
        armed }
  case isFalse => exact { sane with armed }

lemma consistent_deferCapped
    (fresh : id ∉ rest) : Consistent (deferCapped now polling id).scheduler rest :=
  { sane with armed := armed_rest sane.armed sane.bounded inside fresh }

lemma consistent_dispatch (fresh : id ∉ rest) (free : flagAt polling.scheduler.inflight id = false)
    (below : polling.scheduler.inflightCount < polling.scheduler.maxConcurrent) :
    Consistent (dispatch now polling id).scheduler rest := by
  have inflightInside : id < polling.scheduler.inflight.length := by
    rw [sane.inflight]
    exact inside
  have unstuck : flagAt polling.scheduler.stuck id = false := by
    by_contra flagged
    rw [Bool.not_eq_false] at flagged
    rw [sane.stuckInflight id flagged] at free
    cases free
  have len : (dispatch now polling id).scheduler.len = polling.scheduler.len :=
    length_modify _ _ _
  have cap := sane.cap
  have sum : saturatingAdd32 polling.scheduler.inflightCount 1 =
      polling.scheduler.inflightCount + 1 := by
    unfold saturatingAdd32
    unfold maxConcurrentChecks at cap
    omega
  exact
    { endpointIds := sane.endpointIds.trans len.symm
      inflight := (length_set.trans sane.inflight).trans len.symm
      dispatchedAt := (length_set.trans sane.dispatchedAt).trans len.symm
      stuck := (length_set.trans sane.stuck).trans len.symm
      ejected := sane.ejected.trans len.symm
      ramping := sane.ramping.trans len.symm
      draining := sane.draining.trans len.symm
      bounded := len ▸ sane.bounded
      counted := by
        show saturatingAdd32 polling.scheduler.inflightCount 1 =
          (polling.scheduler.inflight.set id true).count true
        rw [sum, count_set_true inflightInside free, sane.counted]
      capped := sum.trans_le below
      cap
      gauge := by
        show polling.scheduler.stats.stuckInflight =
          (polling.scheduler.stuck.set id false).count true
        rw [set_of_unset unstuck]
        exact sane.gauge
      stuckInflight := by
        intro index flagged
        show flagAt (polling.scheduler.inflight.set id true) index
        have flagged : flagAt (polling.scheduler.stuck.set id false) index := flagged
        rw [set_of_unset unstuck] at flagged
        rw [flagAt_set _ inflightInside]
        by_cases same : index = id
        · rw [if_pos same]
        · rw [if_neg same]
          exact sane.stuckInflight index flagged
      armed := by
        rw [len]
        exact armed_rest sane.armed sane.bounded inside fresh }

lemma consistent_pollOne
    (fresh : id ∉ rest) : Consistent (pollOne now polling id).scheduler rest := by
  rw [pollOne, if_neg (not_le.mpr inside)]
  split
  case isTrue out => exact consistent_deferInflight sane inside fresh out
  case isFalse free =>
    split
    case isTrue => exact consistent_deferCapped sane inside fresh
    case isFalse below =>
      exact consistent_dispatch sane inside fresh (by simpa using free)
        (not_le.mp below)

end

/-- What one turn leaves alone, and the order it may hand out. -/
structure PolledOne (before after : Polling) (id : Nat) : Prop where
  endpointIds : after.scheduler.endpointIds = before.scheduler.endpointIds
  len : after.scheduler.len = before.scheduler.len
  inflight : ∀ index, index ≠ id →
    flagAt after.scheduler.inflight index = flagAt before.scheduler.inflight index
  orders : after.out = before.out ∨
    ∃ order, after.out = before.out ++ [order] ∧ order.endpoint = id ∧
      before.scheduler.endpointIds[id]? = some order.endpointId ∧
      flagAt before.scheduler.inflight id = false

lemma polledOne (sane : Consistent polling.scheduler pending)
    (inside : id < polling.scheduler.len) : PolledOne polling (pollOne now polling id) id := by
  rw [pollOne, if_neg (not_le.mpr inside)]
  split
  case isTrue =>
    unfold deferInflight
    simp only
    split
    · exact ⟨rfl, rfl, fun _ _ => rfl, .inl rfl⟩
    · exact ⟨rfl, rfl, fun _ _ => rfl, .inl rfl⟩
  case isFalse free =>
    split
    · exact ⟨rfl, rfl, fun _ _ => rfl, .inl rfl⟩
    have idInside : id < polling.scheduler.endpointIds.length := by
      rw [sane.endpointIds]
      exact inside
    have flagInside : id < polling.scheduler.inflight.length := by
      rw [sane.inflight]
      exact inside
    refine ⟨rfl, length_modify _ _ _, ?_, .inr ⟨_, rfl, rfl, ?_, by simpa using free⟩⟩
    · intro index other
      show flagAt (polling.scheduler.inflight.set id true) index = _
      rw [flagAt_set _ flagInside, if_neg other]
    · rw [getElem?_eq_getElem idInside]
      simp

/-- The orders of a poll: for different due endpoints, none of which was in flight, each with
the endpoint's id. -/
structure Ordered (before : HealthScheduler) (due : List Nat) (orders : List CheckOrder) :
    Prop where
  endpoints : (orders.map CheckOrder.endpoint).Sublist due
  free : ∀ order ∈ orders, flagAt before.inflight order.endpoint = false
  ids : ∀ order ∈ orders, before.endpointIds[order.endpoint]? = some order.endpointId

lemma pollAll_spec {due polling} (sane : Consistent polling.scheduler due) (nodup : due.Nodup)
    (inside : ∀ id ∈ due, id < polling.scheduler.len) :
    Consistent (due.foldl (pollOne now) polling).scheduler [] ∧
    ∃ orders, (due.foldl (pollOne now) polling).out = polling.out ++ orders ∧
      Ordered polling.scheduler due orders := by
  induction due generalizing polling with
  | nil =>
    exact ⟨sane, [], by simp, ⟨List.Sublist.refl _, by simp, by simp⟩⟩
  | cons id rest induction =>
    rw [nodup_cons] at nodup
    rcases forall_mem_cons.mp inside with ⟨here, others⟩
    have step : Consistent (pollOne now polling id).scheduler rest :=
      consistent_pollOne sane here nodup.1
    have polled : PolledOne polling (pollOne now polling id) id := polledOne sane here
    rw [foldl_cons]
    rcases induction step nodup.2 (fun other mem => by
      rw [polled.len]
      exact others other mem) with ⟨done, orders, out, ordered⟩
    have restFree : ∀ order ∈ orders, flagAt polling.scheduler.inflight order.endpoint = false := by
      intro order mem
      have due := ordered.endpoints.subset (mem_map_of_mem mem)
      have apart : order.endpoint ≠ id := fun same => nodup.1 (same ▸ due)
      rw [← polled.inflight order.endpoint apart]
      exact ordered.free order mem
    have restIds : ∀ order ∈ orders,
        polling.scheduler.endpointIds[order.endpoint]? = some order.endpointId := by
      intro order mem
      rw [← polled.endpointIds]
      exact ordered.ids order mem
    refine ⟨done, ?_⟩
    rcases polled.orders with same | ⟨order, extended, endpoint, endpointId, free⟩
    · refine ⟨orders, by rw [out, same], ?_, restFree, restIds⟩
      exact ordered.endpoints.cons id
    · refine ⟨order :: orders, by rw [out, extended, append_assoc]; rfl, ?_, ?_, ?_⟩
      · rw [map_cons, endpoint]
        exact ordered.endpoints.cons_cons id
      · exact forall_mem_cons.mpr ⟨endpoint ▸ free, restFree⟩
      · exact forall_mem_cons.mpr ⟨endpoint ▸ endpointId, restIds⟩

lemma pollDue_spec (sane : Consistent scheduler []) (now out) :
    Consistent (scheduler.pollDue now out).1 [] ∧
      ∃ orders, (scheduler.pollDue now out).2.1 = out ++ orders ∧
        (orders.map CheckOrder.endpoint).Nodup ∧
        (∀ order ∈ orders, flagAt scheduler.inflight order.endpoint = false) ∧
        ∀ order ∈ orders, scheduler.endpointIds[order.endpoint]? = some order.endpointId := by
  rcases sane.armed.advance now [] with ⟨after, fired, stats, advanced, nodup, valid, armed⟩
  simp only [pollDue, advanced, nil_append]
  have start : Consistent
      { scheduler with
        wheel := after
        stats := { scheduler.stats with
          timerCatchupClamped :=
            saturatingAdd64 scheduler.stats.timerCatchupClamped (if stats.swept then 1 else 0) } }
      fired :=
    { sane with armed := armed.congr (by simp [len]) }
  rcases @pollAll_spec now fired ⟨_, out, 0, 0⟩ start nodup (fun id mem => (valid id mem).1)
    with ⟨done, orders, appended, ordered⟩
  exact ⟨done, orders, appended, ordered.endpoints.nodup nodup, ordered.free, ordered.ids⟩

end HealthScheduler

end IronTraffic.Health
