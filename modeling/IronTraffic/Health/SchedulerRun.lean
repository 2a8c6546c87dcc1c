import IronTraffic.Health.Membership

/-! # Runs of the scheduler

What the bookkeeping says after any sequence of polls, reports, settings and rebuilds.
-/

namespace IronTraffic.Health

open List

variable {ids : List UInt64}

namespace HealthScheduler

/-! ## A new scheduler -/

/-- The loop of `new` succeeds and arms every endpoint. -/
lemma armAll_spec (now instanceId) (interval : Nat) (hasTraffic : Bool) (count : Nat)
    {ids : List UInt64} {start : Nat} {wheel sched} (room : start + ids.length ≤ maxEndpoints)
    (armed : Armed wheel (fun index => index < start)) :
    ∃ after sched', armAll now instanceId interval hasTraffic count (ids.zipIdx start) wheel sched =
        .ok (after, sched') ∧
      sched'.length = sched.length + ids.length ∧
      Armed after (fun index => index < start + ids.length) := by
  induction ids generalizing start wheel sched with
  | nil =>
    exact ⟨wheel, sched, rfl, rfl, armed⟩
  | cons id ids induction =>
    rw [length_cons] at room
    let endpoint := EndpointSchedule.initWithEffectiveInterval now instanceId id interval hasTraffic
    rcases armed.schedule (by omega : start < maxEndpoints) endpoint.nominal with
      ⟨next, scheduled, armedNext⟩
    have armedNext : Armed next (fun index => index < start + 1) :=
      armedNext.congr (fun index => by omega)
    rcases @induction (start + 1) next (sched ++ [endpoint]) (by omega) armedNext with
      ⟨after, sched', gave, length, armedAfter⟩
    refine ⟨after, sched', ?_, ?_, ?_⟩
    · rw [zipIdx_cons, armAll, scheduled]
      exact gave
    · rw [length, length_append, length_singleton, length_cons]
      omega
    · refine armedAfter.congr ?_
      rw [length_cons]
      omega

/-- `new` fails only on its checks, and starts with consistent books. -/
lemma new_spec {now instanceId ids cfg} {maxConcurrent : Nat} {hasTraffic : Bool}
    (valid : cfg.validate = .ok ()) (cap : 0 < maxConcurrent ∧ maxConcurrent ≤ maxConcurrentChecks)
    (room : ids.length ≤ maxEndpoints) (nodup : rejectDuplicateIds ids = .ok ()) :
    ∃ scheduler, new now instanceId ids cfg maxConcurrent hasTraffic = .ok scheduler ∧
      Consistent scheduler [] ∧ scheduler.endpointIds = ids := by
  have armed : Armed ((TimerWheel.new now ids.length).setMaxCatchupMs 5000)
      (fun index => index < 0) :=
    ((Armed.new now ids.length).setMaxCatchupMs 5000).congr (by simp)
  rcases @armAll_spec now instanceId cfg.effectiveIntervalMs.1 hasTraffic ids.length ids 0 _ []
    (by omega) armed with ⟨wheel, sched, gave, length, armedAll⟩
  rw [length_nil, zero_add] at length
  rw [new, valid, if_neg (by omega), if_neg (not_lt.mpr room), nodup]
  simp only [bind, Except.bind, gave]
  refine ⟨_, rfl, ?_, rfl⟩
  have same : ∀ {Item : Type} (item : Item),
      (List.replicate ids.length item).length = sched.length := by
    intro Item item
    rw [length_replicate, length]
  have unset : (List.replicate ids.length false).count true = 0 := by
    rw [count_replicate]
    rfl
  exact
    { endpointIds := length.symm
      inflight := same false
      dispatchedAt := same 0
      stuck := same false
      ejected := same false
      ramping := same false
      draining := same false
      bounded := length.trans_le room
      counted := unset.symm
      capped := Nat.zero_le _
      cap := cap.2
      gauge := unset.symm
      stuckInflight := fun _ set => set
      armed := armedAll.congr (fun index => by simp [len, length]) }

lemma consistent_new {now instanceId cfg} {maxConcurrent : Nat} {hasTraffic : Bool} {scheduler}
    (gave : new now instanceId ids cfg maxConcurrent hasTraffic = .ok scheduler) :
    Consistent scheduler [] := by
  have checked := gave
  rcases bind_eq_ok_iff.mp checked with ⟨_, valid, checked⟩
  rcases of_ite_error checked with ⟨badCap, checked⟩
  rcases of_ite_error checked with ⟨tooMany, checked⟩
  rcases bind_eq_ok_iff.mp checked with ⟨_, nodup, _⟩
  rcases @new_spec now instanceId ids cfg maxConcurrent hasTraffic valid (by omega)
    (not_lt.mp tooMany) nodup with ⟨hit, equal, sane, _⟩
  rw [gave] at equal
  cases equal
  exact sane

/-! ## Runs -/

variable {Source : Type}

/-- The schedulers that some run leads to. Times and reports are arbitrary: reports may be
forged, late or repeated. A failed rebuild leaves the scheduler as it was. -/
inductive Reachable (rng : Rng Source) : HealthScheduler → Prop where
  | new {now : Millis} {instanceId : UInt64} {ids : List UInt64} {cfg : HealthCheckConfig}
      {maxConcurrent : Nat} {hasTraffic : Bool} {scheduler : HealthScheduler} :
      new now instanceId ids cfg maxConcurrent hasTraffic = .ok scheduler →
      Reachable rng scheduler
  | pollDue {scheduler : HealthScheduler} (now : Millis) (out : List CheckOrder) :
      Reachable rng scheduler → Reachable rng (scheduler.pollDue now out).1
  | record {scheduler : HealthScheduler} (now : Millis) (report : CheckReport) (source : Source) :
      Reachable rng scheduler → Reachable rng (scheduler.record rng now report source).1
  | setEjected {scheduler : HealthScheduler} (index : Nat) (ejected : Bool) :
      Reachable rng scheduler → Reachable rng (scheduler.setEjected index ejected).1
  | setRamping {scheduler : HealthScheduler} (index : Nat) (ramping : Bool) :
      Reachable rng scheduler → Reachable rng (scheduler.setRamping index ramping).1
  | setDraining {scheduler : HealthScheduler} (index : Nat) (draining : Bool) :
      Reachable rng scheduler → Reachable rng (scheduler.setDraining index draining).1
  | setHasTraffic {scheduler : HealthScheduler} (hasTraffic : Bool) (now : Millis)
      (source : Source) :
      Reachable rng scheduler →
      Reachable rng (scheduler.setHasTraffic rng hasTraffic now source).1
  | setDeferMs {scheduler : HealthScheduler} (ms : Nat) :
      Reachable rng scheduler → Reachable rng (scheduler.setDeferMs ms)
  | setMaxCatchupMs {scheduler : HealthScheduler} (ms : Nat) :
      Reachable rng scheduler → Reachable rng (scheduler.setMaxCatchupMs ms)
  | rebuild {scheduler after : HealthScheduler} {now : Millis} {ids : List UInt64} :
      Reachable rng scheduler → scheduler.rebuild now ids = .ok after → Reachable rng after

variable {rng : Rng Source} {scheduler : HealthScheduler}

lemma Reachable.sane (reachable : Reachable rng scheduler) : Consistent scheduler [] := by
  induction reachable with
  | new gave => exact consistent_new gave
  | pollDue now out _ induction => exact (pollDue_spec induction now out).1
  | record now report source _ induction => exact consistent_record induction rng now report source
  | setEjected index ejected _ induction => exact consistent_setEjected induction index ejected
  | setRamping index ramping _ induction => exact consistent_setRamping induction index ramping
  | setDraining index draining _ induction => exact consistent_setDraining induction index draining
  | setHasTraffic hasTraffic now source _ induction =>
    exact consistent_setHasTraffic induction rng hasTraffic now source
  | setDeferMs ms _ induction => exact consistent_setDeferMs induction ms
  | setMaxCatchupMs ms _ induction => exact consistent_setMaxCatchupMs induction ms
  | rebuild _ rebuilt induction => exact consistent_rebuild induction rebuilt

/-- After any run the counters agree with the flags, the cap holds, stuck checks are in
flight, the vectors have one entry per endpoint and every endpoint has a timer. A poll
hands out at most one order per endpoint, none for a check that is out, under the
endpoint's id. -/
theorem bookkeeping_consistent (reachable : Reachable rng scheduler) :
    scheduler.inflightCount = scheduler.inflight.count true ∧
    scheduler.inflightCount ≤ scheduler.maxConcurrent ∧
    scheduler.stats.stuckInflight = scheduler.stuck.count true ∧
    (∀ index, flagAt scheduler.stuck index → flagAt scheduler.inflight index) ∧
    (scheduler.endpointIds.length = scheduler.len ∧ scheduler.inflight.length = scheduler.len ∧
      scheduler.dispatchedAt.length = scheduler.len ∧ scheduler.stuck.length = scheduler.len ∧
      scheduler.ejected.length = scheduler.len ∧ scheduler.ramping.length = scheduler.len ∧
      scheduler.draining.length = scheduler.len) ∧
    (∀ index, (scheduler.wheel.deadlineOf index).isSome ↔ index < scheduler.len) ∧
    ∀ now out, ∃ orders, (scheduler.pollDue now out).2.1 = out ++ orders ∧
      (orders.map CheckOrder.endpoint).Nodup ∧
      (∀ order ∈ orders, flagAt scheduler.inflight order.endpoint = false) ∧
      ∀ order ∈ orders, scheduler.endpointIds[order.endpoint]? = some order.endpointId := by
  have books := reachable.sane
  refine ⟨books.counted, books.capped, books.gauge, books.stuckInflight, ?_, ?_, ?_⟩
  · exact ⟨books.endpointIds, books.inflight, books.dispatchedAt, books.stuck, books.ejected,
      books.ramping, books.draining⟩
  · intro index
    rw [books.armed.deadlineOf_isSome]
    simp
  · intro now out
    exact (pollDue_spec books now out).2

lemma rejectDuplicateIds_of_pairwise (sorted : ids.Pairwise (· ≤ ·))
    (none : adjacentDuplicate ids = none) : rejectDuplicateIds ids = .ok () := by
  unfold rejectDuplicateIds
  rw [mergeSort_of_pairwise (sorted.imp (fun ordered => decide_eq_true ordered)), none]

/-- Two endpoints under a cap of one: after a poll, a forged report and a rebuild that drops
the first endpoint, moves the second and adds a third. -/
theorem twoEndpoints_bookkeeping :
    ∃ scheduler swapped, new 0 7 [10, 20] .default 1 true = .ok scheduler ∧
      ((scheduler.pollDue 5000 []).1.record ⟨fun source _ => (0, source)⟩ 5001
        ⟨1, 99, .pass, false⟩ ()).1.rebuild 5002 [20, 30] = .ok swapped ∧
      swapped.inflightCount ≤ swapped.maxConcurrent ∧
      ∀ index, (swapped.wheel.deadlineOf index).isSome ↔ index < swapped.len := by
  rcases @new_spec 0 7 [10, 20] .default 1 true rfl (by decide) (by decide)
    (rejectDuplicateIds_of_pairwise (by decide) rfl) with ⟨scheduler, gave, _, _⟩
  generalize reported : ((scheduler.pollDue 5000 []).1.record ⟨fun source _ => (0, source)⟩ 5001
    ⟨1, 99, .pass, false⟩ ()).1 = before
  have rebuilt : ∃ swapped, before.rebuild 5002 [20, 30] = .ok swapped := by
    rw [rebuild, if_neg (by decide), rejectDuplicateIds_of_pairwise (by decide) rfl]
    exact ⟨_, rfl⟩
  rcases rebuilt with ⟨swapped, rebuilt⟩
  have reachable : Reachable ⟨fun (source : Unit) _ => (0, source)⟩ before := by
    rw [← reported]
    exact .record 5001 ⟨1, 99, .pass, false⟩ () (.pollDue 5000 [] (.new gave))
  rcases bookkeeping_consistent (.rebuild reachable rebuilt) with ⟨_, capped, _, _, _, timers, _⟩
  exact ⟨scheduler, swapped, gave, by rw [reported]; exact rebuilt, capped, timers⟩

end HealthScheduler

end IronTraffic.Health
