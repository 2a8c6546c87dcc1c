import IronTraffic.Health.Bookkeeping

/-! # Reports and settings

Reports, late, forged or repeated, and changes of the settings keep the books.
-/

namespace IronTraffic.Health

open List

variable {index : Nat} {wheel : TimerWheel}

namespace HealthScheduler

variable {scheduler : HealthScheduler} {Source : Type}

/-! ## Reports -/

lemma Consistent.of_stats (sane : Consistent scheduler pending) (stats)
    (gauge : stats.stuckInflight = scheduler.stats.stuckInflight) :
    Consistent { scheduler with stats } pending :=
  { sane with gauge := gauge.trans sane.gauge }

lemma consistent_settleReport (sane : Consistent scheduler [])
    (awaited : flagAt scheduler.inflight index) : Consistent (scheduler.settleReport index) [] := by
  have inside := lt_length_of_flagAt awaited
  have cleared := count_set_false awaited
  have counted := sane.counted
  have capped := sane.capped
  have gauge := sane.gauge
  unfold settleReport
  cases wasStuck : flagAt scheduler.stuck index with
  | true =>
    have unstuck := count_set_false wasStuck
    simp only [if_true]
    exact
      { sane with
        inflight := length_set.trans sane.inflight
        stuck := length_set.trans sane.stuck
        counted := by simp only; omega
        capped := by simp only; omega
        gauge := by simp only; omega
        stuckInflight := by
          intro other flagged
          rw [flagAt_set _ (lt_length_of_flagAt wasStuck)] at flagged
          rw [flagAt_set _ inside]
          by_cases same : other = index
          · rw [if_pos same] at flagged
            cases flagged
          · rw [if_neg same] at flagged ⊢
            exact sane.stuckInflight other flagged }
  | false =>
    simp only [Bool.false_eq_true, if_false]
    exact
      { sane with
        inflight := length_set.trans sane.inflight
        counted := by simp only; omega
        capped := by simp only; omega
        stuckInflight := by
          intro other flagged
          rw [flagAt_set _ inside]
          by_cases same : other = index
          · rw [same, wasStuck] at flagged
            cases flagged
          · rw [if_neg same]
            exact sane.stuckInflight other flagged }

lemma Consistent.renewed (sane : Consistent scheduler []) {sched}
    (same : sched.length = scheduler.len)
    (armed : Armed wheel (fun index => index < scheduler.len ∧ index ∉ ([] : List Nat)))
    {stats} (gauge : stats.stuckInflight = scheduler.stats.stuckInflight) :
    Consistent { scheduler with sched, wheel, stats } [] := by
  have len : ({ scheduler with sched, wheel, stats } : HealthScheduler).len = scheduler.len := same
  exact
    { sane with
      endpointIds := sane.endpointIds.trans len.symm
      inflight := sane.inflight.trans len.symm
      dispatchedAt := sane.dispatchedAt.trans len.symm
      stuck := sane.stuck.trans len.symm
      ejected := sane.ejected.trans len.symm
      ramping := sane.ramping.trans len.symm
      draining := sane.draining.trans len.symm
      bounded := len ▸ sane.bounded
      gauge := gauge.trans sane.gauge
      armed := by
        rw [len]
        exact armed }

lemma armed_again {len : Nat}
    (armed : Armed wheel (fun index => index < len ∧ index ∉ ([] : List Nat)))
    (bounded : len ≤ maxEndpoints) (inside : index < len) (time) :
    ∃ after, wheel.schedule index time = .ok after ∧
      Armed after (fun index => index < len ∧ index ∉ ([] : List Nat)) := by
  rcases armed.schedule (lt_of_lt_of_le inside bounded) time with ⟨after, scheduled, armed'⟩
  refine ⟨after, scheduled, armed'.congr ?_⟩
  intro other
  refine or_iff_left_of_imp ?_
  rintro rfl
  exact ⟨inside, not_mem_nil⟩

lemma countTransition_gauge (stats transition) :
    (SchedulerStats.countTransition stats transition).stuckInflight = stats.stuckInflight := by
  cases transition with
  | none | toHealthy | toUnhealthy => rfl

lemma consistent_record (sane : Consistent scheduler []) (rng : Rng Source) (now : Millis)
    (report) (source : Source) :
    Consistent (scheduler.record rng now report source).1 [] := by
  unfold record
  simp only
  split
  case isTrue => exact sane.of_stats _ rfl
  case isFalse known =>
    rw [not_or, not_le] at known
    split
    case isTrue => exact sane.of_stats _ rfl
    case isFalse awaited =>
      rw [Bool.not_eq_false] at awaited
      have settled := consistent_settleReport sane awaited
      have inside : report.endpoint < (scheduler.settleReport report.endpoint).len := known.1
      refine settled.renewed ?_ ?_ (countTransition_gauge _ _)
      · split
        case isTrue => simp only [length_modify, len]
        case isFalse => simp only [length_modify, len]
      · generalize ((modify _ _ _)[report.endpoint]?.map _).getD _ = timed
        rcases armed_again settled.armed settled.bounded inside timed.1 with
          ⟨wheel, scheduled, armed⟩
        rw [scheduled]
        exact armed

/-! ## Settings -/

section

variable (sane : Consistent scheduler [])

include sane

lemma consistent_setEjected (index : Nat) (ejected : Bool) :
    Consistent (scheduler.setEjected index ejected).1 [] :=
  { sane with ejected := length_set.trans sane.ejected }

lemma consistent_setRamping (index : Nat) (ramping : Bool) :
    Consistent (scheduler.setRamping index ramping).1 [] :=
  { sane with ramping := length_set.trans sane.ramping }

lemma consistent_setDraining (index : Nat) (draining : Bool) :
    Consistent (scheduler.setDraining index draining).1 [] :=
  { sane with draining := length_set.trans sane.draining }

lemma consistent_setDeferMs (ms : Nat) : Consistent (scheduler.setDeferMs ms) [] :=
  { sane with }

lemma consistent_setMaxCatchupMs (ms : Nat) : Consistent (scheduler.setMaxCatchupMs ms) [] :=
  { sane with armed := sane.armed.setMaxCatchupMs _ }

end

lemma consistent_retime (rng) {now : Millis} {interval index : Nat}
    {source : Source} (sane : Consistent scheduler []) (inside : index < scheduler.len) :
    Consistent (retime rng now interval (scheduler, source) index).1 [] ∧
      (retime rng now interval (scheduler, source) index).1.len = scheduler.len := by
  unfold retime
  simp only
  split
  · refine ⟨sane.renewed ?_ sane.armed rfl, ?_⟩
    · exact length_modify _ _ _
    · exact length_modify _ _ _
  refine ⟨sane.renewed ?_ ?_ rfl, ?_⟩
  · simp only [length_modify, len]
  · generalize ((modify _ _ _)[index]?.map _).getD _ = timed
    rcases armed_again sane.armed sane.bounded inside timed.1 with
      ⟨wheel, scheduled, armed⟩
    rw [TimerWheel.rearm, scheduled]
    exact armed
  · simp only [length_modify, len]

lemma consistent_setHasTraffic (sane : Consistent scheduler []) (rng)
    (hasTraffic : Bool) (now : Millis) (source : Source) :
    Consistent (scheduler.setHasTraffic rng hasTraffic now source).1 [] := by
  have all : ∀ {indices : List Nat} {interval : Nat} {state : HealthScheduler × Source},
      Consistent state.1 [] → (∀ index ∈ indices, index < state.1.len) →
      Consistent (indices.foldl (retime rng now interval) state).1 [] := by
    intro indices interval
    induction indices with
    | nil => exact fun sane _ => sane
    | cons index rest induction =>
      intro state sane inside
      rcases forall_mem_cons.mp inside with ⟨here, others⟩
      rcases @consistent_retime state.1 Source rng now interval index state.2 sane here with
        ⟨step, len⟩
      exact induction step fun other mem => by
        rw [len]
        exact others other mem
  unfold setHasTraffic
  split
  · exact sane
  · refine all { sane with } ?_
    intro index mem
    exact mem_range.mp mem

end HealthScheduler

end IronTraffic.Health
