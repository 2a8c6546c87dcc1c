import IronTraffic.Foundation.Fallible
import IronTraffic.Health.Reports

/-! # Changes of the membership

A rebuild carries endpoints over to new indices, drops some and adds others. A check
that is out is kept only where the index stays; the gauge of stuck checks gives up what
is moved or dropped.
-/

namespace IronTraffic.Health

open List

/-! ## Distinct ids -/

variable {ids done : List UInt64} {id : UInt64} {index count old : Nat}
  {flags stuck carried : List Bool} {new : Rebuilding}

lemma nodup_of_adjacentDuplicate (sorted : ids.Pairwise (· ≤ ·))
    (none : adjacentDuplicate ids = none) : ids.Nodup := by
  induction ids using adjacentDuplicate.induct with
  | case1 left rest =>
    rw [adjacentDuplicate, if_pos rfl] at none
    cases none
  | case2 left right rest apart induction =>
    rw [adjacentDuplicate, if_neg apart] at none
    rw [pairwise_cons] at sorted
    refine nodup_cons.mpr ⟨?_, induction sorted.2 none⟩
    intro mem
    have first := sorted.1 right mem_cons_self
    rcases mem_cons.mp mem with same | later
    · exact apart same
    · have second := (pairwise_cons.mp sorted.2).1 left later
      exact apart (UInt64.le_antisymm first second)
  | case3 ids short =>
    match ids, short with
    | [], _ => exact nodup_nil
    | [id], _ => exact nodup_singleton id
    | left :: right :: rest, short => exact absurd rfl (short left right rest)

lemma nodup_of_rejectDuplicateIds (accepted : rejectDuplicateIds ids = .ok ()) : ids.Nodup := by
  unfold rejectDuplicateIds at accepted
  have sorted := @pairwise_mergeSort _ (fun left right : UInt64 => decide (left ≤ right))
    (fun a b c first second => by
      rw [decide_eq_true_iff] at first second ⊢
      exact UInt64.le_trans first second)
    (fun a b => by
      rw [Bool.or_eq_true, decide_eq_true_iff, decide_eq_true_iff]
      exact UInt64.le_total a b) ids
  simp only [decide_eq_true_eq] at sorted
  have perm := mergeSort_perm ids fun left right => decide (left ≤ right)
  cases hit : adjacentDuplicate (ids.mergeSort fun left right => decide (left ≤ right)) with
  | some duplicate =>
    rw [hit] at accepted
    cases accepted
  | none => exact perm.nodup_iff.mp (nodup_of_adjacentDuplicate sorted hit)

lemma oldIndex_spec (hit : HealthScheduler.oldIndex ids id = some index) :
    ids[index]? = some id := by
  have general : ∀ {entries : List (UInt64 × Nat)} {start : Option Nat},
      entries.foldl (fun hit entry => if entry.1 = id then some entry.2 else hit) start =
        some index → start = some index ∨ (id, index) ∈ entries := by
    intro entries
    induction entries with
    | nil => exact fun gave => .inl gave
    | cons entry rest induction =>
      intro start gave
      rw [foldl_cons] at gave
      rcases induction gave with now | later
      · by_cases same : entry.1 = id
        · rw [if_pos same] at now
          right
          rw [← same, ← Option.some.inj now]
          exact mem_cons_self
        · rw [if_neg same] at now
          exact .inl now
      · exact .inr (mem_cons_of_mem _ later)
  rcases general hit with impossible | mem
  · cases impossible
  · exact mem_zipIdx_iff_getElem?.mp mem

/-! ## Counting flags by index -/

lemma flagAt_append (flags) (value : Bool) (index : Nat) :
    flagAt (flags ++ [value]) index =
      if index = flags.length then value else flagAt flags index := by
  unfold flagAt
  by_cases last : index = flags.length
  · subst last
    simp
  · rw [if_neg last]
    by_cases inside : index < flags.length
    · rw [getElem?_append_left inside]
    · rw [getElem?_eq_none (not_lt.mp inside), getElem?_eq_none]
      rw [length_append, length_singleton]
      omega

lemma forall_flagAt_append {value : Bool} {property : Nat → Prop}
    (earlier : ∀ index, flagAt flags index → property index) (last : value → property flags.length)
    (index) (set : flagAt (flags ++ [value]) index) : property index := by
  rw [flagAt_append] at set
  by_cases isLast : index = flags.length
  · rw [if_pos isLast] at set
    exact isLast ▸ last set
  · rw [if_neg isLast] at set
    exact earlier index set

lemma flagAt_append_length (flags) (value : Bool) :
    flagAt (flags ++ [value]) flags.length = value := by
  rw [flagAt_append, if_pos rfl]

lemma flagAt_append_of_flagAt (value : Bool) (set : flagAt flags index) :
    flagAt (flags ++ [value]) index := by
  rw [flagAt_append, if_neg (ne_of_lt (lt_length_of_flagAt set))]
  exact set

lemma count_append_flag (flags) (value : Bool) :
    (flags ++ [value]).count true = flags.count true + (if value then 1 else 0) := by
  rw [count_append]
  cases value with
  | true | false => rfl

def flagged (flags : List Bool) : Finset Nat :=
  (Finset.range flags.length).filter fun index => flagAt flags index

lemma mem_flagged : index ∈ flagged flags ↔ flagAt flags index := by
  rw [flagged, Finset.mem_filter, Finset.mem_range, and_iff_right_iff_imp]
  exact lt_length_of_flagAt

lemma count_eq_card_flagged (flags) : flags.count true = (flagged flags).card := by
  induction flags using reverseRecOn with
  | nil => rfl
  | append_singleton flags value induction =>
    have fresh : flags.length ∉ flagged flags := by
      unfold flagged
      simp
    cases value with
    | true =>
      have extended : flagged (flags ++ [true]) = insert flags.length (flagged flags) := by
        ext index
        rw [Finset.mem_insert, mem_flagged, mem_flagged, flagAt_append]
        by_cases last : index = flags.length
        · simp [last]
        · simp [last]
      rw [extended, Finset.card_insert_of_notMem fresh, ← induction, count_append]
      rfl
    | false =>
      have same : flagged (flags ++ [false]) = flagged flags := by
        ext index
        rw [mem_flagged, mem_flagged, flagAt_append]
        by_cases last : index = flags.length
        · subst last
          exact iff_of_false (by simp) (fun set => fresh (mem_flagged.mpr set))
        · rw [if_neg last]
      rw [same, ← induction, count_append]
      rfl

lemma count_le_of_subset (subset : ∀ index, flagAt flags index → flagAt others index) :
    flags.count true ≤ others.count true := by
  rw [count_eq_card_flagged, count_eq_card_flagged]
  apply Finset.card_le_card
  intro index mem
  exact mem_flagged.mpr (subset index (mem_flagged.mp mem))

lemma releaseStuckGaugeForRemoved_eq (gauge : Nat) (same : carried.length = stuck.length) :
    HealthScheduler.releaseStuckGaugeForRemoved gauge stuck carried =
      gauge - (flagged stuck \ flagged carried).card := by
  have general : ∀ carried : List Bool,
      HealthScheduler.releaseStuckGaugeForRemoved gauge stuck carried = gauge -
        ((Finset.range carried.length).filter fun index =>
          flagAt carried index = false ∧ flagAt stuck index).card := by
    intro carried
    induction carried using reverseRecOn with
    | nil => rfl
    | append_singleton carried value induction =>
      have earlier : ∀ index ∈ Finset.range carried.length,
          (flagAt (carried ++ [value]) index = false ∧ flagAt stuck index) ↔
            (flagAt carried index = false ∧ flagAt stuck index) := by
        intro index inside
        rw [flagAt_append, if_neg (ne_of_lt (Finset.mem_range.mp inside))]
      unfold HealthScheduler.releaseStuckGaugeForRemoved at induction ⊢
      rw [zipIdx_append, foldl_append, induction, length_append,
        length_singleton, Finset.range_add_one, Finset.filter_insert, flagAt_append_length,
        Finset.filter_congr earlier]
      simp only [zipIdx_singleton, foldl_cons, foldl_nil, zero_add]
      cases value with
      | true => simp
      | false =>
        cases flag : flagAt stuck carried.length with
        | false => simp
        | true =>
          simp only [Bool.not_false, Bool.and_self, if_true, and_self]
          rw [Finset.card_insert_of_notMem (by simp), Nat.sub_sub]
  rw [general]
  congr 2
  ext index
  rw [Finset.mem_filter, Finset.mem_range, Finset.mem_sdiff, mem_flagged, mem_flagged]
  constructor
  · rintro ⟨_, dropped, isStuck⟩
    exact ⟨isStuck, by simp [dropped]⟩
  · rintro ⟨isStuck, dropped⟩
    exact ⟨same ▸ lt_length_of_flagAt isStuck, by simpa using dropped, isStuck⟩

/-! ## Rebuilding -/

namespace HealthScheduler

variable {scheduler : HealthScheduler}

structure Aligned (new : Rebuilding) (count : Nat) : Prop where
  sched : new.sched.length = count
  endpointIds : new.endpointIds.length = count
  inflight : new.inflight.length = count
  dispatchedAt : new.dispatchedAt.length = count
  stuck : new.stuck.length = count
  ejected : new.ejected.length = count
  ramping : new.ramping.length = count
  draining : new.draining.length = count

/-- The vectors of the new membership after the endpoints `done`. -/
structure Rebuilt (scheduler : HealthScheduler) (done : List UInt64) (new : Rebuilding) : Prop
    extends Aligned new done.length where
  counted : new.inflightCount = new.inflight.count true
  kept : ∀ index, flagAt new.inflight index → flagAt scheduler.inflight index
  stuckInflight : ∀ index, flagAt new.stuck index → flagAt new.inflight index
  carriedLength : new.oldCarried.length = scheduler.len
  carried : ∀ old, flagAt new.oldCarried old → ∃ id ∈ done, scheduler.endpointIds[old]? = some id
  gauge : new.stuckInflight + (flagged scheduler.stuck ∩ flagged new.oldCarried).card =
    scheduler.stuck.count true + new.stuck.count true
  armed : Armed new.wheel (fun index => index < scheduler.len ∨ index < done.length)

lemma armed_next {wheel} {len : Nat}
    (armed : Armed wheel (fun index => index < len ∨ index < count)) (room : count < maxEndpoints) :
    Armed (wheel.rearm count time) (fun index => index < len ∨ index < count + 1) := by
  refine (armed.rearm room time).congr ?_
  omega

/-- Every vector gets one element more. -/
lemma aligned_push (aligned : Aligned new count) :
    Aligned ⟨timers, hung, new.sched ++ [entry], new.endpointIds ++ [id], new.ejected ++ [away],
      new.ramping ++ [warm], new.draining ++ [leaving], new.inflight ++ [busy],
      new.dispatchedAt ++ [time], new.stuck ++ [late], total, carried⟩ (count + 1) := by
  constructor <;> simp [aligned.sched, aligned.endpointIds, aligned.inflight, aligned.dispatchedAt,
    aligned.stuck, aligned.ejected, aligned.ramping, aligned.draining]

lemma rebuilt_addFresh (rebuilt : Rebuilt scheduler done new) (room : done.length < maxEndpoints) :
    Rebuilt scheduler (done ++ [id]) (addFresh scheduler now new id done.length) where
  toAligned := (length_append : (done ++ [id]).length = _) ▸ aligned_push rebuilt.toAligned
  counted := rebuilt.counted.trans (count_append_flag new.inflight false).symm
  kept := forall_flagAt_append rebuilt.kept (fun impossible => by cases impossible)
  stuckInflight := forall_flagAt_append
    (fun index set => flagAt_append_of_flagAt false (rebuilt.stuckInflight index set))
    (fun impossible => by cases impossible)
  carriedLength := rebuilt.carriedLength
  carried := by
    intro old set
    rcases rebuilt.carried old set with ⟨other, mem, hit⟩
    exact ⟨other, mem_append_left _ mem, hit⟩
  gauge := by
    show new.stuckInflight + _ = _ + (new.stuck ++ [false]).count true
    rw [count_append_flag]
    exact rebuilt.gauge
  armed := by
    rw [length_append, length_singleton]
    exact armed_next rebuilt.armed room

lemma saturatingAdd32_flag (small : count ≤ maxEndpoints) (flag : Bool) :
    (if flag then saturatingAdd32 count 1 else count) = count + if flag then 1 else 0 := by
  cases flag with
  | true => exact saturatingAdd32_eq small
  | false => rfl

lemma gauge_carryOver {gauge kept : Nat} (inside : old < carried.length)
    (fresh : flagAt carried old = false)
    (before : gauge + (flagged stuck ∩ flagged carried).card = stuck.count true + kept) :
    (if moved && flagAt stuck old then gauge - 1 else gauge) +
      (flagged stuck ∩ flagged (carried.set old true)).card =
      stuck.count true + (kept + if !moved && flagAt stuck old then 1 else 0) := by
  cases wasStuck : flagAt stuck old with
  | false =>
    have unchanged : flagged stuck ∩ flagged (carried.set old true) =
        flagged stuck ∩ flagged carried := by
      ext index
      rw [Finset.mem_inter, Finset.mem_inter, mem_flagged, mem_flagged, mem_flagged,
        flagAt_set true inside]
      by_cases isOld : index = old
      · subst isOld
        simp [wasStuck]
      · simp [isOld]
    rw [unchanged, Bool.and_false, Bool.and_false]
    simpa using before
  | true =>
    have extended : flagged stuck ∩ flagged (carried.set old true) =
        insert old (flagged stuck ∩ flagged carried) := by
      ext index
      rw [Finset.mem_insert, Finset.mem_inter, Finset.mem_inter, mem_flagged, mem_flagged,
        mem_flagged, flagAt_set true inside]
      by_cases isOld : index = old
      · subst isOld
        simp [wasStuck]
      · simp [isOld]
    have outside : old ∉ flagged stuck ∩ flagged carried := by
      rw [Finset.mem_inter, mem_flagged, mem_flagged, fresh]
      simp
    have smaller : (flagged stuck ∩ flagged (carried.set old true)).card ≤ stuck.count true := by
      rw [count_eq_card_flagged]
      exact Finset.card_le_card Finset.inter_subset_left
    rw [extended, Finset.card_insert_of_notMem outside] at smaller ⊢
    cases moved with
    | true =>
      simp only [Bool.and_self, if_true, Bool.not_true, Bool.false_and]
      simp only [Bool.false_eq_true, if_false]
      omega
    | false =>
      simp only [Bool.false_and, Bool.not_false, Bool.and_self, if_true]
      simp only [Bool.false_eq_true, if_false]
      omega

lemma armed_cancelLoop {len extra start : Nat} {wheel} (above : len ≤ start)
    (armed : Armed wheel fun index => index < len ∨ (start ≤ index ∧ index < start + extra)) :
    Armed ((range' start extra).foldl (fun wheel index => (wheel.cancel index).1) wheel)
        (fun index => index < len) := by
  induction extra generalizing start wheel with
  | zero =>
    refine armed.congr ?_
    omega
  | succ extra induction =>
    refine induction (by omega) ?_
    refine (armed.cancel start).congr ?_
    omega

section

variable (sane : Consistent scheduler [])

include sane

lemma rebuilt_carryOver (rebuilt : Rebuilt scheduler done new) (room : done.length < maxEndpoints)
    (fresh : id ∉ done) (hit : scheduler.endpointIds[old]? = some id) :
    Rebuilt scheduler (done ++ [id]) (carryOver scheduler now new id done.length old) := by
  have inside : old < new.oldCarried.length := by
    rw [rebuilt.carriedLength, ← sane.endpointIds]
    exact (List.getElem?_eq_some_iff.mp hit).1
  -- The ids of one membership are distinct, so an old index is carried over only once.
  have notCarried : flagAt new.oldCarried old = false := by
    rw [← Bool.not_eq_true]
    intro set
    rcases rebuilt.carried old set with ⟨other, mem, foundOther⟩
    rw [hit] at foundOther
    exact fresh (Option.some.inj foundOther ▸ mem)
  have stays : (!(done.length != old)) = true → done.length = old := by simp
  exact
    { toAligned := (length_append : (done ++ [id]).length = _) ▸ aligned_push rebuilt.toAligned
      counted := by
        refine Eq.trans ?_ (count_append_flag new.inflight _).symm
        have small : new.inflightCount ≤ maxEndpoints := by
          rw [rebuilt.counted]
          exact le_trans count_le_length (rebuilt.inflight ▸ room.le)
        rw [← rebuilt.counted]
        exact saturatingAdd32_flag small _
      kept := by
        refine forall_flagAt_append rebuilt.kept ?_
        intro set
        rw [rebuilt.inflight]
        have set := Bool.and_eq_true_iff.mp set
        rw [stays set.1]
        exact set.2
      stuckInflight := by
        refine forall_flagAt_append (fun index set =>
          flagAt_append_of_flagAt _ (rebuilt.stuckInflight index set)) ?_
        intro set
        have set := Bool.and_eq_true_iff.mp set
        rw [rebuilt.stuck.trans rebuilt.inflight.symm]
        exact (flagAt_append_length new.inflight _).trans
          (Bool.and_eq_true_iff.mpr ⟨set.1, sane.stuckInflight old set.2⟩)
      carriedLength := length_set.trans rebuilt.carriedLength
      carried := by
        intro index set
        have set : flagAt (new.oldCarried.set old true) index := set
        rw [flagAt_set true inside] at set
        by_cases isOld : index = old
        · exact ⟨id, mem_append_right _ mem_cons_self, isOld ▸ hit⟩
        · rw [if_neg isOld] at set
          rcases rebuilt.carried index set with ⟨other, mem, foundOther⟩
          exact ⟨other, mem_append_left _ mem, foundOther⟩
      gauge := by
        refine (gauge_carryOver inside notCarried rebuilt.gauge).trans ?_
        exact congrArg _ (count_append_flag new.stuck _).symm
      armed := by
        rw [length_append, length_singleton]
        exact armed_next rebuilt.armed room }

lemma rebuilt_rebuildOne (now) (rebuilt : Rebuilt scheduler done new)
    (room : done.length < maxEndpoints) (fresh : id ∉ done) :
    Rebuilt scheduler (done ++ [id]) (rebuildOne scheduler now new (id, done.length)) := by
  unfold rebuildOne
  cases hit : oldIndex scheduler.endpointIds id with
  | some old => exact rebuilt_carryOver sane rebuilt room fresh (oldIndex_spec hit)
  | none => exact rebuilt_addFresh rebuilt room

/-- The loop of `rebuild`, from any point of it on. -/
lemma rebuilt_loop (now) {rest done new} (rebuilt : Rebuilt scheduler done new)
    (nodup : (done ++ rest).Nodup) (room : (done ++ rest).length ≤ maxEndpoints) :
    Rebuilt scheduler (done ++ rest)
      ((rest.zipIdx done.length).foldl (rebuildOne scheduler now) new) := by
  induction rest generalizing done new with
  | nil =>
    rw [append_nil]
    exact rebuilt
  | cons id rest induction =>
    have split : done ++ id :: rest = (done ++ [id]) ++ rest := by simp
    have fresh : id ∉ done := fun mem =>
      disjoint_of_nodup_append nodup mem mem_cons_self
    have small : done.length < maxEndpoints := by
      rw [length_append, length_cons] at room
      omega
    have next := rebuilt_rebuildOne sane now rebuilt small fresh
    rw [split] at nodup room ⊢
    have whole := induction next nodup room
    rw [length_append, length_singleton] at whole
    exact whole

/-- The vectors before the loop of `rebuild`. -/
lemma rebuilt_start :
    Rebuilt scheduler [] ⟨scheduler.wheel, scheduler.stats.stuckInflight, [], [], [], [], [], [],
      [], [], 0, replicate scheduler.sched.length false⟩ := by
  have unset : ∀ index, flagAt (replicate scheduler.sched.length false) index = false := by
    intro index
    rw [flagAt, getElem?_replicate]
    by_cases inside : index < scheduler.sched.length
    · rw [if_pos inside]
      rfl
    · rw [if_neg inside]
      rfl
  exact
    { toAligned := ⟨rfl, rfl, rfl, rfl, rfl, rfl, rfl, rfl⟩
      counted := rfl
      kept := fun index set => by cases set
      stuckInflight := fun index set => by cases set
      carriedLength := length_replicate
      carried := fun old set => by
        rw [unset] at set
        cases set
      gauge := by
        have empty : flagged (replicate scheduler.sched.length false) = ∅ := by
          ext index
          simp [mem_flagged, unset]
        show scheduler.stats.stuckInflight + _ = _
        rw [empty, Finset.inter_empty, sane.gauge]
        rfl
      armed := sane.armed.congr (fun index => by simp) }

lemma consistent_rebuild {after}
    (rebuilt : scheduler.rebuild now ids = .ok after) : Consistent after [] := by
  unfold rebuild at rebuilt
  rcases of_ite_error rebuilt with ⟨tooMany, rebuilt⟩
  rcases bind_eq_ok_iff.mp rebuilt with ⟨_, accepted, rebuilt⟩
  have room : ids.length ≤ maxEndpoints := not_lt.mp tooMany
  have loop := @rebuilt_loop scheduler sane now ids [] _ (rebuilt_start sane)
    (nodup_of_rejectDuplicateIds accepted) room
  rw [nil_append, length_nil] at loop
  cases rebuilt
  generalize ids.zipIdx.foldl (rebuildOne scheduler now) _ = new at loop ⊢
  have length : new.sched.length = ids.length := loop.sched
  exact
    { endpointIds := loop.endpointIds.trans length.symm
      inflight := loop.inflight.trans length.symm
      dispatchedAt := loop.dispatchedAt.trans length.symm
      stuck := loop.stuck.trans length.symm
      ejected := loop.ejected.trans length.symm
      ramping := loop.ramping.trans length.symm
      draining := loop.draining.trans length.symm
      bounded := length.trans_le room
      counted := loop.counted
      capped := by
        show new.inflightCount ≤ scheduler.maxConcurrent
        rw [loop.counted]
        refine le_trans (count_le_of_subset loop.kept) ?_
        rw [← sane.counted]
        exact sane.capped
      cap := sane.cap
      gauge := by
        show releaseStuckGaugeForRemoved new.stuckInflight scheduler.stuck new.oldCarried = _
        rw [releaseStuckGaugeForRemoved_eq _ (loop.carriedLength.trans sane.stuck.symm)]
        have split := Finset.card_sdiff_add_card_inter (flagged scheduler.stuck)
          (flagged new.oldCarried)
        have gauge := loop.gauge
        rw [count_eq_card_flagged scheduler.stuck] at gauge
        show _ = new.stuck.count true
        omega
      stuckInflight := loop.stuckInflight
      armed := by
        have cancelled := @armed_cancelLoop ids.length (scheduler.sched.length - ids.length)
          ids.length _ (le_refl _) (loop.armed.congr (fun index => by
            unfold HealthScheduler.len
            omega))
        refine cancelled.congr ?_
        rw [HealthScheduler.len, length]
        simp }

end

end HealthScheduler

end IronTraffic.Health
