import IronTraffic.Health.WheelSchedule

/-! # Slots and time

The clock of the wheel wraps; here time and deadlines are numbers that do not, of
which the wheel sees the remainders. A level counts blocks of its span. A timer
waits on a level for the block of its deadline, which begins at most 256 blocks
later, and is taken off the level when the time enters that block.
-/

namespace IronTraffic.Health

def span : Nat → Nat
  | 0 => 1
  | 1 => 256
  | 2 => 65536
  | _ => 16777216

/-- A deadline waits in `slot` at `time`. On a settled level the time has not entered
the deadline's block. On another level it may just have entered it, and the block is
less than a full turn away. -/
structure PlacedOn (time : Nat) (settled : Prop) (slot due level : Nat) : Prop where
  slot_eq : slot = level * 256 + due / span level % 256
  lower : time / span level ≤ due / span level
  upper : due / span level ≤ time / span level + 256
  strict : settled → time / span level < due / span level
  entered : ¬settled → due / span level = time / span level → time % span level = 0
  turn : ¬settled → time % span level = 0 → due / span level ≤ time / span level + 255

/-- A deadline waits in `slot` on one of the levels. -/
def Placed (time : Nat) (settled : Nat → Prop) (slot due : Nat) : Prop :=
  ∃ level < 4, PlacedOn time (settled level) slot due level

/-! ## Distances -/

variable {now stamp : Millis} {time due : Nat}

lemma wrappingSub_eq (nowEq : now.toNat = time % 2 ^ 32) (stampEq : stamp.toNat = due % 2 ^ 32)
    (later : time ≤ due) (near : due < time + 2 ^ 32) : stamp.wrappingSub now = due - time := by
  rw [Millis.wrappingSub, UInt32.toNat_sub, nowEq, stampEq]
  omega

lemma since_eq (nowEq : now.toNat = time % 2 ^ 32) (stampEq : stamp.toNat = due % 2 ^ 32)
    (later : time ≤ due) (near : due < time + 2 ^ 31) : stamp.since now = due - time := by
  rw [Millis.since, horizonMs, wrappingSub_eq nowEq stampEq later (by omega), if_neg (by omega)]

lemma flatAt_eq (nowEq : now.toNat = time % 2 ^ 32) (stampEq : stamp.toNat = due % 2 ^ 32)
    (later : time ≤ due) (near : due < time + 2 ^ 31) :
    ∃ level < 4, TimerWheel.flatAt now stamp = level * 256 + due / span level % 256 ∧
      (level ≠ 0 → time + span level ≤ due) ∧ due < time + 256 * span level := by
  unfold TimerWheel.flatAt levelAndSlot slotCount
  rw [since_eq nowEq stampEq later near]
  simp only
  split
  · exact ⟨0, by omega, by simp only [span]; omega, by simp, by simp only [span]; omega⟩
  split
  case isTrue =>
    exact ⟨1, by omega, by simp only [span]; omega, by simp only [span]; omega,
      by simp only [span]; omega⟩
  case isFalse =>
    split
    · exact ⟨2, by omega, by simp only [span]; omega, by simp only [span]; omega,
        by simp only [span]; omega⟩
    · exact ⟨3, by omega, by simp only [span]; omega, by simp only [span]; omega,
        by simp only [span]; omega⟩

/-! ## Placement -/

section Placement

variable {slot level : Nat} {settled : Prop}

lemma PlacedOn.level_eq (placed : PlacedOn time settled slot due level) : level = slot / 256 := by
  have slot_eq := placed.slot_eq
  omega

lemma PlacedOn.lt_due (placed : PlacedOn time True slot due level) (valid : level < 4) :
    time < due := by
  have strict := placed.strict trivial
  interval_cases level <;> simp only [span] at strict <;> omega

lemma PlacedOn.tick (placed : PlacedOn time True slot due level) (valid : level < 4) :
    PlacedOn (time + 1) False slot due level := by
  have strict := placed.strict trivial
  have upper := placed.upper
  refine ⟨placed.slot_eq, ?_, ?_, False.elim, fun _ => ?_, fun _ => ?_⟩
  all_goals
    interval_cases level <;> simp only [span] at strict upper ⊢ <;> omega

lemma PlacedOn.settle (placed : PlacedOn time settled slot due level)
    (elsewhere : due / span level ≠ time / span level) (other : Prop) :
    PlacedOn time (settled ∨ other) slot due level :=
  { placed with
    strict := fun _ => lt_of_le_of_ne placed.lower (Ne.symm elsewhere)
    entered := fun _ equal => absurd equal elsewhere
    turn := fun neither => placed.turn (fun was => neither (.inl was)) }

lemma PlacedOn.slot_eq_iff (placed : PlacedOn time False slot due level)
    (aligned : time % span level = 0) :
    slot = level * 256 + time / span level % 256 ↔ due / span level = time / span level := by
  have slot_eq := placed.slot_eq
  have lower := placed.lower
  have turn := placed.turn not_false aligned
  omega

lemma placed_of_flatAt (nowEq : now.toNat = time % 2 ^ 32)
    (stampEq : stamp.toNat = due % 2 ^ 32) (later : time ≤ due) (near : due < time + 2 ^ 31)
    {settled} (lowest : settled 0 → time < due) :
    Placed time settled (TimerWheel.flatAt now stamp) due := by
  rcases flatAt_eq nowEq stampEq later near with ⟨level, valid, slot_eq, far, close⟩
  have ahead : level ≠ 0 → time / span level < due / span level := by
    interval_cases level <;> simp only [span] at far ⊢ <;> omega
  refine ⟨level, valid, slot_eq, ?_, ?_, ?_, ?_, ?_⟩
  · exact Nat.div_le_div_right later
  · interval_cases level <;> simp only [span] at close ⊢ <;> omega
  · intro isSettled
    by_cases zero : level = 0
    · subst zero
      simpa [span] using lowest isSettled
    · exact ahead zero
  · intro _ equal
    by_cases zero : level = 0
    · subst zero
      exact Nat.mod_one _
    · exact absurd equal (ne_of_gt (ahead zero))
  · intro _ beginning
    interval_cases level <;> simp only [span] at close beginning ⊢ <;> omega

end Placement

/-! ## Timed wheels -/

namespace TimerWheel

/-- The wheel's time and deadlines are remainders of `time` and `due`, and the deadlines
wait in their slots. -/
structure Timed (wheel : TimerWheel) (time : Nat) (due : Nat → Nat) (settled : Nat → Prop) :
    Prop where
  now : wheel.now.toNat = time % 2 ^ 32
  ids : ∀ id, wheel.slotOf id ≠ noSlot → id ≠ nil ∧ id < wheel.maxIds
  times : ∀ id, wheel.slotOf id ≠ noSlot →
    ∃ stamp, wheel.timeOf id = some stamp ∧ stamp.toNat = due id % 2 ^ 32
  near : ∀ id, wheel.slotOf id ≠ noSlot → due id < time + 2 ^ 31
  placed : ∀ id, wheel.slotOf id ≠ noSlot → Placed time settled (wheel.slotOf id) (due id)

structure SameTimers (before after : TimerWheel) : Prop where
  now : after.now = before.now
  maxIds : after.maxIds = before.maxIds
  len : after.len = before.len
  times : ∀ id, after.timeOf id = before.timeOf id
  scheduled : ∀ id, after.slotOf id ≠ noSlot ↔ before.slotOf id ≠ noSlot

lemma SameTimers.refl (wheel) : SameTimers wheel wheel :=
  ⟨rfl, rfl, rfl, fun _ => rfl, fun _ => Iff.rfl⟩

lemma SameTimers.trans (left : SameTimers first second) (right : SameTimers second third) :
    SameTimers first third :=
  ⟨right.now.trans left.now, right.maxIds.trans left.maxIds, right.len.trans left.len,
    fun id => (right.times id).trans (left.times id),
    fun id => (right.scheduled id).trans (left.scheduled id)⟩

lemma Timed.transfer {before after due settled settled'} (timed : Timed before time due settled)
    (same : SameTimers before after)
    (placed : ∀ id, before.slotOf id ≠ noSlot → Placed time settled' (after.slotOf id) (due id)) :
    Timed after time due settled' where
  now := same.now ▸ timed.now
  ids := fun id scheduled => same.maxIds ▸ timed.ids id ((same.scheduled id).mp scheduled)
  times := fun id scheduled => by
    rw [same.times]
    exact timed.times id ((same.scheduled id).mp scheduled)
  near := fun id scheduled => timed.near id ((same.scheduled id).mp scheduled)
  placed := fun id scheduled => placed id ((same.scheduled id).mp scheduled)

variable {wheel : TimerWheel} {level : Nat} {due : Nat → Nat} {settled : Nat → Prop}
  {slots : Nat → List Nat}

section

variable (timed : Timed wheel time due settled)

include timed

lemma Timed.clock (valid : level < 4) :
    wheel.now.toNat % 2 ^ (8 * level) = time % span level ∧
      wheel.now.toNat / 2 ^ (8 * level) % 256 = time / span level % 256 := by
  have now := timed.now
  interval_cases level <;> simp only [span] <;> omega

lemma Timed.settle (level : Nat) (within : time % span level ≠ 0) :
    Timed wheel time due (fun other => settled other ∨ other = level) := by
  refine timed.transfer (SameTimers.refl wheel) ?_
  intro id scheduled
  rcases timed.placed id scheduled with ⟨here, valid, placed⟩
  refine ⟨here, valid, ?_⟩
  by_cases same : here = level
  · subst same
    by_cases was : settled here
    · exact ⟨placed.slot_eq, placed.lower, placed.upper, fun _ => placed.strict was,
        fun neither => absurd (.inl was) neither, fun neither => absurd (.inl was) neither⟩
    · exact placed.settle (fun equal => within (placed.entered was equal)) _
  · simp only [same, or_false]
    exact placed

lemma Timed.slotOf_eq_iff (valid : level < 4) (unsettled : ¬settled level)
    (aligned : time % span level = 0) {id : Nat} (scheduled : wheel.slotOf id ≠ noSlot) :
    wheel.slotOf id = level * 256 + time / span level % 256 →
    due id / span level = time / span level := by
  intro here
  rcases timed.placed id scheduled with ⟨other, _, placed⟩
  have same : other = level := by
    rw [placed.level_eq]
    omega
  subst same
  rw [eq_false unsettled] at placed
  exact (placed.slot_eq_iff aligned).mp here

lemma Timed.ownSlot_ne (valid : level < 4) (positive : level ≠ 0) (aligned : time % span level = 0)
    {id : Nat} (scheduled : wheel.slotOf id ≠ noSlot)
    (entered : due id / span level = time / span level) :
    time ≤ due id ∧ wheel.ownSlot id ≠ level * 256 + time / span level % 256 := by
  rcases timed.times id scheduled with ⟨stamp, hit, stampEq⟩
  have bounds : time ≤ due id ∧ due id < time + span level := by
    interval_cases level <;> simp only [span] at entered aligned ⊢ <;> omega
  rcases flatAt_eq timed.now stampEq bounds.1 (timed.near id scheduled) with
    ⟨lower, lowerValid, slot_eq, far, _⟩
  have own : wheel.ownSlot id = flatAt wheel.now stamp := by simp [ownSlot, hit]
  have lower_ne : lower ≠ level := by
    rintro rfl
    omega
  omega

end

lemma Timed.cascade (linked : Linked wheel slots none) (timed : Timed wheel time due settled)
    (valid : level < 4) (positive : level ≠ 0) (unsettled : ¬settled level) (lowest : ¬settled 0)
    (aligned : time % span level = 0) :
    ∃ slots', Linked (wheel.cascade level (time / span level % 256)) slots' none ∧
      SameTimers wheel (wheel.cascade level (time / span level % 256)) ∧
      Timed (wheel.cascade level (time / span level % 256)) time due (fun other => settled other ∨
      other = level) := by
  have inside : level * slotCount + time / span level % 256 < slotCount * levelCount := by
    unfold slotCount levelCount
    omega
  have enters := @Timed.slotOf_eq_iff time wheel level due settled timed valid unsettled aligned
  have members : ∀ id, id ∈ slots (level * slotCount + time / span level % 256) ↔
      wheel.slotOf id = level * slotCount + time / span level % 256 := by
    intro id
    rw [linked.mem _ inside]
    simp
  have isScheduled : ∀ id, wheel.slotOf id = level * slotCount + time / span level % 256 →
      wheel.slotOf id ≠ noSlot := by
    intro id here
    rw [here]
    unfold slotCount noSlot
    omega
  rcases cascadeLoop_spec inside linked rfl (linked.length_le inside)
    (fun id mem => by
      have here := (members id).mp mem
      have scheduled := isScheduled id here
      exact (timed.ownSlot_ne valid positive aligned scheduled (enters scheduled here)).2) with
    ⟨slots', linked', moved, len⟩
  have same : SameTimers wheel (wheel.cascade level (time / span level % 256)) :=
    { now := moved.now
      maxIds := moved.maxIds
      len := len
      times := moved.times
      scheduled := by
        intro id
        rw [TimerWheel.cascade, moved.slots]
        by_cases mem : id ∈ slots (level * slotCount + time / span level % 256)
        · rw [if_pos mem]
          exact iff_of_true (flatAt_ne_noSlot _ _) (isScheduled id ((members id).mp mem))
        · rw [if_neg mem] }
  refine ⟨slots', linked', same, timed.transfer same ?_⟩
  intro id scheduled
  rw [TimerWheel.cascade, moved.slots]
  by_cases mem : id ∈ slots (level * slotCount + time / span level % 256)
  · rw [if_pos mem]
    have entered := enters scheduled ((members id).mp mem)
    have later := (timed.ownSlot_ne valid positive aligned scheduled entered).1
    rcases timed.times id scheduled with ⟨stamp, hit, stampEq⟩
    have own : wheel.ownSlot id = flatAt wheel.now stamp := by
      simp [ownSlot, hit]
    rw [own]
    refine placed_of_flatAt timed.now stampEq later (timed.near id scheduled) ?_
    rintro (zero | isLevel)
    · exact absurd zero lowest
    · exact absurd isLevel.symm positive
  · rw [if_neg mem]
    rcases timed.placed id scheduled with ⟨here, hereValid, placed⟩
    refine ⟨here, hereValid, ?_⟩
    by_cases sameLevel : here = level
    · subst sameLevel
      refine placed.settle ?_ _
      rw [eq_false unsettled] at placed
      intro entered
      exact mem ((members id).mpr ((placed.slot_eq_iff aligned).mpr entered))
    · simp only [sameLevel, or_false]
      exact placed

lemma Timed.cascadeWhenAligned (linked : Linked wheel slots none)
    (timed : Timed wheel time due settled) (valid : level < 4) (positive : level ≠ 0)
    (unsettled : ¬settled level) (lowest : ¬settled 0) (cascades : Nat) :
    ∃ slots', Linked (cascadeWhenAligned level (wheel, cascades)).1 slots' none ∧
      SameTimers wheel (cascadeWhenAligned level (wheel, cascades)).1 ∧
      Timed (cascadeWhenAligned level (wheel, cascades)).1 time due
        (fun other => settled other ∨ other = level) := by
  rcases timed.clock valid with ⟨remainder, block⟩
  simp only [TimerWheel.cascadeWhenAligned, isAligned, remainder, block, beq_iff_eq]
  by_cases aligned : time % span level = 0
  · rw [if_pos aligned]
    exact timed.cascade linked valid positive unsettled lowest aligned
  · rw [if_neg aligned]
    exact ⟨slots, linked, SameTimers.refl wheel, timed.settle level aligned⟩

end TimerWheel

end IronTraffic.Health
