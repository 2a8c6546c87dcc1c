import IronTraffic.Upstream.Inflight

/-! # The in-flight count over reuses of a slot

As long as no guard of an earlier tenant is past its generation check when a guard of a later
tenant is counted, the count is exact. Without that, a late compare-exchange finds the number
that it read for the earlier tenant again and takes a guard of the later tenant away.
-/

namespace IronTraffic.Upstream

open Slot GuardPhase

open List

def Slot.counts (slot : Slot) (guard : InflightGuard) : Bool :=
  guard.phase.charged && decide (guard.tenancy = slot.interns)

structure Slot.Sound (slot : Slot) : Prop where
  generation_eq : slot.generation = slot.interns % 2 ^ 32
  writer_generation : ∀ generation,
    slot.writer = .read generation ∨ slot.writer = .zeroed generation → generation = slot.generation
  observed : ∀ guard ∈ slot.guards,
    guard.genAtAcquire = guard.tenancy % 2 ^ 32 ∧ guard.tenancy ≤ slot.interns
  acquiring : ∀ guard ∈ slot.guards, guard.phase = .acquiring →
    slot.writer = .idle ∧ guard.tenancy = slot.interns
  loaded_pos : ∀ guard ∈ slot.guards, ∀ current, guard.phase = .loaded current → 0 < current
  counted : (∀ generation, slot.writer ≠ .zeroed generation) →
    slot.inflight = slot.guards.countP slot.counts
  zeroed : ∀ generation, slot.writer = .zeroed generation → slot.inflight = 0
  /-- The guards of earlier tenants that can still exchange the count find it at zero. -/
  stale : ∀ guard ∈ slot.guards, guard.phase.committed = true →
    guard.tenancy ≠ slot.interns → slot.inflight = 0

variable {slot after : Slot}

lemma Slot.sound_new : new.Sound := by
  constructor <;> simp [new]

variable {spot inflight : Nat} {guard : InflightGuard} {phase : GuardPhase} {weakFails : Bool}
  {moves : List Move}

section

variable (sound : slot.Sound)

include sound

lemma Slot.Sound.replace (there : slot.guards[spot]? = some guard)
    (notAcquiring : phase ≠ .acquiring)
    (positive : ∀ current, phase = .loaded current → 0 < current)
    (counted : (∀ generation, slot.writer ≠ .zeroed generation) →
      inflight + (if slot.counts guard then 1 else 0) =
        slot.inflight + (if slot.counts { guard with phase } then 1 else 0))
    (zeroed : ∀ generation, slot.writer = .zeroed generation → inflight = 0)
    (others : ∀ other ∈ slot.guards,
        other.phase.committed = true → other.tenancy ≠ slot.interns → inflight = 0)
    (stale : phase.committed = true → guard.tenancy ≠ slot.interns → inflight = 0) :
    Sound { slot with inflight, guards := slot.guards.set spot { guard with phase } } := by
  have mem := mem_of_getElem? there
  have members : ∀ {other}, other ∈ slot.guards.set spot { guard with phase } →
      other ∈ slot.guards ∨ other = { guard with phase } := mem_or_eq_of_mem_set
  refine
    { generation_eq := sound.generation_eq
      writer_generation := sound.writer_generation
      observed := ?_
      acquiring := ?_
      loaded_pos := ?_
      counted := ?_
      zeroed := zeroed
      stale := ?_ }
  · intro other isMember
    rcases members isMember with old | rfl
    · exact sound.observed other old
    · exact sound.observed guard mem
  · intro other isMember isAcquiring
    rcases members isMember with old | rfl
    · exact sound.acquiring other old isAcquiring
    · exact absurd isAcquiring notAcquiring
  · intro other isMember current isLoaded
    rcases members isMember with old | rfl
    · exact sound.loaded_pos other old current isLoaded
    · exact positive current isLoaded
  · intro notZeroed
    rcases List.getElem?_eq_some_iff.mp there with ⟨inside, isGuard⟩
    have before := sound.counted notZeroed
    have change := counted notZeroed
    have isCounted : slot.counts guard = true → 0 < slot.guards.countP slot.counts := by
      intro isTrue
      exact countP_pos_iff.mpr ⟨guard, mem, isTrue⟩
    show inflight = (slot.guards.set spot { guard with phase }).countP slot.counts
    rw [countP_set inside, isGuard]
    split at change <;> split at change <;> simp_all
    omega
  · intro other isMember isCommitted isStale
    rcases members isMember with old | rfl
    · exact others other old isCommitted isStale
    · exact stale isCommitted isStale

lemma Slot.Sound.present_iff (few : slot.interns < 2 ^ 32) (mem : guard ∈ slot.guards) :
    slot.generation = guard.genAtAcquire ↔ guard.tenancy = slot.interns := by
  have observed := sound.observed guard mem
  rw [sound.generation_eq, observed.1]
  constructor
  · intro same
    omega
  · rintro same
    rw [same]

lemma Slot.Sound.guard_step (few : slot.interns < 2 ^ 32) (there : slot.guards[spot]? = some guard)
    (calm : slot.calm (.guard spot weakFails))
    (next : guard.next slot.inflight slot.generation weakFails = some (inflight, phase)) :
    Sound { slot with inflight, guards := slot.guards.set spot { guard with phase } } := by
  have mem := mem_of_getElem? there
  have present := sound.present_iff few mem
  have countedHere : slot.counts guard = true → (∀ generation, slot.writer ≠ .zeroed generation) →
      0 < slot.inflight := by
    intro isCounted notZeroed
    rw [sound.counted notZeroed]
    exact countP_pos_iff.mpr ⟨guard, mem, isCounted⟩
  cases was : guard.phase <;> simp only [InflightGuard.next, was] at next
  case acquiring =>
    cases next
    rcases calm guard there was with ⟨small, noStale⟩
    rcases sound.acquiring guard mem was with ⟨idle, isPresent⟩
    apply sound.replace there
    · simp
    · simp
    · intro _
      simp [counts, charged, was, isPresent]
      omega
    · intro generation isZeroed
      rw [idle] at isZeroed
      cases isZeroed
    · intro other isMember isCommitted isStale
      exact absurd (noStale other isMember isCommitted) isStale
    · simp [committed]
  case held =>
    cases next
    apply sound.replace there (by simp) (by simp) _ sound.zeroed sound.stale
    · simp [committed]
    · simp [counts, charged, was]
  case releasing =>
    by_cases same : slot.generation = guard.genAtAcquire
    · rw [if_neg (not_not.mpr same)] at next
      cases next
      apply sound.replace there (by simp) (by simp) _ sound.zeroed sound.stale
      · intro _ isStale
        exact absurd (present.mp same) isStale
      · simp [counts, charged, was]
    · rw [if_pos same] at next
      cases next
      have isStale : guard.tenancy ≠ slot.interns := fun isPresent => same (present.mpr isPresent)
      apply sound.replace there (by simp) (by simp) _ sound.zeroed sound.stale
      · simp [committed]
      · simp [counts, charged, isStale]
  case checked =>
    by_cases empty : slot.inflight = 0
    · rw [if_pos empty] at next
      cases next
      apply sound.replace there (by simp) (by simp) _ sound.zeroed sound.stale
      · simp [committed]
      -- a guard of the present tenant would have found itself counted
      intro notZeroed
      have notCounted : slot.counts guard = false := by
        by_contra isCounted
        have positive := countedHere (Bool.not_eq_false _ ▸ isCounted) notZeroed
        omega
      rw [notCounted]
      simp [counts, charged]
    · rw [if_neg empty] at next
      cases next
      apply sound.replace there (by simp) _ _ sound.zeroed sound.stale
      · intro _ isStale
        exact sound.stale guard mem (by rw [was]; rfl) isStale
      · rintro _ ⟨⟩
        omega
      · simp [counts, charged, was]
  case loaded current =>
    by_cases fails : weakFails = true ∨ slot.inflight ≠ current
    · rw [if_pos fails] at next
      cases next
      apply sound.replace there (by simp) (by simp) _ sound.zeroed sound.stale
      · simp [committed]
      · simp [counts, charged, was]
    · rw [if_neg fails] at next
      cases next
      have positive := sound.loaded_pos guard mem current was
      have isPresent : guard.tenancy = slot.interns := by
        by_contra isStale
        have empty := sound.stale guard mem (by rw [was]; rfl) isStale
        omega
      apply sound.replace there (by simp) (by simp)
      · intro _
        simp [counts, charged, was, isPresent]
        omega
      · intro generation isZeroed
        have empty := sound.zeroed generation isZeroed
        omega
      · intro other isMember isCommitted isStale
        have empty := sound.stale other isMember isCommitted isStale
        omega
      · simp [committed]
  case done => cases next

lemma Slot.Sound.begin_acquire (idle : slot.writer = .idle) :
    Sound { slot with
      guards := slot.guards ++ [⟨.acquiring, slot.generation, slot.interns⟩] } := by
  have members : ∀ {guard : InflightGuard},
      guard ∈ slot.guards ++ [⟨.acquiring, slot.generation, slot.interns⟩] →
        guard ∈ slot.guards ∨ guard = ⟨.acquiring, slot.generation, slot.interns⟩ := by
    simp
  refine
    { sound with
      observed := ?_
      acquiring := ?_
      loaded_pos := ?_
      counted := ?_
      stale := ?_ }
  · intro guard mem
    rcases members mem with old | rfl
    · exact sound.observed guard old
    · exact ⟨sound.generation_eq, le_refl _⟩
  · intro guard mem isAcquiring
    rcases members mem with old | rfl
    · exact sound.acquiring guard old isAcquiring
    · exact ⟨idle, rfl⟩
  · intro guard mem current isLoaded
    rcases members mem with old | rfl
    · exact sound.loaded_pos guard old current isLoaded
    · cases isLoaded
  · intro notZeroed
    rw [countP_append]
    exact sound.counted notZeroed
  · intro guard mem isCommitted isStale
    rcases members mem with old | rfl
    · exact sound.stale guard old isCommitted isStale
    · cases isCommitted

lemma Slot.Sound.writer_step (moved : slot.move .writer = some after) : after.Sound := by
  rw [move] at moved
  have noneAcquiring {Any : InflightGuard → Prop} (busy : slot.writer ≠ .idle) :
      ∀ guard ∈ slot.guards, guard.phase = .acquiring → Any guard := by
    intro guard mem isAcquiring
    exact absurd (sound.acquiring guard mem isAcquiring).1 busy
  cases isWriter : slot.writer <;> rw [isWriter] at moved <;> cases moved
  case claimed.refl =>
    exact
      { sound with
        writer_generation := by simp
        acquiring := noneAcquiring (by simp [isWriter])
        counted := fun _ => sound.counted (by simp [isWriter])
        zeroed := by simp }
  case read.refl generation =>
    exact
      { sound with
        writer_generation := by
          intro other isOther
          simp at isOther
          rw [← isOther]
          exact sound.writer_generation generation (.inl isWriter)
        acquiring := noneAcquiring (by simp [isWriter])
        counted := fun notZeroed => absurd rfl (notZeroed generation)
        zeroed := fun _ _ => rfl
        stale := fun _ _ _ _ => rfl }
  case zeroed.refl generation =>
    have empty := sound.zeroed generation isWriter
    have isGeneration := sound.writer_generation generation (.inr isWriter)
    have counting := sound.generation_eq
    exact
      { sound with
        generation_eq := by
          simp only
          omega
        writer_generation := by simp
        observed := fun guard mem =>
          ⟨(sound.observed guard mem).1, Nat.le_succ_of_le (sound.observed guard mem).2⟩
        acquiring := noneAcquiring (by simp [isWriter])
        counted := by
          intro _
          simp only [empty]
          symm
          rw [countP_eq_zero]
          intro guard mem isCounted
          have earlier := (sound.observed guard mem).2
          simp only [counts, Bool.and_eq_true, decide_eq_true_eq] at isCounted
          omega
        zeroed := by simp
        stale := fun _ _ _ _ => empty }

lemma Slot.Sound.move (few : slot.interns < 2 ^ 32) {move : Move} (calm : slot.calm move)
    (moved : slot.move move = some after) : after.Sound := by
  unfold Slot.move at moved
  cases move with
  | acquire =>
    simp only [Option.ite_none_right_eq_some, Option.some.injEq] at moved
    rcases moved with ⟨idle, rfl⟩
    exact sound.begin_acquire idle
  | guard spot weakFails =>
    simp only at moved
    cases there : slot.guards[spot]? with
    | none =>
      rw [there] at moved
      cases moved
    | some guard =>
      rw [there] at moved
      rcases Option.map_eq_some_iff.mp moved with ⟨⟨inflight, phase⟩, next, rfl⟩
      exact sound.guard_step few there calm next
  | retire | recycle =>
    simp only [Option.ite_none_right_eq_some, Option.some.injEq] at moved
    rcases moved with ⟨_, rfl⟩
    exact { sound with }
  | intern =>
    simp only [Option.ite_none_right_eq_some, Option.some.injEq] at moved
    rcases moved with ⟨⟨idle, _, noneAcquiring⟩, rfl⟩
    exact
      { sound with
        writer_generation := by simp
        acquiring := fun guard mem isAcquiring =>
          absurd isAcquiring (noneAcquiring guard mem)
        counted := fun _ => sound.counted (by simp [idle])
        zeroed := by simp }
  | writer => exact sound.writer_step moved

end

/-! ## Whole runs -/

lemma Slot.move_interns_le {move : Move} (moved : slot.move move = some after) :
    slot.interns ≤ after.interns := by
  cases move with
  | guard spot weakFails =>
    rw [move] at moved
    cases there : slot.guards[spot]? with
    | none =>
      rw [there] at moved
      cases moved
    | some guard =>
      rw [there] at moved
      rcases Option.map_eq_some_iff.mp moved with ⟨_, _, rfl⟩
      exact le_refl _
  | writer =>
    rw [move] at moved
    cases isWriter : slot.writer <;> rw [isWriter] at moved <;> cases moved
    · exact le_refl _
    · exact le_refl _
    · exact Nat.le_succ _
  | acquire | retire | recycle | intern =>
    simp only [move, Option.ite_none_right_eq_some, Option.some.injEq] at moved
    rcases moved with ⟨_, rfl⟩
    exact le_refl _

lemma Slot.run_cons {move : Move} :
    slot.run (move :: moves) = some after ↔
      ∃ next, slot.move move = some next ∧ next.run moves = some after := by
  exact Option.bind_eq_some_iff

lemma Slot.run_interns_le (ran : slot.run moves = some after) : slot.interns ≤ after.interns := by
  induction moves generalizing slot with
  | nil =>
    cases ran
    exact le_refl _
  | cons move moves induction =>
    rcases run_cons.mp ran with ⟨next, moved, rest⟩
    exact le_trans (move_interns_le moved) (induction rest)

lemma Slot.Sound.run (sound : slot.Sound) (calm : slot.Calm moves)
    (ran : slot.run moves = some after) (few : after.interns < 2 ^ 32) : after.Sound := by
  induction moves generalizing slot with
  | nil =>
    cases ran
    exact sound
  | cons move moves induction =>
    rcases run_cons.mp ran with ⟨next, moved, rest⟩
    have fewNow : slot.interns < 2 ^ 32 :=
      lt_of_le_of_lt (run_interns_le ran) few
    exact induction (sound.move fewNow calm.1 moved) (calm.2 next moved) rest

lemma Slot.Sound.inflight_eq (sound : slot.Sound) (quiescent : slot.quiescent = true) :
    slot.inflight = slot.liveGuards := by
  simp only [Slot.quiescent, Bool.and_eq_true, decide_eq_true_eq, all_eq_true, Bool.or_eq_true]
    at quiescent
  rcases quiescent with ⟨idle, settled⟩
  rw [sound.counted (by simp [idle])]
  apply countP_congr
  intro guard mem
  rcases settled guard mem with held | done
  · simp [Slot.counts, held, charged]
  · simp [Slot.counts, done, charged]

lemma Slot.Sound.stale_step (sound : slot.Sound) (there : slot.guards[spot]? = some guard)
    (isStale : guard.tenancy ≠ slot.interns)
    (moved : slot.move (.guard spot weakFails) = some after) :
    after.inflight = slot.inflight := by
  have mem := mem_of_getElem? there
  rw [Slot.move, there] at moved
  rcases Option.map_eq_some_iff.mp moved with ⟨⟨inflight, phase⟩, next, rfl⟩
  show inflight = slot.inflight
  unfold InflightGuard.next at next
  cases was : guard.phase with
  | acquiring => exact absurd (sound.acquiring guard mem was).2 isStale
  | loaded current =>
    rw [was] at next
    have positive := sound.loaded_pos guard mem current was
    have empty := sound.stale guard mem (by rw [was]; rfl) isStale
    have differs : weakFails = true ∨ slot.inflight ≠ current := .inr (by omega)
    simp only [differs, if_true, Option.some.injEq, Prod.mk.injEq] at next
    exact next.1.symm
  | held | releasing | checked =>
    rw [was] at next
    cases next
    rfl
  | done =>
    rw [was] at next
    cases next

/-- In every order of the steps in which no guard of an earlier tenant is past its generation
check when a guard of a later tenant is counted, the count is that of the live guards of the
present tenant, and guards of earlier tenants do not change it. -/
theorem inflight_exact_of_calm {moves : List Move} {slot : Slot}
    (ran : new.run moves = some slot) (calm : new.Calm moves) (few : slot.interns < 2 ^ 32) :
    (slot.quiescent = true → slot.inflight = slot.liveGuards) ∧
      ∀ spot weakFails guard after, slot.guards[spot]? = some guard →
        guard.tenancy ≠ slot.interns → slot.move (.guard spot weakFails) = some after →
          after.inflight = slot.inflight := by
  have sound := sound_new.run calm ran few
  exact ⟨sound.inflight_eq, fun _ _ _ _ there isStale moved =>
    sound.stale_step there isStale moved⟩

def internMoves : List Move := [.intern, .writer, .writer, .writer]

/-- The guard of the first tenant is past its generation check when the slot is interned again,
but finds the count at zero before the second tenant has a guard. -/
def timelyMoves : List Move :=
  internMoves ++ [.acquire, .guard 0 false, .guard 0 false, .guard 0 false, .retire, .recycle] ++
    internMoves ++ [.guard 0 false, .acquire, .guard 1 false]

theorem timelyMoves_exact :
    ∃ slot, new.run timelyMoves = some slot ∧ new.Calm timelyMoves ∧ slot.interns < 2 ^ 32 ∧
      (slot.quiescent = true → slot.inflight = slot.liveGuards) ∧
      ∀ spot weakFails guard after, slot.guards[spot]? = some guard →
        guard.tenancy ≠ slot.interns → slot.move (.guard spot weakFails) = some after →
          after.inflight = slot.inflight := by
  have ends : ∃ slot, new.run timelyMoves = some slot ∧ slot.interns < 2 ^ 32 :=
    ⟨_, rfl, by decide⟩
  have calm : new.Calm timelyMoves := by decide
  rcases ends with ⟨slot, ran, few⟩
  exact ⟨slot, ran, calm, few, inflight_exact_of_calm ran calm few⟩

/-- The guard of the first tenant reads the count 1, and exchanges it when the second tenant's
guard has brought the count back to 1. -/
def lateExchangeMoves : List Move :=
  internMoves ++ [.acquire, .guard 0 false, .guard 0 false, .guard 0 false, .guard 0 false, .retire,
      .recycle] ++
    internMoves ++ [.acquire, .guard 1 false, .guard 0 false]

theorem lateExchange_loses_guard :
    ∃ slot, new.run lateExchangeMoves = some slot ∧ slot.interns = 2 ∧
      slot.quiescent = true ∧ slot.liveGuards = 1 ∧ slot.inflight = 0 :=
  ⟨_, rfl, by decide, by decide, by decide, by decide⟩

end IronTraffic.Upstream
