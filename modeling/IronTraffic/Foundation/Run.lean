import Mathlib

/-! # Runs of a step function

A step of a deterministic machine either moves on to a next state or halts with
a result. A run takes a bounded number of steps, and the states in which it
takes them are the visited states. Invariants and a falling rank are checked
step by step and then hold for whole runs.
-/

namespace IronTraffic

open List

inductive Transition (State : Type u) (Result : Type v) where
  | next (state : State)
  | halt (result : Result)

section Runs

variable {State : Type u} {Result : Type v} (step : State → Transition State Result)

/-- The result of a run of at most `budget` steps, if the run halts in time. -/
def runFor : Nat → State → Option Result
  | 0, _ => none
  | budget + 1, state =>
    match step state with
    | .next following => runFor budget following
    | .halt result => some result

/-- The states in which a run of at most `budget` steps takes a step. -/
def visited : Nat → State → List State
  | 0, _ => []
  | budget + 1, state =>
    state ::
      match step state with
      | .next following => visited budget following
      | .halt _ => []

abbrev Reaches : State → State → Prop :=
  Relation.ReflTransGen fun state following => step state = .next following

variable {step}

lemma runFor_next (budget : Nat) (moves : step state = .next following) :
    runFor step (budget + 1) state = runFor step budget following := by
  simp only [runFor, moves]

lemma runFor_halt (budget : Nat) (halts : step state = .halt result) :
    runFor step (budget + 1) state = some result := by
  simp only [runFor, halts]

/-- Every step keeps the invariant and lowers the rank. -/
structure Descends (step : State → Transition State Result) (Invariant : State → Prop)
    (rank : State → Nat) : Prop where
  positive : ∀ state, Invariant state → 0 < rank state
  keeps : ∀ state following, Invariant state → step state = .next following →
    Invariant following ∧ rank following < rank state

lemma visited_invariant (descends : Descends step Invariant rank) (budget : Nat) (start : State)
    (holds : Invariant start) : ∀ state ∈ visited step budget start, Invariant state := by
  induction budget generalizing start with
  | zero => exact fun _ => nofun
  | succ budget induction =>
    intro state mem
    rcases mem_cons.mp mem with equal | later
    · subst state
      exact holds
    · cases moves : step start with
      | halt result =>
        rw [moves] at later
        cases later
      | next following =>
        rw [moves] at later
        exact induction following (descends.keeps start following holds moves).1 state later

lemma visited_length_le (descends : Descends step Invariant rank) (budget : Nat) (start : State)
    (holds : Invariant start) : (visited step budget start).length ≤ rank start := by
  induction budget generalizing start with
  | zero =>
    simp [visited]
  | succ budget induction =>
    have startPositive := descends.positive start holds
    rw [visited, length_cons]
    cases moves : step start with
    | halt result =>
      simp only [length_nil]
      omega
    | next following =>
      rcases descends.keeps start following holds moves with ⟨kept, lower⟩
      have later := induction following kept
      simp only
      omega

lemma runFor_isSome (descends : Descends step Invariant rank) (budget : Nat) (start : State)
    (holds : Invariant start) (enough : rank start ≤ budget) :
    ∃ result, runFor step budget start = some result := by
  induction budget generalizing start with
  | zero =>
    have startPositive := descends.positive start holds
    omega
  | succ budget induction =>
    cases moves : step start with
    | halt result => exact ⟨result, runFor_halt budget moves⟩
    | next following =>
      rcases descends.keeps start following holds moves with ⟨kept, lower⟩
      rw [runFor_next budget moves]
      exact induction following kept (by omega)

lemma exists_halting_of_runFor (budget : Nat) (start : State) (result : Result)
    (gave : runFor step budget start = some result) :
    ∃ state ∈ visited step budget start, step state = .halt result := by
  induction budget generalizing start result with
  | zero =>
    cases gave
  | succ budget induction =>
    cases moves : step start with
    | halt halted =>
      rw [runFor_halt budget moves] at gave
      cases gave
      refine ⟨start, ?_, moves⟩
      exact mem_cons_self
    | next following =>
      rw [runFor_next budget moves] at gave
      rcases induction following result gave with ⟨state, mem, halts⟩
      refine ⟨state, ?_, halts⟩
      rw [visited, moves]
      exact mem_cons_of_mem start mem

lemma runFor_of_reaches (reaches : Reaches step start last) (halts : step last = .halt result)
    (budget : Nat) (gave : Result) (finished : runFor step budget start = some gave) :
    gave = result := by
  induction reaches using Relation.ReflTransGen.head_induction_on generalizing budget gave with
  | refl =>
    cases budget with
    | zero => cases finished
    | succ budget =>
      rw [runFor_halt budget halts] at finished
      exact (Option.some.inj finished).symm
  | head moves _ induction =>
    cases budget with
    | zero => cases finished
    | succ budget =>
      rw [runFor_next budget moves] at finished
      exact induction budget gave finished

end Runs

end IronTraffic
