import Mathlib

/-! # Monitored calls

An automaton says which sequences of calls are well formed. An object that the calls are
made on checks part of that and is spoiled by what it refuses; the rest is up to the caller.
An object that ends in a good state has then been called well exactly when the caller kept
to its part.
-/

namespace IronTraffic.Monitor

variable {State Call Phase : Type} {step : State → Call → State}
  {next : Phase → Call → Option Phase} {Final : Phase → Prop} {Allowed : Phase → Call → Prop}

def Accepts (next : Phase → Call → Option Phase) (Final : Phase → Prop) :
    Phase → List Call → Prop
  | phase, [] => Final phase
  | phase, call :: rest => ∃ after, next phase call = some after ∧ Accepts next Final after rest

def Disciplined (next : Phase → Call → Option Phase) (Allowed : Phase → Call → Prop) :
    Phase → List Call → Prop
  | _, [] => True
  | phase, call :: rest =>
    Allowed phase call ∧ ∀ after, next phase call = some after → Disciplined next Allowed after rest

/-- What relates an object to the automaton. `Fit` may speak of the calls still to come. -/
structure Polices (step : State → Call → State) (next : Phase → Call → Option Phase)
    (Final : Phase → Prop) (Allowed : Phase → Call → Prop)
    (Fit : State → Phase → List Call → Prop) (Spoiled Good : State → Prop) : Prop where
  spoils : ∀ state call, Spoiled state → Spoiled (step state call)
  notGood : ∀ state, Spoiled state → ¬Good state
  final : ∀ state phase, Fit state phase [] → Good state → Final phase
  follows : ∀ state phase call rest after, Fit state phase (call :: rest) → Allowed phase call →
    next phase call = some after → Spoiled (step state call) ∨ Fit (step state call) after rest
  refuses : ∀ state phase call rest, Fit state phase (call :: rest) → Allowed phase call →
    next phase call = none → Spoiled (step state call)
  allowed : ∀ phase call rest after, next phase call = some after →
    Accepts next Final after rest → Allowed phase call

section Policing

variable {Fit : State → Phase → List Call → Prop} {Spoiled Good : State → Prop}

lemma Polices.spoiled_run (polices : Polices step next Final Allowed Fit Spoiled Good)
    {calls : List Call} : ∀ {state : State}, Spoiled state → Spoiled (calls.foldl step state) := by
  induction calls with
  | nil => exact fun spoiled => spoiled
  | cons call calls induction =>
    exact fun spoiled => induction (polices.spoils _ call spoiled)

lemma Polices.accepts_iff (polices : Polices step next Final Allowed Fit Spoiled Good)
    (fit : Fit state phase calls) (good : Good (calls.foldl step state)) :
    (Accepts next Final phase calls ↔ Disciplined next Allowed phase calls) := by
  induction calls generalizing state phase with
  | nil =>
    exact iff_of_true (polices.final state phase fit good) trivial
  | cons call rest induction =>
    have sound : ¬Spoiled (step state call) := fun spoiled =>
      polices.notGood _ (polices.spoiled_run spoiled) good
    constructor
    · rintro ⟨after, moves, accepted⟩
      have allowed := polices.allowed phase call rest after moves accepted
      refine ⟨allowed, ?_⟩
      intro other same
      rw [moves] at same
      cases same
      have fitNext := (polices.follows state phase call rest after fit allowed moves).resolve_left
        sound
      exact (induction fitNext good).mp accepted
    · rintro ⟨allowed, later⟩
      cases moves : next phase call with
      | none => exact absurd (polices.refuses state phase call rest fit allowed moves) sound
      | some after =>
        have fitNext :=
          (polices.follows state phase call rest after fit allowed moves).resolve_left sound
        exact ⟨after, moves, (induction fitNext good).mpr (later after moves)⟩

end Policing

end IronTraffic.Monitor
