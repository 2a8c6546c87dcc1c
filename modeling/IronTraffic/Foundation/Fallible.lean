import Mathlib

/-! # Fallible computations

Source functions return a value or report an error. A model of a source loop
may in addition run out of fuel, which no source error stands for. `Meets` is
the postcondition reading of such a computation: reported errors are allowed,
running out of fuel is not.
-/

namespace IronTraffic

open List hiding all

/-- Why a modelled computation did not return: the source reported an error, or
the model's fuel was too small for the source's loop. -/
inductive Failure (Reason : Type u) where
  | reported (reason : Reason)
  | outOfFuel
  deriving DecidableEq

def Failure.IsReported : Failure Reason → Prop
  | .reported _ => True
  | .outOfFuel => False

abbrev Fallible (Reason : Type u) (Value : Type v) := Except (Failure Reason) Value

variable {outcome : Fallible Reason Value} {post weaker : Value → Prop} {middle : First → Prop}
  {reason : Reason} {step : State → Item → Fallible Reason State} {items : List Item}
  {next : First → Except Reason Second} {check : Item → Except Reason Unit}

namespace Fallible

@[reducible] def report (reason : Reason) : Fallible Reason Value :=
  .error (.reported reason)

/-- `Option::ok_or`. -/
def okOr (reason : Reason) : Option Value → Fallible Reason Value
  | some value => .ok value
  | none => report reason

/-- A returned value satisfies `post`, and the fuel was sufficient. -/
def Meets (outcome : Fallible Reason Value) (post : Value → Prop) : Prop :=
  match outcome with
  | .ok value => post value
  | .error (.reported _) => True
  | .error .outOfFuel => False

@[simp] lemma meets_ok (value : Value) (post : Value → Prop) :
    Meets (.ok value : Fallible Reason Value) post ↔ post value := Iff.rfl

@[simp] lemma meets_pure (value : Value) (post : Value → Prop) :
    Meets (pure value : Fallible Reason Value) post ↔ post value := Iff.rfl

@[simp] lemma meets_report (reason : Reason) (post : Value → Prop) :
    Meets (report reason) post ↔ True := Iff.rfl

lemma Meets.of_eq_ok (holds : Meets outcome post) (gave : outcome = .ok value) :
    post value := by
  subst outcome
  exact holds

lemma Meets.mono (holds : Meets outcome post) (implies : ∀ value, post value → weaker value) :
    Meets outcome weaker := by
  match outcome with
  | .ok value => exact implies value holds
  | .error (.reported _) => trivial

lemma Meets.bind {outcome : Fallible Reason First} {next : First → Fallible Reason Second}
    {post : Second → Prop} (holds : Meets outcome middle)
    (continues : ∀ value, middle value → Meets (next value) post) :
    Meets (outcome >>= next) post := by
  match outcome with
  | .ok value => exact continues value holds
  | .error (.reported _) => trivial

lemma meets_okOr (reason : Reason) (option : Option Value) :
    Meets (okOr reason option) (fun value => option = some value) := by
  cases option with
  | none => trivial
  | some value => rfl

/-- A check that reports an error when `condition` fails. -/
lemma Meets.guard [Decidable condition] (holds : condition → Meets outcome post) :
    Meets (if condition then outcome else report reason) post := by
  by_cases checked : condition
  · simpa [checked] using holds checked
  · simp [checked]

lemma meets_mapM {compute : Item → Fallible Reason Value} (value : Item → Value) :
    ∀ {items : List Item},
      (∀ item ∈ items, Meets (compute item) fun result => result = value item) →
      Meets (items.mapM compute) fun results => results = items.map value
  | [], _ => by simp
  | item :: items, each => by
    rw [mapM_cons]
    refine (each item mem_cons_self).bind ?_
    rintro _ rfl
    refine (meets_mapM value fun later mem =>
      each later (mem_cons_of_mem item mem)).bind ?_
    rintro _ rfl
    simp

private lemma meets_foldlM_from {Invariant : List Item → State → Prop}
    (keeps : ∀ done item rest state, done ++ item :: rest = all → Invariant done state →
        Meets (step state item) (Invariant (done ++ [item]))) :
    ∀ (items done : List Item) (state : State),
      done ++ items = all → Invariant done state → Meets (items.foldlM step state) (Invariant all)
  | [], done, state, whole, holds => by
    simp only [append_nil] at whole
    subst done
    simpa using holds
  | item :: items, done, state, whole, holds => by
    rw [foldlM_cons]
    refine (keeps done item items state whole holds).bind ?_
    intro next nextHolds
    exact meets_foldlM_from keeps items (done ++ [item]) next (by simpa using whole)
      nextHolds

lemma meets_foldlM (Invariant : List Item → State → Prop) (initially : Invariant [] state)
    (keeps : ∀ done item rest state, done ++ item :: rest = items → Invariant done state →
      Meets (step state item) (Invariant (done ++ [item]))) :
    Meets (items.foldlM step state) (Invariant items) :=
  meets_foldlM_from keeps items [] state rfl initially

end Fallible

/-! ## Errors that may occur

`Ensures` reads a computation without fuel: a returned value satisfies `post`,
and a reported error is one of those `Admissible` allows.
-/

def Ensures (outcome : Except Reason Value) (Admissible : Reason → Prop)
    (post : Value → Prop) : Prop :=
  match outcome with
  | .ok value => post value
  | .error reason => Admissible reason

namespace Ensures

variable {Admissible : Reason → Prop}

lemma mono {outcome : Except Reason Value} (holds : Ensures outcome Admissible post)
    (implies : ∀ value, post value → weaker value) : Ensures outcome Admissible weaker := by
  cases outcome with
  | ok value => exact implies value holds
  | error reason => exact holds

lemma bind {outcome : Except Reason First} {post : Second → Prop}
    (holds : Ensures outcome Admissible middle)
    (continues : ∀ value, middle value → Ensures (next value) Admissible post) :
    Ensures (outcome >>= next) Admissible post := by
  cases outcome with
  | ok value => exact continues value holds
  | error reason => exact holds

end Ensures

/-! ## Inversion -/

lemma bind_eq_ok_iff {outcome : Except Reason First} :
    (outcome >>= next) = .ok value ↔ ∃ middle, outcome = .ok middle ∧ next middle = .ok value := by
  cases outcome with
  | ok middle =>
    constructor
    · intro gave
      exact ⟨middle, rfl, gave⟩
    · rintro ⟨other, equal, gave⟩
      cases equal
      exact gave
  | error reason =>
    constructor
    · intro gave
      cases gave
    · rintro ⟨other, equal, _⟩
      cases equal

lemma of_ite_error {outcome : Except Reason Value} [Decidable condition]
    (gave : (if condition then .error reason else outcome) = .ok value) :
    ¬condition ∧ outcome = .ok value := by
  split at gave
  case isTrue => cases gave
  case isFalse passed => exact ⟨passed, gave⟩

lemma exists_error_iff {result : Except Reason Value} :
    (∃ reason, result = .error reason) ↔ ¬∃ value, result = .ok value := by
  cases result with
  | error | ok => simp

lemma mapError_eq_ok_iff {outcome : Except Reason Value} :
    outcome.mapError rename = .ok value ↔ outcome = .ok value := by
  cases outcome with
  | ok other => exact ⟨fun equal => by cases equal; rfl, fun equal => by cases equal; rfl⟩
  | error reason => exact ⟨nofun, nofun⟩

lemma exists_foldlM {step : State → Item → Except Reason State} (Fit : State → List Item → Prop)
    (keeps : ∀ state item rest, Fit state (item :: rest) →
      ∃ next, step state item = .ok next ∧ Fit next rest) :
    ∀ {items : List Item} {state : State}, Fit state items →
      ∃ final, items.foldlM step state = .ok final ∧ Fit final []
  | [], state, fit => ⟨state, rfl, fit⟩
  | item :: items, state, fit => by
    rcases keeps state item items fit with ⟨next, stepped, fitNext⟩
    rcases exists_foldlM Fit keeps fitNext with ⟨final, gave, fitFinal⟩
    refine ⟨final, ?_, fitFinal⟩
    rw [foldlM_cons, stepped]
    exact gave

@[elab_as_elim]
lemma foldlM_keeps {step : State → Item → Except Reason State} {Invariant : State → Prop}
    {state final : State} (gave : items.foldlM step state = .ok final)
    (keeps : ∀ item ∈ items, ∀ state next, Invariant state → step state item = .ok next →
      Invariant next) (start : Invariant state) : Invariant final := by
  induction items generalizing state with
  | nil =>
    cases gave
    exact start
  | cons item items induction =>
    rcases bind_eq_ok_iff.mp gave with ⟨next, stepped, gave⟩
    exact induction gave (fun item mem => keeps item (mem_cons_of_mem _ mem))
      (keeps item mem_cons_self state next start stepped)

lemma forM_eq_ok_iff : items.forM check = .ok () ↔ ∀ item ∈ items, check item = .ok () := by
  induction items with
  | nil => exact iff_of_true rfl (fun item mem => by cases mem)
  | cons item items induction =>
    show (check item >>= fun _ => items.forM check) = .ok () ↔ _
    rw [bind_eq_ok_iff, forall_mem_cons, ← induction]
    constructor
    · rintro ⟨_, here, later⟩
      exact ⟨here, later⟩
    · intro passed
      exact ⟨(), passed⟩

lemma exists_of_forM_eq_error (failed : items.forM check = .error reason) :
    ∃ item ∈ items, check item = .error reason := by
  induction items with
  | nil => cases failed
  | cons item items induction =>
    change (check item >>= fun _ => items.forM check) = .error reason at failed
    cases checked : check item with
    | error other =>
      rw [checked] at failed
      cases failed
      exact ⟨item, mem_cons_self, checked⟩
    | ok _ =>
      rw [checked] at failed
      rcases induction failed with ⟨other, mem, fails⟩
      exact ⟨other, mem_cons_of_mem _ mem, fails⟩

end IronTraffic
