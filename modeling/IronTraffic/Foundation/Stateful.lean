import IronTraffic.Foundation.Fallible

/-! # Stateful computations

A stateful computation starts in a state and returns a value with a new state,
or reports an error. `Establishes` is its pre- and postcondition reading. A pass
visits the items of a list front to back and updates one state as it goes.
-/

namespace IronTraffic

section Rules

variable {State : Type u} {Reason Value First Second : Type u}
  {Admissible : Reason → Prop}

/-- Started in `state`, the computation returns a value and a state that satisfy
`post`, or reports an admissible error. -/
def Establishes (computation : StateT State (Except Reason) Value) (state : State)
    (Admissible : Reason → Prop) (post : Value → State → Prop) : Prop :=
  Ensures (computation state) Admissible fun result => post result.1 result.2

namespace Establishes

lemma mono {post weaker : Value → State → Prop}
    (holds : Establishes computation state Admissible post)
    (implies : ∀ value after, post value after → weaker value after) :
    Establishes computation state Admissible weaker :=
  Ensures.mono holds fun result => implies result.1 result.2

lemma bind {next : First → StateT State (Except Reason) Second} {middle : First → State → Prop}
    {post : Second → State → Prop} (holds : Establishes first state Admissible middle)
    (continues : ∀ value after, middle value after →
      Establishes (next value) after Admissible post) :
    Establishes (first >>= next) state Admissible post :=
  Ensures.bind holds fun result => continues result.1 result.2

lemma of_eq_ok (holds : Establishes computation state Admissible post)
    (gave : computation state = .ok result) : post result.1 result.2 := by
  rw [Establishes, gave] at holds
  exact holds

end Establishes

lemma Ensures.lift (holds : Ensures outcome Admissible post) (state : State) :
    Establishes (StateT.lift outcome : StateT State (Except Reason) Value) state Admissible
      fun value after => after = state ∧ post value := by
  cases outcome with
  | ok value => exact ⟨rfl, holds⟩
  | error reason => exact holds

lemma establishes_get_bind {next : State → StateT State (Except Reason) Value}
    {post : Value → State → Prop} :
    Establishes (get >>= next) state Admissible post ↔
      Establishes (next state) state Admissible post := Iff.rfl

end Rules

section Passes

variable {Item : Type v} {State Reason : Type}

def visitAt (items : List Item) (step : Nat → Item → StateT State (Except Reason) Unit)
    (index : Nat) : StateT State (Except Reason) Unit :=
  match items[index]? with
  | some item => step index item
  | none => pure ()

/-- A pass over `count` positions from `index` on. -/
def passFrom (items : List Item) (step : Nat → Item → StateT State (Except Reason) Unit) :
    Nat → Nat → StateT State (Except Reason) Unit
  | _, 0 => pure ()
  | index, count + 1 => do
    visitAt items step index
    passFrom items step (index + 1) count

variable {items : List Item} {step : Nat → Item → StateT State (Except Reason) Unit}
  {Admissible : Reason → Prop}

lemma passFrom_add (index first second : Nat) :
    passFrom items step index (first + second) = (do
        passFrom items step index first
        passFrom items step (index + first) second) := by
  induction first generalizing index with
  | zero =>
    rw [zero_add, passFrom, pure_bind]
    rfl
  | succ first induction =>
    have shifted : index + (first + 1) = index + 1 + first := by omega
    rw [Nat.add_right_comm, passFrom, passFrom, induction, bind_assoc, shifted]

lemma passFrom_one (index : Nat) : passFrom items step index 1 = visitAt items step index := by
  exact bind_pure_unit

end Passes

end IronTraffic
