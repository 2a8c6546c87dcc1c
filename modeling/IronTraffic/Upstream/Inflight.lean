import IronTraffic.Upstream.Registry

/-! # In-flight guards on a slot that is reused

Threads acquire and drop guards on one slot while the writer retires, recycles and interns it.
Every atomic step of each party is a step of its own, and any order of the steps is a run.
-/

namespace IronTraffic.Upstream

/-- How far a guard has come. A guard that is `releasing` is at the top of the loop of
`release_inflight`; it is `checked` when the generation was found to match, and `loaded` when
it holds the count that it is going to compare. -/
inductive GuardPhase where
  | acquiring | held | releasing | checked | loaded (current : Nat) | done
  deriving DecidableEq

/-- A guard with the generation that it observed. The tenancy it was acquired in is not known
to the code. -/
structure InflightGuard where
  phase : GuardPhase
  genAtAcquire : Nat
  tenancy : Nat

/-- How far the writer has come with `intern`. -/
inductive WriterPhase where
  | idle | claimed | read (generation : Nat) | zeroed (generation : Nat)
  deriving DecidableEq

/-- One slot. The number of times that it was interned is not known to the code. -/
structure Slot where
  state : SlotState
  inflight : Nat
  generation : Nat
  writer : WriterPhase
  guards : List InflightGuard
  interns : Nat

def Slot.new : Slot := ⟨.free, 0, 0, .idle, [], 0⟩

inductive Move where
  /-- A thread loads the generation for a new guard. -/
  | acquire
  /-- The guard takes its next step; a weak compare-exchange may fail for no reason. -/
  | guard (spot : Nat) (weakFails : Bool)
  | retire
  | recycle
  /-- The writer claims the slot for a new tenant. -/
  | intern
  /-- The writer takes its next step of `intern`. -/
  | writer

def InflightGuard.next (guard : InflightGuard) (inflight generation : Nat) (weakFails : Bool) :
    Option (Nat × GuardPhase) :=
  match guard.phase with
  | .acquiring => some ((inflight + 1) % 2 ^ 32, .held)
  | .held => some (inflight, .releasing)
  | .releasing => some (inflight, if generation ≠ guard.genAtAcquire then .done else .checked)
  | .checked => some (inflight, if inflight = 0 then .done else .loaded inflight)
  | .loaded current =>
    if weakFails ∨ inflight ≠ current then some (inflight, .releasing)
    else some (current - 1, .done)
  | .done => none

/-- One step of one party; `none` when the party cannot take it. No acquire overlaps an
`intern`. -/
def Slot.move (slot : Slot) : Move → Option Slot
  | .acquire =>
    if slot.writer = .idle then
      some { slot with
        guards := slot.guards ++ [⟨.acquiring, slot.generation, slot.interns⟩] }
    else none
  | .guard spot weakFails =>
    match slot.guards[spot]? with
    | none => none
    | some guard =>
      (guard.next slot.inflight slot.generation weakFails).map fun after =>
        { slot with
          inflight := after.1
          guards := slot.guards.set spot { guard with phase := after.2 } }
  | .retire =>
    if slot.writer = .idle ∧ slot.state = .live then some { slot with state := .retired }
    else none
  | .recycle =>
    if slot.writer = .idle ∧ slot.state = .retired then some { slot with state := .free }
    else none
  | .intern =>
    if slot.writer = .idle ∧ slot.state = .free ∧
        ∀ guard ∈ slot.guards, guard.phase ≠ .acquiring then
      some { slot with state := .live, writer := .claimed }
    else none
  | .writer =>
    match slot.writer with
    | .idle => none
    | .claimed => some { slot with writer := .read slot.generation }
    | .read generation => some { slot with inflight := 0, writer := .zeroed generation }
    | .zeroed generation =>
      some { slot with
        generation := (generation + 1) % 2 ^ 32
        writer := .idle
        interns := slot.interns + 1 }

def Slot.run (slot : Slot) (moves : List Move) : Option Slot :=
  moves.foldlM Slot.move slot

def Slot.quiescent (slot : Slot) : Bool :=
  decide (slot.writer = .idle) &&
    slot.guards.all fun guard => decide (guard.phase = .held) || decide (guard.phase = .done)

def Slot.liveGuards (slot : Slot) : Nat :=
  slot.guards.countP fun guard =>
    decide (guard.phase = .held) && decide (guard.tenancy = slot.interns)

def GuardPhase.committed : GuardPhase → Bool
  | .checked => true
  | .loaded _ => true
  | _ => false

def GuardPhase.charged : GuardPhase → Bool
  | .acquiring => false
  | .done => false
  | _ => true

/-- A guard that is about to be counted does not meet a guard of an earlier tenant that is
past its generation check, and the count does not wrap. -/
def Slot.calm (slot : Slot) : Move → Prop
  | .guard spot _ =>
    ∀ guard ∈ slot.guards[spot]?, guard.phase = .acquiring → slot.inflight + 1 < 2 ^ 32 ∧
        ∀ other ∈ slot.guards, other.phase.committed = true → other.tenancy = slot.interns
  | _ => True

def Slot.Calm : Slot → List Move → Prop
  | _, [] => True
  | slot, move :: moves => slot.calm move ∧ ∀ after ∈ slot.move move, after.Calm moves

instance (slot : Slot) : (move : Move) → Decidable (slot.calm move)
  | .guard spot _ => inferInstanceAs (Decidable (∀ guard ∈ slot.guards[spot]?, _))
  | .acquire => .isTrue trivial
  | .retire => .isTrue trivial
  | .recycle => .isTrue trivial
  | .intern => .isTrue trivial
  | .writer => .isTrue trivial

instance Slot.decidableCalm : (slot : Slot) → (moves : List Move) → Decidable (slot.Calm moves)
  | _, [] => .isTrue trivial
  | slot, move :: moves =>
    have := fun after : Slot => decidableCalm after moves
    inferInstanceAs (Decidable (slot.calm move ∧ ∀ after ∈ slot.move move, after.Calm moves))

end IronTraffic.Upstream
