import IronTraffic.Health.Schedule

/-! # Watch or Check

`GrpcModeMachine` keeps the last status of a Watch stream. Every way out of `WatchOpen` clears
it, opening a stream does not. The verdict is therefore that of the present stream exactly as
long as no stream is opened on top of one whose last status was SERVING.
-/

namespace IronTraffic.Health

open List

inductive GrpcMode where
  | watchDesired | watchOpen | unaryFallback
  deriving DecidableEq

inductive GrpcAction where
  | openWatch | sendPing | closeStreamAndFallback | sendUnaryCheck | idle

structure CompiledGrpcCheck where
  preferWatch : Bool
  livenessMultiplier : Nat
  watchRetryAfterChecks : Nat

structure GrpcModeMachine where
  mode : GrpcMode
  lastMessageAt : Millis
  nextPingAt : Millis
  unaryChecksSinceFallback : Nat
  lastServing : Option UInt32

/-- The calls the runner makes. Of a verdict only `unimplemented` is read. -/
inductive GrpcEvent where
  | checkDue (now : Millis) (intervalMs : Nat) (compiled : CompiledGrpcCheck)
  | watchOpen (now : Millis) (intervalMs : Nat)
  | watchMessage (now : Millis) (raw : Option UInt32)
  | watchClosed (now : Millis) (unimplemented : Bool)
  | pingAck (now : Millis)

namespace GrpcModeMachine

def new (now : Millis) : GrpcModeMachine := ⟨.watchDesired, now, now, 0, none⟩

def onCheckDue (machine : GrpcModeMachine) (now : Millis) (intervalMs : Nat)
    (compiled : CompiledGrpcCheck) : GrpcAction × GrpcModeMachine :=
  match machine.mode with
  | .watchDesired =>
    if compiled.preferWatch then (.openWatch, machine)
    else
      (.sendUnaryCheck, { machine with mode := .unaryFallback, unaryChecksSinceFallback := 1 })
  | .watchOpen =>
    let livenessDeadlineMs :=
      min (min (intervalMs * compiled.livenessMultiplier) u32Max) (horizonMs - 1)
    if livenessDeadlineMs < now.since machine.lastMessageAt then
      (.closeStreamAndFallback, { machine with mode := .watchDesired, lastServing := none })
    else if !now.isAtOrBefore machine.nextPingAt then
      (.sendPing, { machine with nextPingAt := now.addMs intervalMs })
    else (.idle, machine)
  | .unaryFallback =>
    if compiled.preferWatch ∧ compiled.watchRetryAfterChecks ≤ machine.unaryChecksSinceFallback then
      (.openWatch, { machine with mode := .watchDesired, unaryChecksSinceFallback := 0 })
    else
      (.sendUnaryCheck, { machine with
        unaryChecksSinceFallback := saturatingAdd32 machine.unaryChecksSinceFallback 1 })

def on (machine : GrpcModeMachine) : GrpcEvent → GrpcModeMachine
  | .checkDue now intervalMs compiled => (machine.onCheckDue now intervalMs compiled).2
  | .watchOpen now intervalMs => { machine with
      mode := .watchOpen, lastMessageAt := now, nextPingAt := now.addMs intervalMs }
  | .watchMessage now raw =>
    if machine.mode = .watchOpen then { machine with lastMessageAt := now, lastServing := raw }
    else machine
  | .watchClosed _ unimplemented =>
    if unimplemented then
      { machine with mode := .unaryFallback, unaryChecksSinceFallback := 0, lastServing := none }
    else { machine with mode := .watchDesired, lastServing := none }
  | .pingAck now => { machine with lastMessageAt := now }

def currentOutcome (machine : GrpcModeMachine) : Option CheckOutcome :=
  match machine.mode with
  | .watchOpen => some (if machine.lastServing = some 1 then .pass else .fail .status)
  | .watchDesired => none
  | .unaryFallback => none

def run (start : Millis) (events : List GrpcEvent) : GrpcModeMachine := events.foldl on (new start)

/-- The latest message since the stream was opened. -/
def note (latest : Option (Option UInt32)) : GrpcEvent → Option (Option UInt32)
  | .watchOpen _ _ => none
  | .watchMessage _ raw => some raw
  | _ => latest

/-- The outcome is a pass exactly if the present stream's latest message was SERVING. -/
def Passes (machine : GrpcModeMachine) (latest : Option (Option UInt32)) : Prop :=
  machine.currentOutcome = some .pass ↔ machine.mode = .watchOpen ∧ latest = some (some 1)

variable {machine : GrpcModeMachine}

lemma currentOutcome_eq_pass_iff :
    machine.currentOutcome = some .pass ↔
      machine.mode = .watchOpen ∧ machine.lastServing = some 1 := by
  rw [currentOutcome]
  split <;> simp_all

/-- Without a stream there is no status, and the status of a stream is its own. -/
structure Tracks (machine : GrpcModeMachine) (latest : Option (Option UInt32)) : Prop where
  status : machine.mode = .watchOpen → (machine.lastServing = some 1 ↔ latest = some (some 1))
  closed : machine.mode ≠ .watchOpen → machine.lastServing = none

lemma Tracks.on (tracks : Tracks machine latest)
    (calm : ∀ now ms, event = .watchOpen now ms → machine.currentOutcome ≠ some .pass) :
    Tracks (machine.on event) (note latest event) := by
  cases event with
  | checkDue now intervalMs compiled =>
    simp only [GrpcModeMachine.on, onCheckDue]
    split <;> rename_i mode <;> split_ifs
    · exact tracks
    · exact ⟨nofun, fun _ => tracks.closed (by simp [mode])⟩
    · exact ⟨nofun, fun _ => rfl⟩
    · exact ⟨tracks.status, tracks.closed⟩
    · exact tracks
    · exact ⟨nofun, fun _ => tracks.closed (by simp [mode])⟩
    · exact ⟨tracks.status, tracks.closed⟩
  | watchOpen now ms =>
    have idle := calm now ms rfl
    rw [Ne, currentOutcome_eq_pass_iff, not_and] at idle
    have unset : machine.lastServing ≠ some 1 := by
      by_cases mode : machine.mode = .watchOpen
      · exact idle mode
      · simp [tracks.closed mode]
    exact ⟨fun _ => iff_of_false unset nofun, fun shut => absurd rfl shut⟩
  | watchMessage now raw =>
    rw [GrpcModeMachine.on]
    split_ifs with mode
    · exact ⟨fun _ => by simp [note], fun shut => absurd mode shut⟩
    · exact ⟨fun opened => absurd opened mode, tracks.closed⟩
  | watchClosed now unimplemented =>
    rw [GrpcModeMachine.on]
    split_ifs
    · exact ⟨nofun, fun _ => rfl⟩
    · exact ⟨nofun, fun _ => rfl⟩
  | pingAck now => exact ⟨tracks.status, tracks.closed⟩

lemma tracks_run
    (calm : ∀ before now ms, before ++ [.watchOpen now ms] <+: events →
      (run start before).currentOutcome ≠ some .pass) :
    Tracks (run start events) (events.foldl note none) := by
  induction events using reverseRecOn with
  | nil => exact ⟨nofun, fun _ => rfl⟩
  | append_singleton events event induction =>
    rw [run, foldl_append, foldl_append]
    refine (induction fun before now ms start => ?_).on fun now ms opens => ?_
    · exact calm before now ms (start.trans (prefix_append events [event]))
    · exact calm events now ms (opens ▸ prefix_rfl)

/-- The verdict is always that of the present stream, exactly if no stream is opened while the
verdict is a pass. -/
theorem passes_iff {start : Millis} {events : List GrpcEvent} :
    (∀ before, before <+: events → (run start before).Passes (before.foldl note none)) ↔
      ∀ before now ms, before ++ [.watchOpen now ms] <+: events →
        (run start before).currentOutcome ≠ some .pass := by
  constructor
  · intro passes before now ms opened pass
    have again := passes _ opened
    rw [Passes, currentOutcome_eq_pass_iff, run, foldl_append, foldl_append] at again
    exact nomatch (again.mp ⟨rfl, (currentOutcome_eq_pass_iff.mp pass).2⟩).2
  · intro calm before start
    have tracks := tracks_run fun earlier now ms opened => calm earlier now ms (opened.trans start)
    rw [Passes, currentOutcome_eq_pass_iff]
    exact and_congr_right tracks.status

/-- The second stream has sent nothing. -/
theorem second_stream_passes :
    let events : List GrpcEvent := [.watchOpen 0 1000, .watchMessage 0 (some 1), .watchOpen 0 1000]
    ¬(run 0 events).Passes (events.foldl note none) :=
  fun passes => nomatch (passes.mp rfl).2

end GrpcModeMachine

end IronTraffic.Health
