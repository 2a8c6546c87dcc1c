import Mathlib

/-! # The timer wheel

Four levels of 256 slots at one millisecond. A slot is an intrusive doubly linked
list through the nodes of an array that is indexed by the timers' ids.
-/

namespace IronTraffic.Health

/-! ## Wrapping time -/

abbrev Millis := UInt32

/-- `Millis::HORIZON_MS`, half of the range. -/
def horizonMs : Nat := 2147483647

/-- The wrapping distance from `earlier` to a time, `u32::wrapping_sub`. -/
def Millis.wrappingSub (time earlier : Millis) : Nat := (time - earlier).toNat

def Millis.since (time earlier : Millis) : Nat :=
  if horizonMs < time.wrappingSub earlier then 0 else time.wrappingSub earlier

def Millis.addMs (time : Millis) (ms : Nat) : Millis := time + UInt32.ofNat ms

def Millis.isAtOrBefore (time other : Millis) : Bool := time.since other == 0

/-! ## The wheel -/

/-- `NIL`, the end of a list. -/
abbrev nil : Nat := 4294967295

/-- `NO_SLOT`, the slot of a node that is not scheduled. -/
abbrev noSlot : Nat := 65535

abbrev slotCount : Nat := 256

abbrev levelCount : Nat := 4

def defaultMaxIds : Nat := 1048576

structure WheelNode where
  next : Nat
  prev : Nat
  deadline : Millis
  slot : Nat

inductive WheelError where
  | idTooLarge | idOutOfRange

structure AdvanceStats where
  fired : Nat
  advancedMs : Nat
  cascades : Nat
  swept : Bool

/-- `AdvanceStats::default`. -/
def AdvanceStats.none : AdvanceStats := ⟨0, 0, 0, false⟩

structure TimerWheel where
  heads : List Nat
  nodes : List WheelNode
  maxIds : Nat
  now : Millis
  len : Nat
  maxCatchupMs : Nat
  catchupClamped : Nat

def levelAndSlot (now deadline : Millis) : Nat × Nat :=
  let delta := deadline.since now
  if delta < 256 then (0, deadline.toNat % 256)
  else if delta < 65536 then (1, deadline.toNat / 2 ^ 8 % 256)
  else if delta < 16777216 then (2, deadline.toNat / 2 ^ 16 % 256)
  else (3, deadline.toNat / 2 ^ 24 % 256)

namespace TimerWheel

def new (start : Millis) (capacity : Nat) : TimerWheel :=
  let capacity := min capacity nil
  { heads := List.replicate (slotCount * levelCount) nil
    nodes := List.replicate capacity ⟨nil, nil, start, noSlot⟩
    maxIds := max capacity defaultMaxIds
    now := start
    len := 0
    maxCatchupMs := 5000
    catchupClamped := 0 }

section

variable (wheel : TimerWheel)

def setMaxIds (maxIds : Nat) : TimerWheel := { wheel with maxIds }

def setMaxCatchupMs (ms : Nat) : TimerWheel :=
  { wheel with maxCatchupMs := max ms 1 }

def node (id : Nat) : Option WheelNode := wheel.nodes[id]?

def nodeMut (id : Nat) (change : WheelNode → WheelNode) : TimerWheel :=
  { wheel with nodes := wheel.nodes.modify id change }

def headAt (flat : Nat) : Nat := wheel.heads[flat]?.getD nil

def setHead (flat head : Nat) : TimerWheel :=
  { wheel with heads := wheel.heads.set flat head }

/-- `Vec::resize` with unscheduled nodes, when `id` lies beyond the array. -/
def ensureCapacity (id : Nat) : TimerWheel :=
  { wheel with
    nodes := wheel.nodes ++
      List.replicate (id + 1 - wheel.nodes.length) ⟨nil, nil, wheel.now, noSlot⟩ }

def deadlineOf (id : Nat) : Option Millis := do
  let node ← wheel.node id
  if node.slot ≠ noSlot then some node.deadline else none

def unlink (id : Nat) : TimerWheel :=
  match wheel.node id with
  | none => wheel
  | some node =>
    let wheel :=
      if node.prev = nil then wheel.setHead node.slot node.next
      else wheel.nodeMut node.prev fun prevNode => { prevNode with next := node.next }
    if node.next ≠ nil then
      wheel.nodeMut node.next fun nextNode => { nextNode with prev := node.prev }
    else wheel

/-- Links a node at the head of a slot, as `schedule` and `cascade` both do. -/
def link (id flat : Nat) : TimerWheel :=
  let oldHead := wheel.headAt flat
  let wheel := wheel.nodeMut id fun node =>
    { node with slot := flat, prev := nil, next := oldHead }
  let wheel :=
    if oldHead ≠ nil then wheel.nodeMut oldHead fun nextNode => { nextNode with prev := id }
    else wheel
  wheel.setHead flat id

def isScheduled (id : Nat) : Bool :=
  (wheel.node id).any fun node => node.slot != noSlot

def schedule (id : Nat) (time : Millis) : Except WheelError TimerWheel :=
  if id = nil then .error .idTooLarge
  else if wheel.maxIds ≤ id then .error .idOutOfRange
  else
    let raw := time.wrappingSub wheel.now
    let wheel := wheel.ensureCapacity id
    let wasScheduled := wheel.isScheduled id
    let wheel := if wasScheduled then wheel.unlink id else wheel
    let effectiveAt := if raw = 0 ∨ horizonMs < raw then wheel.now.addMs 1 else time
    let (level, slot) := levelAndSlot wheel.now effectiveAt
    let wheel := wheel.nodeMut id fun node => { node with deadline := effectiveAt }
    let wheel := wheel.link id (level * slotCount + slot)
    .ok { wheel with len := if wasScheduled then wheel.len else wheel.len + 1 }

def release (id : Nat) : TimerWheel :=
  let wheel := (wheel.unlink id).nodeMut id fun node => { node with slot := noSlot }
  { wheel with len := wheel.len - 1 }

def cancel (id : Nat) : TimerWheel × Bool :=
  if wheel.nodes.length ≤ id then (wheel, false)
  else if wheel.isScheduled id then (wheel.release id, true)
  else (wheel, false)

end

/-! ## Ticks -/

/-- The loop of `cascade`: every node of the list moves to its slot under the
wheel's current time. A list visits no node twice. -/
def cascadeLoop : Nat → Nat → TimerWheel → TimerWheel
  | 0, _, wheel => wheel
  | turns + 1, id, wheel =>
    if id = nil then wheel
    else
      match wheel.node id with
      | none => wheel
      | some node =>
        let wheel := wheel.unlink id
        let (newLevel, newSlot) := levelAndSlot wheel.now node.deadline
        cascadeLoop turns node.next (wheel.link id (newLevel * slotCount + newSlot))

def cascade (wheel : TimerWheel) (level slot : Nat) : TimerWheel :=
  cascadeLoop wheel.nodes.length (wheel.headAt (level * slotCount + slot)) wheel

def drainLoop : Nat → Nat → TimerWheel × List Nat → TimerWheel × List Nat
  | 0, _, state => state
  | turns + 1, id, (wheel, out) =>
    if id = nil then (wheel, out)
    else
      match wheel.node id with
      | none => (wheel, out)
      | some node => drainLoop turns node.next (wheel.release id, out ++ [id])

/-- Whether `u32::trailing_zeros` of the time is at least `bits`. -/
def isAligned (time : Millis) (bits : Nat) : Bool := time.toNat % 2 ^ bits == 0

def cascadeWhenAligned (level : Nat) (state : TimerWheel × Nat) : TimerWheel × Nat :=
  let bits := 8 * level
  if isAligned state.1.now bits then
    (state.1.cascade level (state.1.now.toNat / 2 ^ bits % 256), state.2 + 1)
  else state

/-- One turn of the loop of `advance`. -/
def tick (state : TimerWheel × List Nat × Nat) : TimerWheel × List Nat × Nat :=
  let (wheel, out, cascades) := state
  let wheel := { wheel with now := wheel.now.addMs 1 }
  let (wheel, cascades) := cascadeWhenAligned 1 (wheel, cascades)
  let (wheel, cascades) := cascadeWhenAligned 2 (wheel, cascades)
  let (wheel, cascades) := cascadeWhenAligned 3 (wheel, cascades)
  let flat := wheel.now.toNat % 256
  let (wheel, out) := drainLoop wheel.nodes.length (wheel.headAt flat) (wheel, out)
  (wheel, out, cascades)

/-! ## The sweep -/

def reset (wheel : TimerWheel) (id : Nat) : TimerWheel :=
  let wheel := wheel.nodeMut id fun node => { node with prev := nil, next := nil, slot := noSlot }
  { wheel with len := wheel.len - 1 }

def collectLoop : Nat → Nat → TimerWheel × List Nat → TimerWheel × List Nat
  | 0, _, state => state
  | turns + 1, id, (wheel, scratch) =>
    if id = nil then (wheel, scratch)
    else
      match wheel.node id with
      | none => (wheel, scratch)
      | some node => collectLoop turns node.next (wheel.reset id, scratch ++ [id])

def collectSlot (state : TimerWheel × List Nat) (flat : Nat) : TimerWheel × List Nat :=
  let (wheel, scratch) := collectLoop state.1.nodes.length (state.1.headAt flat) state
  (wheel.setHead flat nil, scratch)

def resettle (target : Millis) (state : TimerWheel × List Nat) (id : Nat) :
    TimerWheel × List Nat :=
  let (wheel, out) := state
  let deadline := ((wheel.node id).map WheelNode.deadline).getD target
  if deadline.isAtOrBefore target then (wheel, out ++ [id])
  else
    match wheel.schedule id deadline with
    | .ok wheel => (wheel, out)
    | .error _ => (wheel, out)

/-- The first loop of `sweep`, over all slots. -/
def collectAll (wheel : TimerWheel) : TimerWheel × List Nat :=
  (List.range (slotCount * levelCount)).foldl collectSlot (wheel, [])

def sweep (wheel : TimerWheel) (target : Millis) (out : List Nat) : TimerWheel × List Nat :=
  let collected := wheel.collectAll
  collected.2.foldl (resettle target) ({ collected.1 with now := target }, out)

/-- `TimerWheel::advance`. -/
def advance (wheel : TimerWheel) (now : Millis) (out : List Nat) :
    TimerWheel × List Nat × AdvanceStats :=
  let gap := now.since wheel.now
  if gap = 0 then (wheel, out, .none)
  else if wheel.maxCatchupMs < gap then
    let swept := wheel.sweep now out
    ({ swept.1 with catchupClamped := swept.1.catchupClamped + 1 }, swept.2,
      ⟨swept.2.length - out.length, gap, 0, true⟩)
  else
    let ticked := tick^[gap] (wheel, out, 0)
    (ticked.1, ticked.2.1, ⟨ticked.2.1.length - out.length, gap, ticked.2.2, false⟩)

end TimerWheel

end IronTraffic.Health
