import IronTraffic.Foundation.Bytes
import IronTraffic.Foundation.Keyed

/-! # The endpoint registry

A slab of fixed capacity that hands out ids for endpoint identities. A retired id rests in
a queue until both its grace conditions are met, and is free again after that.
-/

namespace IronTraffic.Upstream

/-! ## Identities -/

def maxIdentityBytes : Nat := 320

/-- How addresses are printed; this is code of the standard library. -/
structure AddressDisplay where
  ipv4 : UInt32 → Bytes
  ipv6 : List UInt16 → Bytes
  port : UInt16 → Bytes

/-- The scope id and the flow information of a v6 address are never printed. -/
inductive EndpointAddr where
  | v4 (ip : UInt32) (port : UInt16)
  | v6 (ip : List UInt16) (port : UInt16)
  | unix (path : Bytes)

structure EndpointIdentity where
  addr : EndpointAddr
  hostname : Option Bytes

structure BufWriter where
  written : Bytes
  overflow : Bool

namespace BufWriter

def new : BufWriter := ⟨[], false⟩

def writeBytes (writer : BufWriter) (bytes : Bytes) : BufWriter :=
  if writer.overflow ∨ maxIdentityBytes < writer.written.length + bytes.length then
    { writer with overflow := true }
  else { writer with written := writer.written ++ bytes }

def finish (writer : BufWriter) : Option Bytes :=
  if writer.overflow then none else some writer.written

end BufWriter

namespace EndpointIdentity

def parts (display : AddressDisplay) (identity : EndpointIdentity) (useHostname : Bool) :
    List Bytes :=
  match useHostname, identity.hostname, identity.addr with
  | true, some hostname, .v4 _ port => [hostname, [58], display.port port]
  | true, some hostname, .v6 _ port => [hostname, [58], display.port port]
  | _, _, .v4 ip port => [display.ipv4 ip, [58], display.port port]
  | _, _, .v6 ip port => [[91], display.ipv6 ip, [93, 58], display.port port]
  | _, _, .unix path => [ascii "unix:", path]

def identityBytes (display : AddressDisplay) (identity : EndpointIdentity) (useHostname : Bool) :
    Option Bytes :=
  ((identity.parts display useHostname).foldl BufWriter.writeBytes .new).finish

end EndpointIdentity

/-! ## The slab -/

def recycleGraceMs : Nat := 60000

def recycleGraceGenerations : Nat := 2

def maxCapacity : Nat := 2 ^ 20

def recycleBatch : Nat := 4096

inductive RegistryError where
  | capacityExhausted (capacity : Nat)
  | identityTooLong
  | invalidCapacity (capacity : Nat)
  deriving DecidableEq

structure EndpointStats where
  inflight : Nat
  activeConns : Nat
  cost : Nat
  healthySinceMs : Nat
  leftHealthyMs : Nat
  generation : Nat

def EndpointStats.default : EndpointStats := ⟨0, 0, 0, 0, 0, 0⟩

inductive SlotState where
  | free | live | retired
  deriving DecidableEq

abbrev EndpointId := Nat

structure Retired where
  id : EndpointId
  key : Bytes
  atGeneration : Nat
  atMs : Nat

/-- The writer, together with the read half that it owns the writes of. -/
structure EndpointRegistryWriter where
  capacity : Nat
  stats : List EndpointStats
  states : List SlotState
  interned : Nat
  retiredTotal : Nat
  index : List (Bytes × EndpointId)
  keys : List (Option Bytes)
  retired : List Retired
  nextFree : Nat

/-- `u32::wrapping_sub`. -/
def wrappingSub32 (left right : Nat) : Nat := (left + (2 ^ 32 - right % 2 ^ 32)) % 2 ^ 32

namespace EndpointRegistryWriter

def install (capacity : Nat) : Except RegistryError EndpointRegistryWriter :=
  if capacity = 0 ∨ maxCapacity < capacity then .error (.invalidCapacity capacity)
  else
    .ok {
      capacity
      stats := List.replicate capacity .default
      states := List.replicate capacity .free
      interned := 0
      retiredTotal := 0
      index := []
      keys := List.replicate capacity none
      retired := []
      nextFree := 0 }

section

variable (writer : EndpointRegistryWriter)

def liveCount : Nat :=
  wrappingSub32 writer.interned writer.retiredTotal

def slotGeneration (id : EndpointId) : Option Nat :=
  writer.stats[id]?.map EndpointStats.generation

def isFree (slot : Nat) : Bool :=
  writer.states[slot]? == some .free

def findFree : Option Nat :=
  ((List.range writer.capacity).map fun offset =>
    (writer.nextFree + offset) % 2 ^ 32 % writer.capacity).find? writer.isFree

end

def resetStats (stats : EndpointStats) : EndpointStats :=
  { stats with
    inflight := 0
    activeConns := 0
    cost := 0
    healthySinceMs := 0
    leftHealthyMs := 0
    generation := (stats.generation + 1) % 2 ^ 32 }

def occupy (writer : EndpointRegistryWriter) (slot : Nat) (key : Bytes) :
    EndpointRegistryWriter :=
  { writer with
    states := writer.states.set slot .live
    stats := writer.stats.modify slot resetStats
    keys := writer.keys.set slot (some key)
    index := insertKey writer.index key slot
    interned := (writer.interned + 1) % 2 ^ 32
    nextFree := (slot + 1) % 2 ^ 32 % writer.capacity }

/-- `intern` for an identity that could be rendered. -/
def internKey (writer : EndpointRegistryWriter) (key : Bytes) :
    EndpointRegistryWriter × Except RegistryError EndpointId :=
  match writer.index.lookup key with
  | some id => (writer, .ok id)
  | none =>
    if writer.index.length + writer.retired.length = writer.capacity then
      (writer, .error (.capacityExhausted writer.capacity))
    else
      match writer.findFree with
      | none => (writer, .error (.capacityExhausted writer.capacity))
      | some slot => (writer.occupy slot key, .ok slot)

def intern (display : AddressDisplay) (writer : EndpointRegistryWriter)
    (identity : EndpointIdentity) : EndpointRegistryWriter × Except RegistryError EndpointId :=
  match identity.identityBytes display false with
  | none => (writer, .error .identityTooLong)
  | some key => writer.internKey key

def lookup (display : AddressDisplay) (writer : EndpointRegistryWriter)
    (identity : EndpointIdentity) : Option EndpointId :=
  (identity.identityBytes display false).bind fun key => writer.index.lookup key

def retire (writer : EndpointRegistryWriter) (id : EndpointId) (nowMs generation : Nat) :
    EndpointRegistryWriter :=
  if writer.states[id]? ≠ some .live then writer
  else
    let marked := { writer with states := writer.states.set id .retired }
    match marked.keys[id]? with
    | some (some key) =>
      { marked with
        keys := marked.keys.set id none
        index := removeKey marked.index key
        retired := marked.retired ++ [⟨id, key, generation, nowMs⟩]
        retiredTotal := (marked.retiredTotal + 1) % 2 ^ 32 }
    | _ => marked

def eligible (entry : Retired) (nowMs generation : Nat) : Bool :=
  decide (saturatingAdd64 entry.atGeneration recycleGraceGenerations ≤ generation) &&
    decide (recycleGraceMs ≤ wrappingSub32 nowMs entry.atMs)

/-- The loop of `recycle`: the queue is freed from its front, `left` ids at most. -/
def recycleFrom (nowMs generation : Nat) : Nat → EndpointRegistryWriter →
    EndpointRegistryWriter × Nat
  | 0, writer => (writer, 0)
  | left + 1, writer =>
    match writer.retired with
    | [] => (writer, 0)
    | front :: rest =>
      if eligible front nowMs generation then
        let after := recycleFrom nowMs generation left
          { writer with retired := rest, states := writer.states.set front.id .free }
        (after.1, after.2 + 1)
      else (writer, 0)

def recycle (writer : EndpointRegistryWriter) (nowMs generation : Nat) :
    EndpointRegistryWriter × Nat :=
  recycleFrom nowMs generation recycleBatch writer

end EndpointRegistryWriter

end IronTraffic.Upstream
