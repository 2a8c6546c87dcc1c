import IronTraffic.Foundation.Bytes

/-! # The forwarding loop

Bytes are forwarded between a client and an upstream, one buffer in each direction. What the
transports, the timers and the shutdown token answer is up to the environment; every call on a
transport is logged with its answer.
-/

namespace IronTraffic.Dataplane

inductive Side where
  | client | upstream
  deriving DecidableEq

def Side.other : Side → Side
  | .client => .upstream
  | .upstream => .client

inductive ReadPoll (Failure : Type) where
  | pending
  /-- Data; no data at the end of the stream. -/
  | filled (bytes : Bytes)
  | failed (failure : Failure)

inductive WritePoll (Failure : Type) where
  | pending
  | accepted (count : Nat)
  | failed (failure : Failure)

inductive ShutdownPoll (Failure : Type) where
  | pending
  | finished
  | failed (failure : Failure)

inductive Alarm where
  | idle | halfClose | lifetime

structure Environment (World Failure : Type) where
  /-- A read into a buffer of the given size. -/
  pollRead : World → Side → Nat → World × ReadPoll Failure
  pollWrite : World → Side → Bytes → World × WritePoll Failure
  pollShutdown : World → Side → World × ShutdownPoll Failure
  isClosing : World → World × Bool
  sleep : World → Alarm → World
  pollSleep : World → Alarm → World × Bool

/-- Reads stay within their buffer, and writes report at most the bytes that they were
given. -/
structure Environment.Lawful {World Failure : Type} (env : Environment World Failure) :
    Prop where
  read_le : ∀ world side size bytes,
    (env.pollRead world side size).2 = .filled bytes → bytes.length ≤ size
  write_le : ∀ world side bytes count,
    (env.pollWrite world side bytes).2 = .accepted count → count ≤ bytes.length

inductive Event (Failure : Type) where
  | read (side : Side) (answer : ReadPoll Failure)
  | write (side : Side) (offered : Bytes) (answer : WritePoll Failure)
  | shutdown (side : Side) (answer : ShutdownPoll Failure)

/-! ## One direction -/

def maxPumpRounds : Nat := 8

def chunkSize : Nat := 32 * 1024

/-- The optional limits. The durations are given to the timer only. -/
structure ForwardLimits where
  maxBytesPerDirection : Option UInt64
  maxLifetime : Bool

inductive HalfError (Failure : Type) where
  | src (failure : Failure)
  | dst (failure : Failure)
  | writeZero (remaining : Nat)

/-- The state of one direction. The buffer is given by its filled part. -/
structure Half where
  buf : Option Bytes
  filled : Nat
  written : Nat
  srcEof : Bool
  dstShutdown : Bool
  capped : Bool
  total : Nat

def Half.default : Half := ⟨none, 0, 0, false, false, false, 0⟩

def Half.pending (half : Half) : Bytes := (half.buf.getD []).drop half.written

/-- One direction while it is pumped, and what it shares with the other one. -/
structure Pump (World Failure : Type) where
  half : Half
  world : World
  log : List (Event Failure)
  reads : Nat
  writes : Nat
  progress : Bool

inductive PumpPoll (Failure : Type) where
  | pending
  | ready (finished : Bool)
  | failed (error : HalfError Failure)

section Pumping

variable {World Failure : Type} (env : Environment World Failure)

def Half.advance (half : Half) (count : Nat) : Half :=
  { half with
    written := half.written + min count half.pending.length
    total := saturatingAdd64 half.total (min count half.pending.length) }

/-- One turn of the write loop: `none` when it goes on. -/
def writeOnce (dst : Side) (pump : Pump World Failure) :
    Pump World Failure × Option (PumpPoll Failure) :=
  let answer := env.pollWrite pump.world dst pump.half.pending
  let called := { pump with
    world := answer.1
    log := pump.log ++ [.write dst pump.half.pending answer.2] }
  match answer.2 with
  | .pending => (called, some .pending)
  | .accepted 0 => (called, some (.failed (.writeZero (pump.half.filled - pump.half.written))))
  | .accepted (count + 1) =>
    ({ called with
      half := pump.half.advance (count + 1)
      writes := saturatingAdd64 pump.writes 1
      progress := true }, none)
  | .failed failure => (called, some (.failed (.dst failure)))

def writeFirst (dst : Side) : Nat → Pump World Failure →
    Pump World Failure × Option (PumpPoll Failure)
  | 0, pump => (pump, none)
  | turns + 1, pump =>
    if pump.half.written < pump.half.filled then
      match writeOnce env dst pump with
      | (next, none) => writeFirst dst turns next
      | (next, some answer) => (next, some answer)
    else (pump, none)

def Half.release (half : Half) (limits : ForwardLimits) : Half :=
  let empty := { half with buf := none, filled := 0, written := 0 }
  match limits.maxBytesPerDirection with
  | none => empty
  | some cap =>
    if cap.toNat ≤ half.total then { empty with srcEof := true, capped := true } else empty

/-- The read: `none` when the end of the stream was found. -/
def readSecond (src : Side) (pump : Pump World Failure) :
    Pump World Failure × Option (PumpPoll Failure) :=
  let answer := env.pollRead pump.world src chunkSize
  let called := { pump with world := answer.1, log := pump.log ++ [.read src answer.2] }
  match answer.2 with
  | .pending => (called, some .pending)
  | .failed failure => (called, some (.failed (.src failure)))
  | .filled [] => ({ called with half := { pump.half with srcEof := true } }, none)
  | .filled (byte :: bytes) =>
    ({ called with
      half := { pump.half with
        buf := some ((byte :: bytes).take chunkSize)
        filled := (byte :: bytes).length
        written := 0 }
      reads := saturatingAdd64 pump.reads 1
      progress := true }, some (.ready false))

def shutdownLast (dst : Side) (pump : Pump World Failure) :
    Pump World Failure × PumpPoll Failure :=
  if pump.half.dstShutdown then (pump, .ready true)
  else
    let answer := env.pollShutdown pump.world dst
    let called := { pump with world := answer.1, log := pump.log ++ [.shutdown dst answer.2] }
    match answer.2 with
    | .pending => (called, .pending)
    | .finished => ({ called with half := { pump.half with dstShutdown := true } }, .ready true)
    | .failed _ => ({ called with half := { pump.half with dstShutdown := true } }, .ready true)

/-- `pump` once the buffer is released: read, unless the source is at its end, and then shut
down. -/
def readOrShutdown (src : Side) (released : Pump World Failure) :
    Pump World Failure × PumpPoll Failure :=
  if released.half.srcEof then shutdownLast env src.other released
  else
    match readSecond env src released with
    | (stopped, some answer) => (stopped, answer)
    | (ended, none) => shutdownLast env src.other ended

/-- `pump`, from the side `src` to the other side. -/
def pump (limits : ForwardLimits) (src : Side) (start : Pump World Failure) :
    Pump World Failure × PumpPoll Failure :=
  match writeFirst env src.other (start.half.filled - start.half.written) start with
  | (stopped, some answer) => (stopped, answer)
  | (drained, none) =>
    readOrShutdown env src { drained with half := drained.half.release limits }

end Pumping

/-! ## Both directions -/

structure ForwardStats where
  clientToUpstream : Nat
  upstreamToClient : Nat
  reads : Nat
  writes : Nat
  deriving DecidableEq

inductive EndReason where
  | bothEof | idleTimeout | halfCloseTimeout | closing | byteCap | lifetimeCap
  deriving DecidableEq

inductive ForwardError (Failure : Type) where
  | client (stats : ForwardStats) (failure : Failure)
  | upstream (stats : ForwardStats) (failure : Failure)
  | writeZero (stats : ForwardStats) (remaining : Nat)
  deriving DecidableEq

def ForwardError.stats {Failure : Type} : ForwardError Failure → ForwardStats
  | .client stats _ => stats
  | .upstream stats _ => stats
  | .writeZero stats _ => stats

def mapHalfError {Failure : Type} (src : Side) (error : HalfError Failure)
    (stats : ForwardStats) : ForwardError Failure :=
  match src, error with
  | _, .writeZero remaining => .writeZero stats remaining
  | .client, .src failure => .client stats failure
  | .upstream, .dst failure => .client stats failure
  | .client, .dst failure => .upstream stats failure
  | .upstream, .src failure => .upstream stats failure

structure Tunnel (World Failure : Type) where
  c2u : Half
  u2c : Half
  world : World
  log : List (Event Failure)
  reads : Nat
  writes : Nat
  progressAtArm : Nat
  progressCount : Nat
  halfArmed : Bool

section Forwarding

variable {World Failure : Type} (env : Environment World Failure)
  (limits : ForwardLimits)

def Tunnel.stats (tunnel : Tunnel World Failure) : ForwardStats :=
  ⟨tunnel.c2u.total, tunnel.u2c.total, tunnel.reads, tunnel.writes⟩

def Tunnel.pumpBoth (tunnel : Tunnel World Failure) :
    Tunnel World Failure × Bool × PumpPoll Failure × PumpPoll Failure :=
  let first := pump env limits .client
    ⟨tunnel.c2u, tunnel.world, tunnel.log, tunnel.reads, tunnel.writes, false⟩
  let second := pump env limits .upstream { first.1 with half := tunnel.u2c }
  ({ tunnel with
      c2u := first.1.half
      u2c := second.1.half
      world := second.1.world
      log := second.1.log
      reads := second.1.reads
      writes := second.1.writes
      progressCount :=
        if second.1.progress then tunnel.progressCount + 1 else tunnel.progressCount },
    second.1.progress, first.2, second.2)

inductive RoundEnd (Failure : Type) where
  | again
  | pending
  | ready (result : Except (ForwardError Failure) EndReason)

def Environment.pollArmed (armed : Bool) (alarm : Alarm) (world : World) : World × Bool :=
  if armed then env.pollSleep world alarm else (world, false)

def Environment.interrupt (halfArmed : Bool) (world : World) : World × Option EndReason :=
  match env.isClosing world with
  | (world, true) => (world, some .closing)
  | (world, false) =>
    match env.pollArmed limits.maxLifetime .lifetime world with
    | (world, true) => (world, some .lifetimeCap)
    | (world, false) =>
      match env.pollArmed halfArmed .halfClose world with
      | (world, true) => (world, some .halfCloseTimeout)
      | (world, false) => (world, none)

def Tunnel.armHalfClose (tunnel : Tunnel World Failure) : Tunnel World Failure :=
  if tunnel.c2u.srcEof ≠ tunnel.u2c.srcEof ∧ tunnel.halfArmed = false then
    { tunnel with world := env.sleep tunnel.world .halfClose, halfArmed := true }
  else tunnel

/-- The idle deadline: it ends the loop when nothing moved since it was armed, and is armed
again and polled at once otherwise. -/
def Tunnel.idleDeadline (tunnel : Tunnel World Failure) (progress : Bool) :
    Tunnel World Failure × RoundEnd Failure :=
  match env.pollSleep tunnel.world .idle with
  | (world, false) => ({ tunnel with world }, if progress then .again else .pending)
  | (world, true) =>
    if tunnel.progressCount = tunnel.progressAtArm then
      ({ tunnel with world }, .ready (.ok .idleTimeout))
    else
      ({ tunnel with
        progressAtArm := tunnel.progressCount
        world := (env.pollSleep (env.sleep world .idle) .idle).1 },
        if progress then .again else .pending)

def Tunnel.deadlines (tunnel : Tunnel World Failure) (progress : Bool) :
    Tunnel World Failure × RoundEnd Failure :=
  let armed := tunnel.armHalfClose env
  match env.interrupt limits armed.halfArmed armed.world with
  | (world, some reason) => ({ armed with world }, .ready (.ok reason))
  | (world, none) => Tunnel.idleDeadline env { armed with world } progress

def PumpPoll.finished {Failure : Type} : PumpPoll Failure → Bool
  | .ready finished => finished
  | _ => false

def PumpPoll.error {Failure : Type} : PumpPoll Failure → Option (HalfError Failure)
  | .failed error => some error
  | _ => none

def Tunnel.settle (tunnel : Tunnel World Failure) (progress : Bool)
    (first second : PumpPoll Failure) : Tunnel World Failure × RoundEnd Failure :=
  match first.error with
  | some error => (tunnel, .ready (.error (mapHalfError .client error tunnel.stats)))
  | none =>
    match second.error with
    | some error => (tunnel, .ready (.error (mapHalfError .upstream error tunnel.stats)))
    | none =>
      if first.finished && second.finished then
        (tunnel, .ready (.ok (if tunnel.c2u.capped || tunnel.u2c.capped then .byteCap
          else .bothEof)))
      else tunnel.deadlines env limits progress

def Tunnel.round (tunnel : Tunnel World Failure) : Tunnel World Failure × RoundEnd Failure :=
  let pumped := tunnel.pumpBoth env limits
  pumped.1.settle env limits pumped.2.1 pumped.2.2.1 pumped.2.2.2

def Tunnel.poll : Nat → Tunnel World Failure →
    Tunnel World Failure × Option (Except (ForwardError Failure) EndReason)
  | 0, tunnel => (tunnel, none)
  | rounds + 1, tunnel =>
    match tunnel.round env limits with
    | (next, .again) => next.poll rounds
    | (next, .pending) => (next, none)
    | (next, .ready result) => (next, some result)

def Tunnel.start (world : World) : Tunnel World Failure :=
  let idle := env.sleep world .idle
  ⟨.default, .default, if limits.maxLifetime then env.sleep idle .lifetime else idle,
    [], 0, 0, 0, 0, false⟩

def Tunnel.polls : Nat → Tunnel World Failure →
    Tunnel World Failure × Option (Except (ForwardError Failure) EndReason)
  | 0, tunnel => (tunnel, none)
  | count + 1, tunnel =>
    match tunnel.poll env limits maxPumpRounds with
    | (next, none) => next.polls count
    | (next, some result) => (next, some result)

def forwardBidirectional (world : World) (count : Nat) :
    Tunnel World Failure × Option (Except (ForwardError Failure) (ForwardStats × EndReason)) :=
  let ended := (Tunnel.start env limits world).polls env limits count
  (ended.1, ended.2.map fun result => result.map fun reason => (ended.1.stats, reason))

end Forwarding

end IronTraffic.Dataplane
