import IronTraffic.Foundation.Bytes
import IronTraffic.Health.Wheel

/-! # Health check schedules

The configuration of active checks, and what is kept per endpoint: the nominal time
of the next check, the interval state, and the hysteresis counters. The random
source is a parameter.
-/

namespace IronTraffic.Health

/-! ## Configuration -/

/-- A rejected field, its value as a number, and the constraint. -/
structure ConfigError where
  field : String
  value : Nat
  constraint : String

structure HealthCheckConfig where
  intervalMs : Nat
  edgeIntervalMs : Nat
  unhealthyIntervalMs : Nat
  noTrafficIntervalMs : Nat
  timeoutMs : Nat
  jitterBp : Nat
  healthyThreshold : Nat
  unhealthyThreshold : Nat
  reconnectEvery : Nat
  maxChecksPerEndpointPerSec : Nat

/-- `HealthCheckConfig::default`. -/
def HealthCheckConfig.default : HealthCheckConfig where
  intervalMs := 2000
  edgeIntervalMs := 500
  unhealthyIntervalMs := 2000
  noTrafficIntervalMs := 60000
  timeoutMs := 1000
  jitterBp := 500
  healthyThreshold := 2
  unhealthyThreshold := 3
  reconnectEvery := 10
  maxChecksPerEndpointPerSec := 4

def inRangeU32 (field : String) (value low high : Nat) : Except ConfigError Unit :=
  if low ≤ value ∧ value ≤ high then .ok ()
  else .error ⟨field, value, "must be in the allowed range"⟩

def orderedU32 (field : String) (value other : Nat) : Except ConfigError Unit :=
  if value ≤ other then .ok ()
  else .error ⟨field, value, "must be less than or equal to the other value"⟩

def withinHorizon (jitterBp : Nat) (field : String) (interval : Nat) : Except ConfigError Unit :=
  if horizonMs < interval * (10000 + jitterBp) / 10000 then
    .error ⟨field, interval, "combined with jitter_bp must not be able to schedule a fire time " ++
      "beyond Millis::HORIZON_MS from nominal"⟩
  else .ok ()

inductive IntervalState where
  | steady | edge | down | noTraffic
  deriving DecidableEq

namespace HealthCheckConfig

def validate (cfg : HealthCheckConfig) : Except ConfigError Unit := do
  inRangeU32 "health.interval_ms" cfg.intervalMs 1 horizonMs
  inRangeU32 "health.edge_interval_ms" cfg.edgeIntervalMs 1 horizonMs
  inRangeU32 "health.unhealthy_interval_ms" cfg.unhealthyIntervalMs 1 horizonMs
  inRangeU32 "health.no_traffic_interval_ms" cfg.noTrafficIntervalMs 1 horizonMs
  inRangeU32 "health.timeout_ms" cfg.timeoutMs 1 horizonMs
  orderedU32 "health.timeout_ms" cfg.timeoutMs cfg.intervalMs
  inRangeU32 "health.jitter_bp" cfg.jitterBp 0 5000
  inRangeU32 "health.healthy_threshold" cfg.healthyThreshold 1 254
  inRangeU32 "health.unhealthy_threshold" cfg.unhealthyThreshold 1 254
  inRangeU32 "health.max_checks_per_endpoint_per_sec" cfg.maxChecksPerEndpointPerSec 1 1000
  withinHorizon cfg.jitterBp "health.interval_ms" cfg.intervalMs
  withinHorizon cfg.jitterBp "health.edge_interval_ms" cfg.edgeIntervalMs
  withinHorizon cfg.jitterBp "health.unhealthy_interval_ms" cfg.unhealthyIntervalMs
  withinHorizon cfg.jitterBp "health.no_traffic_interval_ms" cfg.noTrafficIntervalMs

def intervalFor (cfg : HealthCheckConfig) (state : IntervalState) : Nat :=
  let cap := max cfg.maxChecksPerEndpointPerSec 1
  let sustainedFloor := (1000 + cap - 1) / cap
  let edgeFloor := (500 + cap - 1) / cap
  match state with
  | .steady => max cfg.intervalMs sustainedFloor
  | .down => max (max cfg.unhealthyIntervalMs 1) sustainedFloor
  | .noTraffic => max (max cfg.noTrafficIntervalMs 1) sustainedFloor
  | .edge => max (max cfg.edgeIntervalMs 1) edgeFloor

def effectiveIntervalMs (cfg : HealthCheckConfig) : Nat × Bool :=
  let steady := cfg.intervalFor .steady
  (steady, decide (cfg.intervalMs < steady))

end HealthCheckConfig

/-! ## Endpoints -/

inductive EndpointHealth where
  | healthy | degraded | unhealthy | draining
  deriving DecidableEq

inductive FailKind where
  | connect | timeout | tls | status | body | protocol | retriableStatus
  deriving DecidableEq

inductive CheckOutcome where
  | pass
  | fail (kind : FailKind)

inductive Transition where
  | none | toHealthy | toUnhealthy

structure EndpointSchedule where
  nominal : Millis
  intervalState : IntervalState
  activeHealth : EndpointHealth
  consecutiveOk : Nat
  consecutiveFail : Nat
  checksSinceReconnect : Nat
  checksStarted : Nat

/-- The mixed value of `split_mix64`. -/
def splitMix64 (state : UInt64) : UInt64 :=
  let z := state + 0x9e3779b97f4a7c15
  let z := (z ^^^ (z >>> 30)) * 0xbf58476d1ce4e5b9
  let z := (z ^^^ (z >>> 27)) * 0x94d049bb133111eb
  z ^^^ (z >>> 31)

def phaseMs (instanceId endpointId : UInt64) (intervalMs : Nat) : Nat :=
  (splitMix64 (instanceId ^^^ endpointId) >>> 32).toNat * intervalMs / 2 ^ 32

/-- A random source: a number below a bound, and the source after it. -/
structure Rng (Source : Type) where
  below : Source → Nat → Nat × Source

/-- `symmetric_jitter_ms`. -/
def symmetricJitterMs (rng : Rng Source) (source : Source) (spanMs : Nat) : Int × Source :=
  let spanMs := min spanMs 2147483647
  if spanMs = 0 then (0, source)
  else
    let (number, source) := rng.below source (2 * spanMs + 1)
    ((number : Int) - spanMs, source)

namespace EndpointSchedule

def initWithEffectiveInterval (start : Millis) (instanceId endpointId : UInt64)
    (effIntervalMs : Nat) (hasTraffic : Bool) : EndpointSchedule where
  nominal := start.addMs (phaseMs instanceId endpointId effIntervalMs)
  intervalState := if hasTraffic then .steady else .noTraffic
  activeHealth := .healthy
  consecutiveOk := 0
  consecutiveFail := 0
  checksSinceReconnect := 0
  checksStarted := 0

def fireAt (rng : Rng Source) (sched : EndpointSchedule) (now : Millis)
    (cfg : HealthCheckConfig) (source : Source) : Millis × Source :=
  let interval := cfg.intervalFor sched.intervalState
  let span := interval * cfg.jitterBp / 10000
  let (delta, source) := symmetricJitterMs rng source span
  let time :=
    if 0 ≤ delta then sched.nominal.addMs delta.toNat
    else sched.nominal - UInt32.ofNat delta.natAbs
  (if time.isAtOrBefore now then now.addMs 1 else time, source)

section

variable (sched : EndpointSchedule)

def advanceNominal (now : Millis) (cfg : HealthCheckConfig) : EndpointSchedule :=
  let interval := cfg.intervalFor sched.intervalState
  let nominal := sched.nominal.addMs interval
  { sched with nominal := if nominal.isAtOrBefore now then now.addMs interval else nominal }

def settleEdge : EndpointSchedule :=
  if sched.intervalState = .edge then
    { sched with
      intervalState := if sched.activeHealth = .healthy then .steady else .down }
  else sched

def applyOutcome (outcome : CheckOutcome) (cfg : HealthCheckConfig) :
    EndpointSchedule × Transition :=
  let sched :=
    { sched with checksSinceReconnect := saturatingAdd32 sched.checksSinceReconnect 1 }
  match outcome with
  | .pass =>
    let sched :=
      { sched with consecutiveFail := 0, consecutiveOk := saturatingAdd32 sched.consecutiveOk 1 }
    if sched.activeHealth ≠ .healthy ∧ cfg.healthyThreshold ≤ sched.consecutiveOk then
      ({ sched with activeHealth := .healthy, consecutiveOk := 0, intervalState := .edge },
        .toHealthy)
    else (sched.settleEdge, .none)
  | .fail kind =>
    let sched :=
      { sched with consecutiveOk := 0, consecutiveFail := saturatingAdd32 sched.consecutiveFail 1 }
    if sched.activeHealth = .healthy ∧ cfg.unhealthyThreshold ≤ sched.consecutiveFail then
      ({ sched with activeHealth := .unhealthy, consecutiveFail := 0, intervalState := .edge },
        .toUnhealthy)
    else if kind = .retriableStatus then ({ sched with intervalState := .edge }, .none)
    else (sched.settleEdge, .none)

def shouldReconnect (cfg : HealthCheckConfig) : Bool :=
  cfg.reconnectEvery != 0 && decide (cfg.reconnectEvery ≤ sched.checksSinceReconnect)

def noteReconnected : EndpointSchedule :=
  { sched with checksSinceReconnect := 0 }

def noteDispatched : EndpointSchedule :=
  { sched with checksStarted := saturatingAdd64 sched.checksStarted 1 }

def setHasTraffic (hasTraffic : Bool) : EndpointSchedule :=
  if hasTraffic then
    if sched.intervalState = .noTraffic then { sched with intervalState := .edge } else sched
  else { sched with intervalState := .noTraffic }

end

end EndpointSchedule

end IronTraffic.Health
