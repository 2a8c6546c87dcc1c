import IronTraffic.Health.Schedule

/-! # The health scheduler

One checker per process: it drives the timer wheel, hands out check orders, takes
reports, and follows changes of the membership. What it keeps per endpoint stands
in parallel vectors.
-/

namespace IronTraffic.Health

open EndpointSchedule

open List

def maxConcurrentChecks : Nat := 65536

def maxEndpoints : Nat := 1048576

structure CheckOrder where
  endpoint : Nat
  endpointId : UInt64
  forceReconnect : Bool
  timeoutMs : Nat
  deadline : Millis

structure CheckReport where
  endpoint : Nat
  endpointId : UInt64
  outcome : CheckOutcome
  reconnected : Bool

structure SchedulerStats where
  checksDispatched : Nat
  checksReported : Nat
  checksDeferred : Nat
  transitionsToHealthy : Nat
  transitionsToUnhealthy : Nat
  reportsForUnknownEndpoint : Nat
  reportsWithoutInflight : Nat
  reconnectsForced : Nat
  timerCatchupClamped : Nat
  stuckInflight : Nat

/-- `SchedulerStats::default`. -/
def SchedulerStats.zero : SchedulerStats := ⟨0, 0, 0, 0, 0, 0, 0, 0, 0, 0⟩

structure PollStats where
  dispatched : Nat
  deferred : Nat
  swept : Bool

structure HealthScheduler where
  wheel : TimerWheel
  sched : List EndpointSchedule
  endpointIds : List UInt64
  inflight : List Bool
  dispatchedAt : List Millis
  stuck : List Bool
  ejected : List Bool
  ramping : List Bool
  draining : List Bool
  cfg : HealthCheckConfig
  effectiveIntervalMs : Nat
  maxConcurrent : Nat
  inflightCount : Nat
  deferMs : Nat
  deferCursor : Millis
  instanceId : UInt64
  hasTraffic : Bool
  stats : SchedulerStats

def flagAt (flags : List Bool) (index : Nat) : Bool := flags[index]?.getD false

/-- `let _ = wheel.schedule(..)`: an error leaves the wheel as it was. -/
def TimerWheel.rearm (wheel : TimerWheel) (id : Nat) (time : Millis) : TimerWheel :=
  match wheel.schedule id time with
  | .ok wheel => wheel
  | .error _ => wheel

def adjacentDuplicate : List UInt64 → Option UInt64
  | left :: right :: rest => if left = right then some left else adjacentDuplicate (right :: rest)
  | _ => none

def rejectDuplicateIds (ids : List UInt64) : Except ConfigError Unit :=
  match adjacentDuplicate (ids.mergeSort fun left right => left ≤ right) with
  | some duplicate => .error ⟨"cluster.endpoints", duplicate.toNat, "endpoint ids must be unique"⟩
  | none => .ok ()

def tooManyEndpoints (count : Nat) : ConfigError :=
  ⟨"cluster.endpoints", count, "at most 1048576 endpoints per cluster"⟩

namespace HealthScheduler

/-- The loop of `new`: every endpoint is scheduled at its nominal time. -/
def armAll (now : Millis) (instanceId : UInt64) (effectiveIntervalMs : Nat) (hasTraffic : Bool)
    (count : Nat) :
    List (UInt64 × Nat) → TimerWheel → List EndpointSchedule →
      Except ConfigError (TimerWheel × List EndpointSchedule)
  | [], wheel, sched => .ok (wheel, sched)
  | (id, index) :: rest, wheel, sched =>
    let endpoint := initWithEffectiveInterval now instanceId id
      effectiveIntervalMs hasTraffic
    match wheel.schedule index endpoint.nominal with
    | .error _ => .error (tooManyEndpoints count)
    | .ok wheel =>
      armAll now instanceId effectiveIntervalMs hasTraffic count rest wheel (sched ++ [endpoint])

def new (now : Millis) (instanceId : UInt64) (endpointIds : List UInt64)
    (cfg : HealthCheckConfig) (maxConcurrent : Nat) (hasTraffic : Bool) :
    Except ConfigError HealthScheduler := do
  cfg.validate
  if maxConcurrent = 0 ∨ maxConcurrentChecks < maxConcurrent then
    throw ⟨"health_check.max_concurrent_checks", maxConcurrent, "must be in 1..=65536"⟩
  if maxEndpoints < endpointIds.length then throw (tooManyEndpoints endpointIds.length)
  rejectDuplicateIds endpointIds
  let effectiveIntervalMs := cfg.effectiveIntervalMs.1
  let count := endpointIds.length
  let wheel := (TimerWheel.new now count).setMaxCatchupMs 5000
  let (wheel, sched) ←
    armAll now instanceId effectiveIntervalMs hasTraffic count endpointIds.zipIdx wheel []
  return {
    wheel
    sched
    endpointIds
    inflight := replicate count false
    dispatchedAt := replicate count 0
    stuck := replicate count false
    ejected := replicate count false
    ramping := replicate count false
    draining := replicate count false
    cfg
    effectiveIntervalMs
    maxConcurrent
    inflightCount := 0
    deferMs := 5
    deferCursor := now
    instanceId
    hasTraffic
    stats := .zero }

def len (scheduler : HealthScheduler) : Nat := scheduler.sched.length

/-! ## Polling -/

structure Polling where
  scheduler : HealthScheduler
  out : List CheckOrder
  dispatched : Nat
  deferred : Nat

def deferInflight (now : Millis) (polling : Polling) (id : Nat) : Polling :=
  let scheduler := polling.scheduler
  let dispatchedAt := scheduler.dispatchedAt[id]?.getD now
  let stuckThreshold := min (scheduler.cfg.timeoutMs * 10) u32Max
  let scheduler :=
    if stuckThreshold < now.since dispatchedAt ∧ flagAt scheduler.stuck id = false then
      { scheduler with
        stuck := scheduler.stuck.set id true
        stats := { scheduler.stats with
          stuckInflight := saturatingAdd32 scheduler.stats.stuckInflight 1 } }
    else scheduler
  let wheel := scheduler.wheel.rearm id (now.addMs scheduler.deferMs)
  { polling with
    scheduler := { scheduler with wheel }
    deferred := saturatingAdd32 polling.deferred 1 }

def deferCapped (now : Millis) (polling : Polling) (id : Nat) : Polling :=
  let scheduler := polling.scheduler
  let time :=
    if scheduler.deferCursor.isAtOrBefore now then now.addMs scheduler.deferMs
    else scheduler.deferCursor
  { polling with
    scheduler :=
      { scheduler with
        deferCursor := time.addMs 1
        wheel := scheduler.wheel.rearm id time
        stats := { scheduler.stats with
          checksDeferred := saturatingAdd64 scheduler.stats.checksDeferred 1 } }
    deferred := saturatingAdd32 polling.deferred 1 }

def dispatch (now : Millis) (polling : Polling) (id : Nat) : Polling :=
  let scheduler := polling.scheduler
  let force := scheduler.sched[id]?.any fun sched => sched.shouldReconnect scheduler.cfg
  let timeoutMs := scheduler.cfg.timeoutMs
  let order : CheckOrder :=
    { endpoint := id
      endpointId := scheduler.endpointIds[id]?.getD 0
      forceReconnect := force
      timeoutMs
      deadline := now.addMs timeoutMs }
  { scheduler :=
      { scheduler with
        sched := scheduler.sched.modify id noteDispatched
        inflight := scheduler.inflight.set id true
        dispatchedAt := scheduler.dispatchedAt.set id now
        stuck := scheduler.stuck.set id false
        inflightCount := saturatingAdd32 scheduler.inflightCount 1
        wheel := scheduler.wheel.rearm id ((now.addMs timeoutMs).addMs scheduler.deferMs)
        stats := { scheduler.stats with
          reconnectsForced :=
            if force then saturatingAdd64 scheduler.stats.reconnectsForced 1
            else scheduler.stats.reconnectsForced
          checksDispatched := saturatingAdd64 scheduler.stats.checksDispatched 1 } }
    out := polling.out ++ [order]
    dispatched := saturatingAdd32 polling.dispatched 1
    deferred := polling.deferred }

def pollOne (now : Millis) (polling : Polling) (id : Nat) : Polling :=
  if polling.scheduler.len ≤ id then polling
  else if flagAt polling.scheduler.inflight id then deferInflight now polling id
  else if polling.scheduler.maxConcurrent ≤ polling.scheduler.inflightCount then
    deferCapped now polling id
  else dispatch now polling id

def pollDue (scheduler : HealthScheduler) (now : Millis) (out : List CheckOrder) :
    HealthScheduler × List CheckOrder × PollStats :=
  let advanced := scheduler.wheel.advance now []
  let swept := advanced.2.2.swept
  let scheduler :=
    { scheduler with
      wheel := advanced.1
      stats := { scheduler.stats with
        timerCatchupClamped :=
          saturatingAdd64 scheduler.stats.timerCatchupClamped (if swept then 1 else 0) } }
  let polled := advanced.2.1.foldl (pollOne now) ⟨scheduler, out, 0, 0⟩
  (polled.scheduler, polled.out, ⟨polled.dispatched, polled.deferred, swept⟩)

/-! ## Reports -/

/-- What `publish` writes for an endpoint, if there is such an endpoint. -/
def publish (scheduler : HealthScheduler) (index : Nat) : Option EndpointHealth := do
  let sched ← scheduler.sched[index]?
  if flagAt scheduler.draining index then some .draining
  else if flagAt scheduler.ejected index ∨ sched.activeHealth = .unhealthy then some .unhealthy
  else if flagAt scheduler.ramping index then some .degraded
  else some .healthy

def SchedulerStats.countTransition (stats : SchedulerStats) : Transition → SchedulerStats
  | .toHealthy =>
    { stats with transitionsToHealthy := saturatingAdd64 stats.transitionsToHealthy 1 }
  | .toUnhealthy =>
    { stats with transitionsToUnhealthy := saturatingAdd64 stats.transitionsToUnhealthy 1 }
  | .none => stats

def settleReport (scheduler : HealthScheduler) (index : Nat) : HealthScheduler :=
  let wasStuck := flagAt scheduler.stuck index
  { scheduler with
    inflight := scheduler.inflight.set index false
    inflightCount := scheduler.inflightCount - 1
    stuck := if wasStuck then scheduler.stuck.set index false else scheduler.stuck
    stats := { scheduler.stats with
      checksReported := saturatingAdd64 scheduler.stats.checksReported 1
      stuckInflight :=
        if wasStuck then scheduler.stats.stuckInflight - 1 else scheduler.stats.stuckInflight } }

variable {Source : Type}

/-- `record`: the scheduler, the transition and what is published. -/
def record (rng : Rng Source) (scheduler : HealthScheduler) (now : Millis) (report : CheckReport)
    (source : Source) :
    HealthScheduler × Option Transition × Option EndpointHealth × Source :=
  let index := report.endpoint
  if scheduler.len ≤ index ∨ scheduler.endpointIds[index]? ≠ some report.endpointId then
    ({ scheduler with
        stats := { scheduler.stats with
          reportsForUnknownEndpoint :=
            saturatingAdd64 scheduler.stats.reportsForUnknownEndpoint 1 } },
      none, none, source)
  else if flagAt scheduler.inflight index = false then
    ({ scheduler with
        stats := { scheduler.stats with
          reportsWithoutInflight := saturatingAdd64 scheduler.stats.reportsWithoutInflight 1 } },
      none, none, source)
  else
    let scheduler := scheduler.settleReport index
    let cfg := scheduler.cfg
    let sched :=
      if report.reconnected then scheduler.sched.modify index noteReconnected
      else scheduler.sched
    let transition :=
      (sched[index]?.map fun sched => (sched.applyOutcome report.outcome cfg).2).getD .none
    let sched := sched.modify index fun sched => (sched.applyOutcome report.outcome cfg).1
    let sched := sched.modify index fun sched => sched.advanceNominal now cfg
    let (time, source) :=
      (sched[index]?.map fun sched => sched.fireAt rng now cfg source).getD
        (now.addMs scheduler.effectiveIntervalMs, source)
    let wheel :=
      match scheduler.wheel.schedule index time with
      | .ok wheel => wheel
      | .error _ => scheduler.wheel.rearm index (now.addMs scheduler.effectiveIntervalMs)
    let scheduler :=
      { scheduler with
        sched
        wheel
        stats := SchedulerStats.countTransition scheduler.stats transition }
    (scheduler, some transition, scheduler.publish index, source)

/-! ## Settings -/

def setEjected (scheduler : HealthScheduler) (index : Nat) (ejected : Bool) :
    HealthScheduler × Option EndpointHealth :=
  let scheduler := { scheduler with ejected := scheduler.ejected.set index ejected }
  (scheduler, scheduler.publish index)

def setRamping (scheduler : HealthScheduler) (index : Nat) (ramping : Bool) :
    HealthScheduler × Option EndpointHealth :=
  let scheduler := { scheduler with ramping := scheduler.ramping.set index ramping }
  (scheduler, scheduler.publish index)

def setDraining (scheduler : HealthScheduler) (index : Nat) (draining : Bool) :
    HealthScheduler × Option EndpointHealth :=
  let scheduler := { scheduler with draining := scheduler.draining.set index draining }
  (scheduler, scheduler.publish index)

/-- One turn of the loop of `set_has_traffic`. -/
def retime (rng : Rng Source) (now : Millis) (interval : Nat)
    (state : HealthScheduler × Source) (index : Nat) : HealthScheduler × Source :=
  let (scheduler, source) := state
  let sched := scheduler.sched.modify index fun sched => sched.setHasTraffic scheduler.hasTraffic
  if flagAt scheduler.inflight index then ({ scheduler with sched }, source)
  else
    let endpointId := scheduler.endpointIds[index]?.getD 0
    let nominal := now.addMs (phaseMs scheduler.instanceId endpointId interval)
    let sched := sched.modify index fun sched => { sched with nominal }
    let (time, source) :=
      (sched[index]?.map fun sched => sched.fireAt rng now scheduler.cfg source).getD
        (now.addMs interval, source)
    ({ scheduler with sched, wheel := scheduler.wheel.rearm index time }, source)

def setHasTraffic (rng : Rng Source) (scheduler : HealthScheduler) (hasTraffic : Bool)
    (now : Millis) (source : Source) : HealthScheduler × Source :=
  if hasTraffic = scheduler.hasTraffic then (scheduler, source)
  else
    let scheduler := { scheduler with hasTraffic }
    let interval := scheduler.cfg.intervalFor (if hasTraffic then .edge else .noTraffic)
    (range scheduler.sched.length).foldl (retime rng now interval) (scheduler, source)

def setDeferMs (scheduler : HealthScheduler) (ms : Nat) : HealthScheduler :=
  { scheduler with deferMs := min (max ms 1) 60000 }

def setMaxCatchupMs (scheduler : HealthScheduler) (ms : Nat) : HealthScheduler :=
  { scheduler with wheel := scheduler.wheel.setMaxCatchupMs (min (max ms 1) 60000) }

/-! ## Membership -/

structure CarriedEndpointState where
  inflight : Bool
  dispatchedAt : Millis
  stuck : Bool
  releaseStuckGauge : Bool
  rearmAt : Millis

def carryEndpointState (indexMoved wasInflight wasStuck : Bool) (wasDispatchedAt nominal : Millis)
    (rearmIntervalMs : Nat) (now : Millis) : CarriedEndpointState where
  inflight := !indexMoved && wasInflight
  dispatchedAt := if indexMoved then 0 else wasDispatchedAt
  stuck := !indexMoved && wasStuck
  releaseStuckGauge := indexMoved && wasStuck
  rearmAt := if indexMoved && wasInflight then now.addMs rearmIntervalMs else nominal

def oldIndex (ids : List UInt64) (id : UInt64) : Option Nat :=
  ids.zipIdx.foldl (fun hit entry => if entry.1 = id then some entry.2 else hit) none

/-- The vectors of the new membership while they grow, and the old indices that were
carried over. -/
structure Rebuilding where
  wheel : TimerWheel
  stuckInflight : Nat
  sched : List EndpointSchedule
  endpointIds : List UInt64
  ejected : List Bool
  ramping : List Bool
  draining : List Bool
  inflight : List Bool
  dispatchedAt : List Millis
  stuck : List Bool
  inflightCount : Nat
  oldCarried : List Bool

/-- An endpoint that was there before, at old index `old`. -/
def carryOver (scheduler : HealthScheduler) (now : Millis) (new : Rebuilding) (id : UInt64)
    (index old : Nat) : Rebuilding :=
  let carried := scheduler.sched[old]?.getD
    (.initWithEffectiveInterval now scheduler.instanceId id scheduler.effectiveIntervalMs
      scheduler.hasTraffic)
  let state := carryEndpointState (index != old) (flagAt scheduler.inflight old)
    (flagAt scheduler.stuck old) (scheduler.dispatchedAt[old]?.getD 0) carried.nominal
    (scheduler.cfg.intervalFor carried.intervalState) now
  { wheel := new.wheel.rearm index state.rearmAt
    stuckInflight := if state.releaseStuckGauge then new.stuckInflight - 1 else new.stuckInflight
    sched := new.sched ++ [{ carried with nominal := state.rearmAt }]
    endpointIds := new.endpointIds ++ [id]
    ejected := new.ejected ++ [flagAt scheduler.ejected old]
    ramping := new.ramping ++ [flagAt scheduler.ramping old]
    draining := new.draining ++ [flagAt scheduler.draining old]
    inflight := new.inflight ++ [state.inflight]
    dispatchedAt := new.dispatchedAt ++ [state.dispatchedAt]
    stuck := new.stuck ++ [state.stuck]
    inflightCount :=
      if state.inflight then saturatingAdd32 new.inflightCount 1 else new.inflightCount
    oldCarried := new.oldCarried.set old true }

def addFresh (scheduler : HealthScheduler) (now : Millis) (new : Rebuilding) (id : UInt64)
    (index : Nat) : Rebuilding :=
  let fresh := initWithEffectiveInterval now scheduler.instanceId id
    scheduler.effectiveIntervalMs scheduler.hasTraffic
  { wheel := new.wheel.rearm index fresh.nominal
    stuckInflight := new.stuckInflight
    sched := new.sched ++ [fresh]
    endpointIds := new.endpointIds ++ [id]
    ejected := new.ejected ++ [false]
    ramping := new.ramping ++ [false]
    draining := new.draining ++ [false]
    inflight := new.inflight ++ [false]
    dispatchedAt := new.dispatchedAt ++ [0]
    stuck := new.stuck ++ [false]
    inflightCount := new.inflightCount
    oldCarried := new.oldCarried }

/-- One turn of the loop of `rebuild`. -/
def rebuildOne (scheduler : HealthScheduler) (now : Millis) (new : Rebuilding)
    (entry : UInt64 × Nat) : Rebuilding :=
  match oldIndex scheduler.endpointIds entry.1 with
  | some old => carryOver scheduler now new entry.1 entry.2 old
  | none => addFresh scheduler now new entry.1 entry.2

/-- `release_stuck_gauge_for_removed`. -/
def releaseStuckGaugeForRemoved (stuckInflight : Nat) (stuck oldCarried : List Bool) : Nat :=
  oldCarried.zipIdx.foldl
    (fun gauge entry => if !entry.1 && flagAt stuck entry.2 then gauge - 1 else gauge)
    stuckInflight

def rebuild (scheduler : HealthScheduler) (now : Millis) (endpointIds : List UInt64) :
    Except ConfigError HealthScheduler := do
  if maxEndpoints < endpointIds.length then throw (tooManyEndpoints endpointIds.length)
  rejectDuplicateIds endpointIds
  let oldLen := scheduler.sched.length
  let start : Rebuilding :=
    { wheel := scheduler.wheel
      stuckInflight := scheduler.stats.stuckInflight
      sched := []
      endpointIds := []
      ejected := []
      ramping := []
      draining := []
      inflight := []
      dispatchedAt := []
      stuck := []
      inflightCount := 0
      oldCarried := replicate oldLen false }
  let new := endpointIds.zipIdx.foldl (rebuildOne scheduler now) start
  let wheel := (range' endpointIds.length (oldLen - endpointIds.length)).foldl
    (fun wheel index => (wheel.cancel index).1) new.wheel
  return { scheduler with
    wheel
    sched := new.sched
    endpointIds := new.endpointIds
    ejected := new.ejected
    ramping := new.ramping
    draining := new.draining
    inflight := new.inflight
    dispatchedAt := new.dispatchedAt
    stuck := new.stuck
    inflightCount := new.inflightCount
    deferCursor := now
    stats := { scheduler.stats with
      stuckInflight :=
        releaseStuckGaugeForRemoved new.stuckInflight scheduler.stuck new.oldCarried } }

end HealthScheduler

end IronTraffic.Health
