import IronTraffic.Tls.Coalescer

/-! # The OCSP updater

The updater asks a responder about each tracked credential and returns updates for the
coalescer: a new staple, or the removal of the names of a revoked credential. The requests,
the check of responses and the transport are arbitrary functions.
-/

namespace IronTraffic.Tls

structure OcspConfig where
  marginSecs : Nat
  maxIntervalSecs : Nat
  minIntervalSecs : Nat
  backoffBaseSecs : Nat
  backoffMaxSecs : Nat
  failAfter : Nat
  skewSecs : Nat
  noNextUpdateTtlSecs : Nat
  maxFetchesPerTick : Nat

def OcspConfig.default : OcspConfig where
  marginSecs := 3600
  maxIntervalSecs := 86400
  minIntervalSecs := 300
  backoffBaseSecs := 60
  backoffMaxSecs := 21600
  failAfter := 8
  skewSecs := 300
  noNextUpdateTtlSecs := 3600
  maxFetchesPerTick := 8

structure StapleInfo where
  thisUpdate : Nat
  nextUpdate : Option Nat

/-- Why a response is refused; the updater only asks whether the certificate is revoked. -/
inductive OcspError where
  | certificateRevoked (revocationTime : Nat)
  | other

inductive TrackedState where
  | noResponder | stapled | pending | failed | revoked
  deriving DecidableEq

structure Tracked where
  cred : Address
  fingerprint : CertFingerprint
  aiaUrl : Option Bytes
  mustStaple : Bool
  names : List Bytes
  state : TrackedState
  nextAttempt : Nat
  consecutiveFailures : Nat
  currentNextUpdate : Option Nat

def maxStapleBytes : Nat := 65536

def Credentials.withStaple (credentials : Credentials) (staple : Bytes) : Credentials :=
  { credentials with staple := if maxStapleBytes < staple.length then none else some staple }

/-- What a tick meets outside the updater. `call` counts the random words drawn so far, so
that a responder may answer each fetch differently; `restaple` is where the credential with a
good response is allocated. -/
structure Responder (heap : Heap) where
  random : Nat → Nat
  buildRequest : Credentials → Nat × Nat → Option Bytes
  validateAiaUrl : Bytes → Bool
  fetch : (call : Nat) → (url request : Bytes) → Option Bytes
  validateStaple : (response : Bytes) → Credentials → Nat × Nat → (now : Nat) →
    Except OcspError StapleInfo
  restaple : Address → Bytes → Address
  restaple_spec : ∀ cred response nonce now info,
    validateStaple response (heap cred) nonce now = .ok info →
    heap (restaple cred response) = (heap cred).withStaple response

def fingerprintSeed (fingerprint : CertFingerprint) : Nat :=
  (fingerprint.take 8).foldl (fun seed byte => seed * 256 + byte.toNat) 0

def backoff (failures base ceiling random : Nat) : Nat :=
  let shift := min (failures - 1) 31
  let capped := min (base * 2 ^ shift) ceiling
  capped * (500 + random % 501) / 1000

def refreshDelay (info : StapleInfo) (now : Nat) (cfg : OcspConfig) : Nat :=
  let effectiveNextUpdate :=
    info.nextUpdate.getD (saturatingAdd64 info.thisUpdate cfg.noNextUpdateTtlSecs)
  let raw := effectiveNextUpdate - now - cfg.marginSecs
  if raw < cfg.minIntervalSecs then cfg.minIntervalSecs
  else if cfg.maxIntervalSecs < raw then cfg.maxIntervalSecs
  else raw

def recordFailure (tracked : Tracked) (now : Nat) (cfg : OcspConfig) (random : Nat) : Tracked :=
  let failures := min (tracked.consecutiveFailures + 1) (2 ^ 32 - 1)
  let delay := backoff failures cfg.backoffBaseSecs cfg.backoffMaxSecs random
  { tracked with
    consecutiveFailures := failures
    nextAttempt := saturatingAdd64 now delay
    state := if cfg.failAfter ≤ failures then .failed else tracked.state }

structure OcspUpdater where
  tracked : List Tracked
  cfg : OcspConfig

namespace OcspUpdater

def new (cfg : OcspConfig) : OcspUpdater := ⟨[], cfg⟩

def track (heap : Heap) (updater : OcspUpdater) (cred : Address) (aiaUrl : Option Bytes)
    (now : Nat) : OcspUpdater :=
  let fingerprint := (heap cred).fingerprint
  if updater.tracked.any fun tracked => tracked.fingerprint = fingerprint then updater
  else
    let spread := fingerprintSeed fingerprint % max updater.cfg.minIntervalSecs 1
    { updater with
      tracked := updater.tracked ++ [{
        cred
        fingerprint
        aiaUrl
        mustStaple := (heap cred).mustStaple
        names := (heap cred).sanDnsNames
        state := if aiaUrl.isNone then .noResponder else .pending
        nextAttempt := saturatingAdd64 now spread
        consecutiveFailures := 0
        currentNextUpdate := none }] }

def untrack (updater : OcspUpdater) (fingerprint : CertFingerprint) : OcspUpdater :=
  { updater with
    tracked := updater.tracked.filter fun tracked => tracked.fingerprint ≠ fingerprint }

def due (updater : OcspUpdater) (now : Nat) : List Nat :=
  let positions := (List.range updater.tracked.length).filter fun spot =>
    updater.tracked[spot]?.any fun tracked =>
      decide (tracked.state ∉ [.noResponder, .revoked, .failed]) &&
        decide (tracked.nextAttempt ≤ now)
  let attempt := fun spot => (updater.tracked[spot]?.map Tracked.nextAttempt).getD 0
  (sortBy attempt positions).take updater.cfg.maxFetchesPerTick

inductive Answer where
  | noUrl
  | hopeless
  | failure
  | stapled (response : Bytes) (info : StapleInfo)
  | revoked

def ask {heap : Heap} (responder : Responder heap) (now draws : Nat) (tracked : Tracked) :
    Answer :=
  match tracked.aiaUrl with
  | none => .noUrl
  | some url =>
    let nonce := (responder.random draws, responder.random (draws + 1))
    match responder.buildRequest (heap tracked.cred) nonce with
    | none => .hopeless
    | some request =>
      if responder.validateAiaUrl url = false then .hopeless
      else
        match responder.fetch draws url request with
        | none => .failure
        | some response =>
          match responder.validateStaple response (heap tracked.cred) nonce now with
          | .ok info => .stapled response info
          | .error (.certificateRevoked _) => .revoked
          | .error .other => .failure

structure TickState where
  tracked : List Tracked
  updates : List CertUpdate
  draws : Nat

def settle {heap : Heap} (responder : Responder heap) (cfg : OcspConfig) (now draws : Nat)
    (tracked : Tracked) : Answer → Tracked
  | .noUrl => tracked
  | .hopeless => { tracked with state := .failed }
  | .failure => recordFailure tracked now cfg (responder.random draws)
  | .stapled response info =>
    { tracked with
      state := .stapled
      consecutiveFailures := 0
      currentNextUpdate := info.nextUpdate
      nextAttempt := saturatingAdd64 now (refreshDelay info now cfg)
      cred := responder.restaple tracked.cred response }
  | .revoked => { tracked with state := .revoked }

def updateFor {heap : Heap} (responder : Responder heap) (tracked : Tracked) :
    Answer → List CertUpdate
  | .stapled response _ =>
    [.replace tracked.fingerprint (responder.restaple tracked.cred response)]
  | .revoked => [.remove tracked.names]
  | _ => []

def drawsFor : Answer → Nat
  | .noUrl => 0
  | .failure => 3
  | _ => 2

/-- One turn of the first loop of `tick`. -/
def attempt {heap : Heap} (responder : Responder heap) (cfg : OcspConfig) (now : Nat)
    (state : TickState) (spot : Nat) : TickState :=
  match state.tracked[spot]? with
  | none => state
  | some tracked =>
    let answer := ask responder now state.draws tracked
    { tracked := state.tracked.set spot
        (settle responder cfg now (state.draws + 2) tracked answer)
      updates := state.updates ++ updateFor responder tracked answer
      draws := state.draws + drawsFor answer }

def stale (cfg : OcspConfig) (now : Nat) (tracked : Tracked) : Bool :=
  tracked.mustStaple && decide (tracked.state ≠ .stapled) &&
    tracked.currentNextUpdate.any fun nextUpdate =>
      decide (saturatingAdd64 nextUpdate cfg.skewSecs < now)

/-- The second loop of `tick`. -/
def sweep (cfg : OcspConfig) (now : Nat) (tracked : Tracked) : Tracked :=
  if stale cfg now tracked then
    { tracked with state := .failed, currentNextUpdate := none }
  else tracked

def tick {heap : Heap} (responder : Responder heap) (updater : OcspUpdater) (now : Nat) :
    OcspUpdater × List CertUpdate :=
  let asked := (updater.due now).foldl (attempt responder updater.cfg now) ⟨updater.tracked, [], 0⟩
  ({ updater with tracked := asked.tracked.map (sweep updater.cfg now) }, asked.updates ++
      (asked.tracked.filter (stale updater.cfg now)).map fun tracked => .remove tracked.names)

end OcspUpdater

end IronTraffic.Tls
