import IronTraffic.Dataplane.Pumping

/-! # What a tunnel delivers

Every run of the forwarding loop, in every environment, forwards the streams of both sides
without losing, repeating, reordering or truncating bytes.
-/

namespace IronTraffic.Dataplane

open Tunnel

open List

section Delivery

variable {World Failure : Type}

def ForwardStats.total (stats : ForwardStats) : Side → Nat
  | .client => stats.clientToUpstream
  | .upstream => stats.upstreamToClient

def reported :
    Except (ForwardError Failure) (ForwardStats × EndReason) → ForwardStats
  | .ok (stats, _) => stats
  | .error error => error.stats

/-- What is promised of the log of a run, and of its result if it is done. -/
structure Delivers (limits : ForwardLimits) (log : List (Event Failure))
    (result : Option (Except (ForwardError Failure) (ForwardStats × EndReason))) : Prop where
  orderly : Orderly log
  /-- The normal ending: each source was read to its end, and its destination accepted all. -/
  whole : ∀ stats, result = some (.ok (stats, .bothEof)) →
    ∀ src : Side, AtEnd src log ∧ accepted src.other log = delivered src log
  /-- The totals are the bytes that were accepted, and saturate. -/
  totals : ∀ answer, result = some answer →
    ∀ src : Side, (reported answer).total src = min (accepted src.other log).length (2 ^ 64 - 1)
  below_cap : ∀ cap ∈ limits.maxBytesPerDirection,
    ∀ src : Side, (accepted src.other log).length < cap.toNat + chunkSize

variable {env : Environment World Failure} {limits : ForwardLimits}
  {tunnel : Tunnel World Failure}

def Tunnel.half (tunnel : Tunnel World Failure) : Side → Half
  | .client => tunnel.c2u
  | .upstream => tunnel.u2c

lemma Tunnel.Sound.tracks_half (sound : tunnel.Sound limits) (src : Side) :
    Tracks limits src (tunnel.half src) tunnel.log := by
  cases src with
  | client => exact Dataplane.Sound.tracks sound
  | upstream => exact Dataplane.Sound.tracksOther sound

lemma Tunnel.stats_total (tunnel : Tunnel World Failure) (src : Side) :
    tunnel.stats.total src = (tunnel.half src).total := by
  cases src <;> rfl

/-- The streams are forwarded faithfully, whatever the environment does and however often the
loop is polled. -/
theorem forwardBidirectional_delivers (lawful : env.Lawful) (limits : ForwardLimits)
    (world : World) (count : Nat) :
    Delivers limits (forwardBidirectional env limits world count).1.log
      (forwardBidirectional env limits world count).2 := by
  have starts : (start env limits world).Sound limits := start_sound world
  have run := polls_sound lawful count starts
  unfold forwardBidirectional
  simp only
  generalize (start env limits world).polls env limits count = ended at run
  rcases run with ⟨sound, reports⟩
  have tracks := sound.tracks_half
  refine ⟨sound.orderly, ?_, ?_, ?_⟩
  · intro stats isResult src
    rcases Option.map_eq_some_iff.mp isResult with ⟨result, isSome, isOk⟩
    cases result with
    | error error => cases isOk
    | ok reason =>
      have isEof : reason = .bothEof := (Prod.mk.inj (Except.ok.inj isOk)).2
      subst isEof
      have ends := (reports _ isSome).ended rfl
      have isEnd : (ended.1.half src).srcEof = true ∧ (ended.1.half src).capped = false := by
        cases src with
        | client => exact ⟨ends.1, ends.2.2.1⟩
        | upstream => exact ⟨ends.2.1, ends.2.2.2⟩
      refine ⟨?_, ?_⟩
      · rcases (tracks src).at_end isEnd.1 with capped | atEnd
        · rw [isEnd.2] at capped
          cases capped
        · exact atEnd
      · rw [(tracks src).sync, (tracks src).end_empty isEnd.1, append_nil]
  · intro answer isAnswer src
    rcases Option.map_eq_some_iff.mp isAnswer with ⟨result, isSome, rfl⟩
    have isReported : reported (result.map fun reason => (ended.1.stats, reason)) =
        ended.1.stats := by
      cases result with
      | ok reason => rfl
      | error error => exact (reports _ isSome).error_stats error rfl
    rw [isReported, stats_total]
    exact (tracks src).total_eq
  · intro cap isCap src
    have below := (tracks src).below_cap cap isCap
    omega

end Delivery

/-! ## A short tunnel -/

/-- The client sends as many pairs of bytes as the world counts, the upstream sends nothing, and
writes accept one byte at a time. -/
def slowWriter : Environment Nat Unit where
  pollRead world side size :=
    match side, world with
    | .client, pairs + 1 => (pairs, .filled ([1, 2].take size))
    | _, _ => (world, .filled [])
  pollWrite world _ bytes := (world, .accepted (min 1 bytes.length))
  pollShutdown world _ := (world, .finished)
  isClosing world := (world, false)
  sleep world _ := world
  pollSleep world _ := (world, false)

lemma slowWriter_lawful : slowWriter.Lawful := by
  constructor
  · intro world side size bytes isFilled
    cases side <;> cases world <;> cases isFilled <;> simp [length_take]
  · intro world side bytes count isAccepted
    cases isAccepted
    exact min_le_right _ _

theorem slowWriter_delivers :
    slowWriter.Lawful ∧ (forwardBidirectional slowWriter ⟨some 9, false⟩ 1 1).2 =
        some (.ok (⟨2, 0, 1, 2⟩, .bothEof)) ∧
      Delivers ⟨some 9, false⟩ (forwardBidirectional slowWriter ⟨some 9, false⟩ 1 1).1.log
        (forwardBidirectional slowWriter ⟨some 9, false⟩ 1 1).2 :=
  ⟨slowWriter_lawful, by decide +kernel,
    forwardBidirectional_delivers slowWriter_lawful ⟨some 9, false⟩ 1 1⟩

/-! ## A tunnel that runs for very long -/

/-- The client sends without end, the upstream takes everything and sends nothing, and the
process closes after the given number of rounds. -/
def endless (rounds : Nat) : Environment Nat Unit where
  pollRead world side size :=
    match side with
    | .client => (world, .filled (replicate size 0))
    | .upstream => (world, .pending)
  pollWrite world _ bytes := (world, .accepted bytes.length)
  pollShutdown world _ := (world, .pending)
  isClosing world := (world + 1, decide (world = rounds))
  sleep world _ := world
  pollSleep world _ := (world, false)

lemma endless_lawful (rounds : Nat) : (endless rounds).Lawful := by
  constructor
  · intro world side size bytes isFilled
    cases side with
    | client =>
      cases isFilled
      simp
    | upstream => cases isFilled
  · intro world side bytes count isAccepted
    cases isAccepted
    exact le_refl _

def unlimited : ForwardLimits := ⟨none, false⟩

def fullHalf (total : Nat) : Half :=
  ⟨some (replicate chunkSize 0), chunkSize, 0, false, false, false, total⟩

lemma endless_read (rounds : Nat) (start : Pump Nat Unit)
    (idle : start.half = { Half.default with total := start.half.total }) :
    readOrShutdown (endless rounds) .client start = ({ start with
        half := fullHalf start.half.total
        log := start.log ++ [.read .client (.filled (replicate chunkSize 0))]
        reads := saturatingAdd64 start.reads 1
        progress := true }, .ready false) := by
  have chunk : replicate chunkSize (0 : UInt8) = 0 :: replicate 32767 0 := rfl
  have isRead : ((endless rounds).pollRead start.world .client chunkSize) =
      (start.world, .filled (0 :: replicate 32767 0)) := by
    rfl
  simp only [readOrShutdown, readSecond, isRead]
  rw [idle, ← chunk, take_of_length_le (by simp)]
  simp [fullHalf, Half.default]

lemma writeFirst_of_drained {Failure env} {start : Pump World Failure}
    (drained : start.half.filled ≤ start.half.written) (turns : Nat) :
    writeFirst env dst turns start = (start, none) := by
  cases turns with
  | zero => rfl
  | succ turns =>
    rw [writeFirst, if_neg (by omega)]

variable {total moved rounds : Nat} {tunnel : Tunnel Nat Unit}

lemma endless_write (rounds : Nat) (start : Pump Nat Unit) (full : start.half = fullHalf total) :
    writeFirst (endless rounds) .upstream chunkSize start = ({ start with
        half := (fullHalf total).advance chunkSize
        log := start.log ++ [.write .upstream (replicate chunkSize 0) (.accepted chunkSize)]
        writes := saturatingAdd64 start.writes 1
        progress := true }, none) := by
  have isPending : (fullHalf total).pending = replicate chunkSize 0 := rfl
  have isWrite : (endless rounds).pollWrite start.world .upstream (replicate chunkSize 0) =
      (start.world, .accepted (32767 + 1)) := by
    show (start.world, WritePoll.accepted (replicate chunkSize (0 : UInt8)).length) = _
    rw [length_replicate]
    rfl
  show writeFirst (endless rounds) .upstream (32767 + 1) start = _
  unfold writeFirst
  simp only [writeOnce, full, isPending, isWrite]
  rw [writeFirst_of_drained]
  · rfl
  · show chunkSize ≤ 0 + min chunkSize (fullHalf total).pending.length
    rw [isPending, length_replicate, min_self, zero_add]

lemma endless_pump (rounds : Nat) (start : Pump Nat Unit) (full : start.half = fullHalf total) :
    pump (endless rounds) unlimited .client start = ({ start with
        half := fullHalf (saturatingAdd64 total chunkSize)
        log := start.log ++ [.write .upstream (replicate chunkSize 0) (.accepted chunkSize)] ++
          [.read .client (.filled (replicate chunkSize 0))]
        writes := saturatingAdd64 start.writes 1
        reads := saturatingAdd64 start.reads 1
        progress := true }, .ready false) := by
  have turns : start.half.filled - start.half.written = chunkSize := by
    rw [full]
    rfl
  have moved : ((fullHalf total).advance chunkSize).release unlimited =
      { Half.default with total := saturatingAdd64 total chunkSize } := by
    simp [Half.advance, Half.release, fullHalf, Half.pending, Half.default, unlimited]
  have isOther : Side.client.other = .upstream := rfl
  rw [pump, turns, isOther, endless_write rounds start full]
  simp only
  rw [endless_read]
  · simp [moved]
  · simp [moved]

lemma endless_pump_back (rounds : Nat) (start : Pump Nat Unit) (idle : start.half = .default) :
    pump (endless rounds) unlimited .upstream start =
      ({ start with log := start.log ++ [.read .upstream .pending] }, .pending) := by
  have isRead : (endless rounds).pollRead start.world .upstream chunkSize =
      (start.world, .pending) := rfl
  have released : Half.default.release unlimited = .default := rfl
  rw [pump, writeFirst_of_drained (by rw [idle]; exact le_refl _)]
  simp only [idle, released, readOrShutdown, readSecond, isRead]
  rfl

/-- The endless stream after as many rounds as the world counts: from the first one on a buffer
is full, and each later one moved a buffer. -/
structure Streaming (tunnel : Tunnel Nat Unit) : Prop where
  ready : tunnel.world = 0 ∧ tunnel.c2u = .default ∨
    tunnel.world ≠ 0 ∧ ∃ total, tunnel.c2u = fullHalf total
  idle : tunnel.u2c = .default
  accepted_length : (accepted .upstream tunnel.log).length = (tunnel.world - 1) * chunkSize

lemma endless_settle (rounds : Nat) (full : tunnel.c2u = fullHalf total)
    (idle : tunnel.u2c = .default) :
    tunnel.settle (endless rounds) unlimited true (.ready false) .pending =
      ({ tunnel with world := tunnel.world + 1 },
        if tunnel.world = rounds then .ready (.ok .closing) else .again) := by
  have armed : tunnel.armHalfClose (endless rounds) = tunnel := by
    rw [armHalfClose, full, idle]
    rfl
  have quiet : ∀ isArmed alarm world,
      (endless rounds).pollArmed isArmed alarm world = (world, false) := by
    intro isArmed alarm world
    cases isArmed <;> rfl
  have interrupted : (endless rounds).interrupt unlimited tunnel.halfArmed tunnel.world =
      (tunnel.world + 1, if tunnel.world = rounds then some .closing else none) := by
    have isClosing : (endless rounds).isClosing tunnel.world =
        (tunnel.world + 1, decide (tunnel.world = rounds)) := rfl
    rw [Environment.interrupt, isClosing]
    by_cases closes : tunnel.world = rounds
    · simp only [closes, decide_true, if_true]
    · simp only [closes, decide_false, quiet, if_false]
  have asleep : ∀ world, (endless rounds).pollSleep world .idle = (world, false) := fun _ => rfl
  simp only [settle, PumpPoll.error, PumpPoll.finished, deadlines, armed,
    interrupted, Bool.false_and, Bool.false_eq_true, if_false]
  by_cases closes : tunnel.world = rounds
  · simp only [if_pos closes]
  · simp only [if_neg closes, idleDeadline, asleep, if_true]

lemma endless_pump_first (rounds : Nat) (streaming : Streaming tunnel) :
    ∃ total log reads writes, (accepted .upstream log).length = tunnel.world * chunkSize ∧
      pump (endless rounds) unlimited .client
        ⟨tunnel.c2u, tunnel.world, tunnel.log, tunnel.reads, tunnel.writes, false⟩ =
          (⟨fullHalf total, tunnel.world, log, reads, writes, true⟩, .ready false) := by
  have length := streaming.accepted_length
  rcases streaming.ready with ⟨first, empty⟩ | ⟨later, total, full⟩
  · rw [empty]
    refine ⟨_, _, _, _, ?_, endless_read rounds
      ⟨.default, tunnel.world, tunnel.log, tunnel.reads, tunnel.writes, false⟩ rfl⟩
    simpa [Event.accepts, first] using length
  · refine ⟨_, _, _, _, ?_, endless_pump rounds _ full⟩
    simp only [accepted_snoc, length_append, length, Event.accepts,
      length_nil, if_true, length_take, length_replicate, min_self]
    rw [add_zero, ← Nat.succ_mul, Nat.succ_eq_add_one,
      Nat.sub_add_cancel (Nat.one_le_iff_ne_zero.mpr later)]

lemma endless_round (rounds : Nat) (streaming : Streaming tunnel) :
    Streaming (tunnel.round (endless rounds) unlimited).1 ∧
      (tunnel.round (endless rounds) unlimited).1.world = tunnel.world + 1 ∧
      (tunnel.round (endless rounds) unlimited).2 =
        if tunnel.world = rounds then .ready (.ok .closing) else .again := by
  rcases endless_pump_first rounds streaming with ⟨total, log, reads, writes, length, first⟩
  have second := endless_pump_back rounds
    ⟨tunnel.u2c, tunnel.world, log, reads, writes, true⟩ streaming.idle
  simp only [Tunnel.round, Tunnel.pumpBoth, first, second, if_true]
  rw [endless_settle rounds (by rfl) (by exact streaming.idle)]
  refine ⟨⟨.inr ⟨Nat.succ_ne_zero _, total, rfl⟩, streaming.idle, ?_⟩, rfl, rfl⟩
  simpa [Event.accepts] using length

/-- The stream after some turns: it goes on until the process closes. -/
def Streamed (rounds turns : Nat) (tunnel : Tunnel Nat Unit)
    (ended : Tunnel Nat Unit × Option (Except (ForwardError Unit) EndReason)) : Prop :=
  Streaming ended.1 ∧
    (ended.2 = none ∧ ended.1.world = tunnel.world + turns ∧ ended.1.world ≤ rounds ∨
      ended.2 = some (.ok .closing) ∧ ended.1.world = rounds + 1)

lemma endless_poll (turns : Nat) (streaming : Streaming tunnel) (early : tunnel.world ≤ rounds) :
    Streamed rounds turns tunnel (tunnel.poll (endless rounds) unlimited turns) := by
  induction turns generalizing tunnel with
  | zero => exact ⟨streaming, .inl ⟨rfl, rfl, early⟩⟩
  | succ turns induction =>
    rcases endless_round rounds streaming with ⟨after, world, ends⟩
    unfold poll
    generalize tunnel.round (endless rounds) unlimited = round at after world ends
    rcases round with ⟨next, ending⟩
    have world : next.world = tunnel.world + 1 := world
    by_cases closes : tunnel.world = rounds
    · rw [if_pos closes] at ends
      subst ends
      exact ⟨after, .inr ⟨rfl, by rw [world, closes]⟩⟩
    · rw [if_neg closes] at ends
      subst ends
      rcases induction after (by omega) with ⟨later, ⟨isNone, turned, before⟩ | closed⟩
      · exact ⟨later, .inl ⟨isNone, turned.trans (by omega), before⟩⟩
      · exact ⟨later, .inr closed⟩

lemma endless_polls (count : Nat) (streaming : Streaming tunnel) (early : tunnel.world ≤ rounds) :
    Streamed rounds (maxPumpRounds * count) tunnel
      (tunnel.polls (endless rounds) unlimited count) := by
  induction count generalizing tunnel with
  | zero => exact ⟨streaming, .inl ⟨rfl, rfl, early⟩⟩
  | succ count induction =>
    have polled := endless_poll maxPumpRounds streaming early
    rw [polls]
    generalize tunnel.poll (endless rounds) unlimited maxPumpRounds = poll at polled
    rcases poll with ⟨next, answer⟩
    rcases polled with ⟨after, ⟨isNone, turned, before⟩ | ⟨isSome, world⟩⟩
    · subst isNone
      rcases induction after before with ⟨later, ⟨isNone, turnedAgain, inTime⟩ | closed⟩
      · refine ⟨later, .inl ⟨isNone, ?_, inTime⟩⟩
        rw [turnedAgain, turned, Nat.mul_succ]
        omega
      · exact ⟨later, .inr closed⟩
    · subst isSome
      exact ⟨after, .inr ⟨rfl, world⟩⟩

lemma endless_report {count : Nat} (enough : rounds < maxPumpRounds * count) :
    ∃ stats, (forwardBidirectional (endless rounds) unlimited 0 count).2 =
        some (.ok (stats, .closing)) ∧
      (accepted .upstream (forwardBidirectional (endless rounds) unlimited 0 count).1.log).length =
        rounds * chunkSize ∧ stats.clientToUpstream = min (rounds * chunkSize) (2 ^ 64 - 1) := by
  have started : Streaming (start (endless rounds) unlimited 0) :=
    ⟨.inl ⟨rfl, rfl⟩, rfl, (Nat.zero_mul chunkSize).symm⟩
  have starts : (start (endless rounds) unlimited 0).Sound unlimited := start_sound 0
  have sound := (polls_sound (endless_lawful rounds) count starts).1
  have total := (sound.tracks_half .client).total_eq
  have isOther : Side.client.other = .upstream := rfl
  rcases endless_polls count started (Nat.zero_le rounds) with
    ⟨streaming, ⟨_, turned, before⟩ | ⟨closing, world⟩⟩
  · rw [turned] at before
    exact absurd (Nat.le_of_add_left_le before) (not_le.mpr enough)
  have length := streaming.accepted_length
  rw [world, Nat.add_sub_cancel] at length
  rw [isOther, length, ← stats_total] at total
  simp only [forwardBidirectional, closing]
  exact ⟨_, rfl, length, total⟩

/-- After `2 ^ 64` bytes in one direction the reported total is one too low. -/
theorem longStream_total_saturates :
    ∃ rounds count stats,
      (forwardBidirectional (endless rounds) unlimited 0 count).2 = some (.ok (stats, .closing)) ∧
      (accepted .upstream (forwardBidirectional (endless rounds) unlimited 0 count).1.log).length =
        2 ^ 64 ∧
      stats.clientToUpstream = 2 ^ 64 - 1 := by
  -- eight rounds a poll, and one buffer of `2 ^ 15` bytes a round
  have bytes : 2 ^ 49 * chunkSize = 2 ^ 64 := by norm_num [chunkSize]
  have enough : 2 ^ 49 < maxPumpRounds * (2 ^ 46 + 1) := by norm_num [maxPumpRounds]
  rcases endless_report enough with ⟨stats, closing, length, total⟩
  rw [bytes] at length total
  exact ⟨_, _, stats, closing, length, total⟩

end IronTraffic.Dataplane
