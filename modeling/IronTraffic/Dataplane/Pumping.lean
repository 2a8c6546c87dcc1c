import IronTraffic.Dataplane.Streams

/-! # Pumping keeps the streams in order

Every step of a pump keeps what both directions know of the log, and so do rounds, polls and
whole runs of the loop.
-/

namespace IronTraffic.Dataplane

open Tunnel

open List

variable {after : Half}

section Steps

variable {World Failure : Type} {env : Environment World Failure}
  {limits : ForwardLimits} {src : Side} {half other : Half} {log : List (Event Failure)}

/-- Both directions track the log, and the log is orderly. -/
structure Sound (limits : ForwardLimits) (src : Side) (half other : Half)
    (log : List (Event Failure)) : Prop where
  tracks : Tracks limits src half log
  tracksOther : Tracks limits src.other other log
  orderly : Orderly log

lemma Sound.call (sound : Sound limits src half other log) {event}
    (belongs : event.BelongsTo src) (allowed : Allowed log event)
    (tracks : Tracks limits src after (log ++ [event])) :
    Sound limits src after other (log ++ [event]) := by
  have tracksOther := sound.tracksOther.frame belongs
  exact ⟨tracks, tracksOther, sound.orderly.snoc allowed (inStep_of_tracks tracks tracksOther)⟩

lemma Sound.swap (sound : Sound limits src half other log) :
    Sound limits src.other other half log := by
  refine ⟨sound.tracksOther, ?_, sound.orderly⟩
  rw [other_other]
  exact sound.tracks

/-! ## The steps of a pump -/

lemma Sound.wrote (sound : Sound limits src half other log)
    (tracks : Tracks limits src after (log ++ [.write src.other offered answer])) :
    Sound limits src after other (log ++ [.write src.other offered answer]) := by
  refine sound.call ?_ ?_ tracks
  · rfl
  · trivial

lemma writeOnce_sound (lawful : env.Lawful) {start : Pump World Failure}
    (sound : Sound limits src start.half other start.log) :
    Sound limits src (writeOnce env src.other start).1.half other
      (writeOnce env src.other start).1.log := by
  have offers := lawful.write_le start.world src.other start.half.pending
  cases isAnswer : (env.pollWrite start.world src.other start.half.pending).2 with
  | pending | failed failure =>
    simp only [writeOnce, isAnswer]
    exact sound.wrote (sound.tracks.silent rfl rfl nofun)
  | accepted count =>
    cases count with
    | zero =>
      simp only [writeOnce, isAnswer]
      refine sound.wrote (sound.tracks.silent rfl ?_ nofun)
      simp [Event.accepts]
    | succ count =>
      simp only [writeOnce, isAnswer]
      exact sound.wrote (sound.tracks.write (offers _ isAnswer))

lemma writeOnce_ne_finished {start : Pump World Failure} :
    (writeOnce env dst start).2 ≠ some (.ready true) := by
  cases isAnswer : (env.pollWrite start.world dst start.half.pending).2 with
  | accepted count => cases count <;> simp [writeOnce, isAnswer]
  | pending | failed failure => simp [writeOnce, isAnswer]

lemma writeOnce_none {start next : Pump World Failure} (waiting : start.half.pending ≠ [])
    (goesOn : writeOnce env dst start = (next, none)) :
    start.half.written < next.half.written ∧ next.half.filled = start.half.filled := by
  have positive := length_pos_iff.mpr waiting
  cases isAnswer : (env.pollWrite start.world dst start.half.pending).2 with
  | pending | failed failure => simp [writeOnce, isAnswer] at goesOn
  | accepted count =>
    cases count with
    | zero => simp [writeOnce, isAnswer] at goesOn
    | succ count =>
      simp only [writeOnce, isAnswer, Prod.mk.injEq, and_true] at goesOn
      rw [← goesOn]
      simp only [Half.advance, and_true]
      omega

lemma writeFirst_sound (lawful : env.Lawful) (turns : Nat) {start : Pump World Failure}
    (sound : Sound limits src start.half other start.log) :
    Sound limits src (writeFirst env src.other turns start).1.half other
      (writeFirst env src.other turns start).1.log ∧
      (writeFirst env src.other turns start).2 ≠ some (.ready true) := by
  induction turns generalizing start with
  | zero => exact ⟨sound, nofun⟩
  | succ turns induction =>
    unfold writeFirst
    split
    · have once := writeOnce_sound lawful sound
      have notFinished : (writeOnce env src.other start).2 ≠ some (.ready true) :=
        writeOnce_ne_finished
      cases step : writeOnce env src.other start with
      | mk next answer =>
        rw [step] at once notFinished
        cases answer with
        | none => exact induction once
        | some answer => exact ⟨once, notFinished⟩
    · exact ⟨sound, nofun⟩

lemma writeFirst_drained (lawful : env.Lawful) (turns : Nat)
    {start : Pump World Failure} (sound : Sound limits src start.half other start.log)
    (enough : start.half.filled - start.half.written ≤ turns)
    (left : (writeFirst env src.other turns start).2 = none) :
    (writeFirst env src.other turns start).1.half.filled ≤
      (writeFirst env src.other turns start).1.half.written := by
  induction turns generalizing start with
  | zero =>
    unfold writeFirst
    simp only
    omega
  | succ turns induction =>
    unfold writeFirst at left ⊢
    by_cases more : start.half.written < start.half.filled
    · rw [if_pos more] at left ⊢
      have once := writeOnce_sound lawful sound
      have waiting : start.half.pending ≠ [] := by
        intro empty
        have length := sound.tracks.pending_length
        rw [empty, length_nil] at length
        omega
      cases step : writeOnce env src.other start with
      | mk next answer =>
        rw [step] at once left
        cases answer with
        | none =>
          have moved := writeOnce_none waiting step
          exact induction once (by omega) left
        | some answer => cases left
    · rw [if_neg more]
      simp only
      omega

lemma Sound.shut (sound : Sound limits src half other log) (ended : half.srcEof = true)
    (answer) (dstShutdown : Bool) :
    Sound limits src { half with dstShutdown } other (log ++ [.shutdown src.other answer]) := by
  have tracks : Tracks limits src half (log ++ [.shutdown src.other answer]) :=
    sound.tracks.silent rfl rfl fun _ _ => ended
  have marked : Tracks limits src { half with dstShutdown }
      (log ++ [.shutdown src.other answer]) := { tracks with }
  refine sound.call rfl ?_ marked
  show accepted src.other log = delivered src.other.other log
  rw [other_other, sound.tracks.sync, sound.tracks.end_empty ended, append_nil]

variable (env) in
lemma shutdownLast_sound {start : Pump World Failure}
    (sound : Sound limits src start.half other start.log) (ended : start.half.srcEof = true) :
    Sound limits src (shutdownLast env src.other start).1.half other
      (shutdownLast env src.other start).1.log ∧
      (shutdownLast env src.other start).1.half.srcEof = true := by
  unfold shutdownLast
  split
  · exact ⟨sound, ended⟩
  · cases isAnswer : (env.pollShutdown start.world src.other).2 with
    | pending =>
      simp only [isAnswer]
      exact ⟨sound.shut ended _ start.half.dstShutdown, ended⟩
    | finished | failed failure =>
      simp only [isAnswer]
      exact ⟨sound.shut ended _ true, ended⟩

lemma Sound.readFrom (sound : Sound limits src half other log) (empty : half.pending = [])
    (open' : half.srcEof = false) (tracks : Tracks limits src after (log ++ [.read src answer])) :
    Sound limits src after other (log ++ [.read src answer]) := by
  refine sound.call rfl ⟨?_, ?_⟩ tracks
  · rw [sound.tracks.sync, empty, append_nil]
  · intro shut
    have ended := sound.tracks.shut_end shut
    rw [open'] at ended
    cases ended

section

variable (lawful : env.Lawful)

include lawful

lemma readSecond_sound {start : Pump World Failure}
    (sound : Sound limits src start.half other start.log) (empty : start.half.pending = [])
    (open' : start.half.srcEof = false)
    (room : ∀ cap ∈ limits.maxBytesPerDirection, start.half.total < cap.toNat) :
    Sound limits src (readSecond env src start).1.half other (readSecond env src start).1.log ∧
      ((readSecond env src start).2 = none → (readSecond env src start).1.half.srcEof = true) ∧
      (readSecond env src start).2 ≠ some (.ready true) := by
  have fits := lawful.read_le start.world src chunkSize
  cases isAnswer : (env.pollRead start.world src chunkSize).2 with
  | pending | failed failure =>
    simp only [readSecond, isAnswer]
    exact ⟨sound.readFrom empty open' (sound.tracks.silent rfl rfl (by simp)), by simp, by simp⟩
  | filled bytes =>
    cases bytes with
    | nil =>
      simp only [readSecond, isAnswer]
      have same : Tracks limits src start.half (start.log ++ [.read src (.filled [])]) :=
        sound.tracks.silent (by simp [Event.delivers]) rfl (by simp)
      have ended : Tracks limits src { start.half with srcEof := true }
          (start.log ++ [.read src (.filled [])]) :=
        { same with
          at_end := fun _ => .inr (mem_append_right _ mem_cons_self)
          end_empty := fun _ => empty
          shut_end := fun _ => rfl }
      exact ⟨sound.readFrom empty open' ended, fun _ => trivial, by simp⟩
    | cons byte bytes =>
      simp only [readSecond, isAnswer]
      exact ⟨sound.readFrom empty open'
        (sound.tracks.fill empty open' room (fits _ isAnswer)), by simp, by simp⟩

lemma readOrShutdown_sound (sound : Sound limits src released.half other released.log)
    (empty : released.half.pending = [])
    (room : released.half.srcEof = false →
      ∀ cap ∈ limits.maxBytesPerDirection, released.half.total < cap.toNat) :
    Sound limits src (readOrShutdown env src released).1.half other
        (readOrShutdown env src released).1.log ∧
      ((readOrShutdown env src released).2 = .ready true →
        (readOrShutdown env src released).1.half.srcEof = true) := by
  unfold readOrShutdown
  cases isEnd : released.half.srcEof with
  | true =>
    have shut := shutdownLast_sound env sound isEnd
    exact ⟨shut.1, fun _ => shut.2⟩
  | false =>
    have reading := readSecond_sound lawful sound empty isEnd (room isEnd)
    cases step : readSecond env src released with
    | mk next answer =>
      rw [step] at reading
      rcases reading with ⟨after, ends, notFinished⟩
      cases answer with
      | some answer =>
        refine ⟨after, ?_⟩
        rintro rfl
        exact absurd rfl notFinished
      | none =>
        have shut := shutdownLast_sound env after (ends rfl)
        exact ⟨shut.1, fun _ => shut.2⟩

lemma pump_sound {start : Pump World Failure}
    (sound : Sound limits src start.half other start.log) :
    Sound limits src (pump env limits src start).1.half other (pump env limits src start).1.log ∧
      ((pump env limits src start).2 = .ready true →
        (pump env limits src start).1.half.srcEof = true) := by
  have written := writeFirst_sound lawful (start.half.filled - start.half.written) sound
  have drained := writeFirst_drained lawful (start.half.filled - start.half.written) sound
    (le_refl _)
  unfold pump
  cases first : writeFirst env src.other (start.half.filled - start.half.written) start with
  | mk next answer =>
    rw [first] at written drained
    cases answer with
    | some answer =>
      refine ⟨written.1, ?_⟩
      rintro rfl
      exact absurd rfl written.2
    | none =>
      have released : Sound limits src (next.half.release limits) other next.log :=
        ⟨written.1.tracks.release (drained rfl), written.1.tracksOther, written.1.orderly⟩
      have spec := release_spec limits next.half
      exact readOrShutdown_sound lawful released spec.1 spec.2

end

end Steps

/-! ## Rounds, polls and runs -/

section Runs

variable {World Failure : Type} {env : Environment World Failure}
  {limits : ForwardLimits}

def Tunnel.Sound (limits : ForwardLimits) (tunnel : Tunnel World Failure) : Prop :=
  Dataplane.Sound limits .client tunnel.c2u tunnel.u2c tunnel.log

lemma Tunnel.start_sound (world : World) : (start env limits world).Sound limits :=
  ⟨tracks_nil, tracks_nil, orderly_nil⟩

lemma Tunnel.pumpBoth_sound (lawful : env.Lawful) {tunnel : Tunnel World Failure}
    (sound : tunnel.Sound limits) :
    (tunnel.pumpBoth env limits).1.Sound limits ∧
      ((tunnel.pumpBoth env limits).2.2.1 = .ready true →
        (tunnel.pumpBoth env limits).1.c2u.srcEof = true) ∧
      ((tunnel.pumpBoth env limits).2.2.2 = .ready true →
        (tunnel.pumpBoth env limits).1.u2c.srcEof = true) := by
  have first := @pump_sound World Failure env limits .client tunnel.u2c lawful
    ⟨tunnel.c2u, tunnel.world, tunnel.log, tunnel.reads, tunnel.writes, false⟩ sound
  have second := @pump_sound World Failure env limits .upstream _ lawful
    { (pump env limits .client ⟨tunnel.c2u, tunnel.world, tunnel.log,
      tunnel.reads, tunnel.writes, false⟩).1 with half := tunnel.u2c } first.1.swap
  exact ⟨second.1.swap, first.2, second.2⟩

def Tunnel.SameStreams (tunnel later : Tunnel World Failure) : Prop :=
  later.c2u = tunnel.c2u ∧ later.u2c = tunnel.u2c ∧ later.log = tunnel.log

variable (env) in
lemma Tunnel.armHalfClose_frame (tunnel : Tunnel World Failure) :
    tunnel.SameStreams (tunnel.armHalfClose env) := by
  unfold armHalfClose
  split <;> exact ⟨rfl, rfl, rfl⟩

variable (env limits) in
lemma interrupt_ne_bothEof (halfArmed : Bool) (world : World) :
    (env.interrupt limits halfArmed world).2 ≠ some .bothEof := by
  unfold Environment.interrupt
  split
  · simp
  · split
    · simp
    · split <;> simp

def RoundEnd.Interrupted : RoundEnd Failure → Prop
  | .ready result => ∃ reason, result = .ok reason ∧ reason ≠ .bothEof
  | _ => True

variable (env) in
lemma Tunnel.idleDeadline_frame (tunnel : Tunnel World Failure) (progress : Bool) :
    tunnel.SameStreams (tunnel.idleDeadline env progress).1 ∧
      (tunnel.idleDeadline env progress).2.Interrupted := by
  unfold idleDeadline
  split
  · exact ⟨⟨rfl, rfl, rfl⟩, by cases progress <;> trivial⟩
  · split
    · exact ⟨⟨rfl, rfl, rfl⟩, .idleTimeout, rfl, nofun⟩
    · exact ⟨⟨rfl, rfl, rfl⟩, by cases progress <;> trivial⟩

variable (env limits) in
lemma Tunnel.deadlines_frame (tunnel : Tunnel World Failure) (progress : Bool) :
    tunnel.SameStreams (tunnel.deadlines env limits progress).1 ∧
      (tunnel.deadlines env limits progress).2.Interrupted := by
  have armed := tunnel.armHalfClose_frame env
  have notEof := interrupt_ne_bothEof env limits
    (tunnel.armHalfClose env).halfArmed (tunnel.armHalfClose env).world
  unfold deadlines
  simp only
  split
  · rename_i world reason isReason
    rw [isReason] at notEof
    exact ⟨armed, reason, rfl, fun isEof => notEof (congrArg some isEof)⟩
  · rename_i world _
    have idle := idleDeadline_frame env
      { tunnel.armHalfClose env with world } progress
    exact ⟨⟨idle.1.1.trans armed.1, idle.1.2.1.trans armed.2.1, idle.1.2.2.trans armed.2.2⟩, idle.2⟩

lemma Tunnel.Sound.of_same {tunnel later : Tunnel World Failure} (sound : tunnel.Sound limits)
    (same : tunnel.SameStreams later) : later.Sound limits := by
  rw [Sound, same.1, same.2.1, same.2.2]
  exact sound

structure Tunnel.Reports (tunnel : Tunnel World Failure)
    (result : Except (ForwardError Failure) EndReason) : Prop where
  ended : result = .ok .bothEof →
    tunnel.c2u.srcEof = true ∧ tunnel.u2c.srcEof = true ∧ tunnel.c2u.capped = false ∧
      tunnel.u2c.capped = false
  error_stats : ∀ error, result = .error error → error.stats = tunnel.stats

lemma mapHalfError_stats (src : Side) (error : HalfError Failure) (stats) :
    (mapHalfError src error stats).stats = stats := by
  cases src <;> cases error <;> rfl

lemma PumpPoll.eq_of_finished {answer : PumpPoll Failure} (finished : answer.finished = true) :
    answer = .ready true := by
  cases answer with
  | ready finishes =>
    have isTrue : finishes = true := finished
    rw [isTrue]
  | pending | failed => cases finished

lemma Tunnel.settle_sound {tunnel : Tunnel World Failure} (sound : tunnel.Sound limits)
    (firstEnds : first = .ready true → tunnel.c2u.srcEof = true)
    (secondEnds : second = .ready true → tunnel.u2c.srcEof = true) :
    (tunnel.settle env limits progress first second).1.Sound limits ∧ ∀ result,
    (tunnel.settle env limits progress first second).2 = .ready result →
    (tunnel.settle env limits progress first second).1.Reports result := by
  unfold settle
  split
  · refine ⟨sound, ?_⟩
    rintro _ ⟨⟩
    exact ⟨nofun, fun _ same => by cases same; exact mapHalfError_stats _ _ _⟩
  split
  · refine ⟨sound, ?_⟩
    rintro _ ⟨⟩
    exact ⟨nofun, fun _ same => by cases same; exact mapHalfError_stats _ _ _⟩
  split
  · rename_i finished
    rw [Bool.and_eq_true] at finished
    refine ⟨sound, ?_⟩
    rintro _ ⟨⟩
    refine ⟨fun isEof => ?_, nofun⟩
    have notCapped : ¬(tunnel.c2u.capped || tunnel.u2c.capped) = true := by
      intro capped
      rw [if_pos capped] at isEof
      cases isEof
    simp only [Bool.or_eq_true, not_or, Bool.not_eq_true] at notCapped
    exact ⟨firstEnds (PumpPoll.eq_of_finished finished.1),
      secondEnds (PumpPoll.eq_of_finished finished.2), notCapped.1, notCapped.2⟩
  · have frame := tunnel.deadlines_frame env limits progress
    refine ⟨sound.of_same frame.1, ?_⟩
    intro result isResult
    have interrupted := frame.2
    rw [isResult] at interrupted
    rcases interrupted with ⟨reason, rfl, notEof⟩
    exact ⟨fun isEof => absurd (Except.ok.inj isEof) notEof, nofun⟩

lemma Tunnel.round_sound (lawful : env.Lawful) {tunnel : Tunnel World Failure}
    (sound : tunnel.Sound limits) :
    (tunnel.round env limits).1.Sound limits ∧
      ∀ result, (tunnel.round env limits).2 = .ready result →
        (tunnel.round env limits).1.Reports result := by
  rcases pumpBoth_sound lawful sound with ⟨pumped, firstEnds, secondEnds⟩
  exact settle_sound pumped firstEnds secondEnds

lemma Tunnel.poll_sound (lawful : env.Lawful) (rounds : Nat)
    {tunnel : Tunnel World Failure} (sound : tunnel.Sound limits) :
    (tunnel.poll env limits rounds).1.Sound limits ∧
      ∀ result, (tunnel.poll env limits rounds).2 = some result →
        (tunnel.poll env limits rounds).1.Reports result := by
  induction rounds generalizing tunnel with
  | zero => exact ⟨sound, nofun⟩
  | succ rounds induction =>
    have step := round_sound lawful sound
    unfold poll
    cases isRound : tunnel.round env limits with
    | mk next ends =>
      rw [isRound] at step
      cases ends with
      | again => exact induction step.1
      | pending => exact ⟨step.1, nofun⟩
      | ready result =>
        refine ⟨step.1, ?_⟩
        rintro _ ⟨⟩
        exact step.2 result rfl

lemma Tunnel.polls_sound (lawful : env.Lawful) (count : Nat)
    {tunnel : Tunnel World Failure} (sound : tunnel.Sound limits) :
    (tunnel.polls env limits count).1.Sound limits ∧
      ∀ result, (tunnel.polls env limits count).2 = some result →
        (tunnel.polls env limits count).1.Reports result := by
  induction count generalizing tunnel with
  | zero => exact ⟨sound, nofun⟩
  | succ count induction =>
    have step := poll_sound lawful maxPumpRounds sound
    unfold polls
    cases isPoll : tunnel.poll env limits maxPumpRounds with
    | mk next answer =>
      rw [isPoll] at step
      cases answer with
      | none => exact induction step.1
      | some result =>
        refine ⟨step.1, ?_⟩
        rintro _ ⟨⟩
        exact step.2 result rfl

end Runs

end IronTraffic.Dataplane
