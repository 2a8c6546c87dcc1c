import IronTraffic.Dataplane.Forward

/-! # The streams of the forwarding loop

What each side has delivered and accepted is read off the log of calls. One direction keeps
what its source delivered equal to what its destination accepted and the rest of its buffer.
-/

namespace IronTraffic.Dataplane

open List

section Streams

variable {Failure : Type}

def Event.delivers (side : Side) : Event Failure → Bytes
  | .read from' (.filled bytes) => if from' = side then bytes else []
  | _ => []

def Event.accepts (side : Side) : Event Failure → Bytes
  | .write to' offered (.accepted count) => if to' = side then offered.take count else []
  | _ => []

def delivered (side : Side) (log : List (Event Failure)) : Bytes := log.flatMap (·.delivers side)

def accepted (side : Side) (log : List (Event Failure)) : Bytes := log.flatMap (·.accepts side)

def AtEnd (side : Side) (log : List (Event Failure)) : Prop := .read side (.filled []) ∈ log

def ShutDown (side : Side) (log : List (Event Failure)) : Prop :=
  ∃ answer, .shutdown side answer ∈ log

/-- What every destination accepted is the beginning of what its source delivered, and at most
one buffer is missing. -/
def InStep (log : List (Event Failure)) : Prop :=
  ∀ src : Side, accepted src.other log <+: delivered src log ∧
    (delivered src log).length ≤ (accepted src.other log).length + chunkSize

/-- A source is read, and a destination is shut down, when all that was read has been written;
and a source is not read after its destination was shut down. -/
def Allowed (before : List (Event Failure)) : Event Failure → Prop
  | .read src _ =>
    accepted src.other before = delivered src before ∧ ¬ShutDown src.other before
  | .shutdown dst _ => accepted dst before = delivered dst.other before
  | .write _ _ _ => True

/-- The log is in step at every moment, and every call was allowed when it was made. -/
structure Orderly (log : List (Event Failure)) : Prop where
  inStep : ∀ before, before <+: log → InStep before
  allowed : ∀ before event, before ++ [event] <+: log → Allowed before event

variable {log : List (Event Failure)} {event : Event Failure} {side src : Side}

@[simp] lemma delivered_snoc :
    delivered side (log ++ [event]) = delivered side log ++ event.delivers side := by
  simp [delivered]

@[simp] lemma accepted_snoc :
    accepted side (log ++ [event]) = accepted side log ++ event.accepts side := by
  simp [accepted]

lemma orderly_nil : Orderly ([] : List (Event Failure)) := by
  constructor
  · intro before isBefore
    rw [prefix_nil.mp isBefore]
    intro src
    exact ⟨prefix_refl _, Nat.zero_le _⟩
  · intro before event isBefore
    have empty := prefix_nil.mp isBefore
    simp at empty

lemma Orderly.snoc (orderly : Orderly log) (allowed : Allowed log event)
    (inStep : InStep (log ++ [event])) : Orderly (log ++ [event]) := by
  constructor
  · intro before isBefore
    rcases prefix_concat_iff.mp isBefore with rfl | earlier
    · exact inStep
    · exact orderly.inStep before earlier
  · intro before last isBefore
    rcases prefix_concat_iff.mp isBefore with same | earlier
    · rcases append_inj' same rfl with ⟨rfl, isLast⟩
      cases isLast
      exact allowed
    · exact orderly.allowed before last earlier

/-! ## One direction -/

variable (limits : ForwardLimits)

structure Tracks (src : Side) (half : Half) (log : List (Event Failure)) : Prop where
  sync : delivered src log = accepted src.other log ++ half.pending
  filled_eq : half.filled = (half.buf.getD []).length
  written_le : half.written ≤ half.filled
  filled_le : half.filled ≤ chunkSize
  total_eq : half.total = min (accepted src.other log).length (2 ^ 64 - 1)
  below_cap : ∀ cap ∈ limits.maxBytesPerDirection,
    (accepted src.other log).length + half.pending.length < cap.toNat + chunkSize
  at_end : half.srcEof = true → half.capped = true ∨ AtEnd src log
  end_empty : half.srcEof = true → half.pending = []
  shut_end : ShutDown src.other log → half.srcEof = true

variable {limits} {half : Half}

lemma tracks_nil : Tracks limits src .default ([] : List (Event Failure)) := by
  constructor <;>
    simp [delivered, accepted, Half.default, Half.pending, AtEnd, ShutDown, chunkSize]

section

variable (tracks : Tracks limits src half log)

include tracks

lemma Tracks.pending_length : half.pending.length = half.filled - half.written := by
  rw [Half.pending, length_drop, tracks.filled_eq]

lemma Tracks.inStep :
    accepted src.other log <+: delivered src log ∧
      (delivered src log).length ≤ (accepted src.other log).length + chunkSize := by
  have length := tracks.pending_length
  have filled := tracks.filled_le
  rw [tracks.sync]
  refine ⟨prefix_append _ _, ?_⟩
  rw [length_append]
  omega

lemma inStep_of_tracks (tracksOther : Tracks limits src.other other log) : InStep log := by
  intro any
  by_cases isSrc : any = src
  · rw [isSrc]
    exact tracks.inStep
  · have isOther : any = src.other := by
      cases any <;> cases src <;> simp_all [Side.other]
    rw [isOther]
    exact tracksOther.inStep

end

def Event.BelongsTo (src : Side) : Event Failure → Prop
  | .read side _ => side = src
  | .write side _ _ => side = src.other
  | .shutdown side _ => side = src.other

lemma side_ne_other (side : Side) : side ≠ side.other := by
  cases side <;> simp [Side.other]

lemma other_other (side : Side) : side.other.other = side := by
  cases side <;> rfl

lemma Tracks.silent (tracks : Tracks limits src half log)
    (noDelivery : event.delivers src = []) (noAcceptance : event.accepts src.other = [])
    (shuts : ∀ answer, event = .shutdown src.other answer → half.srcEof = true) :
    Tracks limits src half (log ++ [event]) := by
  refine
    { tracks with
      sync := by
        rw [delivered_snoc, accepted_snoc, noDelivery, noAcceptance, append_nil, append_nil]
        exact tracks.sync
      total_eq := by
        rw [accepted_snoc, noAcceptance, append_nil]
        exact tracks.total_eq
      below_cap := by
        rw [accepted_snoc, noAcceptance, append_nil]
        exact tracks.below_cap
      at_end := fun isEnd => (tracks.at_end isEnd).imp_right (mem_append_left _)
      shut_end := ?_ }
  rintro ⟨answer, mem⟩
  rcases mem_append.mp mem with earlier | last
  · exact tracks.shut_end ⟨answer, earlier⟩
  · exact shuts answer (mem_singleton.mp last).symm

lemma Tracks.frame (tracks : Tracks limits src.other half log)
    (belongs : event.BelongsTo src) : Tracks limits src.other half (log ++ [event]) := by
  have differ := side_ne_other src
  apply tracks.silent
  · cases event with
    | read side answer =>
      have isSrc : side = src := belongs
      cases answer <;> simp [Event.delivers, isSrc, differ]
    | write | shutdown => rfl
  · rw [other_other]
    cases event with
    | write side offered answer =>
      have isOther : side = src.other := belongs
      cases answer <;> simp [Event.accepts, isOther, differ.symm]
    | read | shutdown => rfl
  · rintro answer rfl
    have same : src.other.other = src.other := belongs
    rw [other_other] at same
    exact absurd same differ

lemma Tracks.write (tracks : Tracks limits src half log) {count : Nat}
    (fits : count ≤ half.pending.length) :
    Tracks limits src (half.advance count)
      (log ++ [.write src.other half.pending (.accepted count)]) := by
  have length := tracks.pending_length
  have written := tracks.written_le
  have clamped : min count half.pending.length = count := min_eq_left fits
  have isAccepted : accepted src.other
      (log ++ [.write src.other half.pending (.accepted count)]) =
        accepted src.other log ++ half.pending.take count := by
    simp [Event.accepts]
  have isPending : (half.advance count).pending = half.pending.drop count := by
    unfold Half.advance Half.pending at *
    rw [clamped, drop_drop]
  have moved : (half.pending.take count).length = count := by
    rw [length_take]
    exact clamped
  refine
    { sync := ?_
      filled_eq := tracks.filled_eq
      written_le := ?_
      filled_le := tracks.filled_le
      total_eq := ?_
      below_cap := ?_
      at_end := fun isEnd => (tracks.at_end isEnd).imp_right (mem_append_left _)
      end_empty := ?_
      shut_end := ?_ }
  · rw [isAccepted, isPending, append_assoc, take_append_drop, delivered_snoc]
    simpa [Event.delivers] using tracks.sync
  · show half.written + min count half.pending.length ≤ half.filled
    omega
  · rw [isAccepted, length_append, moved]
    show saturatingAdd64 half.total (min count half.pending.length) = _
    rw [clamped, tracks.total_eq]
    unfold saturatingAdd64
    omega
  · intro cap isCap
    have before := tracks.below_cap cap isCap
    rw [isAccepted, isPending, length_append, length_drop, moved]
    omega
  · intro isEnd
    rw [isPending, tracks.end_empty isEnd, drop_nil]
  · rintro ⟨answer, mem⟩
    rcases mem_append.mp mem with earlier | last
    · exact tracks.shut_end ⟨answer, earlier⟩
    · cases mem_singleton.mp last

lemma Tracks.release (tracks : Tracks limits src half log)
    (drained : half.filled ≤ half.written) : Tracks limits src (half.release limits) log := by
  have empty : half.pending = [] := by
    apply eq_nil_of_length_eq_zero
    rw [tracks.pending_length]
    omega
  have sync := tracks.sync
  have cap := tracks.below_cap
  rw [empty] at sync cap
  have released : Tracks limits src { half with buf := none, filled := 0, written := 0 } log :=
    { tracks with
      sync := sync
      filled_eq := rfl
      written_le := le_refl _
      filled_le := Nat.zero_le _
      below_cap := cap
      end_empty := fun _ => rfl }
  unfold Half.release
  split
  · exact released
  · split
    · exact
        { released with
          at_end := fun _ => .inl rfl
          end_empty := fun _ => rfl
          shut_end := fun _ => rfl }
    · exact released

variable (limits) in
lemma release_spec (half : Half) :
    (half.release limits).pending = [] ∧ ((half.release limits).srcEof = false →
        ∀ cap ∈ limits.maxBytesPerDirection, (half.release limits).total < cap.toNat) := by
  unfold Half.release
  split
  · rename_i none
    exact ⟨rfl, fun _ cap isCap => by rw [none] at isCap; cases isCap⟩
  rename_i some
  split
  · exact ⟨rfl, nofun⟩
  · rename_i below
    refine ⟨rfl, fun _ cap isCap => ?_⟩
    rw [some] at isCap
    cases isCap
    simp only
    omega

lemma Tracks.fill (tracks : Tracks limits src half log) (empty : half.pending = [])
    (open' : half.srcEof = false)
    (room : ∀ cap ∈ limits.maxBytesPerDirection, half.total < cap.toNat)
    (fits : bytes.length ≤ chunkSize) :
    Tracks limits src
      { half with buf := some (bytes.take chunkSize), filled := bytes.length, written := 0 }
      (log ++ [.read src (.filled bytes)]) := by
  have whole : bytes.take chunkSize = bytes := take_of_length_le fits
  have sync := tracks.sync
  rw [empty, append_nil] at sync
  rw [whole]
  refine
    { sync := ?_
      filled_eq := rfl
      written_le := Nat.zero_le _
      filled_le := fits
      total_eq := ?_
      below_cap := ?_
      at_end := fun isEnd => absurd isEnd (by simp [open'])
      end_empty := fun isEnd => absurd isEnd (by simp [open'])
      shut_end := ?_ }
  · simp [Event.delivers, Event.accepts, sync, Half.pending]
  · simpa [Event.accepts] using tracks.total_eq
  · intro cap isCap
    have below := room cap isCap
    have total := tracks.total_eq
    have small := cap.toNat_lt
    simp only [accepted_snoc, Event.accepts, append_nil, Half.pending, Option.getD_some, drop_zero]
    omega
  · rintro ⟨answer, mem⟩
    rcases mem_append.mp mem with earlier | last
    · exact tracks.shut_end ⟨answer, earlier⟩
    · cases mem_singleton.mp last

end Streams

end IronTraffic.Dataplane
