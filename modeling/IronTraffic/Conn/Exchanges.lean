import IronTraffic.Conn.Purity

/-! # Complete exchanges

The notifications about a connection that only carried complete exchanges, and what the
ledger makes sure of: it refuses some of the other sequences, and leaves the rest to the
caller.
-/

namespace IronTraffic.Conn

open ExchangeLedger

open List

open Monitor

/-! ## Sequences of exchanges -/

structure Exchange where
  framing : ResponseFraming
  bodies : List UInt64

namespace Exchange

def octets (bodies : List UInt64) : Nat := (bodies.map UInt64.toNat).sum

/-- The octets are positive and add up to the declared length, if one was declared. -/
structure Complete (exchange : Exchange) : Prop where
  positive : ∀ octets ∈ exchange.bodies, octets ≠ 0
  adds : ∀ len, exchange.framing.knownLen = some len → octets exchange.bodies = len.toNat

def calls (exchange : Exchange) : List Call :=
  .beginRequest :: .requestBodyWritten :: .responseHead exchange.framing ::
    (exchange.bodies.map Call.responseBodyBytes ++ [.responseComplete])

end Exchange

def Call.isEvent : Call → Bool
  | .beginRequest => true
  | .requestBodyWritten => true
  | .responseHead _ => true
  | .responseBodyBytes octets => octets ≠ 0
  | .responseComplete => true
  | .responseFramingRefused => false
  | .socketHadTrailingBytes => false
  | .upstreamClosed => false

def Splits (calls : List Call) : Prop :=
  ∃ exchanges : List Exchange, (∀ exchange ∈ exchanges, exchange.Complete) ∧
    calls.filter Call.isEvent = exchanges.flatMap Exchange.calls

/-! ## The phases of an exchange -/

inductive Phase where
  | idle
  | started
  | written
  | headed (declared : Option UInt64) (sum : Nat)
  deriving DecidableEq

namespace Phase

def count : Phase → UInt64 → Option Phase
  | .headed declared sum, octets => some (.headed declared (sum + octets.toNat))
  | _, _ => none

def complete : Phase → Option Phase
  | .headed declared sum =>
    if declared.all fun len => sum = len.toNat then some .idle else none
  | _ => none

def next (phase : Phase) : Call → Option Phase
  | .beginRequest => if phase = .idle then some .started else none
  | .requestBodyWritten => if phase = .started then some .written else none
  | .responseHead framing =>
    if phase = .written then some (.headed framing.knownLen 0) else none
  | .responseBodyBytes octets => if octets = 0 then some phase else phase.count octets
  | .responseComplete => phase.complete
  | .responseFramingRefused => some phase
  | .socketHadTrailingBytes => some phase
  | .upstreamClosed => some phase

/-- Octets are reported after the head, and a declared body does not have more of them than
can be counted. -/
def MayCount : Phase → UInt64 → Prop
  | .idle, _ => True
  | .started, _ => False
  | .written, _ => False
  | .headed none _, _ => True
  | .headed (some _) sum, octets => sum + octets.toNat < 2 ^ 64

def isHeaded : Phase → Bool
  | .headed _ _ => true
  | _ => false

/-- What the ledger leaves to the caller: the request body is reported as written once, right
after the request began; an exchange has one head; its octets and its end come after the
head. -/
def Allows (phase : Phase) : Call → Prop
  | .requestBodyWritten => phase = .started
  | .responseHead _ => phase = .started ∨ phase = .written
  | .responseBodyBytes octets => octets = 0 ∨ phase.MayCount octets
  | .responseComplete => phase.isHeaded
  | .beginRequest => True
  | .responseFramingRefused => True
  | .socketHadTrailingBytes => True
  | .upstreamClosed => True

end Phase

abbrev Accepted (phase : Phase) (calls : List Call) : Prop :=
  Accepts Phase.next (fun phase => phase = .idle) phase calls

/-! ## The automaton accepts the sequences of exchanges -/

def Continues : Phase → List Call → Prop
  | .idle, events => ∃ exchanges : List Exchange, (∀ exchange ∈ exchanges, exchange.Complete) ∧
      events = exchanges.flatMap Exchange.calls
  | .started, events => ∃ exchange : Exchange, ∃ exchanges : List Exchange,
      exchange.Complete ∧ (∀ exchange ∈ exchanges, exchange.Complete) ∧
      .beginRequest :: events = exchange.calls ++ exchanges.flatMap Exchange.calls
  | .written, events => ∃ exchange : Exchange, ∃ exchanges : List Exchange,
      exchange.Complete ∧ (∀ exchange ∈ exchanges, exchange.Complete) ∧
      .beginRequest :: .requestBodyWritten :: events =
        exchange.calls ++ exchanges.flatMap Exchange.calls
  | .headed declared sum, events => ∃ bodies : List UInt64, ∃ exchanges : List Exchange,
      (∀ octets ∈ bodies, octets ≠ 0) ∧
      (∀ len, declared = some len → sum + Exchange.octets bodies = len.toNat) ∧
      (∀ exchange ∈ exchanges, exchange.Complete) ∧
      events = bodies.map Call.responseBodyBytes ++
        .responseComplete :: exchanges.flatMap Exchange.calls

variable {events : List Call}

lemma continues_idle_cons :
    Continues .idle (call :: events) ↔ call = .beginRequest ∧ Continues .started events := by
  constructor
  · rintro ⟨exchanges, complete, equal⟩
    cases exchanges with
    | nil => cases equal
    | cons exchange exchanges =>
      have first : call = .beginRequest := (cons.inj equal).1
      subst first
      rw [forall_mem_cons] at complete
      exact ⟨rfl, exchange, exchanges, complete.1, complete.2, equal⟩
  · rintro ⟨rfl, exchange, exchanges, complete, others, equal⟩
    exact ⟨exchange :: exchanges, forall_mem_cons.mpr ⟨complete, others⟩, equal⟩

lemma continues_started_cons :
    Continues .started (call :: events) ↔
      call = .requestBodyWritten ∧ Continues .written events := by
  constructor
  · rintro ⟨exchange, exchanges, complete, others, equal⟩
    have second : call = .requestBodyWritten := (cons.inj (cons.inj equal).2).1
    subst second
    exact ⟨rfl, exchange, exchanges, complete, others, equal⟩
  · rintro ⟨rfl, exchange, exchanges, complete, others, equal⟩
    exact ⟨exchange, exchanges, complete, others, equal⟩

lemma continues_written_cons :
    Continues .written (call :: events) ↔
      ∃ framing : ResponseFraming, call = .responseHead framing ∧
        Continues (.headed framing.knownLen 0) events := by
  constructor
  · rintro ⟨exchange, exchanges, complete, others, equal⟩
    have later := (cons.inj (cons.inj equal).2).2
    refine ⟨exchange.framing, (cons.inj later).1, exchange.bodies, exchanges,
      complete.positive, ?_, others, ?_⟩
    · intro len declared
      rw [zero_add]
      exact complete.adds len declared
    · rw [(cons.inj later).2]
      simp
  · rintro ⟨framing, rfl, bodies, exchanges, positive, adds, others, rfl⟩
    refine ⟨⟨framing, bodies⟩, exchanges, ⟨positive, ?_⟩, others, ?_⟩
    · intro len declared
      rw [← adds len declared, zero_add]
    · simp [Exchange.calls]

variable {declared : Option UInt64} {sum : Nat} {phase : Phase} {calls : List Call}
  {framing : ResponseFraming}

lemma continues_headed_cons :
    Continues (.headed declared sum) (call :: events) ↔
      (∃ octets, octets ≠ 0 ∧ call = .responseBodyBytes octets ∧
        Continues (.headed declared (sum + octets.toNat)) events) ∨
      (call = .responseComplete ∧ (∀ len, declared = some len → sum = len.toNat) ∧
        Continues .idle events) := by
  constructor
  · rintro ⟨bodies, exchanges, positive, adds, others, equal⟩
    cases bodies with
    | nil =>
      rcases cons.inj equal with ⟨isComplete, rest⟩
      exact .inr ⟨isComplete, adds, exchanges, others, rest⟩
    | cons octets bodies =>
      rcases cons.inj equal with ⟨isBody, rest⟩
      rw [forall_mem_cons] at positive
      refine .inl ⟨octets, positive.1, isBody, bodies, exchanges, positive.2, ?_, others, rest⟩
      intro len isLen
      rw [← adds len isLen, Exchange.octets, Exchange.octets, map_cons, sum_cons, add_assoc]
  · rintro (⟨octets, notZero, rfl, bodies, exchanges, positive, adds, others, rfl⟩ |
      ⟨rfl, adds, exchanges, others, rfl⟩)
    · refine ⟨octets :: bodies, exchanges, forall_mem_cons.mpr ⟨notZero, positive⟩, ?_, others, rfl⟩
      intro len isLen
      rw [← adds len isLen, Exchange.octets, Exchange.octets, map_cons, sum_cons, add_assoc]
    · exact ⟨[], exchanges, nofun, adds, others, rfl⟩

lemma continues_cons_iff (isEvent : call.isEvent) :
    Continues phase (call :: events) ↔
      ∃ after, phase.next call = some after ∧ Continues after events := by
  have notZero : ∀ octets, call = .responseBodyBytes octets → octets ≠ 0 := by
    rintro octets rfl
    simpa [Call.isEvent] using isEvent
  cases phase with
  | idle | started | written =>
    first | rw [continues_idle_cons] | rw [continues_started_cons] | rw [continues_written_cons]
    cases call with
    | responseBodyBytes octets => simp [Phase.next, Phase.count, notZero octets rfl]
    | responseComplete => simp [Phase.next, Phase.complete]
    | beginRequest | requestBodyWritten | responseHead => simp [Phase.next]
    | _ => cases isEvent
  | headed declared sum =>
    refine continues_headed_cons.trans ?_
    cases call with
    | responseBodyBytes octets => simp [Phase.next, Phase.count, notZero octets rfl]
    | responseComplete =>
      cases declared with
      | none | some len => simp [Phase.next, Phase.complete]
    | beginRequest | requestBodyWritten | responseHead => simp [Phase.next]
    | _ => cases isEvent

lemma next_of_not_isEvent (silent : call.isEvent = false) : phase.next call = some phase := by
  cases call with
  | responseBodyBytes octets =>
    have zero : octets = 0 := by simpa [Call.isEvent] using silent
    simp [Phase.next, zero]
  | responseFramingRefused | socketHadTrailingBytes | upstreamClosed => rfl
  | _ => cases silent

lemma continues_nil : Continues phase [] ↔ phase = .idle := by
  cases phase with
  | idle => exact iff_of_true ⟨[], nofun, rfl⟩ rfl
  | started | written =>
    refine iff_of_false ?_ nofun
    rintro ⟨exchange, exchanges, _, _, equal⟩
    cases equal
  | headed declared sum =>
    refine iff_of_false ?_ nofun
    rintro ⟨bodies, exchanges, _, _, _, equal⟩
    simp at equal

lemma accepted_iff_continues :
    Accepted phase calls ↔ Continues phase (calls.filter Call.isEvent) := by
  induction calls generalizing phase with
  | nil => exact continues_nil.symm
  | cons call calls induction =>
    cases isEvent : call.isEvent with
    | true =>
      rw [filter_cons_of_pos isEvent]
      refine Iff.trans ?_ (continues_cons_iff isEvent).symm
      exact exists_congr fun after => and_congr_right fun _ => induction
    | false =>
      rw [filter_cons_of_neg (by simp [isEvent]), ← induction]
      show (∃ after, _ ∧ _) ↔ _
      rw [next_of_not_isEvent isEvent]
      simp

lemma accepted_iff_splits : Accepted .idle calls ↔ Splits calls :=
  accepted_iff_continues

/-! ## What the ledger knows -/

def Tracks (ledger : ExchangeLedger) : Phase → Prop
  | .idle => ledger.inFlight = false ∧ ledger.requestsSent = ledger.responsesReceived
  | .started => ledger.inFlight = true ∧ ledger.requestsSent = ledger.responsesReceived + 1 ∧
      ledger.requestBodyComplete = false ∧ ledger.receivedBody = 0
  | .written => ledger.inFlight = true ∧ ledger.requestsSent = ledger.responsesReceived + 1 ∧
      ledger.requestBodyComplete = true ∧ ledger.receivedBody = 0
  | .headed declared sum =>
    ledger.inFlight = true ∧ ledger.requestsSent = ledger.responsesReceived + 1 ∧
    ledger.declaredBody = declared ∧
    ∀ len, declared = some len → ledger.receivedBody = sum

def begins (calls : List Call) : Nat := calls.count .beginRequest

structure Fit (ledger : ExchangeLedger) (phase : Phase) (rest : List Call) : Prop where
  clean : ledger.purity = .clean
  room : ledger.requestsSent + begins rest < 2 ^ 32
  tracks : Tracks ledger phase

def Spoiled (ledger : ExchangeLedger) : Prop := ledger.purity ≠ .clean

variable {ledger : ExchangeLedger} {after : Phase} {rest : List Call}

lemma spoiled_poison (ledger : ExchangeLedger) (reason) : Spoiled (ledger.poison reason) := by
  unfold Spoiled poison
  split
  case isTrue => exact nofun
  case isFalse spoiled => exact spoiled

lemma spoiled_step (spoiled : Spoiled ledger) (call : Call) : Spoiled (ledger.step call) := by
  have poisoned : ledger.purity ≠ .clean := spoiled
  have kept : ∀ reason, ledger.poison reason = ledger := fun reason => if_neg poisoned
  cases call with
  | beginRequest | responseHead | responseBodyBytes | responseComplete =>
    simp only [step, beginRequest, responseHead, responseBodyBytes, responseComplete,
      if_pos poisoned]
    exact spoiled
  | requestBodyWritten => exact spoiled
  | responseFramingRefused | socketHadTrailingBytes => exact spoiled_poison ledger _
  | upstreamClosed =>
    show Spoiled ledger.upstreamClosed
    rw [upstreamClosed, kept, ite_self]
    exact spoiled

lemma Fit.notPoisoned (fit : Fit ledger phase rest) : ¬ledger.purity ≠ .clean :=
  not_not.mpr fit.clean

lemma Fit.keeps {next} (fit : Fit ledger phase (call :: rest))
    (notBegin : call ≠ .beginRequest) (clean : next.purity = ledger.purity)
    (requests : next.requestsSent = ledger.requestsSent) (tracks : Tracks next after) :
    Fit next after rest where
  clean := clean.trans fit.clean
  room := by
    have room := fit.room
    unfold begins at room ⊢
    rw [count_cons_of_ne notBegin] at room
    rw [requests]
    exact room
  tracks := tracks

lemma inFlight_of_tracks (tracks : Tracks ledger phase) :
    ledger.inFlight = decide (phase ≠ .idle) := by
  cases phase with
  | idle | started | written | headed => exact tracks.1

/-! ## One call -/

lemma fit_beginRequest (fit : Fit ledger phase (.beginRequest :: rest)) :
    if phase = .idle then Fit ledger.beginRequest .started rest
    else Spoiled ledger.beginRequest := by
  have flight := inFlight_of_tracks fit.tracks
  rw [beginRequest, if_neg fit.notPoisoned, flight]
  by_cases isIdle : phase = .idle
  · subst isIdle
    have room := fit.room
    rw [begins, count_cons_self] at room
    have exactSucc : saturatingAdd32 ledger.requestsSent 1 = ledger.requestsSent + 1 := by
      unfold saturatingAdd32
      omega
    refine ⟨fit.clean, ?_, rfl, ?_, rfl, rfl⟩
    · show saturatingAdd32 ledger.requestsSent 1 + begins rest < 2 ^ 32
      unfold begins
      omega
    · show saturatingAdd32 ledger.requestsSent 1 = ledger.responsesReceived + 1
      rw [exactSucc, fit.tracks.2]
  · rw [if_neg isIdle, if_pos (decide_eq_true isIdle)]
    exact spoiled_poison ledger _

lemma fit_responseHead (fit : Fit ledger .written (.responseHead framing :: rest)) :
    Spoiled (ledger.responseHead framing) ∨
      Fit (ledger.responseHead framing) (.headed framing.knownLen 0) rest := by
  rcases fit.tracks with ⟨flight, counts, complete, received⟩
  rw [responseHead, if_neg fit.notPoisoned, complete, if_neg (by simp)]
  cases forbids : framing.forbidsReuse with
  | true => exact .inl (spoiled_poison ledger _)
  | false =>
    right
    exact fit.keeps nofun rfl rfl ⟨flight, counts, rfl, fun _ _ => received⟩

lemma spoiled_early (fit : Fit ledger .started (.responseHead framing :: rest)) :
    Spoiled (ledger.responseHead framing) := by
  rw [responseHead, if_neg fit.notPoisoned, fit.tracks.2.2.1, if_pos rfl]
  exact spoiled_poison ledger _

lemma fit_responseBodyBytes (notZero : octets ≠ 0)
    (fit : Fit ledger (.headed declared sum) (.responseBodyBytes octets :: rest))
    (countable : Phase.MayCount (.headed declared sum) octets) :
    Spoiled (ledger.responseBodyBytes octets) ∨
    Fit (ledger.responseBodyBytes octets) (.headed declared (sum + octets.toNat)) rest := by
  rcases fit.tracks with ⟨flight, counts, isDeclared, received⟩
  unfold responseBodyBytes
  rw [if_neg fit.notPoisoned, if_neg notZero, flight, if_neg (by simp)]
  simp only
  split
  · exact .inl (spoiled_poison _ _)
  right
  refine fit.keeps nofun rfl rfl ⟨rfl, counts, isDeclared, ?_⟩
  rintro len rfl
  have exactSum : sum + octets.toNat < 2 ^ 64 := countable
  show saturatingAdd64 ledger.receivedBody octets.toNat = sum + octets.toNat
  rw [received len rfl]
  unfold saturatingAdd64
  omega

lemma fit_responseComplete (fit : Fit ledger (.headed declared sum) (.responseComplete :: rest)) :
    if declared.all fun len => sum = len.toNat then
      Fit ledger.responseComplete .idle rest else Spoiled ledger.responseComplete := by
  rcases fit.tracks with ⟨flight, counts, isDeclared, received⟩
  have room := fit.room
  have exactSucc : saturatingAdd32 ledger.responsesReceived 1 = ledger.requestsSent := by
    unfold saturatingAdd32
    omega
  have mismatch : (ledger.declaredBody.any fun len => decide (ledger.receivedBody ≠ len.toNat)) =
      !(declared.all fun len => decide (sum = len.toNat)) := by
    rw [isDeclared]
    cases declared with
    | none => rfl
    | some len => simp [received len rfl]
  rw [responseComplete, if_neg fit.notPoisoned, mismatch]
  cases adds : declared.all fun len => decide (sum = len.toNat) with
  | true =>
    rw [if_neg (not_not.mpr exactSucc)]
    exact fit.keeps nofun rfl rfl ⟨rfl, exactSucc.symm⟩
  | false =>
    exact spoiled_poison ledger _

/-! ## All calls -/

lemma accepted_headed_le (accepted : Accepted (.headed (some len) sum) calls) :
    sum ≤ len.toNat := by
  rcases accepted_iff_continues.mp accepted with ⟨bodies, exchanges, _, adds, _⟩
  have total := adds len rfl
  omega

lemma step_of_allowed (fit : Fit ledger phase (call :: rest)) (allowed : phase.Allows call) :
    match phase.next call with
    | some after => Spoiled (ledger.step call) ∨ Fit (ledger.step call) after rest
    | none => Spoiled (ledger.step call) := by
  cases call with
  | beginRequest =>
    have began := fit_beginRequest fit
    rw [Phase.next]
    split at began
    case isTrue isIdle =>
      rw [if_pos isIdle]
      exact .inr began
    case isFalse busy =>
      rw [if_neg busy]
      exact began
  | requestBodyWritten =>
    cases allowed
    rcases fit.tracks with ⟨flight, counts, _, received⟩
    exact .inr (fit.keeps nofun rfl rfl ⟨flight, counts, rfl, received⟩)
  | responseHead framing =>
    rcases allowed with isStarted | isWritten
    · subst isStarted
      exact spoiled_early fit
    · subst isWritten
      exact fit_responseHead fit
  | responseBodyBytes octets =>
    by_cases zero : octets = 0
    · have unchanged : ledger.step (.responseBodyBytes octets) = ledger := by
        show ledger.responseBodyBytes octets = ledger
        rw [responseBodyBytes, if_neg fit.notPoisoned, if_pos zero]
      rw [Phase.next, if_pos zero, unchanged]
      exact .inr (fit.keeps nofun rfl rfl fit.tracks)
    · have countable := allowed.resolve_left zero
      rw [Phase.next, if_neg zero]
      cases phase with
      | idle =>
        show Spoiled (ledger.responseBodyBytes octets)
        rw [responseBodyBytes, if_neg fit.notPoisoned, if_neg zero, fit.tracks.1, if_pos rfl]
        exact spoiled_poison ledger _
      | started | written => cases countable
      | headed declared sum => exact fit_responseBodyBytes zero fit countable
  | responseComplete =>
    cases phase with
    | headed declared sum =>
      have completed := fit_responseComplete fit
      rw [Phase.next, Phase.complete]
      split at completed
      case isTrue adds =>
        rw [if_pos adds]
        exact .inr completed
      case isFalse mismatch =>
        rw [if_neg mismatch]
        exact completed
    | _ => cases allowed
  | responseFramingRefused | socketHadTrailingBytes => exact .inl (spoiled_poison ledger _)
  | upstreamClosed =>
    show Spoiled ledger.upstreamClosed ∨ Fit ledger.upstreamClosed phase rest
    unfold upstreamClosed
    split
    · exact .inl (spoiled_poison ledger _)
    · exact .inr (fit.keeps nofun rfl rfl fit.tracks)

lemma allows_of_accepted (moves : phase.next call = some after)
    (accepted : Accepted after calls) : phase.Allows call := by
  cases call with
  | requestBodyWritten =>
    rw [Phase.next] at moves
    split at moves
    case isTrue isStarted => exact isStarted
    case isFalse => cases moves
  | responseHead framing =>
    rw [Phase.next] at moves
    split at moves
    case isTrue isWritten => exact .inr isWritten
    case isFalse => cases moves
  | responseBodyBytes octets =>
    by_cases zero : octets = 0
    · exact .inl zero
    have counts : phase.count octets = some after := by simpa [Phase.next, zero] using moves
    right
    cases phase with
    | headed declared sum =>
      cases counts
      cases declared with
      | none => trivial
      | some len => exact lt_of_le_of_lt (accepted_headed_le accepted) len.toNat_lt
    | _ => cases counts
  | responseComplete =>
    cases phase with
    | headed declared sum => rfl
    | _ => cases moves
  | beginRequest | responseFramingRefused | socketHadTrailingBytes | upstreamClosed => trivial

lemma mayPool_iff : ledger.mayPool ↔ ledger.purity = .clean ∧ ledger.inFlight = false := by
  simp [mayPool]

lemma polices :
    Polices step Phase.next (fun phase => phase = .idle) Phase.Allows Fit Spoiled
      (fun ledger => ledger.mayPool) where
  spoils := fun _ call spoiled => spoiled_step spoiled call
  notGood := fun _ spoiled good => spoiled (mayPool_iff.mp good).1
  final := by
    intro ledger phase fit good
    have flight := inFlight_of_tracks fit.tracks
    rw [(mayPool_iff.mp good).2] at flight
    by_contra busy
    simp [busy] at flight
  follows := fun _ _ _ _ _ fit allowed moves => by simpa [moves] using step_of_allowed fit allowed
  refuses := fun _ _ _ _ fit allowed refused => by
    simpa [refused] using step_of_allowed fit allowed
  allowed := fun _ _ _ _ moves accepted => allows_of_accepted moves accepted

lemma fit_new (few : begins calls < 2 ^ 32) : Fit .new .idle calls where
  clean := rfl
  room := by
    show 0 + begins calls < 2 ^ 32
    omega
  tracks := ⟨rfl, rfl⟩

/-- A connection that may be pooled carried complete exchanges only, exactly when the caller
kept to its part: the ledger does not notice a second head or none, a head outside an
exchange, octets before the head, or a request body reported at another time. -/
theorem splits_iff_disciplined {calls : List Call} (few : begins calls < 2 ^ 32)
    (pooled : (new.run calls).mayPool) :
    Splits calls ↔ Disciplined Phase.next Phase.Allows .idle calls :=
  accepted_iff_splits.symm.trans (polices.accepts_iff (fit_new few) pooled)

def surplusHead : List Call :=
  [.beginRequest, .requestBodyWritten, .responseHead .streamed, .responseComplete,
    .responseHead (.exact 5)]

def shiftedHeads : List Call :=
  [.beginRequest, .requestBodyWritten, .responseHead .streamed, .responseHead (.exact 5),
    .responseBodyBytes 5, .responseComplete, .beginRequest, .responseComplete]

/-- The ledger takes both for complete exchanges. -/
theorem surplusHeads_pooled :
    (new.run surplusHead).mayPool ∧ ¬Splits surplusHead ∧
      (new.run shiftedHeads).mayPool ∧ ¬Splits shiftedHeads := by
  refine ⟨by decide, ?_, by decide, ?_⟩
  · rw [← accepted_iff_splits]
    simp [Accepts, surplusHead, Phase.next, Phase.complete, ResponseFraming.knownLen]
  · rw [← accepted_iff_splits]
    simp [Accepts, shiftedHeads, Phase.next]

def twoExchanges : List Call :=
  [.beginRequest, .requestBodyWritten, .responseHead (.exact 5), .responseBodyBytes 2,
    .responseBodyBytes 3, .responseComplete, .responseBodyBytes 0, .upstreamClosed,
    .beginRequest, .requestBodyWritten, .responseHead .empty, .responseComplete]

theorem twoExchanges_splits : (new.run twoExchanges).mayPool ∧ Splits twoExchanges := by
  have pooled : (new.run twoExchanges).mayPool := by decide
  have disciplined : Disciplined Phase.next Phase.Allows .idle twoExchanges := by
    simp [Disciplined, twoExchanges, Phase.next, Phase.Allows, Phase.count, Phase.MayCount,
      Phase.complete, Phase.isHeaded, ResponseFraming.knownLen]
  exact ⟨pooled, (splits_iff_disciplined (by decide) pooled).mpr disciplined⟩

end IronTraffic.Conn
