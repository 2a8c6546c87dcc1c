import IronTraffic.Concurrency.Window
import IronTraffic.Health.Schedule

/-! # The gradient controller

A loss is noted on the request path and acted upon when the window closes, behind two exits: one
for a window without samples, one for want of a baseline. Both reset the window, the loss with it.
-/

namespace IronTraffic.Concurrency

open Health List

structure GradientConfig where
  windowMinMs : Nat
  windowMinSamples : Nat
  baseWindows : Nat
  /-- `u32` -/
  samplesWord : windowMinSamples ≤ u32Max

/-- The histogram, and the arithmetic of the limit with its configured factors. -/
structure Law (Hist Limit : Type) where
  cleared : Hist
  record : Hist → Nat → Hist
  median : Hist → Nat
  minLimit : Limit
  fastDown : Limit → Limit
  appLimited : Nat → Limit → Bool
  /-- `gradient < 1.0` -/
  contracts : Nat → Nat → Bool
  smoothed : Nat → Nat → Limit → Limit
  doubled : Limit → Limit

structure GradientController (Hist Limit : Type) where
  limit : Limit
  hist : Hist
  base : MonotonicMinDeque
  windowStarted : Millis
  samplesThisWindow : Nat
  lossThisWindow : Bool
  slowStart : Bool
  inflightPeak : Nat
  windows : Nat
  fastDowns : Nat

inductive Call where
  | recordSample (rtt : Nat) | noteLoss | noteInflight (inflight : Nat)
  | maybeCloseWindow (now : Millis)

namespace GradientController

variable {Hist Limit : Type} (law : Law Hist Limit) (cfg : GradientConfig)

def new (now : Millis) : GradientController Hist Limit :=
  ⟨law.minLimit, law.cleared, .new cfg.baseWindows, now, 0, false, true, 0, 0, 0⟩

def resetWindow (controller : GradientController Hist Limit) (now : Millis) :
    GradientController Hist Limit :=
  { controller with
    hist := law.cleared, samplesThisWindow := 0, lossThisWindow := false, inflightPeak := 0
    windowStarted := now }

variable (controller : GradientController Hist Limit)

def due (now : Millis) : Prop :=
  let elapsed := now.since controller.windowStarted
  cfg.windowMinMs ≤ elapsed ∧ cfg.windowMinSamples ≤ controller.samplesThisWindow ∨
    10 * cfg.windowMinMs ≤ elapsed

instance (now : Millis) : Decidable (controller.due cfg now) := by
  unfold due
  infer_instance

def rttShort : Nat := max (law.median controller.hist) 1

/-- Only a window with enough samples enters the baseline. -/
def baseline : MonotonicMinDeque :=
  if cfg.windowMinSamples ≤ controller.samplesThisWindow then
    controller.base.push (controller.rttShort law)
  else controller.base

/-- The limit and whether slow start goes on. -/
def adjust (limit : Limit) (rttBase : Nat) : Limit × Bool :=
  let rttShort := controller.rttShort law
  if law.appLimited controller.inflightPeak limit then (limit, controller.slowStart)
  else if controller.slowStart ∧ ¬law.contracts rttBase rttShort then (law.doubled limit, true)
  else (law.smoothed rttBase rttShort limit, false)

def maybeCloseWindow (now : Millis) : GradientController Hist Limit :=
  if controller.due cfg now then
    let closing := { controller with windows := saturatingAdd64 controller.windows 1 }
    if controller.samplesThisWindow = 0 then resetWindow law closing now
    else
      let base := controller.baseline law cfg
      match base.min with
      | none => resetWindow law { closing with base } now
      | some rttBase =>
        let fastDown := controller.lossThisWindow
        let limit := if fastDown then law.fastDown controller.limit else controller.limit
        let adjusted := controller.adjust law limit rttBase
        resetWindow law { closing with
          base, limit := adjusted.1, slowStart := adjusted.2
          fastDowns := if fastDown then saturatingAdd64 controller.fastDowns 1
            else controller.fastDowns } now
  else controller

def call : Call → GradientController Hist Limit
  | .recordSample rtt => { controller with
      hist := law.record controller.hist (min (max rtt 1) 60000000)
      samplesThisWindow := saturatingAdd32 controller.samplesThisWindow 1 }
  | .noteLoss => { controller with lossThisWindow := true }
  | .noteInflight inflight =>
    { controller with inflightPeak := max controller.inflightPeak inflight }
  | .maybeCloseWindow now => controller.maybeCloseWindow law cfg now

variable {law cfg controller}

/-! ## The windows of a run

Which calls close a window, and how many samples it has then, is read off the calls alone. -/

def sampleCount (calls : List Call) : Nat :=
  calls.countP fun
    | .recordSample _ => true
    | _ => false

section

variable (cfg) (opened : Millis)

def Closes (now : Millis) (samples : Nat) : Prop :=
  cfg.windowMinMs ≤ now.since opened ∧ cfg.windowMinSamples ≤ samples ∨
    10 * cfg.windowMinMs ≤ now.since opened

/-- No call of these closes the window they are in. -/
def Quiet (calls : List Call) : Prop :=
  ∀ front now, front ++ [.maybeCloseWindow now] <+: calls →
    ¬Closes cfg opened now (sampleCount front)

end

/-- Calls that end with a window, the time it ended, and the samples of every window so far. -/
inductive History (cfg : GradientConfig) (start : Millis) : List Call → Millis → List Nat → Prop
  | initial : History cfg start [] start []
  | close (before : History cfg start calls opened counts) (quiet : Quiet cfg opened window)
      (closes : Closes cfg opened now (sampleCount window)) :
      History cfg start (calls ++ window ++ [.maybeCloseWindow now]) now
        (sampleCount window :: counts)

lemma quiet_nil (cfg) (opened : Millis) : Quiet cfg opened [] :=
  fun _ _ start => absurd (prefix_nil.mp start) (by simp)

/-- Every run is a history and the calls of a window that is still open. -/
lemma exists_history (cfg) (start : Millis) (calls : List Call) :
    ∃ before window opened counts, calls = before ++ window ∧
      History cfg start before opened counts ∧ Quiet cfg opened window := by
  induction calls using reverseRecOn with
  | nil => exact ⟨[], [], start, [], rfl, .initial, quiet_nil cfg start⟩
  | append_singleton calls last induction =>
    rcases induction with ⟨before, window, opened, counts, rfl, history, quiet⟩
    by_cases closes : ∃ now, last = .maybeCloseWindow now ∧
        Closes cfg opened now (sampleCount window)
    · rcases closes with ⟨now, rfl, closes⟩
      exact ⟨_, [], now, _, (append_nil _).symm, history.close quiet closes, quiet_nil cfg now⟩
    · refine ⟨before, window ++ [last], opened, counts, append_assoc _ _ _, history, ?_⟩
      intro front now start
      rcases prefix_concat_iff.mp start with whole | inside
      · rcases append_inj' whole rfl with ⟨rfl, same⟩
        exact fun due => closes ⟨now, (singleton_inj.mp same).symm, due⟩
      · exact quiet front now inside

/-- A controller in a window that was opened with this baseline and has seen these calls. -/
structure Within (opened : Millis) (calls : List Call) (deque : MonotonicMinDeque)
    (controller : GradientController Hist Limit) : Prop where
  started : controller.windowStarted = opened
  samples : controller.samplesThisWindow = min (sampleCount calls) (2 ^ 32 - 1)
  loss : controller.lossThisWindow ↔ .noteLoss ∈ calls
  kept : controller.base = deque

lemma Within.enough_iff (within : Within opened calls deque controller) :
    cfg.windowMinSamples ≤ controller.samplesThisWindow ↔
      cfg.windowMinSamples ≤ sampleCount calls := by
  rw [within.samples, le_min_iff]
  exact and_iff_left cfg.samplesWord

lemma Within.empty_iff (within : Within opened calls deque controller) :
    controller.samplesThisWindow = 0 ↔ sampleCount calls = 0 := by
  rw [within.samples]
  omega

lemma Within.due_iff (within : Within opened calls deque controller) :
    controller.due cfg now ↔ Closes cfg opened now (sampleCount calls) := by
  rw [due, within.enough_iff, within.started, Closes]

lemma noteLoss_mem_append (other : last ≠ Call.noteLoss) :
    .noteLoss ∈ calls ↔ .noteLoss ∈ calls ++ [last] := by
  rw [mem_append, mem_singleton, or_iff_left other.symm]

lemma Within.quiet (law) (within : Within opened [] deque controller)
    (quiet : Quiet cfg opened calls) :
    Within opened calls deque (calls.foldl (call law cfg) controller) := by
  induction calls using reverseRecOn with
  | nil => exact within
  | append_singleton calls last induction =>
    have earlier := induction fun front now start =>
      quiet front now (start.trans (prefix_append calls [last]))
    rw [foldl_append]
    cases last with
    | recordSample rtt =>
      refine ⟨earlier.started, ?_, earlier.loss.trans (noteLoss_mem_append (by simp)), earlier.kept⟩
      simp only [foldl_cons, foldl_nil, call, earlier.samples, saturatingAdd32, sampleCount,
        countP_append, countP_singleton, ↓reduceIte]
      omega
    | noteLoss =>
      exact ⟨earlier.started, by simpa [sampleCount, call] using earlier.samples, by simp [call],
        earlier.kept⟩
    | noteInflight inflight =>
      exact ⟨earlier.started, by simpa [sampleCount, call] using earlier.samples,
        earlier.loss.trans (noteLoss_mem_append (by simp)), earlier.kept⟩
    | maybeCloseWindow now =>
      rw [foldl_cons, foldl_nil, call, maybeCloseWindow,
        if_neg (earlier.due_iff.not.mpr (quiet calls now prefix_rfl))]
      exact ⟨earlier.started, by simpa [sampleCount] using earlier.samples,
        earlier.loss.trans (noteLoss_mem_append (by simp)), earlier.kept⟩

lemma within_maybeCloseWindow (law : Law Hist Limit) (closes : controller.due cfg now) :
    Within now [] (if controller.samplesThisWindow = 0 then controller.base
      else controller.baseline law cfg) (controller.maybeCloseWindow law cfg now) := by
  rw [maybeCloseWindow, if_pos closes]
  by_cases empty : controller.samplesThisWindow = 0
  · rw [if_pos empty, if_pos empty]
    exact ⟨rfl, rfl, by simp [resetWindow], rfl⟩
  · rw [if_neg empty, if_neg empty]
    cases isMin : (controller.baseline law cfg).min with
    | none | some =>
      simp only [isMin]
      exact ⟨rfl, rfl, by simp [resetWindow], rfl⟩

/-- There is a baseline once a window with enough samples, and at least one, has closed. -/
lemma baseline_isSome_iff (within : Within opened window deque controller)
    (positive : 0 < deque.capacity) :
    (controller.baseline law cfg).min.isSome ↔
      cfg.windowMinSamples ≤ sampleCount window ∨ deque.min.isSome := by
  rw [baseline, within.kept]
  split_ifs with enough
  · exact iff_of_true (MonotonicMinDeque.min_push_isSome positive)
      (.inl (within.enough_iff.mp enough))
  · rw [or_iff_right (within.enough_iff.not.mp enough)]

/-- A window with enough samples, and at least one, leaves a baseline for good. -/
lemma History.within (history : History cfg start calls opened counts) :
    ∃ deque, Within opened [] deque (calls.foldl (call law cfg) (new law cfg start)) ∧
      0 < deque.capacity ∧
      (deque.min.isSome ↔ ∃ count ∈ counts, 0 < count ∧ cfg.windowMinSamples ≤ count) := by
  induction history with
  | initial =>
    refine ⟨_, ⟨rfl, rfl, by simp [new], rfl⟩, ?_, ?_⟩
    · exact lt_of_lt_of_le Nat.one_pos (le_max_right _ _)
    · simp [new, MonotonicMinDeque.new, MonotonicMinDeque.min]
  | close before quiet closes induction =>
    rcases induction with ⟨deque, opens, positive, represented⟩
    have within := opens.quiet law quiet
    have next := within_maybeCloseWindow law (within.due_iff.mpr closes)
    rw [foldl_append, foldl_append]
    refine ⟨_, next, ?_, ?_⟩
    · split_ifs
      · rwa [within.kept]
      · rw [baseline, within.kept]
        split_ifs <;> exact positive
    · rw [exists_mem_cons_iff, ← represented]
      split_ifs with empty
      · rw [within.kept, within.empty_iff.mp empty]
        simp
      · rw [baseline_isSome_iff within positive,
          and_iff_right (Nat.pos_of_ne_zero (within.empty_iff.not.mp empty))]

lemma fastDowns_maybeCloseWindow (closes : controller.due cfg now)
    (noted : controller.lossThisWindow) :
    (controller.maybeCloseWindow law cfg now).fastDowns =
      if controller.samplesThisWindow ≠ 0 ∧ (controller.baseline law cfg).min.isSome then
        saturatingAdd64 controller.fastDowns 1
      else controller.fastDowns := by
  rw [maybeCloseWindow, if_pos closes]
  by_cases empty : controller.samplesThisWindow = 0
  · simp [empty, resetWindow]
  · cases isMin : (controller.baseline law cfg).min <;> simp [empty, resetWindow, noted, isMin]

/-- The window that closes on a loss makes a fast-down exactly if it has samples, and it or a window
before it has enough of them. -/
theorem fastDown_iff (law : Law Hist Limit) (cfg) (start : Millis) (run : List Call)
    (reached : run.foldl (call law cfg) (new law cfg start) = closing)
    (few : closing.fastDowns < u64Max) :
    (∃ calls window opened counts, run = calls ++ window ∧
      History cfg start calls opened counts ∧ Quiet cfg opened window) ∧
    ∀ calls window opened counts, run = calls ++ window → History cfg start calls opened counts →
      Quiet cfg opened window → .noteLoss ∈ window →
      ∀ now, Closes cfg opened now (sampleCount window) →
        ((closing.call law cfg (.maybeCloseWindow now)).fastDowns = closing.fastDowns + 1 ↔
          0 < sampleCount window ∧
            ∃ count ∈ sampleCount window :: counts, 0 < count ∧ cfg.windowMinSamples ≤ count) := by
  refine ⟨exists_history cfg start run, ?_⟩
  rintro calls window opened counts rfl history quiet noted now closes
  rcases history.within with ⟨deque, opens, positive, represented⟩
  have within := opens.quiet law quiet
  rw [← foldl_append, reached] at within
  have acts : closing.samplesThisWindow ≠ 0 ∧ (closing.baseline law cfg).min.isSome ↔
      0 < sampleCount window ∧
        ∃ count ∈ sampleCount window :: counts, 0 < count ∧ cfg.windowMinSamples ≤ count := by
    rw [ne_eq, within.empty_iff, ← ne_eq, ← Nat.pos_iff_ne_zero,
      baseline_isSome_iff within positive, exists_mem_cons_iff, ← represented]
    exact and_congr_right fun some => by rw [and_iff_right some]
  rw [← acts, call, fastDowns_maybeCloseWindow (within.due_iff.mpr closes) (within.loss.mpr noted)]
  split_ifs with holds
  · exact iff_of_true (min_eq_left few) holds
  · exact iff_of_false (Nat.lt_succ_self _).ne holds

def steadyLaw : Law Unit Unit :=
  ⟨(), fun _ _ => (), fun _ => 1, (), id, fun _ _ => true, fun _ _ => false, fun _ _ => id, id⟩

def steady : GradientConfig := ⟨100, 2, 600, by decide⟩

/-- A window of losses alone. -/
theorem loss_without_samples :
    let closed := [.noteLoss, .maybeCloseWindow 1000].foldl (call steadyLaw steady)
      (new steadyLaw steady 0)
    closed.windows = 1 ∧ closed.fastDowns = 0 := by
  decide

/-- A loss in a window with one sample, after a window with two. -/
theorem loss_after_samples :
    ([.recordSample 5, .recordSample 7, .maybeCloseWindow 100, .recordSample 5, .noteLoss,
      .maybeCloseWindow 1100].foldl (call steadyLaw steady)
      (new steadyLaw steady 0)).fastDowns = 1 := by
  have quiet : ∀ opened calls, (∀ now, Call.maybeCloseWindow now ∉ calls) →
      Quiet steady opened calls :=
    fun opened calls none front now start =>
      absurd (start.subset (mem_append_right _ mem_cons_self)) (none now)
  have history : History steady 0 _ 100 [2] :=
    .close .initial (quiet 0 [.recordSample 5, .recordSample 7] (by simp)) (.inl (by decide))
  have closes : Closes steady 100 1100 1 := .inr (by decide)
  have acts := (fastDown_iff steadyLaw steady 0 _ rfl (by decide)).2 _ _ _ _ rfl history
    (quiet 100 [.recordSample 5, .noteLoss] (by simp)) (by simp) 1100 closes
  exact acts.mpr ⟨by decide, 2, by simp, by decide, by decide⟩

end GradientController

end IronTraffic.Concurrency
