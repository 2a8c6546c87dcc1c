import IronTraffic.Upstream.Slots

/-! # Tenancies of the registry

A history of calls on one writer. The identities that were interned and not retired since
are the ones that can be looked up, each under the id that it was given, and an id that was
retired is not given out again before its grace is over.
-/

namespace IronTraffic.Upstream

open List

open EndpointRegistryWriter

/-- A call on the writer. The times are true times: the writer sees them modulo `2 ^ 32`. -/
inductive Call where
  | intern (identity : EndpointIdentity)
  | lookup (identity : EndpointIdentity)
  | retire (id : EndpointId) (timeMs generation : Nat)
  | recycle (timeMs generation : Nat)

def Call.stamp : Call → Option (Nat × Nat)
  | .intern _ => none
  | .lookup _ => none
  | .retire _ timeMs generation => some (timeMs, generation)
  | .recycle timeMs generation => some (timeMs, generation)

def Ordered (calls : List Call) : Prop :=
  (calls.filterMap Call.stamp).Pairwise fun earlier later =>
    earlier.1 ≤ later.1 ∧ earlier.2 ≤ later.2

instance (calls : List Call) : Decidable (Ordered calls) :=
  inferInstanceAs (Decidable (List.Pairwise _ _))

/-- What a call does to a consistent registry, and the tenancy that it begins. -/
inductive Moves (writer : EndpointRegistryWriter) :
    Call → EndpointRegistryWriter → Option (EndpointId × Nat) → Prop
  | rests : Moves writer call writer none
  | occupies (absent : writer.index.lookup key = none) (free : writer.states[slot]? = some .free) :
      Moves writer (.intern identity) (writer.occupy slot key)
        (((writer.occupy slot key).slotGeneration slot).map (slot, ·))
  | withdraws (named : writer.keys[slot]? = some (some key)) :
      Moves writer (.retire slot timeMs generation)
        (writer.withdraw ⟨slot, key, generation, timeMs % 2 ^ 32⟩) none
  | recycles : Moves writer (.recycle timeMs generation)
      (writer.recycle (timeMs % 2 ^ 32) generation).1 none

variable {identity : EndpointIdentity} {key : Bytes} {id : EndpointId}

section Histories

variable (display : AddressDisplay)

def step (writer : EndpointRegistryWriter) : Call → EndpointRegistryWriter
  | .intern identity => (writer.intern display identity).1
  | .lookup _ => writer
  | .retire id timeMs generation => writer.retire id (timeMs % 2 ^ 32) generation
  | .recycle timeMs generation => (writer.recycle (timeMs % 2 ^ 32) generation).1

def serve (start : EndpointRegistryWriter) (calls : List Call) : EndpointRegistryWriter :=
  calls.foldl (step display) start

/-- The key was interned under the id, and the id was not retired since. -/
def Named (start : EndpointRegistryWriter) (calls : List Call) (key : Bytes)
    (id : EndpointId) : Prop :=
  ∃ before identity after, calls = before ++ .intern identity :: after ∧
    identity.identityBytes display false = some key ∧
    ((serve display start before).intern display identity).2 = .ok id ∧
    ∀ timeMs generation, Call.retire id timeMs generation ∉ after

def tenancy (writer : EndpointRegistryWriter) : Call → Option (EndpointId × Nat)
  | .intern identity =>
    if (writer.lookup display identity).isSome then none
    else
      match (writer.intern display identity).2 with
      | .ok id => ((writer.intern display identity).1.slotGeneration id).map (id, ·)
      | .error _ => none
  | _ => none

def tenancies : EndpointRegistryWriter → List Call → List (EndpointId × Nat)
  | _, [] => []
  | writer, call :: calls =>
    (tenancy display writer call).toList ++ tenancies (step display writer call) calls

variable {display} {writer start : EndpointRegistryWriter}

/-! ## One call -/

lemma intern_of_rendered (rendered : identity.identityBytes display false = some key) :
    writer.intern display identity = writer.internKey key := by
  rw [intern, rendered]

lemma intern_of_tooLong (tooLong : identity.identityBytes display false = none) :
    writer.intern display identity = (writer, .error .identityTooLong) := by
  rw [intern, tooLong]

lemma lookup_eq_some :
    writer.lookup display identity = some id ↔
      ∃ key, identity.identityBytes display false = some key ∧
        writer.index.lookup key = some id := by
  rw [EndpointRegistryWriter.lookup, Option.bind_eq_some_iff]

variable (display) in
lemma step_moves (sane : writer.Consistent) (call) :
    Moves writer call (step display writer call) (tenancy display writer call) := by
  cases call with
  | lookup identity => exact .rests
  | recycle timeMs generation => exact .recycles
  | retire id timeMs generation =>
    rw [step, tenancy]
    · rcases sane.retire_cases id (timeMs % 2 ^ 32) generation with
        ⟨_, same⟩ | ⟨_, named, withdrawn⟩
      · rw [same]
        exact .rests
      · rw [withdrawn]
        exact .withdraws named
    · nofun
  | intern identity =>
    rw [step, tenancy, EndpointRegistryWriter.lookup]
    cases rendered : identity.identityBytes display false with
    | none =>
      rw [intern_of_tooLong rendered]
      exact .rests
    | some key =>
      rw [intern_of_rendered rendered, Option.bind_some]
      rcases sane.internKey_cases key with
        ⟨_, there, same⟩ | ⟨absent, _, same⟩ | ⟨absent, _, slot, free, moved⟩
      · rw [same, there]
        exact .rests
      · rw [same, absent]
        exact .rests
      · rw [moved, absent]
        exact .occupies absent free

variable (display) in
lemma step_consistent (sane : writer.Consistent) (call : Call) :
    (step display writer call).Consistent := by
  have moves := step_moves display sane call
  generalize step display writer call = after, tenancy display writer call = begun at moves ⊢
  cases moves with
  | rests => exact sane
  | occupies absent free => exact sane.occupy free absent
  | withdraws named => exact sane.withdraw named
  | recycles => exact sane.recycle _ _

lemma step_lookup_iff (sane : writer.Consistent) (call : Call) :
    (step display writer call).index.lookup key = some id ↔ (writer.index.lookup key = some id ∧
          ∀ timeMs generation, call ≠ .retire id timeMs generation) ∨
        ∃ identity, call = .intern identity ∧ identity.identityBytes display false = some key ∧
          (writer.intern display identity).2 = .ok id := by
  cases call with
  | lookup identity => simp [step]
  | recycle timeMs generation => simp [step, recycle_frame]
  | retire other timeMs generation =>
    have unnamed : (∃ identity, Call.retire other timeMs generation = .intern identity ∧
        identity.identityBytes display false = some key ∧
        (writer.intern display identity).2 = .ok id) ↔ False := by
      simp
    have notOther : (∀ time at', Call.retire other timeMs generation ≠ .retire id time at') ↔
        other ≠ id := by
      simp
    rw [unnamed, or_false, notOther]
    show (writer.retire other (timeMs % 2 ^ 32) generation).index.lookup key = some id ↔ _
    have indexed := sane.indexed
    rcases sane.retire_cases other (timeMs % 2 ^ 32) generation with
      ⟨asleep, same⟩ | ⟨otherKey, named, withdrawn⟩
    · rw [same]
      refine ⟨?_, And.left⟩
      intro hit
      refine ⟨hit, ?_⟩
      rintro rfl
      exact asleep (sane.live_of_named ((indexed key other).mp hit))
    · rw [withdrawn]
      show (removeKey writer.index otherKey).lookup key = some id ↔ _
      rw [lookup_removeKey]
      have there := (indexed otherKey other).mpr named
      grind
  | intern identity =>
    show (writer.intern display identity).1.index.lookup key = some id ↔ _
    cases rendered : identity.identityBytes display false with
    | none => simp [intern_of_tooLong, rendered]
    | some other =>
      have begins : (∃ given, Call.intern identity = .intern given ∧
          given.identityBytes display false = some key ∧
          (writer.intern display given).2 = .ok id) ↔
            other = key ∧ (writer.internKey other).2 = .ok id := by
        simp [rendered, intern_of_rendered rendered]
      rw [begins, intern_of_rendered rendered]
      rcases sane.internKey_cases other with
        ⟨hit, there, same⟩ | ⟨_, _, same⟩ | ⟨absent, _, slot, free, moved⟩
      · rw [same]
        grind
      · rw [same]
        simp
      · rw [moved]
        show (insertKey writer.index other slot).lookup key = some id ↔ _
        rw [lookup_insertKey]
        grind

lemma intern_id_awake (sane : writer.Consistent)
    (given : (writer.intern display identity).2 = .ok id) : writer.states[id]? ≠ some .retired := by
  cases rendered : identity.identityBytes display false with
  | none =>
    rw [intern_of_tooLong rendered] at given
    cases given
  | some key =>
    rw [intern_of_rendered rendered] at given
    rcases sane.internKey_cases key with
      ⟨hit, there, same⟩ | ⟨_, _, same⟩ | ⟨_, _, slot, free, moved⟩
    · rw [same] at given
      cases given
      rw [sane.live_of_named ((sane.indexed key id).mp there)]
      simp
    · rw [same] at given
      cases given
    · rw [moved] at given
      cases given
      rw [free]
      simp

/-! ## The grace of a retired id -/

lemma wrappingSub32_le (order : earlier ≤ later) :
    wrappingSub32 (later % 2 ^ 32) (earlier % 2 ^ 32) ≤ later - earlier := by
  unfold wrappingSub32
  omega

lemma step_keeps_resting (sane : writer.Consistent) (call : Call)
    (resting : ⟨id, key, atGeneration, atMs % 2 ^ 32⟩ ∈ writer.retired)
    (later : ∀ stamp, call.stamp = some stamp → atMs ≤ stamp.1)
    (early : ∀ timeMs generation, call = .recycle timeMs generation →
      ¬(atMs + recycleGraceMs ≤ timeMs ∧
        saturatingAdd64 atGeneration recycleGraceGenerations ≤ generation)) :
    ⟨id, key, atGeneration, atMs % 2 ^ 32⟩ ∈ (step display writer call).retired := by
  have moves := step_moves display sane call
  generalize step display writer call = after, tenancy display writer call = begun at moves ⊢
  cases moves with
  | rests | occupies => exact resting
  | withdraws => exact mem_append_left _ resting
  | @recycles timeMs generation =>
    apply recycle_keeps_ineligible resting
    have after := wrappingSub32_le (later (timeMs, generation) rfl)
    have notYet := early timeMs generation rfl
    rw [eligible, Bool.and_eq_false_iff, decide_eq_false_iff_not, decide_eq_false_iff_not]
    simp only at after ⊢
    have passed := later (timeMs, generation) rfl
    omega

/-! ## Whole histories -/

lemma serve_append (calls more) :
    serve display start (calls ++ more) = serve display (serve display start calls) more :=
  foldl_append

lemma Named.snoc (named : Named display start calls key id)
    (stays : ∀ timeMs generation, call ≠ .retire id timeMs generation) :
    Named display start (calls ++ [call]) key id := by
  rcases named with ⟨before, identity, after, split, rendered, given, kept⟩
  refine ⟨before, identity, after ++ [call], by simp [split], rendered, given, ?_⟩
  intro timeMs generation mem
  rcases mem_append.mp mem with there | last
  · exact kept timeMs generation there
  · exact stays timeMs generation (mem_singleton.mp last).symm

lemma step_capacity (sane : writer.Consistent) (call : Call) :
    (step display writer call).capacity = writer.capacity := by
  have moves := step_moves display sane call
  generalize step display writer call = after, tenancy display writer call = begun at moves ⊢
  cases moves with
  | rests | occupies | withdraws => rfl
  | recycles => exact (recycle_frame writer _ _).2.2

section

variable (sane : start.Consistent)

include sane

variable (display) in
lemma serve_consistent (calls) : (serve display start calls).Consistent := by
  induction calls generalizing start with
  | nil => exact sane
  | cons call calls induction => exact induction (step_consistent display sane call)

lemma serve_lookup_iff (empty : start.index = []) (calls) :
    (serve display start calls).index.lookup key = some id ↔ Named display start calls key id := by
  constructor
  · intro hit
    induction calls using reverseRecOn with
    | nil =>
      have nothing : start.index.lookup key = some id := hit
      rw [empty] at nothing
      cases nothing
    | append_singleton calls call induction =>
      rw [serve_append] at hit
      rcases (step_lookup_iff (serve_consistent display sane calls) call).mp hit with
        ⟨before, stays⟩ | ⟨identity, isIntern, rendered, given⟩
      · exact (induction before).snoc stays
      · subst isIntern
        exact ⟨calls, identity, [], rfl, rendered, given, by simp⟩
  · rintro ⟨before, identity, after, rfl, rendered, given, kept⟩
    induction after using reverseRecOn with
    | nil =>
      rw [serve_append]
      exact (step_lookup_iff (serve_consistent display sane before) _).mpr
        (.inr ⟨identity, rfl, rendered, given⟩)
    | append_singleton after call induction =>
      have earlier := induction fun timeMs generation mem =>
        kept timeMs generation (mem_append_left _ mem)
      have regroup : before ++ Call.intern identity :: (after ++ [call]) =
          (before ++ .intern identity :: after) ++ [call] := by
        simp
      rw [regroup, serve_append]
      refine (step_lookup_iff (serve_consistent display sane _) call).mpr (.inl ⟨earlier, ?_⟩)
      rintro timeMs generation rfl
      exact kept timeMs generation (by simp)

lemma serve_capacity (calls) : (serve display start calls).capacity = start.capacity := by
  induction calls generalizing start with
  | nil => rfl
  | cons call calls induction =>
    exact (induction (step_consistent display sane call)).trans (step_capacity sane call)

lemma serve_keeps_resting (calls) (resting : ⟨id, key, atGeneration, atMs % 2 ^ 32⟩ ∈ start.retired)
    (later : ∀ stamp ∈ calls.filterMap Call.stamp, atMs ≤ stamp.1)
    (early : ∀ timeMs generation, Call.recycle timeMs generation ∈ calls →
        ¬(atMs + recycleGraceMs ≤ timeMs ∧
          saturatingAdd64 atGeneration recycleGraceGenerations ≤ generation)) :
    ⟨id, key, atGeneration, atMs % 2 ^ 32⟩ ∈ (serve display start calls).retired := by
  induction calls generalizing start with
  | nil => exact resting
  | cons call calls induction =>
    apply induction (step_consistent display sane call)
    · apply step_keeps_resting sane call resting
      · intro stamp stamped
        exact later stamp (mem_filterMap.mpr ⟨call, mem_cons_self, stamped⟩)
      · rintro timeMs generation rfl
        exact early timeMs generation mem_cons_self
    · intro stamp mem
      rcases mem_filterMap.mp mem with ⟨given, there, stamped⟩
      exact later stamp (mem_filterMap.mpr ⟨given, mem_cons_of_mem _ there, stamped⟩)
    · intro timeMs generation mem
      exact early timeMs generation (mem_cons_of_mem _ mem)

lemma recycled_before_reuse (ordered : Ordered (before ++ .retire id atMs atGeneration :: middle))
    (live : (serve display start before).states[id]? = some .live)
    (given : ((serve display start (before ++ .retire id atMs atGeneration :: middle)).intern
      display identity).2 = .ok id) :
    ∃ timeMs generation, Call.recycle timeMs generation ∈ middle ∧
      atMs + recycleGraceMs ≤ timeMs ∧
      saturatingAdd64 atGeneration recycleGraceGenerations ≤ generation := by
  by_contra never
  simp only [not_exists, not_and] at never
  have after : ((atMs, atGeneration) :: middle.filterMap Call.stamp).Pairwise
      fun earlier later => earlier.1 ≤ later.1 ∧ earlier.2 ≤ later.2 := by
    rw [Ordered, filterMap_append] at ordered
    exact (pairwise_append.mp ordered).2.1
  have earlier : (serve display start before).Consistent := serve_consistent display sane before
  rw [serve_append] at given
  rcases earlier.retire_cases id (atMs % 2 ^ 32) atGeneration with
    ⟨asleep, _⟩ | ⟨key, named, withdrawn⟩
  · exact asleep live
  have resting : (⟨id, key, atGeneration, atMs % 2 ^ 32⟩ : Retired) ∈
      (step display (serve display start before) (.retire id atMs atGeneration)).retired := by
    show _ ∈ ((serve display start before).retire id (atMs % 2 ^ 32) atGeneration).retired
    rw [withdrawn]
    exact mem_append_right _ mem_cons_self
  have following := step_consistent display earlier (.retire id atMs atGeneration)
  have stillResting : _ ∈ (serve display _ middle).retired :=
    serve_keeps_resting following middle resting
      (fun stamp mem => (rel_of_pairwise_cons after mem).1)
      (fun timeMs generation mem late => never timeMs generation mem late.1 late.2)
  apply intern_id_awake (serve_consistent display following middle) given
  rw [← (serve_consistent display following middle).resting]
  exact mem_map_of_mem stillResting

end

/-! ## Generations of a slot -/

/-- A call begins no tenancy of the id and keeps its generation, or it begins the next one. -/
lemma step_generations (sane : writer.Consistent) (call : Call) (id) :
    ((tenancy display writer call).toList.filter (fun tenancy => tenancy.1 = id) = [] ∧
        (step display writer call).slotGeneration id = writer.slotGeneration id) ∨
      ∃ generation, writer.slotGeneration id = some generation ∧
        (tenancy display writer call).toList.filter (fun tenancy => tenancy.1 = id) =
          [(id, (generation + 1) % 2 ^ 32)] ∧
        (step display writer call).slotGeneration id = some ((generation + 1) % 2 ^ 32) := by
  have moves := step_moves display sane call
  generalize step display writer call = after, tenancy display writer call = begun at moves ⊢
  cases moves with
  | rests | withdraws => exact .inl ⟨rfl, rfl⟩
  | recycles =>
    refine .inl ⟨rfl, ?_⟩
    rw [slotGeneration, (recycle_frame writer _ _).2.1]
    rfl
  | @occupies key slot _ _ free =>
    have inside : slot < writer.stats.length := by
      rw [sane.stats_length, ← sane.states_length]
      exact (List.getElem?_eq_some_iff.mp free).1
    have stats := getElem?_eq_getElem inside
    have next : (writer.occupy slot key).slotGeneration slot =
        some ((writer.stats[slot].generation + 1) % 2 ^ 32) := by
      simp [slotGeneration, occupy, stats, resetStats]
    rw [next]
    by_cases isSlot : slot = id
    · subst isSlot
      refine .inr ⟨writer.stats[slot].generation, ?_, by simp, next⟩
      rw [slotGeneration, stats]
      rfl
    · refine .inl ⟨by simp [isSlot], ?_⟩
      simp [slotGeneration, occupy, isSlot]

lemma tenancies_generations (sane : writer.Consistent)
    (now : writer.slotGeneration id = some generation) (small : generation < 2 ^ 32) (calls) :
    ∃ count, (tenancies display writer calls).filter (fun tenancy => tenancy.1 = id) =
      (List.range count).map (fun turn => (id, (generation + 1 + turn) % 2 ^ 32)) ∧
      (serve display writer calls).slotGeneration id = some ((generation + count) % 2 ^ 32) := by
  induction calls generalizing writer generation with
  | nil => exact ⟨0, rfl, by rw [add_zero, Nat.mod_eq_of_lt small]; exact now⟩
  | cons call calls induction =>
    have following := step_consistent display sane call
    rw [tenancies, filter_append]
    rcases step_generations sane call id with ⟨nothing, same⟩ | ⟨old, was, begins, after⟩
    · rw [nothing]
      exact induction following (same.trans now) small
    · rw [begins]
      cases now.symm.trans was
      have bounded : (generation + 1) % 2 ^ 32 < 2 ^ 32 := Nat.mod_lt _ (by decide)
      rcases induction following after bounded with ⟨count, rest, last⟩
      refine ⟨count + 1, ?_, ?_⟩
      · rw [rest, range_succ_eq_map, map_cons, map_map]
        have next : ∀ turn, ((generation + 1) % 2 ^ 32 + 1 + turn) % 2 ^ 32 =
            (generation + 1 + (turn + 1)) % 2 ^ 32 := by
          omega
        simp only [next]
        simp [Function.comp_def]
      · refine last.trans (congrArg some ?_)
        omega

lemma tenancies_outside (sane : writer.Consistent)
    (outside : writer.slotGeneration id = none) (calls) :
    (tenancies display writer calls).filter (fun tenancy => tenancy.1 = id) = [] := by
  induction calls generalizing writer with
  | nil => rfl
  | cons call calls induction =>
    rw [tenancies, filter_append]
    rcases step_generations sane call id with ⟨nothing, same⟩ | ⟨old, was, _⟩
    · rw [nothing]
      exact induction (step_consistent display sane call) (same.trans outside)
    · cases outside.symm.trans was

end Histories

end IronTraffic.Upstream
