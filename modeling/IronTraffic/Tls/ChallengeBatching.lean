import IronTraffic.Tls.ChallengeMap

/-! # Updates on two challenge builders

One builder takes all updates, the other is flushed after each. They hold the same live
challenges.
-/

namespace IronTraffic.Tls

open List

variable {hashing : Hashing} {names : List Bytes} {now : Nat}

lemma live_live (now : Nat) (challenge) :
    live now (live now challenge) = live now challenge := by
  cases challenge with
  | none => rfl
  | some challenge =>
    rw [live_some]
    by_cases expired : challenge.expires ≤ now
    · rw [if_pos expired]
      rfl
    · rw [if_neg expired, live_some, if_neg expired]

lemma WellStaged.insert {builder after : ChallengeCertsBuilder}
    (staged : WellStaged names builder.entries)
    (inPlay : ∀ normalized, normalize name = .ok normalized → normalized ∈ names)
    (gave : builder.insert name key expires = .ok after) :
    WellStaged names after.entries ∧ after.hasher = builder.hasher ∧
    ∃ normalized, normalize name = .ok normalized ∧
      after.entries = insertKey builder.entries normalized ⟨key, expires⟩ := by
  unfold ChallengeCertsBuilder.insert at gave
  rcases bind_eq_ok_iff.mp gave with ⟨normalizedName, mapped, gave⟩
  have normalized := mapError_eq_ok_iff.mp mapped
  rcases of_ite_error gave with ⟨full, gave⟩
  cases gave
  refine ⟨⟨nodup_insertKey staged.nodup _ _, ?_, ?_⟩, rfl, normalizedName, normalized, rfl⟩
  · intro entry mem
    rcases mem_cons.mp mem with isNew | old
    · rw [isNew]
      exact ⟨(normalize_ok normalized).1, inPlay normalizedName normalized⟩
    · exact staged.normal entry (mem_filter.mp old).1
  · refine length_insertKey_le _ staged.small ?_
    intro absent
    exact not_le.mp fun long => full ⟨absent, long⟩

variable {builder : ChallengeCertsBuilder}

lemma WellStaged.remove (staged : WellStaged names builder.entries) (name : Bytes) :
    WellStaged names (builder.remove name).entries := by
  unfold ChallengeCertsBuilder.remove
  cases normalize name with
  | error error => exact staged
  | ok normalized =>
    refine ⟨nodup_removeKey staged.nodup _, ?_, ?_⟩
    · intro entry mem
      exact staged.normal entry (mem_filter.mp mem).1
    · exact le_trans (length_filter_le _ _) staged.small

/-- The builders of challenge maps that some calls lead to. -/
inductive ChallengeCertsBuilder.Reachable (hashing : Hashing) : ChallengeCertsBuilder → Prop where
  | new (seed : Bytes) : Reachable hashing (.new seed)
  | insert {builder after : ChallengeCertsBuilder} {name : Bytes} {key : Address} {expires : Nat} :
      Reachable hashing builder → builder.insert name key expires = .ok after →
      Reachable hashing after
  | remove {builder : ChallengeCertsBuilder} (name : Bytes) :
      Reachable hashing builder → Reachable hashing (builder.remove name)
  | fromPrevious {builder : ChallengeCertsBuilder} {iteration : Iteration} {generation : Nat}
      {certs : ChallengeCerts} (now : Nat) :
      Reachable hashing builder →
      builder.buildWithGeneration hashing iteration generation = .ok certs →
      Reachable hashing (.fromPrevious certs now)

lemma WellStaged.mono (staged : WellStaged names entries)
    (within : ∀ entry ∈ entries, entry.1 ∈ more) : WellStaged more entries :=
  { staged with normal := fun entry mem => ⟨(staged.normal entry mem).1, within entry mem⟩ }

lemma ChallengeCertsBuilder.Reachable.wellStaged (reachable : Reachable hashing builder) :
    WellStaged (builder.entries.map Prod.fst) builder.entries := by
  have enough : ∃ names, WellStaged names builder.entries := by
    induction reachable with
    | new seed => exact ⟨[], nodup_nil, fun entry mem => (by cases mem), Nat.zero_le _⟩
    | @insert builder after name key expires _ gave induction =>
      rcases induction with ⟨names, staged⟩
      refine ⟨names ++ (normalize name).toOption.toList, ?_⟩
      refine (WellStaged.insert (staged.mono ?_) ?_ gave).1
      · intro entry mem
        exact mem_append_left _ (staged.normal entry mem).2
      · intro normalized hit
        rw [hit]
        exact mem_append_right _ mem_cons_self
    | remove name _ induction =>
      rcases induction with ⟨names, staged⟩
      exact ⟨names, staged.remove name⟩
    | fromPrevious now _ gave induction =>
      rcases induction with ⟨names, staged⟩
      exact ⟨names, wellStaged_fromPrevious (within_of_build staged gave).2.1 staged now⟩
  rcases enough with ⟨names, staged⟩
  exact staged.mono fun entry mem => mem_map_of_mem mem

/-- The builder that is flushed after each update, and the one that is not. -/
structure ChallengeAgree (now : Nat) (names : List Bytes) (step batch : ChallengeCertsBuilder) :
    Prop where
  hasher : step.hasher = batch.hasher
  stepStaged : WellStaged names step.entries
  batchStaged : WellStaged names batch.entries
  same : ∀ name, live now (step.entries.lookup name) = live now (batch.entries.lookup name)

variable {step batch step' batch' : ChallengeCertsBuilder}

section

variable (agree : ChallengeAgree now names step batch)

include agree

lemma ChallengeAgree.insert
    (inPlay : ∀ normalized, normalize name = .ok normalized → normalized ∈ names)
    (stepped : step.insert name key expires = .ok step')
    (batched : batch.insert name key expires = .ok batch') :
    ChallengeAgree now names step' batch' := by
  rcases agree.stepStaged.insert inPlay stepped with
    ⟨stagedStep, hasherStep, normalized, hit, entries⟩
  rcases agree.batchStaged.insert inPlay batched with
    ⟨stagedBatch, hasherBatch, other, found', entries'⟩
  rw [hit] at found'
  cases found'
  refine ⟨?_, stagedStep, stagedBatch, ?_⟩
  · rw [hasherStep, hasherBatch, agree.hasher]
  · intro query
    rw [entries, entries', lookup_insertKey, lookup_insertKey]
    by_cases isName : query = normalized
    · rw [if_pos isName, if_pos isName]
    · rw [if_neg isName, if_neg isName, agree.same]

lemma ChallengeAgree.remove (name : Bytes) :
    ChallengeAgree now names (step.remove name) (batch.remove name) := by
  refine ⟨?_, agree.stepStaged.remove name, agree.batchStaged.remove name, ?_⟩
  · unfold ChallengeCertsBuilder.remove
    cases normalize name with
    | error | ok => exact agree.hasher
  intro query
  unfold ChallengeCertsBuilder.remove
  cases normalize name with
  | error error => exact agree.same query
  | ok normalized =>
    rw [lookup_removeKey, lookup_removeKey]
    by_cases isName : query = normalized
    · rw [if_pos isName, if_pos isName]
    · rw [if_neg isName, if_neg isName, agree.same]

lemma ChallengeAgree.flush (free : CollisionFree (hashing.sipHash step.hasher) names)
    (gave : step.buildWithGeneration hashing iteration generation = .ok certs) :
    ChallengeAgree now names (.fromPrevious certs now) batch := by
  rcases within_of_build agree.stepStaged gave with ⟨hasher, within, all⟩
  refine ⟨hasher.trans agree.hasher, wellStaged_fromPrevious within agree.stepStaged now,
    agree.batchStaged, ?_⟩
  intro query
  rw [lookup_fromPrevious (all free) agree.stepStaged.nodup, live_live, agree.same]

end

end IronTraffic.Tls
