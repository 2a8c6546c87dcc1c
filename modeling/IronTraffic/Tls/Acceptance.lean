import IronTraffic.Tls.ChallengeBatching

/-! # Applying accepted updates

Names are checked when an update is submitted. The builders take every accepted update,
unless it stages a challenge for which there is no room.
-/

namespace IronTraffic.Tls

open List

open CertUpdateCoalescer ChallengeCertsBuilder

variable {heap : Heap}

def stagedAfter (staged : List Bytes) : CertUpdate → List Bytes
  | .installChallenge name _ _ =>
    match normalize name with
    | .ok normalized => normalized :: staged.filter fun other => other ≠ normalized
    | .error _ => staged
  | .removeChallenge name =>
    match normalize name with
    | .ok normalized => staged.filter fun other => other ≠ normalized
    | .error _ => staged
  | _ => staged

def ChallengesFit : List Bytes → List CertUpdate → Prop
  | _, [] => True
  | staged, update :: rest =>
    (stagedAfter staged update).length ≤ maxChallenges ∧
      ChallengesFit (stagedAfter staged update) rest


variable {builder : CertIndexBuilder} {name normalized raw : Bytes} {cred : Address}
  {names : List Bytes} {builders after : Builders} {update : CertUpdate}

lemma upsertExact_of_normalize (valid : normalizeName name = .ok normalized) :
    builder.upsertExact name cred =
      .ok { builder with entries := builder.entries ++ [⟨normalized, false, cred⟩] } := by
  rw [CertIndexBuilder.upsertExact, valid]
  rfl

lemma validateWildcardParent_ok (valid : validateWildcardParent raw = .ok ()) :
    ∃ parent normalized, wildcardParent raw = .ok parent ∧ normalize parent = .ok normalized := by
  unfold validateWildcardParent at valid
  rcases of_ite_error valid with ⟨bare, valid⟩
  rcases bind_eq_ok_iff.mp valid with ⟨parent, hit, valid⟩
  rcases bind_eq_ok_iff.mp valid with ⟨normalized, accepted, _⟩
  exact ⟨parent, normalized, mapError_eq_ok_iff.mp hit,
    mapError_eq_ok_iff.mp accepted⟩

lemma upsertWildcard_of_validate (valid : validateWildcardParent raw = .ok ()) :
    ∃ parent normalized, wildcardParent raw = .ok parent ∧ normalize parent = .ok normalized ∧
      builder.upsertWildcard raw cred =
        .ok { builder with entries := builder.entries ++ [⟨normalized, true, cred⟩] } := by
  rcases validateWildcardParent_ok valid with ⟨parent, normalized, hit, accepted⟩
  refine ⟨parent, normalized, hit, accepted, ?_⟩
  unfold CertIndexBuilder.upsertWildcard normalizeName
  rw [valid, hit]
  show ((normalize parent).mapError CertError.name >>= _) = _
  rw [accepted]
  rfl

def CertUpdate.Installs (update : CertUpdate) (name : Bytes) : Prop :=
  match update with
  | .install exact wildcard _ =>
    (∃ raw ∈ exact, normalize raw = .ok name) ∨
      ∃ raw ∈ wildcard, ∃ parent, wildcardParent raw = .ok parent ∧ normalize parent = .ok name
  | _ => False

lemma mem_remove {certs : CertIndexBuilder} :
    entry ∈ (certs.remove heap raw).entries ↔
      entry ∈ certs.entries ∧ ∀ name, normalize raw = .ok name → entry.name ≠ name := by
  unfold CertIndexBuilder.remove
  cases normalize raw with
  | error | ok => simp

lemma mem_remove_all : ∀ {certs : CertIndexBuilder} {entry : PendingEntry},
    entry ∈ (certs.removeAll heap names).entries ↔
      entry ∈ certs.entries ∧
        ∀ raw ∈ names, ∀ name, normalize raw = .ok name → entry.name ≠ name := by
  induction names with
  | nil => simp
  | cons raw names induction =>
    intro certs entry
    rw [CertIndexBuilder.removeAll, foldl_cons, induction, mem_remove, forall_mem_cons, and_assoc]

/-- The names of these entries were there before or are installed by the update. -/
def NamesFrom (before : CertIndexBuilder) (update : CertUpdate) (after : CertIndexBuilder) : Prop :=
  ∀ entry ∈ after.entries,
    (∃ old ∈ before.entries, old.name = entry.name) ∨ update.Installs entry.name

lemma mem_installedEntries (mem : entry ∈ installedEntries exact wildcard cred) :
    entry.cred = cred ∧ (CertUpdate.install exact wildcard cred).Installs entry.name := by
  have hit : ∀ {Reason : Type} {outcome : Except Reason Bytes} {value : Bytes},
      outcome.toOption = some value → outcome = .ok value := by
    intro Reason outcome value isSome
    cases outcome <;> cases isSome
    rfl
  rcases mem_append.mp mem with inExact | inWild
  · rcases mem_filterMap.mp inExact with ⟨raw, isRaw, isEntry⟩
    rcases Option.map_eq_some_iff.mp isEntry with ⟨name, accepted, rfl⟩
    exact ⟨rfl, .inl ⟨raw, isRaw, hit accepted⟩⟩
  · rcases mem_filterMap.mp inWild with ⟨raw, isRaw, isEntry⟩
    rcases Option.bind_eq_some_iff.mp isEntry with ⟨parent, isParent, isEntry⟩
    rcases Option.map_eq_some_iff.mp isEntry with ⟨name, accepted, rfl⟩
    exact ⟨rfl, .inr ⟨raw, isRaw, parent, hit isParent, hit accepted⟩⟩

lemma names_apply (applied : apply heap builders update = .ok after) :
    NamesFrom builders.certs update after.certs := by
  have kept : NamesFrom builders.certs update builders.certs :=
    fun entry mem => .inl ⟨entry, mem, rfl⟩
  cases applied_of_ok applied with
  | install exact wildcard cred =>
    intro entry mem
    rcases mem_append.mp mem with old | new
    · exact kept entry old
    · exact .inr (mem_installedEntries new).2
  | replace fingerprint cred =>
    intro entry mem
    rcases mem_map.mp mem with ⟨old, present, rfl⟩
    refine .inl ⟨old, present, ?_⟩
    split
    · rfl
    · rfl
  | remove names =>
    intro entry mem
    exact kept entry (mem_remove_all.mp mem).1
  | _ => exact kept

lemma inheritedHasher_apply (applied : apply heap builders update = .ok after) :
    after.certs.inheritedHasher = builders.certs.inheritedHasher := by
  cases applied_of_ok applied with
  | remove names =>
    have removed : ∀ (names : List Bytes) (certs : CertIndexBuilder),
        (certs.removeAll heap names).inheritedHasher = certs.inheritedHasher := by
      intro names
      induction names with
      | nil => exact fun _ => rfl
      | cons raw names induction =>
        intro certs
        rw [CertIndexBuilder.removeAll, foldl_cons, induction]
        unfold CertIndexBuilder.remove
        cases normalize raw with
        | error | ok => rfl
    exact removed names builders.certs
  | _ => rfl

/-! ## The challenges -/

lemma map_fst_insertKey (entries : Staged) (name : Bytes) (challenge) :
    (insertKey entries name challenge).map Prod.fst =
      name :: (entries.map Prod.fst).filter fun other => other ≠ name := by
  rw [insertKey, map_cons, filter_map]
  rfl

lemma map_fst_removeKey (entries : Staged) (name : Bytes) :
    (removeKey entries name).map Prod.fst =
      (entries.map Prod.fst).filter fun other => other ≠ name := by
  rw [filter_map]
  rfl

lemma length_staged_le_iff {staged : List Bytes} (small : staged.length ≤ bound) :
    (name :: staged.filter fun other => other ≠ name).length ≤ bound ↔
      (name ∈ staged ∨ staged.length < bound) := by
  rw [length_cons]
  by_cases present : name ∈ staged
  · have dropped : (staged.filter fun other => decide (other ≠ name)).length < staged.length := by
      rw [length_filter_lt_length_iff_exists]
      exact ⟨name, present, by simp⟩
    exact iff_of_true (by omega) (.inl present)
  · have same : (staged.filter fun other => decide (other ≠ name)) = staged := by
      rw [filter_eq_self]
      intro other mem
      have apart : other ≠ name := fun equal => present (equal ▸ mem)
      simpa using apart
    rw [same]
    exact ⟨fun room => .inr room, fun either => either.resolve_left present⟩

lemma insert_ok_iff {builder : ChallengeCertsBuilder}
    (small : builder.entries.length ≤ maxChallenges) (valid : normalize name = .ok normalized) :
    (∃ after, builder.insert name key expires = .ok after) ↔
      (normalized :: (builder.entries.map Prod.fst).filter fun other => other ≠ normalized).length ≤
        maxChallenges := by
  rw [length_staged_le_iff (by simpa using small), length_map, ← not_not (a := normalized ∈ _),
    ← lookup_isNone_iff]
  rw [ChallengeCertsBuilder.insert, valid]
  show (∃ after, (if _ ∧ _ then _ else _) = Except.ok after) ↔ _
  by_cases full : (builder.entries.lookup normalized).isNone ∧
      maxChallenges ≤ builder.entries.length
  · rw [if_pos full]
    refine iff_of_false nofun ?_
    rintro (absent | room)
    · exact absent full.1
    · exact absurd full.2 (not_le.mpr room)
  · rw [if_neg full]
    refine iff_of_true ⟨_, rfl⟩ ?_
    by_cases absent : (builder.entries.lookup normalized).isNone
    · exact .inr (not_le.mp fun long => full ⟨absent, long⟩)
    · exact .inl absent

lemma staged_apply (applied : apply heap builders update = .ok after) :
    after.challenge.entries.map Prod.fst =
      stagedAfter (builders.challenge.entries.map Prod.fst) update := by
  cases applied_of_ok applied with
  | installChallenge inserted =>
    rcases bind_eq_ok_iff.mp inserted with ⟨normalized, accepted, inserted⟩
    have accepted := mapError_eq_ok_iff.mp accepted
    cases (of_ite_error inserted).2
    rw [stagedAfter, accepted]
    exact map_fst_insertKey _ _ _
  | removeChallenge name =>
    rw [stagedAfter]
    show (builders.challenge.remove name).entries.map Prod.fst = _
    unfold remove
    cases normalize name with
    | error error => rfl
    | ok normalized => exact map_fst_removeKey _ _
  | _ => rfl

lemma reachable_apply (reachable : Reachable hashing builders.challenge)
    (applied : apply heap builders update = .ok after) : Reachable hashing after.challenge := by
  cases applied_of_ok applied with
  | installChallenge inserted => exact .insert reachable inserted
  | removeChallenge name => exact .remove name reachable
  | _ => exact reachable

lemma apply_ok_iff (valid : update.validate = .ok ())
    (small : builders.challenge.entries.length ≤ maxChallenges) :
    (∃ after, apply heap builders update = .ok after) ↔
      (stagedAfter (builders.challenge.entries.map Prod.fst) update).length ≤ maxChallenges := by
  have smallNames : (builders.challenge.entries.map Prod.fst).length ≤ maxChallenges := by
    rw [length_map]
    exact small
  cases update with
  | install exact wildcard cred =>
    refine iff_of_true ?_ smallNames
    rcases bind_eq_ok_iff.mp valid with ⟨_, validExact, validWild⟩
    have validExact := forM_eq_ok_iff.mp validExact
    have validWild := forM_eq_ok_iff.mp validWild
    have ranExact : ∃ certs, exact.foldlM (fun certs name => certs.upsertExact name cred)
        builders.certs = .ok certs ∧ ∀ name ∈ [], _ :=
      exists_foldlM
        (fun _ rest => ∀ name ∈ rest, ((normalizeName name).map fun _ => ()) = .ok ())
        (by
          intro certs name rest fit
          cases accepted : normalizeName name with
          | error error =>
            have here := fit name mem_cons_self
            rw [accepted] at here
            cases here
          | ok normalized =>
            exact ⟨_, upsertExact_of_normalize accepted,
              fun other mem => fit other (mem_cons_of_mem _ mem)⟩)
        validExact
    rcases ranExact with ⟨exactCerts, ranExact, _⟩
    have ranWild : ∃ certs, wildcard.foldlM (fun certs name => certs.upsertWildcard name cred)
        exactCerts = .ok certs ∧ ∀ name ∈ [], _ :=
      exists_foldlM (fun _ rest => ∀ name ∈ rest, validateWildcardParent name = .ok ())
        (by
          intro certs name rest fit
          rcases upsertWildcard_of_validate (fit name mem_cons_self) with
            ⟨parent, normalized, _, _, upserted⟩
          exact ⟨_, upserted, fun other mem => fit other (mem_cons_of_mem _ mem)⟩)
        validWild
    rcases ranWild with ⟨wildCerts, ranWild, _⟩
    refine ⟨{ builders with certs := wildCerts }, ?_⟩
    rw [apply, ranExact]
    show (wildcard.foldlM (fun certs name => certs.upsertWildcard name cred) exactCerts >>=
      fun certs => Except.ok { builders with certs }) = _
    rw [ranWild]
    rfl
  | replace | remove | setDefault => exact iff_of_true ⟨_, rfl⟩ smallNames
  | installChallenge name key expires =>
    cases accepted : normalize name with
    | error error =>
      rw [CertUpdate.validate, normalizeName, accepted] at valid
      cases valid
    | ok normalized =>
      rw [stagedAfter]
      rw [accepted, ← insert_ok_iff small accepted, apply]
      constructor
      · rintro ⟨after, applied⟩
        rcases bind_eq_ok_iff.mp applied with ⟨challenge, inserted, _⟩
        exact ⟨challenge, mapError_eq_ok_iff.mp inserted⟩
      · rintro ⟨challenge, inserted⟩
        rw [inserted]
        exact ⟨_, rfl⟩
  | removeChallenge name =>
    refine iff_of_true ⟨_, rfl⟩ ?_
    rw [stagedAfter]
    cases normalize name with
    | error error => exact smallNames
    | ok normalized => exact le_trans (length_filter_le _ _) smallNames

lemma foldlM_apply_iff {updates builders} (valid : ∀ update ∈ updates, update.validate = .ok ())
    (reachable : Reachable hashing builders.challenge) :
    ((∃ after, updates.foldlM (apply heap) builders = .ok after) ↔
      ChallengesFit (builders.challenge.entries.map Prod.fst) updates) := by
  induction updates generalizing builders with
  | nil => exact iff_of_true ⟨_, rfl⟩ trivial
  | cons update updates induction =>
    have here := @apply_ok_iff heap builders update (valid update mem_cons_self)
      reachable.wellStaged.small
    have later := fun other mem => valid other (mem_cons_of_mem _ mem)
    rw [ChallengesFit, ← here, foldlM_cons]
    constructor
    · rintro ⟨after, gave⟩
      rcases bind_eq_ok_iff.mp gave with ⟨next, applied, gave⟩
      refine ⟨⟨next, applied⟩, ?_⟩
      rw [← staged_apply applied]
      exact (induction later (reachable_apply reachable applied)).mp ⟨after, gave⟩
    · rintro ⟨⟨next, applied⟩, fit⟩
      rw [← staged_apply applied] at fit
      rw [applied]
      exact (induction later (reachable_apply reachable applied)).mpr fit

lemma challenge_build_ok {builder : ChallengeCertsBuilder}
    (staged : WellStaged names builder.entries) (iteration) (generation : Nat) :
    ∃ certs, builder.buildWithGeneration hashing iteration generation = .ok certs := by
  have normal : ∀ entry ∈ iteration.order builder.entries, normalize entry.1 = .ok entry.1 :=
    fun entry mem =>
      (staged.normal entry ((iteration.perm builder.entries).mem_iff.mp mem)).1
  have placed := @exists_foldlM _ _ _
    (place (hashing.sipHash builder.hasher))
    (fun _ rest => ∀ entry ∈ rest, normalize entry.1 = .ok entry.1)
    (by
      intro placed entry rest fit
      rw [place, fit entry mem_cons_self]
      exact ⟨_, rfl, fun other mem => fit other (mem_cons_of_mem _ mem)⟩)
    (iteration.order builder.entries) ([], []) normal
  rcases placed with ⟨placed, gave, _⟩
  rw [buildWithGeneration, gave]
  exact ⟨_, rfl⟩

end IronTraffic.Tls
