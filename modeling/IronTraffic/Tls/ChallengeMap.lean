import IronTraffic.Tls.Coalescer
import IronTraffic.Tls.Normal

/-! # The challenge map

A challenge map answers like the entries it was built from, as long as their names have
different hashes: unlike the certificate index, its builder does not try another key.
-/

namespace IronTraffic.Tls

open ChallengeCertsBuilder

open List

def live (now : Nat) (challenge : Option Challenge) : Option Challenge :=
  challenge.filter fun challenge => now < challenge.expires

lemma live_some (now : Nat) (challenge) :
    live now (some challenge) = if challenge.expires ≤ now then none else some challenge := by
  unfold live
  by_cases expired : challenge.expires ≤ now
  · simp [expired]
  · simp [expired, not_le.mp expired]

def CollisionFree (hash : Bytes → UInt64) (names : List Bytes) : Prop :=
  ∀ left ∈ names, ∀ right ∈ names, hash left = hash right → left = right

/-- What the builder keeps of its staged entries; `names` are the names in play. -/
structure WellStaged (names : List Bytes) (entries : Staged) : Prop where
  nodup : (entries.map Prod.fst).Nodup
  normal : ∀ entry ∈ entries, normalize entry.1 = .ok entry.1 ∧ entry.1 ∈ names
  small : entries.length ≤ maxChallenges

/-! ## Building -/

section Building

variable {hash : Bytes → UInt64} {names : List Bytes}

/-- The arena and the map after the entries `done`: the map holds some of them. -/
structure Placed (hash : Bytes → UInt64) (done : Staged)
    (placed : Bytes × List (UInt64 × ChallengeEntry)) : Prop where
  nodup : (placed.2.map Prod.fst).Nodup
  sound : ∀ key entry, (key, entry) ∈ placed.2 →
    entry.name.offset + entry.name.len ≤ placed.1.length ∧
    ((placed.1.drop entry.name.offset).take entry.name.len, entry.challenge) ∈ done ∧
    hash ((placed.1.drop entry.name.offset).take entry.name.len) = key
  short : placed.1.length ≤ maxNameLen * done.length

def Complete (hash : Bytes → UInt64) (done : Staged)
    (placed : Bytes × List (UInt64 × ChallengeEntry)) : Prop :=
  ∀ name challenge, (name, challenge) ∈ done → ∃ entry, (hash name, entry) ∈ placed.2 ∧
    (placed.1.drop entry.name.offset).take entry.name.len = name ∧ entry.challenge = challenge

lemma placed_empty (hash) : Placed hash [] ([], []) where
  nodup := nodup_nil
  sound := fun key entry mem => by cases mem
  short := le_refl _

lemma slice_append {names : Bytes} {nameRef : NameRef} (more : Bytes)
    (inside : nameRef.offset + nameRef.len ≤ names.length) :
    ((names ++ more).drop nameRef.offset).take nameRef.len =
      (names.drop nameRef.offset).take nameRef.len := by
  rw [drop_append_of_le_length (by omega), take_append_of_le_length]
  rw [length_drop]
  omega

variable {done : Staged} {placed after : Bytes × List (UInt64 × ChallengeEntry)}

section

variable (before : Placed hash done placed)

include before

section

variable (normal : normalize staged.1 = .ok staged.1)
  (room : done.length < maxChallenges)
  (gave : place hash placed staged = .ok after)

include normal room gave

lemma place_eq :
    after = (placed.1 ++ staged.1,
      insertKey placed.2 (hash staged.1) ⟨⟨placed.1.length, staged.1.length⟩, staged.2⟩) := by
  have shortName := (normalize_ok normal).2
  have shortArena := before.short
  unfold maxNameLen at shortName shortArena
  unfold maxChallenges at room
  have offset : placed.1.length % 2 ^ 32 = placed.1.length := Nat.mod_eq_of_lt (by omega)
  have len : staged.1.length % 2 ^ 16 = staged.1.length := Nat.mod_eq_of_lt (by omega)
  rw [place, normal] at gave
  cases gave
  rw [offset, len]

lemma Placed.place : Placed hash (done ++ [staged]) after := by
  have shortName := (normalize_ok normal).2
  have shortArena := before.short
  rw [place_eq before normal room gave]
  refine ⟨nodup_insertKey before.nodup _ _, ?_, ?_⟩
  · intro key entry mem
    rcases mem_cons.mp mem with isNew | old
    · cases isNew
      simp
    · rcases before.sound key entry (mem_filter.mp old).1 with ⟨inside, inDone, hashed⟩
      rw [slice_append _ inside, length_append]
      exact ⟨by omega, mem_append_left _ inDone, hashed⟩
  · simp only [length_append, length_singleton]
    rw [mul_add]
    omega

lemma Complete.place (complete : Complete hash done placed)
    (fresh : ∀ other ∈ done, hash other.1 ≠ hash staged.1) :
    Complete hash (done ++ [staged]) after := by
  rw [place_eq before normal room gave]
  intro name challenge mem
  rcases mem_append.mp mem with earlier | last
  · rcases complete name challenge earlier with ⟨entry, present, named, same⟩
    have kept : decide (hash name ≠ hash staged.1) = true :=
      decide_eq_true (fresh (name, challenge) earlier)
    refine ⟨entry, mem_cons_of_mem _ (mem_filter.mpr ⟨present, kept⟩), ?_, same⟩
    rw [slice_append _ (before.sound _ entry present).1]
    exact named
  · cases mem_singleton.mp last
    exact ⟨_, mem_cons_self, by simp, rfl⟩

end

lemma placed_foldlM (staged : WellStaged names (done ++ rest))
    (gave : rest.foldlM (place hash) placed = .ok after) :
    Placed hash (done ++ rest) after ∧
    (CollisionFree hash names → Complete hash done placed →
     Complete hash (done ++ rest) after) := by
  induction rest generalizing done placed after with
  | nil =>
    cases gave
    rw [append_nil]
    exact ⟨before, fun _ complete => complete⟩
  | cons next rest induction =>
    rcases bind_eq_ok_iff.mp gave with ⟨between, placedNext, gave⟩
    have here : next ∈ done ++ next :: rest := by simp
    have normal := (staged.normal next here).1
    have room : done.length < maxChallenges := by
      have small := staged.small
      rw [length_append, length_cons] at small
      omega
    have fresh : CollisionFree hash names → ∀ other ∈ done, hash other.1 ≠ hash next.1 := by
      intro free other mem same
      have inPlay := (staged.normal other (mem_append_left _ mem)).2
      have equal := free other.1 inPlay next.1 (staged.normal next here).2 same
      have nodup := staged.nodup
      rw [map_append] at nodup
      refine disjoint_of_nodup_append nodup (mem_map_of_mem mem) ?_
      rw [equal]
      exact mem_map_of_mem mem_cons_self
    have split : done ++ next :: rest = (done ++ [next]) ++ rest := by simp
    rw [split] at staged ⊢
    rcases induction (before.place normal room placedNext) staged gave with ⟨whole, all⟩
    refine ⟨whole, fun free complete => all free ?_⟩
    exact complete.place before normal room placedNext (fresh free)

end

end Building

/-! ## Reading -/

def Within (hashing : Hashing) (entries : Staged) (certs : ChallengeCerts) : Prop :=
  ∃ ordered, ordered.Perm entries ∧
    Placed (hashing.sipHash certs.hasher) ordered (certs.names, certs.byName)

def Serves (hashing : Hashing) (entries : Staged) (certs : ChallengeCerts) : Prop :=
  ∃ ordered, ordered.Perm entries ∧
    Placed (hashing.sipHash certs.hasher) ordered (certs.names, certs.byName) ∧
    Complete (hashing.sipHash certs.hasher) ordered (certs.names, certs.byName)

variable {hashing : Hashing} {entries : Staged} {certs : ChallengeCerts} {names : List Bytes}
  {entry : Bytes × Challenge} {now : Nat}

lemma Serves.within (serves : Serves hashing entries certs) : Within hashing entries certs := by
  rcases serves with ⟨ordered, permuted, placed, _⟩
  exact ⟨ordered, permuted, placed⟩

lemma WellStaged.perm {others} (staged : WellStaged names entries)
    (permuted : others.Perm entries) : WellStaged names others where
  nodup := (permuted.map Prod.fst).nodup_iff.mpr staged.nodup
  normal := fun entry mem => staged.normal entry (permuted.mem_iff.mp mem)
  small := permuted.length_eq ▸ staged.small

lemma within_of_build {builder : ChallengeCertsBuilder} (staged : WellStaged names builder.entries)
    (gave : builder.buildWithGeneration hashing iteration generation = .ok certs) :
    certs.hasher = builder.hasher ∧ Within hashing builder.entries certs ∧
    (CollisionFree (hashing.sipHash builder.hasher) names →
     Serves hashing builder.entries certs) := by
  rcases bind_eq_ok_iff.mp gave with ⟨placed, built, equal⟩
  cases equal
  have permuted := iteration.perm builder.entries
  rcases placed_foldlM (placed_empty _) (staged.perm permuted) built with ⟨whole, all⟩
  refine ⟨rfl, ⟨_, permuted, whole⟩, fun free => ⟨_, permuted, whole, all free ?_⟩⟩
  intro name challenge mem
  cases mem

section Reading

lemma lookup_eq_of_mem_iff {left right : Staged} (leftDistinct : (left.map Prod.fst).Nodup)
    (rightDistinct : (right.map Prod.fst).Nodup) (same : ∀ entry, entry ∈ left ↔ entry ∈ right)
    (name : Bytes) : left.lookup name = right.lookup name := by
  refine Option.ext fun challenge => ?_
  rw [lookup_eq_some_iff leftDistinct, lookup_eq_some_iff rightDistinct, same]

def held (certs : ChallengeCerts) : Staged :=
  certs.byName.map fun entry => (certs.nameAt entry.2.name, entry.2.challenge)

lemma mem_of_mem_held (within : Within hashing entries certs) (mem : entry ∈ held certs) :
    entry ∈ entries := by
  rcases within with ⟨ordered, permuted, placed⟩
  rcases mem_map.mp mem with ⟨source, present, rfl⟩
  exact permuted.mem_iff.mp (placed.sound source.1 source.2 present).2.1

lemma nodup_held (within : Within hashing entries certs) : ((held certs).map Prod.fst).Nodup := by
  rcases within with ⟨ordered, _, placed⟩
  refine List.Nodup.of_map (hashing.sipHash certs.hasher) ?_
  have keys : ((held certs).map Prod.fst).map (hashing.sipHash certs.hasher) =
      certs.byName.map Prod.fst := by
    rw [held, map_map, map_map]
    refine map_congr_left ?_
    intro entry mem
    exact (placed.sound entry.1 entry.2 mem).2.2
  rw [keys]
  exact placed.nodup

section

variable (serves : Serves hashing entries certs)

include serves

lemma mem_held (entry) : entry ∈ held certs ↔ entry ∈ entries := by
  refine ⟨mem_of_mem_held serves.within, ?_⟩
  intro mem
  rcases serves with ⟨ordered, permuted, _, complete⟩
  rcases complete entry.1 entry.2 (permuted.mem_iff.mpr mem) with
    ⟨source, present, named, same⟩
  exact mem_map.mpr ⟨_, present, Prod.ext named same⟩

lemma lookup_held (nodup : (entries.map Prod.fst).Nodup) (name : Bytes) :
    (held certs).lookup name = entries.lookup name :=
  lookup_eq_of_mem_iff (nodup_held serves.within) nodup (mem_held serves) name

lemma lookup_of_serves (nodup : (entries.map Prod.fst).Nodup) (sni : Bytes) (now : Nat) :
    certs.lookup hashing sni now =
      match normalize sni with
      | .error _ => none
      | .ok name => (live now (entries.lookup name)).map Challenge.key := by
  unfold ChallengeCerts.lookup
  cases normalize sni with
  | error error => rfl
  | ok name =>
    simp only
    rcases serves with ⟨ordered, permuted, placed, complete⟩
    cases hit : entries.lookup name with
    | some challenge =>
      have mem := permuted.mem_iff.mpr ((lookup_eq_some_iff nodup).mp hit)
      rcases complete name challenge mem with ⟨entry, present, named, same⟩
      rw [(lookup_eq_some_iff placed.nodup).mpr present]
      have named : certs.nameAt entry.name = name := named
      simp only
      rw [if_neg (not_not.mpr named), same, live_some]
      by_cases expired : challenge.expires ≤ now
      · rw [if_pos expired, if_pos expired]
        rfl
      · rw [if_neg expired, if_neg expired]
        rfl
    | none =>
      cases probed : certs.byName.lookup (hashing.sipHash certs.hasher name) with
      | none => rfl
      | some entry =>
        have present := (lookup_eq_some_iff placed.nodup).mp probed
        have other : certs.nameAt entry.name ≠ name := by
          intro named
          have inEntries := permuted.mem_iff.mp (placed.sound _ entry present).2.1
          have lookup := (lookup_eq_some_iff nodup).mpr inEntries
          rw [show (certs.names.drop entry.name.offset).take entry.name.len = name from named,
            hit] at lookup
          cases lookup
        simp only
        rw [if_pos other]
        rfl

end

/-! ## Starting from a map -/

/-- The loop of `from_previous`. -/
def carried (now : Nat) (entries : Staged) : Staged :=
  entries.foldl
    (fun kept entry => if entry.2.expires ≤ now then kept else insertKey kept entry.1 entry.2) []

lemma carried_append (now : Nat) (entries entry) :
    carried now (entries ++ [entry]) = if entry.2.expires ≤ now then
      carried now entries else insertKey (carried now entries) entry.1 entry.2 := by
  rw [carried, foldl_append]
  rfl

lemma entries_fromPrevious (certs) (now : Nat) :
    (fromPrevious certs now).entries = carried now (held certs) := by
  rw [fromPrevious, carried, held, foldl_map]

lemma lookup_carried (nodup : (entries.map Prod.fst).Nodup) (name : Bytes) :
    (carried now entries).lookup name = live now (entries.lookup name) := by
  induction entries using reverseRecOn with
  | nil => rfl
  | append_singleton entries entry induction =>
    rw [map_append, nodup_append] at nodup
    have before := induction nodup.1
    rw [carried_append, lookup_append]
    by_cases isName : name = entry.1
    · have absent : entries.lookup name = none := by
        rw [← Option.isNone_iff_eq_none, lookup_isNone_iff]
        intro mem
        exact nodup.2.2 name mem entry.1 (by simp) isName
      rw [absent] at before ⊢
      rw [Option.none_or, lookup_cons, beq_iff_eq.mpr isName, live_some]
      by_cases expired : entry.2.expires ≤ now
      · rw [if_pos expired, if_pos expired, before]
        rfl
      · rw [if_neg expired, if_neg expired, lookup_insertKey, if_pos isName]
    · rw [lookup_cons, beq_eq_false_iff_ne.mpr isName]
      simp only [lookup_nil, Option.or_none]
      by_cases expired : entry.2.expires ≤ now
      · rw [if_pos expired, before]
      · rw [if_neg expired, lookup_insertKey, if_neg isName, before]

lemma nodup_carried (now : Nat) (entries) : ((carried now entries).map Prod.fst).Nodup := by
  induction entries using reverseRecOn with
  | nil => exact nodup_nil
  | append_singleton entries entry induction =>
    rw [carried_append]
    by_cases expired : entry.2.expires ≤ now
    · rw [if_pos expired]
      exact induction
    · rw [if_neg expired]
      exact nodup_insertKey induction _ _

lemma mem_of_mem_carried (nodup : (entries.map Prod.fst).Nodup)
    (mem : entry ∈ carried now entries) : entry ∈ entries := by
  have hit := (lookup_eq_some_iff (nodup_carried now entries)).mpr mem
  rw [lookup_carried nodup] at hit
  exact (lookup_eq_some_iff nodup).mp (Option.filter_eq_some_iff.mp hit).1

lemma wellStaged_fromPrevious (within : Within hashing entries certs)
    (staged : WellStaged names entries) (now : Nat) :
    WellStaged names (fromPrevious certs now).entries := by
  have inside : ∀ entry ∈ carried now (held certs), entry ∈ entries := by
    intro entry mem
    exact mem_of_mem_held within (mem_of_mem_carried (nodup_held within) mem)
  rw [entries_fromPrevious]
  refine ⟨nodup_carried _ _, ?_, ?_⟩
  · intro entry mem
    exact staged.normal entry (inside entry mem)
  · have nodup : (carried now (held certs)).Nodup := (nodup_carried now (held certs)).of_map
    exact le_trans (nodup.subperm inside).length_le staged.small

lemma lookup_fromPrevious (serves : Serves hashing entries certs)
    (nodup : (entries.map Prod.fst).Nodup) (now : Nat) (name : Bytes) :
    (fromPrevious certs now).entries.lookup name = live now (entries.lookup name) := by
  rw [entries_fromPrevious, lookup_carried (nodup_held serves.within), lookup_held serves nodup]

end Reading

end IronTraffic.Tls
