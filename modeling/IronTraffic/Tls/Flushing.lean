import IronTraffic.Tls.Acceptance
import IronTraffic.Tls.Limits
import IronTraffic.Tls.Transparency

/-! # Flushing accepted updates

A flush of accepted updates can only fail at a limit: the arena, the groups or the hashes
of the index, or the number of challenges.
-/

namespace IronTraffic.Tls

open List

open CertUpdateCoalescer

variable {hashing : Hashing} {heap : Heap}

/-! ## Pending updates -/

lemma dropOldest_eq_eraseP (pending) :
    dropOldest pending = pending.eraseP CertUpdate.isDroppable := by
  rw [dropOldest, eraseP_eq_eraseIdx]
  cases pending.findIdx? CertUpdate.isDroppable with
  | none | some => rfl

def pendingAfter (coalescer : CertUpdateCoalescer) (update : CertUpdate) : List CertUpdate :=
  if coalescer.maxPending < (coalescer.pending ++ [update]).length then
    dropOldest (coalescer.pending ++ [update])
  else coalescer.pending ++ [update]

lemma pendingAfter_sublist (coalescer update) :
    (pendingAfter coalescer update).Sublist (coalescer.pending ++ [update]) := by
  unfold pendingAfter
  split
  · rw [dropOldest_eq_eraseP]
    exact eraseP_sublist
  · exact List.Sublist.refl _

variable {coalescer : CertUpdateCoalescer} {kept update : CertUpdate}
  {earlier later updates : List CertUpdate} {name : Bytes} {builders after : Builders}
  {around : Surroundings}

lemma pendingAfter_ne_nil (room : 1 ≤ coalescer.maxPending) (update) :
    pendingAfter coalescer update ≠ [] := by
  unfold pendingAfter
  split
  case isTrue many =>
    rw [dropOldest_eq_eraseP]
    have most := @le_length_eraseP _ CertUpdate.isDroppable (coalescer.pending ++ [update])
    refine ne_nil_of_length_pos ?_
    omega
  case isFalse => simp

lemma pendingAfter_keeps (precious : kept.isDroppable = false)
    (pending : coalescer.pending = earlier ++ kept :: later) (update) :
    ∃ earlier' later', pendingAfter coalescer update = earlier' ++ kept :: later' ∧
      later'.Sublist (later ++ [update]) := by
  have whole : coalescer.pending ++ [update] = earlier ++ kept :: (later ++ [update]) := by
    rw [pending]
    simp
  rw [pendingAfter, whole, dropOldest_eq_eraseP, eraseP_append,
    eraseP_cons_of_neg (by simp [precious])]
  split
  · split
    case isTrue => exact ⟨_, _, rfl, List.Sublist.refl _⟩
    case isFalse => exact ⟨_, _, rfl, eraseP_sublist⟩
  · exact ⟨_, _, rfl, List.Sublist.refl _⟩

lemma submit_inv {after} (gave : coalescer.submit heap update = .ok after) :
    update.validate = .ok () ∧
      after = { coalescer with pending := pendingAfter coalescer update } := by
  refine ⟨?_, submit_ok gave⟩
  rcases bind_eq_ok_iff.mp gave with ⟨_, valid, _⟩
  exact valid

section Submitting

variable {after : CertUpdateCoalescer}

section

variable (gave : submitAll heap updates coalescer = .ok after)

include gave

lemma submitAll_valid (empty : coalescer.pending = []) :
    (∀ update ∈ after.pending, update.validate = .ok ()) ∧
      after = { coalescer with pending := after.pending } := by
  refine foldlM_keeps gave ?_ ⟨?_, rfl⟩
  · intro update _ state next before accepted
    rcases submit_inv accepted with ⟨valid, rfl⟩
    constructor
    · intro other mem
      rcases mem_append.mp ((pendingAfter_sublist state update).subset mem) with old | new
      · exact before.1 other old
      · rw [mem_singleton.mp new]
        exact valid
    · rw [before.2]
  · intro update mem
    rw [empty] at mem
    cases mem

lemma submitAll_ne_nil (room : 1 ≤ coalescer.maxPending) (some : updates ≠ []) :
    after.pending ≠ [] := by
  cases updates with
  | nil => exact absurd rfl some
  | cons first updates =>
    rcases bind_eq_ok_iff.mp gave with ⟨next, accepted, gave⟩
    suffices kept : 1 ≤ after.maxPending ∧ after.pending ≠ [] from kept.2
    refine foldlM_keeps gave ?_ ?_
    · intro update _ state next before accepted
      rcases submit_inv accepted with ⟨_, rfl⟩
      exact ⟨before.1, pendingAfter_ne_nil before.1 update⟩
    · rcases submit_inv accepted with ⟨_, rfl⟩
      exact ⟨room, pendingAfter_ne_nil room first⟩

lemma submitAll_keeps (precious : kept.isDroppable = false)
    (split : updates = earlier ++ kept :: later) :
    ∃ before behind, after.pending = before ++ kept :: behind ∧
      ∀ update ∈ behind, update ∈ later := by
  subst split
  rw [submitAll, foldlM_append] at gave
  rcases bind_eq_ok_iff.mp gave with ⟨middle, _, gave⟩
  rcases bind_eq_ok_iff.mp gave with ⟨next, accepted, gave⟩
  refine foldlM_keeps gave ?_ ?_
  · rintro update mem state next ⟨before, behind, pending, within⟩ accepted
    rcases submit_inv accepted with ⟨_, rfl⟩
    rcases pendingAfter_keeps precious pending update with ⟨before', behind', pending', smaller⟩
    refine ⟨before', behind', pending', ?_⟩
    intro other inside
    rcases mem_append.mp (smaller.subset inside) with old | new
    · exact within other old
    · rw [mem_singleton.mp new]
      exact mem
  · rcases submit_inv accepted with ⟨_, rfl⟩
    -- the update itself is the last one, and it is not dropped
    have last : middle.pending ++ [kept] = middle.pending ++ kept :: [] := rfl
    show ∃ before behind, pendingAfter middle kept = _ ∧ _
    rw [pendingAfter, dropOldest_eq_eraseP, last, eraseP_append,
      eraseP_cons_of_neg (by simp [precious])]
    split
    · split
      case isTrue => exact ⟨_, _, rfl, nofun⟩
      case isFalse => exact ⟨_, _, rfl, nofun⟩
    · exact ⟨_, _, rfl, nofun⟩

end

end Submitting

/-! ## Flushing -/

lemma short_of_installs (installs : update.Installs name) : name.length ≤ maxNameLen := by
  cases update with
  | install exact wildcard cred =>
    rcases installs with ⟨raw, _, accepted⟩ | ⟨raw, _, parent, _, accepted⟩
    · exact (normalize_ok accepted).2
    · exact (normalize_ok accepted).2
  | _ => exact absurd installs id

def CertIndex.Lacks (hashing : Hashing) (index : CertIndex) (name : Bytes) : Prop :=
  ∀ isWild, index.probe hashing (NameMaps.of ⟨index.exact, index.wild⟩ isWild) name = none

lemma lacks_of_built (built : Built hashing (groupsOf heap entries) index)
    (absent : ∀ entry ∈ entries, entry.name ≠ name) : index.Lacks hashing name := by
  intro isWild
  rw [Option.eq_none_iff_forall_ne_some]
  intro spot hit
  rcases built.probe_eq_some_iff.mp hit with ⟨group, here, _, named⟩
  rcases (grouping_groupsOf heap entries).inhabited group (mem_of_getElem? here) with
    ⟨entry, present, key⟩
  refine absent entry ((perm_sortBy (sortKey heap) entries).mem_iff.mp present) ?_
  rw [← named]
  exact (nameKey_inj.mp key).2

section

variable (gave : updates.foldlM (apply heap) builders = .ok after)

include gave

lemma short_foldlM (short : ∀ entry ∈ builders.certs.entries, entry.name.length < 2 ^ 16) :
    ∀ entry ∈ after.certs.entries, entry.name.length < 2 ^ 16 := by
  refine foldlM_keeps gave ?_ short
  intro update _ state next before applied entry mem
  rcases names_apply applied entry mem with ⟨old, present, same⟩ | installs
  · rw [← same]
    exact before old present
  · exact lt_of_le_of_lt (short_of_installs installs) (by decide)

lemma absent_foldlM (absent : ∀ entry ∈ builders.certs.entries, entry.name ≠ name)
    (notAgain : ∀ update ∈ updates, ¬update.Installs name) :
    ∀ entry ∈ after.certs.entries, entry.name ≠ name := by
  refine foldlM_keeps gave ?_ absent
  intro update mem state next before applied entry inside
  rcases names_apply applied entry inside with ⟨old, present, same⟩ | installs
  · rw [← same]
    exact before old present
  · intro isName
    rw [isName] at installs
    exact notAgain update mem installs

lemma inheritedHasher_foldlM : after.certs.inheritedHasher = builders.certs.inheritedHasher := by
  refine foldlM_keeps gave ?_ rfl
  exact fun _ _ _ _ before applied => (inheritedHasher_apply applied).trans before

lemma reachable_foldlM (reachable : ChallengeCertsBuilder.Reachable hashing builders.challenge) :
    ChallengeCertsBuilder.Reachable hashing after.challenge := by
  refine foldlM_keeps gave ?_ reachable
  exact fun _ _ _ _ before applied => reachable_apply before applied

end

lemma flushNow_of_error (pending : coalescer.pending ≠ [])
    (stopped : coalescer.pending.foldlM (apply heap) (startBuilders coalescer.material around.now) =
      .error error) : coalescer.flushNow hashing heap around = .error error := by
  rw [flushNow, buildAndPublish, if_neg (by simpa using pending)]
  show (coalescer.pending.foldlM (apply heap) (startBuilders coalescer.material around.now) >>=
    _) = _
  rw [stopped]
  rfl

/-- As long as the index keeps to its limits, a flush of accepted updates fails exactly when
there are too many challenges at some point; a flush that succeeds publishes the next
generation, empties the pending list and puts every removal in force. -/
theorem flush_iff_challengesFit {coalescer collected : CertUpdateCoalescer}
    {startCerts : CertIndexBuilder} {startChallenge : ChallengeCertsBuilder}
    {entropy : Nat → Option HashKey} {iteration : Iteration} {generation generation' : Nat}
    {updates : List CertUpdate} {around : Surroundings}
    (builtCerts : startCerts.buildWithGeneration hashing heap entropy generation =
      .ok coalescer.material.certs)
    (reachable : ChallengeCertsBuilder.Reachable hashing startChallenge)
    (builtChallenge : startChallenge.buildWithGeneration hashing iteration generation' =
      .ok coalescer.material.challenge)
    (empty : coalescer.pending = []) (room : 16 ≤ coalescer.maxPending) (some : updates ≠ [])
    (submitted : submitAll heap updates coalescer = .ok collected)
    (fits : ∀ builders,
        collected.pending.foldlM (apply heap) (startBuilders coalescer.material around.now) =
          .ok builders →
        IndexFits (groupsOf heap builders.certs.entries) ∧
        CollisionFree (hashing.sipHash coalescer.material.certs.hasher)
          ((groupsOf heap builders.certs.entries).map Group.name)) :
    (∃ flushed, collected.flushNow hashing heap around = .ok flushed ∧ flushed.pending = [] ∧
         flushed.material.generation = collected.nextGeneration ∧
         flushed.nextGeneration = (collected.nextGeneration + 1) % 2 ^ 64 ∧
         ∀ earlier names later, updates = earlier ++ .remove names :: later →
           ∀ raw ∈ names,
             ∀ name, normalize raw = .ok name → (∀ update ∈ later, ¬update.Installs name) →
               flushed.material.certs.Lacks hashing name) ↔
      ChallengesFit ((startBuilders coalescer.material around.now).challenge.entries.map Prod.fst)
        collected.pending := by
  rcases submitAll_valid submitted empty with ⟨valid, sameElse⟩
  have pending := submitAll_ne_nil submitted (le_trans (by decide) room) some
  have sameMaterial : collected.material = coalescer.material := by rw [sameElse]
  have started : ChallengeCertsBuilder.Reachable hashing
      (startBuilders coalescer.material around.now).challenge :=
    .fromPrevious around.now reachable builtChallenge
  have applies := @foldlM_apply_iff heap hashing _ _ valid started
  rw [← applies]
  constructor
  · rintro ⟨flushed, gave, _⟩
    rcases (flushNow_ok_iff pending).mp gave with ⟨builders, _, _, applied, _⟩
    rw [sameMaterial] at applied
    exact ⟨builders, applied⟩
  rintro ⟨builders, applied⟩
  rcases fits builders applied with ⟨indexFits, free⟩
  have short := short_foldlM applied (short_of_build builtCerts)
  rcases build_fits (inheritedHasher_foldlM applied) short indexFits free around.entropy
    collected.nextGeneration with ⟨certs, built⟩
  rcases challenge_build_ok (reachable_foldlM applied started).wellStaged around.iteration
    collected.nextGeneration with ⟨challenge, placed⟩
  rw [← sameMaterial] at applied
  refine ⟨_, (flushNow_ok_iff pending).mpr ⟨_, _, _, applied, built, placed, rfl⟩, rfl, rfl, rfl,
    ?_⟩
  intro earlier names later split raw mem name accepted notAgain
  refine lacks_of_built (built_of_build built).1 ?_
  rcases submitAll_keeps submitted rfl split with ⟨before, behind, isPending, within⟩
  rw [isPending, foldlM_append] at applied
  rcases bind_eq_ok_iff.mp applied with ⟨middle, _, applied⟩
  rw [foldlM_cons] at applied
  rcases bind_eq_ok_iff.mp applied with ⟨removed, isRemoved, applied⟩
  cases isRemoved
  refine absent_foldlM applied ?_ fun update inside => notAgain update (within update inside)
  intro entry inside
  exact (mem_remove_all.mp inside).2 raw mem name accepted

/-! ## Too many challenges -/

lemma submitAll_of_valid
    (valid : ∀ update ∈ updates, update.validate = .ok () ∧ update.publishedCred = none)
    (room : coalescer.pending.length + updates.length ≤ coalescer.maxPending) :
    submitAll heap updates coalescer = .ok { coalescer with pending := coalescer.pending ++
      updates } := by
  induction updates generalizing coalescer with
  | nil =>
    rw [append_nil]
    rfl
  | cons update updates induction =>
    rw [length_cons] at room
    rcases valid update mem_cons_self with ⟨checked, noCred⟩
    have accepted : coalescer.submit heap update =
        .ok { coalescer with pending := coalescer.pending ++ [update] } := by
      rw [submit, checked, noCred]
      show Except.ok { coalescer with pending := if _ then _ else _ } = _
      rw [if_neg (by rw [length_append, length_singleton]; omega)]
    have rest := @induction { coalescer with pending := coalescer.pending ++ [update] }
      (fun other mem => valid other (mem_cons_of_mem _ mem))
      (by simp only [length_append, length_singleton]; omega)
    unfold submitAll at rest ⊢
    rw [foldlM_cons, accepted]
    show updates.foldlM (submit heap) _ = _
    rw [rest]
    simp

lemma foldlM_apply_full {names : List Bytes} {builders}
    (normal : ∀ name ∈ names, normalize name = .ok name) (nodup : names.Nodup)
    (fresh : ∀ name ∈ names, name ∉ builders.challenge.entries.map Prod.fst)
    (small : builders.challenge.entries.length ≤ maxChallenges)
    (large : maxChallenges < builders.challenge.entries.length + names.length) :
    (names.map fun name => CertUpdate.installChallenge name 0 9).foldlM (apply heap) builders =
        .error (.challenge .full) := by
  induction names generalizing builders with
  | nil =>
    rw [length_nil] at large
    omega
  | cons name names induction =>
    rw [nodup_cons] at nodup
    rw [length_cons] at large
    have absent : (builders.challenge.entries.lookup name).isNone :=
      lookup_isNone_iff.mpr (fresh name mem_cons_self)
    rw [map_cons, foldlM_cons, apply, ChallengeCertsBuilder.insert, normal name mem_cons_self]
    by_cases full : maxChallenges ≤ builders.challenge.entries.length
    · show (((if _ ∧ _ then _ else _) : Except ChallengeError _).mapError _ >>= _) >>= _ = _
      rw [if_pos ⟨absent, full⟩]
      rfl
    show (((if _ ∧ _ then _ else _) : Except ChallengeError _).mapError _ >>= _) >>= _ = _
    rw [if_neg (fun both => full both.2)]
    have keys := map_fst_insertKey builders.challenge.entries name ⟨0, 9⟩
    have others : ((builders.challenge.entries.map Prod.fst).filter
        fun other => decide (other ≠ name)) = builders.challenge.entries.map Prod.fst := by
      rw [filter_eq_self]
      intro other mem
      have apart : other ≠ name := fun equal =>
        fresh name mem_cons_self (equal ▸ mem)
      simpa using apart
    rw [others] at keys
    have count : (insertKey builders.challenge.entries name ⟨0, 9⟩).length =
        builders.challenge.entries.length + 1 := by
      rw [← length_map Prod.fst, keys, length_cons, length_map]
    refine @induction { builders with challenge := { builders.challenge with
        entries := insertKey builders.challenge.entries name ⟨0, 9⟩ } }
      (fun other mem => normal other (mem_cons_of_mem _ mem)) nodup.2 ?_ ?_ ?_
    · intro other mem inside
      rw [keys] at inside
      rcases mem_cons.mp inside with isName | old
      · exact nodup.1 (isName ▸ mem)
      · exact fresh other (mem_cons_of_mem _ mem) old
    · simp only
      omega
    · simp only
      omega

def manyNames : List Bytes :=
  (List.range 513).map fun number => [(97 + number / 26).toUInt8, (97 + number % 26).toUInt8]

lemma manyNames_nodup : manyNames.Nodup := by
  refine List.Nodup.map_on ?_ nodup_range
  intro left inLeft right inRight same
  rw [mem_range] at inLeft inRight
  rw [List.cons.injEq, List.cons.injEq] at same
  have high := congrArg UInt8.toNat same.1
  have low := congrArg UInt8.toNat same.2.1
  simp only [Nat.toUInt8, UInt8.toNat_ofNat'] at high low
  omega

lemma manyNames_normal : ∀ name ∈ manyNames, normalize name = .ok name := by
  have letters : ∀ high < 26, ∀ low < 26, normalize [(97 + high).toUInt8, (97 + low).toUInt8] =
        .ok [(97 + high).toUInt8, (97 + low).toUInt8] := by
    decide +kernel
  intro name mem
  rcases mem_map.mp mem with ⟨number, inRange, rfl⟩
  rw [mem_range] at inRange
  exact letters (number / 26) (by omega) (number % 26) (by omega)

def freezingUpdates : List CertUpdate :=
  (manyNames.map fun name => .installChallenge name 0 9) ++ [.remove [ascii "a.example"]]

def servingBuilder : CertIndexBuilder := ⟨[], [⟨ascii "a.example", false, 0⟩], none, none⟩

/-- Accepted challenges freeze the store: no later flush succeeds, and the certificate whose
removal was accepted stays in service. -/
theorem challenges_freeze_store :
    ∃ certs collected,
      servingBuilder.buildWithGeneration constantHashing renewalHeap (fun _ => none) 0 = .ok certs ∧
      submitAll renewalHeap freezingUpdates (.new ⟨certs, emptyMaterial.challenge, 0⟩) =
        .ok collected ∧
      (∀ around, collected.flushNow constantHashing renewalHeap around =
        .error (.challenge .full)) ∧
      collected.material.certs.resolve constantHashing (ascii "a.example")
        ⟨true, true, true, true⟩ = some 0 := by
  have built : ∃ certs,
      servingBuilder.buildWithGeneration constantHashing renewalHeap (fun _ => none) 0 = .ok certs ∧
      certs.resolve constantHashing (ascii "a.example") ⟨true, true, true, true⟩ = some 0 :=
    ⟨_, rfl, by decide⟩
  rcases built with ⟨certs, built, serves⟩
  have valid : ∀ update ∈ freezingUpdates,
      update.validate = .ok () ∧ update.publishedCred = none := by
    intro update mem
    rcases mem_append.mp mem with challenge | removal
    · rcases mem_map.mp challenge with ⟨name, inNames, rfl⟩
      rw [CertUpdate.validate, normalizeName, manyNames_normal name inNames]
      exact ⟨rfl, rfl⟩
    · rw [mem_singleton.mp removal]
      exact ⟨rfl, rfl⟩
  have count : freezingUpdates.length = 514 := by
    simp [freezingUpdates, manyNames]
  refine ⟨certs, _, built, submitAll_of_valid valid ?_, ?_, serves⟩
  · rw [count]
    show 0 + 514 ≤ 4096
    decide
  intro around
  have large : maxChallenges < 0 + manyNames.length := by
    simp [manyNames, maxChallenges]
  have full := @foldlM_apply_full renewalHeap manyNames
    (startBuilders ⟨certs, emptyMaterial.challenge, 0⟩ around.now) manyNames_normal
    manyNames_nodup (fun _ _ => not_mem_nil) (Nat.zero_le _) large
  have stopped : freezingUpdates.foldlM (apply renewalHeap)
      (startBuilders ⟨certs, emptyMaterial.challenge, 0⟩ around.now) =
      .error (.challenge .full) := by
    rw [freezingUpdates, foldlM_append, full]
    rfl
  have start : (CertUpdateCoalescer.new ⟨certs, emptyMaterial.challenge, 0⟩).pending ++
      freezingUpdates = freezingUpdates := nil_append _
  rw [start]
  exact flushNow_of_error (by simp [freezingUpdates]) stopped

def withdrawingUpdates : List CertUpdate :=
  [.install [ascii "a.example"] [] 0, .installChallenge (ascii "a.example") 0 9,
    .remove [ascii "a.example"]]

/-- Their flush succeeds and puts the removal in force. -/
theorem withdrawingUpdates_flush :
    ∃ collected flushed,
      submitAll renewalHeap withdrawingUpdates (.new emptyMaterial) = .ok collected ∧
      collected.flushNow constantHashing renewalHeap plainSurroundings = .ok flushed ∧
      flushed.pending = [] ∧ flushed.material.certs.Lacks constantHashing (ascii "a.example") := by
  have submitted : submitAll renewalHeap withdrawingUpdates (.new emptyMaterial) =
      .ok { CertUpdateCoalescer.new emptyMaterial with pending := withdrawingUpdates } := rfl
  have fits : ∀ builders, withdrawingUpdates.foldlM (apply renewalHeap)
        (startBuilders emptyMaterial plainSurroundings.now) = .ok builders →
      IndexFits (groupsOf renewalHeap builders.certs.entries) ∧
      CollisionFree (constantHashing.sipHash emptyMaterial.certs.hasher)
        ((groupsOf renewalHeap builders.certs.entries).map Group.name) := by
    intro builders applied
    cases applied
    refine ⟨⟨Nat.zero_le _, Nat.zero_le _⟩, ?_⟩
    intro left mem
    cases mem
  have fit : ChallengesFit
      ((startBuilders emptyMaterial plainSurroundings.now).challenge.entries.map Prod.fst)
      withdrawingUpdates := by
    refine ⟨?_, ?_, ?_, trivial⟩
    · decide
    · decide
    · decide
  rcases (@flush_iff_challengesFit constantHashing renewalHeap (.new emptyMaterial) _ (.new [])
    (.new []) (fun _ => none) plainSurroundings.iteration 0 0 withdrawingUpdates plainSurroundings
    rfl (.new []) rfl rfl (by decide) (by decide) submitted fits).mpr fit with
    ⟨flushed, gave, empty, _, _, inForce⟩
  refine ⟨_, flushed, submitted, gave, empty, ?_⟩
  exact inForce [_, _] [ascii "a.example"] [] rfl (ascii "a.example") mem_cons_self
    (ascii "a.example") rfl nofun

end IronTraffic.Tls
