import IronTraffic.Tls.Batching
import IronTraffic.Tls.ChallengeBatching

/-! # Coalescing updates

Flushing after every update and flushing once at the end publish stores that answer alike,
up to a default that is withdrawn with a superseded credential.
-/

namespace IronTraffic.Tls

open List

open CertUpdateCoalescer ChallengeCertsBuilder

variable {hashing : Hashing} {heap : Heap} {names : List Bytes} {now : Nat}

/-! ## One update on both builders -/

/-- The builders of the flushed run and those of the batch. -/
structure Agreement (heap : Heap) (now : Nat) (names : List Bytes) (step batch : Builders) :
    Prop where
  certs : Agree heap step.certs batch.certs
  challenge : ChallengeAgree now names step.challenge batch.challenge

/-- A replacement is the same certificate with another staple, and a challenge is for one of
the names in play. -/
def CertUpdate.Regular (heap : Heap) (names : List Bytes) : CertUpdate → Prop
  | .replace fingerprint cred => Stapling heap fingerprint cred
  | .installChallenge name _ _ => ∀ normalized, normalize name = .ok normalized → normalized ∈ names
  | _ => True

variable {step batch step' batch' : Builders} {update : CertUpdate}

lemma Agree.remove_all :
    ∀ {step batch : CertIndexBuilder}, Agree heap step batch →
      Agree heap (step.removeAll heap names) (batch.removeAll heap names) := by
  induction names with
  | nil => exact fun agree => agree
  | cons name names induction => exact fun agree => induction (agree.remove name)

lemma Agreement.updated (agree : Agreement heap now names step batch)
    (regular : update.Regular heap names) (stepped : apply heap step update = .ok step')
    (batched : apply heap batch update = .ok batch') : Agreement heap now names step' batch' := by
  have batched := applied_of_ok batched
  cases applied_of_ok stepped with
  | install exact wildcard cred =>
    cases batched
    exact ⟨agree.certs.append _, agree.challenge⟩
  | replace fingerprint cred =>
    cases batched
    exact ⟨agree.certs.replace regular, agree.challenge⟩
  | remove removed =>
    cases batched
    exact ⟨agree.certs.remove_all, agree.challenge⟩
  | setDefault cred =>
    cases batched
    exact ⟨⟨agree.certs.same, agree.certs.within, .inl rfl⟩, agree.challenge⟩
  | installChallenge inserted =>
    cases batched with
    | installChallenge insertedBatch =>
      exact ⟨agree.certs, agree.challenge.insert regular inserted insertedBatch⟩
  | removeChallenge name =>
    cases batched
    exact ⟨agree.certs, agree.challenge.remove name⟩

/-! ## The default -/

def ServedRemoval (heap : Heap) : CertIndexBuilder → List Bytes → Prop
  | _, [] => True
  | builder, name :: rest =>
    ServedWithdrawal heap builder name ∧ ServedRemoval heap (builder.remove heap name) rest

def CertUpdate.Served (heap : Heap) (builder : CertIndexBuilder) : CertUpdate → Prop
  | .remove names => ServedRemoval heap builder names
  | _ => True

def ServedRun (heap : Heap) : Builders → List CertUpdate → Prop
  | _, [] => True
  | builders, update :: rest =>
    update.Served heap builders.certs ∧
      ∀ next, apply heap builders update = .ok next → ServedRun heap next rest

variable {builder : CertIndexBuilder} {name : Bytes} {cred : Address} {builders : Builders}
  {coalescer after : CertUpdateCoalescer} {around : Surroundings} {material : TlsMaterial}

lemma Agree.remove_all_default {step batch} (agree : Agree heap step batch)
    (equal : batch.defaultCred = step.defaultCred) (served : ServedRemoval heap batch names) :
    (batch.removeAll heap names).defaultCred = (step.removeAll heap names).defaultCred := by
  induction names generalizing step batch with
  | nil => exact equal
  | cons name names induction =>
    exact induction (agree.remove name) (agree.remove_default equal served.1) served.2

lemma Agreement.updated_default (agree : Agreement heap now names step batch)
    (equal : batch.certs.defaultCred = step.certs.defaultCred)
    (served : update.Served heap batch.certs) (stepped : apply heap step update = .ok step')
    (batched : apply heap batch update = .ok batch') :
    batch'.certs.defaultCred = step'.certs.defaultCred := by
  have batched := applied_of_ok batched
  cases applied_of_ok stepped with
  | remove removed =>
    cases batched
    exact agree.certs.remove_all_default equal served
  | setDefault cred =>
    cases batched
    rfl
  | _ =>
    cases batched
    exact equal

/-! ## Runs -/

def startBuilders (material : TlsMaterial) (now : Nat) : Builders :=
  ⟨.fromPrevious material.certs, .fromPrevious material.challenge now⟩

def flushEach (hashing : Hashing) (heap : Heap) :
    List (CertUpdate × Surroundings) → CertUpdateCoalescer → Except CertError CertUpdateCoalescer
  | [], coalescer => .ok coalescer
  | (update, around) :: rest, coalescer => do
    let submitted ← coalescer.submit heap update
    let flushed ← submitted.flushNow hashing heap around
    flushEach hashing heap rest flushed

def submitAll (heap : Heap) (updates : List CertUpdate) (coalescer : CertUpdateCoalescer) :
    Except CertError CertUpdateCoalescer :=
  updates.foldlM (submit heap) coalescer

lemma submit_ok (gave : coalescer.submit heap update = .ok after) :
    after = { coalescer with
      pending :=
        if coalescer.maxPending < (coalescer.pending ++ [update]).length then
          dropOldest (coalescer.pending ++ [update])
        else coalescer.pending ++ [update] } := by
  rcases bind_eq_ok_iff.mp gave with ⟨_, _, gave⟩
  cases published : update.publishedCred with
  | none =>
    rw [published] at gave
    cases gave
    rfl
  | some cred =>
    rw [published] at gave
    cases (of_ite_error gave).2
    rfl

lemma flushNow_ok_iff (pending : coalescer.pending ≠ []) :
    coalescer.flushNow hashing heap around = .ok after ↔ ∃ builders certs challenge,
      coalescer.pending.foldlM (apply heap) (startBuilders coalescer.material around.now) =
        .ok builders ∧
      builders.certs.buildWithGeneration hashing heap around.entropy coalescer.nextGeneration =
        .ok certs ∧
      builders.challenge.buildWithGeneration hashing around.iteration coalescer.nextGeneration =
        .ok challenge ∧
      after = { coalescer with
        material := ⟨certs, challenge, coalescer.nextGeneration⟩
        pending := []
        nextGeneration := (coalescer.nextGeneration + 1) % 2 ^ 64 } := by
  rw [flushNow, if_neg (by simpa using pending)]
  constructor
  · intro gave
    rcases bind_eq_ok_iff.mp gave with ⟨builders, applied, gave⟩
    rcases bind_eq_ok_iff.mp gave with ⟨certs, built, gave⟩
    rcases bind_eq_ok_iff.mp gave with ⟨challenge, placed, equal⟩
    cases equal
    exact ⟨builders, certs, challenge, applied, built, mapError_eq_ok_iff.mp placed, rfl⟩
  · rintro ⟨builders, certs, challenge, applied, built, placed, rfl⟩
    refine bind_eq_ok_iff.mpr ⟨builders, applied, ?_⟩
    refine bind_eq_ok_iff.mpr ⟨certs, built, ?_⟩
    exact bind_eq_ok_iff.mpr ⟨challenge, mapError_eq_ok_iff.mpr placed, rfl⟩

lemma flushOne_ok (empty : coalescer.pending = []) (room : 1 ≤ coalescer.maxPending)
    (accepted : coalescer.submit heap update = .ok submitted)
    (flushed : submitted.flushNow hashing heap around = .ok after) :
    ∃ builders certs challenge,
      apply heap (startBuilders coalescer.material around.now) update = .ok builders ∧
      builders.certs.buildWithGeneration hashing heap around.entropy coalescer.nextGeneration =
        .ok certs ∧
      builders.challenge.buildWithGeneration hashing around.iteration coalescer.nextGeneration =
        .ok challenge ∧
      after.material = ⟨certs, challenge, coalescer.nextGeneration⟩ ∧ after.pending = [] ∧
      after.maxPending = coalescer.maxPending := by
  have equal := submit_ok accepted
  rw [empty, nil_append, length_singleton, if_neg (by omega)] at equal
  subst equal
  rcases (flushNow_ok_iff (by simp)).mp flushed with
    ⟨builders, certs, challenge, applied, built, placed, rfl⟩
  rcases bind_eq_ok_iff.mp applied with ⟨_, appliedOne, same⟩
  cases same
  exact ⟨builders, certs, challenge, appliedOne, built, placed, rfl, rfl, rfl⟩

/-! ## Material -/

/-- Material that was built from entries, whose challenges have different hashes. -/
structure Sound (hashing : Hashing) (heap : Heap) (names : List Bytes) (material : TlsMaterial) :
    Prop where
  certs : ∃ entries, Built hashing (groupsOf heap entries) material.certs
  challenge : ∃ entries, WellStaged names entries ∧ Serves hashing entries material.challenge
  free : CollisionFree (hashing.sipHash material.challenge.hasher) names

lemma Sound.resolve (sound : Sound hashing heap names material) (now : Nat)
    (defaultCred) (sni : Bytes) (caps) :
    ({ material.certs with defaultCred } : CertIndex).resolve hashing sni caps =
      selection heap (startBuilders material now).certs.entries defaultCred sni caps := by
  rcases sound.certs with ⟨entries, built⟩
  have changed : Built hashing (groupsOf heap entries) { material.certs with defaultCred } :=
    ⟨built.indexed, built.stored⟩
  rw [changed.resolve]
  have taken : (startBuilders material now).certs.entries =
      (groupsOf heap entries).flatMap Group.toEntries := built.rebuildEntries
  rw [taken]
  exact (selection_of_sameBest (sameBest_groupsOf heap entries) _ _ _).symm

lemma Sound.lookup (sound : Sound hashing heap names material) (sni : Bytes) (now : Nat) :
    material.challenge.lookup hashing sni now =
      match normalize sni with
      | .error _ => none
      | .ok name =>
        (live now ((startBuilders material now).challenge.entries.lookup name)).map
          Challenge.key := by
  rcases sound.challenge with ⟨entries, staged, serves⟩
  rw [lookup_of_serves serves staged.nodup]
  cases normalize sni with
  | error error => rfl
  | ok name =>
    have started : (startBuilders material now).challenge.entries.lookup name =
        live now (entries.lookup name) := lookup_fromPrevious serves staged.nodup now name
    simp only
    rw [started, live_live]

lemma hasher_apply {after} (gave : apply heap builders update = .ok after) :
    after.challenge.hasher = builders.challenge.hasher := by
  cases applied_of_ok gave with
  | installChallenge inserted =>
    rcases bind_eq_ok_iff.mp inserted with ⟨normalized, _, inserted⟩
    cases (of_ite_error inserted).2
    rfl
  | removeChallenge name =>
    show (builders.challenge.remove name).hasher = _
    unfold remove
    cases normalize name <;> rfl
  | _ => rfl

lemma Agreement.flush {certs challenge} (agree : Agreement heap now names step batch)
    (free : CollisionFree (hashing.sipHash step.challenge.hasher) names)
    (built : step.certs.buildWithGeneration hashing heap around.entropy generation = .ok certs)
    (placed : step.challenge.buildWithGeneration hashing around.iteration generation =
      .ok challenge) :
    Agreement heap now names (startBuilders ⟨certs, challenge, generation⟩ now) batch ∧
    Sound hashing heap names ⟨certs, challenge, generation⟩ := by
  rcases within_of_build agree.challenge.stepStaged placed with ⟨hasher, _, serves⟩
  refine ⟨⟨agree.certs.flush built, agree.challenge.flush free placed⟩, ?_, ?_, ?_⟩
  · exact ⟨_, (built_of_build built).1⟩
  · exact ⟨_, agree.challenge.stepStaged, serves free⟩
  · rw [hasher]
    exact free

lemma flushEach_agreement (regular : ∀ entry ∈ run, entry.2.now = now ∧ entry.1.Regular heap names)
    (empty : coalescer.pending = []) (room : 1 ≤ coalescer.maxPending)
    (sound : Sound hashing heap names coalescer.material)
    (agree : Agreement heap now names (startBuilders coalescer.material now) batch)
    (gave : flushEach hashing heap run coalescer = .ok stepped)
    (batched : (run.map Prod.fst).foldlM (apply heap) batch = .ok batch') :
    Sound hashing heap names stepped.material ∧
    Agreement heap now names (startBuilders stepped.material now) batch' ∧
    (batch.certs.defaultCred = coalescer.material.certs.defaultCred →
     ServedRun heap batch (run.map Prod.fst) →
     batch'.certs.defaultCred = stepped.material.certs.defaultCred) := by
  induction run generalizing coalescer stepped batch batch' with
  | nil =>
    cases gave
    cases batched
    exact ⟨sound, agree, fun equal _ => equal⟩
  | cons entry run induction =>
    rcases regular entry mem_cons_self with ⟨clock, regularHere⟩
    rcases bind_eq_ok_iff.mp gave with ⟨submitted, accepted, gave⟩
    rcases bind_eq_ok_iff.mp gave with ⟨flushed, flushedOk, gave⟩
    rcases flushOne_ok empty room accepted flushedOk with
      ⟨builders, certs, challenge, applied, built, placed, material, emptyAfter, maxAfter⟩
    rcases bind_eq_ok_iff.mp batched with ⟨nextBatch, appliedBatch, batched⟩
    rw [clock] at applied
    have updated := agree.updated regularHere applied appliedBatch
    have free : CollisionFree (hashing.sipHash builders.challenge.hasher) names := by
      rw [hasher_apply applied]
      exact sound.free
    rcases updated.flush free built placed with ⟨agreeNext, soundNext⟩
    rw [← material] at agreeNext soundNext
    rcases induction (fun later mem => regular later (mem_cons_of_mem _ mem))
      emptyAfter (maxAfter ▸ room) soundNext agreeNext gave batched with
      ⟨soundEnd, agreeEnd, defaults⟩
    refine ⟨soundEnd, agreeEnd, ?_⟩
    intro equal served
    refine defaults ?_ (served.2 nextBatch appliedBatch)
    rw [material]
    show nextBatch.certs.defaultCred = certs.defaultCred
    rw [(built_of_build built).2]
    exact agree.updated_default equal served.1 applied appliedBatch

def challengeNames (staged : Staged) (updates : List CertUpdate) : List Bytes :=
  staged.map Prod.fst ++ updates.filterMap fun
    | .installChallenge name _ _ => (normalize name).toOption
    | _ => none

lemma mem_challengeNames (mem : .installChallenge name key expires ∈ updates)
    (hit : normalize name = .ok normalized) : normalized ∈ challengeNames staged updates := by
  refine mem_append_right _ (mem_filterMap.mpr ⟨_, mem, ?_⟩)
  simp only
  rw [hit]
  rfl

lemma submitAll_material (gave : submitAll heap updates coalescer = .ok after) :
    after.material = coalescer.material := by
  induction updates generalizing coalescer after with
  | nil =>
    cases gave
    rfl
  | cons update updates induction =>
    rcases bind_eq_ok_iff.mp gave with ⟨next, accepted, gave⟩
    rw [induction gave, submit_ok accepted]

/-- Flushing after each update and flushing once publish stores that agree on the named
credentials and on the challenges. Their defaults agree as well, except that the batch may
have withdrawn its default; that is ruled out where every withdrawal concerns a served
credential. -/
theorem coalescing_transparent {material : TlsMaterial} {startCerts : CertIndexBuilder}
    {startChallenge : ChallengeCertsBuilder} {entropy : Nat → Option HashKey}
    {iteration : Iteration} {generation generation' maxPending : Nat}
    {run : List (CertUpdate × Surroundings)} {around : Surroundings}
    {stepped collected batched : CertUpdateCoalescer}
    (builtCerts : startCerts.buildWithGeneration hashing heap entropy generation =
      .ok material.certs)
    (reachable : Reachable hashing startChallenge)
    (builtChallenge : startChallenge.buildWithGeneration hashing iteration generation' =
      .ok material.challenge)
    (clock : ∀ entry ∈ run, entry.2.now = around.now)
    (stapling : ∀ entry ∈ run,
        ∀ fingerprint cred, entry.1 = .replace fingerprint cred → Stapling heap fingerprint cred)
    (free : CollisionFree (hashing.sipHash material.challenge.hasher)
        (challengeNames startChallenge.entries (run.map Prod.fst)))
    (stepwise : flushEach hashing heap run ((new material).setMaxPending maxPending) = .ok stepped)
    (submitted : submitAll heap (run.map Prod.fst) ((new material).setMaxPending maxPending) =
      .ok collected)
    (kept : collected.pending = run.map Prod.fst)
    (flushed : collected.flushNow hashing heap around = .ok batched) :
    (∀ sni caps,
       ({ stepped.material.certs with defaultCred := none } : CertIndex).resolve hashing sni caps =
         ({ batched.material.certs with defaultCred := none } : CertIndex).resolve hashing sni
           caps) ∧
    (batched.material.certs.defaultCred = stepped.material.certs.defaultCred ∨
     batched.material.certs.defaultCred = none) ∧
    (ServedRun heap (startBuilders material around.now) (run.map Prod.fst) →
     ∀ sni caps,
       stepped.material.certs.resolve hashing sni caps =
         batched.material.certs.resolve hashing sni caps) ∧
    ∀ sni,
      stepped.material.challenge.lookup hashing sni around.now =
        batched.material.challenge.lookup hashing sni around.now := by
  have sameMaterial : collected.material = material := submitAll_material submitted
  by_cases nothing : run = []
  · subst nothing
    cases stepwise
    rw [flushNow, kept, map_nil, isEmpty_nil, if_pos rfl] at flushed
    cases flushed
    have same : ((new material).setMaxPending maxPending).material =
        collected.material := sameMaterial.symm
    rw [same]
    exact ⟨fun _ _ => rfl, .inl rfl, fun _ _ _ => rfl, fun _ => rfl⟩
  · let names := challengeNames startChallenge.entries (run.map Prod.fst)
    have staged : WellStaged names startChallenge.entries :=
      reachable.wellStaged.mono fun entry mem =>
        mem_append_left _ (mem_map_of_mem mem)
    rcases within_of_build staged builtChallenge with ⟨hasher, within, serves⟩
    have sound : Sound hashing heap names material :=
      ⟨⟨_, (built_of_build builtCerts).1⟩, ⟨_, staged, serves (hasher ▸ free)⟩, free⟩
    have pending : collected.pending ≠ [] := by
      rw [kept]
      simpa using nothing
    rcases (flushNow_ok_iff pending).mp flushed with
      ⟨builders, certs, challenge, applied, built, placed, equal⟩
    rw [kept, sameMaterial] at applied
    have regular : ∀ entry ∈ run, entry.2.now = around.now ∧ entry.1.Regular heap names := by
      intro entry mem
      refine ⟨clock entry mem, ?_⟩
      rcases entry with ⟨update, surroundings⟩
      have present := mem_map_of_mem (f := Prod.fst) mem
      cases update with
      | replace fingerprint cred => exact stapling _ mem fingerprint cred rfl
      | installChallenge name key expires =>
        exact fun normalized hit => mem_challengeNames present hit
      | _ => trivial
    have startStaged := wellStaged_fromPrevious within staged around.now
    have start : Agreement heap around.now names (startBuilders material around.now)
        (startBuilders material around.now) :=
      ⟨.refl heap _, rfl, startStaged, startStaged, fun _ => rfl⟩
    have room : 1 ≤ ((new material).setMaxPending maxPending).maxPending :=
      le_trans (by decide) (le_max_right maxPending 16)
    rcases flushEach_agreement regular rfl room sound start stepwise applied with
      ⟨soundEnd, agree, defaults⟩
    have batchAnswer : ∀ defaultCred sni caps,
        ({ certs with defaultCred } : CertIndex).resolve hashing sni caps =
          ({ stepped.material.certs with defaultCred } : CertIndex).resolve hashing sni caps := by
      intro defaultCred sni caps
      have index :
          Built hashing (groupsOf heap builders.certs.entries) { certs with defaultCred } :=
        ⟨(built_of_build built).1.indexed, (built_of_build built).1.stored⟩
      rw [index.resolve, soundEnd.resolve around.now]
      exact (selection_of_sameBest agree.certs.same defaultCred sni caps).symm
    have batchDefault : certs.defaultCred = builders.certs.defaultCred := (built_of_build built).2
    rcases within_of_build agree.challenge.batchStaged placed with ⟨_, _, batchServes⟩
    have freeBatch : CollisionFree (hashing.sipHash builders.challenge.hasher) names := by
      rw [← agree.challenge.hasher]
      exact soundEnd.free
    subst equal
    refine ⟨fun sni caps => (batchAnswer none sni caps).symm, ?_, ?_, ?_⟩
    · show certs.defaultCred = _ ∨ certs.defaultCred = none
      rw [batchDefault]
      exact agree.certs.default
    · intro served sni caps
      have equal : certs.defaultCred = stepped.material.certs.defaultCred :=
        batchDefault.trans (defaults rfl served)
      have whole : ({ certs with defaultCred := stepped.material.certs.defaultCred } : CertIndex) =
          certs := by rw [← equal]
      have answer := batchAnswer stepped.material.certs.defaultCred sni caps
      rw [whole] at answer
      exact answer.symm
    · intro sni
      rw [soundEnd.lookup]
      show _ = challenge.lookup hashing sni around.now
      rw [lookup_of_serves (batchServes freeBatch) agree.challenge.batchStaged.nodup]
      cases normalize sni with
      | error error => rfl
      | ok name =>
        simp only
        rw [agree.challenge.same]

/-! ## Where the two differ -/

def renewalHeap : Heap := fun address =>
  { keyType := .ecdsaP256
    fingerprint := [address.toUInt8]
    notAfter := 100 * (address + 1)
    mustStaple := false
    staple := none
    sanDnsNames := [] }

def plainSurroundings : Surroundings := ⟨0, fun _ => none, ⟨id, fun _ => List.Perm.refl _⟩⟩

def emptyMaterial : TlsMaterial := ⟨⟨[], [], [], [], [], [], [], none, 0⟩, ⟨[], [], [], 0⟩, 0⟩

/-- The two ways of flushing these updates publish stores that are told apart. -/
def Differs (hashing : Hashing) (heap : Heap) (updates : List CertUpdate)
    (observe : TlsMaterial → Option Address) : Prop :=
  ∃ stepped collected batched,
    (CertIndexBuilder.new []).buildWithGeneration hashing heap (fun _ => none) 0 =
      .ok emptyMaterial.certs ∧
    (new []).buildWithGeneration hashing plainSurroundings.iteration 0 =
      .ok emptyMaterial.challenge ∧
    flushEach hashing heap (updates.map fun update => (update, plainSurroundings))
      (.new emptyMaterial) = .ok stepped ∧
    submitAll heap updates (.new emptyMaterial) = .ok collected ∧ collected.pending = updates ∧
    collected.flushNow hashing heap plainSurroundings = .ok batched ∧
    observe stepped.material ≠ observe batched.material

/-- A removal withdraws the default with a superseded credential, a replacement promotes one,
and challenges with one hash displace each other. -/
theorem coalescing_differs :
    Differs constantHashing renewalHeap
      [.setDefault 0, .install [ascii "a.example"] [] 0, .install [ascii "a.example"] [] 1,
        .remove [ascii "a.example"]]
      (fun material => material.certs.resolve constantHashing (ascii "b.example")
        ⟨true, true, true, true⟩) ∧
    Differs constantHashing renewalHeap
      [.install [ascii "a.example"] [] 0, .install [ascii "a.example"] [] 1, .replace [0] 2]
      (fun material => material.certs.resolve constantHashing (ascii "a.example")
        ⟨true, true, true, true⟩) ∧
    Differs constantHashing renewalHeap
      [.installChallenge (ascii "a.example") 0 9, .installChallenge (ascii "b.example") 1 9,
        .removeChallenge (ascii "a.example")]
      (fun material => material.challenge.lookup constantHashing (ascii "b.example") 0) := by
  refine ⟨⟨_, _, _, rfl, rfl, rfl, rfl, rfl, rfl, ?_⟩, ⟨_, _, _, rfl, rfl, rfl, rfl, rfl, rfl, ?_⟩,
    ⟨_, _, _, rfl, rfl, rfl, rfl, rfl, rfl, ?_⟩⟩
  · decide
  · decide
  · decide

def stapleHeap : Heap := fun address =>
  { renewalHeap 0 with staple := if address = 0 then none else some [7] }

def stapleRun : List (CertUpdate × Surroundings) :=
  [(.setDefault 0, plainSurroundings), (.install [ascii "a.example"] [] 0, plainSurroundings),
    (.replace [0] 1, plainSurroundings),
    (.installChallenge (ascii "a.example") 0 9, plainSurroundings)]

/-- Both ways of flushing the run serve the stapled credential. -/
theorem stapleRun_transparent :
    ∃ stepped collected batched,
      flushEach constantHashing stapleHeap stapleRun ((new emptyMaterial).setMaxPending 16) =
        .ok stepped ∧
      submitAll stapleHeap (stapleRun.map Prod.fst) ((new emptyMaterial).setMaxPending 16) =
        .ok collected ∧
      collected.flushNow constantHashing stapleHeap plainSurroundings = .ok batched ∧
      (∀ sni caps,
         stepped.material.certs.resolve constantHashing sni caps =
           batched.material.certs.resolve constantHashing sni caps) ∧
      ∀ sni,
        stepped.material.challenge.lookup constantHashing sni 0 =
          batched.material.challenge.lookup constantHashing sni 0 := by
  have stepwise : ∃ stepped, flushEach constantHashing stapleHeap stapleRun
      ((new emptyMaterial).setMaxPending 16) = .ok stepped := ⟨_, rfl⟩
  have submitted : submitAll stapleHeap (stapleRun.map Prod.fst)
      ((new emptyMaterial).setMaxPending 16) =
      .ok ⟨emptyMaterial, stapleRun.map Prod.fst, 16, 1⟩ := rfl
  have flushed : ∃ batched, (⟨emptyMaterial, stapleRun.map Prod.fst, 16, 1⟩ :
      CertUpdateCoalescer).flushNow constantHashing stapleHeap plainSurroundings =
      .ok batched := ⟨_, rfl⟩
  rcases stepwise with ⟨stepped, stepwise⟩
  rcases flushed with ⟨batched, flushed⟩
  have clock : ∀ entry ∈ stapleRun, entry.2.now = plainSurroundings.now := by decide
  have stapling : ∀ entry ∈ stapleRun, ∀ fingerprint cred, entry.1 = .replace fingerprint cred →
      Stapling stapleHeap fingerprint cred := by
    intro entry mem fingerprint cred isReplace
    simp only [stapleRun, mem_cons, not_mem_nil, or_false] at mem
    rcases mem with rfl | rfl | rfl | rfl <;> cases isReplace
    exact fun address hit => rfl
  have free : CollisionFree (constantHashing.sipHash emptyMaterial.challenge.hasher)
      (challengeNames (new []).entries (stapleRun.map Prod.fst)) := by
    unfold CollisionFree
    decide
  have start : Reachable constantHashing (.new []) := .new []
  have builtChallenge : (new []).buildWithGeneration constantHashing
      plainSurroundings.iteration 0 = .ok emptyMaterial.challenge := rfl
  have builtCerts : (CertIndexBuilder.new []).buildWithGeneration constantHashing stapleHeap
      (fun _ => none) 0 = .ok emptyMaterial.certs := rfl
  rcases coalescing_transparent builtCerts start builtChallenge clock stapling free stepwise
    submitted rfl flushed with ⟨_, _, served, challenges⟩
  -- no update of the run withdraws a certificate
  have withdrawsNone : ServedRun stapleHeap (startBuilders emptyMaterial plainSurroundings.now)
      (stapleRun.map Prod.fst) :=
    ⟨trivial, fun _ _ => ⟨trivial, fun _ _ => ⟨trivial, fun _ _ => ⟨trivial, fun _ _ => trivial⟩⟩⟩⟩
  exact ⟨stepped, _, batched, stepwise, submitted, flushed, served withdrawsNone, challenges⟩

end IronTraffic.Tls
