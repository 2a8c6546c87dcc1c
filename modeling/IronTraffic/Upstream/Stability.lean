import IronTraffic.Upstream.Tenancies

/-! # Ids are stable and not reused early

What the registry promises of every history of calls, in the terms of the callers: names,
ids, retirements and recycling.
-/

namespace IronTraffic.Upstream

open List

open EndpointRegistryWriter

noncomputable def liveIdentities (display : AddressDisplay) (start : EndpointRegistryWriter)
    (calls : List Call) : Nat :=
  {key | ∃ id, Named display start calls key id}.ncard

def EndpointRegistryWriter.retiredLen (writer : EndpointRegistryWriter) : Nat :=
  writer.retired.length

/-- The promises after a history of calls on a registry of the given capacity. -/
structure StableIds (display : AddressDisplay) (capacity : Nat) (start : EndpointRegistryWriter)
    (calls : List Call) : Prop where
  /-- The names are the identities that were interned and not retired since. -/
  lookup_iff : ∀ identity id, (serve display start calls).lookup display identity = some id ↔
      ∃ key, identity.identityBytes display false = some key ∧ Named display start calls key id
  id_unique : ∀ key id other,
    Named display start calls key id → Named display start calls key other → id = other
  key_unique : ∀ key other id,
    Named display start calls key id → Named display start calls other id → key = other
  /-- An id names its identity until it is retired. -/
  keeps_naming : ∀ before identity after key id, calls = before ++ .intern identity :: after →
    identity.identityBytes display false = some key →
    ((serve display start before).intern display identity).2 = .ok id →
    (∀ timeMs generation, Call.retire id timeMs generation ∉ after) →
    ∀ other, (serve display start calls).lookup display other = some id ↔
      other.identityBytes display false = some key
  /-- A retired id is given out again only after recycling past its grace, in which the
  generation saturates. -/
  rests : ∀ before id atMs atGeneration middle identity after,
    calls = before ++ .retire id atMs atGeneration :: (middle ++ .intern identity :: after) →
    (∃ key, Named display start before key id) →
    ((serve display start (before ++ .retire id atMs atGeneration :: middle)).intern display
      identity).2 = .ok id →
    ∃ timeMs generation, Call.recycle timeMs generation ∈ middle ∧ atMs + 60000 ≤ timeMs ∧
      min (atGeneration + 2) (2 ^ 64 - 1) ≤ generation
  /-- The capacity is exhausted when the live and the retired ids fill it. -/
  exhausted_iff : ∀ identity key, identity.identityBytes display false = some key →
    (((serve display start calls).intern display identity).2 =
        .error (.capacityExhausted capacity) ↔
      (¬∃ id, Named display start calls key id) ∧
        liveIdentities display start calls + (serve display start calls).retiredLen = capacity)
  /-- An identity that renders too long is refused, and nothing changes. -/
  too_long : ∀ identity, identity.identityBytes display false = none →
    (serve display start calls).intern display identity =
      (serve display start calls, .error .identityTooLong)
  live_count : (serve display start calls).liveCount = liveIdentities display start calls
  /-- Fewer than `2 ^ 32` tenancies of an id have different generations. -/
  tenancy_unique : ∀ id,
    ((tenancies display start calls).filter fun tenancy => tenancy.1 = id).length < 2 ^ 32 →
    ((tenancies display start calls).filter fun tenancy => tenancy.1 = id).Nodup
  /-- The generation of a slot is the one of its last tenancy. -/
  tenancy_generation : ∀ tenancy,
    ((tenancies display start calls).filter fun other => other.1 = tenancy.1).getLast? =
      some tenancy →
    (serve display start calls).slotGeneration tenancy.1 = some tenancy.2

variable {writer : EndpointRegistryWriter}

section Assembly

variable {display : AddressDisplay} {capacity : Nat} {start : EndpointRegistryWriter}

lemma install_spec (installed : install capacity = .ok start) :
    start.capacity = capacity ∧ start.index = [] ∧
      start.stats = List.replicate capacity .default := by
  cases (of_ite_error installed).2
  exact ⟨rfl, rfl, rfl⟩

lemma live_of_named_key (sane : writer.Consistent) {key : Bytes} {id}
    (hit : writer.index.lookup key = some id) : writer.states[id]? = some .live :=
  sane.live_of_named ((sane.indexed key id).mp hit)

lemma liveIdentities_eq (sane : start.Consistent) (empty : start.index = []) (calls) :
    liveIdentities display start calls = (serve display start calls).index.length := by
  have nodup := (serve_consistent display sane calls).nodup
  have keys : {key | ∃ id, Named display start calls key id} =
      ↑((serve display start calls).index.map Prod.fst).toFinset := by
    simp only [← serve_lookup_iff sane empty, lookup_eq_some_iff nodup,
      coe_toFinset, mem_map, Prod.exists, exists_and_right, exists_eq_right]
  rw [liveIdentities, keys, Set.ncard_coe_finset, toFinset_card_of_nodup nodup, length_map]

lemma index_length_le (sane : writer.Consistent) : writer.index.length ≤ 2 ^ 20 := by
  have all := count_states writer.states
  have bounded := sane.bounded
  rw [sane.states_length] at all
  rw [sane.live_length]
  unfold maxCapacity at bounded
  omega

lemma liveCount_eq (sane : writer.Consistent) : writer.liveCount = writer.index.length := by
  have small := index_length_le sane
  have counted := sane.counted
  unfold liveCount wrappingSub32
  omega

lemma exhausted_iff_full (sane : writer.Consistent) (key : Bytes) :
    (writer.internKey key).2 = .error (.capacityExhausted writer.capacity) ↔
      writer.index.lookup key = none ∧
        writer.index.length + writer.retired.length = writer.capacity := by
  rcases sane.internKey_cases key with
    ⟨id, hit, same⟩ | ⟨absent, full, same⟩ | ⟨_, room, _, _, moved⟩
  · rw [same, hit]
    simp
  · rw [same]
    exact ⟨fun _ => ⟨absent, full⟩, fun _ => rfl⟩
  · rw [moved]
    simp [room]

lemma tenancies_of_slot (installed : install capacity = .ok start) (calls id) :
    ∃ count, (tenancies display start calls).filter (fun tenancy => tenancy.1 = id) =
        (List.range count).map (fun turn => (id, (0 + 1 + turn) % 2 ^ 32)) ∧ (0 < count →
        (serve display start calls).slotGeneration id = some ((0 + count) % 2 ^ 32)) := by
  have fresh := install_consistent installed
  have stats := (install_spec installed).2.2
  by_cases inside : id < capacity
  · have first : start.slotGeneration id = some 0 := by
      rw [slotGeneration, stats, getElem?_replicate, if_pos inside]
      rfl
    rcases tenancies_generations fresh first (by decide) calls with ⟨count, all, last⟩
    exact ⟨count, all, fun _ => last⟩
  · have outside : start.slotGeneration id = none := by
      rw [slotGeneration, stats, getElem?_replicate, if_neg inside]
      rfl
    exact ⟨0, tenancies_outside fresh outside calls, by simp⟩

end Assembly

/-- Ids are stable and not reused early, after any history of calls on a registry of any
capacity. -/
theorem registry_stableIds (display : AddressDisplay) {capacity : Nat}
    {start : EndpointRegistryWriter} (installed : install capacity = .ok start)
    {calls : List Call} (ordered : Ordered calls) : StableIds display capacity start calls := by
  have fresh := install_consistent installed
  rcases install_spec installed with ⟨isCapacity, empty, stats⟩
  have sane := serve_consistent display fresh calls
  have named : ∀ {key id}, (serve display start calls).index.lookup key = some id ↔
      Named display start calls key id := serve_lookup_iff fresh empty calls
  refine
    { lookup_iff := ?_
      id_unique := ?_
      key_unique := ?_
      keeps_naming := ?_
      rests := ?_
      exhausted_iff := ?_
      too_long := fun _ => intern_of_tooLong
      live_count := (liveCount_eq sane).trans (liveIdentities_eq fresh empty calls).symm
      tenancy_unique := ?_
      tenancy_generation := ?_ }
  · intro identity id
    simp only [lookup_eq_some, named]
  · intro key id other isId isOther
    exact Option.some.inj ((named.mpr isId).symm.trans (named.mpr isOther))
  · intro key other id isKey isOther
    have left := (sane.indexed key id).mp (named.mpr isKey)
    have right := (sane.indexed other id).mp (named.mpr isOther)
    exact Option.some.inj (Option.some.inj (left.symm.trans right))
  · intro before identity after key id split rendered given kept other
    have isKey := named.mpr ⟨before, identity, after, split, rendered, given, kept⟩
    rw [lookup_eq_some]
    constructor
    · rintro ⟨otherKey, otherRendered, hit⟩
      have left := (sane.indexed key id).mp isKey
      have right := (sane.indexed otherKey id).mp hit
      rw [otherRendered, Option.some.inj (left.symm.trans right)]
    · intro same
      exact ⟨key, same, isKey⟩
  · intro before id atMs atGeneration middle identity after split live given
    rcases live with ⟨key, wasNamed⟩
    have wasLive := live_of_named_key (serve_consistent display fresh before)
      ((serve_lookup_iff fresh empty before).mpr wasNamed)
    apply recycled_before_reuse fresh _ wasLive given
    rw [split, ← cons_append, ← append_assoc] at ordered
    unfold Ordered at ordered ⊢
    rw [filterMap_append] at ordered
    exact (pairwise_append.mp ordered).1
  · intro identity key rendered
    have sameCapacity : (serve display start calls).capacity = start.capacity :=
      serve_capacity fresh calls
    rw [intern_of_rendered rendered, ← isCapacity, ← sameCapacity,
      exhausted_iff_full sane, liveIdentities_eq fresh empty calls]
    simp only [← named]
    rw [← Option.not_isSome_iff_eq_none, Option.isSome_iff_exists]
    rfl
  · intro id few
    rcases tenancies_of_slot installed calls id with ⟨count, all, _⟩
    rw [all, length_map, length_range] at few
    rw [all]
    refine nodup_range.map_on ?_
    intro turn isTurn other isOther same
    have equal := (Prod.mk.inj same).2
    rw [mem_range] at isTurn isOther
    omega
  · intro tenancy last
    rcases tenancies_of_slot installed calls tenancy.1 with ⟨count, all, generation⟩
    rw [all] at last
    cases count with
    | zero => cases last
    | succ count =>
      rw [range_succ, map_append, map_singleton, getLast?_concat] at last
      rw [generation (Nat.succ_pos count), ← Option.some.inj last]
      refine congrArg some ?_
      simp only
      omega

/-! ## An id at the end of the generations -/

def noDisplay : AddressDisplay := ⟨fun _ => [], fun _ => [], fun _ => []⟩

def pathIdentity (path : Bytes) : EndpointIdentity := ⟨.unix path, none⟩

def lastGenerationCalls : List Call :=
  [.intern (pathIdentity [97]), .retire 0 0 (2 ^ 64 - 1), .recycle 60000 (2 ^ 64 - 1),
    .intern (pathIdentity [98])]

theorem lastGenerationCalls_stableIds :
    ∃ start, install 1 = .ok start ∧ Ordered lastGenerationCalls ∧
      StableIds noDisplay 1 start lastGenerationCalls := by
  have installs : ∃ start, install 1 = .ok start := ⟨_, rfl⟩
  rcases installs with ⟨start, installed⟩
  have ordered : Ordered lastGenerationCalls := by decide
  exact ⟨start, installed, ordered, registry_stableIds noDisplay installed ordered⟩

/-- The grace of generations is not kept at the end of the generations: the id of the first
path is given to the second one in the generation in which it was retired. -/
theorem lastGeneration_reused :
    ∃ start, install 1 = .ok start ∧ Ordered lastGenerationCalls ∧
      (start.intern noDisplay (pathIdentity [97])).2 = .ok 0 ∧
      ((serve noDisplay start (lastGenerationCalls.take 3)).intern noDisplay
        (pathIdentity [98])).2 = .ok 0 ∧
      ¬∃ timeMs generation, Call.recycle timeMs generation ∈ lastGenerationCalls ∧
        0 + 60000 ≤ timeMs ∧ (2 ^ 64 - 1) + 2 ≤ generation := by
  refine ⟨_, rfl, by decide, by decide, by decide, ?_⟩
  rintro ⟨timeMs, generation, mem, _, late⟩
  simp [lastGenerationCalls] at mem
  omega

end IronTraffic.Upstream
