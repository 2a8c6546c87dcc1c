import IronTraffic.Tls.Rebuild

/-! # Updates on two pending lists

One builder takes all updates, the other is flushed after each. Their pending lists differ
by superseded credentials only. Every update keeps it so, provided that a replacement is
the same certificate with another staple.
-/

namespace IronTraffic.Tls

open List

variable {heap : Heap} {entries others : List PendingEntry}

/-! ## Lists of entries -/

lemma eligible_append (entries more) (isWild : Bool) (name : Bytes) (property) :
    eligible heap (entries ++ more) isWild name property =
      eligible heap entries isWild name property ++ eligible heap more isWild name property := by
  unfold eligible
  rw [filter_append, filter_append, map_append]

lemma SameBest.append (same : SameBest heap entries others) (more) :
    SameBest heap (entries ++ more) (others ++ more) := by
  intro isWild name property
  unfold best
  rw [eligible_append, eligible_append]
  exact argmin_append_congr (same isWild name property) _

lemma SameBest.trans (first : SameBest heap entries others) (second : SameBest heap others third) :
    SameBest heap entries third := fun isWild name property =>
  (first isWild name property).trans (second isWild name property)

lemma filter_ofName_removed (entries : List PendingEntry) (removed : Bytes) (isWild : Bool)
    (name : Bytes) :
    (entries.filter fun entry => entry.name != removed).filter (ofName isWild name) =
      if name = removed then [] else entries.filter (ofName isWild name) := by
  rw [filter_filter]
  by_cases isRemoved : name = removed
  · rw [if_pos isRemoved, filter_eq_nil_iff]
    intro entry _ holds
    rcases Bool.and_eq_true_iff.mp holds with ⟨named, kept⟩
    rw [(ofName_iff.mp named).2, isRemoved] at kept
    simp at kept
  · rw [if_neg isRemoved]
    refine filter_congr ?_
    intro entry _
    cases named : ofName isWild name entry with
    | false => rfl
    | true =>
      rw [(ofName_iff.mp named).2]
      simpa using isRemoved

lemma eligible_removed (entries) (removed : Bytes) (isWild : Bool) (name : Bytes) (property) :
    eligible heap (entries.filter fun entry => entry.name != removed) isWild name property =
      if name = removed then [] else eligible heap entries isWild name property := by
  unfold eligible
  rw [filter_ofName_removed]
  by_cases isRemoved : name = removed
  · rw [if_pos isRemoved, if_pos isRemoved]
    rfl
  · rw [if_neg isRemoved, if_neg isRemoved]

lemma SameBest.removed (same : SameBest heap entries others) (removed : Bytes) :
    SameBest heap (entries.filter fun entry => entry.name != removed)
      (others.filter fun entry => entry.name != removed) := by
  intro isWild name property
  unfold best
  rw [eligible_removed, eligible_removed]
  by_cases isRemoved : name = removed
  · rw [if_pos isRemoved, if_pos isRemoved]
  · rw [if_neg isRemoved, if_neg isRemoved]
    exact same isWild name property

/-! ## Replacing -/

/-- A replacement that keeps key type, expiry and fingerprint, as a new staple does. -/
def Stapling (heap : Heap) (fingerprint : CertFingerprint) (cred : Address) : Prop :=
  ∀ address, (heap address).fingerprint = fingerprint →
    preference heap address = preference heap cred

def restapled (heap : Heap) (fingerprint : CertFingerprint) (cred address : Address) : Address :=
  if (heap address).fingerprint = fingerprint then cred else address

lemma tag_injective {left right : KeyType} (same : left.tag = right.tag) : left = right := by
  cases left <;> cases right <;> simp_all [KeyType.tag]

variable {fingerprint : CertFingerprint} {cred : Address} {name : Bytes}

lemma preference_restapled (stapling : Stapling heap fingerprint cred) (address : Address) :
    preference heap (restapled heap fingerprint cred address) = preference heap address := by
  unfold restapled
  by_cases replaced : (heap address).fingerprint = fingerprint
  · rw [if_pos replaced, stapling address replaced]
  · rw [if_neg replaced]

lemma keyType_of_preference_eq (same : preference heap left = preference heap right) :
    (heap left).keyType = (heap right).keyType := by
  unfold preference at same
  rw [toLex_inj, Prod.mk.injEq] at same
  exact tag_injective same.1

def restapledEntry (heap : Heap) (fingerprint : CertFingerprint) (cred : Address)
    (entry : PendingEntry) : PendingEntry :=
  { entry with cred := restapled heap fingerprint cred entry.cred }

lemma entries_replaced (builder : CertIndexBuilder) (fingerprint) (cred : Address) :
    (builder.replacePendingByFingerprint heap fingerprint cred).1.entries =
      builder.entries.map (restapledEntry heap fingerprint cred) := by
  refine map_congr_left ?_
  intro entry _
  unfold restapledEntry restapled
  split
  · rfl
  · rfl

lemma best_replaced (stapling : Stapling heap fingerprint cred) (entries)
    (isWild : Bool) (name : Bytes) (property) :
    best heap (entries.map (restapledEntry heap fingerprint cred)) isWild name property =
      (best heap entries isWild name property).map (restapled heap fingerprint cred) := by
  have moved : eligible heap (entries.map (restapledEntry heap fingerprint cred)) isWild name
      property = (eligible heap entries isWild name property).map
        (restapled heap fingerprint cred) := by
    unfold eligible
    rw [filter_map, filter_map, map_map, map_map]
    have sameType : ∀ entry ∈ entries.filter (ofName isWild name),
        ((fun entry => property (heap entry.cred).keyType) ∘ restapledEntry heap fingerprint cred)
          entry = property (heap entry.cred).keyType := by
      intro entry _
      exact congrArg property (keyType_of_preference_eq (preference_restapled stapling entry.cred))
    exact congrArg (List.map _) (filter_congr sameType)
  unfold best
  rw [moved, argmin_map]
  simp only [preference_restapled stapling]

/-! ## The two builders -/

/-- The pending list that is flushed after each update, and the one that is not. A withdrawn
default may be withdrawn on the second only. -/
structure Agree (heap : Heap) (step batch : CertIndexBuilder) : Prop where
  same : SameBest heap step.entries batch.entries
  within : ∀ entry ∈ step.entries, entry ∈ batch.entries
  default : batch.defaultCred = step.defaultCred ∨ batch.defaultCred = none

variable {step batch : CertIndexBuilder}

lemma Agree.refl (heap : Heap) (builder) : Agree heap builder builder :=
  ⟨fun _ _ _ => rfl, fun _ mem => mem, .inl rfl⟩

/-! ## Removing and the default -/

lemma withdrawn_iff {default : Address} :
    CertIndexBuilder.withdrawn heap entries name default ↔ ∃ entry ∈ entries, entry.name = name ∧
        (heap entry.cred).fingerprint = (heap default).fingerprint := by
  rw [CertIndexBuilder.withdrawn, any_eq_true]
  simp only [Bool.and_eq_true, beq_iff_eq]

/-- A removal that withdraws the default withdraws a credential that is served. -/
def ServedWithdrawal (heap : Heap) (builder : CertIndexBuilder) (name : Bytes) : Prop :=
  ∀ normalized default, normalize name = .ok normalized → builder.defaultCred = some default →
    CertIndexBuilder.withdrawn heap builder.entries normalized default →
    ∃ isWild property cred, best heap builder.entries isWild normalized property = some cred ∧
      (heap cred).fingerprint = (heap default).fingerprint

lemma exists_entry_of_best {property} (hit : best heap entries isWild name property = some cred) :
    ∃ entry ∈ entries, entry.name = name ∧ entry.cred = cred := by
  rcases mem_map.mp (argmin_mem hit) with ⟨entry, mem, rfl⟩
  rcases mem_filter.mp (mem_filter.mp mem).1 with ⟨present, named⟩
  exact ⟨entry, present, (ofName_iff.mp named).2, rfl⟩

lemma selection_eq_some (answered : selection heap entries defaultCred sni caps = some cred) :
    defaultCred = some cred ∨ ∃ entry ∈ entries, entry.cred = cred := by
  have chosen : ∀ {isWild name}, (best heap entries isWild name caps.admits).or defaultCred =
      some cred → defaultCred = some cred ∨ ∃ entry ∈ entries, entry.cred = cred := by
    intro isWild name either
    rcases Option.or_eq_some_iff.mp either with hit | ⟨_, isDefault⟩
    · rcases exists_entry_of_best hit with ⟨entry, mem, _, isCred⟩
      exact .inr ⟨entry, mem, isCred⟩
    · exact .inl isDefault
  cases accepted : normalize sni with
  | error error =>
    rw [selection, accepted] at answered
    exact .inl answered
  | ok name =>
    rw [selection_of_ok accepted] at answered
    split at answered
    · exact chosen answered
    · cases isParent : parent name with
      | none =>
        rw [isParent] at answered
        exact .inl answered
      | some domain =>
        rw [isParent] at answered
        exact chosen answered

section

variable (agree : Agree heap step batch)

include agree

lemma Agree.append (added) :
    Agree heap { step with entries := step.entries ++ added }
      { batch with entries := batch.entries ++ added } where
  same := agree.same.append added
  within := by
    intro other mem
    rcases mem_append.mp mem with before | last
    · exact mem_append_left _ (agree.within other before)
    · exact mem_append_right _ last
  default := agree.default

lemma Agree.replace (stapling : Stapling heap fingerprint cred) :
    Agree heap (step.replacePendingByFingerprint heap fingerprint cred).1
      (batch.replacePendingByFingerprint heap fingerprint cred).1 where
  same := by
    intro isWild name property
    rw [entries_replaced, entries_replaced, best_replaced stapling, best_replaced stapling,
      agree.same]
  within := by
    intro entry mem
    rcases mem_map.mp mem with ⟨source, present, rfl⟩
    exact mem_map_of_mem (agree.within source present)
  default := agree.default

lemma Agree.remove (name : Bytes) :
    Agree heap (step.remove heap name) (batch.remove heap name) := by
  unfold CertIndexBuilder.remove
  cases normalize name with
  | error error => exact agree
  | ok normalized =>
    refine ⟨agree.same.removed normalized, ?_, ?_⟩
    · intro entry mem
      rcases mem_filter.mp mem with ⟨present, kept⟩
      exact mem_filter.mpr ⟨agree.within entry present, kept⟩
    show batch.defaultCred.filter _ = step.defaultCred.filter _ ∨ batch.defaultCred.filter _ = none
    rcases agree.default with same | none
    · rw [same]
      cases step.defaultCred with
      | none => exact .inl rfl
      | some default =>
        cases stepWithdrawn :
            CertIndexBuilder.withdrawn heap step.entries normalized default with
        | false =>
          cases batchWithdrawn :
              CertIndexBuilder.withdrawn heap batch.entries normalized default with
          | false => exact .inl (by simp [Option.filter, stepWithdrawn, batchWithdrawn])
          | true => exact .inr (by simp [batchWithdrawn])
        | true =>
          -- What is withdrawn on the flushed list is there on the other.
          rcases withdrawn_iff.mp stepWithdrawn with ⟨entry, present, hit⟩
          have batchWithdrawn :=
            withdrawn_iff.mpr ⟨entry, agree.within entry present, hit⟩
          exact .inr (by simp [batchWithdrawn])
    · rw [none]
      exact .inr rfl

lemma Agree.remove_default (equal : batch.defaultCred = step.defaultCred)
    (served : ServedWithdrawal heap batch name) :
    (batch.remove heap name).defaultCred = (step.remove heap name).defaultCred := by
  unfold ServedWithdrawal at served
  unfold CertIndexBuilder.remove
  cases normalized : normalize name with
  | error error => exact equal
  | ok normalizedName =>
    show batch.defaultCred.filter _ = step.defaultCred.filter _
    rw [equal] at served ⊢
    cases stepDefault : step.defaultCred with
    | none => rfl
    | some default =>
      have same : CertIndexBuilder.withdrawn heap batch.entries normalizedName default =
          CertIndexBuilder.withdrawn heap step.entries normalizedName default := by
        rw [Bool.eq_iff_iff]
        constructor
        · intro batchWithdrawn
          rcases served normalizedName default normalized stepDefault batchWithdrawn with
            ⟨isWild, property, cred, hit, fingerprint⟩
          rw [← agree.same] at hit
          rcases exists_entry_of_best hit with ⟨entry, present, named, rfl⟩
          exact withdrawn_iff.mpr ⟨entry, present, named, fingerprint⟩
        · intro stepWithdrawn
          rcases withdrawn_iff.mp stepWithdrawn with ⟨entry, present, hit⟩
          exact withdrawn_iff.mpr ⟨entry, agree.within entry present, hit⟩
      simp only [Option.filter, same]

/-! ## Flushing -/

lemma Agree.flush (gave : step.buildWithGeneration hashing heap entropy generation = .ok index) :
    Agree heap (.fromPrevious index) batch := by
  rcases built_of_build gave with ⟨built, default⟩
  have taken : (CertIndexBuilder.fromPrevious index).entries =
      (groupsOf heap step.entries).flatMap Group.toEntries := built.rebuildEntries
  refine ⟨?_, ?_, ?_⟩
  · rw [taken]
    exact (sameBest_groupsOf heap step.entries).trans agree.same
  · intro entry mem
    rw [taken] at mem
    exact agree.within entry (mem_of_mem_groupsOf mem)
  · show batch.defaultCred = index.defaultCred ∨ batch.defaultCred = none
    rw [default]
    exact agree.default

end

end IronTraffic.Tls
