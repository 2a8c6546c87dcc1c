import IronTraffic.Tls.Lookup

/-! # Which credential is served

The purpose of the index, said of the pending entries alone: the entries of the name, or
else of its parent as a wildcard, and among those the preferred one that the peer can
verify. Every index that is built answers so.
-/

namespace IronTraffic.Tls

open List

variable {heap : Heap} {entries : List PendingEntry}

/-- The preferred credential that the peer can verify: the lowest key type, then the latest
expiry, then the smallest fingerprint, then the first entry. -/
def choose (heap : Heap) (caps : ClientCaps) (entries : List PendingEntry) : Option Address :=
  ((entries.filter fun entry => caps.admits (heap entry.cred).keyType).argmin fun entry =>
    preference heap entry.cred).map PendingEntry.cred

def selection (heap : Heap) (entries : List PendingEntry) (defaultCred : Option Address)
    (sni : Bytes) (caps : ClientCaps) : Option Address :=
  match normalize sni with
  | .error _ => defaultCred
  | .ok name =>
    if entries.filter (ofName false name) ≠ [] then
      (choose heap caps (entries.filter (ofName false name))).or defaultCred
    else
      match parent name with
      | none => defaultCred
      | some parent =>
        if entries.filter (ofName true parent) ≠ [] then
          (choose heap caps (entries.filter (ofName true parent))).or defaultCred
        else defaultCred

/-! ## Choosing from a group -/

lemma sortKey_lt_iff (same : left.nameKey = right.nameKey) :
    sortKey heap left < sortKey heap right ↔ preference heap left.cred <
      preference heap right.cred := by
  rcases nameKey_inj.mp same with ⟨kind, name⟩
  unfold sortKey
  rw [kind, name, Prod.Lex.toLex_lt_toLex, Prod.Lex.toLex_lt_toLex]
  simp

lemma find?_credsOf (heap : Heap) (entries) (isWild : Bool) (name : Bytes)
    (property : KeyType → Bool) :
    ((credsOf heap (sortBy (sortKey heap) entries) isWild name).find? fun cred =>
        property cred.1).map Prod.snd =
      (((entries.filter (ofName isWild name)).filter fun entry =>
        property (heap entry.cred).keyType).argmin fun entry =>
          preference heap entry.cred).map PendingEntry.cred := by
  rw [credsOf, find?_collect, find?_map, find?_filter, Option.map_map]
  have hit := find?_sortBy (sortKey heap)
  have alike : (entries.filter fun entry =>
        ofName isWild name entry && property (heap entry.cred).keyType).argmin (sortKey heap) =
      (entries.filter fun entry =>
        ofName isWild name entry && property (heap entry.cred).keyType).argmin fun entry =>
          preference heap entry.cred := by
    refine argmin_congr ?_
    intro left leftMember right rightMember
    have leftName := ofName_iff.mp (Bool.and_eq_true_iff.mp (mem_filter.mp leftMember).2).1
    have rightName := ofName_iff.mp (Bool.and_eq_true_iff.mp (mem_filter.mp rightMember).2).1
    exact sortKey_lt_iff (nameKey_inj.mpr
      ⟨leftName.1.trans rightName.1.symm, leftName.2.trans rightName.2.symm⟩)
  have eligible : (fun entry => decide (ofName isWild name entry = true ∧
        ((fun cred : KeyType × Address => property cred.1) ∘ typed heap) entry = true)) =
      fun entry => ofName isWild name entry && property (heap entry.cred).keyType := by
    funext entry
    rw [Bool.decide_and, Bool.decide_eq_true, Bool.decide_eq_true]
    rfl
  have commuted : (fun entry => property (heap entry.cred).keyType && ofName isWild name entry) =
      fun entry => ofName isWild name entry && property (heap entry.cred).keyType := by
    funext entry
    rw [Bool.and_comm]
  rw [filter_filter, eligible, commuted, hit, alike]
  rfl

/-! ## The groups of the index -/

section Index

variable {hashing : Hashing} {index : CertIndex}

lemma exists_group_iff :
    (∃ group ∈ groupsOf heap entries, group.isWild = isWild ∧ group.name = name) ↔
      entries.filter (ofName isWild name) ≠ [] := by
  have grouping := grouping_groupsOf heap entries
  constructor
  · rintro ⟨group, mem, kind, named⟩
    rcases grouping.inhabited group mem with ⟨entry, present, key⟩
    subst kind named
    refine ne_nil_of_mem (mem_filter.mpr ⟨mem_sortBy.mp present, ?_⟩)
    exact ofName_iff_nameKey.mpr key
  · intro notEmpty
    rcases exists_mem_of_ne_nil _ notEmpty with ⟨entry, mem⟩
    rcases mem_filter.mp mem with ⟨present, holds⟩
    rcases grouping.covered entry (mem_sortBy.mpr present) with ⟨group, inGroups, key⟩
    rcases ofName_iff.mp holds with ⟨kind, named⟩
    rcases nameKey_inj.mp key with ⟨groupKind, groupName⟩
    exact ⟨group, inGroups, groupKind.trans kind, groupName.trans named⟩

lemma Built.answer (built : Built hashing (groupsOf heap entries) index) (isWild : Bool)
    (name : Bytes) (caps otherwise) :
    (match index.probe hashing (NameMaps.of ⟨index.exact, index.wild⟩ isWild) name with
      | some group => (index.select group caps).or index.defaultCred
      | none => otherwise) =
    if entries.filter (ofName isWild name) ≠ [] then
      (choose heap caps (entries.filter (ofName isWild name))).or index.defaultCred
    else otherwise := by
  cases probed : index.probe hashing (NameMaps.of ⟨index.exact, index.wild⟩ isWild) name with
  | some spot =>
    rcases built.probe_eq_some_iff.mp probed with ⟨group, hit, kind, named⟩
    have mem := mem_of_getElem? hit
    rw [if_pos (exists_group_iff.mp ⟨group, mem, kind, named⟩)]
    have creds := (grouping_groupsOf heap entries).creds group mem
    have all : group.creds.take 4 = group.creds := by
      rw [creds]
      exact take_of_length_le (length_collect_le _)
    simp only
    rw [built.select hit, all, creds, kind, named, find?_credsOf]
    rfl
  | none =>
    rw [if_neg]
    intro notEmpty
    rcases exists_group_iff.mpr notEmpty with ⟨group, mem, kind, named⟩
    rcases getElem?_of_mem mem with ⟨spot, hit⟩
    rw [built.probe_eq_some_iff.mpr ⟨group, hit, kind, named⟩] at probed
    cases probed

lemma Built.resolve (built : Built hashing (groupsOf heap entries) index) (sni : Bytes) (caps) :
    index.resolve hashing sni caps = selection heap entries index.defaultCred sni caps := by
  unfold CertIndex.resolve selection
  cases normalize sni with
  | error error => rfl
  | ok name =>
    refine (built.answer false name caps _).trans ?_
    by_cases hasExact : entries.filter (ofName false name) ≠ []
    · simp only [if_pos hasExact]
    · simp only [if_neg hasExact]
      cases parent name with
      | none => rfl
      | some parent => exact built.answer true parent caps _

end Index

lemma resolve_of_build {builder : CertIndexBuilder}
    (gave : builder.buildWithGeneration hashing heap entropy generation = .ok index) (sni : Bytes)
    (caps) :
    index.resolve hashing sni caps =
      selection heap builder.entries builder.defaultCred sni caps := by
  rcases built_of_build gave with ⟨built, default⟩
  rw [built.resolve, default]

/-! ## The order of insertion -/

variable {caps : ClientCaps}

lemma choose_eq_some (chosen : choose heap caps entries = some cred) :
    (∃ entry ∈ entries, entry.cred = cred) ∧ caps.admits (heap cred).keyType ∧
      ∀ entry ∈ entries, caps.admits (heap entry.cred).keyType →
        preference heap cred ≤ preference heap entry.cred := by
  rcases Option.map_eq_some_iff.mp chosen with ⟨least, hit, rfl⟩
  rcases mem_filter.mp (argmin_mem hit) with ⟨mem, admitted⟩
  refine ⟨⟨least, mem, rfl⟩, admitted, ?_⟩
  intro entry present entryAdmitted
  exact @le_of_mem_argmin _ _ _ (fun entry => preference heap entry.cred) _ _ _
    (mem_filter.mpr ⟨present, entryAdmitted⟩) hit

lemma choose_eq_none :
    choose heap caps entries = none ↔
      ∀ entry ∈ entries, caps.admits (heap entry.cred).keyType = false := by
  unfold choose
  simp

lemma map_preference_choose (heap : Heap) (caps)
    (same : ∀ entry, entry ∈ entries ↔ entry ∈ others) :
    (choose heap caps entries).map (preference heap) =
      (choose heap caps others).map (preference heap) := by
  cases left : choose heap caps entries with
  | none =>
    have noneLeft := choose_eq_none.mp left
    have right : choose heap caps others = none :=
      choose_eq_none.mpr fun entry mem => noneLeft entry ((same entry).mpr mem)
    rw [right]
  | some cred =>
    rcases choose_eq_some left with ⟨⟨entry, mem, rfl⟩, admitted, least⟩
    cases right : choose heap caps others with
    | none =>
      have noneRight := choose_eq_none.mp right
      rw [noneRight entry ((same entry).mp mem)] at admitted
      cases admitted
    | some other =>
      rcases choose_eq_some right with ⟨⟨otherEntry, otherMember, rfl⟩, otherAdmitted, otherLeast⟩
      have below := least otherEntry ((same otherEntry).mpr otherMember) otherAdmitted
      have above := otherLeast entry ((same entry).mp mem) admitted
      exact congrArg some (le_antisymm below above)

lemma choose_eq_of_untied (caps) (same : ∀ entry, entry ∈ entries ↔ entry ∈ others)
    (untied : ∀ left ∈ entries, ∀ right ∈ entries,
      preference heap left.cred = preference heap right.cred → left.cred = right.cred) :
    choose heap caps entries = choose heap caps others := by
  have preferred := map_preference_choose heap caps same
  cases left : choose heap caps entries with
  | none =>
    rw [left] at preferred
    exact (Option.map_eq_none_iff.mp preferred.symm).symm
  | some cred =>
    rw [left] at preferred
    rcases Option.map_eq_some_iff.mp preferred.symm with ⟨other, right, equal⟩
    rcases choose_eq_some left with ⟨⟨entry, mem, rfl⟩, _⟩
    rcases choose_eq_some right with ⟨⟨otherEntry, otherMember, rfl⟩, _⟩
    rw [right, untied entry mem otherEntry ((same otherEntry).mpr otherMember) equal.symm]

lemma selection_congr (image : Option Address → Image)
    (empty : ∀ isWild name,
        entries.filter (ofName isWild name) ≠ [] ↔ others.filter (ofName isWild name) ≠ [])
    (chosen : ∀ isWild name,
        image ((choose heap caps (entries.filter (ofName isWild name))).or defaultCred) =
          image ((choose heap caps (others.filter (ofName isWild name))).or defaultCred))
    (sni : Bytes) :
    image (selection heap entries defaultCred sni caps) =
      image (selection heap others defaultCred sni caps) := by
  unfold selection
  cases normalize sni with
  | error error => rfl
  | ok name =>
    simp only
    by_cases hasExact : entries.filter (ofName false name) ≠ []
    · rw [if_pos hasExact, if_pos ((empty _ _).mp hasExact)]
      exact chosen false name
    rw [if_neg hasExact, if_neg (fun has => hasExact ((empty _ _).mpr has))]
    cases parent name with
    | none => rfl
    | some parent =>
      simp only
      by_cases hasWild : entries.filter (ofName true parent) ≠ []
      · rw [if_pos hasWild, if_pos ((empty _ _).mp hasWild)]
        exact chosen true parent
      · rw [if_neg hasWild, if_neg (fun has => hasWild ((empty _ _).mpr has))]

/-- No two different credentials of one name and kind have the same preference. -/
def Untied (heap : Heap) (entries : List PendingEntry) : Prop :=
  ∀ left ∈ entries, ∀ right ∈ entries, left.nameKey = right.nameKey →
    preference heap left.cred = preference heap right.cred → left.cred = right.cred

lemma selection_perm (heap : Heap) (permuted : entries.Perm others)
    (defaultCred) (sni : Bytes) (caps) :
    (selection heap entries defaultCred sni caps).map (preference heap) =
        (selection heap others defaultCred sni caps).map (preference heap) ∧
      (Untied heap entries → selection heap entries defaultCred sni caps =
        selection heap others defaultCred sni caps) := by
  have empty : ∀ isWild name, entries.filter (ofName isWild name) ≠ [] ↔
      others.filter (ofName isWild name) ≠ [] := by
    intro isWild name
    rw [ne_eq, ne_eq, ← length_eq_zero_iff, ← length_eq_zero_iff, (permuted.filter _).length_eq]
  have same : ∀ isWild name entry, entry ∈ entries.filter (ofName isWild name) ↔
      entry ∈ others.filter (ofName isWild name) :=
    fun isWild name entry => (permuted.filter _).mem_iff
  constructor
  · refine selection_congr (Option.map (preference heap)) empty ?_ sni
    intro isWild name
    rw [Option.map_or, Option.map_or, map_preference_choose heap caps (same isWild name)]
  intro untied
  refine selection_congr id empty ?_ sni
  intro isWild name
  rw [choose_eq_of_untied caps (same isWild name)]
  intro left leftMember right rightMember
  rcases mem_filter.mp leftMember with ⟨leftPresent, leftName⟩
  rcases mem_filter.mp rightMember with ⟨rightPresent, rightName⟩
  refine untied left leftPresent right rightPresent (nameKey_inj.mpr ⟨?_, ?_⟩)
  · rw [(ofName_iff.mp leftName).1, (ofName_iff.mp rightName).1]
  · rw [(ofName_iff.mp leftName).2, (ofName_iff.mp rightName).2]

/-- Every index that is built answers as its pending entries say. The hash functions, the
keys and the attempts play no part, and the order of the entries only decides between
credentials of the same key type, expiry and fingerprint. -/
theorem resolve_isSelection {hashing : Hashing} {entropy : Nat → Option HashKey}
    {builder : CertIndexBuilder} {generation : Nat} {index : CertIndex}
    (gave : builder.buildWithGeneration hashing heap entropy generation = .ok index) :
    (∀ sni caps, index.resolve hashing sni caps =
      selection heap builder.entries builder.defaultCred sni caps) ∧
    ∀ (hashing' : Hashing) (entropy' : Nat → Option HashKey) (other : CertIndexBuilder)
      (generation' : Nat) (index' : CertIndex),
      other.entries.Perm builder.entries → other.defaultCred = builder.defaultCred →
      other.buildWithGeneration hashing' heap entropy' generation' = .ok index' → ∀ sni caps,
        (index'.resolve hashing' sni caps).map (preference heap) =
          (index.resolve hashing sni caps).map (preference heap) ∧ (Untied heap builder.entries →
          index'.resolve hashing' sni caps = index.resolve hashing sni caps) := by
  refine ⟨resolve_of_build gave, ?_⟩
  intro hashing' entropy' other generation' index' permuted default returned' sni caps
  rw [resolve_of_build gave, resolve_of_build returned', default]
  rcases selection_perm heap permuted.symm builder.defaultCred sni caps with
    ⟨preferred, untied⟩
  exact ⟨preferred.symm, fun none => (untied none).symm⟩

def stapledHeap : Heap := fun address =>
  { keyType := .ecdsaP256
    fingerprint := [1]
    notAfter := 100
    mustStaple := false
    staple := if address = 0 then none else some [7]
    sanDnsNames := [] }

def constantHashing : Hashing := ⟨fun _ _ => 0, fun _ => []⟩

def twoCredentials (first second : Address) : Except CertError CertIndexBuilder := do
  let builder ← (CertIndexBuilder.new []).upsertExact (ascii "a.example") first
  builder.upsertExact (ascii "a.example") second

/-- The same certificate with and without a staple: what was inserted first is served. -/
theorem stapled_insertionOrder :
    ∃ builder swapped index index',
      twoCredentials 0 1 = .ok builder ∧ twoCredentials 1 0 = .ok swapped ∧
      swapped.entries.Perm builder.entries ∧ swapped.defaultCred = builder.defaultCred ∧
      builder.buildWithGeneration constantHashing stapledHeap (fun _ => none) 0 = .ok index ∧
      swapped.buildWithGeneration constantHashing stapledHeap (fun _ => none) 0 = .ok index' ∧
      index.resolve constantHashing (ascii "a.example") ⟨true, true, true, true⟩ ≠
        index'.resolve constantHashing (ascii "a.example") ⟨true, true, true, true⟩ := by
  refine ⟨_, _, _, _, rfl, rfl, ?_, rfl, rfl, rfl, ?_⟩
  · decide
  · decide

def twoKeyTypesHeap : Heap := fun address =>
  { stapledHeap address with keyType := if address = 0 then .rsa else .ed25519 }

/-- The peer that verifies only RSA gets the RSA credential, and no order of insertion
changes that. -/
theorem twoKeyTypes_isSelection :
    ∃ builder swapped index index',
      twoCredentials 0 1 = .ok builder ∧ twoCredentials 1 0 = .ok swapped ∧
      builder.buildWithGeneration constantHashing twoKeyTypesHeap (fun _ => none) 0 = .ok index ∧
      swapped.buildWithGeneration constantHashing twoKeyTypesHeap (fun _ => none) 0 = .ok index' ∧
      index.resolve constantHashing (ascii "A.example.") ⟨false, false, true, false⟩ = some 0 ∧
      index'.resolve constantHashing (ascii "A.example.") ⟨false, false, true, false⟩ =
        index.resolve constantHashing (ascii "A.example.") ⟨false, false, true, false⟩ := by
  let entry (cred : Address) : PendingEntry := ⟨ascii "a.example", false, cred⟩
  let builder : CertIndexBuilder := ⟨[], [entry 0, entry 1], none, none⟩
  let swapped : CertIndexBuilder := ⟨[], [entry 1, entry 0], none, none⟩
  have built : ∃ index, builder.buildWithGeneration constantHashing twoKeyTypesHeap
      (fun _ => none) 0 = .ok index := ⟨_, rfl⟩
  have builtSwapped : ∃ index, swapped.buildWithGeneration constantHashing twoKeyTypesHeap
      (fun _ => none) 0 = .ok index := ⟨_, rfl⟩
  rcases built with ⟨index, gave⟩
  rcases builtSwapped with ⟨index', returned'⟩
  have untied : Untied twoKeyTypesHeap builder.entries := by
    unfold Untied
    decide
  refine ⟨builder, swapped, index, index', by rfl, by rfl, gave, returned', ?_, ?_⟩
  · rw [(resolve_isSelection gave).1]
    decide
  · exact ((resolve_isSelection gave).2 _ _ swapped _ index' (List.Perm.swap _ _ _) rfl
      returned' _ _).2 untied

end IronTraffic.Tls
