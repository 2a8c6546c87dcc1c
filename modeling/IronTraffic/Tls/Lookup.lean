import IronTraffic.Foundation.Slice
import IronTraffic.Tls.Groups

/-! # Probing the maps and reading the arrays

The maps send the hash of a name to its group, and the arrays hold the name and the
credentials of every group.
-/

namespace IronTraffic.Tls

open List

/-! ## The maps -/

/-- The maps after the first `count` groups. -/
structure Indexed (hash : Bytes → UInt64) (groups : List Group) (count : Nat)
    (maps : NameMaps) : Prop where
  sound : ∀ isWild key index, (maps.of isWild).lookup key = some index →
    index < count ∧ ∃ group, groups[index]? = some group ∧ group.isWild = isWild ∧
      hash group.name = key
  complete : ∀ index group, index < count → groups[index]? = some group →
    (maps.of group.isWild).lookup (hash group.name) = some index
  exactCount : maps.exact.length = (groups.take count).countP fun group => !group.isWild

lemma indexed_empty (hash groups) : Indexed hash groups 0 ⟨[], []⟩ where
  sound := by
    intro isWild key index hit
    cases isWild with
    | true | false => cases hit
  complete := fun index group impossible => absurd impossible (Nat.not_lt_zero index)
  exactCount := rfl

lemma of_insert (maps : NameMaps) (isWild other : Bool) (key : UInt64) (index : Nat) :
    (maps.insert isWild key index).of other =
      if other = isWild then (key, index) :: maps.of other else maps.of other := by
  cases isWild with
  | true | false =>
    cases other with
    | true | false => rfl

lemma Indexed.insert {hash groups} {count : Nat}
    {maps : NameMaps} {group : Group} (indexed : Indexed hash groups count maps)
    (here : groups[count]? = some group)
    (vacant : (maps.of group.isWild).lookup (hash group.name) = none) :
    Indexed hash groups (count + 1) (maps.insert group.isWild (hash group.name) count) where
  sound := by
    intro isWild key index hit
    rw [of_insert] at hit
    by_cases kind : isWild = group.isWild
    · subst kind
      rw [if_pos rfl, lookup_cons] at hit
      cases isKey : key == hash group.name with
      | true =>
        rw [isKey] at hit
        cases hit
        exact ⟨Nat.lt_succ_self _, group, here, rfl, (beq_iff_eq.mp isKey).symm⟩
      | false =>
        rw [isKey] at hit
        rcases indexed.sound _ _ _ hit with ⟨before, rest⟩
        exact ⟨Nat.lt_succ_of_lt before, rest⟩
    · rw [if_neg kind] at hit
      rcases indexed.sound _ _ _ hit with ⟨before, rest⟩
      exact ⟨Nat.lt_succ_of_lt before, rest⟩
  complete := by
    intro index other before hit
    rw [of_insert]
    rcases Nat.lt_succ_iff_lt_or_eq.mp before with earlier | isLast
    · have lookup := indexed.complete index other earlier hit
      by_cases kind : other.isWild = group.isWild
      · rw [if_pos kind, lookup_cons]
        cases isKey : hash other.name == hash group.name with
        | true =>
          rw [kind, beq_iff_eq.mp isKey, vacant] at lookup
          cases lookup
        | false => exact lookup
      · rw [if_neg kind]
        exact lookup
    · subst isLast
      rw [here] at hit
      cases hit
      rw [if_pos rfl, lookup_cons, beq_self_eq_true]
  exactCount := by
    have inside : count < groups.length := lt_of_getElem? here
    have last : groups[count] = group := (List.getElem?_eq_some_iff.mp here).2
    rw [take_succ_eq_append_getElem inside, countP_append, last, ← indexed.exactCount]
    cases kind : group.isWild with
    | true | false => simp [NameMaps.insert, kind]

/-- Another group of one name and kind would have the same place in the order. -/
lemma Indexed.apart {hash groups} {count : Nat} {maps : NameMaps} {group : Group}
    (indexed : Indexed hash groups count maps)
    (ordered : groups.Pairwise fun left right => left.nameKey < right.nameKey)
    (here : groups[count]? = some group)
    (occupied : (maps.of group.isWild).lookup (hash group.name) = some existing) :
    ¬groups[existing]?.map Group.name = some group.name := by
  rcases indexed.sound _ _ _ occupied with ⟨before, other, hit, kind, _⟩
  rw [hit]
  intro same
  have key : other.nameKey = group.nameKey :=
    nameKey_inj.mpr ⟨kind, Option.some.inj same⟩
  have less := pairwise_iff_getElem.mp ordered existing count
    (lt_of_getElem? hit) (lt_of_getElem? here) before
  rw [(List.getElem?_eq_some_iff.mp hit).2, (List.getElem?_eq_some_iff.mp here).2, key] at less
  exact lt_irrefl _ less

lemma indexed_indexGroups {hash groups}
    (ordered : groups.Pairwise fun left right => left.nameKey < right.nameKey) {rest}
    {count : Nat} {maps result : NameMaps} (dropped : groups.drop count = rest)
    (indexed : Indexed hash groups count maps)
    (gave : indexGroups hash groups (rest.zipIdx count) maps = .ok (some result)) :
    Indexed hash groups groups.length result := by
  induction rest generalizing count maps result with
  | nil =>
    cases gave
    have long : groups.length ≤ count := drop_eq_nil_iff.mp dropped
    refine ⟨?_, ?_, ?_⟩
    · intro isWild key index hit
      rcases indexed.sound _ _ _ hit with ⟨_, group, here, rest⟩
      exact ⟨lt_of_getElem? here, group, here, rest⟩
    · intro index group before hit
      exact indexed.complete index group (lt_of_lt_of_le before long) hit
    · rw [indexed.exactCount, take_of_length_le long, take_of_length_le (le_refl _)]
  | cons group rest induction =>
    rcases drop_eq_cons dropped with ⟨here, dropNext⟩
    rw [zipIdx_cons, indexGroups] at gave
    rcases of_ite_error gave with ⟨large, gave⟩
    cases occupied : (maps.of group.isWild).lookup (hash group.name) with
    | none =>
      rw [occupied] at gave
      exact induction dropNext (indexed.insert here occupied) gave
    | some existing =>
      rw [occupied] at gave
      simp only at gave
      rw [if_neg (indexed.apart ordered here occupied)] at gave
      cases gave

/-! ## The credentials -/

def Holds (creds : List Address) (set : CredSet) (held : List (KeyType × Address)) : Prop :=
  List.Forall₂ (fun slot cred => slot.1 = cred.1.tag ∧ creds[slot.2]? = some cred.2) set held

variable {creds : List Address} {set : CredSet} {held : List (KeyType × Address)}
  {index generation spot : Nat} {groups : List Group} {group : Group} {hashing : Hashing}

lemma Holds.mono (holds : Holds creds set held) (grown : creds <+: more) : Holds more set held := by
  rcases grown with ⟨added, rfl⟩
  refine List.Forall₂.imp ?_ holds
  rintro slot cred ⟨tag, hit⟩
  rw [getElem?_append_left (lt_of_getElem? hit)]
  exact ⟨tag, hit⟩

def CredTable.Sound (table : CredTable) : Prop :=
  ∀ cred index, table.ptrToIdx.lookup cred = some index → table.creds[index]? = some cred

lemma intern_spec {table after : CredTable} (sound : table.Sound)
    (gave : table.intern cred = .ok (after, index)) :
    after.Sound ∧ table.creds <+: after.creds ∧ after.creds[index]? = some cred := by
  unfold CredTable.intern at gave
  cases hit : table.ptrToIdx.lookup cred with
  | some existing =>
    rw [hit] at gave
    cases gave
    exact ⟨sound, prefix_refl _, sound cred _ hit⟩
  | none =>
    rw [hit] at gave
    cases (of_ite_error gave).2
    refine ⟨?_, prefix_append _ _, by simp⟩
    intro other place lookup
    rw [lookup_cons] at lookup
    cases same : other == cred with
    | true =>
      rw [same] at lookup
      cases lookup
      rw [beq_iff_eq.mp same]
      simp
    | false =>
      rw [same] at lookup
      have inside := lt_of_getElem? (sound other place lookup)
      show (table.creds ++ [cred])[place]? = some other
      rw [getElem?_append_left inside]
      exact sound other place lookup

lemma internCreds_spec {table after} (sound : table.Sound) (holds : Holds table.creds set held)
    (gave : internCreds rest table set = .ok (after, result)) :
    after.Sound ∧ table.creds <+: after.creds ∧ Holds after.creds result (held ++ rest) := by
  induction rest generalizing held table after set result with
  | nil =>
    cases gave
    rw [append_nil]
    exact ⟨sound, prefix_refl _, holds⟩
  | cons next rest induction =>
    rw [internCreds] at gave
    cases interned : table.intern next.2 with
    | error error =>
      rw [interned] at gave
      cases gave
    | ok hit =>
      rw [interned] at gave
      rcases intern_spec sound interned with ⟨soundNext, grown, place⟩
      have holdsNext : Holds hit.1.creds (set ++ [(next.1.tag, hit.2)]) (held ++ [next]) :=
        rel_append (holds.mono grown) (.cons ⟨rfl, place⟩ .nil)
      rcases induction soundNext holdsNext gave with ⟨soundAfter, grownAfter, holdsAfter⟩
      rw [append_assoc] at holdsAfter
      exact ⟨soundAfter, grown.trans grownAfter, holdsAfter⟩

/-! ## The arrays -/

structure Stored (groups : List Group) (arrays : Arrays) : Prop where
  nameRefs : arrays.nameRefs.length = groups.length
  credSets : arrays.credSets.length = groups.length
  names : ∀ (index : Nat) (group : Group), groups[index]? = some group → ∃ nameRef : NameRef,
    arrays.nameRefs[index]? = some nameRef ∧ nameRef.offset + nameRef.len ≤ arrays.names.length ∧
      (arrays.names.drop nameRef.offset).take nameRef.len = group.name
  creds : ∀ (index : Nat) (group : Group), groups[index]? = some group → ∃ set,
    arrays.credSets[index]? = some set ∧ Holds arrays.table.creds set (group.creds.take 4)
  table : arrays.table.Sound
  short : ∀ group ∈ groups, group.name.length < 2 ^ 16

lemma stored_empty : Stored [] .empty where
  short := nofun
  nameRefs := rfl
  credSets := rfl
  names := fun index group hit => by simp at hit
  creds := fun index group hit => by simp at hit
  table := fun cred index hit => by cases hit

lemma getElem?_append_cases {items} {item hit : Item}
    (read : (items ++ [item])[index]? = some hit) :
    items[index]? = some hit ∨ (index = items.length ∧ hit = item) := by
  by_cases inside : index < items.length
  · rw [getElem?_append_left inside] at read
    exact .inl read
  · rw [getElem?_append_right (not_lt.mp inside)] at read
    rcases List.getElem?_eq_some_iff.mp read with ⟨bound, equal⟩
    rw [length_singleton] at bound
    have last : index = items.length := by omega
    subst last
    simp at equal
    exact .inr ⟨rfl, equal.symm⟩

lemma stored_addGroup {arrays after : Arrays} (stored : Stored groups arrays)
    (gave : addGroup arrays group = .ok after) : Stored (groups ++ [group]) after := by
  unfold addGroup at gave
  rcases of_ite_error gave with ⟨_, gave⟩
  rcases of_ite_error gave with ⟨_, gave⟩
  rcases of_ite_error gave with ⟨notBig, gave⟩
  rcases bind_eq_ok_iff.mp gave with ⟨interned, internedOk, equal⟩
  rcases internCreds_spec stored.table .nil internedOk with ⟨sound, grown, holds⟩
  cases equal
  have short : ∀ other ∈ groups ++ [group], other.name.length < 2 ^ 16 :=
    forall_mem_append.mpr ⟨stored.short, forall_mem_singleton.mpr (not_le.mp notBig)⟩
  refine ⟨?_, ?_, ?_, ?_, sound, short⟩
  · simp [stored.nameRefs]
  · simp [stored.credSets]
  · intro index other hit
    rcases getElem?_append_cases hit with before | ⟨last, isGroup⟩
    · rcases stored.names index other before with ⟨nameRef, read, bound, name⟩
      refine ⟨nameRef, ?_, ?_, ?_⟩
      · rw [getElem?_append_left (lt_of_getElem? read)]
        exact read
      · rw [length_append]
        omega
      · rw [drop_append_of_le_length (by omega), take_append_of_le_length]
        · exact name
        · rw [length_drop]
          omega
    · subst last isGroup
      refine ⟨⟨arrays.names.length, other.name.length⟩, ?_, ?_, ?_⟩
      · rw [← stored.nameRefs]
        simp
      · simp
      · simp
  · intro index other hit
    rcases getElem?_append_cases hit with before | ⟨last, isGroup⟩
    · rcases stored.creds index other before with ⟨set, read, held⟩
      refine ⟨set, ?_, held.mono grown⟩
      rw [getElem?_append_left (lt_of_getElem? read)]
      exact read
    · subst last isGroup
      refine ⟨interned.2, ?_, holds⟩
      rw [← stored.credSets]
      simp

lemma stored_foldlM {arrays after : Arrays} (stored : Stored groups arrays)
    (gave : rest.foldlM addGroup arrays = .ok after) : Stored (groups ++ rest) after := by
  induction rest generalizing groups arrays after with
  | nil =>
    cases gave
    rw [append_nil]
    exact stored
  | cons group rest induction =>
    rcases bind_eq_ok_iff.mp gave with ⟨next, added, gave⟩
    have whole := induction (stored_addGroup stored added) gave
    rwa [append_assoc] at whole

/-! ## The index -/

structure Built (hashing : Hashing) (groups : List Group) (index : CertIndex) : Prop where
  indexed : Indexed (hashing.sipHash index.hasher) groups groups.length ⟨index.exact, index.wild⟩
  stored : ∃ pointers,
    Stored groups ⟨index.names, index.nameRefs, index.credSets, ⟨index.creds, pointers⟩⟩

lemma built_buildAttempts {index}
    (ordered : groups.Pairwise fun left right => left.nameKey < right.nameKey)
    (gave : buildAttempts hashing hasherFor groups defaultCred generation attempts = .ok index) :
    Built hashing groups index ∧ index.defaultCred = defaultCred := by
  induction attempts with
  | nil =>
    cases gave
  | cons attempt rest induction =>
    rcases bind_eq_ok_iff.mp gave with ⟨hasher, _, gave⟩
    rcases bind_eq_ok_iff.mp gave with ⟨outcome, hashed, gave⟩
    cases outcome with
    | none => exact induction gave
    | some maps =>
      rcases bind_eq_ok_iff.mp gave with ⟨arrays, stored, equal⟩
      cases equal
      refine ⟨⟨?_, arrays.table.ptrToIdx, ?_⟩, rfl⟩
      · exact @indexed_indexGroups _ _ ordered groups 0 _ _ rfl (indexed_empty _ _) hashed
      · exact stored_foldlM stored_empty stored

lemma built_of_build {builder : CertIndexBuilder} {index}
    (gave : builder.buildWithGeneration hashing heap entropy generation = .ok index) :
    Built hashing (groupsOf heap builder.entries) index ∧
    index.defaultCred = builder.defaultCred :=
  built_buildAttempts (grouping_groupsOf heap builder.entries).ordered (of_ite_error gave).2

section Reading

variable {index : CertIndex}

lemma Built.nameAt (built : Built hashing groups index) (hit : groups[spot]? = some group) :
    index.nameAt spot = some group.name := by
  rcases built.stored with ⟨pointers, stored⟩
  rcases stored.names spot group hit with ⟨nameRef, read, _, name⟩
  rw [CertIndex.nameAt, show index.nameRefs[spot]? = some nameRef from read, Option.map_some]
  exact congrArg some name

lemma Built.probe_eq_some_iff (built : Built hashing groups index) :
    index.probe hashing (NameMaps.of ⟨index.exact, index.wild⟩ isWild) name = some spot ↔
      ∃ group, groups[spot]? = some group ∧ group.isWild = isWild ∧ group.name = name := by
  rw [CertIndex.probe, Option.filter_eq_some_iff]
  constructor
  · rintro ⟨lookup, named⟩
    rcases built.indexed.sound _ _ _ lookup with ⟨_, group, hit, kind, _⟩
    rw [built.nameAt hit, decide_eq_true_iff] at named
    exact ⟨group, hit, kind, Option.some.inj named⟩
  · rintro ⟨group, hit, kind, named⟩
    subst kind named
    refine ⟨built.indexed.complete spot group (lt_of_getElem? hit) hit, ?_⟩
    rw [built.nameAt hit, decide_eq_true_iff]

def ClientCaps.admits (caps : ClientCaps) : KeyType → Bool
  | .ecdsaP256 => caps.ecdsaP256
  | .ecdsaP384 => caps.ecdsaP384
  | .rsa => caps.rsa
  | .ed25519 => caps.ed25519

lemma verifies_tag (caps : ClientCaps) (keyType : KeyType) :
    caps.verifies keyType.tag = some (caps.admits keyType) := by
  cases keyType with
  | ecdsaP256 | ecdsaP384 | rsa | ed25519 => rfl

lemma selectFrom_eq (holds : Holds creds set held) (caps) :
    CertIndex.selectFrom creds caps set =
      (held.find? fun cred => caps.admits cred.1).map Prod.snd := by
  induction holds with
  | nil => rfl
  | @cons slot cred set held first rest induction =>
    rw [CertIndex.selectFrom, first.1, verifies_tag]
    cases admitted : caps.admits cred.1 with
    | true =>
      rw [find?_cons, admitted]
      exact first.2
    | false =>
      rw [find?_cons, admitted]
      exact induction

lemma Built.select (built : Built hashing groups index) (hit : groups[spot]? = some group) (caps) :
    index.select spot caps =
      ((group.creds.take 4).find? fun cred => caps.admits cred.1).map Prod.snd := by
  rcases built.stored with ⟨pointers, stored⟩
  rcases stored.creds spot group hit with ⟨set, read, holds⟩
  rw [CertIndex.select, show index.credSets[spot]? = some set from read, Option.bind_some]
  exact selectFrom_eq holds caps

end Reading

end IronTraffic.Tls
