import IronTraffic.Foundation.Keyed
import IronTraffic.Tls.Index

/-! # Challenge certificates and coalesced updates

A coalescer collects updates. A flush starts builders from the published material, applies
the pending updates in order and publishes what is built.
-/

namespace IronTraffic.Tls

/-! ## Challenge certificates -/

def maxChallenges : Nat := 512

/-- A challenge credential, by its pointer, and when it stops being served. -/
structure Challenge where
  key : Address
  expires : Nat

structure ChallengeEntry where
  name : NameRef
  challenge : Challenge

structure ChallengeCerts where
  hasher : HashKey
  byName : List (UInt64 × ChallengeEntry)
  names : Bytes
  generation : Nat

namespace ChallengeCerts

def nameAt (certs : ChallengeCerts) (nameRef : NameRef) : Bytes :=
  (certs.names.drop nameRef.offset).take nameRef.len

def lookup (hashing : Hashing) (certs : ChallengeCerts) (sni : Bytes) (now : Nat) :
    Option Address :=
  match normalize sni with
  | .error _ => none
  | .ok normalized =>
    match certs.byName.lookup (hashing.sipHash certs.hasher normalized) with
    | none => none
    | some entry =>
      if certs.nameAt entry.name ≠ normalized then none
      else if entry.challenge.expires ≤ now then none
      else some entry.challenge.key

end ChallengeCerts

abbrev Staged := List (Bytes × Challenge)

structure ChallengeCertsBuilder where
  hasher : HashKey
  entries : Staged

/-- The order in which a hash map is walked; it may be any. -/
structure Iteration where
  order : Staged → Staged
  perm : ∀ entries, (order entries).Perm entries

namespace ChallengeCertsBuilder

def new (seed : Bytes) : ChallengeCertsBuilder := ⟨seed, []⟩

def fromPrevious (previous : ChallengeCerts) (now : Nat) : ChallengeCertsBuilder where
  hasher := previous.hasher
  entries := previous.byName.foldl
    (fun entries entry =>
      if entry.2.challenge.expires ≤ now then entries
      else insertKey entries (previous.nameAt entry.2.name) entry.2.challenge) []

def insert (builder : ChallengeCertsBuilder) (name : Bytes) (key : Address) (expires : Nat) :
    Except ChallengeError ChallengeCertsBuilder := do
  let normalized ← (normalize name).mapError ChallengeError.name
  if (builder.entries.lookup normalized).isNone ∧ maxChallenges ≤ builder.entries.length then
    throw .full
  return { builder with entries := insertKey builder.entries normalized ⟨key, expires⟩ }

def remove (builder : ChallengeCertsBuilder) (name : Bytes) : ChallengeCertsBuilder :=
  match normalize name with
  | .error _ => builder
  | .ok normalized => { builder with entries := removeKey builder.entries normalized }

/-- One turn of the loop of `build_with_generation`. A hash that is taken is overwritten. -/
def place (hash : Bytes → UInt64) (placed : Bytes × List (UInt64 × ChallengeEntry))
    (staged : Bytes × Challenge) :
    Except ChallengeError (Bytes × List (UInt64 × ChallengeEntry)) := do
  let renormalized ← (normalize staged.1).mapError ChallengeError.name
  let nameRef : NameRef := ⟨placed.1.length % 2 ^ 32, renormalized.length % 2 ^ 16⟩
  return (placed.1 ++ renormalized, insertKey placed.2 (hash renormalized) ⟨nameRef, staged.2⟩)

def buildWithGeneration (hashing : Hashing) (iteration : Iteration)
    (builder : ChallengeCertsBuilder) (generation : Nat) :
    Except ChallengeError ChallengeCerts := do
  let placed ← (iteration.order builder.entries).foldlM
    (place (hashing.sipHash builder.hasher)) ([], [])
  return ⟨builder.hasher, placed.2, placed.1, generation⟩

end ChallengeCertsBuilder

/-! ## Rebuilding an index -/

namespace CertIndex

def groupEntriesAt (index : CertIndex) (spot : Nat) : List PendingEntry :=
  let name := (index.nameAt spot).getD []
  let isWild := decide (index.exact.length ≤ spot)
  (index.credSets[spot]?.getD []).map fun slot =>
    ⟨name, isWild, (index.creds[slot.2]?).getD 0⟩

def rebuildEntries (index : CertIndex) : List PendingEntry :=
  (List.range index.nameRefs.length).flatMap index.groupEntriesAt

end CertIndex

def CertIndexBuilder.fromPrevious (previous : CertIndex) : CertIndexBuilder :=
  .newFromInherited previous.rebuildEntries previous.defaultCred previous.hasher

/-! ## Updates -/

inductive CertUpdate where
  | install (exact wildcard : List Bytes) (cred : Address)
  | replace (fingerprint : CertFingerprint) (cred : Address)
  | remove (names : List Bytes)
  | setDefault (cred : Address)
  | installChallenge (name : Bytes) (key : Address) (expires : Nat)
  | removeChallenge (name : Bytes)

namespace CertUpdate

def isDroppable : CertUpdate → Bool
  | .install .. => true
  | .installChallenge .. => true
  | .replace .. => true
  | _ => false

def validate : CertUpdate → Except CertError Unit
  | .install exact wildcard _ => do
    exact.forM fun name => (normalizeName name).map fun _ => ()
    wildcard.forM validateWildcardParent
  | .remove names => names.forM fun name => (normalizeName name).map fun _ => ()
  | .installChallenge name _ _ => (normalizeName name).map fun _ => ()
  | .removeChallenge name => (normalizeName name).map fun _ => ()
  | .replace .. => .ok ()
  | .setDefault _ => .ok ()

def publishedCred : CertUpdate → Option Address
  | .install _ _ cred => some cred
  | .replace _ cred => some cred
  | .setDefault cred => some cred
  | _ => none

end CertUpdate

/-- What is published, without the listeners and the resolver over both parts. -/
structure TlsMaterial where
  certs : CertIndex
  challenge : ChallengeCerts
  generation : Nat

structure CertUpdateCoalescer where
  material : TlsMaterial
  pending : List CertUpdate
  maxPending : Nat
  nextGeneration : Nat

abbrev CertIndexBuilder.removeAll (certs : CertIndexBuilder) (heap : Heap) (names : List Bytes) :=
  names.foldl (fun certs name => certs.remove heap name) certs

namespace CertUpdateCoalescer

def new (material : TlsMaterial) : CertUpdateCoalescer := ⟨material, [], 4096, 1⟩

def setMaxPending (coalescer : CertUpdateCoalescer) (count : Nat) : CertUpdateCoalescer :=
  { coalescer with maxPending := max count 16 }

def dropOldest (pending : List CertUpdate) : List CertUpdate :=
  match pending.findIdx? CertUpdate.isDroppable with
  | some index => pending.eraseIdx index
  | none => pending

def submit (heap : Heap) (coalescer : CertUpdateCoalescer) (update : CertUpdate) :
    Except CertError CertUpdateCoalescer := do
  update.validate
  if let some cred := update.publishedCred then
    if (heap cred).mustStaple ∧ (heap cred).staple.isNone then
      throw (.mustStapleWithoutStaple (heap cred).fingerprint)
  let pending := coalescer.pending ++ [update]
  return { coalescer with
    pending := if coalescer.maxPending < pending.length then dropOldest pending else pending }

structure Builders where
  certs : CertIndexBuilder
  challenge : ChallengeCertsBuilder

/-- One turn of the loop of `build_and_publish`. -/
def apply (heap : Heap) (builders : Builders) : CertUpdate → Except CertError Builders
  | .install exact wildcard cred => do
    let certs ← exact.foldlM (fun certs name => certs.upsertExact name cred) builders.certs
    let certs ← wildcard.foldlM (fun certs name => certs.upsertWildcard name cred) certs
    return { builders with certs }
  | .replace fingerprint cred =>
    .ok { builders with
      certs := (builders.certs.replacePendingByFingerprint heap fingerprint cred).1 }
  | .remove names =>
    .ok { builders with
      certs := names.foldl (fun certs name => certs.remove heap name) builders.certs }
  | .setDefault cred => .ok { builders with certs := builders.certs.setDefault cred }
  | .installChallenge name key expires => do
    let challenge ← (builders.challenge.insert name key expires).mapError CertError.challenge
    return { builders with challenge }
  | .removeChallenge name =>
    .ok { builders with challenge := builders.challenge.remove name }

/-- What a flush meets outside the coalescer: the clock, the random bytes it may read, the
order of the hash map it walks. -/
structure Surroundings where
  now : Nat
  entropy : Nat → Option HashKey
  iteration : Iteration

def buildAndPublish (hashing : Hashing) (heap : Heap) (around : Surroundings)
    (coalescer : CertUpdateCoalescer) : Except CertError CertUpdateCoalescer := do
  let start : Builders :=
    { certs := .fromPrevious coalescer.material.certs
      challenge := .fromPrevious coalescer.material.challenge around.now }
  let builders ← coalescer.pending.foldlM (apply heap) start
  let certs ← builders.certs.buildWithGeneration hashing heap around.entropy
    coalescer.nextGeneration
  let challenge ← (builders.challenge.buildWithGeneration hashing around.iteration
    coalescer.nextGeneration).mapError CertError.challenge
  return { coalescer with
    material := ⟨certs, challenge, coalescer.nextGeneration⟩
    pending := []
    nextGeneration := (coalescer.nextGeneration + 1) % 2 ^ 64 }

def flushNow (hashing : Hashing) (heap : Heap) (around : Surroundings)
    (coalescer : CertUpdateCoalescer) : Except CertError CertUpdateCoalescer :=
  if coalescer.pending.isEmpty then .ok coalescer
  else coalescer.buildAndPublish hashing heap around

/-! ## What an installation does -/

def exactEntry (cred : Address) (raw : Bytes) : Option PendingEntry :=
  (normalize raw).toOption.map (⟨·, false, cred⟩)

def wildcardEntry (cred : Address) (raw : Bytes) : Option PendingEntry :=
  (wildcardParent raw).toOption.bind fun parent =>
    (normalize parent).toOption.map (⟨·, true, cred⟩)

def installedEntries (exact wildcard : List Bytes) (cred : Address) : List PendingEntry :=
  exact.filterMap (exactEntry cred) ++ wildcard.filterMap (wildcardEntry cred)

lemma foldlM_upsert {upsert : CertIndexBuilder → Bytes → Except CertError CertIndexBuilder}
    (each : ∀ builder raw after, upsert builder raw = .ok after →
        ∃ added,
          entryOf raw = some added ∧ after = { builder with entries := builder.entries ++ [added] })
    {names : List Bytes} (gave : names.foldlM upsert builder = .ok after) :
    after = { builder with entries := builder.entries ++ names.filterMap entryOf } := by
  induction names generalizing builder after with
  | nil =>
    cases gave
    simp
  | cons raw names induction =>
    rcases bind_eq_ok_iff.mp gave with ⟨next, upserted, gave⟩
    rcases each builder raw next upserted with ⟨added, isEntry, rfl⟩
    rw [induction gave, List.filterMap_cons, isEntry]
    simp

/-- What an update does to the builders when it is applied. -/
inductive Applied (heap : Heap) (builders : Builders) : CertUpdate → Builders → Prop
  | install (exact wildcard : List Bytes) (cred : Address) :
      Applied heap builders (.install exact wildcard cred)
        { builders with certs.entries :=
            builders.certs.entries ++ installedEntries exact wildcard cred }
  | replace (fingerprint : Bytes) (cred : Address) :
      Applied heap builders (.replace fingerprint cred) { builders with
        certs := (builders.certs.replacePendingByFingerprint heap fingerprint cred).1 }
  | remove (names : List Bytes) :
      Applied heap builders (.remove names) { builders with
        certs := names.foldl (fun certs name => certs.remove heap name) builders.certs }
  | setDefault (cred : Address) :
      Applied heap builders (.setDefault cred) { builders with certs.defaultCred := some cred }
  | installChallenge (inserted : builders.challenge.insert name key expires = .ok challenge) :
      Applied heap builders (.installChallenge name key expires) { builders with challenge }
  | removeChallenge (name : Bytes) :
      Applied heap builders (.removeChallenge name)
        { builders with challenge := builders.challenge.remove name }

lemma applied_install (applied : apply heap builders (.install exact wildcard cred) = .ok after) :
    Applied heap builders (.install exact wildcard cred) after := by
  have exactAdded : ∀ (builder : CertIndexBuilder) raw after,
      builder.upsertExact raw cred = .ok after → ∃ added, exactEntry cred raw = some added ∧
        after = { builder with entries := builder.entries ++ [added] } := by
    intro builder raw after upserted
    rcases bind_eq_ok_iff.mp upserted with ⟨name, accepted, equal⟩
    cases equal
    exact ⟨_, by rw [exactEntry, mapError_eq_ok_iff.mp accepted]; rfl, rfl⟩
  have wildcardAdded : ∀ (builder : CertIndexBuilder) raw after,
      builder.upsertWildcard raw cred = .ok after → ∃ added, wildcardEntry cred raw = some added ∧
        after = { builder with entries := builder.entries ++ [added] } := by
    intro builder raw after upserted
    rcases bind_eq_ok_iff.mp upserted with ⟨_, _, upserted⟩
    rcases bind_eq_ok_iff.mp upserted with ⟨parent, hit, upserted⟩
    rcases bind_eq_ok_iff.mp upserted with ⟨name, accepted, equal⟩
    cases equal
    refine ⟨⟨name, true, cred⟩, ?_, rfl⟩
    rw [wildcardEntry, mapError_eq_ok_iff.mp hit, Except.toOption, Option.bind_some,
      mapError_eq_ok_iff.mp accepted]
    rfl
  rcases bind_eq_ok_iff.mp applied with ⟨exactCerts, ranExact, applied⟩
  rcases bind_eq_ok_iff.mp applied with ⟨wildCerts, ranWild, equal⟩
  cases equal
  rw [foldlM_upsert wildcardAdded ranWild, foldlM_upsert exactAdded ranExact, List.append_assoc]
  exact .install exact wildcard cred

lemma applied_of_ok (gave : apply heap builders update = .ok after) :
    Applied heap builders update after := by
  cases update with
  | install exact wildcard cred => exact applied_install gave
  | installChallenge name key expires =>
    rcases bind_eq_ok_iff.mp gave with ⟨challenge, inserted, equal⟩
    cases equal
    exact .installChallenge (mapError_eq_ok_iff.mp inserted)
  | replace fingerprint cred =>
    cases gave
    exact .replace fingerprint cred
  | remove names =>
    cases gave
    exact .remove names
  | setDefault cred =>
    cases gave
    exact .setDefault cred
  | removeChallenge name =>
    cases gave
    exact .removeChallenge name

end CertUpdateCoalescer

end IronTraffic.Tls
