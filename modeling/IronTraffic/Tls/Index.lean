import IronTraffic.Foundation.StableSort
import IronTraffic.Tls.Name

/-! # The certificate index

An index is built from a list of pending entries: sorted, grouped by name, hashed into
two maps, with the names in one arena and the credentials in one table. A credential is
shared, so entries hold its address; `heap` says what is there. The name hash and the key
derivation are arbitrary functions.
-/

namespace IronTraffic.Tls

/-! ## Credentials -/

inductive KeyType where
  | ecdsaP256 | ecdsaP384 | rsa | ed25519
  deriving DecidableEq

def KeyType.tag : KeyType → Nat
  | .ecdsaP256 => 1
  | .ecdsaP384 => 2
  | .rsa => 3
  | .ed25519 => 4

abbrev CertFingerprint := Bytes

structure Credentials where
  keyType : KeyType
  fingerprint : CertFingerprint
  notAfter : Nat
  mustStaple : Bool
  staple : Option Bytes
  sanDnsNames : List Bytes

/-- Where a shared credential lives: the pointer of an `Arc`. -/
abbrev Address := Nat

abbrev Heap := Address → Credentials

structure ClientCaps where
  ecdsaP256 : Bool
  ecdsaP384 : Bool
  rsa : Bool
  ed25519 : Bool

inductive ChallengeError where
  | full
  | name (error : NameError)

inductive CertError where
  | name (error : NameError)
  | wildcard (error : WildcardError)
  | wildcardTooBroad
  | nameHashCollision
  | indexTooLarge
  | challenge (error : ChallengeError)
  | mustStapleWithoutStaple (fingerprint : CertFingerprint)

/-! ## Name hashing -/

abbrev HashKey := Bytes

/-- The functions that are not of this repository: keyed SipHash and BLAKE3. -/
structure Hashing where
  sipHash : HashKey → Bytes → UInt64
  blake3 : Bytes → Bytes

/-! ## Pending entries -/

structure PendingEntry where
  name : Bytes
  isWild : Bool
  cred : Address
  deriving DecidableEq

def maxNameArenaBytes : Nat := 1073741824

def maxIndexGroups : Nat := 16777216

def suffixDeny : List Bytes :=
  ["co.uk", "org.uk", "ac.uk", "gov.uk", "co.jp", "or.jp", "ne.jp", "com.au", "net.au", "org.au",
    "co.nz", "com.br", "com.cn", "com.mx", "co.za", "co.in"].map ascii

/-- `normalize` where the error is one of the store. -/
def normalizeName (raw : Bytes) : Except CertError Bytes := (normalize raw).mapError .name

-- Named, so that no definition below holds a proof of its own.
local instance : LawfulBEq Bytes := List.instLawfulBEq

def validateWildcardParent (raw : Bytes) : Except CertError Unit := do
  if raw = [star] then throw .wildcardTooBroad
  let parent ← (wildcardParent raw).mapError .wildcard
  let normalized ← normalizeName parent
  if labelCount normalized < 2 ∨ normalized ∈ suffixDeny then throw .wildcardTooBroad

structure CertIndexBuilder where
  seed : Bytes
  entries : List PendingEntry
  defaultCred : Option Address
  inheritedHasher : Option HashKey

namespace CertIndexBuilder

def new (seed : Bytes) : CertIndexBuilder := ⟨seed, [], none, none⟩

def newFromInherited (entries : List PendingEntry) (defaultCred : Option Address)
    (inheritedHasher : HashKey) : CertIndexBuilder :=
  ⟨List.replicate 16 0, entries, defaultCred, some inheritedHasher⟩

def replacePendingByFingerprint (heap : Heap) (builder : CertIndexBuilder)
    (fingerprint : CertFingerprint) (cred : Address) : CertIndexBuilder × Nat :=
  ({ builder with
      entries := builder.entries.map fun entry =>
        if (heap entry.cred).fingerprint = fingerprint then { entry with cred } else entry },
    builder.entries.countP fun entry => (heap entry.cred).fingerprint = fingerprint)

def upsertExact (builder : CertIndexBuilder) (name : Bytes) (cred : Address) :
    Except CertError CertIndexBuilder := do
  let normalized ← normalizeName name
  return { builder with entries := builder.entries ++ [⟨normalized, false, cred⟩] }

def upsertWildcard (builder : CertIndexBuilder) (raw : Bytes) (cred : Address) :
    Except CertError CertIndexBuilder := do
  validateWildcardParent raw
  let parent ← (wildcardParent raw).mapError .wildcard
  let normalized ← normalizeName parent
  return { builder with entries := builder.entries ++ [⟨normalized, true, cred⟩] }

structure SanIndexReport where
  exact : Nat
  wildcard : Nat
  skipped : Nat

/-- `u16::saturating_add(1)`. -/
def saturatingSucc16 (count : Nat) : Nat := min (count + 1) u16Max

/-- `"*."` starts the name. -/
def startsWithStarDot : Bytes → Bool
  | 42 :: 46 :: _ => true
  | _ => false

/-- One turn of the loop of `upsert_from_sans`. -/
def upsertSan (cred : Address) (state : CertIndexBuilder × SanIndexReport) (name : Bytes) :
    CertIndexBuilder × SanIndexReport :=
  let result :=
    if startsWithStarDot name then state.1.upsertWildcard name cred
    else state.1.upsertExact name cred
  match result with
  | .ok builder =>
    (builder,
      if startsWithStarDot name then
        { state.2 with wildcard := saturatingSucc16 state.2.wildcard }
      else { state.2 with exact := saturatingSucc16 state.2.exact })
  | .error _ => (state.1, { state.2 with skipped := saturatingSucc16 state.2.skipped })

def upsertFromSans (heap : Heap) (builder : CertIndexBuilder) (cred : Address) :
    CertIndexBuilder × SanIndexReport :=
  (heap cred).sanDnsNames.foldl (upsertSan cred) (builder, ⟨0, 0, 0⟩)

def setDefault (builder : CertIndexBuilder) (cred : Address) : CertIndexBuilder :=
  { builder with defaultCred := some cred }

def withdrawn (heap : Heap) (entries : List PendingEntry) (name : Bytes) (default : Address) :
    Bool :=
  entries.any fun entry =>
    entry.name == name && (heap entry.cred).fingerprint == (heap default).fingerprint

def remove (heap : Heap) (builder : CertIndexBuilder) (name : Bytes) : CertIndexBuilder :=
  match normalize name with
  | .error _ => builder
  | .ok normalized =>
    { builder with
      defaultCred := builder.defaultCred.filter fun default =>
        !withdrawn heap builder.entries normalized default
      entries := builder.entries.filter fun entry => entry.name != normalized }

end CertIndexBuilder

/-! ## Groups -/

def byteOrder (bytes : Bytes) : List Nat := bytes.map UInt8.toNat

/-- How two entries of one name and kind compare: by key type, the later expiry first, then
by fingerprint. -/
abbrev Preference := Nat ×ₗ ℕᵒᵈ ×ₗ List Nat

def preference (heap : Heap) (cred : Address) : Preference :=
  toLex ((heap cred).keyType.tag,
    toLex (OrderDual.toDual (heap cred).notAfter, byteOrder (heap cred).fingerprint))

def sortKey (heap : Heap) (entry : PendingEntry) : Bool ×ₗ List Nat ×ₗ Preference :=
  toLex (entry.isWild, toLex (byteOrder entry.name, preference heap entry.cred))

/-- The entries of one name and kind, with one credential per key type. -/
structure Group where
  isWild : Bool
  name : Bytes
  creds : List (KeyType × Address)

def addCred (creds : List (KeyType × Address)) (next : KeyType × Address) :
    List (KeyType × Address) :=
  if creds.any fun cred => cred.1 = next.1 then creds else creds ++ [next]

def typed (heap : Heap) (entry : PendingEntry) : KeyType × Address :=
  ((heap entry.cred).keyType, entry.cred)

def Group.start (heap : Heap) (entry : PendingEntry) : Group :=
  ⟨entry.isWild, entry.name, [typed heap entry]⟩

def groupFrom (heap : Heap) : Group → List PendingEntry → List Group
  | group, [] => [group]
  | group, next :: rest =>
    if next.name = group.name ∧ next.isWild = group.isWild then
      groupFrom heap { group with creds := addCred group.creds (typed heap next) } rest
    else group :: groupFrom heap (Group.start heap next) rest

def groupEntries (heap : Heap) : List PendingEntry → List Group
  | [] => []
  | first :: rest => groupFrom heap (Group.start heap first) rest

/-! ## Hashing the groups -/

structure NameMaps where
  exact : List (UInt64 × Nat)
  wild : List (UInt64 × Nat)

namespace NameMaps

def of (maps : NameMaps) (isWild : Bool) : List (UInt64 × Nat) :=
  if isWild then maps.wild else maps.exact

def insert (maps : NameMaps) (isWild : Bool) (key : UInt64) (index : Nat) : NameMaps :=
  if isWild then { maps with wild := (key, index) :: maps.wild }
  else { maps with exact := (key, index) :: maps.exact }

end NameMaps

/-- One attempt at hashing the groups. Two names with one hash end it with `none`. -/
def indexGroups (hash : Bytes → UInt64) (groups : List Group) :
    List (Group × Nat) → NameMaps → Except CertError (Option NameMaps)
  | [], maps => .ok (some maps)
  | (group, index) :: rest, maps =>
    if 2 ^ 32 ≤ index then .error .indexTooLarge
    else
      match (maps.of group.isWild).lookup (hash group.name) with
      | some existing =>
        if groups[existing]?.map Group.name = some group.name then
          indexGroups hash groups rest maps
        else .ok none
      | none =>
        indexGroups hash groups rest (maps.insert group.isWild (hash group.name) index)

/-- `u32::to_be_bytes`. -/
def toBeBytes32 (number : Nat) : Bytes :=
  [number / 2 ^ 24, number / 2 ^ 16, number / 2 ^ 8, number].map fun part => part.toUInt8

def hasherForAttemptInner (hashing : Hashing) (seed : Bytes) (attempt : Nat) : HashKey :=
  (hashing.blake3 (seed ++ toBeBytes32 attempt)).take 16

/-- Later attempts read the key from `entropy`, which may fail. -/
def hasherForAttemptFromPrevious (entropy : Nat → Option HashKey) (inherited : HashKey)
    (attempt : Nat) : Except CertError HashKey :=
  if attempt = 0 then .ok inherited
  else
    match entropy attempt with
    | some key => .ok key
    | none => .error .nameHashCollision

/-! ## The arrays -/

structure NameRef where
  offset : Nat
  len : Nat

abbrev CredSet := List (Nat × Nat)

/-- The credentials of the index, and where each pointer has its place. -/
structure CredTable where
  creds : List Address
  ptrToIdx : List (Address × Nat)

def CredTable.intern (table : CredTable) (cred : Address) : Except CertError (CredTable × Nat) :=
  match table.ptrToIdx.lookup cred with
  | some existing => .ok (table, existing)
  | none =>
    if 2 ^ 32 ≤ table.creds.length then .error .indexTooLarge
    else
      .ok (⟨table.creds ++ [cred], (cred, table.creds.length) :: table.ptrToIdx⟩,
        table.creds.length)

def internCreds : List (KeyType × Address) → CredTable → CredSet →
    Except CertError (CredTable × CredSet)
  | [], table, set => .ok (table, set)
  | (keyType, cred) :: rest, table, set =>
    match table.intern cred with
    | .error error => .error error
    | .ok interned => internCreds rest interned.1 (set ++ [(keyType.tag, interned.2)])

structure Arrays where
  names : Bytes
  nameRefs : List NameRef
  credSets : List CredSet
  table : CredTable

def Arrays.empty : Arrays := ⟨[], [], [], ⟨[], []⟩⟩

/-- One turn of the loop of `build_index_finish`. At most four slots are filled. -/
def addGroup (arrays : Arrays) (group : Group) : Except CertError Arrays := do
  if maxNameArenaBytes < arrays.names.length + group.name.length then throw .indexTooLarge
  if 2 ^ 32 ≤ arrays.names.length then throw .indexTooLarge
  if 2 ^ 16 ≤ group.name.length then throw .indexTooLarge
  let interned ← internCreds (group.creds.take 4) arrays.table []
  return {
    names := arrays.names ++ group.name
    nameRefs := arrays.nameRefs ++ [⟨arrays.names.length, group.name.length⟩]
    credSets := arrays.credSets ++ [interned.2]
    table := interned.1 }

structure CertIndex where
  hasher : HashKey
  exact : List (UInt64 × Nat)
  wild : List (UInt64 × Nat)
  names : Bytes
  nameRefs : List NameRef
  credSets : List CredSet
  creds : List Address
  defaultCred : Option Address
  generation : Nat

def buildIndexFinish (groups : List Group) (maps : NameMaps) (hasher : HashKey)
    (defaultCred : Option Address) (generation : Nat) : Except CertError CertIndex := do
  let arrays ← groups.foldlM addGroup .empty
  return {
    hasher
    exact := maps.exact
    wild := maps.wild
    names := arrays.names
    nameRefs := arrays.nameRefs
    credSets := arrays.credSets
    creds := arrays.table.creds
    defaultCred
    generation }

def buildAttempts (hashing : Hashing) (hasherFor : Nat → Except CertError HashKey)
    (groups : List Group) (defaultCred : Option Address) (generation : Nat) :
    List Nat → Except CertError CertIndex
  | [] => .error .nameHashCollision
  | attempt :: rest => do
    let hasher ← hasherFor attempt
    match ← indexGroups (hashing.sipHash hasher) groups groups.zipIdx ⟨[], []⟩ with
    | some maps => buildIndexFinish groups maps hasher defaultCred generation
    | none => buildAttempts hashing hasherFor groups defaultCred generation rest

/-- `build_inner`; `entropy` is what the attempts of this build read. -/
def CertIndexBuilder.buildWithGeneration (hashing : Hashing) (heap : Heap)
    (entropy : Nat → Option HashKey) (builder : CertIndexBuilder) (generation : Nat) :
    Except CertError CertIndex :=
  let groups := groupEntries heap (sortBy (sortKey heap) builder.entries)
  let hasherFor :=
    match builder.inheritedHasher with
    | some inherited => hasherForAttemptFromPrevious entropy inherited
    | none => fun attempt => .ok (hasherForAttemptInner hashing builder.seed attempt)
  if maxIndexGroups < groups.length then .error .indexTooLarge
  else buildAttempts hashing hasherFor groups builder.defaultCred generation [0, 1, 2]

/-! ## Resolving -/

/-- Whether a peer can verify the key type of a tag; `none` is no key type. -/
def ClientCaps.verifies (caps : ClientCaps) : Nat → Option Bool
  | 1 => some caps.ecdsaP256
  | 2 => some caps.ecdsaP384
  | 3 => some caps.rsa
  | 4 => some caps.ed25519
  | _ => none

namespace CertIndex

def nameAt (index : CertIndex) (group : Nat) : Option Bytes :=
  index.nameRefs[group]?.map fun nameRef => (index.names.drop nameRef.offset).take nameRef.len

/-- The loop of `select` over the occupied slots. -/
def selectFrom (creds : List Address) (caps : ClientCaps) : CredSet → Option Address
  | [] => none
  | (tag, index) :: rest =>
    match caps.verifies tag with
    | some true => creds[index]?
    | some false => selectFrom creds caps rest
    | none => none

def select (index : CertIndex) (group : Nat) (caps : ClientCaps) : Option Address :=
  index.credSets[group]?.bind (selectFrom index.creds caps)

def probe (hashing : Hashing) (index : CertIndex) (map : List (UInt64 × Nat)) (name : Bytes) :
    Option Nat :=
  (map.lookup (hashing.sipHash index.hasher name)).filter fun group =>
    index.nameAt group = some name

/-- `resolve`, without its counters. A name that matches is answered from its group or from
the default, and never falls through to the wildcards. -/
def resolve (hashing : Hashing) (index : CertIndex) (sni : Bytes) (caps : ClientCaps) :
    Option Address :=
  match normalize sni with
  | .error _ => index.defaultCred
  | .ok name =>
    match index.probe hashing index.exact name with
    | some group => (index.select group caps).or index.defaultCred
    | none =>
      match parent name with
      | none => index.defaultCred
      | some parent =>
        match index.probe hashing index.wild parent with
        | some group => (index.select group caps).or index.defaultCred
        | none => index.defaultCred

end CertIndex

end IronTraffic.Tls
