import IronTraffic.Foundation.Bytes
import IronTraffic.Foundation.StableSort
import IronTraffic.Router.Table

/-! # Interned names

The names that routes refer to get dense ids. A finished set finds a name by its length, by
two filters over its first and last byte, and by a scan of the names of its length that is
sorted by the byte in which they differ most.
-/

namespace IronTraffic.Router

open List

/-- `NO_DISC`: the bucket has at most one entry. -/
def noDisc : Nat := 255

def maxFastNameLen : Nat := 63

def lenBuckets : Nat := maxFastNameLen + 1

def maxNames : Nat := 4096

def maxNamesPerLength : Nat := 64

def maxNameBytes : Nat := 256

structure NameEntry where
  off : Nat
  len : Nat
  id : NameId

/-- The bitmaps are words of 64 bits: one over the lengths, and four of them for each filter over
the bytes. -/
structure CompiledNameSet where
  lenBits : Nat
  discAt : List Nat
  buckets : List (Nat × Nat)
  entries : List NameEntry
  long : List NameEntry
  blob : Bytes
  firstFilter : List (List Nat)
  lastFilter : List (List Nat)
  count : Nat

inductive NameSetError where
  | empty | invalidByte | nameTooLong | tooMany | tooManyOfLength

/-! ## Bitmaps -/

def lenIsReferenced (lenBits n : Nat) : Bool := lenBits &&& (1 <<< n) != 0

def bitTest (bits : List Nat) (byte : UInt8) : Bool :=
  match bits[byte.toNat / 64]? with
  | some word => word &&& (1 <<< (byte.toNat % 64)) != 0
  | none => false

def setBit (bits : List Nat) (byte : UInt8) : List Nat :=
  bits.modify (byte.toNat / 64) fun word => word ||| (1 <<< (byte.toNat % 64))

/-! ## Finding a name -/

namespace CompiledNameSet

def entryBytes (set : CompiledNameSet) (entry : NameEntry) : Option Bytes :=
  slice set.blob entry.off (entry.off + entry.len)

def scanBucket (set : CompiledNameSet) (name : Bytes) (disc : Nat) (key : UInt8) :
    List NameEntry → Option NameId
  | [] => none
  | entry :: rest =>
    match set.entryBytes entry with
    | none => set.scanBucket name disc key rest
    | some bytes =>
      match bytes[disc]? with
      | none => set.scanBucket name disc key rest
      | some discByte =>
        if key < discByte then none
        else if discByte = key ∧ bytes = name then some entry.id
        else set.scanBucket name disc key rest

def scanLong (set : CompiledNameSet) (name : Bytes) : List NameEntry → Option NameId
  | [] => none
  | entry :: rest =>
    if name.length < entry.len then none
    else if entry.len ≠ name.length then set.scanLong name rest
    else
      match set.entryBytes entry with
      | none => set.scanLong name rest
      | some bytes => if bytes = name then some entry.id else set.scanLong name rest

def lookupLong (set : CompiledNameSet) (name : Bytes) : Option NameId :=
  set.scanLong name set.long

def lookupBucket (set : CompiledNameSet) (name : Bytes) : Option NameId := do
  let bucketAt ← set.buckets[name.length]?
  let disc ← set.discAt[name.length]?
  let bucket ← slice set.entries bucketAt.1 (bucketAt.1 + bucketAt.2)
  if disc = noDisc then do
    let entry ← bucket.head?
    let bytes ← set.entryBytes entry
    if bytes = name then some entry.id else none
  else do
    let key ← name[disc]?
    set.scanBucket name disc key bucket

def lookup (set : CompiledNameSet) (name : Bytes) : Option NameId :=
  if maxFastNameLen < name.length then set.lookupLong name
  else if ¬lenIsReferenced set.lenBits name.length then none
  else do
    let first ← name.head?
    let last ← name.getLast?
    let firstBits ← set.firstFilter[name.length]?
    if ¬bitTest firstBits first then none
    else do
      let lastBits ← set.lastFilter[name.length]?
      if ¬bitTest lastBits last then none else set.lookupBucket name

def nameOf (set : CompiledNameSet) (id : NameId) : Option Bytes := do
  let entry ← (set.entries ++ set.long).find? fun entry => entry.id == id
  set.entryBytes entry

end CompiledNameSet

/-! ## Building a set -/

abbrev LenBucket := List (Bytes × NameId)

def discSortKey (name : Bytes) (disc : Nat) : UInt8 :=
  if disc = noDisc then 0 else (name[disc]?).getD 0

def seeByte (spot : Nat) (seen : Bytes) (named : Bytes × NameId) : Bytes :=
  match named.1[spot]? with
  | none => seen
  | some byte => if byte ∈ seen then seen else byte :: seen

def countDistinctAt (bucket : LenBucket) (spot : Nat) : Nat :=
  (bucket.foldl (seeByte spot) []).length

def betterDisc (bucket : LenBucket) (best : Nat × Nat) (spot : Nat) : Nat × Nat :=
  if best.1 < countDistinctAt bucket spot then (countDistinctAt bucket spot, spot)
  else best

def bestDisc (bucket : LenBucket) (length : Nat) : Nat × Nat :=
  (range length).foldl (betterDisc bucket) (0, 0)

def chooseDisc (bucket : LenBucket) : Nat :=
  if bucket.length < 2 then noDisc
  else
    let best := bestDisc bucket ((bucket.head?.map fun entry => entry.1.length).getD 0)
    if best.1 < 2 then noDisc
    else if best.2 < 256 then best.2
    else noDisc

def pushEntry (arena : List NameEntry × Bytes) (named : Bytes × NameId) :
    List NameEntry × Bytes :=
  (arena.1 ++ [⟨toU32 arena.2.length, toU16 named.1.length, named.2⟩], arena.2 ++ named.1)

structure FastArrays where
  lenBits : Nat
  discAt : List Nat
  buckets : List (Nat × Nat)
  entries : List NameEntry
  firstFilter : List (List Nat)
  lastFilter : List (List Nat)

def FastArrays.empty : FastArrays :=
  ⟨0, replicate lenBuckets noDisc, replicate lenBuckets (0, 0), [],
    replicate lenBuckets [0, 0, 0, 0], replicate lenBuckets [0, 0, 0, 0]⟩

def bucketRank (disc : Nat) (named : Bytes × NameId) : Nat ×ₗ List Nat :=
  toLex ((discSortKey named.1 disc).toNat, named.1.map UInt8.toNat)

def markByte (byteOf : Bytes → Option UInt8) (bits : List Nat) (named : Bytes × NameId) :
    List Nat :=
  match byteOf named.1 with
  | some byte => setBit bits byte
  | none => bits

def filterBits (byteOf : Bytes → Option UInt8) (bucket : LenBucket) : List Nat :=
  bucket.foldl (markByte byteOf) [0, 0, 0, 0]

def buildBucket (arrays : FastArrays × Bytes) (bucket : LenBucket) (len : Nat) :
    FastArrays × Bytes :=
  if bucket = [] then arrays
  else
    let disc := chooseDisc bucket
    let sorted := sortBy (bucketRank disc) bucket
    let arena := sorted.foldl pushEntry (arrays.1.entries, arrays.2)
    (⟨arrays.1.lenBits ||| (1 <<< len), arrays.1.discAt.set len disc,
      arrays.1.buckets.set len (toU32 arrays.1.entries.length, toU32 bucket.length),
      arena.1,
      arrays.1.firstFilter.set len (filterBits head? sorted),
      arrays.1.lastFilter.set len (filterBits getLast? sorted)⟩, arena.2)

def buildLength (byLen : List LenBucket) (arrays : FastArrays × Bytes) (len : Nat) :
    FastArrays × Bytes :=
  match byLen[len]? with
  | some bucket => buildBucket arrays bucket len
  | none => arrays

def buildFastArrays (byLen : List LenBucket) (blob : Bytes) : FastArrays × Bytes :=
  (range lenBuckets).foldl (buildLength byLen) (FastArrays.empty, blob)

/-- The names are kept in the order of their insertion; the map yields them in the order of
their bytes. -/
structure NameSetBuilder where
  names : List (Bytes × NameId)
  next : Nat
  lenCounts : List Nat
  longCount : Nat

namespace NameSetBuilder

def new : NameSetBuilder := ⟨[], 0, replicate lenBuckets 0, 0⟩

section

variable (builder : NameSetBuilder)

def bucketCount (name : Bytes) : Nat :=
  if name.length ≤ maxFastNameLen then (builder.lenCounts[name.length]?).getD (2 ^ 16 - 1)
  else builder.longCount

def add (name : Bytes) : NameSetBuilder :=
  { names := builder.names ++ [(name, ⟨UInt16.ofNat builder.next⟩)]
    next := toU16 (builder.next + 1)
    lenCounts :=
      if name.length ≤ maxFastNameLen then
        builder.lenCounts.modify name.length fun count => toU16 (count + 1)
      else builder.lenCounts
    longCount :=
      if name.length ≤ maxFastNameLen then builder.longCount
      else toU16 (builder.longCount + 1) }

def insert (name : Bytes) : NameSetBuilder × Except NameSetError NameId :=
  if name = [] then (builder, .error .empty)
  else if ¬name.all isTchar then (builder, .error .invalidByte)
  else if maxNameBytes < name.length then (builder, .error .nameTooLong)
  else
    match builder.names.lookup name with
    | some id => (builder, .ok id)
    | none =>
      if maxNames ≤ builder.names.length then (builder, .error .tooMany)
      else if maxNamesPerLength ≤ builder.bucketCount name then
        (builder, .error .tooManyOfLength)
      else (builder.add name, .ok ⟨UInt16.ofNat builder.next⟩)

def ascending : List (Bytes × NameId) :=
  sortBy (fun named => named.1.map UInt8.toNat) builder.names

end

def placeName (placed : List LenBucket × LenBucket) (named : Bytes × NameId) :
    List LenBucket × LenBucket :=
  if named.1.length < lenBuckets then
    (placed.1.modify named.1.length fun bucket => bucket ++ [named], placed.2)
  else (placed.1, placed.2 ++ [named])

def byLength (names : List (Bytes × NameId)) : List LenBucket × LenBucket :=
  names.foldl placeName (replicate lenBuckets [], [])

def longRank (named : Bytes × NameId) : Nat ×ₗ List Nat :=
  toLex (named.1.length, named.1.map UInt8.toNat)

def finish (builder : NameSetBuilder) : CompiledNameSet :=
  let lengths := byLength builder.ascending
  let long := sortBy longRank lengths.2
  let fast := buildFastArrays lengths.1 []
  let longArena := long.foldl pushEntry ([], fast.2)
  { lenBits := fast.1.lenBits
    discAt := fast.1.discAt
    buckets := fast.1.buckets
    entries := fast.1.entries
    long := longArena.1
    blob := longArena.2
    firstFilter := fast.1.firstFilter
    lastFilter := fast.1.lastFilter
    count := toU16 builder.names.length }

end NameSetBuilder

end IronTraffic.Router
