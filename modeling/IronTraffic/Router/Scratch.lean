import IronTraffic.Router.Interning

/-! # Match scratch

The state that one worker keeps over its requests: a slot for every interned header, stamped
with the generation of the request that wrote it, and the parameters of the query, which are
indexed when the first predicate asks for one.
-/

namespace IronTraffic.Router

def maxQueryParams : Nat := 64

def maxQueryBytes : Nat := 4096

/-- The names of a finished table come from finished builders. -/
structure RouteTable where
  generation : UInt64
  needsQuery : Bool
  headerNames : CompiledNameSet
  queryNames : CompiledNameSet
  headersBuilt : ∃ names, headerNames = (NameSetBuilder.calls names).1.finish
  queriesBuilt : ∃ names, queryNames = (NameSetBuilder.calls names).1.finish

def RouteTable.internedHeaderCount (table : RouteTable) : Nat := table.headerNames.count

/-- Live if and only if `gen` is the generation of the scratch. -/
structure HeaderSlot where
  gen : Nat
  off : Nat
  len : Nat

def HeaderSlot.empty : HeaderSlot := ⟨0, 0, 0⟩

structure QuerySlot where
  name : NameId
  off : Nat
  len : Nat

def QuerySlot.empty : QuerySlot := ⟨⟨0⟩, 0, 0⟩

structure MatchScratch where
  gen : Nat
  tableGen : UInt64
  hdrSlots : List HeaderSlot
  querySlots : List QuerySlot
  queryN : Nat
  queryIndexed : Bool

/-- `u32::try_from(..).unwrap_or(0)`. -/
def u32OrZero (number : Nat) : Nat := if number < 2 ^ 32 then number else 0

/-! ## The index of a query -/

def pairEnd (query : Bytes) (pos : Nat) : Nat :=
  match (query.drop pos).findIdx? (· == 38) with
  | some index => pos + index
  | none => query.length

def splitPair (pair : Bytes) (pos : Nat) : Bytes × Nat × Nat :=
  match pair.findIdx? (· == 61) with
  | some index =>
    (pair.take index, u32OrZero (pos + index + 1), u32OrZero (pair.length - index - 1))
  | none => (pair, u32OrZero (pos + pair.length), 0)

def recordPair (names : CompiledNameSet) (slots : List QuerySlot × Nat)
    (split : Bytes × Nat × Nat) : List QuerySlot × Nat :=
  if split.1 = [] then slots
  else
    match names.lookup split.1 with
    | none => slots
    | some id =>
      if slots.2 < slots.1.length then
        (slots.1.set slots.2 ⟨id, split.2.1, split.2.2⟩, slots.2 + 1)
      else slots

def indexPairs (names : CompiledNameSet) (query : Bytes) :
    Nat → Nat → List QuerySlot × Nat → List QuerySlot × Nat
  | 0, _, slots => slots
  | fuel + 1, pos, slots =>
    if pos < query.length ∧ slots.2 < maxQueryParams then
      let stop := pairEnd query pos
      let pair := (query.take stop).drop pos
      indexPairs names query fuel (stop + 1) (recordPair names slots (splitPair pair pos))
    else slots

namespace MatchScratch

def new : MatchScratch :=
  ⟨0, UInt64.ofNat (2 ^ 64 - 1), [], List.replicate maxQueryParams .empty, 0, false⟩

section

variable (scratch : MatchScratch)

def beginRequest (table : RouteTable) : MatchScratch :=
  if scratch.tableGen ≠ table.generation then
    { scratch with
      hdrSlots := List.replicate table.internedHeaderCount .empty
      tableGen := table.generation
      gen := 1, queryN := 0, queryIndexed := false }
  else if scratch.gen = 2 ^ 32 - 1 then
    { scratch with
      hdrSlots := scratch.hdrSlots.map fun _ => .empty
      gen := 1, queryN := 0, queryIndexed := false }
  else { scratch with gen := scratch.gen + 1, queryN := 0, queryIndexed := false }

def observeHeader (table : RouteTable) (name : Bytes) (valueOff valueLen : Nat) : MatchScratch :=
  match table.headerNames.lookup name with
  | none => scratch
  | some id =>
    { scratch with
      hdrSlots := scratch.hdrSlots.set id.index.toNat ⟨scratch.gen, valueOff, valueLen⟩ }

def headerValue (id : NameId) (head : Bytes) : Option Bytes := do
  let slot ← scratch.hdrSlots[id.index.toNat]?
  if slot.gen ≠ scratch.gen then none else slice head slot.off (slot.off + slot.len)

def headerPresent (id : NameId) : Bool :=
  (scratch.hdrSlots[id.index.toNat]?).any fun slot => slot.gen == scratch.gen

def headerSlotCount : Nat := scratch.hdrSlots.length

def indexQuery (table : RouteTable) (query : Bytes) : MatchScratch :=
  if scratch.queryIndexed then scratch
  else if ¬table.needsQuery then scratch
  else
    let cut := query.take (min query.length maxQueryBytes)
    let slots := indexPairs table.queryNames cut cut.length 0 (scratch.querySlots, scratch.queryN)
    { scratch with queryIndexed := true, querySlots := slots.1, queryN := slots.2 }

def usedSlots : List QuerySlot :=
  (slice scratch.querySlots 0 scratch.queryN).getD []

def queryValue (id : NameId) (query : Bytes) : Option Bytes := do
  let slot ← scratch.usedSlots.find? fun slot => slot.name == id
  slice query slot.off (slot.off + slot.len)

def queryPresent (id : NameId) : Bool :=
  scratch.usedSlots.any fun slot => slot.name == id

end

end MatchScratch

end IronTraffic.Router
