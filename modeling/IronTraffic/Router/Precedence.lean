import IronTraffic.Foundation.Bytes
import IronTraffic.Router.Table

/-! # Packed precedence

The precedence of a match in one `u64`, and the tie-break keys that ordinals are
assigned from. Larger precedences win; a smaller ordinal makes a larger precedence.
-/

namespace IronTraffic.Router

/-! ## Packing -/

def kindShift : UInt64 := 61
def methodShift : UInt64 := 60
def headerShift : UInt64 := 52
def queryShift : UInt64 := 44
def kindMask : UInt64 := 7

def countBits (count : Nat) : UInt64 := if count > 255 then 255 else UInt64.ofNat count

def Precedence.pack (kind : PathKind) (hasMethod : Bool) (headerCount queryCount : Nat)
    (ordinal : UInt32) : Precedence :=
  let kindBits := kind.toU8.toUInt64 &&& kindMask
  let inv := (~~~ordinal).toUInt64
  ⟨(kindBits <<< kindShift) ||| (hasMethod.toUInt64 <<< methodShift) |||
    (countBits headerCount <<< headerShift) ||| (countBits queryCount <<< queryShift) ||| inv⟩

/-! ## Tie-break keys -/

/-- The tie-break key of a match, and the slot its ordinal is written to. -/
structure MatchOrdinalKey where
  createdUnixMillis : UInt64
  namespaceBytes : Bytes
  nameBytes : Bytes
  ruleIdx : UInt16
  matchIdx : UInt16
  slot : UInt32
  deriving DecidableEq

/-- `namespace ++ "/" ++ name`. -/
def MatchOrdinalKey.qname (key : MatchOrdinalKey) : Bytes :=
  key.namespaceBytes ++ 47 :: key.nameBytes

def qnameCmp (a b : MatchOrdinalKey) : Ordering := List.compareLex compare a.qname b.qname

def orderKeyCmp (a b : MatchOrdinalKey) : Ordering :=
  (compare a.createdUnixMillis b.createdUnixMillis).then <|
    (qnameCmp a b).then <|
      (compare a.ruleIdx b.ruleIdx).then (compare a.matchIdx b.matchIdx)

inductive OrdinalError where
  | ordinalOverflow
  | duplicateOrderKey (slot : UInt32)
  | slotOutOfRange (slot : UInt32)
  deriving DecidableEq

/-- `sort_unstable_by`: some rearrangement in which nothing stands before a smaller item. -/
structure UnstableSort {Item : Type} (compare : Item → Item → Ordering) where
  run : List Item → List Item
  perm : ∀ items, (run items).Perm items
  sorted : ∀ items, (run items).Pairwise fun left right => compare left right ≠ .gt

def duplicateOrderKey : List MatchOrdinalKey → Option UInt32
  | a :: b :: rest => if orderKeyCmp a b = .eq then some b.slot else duplicateOrderKey (b :: rest)
  | _ => none

/-- Writes the ordinals from `index` on. -/
def writeOrdinals : List MatchOrdinalKey → Nat → List UInt32 → Except OrdinalError (List UInt32)
  | [], _, out => .ok out
  | key :: keys, index, out =>
    if key.slot.toNat < out.length then
      writeOrdinals keys (index + 1) (out.set key.slot.toNat (UInt32.ofNat index))
    else .error (.slotOutOfRange key.slot)

def assignOrdinals (sort : UnstableSort orderKeyCmp) (keys : List MatchOrdinalKey)
    (out : List UInt32) : Except OrdinalError (List MatchOrdinalKey × List UInt32) :=
  if keys.length > 2 ^ 32 - 1 then .error .ordinalOverflow
  else
    let keys := sort.run keys
    match duplicateOrderKey keys with
    | some slot => .error (.duplicateOrderKey slot)
    | none => do
      let out ← writeOrdinals keys 0 out
      .ok (keys, out)

end IronTraffic.Router
