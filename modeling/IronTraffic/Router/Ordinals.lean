import IronTraffic.Foundation.Fallible
import IronTraffic.Foundation.StableSort
import IronTraffic.Router.Precedence

/-! # The order of precedences

Ordinals number the matches in tie-break order, so that comparing packed precedences
compares kind, method, counts and tie-break key one after the other.
-/

namespace IronTraffic.Router

open List

/-! ## Fields -/

lemma or_shiftLeft (small : low < 2 ^ shift) : high <<< shift ||| low = high * 2 ^ shift + low := by
  rw [← Nat.shiftLeft_add_eq_or_of_lt small, Nat.shiftLeft_eq]

lemma field_lt_iff {weight high low otherHigh otherLow : Nat} (small : low < weight)
    (otherSmall : otherLow < weight) :
    high * weight + low < otherHigh * weight + otherLow ↔
      high < otherHigh ∨ high = otherHigh ∧ low < otherLow := by
  rcases lt_trichotomy high otherHigh with less | equal | more
  · have room : (high + 1) * weight ≤ otherHigh * weight := Nat.mul_le_mul_right _ less
    rw [add_mul, one_mul] at room
    exact iff_of_true (by omega) (.inl less)
  · subst equal
    simp
  · have room : (otherHigh + 1) * weight ≤ high * weight := Nat.mul_le_mul_right _ more
    rw [add_mul, one_mul] at room
    exact iff_of_false (by omega) (by omega)

lemma toNat_countBits (count : Nat) : (countBits count).toNat = min count 255 := by
  unfold countBits
  split
  case isTrue many =>
    rw [min_eq_right (by omega)]
    rfl
  case isFalse few =>
    rw [min_eq_left (by omega), UInt64.toNat_ofNat_of_lt' (show count < 2 ^ 64 by omega)]

lemma toNat_kindBits (kind : PathKind) :
    (kind.toU8.toUInt64 &&& kindMask).toNat = kind.toU8.toNat ∧ kind.toU8.toNat < 8 := by
  cases kind <;> decide

lemma toNat_shiftLeft_of_lt {shift : UInt64} (small : shift < 64)
    (fits : field.toNat * 2 ^ shift.toNat < 2 ^ 64) :
    (field <<< shift).toNat = field.toNat <<< shift.toNat := by
  have within : shift.toNat < 64 := small
  rw [UInt64.toNat_shiftLeft, Nat.mod_eq_of_lt within, Nat.shiftLeft_eq, Nat.mod_eq_of_lt fits]

lemma toNat_pack (kind) (hasMethod : Bool) (headerCount queryCount : Nat) (ordinal) :
    (Precedence.pack kind hasMethod headerCount queryCount ordinal).bits.toNat =
      kind.toU8.toNat * 2 ^ 61 + (hasMethod.toNat * 2 ^ 60 + (min headerCount 255 * 2 ^ 52 +
        (min queryCount 255 * 2 ^ 44 + (2 ^ 32 - 1 - ordinal.toNat)))) := by
  rcases toNat_kindBits kind with ⟨kindBits, kindSmall⟩
  have method : hasMethod.toUInt64.toNat = hasMethod.toNat := by cases hasMethod <;> rfl
  have methodSmall := hasMethod.toNat_lt
  have headers := toNat_countBits headerCount
  have queries := toNat_countBits queryCount
  have headersSmall : min headerCount 255 ≤ 255 := min_le_right _ _
  have queriesSmall : min queryCount 255 ≤ 255 := min_le_right _ _
  unfold Precedence.pack
  generalize min headerCount 255 = header at *
  generalize min queryCount 255 = query at *
  simp only [UInt64.toNat_or, UInt32.toNat_toUInt64, UInt32.toNat_not]
  rw [toNat_shiftLeft_of_lt (by decide) (by rw [kindBits]; simp [kindShift]; omega),
    toNat_shiftLeft_of_lt (by decide) (by rw [method]; simp [methodShift]; omega),
    toNat_shiftLeft_of_lt (by decide) (by rw [headers]; simp [headerShift]; omega),
    toNat_shiftLeft_of_lt (by decide) (by rw [queries]; simp [queryShift]; omega),
    kindBits, method, headers, queries]
  show ((((_ <<< 61 ||| _ <<< 60) ||| _ <<< 52) ||| _ <<< 44) ||| (2 ^ 32 - 1 - _)) = _
  rw [Nat.or_assoc, Nat.or_assoc, Nat.or_assoc, @or_shiftLeft _ 44 query (by omega),
    @or_shiftLeft _ 52 header (by omega), @or_shiftLeft _ 60 _ (by omega),
    @or_shiftLeft _ 61 _ (by omega)]

/-! ## The order that is meant -/

/-- What the Gateway API compares of two matches, beside the path kind. -/
structure RouteMatch where
  kind : PathKind
  hasMethod : Bool
  headerCount : Nat
  queryCount : Nat
  key : MatchOrdinalKey

def tieBreak (key : MatchOrdinalKey) : ℕ ×ₗ List ℕ ×ₗ ℕ ×ₗ ℕ :=
  toLex (key.createdUnixMillis.toNat, toLex (key.qname.map UInt8.toNat,
    toLex (key.ruleIdx.toNat, key.matchIdx.toNat)))

/-- The kind and the counts, descending, and then the tie-break, ascending. What comes
first wins. -/
def gatewayOrder (candidate : RouteMatch) :
    ℕᵒᵈ ×ₗ ℕᵒᵈ ×ₗ ℕᵒᵈ ×ₗ ℕᵒᵈ ×ₗ ℕ ×ₗ List ℕ ×ₗ ℕ ×ₗ ℕ :=
  toLex (OrderDual.toDual candidate.kind.toU8.toNat,
    toLex (OrderDual.toDual candidate.hasMethod.toNat,
      toLex (OrderDual.toDual (min candidate.headerCount 255),
        toLex (OrderDual.toDual (min candidate.queryCount 255), tieBreak candidate.key))))

def RouteMatch.precedence (candidate : RouteMatch) (ordinal : UInt32) : Precedence :=
  .pack candidate.kind candidate.hasMethod candidate.headerCount candidate.queryCount ordinal

lemma precedence_lt_iff
    (ordered : leftOrdinal < rightOrdinal ↔ tieBreak left.key < tieBreak right.key) :
    (right.precedence rightOrdinal).bits < (left.precedence leftOrdinal).bits ↔
      gatewayOrder left < gatewayOrder right := by
  have rightSmall : rightOrdinal.toNat < 2 ^ 32 := rightOrdinal.toNat_lt
  have complement : 2 ^ 32 - 1 - rightOrdinal.toNat < 2 ^ 32 - 1 - leftOrdinal.toNat ↔
      tieBreak left.key < tieBreak right.key := by
    rw [← ordered, UInt32.lt_iff_toNat_lt]
    omega
  have leftMethod := left.hasMethod.toNat_lt
  have rightMethod := right.hasMethod.toNat_lt
  simp only [gatewayOrder, Prod.Lex.toLex_lt_toLex, OrderDual.toDual_lt_toDual,
    EmbeddingLike.apply_eq_iff_eq]
  rw [UInt64.lt_iff_toNat_lt, RouteMatch.precedence, RouteMatch.precedence, toNat_pack, toNat_pack,
    ← complement]
  rw [field_lt_iff (by omega) (by omega), field_lt_iff (by omega) (by omega),
    field_lt_iff (by omega) (by omega), field_lt_iff (by omega) (by omega)]
  simp only [eq_comm]

/-! ## The comparator -/

lemma compares_then [LinearOrder First] [LinearOrder Second] {first second : Ordering}
    {a b : First} {c d : Second} (firsts : first.Compares a b) (seconds : second.Compares c d) :
    (first.then second).Compares (toLex (a, c)) (toLex (b, d)) := by
  cases first with
  | lt | gt => exact Prod.Lex.toLex_lt_toLex.mpr (.inl firsts)
  | eq =>
    have same : a = b := firsts
    subst same
    cases second with
    | lt | gt => exact Prod.Lex.toLex_lt_toLex.mpr (.inr ⟨rfl, seconds⟩)
    | eq =>
      have same : c = d := seconds
      subst same
      exact rfl

lemma compares_of_if [Decidable less] [Decidable equal] {a b : ℕ}
    (less_iff : less ↔ a < b) (equal_iff : equal ↔ a = b) :
    (if less then Ordering.lt else if equal then .eq else .gt).Compares a b := by
  split
  case isTrue holds => exact less_iff.mp holds
  case isFalse notLess =>
    split
    case isTrue holds => exact equal_iff.mp holds
    case isFalse notEqual =>
      rw [less_iff] at notLess
      rw [equal_iff] at notEqual
      show b < a
      omega

lemma compares_bytes (a b : Bytes) :
    (List.compareLex compare a b).Compares (a.map UInt8.toNat) (b.map UInt8.toNat) := by
  induction a generalizing b with
  | nil =>
    cases b with
    | nil => exact rfl
    | cons byte b => exact nil_lt_cons _ _
  | cons byte a induction =>
    cases b with
    | nil => exact nil_lt_cons _ _
    | cons other b =>
      rw [List.compareLex_cons_cons]
      have heads : (compare byte other).Compares byte.toNat other.toNat :=
        compares_of_if UInt8.lt_iff_toNat_lt UInt8.toNat_inj.symm
      have tails := induction b
      rw [map_cons, map_cons]
      cases order : compare byte other with
      | lt | gt =>
        rw [order] at heads
        exact cons_lt_cons_iff.mpr (.inl heads)
      | eq =>
        rw [order] at heads
        have same : byte.toNat = other.toNat := heads
        rw [same]
        show (List.compareLex compare a b).Compares _ _
        cases rest : List.compareLex compare a b with
        | lt | gt =>
          rw [rest] at tails
          exact cons_lt_cons_iff.mpr (.inr ⟨rfl, tails⟩)
        | eq =>
          rw [rest] at tails
          exact congrArg (other.toNat :: ·) tails

lemma orderKeyCmp_compares (a b) : (orderKeyCmp a b).Compares (tieBreak a) (tieBreak b) := by
  apply compares_then (compares_of_if UInt64.lt_iff_toNat_lt UInt64.toNat_inj.symm)
  apply compares_then (compares_bytes _ _)
  apply compares_then (compares_of_if UInt16.lt_iff_toNat_lt UInt16.toNat_inj.symm)
  exact compares_of_if UInt16.lt_iff_toNat_lt UInt16.toNat_inj.symm

variable {sorted : List MatchOrdinalKey} {ordinals : List UInt32}

lemma orderKeyCmp_eq_eq_iff : orderKeyCmp a b = .eq ↔ tieBreak a = tieBreak b :=
  (orderKeyCmp_compares a b).eq_eq

lemma orderKeyCmp_ne_gt_iff : orderKeyCmp a b ≠ .gt ↔ tieBreak a ≤ tieBreak b := by
  rw [ne_eq, (orderKeyCmp_compares a b).eq_gt, not_lt]

/-! ## Numbering -/

lemma duplicateOrderKey_eq_none_iff {keys}
    (sorted : keys.Pairwise fun left right => orderKeyCmp left right ≠ .gt) :
    duplicateOrderKey keys = none ↔
      keys.Pairwise fun left right => tieBreak left < tieBreak right := by
  simp only [orderKeyCmp_ne_gt_iff] at sorted
  rw [← isChain_iff_pairwise]
  induction keys with
  | nil => simp [duplicateOrderKey]
  | cons key keys induction =>
    rcases pairwise_cons.mp sorted with ⟨first, rest⟩
    cases keys with
    | nil => simp [duplicateOrderKey]
    | cons next keys =>
      rw [duplicateOrderKey, isChain_cons_cons, ← induction rest]
      have least := first next mem_cons_self
      by_cases same : tieBreak key = tieBreak next
      · rw [if_pos (orderKeyCmp_eq_eq_iff.mpr same)]
        exact iff_of_false nofun (fun both => absurd same both.1.ne)
      · rw [if_neg (mt orderKeyCmp_eq_eq_iff.mp same)]
        exact ⟨fun none => ⟨lt_of_le_of_ne least same, none⟩, fun both => both.2⟩

lemma writeOrdinals_isError_iff {keys} :
    (∃ error, writeOrdinals keys index out = .error error) ↔
      ∃ key ∈ keys, out.length ≤ key.slot.toNat := by
  induction keys generalizing index out with
  | nil => simp [writeOrdinals]
  | cons key keys induction =>
    rw [writeOrdinals]
    by_cases inside : key.slot.toNat < out.length
    · rw [if_pos inside, induction, length_set, exists_mem_cons_iff]
      exact ⟨.inr, fun either => either.resolve_left (by omega)⟩
    · rw [if_neg inside]
      exact iff_of_true ⟨_, rfl⟩ ⟨key, mem_cons_self, by omega⟩

lemma writeOrdinals_spec {keys} (nodup : (keys.map (·.slot)).Nodup)
    (written : writeOrdinals keys index out = .ok ordinals) :
    (∀ slot : Nat, (∀ key ∈ keys, key.slot.toNat ≠ slot) → ordinals[slot]? = out[slot]?) ∧
      ∀ spot key, keys[spot]? = some key →
        ordinals[key.slot.toNat]? = some (UInt32.ofNat (index + spot)) := by
  induction keys generalizing index out ordinals with
  | nil =>
    cases written
    exact ⟨fun _ _ => rfl, fun _ _ => nofun⟩
  | cons key keys induction =>
    rw [map_cons, nodup_cons] at nodup
    rw [writeOrdinals] at written
    by_cases inside : key.slot.toNat < out.length
    · rw [if_pos inside] at written
      rcases induction nodup.2 written with ⟨others, numbered⟩
      constructor
      · intro slot free
        rw [forall_mem_cons] at free
        rw [others slot free.2, getElem?_set_ne free.1]
      intro spot hit located
      cases spot with
      | zero =>
        cases located
        have free : ∀ other ∈ keys, other.slot.toNat ≠ key.slot.toNat :=
          fun other mem same => nodup.1
            (mem_map.mpr ⟨other, mem, UInt32.toNat_inj.mp same⟩)
        rw [others _ free, getElem?_set_self inside, add_zero]
      | succ spot =>
        rw [numbered spot hit located, Nat.add_right_comm, add_assoc]
    · rw [if_neg inside] at written
      cases written

section Assignment

variable {sort : UnstableSort orderKeyCmp} {keys : List MatchOrdinalKey} {out : List UInt32}

lemma duplicateOrderKey_sort_eq_none_iff :
    duplicateOrderKey (sort.run keys) = none ↔
      keys.Pairwise fun left right => tieBreak left ≠ tieBreak right := by
  have sorted := sort.sorted keys
  rw [duplicateOrderKey_eq_none_iff sorted,
    ← (sort.perm keys).pairwise_iff (fun apart => apart.symm)]
  simp only [orderKeyCmp_ne_gt_iff] at sorted
  constructor
  · exact fun strict => strict.imp fun less => less.ne
  · exact fun apart => (sorted.and apart).imp fun both => lt_of_le_of_ne both.1 both.2

lemma assignOrdinals_eq_ok_iff :
    assignOrdinals sort keys out = .ok (sorted, ordinals) ↔
      keys.length ≤ 2 ^ 32 - 1 ∧ duplicateOrderKey (sort.run keys) = none ∧
        writeOrdinals (sort.run keys) 0 out = .ok ordinals ∧ sort.run keys = sorted := by
  unfold assignOrdinals
  by_cases many : keys.length > 2 ^ 32 - 1
  · rw [if_pos many]
    exact iff_of_false nofun (fun few => absurd few.1 (not_le.mpr many))
  rw [if_neg many]
  cases hit : duplicateOrderKey (sort.run keys) with
  | some slot => simp [hit]
  | none =>
    have few : keys.length ≤ 2 ^ 32 - 1 := not_lt.mp many
    simp only [hit, bind_eq_ok_iff, Except.ok.injEq, Prod.mk.injEq, few, true_and]
    constructor
    · rintro ⟨middle, written, sorted_eq, ordinals_eq⟩
      subst ordinals_eq
      exact ⟨written, sorted_eq⟩
    · intro gave
      exact ⟨ordinals, gave.1, gave.2, rfl⟩

lemma assignOrdinals_isError_iff :
    (∃ error, assignOrdinals sort keys out = .error error) ↔ 2 ^ 32 - 1 < keys.length ∨
      (¬keys.Pairwise fun left right => tieBreak left ≠ tieBreak right) ∨
      ∃ key ∈ keys, out.length ≤ key.slot.toNat := by
  have writes : (¬∃ ordinals, writeOrdinals (sort.run keys) 0 out = .ok ordinals) ↔
      ∃ key ∈ keys, out.length ≤ key.slot.toNat := by
    rw [← exists_error_iff, writeOrdinals_isError_iff]
    exact exists_congr fun key => and_congr_left' (sort.perm keys).mem_iff
  rw [exists_error_iff, Prod.exists, ← duplicateOrderKey_sort_eq_none_iff, ← writes]
  simp only [assignOrdinals_eq_ok_iff]
  have run : (∃ sorted ordinals, keys.length ≤ 2 ^ 32 - 1 ∧
      duplicateOrderKey (sort.run keys) = none ∧
      writeOrdinals (sort.run keys) 0 out = .ok ordinals ∧ sort.run keys = sorted) ↔
      keys.length ≤ 2 ^ 32 - 1 ∧ duplicateOrderKey (sort.run keys) = none ∧
      ∃ ordinals, writeOrdinals (sort.run keys) 0 out = .ok ordinals := by
    simp
  rw [run, not_and_or, not_and_or, not_le]

lemma assignOrdinals_ordinals (slots : (keys.map (·.slot)).Nodup)
    (assigned : assignOrdinals sort keys out = .ok (sorted, ordinals)) :
    ∀ left ∈ keys, ∀ right ∈ keys, ∃ leftOrdinal rightOrdinal,
      ordinals[left.slot.toNat]? = some leftOrdinal ∧
      ordinals[right.slot.toNat]? = some rightOrdinal ∧
      (left.slot ≠ right.slot → leftOrdinal ≠ rightOrdinal) ∧
      (leftOrdinal < rightOrdinal ↔ tieBreak left < tieBreak right) := by
  rcases assignOrdinals_eq_ok_iff.mp assigned with ⟨few, unique, written, _⟩
  have perm := sort.perm keys
  have strict := (duplicateOrderKey_eq_none_iff (sort.sorted keys)).mp unique
  have nodup : ((sort.run keys).map (·.slot)).Nodup := (perm.map _).nodup_iff.mpr slots
  have numbered := (writeOrdinals_spec nodup written).2
  have fits : (sort.run keys).length < 2 ^ 32 := by
    rw [perm.length_eq]
    omega
  generalize sort.run keys = run at *
  intro left leftMember right rightMember
  rcases mem_iff_getElem?.mp (perm.mem_iff.mpr leftMember) with ⟨i, atLeft⟩
  rcases mem_iff_getElem?.mp (perm.mem_iff.mpr rightMember) with ⟨j, atRight⟩
  have leftInside := lt_of_getElem? atLeft
  have rightInside := lt_of_getElem? atRight
  have toNat : ∀ {index : Nat}, index < run.length → (UInt32.ofNat (0 + index)).toNat = index := by
    intro index inside
    rw [zero_add, UInt32.toNat_ofNat_of_lt' (show index < 2 ^ 32 by omega)]
  refine ⟨_, _, numbered i left atLeft, numbered j right atRight, ?_, ?_⟩
  · intro apart same
    have positions := congrArg UInt32.toNat same
    rw [toNat leftInside, toNat rightInside] at positions
    subst positions
    rw [atLeft] at atRight
    cases atRight
    exact apart rfl
  · rw [UInt32.lt_iff_toNat_lt, toNat leftInside, toNat rightInside]
    have before : ∀ {i j : Nat} {left right : MatchOrdinalKey}, run[i]? = some left →
        run[j]? = some right → i < j → tieBreak left < tieBreak right := by
      intro i j left right atLeft atRight less
      rcases List.getElem?_eq_some_iff.mp atLeft with ⟨leftInside, left_eq⟩
      rcases List.getElem?_eq_some_iff.mp atRight with ⟨rightInside, right_eq⟩
      rw [← left_eq, ← right_eq]
      exact pairwise_iff_getElem.mp strict i j leftInside rightInside less
    rcases lt_trichotomy i j with less | same | more
    · exact iff_of_true less (before atLeft atRight less)
    · subst same
      rw [atLeft] at atRight
      cases atRight
      exact iff_of_false (lt_irrefl _) (lt_irrefl _)
    · exact iff_of_false (not_lt.mpr more.le) (not_lt.mpr (before atRight atLeft more).le)

end Assignment

/-- Precedences packed from assigned ordinals compare in the order of the Gateway API. -/
theorem assignOrdinals_gatewayOrder (sort : UnstableSort orderKeyCmp)
    (candidates : List RouteMatch) (out : List UInt32) :
    ((∃ error, assignOrdinals sort (candidates.map (·.key)) out = .error error) ↔
      2 ^ 32 - 1 < candidates.length ∨
      (¬candidates.Pairwise fun left right => tieBreak left.key ≠ tieBreak right.key) ∨
      ∃ candidate ∈ candidates, out.length ≤ candidate.key.slot.toNat) ∧
    ((candidates.map (·.key.slot)).Nodup → ∀ sorted ordinals,
      assignOrdinals sort (candidates.map (·.key)) out = .ok (sorted, ordinals) →
      ∀ left ∈ candidates, ∀ right ∈ candidates, ∃ leftOrdinal rightOrdinal,
        ordinals[left.key.slot.toNat]? = some leftOrdinal ∧
        ordinals[right.key.slot.toNat]? = some rightOrdinal ∧
        (left.key.slot ≠ right.key.slot → leftOrdinal ≠ rightOrdinal) ∧
        ((right.precedence rightOrdinal).bits < (left.precedence leftOrdinal).bits ↔
          gatewayOrder left < gatewayOrder right)) := by
  constructor
  · rw [assignOrdinals_isError_iff, length_map, pairwise_map]
    simp only [mem_map, exists_exists_and_eq_and]
  intro slots sorted ordinals assigned left leftMember right rightMember
  have keySlots : ((candidates.map (·.key)).map (·.slot)).Nodup := by
    rw [map_map]
    exact slots
  rcases assignOrdinals_ordinals keySlots assigned left.key (mem_map_of_mem leftMember)
    right.key (mem_map_of_mem rightMember) with
    ⟨leftOrdinal, rightOrdinal, atLeft, atRight, apart, ordered⟩
  exact ⟨leftOrdinal, rightOrdinal, atLeft, atRight, apart, precedence_lt_iff ordered⟩

def UnstableSort.insertion : UnstableSort orderKeyCmp where
  run := sortBy tieBreak
  perm := perm_sortBy tieBreak
  sorted := by
    intro keys
    simp only [orderKeyCmp_ne_gt_iff]
    exact sorted_sortBy tieBreak keys

def plainKey (created : Nat) (slot : Nat) : MatchOrdinalKey :=
  ⟨UInt64.ofNat created, ascii "ns", ascii "web", 0, 0, UInt32.ofNat slot⟩

theorem twoMatches_ordered :
    ∃ sorted leftOrdinal rightOrdinal,
      assignOrdinals .insertion [plainKey 20 1, plainKey 10 0] [7, 7] =
        .ok (sorted, [rightOrdinal, leftOrdinal]) ∧ leftOrdinal ≠ rightOrdinal ∧
      ((RouteMatch.precedence ⟨.exact, false, 300, 0, plainKey 10 0⟩ rightOrdinal).bits <
        (RouteMatch.precedence ⟨.exact, false, 255, 0, plainKey 20 1⟩ leftOrdinal).bits ↔
        gatewayOrder ⟨.exact, false, 255, 0, plainKey 20 1⟩ <
          gatewayOrder ⟨.exact, false, 300, 0, plainKey 10 0⟩) := by
  have assigned : assignOrdinals .insertion [plainKey 20 1, plainKey 10 0] [7, 7] =
      .ok ([plainKey 10 0, plainKey 20 1], [0, 1]) := by decide +kernel
  rcases (assignOrdinals_gatewayOrder .insertion [⟨.exact, false, 255, 0, plainKey 20 1⟩,
    ⟨.exact, false, 300, 0, plainKey 10 0⟩] [7, 7]).2 (by decide) _ _ assigned _
    mem_cons_self _ (mem_cons_of_mem _ mem_cons_self) with
    ⟨leftOrdinal, rightOrdinal, atLeft, atRight, apart, ordered⟩
  cases atLeft
  cases atRight
  exact ⟨_, _, _, assigned, apart (by decide), ordered⟩

def plainKeys (count : Nat) : List MatchOrdinalKey :=
  (range count).map fun index => plainKey index index

/-- Two keys with one slot are given one ordinal, and more keys than ordinals are
refused although their tie-breaks differ and their slots exist. -/
theorem assignOrdinals_limits :
    (tieBreak (plainKey 10 0) < tieBreak (plainKey 20 0) ∧
      assignOrdinals .insertion [plainKey 10 0, plainKey 20 0] [7] =
        .ok ([plainKey 10 0, plainKey 20 0], [1])) ∧
    (∃ error, assignOrdinals .insertion (plainKeys (2 ^ 32)) (replicate (2 ^ 32) 0) =
      .error error) ∧
    ((plainKeys (2 ^ 32)).Pairwise fun left right =>
      tieBreak left ≠ tieBreak right ∧ left.slot ≠ right.slot) ∧
    ∀ key ∈ plainKeys (2 ^ 32), key.slot.toNat < 2 ^ 32 := by
  refine ⟨⟨by decide, by decide +kernel⟩, ?_, ?_, ?_⟩
  · generalize large : 2 ^ 32 = count
    rw [assignOrdinals_isError_iff, plainKeys, length_map, length_range]
    exact .inl (by omega)
  · generalize large : 2 ^ 32 = count
    rw [plainKeys, pairwise_map]
    apply pairwise_lt_range.imp_of_mem
    intro left right leftMember rightMember less
    rw [mem_range] at leftMember rightMember
    have created : ∀ {index : Nat}, index < count →
        (plainKey index index).createdUnixMillis.toNat = index :=
      fun inside => UInt64.toNat_ofNat_of_lt' (show _ < 2 ^ 64 by omega)
    have slot : ∀ {index : Nat}, index < count → (plainKey index index).slot.toNat = index :=
      fun inside => UInt32.toNat_ofNat_of_lt' (show _ < 2 ^ 32 by omega)
    constructor
    · intro same
      have times : (plainKey left left).createdUnixMillis.toNat =
          (plainKey right right).createdUnixMillis.toNat :=
        congrArg (fun key => (ofLex key).1) same
      rw [created leftMember, created rightMember] at times
      omega
    · intro same
      have slots := congrArg UInt32.toNat same
      rw [slot leftMember, slot rightMember] at slots
      omega
  · exact fun key _ => key.slot.toNat_lt

end IronTraffic.Router
