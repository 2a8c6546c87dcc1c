import IronTraffic.Foundation.Fallible
import IronTraffic.Http.Path

/-! # Segments of a path

Dot removal and slash merging work in place, with a read cursor that stays ahead
of the write cursor. Here they are related to what they do to the segments: a dot
segment is dropped, a double dot drops the segment before it, and either leaves an
empty segment at the end.
-/

namespace IronTraffic.Http

open List

/-! ## Resolving dot segments -/

abbrev dotSegment : Bytes := [dot]

abbrev dotDotSegment : Bytes := [dot, dot]

def resolveSegment (kept : List Bytes) (segment : Bytes) (isLast : Bool) :
    Except RejectReason (List Bytes) :=
  if segment = dotSegment then .ok (if isLast then [] :: kept else kept)
  else if segment = dotDotSegment then
    match kept with
    | [] => .error .pathTraversalAboveRoot
    | _ :: kept => .ok (if isLast then [] :: kept else kept)
  else .ok (segment :: kept)

def resolveSegments : List Bytes → List Bytes → Except RejectReason (List Bytes)
  | [], kept => .ok kept
  | segment :: rest, kept => do
    let kept ← resolveSegment kept segment rest.isEmpty
    resolveSegments rest kept

lemma resolveSegments_keeps {Holds : Bytes → Prop} (empty : Holds [])
    {segments kept result} (gave : resolveSegments segments kept = .ok result)
    (plain : ∀ segment ∈ segments, segment ≠ dotSegment → segment ≠ dotDotSegment → Holds segment)
    (keptHold : ∀ segment ∈ kept, Holds segment) : ∀ segment ∈ result, Holds segment := by
  induction segments generalizing kept result with
  | nil =>
    cases gave
    exact keptHold
  | cons segment rest induction =>
    rcases bind_eq_ok_iff.mp gave with ⟨next, resolved, onward⟩
    apply induction onward fun other mem => plain other (mem_cons_of_mem _ mem)
    have closing : ∀ {segments : List Bytes}, (∀ segment ∈ segments, Holds segment) →
        ∀ segment ∈ (if rest.isEmpty then [] :: segments else segments), Holds segment := by
      intro segments hold
      split
      · exact forall_mem_cons.mpr ⟨empty, hold⟩
      · exact hold
    unfold resolveSegment at resolved
    split at resolved
    case isTrue =>
      cases resolved
      exact closing keptHold
    case isFalse notDot =>
      split at resolved
      case isTrue =>
        cases kept with
        | nil => cases resolved
        | cons last kept =>
          cases resolved
          exact closing (forall_mem_cons.mp keptHold).2
      case isFalse notDotDot =>
        cases resolved
        exact forall_mem_cons.mpr
          ⟨plain segment mem_cons_self notDot notDotDot, keptHold⟩

lemma resolveSegments_ne_nil (gave : resolveSegments segments kept = .ok result)
    (nonempty : segments ≠ [] ∨ kept ≠ []) : result ≠ [] := by
  induction segments generalizing kept result with
  | nil =>
    cases gave
    exact nonempty.resolve_left (fun absurdity => absurdity rfl)
  | cons segment rest induction =>
    rcases bind_eq_ok_iff.mp gave with ⟨next, resolved, onward⟩
    apply induction onward
    cases rest with
    | cons => exact .inl (cons_ne_nil _ _)
    | nil =>
      right
      unfold resolveSegment at resolved
      split at resolved
      · cases resolved
        exact cons_ne_nil _ _
      split at resolved
      case isTrue =>
        cases kept with
        | nil => cases resolved
        | cons last kept =>
          cases resolved
          exact cons_ne_nil _ _
      case isFalse =>
        cases resolved
        exact cons_ne_nil _ _

lemma resolveSegments_plain
    (plain : ∀ segment ∈ segments, segment ≠ dotSegment ∧ segment ≠ dotDotSegment) :
    resolveSegments segments kept = .ok (segments.reverse ++ kept) := by
  induction segments generalizing kept with
  | nil =>
    rfl
  | cons segment rest induction =>
    rcases forall_mem_cons.mp plain with ⟨⟨notDot, notDotDot⟩, others⟩
    rw [resolveSegments]
    simp only [resolveSegment, if_neg notDot, if_neg notDotDot]
    show resolveSegments rest (segment :: kept) = _
    rw [induction others, reverse_cons, append_assoc]
    rfl

/-! ## Removal in place -/

def offsets : List Bytes → List Nat
  | [] => []
  | _ :: kept => (joined slash kept.reverse).length :: offsets kept

/-- The written part holds the kept segments, and the unread part the rest. -/
structure DotInvariant (len : Nat) (kept segments : List Bytes) (state : DotState) :
    Prop where
  size : len ≤ state.buf.length
  inside : state.read ≤ len
  behind : state.write ≤ state.read
  written : state.buf.take state.write = joined slash kept.reverse
  unread : (state.buf.take len).drop state.read = joined slash segments
  stack : segments ≠ [] → state.stack = (offsets kept).map toU32

lemma startsWith_iff {dots segment : Bytes} {rest : List Bytes} (dotsFree : slash ∉ dots)
    (free : slash ∉ segment) :
    (joined slash (segment :: rest) = slash :: dots ∨
      slash :: (dots ++ [slash]) <+: joined slash (segment :: rest)) ↔ segment = dots := by
  rw [joined_cons]
  cases rest with
  | nil =>
    rw [joined_nil, append_nil]
    constructor
    · rintro (whole | ⟨more, equal⟩)
      · exact (List.cons.inj whole).2
      · have equal := (List.cons.inj equal).2
        rw [← equal] at free
        exact absurd (by simp) free
    · intro same
      exact .inl (by rw [same])
  | cons next rest =>
    constructor
    · rintro (whole | ⟨more, equal⟩)
      · have whole := (List.cons.inj whole).2
        rw [← whole] at dotsFree
        exact absurd (by simp) dotsFree
      · have equal : dots ++ [slash] ++ more = segment ++ slash :: (next ++ joined slash rest) :=
          (List.cons.inj equal).2
        rw [append_assoc] at equal
        exact (eq_of_append_separator dotsFree free equal).1.symm
    · intro same
      exact .inr ⟨next ++ joined slash rest, by simp [same]⟩

variable {segment : Bytes} {rest below : List Bytes}

lemma isExact_iff : joined slash (segment :: rest) = slash :: segment ↔ rest = [] := by
  cases rest with
  | nil | cons => simp

lemma findIdx_slash (free : slash ∉ segment) :
    (segment ++ joined slash rest).findIdx? (· == slash) =
      if rest = [] then none else some segment.length := by
  have nowhere : segment.findIdx? (· == slash) = none := by
    rw [findIdx?_eq_none_iff]
    intro byte mem
    exact beq_eq_false_iff_ne.mpr (fun same => free (same ▸ mem))
  rw [findIdx?_append, nowhere]
  cases rest with
  | nil => simp
  | cons next rest => simp [findIdx?_cons]

section CopyWithin

variable {buf : Bytes}

lemma length_copyWithin (ordered : start ≤ stop) (inside : stop ≤ buf.length)
    (behind : dest ≤ start) : (copyWithin buf start stop dest).length = buf.length := by
  simp only [copyWithin, length_append, length_take, length_drop]
  omega

lemma take_copyWithin (ordered : start ≤ stop) (inside : stop ≤ buf.length)
    (behind : dest ≤ start) :
    (copyWithin buf start stop dest).take (dest + (stop - start)) =
      buf.take dest ++ (buf.drop start).take (stop - start) := by
  apply take_left'
  simp only [length_append, length_take, length_drop]
  omega

lemma drop_copyWithin (ordered : start ≤ stop) (inside : stop ≤ buf.length)
    (behind : dest ≤ start) : (copyWithin buf start stop dest).drop stop = buf.drop stop := by
  unfold copyWithin
  have length : (buf.take dest ++ (buf.drop start).take (stop - start)).length =
      dest + (stop - start) := by
    simp only [length_append, length_take, length_drop]
    omega
  rw [drop_append, drop_eq_nil_of_le (by omega), nil_append, drop_drop, length]
  congr 1
  omega

end CopyWithin

namespace DotInvariant

variable {len : Nat} {kept segments : List Bytes} {state : DotState}

section

variable (invariant : DotInvariant len kept segments state)

include invariant

lemma write_le : state.write ≤ state.buf.length :=
  le_trans invariant.behind (le_trans invariant.inside invariant.size)

lemma write_eq : state.write = (joined slash kept.reverse).length := by
  rw [← invariant.written, length_take, min_eq_left invariant.write_le]

lemma read_eq : state.read + (joined slash segments).length = len := by
  have size := invariant.size
  have inside := invariant.inside
  rw [← invariant.unread, length_drop, length_take]
  omega

end

lemma read_lt (invariant : DotInvariant len kept (segment :: rest) state) : state.read < len := by
  have reads := invariant.read_eq
  rw [joined_cons, length_cons] at reads
  omega

lemma toU32_offset (invariant : DotInvariant len (last :: below) (segment :: rest) state)
    (short : len ≤ 2 ^ 32) :
    toU32 (joined slash below.reverse).length = (joined slash below.reverse).length := by
  have behind := invariant.behind
  have reads := invariant.read_lt
  have writes := invariant.write_eq
  rw [reverse_cons, joined_append, length_append] at writes
  unfold toU32
  omega

section

variable (invariant : DotInvariant len kept (segment :: rest) state)

include invariant

lemma passed {stack} (back : cursor ≤ state.write)
    (written : (joined slash kept.reverse).take cursor = joined slash below.reverse)
    (offset : stack = (offsets below).map toU32) :
    DotInvariant len (if rest.isEmpty then [] :: below else below) rest
      ({ state with read := state.read + (segment.length + 1), write := cursor, stack }.closeWith
        (rest = [])) := by
  have size := invariant.size
  have behind := invariant.behind
  have reads := invariant.read_eq
  rw [joined_cons, length_cons, length_append] at reads
  have keeps : state.buf.take cursor = joined slash below.reverse := by
    rw [← written, ← invariant.written, take_take, min_eq_left back]
  have unread : (state.buf.take len).drop (state.read + (segment.length + 1)) =
      joined slash rest := by
    rw [← drop_drop, invariant.unread, joined_cons, drop_succ_cons, drop_left]
  cases rest with
  | cons next rest =>
    simp only [DotState.closeWith, isEmpty_cons, if_false, reduceCtorEq, decide_false]
    exact
      { size
        inside := by simp only; omega
        behind := by simp only; omega
        written := keeps
        unread
        stack := fun _ => offset }
  | nil =>
    simp only [DotState.closeWith, isEmpty_nil, if_true, decide_true]
    rw [joined_nil, length_nil] at reads
    exact
      { size := by simp only [length_set]; exact size
        inside := by simp only; omega
        behind := by simp only; omega
        written := by
          rw [take_add_one, take_set_of_le (le_refl _), keeps,
            getElem?_set_self (by omega), reverse_cons, joined_append]
          rfl
        unread := by
          apply drop_eq_nil_of_le
          simp only [length_take, length_set]
          omega
        stack := fun nonempty => absurd rfl nonempty }

lemma copied :
    DotInvariant len (segment :: kept) rest
      { buf := copyWithin state.buf state.read (state.read + (segment.length + 1)) state.write
        read := state.read + (segment.length + 1)
        write := state.write + (segment.length + 1)
        stack := toU32 state.write :: state.stack } := by
  have size := invariant.size
  have behind := invariant.behind
  have reads := invariant.read_eq
  rw [joined_cons, length_cons, length_append] at reads
  have amount : state.read + (segment.length + 1) - state.read = segment.length + 1 := by omega
  have ordered : state.read ≤ state.read + (segment.length + 1) := by omega
  have stops : state.read + (segment.length + 1) ≤ state.buf.length := by omega
  have copies : (state.buf.drop state.read).take (segment.length + 1) = slash :: segment := by
    have within : min (segment.length + 1) (len - state.read) = segment.length + 1 := by omega
    have unread := invariant.unread
    rw [drop_take] at unread
    rw [← within, ← take_take, unread, joined_cons, take_succ_cons, take_left]
  exact
    { size := by simp only [length_copyWithin ordered stops behind]; exact size
      inside := by simp only; omega
      behind := Nat.add_le_add_right behind _
      written := by
        have takes := take_copyWithin ordered stops behind
        rw [amount] at takes
        rw [takes, invariant.written, copies, reverse_cons, joined_append]
        simp
      unread := by
        rw [drop_take, drop_copyWithin ordered stops behind, ← drop_take,
          ← drop_drop, invariant.unread, joined_cons, drop_succ_cons, drop_left]
      stack := by
        intro _
        rw [offsets, map_cons, invariant.write_eq, invariant.stack (cons_ne_nil _ _)] }

lemma nextSlash_eq (free : slash ∉ segment) :
    nextSlash state.buf len state.read = state.read + (segment.length + 1) := by
  have reads := invariant.read_eq
  rw [joined_cons, length_cons, length_append] at reads
  rw [nextSlash, ← drop_drop, invariant.unread, joined_cons, drop_succ_cons, drop_zero,
    findIdx_slash free]
  by_cases last : rest = []
  · subst last
    rw [joined_nil, length_nil] at reads
    simp only [if_true]
    omega
  · rw [if_neg last]
    show state.read + 1 + segment.length = state.read + (segment.length + 1)
    omega

lemma step_other (free : slash ∉ segment) (notDot : segment ≠ dotSegment)
    (notDotDot : segment ≠ dotDotSegment) :
    ∃ after, removeDotStep len state = .ok after ∧
      DotInvariant len (segment :: kept) rest after := by
  have isDot := @startsWith_iff dotSegment segment rest (by decide) free
  have isDotDot := @startsWith_iff dotDotSegment segment rest (by decide) free
  simp only [cons_append, nil_append] at isDot isDotDot
  simp only [removeDotStep, invariant.unread]
  rw [if_neg (mt isDot.mp notDot), if_neg (mt isDotDot.mp notDotDot)]
  refine ⟨_, rfl, ?_⟩
  simp only [invariant.nextSlash_eq free, Nat.add_sub_cancel_left]
  exact invariant.copied

lemma step (short : len ≤ 2 ^ 32) (free : slash ∉ segment) :
    (∃ reason, resolveSegment kept segment rest.isEmpty = .error reason ∧
        removeDotStep len state = .error reason) ∨
      ∃ next after, resolveSegment kept segment rest.isEmpty = .ok next ∧
        removeDotStep len state = .ok after ∧ DotInvariant len next rest after := by
  have isDot := @startsWith_iff dotSegment segment rest (by decide) free
  have isDotDot := @startsWith_iff dotDotSegment segment rest (by decide) free
  simp only [cons_append, nil_append] at isDot isDotDot
  by_cases one : segment = dotSegment
  · right
    unfold removeDotStep
    simp only [invariant.unread]
    rw [if_pos (isDot.mpr one)]
    subst one
    refine ⟨_, _, if_pos rfl, rfl, ?_⟩
    simp only [isExact_iff]
    exact invariant.passed (le_refl _)
      (by rw [invariant.write_eq, take_length])
      (invariant.stack (cons_ne_nil _ _))
  · by_cases two : segment = dotDotSegment
    · unfold removeDotStep
      simp only [invariant.unread]
      rw [if_neg (mt isDot.mp one), if_pos (isDotDot.mpr two), invariant.stack (cons_ne_nil _ _)]
      subst two
      cases kept with
      | nil => exact .inl ⟨_, rfl, rfl⟩
      | cons last below =>
        right
        refine ⟨_, _, rfl, rfl, ?_⟩
        simp only [isExact_iff, invariant.toU32_offset short]
        refine invariant.passed ?_ ?_ rfl
        · rw [invariant.write_eq, reverse_cons, joined_append, length_append]
          exact Nat.le_add_right _ _
        · rw [reverse_cons, joined_append, take_left]
    · right
      rcases invariant.step_other free one two with ⟨after, stepped, further⟩
      refine ⟨segment :: kept, after, ?_, stepped, further⟩
      unfold resolveSegment
      rw [if_neg one, if_neg two]

end

lemma run (short : len ≤ 2 ^ 32) (invariant : DotInvariant len kept segments state)
    (free : ∀ segment ∈ segments, slash ∉ segment) (enough : segments.length ≤ turns) :
    (∃ reason, resolveSegments segments kept = .error reason ∧
      removeDotLoop len turns state = .error reason) ∨ ∃ result after,
      resolveSegments segments kept = .ok result ∧ removeDotLoop len turns state = .ok after ∧
      DotInvariant len result [] after := by
  induction segments generalizing kept state turns with
  | nil =>
    right
    refine ⟨kept, state, rfl, ?_, invariant⟩
    have finished := invariant.read_eq
    rw [joined_nil, length_nil] at finished
    cases turns with
    | zero => rfl
    | succ turns => rw [removeDotLoop, if_neg (by omega)]
  | cons segment rest induction =>
    rcases forall_mem_cons.mp free with ⟨freeHere, freeThere⟩
    cases turns with
    | zero => exact absurd enough (Nat.not_succ_le_zero _)
    | succ turns =>
      rw [removeDotLoop, if_pos invariant.read_lt, resolveSegments]
      rcases invariant.step short freeHere with
        ⟨reason, resolved, stepped⟩ | ⟨next, after, resolved, stepped, further⟩
      · rw [resolved, stepped]
        exact .inl ⟨reason, rfl, rfl⟩
      · rw [resolved, stepped]
        exact induction further freeThere (Nat.le_of_succ_le_succ enough)

end DotInvariant

lemma DotInvariant.start {segments : List Bytes} {buf : Bytes} {len : Nat}
    (size : len ≤ buf.length) (holds : buf.take len = joined slash segments) :
    DotInvariant len [] segments ⟨buf, 0, 0, []⟩ :=
  { size
    inside := Nat.zero_le _
    behind := le_refl _
    written := rfl
    unread := by rw [drop_zero, holds]
    stack := fun _ => rfl }

lemma length_le_length_joined (segments : List Bytes) :
    segments.length ≤ (joined slash segments).length := by
  have positive : ∀ size ∈ segments.map fun segment => (slash :: segment).length, 1 ≤ size := by
    simp
  have bound := length_le_sum_of_one_le _ positive
  rw [length_map, ← length_flatMap] at bound
  exact bound

lemma removeDotSegments_joined (free : ∀ segment ∈ segments, slash ∉ segment)
    (size : len ≤ buf.length) (holds : buf.take len = joined slash segments)
    (short : len ≤ 2 ^ 32) :
    (∃ reason,
       resolveSegments segments [] = .error reason ∧ removeDotSegments buf len = .error reason) ∨
    ∃ kept after count,
      resolveSegments segments [] = .ok kept ∧ removeDotSegments buf len = .ok (after, count) ∧
      count ≤ after.length ∧ count ≤ len ∧ after.take count = joined slash kept.reverse := by
  have enough : segments.length ≤ len := by
    have bound := length_le_length_joined segments
    rw [← holds, length_take, min_eq_left size] at bound
    exact bound
  unfold removeDotSegments
  rcases (DotInvariant.start size holds).run short free enough with
    ⟨reason, resolved, looped⟩ | ⟨kept, after, resolved, looped, finished⟩
  · rw [looped]
    exact .inl ⟨reason, resolved, rfl⟩
  · rw [looped]
    exact .inr ⟨kept, after.buf, after.write, resolved, rfl, finished.write_le,
      le_trans finished.behind finished.inside, finished.written⟩

end IronTraffic.Http
