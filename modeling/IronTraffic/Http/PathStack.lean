import IronTraffic.Http.PathSegments

/-! # Dot removal on a stack

What dot removal is for, without cursors: segments are pushed from left to right, a
dot is dropped, and a double dot pops. Removal in place agrees with it on every path
whose offsets fit in the 32 bits they are kept in.
-/

namespace IronTraffic.Http

open List

def isDots (segment : Bytes) : Bool := segment == dotSegment || segment == dotDotSegment

def stackSegment (stack : List Bytes) (segment : Bytes) : List Bytes :=
  if segment = dotSegment then stack
  else if segment = dotDotSegment then stack.tail
  else segment :: stack

/-- The segments left on the stack, each behind a slash, and a slash at the end if the
last segment was a dot or a double dot. -/
def stackPath (segments : List Bytes) : Bytes :=
  joined slash (segments.foldl stackSegment []).reverse ++
    if segments.getLast?.any isDots then [slash] else []

/-- From a stack of that depth, the first segments pop more than there is. -/
def Climbs (depth : Nat) (segments : List Bytes) : Prop :=
  ∃ front, front <+: segments ∧ depth + front.countP (!isDots ·) < front.count dotDotSegment

/-! ## The stack -/

lemma not_climbs_nil (depth : Nat) : ¬Climbs depth [] := by
  rintro ⟨front, isFront, more⟩
  rw [prefix_nil.mp isFront] at more
  exact absurd more (Nat.not_lt_zero _)

lemma not_climbs_zero_iff :
    ¬Climbs 0 segments ↔
      ∀ front, front <+: segments → front.count dotDotSegment ≤ front.countP (!isDots ·) := by
  simp only [Climbs, not_exists, not_and, zero_add, not_lt]

variable {depth : Nat} {segment first : Bytes} {rest kept : List Bytes}

lemma climbs_cons :
    Climbs depth (segment :: rest) ↔
      ∃ front, front <+: rest ∧
        depth + (segment :: front).countP (!isDots ·) < (segment :: front).count dotDotSegment := by
  constructor
  · rintro ⟨front, isFront, more⟩
    rcases prefix_cons_iff.mp isFront with nothing | ⟨others, equal, inRest⟩
    · rw [nothing] at more
      exact absurd more (Nat.not_lt_zero _)
    · subst equal
      exact ⟨others, inRest, more⟩
  · rintro ⟨front, isFront, more⟩
    exact ⟨segment :: front, cons_prefix_cons.mpr ⟨rfl, isFront⟩, more⟩

lemma climbs_dot : Climbs depth (dotSegment :: rest) ↔ Climbs depth rest := by
  rw [climbs_cons]
  simp [Climbs, isDots]

lemma climbs_dotDot_zero (rest) : Climbs 0 (dotDotSegment :: rest) :=
  climbs_cons.mpr ⟨[], nil_prefix, by decide⟩

lemma climbs_dotDot_succ : Climbs (depth + 1) (dotDotSegment :: rest) ↔ Climbs depth rest := by
  rw [climbs_cons]
  simp only [Climbs, countP_cons, count_cons, isDots]
  apply exists_congr
  simp
  omega

lemma climbs_other (notDot : segment ≠ dotSegment) (notDotDot : segment ≠ dotDotSegment) :
    Climbs depth (segment :: rest) ↔ Climbs (depth + 1) rest := by
  have plain : isDots segment = false := by simp [isDots, notDot, notDotDot]
  rw [climbs_cons]
  simp only [Climbs, countP_cons, count_cons, plain, beq_false_of_ne notDotDot]
  apply exists_congr
  simp
  omega

def closed (segments stack : List Bytes) : List Bytes :=
  if segments.getLast?.any isDots then [] :: stack else stack

lemma joined_closed (segments) :
    joined slash (closed segments (segments.foldl stackSegment [])).reverse =
      stackPath segments := by
  unfold closed stackPath
  split
  · rw [reverse_cons, joined_append]
    rfl
  · rw [append_nil]

lemma resolveSegment_eq_ok (pops : segment = dotDotSegment → kept ≠ []) (isLast : Bool) :
    resolveSegment kept segment isLast = .ok (if isLast && isDots segment then
      [] :: stackSegment kept segment else stackSegment kept segment) := by
  unfold resolveSegment stackSegment isDots
  by_cases one : segment = dotSegment
  · simp [one]
  · rw [if_neg one, if_neg one, beq_false_of_ne one, Bool.false_or]
    by_cases two : segment = dotDotSegment
    · cases kept with
      | nil => exact absurd rfl (pops two)
      | cons last kept => simp [two]
    · simp [two]

lemma climbs_stackSegment (pops : segment = dotDotSegment → kept ≠ []) :
    Climbs kept.length (segment :: rest) ↔ Climbs (stackSegment kept segment).length rest := by
  unfold stackSegment
  by_cases one : segment = dotSegment
  · rw [if_pos one, one, climbs_dot]
  · rw [if_neg one]
    by_cases two : segment = dotDotSegment
    · cases kept with
      | nil => exact absurd rfl (pops two)
      | cons last kept => rw [if_pos two, two, length_cons, climbs_dotDot_succ, tail_cons]
    · rw [if_neg two, climbs_other one two, length_cons]

lemma resolveSegments_stack (segments kept) :
    (Climbs kept.length segments → resolveSegments segments kept = .error .pathTraversalAboveRoot) ∧
      (¬Climbs kept.length segments →
        resolveSegments segments kept =
          .ok (closed segments (segments.foldl stackSegment kept))) := by
  induction segments generalizing kept with
  | nil =>
    exact ⟨fun climbs => absurd climbs (not_climbs_nil _), fun _ => rfl⟩
  | cons segment rest induction =>
    by_cases pops : segment = dotDotSegment → kept ≠ []
    · rw [climbs_stackSegment pops, resolveSegments, resolveSegment_eq_ok pops, foldl_cons]
      cases rest with
      | nil =>
        refine ⟨fun climbs => absurd climbs (not_climbs_nil _), fun _ => ?_⟩
        rfl
      | cons next rest =>
        exact induction (stackSegment kept segment)
    · rw [Classical.not_imp, not_not] at pops
      rcases pops with ⟨rfl, rfl⟩
      exact ⟨fun _ => rfl, fun grounded => absurd (climbs_dotDot_zero rest) grounded⟩

/-! ## Removal in place -/

/-- Removal in place is the stack, on every path of at most 2³² bytes at the start of
a buffer: it fails where some first segments hold more double dots than others, and
otherwise leaves what is on the stack in the first bytes of the buffer. -/
theorem removeDotSegments_eq_stack {buf rest : Bytes} {len : Nat} (size : len ≤ buf.length)
    (holds : buf.take len = slash :: rest) (short : len ≤ 2 ^ 32) :
    (removeDotSegments buf len = .error .pathTraversalAboveRoot ↔
      ∃ front, front <+: segmentsOf slash (slash :: rest) ∧
        front.countP (!isDots ·) < front.count dotDotSegment) ∧
    ((∀ front, front <+: segmentsOf slash (slash :: rest) →
        front.count dotDotSegment ≤ front.countP (!isDots ·)) →
      ∃ after count, removeDotSegments buf len = .ok (after, count) ∧ count ≤ after.length ∧
        after.take count = stackPath (segmentsOf slash (slash :: rest))) := by
  have free : ∀ segment ∈ segmentsOf slash (slash :: rest), slash ∉ segment :=
    fun segment mem => not_mem_segmentsOf mem
  rw [← joined_segmentsOf rest] at holds
  generalize segmentsOf slash (slash :: rest) = segments at *
  have climbs_iff : Climbs 0 segments ↔
      ∃ front, front <+: segments ∧ front.countP (!isDots ·) < front.count dotDotSegment := by
    simp only [Climbs, zero_add]
  rcases resolveSegments_stack segments [] with ⟨fails, succeeds⟩
  rw [length_nil] at fails succeeds
  rw [← climbs_iff, ← not_climbs_zero_iff]
  rcases removeDotSegments_joined free size holds short with
    ⟨reason, resolved, removed⟩ | ⟨kept, after, count, resolved, removed, inside, _, result⟩
  · have climbs : Climbs 0 segments := by
      by_contra grounded
      rw [succeeds grounded] at resolved
      cases resolved
    rw [fails climbs] at resolved
    cases resolved
    exact ⟨iff_of_true removed climbs, fun grounded => absurd climbs grounded⟩
  · have grounded : ¬Climbs 0 segments := by
      intro climbs
      rw [fails climbs] at resolved
      cases resolved
    rw [succeeds grounded] at resolved
    cases resolved
    rw [joined_closed] at result
    refine ⟨iff_of_false ?_ grounded, fun _ => ⟨after, count, removed, inside, result⟩⟩
    rw [removed]
    nofun

theorem spareBuffer_resolves :
    ∃ after count, removeDotSegments (ascii "/a/./b/..xy") 9 = .ok (after, count) ∧
      count ≤ after.length ∧ after.take count = ascii "/a/" := by
  have stack := @removeDotSegments_eq_stack (ascii "/a/./b/..xy") (ascii "a/./b/..") 9 (by decide)
    (by decide) (by decide)
  apply stack.2
  intro front isFront
  rw [← mem_inits] at isFront
  revert front
  decide

/-! ## Offsets beyond 32 bits -/

lemma removeDotLoop_succ {state after} (unread : state.read < len)
    (stepped : removeDotStep len state = .ok after) :
    removeDotLoop len (turns + 1) state = removeDotLoop len turns after := by
  rw [removeDotLoop, if_pos unread, stepped]
  rfl

lemma removeDotSegments_distant (free : slash ∉ first) (long : 2 ^ 32 ≤ first.length + 1)
    (notDot : first ≠ dotSegment) (notDotDot : first ≠ dotDotSegment) :
    ∃ after, removeDotSegments (joined slash [first, [98], dotDotSegment])
      (joined slash [first, [98], dotDotSegment]).length = .ok (after, 2 ^ 32) := by
  have start := @DotInvariant.start [first, [98], dotDotSegment] _ _ (le_refl _) take_length
  have turns : (joined slash [first, [98], dotDotSegment]).length =
      first.length + 3 + 1 + 1 + 1 := by
    simp [joined]
  unfold removeDotSegments
  generalize joined slash [first, [98], dotDotSegment] = buf at *
  rcases start.step_other free notDot notDotDot with ⟨one, stepOne, afterOne⟩
  rcases afterOne.step_other (by decide) (by decide) (by decide) with ⟨two, stepTwo, afterTwo⟩
  -- The second segment was written behind the first, at an offset that does not fit.
  have popped : toU32 (joined slash [first]).length + 1 = 2 ^ 32 := by
    rw [joined_cons, joined_nil, append_nil, length_cons]
    unfold toU32
    omega
  have stack : two.stack = [toU32 (joined slash [first]).length, toU32 0] :=
    afterTwo.stack (cons_ne_nil _ _)
  generalize toU32 (joined slash [first]).length = offset at *
  have reads : two.read + 3 = buf.length := afterTwo.read_eq
  have stepThree : removeDotStep buf.length two =
      .ok ⟨two.buf.set offset slash, two.read + 3, offset + 1, [toU32 0]⟩ := by
    simp only [removeDotStep, afterTwo.unread, stack]
    rfl
  have loop : removeDotLoop buf.length buf.length ⟨buf, 0, 0, []⟩ =
      .ok ⟨two.buf.set offset slash, two.read + 3, offset + 1, [toU32 0]⟩ := by
    nth_rewrite 2 [turns]
    rw [removeDotLoop_succ start.read_lt stepOne, removeDotLoop_succ afterOne.read_lt stepTwo,
      removeDotLoop_succ afterTwo.read_lt stepThree, removeDotLoop, if_neg (by simp only; omega)]
  rw [loop, ← popped]
  exact ⟨_, rfl⟩

lemma stackPath_distant (notDot : first ≠ dotSegment) (notDotDot : first ≠ dotDotSegment) :
    ¬Climbs 0 [first, [98], dotDotSegment] ∧
    stackPath [first, [98], dotDotSegment] = slash :: first ++ [slash] := by
  constructor
  · rw [climbs_other notDot notDotDot, climbs_other (by decide) (by decide), climbs_dotDot_succ]
    exact not_climbs_nil _
  · have stack : [first, [98], dotDotSegment].foldl stackSegment [] = [first] := by
      simp only [foldl_cons, foldl_nil, stackSegment, if_neg notDot, if_neg notDotDot]
      rfl
    rw [stackPath, stack, reverse_singleton, joined_cons, joined_nil, append_nil]
    rfl

def distantPath (count : Nat) : Bytes :=
  joined slash [List.replicate count 97, [98], dotDotSegment]

/-- Where the short segment starts beyond 32 bits, the long one is cut. -/
theorem distantPath_cut :
    (∀ front, front <+: segmentsOf slash (distantPath (2 ^ 32)) →
      front.count dotDotSegment ≤ front.countP (!isDots ·)) ∧
    (∃ after, removeDotSegments (distantPath (2 ^ 32)) (distantPath (2 ^ 32)).length =
      .ok (after, 2 ^ 32)) ∧
    (stackPath (segmentsOf slash (distantPath (2 ^ 32)))).length = 2 ^ 32 + 2 := by
  generalize large : 2 ^ 32 = count
  have length : (List.replicate count (97 : UInt8)).length = count := length_replicate
  have free : slash ∉ List.replicate count (97 : UInt8) :=
    fun mem => absurd (eq_of_mem_replicate mem) (by decide)
  unfold distantPath
  generalize List.replicate count (97 : UInt8) = first at *
  have notDots : first ≠ dotSegment ∧ first ≠ dotDotSegment := by
    constructor
    all_goals
      intro short
      rw [short] at length
      simp at length
      omega
  have segments : segmentsOf slash (joined slash [first, [98], dotDotSegment]) =
      [first, [98], dotDotSegment] := by
    apply segmentsOf_joined (cons_ne_nil _ _)
    exact forall_mem_cons.mpr ⟨free, by decide⟩
  rcases stackPath_distant notDots.1 notDots.2 with ⟨grounded, path⟩
  rw [segments, ← not_climbs_zero_iff]
  refine ⟨grounded, ?_, ?_⟩
  · rw [← large]
    exact removeDotSegments_distant free (by omega) notDots.1 notDots.2
  · rw [path, length_append, length_cons, length]
    rfl

end IronTraffic.Http
