import IronTraffic.Http.PathBytes
import IronTraffic.Http.PathSegments
import IronTraffic.Http.PathSlashes

/-! # Normal forms of paths

The pipeline returns segments in normal form, and returns such segments as they
are. No step brings back what an earlier one removes.
-/

namespace IronTraffic.Http

open List

/-- What the pipeline establishes of the segments it returns. -/
structure NormalForm (policy : PathPolicy) (segments : List Bytes) : Prop where
  nonempty : segments ≠ []
  free : ∀ segment ∈ segments, slash ∉ segment
  canonical : ∀ segment ∈ segments, isCanonical segment
  plain : ∀ segment ∈ segments, segment ≠ dotSegment ∧ segment ≠ dotDotSegment
  dots : policy.encodedDot = .reject → ∀ segment ∈ segments, isEncodedDotSegment segment = false
  slashes : policy.encodedSlash = .reject → ∀ segment ∈ segments, hasEncodedSlash segment = false
  merged : policy.mergeSlashes → ∀ segment ∈ segments.dropLast, segment ≠ []

/-! ## The policy checks, segment by segment -/

variable {segments : List Bytes}

lemma hasEncodedDotSegment_joined (nonempty : segments ≠ [])
    (free : ∀ segment ∈ segments, slash ∉ segment) :
    hasEncodedDotSegment (joined slash segments) = segments.any isEncodedDotSegment := by
  rw [hasEncodedDotSegment, segmentsOf_joined nonempty free]

lemma isPrefixOf_append_slash {pattern : Bytes} (free : slash ∉ pattern) (front back : Bytes) :
    pattern.isPrefixOf (front ++ slash :: back) = pattern.isPrefixOf front := by
  induction pattern generalizing front with
  | nil => rfl
  | cons byte pattern induction =>
    rw [mem_cons, not_or] at free
    cases front with
    | nil =>
      rw [nil_append, isPrefixOf_cons_cons, beq_eq_false_iff_ne.mpr (Ne.symm free.1)]
      rfl
    | cons first front =>
      rw [cons_append, isPrefixOf_cons_cons, isPrefixOf_cons_cons, induction free.2]

lemma hasEncodedSlash_slash (bytes : Bytes) :
    hasEncodedSlash (slash :: bytes) = hasEncodedSlash bytes := by
  rfl

lemma hasEncodedSlash_append_slash (front back : Bytes) :
    hasEncodedSlash (front ++ slash :: back) = (hasEncodedSlash front || hasEncodedSlash back) := by
  induction front with
  | nil => exact hasEncodedSlash_slash back
  | cons byte front induction =>
    rw [cons_append, hasEncodedSlash, hasEncodedSlash, induction, ← cons_append,
      isPrefixOf_append_slash (by decide), isPrefixOf_append_slash (by decide)]
    simp only [Bool.or_assoc]

lemma hasEncodedSlash_joined (segments : List Bytes) :
    hasEncodedSlash (joined slash segments) = segments.any hasEncodedSlash := by
  induction segments with
  | nil => rfl
  | cons segment rest induction =>
    rw [joined_cons, hasEncodedSlash_slash, any_cons, ← induction]
    cases rest with
    | nil => simp [hasEncodedSlash]
    | cons next rest => rw [joined_cons, hasEncodedSlash_append_slash, hasEncodedSlash_slash]

/-! ## The pipeline -/

variable {policy : PathPolicy}

def PathPolicy.merge (policy : PathPolicy) (segments : List Bytes) : List Bytes :=
  if policy.mergeSlashes then squeezed segments else segments

lemma mem_of_mem_merge {segment : Bytes} (mem : segment ∈ policy.merge segments) :
    segment ∈ segments := by
  unfold PathPolicy.merge at mem
  split at mem
  · exact mem_of_mem_squeezed mem
  · exact mem

lemma merge_ne_nil (nonempty : segments ≠ []) : policy.merge segments ≠ [] := by
  unfold PathPolicy.merge
  split
  · exact squeezed_ne_nil nonempty
  · exact nonempty

section

variable (free : ∀ segment ∈ segments, slash ∉ segment)

include free

lemma length_joined_merge_le :
    (joined slash (policy.merge segments)).length ≤ (joined slash segments).length := by
  unfold PathPolicy.merge
  split
  · rw [← squeeze_joined free]
    exact length_squeeze_le _ false
  · exact le_refl _

lemma merged_joined (size : len ≤ buf.length) (holds : buf.take len = joined slash segments) :
    let result := if policy.mergeSlashes then mergeSlashes buf len else (buf, len)
    result.1.take result.2 = joined slash (policy.merge segments) := by
  unfold PathPolicy.merge
  cases policy.mergeSlashes with
  | true => exact mergeSlashes_joined free size holds
  | false => exact holds

lemma resolveSegments_spec (resolved : resolveSegments segments [] = .ok kept)
    (nonempty : segments ≠ []) (canonical : ∀ segment ∈ segments, isCanonical segment) :
    kept.reverse ≠ [] ∧ (∀ segment ∈ kept.reverse, slash ∉ segment) ∧
    (∀ segment ∈ kept.reverse, isCanonical segment) ∧
    ∀ segment ∈ kept.reverse, segment ≠ dotSegment ∧ segment ≠ dotDotSegment := by
  simp only [mem_reverse, ne_eq, reverse_eq_nil_iff]
  refine ⟨resolveSegments_ne_nil resolved (.inl nonempty), ?_, ?_, ?_⟩
  · exact resolveSegments_keeps (by simp) resolved (fun segment mem _ _ => free segment mem)
      (by simp)
  · exact @resolveSegments_keeps (isCanonical ·) rfl _ _ _ resolved
      (fun segment mem _ _ => canonical segment mem) (by simp)
  · exact resolveSegments_keeps (by simp) resolved
      (fun _ _ notDot notDotDot => ⟨notDot, notDotDot⟩) (by simp)

end

lemma normalForm_of_normalizePath (short : (slash :: rest).length ≤ 2 ^ 32)
    (gave : normalizePath policy (slash :: rest) = .ok path) :
    ∃ segments, NormalForm policy segments ∧ path = joined slash segments ∧
      path.length ≤ (slash :: rest).length := by
  rcases bind_eq_ok_iff.mp gave with ⟨_, valid, gave⟩
  rcases bind_eq_ok_iff.mp gave with ⟨decoded, decodes, gave⟩
  rcases decodePath_canonical _ valid decodes with ⟨canonical, shorter⟩
  rw [decodePath_plain (by decide)] at decodes
  rcases bind_eq_ok_iff.mp decodes with ⟨tail, _, equal⟩
  cases equal
  -- The decoded bytes are read as segments from here on.
  have free : ∀ segment ∈ segmentsOf slash (slash :: tail), slash ∉ segment :=
    fun segment mem => not_mem_segmentsOf mem
  have nonempty : segmentsOf slash (slash :: tail) ≠ [] := segmentsOf_ne_nil _
  rw [← joined_segmentsOf tail] at gave canonical shorter
  rw [isCanonical_joined, all_eq_true] at canonical
  rcases removeDotSegments_joined free (le_refl _) take_length (le_trans shorter short) with
    ⟨reason, _, removed⟩ | ⟨kept, buf, len, resolved, removed, size, within, holds⟩
  · rw [removed] at gave
    cases gave
  rw [removed] at gave
  rcases resolveSegments_spec free resolved nonempty canonical with
    ⟨keptSome, keptFree, keptCanonical, keptPlain⟩
  generalize kept.reverse = segments at *
  rcases rejectIf_bind_eq_ok.mp gave with ⟨noDots, gave⟩
  rcases rejectIf_bind_eq_ok.mp gave with ⟨noSlashes, gave⟩
  rw [holds] at noDots noSlashes
  rw [hasEncodedDotSegment_joined keptSome keptFree] at noDots
  rw [hasEncodedSlash_joined] at noSlashes
  have path_eq : path = joined slash (policy.merge segments) :=
    (Except.ok.inj gave).symm.trans (merged_joined keptFree size holds)
  refine ⟨policy.merge segments, ?_, path_eq, ?_⟩
  · exact
      { nonempty := merge_ne_nil keptSome
        free := fun segment mem => keptFree segment (mem_of_mem_merge mem)
        canonical := fun segment mem => keptCanonical segment (mem_of_mem_merge mem)
        plain := fun segment mem => keptPlain segment (mem_of_mem_merge mem)
        dots := by
          intro reject segment mem
          rw [reject, beq_self_eq_true, Bool.true_and, any_eq_false] at noDots
          simpa using noDots segment (mem_of_mem_merge mem)
        slashes := by
          intro reject segment mem
          rw [reject, beq_self_eq_true, Bool.true_and, any_eq_false] at noSlashes
          simpa using noSlashes segment (mem_of_mem_merge mem)
        merged := by
          intro merges segment mem
          rw [PathPolicy.merge, if_pos merges] at mem
          exact dropLast_squeezed_ne_nil mem }
  · have length : (joined slash segments).length = len := by
      rw [← holds, length_take, min_eq_left size]
    rw [path_eq]
    calc (joined slash (policy.merge segments)).length
        ≤ len := length ▸ length_joined_merge_le keptFree
      _ ≤ _ := within
      _ ≤ (slash :: rest).length := shorter

lemma normalizePath_of_normalForm (short : (joined slash segments).length ≤ 2 ^ 32)
    (normal : NormalForm policy segments) :
    normalizePath policy (joined slash segments) = .ok (joined slash segments) := by
  have canonical : isCanonical (joined slash segments) := by
    rw [isCanonical_joined, all_eq_true]
    exact normal.canonical
  rcases decodePath_of_canonical _ canonical with ⟨valid, decodes⟩
  have plain := @resolveSegments_plain segments [] normal.plain
  rw [append_nil] at plain
  rcases removeDotSegments_joined normal.free (le_refl _) take_length short with
    ⟨reason, resolved, _⟩ | ⟨kept, buf, len, resolved, removed, size, _, holds⟩
  · rw [plain] at resolved
    cases resolved
  rw [plain] at resolved
  cases resolved
  rw [reverse_reverse] at holds
  have noDots : (policy.encodedDot == .reject &&
      hasEncodedDotSegment (joined slash segments)) = false := by
    rw [hasEncodedDotSegment_joined normal.nonempty normal.free]
    cases mode : policy.encodedDot with
    | keep => rfl
    | reject => simpa using normal.dots mode
  have noSlashes : (policy.encodedSlash == .reject &&
      hasEncodedSlash (joined slash segments)) = false := by
    rw [hasEncodedSlash_joined]
    cases mode : policy.encodedSlash with
    | keep => rfl
    | reject => simpa using normal.slashes mode
  have unmerged : policy.merge segments = segments := by
    unfold PathPolicy.merge
    split
    case isTrue merges => exact squeezed_of_dropLast (normal.merged merges)
    case isFalse => rfl
  rw [normalizePath, valid, decodes]
  apply bind_eq_ok_iff.mpr ⟨_, removed, ?_⟩
  apply rejectIf_bind_eq_ok.mpr ⟨by rw [holds]; exact noDots, ?_⟩
  apply rejectIf_bind_eq_ok.mpr ⟨by rw [holds]; exact noSlashes, ?_⟩
  rw [← unmerged, ← merged_joined normal.free size holds]

end IronTraffic.Http
