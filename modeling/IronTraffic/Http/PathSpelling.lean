import IronTraffic.Http.PathTarget

/-! # Spellings of a target

Two targets are spellings of each other if they differ only in which unreserved bytes
other than the dot are written as escapes, and in the case of the digits of escapes.
Validation, decoding and with them the whole pipeline treat them alike.
-/

namespace IronTraffic.Http

open List

def beginsEscape : Bytes → Bool
  | high :: low :: _ => isAsciiHexdigit high && isAsciiHexdigit low
  | _ => false

inductive Respelled : Bytes → Bytes → Prop
  | nil : Respelled [] []
  | plain {byte : UInt8} {left right : Bytes} (notPercent : byte ≠ percent)
      (rest : Respelled left right) : Respelled (byte :: left) (byte :: right)
  | literal {high low : UInt8} {left right : Bytes} (digits : beginsEscape [high, low])
      (unreserved : isUnreservedMinusDot (hexPairValue high low)) (rest : Respelled left right) :
      Respelled (hexPairValue high low :: left) (percent :: high :: low :: right)
  | escaped {high low : UInt8} {left right : Bytes} (digits : beginsEscape [high, low])
      (unreserved : isUnreservedMinusDot (hexPairValue high low)) (rest : Respelled left right) :
      Respelled (percent :: high :: low :: left) (hexPairValue high low :: right)
  | escape {high low otherHigh otherLow : UInt8} {left right : Bytes}
      (digits : beginsEscape [high, low]) (otherDigits : beginsEscape [otherHigh, otherLow])
      (sameHigh : toAsciiUppercase high = toAsciiUppercase otherHigh)
      (sameLow : toAsciiUppercase low = toAsciiUppercase otherLow)
      (rest : Respelled left right) :
      Respelled (percent :: high :: low :: left) (percent :: otherHigh :: otherLow :: right)
  /-- A percent sign that starts no escape, on either side. -/
  | stray {left right : Bytes} (noEscape : beginsEscape left = false)
      (noOtherEscape : beginsEscape right = false) (rest : Respelled left right) :
      Respelled (percent :: left) (percent :: right)

variable {byte high low : UInt8} {rest front query path : Bytes}

namespace Respelled

variable {left right : Bytes}

lemma symm (respelled : Respelled left right) : Respelled right left := by
  induction respelled with
  | nil => exact .nil
  | plain notPercent _ induction => exact .plain notPercent induction
  | literal digits unreserved _ induction => exact .escaped digits unreserved induction
  | escaped digits unreserved _ induction => exact .literal digits unreserved induction
  | escape digits otherDigits sameHigh sameLow _ induction =>
    exact .escape otherDigits digits sameHigh.symm sameLow.symm induction
  | stray noEscape noOtherEscape _ induction => exact .stray noOtherEscape noEscape induction

/-! ## Bytes -/

/-- A byte of an escape, or one that an escape may stand for. -/
def IsSpelling (byte : UInt8) : Prop :=
  isAsciiHexdigit byte ∨ isUnreservedMinusDot byte ∨ byte = percent

instance (byte : UInt8) : Decidable (IsSpelling byte) := inferInstanceAs (Decidable (_ ∨ _))

lemma forall_mem {Holds : UInt8 → Prop} (spelling : ∀ byte, IsSpelling byte → Holds byte)
    (respelled : Respelled left right) :
    (∀ byte ∈ left, Holds byte) → ∀ byte ∈ right, Holds byte := by
  have atPercent : Holds percent := spelling percent (.inr (.inr rfl))
  have escapeHolds : ∀ {high low : UInt8}, beginsEscape [high, low] → Holds high ∧ Holds low := by
    intro high low digits
    rw [beginsEscape, Bool.and_eq_true] at digits
    exact ⟨spelling high (.inl digits.1), spelling low (.inl digits.2)⟩
  induction respelled with
  | nil => exact fun holds => holds
  | plain _ _ induction =>
    simp only [forall_mem_cons]
    exact fun holds => ⟨holds.1, induction holds.2⟩
  | literal digits _ _ induction =>
    simp only [forall_mem_cons]
    exact fun holds =>
      ⟨atPercent, (escapeHolds digits).1, (escapeHolds digits).2, induction holds.2⟩
  | escaped _ unreserved _ induction =>
    simp only [forall_mem_cons]
    exact fun holds => ⟨spelling _ (.inr (.inl unreserved)), induction holds.2.2.2⟩
  | escape _ otherDigits _ _ _ induction =>
    simp only [forall_mem_cons]
    exact fun holds =>
      ⟨atPercent, (escapeHolds otherDigits).1, (escapeHolds otherDigits).2, induction holds.2.2.2⟩
  | stray _ _ _ induction =>
    simp only [forall_mem_cons]
    exact fun holds => ⟨atPercent, induction holds.2⟩

lemma spellingByte_spec :
    ∀ byte, IsSpelling byte → byte ≠ 35 ∧ byte ≠ question ∧ byte ≠ slash ∧ queryByteOk byte :=
  forall_byte (by decide +kernel)

lemma not_mem (respelled : Respelled left right) (reserved : ¬IsSpelling byte)
    (free : byte ∉ left) : byte ∉ right := by
  have apart := @forall_mem left right (· ≠ byte) (fun _ spells same => reserved (same ▸ spells))
    respelled
  exact fun mem => apart (fun other inside same => free (same ▸ inside)) byte mem rfl

lemma forall_queryByteOk (respelled : Respelled left right) :
    (∀ byte ∈ left, queryByteOk byte) → ∀ byte ∈ right, queryByteOk byte :=
  forall_mem (fun byte spells => (spellingByte_spec byte spells).2.2.2) respelled

/-! ## The question mark -/

lemma cons_eq_append_mark (other : byte ≠ question)
    (equal : byte :: rest = front ++ question :: query) :
    ∃ behind, front = byte :: behind ∧ rest = behind ++ question :: query := by
  rcases cons_eq_append_iff.mp equal with ⟨_, start⟩ | ⟨behind, front_eq, rest_eq⟩
  · exact absurd (List.cons.inj start).1.symm other
  · exact ⟨behind, front_eq, rest_eq⟩

lemma escape_eq_append_mark (digits : beginsEscape [high, low])
    (equal : percent :: high :: low :: rest = front ++ question :: query) :
    ∃ behind, front = percent :: high :: low :: behind ∧ rest = behind ++ question :: query := by
  rw [beginsEscape, Bool.and_eq_true] at digits
  rcases cons_eq_append_mark (by decide) equal with ⟨first, front_eq, equal⟩
  rcases cons_eq_append_mark (spellingByte_spec high (.inl digits.1)).2.1 equal with
    ⟨second, first_eq, equal⟩
  rcases cons_eq_append_mark (spellingByte_spec low (.inl digits.2)).2.1 equal with
    ⟨third, second_eq, equal⟩
  exact ⟨third, by rw [front_eq, first_eq, second_eq], equal⟩

lemma beginsEscape_append (begins : beginsEscape front) (back : Bytes) :
    beginsEscape (front ++ back) := by
  match front, begins with
  | high :: low :: rest, begins => exact begins

lemma not_beginsEscape_of_append (noEscape : beginsEscape (front ++ back) = false) :
    beginsEscape front = false := by
  rw [Bool.eq_false_iff] at noEscape ⊢
  exact fun begins => noEscape (beginsEscape_append begins back)

lemma append_mark (respelled : Respelled left right) (equal : left = front ++ question :: query) :
    ∃ otherFront otherQuery, right = otherFront ++ question :: otherQuery ∧
      Respelled front otherFront ∧ Respelled query otherQuery := by
  induction respelled generalizing front query with
  | nil => exact absurd equal.symm (by simp)
  | @plain byte left right notPercent rest induction =>
    cases front with
    | nil =>
      rcases List.cons.inj equal with ⟨rfl, rfl⟩
      exact ⟨[], right, rfl, .nil, rest⟩
    | cons first front =>
      rcases List.cons.inj equal with ⟨same, rest_eq⟩
      subst same
      rcases induction rest_eq with ⟨otherFront, otherQuery, right_eq, fronts, queries⟩
      exact ⟨byte :: otherFront, otherQuery, by rw [right_eq, cons_append],
        .plain notPercent fronts, queries⟩
  | @literal high low left right digits unreserved rest induction =>
    rcases cons_eq_append_mark
      (spellingByte_spec _ (.inr (.inl unreserved))).2.1 equal with ⟨behind, front_eq, rest_eq⟩
    subst front_eq
    rcases induction rest_eq with ⟨otherFront, otherQuery, right_eq, fronts, queries⟩
    exact ⟨percent :: high :: low :: otherFront, otherQuery, by simp [right_eq],
      .literal digits unreserved fronts, queries⟩
  | @escaped high low left right digits unreserved rest induction =>
    rcases escape_eq_append_mark digits equal with ⟨behind, front_eq, rest_eq⟩
    subst front_eq
    rcases induction rest_eq with ⟨otherFront, otherQuery, right_eq, fronts, queries⟩
    exact ⟨hexPairValue high low :: otherFront, otherQuery, by simp [right_eq],
      .escaped digits unreserved fronts, queries⟩
  | @escape high low otherHigh otherLow left right digits otherDigits sameHigh sameLow rest
      induction =>
    rcases escape_eq_append_mark digits equal with ⟨behind, front_eq, rest_eq⟩
    subst front_eq
    rcases induction rest_eq with ⟨otherFront, otherQuery, right_eq, fronts, queries⟩
    exact ⟨percent :: otherHigh :: otherLow :: otherFront, otherQuery, by simp [right_eq],
      .escape digits otherDigits sameHigh sameLow fronts, queries⟩
  | stray noEscape noOtherEscape rest induction =>
    rcases cons_eq_append_mark (by decide) equal with ⟨behind, front_eq, rest_eq⟩
    subst front_eq
    rcases induction rest_eq with ⟨otherFront, otherQuery, right_eq, fronts, queries⟩
    rw [rest_eq] at noEscape
    rw [right_eq] at noOtherEscape
    exact ⟨percent :: otherFront, otherQuery, by rw [right_eq, cons_append],
      .stray (not_beginsEscape_of_append noEscape) (not_beginsEscape_of_append noOtherEscape)
        fronts, queries⟩

/-! ## The path -/

lemma rooted (respelled : Respelled (slash :: rest) right) :
    ∃ otherRest, right = slash :: otherRest := by
  generalize equal : slash :: rest = left at respelled
  cases respelled with
  | nil => cases equal
  | plain => exact ⟨_, by rw [(List.cons.inj equal).1]⟩
  | literal digits unreserved =>
    exact absurd (List.cons.inj equal).1.symm
      (spellingByte_spec _ (.inr (.inl unreserved))).2.2.1
  | escaped | escape | stray => exact absurd (List.cons.inj equal).1 (by decide)

lemma validatePathSyntax_stray (noEscape : beginsEscape rest = false) :
    validatePathSyntax (percent :: rest) ≠ .ok () := by
  rw [validatePathSyntax.eq_def]
  rcases rest with _ | ⟨high, _ | ⟨low, rest⟩⟩
  · simp
  · simp
  · rw [beginsEscape] at noEscape
    simp [noEscape]

lemma isPathByteOk_of_validatePathSyntax (plain : byte ≠ percent)
    (valid : validatePathSyntax (byte :: rest) = .ok ()) : isPathByteOk byte := by
  by_contra bad
  rw [validatePathSyntax.eq_def] at valid
  simp only [if_neg plain, if_neg bad] at valid
  cases valid

lemma unreserved_spec (digits : beginsEscape [high, low])
    (unreserved : isUnreservedMinusDot (hexPairValue high low)) (left right : Bytes) :
    validatePathSyntax (hexPairValue high low :: left) = validatePathSyntax left ∧
    validatePathSyntax (percent :: high :: low :: right) = validatePathSyntax right ∧
    decodePath (hexPairValue high low :: left) = (do
      let decoded ← decodePath left
      .ok (hexPairValue high low :: decoded)) ∧
    decodePath (percent :: high :: low :: right) = (do
      let decoded ← decodePath right
      .ok (hexPairValue high low :: decoded)) := by
  rcases (pathByte_spec _).1 unreserved with ⟨ok, plain, _⟩
  refine ⟨validatePathSyntax_plain plain ok, validatePathSyntax_escape digits,
    decodePath_plain plain, ?_⟩
  rw [decodePath_escape ((pathByte_spec _).2 ok).1]
  simp only [if_pos unreserved]

lemma decodePath_eq (respelled : Respelled left right) (valid : validatePathSyntax left = .ok ()) :
    validatePathSyntax right = .ok () ∧ decodePath right = decodePath left := by
  induction respelled with
  | nil => exact ⟨rfl, rfl⟩
  | plain notPercent _ induction =>
    have ok := isPathByteOk_of_validatePathSyntax notPercent valid
    rw [validatePathSyntax_plain notPercent ok] at valid ⊢
    rcases induction valid with ⟨otherValid, same⟩
    rw [decodePath_plain notPercent, decodePath_plain notPercent, same]
    exact ⟨otherValid, rfl⟩
  | @literal high low left right digits unreserved _ induction =>
    rcases unreserved_spec digits unreserved left right with
      ⟨leftValid, rightValid, leftDecodes, rightDecodes⟩
    rw [leftValid] at valid
    rcases induction valid with ⟨otherValid, same⟩
    rw [rightValid, leftDecodes, rightDecodes, same]
    exact ⟨otherValid, rfl⟩
  | @escaped high low left right digits unreserved _ induction =>
    rcases unreserved_spec digits unreserved right left with
      ⟨rightValid, leftValid, rightDecodes, leftDecodes⟩
    rw [leftValid] at valid
    rcases induction valid with ⟨otherValid, same⟩
    rw [rightValid, leftDecodes, rightDecodes, same]
    exact ⟨otherValid, rfl⟩
  | @escape high low otherHigh otherLow left right digits otherDigits sameHigh sameLow _
      induction =>
      rw [validatePathSyntax_escape digits] at valid
      rcases induction valid with ⟨otherValid, same⟩
      have value : hexPairValue otherHigh otherLow = hexPairValue high low := by
        rw [← hexPairValue_toAsciiUppercase, ← sameHigh, ← sameLow, hexPairValue_toAsciiUppercase]
      refine ⟨(validatePathSyntax_escape otherDigits).trans otherValid, ?_⟩
      by_cases zero : hexPairValue high low = 0
      · rw [decodePath_nul zero, decodePath_nul (value.trans zero)]
      · rw [decodePath_escape zero, decodePath_escape (fun other => zero (value.symm.trans other)),
          value, sameHigh, sameLow, same]
  | stray noEscape _ _ _ => exact absurd valid (validatePathSyntax_stray noEscape)

lemma normalizePath_eq_ok (respelled : Respelled left right)
    (gave : normalizePath policy left = .ok path) : normalizePath policy right = .ok path := by
  unfold normalizePath at gave ⊢
  rcases bind_eq_ok_iff.mp gave with ⟨_, valid, gave⟩
  rcases respelled.decodePath_eq valid with ⟨otherValid, same⟩
  rw [otherValid, same]
  exact gave

end Respelled

/-! ## The pipeline -/

variable {policy : PathPolicy} {limits : ClampedLimits}

lemma parseInto_eq_ok_of_respelled {left right : Bytes} {query}
    (respelled : Respelled left right) (short : right.length ≤ limits.maxPathBytes)
    (accepted : parseInto left policy limits = .ok (path, query)) :
    ∃ otherQuery, parseInto right policy limits = .ok (path, otherQuery) := by
  rcases exists_withQuery left with ⟨rawPath, rawQuery, free, equal⟩
  have split : ∃ otherPath otherQuery, right = withQuery otherPath otherQuery ∧
      Respelled rawPath otherPath ∧
      ((∀ bytes ∈ rawQuery, ∀ byte ∈ bytes, queryByteOk byte) →
        ∀ bytes ∈ otherQuery, ∀ byte ∈ bytes, queryByteOk byte) := by
    cases rawQuery with
    | none =>
      subst equal
      exact ⟨right, none, rfl, respelled, fun _ => nofun⟩
    | some query =>
      rcases respelled.append_mark equal with ⟨otherPath, otherQuery, right_eq, paths, queries⟩
      refine ⟨otherPath, some otherQuery, right_eq, paths, fun holds => ?_⟩
      simp only [Option.mem_def, Option.some.injEq, forall_eq'] at holds ⊢
      exact queries.forall_queryByteOk holds
  rcases split with ⟨otherPath, otherQuery, right_eq, paths, queries⟩
  rw [equal] at accepted
  rcases (parseInto_eq_ok_iff free).mp accepted with
    ⟨_, noHash, queryOk, ⟨rest, rooted⟩, normalizes, _⟩
  rw [← equal] at noHash
  have otherHash := respelled.not_mem (by decide) noHash
  have otherFree := paths.not_mem (by decide) free
  have otherNormalizes := paths.normalizePath_eq_ok normalizes
  rw [right_eq] at short otherHash ⊢
  rw [rooted] at paths
  exact ⟨otherQuery, (parseInto_eq_ok_iff otherFree).mpr
    ⟨short, otherHash, queries queryOk, paths.rooted, otherNormalizes, rfl⟩⟩

/-- Spellings of a target within the limits are all rejected, or all accepted with the
same path. -/
theorem parseInto_respelled {left right : Bytes} (respelled : Respelled left right)
    (policy : PathPolicy) (limits : ClampedLimits)
    (short : left.length ≤ limits.maxPathBytes) (otherShort : right.length ≤ limits.maxPathBytes) :
    (∃ reason otherReason, parseInto left policy limits = .error reason ∧
      parseInto right policy limits = .error otherReason) ∨
    ∃ path query otherQuery, parseInto left policy limits = .ok (path, query) ∧
      parseInto right policy limits = .ok (path, otherQuery) := by
  cases first : parseInto left policy limits with
  | ok accepted =>
    rcases accepted with ⟨path, query⟩
    rcases parseInto_eq_ok_of_respelled respelled otherShort first with ⟨otherQuery, second⟩
    exact .inr ⟨path, query, otherQuery, rfl, second⟩
  | error reason =>
    cases second : parseInto right policy limits with
    | error otherReason => exact .inl ⟨reason, otherReason, rfl, rfl⟩
    | ok accepted =>
      rcases accepted with ⟨path, query⟩
      rcases parseInto_eq_ok_of_respelled respelled.symm short second with ⟨_, same⟩
      rw [first] at same
      cases same

theorem lowercaseEscapes_respelled :
    ∃ path query otherQuery,
      parseInto (ascii "/%41%c3?%7e") .default Limits.default.clamped = .ok (path, query) ∧
      parseInto (ascii "/A%C3?~") .default Limits.default.clamped = .ok (path, otherQuery) := by
  have respelled : Respelled (ascii "/%41%c3?%7e") (ascii "/A%C3?~") := by
    apply Respelled.plain (by decide)
    apply @Respelled.escaped 52 49 _ _ (by decide) (by decide)
    apply Respelled.escape (by decide) (by decide) (by decide) (by decide)
    apply Respelled.plain (by decide)
    apply @Respelled.escaped 55 101 _ _ (by decide) (by decide)
    exact Respelled.nil
  rcases parseInto_respelled respelled .default Limits.default.clamped (by decide) (by decide) with
    ⟨reason, _, rejected, _⟩ | accepted
  · have accepts : parseInto (ascii "/%41%c3?%7e") .default Limits.default.clamped =
        .ok (ascii "/A%C3", some (ascii "%7e")) := by decide +kernel
    rw [accepts] at rejected
    cases rejected
  · exact accepted

end IronTraffic.Http
