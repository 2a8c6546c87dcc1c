import IronTraffic.Policy.Weight

/-! # Well-typed expressions evaluate, unless they meet null

The type rules let null stand in for any scalar. A well-typed expression
evaluates to a value of its type or to null; it gets stuck exactly when an
operator that is strict in an operand is applied to null.
-/

namespace IronTraffic.Policy

open World

open List

def AttrSource.Declared (source : AttrSource) : Prop :=
  ∀ attr, (source.scalar attr).ty = attr.ty

def Meaning.OfType (meaning : Meaning) : Ty → Prop
  | .list => ∃ elems, meaning = .list elems
  | .map => True
  | .bool => ∃ value, meaning = .scalar value ∧ (value.ty = .bool ∨ value = .null)
  | .int => ∃ value, meaning = .scalar value ∧ (value.ty = .int ∨ value = .null)
  | .str => ∃ value, meaning = .scalar value ∧ (value.ty = .str ∨ value = .null)
  | .null => ∃ value, meaning = .scalar value ∧ (value.ty = .null ∨ value = .null)

variable {ty : Ty} {meaning : Meaning} {world : World} {expr : Expr} {elems : List Expr}

namespace Meaning.OfType

lemma of_scalar {value : Value} (isScalar : ty ≠ .map ∧ ty ≠ .list)
    (typed : value.ty = ty ∨ value = .null) : Meaning.OfType (.scalar value) ty := by
  cases ty with
  | map => exact absurd rfl isScalar.1
  | list => exact absurd rfl isScalar.2
  | bool | int | str | null => exact ⟨value, rfl, typed⟩

lemma scalar (ofType : meaning.OfType ty) (isScalar : ty ≠ .map ∧ ty ≠ .list) :
    ∃ value, meaning = .scalar value ∧ (value.ty = ty ∨ value = .null) := by
  cases ty with
  | map => exact absurd rfl isScalar.1
  | list => exact absurd rfl isScalar.2
  | bool | int | str | null => exact ofType

lemma chars (ofType : meaning.OfType ty) (textual : ty = .str ∨ ty = .null) :
    ∃ bytes, meaning.chars = some bytes := by
  have isScalar : ty ≠ .map ∧ ty ≠ .list := by
    rcases textual with equal | equal <;> simp [equal]
  rcases ofType.scalar isScalar with ⟨value, rfl, typed⟩
  cases value with
  | str bytes => exact ⟨some bytes, rfl⟩
  | null => exact ⟨none, rfl⟩
  | bool | int =>
    rcases typed with isTy | isNull
    · rcases textual with equal | equal
      all_goals
        rw [equal] at isTy
        cases isTy
    · cases isNull

lemma unified (ofType : meaning.OfType branch)
    (same : branch = ty ∨ (branch = .null ∧ ty.nullable)) : meaning.OfType ty := by
  rcases same with equal | ⟨isNull, nullable⟩
  · subst ty
    exact ofType
  subst branch
  rcases ofType with ⟨value, rfl, typed⟩
  have null : value = .null := by
    rcases typed with nullTy | null
    · cases value <;> first | rfl | cases nullTy
    · exact null
  exact of_scalar (Ty.nullable_scalar nullable) (.inr null)

end Meaning.OfType

section

variable (evaluates : evaluate world expr = some meaning)

include evaluates

lemma World.typed_of_not_null (ofType : meaning.OfType ty) (isScalar : ty ≠ .map ∧ ty ≠ .list)
    (notNull : world.isNull expr = false) : ∃ value, meaning = .scalar value ∧ value.ty = ty := by
  rcases ofType.scalar isScalar with ⟨value, rfl, typed | rfl⟩
  · exact ⟨value, rfl, typed⟩
  · simp [isNull, evaluates] at notNull

lemma World.truth_of_not_null (ofType : meaning.OfType .bool)
    (notNull : world.isNull expr = false) : ∃ flag, world.decides expr = some flag := by
  rcases typed_of_not_null evaluates ofType (by simp) notNull with ⟨value, rfl, typed⟩
  cases value with
  | bool flag => exact ⟨flag, decides_eq_some.mpr evaluates⟩
  | null | int | str => cases typed

lemma World.number_of_not_null (ofType : meaning.OfType .int)
    (notNull : world.isNull expr = false) : ∃ number, meaning.number = some number := by
  rcases typed_of_not_null evaluates ofType (by simp) notNull with ⟨value, rfl, typed⟩
  cases value with
  | int number => exact ⟨number, rfl⟩
  | null | bool | str => cases typed

lemma World.size_of_not_null (ofType : meaning.OfType ty) (sized : ty = .str ∨ ty = .list)
    (notNull : world.isNull expr = false) : ∃ number, meaning.size = some (.int number) := by
  rcases sized with rfl | rfl
  · rcases typed_of_not_null evaluates ofType (by simp) notNull with ⟨value, rfl, typed⟩
    cases value with
    | str bytes => exact ⟨_, rfl⟩
    | null | bool | int => cases typed
  · rcases ofType with ⟨elems, rfl⟩
    exact ⟨_, rfl⟩

end

section Progress

lemma Unifies.branches (unifies : Unifies thenTy elseTy ty) :
    (thenTy = ty ∨ thenTy = .null ∧ ty.nullable) ∧
      (elseTy = ty ∨ elseTy = .null ∧ ty.nullable) := by
  rcases unifies with ⟨rfl, rfl⟩ | ⟨rfl, nullable, rfl⟩ | ⟨rfl, nullable, rfl⟩
  · exact ⟨.inl rfl, .inl rfl⟩
  · exact ⟨.inr ⟨rfl, nullable⟩, .inl rfl⟩
  · exact ⟨.inl rfl, .inr ⟨rfl, nullable⟩⟩

private lemma ne_map_of_branch (same : branch = ty ∨ branch = .null ∧ ty.nullable)
    (notMap : ty ≠ .map) : branch ≠ .map := by
  rcases same with rfl | ⟨rfl, _⟩
  · exact notMap
  · simp

private lemma evaluateAll_of_each
    (each : ∀ elem ∈ elems, ∃ value, evaluate world elem = some (.scalar value)) :
    ∃ values, evaluateAll world elems = some values := by
  induction elems with
  | nil => exact ⟨[], rfl⟩
  | cons elem rest induction =>
    rcases each elem mem_cons_self with ⟨value, evaluates⟩
    rcases induction fun other mem => each other (mem_cons_of_mem elem mem) with
      ⟨values, all⟩
    refine ⟨value :: values, ?_⟩
    rw [evaluateAll, evaluates, all]
    rfl

lemma World.eq_null (isNull : world.isNull expr) : evaluate world expr = some (.scalar .null) := by
  simpa [World.isNull] using isNull

private lemma evaluateAll_of_meetsNull
    (each : ∀ elem ∈ elems, elem.meets world.decides world.strictOnNull →
      evaluate world elem = none) (meets : Expr.meetsAny world.decides world.strictOnNull elems) :
    evaluateAll world elems = none := by
  induction elems with
  | nil => cases meets
  | cons elem rest induction =>
    rw [Expr.meetsAny, Bool.or_eq_true] at meets
    rw [evaluateAll]
    rcases meets with here | later
    · rw [each elem mem_cons_self here]
      rfl
    · rw [induction (fun other mem => each other (mem_cons_of_mem elem mem)) later]
      cases evaluate world elem with
      | none => rfl
      | some meaning => cases meaning <;> rfl

lemma evaluates_of_typed (declared : world.attrs.Declared) (typed : HasType world.text expr ty)
    (notMap : ty ≠ .map) (clean : expr.meets world.decides world.strictOnNull = false) :
    ∃ meaning, evaluate world expr = some meaning ∧ meaning.OfType ty := by
  induction typed with
  | literal constant =>
    refine ⟨_, evaluate.eq_1 .., .of_scalar ?_ (.inl (constant.ty_value _))⟩
    cases constant <;> simp [Literal.ty]
  | ident | map => exact absurd rfl notMap
  | @scalar base name attr _ resolved =>
    refine ⟨.scalar (world.attrs.scalar attr), ?_, .of_scalar ⟨notMap, ?_⟩ (.inl (declared attr))⟩
    · rw [evaluate, resolved]
      rfl
    · rcases attr.ty_scalar with equal | equal | equal <;> simp [equal]
  | @index base ty map key _ resolved =>
    refine ⟨.scalar (world.lookup map key), ?_, .of_scalar (by simp) ?_⟩
    · simp only [evaluate, index, resolved, Option.map_some]
    · unfold World.lookup
      dsimp only
      split
      · exact .inl rfl
      · exact .inr rfl
      · exact .inr rfl
  | @size base ty _ sized induction =>
    rw [Expr.meets, Bool.or_eq_false_iff] at clean
    rcases induction (by rcases sized with equal | equal <;> simp [equal]) clean.1 with
      ⟨operand, evaluates, ofType⟩
    rcases size_of_not_null evaluates ofType sized clean.2 with ⟨number, measured⟩
    refine ⟨.scalar (.int number), ?_, .of_scalar (by simp) (.inl rfl)⟩
    rw [evaluate, evaluates, Option.bind_eq_bind, Option.bind_some, measured]
    rfl
  | @test method base arg ty _ textual _ _ baseInduction argInduction =>
    rw [Expr.meets, Bool.or_eq_false_iff, Bool.or_eq_false_iff] at clean
    rcases baseInduction (by rcases textual with equal | equal <;> simp [equal]) clean.1.1 with
      ⟨left, leftEvaluates, leftOf⟩
    rcases argInduction (by simp) clean.1.2 with ⟨right, rightEvaluates, rightOf⟩
    rcases leftOf.chars textual with ⟨subject, leftChars⟩
    rcases rightOf.chars (.inl rfl) with ⟨argument, rightChars⟩
    refine ⟨.scalar (.bool (testStrings (method.holds world.engine) subject argument)), ?_,
      .of_scalar (by simp) (.inl rfl)⟩
    simp only [evaluate, leftEvaluates, rightEvaluates, Method.apply, leftChars, rightChars,
        Option.bind_eq_bind, Option.bind_some, Option.map_some]
  | @not inner _ induction =>
    rw [Expr.meets, Bool.or_eq_false_iff] at clean
    rcases induction (by simp) clean.1 with ⟨operand, evaluates, ofType⟩
    rcases truth_of_not_null evaluates ofType clean.2 with ⟨flag, decided⟩
    refine ⟨.scalar (.bool !flag), ?_, .of_scalar (by simp) (.inl rfl)⟩
    rw [evaluate, decides_eq_some.mp decided]
    rfl
  | @equality op lhs rhs left right isEquality _ _ comparable leftInduction rightInduction =>
    rw [Expr.meets, Bool.or_eq_false_iff, Bool.or_eq_false_iff] at clean
    have scalars := equatable_scalar comparable
    rcases leftInduction scalars.1.1 clean.1.1 with ⟨left, leftEvaluates, leftOf⟩
    rcases rightInduction scalars.2.1 clean.1.2 with ⟨right, rightEvaluates, rightOf⟩
    rcases leftOf.scalar scalars.1 with ⟨leftValue, rfl, _⟩
    rcases rightOf.scalar scalars.2 with ⟨rightValue, rfl, _⟩
    rw [evaluate, leftEvaluates, rightEvaluates]
    rcases isEquality with equal | equal
    all_goals
      subst op
      exact ⟨_, rfl, .of_scalar (by simp) (.inl rfl)⟩
  | @ordering op lhs rhs isOrdering _ _ leftInduction rightInduction =>
    rw [Expr.meets, Bool.or_eq_false_iff, Bool.or_eq_false_iff] at clean
    have notNull : world.isNull lhs = false ∧ world.isNull rhs = false := by
      simpa [strictOnNull, isOrdering] using clean.2
    rcases leftInduction (by simp) clean.1.1 with ⟨left, leftEvaluates, leftOf⟩
    rcases rightInduction (by simp) clean.1.2 with ⟨right, rightEvaluates, rightOf⟩
    rcases number_of_not_null leftEvaluates leftOf notNull.1 with ⟨first, leftNumber⟩
    rcases number_of_not_null rightEvaluates rightOf notNull.2 with ⟨second, rightNumber⟩
    refine ⟨.scalar (.bool (op.orders first second)), ?_, .of_scalar (by simp) (.inl rfl)⟩
    rw [evaluate, leftEvaluates, rightEvaluates, Option.bind_eq_bind, Option.bind_some,
      Option.bind_some, BinOp.apply_ordering isOrdering, leftNumber, rightNumber]
    rfl
  | @member lhs elems ty _ isScalar _ leftInduction listInduction =>
    rw [Expr.meets, Bool.or_eq_false_iff, Bool.or_eq_false_iff] at clean
    rcases leftInduction isScalar.1 clean.1.1 with ⟨left, leftEvaluates, leftOf⟩
    rcases listInduction (by simp) clean.1.2 with ⟨right, rightEvaluates, values, equal⟩
    subst right
    rcases leftOf.scalar isScalar with ⟨value, rfl, _⟩
    rw [evaluate, leftEvaluates, rightEvaluates]
    exact ⟨_, rfl, .of_scalar (by simp) (.inl rfl)⟩
  | @junction stop lhs rhs _ _ leftInduction rightInduction =>
    simp only [Expr.meets, Bool.or_eq_false_iff] at clean
    rcases leftInduction (by simp) clean.1.1 with ⟨left, leftEvaluates, leftOf⟩
    rcases truth_of_not_null leftEvaluates leftOf clean.1.2 with ⟨flag, decided⟩
    rw [evaluate_junction, decided, Option.bind_some]
    split
    · exact ⟨_, rfl, .of_scalar (by simp) (.inl rfl)⟩
    · rename_i goesOn
      exact rightInduction (by simp) (by simpa [decided, goesOn] using clean.2)
  | @ternary cond thenExpr elseExpr thenTy elseTy ty _ _ _ unifies condInduction thenInduction
      elseInduction =>
      simp only [Expr.meets, Bool.or_eq_false_iff] at clean
      rcases condInduction (by simp) clean.1.1.1 with ⟨condMeaning, condEvaluates, condOf⟩
      rcases truth_of_not_null condEvaluates condOf clean.1.1.2 with ⟨flag, decided⟩
      rw [evaluate_ternary, decided, Option.bind_some]
      rcases unifies.branches with ⟨sameThen, sameElse⟩
      cases flag with
      | true =>
        rcases thenInduction (ne_map_of_branch sameThen notMap) (by simpa [decided] using clean.1.2)
          with ⟨meaning, evaluates, ofType⟩
        exact ⟨meaning, evaluates, ofType.unified sameThen⟩
      | false =>
        rcases elseInduction (ne_map_of_branch sameElse notMap) (by simpa [decided] using clean.2)
          with ⟨meaning, evaluates, ofType⟩
        exact ⟨meaning, evaluates, ofType.unified sameElse⟩
  | @list elems ty isScalar _ each =>
    rw [Expr.meets, Bool.or_eq_false_iff] at clean
    have scalars := Ty.nullable_scalar isScalar
    have all : ∃ values, evaluateAll world elems = some values := by
      apply evaluateAll_of_each
      intro elem mem
      rcases each elem mem scalars.1 (Expr.meets_elem clean.1 mem) with
        ⟨meaning, evaluates, ofType⟩
      rcases ofType.scalar scalars with ⟨value, rfl, _⟩
      exact ⟨value, evaluates⟩
    rcases all with ⟨values, all⟩
    refine ⟨.list values, ?_, values, rfl⟩
    rw [evaluate, all]
    rfl

lemma evaluate_of_meetsNull (expr : Expr)
    (meets : expr.meets world.decides world.strictOnNull) : evaluate world expr = none := by
  induction expr with
  | literal | ident | field | index =>
    simp [Expr.meets, strictOnNull] at meets
  | size base induction | not inner induction =>
    rw [Expr.meets, Bool.or_eq_true] at meets
    rw [evaluate]
    rcases meets with inner | isNull
    · rw [induction inner]
      rfl
    · rw [eq_null isNull]
      rfl
  | test method base arg baseInduction argInduction =>
    simp only [Expr.meets, strictOnNull, Bool.or_false, Bool.or_eq_true] at meets
    rw [evaluate]
    rcases meets with left | right
    · rw [baseInduction left]
      rfl
    · rw [argInduction right]
      cases evaluate world base <;> rfl
  | bin op lhs rhs leftInduction rightInduction =>
    simp only [Expr.meets, strictOnNull, Bool.or_eq_true, Bool.and_eq_true] at meets
    rw [evaluate]
    rcases meets with (left | right) | ⟨isOrdering, leftNull | rightNull⟩
    · rw [leftInduction left]
      rfl
    · rw [rightInduction right]
      cases evaluate world lhs <;> rfl
    · rw [eq_null leftNull]
      cases evaluate world rhs with
      | none => rfl
      | some right =>
        rw [Option.bind_eq_bind, Option.bind_some, Option.bind_some,
          BinOp.apply_ordering isOrdering]
        rfl
    · rw [eq_null rightNull]
      cases evaluate world lhs with
      | none => rfl
      | some left =>
        rw [Option.bind_eq_bind, Option.bind_some, Option.bind_some,
          BinOp.apply_ordering isOrdering]
        cases left.number <;> rfl
  | junction stop lhs rhs leftInduction rightInduction =>
    simp only [Expr.meets, strictOnNull, Bool.or_eq_true, Bool.and_eq_true] at meets
    rw [evaluate_junction]
    rcases meets with (left | leftNull) | ⟨goesOn, right⟩
    · rw [decides, leftInduction left]
      rfl
    · rw [decides, eq_null leftNull]
      rfl
    · rw [rightInduction right]
      cases decided : world.decides lhs with
      | none => rfl
      | some flag =>
        rw [Option.bind_some, if_neg (by simpa [decided] using goesOn)]
  | ternary cond thenExpr elseExpr condInduction thenInduction elseInduction =>
    simp only [Expr.meets, strictOnNull, Bool.or_eq_true, Bool.and_eq_true] at meets
    rw [evaluate_ternary]
    rcases meets with ((inner | condNull) | ⟨taken, inThen⟩) | ⟨skipped, inElse⟩
    · rw [decides, condInduction inner]
      rfl
    · rw [decides, eq_null condNull]
      rfl
    · rw [thenInduction inThen]
      cases decided : world.decides cond with
      | none => rfl
      | some flag =>
        cases flag with
        | true => rfl
        | false => simp [decided] at taken
    · rw [elseInduction inElse]
      cases decided : world.decides cond with
      | none => rfl
      | some flag =>
        cases flag with
        | true => simp [decided] at skipped
        | false => rfl
  | list elems each =>
    simp only [Expr.meets, strictOnNull, Bool.or_false] at meets
    rw [evaluate, evaluateAll_of_meetsNull each meets]
    rfl

end Progress

end IronTraffic.Policy
