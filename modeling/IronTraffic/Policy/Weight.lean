import IronTraffic.Policy.Simulation
import IronTraffic.Policy.Typing

/-! # Verified code is tight

A verified program leaves one operand behind. An expression that evaluates to a
scalar leaves at least one behind, unless it takes the size of a choice between
lists. So the code of an expression that leaves exactly one is tight all the way
down.
-/

namespace IronTraffic.Policy

open List Option

def ScalarWeight (text : Bytes) (expr : Expr) (tight : Prop) : Prop :=
  1 ≤ expr.net text ∧ (expr.net text = 1 → tight)

def ListWeight (text : Bytes) (expr : Expr) : Prop :=
  0 ≤ expr.net text ∧ (expr.net text = 0 → expr.elems.all Expr.isLiteral)

/-! ## Expressions that evaluate -/

def Weighed (world : World) (expr : Expr) : Meaning → Prop
  | .scalar _ => ScalarWeight world.text expr (Tight world expr)
  | .list _ => ListWeight world.text expr

variable {world : World} {expr : Expr} {left right : Meaning} {value : Value} {op : BinOp}
  {text : Bytes} {elems : List Expr} {ty : Ty}

lemma isListValued_of_evaluates {elems}
    (evaluates : evaluate world expr = some (.list elems)) : expr.isListValued := by
  induction expr with
  | list => rfl
  | junction stop lhs rhs _ induction =>
    rw [evaluate_junction, bind_eq_some_iff] at evaluates
    rcases evaluates with ⟨flag, _, chosen⟩
    split at chosen
    · cases chosen
    · exact induction chosen
  | ternary cond thenExpr elseExpr _ thenInduction elseInduction =>
    rw [evaluate_ternary, bind_eq_some_iff] at evaluates
    rcases evaluates with ⟨flag, _, chosen⟩
    rw [Expr.isListValued, Bool.or_eq_true]
    split at chosen
    · exact .inl (thenInduction chosen)
    · exact .inr (elseInduction chosen)
  | literal | ident => simp [evaluate] at evaluates
  | field | index | size | test | not | bin =>
    rw [evaluate] at evaluates
    simp only [bind_eq_bind, bind_eq_some_iff, map_eq_some_iff,
      reduceCtorEq, and_false, exists_false] at evaluates

lemma Method.apply_scalars {method : Method}
    (applied : method.apply engine left right = some value) :
    ∃ subject argument, left = .scalar subject ∧ right = .scalar argument := by
  cases left with
  | list => cases applied
  | scalar subject =>
    cases right with
    | list => cases subject <;> cases applied
    | scalar argument => exact ⟨subject, argument, rfl, rfl⟩

lemma BinOp.apply_operands (applied : op.apply left right = some value) :
    ∃ operand, left = .scalar operand ∧ ((op = .isIn ∧ ∃ elems, right = .list elems) ∨
        (op ≠ .isIn ∧ ∃ argument, right = .scalar argument)) := by
  cases left with
  | list => cases op <;> cases applied
  | scalar operand =>
    refine ⟨operand, rfl, ?_⟩
    cases right with
    | scalar argument =>
      right
      refine ⟨?_, argument, rfl⟩
      intro isIn
      subst op
      cases applied
    | list elems =>
      left
      refine ⟨?_, elems, rfl⟩
      cases op with
      | isIn => rfl
      | eq | ne => cases applied
      | lt | le | gt | ge => cases operand <;> cases applied

lemma nets_weight (each : ∀ elem ∈ elems, elem.isLiteral = false → 1 ≤ elem.net text) :
    0 ≤ Expr.nets text elems ∧ (Expr.nets text elems = 0 → elems.all Expr.isLiteral) := by
  induction elems with
  | nil => exact ⟨le_refl _, fun _ => rfl⟩
  | cons elem rest induction =>
    have onward := induction fun other mem => each other (mem_cons_of_mem elem mem)
    rw [Expr.nets, all_cons]
    cases literal : elem.isLiteral with
    | true => simpa using onward
    | false =>
      have positive := each elem mem_cons_self literal
      simp only [Bool.false_eq_true, if_false]
      omega

lemma Expr.BalancedAll.elem (balanced : Expr.BalancedAll text elems) {elem : Expr}
    (mem : elem ∈ elems) (notLiteral : elem.isLiteral = false) : elem.Balanced text := by
  induction elems with
  | nil => cases mem
  | cons first rest induction =>
    rcases mem_cons.mp mem with equal | later
    · subst first
      exact balanced.1.resolve_left (by simp [notLiteral])
    · exact induction balanced.2 later

lemma Expr.meets_elem (clean : Expr.meetsAny decides fault elems = false) {elem : Expr}
    (mem : elem ∈ elems) : elem.meets decides fault = false := by
  induction elems with
  | nil => cases mem
  | cons first rest induction =>
    rw [Expr.meetsAny, Bool.or_eq_false_iff] at clean
    rcases mem_cons.mp mem with equal | later
    · subst first
      exact clean.1
    · exact induction clean.2 later

lemma evaluateAll_elem (evaluates : evaluateAll world elems = some values) {elem : Expr}
    (mem : elem ∈ elems) : ∃ value, evaluate world elem = some (.scalar value) := by
  induction elems generalizing values with
  | nil => cases mem
  | cons first rest induction =>
    rw [evaluateAll] at evaluates
    simp only [bind_eq_bind, bind_eq_some_iff] at evaluates
    rcases evaluates with ⟨meaning, evaluates, value, isScalar, later, restEvaluates, _⟩
    rcases mem_cons.mp mem with equal | inRest
    · subst first
      cases meaning with
      | list => cases isScalar
      | scalar other => exact ⟨other, evaluates⟩
    · exact induction restEvaluates inRest

lemma bin_weight (notIn : op ≠ .isIn) (left : ScalarWeight world.text lhs (Tight world lhs))
    (right : ScalarWeight world.text rhs (Tight world rhs)) :
    ScalarWeight world.text (.bin op lhs rhs) (Tight world (.bin op lhs rhs)) := by
  have leftPositive := left.1
  have rightPositive := right.1
  rw [ScalarWeight, Expr.net, Tight, if_neg notIn, if_neg notIn]
  exact ⟨by omega, fun one => ⟨left.2 (by omega), right.2 (by omega)⟩⟩

lemma member_weight (left : ScalarWeight world.text lhs (Tight world lhs))
    (right : ListWeight world.text rhs) :
    ScalarWeight world.text (.bin .isIn lhs rhs) (Tight world (.bin .isIn lhs rhs)) := by
  have positive := left.1
  have nonneg := right.1
  rw [ScalarWeight, Expr.net, Tight, if_pos rfl, if_pos rfl]
  exact ⟨by omega, fun one => ⟨left.2 (by omega), right.2 (by omega)⟩⟩

lemma test_weight (left : ScalarWeight world.text base (Tight world base))
    (right : method ≠ .isMatch → ScalarWeight world.text arg (Tight world arg)) :
    ScalarWeight world.text (.test method base arg) (Tight world (.test method base arg)) := by
  rw [ScalarWeight, Expr.net, Tight]
  split
  case isTrue isMatch => exact ⟨left.1, fun one => ⟨left.2 one, .inl isMatch⟩⟩
  case isFalse other =>
    have basePositive := left.1
    have argPositive := (right other).1
    exact ⟨by omega, fun one => ⟨left.2 (by omega), .inr ((right other).2 (by omega))⟩⟩

lemma weighed_of_evaluates (world : World) (expr : Expr) (meaning)
    (balanced : expr.Balanced world.text)
    (clean : expr.meets world.decides Expr.sizesChoice = false)
    (evaluates : evaluate world expr = some meaning) : Weighed world expr meaning := by
  induction expr generalizing meaning with
  | literal constant =>
    cases evaluates
    exact ⟨le_refl _, fun _ => trivial⟩
  | ident name =>
    simp [evaluate] at evaluates
  | field base name =>
    rw [evaluate, map_eq_some_iff] at evaluates
    rcases evaluates with ⟨attr, named, rfl⟩
    refine ⟨?_, fun _ => ?_⟩
    · simp [Expr.net, named]
    · simp [Tight, named]
  | index base key =>
    rw [evaluate, map_eq_some_iff] at evaluates
    rcases evaluates with ⟨value, _, rfl⟩
    exact ⟨by simp [Expr.net], fun one => by simp [Expr.net] at one⟩
  | size base induction =>
    rw [Expr.meets, Bool.or_eq_false_iff] at clean
    simp only [evaluate, bind_eq_bind, bind_eq_some_iff, map_eq_some_iff] at evaluates
    rcases evaluates with ⟨operand, baseEvaluates, value, sized, rfl⟩
    have weighed := induction operand balanced clean.1 baseEvaluates
    cases operand with
    | scalar operand =>
      have notList : base.isList = false := by
        cases base with
        | list elems => simp [evaluate] at baseEvaluates
        | _ => rfl
      simpa [Weighed, ScalarWeight, Expr.net, Tight, notList] using weighed
    | list elems =>
      have listValued := isListValued_of_evaluates baseEvaluates
      have isList : base.isList := by
        simpa [Expr.sizesChoice, listValued] using clean.2
      rcases weighed with ⟨nonneg, literals⟩
      refine ⟨?_, ?_⟩
      · rw [Expr.net, if_pos isList]
        omega
      · intro one
        rw [Expr.net, if_pos isList] at one
        rw [Tight, if_pos isList]
        exact literals (by omega)
  | test method base arg baseInduction argInduction =>
    rw [Expr.meets, Bool.or_eq_false_iff, Bool.or_eq_false_iff] at clean
    simp only [evaluate, bind_eq_bind, bind_eq_some_iff, map_eq_some_iff] at evaluates
    rcases evaluates with ⟨left, leftEvaluates, right, rightEvaluates, value, applied, rfl⟩
    rcases Method.apply_scalars applied with ⟨subject, argument, rfl, rfl⟩
    exact test_weight (baseInduction _ balanced.1 clean.1.1 leftEvaluates) fun other =>
      argInduction _ (balanced.2.resolve_left other) clean.1.2 rightEvaluates
  | not inner induction =>
    rw [Expr.meets, Bool.or_eq_false_iff] at clean
    simp only [evaluate, bind_eq_bind, bind_eq_some_iff, map_eq_some_iff] at evaluates
    rcases evaluates with ⟨operand, innerEvaluates, value, negated, rfl⟩
    have weighed := induction operand balanced clean.1 innerEvaluates
    cases operand with
    | list => cases negated
    | scalar operand => exact weighed
  | bin op lhs rhs leftInduction rightInduction =>
    rw [Expr.meets, Bool.or_eq_false_iff, Bool.or_eq_false_iff] at clean
    simp only [evaluate, bind_eq_bind, bind_eq_some_iff, map_eq_some_iff] at evaluates
    rcases evaluates with ⟨left, leftEvaluates, right, rightEvaluates, value, applied, rfl⟩
    have leftWeighed := leftInduction _ balanced.1 clean.1.1 leftEvaluates
    have rightWeighed := rightInduction _ balanced.2 clean.1.2 rightEvaluates
    rcases BinOp.apply_operands applied with ⟨operand, rfl, rest⟩
    rcases rest with ⟨isIn, elems, rightList⟩ | ⟨other, argument, rightScalar⟩
    · subst op right
      exact member_weight leftWeighed rightWeighed
    · subst right
      exact bin_weight other leftWeighed rightWeighed
  | junction stop lhs rhs leftInduction rightInduction =>
    simp only [Expr.meets, Bool.or_eq_false_iff] at clean
    rw [evaluate_junction, bind_eq_some_iff] at evaluates
    rcases evaluates with ⟨flag, decided, chosen⟩
    have leftWeighed := leftInduction _ balanced.1 clean.1.1
      (World.decides_eq_some.mp decided)
    have leftPositive := leftWeighed.1
    cases meaning with
    | list elems =>
      rw [Weighed, ListWeight, Expr.net]
      exact ⟨by omega, fun zero => by omega⟩
    | scalar value =>
      refine ⟨leftPositive, fun one => ⟨leftWeighed.2 one, ?_⟩⟩
      intro goesOn
      rw [decided, some.injEq] at goesOn
      subst flag
      rw [if_neg (by simp)] at chosen
      have rightClean : rhs.meets world.decides Expr.sizesChoice = false := by
        simpa [decided] using clean.2
      exact (rightInduction _ balanced.2.1 rightClean chosen).2 balanced.2.2
  | ternary cond thenExpr elseExpr condInduction thenInduction elseInduction =>
    simp only [Expr.meets, Bool.or_eq_false_iff] at clean
    rw [evaluate_ternary, bind_eq_some_iff] at evaluates
    rcases evaluates with ⟨flag, decided, chosen⟩
    rcases balanced with ⟨condBalanced, thenBalanced, elseBalanced, same⟩
    have condWeighed := condInduction _ condBalanced clean.1.1.1
      (World.decides_eq_some.mp decided)
    have condPositive := condWeighed.1
    have branchWeighed : ∃ branch, Weighed world branch meaning ∧
        branch.net world.text = thenExpr.net world.text ∧
        (Tight world branch → (world.decides cond = some true → Tight world thenExpr) ∧
          (world.decides cond = some false → Tight world elseExpr)) := by
      rw [decided]
      cases flag with
      | true =>
        have thenClean : thenExpr.meets world.decides Expr.sizesChoice = false := by
          simpa [decided] using clean.1.2
        exact ⟨thenExpr, thenInduction _ thenBalanced thenClean chosen, rfl,
          fun tight => ⟨fun _ => tight, (by simp)⟩⟩
      | false =>
        have elseClean : elseExpr.meets world.decides Expr.sizesChoice = false := by
          simpa [decided] using clean.2
        exact ⟨elseExpr, elseInduction _ elseBalanced elseClean chosen, same.symm,
          fun tight => ⟨(by simp), fun _ => tight⟩⟩
    rcases branchWeighed with ⟨branch, weighed, equal, tights⟩
    cases meaning with
    | list elems =>
      have nonneg := weighed.1
      rw [Weighed, ListWeight, Expr.net]
      exact ⟨by omega, fun _ => rfl⟩
    | scalar value =>
      have positive := weighed.1
      rw [Weighed, ScalarWeight, Expr.net, Tight]
      exact ⟨by omega, fun one => ⟨condWeighed.2 (by omega), tights (weighed.2 (by omega))⟩⟩
  | list elems each =>
    rw [Expr.meets, Bool.or_eq_false_iff] at clean
    rw [evaluate, map_eq_some_iff] at evaluates
    rcases evaluates with ⟨values, all, rfl⟩
    apply nets_weight
    intro elem mem notLiteral
    rcases evaluateAll_elem all mem with ⟨value, elemEvaluates⟩
    exact (each elem mem _ (balanced.elem mem notLiteral)
      (Expr.meets_elem clean.1 mem) elemEvaluates).1

/-! ## Well-typed expressions -/

def TypeWeight (world : World) (expr : Expr) : Ty → Prop
  | .list => ListWeight world.text expr
  | .map => True
  | .bool | .int | .str | .null => ScalarWeight world.text expr (Tight world expr)

lemma TypeWeight.scalar (weighed : TypeWeight world expr ty) (isScalar : ty ≠ .map ∧ ty ≠ .list) :
    ScalarWeight world.text expr (Tight world expr) := by
  cases ty with
  | map => exact absurd rfl isScalar.1
  | list => exact absurd rfl isScalar.2
  | bool | int | str | null => exact weighed

lemma HasType.isListValued (typed : HasType text expr ty) (isList : ty = .list) :
    expr.isListValued := by
  induction typed with
  | list => rfl
  | ternary _ _ _ unifies _ thenInduction elseInduction =>
    rw [Expr.isListValued, Bool.or_eq_true]
    rcases unifies with ⟨_, equal⟩ | ⟨_, _, equal⟩ | ⟨_, _, equal⟩
    · exact .inl (thenInduction (equal.symm.trans isList))
    · exact .inr (elseInduction (equal.symm.trans isList))
    · exact .inl (thenInduction (equal.symm.trans isList))
  | literal constant =>
    cases constant <;> cases isList
  | @scalar _ _ attr =>
    have scalar := attr.ty_scalar
    rw [isList] at scalar
    simp at scalar
  | _ =>
    cases isList

lemma Ty.nullable_scalar (nullable : ty.nullable) : ty ≠ .map ∧ ty ≠ .list := by
  revert nullable
  cases ty <;> decide

lemma Unifies.scalar (unifies : Unifies thenTy elseTy ty) (isScalar : ty ≠ .map ∧ ty ≠ .list) :
    (thenTy ≠ .map ∧ thenTy ≠ .list) ∧ (elseTy ≠ .map ∧ elseTy ≠ .list) := by
  rcases unifies with ⟨same, equal⟩ | ⟨equal, nullable, _⟩ | ⟨equal, nullable, _⟩
  · rw [← same, ← equal]
    exact ⟨isScalar, isScalar⟩
  · rw [equal]
    exact ⟨by decide, Ty.nullable_scalar nullable⟩
  · rw [equal]
    exact ⟨Ty.nullable_scalar nullable, by decide⟩

lemma Unifies.list (unifies : Unifies thenTy elseTy .list) : thenTy = .list := by
  rcases unifies with ⟨_, equal⟩ | ⟨_, nullable, equal⟩ | ⟨_, _, equal⟩
  · exact equal.symm
  · rw [← equal] at nullable
    cases nullable
  · exact equal.symm

lemma equatable_scalar {left right : Ty} (comparable : equatable left right) :
    (left ≠ .map ∧ left ≠ .list) ∧ (right ≠ .map ∧ right ≠ .list) := by
  revert comparable
  cases left <;> cases right <;> decide

lemma weighed_of_typed (typed : HasType world.text expr ty) (balanced : expr.Balanced world.text)
    (clean : expr.meets (fun _ => none) Expr.sizesChoice = false) : TypeWeight world expr ty := by
  induction typed with
  | literal constant =>
    cases constant <;> exact ⟨le_refl _, fun _ => trivial⟩
  | ident => trivial
  | @scalar base name attr _ resolved =>
    have weight : ScalarWeight world.text (.field base name) (Tight world (.field base name)) :=
      ⟨by simp [Expr.net, resolved], fun _ => by simp [Tight, resolved]⟩
    rcases attr.ty_scalar with equal | equal | equal
    all_goals
      rw [equal]
      exact weight
  | map => trivial
  | @index base _ _ key =>
    have two : (Expr.index base (.literal (.str key))).net world.text = 2 := by
      rw [Expr.net]
    rw [TypeWeight, ScalarWeight, two]
    exact ⟨by decide, fun one => absurd one (by decide)⟩
  | @size base ty typed sized induction =>
    rw [Expr.meets, Bool.or_eq_false_iff] at clean
    have weighed := induction balanced clean.1
    rw [TypeWeight, ScalarWeight, Expr.net, Tight]
    rcases sized with isStr | isListTy
    · subst ty
      have notList : ¬base.isList := by
        intro isList
        cases base with
        | list elems => cases typed.list_ty
        | _ => cases isList
      rw [if_neg notList, if_neg notList]
      exact weighed
    · subst ty
      have isList : base.isList := by
        simpa [Expr.sizesChoice, typed.isListValued rfl] using clean.2
      have nonneg := weighed.1
      rw [if_pos isList, if_pos isList]
      exact ⟨by omega, fun one => weighed.2 (by omega)⟩
  | @test method base arg ty typed textual argTyped constant baseInduction argInduction =>
    rw [Expr.meets, Bool.or_eq_false_iff, Bool.or_eq_false_iff] at clean
    have baseWeighed := (baseInduction balanced.1 clean.1.1).scalar (by
      rcases textual with equal | equal <;> simp [equal])
    exact test_weight baseWeighed fun other =>
      argInduction (balanced.2.resolve_left other) clean.1.2
  | not _ induction =>
    rw [Expr.meets, Bool.or_eq_false_iff] at clean
    exact induction balanced clean.1
  | @equality op lhs rhs left right isEquality _ _ comparable leftInduction rightInduction =>
    rw [Expr.meets, Bool.or_eq_false_iff, Bool.or_eq_false_iff] at clean
    have scalars := equatable_scalar comparable
    exact bin_weight (by rcases isEquality with equal | equal <;> simp [equal])
      ((leftInduction balanced.1 clean.1.1).scalar scalars.1)
      ((rightInduction balanced.2 clean.1.2).scalar scalars.2)
  | @ordering op lhs rhs isOrdering _ _ leftInduction rightInduction =>
    rw [Expr.meets, Bool.or_eq_false_iff, Bool.or_eq_false_iff] at clean
    exact bin_weight (by intro isIn; subst op; cases isOrdering)
      (leftInduction balanced.1 clean.1.1) (rightInduction balanced.2 clean.1.2)
  | member _ isScalar _ leftInduction rightInduction =>
    rw [Expr.meets, Bool.or_eq_false_iff, Bool.or_eq_false_iff] at clean
    exact member_weight ((leftInduction balanced.1 clean.1.1).scalar isScalar)
      (rightInduction balanced.2 clean.1.2)
  | junction _ _ leftInduction rightInduction =>
    simp only [Expr.meets, Bool.or_eq_false_iff] at clean
    have leftWeighed := leftInduction balanced.1 clean.1.1
    have rightWeighed := rightInduction balanced.2.1 (by simpa using clean.2)
    exact ⟨leftWeighed.1, fun one =>
      ⟨leftWeighed.2 one, fun _ => rightWeighed.2 balanced.2.2⟩⟩
  | @ternary cond thenExpr elseExpr thenTy elseTy ty _ _ _ unifies condInduction thenInduction
      elseInduction =>
      simp only [Expr.meets, Bool.or_eq_false_iff] at clean
      rcases balanced with ⟨condBalanced, thenBalanced, elseBalanced, same⟩
      have condWeighed := condInduction condBalanced clean.1.1.1
      have thenWeighed := thenInduction thenBalanced (by simpa using clean.1.2)
      have elseWeighed := elseInduction elseBalanced (by simpa using clean.2)
      have positive := condWeighed.1
      have whole : (ty ≠ .map ∧ ty ≠ .list) → ScalarWeight world.text
          (.ternary cond thenExpr elseExpr) (Tight world (.ternary cond thenExpr elseExpr)) := by
        intro isScalar
        have scalars := unifies.scalar isScalar
        have thenScalar := thenWeighed.scalar scalars.1
        have elseScalar := elseWeighed.scalar scalars.2
        have thenPositive := thenScalar.1
        rw [ScalarWeight, Expr.net, Tight]
        exact ⟨by omega, fun one => ⟨condWeighed.2 (by omega),
          fun _ => thenScalar.2 (by omega), fun _ => elseScalar.2 (by omega)⟩⟩
      cases ty with
      | map => trivial
      | list =>
        rw [unifies.list] at thenWeighed
        have nonneg := thenWeighed.1
        rw [TypeWeight, ListWeight, Expr.net]
        exact ⟨by omega, fun _ => rfl⟩
      | bool | int | str | null => exact whole (by simp)
  | @list elems ty isScalar _ each =>
    rw [Expr.meets, Bool.or_eq_false_iff] at clean
    apply nets_weight
    intro elem mem notLiteral
    exact ((each elem mem (balanced.elem mem notLiteral)
      (Expr.meets_elem clean.1 mem)).scalar (Ty.nullable_scalar isScalar)).1

end IronTraffic.Policy
