import IronTraffic.Policy.Compilation
import IronTraffic.Policy.Lexer
import IronTraffic.Policy.TypeSafety

/-! # The pipeline from source text to verdict

Lexer, parser, checker and compiler together, and what the evaluator makes of an
accepted source: the value of its direct evaluation, unless the evaluation takes
the size of a choice between lists.
-/

namespace IronTraffic.Policy

/-- All stages accept the source, under validated limits. -/
structure Accepts (scan : Scanner) (source : Bytes) (limits : PolicyLimits) (phase : Phase)
    (engine : RegexEngine) (checked : Checked) (program : Program) : Prop where
  valid : limits.validate = .ok ()
  checks : ∃ toks ast, lex scan source limits = .ok toks ∧ parse toks source limits = .ok ast ∧
    check ast toks.strings source phase limits = .ok checked
  compiles : compile engine checked limits = .ok program

def Checked.world (checked : Checked) (source : Bytes) (attrs : AttrSource)
    (engine : RegexEngine) : World :=
  ⟨source, checked.strings, attrs, engine⟩

section Accepted

variable {scan : Scanner} {source : Bytes} {limits : PolicyLimits} {phase : Phase}
  {engine : RegexEngine} {checked : Checked} {program : Program} {expr : Expr}

lemma Accepts.represents (accepts : Accepts scan source limits phase engine checked program) :
    ∃ expr, checked.ast.Represents expr := by
  rcases accepts.checks with ⟨toks, ast, _, parsed, checks⟩
  have tree := parse_ensures toks source limits
  rw [parsed] at tree
  rcases tree with ⟨expr, represents⟩
  have described := check_ensures toks.strings source phase limits represents
  rw [checks] at described
  rw [described.1]
  exact ⟨expr, represents⟩

lemma Accepts.compiled (accepts : Accepts scan source limits phase engine checked program)
    (represents : checked.ast.Represents expr) :
    checked.Describes source expr ∧ Compiled program checked source expr ∧
      program.slots.length ≤ Env.maxSlots := by
  rcases accepts.checks with ⟨toks, ast, _, _, checks⟩
  have same : checked.ast = ast := by
    rcases bind_eq_ok_iff.mp checks with ⟨result, _, rest⟩
    cases (of_ite_error (of_ite_error rest).2).2
    rfl
  rw [same] at represents
  have described := check_ensures toks.strings source phase limits represents
  rw [checks] at described
  rcases described with ⟨_, slots, described⟩
  rw [← same] at represents
  have bound := PolicyLimits.maxAttrSlots_le_of_validate accepts.valid
  have few : checked.slots.length ≤ u16Max := by
    unfold u16Max
    omega
  have compiled := compiled_of_compile represents described few accepts.compiles
  refine ⟨described, compiled, ?_⟩
  rw [compiled.slots]
  unfold Env.maxSlots
  omega

lemma Compiled.weight (compiled : Compiled program checked source expr) :
    expr.Balanced source ∧ expr.net source = 1 := by
  rcases compiled.verified with ⟨depths, verified⟩
  rcases compiled.coded with ⟨last, coded, returns⟩
  rcases coded_depth verified source expr 0 last 0 coded ⟨verified.entry, le_refl _⟩ with
    ⟨reached, balanced⟩
  have single : (0 : Int) + expr.net source = 1 := (verified.admits reached returns).successors
  exact ⟨balanced, by omega⟩

lemma Compiled.eval_of_tight (compiled : Compiled program checked source expr)
    (few : program.slots.length ≤ Env.maxSlots) (attrs)
    (tight : Tight (checked.world source attrs engine) expr) :
    match evaluate (checked.world source attrs engine) expr with
    | some (.scalar value) =>
      eval engine program attrs (Env.new program.slots.length) = .ok value
    | some (.list _) => False
    | none => ∃ pc, eval engine program attrs (Env.new program.slots.length) =
        .error (.typeError pc) := by
  rcases compiled.verified with ⟨depths, verified⟩
  rcases compiled.coded with ⟨last, coded, returns⟩
  have arrives := arrives_of_tight verified few compiled.strings.symm expr 0 last []
    (Env.new program.slots.length) coded tight verified.initial_tracks (.new program attrs)
  revert arrives
  cases evaluate (checked.world source attrs engine) expr with
  | none =>
    rintro ⟨machine, pc, reaches, halts⟩
    exact ⟨pc, eval_of_reaches engine attrs verified compiled.short reaches halts⟩
  | some meaning =>
    cases meaning with
    | list elems => exact id
    | scalar value =>
      rintro ⟨env, reaches, _⟩
      apply eval_of_reaches engine attrs verified compiled.short reaches
      simp only [step, returns, execute]

/-- Compilation preserves meaning, unless the evaluation takes the size of a
choice between lists: whenever the direct evaluation yields a scalar, so does the
compiled program. -/
theorem eval_of_evaluates (attrs : AttrSource)
    (accepts : Accepts scan source limits phase engine checked program) :
    (∃ expr, checked.ast.Represents expr) ∧ ∀ expr, checked.ast.Represents expr →
      (checked.world source attrs engine).sizesChoice expr = false →
      ∀ value, evaluate (checked.world source attrs engine) expr = some (.scalar value) →
        eval engine program attrs (Env.new program.slots.length) = .ok value := by
  refine ⟨accepts.represents, ?_⟩
  intro expr represents plain value evaluates
  rcases accepts.compiled represents with ⟨_, compiled, few⟩
  rcases compiled.weight with ⟨balanced, single⟩
  have weighed : ScalarWeight source expr (Tight (checked.world source attrs engine) expr) :=
    weighed_of_evaluates _ expr _ balanced plain evaluates
  have gave := compiled.eval_of_tight few attrs (weighed.2 single)
  rw [evaluates] at gave
  exact gave

def EvaluatesSoundly (engine : RegexEngine) (program : Program) (attrs : AttrSource)
    (result : Ty) : Prop :=
  ∃ value, eval engine program attrs (Env.new program.slots.length) = .ok value ∧
    (value.ty = result ∨ value = .null)

/-- Type soundness, for expressions that are not lists: an evaluation that applies
no strict operator to null and takes no size of a choice between lists returns a
value of the checked type or null. Where no `.size()` applies to a choice between
lists at all, meeting null is the only way to a type error. -/
theorem eval_typed (attrs : AttrSource) (declared : attrs.Declared)
    (accepts : Accepts scan source limits phase engine checked program)
    (scalar : checked.result ≠ .list) :
    (∃ expr, checked.ast.Represents expr) ∧ ∀ expr, checked.ast.Represents expr →
      ((checked.world source attrs engine).sizesChoice expr = false →
        (checked.world source attrs engine).meetsNull expr = false →
        EvaluatesSoundly engine program attrs checked.result) ∧
      (expr.sizesSomeChoice = false →
        (EvaluatesSoundly engine program attrs checked.result ↔
          (checked.world source attrs engine).meetsNull expr = false)) := by
  refine ⟨accepts.represents, fun expr represents => ?_⟩
  rcases accepts.compiled represents with ⟨described, compiled, few⟩
  rcases compiled.weight with ⟨balanced, single⟩
  have typed : HasType (checked.world source attrs engine).text expr checked.result :=
    described.typed
  have evaluates : (checked.world source attrs engine).meetsNull expr = false →
      ∃ value, evaluate (checked.world source attrs engine) expr = some (.scalar value) ∧
        (value.ty = checked.result ∨ value = .null) := by
    intro noNull
    rcases evaluates_of_typed declared typed described.notMap noNull with
      ⟨meaning, evaluates, ofType⟩
    rcases ofType.scalar ⟨described.notMap, scalar⟩ with ⟨value, equal, ofResult⟩
    rw [equal] at evaluates
    exact ⟨value, evaluates, ofResult⟩
  constructor
  · intro plain noNull
    rcases evaluates noNull with ⟨value, evaluated, ofResult⟩
    have weighed : ScalarWeight source expr (Tight (checked.world source attrs engine) expr) :=
      weighed_of_evaluates _ expr _ balanced plain evaluated
    have gave := compiled.eval_of_tight few attrs (weighed.2 single)
    rw [evaluated] at gave
    exact ⟨value, gave, ofResult⟩
  · intro plain
    have weighed := (weighed_of_typed typed balanced plain).scalar ⟨described.notMap, scalar⟩
    have gave := compiled.eval_of_tight few attrs (weighed.2 single)
    constructor
    · rintro ⟨value, succeeded, _⟩
      rw [Bool.eq_false_iff]
      intro meetsNull
      rw [evaluate_of_meetsNull expr meetsNull] at gave
      rcases gave with ⟨pc, failed⟩
      rw [succeeded] at failed
      cases failed
    · intro noNull
      rcases evaluates noNull with ⟨value, evaluated, ofResult⟩
      rw [evaluated] at gave
      exact ⟨value, gave, ofResult⟩

end Accepted

/-! ## Accepted sources -/

def runStages (scan : Scanner) (source : Bytes) (limits : PolicyLimits) (phase : Phase)
    (engine : RegexEngine) : Option (Checked × Program) := do
  let toks ← (lex scan source limits).toOption
  let ast ← (parse toks source limits).toOption
  let checked ← (check ast toks.strings source phase limits).toOption
  let program ← (compile engine checked limits).toOption
  some (checked, program)

lemma eq_ok_of_toOption {outcome : Except Reason Result}
    (gave : outcome.toOption = some value) : outcome = .ok value := by
  cases outcome with
  | error reason => cases gave
  | ok other =>
    cases gave
    rfl

lemma accepts_of_runStages (valid : limits.validate = .ok ())
    (admitted : runStages scan source limits phase engine = some (checked, program)) :
    Accepts scan source limits phase engine checked program := by
  rcases Option.bind_eq_some_iff.mp admitted with ⟨toks, lexed, rest⟩
  rcases Option.bind_eq_some_iff.mp rest with ⟨ast, parsed, rest⟩
  rcases Option.bind_eq_some_iff.mp rest with ⟨other, checks, rest⟩
  rcases Option.bind_eq_some_iff.mp rest with ⟨ops, compiles, equal⟩
  cases equal
  exact ⟨valid, ⟨toks, ast, eq_ok_of_toOption lexed, eq_ok_of_toOption parsed,
    eq_ok_of_toOption checks⟩, eq_ok_of_toOption compiles⟩

/-- A request with method `GET` over TLS. -/
def secureGet : AttrSource where
  scalar attr :=
    match attr.ty with
    | .bool => .bool true
    | .int => .int 443
    | .str => .str (ascii "GET")
    | _ => .null
  field _ _ := .absent

lemma secureGet_declared : secureGet.Declared := by
  intro attr
  cases attr <;> rfl

/-- `connection.tls && request.method in ["GET"]` -/
def methodGuard : Bytes := ascii "connection.tls && request.method in [\"GET\"]"

/-- The tokens of `methodGuard`. -/
def scanMethodGuard : Scanner := fun _ =>
  [(some .ident, ⟨0, 10⟩), (some (.punct .dot), ⟨10, 11⟩), (some .ident, ⟨11, 14⟩),
    (some (.punct .andAnd), ⟨15, 17⟩), (some .ident, ⟨18, 25⟩), (some (.punct .dot), ⟨25, 26⟩),
    (some .ident, ⟨26, 32⟩), (some .ident, ⟨33, 35⟩), (some (.punct .lBracket), ⟨36, 37⟩),
    (some .rawStr, ⟨37, 42⟩), (some (.punct .rBracket), ⟨42, 43⟩)]

def methodGuardExpr : Expr :=
  .junction false (.field (.ident ⟨0, 10⟩) ⟨11, 14⟩)
    (.bin .isIn (.field (.ident ⟨18, 25⟩) ⟨26, 32⟩) (.list [.literal (.str ⟨0, 3⟩)]))

def methodGuardAst : Ast where
  nodes := [.ident ⟨0, 10⟩, .field 0 ⟨11, 14⟩, .ident ⟨18, 25⟩, .field 2 ⟨26, 32⟩,
    .str ⟨0, 3⟩, .list 0 1, .bin .isIn 3 5, .and 1 6]
  args := [4]
  root := 7
  depth := 2

lemma laid_read {arena : Arena} (isIdent : arena.nodes[start]? = some (.ident name))
    (isField : arena.nodes[start + 1]? = some (.field start field)) :
    Laid arena (.field (.ident name) field) start :=
  .intro ⟨0, isField, trivial⟩ (.cons (.intro ⟨0, isIdent, trivial⟩ .nil) .nil)

lemma methodGuardAst_represents : methodGuardAst.Represents methodGuardExpr where
  laid := .intro ⟨0, rfl, trivial⟩ (.cons (laid_read rfl rfl) (.cons
    (.intro ⟨0, rfl, trivial⟩ (.cons (laid_read rfl rfl) (.cons
      (.intro ⟨0, rfl, rfl⟩ (.cons (.intro ⟨0, rfl, trivial⟩ .nil) .nil)) .nil))) .nil))
  count := rfl
  root := rfl
  small := by decide

/-- What the stages make of `methodGuard`, and what the request makes of it. -/
lemma methodGuard_admitted :
    ∃ checked program,
      Accepts scanMethodGuard methodGuard .defaults .requestHeaders neverMatches checked program ∧
      checked.ast = methodGuardAst ∧ checked.result = .bool ∧
      (checked.world methodGuard secureGet neverMatches).sizesChoice methodGuardExpr = false ∧
      (checked.world methodGuard secureGet neverMatches).meetsNull methodGuardExpr = false ∧
      evaluate (checked.world methodGuard secureGet neverMatches) methodGuardExpr =
        some (.scalar (.bool true)) := by
  have outcome : (runStages scanMethodGuard methodGuard .defaults .requestHeaders neverMatches).map
      (fun stages => (stages.1.ast, stages.1.result,
        (stages.1.world methodGuard secureGet neverMatches).sizesChoice methodGuardExpr,
        (stages.1.world methodGuard secureGet neverMatches).meetsNull methodGuardExpr,
        evaluate (stages.1.world methodGuard secureGet neverMatches) methodGuardExpr)) =
      some (methodGuardAst, .bool, false, false, some (.scalar (.bool true))) := by
    decide +kernel
  rcases Option.map_eq_some_iff.mp outcome with ⟨⟨checked, program⟩, admitted, equal⟩
  simp only [Prod.mk.injEq] at equal
  exact ⟨checked, program, accepts_of_runStages (by decide) admitted, equal⟩

/-- The guard lets the request through, as its source says. -/
theorem methodGuard_compiles :
    ∃ checked program,
      Accepts scanMethodGuard methodGuard .defaults .requestHeaders neverMatches checked program ∧
      eval neverMatches program secureGet (Env.new program.slots.length) = .ok (.bool true) := by
  rcases methodGuard_admitted with ⟨checked, program, accepts, ast, _, plain, _, evaluates⟩
  refine ⟨checked, program, accepts, ?_⟩
  exact (eval_of_evaluates secureGet accepts).2 methodGuardExpr
    (ast ▸ methodGuardAst_represents) plain _ evaluates

/-- The guard returns a boolean or null. -/
theorem methodGuard_typed :
    ∃ checked program,
      Accepts scanMethodGuard methodGuard .defaults .requestHeaders neverMatches checked program ∧
      EvaluatesSoundly neverMatches program secureGet checked.result := by
  rcases methodGuard_admitted with ⟨checked, program, accepts, ast, result, plain, noNull, _⟩
  refine ⟨checked, program, accepts, ?_⟩
  exact ((eval_typed secureGet secureGet_declared accepts (by rw [result]; decide)).2
    methodGuardExpr (ast ▸ methodGuardAst_represents)).1 plain noNull

/-- `(true ? [request.method] : [request.path]).size()` -/
def sizedChoice : Bytes := ascii "(true ? [request.method] : [request.path]).size()"

/-- The tokens of `sizedChoice`. -/
def scanSizedChoice : Scanner := fun _ =>
  [(some (.punct .lParen), ⟨0, 1⟩), (some .ident, ⟨1, 5⟩), (some (.punct .question), ⟨6, 7⟩),
    (some (.punct .lBracket), ⟨8, 9⟩), (some .ident, ⟨9, 16⟩), (some (.punct .dot), ⟨16, 17⟩),
    (some .ident, ⟨17, 23⟩), (some (.punct .rBracket), ⟨23, 24⟩),
    (some (.punct .colon), ⟨25, 26⟩), (some (.punct .lBracket), ⟨27, 28⟩),
    (some .ident, ⟨28, 35⟩), (some (.punct .dot), ⟨35, 36⟩), (some .ident, ⟨36, 40⟩),
    (some (.punct .rBracket), ⟨40, 41⟩), (some (.punct .rParen), ⟨41, 42⟩),
    (some (.punct .dot), ⟨42, 43⟩), (some .ident, ⟨43, 47⟩), (some (.punct .lParen), ⟨47, 48⟩),
    (some (.punct .rParen), ⟨48, 49⟩)]

def sizedChoiceExpr : Expr :=
  .size (.ternary (.literal (.bool true))
    (.list [.field (.ident ⟨9, 16⟩) ⟨17, 23⟩]) (.list [.field (.ident ⟨28, 35⟩) ⟨36, 40⟩]))

def sizedChoiceAst : Ast where
  nodes := [.bool true, .ident ⟨9, 16⟩, .field 1 ⟨17, 23⟩, .list 0 1, .ident ⟨28, 35⟩,
    .field 4 ⟨36, 40⟩, .list 1 1, .ternary 0 3 6, .call 7 .size 2 0]
  args := [2, 5]
  root := 8
  depth := 4

lemma sizedChoiceAst_represents : sizedChoiceAst.Represents sizedChoiceExpr where
  laid := .intro ⟨2, rfl, trivial⟩ (.cons (.intro ⟨0, rfl, trivial⟩ (.cons
    (.intro ⟨0, rfl, trivial⟩ .nil) (.cons
      (.intro ⟨0, rfl, rfl⟩ (.cons (laid_read rfl rfl) .nil)) (.cons
        (.intro ⟨1, rfl, rfl⟩ (.cons (laid_read rfl rfl) .nil)) .nil)))) .nil)
  count := rfl
  root := rfl
  small := by decide

/-- Direct evaluation counts the one element of the chosen list; the compiled
program returns the length of the method. -/
theorem sizedChoice_miscompiled :
    ∃ checked program,
      Accepts scanSizedChoice sizedChoice .defaults .requestHeaders neverMatches checked program ∧
      checked.ast.Represents sizedChoiceExpr ∧
      evaluate (checked.world sizedChoice secureGet neverMatches) sizedChoiceExpr =
        some (.scalar (.int 1)) ∧
      eval neverMatches program secureGet (Env.new program.slots.length) = .ok (.int 3) := by
  have outcome : (runStages scanSizedChoice sizedChoice .defaults .requestHeaders neverMatches).map
      (fun stages => (stages.1.ast,
        evaluate (stages.1.world sizedChoice secureGet neverMatches) sizedChoiceExpr,
        eval neverMatches stages.2 secureGet (Env.new stages.2.slots.length))) =
      some (sizedChoiceAst, some (.scalar (.int 1)), .ok (.int 3)) := by
    decide +kernel
  rcases Option.map_eq_some_iff.mp outcome with ⟨⟨checked, program⟩, admitted, equal⟩
  simp only [Prod.mk.injEq] at equal
  rcases equal with ⟨ast, evaluates, evaluated⟩
  refine ⟨checked, program, accepts_of_runStages (by decide) admitted, ?_, evaluates, evaluated⟩
  rw [ast]
  exact sizedChoiceAst_represents

/-- `!(connection.tls ? null : true)` -/
def negatedNull : Bytes := ascii "!(connection.tls ? null : true)"

/-- The tokens of `negatedNull`. -/
def scanNegatedNull : Scanner := fun _ =>
  [(some (.punct .bang), ⟨0, 1⟩), (some (.punct .lParen), ⟨1, 2⟩), (some .ident, ⟨2, 12⟩),
    (some (.punct .dot), ⟨12, 13⟩), (some .ident, ⟨13, 16⟩), (some (.punct .question), ⟨17, 18⟩),
    (some .ident, ⟨19, 23⟩), (some (.punct .colon), ⟨24, 25⟩), (some .ident, ⟨26, 30⟩),
    (some (.punct .rParen), ⟨30, 31⟩)]

/-- The checker accepts null for a boolean, and the evaluator does not. -/
theorem negatedNull_fails :
    secureGet.Declared ∧ ∃ checked program,
      Accepts scanNegatedNull negatedNull .defaults .requestHeaders neverMatches checked program ∧
      eval neverMatches program secureGet (Env.new program.slots.length) =
        .error (.typeError 5) := by
  refine ⟨secureGet_declared, ?_⟩
  have outcome : (runStages scanNegatedNull negatedNull .defaults .requestHeaders neverMatches).map
      (fun stages => eval neverMatches stages.2 secureGet (Env.new stages.2.slots.length)) =
      some (.error (.typeError 5)) := by
    decide +kernel
  rcases Option.map_eq_some_iff.mp outcome with ⟨⟨checked, program⟩, admitted, evaluated⟩
  exact ⟨checked, program, accepts_of_runStages (by decide) admitted, evaluated⟩

end IronTraffic.Policy
