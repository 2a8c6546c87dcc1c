import IronTraffic.Policy.Code

/-! # The evaluator follows the direct evaluation

Where the code of every evaluated operand leaves exactly one operand behind, the
machine computes what the direct evaluation says: it pushes the value, or stops
with a type error where the evaluation is stuck.
-/

namespace IronTraffic.Policy

open Meaning

open List

structure Coherent (program : Program) (source : AttrSource) (env : Env) : Prop where
  used : env.used = program.slots.length
  size : env.slots.length = Env.maxSlots
  cached : ∀ (index : Nat) (value : Value), env.slots[index]? = some (some value) →
    ∃ reference, program.slots[index]? = some reference ∧
      value = (Env.lookup source program reference).1

lemma Coherent.new (program source) : Coherent program source (.new program.slots.length) where
  used := rfl
  size := length_replicate ..
  cached := by
    intro index value hit
    simp [Env.new, getElem?_replicate] at hit

lemma Coherent.slot (coherent : Coherent program source env)
    (few : program.slots.length ≤ Env.maxSlots) (hit : program.slots[index]? = some reference) :
    ∃ after, env.slot index source program = .ok ((Env.lookup source program reference).1, after) ∧
      Coherent program source after := by
  have inside := lt_of_getElem? hit
  have used := coherent.used
  rw [Env.slot, if_neg (by omega)]
  have present : index < env.slots.length := by
    rw [coherent.size]
    omega
  rw [getElem?_eq_getElem present]
  cases cached : env.slots[index] with
  | some value =>
    rcases coherent.cached index value (by rw [getElem?_eq_getElem present, cached])
      with ⟨other, same, equal⟩
    rw [hit] at same
    cases same
    exact ⟨env, by rw [equal]; rfl, coherent⟩
  | none =>
    simp only [Option.join_some, hit]
    refine ⟨_, rfl, used, by rw [length_set, coherent.size], ?_⟩
    intro other value stored
    rcases eq_or_ne other index with same | apart
    · subst other
      rw [getElem?_set_self present] at stored
      cases stored
      exact ⟨reference, hit, rfl⟩
    · rw [getElem?_set_ne (Ne.symm apart)] at stored
      exact coherent.cached other value stored

def Tight (world : World) : Expr → Prop
  | .literal _ => True
  | .ident _ => False
  | .field base name => ((Expr.field base name).attrOf world.text).isSome
  | .index _ _ => False
  | .size base => if base.isList then base.elems.all Expr.isLiteral = true else Tight world base
  | .test method base arg => Tight world base ∧ (method = .isMatch ∨ Tight world arg)
  | .not inner => Tight world inner
  | .bin op lhs rhs =>
    Tight world lhs ∧
      if op = .isIn then rhs.elems.all Expr.isLiteral = true else Tight world rhs
  | .junction stop lhs rhs =>
    Tight world lhs ∧ (world.decides lhs = some (!stop) → Tight world rhs)
  | .ternary cond thenExpr elseExpr =>
    Tight world cond ∧ (world.decides cond = some true → Tight world thenExpr) ∧
      (world.decides cond = some false → Tight world elseExpr)
  | .list _ => False

variable {first last : Nat} {expr : Expr} {value : Value} {op : Op}

section Literals

variable {program : Program} {text : Bytes} {elems : List Expr}

lemma codedAll_literals (literals : elems.all Expr.isLiteral)
    (coded : CodedAll program text elems first last) : last = first := by
  induction elems generalizing first with
  | nil =>
    exact coded
  | cons elem rest induction =>
    simp only [all_cons, Bool.and_eq_true] at literals
    rcases coded with ⟨middle, head, tail⟩
    rw [if_pos literals.1] at head
    subst middle
    exact induction literals.2 tail

lemma evaluateAll_literals (world : World) (literals : elems.all Expr.isLiteral) :
    evaluateAll world elems = some (elems.map (Expr.folded world.strings)) := by
  induction elems with
  | nil => rfl
  | cons elem rest induction =>
    simp only [all_cons, Bool.and_eq_true] at literals
    cases elem with
    | literal constant =>
      rw [evaluateAll, induction literals.2]
      rfl
    | _ => cases literals.1

lemma evaluate_literals (world : World) (isList : expr.isList)
    (literals : expr.elems.all Expr.isLiteral) :
    evaluate world expr = some (.list (expr.elems.map (Expr.folded world.strings))) := by
  cases expr with
  | list elems =>
    rw [Expr.elems] at literals
    rw [evaluate, evaluateAll_literals world literals]
    rfl
  | _ => cases isList

lemma coded_literals (isList : expr.isList) (literals : expr.elems.all Expr.isLiteral)
    (coded : Coded program text expr first last) : last = first := by
  cases expr with
  | list elems =>
    exact codedAll_literals literals coded
  | _ => cases isList

end Literals

section Steps

variable {engine : RegexEngine} {program : Program} {source : AttrSource} {pc : Nat}
  {stack after : Stack} {env : Env}

lemma execute_plain (plain : op.Plain) :
    execute engine program source op stack env pc = (do
      let stack ← operate engine program op stack pc
      .ok (.fallThrough stack env)) := by
  cases op <;> first | rfl | exact plain.elim

lemma step_at (hit : program.ops[pc]? = some op) :
    step engine program source ⟨pc, stack, env⟩ =
      match execute engine program source op stack env pc with
      | .error reason => .halt (.error reason)
      | .ok (.fallThrough stack env) => .next ⟨pc + 1, stack, env⟩
      | .ok (.goTo target stack env) => .next ⟨target, stack, env⟩
      | .ok (.return value) => .halt (.ok value) := by
  unfold step
  cases reading : program.ops[pc]? with
  | none =>
    rw [reading] at hit
    cases hit
  | some other =>
    rw [reading] at hit
    cases hit
    exact Eq.refl _

lemma step_operates (hit : program.ops[pc]? = some op) (plain : op.Plain)
    (operated : operate engine program op stack pc = .ok after) :
    step engine program source ⟨pc, stack, env⟩ = .next ⟨pc + 1, after, env⟩ := by
  rw [step_at hit, execute_plain plain, operated]
  rfl

lemma step_faults (hit : program.ops[pc]? = some op) (plain : op.Plain)
    (operated : operate engine program op stack pc = .error reason) :
    step engine program source ⟨pc, stack, env⟩ = .halt (.error reason) := by
  rw [step_at hit, execute_plain plain, operated]
  rfl

lemma push_ok (room : stack.length < Program.stackLimit) :
    push stack pc value = .ok (value :: stack) := by
  rw [push, if_pos room]

/-- The operands an instruction leaves when it computes `result` on top of
`rest`, or the fault it stops with. -/
def answer (rest : Stack) (pc : Nat) : Option Value → Except EvalError Stack
  | some value => .ok (value :: rest)
  | none => .error (.typeError (toU16 pc))

end Steps

/-! ## Instructions compute the operators -/

section Operators

variable (engine : RegexEngine) (program : Program) {rest : Stack} (pc : Nat)
  (room : rest.length < Program.stackLimit)

include room

lemma operate_size (value : Value) :
    operate engine program .size (value :: rest) pc = answer rest pc (size (.scalar value)) := by
  cases value with
  | str bytes => exact push_ok room
  | bool | int | null => rfl

lemma operate_not (value : Value) :
    operate engine program .not (value :: rest) pc = answer rest pc (negate (.scalar value)) := by
  cases value with
  | bool flag => exact push_ok room
  | str | int | null => rfl

lemma compareValues_answer (test) (left right : Value) :
    compareValues test (right :: left :: rest) pc =
      answer rest pc (some (.bool (test left right))) :=
  push_ok room

lemma compareInts_answer (test) (left right : Value) :
    compareInts test (right :: left :: rest) pc =
      answer rest pc
        (do some (.bool (test (← number (.scalar left)) (← number (.scalar right))))) := by
  cases right with
  | int number =>
    cases left with
    | int other => exact push_ok room
    | bool | str | null => rfl
  | bool | str | null => cases left <;> rfl

lemma operate_comparison {op : BinOp} (notIn : op ≠ .isIn) (left right : Value) :
    operate engine program (comparisonOp op) (right :: left :: rest) pc =
      answer rest pc (op.apply (.scalar left) (.scalar right)) := by
  cases op with
  | isIn => exact absurd rfl notIn
  | eq => exact compareValues_answer pc room Value.itplEq left right
  | ne => exact compareValues_answer pc room (fun left right => !left.itplEq right) left right
  | lt => exact compareInts_answer pc room (BinOp.orders .lt) left right
  | le => exact compareInts_answer pc room (BinOp.orders .le) left right
  | gt => exact compareInts_answer pc room (BinOp.orders .gt) left right
  | ge => exact compareInts_answer pc room (BinOp.orders .ge) left right

lemma compareStrings_answer (test) (left right : Value) :
    compareStrings test (right :: left :: rest) pc = answer rest pc (do
      let left ← chars (.scalar left)
      let right ← chars (.scalar right)
      some (.bool (testStrings test left right))) := by
  cases right with
  | str | null =>
    cases left with
    | str | null => exact push_ok room
    | bool | int => rfl
  | bool | int => cases left <;> rfl

lemma operate_method (notMatch : method ≠ .isMatch) (notSize : method ≠ .size)
    (left right : Value) :
    operate engine program (methodOp method) (right :: left :: rest) pc =
      answer rest pc (method.apply engine (.scalar left) (.scalar right)) := by
  cases method with
  | isMatch => exact absurd rfl notMatch
  | size => exact absurd rfl notSize
  | startsWith | endsWith | contains | equalsIgnoreCase | startsWithIgnoreCase =>
    exact compareStrings_answer pc room _ left right

lemma operate_regex (hit : program.regex regex = some pattern) (subject : Value) :
    operate engine program (.regexMatch regex) (subject :: rest) pc =
      answer rest pc (Method.apply engine .isMatch (.scalar subject) (.scalar (.str pattern))) := by
  cases subject with
  | str | null =>
    simp only [operate, popStrOrNull, pop, hit, bind, Except.bind]
    exact push_ok room
  | bool | int => rfl

lemma operate_in (listed : ListConst program const elems) (value : Value) :
    operate engine program (.inSet const) (value :: rest) pc =
      answer rest pc (BinOp.apply .isIn (.scalar value)
        (.list (elems.map (Expr.folded program.strings)))) := by
  rcases listed with ⟨consts, hit, values⟩
  simp only [operate, pop, hit, bind, Except.bind, push_ok room, inList, values]
  rfl

end Operators

/-! ## Whole expressions -/

/-- The machine goes from `start` to the end of the code at `last` with the
meaning on top of `stack`, or stops with a type error when there is none. -/
def Arrives (world : World) (program : Program) (start : Machine) (last : Nat)
    (stack : Stack) : Option Meaning → Prop
  | some (.scalar value) => ∃ env,
    Reaches (step world.engine program world.attrs) start ⟨last, value :: stack, env⟩ ∧
      Coherent program world.attrs env
  | some (.list _) => False
  | none => ∃ machine pc, Reaches (step world.engine program world.attrs) start machine ∧
      step world.engine program world.attrs machine = .halt (.error (.typeError pc))

section Arrival

variable {world : World} {program : Program} {start middle : Machine} {between : Nat}
  {stack rest : Stack}

lemma Arrives.of_reaches (reaches : Reaches (step world.engine program world.attrs) start middle)
    (arrives : Arrives world program middle last stack meaning) :
    Arrives world program start last stack meaning := by
  cases meaning with
  | none =>
    rcases arrives with ⟨machine, pc, onward, halts⟩
    exact ⟨machine, pc, reaches.trans onward, halts⟩
  | some meaning =>
    cases meaning with
    | scalar value =>
      rcases arrives with ⟨env, onward, coherent⟩
      exact ⟨env, reaches.trans onward, coherent⟩
    | list elems => exact arrives

lemma Arrives.of_next (moves : step world.engine program world.attrs start = .next middle)
    (arrives : Arrives world program middle last stack meaning) :
    Arrives world program start last stack meaning :=
  arrives.of_reaches (.single moves)

variable (verified : Verified program depths)

include verified

lemma Tracks.of_reaches (tracks : Tracks program depths start)
    (reaches : Reaches (step world.engine program world.attrs) start middle) :
    Tracks program depths middle := by
  induction reaches with
  | refl => exact tracks
  | tail _ moves induction =>
    exact (tracks_of_next world.engine world.attrs verified induction moves).2

lemma Arrives.bind {next} (tracks : Tracks program depths start)
    (arrives : Arrives world program start between rest meaning)
    (continues : ∀ value env, Coherent program world.attrs env →
      Tracks program depths ⟨between, value :: rest, env⟩ → meaning = some (.scalar value) →
      Arrives world program ⟨between, value :: rest, env⟩ last stack (next (.scalar value))) :
    Arrives world program start last stack (meaning.bind next) := by
  cases meaning with
  | none => exact arrives
  | some meaning =>
    cases meaning with
    | list elems => exact arrives.elim
    | scalar value =>
      rcases arrives with ⟨env, reaches, coherent⟩
      exact (continues value env coherent
        (tracks.of_reaches verified reaches) rfl).of_reaches reaches

lemma Tracks.room (tracks : Tracks program depths machine)
    (hit : program.ops[machine.pc]? = some op) :
    (machine.stack.length : Int) - (effect op).1 + (effect op).2 ≤ Program.stackLimit :=
  (verified.admitted machine.pc op _ hit tracks.depth (Int.natCast_nonneg _)).room

end Arrival

section Arrival

variable {world : World} {program : Program} {pc : Nat} {stack rest : Stack} {env : Env}

lemma arrives_of_answer (coherent : Coherent program world.attrs env)
    (hit : program.ops[pc]? = some op) (plain : op.Plain)
    (operated : operate world.engine program op stack pc = answer rest pc result) :
    Arrives world program ⟨pc, stack, env⟩ (pc + 1) rest (result.map .scalar) := by
  cases result with
  | some value => exact ⟨env, .single (step_operates hit plain operated), coherent⟩
  | none => exact ⟨_, _, .refl, step_faults hit plain operated⟩

lemma Loads.arrives (coherent : Coherent program world.attrs env)
    (loads : Loads program pc value) (room : stack.length < Program.stackLimit) :
    Arrives world program ⟨pc, stack, env⟩ (pc + 1) stack (some (.scalar value)) := by
  rcases loads with ⟨const, hit, valued⟩
  refine ⟨env, .single (step_operates hit trivial ?_), coherent⟩
  simp only [operate, valued]
  exact push_ok room

end Arrival

section Branching

variable {world : World} {program : Program} {pc target : Nat} {stack rest : Stack} {env : Env}
  {next : Bool → Option Meaning}

lemma junction_arrives (hit : program.ops[pc]? = some (junctionOp stop last))
    (coherent : Coherent program world.attrs env)
    (onward : value = .bool (!stop) →
      Arrives world program ⟨pc + 1, rest, env⟩ last rest (next (!stop)))
    (stopped : next stop = some (.scalar (.bool stop))) :
    Arrives world program ⟨pc, value :: rest, env⟩ last rest
      ((truth (.scalar value)).bind next) := by
  cases value with
  | bool flag =>
    rcases Bool.eq_or_eq_not flag stop with same | differs
    · subst flag
      show Arrives _ _ _ _ _ (next stop)
      rw [stopped]
      refine ⟨env, .single ?_, coherent⟩
      cases stop <;> exact (step_at hit).trans rfl
    · subst flag
      refine (onward rfl).of_next ?_
      cases stop <;> exact (step_at hit).trans rfl
  | str | int | null =>
    refine ⟨_, toU16 pc, .refl, ?_⟩
    cases stop <;> exact (step_at hit).trans rfl

lemma Arrives.jump (arrives : Arrives world program start pc stack meaning)
    (hit : program.ops[pc]? = some (.jump last)) :
    Arrives world program start last stack meaning := by
  cases meaning with
  | none => exact arrives
  | some meaning =>
    cases meaning with
    | list elems => exact arrives
    | scalar value =>
      rcases arrives with ⟨env, reaches, coherent⟩
      exact ⟨env, reaches.tail ((step_at hit).trans rfl), coherent⟩

lemma branch_arrives (hit : program.ops[pc]? = some (.branchIfFalse target))
    (taken : value = .bool true → Arrives world program ⟨pc + 1, rest, env⟩ last rest (next true))
    (skipped : value = .bool false →
      Arrives world program ⟨target, rest, env⟩ last rest (next false)) :
    Arrives world program ⟨pc, value :: rest, env⟩ last rest
      ((truth (.scalar value)).bind next) := by
  cases value with
  | bool flag =>
    cases flag with
    | true =>
      exact (taken rfl).of_next ((step_at hit).trans rfl)
    | false =>
      exact (skipped rfl).of_next ((step_at hit).trans rfl)
  | str | int | null => exact ⟨_, toU16 pc, .refl, (step_at hit).trans rfl⟩

end Branching

section Simulation

variable {world : World} {program : Program} (verified : Verified program depths)
  (few : program.slots.length ≤ Env.maxSlots) (strings : world.strings = program.strings)

include verified few strings

lemma arrives_of_tight (expr : Expr) (first last stack env)
    (coded : Coded program world.text expr first last) (tight : Tight world expr)
    (tracks : Tracks program depths ⟨first, stack, env⟩)
    (coherent : Coherent program world.attrs env) :
    Arrives world program ⟨first, stack, env⟩ last stack (evaluate world expr) := by
  induction expr generalizing first last stack env with
  | literal constant =>
    rw [Coded, ← strings] at coded
    rcases coded with ⟨rfl, loads⟩
    have room := tracks.room verified loads.choose_spec.1
    simp only [effect] at room
    exact loads.arrives coherent (by omega)
  | ident name =>
    exact tight.elim
  | field base name =>
    rw [Tight, Option.isSome_iff_exists] at tight
    rcases tight with ⟨attr, named⟩
    rw [Coded, named] at coded
    rcases coded with ⟨rfl, slot, hit, listed⟩
    have room := tracks.room verified hit
    simp only [effect] at room
    rcases coherent.slot few listed with ⟨after, resolved, afterCoherent⟩
    rw [evaluate, named]
    refine ⟨after, .single ?_, afterCoherent⟩
    rw [step_at hit]
    simp only [execute, resolved, bind, Except.bind]
    rw [push_ok (by omega)]
    rfl
  | index base key =>
    exact tight.elim
  | size base induction =>
    rcases coded with ⟨middle, baseCoded, rfl, measures⟩
    rw [Tight] at tight
    split at tight
    case isTrue isList =>
      rw [if_pos isList] at measures
      have same := coded_literals isList tight baseCoded
      subst middle
      have room := tracks.room verified measures.choose_spec.1
      simp only [effect] at room
      have sized : evaluate world (.size base) = some (.scalar (.int base.elems.length)) := by
        rw [evaluate, evaluate_literals world isList tight, Option.bind_eq_bind,
          Option.bind_some, size, length_map, Option.map_some]
      rw [sized]
      exact measures.arrives coherent (by omega)
    case isFalse notList =>
      rw [if_neg notList] at measures
      apply (induction first middle stack env baseCoded tight tracks coherent).bind
        verified tracks
      intro value after afterCoherent afterTracks _
      have room := afterTracks.room verified measures
      simp only [effect, length_cons] at room
      exact arrives_of_answer afterCoherent measures trivial
        (operate_size world.engine program middle (by omega) value)
  | test method base arg baseArrives argArrives =>
    rcases coded with ⟨middle, baseCoded, tests⟩
    apply (baseArrives first middle stack env baseCoded tight.1 tracks coherent).bind
      verified tracks
    intro value after afterCoherent afterTracks _
    split at tests
    case isTrue isMatch =>
      rcases tests with ⟨equal, text, regex, literal, hit, pattern⟩
      subst last arg method
      have room := afterTracks.room verified hit
      simp only [effect, length_cons] at room
      rw [← strings] at pattern
      exact arrives_of_answer afterCoherent hit trivial
        (operate_regex world.engine program middle (by omega) pattern value)
    case isFalse other =>
      rcases tests with ⟨notSize, second, argCoded, rfl, hit⟩
      apply (argArrives middle second (value :: stack) after argCoded
        (tight.2.resolve_left other) afterTracks afterCoherent).bind verified afterTracks
      intro argument later laterCoherent laterTracks _
      have room := laterTracks.room verified hit
      rw [effect_methodOp other notSize] at room
      simp only [length_cons] at room
      exact arrives_of_answer laterCoherent hit
        (by cases method <;> trivial)
        (operate_method world.engine program second (by omega) other notSize value argument)
  | not inner induction =>
    rcases coded with ⟨middle, innerCoded, rfl, hit⟩
    apply (induction first middle stack env innerCoded tight tracks coherent).bind
      verified tracks
    intro value after afterCoherent afterTracks _
    have room := afterTracks.room verified hit
    simp only [effect, length_cons] at room
    exact arrives_of_answer afterCoherent hit trivial
      (operate_not world.engine program middle (by omega) value)
  | bin op lhs rhs leftArrives rightArrives =>
    rw [Tight] at tight
    rcases coded with ⟨middle, second, leftCoded, rightCoded, rfl, compares⟩
    apply (leftArrives first middle stack env leftCoded tight.1 tracks coherent).bind
      verified tracks
    intro value after afterCoherent afterTracks _
    rw [Compares] at compares
    split at compares
    case isTrue isIn =>
      subst op
      rcases compares with ⟨isList, const, hit, listed⟩
      have literals : rhs.elems.all Expr.isLiteral := by simpa using tight.2
      have same := coded_literals isList literals rightCoded
      subst second
      have room := afterTracks.room verified hit
      simp only [effect, length_cons] at room
      rw [evaluate_literals world isList literals, strings]
      exact arrives_of_answer afterCoherent hit trivial
        (operate_in world.engine program middle (by omega) listed value)
    case isFalse other =>
      rw [if_neg other] at tight
      apply (rightArrives middle second (value :: stack) after rightCoded tight.2
        afterTracks afterCoherent).bind verified afterTracks
      intro argument later laterCoherent laterTracks _
      have room := laterTracks.room verified compares
      have two : effect (comparisonOp op) = (2, 1) := by cases op <;> rfl
      rw [two] at room
      simp only [length_cons] at room
      exact arrives_of_answer laterCoherent compares (by cases op <;> trivial)
        (operate_comparison world.engine program second (by omega) other value argument)
  | junction stop lhs rhs leftArrives rightArrives =>
    rcases coded with ⟨middle, leftCoded, hit, rightCoded⟩
    apply (leftArrives first middle stack env leftCoded tight.1 tracks coherent).bind
      verified tracks
    intro value after afterCoherent afterTracks decided
    apply junction_arrives hit afterCoherent
    · rintro rfl
      have decides : world.decides lhs = some (!stop) := by
        rw [World.decides, decided]
        rfl
      have moves : step world.engine program world.attrs
          ⟨middle, .bool (!stop) :: stack, after⟩ = .next ⟨middle + 1, stack, after⟩ := by
        cases stop <;> exact (step_at hit).trans rfl
      have rightTracks := (tracks_of_next world.engine world.attrs verified afterTracks moves).2
      rw [if_neg (by simp)]
      exact rightArrives (middle + 1) last stack after rightCoded (tight.2 decides)
        rightTracks afterCoherent
    · rw [if_pos rfl]
  | ternary cond thenExpr elseExpr condArrives thenArrives elseArrives =>
    rcases coded with ⟨middle, second, condCoded, branch, thenCoded, jump, elseCoded⟩
    apply (condArrives first middle stack env condCoded tight.1 tracks coherent).bind
      verified tracks
    intro value after afterCoherent afterTracks decided
    apply branch_arrives branch
    · rintro rfl
      have moves : step world.engine program world.attrs
          ⟨middle, .bool true :: stack, after⟩ = .next ⟨middle + 1, stack, after⟩ :=
        (step_at branch).trans rfl
      have thenTracks := (tracks_of_next world.engine world.attrs verified afterTracks moves).2
      exact (thenArrives (middle + 1) second stack after thenCoded
        (tight.2.1 (by rw [World.decides, decided]; rfl)) thenTracks afterCoherent).jump jump
    · rintro rfl
      have moves : step world.engine program world.attrs
          ⟨middle, .bool false :: stack, after⟩ = .next ⟨second + 1, stack, after⟩ :=
        (step_at branch).trans rfl
      have elseTracks := (tracks_of_next world.engine world.attrs verified afterTracks moves).2
      exact elseArrives (second + 1) last stack after elseCoded
        (tight.2.2 (by rw [World.decides, decided]; rfl)) elseTracks afterCoherent
  | list elems =>
    exact tight.elim

end Simulation

end IronTraffic.Policy
