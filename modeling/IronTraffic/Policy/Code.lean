import IronTraffic.Policy.Compiler
import IronTraffic.Policy.Meaning
import IronTraffic.Policy.Verifier

/-! # The code of an expression

`Coded` says that a stretch of a program is the code of an expression, without
reference to how the compiler got there. List literals push the elements that
are not literals, so the code of an expression may leave any number of operands
behind: its net depth. The depths the verifier recorded agree with it.
-/

namespace IronTraffic.Policy

namespace Expr

def elems : Expr → List Expr
  | .list elems => elems
  | _ => []

def folded (strings : Bytes) : Expr → Value
  | .literal constant => constant.value strings
  | _ => .null

end Expr

/-- The instruction at `spot` loads `value`. -/
def Loads (program : Program) (spot : Nat) (value : Value) : Prop :=
  ∃ const, program.ops[spot]? = some (.loadConst const) ∧ constValue program const = some value

def ListConst (program : Program) (const : Nat) (elems : List Expr) : Prop :=
  ∃ consts, program.listOf const = some consts ∧
    consts.filterMap (constToValue program) = elems.map (Expr.folded program.strings)

/-- The instruction at `spot` matches the pattern a literal spells. -/
def MatchesPattern (program : Program) (spot : Nat) (arg : Expr) : Prop :=
  ∃ text regex, arg = .literal (.str text) ∧ program.ops[spot]? = some (.regexMatch regex) ∧
    program.regex regex = some (rangeOf program.strings text.start text.len)

def Compares (program : Program) (spot : Nat) (op : BinOp) (rhs : Expr) : Prop :=
  if op = .isIn then
    rhs.isList ∧ ∃ const, program.ops[spot]? = some (.inSet const) ∧
      ListConst program const rhs.elems
  else program.ops[spot]? = some (comparisonOp op)

def junctionOp (stop : Bool) (target : Nat) : Op :=
  if stop then .jumpIfTrue target else .jumpIfFalse target

mutual

/-- The instructions from `first` up to `last` are the code of the expression. -/
def Coded (program : Program) (text : Bytes) : Expr → Nat → Nat → Prop
  | .literal constant, first, last =>
    last = first + 1 ∧ Loads program first (constant.value program.strings)
  | .ident _, first, last => last = first
  | .field base name, first, last =>
    match (Expr.field base name).attrOf text with
    | some attr => last = first + 1 ∧ ∃ slot, program.ops[first]? = some (.loadAttr slot) ∧
        program.slots[slot]? = some (.scalar attr)
    | none => last = first
  | .index _ _, first, last =>
    last = first + 2 ∧ (∃ const, program.ops[first]? = some (.loadConst const)) ∧
      ∃ slot, program.ops[first + 1]? = some (.loadAttr slot)
  | .size base, first, last =>
    ∃ middle, Coded program text base first middle ∧ last = middle + 1 ∧
      if base.isList then Loads program middle (.int base.elems.length)
      else program.ops[middle]? = some .size
  | .test method base arg, first, last =>
    ∃ middle, Coded program text base first middle ∧
      if method = .isMatch then last = middle + 1 ∧ MatchesPattern program middle arg
      else method ≠ .size ∧ ∃ second, Coded program text arg middle second ∧
        last = second + 1 ∧ program.ops[second]? = some (methodOp method)
  | .not inner, first, last =>
    ∃ middle, Coded program text inner first middle ∧ last = middle + 1 ∧
      program.ops[middle]? = some .not
  | .bin op lhs rhs, first, last =>
    ∃ middle second, Coded program text lhs first middle ∧
      Coded program text rhs middle second ∧ last = second + 1 ∧ Compares program second op rhs
  | .junction stop lhs rhs, first, last =>
    ∃ middle, Coded program text lhs first middle ∧
      program.ops[middle]? = some (junctionOp stop last) ∧ Coded program text rhs (middle + 1) last
  | .ternary cond thenExpr elseExpr, first, last =>
    ∃ middle second, Coded program text cond first middle ∧
      program.ops[middle]? = some (.branchIfFalse (second + 1)) ∧
      Coded program text thenExpr (middle + 1) second ∧
      program.ops[second]? = some (.jump last) ∧ Coded program text elseExpr (second + 1) last
  | .list elems, first, last => CodedAll program text elems first last

def CodedAll (program : Program) (text : Bytes) : List Expr → Nat → Nat → Prop
  | [], first, last => last = first
  | elem :: rest, first, last =>
    ∃ middle, (if elem.isLiteral then middle = first else Coded program text elem first middle) ∧
        CodedAll program text rest middle last

end

/-! ## Net depth -/

namespace Expr

mutual

def net (text : Bytes) : Expr → Int
  | .literal _ => 1
  | .ident _ => 0
  | .field base name => if ((Expr.field base name).attrOf text).isSome then 1 else 0
  | .index _ _ => 2
  | .size base => if base.isList then base.net text + 1 else base.net text
  | .test method base arg =>
    if method = .isMatch then base.net text else base.net text + arg.net text - 1
  | .not inner => inner.net text
  | .bin op lhs rhs =>
    if op = .isIn then lhs.net text + rhs.net text else lhs.net text + rhs.net text - 1
  | .junction _ lhs _ => lhs.net text
  | .ternary cond thenExpr _ => cond.net text - 1 + thenExpr.net text
  | .list elems => nets text elems

def nets (text : Bytes) : List Expr → Int
  | [] => 0
  | elem :: rest => (if elem.isLiteral then 0 else elem.net text) + nets text rest

end

mutual

def Balanced (text : Bytes) : Expr → Prop
  | .literal _ | .ident _ | .field _ _ | .index _ _ => True
  | .size base => base.Balanced text
  | .test method base arg => base.Balanced text ∧ (method = .isMatch ∨ arg.Balanced text)
  | .not inner => inner.Balanced text
  | .bin _ lhs rhs => lhs.Balanced text ∧ rhs.Balanced text
  | .junction _ lhs rhs => lhs.Balanced text ∧ rhs.Balanced text ∧ rhs.net text = 1
  | .ternary cond thenExpr elseExpr =>
    cond.Balanced text ∧ thenExpr.Balanced text ∧ elseExpr.Balanced text ∧
      thenExpr.net text = elseExpr.net text
  | .list elems => BalancedAll text elems

def BalancedAll (text : Bytes) : List Expr → Prop
  | [] => True
  | elem :: rest => (elem.isLiteral ∨ elem.Balanced text) ∧ BalancedAll text rest

end

end Expr

/-- The verifier recorded `depth` at `spot`. -/
def Reached (depths : List Int) (spot : Nat) (depth : Int) : Prop :=
  depths[spot]? = some depth ∧ 0 ≤ depth

variable {depths : List Int} {spot target : Nat} {op : Op} {depth : Int}

lemma Reached.unique (first : Reached depths spot left) (second : Reached depths spot right) :
    left = right :=
  Option.some.inj (first.1.symm.trans second.1)

lemma effect_methodOp (notMatch : method ≠ .isMatch) (notSize : method ≠ .size) :
    effect (methodOp method) = (2, 1) := by
  cases method with
  | isMatch => exact absurd rfl notMatch
  | size => exact absurd rfl notSize
  | _ => rfl

private lemma codedAll_depth
    (each : ∀ elem ∈ elems,
        ∀ first last depth, Coded program text elem first last → Reached depths first depth →
          Reached depths last (depth + elem.net text) ∧ elem.Balanced text)
    (coded : CodedAll program text elems first last) (reached : Reached depths first depth) :
    Reached depths last (depth + Expr.nets text elems) ∧ Expr.BalancedAll text elems := by
  induction elems generalizing first depth with
  | nil =>
    subst last
    rw [Expr.nets, Int.add_zero]
    exact ⟨reached, trivial⟩
  | cons elem rest induction =>
    rcases coded with ⟨middle, head, tail⟩
    have others := fun later mem => each later (List.mem_cons_of_mem elem mem)
    rw [Expr.nets, Expr.BalancedAll]
    cases literal : elem.isLiteral with
    | true =>
      rw [literal] at head
      simp only [if_true] at head ⊢
      subst middle
      rw [Int.zero_add]
      rcases induction others tail reached with ⟨ends, balanced⟩
      exact ⟨ends, .inl trivial, balanced⟩
    | false =>
      rw [literal] at head
      rcases each elem List.mem_cons_self first middle depth head reached with
        ⟨atMiddle, elemBalanced⟩
      rcases induction others tail atMiddle with ⟨ends, balanced⟩
      rw [← Int.add_assoc]
      exact ⟨ends, .inr elemBalanced, balanced⟩

section Depths

variable {program : Program} (verified : Verified program depths)

include verified

section

variable (reached : Reached depths spot depth)

include reached

lemma Verified.admits
    (hit : program.ops[spot]? = some op) : Admitted program depths spot op depth :=
  verified.admitted spot op depth hit reached.1 reached.2

lemma Verified.falls (hit : program.ops[spot]? = some op)
    (straight : op.Plain ∨ ∃ slot, op = .loadAttr slot) :
    Reached depths (spot + 1) (depth - (effect op).1 + (effect op).2) := by
  have admitted := verified.admits reached hit
  have enough := admitted.enough
  have successors := admitted.successors
  have pushes : 0 ≤ (effect op).2 := by cases op <;> simp [effect]
  refine ⟨?_, by omega⟩
  rcases straight with plain | ⟨slot, equal⟩
  · cases op <;> first | exact successors | exact plain.elim
  · subst op
    exact successors

lemma Verified.jumps (hit : program.ops[spot]? = some (junctionOp stop target)) :
    Reached depths target depth ∧ Reached depths (spot + 1) (depth - 1) := by
  have admitted := verified.admits reached hit
  have enough := admitted.enough
  have successors := admitted.successors
  cases stop with
  | true | false => exact ⟨⟨successors.2.1, reached.2⟩, successors.2.2, Int.sub_nonneg_of_le enough⟩

lemma Verified.branches (hit : program.ops[spot]? = some (.branchIfFalse target)) :
    Reached depths target (depth - 1) ∧ Reached depths (spot + 1) (depth - 1) := by
  have admitted := verified.admits reached hit
  have enough := admitted.enough
  have successors := admitted.successors
  have left : 0 ≤ depth - 1 := Int.sub_nonneg_of_le enough
  exact ⟨⟨successors.2.1, left⟩, successors.2.2, left⟩

lemma Verified.goes
    (hit : program.ops[spot]? = some (.jump target)) : Reached depths target depth :=
  ⟨(verified.admits reached hit).successors.2, reached.2⟩

end

lemma Loads.reached (loads : Loads program spot value) (reached : Reached depths spot depth) :
    Reached depths (spot + 1) (depth + 1) := by
  rcases loads with ⟨const, hit, _⟩
  have falls := verified.falls reached hit (.inl trivial)
  simp only [effect, Int.sub_zero] at falls
  exact falls

lemma Compares.reached {op : BinOp} (compares : Compares program spot op rhs)
    (reached : Reached depths spot depth) :
    Reached depths (spot + 1) (if op = .isIn then depth else depth - 1) := by
  unfold Compares at compares
  split at compares
  case isTrue isIn =>
    rcases compares with ⟨_, const, hit, _⟩
    have falls := verified.falls reached hit (.inl trivial)
    simp only [effect] at falls
    rw [if_pos isIn]
    convert falls using 1
    omega
  case isFalse other =>
    have falls := verified.falls reached compares (by cases op <;> exact .inl trivial)
    rw [if_neg other]
    convert falls using 1
    cases op <;> simp only [comparisonOp, effect] <;> omega

lemma coded_depth (text : Bytes) (expr : Expr) (first last depth)
    (coded : Coded program text expr first last) (reached : Reached depths first depth) :
    Reached depths last (depth + expr.net text) ∧ expr.Balanced text := by
  induction expr generalizing first last depth with
  | literal constant =>
    rcases coded with ⟨rfl, loads⟩
    exact ⟨loads.reached verified reached, trivial⟩
  | ident name =>
    subst last
    rw [Expr.net, Int.add_zero]
    exact ⟨reached, trivial⟩
  | field base name =>
    rw [Coded] at coded
    rw [Expr.net]
    cases named : (Expr.field base name).attrOf text with
    | none =>
      rw [named] at coded
      subst last
      exact ⟨by simpa using reached, trivial⟩
    | some attr =>
      rw [named] at coded
      rcases coded with ⟨rfl, slot, hit, _⟩
      have falls := verified.falls reached hit (.inr ⟨slot, rfl⟩)
      simp only [effect, Int.sub_zero] at falls
      exact ⟨falls, trivial⟩
  | index base key =>
    rcases coded with ⟨rfl, ⟨const, loads⟩, slot, reads⟩
    have middle := verified.falls reached loads (.inl trivial)
    have falls := verified.falls middle reads (.inr ⟨slot, rfl⟩)
    simp only [effect, Int.sub_zero, Int.add_assoc] at falls
    exact ⟨falls, trivial⟩
  | size base induction =>
    rcases coded with ⟨middle, baseCoded, rfl, measures⟩
    rcases induction first middle depth baseCoded reached with ⟨atMiddle, balanced⟩
    rw [Expr.net, Expr.Balanced]
    refine ⟨?_, balanced⟩
    split at measures
    case isTrue isList =>
      rw [if_pos isList, ← Int.add_assoc]
      exact measures.reached verified atMiddle
    case isFalse notList =>
      have falls := verified.falls atMiddle measures (.inl trivial)
      simp only [effect, Int.sub_add_cancel] at falls
      rw [if_neg notList]
      exact falls
  | test method base arg baseDepth argDepth =>
    rcases coded with ⟨middle, baseCoded, tests⟩
    rcases baseDepth first middle depth baseCoded reached with ⟨atMiddle, baseBalanced⟩
    rw [Expr.net, Expr.Balanced]
    split at tests
    case isTrue isMatch =>
      rcases tests with ⟨rfl, _, regex, _, hit, _⟩
      have falls := verified.falls atMiddle hit (.inl trivial)
      simp only [effect, Int.sub_add_cancel] at falls
      rw [if_pos isMatch]
      exact ⟨falls, baseBalanced, .inl isMatch⟩
    case isFalse other =>
      rcases tests with ⟨notSize, second, argCoded, equal, hit⟩
      rcases argDepth middle second _ argCoded atMiddle with ⟨atSecond, argBalanced⟩
      have falls := verified.falls atSecond hit (by cases method <;> exact .inl trivial)
      rw [if_neg other]
      refine ⟨?_, baseBalanced, .inr argBalanced⟩
      rw [effect_methodOp other notSize] at falls
      convert falls using 1
      omega
  | not inner induction =>
    rcases coded with ⟨middle, innerCoded, rfl, hit⟩
    rcases induction first middle depth innerCoded reached with ⟨atMiddle, balanced⟩
    have falls := verified.falls atMiddle hit (.inl trivial)
    simp only [effect, Int.sub_add_cancel] at falls
    exact ⟨falls, balanced⟩
  | bin op lhs rhs leftDepth rightDepth =>
    rcases coded with ⟨middle, second, leftCoded, rightCoded, equal, compares⟩
    rcases leftDepth first middle depth leftCoded reached with ⟨atMiddle, leftBalanced⟩
    rcases rightDepth middle second _ rightCoded atMiddle with ⟨atSecond, rightBalanced⟩
    have ends := compares.reached verified atSecond
    rw [Expr.net, Expr.Balanced]
    refine ⟨?_, leftBalanced, rightBalanced⟩
    convert ends using 1
    split <;> omega
  | junction stop lhs rhs leftDepth rightDepth =>
    rcases coded with ⟨middle, leftCoded, hit, rightCoded⟩
    rcases leftDepth first middle depth leftCoded reached with ⟨atMiddle, leftBalanced⟩
    rcases verified.jumps atMiddle hit with ⟨taken, following⟩
    rcases rightDepth (middle + 1) last _ rightCoded following with ⟨ends, rightBalanced⟩
    have same := taken.unique ends
    exact ⟨taken, leftBalanced, rightBalanced, by omega⟩
  | ternary cond thenExpr elseExpr condDepth thenDepth elseDepth =>
    rcases coded with ⟨middle, second, condCoded, branch, thenCoded, jump, elseCoded⟩
    rcases condDepth first middle depth condCoded reached with ⟨atMiddle, condBalanced⟩
    rcases verified.branches atMiddle branch with ⟨taken, following⟩
    rcases thenDepth (middle + 1) second _ thenCoded following with ⟨atSecond, thenBalanced⟩
    rcases elseDepth (second + 1) last _ elseCoded taken with ⟨elseEnds, elseBalanced⟩
    have ends := verified.goes atSecond jump
    have same := ends.unique elseEnds
    rw [Expr.net, Expr.Balanced]
    refine ⟨?_, condBalanced, thenBalanced, elseBalanced, by omega⟩
    convert ends using 1
    omega
  | list elems each =>
    exact codedAll_depth each coded reached

end Depths

end IronTraffic.Policy
