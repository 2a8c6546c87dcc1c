import IronTraffic.Policy.Compiler
import IronTraffic.Policy.Traversal

/-! # The tables that guide the compiler

Before it emits anything, the compiler marks the places where a jump has to be
reserved and the literals a list or a pattern folds away. Both tables are filled
by a pass in which a node marks its operands, each at one index: its anchor. So
every index of a tree but the anchor of the tree itself is settled when the root
of the tree has been visited.
-/

namespace IronTraffic.Policy

open List

lemma passFrom_modify (items : List Item) (update) (count index : Nat) (state : State)
    (whole : index + count = items.length) :
    passFrom items (fun _ item => modify fun state => update state item) index count state =
      (.ok ((), (items.drop index).foldl update state) : Except Reason (Unit × State)) := by
  induction count generalizing index state with
  | zero =>
    rw [drop_eq_nil_of_le (by omega)]
    rfl
  | succ count induction =>
    have inside : index < items.length := by omega
    rw [passFrom, drop_eq_getElem_cons inside, foldl_cons]
    rw [visitAt, getElem?_eq_getElem inside]
    exact induction (index + 1) _ (by omega)

/-- How a pass marks operands: where each tree has its anchor, what its parent
marks it with, and what stands there when nothing was marked. -/
structure Marking (Mark : Type) where
  anchor : Expr → Nat → Nat
  expected : Expr → Nat → Expr → Mark
  unmarked : Mark
  anchored : ∀ expr start, start ≤ anchor expr start ∧ anchor expr start < start + expr.nodeCount
  inherited : ∀ expr start, anchor expr start = expr.rootFrom start ∨
    ∃ first rest, expr.operands = first :: rest ∧ anchor expr start = anchor first start

variable {operands : List Expr} {start index : Nat} {arena : Arena} {expr : Expr}
  {chosen : Nat → Bool} {ids : List Nat}

namespace Marking

variable {Mark : Type} (marking : Marking Mark)

def IsAnchor (operands : List Expr) (start index : Nat) : Prop :=
  ∃ before operand after, operands = before ++ operand :: after ∧
    index = marking.anchor operand (start + Expr.nodeCounts before)

/-- The operands of an expression are marked as expected, and its root is not. -/
structure Note (table : List Mark) (expr : Expr) (start : Nat) : Prop where
  operand : ∀ before operand after, expr.operands = before ++ operand :: after →
    marking.anchor operand (start + Expr.nodeCounts before) ≠ marking.anchor expr start →
    table[marking.anchor operand (start + Expr.nodeCounts before)]? =
      some (marking.expected expr before.length operand)
  root : expr.rootFrom start ≠ marking.anchor expr start →
    table[expr.rootFrom start]? = some marking.unmarked

structure Visits (mark : List Mark → Node → List Mark) (arena : Arena) : Prop where
  elsewhere : ∀ {expr start argsFrom}, Laid arena expr start →
    LaidNode arena expr start argsFrom → ∀ (table : List Mark) (index : Nat),
      ¬marking.IsAnchor expr.operands start index ∨ index = marking.anchor expr start →
      (mark table (expr.node start argsFrom))[index]? = table[index]?
  marks : ∀ {expr start argsFrom}, Laid arena expr start →
    LaidNode arena expr start argsFrom → ∀ (table : List Mark) before operand after,
      expr.operands = before ++ operand :: after →
      marking.anchor operand (start + Expr.nodeCounts before) ≠ marking.anchor expr start →
      table[marking.anchor operand (start + Expr.nodeCounts before)]? = some marking.unmarked →
      (mark table (expr.node start argsFrom))[marking.anchor operand
        (start + Expr.nodeCounts before)]? = some (marking.expected expr before.length operand)

def Fresh (table : List Mark) (start count : Nat) : Prop :=
  ∀ index, start ≤ index → index < start + count → table[index]? = some marking.unmarked

structure Takes (expr : Expr) (start : Nat) (before after : List Mark) : Prop where
  outside : ∀ index : Nat, index < start ∨ start + expr.nodeCount ≤ index ∨
    index = marking.anchor expr start → after[index]? = before[index]?
  noted : marking.Fresh before start expr.nodeCount → ∀ final : List Mark,
    (∀ index, start ≤ index → index < start + expr.nodeCount →
      index ≠ marking.anchor expr start → final[index]? = after[index]?) →
    Everywhere (marking.Note final) expr start

variable {marking}

lemma isAnchor_range (isAnchor : marking.IsAnchor operands start index) :
    start ≤ index ∧ index < start + Expr.nodeCounts operands := by
  rcases isAnchor with ⟨before, operand, after, split, equal⟩
  have range := marking.anchored operand (start + Expr.nodeCounts before)
  subst operands index
  rw [Expr.nodeCounts_append, Expr.nodeCounts]
  omega

lemma isAnchor_cons :
    marking.IsAnchor (first :: rest) start index ↔ index = marking.anchor first start ∨
      marking.IsAnchor rest (start + first.nodeCount) index := by
  constructor
  · rintro ⟨before, operand, after, split, equal⟩
    cases before with
    | nil =>
      cases split
      exact .inl equal
    | cons head before =>
      simp only [cons_append, cons.injEq] at split
      rcases split with ⟨rfl, split⟩
      rw [Expr.nodeCounts, ← add_assoc] at equal
      exact .inr ⟨before, operand, after, split, equal⟩
  · rintro (equal | ⟨before, operand, after, split, equal⟩)
    · exact ⟨[], first, rest, rfl, equal⟩
    · refine ⟨first :: before, operand, after, by rw [split, cons_append], ?_⟩
      rw [Expr.nodeCounts, ← add_assoc]
      exact equal

private lemma takes_chain {before after} (chain : Chain marking.Takes operands start before after) :
    (∀ index : Nat, index < start ∨ start + Expr.nodeCounts operands ≤ index ∨
       marking.IsAnchor operands start index →
       after[index]? = before[index]?) ∧
    (marking.Fresh before start (Expr.nodeCounts operands) →
     ∀ final : List Mark, (∀ index, start ≤ index → index < start + Expr.nodeCounts operands →
          ¬marking.IsAnchor operands start index → final[index]? = after[index]?) →
       EverywhereAll (marking.Note final) operands start) := by
  induction operands generalizing start before after with
  | nil =>
    subst after
    refine ⟨fun _ _ => rfl, ?_⟩
    intro _ final _ left operand right split
    cases left <;> cases split
  | cons first rest induction =>
    rcases chain with ⟨middle, takes, following⟩
    rcases induction following with ⟨outside, noted⟩
    have range := marking.anchored first start
    rw [Expr.nodeCounts]
    refine ⟨?_, ?_⟩
    · intro index place
      rw [isAnchor_cons] at place
      have later : after[index]? = middle[index]? := by
        apply outside
        rcases place with below | above | anchor | anchor
        · exact .inl (by omega)
        · exact .inr (.inl (by omega))
        · exact .inl (by omega)
        · exact .inr (.inr anchor)
      rw [later]
      apply takes.outside
      rcases place with below | above | anchor | anchor
      · exact .inl below
      · exact .inr (.inl (by omega))
      · exact .inr (.inr anchor)
      · exact .inr (.inl (isAnchor_range anchor).1)
    · intro fresh final agrees left operand right split
      cases left with
      | nil =>
        cases split
        apply takes.noted (fun index above below => fresh index above (by omega)) final
        intro index above below notAnchor
        rw [agrees index above (by omega)]
        · exact outside index (.inl below)
        · rw [isAnchor_cons, not_or]
          exact ⟨notAnchor, fun anchor => absurd (isAnchor_range anchor).1 (by omega)⟩
      | cons head left =>
        simp only [cons_append, cons.injEq] at split
        rcases split with ⟨rfl, split⟩
        rw [Expr.nodeCounts, ← add_assoc]
        apply noted _ final _ left operand right split
        · intro index above below
          rw [takes.outside index (.inr (.inl above))]
          exact fresh index (by omega) (by omega)
        · intro index above below notAnchor
          apply agrees index (by omega) (by omega)
          rw [isAnchor_cons, not_or]
          exact ⟨by omega, notAnchor⟩

private lemma takes_visit (visits : marking.Visits mark arena) (laid : Laid arena expr start)
    (node : LaidNode arena expr start argsFrom)
    (chain : Chain marking.Takes expr.operands start before middle) :
    marking.Takes expr start before (mark middle (expr.node start argsFrom)) := by
  rcases takes_chain chain with ⟨outside, noted⟩
  have root := expr.rootFrom_operands start
  have last := expr.rootFrom_succ start
  have own : middle[marking.anchor expr start]? = before[marking.anchor expr start]? := by
    apply outside
    rcases marking.inherited expr start with isRoot | ⟨first, rest, operands, equal⟩
    · exact .inr (.inl (by omega))
    · exact .inr (.inr ⟨[], first, rest, operands, equal⟩)
  refine ⟨?_, ?_⟩
  · rintro index (below | above | anchor)
    · rw [visits.elsewhere laid node middle index
        (.inl fun isAnchor => absurd (isAnchor_range isAnchor).1 (by omega))]
      exact outside index (.inl below)
    · rw [visits.elsewhere laid node middle index
        (.inl fun isAnchor => absurd (isAnchor_range isAnchor).2 (by omega))]
      exact outside index (.inr (.inl (by omega)))
    · rw [visits.elsewhere laid node middle index (.inr anchor), anchor]
      exact own
  · intro fresh final agrees
    refine .whole ⟨?_, ?_⟩ (noted ?_ final ?_)
    · intro left operand right split apart
      have isAnchor : marking.IsAnchor expr.operands start
          (marking.anchor operand (start + Expr.nodeCounts left)) :=
        ⟨left, operand, right, split, rfl⟩
      have inside := isAnchor_range isAnchor
      rw [agrees _ inside.1 (by omega) apart]
      apply visits.marks laid node middle left operand right split apart
      rw [outside _ (.inr (.inr isAnchor))]
      exact fresh _ inside.1 (by omega)
    · intro apart
      rw [agrees _ (by omega) (by omega) apart, visits.elsewhere laid node]
      · rw [outside _ (.inr (.inl (by omega)))]
        exact fresh _ (by omega) (by omega)
      · exact .inl fun isAnchor => absurd (isAnchor_range isAnchor).2 (by omega)
    · intro index above below
      exact fresh index above (by omega)
    · intro index above below notAnchor
      rw [agrees index above (by omega)]
      · exact visits.elsewhere laid node middle index (.inl notAnchor)
      · intro anchor
        rcases marking.inherited expr start with isRoot | ⟨first, rest, operands, equal⟩
        · omega
        · exact notAnchor ⟨[], first, rest, operands, anchor.trans equal⟩

lemma noted_of_visits (visits : marking.Visits mark arena)
    (laid : Laid arena expr 0) (whole : expr.nodeCount = arena.nodes.length) :
    let table := arena.nodes.foldl mark (replicate arena.nodes.length marking.unmarked)
    table[marking.anchor expr 0]? = some marking.unmarked ∧
      Everywhere (marking.Note table) expr 0 := by
  intro table
  let initial := replicate arena.nodes.length marking.unmarked
  have passed : Establishes (passFrom arena.nodes
      (fun _ node => modify fun table => mark table node) 0 expr.nodeCount) initial
      (fun _ : Empty => True) fun _ after => marking.Takes expr 0 initial after := by
    apply @passFrom_laid _ (fun _ _ => True) _ _ _ _ _ fun _ _ => True
    · exact fun _ _ _ _ _ _ => trivial
    · intro inner start argsFrom before middle innerLaid node _ _ chain
      exact takes_visit visits innerLaid node chain
    · exact laid
    · exact .of_forall (fun _ _ => trivial) _ _
    · trivial
  have takes := passed.of_eq_ok (by
    rw [whole]
    exact passFrom_modify arena.nodes mark _ 0 initial (zero_add _))
  have fresh : marking.Fresh initial 0 expr.nodeCount := by
    intro index _ below
    exact getElem?_replicate_of_lt (by omega)
  refine ⟨?_, takes.noted fresh table fun _ _ _ _ => rfl⟩
  rw [show table[marking.anchor expr 0]? = _ from takes.outside _ (.inr (.inr rfl))]
  exact fresh _ (Nat.zero_le _) (marking.anchored expr 0).2

end Marking

/-! ## Jumps to reserve -/

def junctionHole (stop : Bool) : HoleKind := if stop then .jumpIfTrue else .jumpIfFalse

def Expr.holeBefore : Expr → Nat → Option HoleKind
  | .junction stop _ _, 1 => some (junctionHole stop)
  | .ternary _ _ _, 1 => some .branchIfFalse
  | .ternary _ _ _, 2 => some .jump
  | _, _ => none

def holeMarking : Marking (Option HoleKind) where
  anchor _ start := start
  expected expr spot _ := expr.holeBefore spot
  unmarked := none
  anchored expr start := ⟨le_refl _, by have positive := expr.nodeCount_pos; omega⟩
  inherited expr start := by
    cases operands : expr.operands with
    | nil =>
      left
      rw [expr.rootFrom_operands, operands]
      rfl
    | cons first rest => exact .inr ⟨first, rest, rfl, rfl⟩

lemma markHoles_node (table) (expr : Expr) (start argsFrom : Nat) :
    markHoles table (expr.node start argsFrom) =
      match expr with
      | .junction stop lhs _ => table.set (start + lhs.nodeCount) (some (junctionHole stop))
      | .ternary cond thenExpr _ =>
        (table.set (start + cond.nodeCount) (some .branchIfFalse)).set
          (start + cond.nodeCount + thenExpr.nodeCount) (some .jump)
      | _ => table := by
  cases expr with
  | literal constant => cases constant <;> rfl
  | junction stop lhs rhs =>
    cases stop <;> simp only [Expr.node, junctionNode, junctionHole, markHoles,
      lhs.rootFrom_succ, Bool.false_eq_true, if_true, if_false]
  | ternary cond thenExpr elseExpr =>
    simp only [Expr.node, markHoles, cond.rootFrom_succ, thenExpr.rootFrom_succ]
  | _ => rfl

lemma markHoles_visits (arena : Arena) : holeMarking.Visits markHoles arena where
  elsewhere := by
    intro expr start argsFrom _ _ table index place
    rw [markHoles_node]
    cases expr with
    | junction stop lhs rhs =>
      have positive := lhs.nodeCount_pos
      apply getElem?_set_ne
      intro equal
      rcases place with notAnchor | isStart
      · exact notAnchor ⟨[lhs], rhs, [], rfl, equal.symm⟩
      · simp only [holeMarking] at isStart
        omega
    | ternary cond thenExpr elseExpr =>
      have condPositive := cond.nodeCount_pos
      have differs : index ≠ start + cond.nodeCount ∧
          index ≠ start + cond.nodeCount + thenExpr.nodeCount := by
        rcases place with notAnchor | isStart
        · refine ⟨fun equal => notAnchor ⟨[cond], thenExpr, [elseExpr], rfl, equal⟩,
            fun equal => notAnchor ⟨[cond, thenExpr], elseExpr, [], rfl, ?_⟩⟩
          simp only [holeMarking, Expr.nodeCounts]
          omega
        · simp only [holeMarking] at isStart
          omega
      rw [getElem?_set_ne (Ne.symm differs.2), getElem?_set_ne (Ne.symm differs.1)]
    | _ => rfl
  marks := by
    intro expr start argsFrom _ _ table before operand after split apart fresh
    have inside := lt_of_getElem? fresh
    simp only [holeMarking] at apart fresh inside ⊢
    rw [markHoles_node]
    cases expr with
    | junction stop lhs rhs =>
      rcases before with _ | ⟨first, _ | ⟨second, more⟩⟩
      · simp [Expr.nodeCounts] at apart
      · cases split
        exact getElem?_set_self inside
      · cases more <;> cases split
    | ternary cond thenExpr elseExpr =>
      have positive := thenExpr.nodeCount_pos
      rcases before with _ | ⟨first, _ | ⟨second, _ | ⟨third, more⟩⟩⟩
      · simp [Expr.nodeCounts] at apart
      · cases split
        simp only [Expr.nodeCounts, add_zero] at inside ⊢
        rw [getElem?_set_ne (by omega)]
        exact getElem?_set_self inside
      · cases split
        simp only [Expr.nodeCounts, add_zero, ← add_assoc] at inside ⊢
        exact getElem?_set_self (by rw [length_set]; exact inside)
      · cases more <;> cases split
    | _ => exact fresh

/-! ## Literals to fold -/

def Expr.folds : Expr → Nat → Expr → Bool
  | .list _, _, operand => operand.isLiteral
  | .test .isMatch _ _, spot, _ => spot == 1
  | _, _, _ => false

def foldMarking : Marking Bool where
  anchor expr start := expr.rootFrom start
  expected := Expr.folds
  unmarked := false
  anchored expr start := by
    have last := expr.rootFrom_succ start
    have positive := expr.nodeCount_pos
    omega
  inherited _ _ := .inl rfl

lemma isLiteralNode_laid (laid : Laid ast.arena expr start) :
    isLiteralNode ast (expr.rootFrom start) = expr.isLiteral := by
  rcases laid.here with ⟨argsFrom, node⟩
  have hit : ast.node (expr.rootFrom start) = _ := node.hit
  rw [isLiteralNode, hit]
  cases expr with
  | literal constant => cases constant <;> rfl
  | junction stop => cases stop <;> rfl
  | _ => rfl

private def setChosen (chosen : Nat → Bool) (table : List Bool) (ids : List Nat) : List Bool :=
  ids.foldl (fun table id => if chosen id then table.set id true else table) table

private lemma setChosen_other (absent : index ∉ ids) (table) :
    (setChosen chosen table ids)[index]? = table[index]? := by
  induction ids generalizing table with
  | nil => rfl
  | cons id rest induction =>
    rw [mem_cons, not_or] at absent
    unfold setChosen at induction ⊢
    rw [foldl_cons, induction absent.2]
    split
    · exact getElem?_set_ne (Ne.symm absent.1)
    · rfl

private lemma setChosen_listed (hit : table[index]? = some value) :
    (setChosen chosen table ids)[index]? =
      some (value || (decide (index ∈ ids) && chosen index)) := by
  induction ids generalizing table value with
  | nil => simpa [setChosen] using hit
  | cons id rest induction =>
    unfold setChosen at induction ⊢
    rw [foldl_cons]
    rcases eq_or_ne index id with same | apart
    · subst id
      cases isChosen : chosen index with
      | true =>
        rw [if_pos rfl, induction (getElem?_set_self (lt_of_getElem? hit))]
        simp
      | false =>
        rw [if_neg (by simp), induction hit, isChosen]
        simp
    · have kept : (if chosen id then table.set id true else table)[index]? = some value := by
        split
        · rw [getElem?_set_ne (Ne.symm apart)]
          exact hit
        · exact hit
      rw [induction kept]
      simp [apart]

lemma mem_rootsFrom :
    index ∈ Expr.rootsFrom elems start ↔ foldMarking.IsAnchor elems start index := by
  induction elems generalizing start with
  | nil =>
    constructor
    · intro mem
      cases mem
    · rintro ⟨before, _, _, split, _⟩
      cases before <;> cases split
  | cons elem rest induction =>
    rw [Expr.rootsFrom, mem_cons, induction, Marking.isAnchor_cons]
    exact Iff.rfl

section Folding

variable {base arg : Expr} {argsFrom : Nat} {table : List Bool}

private lemma markSuppressed_list (node : LaidNode ast.arena (.list elems) start argsFrom) :
    markSuppressed ast table (Expr.node start argsFrom (.list elems)) =
      setChosen (isLiteralNode ast) table (Expr.rootsFrom elems start) := by
  rw [Expr.node, markSuppressed, node.argsOf_list]
  rfl

private lemma markSuppressed_test
    (node : LaidNode ast.arena (.test method base arg) start argsFrom) :
    markSuppressed ast table (Expr.node start argsFrom (.test method base arg)) =
      if method = .isMatch then table.set (arg.rootFrom (start + base.nodeCount)) true
      else table := by
  cases method with
  | isMatch =>
    rw [Expr.node, markSuppressed, node.argsOf_test, if_pos rfl]
    rfl
  | _ => rfl

lemma markSuppressed_visits (ast : Ast) : foldMarking.Visits (markSuppressed ast) ast.arena where
  elsewhere := by
    intro expr start argsFrom laid node table index place
    have last := expr.rootFrom_operands start
    have notAnchor : ¬foldMarking.IsAnchor expr.operands start index := by
      rcases place with notAnchor | isRoot
      · exact notAnchor
      · intro isAnchor
        have range := Marking.isAnchor_range isAnchor
        rw [show index = expr.rootFrom start from isRoot] at range
        omega
    cases expr with
    | list elems =>
      rw [markSuppressed_list node]
      exact setChosen_other (fun mem => notAnchor (mem_rootsFrom.mp mem)) table
    | test method base arg =>
      rw [markSuppressed_test node]
      split
      · apply getElem?_set_ne
        intro equal
        exact notAnchor ⟨[base], arg, [], rfl, equal.symm⟩
      · rfl
    | literal constant => cases constant <;> rfl
    | junction stop => cases stop <;> rfl
    | _ => rfl
  marks := by
    intro expr start argsFrom laid node table before operand after split apart fresh
    simp only [foldMarking] at fresh ⊢
    cases expr with
    | list elems =>
      have mem : operand.rootFrom (start + Expr.nodeCounts before) ∈
          Expr.rootsFrom elems start :=
        mem_rootsFrom.mpr ⟨before, operand, after, split, rfl⟩
      rw [markSuppressed_list node, setChosen_listed fresh, decide_eq_true mem,
        isLiteralNode_laid (laid.inside split)]
      rfl
    | test method base arg =>
      have inside := lt_of_getElem? fresh
      rw [markSuppressed_test node]
      split
      case isTrue isMatch =>
        subst method
        rcases before with _ | ⟨first, _ | ⟨second, more⟩⟩
        · cases split
          rw [getElem?_set_ne]
          · exact fresh
          · have first := operand.rootFrom_succ start
            have second := arg.rootFrom_succ (start + operand.nodeCount)
            have positive := arg.nodeCount_pos
            simp only [Expr.nodeCounts, add_zero]
            omega
        · cases split
          exact getElem?_set_self inside
        · cases more <;> cases split
      case isFalse other =>
        cases method <;> first | exact fresh | exact absurd rfl other
    | literal constant => cases constant <;> exact fresh
    | junction stop => cases stop <;> exact fresh
    | _ => exact fresh

end Folding

end IronTraffic.Policy
