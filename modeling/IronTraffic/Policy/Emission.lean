import IronTraffic.Policy.Code
import IronTraffic.Policy.Marks
import IronTraffic.Policy.Typing

/-! # The compiler emits the code of the tree

The forward pass appends the code of each tree to what it emitted before. The
tables of constants, list elements and regexes only grow, so what an instruction
refers to stays what it was when the instruction was emitted.
-/

namespace IronTraffic.Policy

open List

/-! ## Code and tables -/

/-- The instructions from `first` on start with `segment`. -/
def SegmentAt (ops : List Op) (first : Nat) (segment : List Op) : Prop :=
  ∃ before after, ops = before ++ segment ++ after ∧ before.length = first

variable {rest : List Op} {input : CompileInput} {index later start const : Nat}
  {after other : Compiler} {program : Program} {Item : Type} {want : Const} {expr : Expr}

namespace SegmentAt

variable {ops : List Op} {first : Nat}

lemma left (hit : SegmentAt ops first (front ++ back)) : SegmentAt ops first front := by
  rcases hit with ⟨before, after, equal, length⟩
  exact ⟨before, back ++ after, by simp only [equal, append_assoc], length⟩

lemma right (hit : SegmentAt ops first (front ++ back)) :
    SegmentAt ops (first + front.length) back := by
  rcases hit with ⟨before, after, equal, length⟩
  refine ⟨before ++ front, after, by simp only [equal, append_assoc], ?_⟩
  rw [length_append, length]

lemma hit (at_ : SegmentAt ops first (op :: rest)) : ops[first]? = some op := by
  rcases at_ with ⟨before, after, equal, length⟩
  subst first ops
  simp

lemma tail (hit : SegmentAt ops first (op :: rest)) : SegmentAt ops (first + 1) rest := by
  have cut : SegmentAt ops first ([op] ++ rest) := hit
  exact cut.right

end SegmentAt

namespace Compiler

structure Grows (before after : Compiler) : Prop where
  consts : before.consts <+: after.consts
  listElems : before.listElems <+: after.listElems
  regexes : before.regexes <+: after.regexes

lemma Grows.refl (state) : Grows state state :=
  ⟨prefix_refl _, prefix_refl _, prefix_refl _⟩

lemma Grows.trans (left : Grows first second) (right : Grows second third) : Grows first third :=
  ⟨left.consts.trans right.consts, left.listElems.trans right.listElems,
    left.regexes.trans right.regexes⟩

/-- The tables are within their limits, lists refer to elements that exist, and
the tables that are indexed by node cover all nodes. -/
structure Ready (input : CompileInput) (index : Nat) (state : Compiler) : Prop where
  consts : state.consts.length ≤ input.limits.maxConsts.toNat
  regexes : state.regexes.length ≤ input.limits.maxRegex.toNat
  lists : ∀ start len, Const.list start len ∈ state.consts → start + len ≤ state.listElems.length
  elems : state.listElems.length ≤ index
  holePos : state.holePos.length = input.checked.ast.nodes.length
  nodeConst : state.nodeConst.length = input.checked.ast.nodes.length

lemma Ready.mono {state : Compiler} (ready : state.Ready input index) (forward : index ≤ later) :
    state.Ready input later :=
  { ready with elems := ready.elems.trans forward }

structure Carried (input : CompileInput) (state : Compiler) (program : Program) : Prop where
  consts : state.consts <+: program.consts
  listElems : state.listElems <+: program.listElems
  regexes : state.regexes <+: program.regexes
  strings : program.strings = input.checked.strings
  slots : program.slots = input.checked.slots

lemma Carried.of_grows (carried : Carried input after program) (grows : before.Grows after) :
    Carried input before program :=
  ⟨grows.consts.trans carried.consts, grows.listElems.trans carried.listElems,
    grows.regexes.trans carried.regexes, carried.strings, carried.slots⟩

end Compiler

lemma getElem?_grown {before after : List Item} (grown : before <+: after)
    (hit : before[index]? = some item) : after[index]? = some item := by
  rcases grown with ⟨rest, equal⟩
  rw [← equal]
  exact getElem?_append_of_eq_some hit rest

lemma rangeOf_grown {before after : List Item} (grown : before <+: after)
    (inside : start + len ≤ before.length) :
    rangeOf after start len = rangeOf before start len := by
  rcases grown with ⟨rest, equal⟩
  have hit : slice before start (start + len) =
      some ((before.drop start).take (start + len - start)) := by
    unfold slice
    rw [if_pos ⟨Nat.le_add_right _ _, inside⟩]
  unfold rangeOf
  rw [← equal, slice_append_of_eq_some hit rest, hit]

/-! ## Interning -/

section Interning

variable {state : Compiler}

abbrev Emitting (action : CompileM Result) (state : Compiler)
    (post : Result → Compiler → Prop) : Prop :=
  Establishes action state (fun _ => True) post

lemma toU16_of_le (small : number ≤ u16Max) : toU16 number = number :=
  min_eq_left small

def Const.isScalar : Const → Bool
  | .list _ _ => false
  | _ => true

lemma constToValue_of_scalarEq (equal : scalarEq program.strings left right) :
    constToValue program left = constToValue program right := by
  cases left <;> cases right <;> simp_all [scalarEq, constToValue, Program.constStr]

/-- What interning adds: at most the constant itself, found at the index. -/
structure Interned (input : CompileInput) (before : Compiler) (want : Const) (const : Nat)
    (after : Compiler) : Prop where
  state : after = { before with consts := after.consts }
  grows : before.consts <+: after.consts
  limit : after.consts.length ≤ input.limits.maxConsts.toNat
  new : ∀ other ∈ after.consts, other ∈ before.consts ∨ other = want
  hit : ∃ other, after.consts[const]? = some other ∧
    ((other ∈ before.consts ∧ constEq input.checked.strings before.listElems other want) ∨
      other = want)

lemma internConst_emits (want : Const)
    (limit : state.consts.length ≤ input.limits.maxConsts.toNat) :
    Emitting (internConst input want) state (Interned input state want) := by
  have small : input.limits.maxConsts.toNat ≤ u16Max :=
    Nat.le_of_lt_succ input.limits.maxConsts.toNat_lt
  unfold Emitting Establishes internConst
  cases search : state.consts.findIdx? fun const =>
      constEq input.checked.strings state.listElems const want with
  | some spot =>
    rw [findIdx?_eq_some_iff_getElem] at search
    rcases search with ⟨inside, equal, _⟩
    refine ⟨rfl, prefix_refl _, limit, fun _ mem => .inl mem,
      state.consts[spot], ?_, .inl ⟨getElem_mem inside, equal⟩⟩
    rw [toU16_of_le (by omega)]
    exact getElem?_eq_getElem inside
  | none =>
    dsimp only
    split
    case isTrue => trivial
    case isFalse room =>
      refine ⟨rfl, prefix_append _ _, ?_, ?_, want, ?_, .inr rfl⟩
      · simp only [length_append, length_singleton]
        omega
      · intro other mem
        simpa using mem
      · dsimp only
        rw [toU16_of_le (by omega)]
        exact getElem?_concat_length

lemma Interned.grown (interned : Interned input state want const after) : state.Grows after := by
  refine ⟨interned.grows, ?_, ?_⟩
  all_goals
    rw [interned.state]

lemma Interned.value (interned : Interned input state want const after)
    (isScalar : want.isScalar) (carried : after.Carried input program) :
    constValue program const = constToValue program want := by
  rcases interned.hit with ⟨other, hit, same⟩
  have listed := getElem?_grown carried.consts hit
  rw [constValue, listed, Option.bind_some]
  rcases same with ⟨_, equal⟩ | equal
  · rw [← carried.strings] at equal
    apply constToValue_of_scalarEq
    cases other <;> cases want <;> first | exact equal | cases isScalar
  · rw [equal]

private lemma filterMap_of_scalarEq (left right : List Const) (length : left.length = right.length)
    (equal : (left.zip right).all fun pair => scalarEq program.strings pair.1 pair.2) :
    left.filterMap (constToValue program) = right.filterMap (constToValue program) := by
  induction left generalizing right with
  | nil =>
    rw [eq_nil_of_length_eq_zero length.symm]
  | cons head tail induction =>
    cases right with
    | nil => cases length
    | cons other rest =>
      simp only [zip_cons_cons, all_cons, Bool.and_eq_true] at equal
      rw [filterMap_cons, filterMap_cons, constToValue_of_scalarEq equal.1,
        induction rest (Nat.succ.inj length) equal.2]

lemma Interned.list
    (ready : ∀ start len, Const.list start len ∈ state.consts →
      start + len ≤ state.listElems.length)
    (interned : Interned input state (.list start len) const after)
    (inside : start + len ≤ state.listElems.length) (carried : after.Carried input program) :
    ∃ consts, program.listOf const = some consts ∧
      consts.filterMap (constToValue program) =
        (rangeOf state.listElems start len).filterMap (constToValue program) := by
  have grown := (carried.of_grows interned.grown).listElems
  rcases interned.hit with ⟨other, hit, same⟩
  have listed := getElem?_grown carried.consts hit
  rcases same with ⟨mem, equal⟩ | equal
  · cases other with
    | list otherStart otherLen =>
      refine ⟨rangeOf program.listElems otherStart otherLen, ?_, ?_⟩
      · simp only [Program.listOf, listed]
      · rw [rangeOf_grown grown (ready _ _ mem)]
        simp only [constEq, Bool.and_eq_true, beq_iff_eq] at equal
        rw [← carried.strings] at equal
        exact filterMap_of_scalarEq _ _ equal.1 equal.2
    | bool | int | str | null => cases equal
  · subst other
    refine ⟨rangeOf program.listElems start len, ?_, ?_⟩
    · simp only [Program.listOf, listed]
    · rw [rangeOf_grown grown inside]

structure InternedRegex (input : CompileInput) (before : Compiler) (pattern : Bytes)
    (regex : Nat) (after : Compiler) : Prop where
  state : after = { before with regexes := after.regexes }
  grows : before.regexes <+: after.regexes
  limit : after.regexes.length ≤ input.limits.maxRegex.toNat
  hit : after.regexes[regex]? = some pattern

lemma internRegex_emits (pattern : Bytes) (spot : Nat)
    (limit : state.regexes.length ≤ input.limits.maxRegex.toNat) :
    Emitting (internRegex input pattern spot) state (InternedRegex input state pattern) := by
  have small : input.limits.maxRegex.toNat ≤ u16Max :=
    Nat.le_of_lt_succ input.limits.maxRegex.toNat_lt
  unfold Emitting Establishes internRegex
  cases search : state.regexes.findIdx? fun regex => regex == pattern with
  | some spot =>
    rw [findIdx?_eq_some_iff_getElem] at search
    rcases search with ⟨inside, equal, _⟩
    refine ⟨rfl, prefix_refl _, limit, ?_⟩
    rw [toU16_of_le (by omega), getElem?_eq_getElem inside, beq_iff_eq.mp equal]
  | none =>
    dsimp only
    split
    case isTrue => trivial
    case isFalse room =>
      split
      case h_1 => trivial
      case h_2 =>
        refine ⟨rfl, prefix_append _ _, ?_, ?_⟩
        · simp only [length_append, length_singleton]
          omega
        · dsimp only
          rw [toU16_of_le (by omega)]
          exact getElem?_concat_length

end Interning

/-! ## Reserved jumps -/

def CompileInput.holeAt (input : CompileInput) (index : Nat) : Option HoleKind :=
  (input.holeBefore[index]?).join

def holeOps (hole : Option HoleKind) : List Op := (hole.map placeholderFor).toList

/-- The state once the jump before node `index` is reserved. -/
def Compiler.opened (input : CompileInput) (index : Nat) (state : Compiler) : Compiler :=
  match input.holeAt index with
  | none => state
  | some kind =>
    { state with
      holePos := state.holePos.set index (toU16 state.code.length)
      code := state.code ++ [placeholderFor kind] }

lemma openHole_eq (input) (index : Nat) (state) :
    openHole input index state = .ok ((), state.opened input index) := by
  unfold openHole Compiler.opened CompileInput.holeAt
  split <;> simp_all <;> rfl

/-- Where the code of the expression at `start` begins. -/
def codeFrom (input : CompileInput) (start : Nat) (before : Compiler) : Nat :=
  before.code.length + (holeOps (input.holeAt start)).length

/-- From `before` to `after` the reserved jump and `segment` were emitted. -/
structure Begun (input : CompileInput) (start : Nat) (before after : Compiler)
    (segment : List Op) : Prop where
  code : after.code = before.code ++ holeOps (input.holeAt start) ++ segment
  holes : ∀ index < start, after.holePos[index]? = before.holePos[index]?
  opened : (input.holeAt start).isSome → after.holePos[start]? = some before.code.length

namespace Begun

variable {before middle : Compiler} {segment : List Op}

lemma of_leaf (covers : start < before.holePos.length) (small : before.code.length ≤ u16Max) :
    Begun input start before (before.opened input start) [] := by
  unfold Compiler.opened
  cases hole : input.holeAt start with
  | none =>
    refine ⟨by simp [hole, holeOps], fun _ _ => rfl, ?_⟩
    intro reserved
    rw [hole] at reserved
    cases reserved
  | some kind =>
    refine ⟨by simp [hole, holeOps], ?_, ?_⟩
    · intro index below
      exact getElem?_set_ne (by omega)
    · intro _
      rw [getElem?_set_self covers, toU16_of_le small]

lemma append (begun : Begun input start before middle segment)
    (next : Begun input later middle after rest) (forward : start < later) :
    Begun input start before after (segment ++ holeOps (input.holeAt later) ++ rest) := by
  refine ⟨by simp only [next.code, begun.code, append_assoc], ?_, ?_⟩
  · intro index below
    rw [next.holes index (by omega)]
    exact begun.holes index below
  · intro reserved
    rw [next.holes start forward]
    exact begun.opened reserved

section

variable (begun : Begun input start before after segment)

include begun

lemma length : after.code.length = codeFrom input start before + segment.length := by
  rw [begun.code, length_append, length_append, codeFrom]

lemma congr (code : other.code = after.code) (holePos : other.holePos = after.holePos) :
    Begun input start before other segment := by
  refine ⟨by rw [code, begun.code], ?_, ?_⟩
  · intro index below
    rw [holePos]
    exact begun.holes index below
  · intro reserved
    rw [holePos]
    exact begun.opened reserved

lemma emit (code : other.code = after.code ++ [op]) (holePos : other.holePos = after.holePos) :
    Begun input start before other (segment ++ [op]) := by
  have same : Begun input start before { after with code := other.code } (segment ++ [op]) :=
    ⟨by simp only [code, begun.code, append_assoc], begun.holes, begun.opened⟩
  exact same.congr rfl holePos

lemma codeFrom_next (later : Nat) :
    codeFrom input later after =
      codeFrom input start before + (segment ++ holeOps (input.holeAt later)).length := by
  rw [codeFrom, begun.length, length_append, add_assoc]

end

end Begun

/-! ## What a tree adds -/

/-- The emitted segment is the code of the expression. A literal that its parent
folds adds nothing, and a list literal has a constant. -/
structure Emitted (input : CompileInput) (text : Bytes) (expr : Expr) (start : Nat)
    (before after : Compiler) (segment : List Op) : Prop extends
    Begun input start before after segment where
  coded : isSuppressed input (expr.rootFrom start) = false →
    ∀ program, after.Carried input program →
      SegmentAt program.ops (codeFrom input start before) segment →
      Coded program text expr (codeFrom input start before)
        (codeFrom input start before + segment.length)
  folded : isSuppressed input (expr.rootFrom start) → expr.isLiteral → segment = []
  listed : ∀ elems, expr = .list elems →
    ∃ const, after.nodeConst[expr.rootFrom start]? = some const ∧
      ∀ program, after.Carried input program → ListConst program const elems

/-- What the pass over a tree does. Jump targets saturate, so the code is as it
should be when it is not longer than a target can say. -/
structure Emits (input : CompileInput) (text : Bytes) (expr : Expr) (start : Nat)
    (before after : Compiler) : Prop where
  ready : after.Ready input (start + expr.nodeCount)
  grows : before.Grows after
  longer : before.code.length ≤ after.code.length
  elems : after.listElems.length + 1 ≤ before.listElems.length + expr.nodeCount
  emitted : after.code.length ≤ u16Max →
    ∃ segment, Emitted input text expr start before after segment

structure Prepared (input : CompileInput) (operands : List Expr) (start : Nat)
    (before state : Compiler) : Prop where
  ready : state.Ready input (start + Expr.nodeCounts operands)
  grows : before.Grows state
  longer : before.code.length ≤ state.code.length
  elems : state.listElems.length + operands.length ≤
    before.listElems.length + Expr.nodeCounts operands

structure Tabled (input : CompileInput) (index : Nat) (state tables : Compiler) : Prop where
  ready : tables.Ready input index
  grows : state.Grows tables
  code : tables.code = state.code
  holePos : tables.holePos = state.holePos
  nodeConst : tables.nodeConst = state.nodeConst
  listElems : tables.listElems = state.listElems

section Emission

variable {text : Bytes} {operands : List Expr} {before state tables : Compiler}

lemma Tabled.refl (ready : state.Ready input index) : Tabled input index state state :=
  ⟨ready, .refl state, rfl, rfl, rfl, rfl⟩

lemma Interned.tabled (ready : state.Ready input index)
    (inside : ∀ start len, want = .list start len → start + len ≤ state.listElems.length)
    (interned : Interned input state want const after) : Tabled input index state after := by
  have equal := interned.state
  refine ⟨⟨interned.limit, ?_, ?_, ?_, ?_, ?_⟩, interned.grown, ?_, ?_, ?_, ?_⟩
  case refine_2 =>
    intro start len mem
    rw [equal]
    rcases interned.new _ mem with old | new
    · exact ready.lists start len old
    · exact inside start len new.symm
  all_goals
    rw [equal]
  · exact ready.regexes
  · exact ready.elems
  · exact ready.holePos
  · exact ready.nodeConst

lemma InternedRegex.tabled (ready : state.Ready input index)
    (interned : InternedRegex input state pattern regex after) :
    Tabled input index state after := by
  have equal := interned.state
  refine ⟨⟨?_, interned.limit, ?_, ?_, ?_, ?_⟩, ⟨?_, ?_, interned.grows⟩, ?_, ?_, ?_, ?_⟩
  all_goals
    rw [equal]
  · exact ready.consts
  · exact ready.lists
  · exact ready.elems
  · exact ready.holePos
  · exact ready.nodeConst

lemma prepared_of_chain (chain : Chain (Emits input text) operands start before state)
    (ready : before.Ready input start) : Prepared input operands start before state := by
  induction operands generalizing start before with
  | nil =>
    subst state
    exact ⟨ready, .refl before, le_refl _, le_refl _⟩
  | cons operand rest induction =>
    rcases chain with ⟨middle, emits, following⟩
    have next := induction following emits.ready
    have elems := emits.elems
    have later := next.elems
    refine ⟨?_, emits.grows.trans next.grows, emits.longer.trans next.longer, ?_⟩
    · rw [Expr.nodeCounts, ← add_assoc]
      exact next.ready
    · rw [Expr.nodeCounts, length_cons]
      omega

lemma Prepared.opened (prepared : Prepared input operands start before state) :
    Prepared input operands start before (state.opened input index) := by
  unfold Compiler.opened
  split
  case h_1 => exact prepared
  case h_2 =>
    have ready := prepared.ready
    refine ⟨{ ready with holePos := ?_ }, ?_, ?_, prepared.elems⟩
    · dsimp only
      rw [length_set]
      exact ready.holePos
    · exact ⟨prepared.grows.consts, prepared.grows.listElems, prepared.grows.regexes⟩
    · exact prepared.longer.trans (by simp)

section

variable (prepared : Prepared input expr.operands start before state)

include prepared

lemma Prepared.emits (ready : after.Ready input (start + Expr.nodeCounts expr.operands))
    (grows : state.Grows after) (longer : state.code.length ≤ after.code.length)
    (elems : after.listElems = state.listElems)
    (emitted : after.code.length ≤ u16Max →
      ∃ segment, Emitted input text expr start before after segment) :
    Emits input text expr start before after := by
  have count := expr.nodeCount_operands
  refine ⟨ready.mono (by omega), prepared.grows.trans grows, prepared.longer.trans longer, ?_,
    emitted⟩
  have bound := prepared.elems
  rw [elems, count]
  omega

lemma Prepared.emits_nothing (notList : expr.isList = false)
    (emitted : state.code.length ≤ u16Max →
      ∃ segment, Begun input start before state segment ∧
        (isSuppressed input (expr.rootFrom start) = false →
         ∀ program, state.Carried input program →
           SegmentAt program.ops (codeFrom input start before) segment →
           Coded program text expr (codeFrom input start before)
             (codeFrom input start before + segment.length)) ∧
        (isSuppressed input (expr.rootFrom start) → expr.isLiteral → segment = [])) :
    Emits input text expr start before state := by
  apply prepared.emits prepared.ready (.refl state) (le_refl _) rfl
  intro small
  rcases emitted small with ⟨segment, begun, coded, folded⟩
  refine ⟨segment, begun, coded, folded, ?_⟩
  intro elems equal
  rw [equal] at notList
  cases notList

lemma Prepared.emits_op
    (tabled : Tabled input (start + Expr.nodeCounts expr.operands) state tables) (op : Op)
    (notList : expr.isList = false)
    (kept : isSuppressed input (expr.rootFrom start) → expr.isLiteral = false)
    (emitted : state.code.length ≤ u16Max → ∃ segment, Begun input start before state segment ∧
      ∀ program, tables.Carried input program →
        SegmentAt program.ops (codeFrom input start before) segment →
        program.ops[codeFrom input start before + segment.length]? = some op →
        Coded program text expr (codeFrom input start before)
          (codeFrom input start before + segment.length + 1)) :
    Emits input text expr start before { tables with code := tables.code ++ [op] } := by
  have code := tabled.code
  apply prepared.emits
  · have ready := tabled.ready
    exact { ready with }
  · exact ⟨tabled.grows.consts, tabled.grows.listElems, tabled.grows.regexes⟩
  · simp [code]
  · exact tabled.listElems
  intro small
  have shorter : state.code.length ≤ u16Max := by
    simp only [length_append, code] at small
    omega
  rcases emitted shorter with ⟨segment, begun, coded⟩
  refine ⟨segment ++ [op], begun.emit (by simp [code]) tabled.holePos, ?_, ?_, ?_⟩
  · intro _ program carried hit
    rw [length_append, length_singleton, ← add_assoc]
    exact coded program (carried.of_grows ⟨prefix_refl _, prefix_refl _,
      prefix_refl _⟩) hit.left hit.right.hit
  · intro suppressed literal
    rw [kept suppressed] at literal
    cases literal
  · intro elems equal
    rw [equal] at notList
    cases notList

end

end Emission

/-! ## Operands without jumps between them -/

/-- What the tables say about a node: it is typed, its slot is right, and jumps
and folded literals are marked at its operands. -/
structure Guided (input : CompileInput) (text : Bytes) (expr : Expr) (start : Nat) :
    Prop where
  typed : ∃ ty, HasType text expr ty
  slot : SlotNote text input.checked.nodeSlot input.checked.slots expr (expr.rootFrom start)
  holes : holeMarking.Note input.holeBefore expr start
  folds : foldMarking.Note input.suppressed expr start

namespace Guided

variable {text : Bytes} {operand : Expr} {earlier later : List Expr}

section

variable (guided : Guided input text expr start)

include guided

lemma holeAt_operand (split : expr.operands = earlier ++ operand :: later)
    (notFirst : earlier ≠ []) :
    input.holeAt (start + Expr.nodeCounts earlier) = expr.holeBefore earlier.length := by
  have marked := guided.holes.operand earlier operand later split
  have positive : 0 < Expr.nodeCounts earlier :=
    (length_pos_iff.mpr notFirst).trans_le (Expr.length_le_nodeCounts earlier)
  simp only [holeMarking] at marked
  rw [CompileInput.holeAt, marked (by omega)]
  rfl

lemma holeAt_root (inner : expr.operands ≠ []) : input.holeAt (expr.rootFrom start) = none := by
  have unmarked := guided.holes.root
  have positive : 0 < Expr.nodeCounts expr.operands :=
    (length_pos_iff.mpr inner).trans_le (Expr.length_le_nodeCounts expr.operands)
  have root := expr.rootFrom_operands start
  simp only [holeMarking] at unmarked
  rw [CompileInput.holeAt, unmarked (by omega)]
  rfl

lemma isSuppressed_operand (split : expr.operands = earlier ++ operand :: later) :
    isSuppressed input (operand.rootFrom (start + Expr.nodeCounts earlier)) =
      expr.folds earlier.length operand := by
  have marked := guided.folds.operand earlier operand later split
  have root := expr.rootFrom_operands start
  have last := operand.rootFrom_succ (start + Expr.nodeCounts earlier)
  rw [split, Expr.nodeCounts_append, Expr.nodeCounts] at root
  simp only [foldMarking] at marked
  rw [isSuppressed, marked (by omega)]
  rfl

end

end Guided

def Operated (input : CompileInput) (program : Program) (text : Bytes) :
    List Expr → Nat → Nat → Nat → Prop
  | [], _, first, last => last = first
  | operand :: rest, start, first, last =>
    ∃ middle,
      (if isSuppressed input (operand.rootFrom start) then operand.isLiteral → middle = first
        else Coded program text operand first middle) ∧
      Operated input program text rest (start + operand.nodeCount) middle last

section Operands

variable {text : Bytes} {before middle state : Compiler}

lemma Emitted.operated {segment} (emitted : Emitted input text expr start before state segment)
    (carried : state.Carried input program)
    (hit : SegmentAt program.ops (codeFrom input start before) segment) :
    if isSuppressed input (expr.rootFrom start) then
      expr.isLiteral → codeFrom input start before + segment.length = codeFrom input start before
    else
      Coded program text expr (codeFrom input start before)
        (codeFrom input start before + segment.length) := by
  cases suppressed : isSuppressed input (expr.rootFrom start) with
  | true =>
    intro literal
    rw [emitted.folded suppressed literal]
    rfl
  | false => exact emitted.coded suppressed program carried hit

private lemma operated_rest {rest segment}
    (begun : Begun input start before middle segment) (forward : start < later)
    (chain : Chain (Emits input text) rest later middle state) (ready : middle.Ready input later)
    (noHoles : ∀ left operand right, rest = left ++ operand :: right →
      input.holeAt (later + Expr.nodeCounts left) = none) (small : state.code.length ≤ u16Max) :
    ∃ more, Begun input start before state (segment ++ more) ∧
      ∀ program, state.Carried input program →
        SegmentAt program.ops (codeFrom input start before + segment.length) more →
        Operated input program text rest later (codeFrom input start before + segment.length)
          (codeFrom input start before + segment.length + more.length) := by
  induction rest generalizing later middle segment with
  | nil =>
    subst state
    refine ⟨[], by simpa using begun, ?_⟩
    intro program _ _
    exact rfl
  | cons operand rest induction =>
    rcases chain with ⟨next, emits, chain⟩
    have prepared := prepared_of_chain chain emits.ready
    rcases emits.emitted (prepared.longer.trans small) with ⟨own, emitted⟩
    have noHole : input.holeAt later = none := noHoles [] operand rest rfl
    have entry : codeFrom input later middle = codeFrom input start before + segment.length := by
      simpa [noHole, holeOps] using begun.codeFrom_next later
    have joined := begun.append emitted.toBegun forward
    simp only [noHole, holeOps, Option.map_none, Option.toList_none, append_nil]
      at joined
    have following : ∀ left operand' right, rest = left ++ operand' :: right →
        input.holeAt (later + operand.nodeCount + Expr.nodeCounts left) = none := by
      intro left operand' right split
      rw [add_assoc]
      exact noHoles (operand :: left) operand' right (by rw [split]; rfl)
    rcases induction joined (by omega) chain emits.ready following with
      ⟨more, whole, operated⟩
    refine ⟨own ++ more, by simpa [append_assoc] using whole, ?_⟩
    intro program carried hit
    have head := emitted.operated (carried.of_grows prepared.grows)
      (entry ▸ hit.left)
    rw [entry] at head
    have tail := operated program carried (by
      rw [length_append, ← add_assoc]
      exact hit.right)
    rw [length_append, ← add_assoc] at tail ⊢
    exact ⟨_, head, tail⟩

/-- A node is about to be visited: its operands were emitted one after another. -/
structure Visiting (input : CompileInput) (text : Bytes) (expr : Expr) (start : Nat)
    (before state : Compiler) : Prop where
  guided : Guided input text expr start
  prepared : Prepared input expr.operands start before state
  operated : state.code.length ≤ u16Max → ∃ segment,
    (expr.operands = [] → segment = []) ∧ Begun input start before state segment ∧
    ∀ program, state.Carried input program →
      SegmentAt program.ops (codeFrom input start before) segment →
      Operated input program text expr.operands start (codeFrom input start before)
        (codeFrom input start before + segment.length)

lemma visiting_of_chain (guided : Guided input text expr start)
    (noHoles : ∀ spot, expr.holeBefore spot = none) (ready : before.Ready input start)
    (inside : start < input.checked.ast.nodes.length)
    (chain : Chain (Emits input text) expr.operands start before state) :
    Visiting input text expr start before (state.opened input (expr.rootFrom start)) := by
  have prepared := prepared_of_chain chain ready
  refine ⟨guided, prepared.opened, ?_⟩
  intro small
  have root := expr.rootFrom_operands start
  cases operands : expr.operands with
  | nil =>
    rw [operands] at chain root
    subst state
    rw [root] at small ⊢
    have alone : Prepared input [] start before before :=
      ⟨ready, .refl before, le_refl _, le_refl _⟩
    have shorter : before.code.length ≤ u16Max := alone.opened.longer.trans small
    refine ⟨[], fun _ => rfl, .of_leaf (by rw [ready.holePos]; exact inside) shorter, ?_⟩
    intro program _ _
    exact rfl
  | cons first rest =>
    have noHole := guided.holeAt_root (by rw [operands]; exact cons_ne_nil _ _)
    simp only [Compiler.opened, noHole] at small ⊢
    rw [operands] at chain
    rcases chain with ⟨middle, emits, chain⟩
    have rest_prepared := prepared_of_chain chain emits.ready
    rcases emits.emitted (rest_prepared.longer.trans small) with ⟨own, emitted⟩
    have positive := first.nodeCount_pos
    have following : ∀ left operand right, rest = left ++ operand :: right →
        input.holeAt (start + first.nodeCount + Expr.nodeCounts left) = none := by
      intro left operand right split
      have whole : expr.operands = (first :: left) ++ operand :: right := by
        rw [operands, split]
        rfl
      have hole := guided.holeAt_operand whole (cons_ne_nil _ _)
      rw [Expr.nodeCounts, ← add_assoc] at hole
      rw [hole]
      exact noHoles _
    rcases operated_rest emitted.toBegun (by omega) chain emits.ready following small with
      ⟨more, whole, operated⟩
    refine ⟨own ++ more, fun empty => absurd empty (cons_ne_nil _ _), whole, ?_⟩
    intro program carried hit
    have head := emitted.operated (carried.of_grows rest_prepared.grows) hit.left
    have tail := operated program carried hit.right
    rw [length_append, ← add_assoc]
    exact ⟨_, head, tail⟩

section Nodes

variable {tables : Compiler}

lemma Visiting.emits_op (visiting : Visiting input text expr start before state)
    (tabled : Tabled input (start + Expr.nodeCounts expr.operands) state tables) (op : Op)
    (notList : expr.isList = false)
    (kept : isSuppressed input (expr.rootFrom start) → expr.isLiteral = false)
    (coded : ∀ program first middle, tables.Carried input program →
      Operated input program text expr.operands start first middle →
      program.ops[middle]? = some op → Coded program text expr first (middle + 1)) :
    Emits input text expr start before { tables with code := tables.code ++ [op] } := by
  apply visiting.prepared.emits_op tabled op notList kept
  intro small
  rcases visiting.operated small with ⟨segment, _, begun, operated⟩
  refine ⟨segment, begun, ?_⟩
  intro program carried hit next
  exact coded program _ _ carried
    (operated program (carried.of_grows tabled.grows) hit) next

lemma Visiting.emits_nothing (visiting : Visiting input text expr start before state)
    (notList : expr.isList = false) (leaf : expr.isLiteral → expr.operands = [])
    (coded : isSuppressed input (expr.rootFrom start) = false → ∀ program first last,
      state.Carried input program → Operated input program text expr.operands start first last →
      Coded program text expr first last) : Emits input text expr start before state := by
  apply visiting.prepared.emits_nothing notList
  intro small
  rcases visiting.operated small with ⟨segment, empty, begun, operated⟩
  refine ⟨segment, begun, ?_, ?_⟩
  · intro unsuppressed program carried hit
    exact coded unsuppressed program _ _ carried (operated program carried hit)
  · intro _ literal
    exact empty (leaf literal)

end Nodes

end Operands

end IronTraffic.Policy
