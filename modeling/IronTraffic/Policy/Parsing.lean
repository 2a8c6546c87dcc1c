import IronTraffic.Foundation.Stateful
import IronTraffic.Policy.Parser
import IronTraffic.Policy.Tree

/-! # The parser lays out trees

Whatever the parser accepts is the post-order layout of an expression tree.
Each production is shown to append one laid-out tree to the arena, and to end
before its fuel does.
-/

namespace IronTraffic.Policy

open List

open Fallible

def Parser.arena (parser : Parser) : Arena := ⟨parser.nodes, parser.args⟩

abbrev Parses (action : ParserM Result) (state : Parser)
    (post : Result → Parser → Prop) : Prop :=
  Establishes action state Failure.IsReported post

def Parser.advanced (state : Parser) : Parser := { state with pos := state.pos + 1 }

section Primitives

variable (input : ParseInput) (state : Parser)

lemma errHere_parses (post : Result → Parser → Prop) : Parses (errHere input) state post := by
  unfold Parses Establishes errHere
  cases input.toks[state.pos]? with
  | none | some => trivial

variable {input state} {post : Result → Parser → Prop}

lemma Parses.peek {onward : Option Tok → ParserM Result}
    (parses : ∀ tok, (tok.isSome → state.pos < input.toks.length) →
      Parses (onward tok) state post) : Parses (peek input >>= onward) state post :=
  parses _ (by simp)

variable (input state)

lemma eat_parses (want : Tok) :
    Parses (eat input want) state fun hit after =>
      (hit = true ∧ after = state.advanced ∧ state.pos < input.toks.length) ∨
        (hit = false ∧ after = state) := by
  apply Parses.peek
  intro tok inside
  split
  case isTrue hit =>
    left
    refine ⟨rfl, rfl, inside ?_⟩
    rw [hit]
    rfl
  case isFalse => exact .inr ⟨rfl, rfl⟩

variable {input state} in
lemma Parses.eat (taken : state.pos < input.toks.length → Parses (onward true) state.advanced post)
    (other : Parses (onward false) state post) : Parses (eat input want >>= onward) state post := by
  apply (eat_parses input state want).bind
  rintro hit after (⟨yes, moved, inside⟩ | ⟨no, same⟩)
  · subst hit after
    exact taken inside
  · subst hit after
    exact other

lemma expect_parses (want : Tok) :
    Parses (expect input want) state fun _ after =>
      after = state.advanced ∧ state.pos < input.toks.length := by
  apply Parses.eat
  · exact fun inside => ⟨rfl, inside⟩
  · exact errHere_parses input state _

lemma next_parses :
    Parses (next input) state fun _ after =>
      after = state.advanced ∧ state.pos < input.toks.length := by
  apply Parses.peek
  intro tok inside
  cases tok with
  | none => exact errHere_parses input state _
  | some tok => exact ⟨rfl, inside rfl⟩

lemma expectIdent_parses :
    Parses (expectIdent input) state fun _ after =>
      after = state.advanced ∧ state.pos < input.toks.length := by
  apply Parses.peek
  intro tok inside
  split
  case h_1 name => exact ⟨rfl, inside rfl⟩
  case h_2 => exact errHere_parses input state _

lemma eatRelop_parses :
    Parses (eatRelop input) state fun op after =>
      (op.isSome ∧ after = state.advanced ∧ state.pos < input.toks.length) ∨
        (op = none ∧ after = state) := by
  apply Parses.peek
  intro tok inside
  cases tok with
  | none => exact .inr ⟨rfl, rfl⟩
  | some tok =>
    simp only [Option.bind_some]
    cases relopOf tok with
    | none => exact .inr ⟨rfl, rfl⟩
    | some op => exact .inl ⟨rfl, rfl, inside rfl⟩

lemma pushNode_parses (node : Node) :
    Parses (pushNode node) state fun id after =>
      state.nodes.length < u16Max ∧ id = state.nodes.length ∧
        after = { state with nodes := state.nodes ++ [node] } := by
  unfold Parses Establishes pushNode NodeId.new
  split
  case h_1 id fits =>
    split at fits
    case isTrue => cases fits
    case isFalse small =>
      exact ⟨Nat.lt_of_not_le small, (Option.some.inj fits).symm, rfl⟩
  case h_2 => trivial

lemma argsLength_parses :
    Parses argsLength state fun length after => length = state.args.length ∧ after = state :=
  ⟨rfl, rfl⟩

lemma fitU16_parses (number : Nat) :
    Parses (fitU16 number) state fun fitted after => fitted = number ∧ after = state := by
  unfold fitU16
  split
  · exact ⟨rfl, rfl⟩
  · trivial

end Primitives

/-! ## Growing the arena -/

/-- The parser moved forward inside the token stream and only appended to its
arena, whose indices fit 16 bits. -/
structure Progress (input : ParseInput) (before after : Parser) : Prop where
  forward : before.pos ≤ after.pos
  inside : after.pos ≤ input.toks.length
  depth : after.depth = before.depth
  grows : before.arena.Grows after.arena
  small : before.nodes.length ≤ u16Max → after.nodes.length ≤ u16Max

namespace Progress

variable {input : ParseInput}

lemma refl (inside : first.pos ≤ input.toks.length) : Progress input first first :=
  ⟨le_refl _, inside, rfl, Arena.Grows.refl _, id⟩

lemma trans (left : Progress input first second) (right : Progress input second third) :
    Progress input first third :=
  ⟨left.forward.trans right.forward, right.inside, right.depth.trans left.depth,
    left.grows.trans right.grows, fun small => right.small (left.small small)⟩

lemma advanced (inside : first.pos < input.toks.length) : Progress input first first.advanced :=
  ⟨Nat.le_succ _, inside, rfl, Arena.Grows.refl _, id⟩

end Progress

def Parser.pushed (state : Parser) (node : Node) : Parser :=
  { state with nodes := state.nodes ++ [node] }

lemma Parser.grows_pushed (state : Parser) (node : Node) :
    state.arena.Grows (state.pushed node).arena :=
  ⟨prefix_append _ _, prefix_refl _⟩

lemma Parser.found_pushed (state : Parser) (node : Node) (last : index = state.nodes.length) :
    (state.pushed node).arena.nodes[index]? = some node := by
  subst last
  exact getElem?_concat_length

variable {input : ParseInput} {state : Parser} {node : Node} {elems : List Expr}
  {ids : List NodeId} {start : Nat} {id : NodeId}

lemma Progress.pushed (node : Node) (inside : state.pos ≤ input.toks.length)
    (room : state.nodes.length < u16Max) : Progress input state (state.pushed node) where
  forward := le_refl _
  inside := inside
  depth := rfl
  grows := state.grows_pushed node
  small := by
    intro _
    simp only [Parser.pushed, length_append, length_singleton]
    exact room

/-- The arena ends with the layout of `expr`, whose root is `id`. -/
structure Holds (state : Parser) (start : Nat) (expr : Expr) (id : Nat) : Prop where
  laid : Laid state.arena expr start
  ends : start + expr.nodeCount = state.nodes.length
  root : id = expr.rootFrom start

/-- The arena ends with the layouts of `elems`, whose roots are `ids`. -/
structure HoldsAll (state : Parser) (start : Nat) (elems : List Expr) (ids : List NodeId) :
    Prop where
  laid : LaidAll state.arena elems start
  ends : start + Expr.nodeCounts elems = state.nodes.length
  roots : ids = Expr.rootsFrom elems start

section Pushing

variable {middle : Parser} {other : NodeId} {expr base arg : Expr}

/-- Once its operands are in the arena, an expression is laid out by pushing its node. -/
lemma HoldsAll.whole (expr : Expr) (all : HoldsAll state start expr.operands ids) (argsFrom : Nat)
    (listed : expr.Lists state.arena start argsFrom) :
    Holds (state.pushed (expr.node start argsFrom)) start expr state.nodes.length := by
  have ends := all.ends
  have root := expr.rootFrom_operands start
  refine ⟨.whole ⟨argsFrom, ?_, listed⟩ (all.laid.of_grows (state.grows_pushed _)), ?_, ?_⟩
  · exact state.found_pushed _ (root.trans ends)
  · simp only [Parser.pushed, length_append, length_singleton, expr.nodeCount_operands]
    omega
  · omega

lemma HoldsAll.nil (state : Parser) : HoldsAll state state.nodes.length [] [] :=
  ⟨.nil, rfl, rfl⟩

lemma HoldsAll.snoc (holds : HoldsAll middle start elems ids)
    (grows : middle.arena.Grows state.arena)
    (following : Holds state middle.nodes.length arg other) :
    HoldsAll state start (elems ++ [arg]) (ids ++ [other]) := by
  have middleEnds := holds.ends
  have ends := following.ends
  refine ⟨?_, ?_, ?_⟩
  · apply (holds.laid.of_grows grows).snoc
    rw [middleEnds]
    exact following.laid
  · rw [Expr.nodeCounts_append]
    simp only [Expr.nodeCounts]
    omega
  · rw [Expr.rootsFrom_append, ← holds.roots, middleEnds]
    simp only [Expr.rootsFrom, ← following.root]

lemma Holds.alone (holds : Holds state start base id) : HoldsAll state start [base] [id] where
  laid := .cons holds.laid .nil
  ends := holds.ends
  roots := congrArg (· :: []) holds.root

lemma holds_literal (state : Parser) (constant) :
    Holds (state.pushed constant.node) state.nodes.length (.literal constant)
      state.nodes.length :=
  (HoldsAll.nil state).whole (.literal constant) 0 trivial

lemma holds_ident (state : Parser) (name : Span) :
    Holds (state.pushed (.ident name)) state.nodes.length (.ident name) state.nodes.length :=
  (HoldsAll.nil state).whole (.ident name) 0 trivial

section OneOperand

variable (holds : Holds state start base id)

include holds

lemma Holds.field (name : Span) :
    Holds (state.pushed (.field id name)) start (.field base name) state.nodes.length := by
  rw [holds.root]
  exact holds.alone.whole (.field base name) 0 trivial

lemma Holds.not : Holds (state.pushed (.not id)) start (.not base) state.nodes.length := by
  rw [holds.root]
  exact holds.alone.whole (.not base) 0 trivial

lemma Holds.size (argsFrom : Nat) :
    Holds (state.pushed (.call id .size argsFrom 0)) start (.size base) state.nodes.length := by
  rw [holds.root]
  exact holds.alone.whole (.size base) argsFrom trivial

end OneOperand

section TwoOperands

variable (holds : Holds middle start base id) (grows : middle.arena.Grows state.arena)
  (following : Holds state middle.nodes.length arg other)

include holds grows following

lemma Holds.index :
    Holds (state.pushed (.index id other)) start (.index base arg) state.nodes.length := by
  rw [holds.root, following.root, ← holds.ends]
  exact (holds.alone.snoc grows following).whole (.index base arg) 0 trivial

lemma Holds.bin (op : BinOp) :
    Holds (state.pushed (.bin op id other)) start (.bin op base arg) state.nodes.length := by
  rw [holds.root, following.root, ← holds.ends]
  exact (holds.alone.snoc grows following).whole (.bin op base arg) 0 trivial

lemma Holds.junction (stop : Bool) :
    Holds (state.pushed (junctionNode stop id other)) start (.junction stop base arg)
      state.nodes.length := by
  rw [holds.root, following.root, ← holds.ends]
  exact (holds.alone.snoc grows following).whole (.junction stop base arg) 0 trivial

lemma Holds.test (notSize : method ≠ .size)
    (listed : slice state.args argsFrom (argsFrom + 1) = some [other]) :
    Holds (state.pushed (.call id method argsFrom 1)) start (.test method base arg)
      state.nodes.length := by
  rw [following.root, ← holds.ends] at listed
  rw [holds.root]
  exact (holds.alone.snoc grows following).whole (.test method base arg) argsFrom
    ⟨notSize, listed⟩

end TwoOperands

lemma Holds.ternary {cond thenExpr elseExpr : Expr} (condHolds : Holds first start cond condId)
    (firstGrows : first.arena.Grows second.arena)
    (thenHolds : Holds second first.nodes.length thenExpr thenId)
    (secondGrows : second.arena.Grows state.arena)
    (elseHolds : Holds state second.nodes.length elseExpr elseId) :
    Holds (state.pushed (.ternary condId thenId elseId)) start (.ternary cond thenExpr elseExpr)
      state.nodes.length := by
  rw [condHolds.root, thenHolds.root, elseHolds.root, ← thenHolds.ends, ← condHolds.ends]
  exact ((condHolds.alone.snoc firstGrows thenHolds).snoc secondGrows elseHolds).whole
    (.ternary cond thenExpr elseExpr) 0 trivial

lemma HoldsAll.list (holds : HoldsAll state start elems ids)
    (listed : slice state.args argsFrom (argsFrom + elems.length) = some ids) :
    Holds (state.pushed (.list argsFrom elems.length)) start (.list elems) state.nodes.length := by
  rw [holds.roots] at listed
  exact holds.whole (.list elems) argsFrom listed

lemma HoldsAll.single (holds : HoldsAll state start [arg] ids) :
    ∃ id, ids = [id] ∧ Holds state start arg id :=
  ⟨_, holds.roots, holds.laid.head, holds.ends, rfl⟩

lemma holds_call {state after} (holds : Holds state start base id)
    (grows : state.arena.Grows after.arena)
    (following : HoldsAll after state.nodes.length elems ids) (arity : elems.length = method.arity)
    (listed : slice after.args argsFrom (argsFrom + elems.length) = some ids) :
    ∃ whole, Holds (after.pushed (.call id method argsFrom elems.length)) start whole
      after.nodes.length := by
  have ends := following.ends
  cases elems with
  | nil =>
    have sized : method = .size := by
      cases method <;> first | rfl | cases arity
    subst method
    have same : state.nodes = after.nodes := grows.1.eq_of_length ends
    have grown : Holds after start base id :=
      ⟨holds.laid.of_grows grows, same ▸ holds.ends, holds.root⟩
    exact ⟨_, grown.size argsFrom⟩
  | cons arg rest =>
    have notSize : method ≠ .size := by
      intro sized
      subst method
      cases arity
    have last : rest.length = 0 := by
      cases method <;> first | exact Nat.succ.inj arity | cases arity
    rw [length_eq_zero_iff] at last
    subst rest
    rcases following.single with ⟨other, rfl, argHolds⟩
    exact ⟨_, holds.test grows argHolds notSize listed⟩

lemma Holds.advanced (holds : Holds state start base id) : Holds state.advanced start base id :=
  ⟨holds.laid, holds.ends, holds.root⟩

lemma HoldsAll.advanced (holds : HoldsAll state start elems ids) :
    HoldsAll state.advanced start elems ids :=
  ⟨holds.laid, holds.ends, holds.roots⟩

end Pushing

/-! ## Productions -/

/-- The parser moved on, and the arena ends with an expression from `start` on. -/
def Continued (input : ParseInput) (before : Parser) (start : Nat) (id : Nat)
    (after : Parser) : Prop :=
  Progress input before after ∧ ∃ expr, Holds after start expr id

def Produces (input : ParseInput) (depth : Nat) (action : ParserM NodeId) : Prop :=
  ∀ before : Parser, before.pos ≤ input.toks.length → before.depth = depth →
    Parses action before fun id after =>
      before.pos < after.pos ∧ Continued input before before.nodes.length id after

lemma Continued.after (progress : Progress input first second)
    (continued : Continued input second start id third) : Continued input first start id third :=
  ⟨progress.trans continued.1, continued.2⟩

lemma parses_after (progress : Progress input before middle)
    (parses : Parses action middle (Continued input middle start)) :
    Parses action middle (Continued input before start) :=
  parses.mono fun _ _ continued => continued.after progress

lemma pushNode_continues {expr : Expr} (inside : state.pos ≤ input.toks.length)
    (holds : Holds (state.pushed node) start expr state.nodes.length) :
    Parses (pushNode node) state (Continued input state start) := by
  apply (pushNode_parses state node).mono
  rintro id after ⟨room, last, equal⟩
  subst id after
  exact ⟨.pushed node inside room, expr, holds⟩

lemma Produces.then (first : Produces input depth action)
    (onward : ∀ (operand : Expr) (id : NodeId) (start : Nat) (state : Parser),
        Holds state start operand id → state.pos ≤ input.toks.length → state.depth = depth →
        Parses (extend id) state (Continued input state start)) :
    Produces input depth (action >>= extend) := by
  intro before inside level
  apply (first before inside level).bind
  rintro id middle ⟨consumed, progress, operand, holds⟩
  apply (onward operand id before.nodes.length middle holds progress.inside
    (progress.depth.trans level)).mono
  intro last after continued
  exact ⟨lt_of_lt_of_le consumed continued.1.forward, continued.after progress⟩

/-- Counting `!` tokens moves on without touching the arena. -/
lemma bangLoop_parses (input) (fuel bangs : Nat) (state)
    (inside : state.pos ≤ input.toks.length) (enough : input.toks.length + 1 ≤ fuel + state.pos) :
    Parses (bangLoop input fuel bangs) state fun _ after => Progress input state after ∧
      after.nodes = state.nodes := by
  induction fuel generalizing bangs state with
  | zero =>
    omega
  | succ fuel induction =>
    apply Parses.eat
    · intro room
      have onward := Progress.advanced room
      apply (induction (bangs + 1) state.advanced onward.inside (by
        simp only [Parser.advanced]
        omega)).mono
      intro count after counted
      exact ⟨onward.trans counted.1, counted.2⟩
    · exact ⟨.refl inside, rfl⟩

lemma pushNots_parses (bangs : Nat) (inner : Expr) (id : NodeId) (start : Nat) (state)
    (holds : Holds state start inner id) (inside : state.pos ≤ input.toks.length) :
    Parses (pushNots bangs id) state (Continued input state start) := by
  induction bangs generalizing inner id start state with
  | zero =>
    exact ⟨.refl inside, inner, holds⟩
  | succ bangs induction =>
    apply (pushNode_continues inside holds.not).bind
    rintro outer middle ⟨progress, whole, wholeHolds⟩
    exact parses_after progress (induction whole outer start middle wholeHolds progress.inside)

section Productions

variable {expr : ParserM NodeId} {depth : Nat} (produces : Produces input depth expr)

include produces

lemma elemLoop_parses (close : Tok) (fuel elems ids start state)
    (holds : HoldsAll state start elems ids) (inside : state.pos ≤ input.toks.length)
    (level : state.depth = depth) (enough : input.toks.length + 1 ≤ fuel + state.pos) :
    Parses (elemLoop input expr close fuel ids) state fun hit after =>
        state.pos < after.pos ∧ Progress input state after ∧
          ∃ all, HoldsAll after start all hit := by
  induction fuel generalizing elems ids state with
  | zero =>
    omega
  | succ fuel induction =>
    unfold elemLoop
    split
    · trivial
    apply (produces state inside level).bind
    rintro id middle ⟨consumed, progress, elem, elemHolds⟩
    have longer := holds.snoc progress.grows elemHolds
    apply Parses.eat
    · intro room
      have onward := Progress.advanced room
      apply (induction _ _ middle.advanced longer.advanced
        onward.inside (progress.depth.trans level) (by
          simp only [Parser.advanced]
          omega)).mono
      rintro hit last ⟨later, lastProgress, all, allHold⟩
      refine ⟨?_, (progress.trans onward).trans lastProgress, all, allHold⟩
      exact lt_of_lt_of_le consumed (onward.forward.trans lastProgress.forward)
    · apply (expect_parses input middle close).bind
      rintro _ last ⟨rfl, room⟩
      have onward := Progress.advanced room
      exact ⟨lt_of_lt_of_le consumed onward.forward, progress.trans onward, _, longer.advanced⟩

lemma elemList_parses (close : Tok) (state)
    (inside : state.pos ≤ input.toks.length) (level : state.depth = depth) :
    Parses (elemList input expr close) state fun range after =>
      state.pos < after.pos ∧ Progress input state after ∧
        ∃ elems ids, HoldsAll after state.nodes.length elems ids ∧ range.2 = elems.length ∧
          slice after.args range.1 (range.1 + elems.length) = some ids := by
  apply Parses.eat
  · intro room
    have onward := Progress.advanced room
    apply (argsLength_parses state.advanced).bind
    rintro _ _ ⟨rfl, rfl⟩
    apply (fitU16_parses state.advanced _).bind
    rintro _ _ ⟨rfl, rfl⟩
    refine ⟨Nat.lt_succ_self _, onward, [], [], .nil _, rfl, ?_⟩
    simp [slice, Parser.advanced]
  · apply (elemLoop_parses produces close (turns input) [] [] state.nodes.length state
      (.nil state) inside level (by unfold turns; omega)).bind
    rintro ids after ⟨consumed, progress, elems, holds⟩
    apply (argsLength_parses after).bind
    rintro _ after ⟨rfl, rfl⟩
    apply (fitU16_parses after _).bind
    rintro _ after ⟨rfl, rfl⟩
    apply (fitU16_parses after ids.length).bind
    rintro _ after ⟨rfl, rfl⟩
    have grows : after.arena.Grows ⟨after.nodes, after.args ++ ids⟩ :=
      ⟨prefix_refl _, prefix_append _ _⟩
    have count : ids.length = elems.length := by
      rw [holds.roots]
      exact Expr.length_rootsFrom elems _
    refine ⟨consumed, ⟨progress.forward, progress.inside, progress.depth,
      progress.grows.trans grows, progress.small⟩, elems, ids, ?_, count, ?_⟩
    · exact ⟨holds.laid.of_grows grows, holds.ends, holds.roots⟩
    · rw [← count]
      exact slice_append after.args ids

lemma methodCall_parses (name : Span) (holds : Holds state start base id)
    (inside : state.pos ≤ input.toks.length) (level : state.depth = depth) :
    Parses (methodCall input expr id name) state (Continued input state start) := by
  unfold methodCall
  split
  case h_1 => trivial
  case h_2 bytes =>
    split
    case h_1 => trivial
    case h_2 method =>
      apply (elemList_parses produces .rParen state inside level).bind
      intro range after listed
      rcases range with ⟨argsFrom, count⟩
      rcases listed with ⟨_, progress, elems, ids, following, equal, listed⟩
      simp only at equal
      subst count
      dsimp only
      split
      case isFalse => trivial
      case isTrue arity =>
        rcases holds_call holds progress.grows following arity listed with
          ⟨whole, called⟩
        exact parses_after progress (pushNode_continues progress.inside called)

lemma postfixStep_parses (holds : Holds state start base id) (level : state.depth = depth) :
    Parses (postfixStep input expr id) state fun longer after =>
      (∃ next, longer = some next ∧ state.pos < after.pos ∧
        Continued input state start next after) ∨ (longer = none ∧ after = state) := by
  have wrap : ∀ {middle : Parser} {action : ParserM NodeId}, state.pos < middle.pos →
      Progress input state middle → Parses action middle (Continued input middle start) →
      Parses (some <$> action) middle fun longer after =>
        (∃ next, longer = some next ∧ state.pos < after.pos ∧
          Continued input state start next after) ∨ (longer = none ∧ after = state) := by
    intro middle action later progress parses
    rw [map_eq_pure_bind]
    apply parses.bind
    intro next after continued
    exact .inl ⟨next, rfl, lt_of_lt_of_le later continued.1.forward, continued.after progress⟩
  apply Parses.eat
  · intro room
    have onward := Progress.advanced room
    apply (expectIdent_parses input state.advanced).bind
    rintro name after ⟨moved, more⟩
    subst after
    have further := onward.trans (Progress.advanced more)
    have later : state.pos < state.advanced.advanced.pos :=
      Nat.lt_succ_of_le (Nat.le_succ state.pos)
    apply Parses.eat
    · intro most
      have furthest := further.trans (Progress.advanced most)
      apply wrap (Nat.lt_succ_of_lt later) furthest
      exact methodCall_parses produces name holds.advanced.advanced.advanced
        furthest.inside level
    · apply wrap later further
      exact pushNode_continues further.inside (holds.advanced.advanced.field name)
  · apply Parses.eat
    · intro room
      have onward := Progress.advanced room
      apply (produces state.advanced onward.inside level).bind
      rintro key middle ⟨consumed, progress, keyExpr, keyHolds⟩
      apply (expect_parses input middle .rBracket).bind
      rintro _ after ⟨moved, more⟩
      subst after
      have further := (onward.trans progress).trans (Progress.advanced more)
      apply wrap (Nat.lt_succ_of_le (onward.trans progress).forward) further
      exact pushNode_continues further.inside 
        (holds.advanced.index progress.grows keyHolds.advanced)
    · exact .inr ⟨rfl, rfl⟩

lemma postfixLoop_parses (fuel : Nat) (base : Expr) (id : NodeId) (start : Nat) (state)
    (holds : Holds state start base id) (inside : state.pos ≤ input.toks.length)
    (level : state.depth = depth) (enough : input.toks.length + 1 ≤ fuel + state.pos) :
    Parses (postfixLoop input expr fuel id) state (Continued input state start) := by
  induction fuel generalizing base id start state with
  | zero =>
    omega
  | succ fuel induction =>
    apply (postfixStep_parses produces holds level).bind
    rintro longer middle (⟨next, equal, later, continued⟩ | ⟨equal, same⟩)
    · subst longer
      rcases continued with ⟨progress, whole, wholeHolds⟩
      exact parses_after progress (induction whole next start middle wholeHolds progress.inside
        (progress.depth.trans level) (by omega))
    · subst longer middle
      exact ⟨.refl inside, base, holds⟩

lemma primary_produces : Produces input depth (primary input expr) := by
  intro before inside level
  have moved : ∀ {action : ParserM NodeId}, before.pos < input.toks.length →
      Parses action before.advanced
        (Continued input before.advanced before.advanced.nodes.length) →
      Parses action before.advanced fun id after =>
        before.pos < after.pos ∧ Continued input before before.nodes.length id after := by
    intro action room parses
    apply parses.mono
    intro id after continued
    exact ⟨continued.1.forward, continued.after (.advanced room)⟩
  have located : Parses (fun state => .ok (positionOf input state, state)) before
      fun _ after => after = before := rfl
  apply located.bind
  rintro spot before rfl
  apply (next_parses input before).bind
  rintro tok after ⟨rfl, room⟩
  split
  case h_1 value => exact moved room (pushNode_continues room (holds_literal _ (.bool value)))
  case h_2 value => exact moved room (pushNode_continues room (holds_literal _ (.int value)))
  case h_3 text => exact moved room (pushNode_continues room (holds_literal _ (.str text)))
  case h_4 => exact moved room (pushNode_continues room (holds_literal _ .null))
  case h_5 =>
    apply (produces before.advanced room level).bind
    rintro id middle ⟨consumed, progress, inner, holds⟩
    apply (expect_parses input middle .rParen).bind
    rintro _ after ⟨rfl, more⟩
    have further := ((Progress.advanced room).trans progress).trans (.advanced more)
    exact ⟨lt_of_lt_of_le (Nat.lt_succ_self _) (progress.forward.trans (Nat.le_succ _)),
      further, inner, holds.advanced⟩
  case h_6 =>
    apply moved room
    apply (elemList_parses produces .rBracket before.advanced room level).bind
    intro range after listed
    rcases range with ⟨argsFrom, count⟩
    rcases listed with ⟨_, progress, elems, ids, holds, equal, listed⟩
    simp only at equal
    subst count
    exact parses_after progress (pushNode_continues progress.inside (holds.list listed))
  case h_7 name =>
    apply Parses.peek
    intro tok _
    split
    · trivial
    · exact moved room (pushNode_continues room (holds_ident _ name))
  case h_8 => trivial

lemma postfixExpr_produces : Produces input depth (postfixExpr input expr) := by
  apply (primary_produces produces).then
  intro base id start state holds inside level
  exact postfixLoop_parses produces _ base id start state holds inside level
    (Nat.le_add_right _ _)

lemma unary_produces : Produces input depth (unary input expr) := by
  intro before inside level
  apply (bangLoop_parses input (turns input) 0 before inside (Nat.le_add_right _ _)).bind
  rintro bangs middle ⟨progress, same⟩
  have negated : Produces input depth
      (postfixExpr input expr >>= fun inner => pushNots bangs inner) := by
    apply (postfixExpr_produces produces).then
    intro inner id start state holds room _
    exact pushNots_parses bangs inner id start state holds room
  apply (negated middle progress.inside (progress.depth.trans level)).mono
  intro id after produced
  rw [same] at produced
  exact ⟨lt_of_le_of_lt progress.forward produced.1, produced.2.after progress⟩

lemma rel_parses (op : BinOp) (holds : Holds state start lhs id)
    (inside : state.pos ≤ input.toks.length) (level : state.depth = depth) :
    Parses (do
      let rhs ← unary input expr
      match (← peek input).bind relopOf with
      | some _ => errHere input
      | none => pushNode (.bin op id rhs)) state (Continued input state start) := by
  apply (unary_produces produces state inside level).bind
  rintro other middle ⟨consumed, progress, rhs, rhsHolds⟩
  apply Parses.peek
  intro tok _
  split
  · exact errHere_parses input middle _
  · exact parses_after progress
      (pushNode_continues progress.inside (holds.bin progress.grows rhsHolds op))

lemma rel_produces : Produces input depth (rel input expr) := by
  apply (unary_produces produces).then
  intro lhs id start state holds inside level
  apply (eatRelop_parses input state).bind
  rintro op after (⟨hit, moved, room⟩ | ⟨absent, same⟩)
  · subst after
    cases op with
    | none => cases hit
    | some op =>
      exact parses_after (.advanced room) (rel_parses produces op holds.advanced room level)
  · subst op after
    exact ⟨.refl inside, lhs, holds⟩

end Productions

section Junctions

variable {depth : Nat} (produces : Produces input depth operand)

include produces

lemma junctionLoop_parses (stop : Bool) (sign : Tok) (fuel : Nat) (lhs : Expr) (id : NodeId)
    (start : Nat) (state) (holds : Holds state start lhs id)
    (inside : state.pos ≤ input.toks.length) (level : state.depth = depth)
    (enough : input.toks.length + 1 ≤ fuel + state.pos) :
    Parses (junctionLoop input sign operand (junctionNode stop) fuel id) state
      (Continued input state start) := by
  induction fuel generalizing lhs id start state with
  | zero =>
    omega
  | succ fuel induction =>
    apply Parses.eat
    · intro room
      apply (produces state.advanced room level).bind
      rintro other middle ⟨consumed, progress, rhs, rhsHolds⟩
      have onward := (Progress.advanced room).trans progress
      have later : state.pos < middle.pos := Nat.lt_of_succ_lt consumed
      apply (pushNode_continues progress.inside
        (holds.advanced.junction progress.grows rhsHolds stop)).bind
      rintro joined last ⟨further, whole, wholeHolds⟩
      have all := onward.trans further
      have forward := further.forward
      exact parses_after all (induction whole joined start last wholeHolds further.inside
        (all.depth.trans level) (by omega))
    · exact ⟨.refl inside, lhs, holds⟩

lemma junction_produces (stop : Bool) (sign : Tok) :
    Produces input depth (operand >>= fun lhs =>
      junctionLoop input sign operand (junctionNode stop) (turns input) lhs) := by
  apply produces.then
  intro lhs id start state holds inside level
  exact junctionLoop_parses produces stop sign _ lhs id start state holds inside level
    (Nat.le_add_right _ _)

end Junctions

section Expressions

variable {expr : ParserM NodeId} {depth : Nat} (produces : Produces input depth expr)

include produces

lemma orExpr_produces : Produces input depth (orExpr input expr) := by
  have both : Produces input depth (andExpr input expr) :=
    junction_produces (rel_produces produces) false .andAnd
  exact junction_produces both true .orOr

lemma exprInner_produces : Produces input depth (exprInner input expr) := by
  apply (orExpr_produces produces).then
  intro cond condId start state condHolds inside level
  apply Parses.eat
  · intro room
    apply (produces state.advanced room level).bind
    intro thenId first produced
    rcases produced with ⟨_, thenProgress, thenExpr, thenHolds⟩
    apply (expect_parses input first .colon).bind
    rintro _ after ⟨moved, more⟩
    subst after
    apply (produces first.advanced more (thenProgress.depth.trans level)).bind
    rintro elseId second ⟨_, elseProgress, elseExpr, elseHolds⟩
    have thenGrows : state.advanced.arena.Grows first.advanced.arena := thenProgress.grows
    have whole := (((Progress.advanced room).trans thenProgress).trans (.advanced more)).trans
      elseProgress
    exact parses_after whole (pushNode_continues elseProgress.inside
      (condHolds.advanced.ternary thenGrows thenHolds.advanced elseProgress.grows elseHolds))
  · exact ⟨.refl inside, cond, condHolds⟩

end Expressions

/-! ## Whole expressions -/

lemma enter_parses (input state) :
    Parses (enter input) state fun _ after =>
      state.depth < input.limits.maxDepth.toNat ∧ after = { state with
          depth := state.depth + 1
          maxReached := max state.maxReached (state.depth + 1) } := by
  unfold Parses Establishes enter
  split
  case isTrue => trivial
  case isFalse within => exact ⟨by omega, rfl⟩

lemma expr_produces (input) (levels depth : Nat)
    (limit : depth + levels = input.limits.maxDepth.toNat) :
    Produces input depth (expr input levels) := by
  induction levels generalizing depth with
  | zero =>
    intro before inside level
    apply (enter_parses input before).bind
    omega
  | succ levels induction =>
    intro before inside level
    apply (enter_parses input before).bind
    intro _ entered within
    have deep : entered.depth = depth + 1 := by
      rw [within.2, ← level]
    have room : entered.pos ≤ input.toks.length := by
      rw [within.2]
      exact inside
    apply (exprInner_produces (induction (depth + 1) (by omega)) entered room deep).bind
    rintro id after ⟨consumed, progress, whole, holds⟩
    rw [within.2] at consumed progress holds
    refine ⟨consumed, ⟨progress.forward, progress.inside, ?_, progress.grows,
      progress.small⟩, whole, holds.laid, holds.ends, holds.root⟩
    show after.depth - 1 = before.depth
    rw [progress.depth]
    exact Nat.add_sub_cancel _ _

structure Ast.Represents (ast : Ast) (expr : Expr) : Prop where
  laid : Laid ast.arena expr 0
  count : expr.nodeCount = ast.nodes.length
  root : ast.root = expr.rootFrom 0
  small : ast.nodes.length ≤ u16Max

lemma parseExprAt_ensures (toks) (source : Bytes) (limits) (inside : start ≤ toks.toks.length) :
    Ensures (parseExprAt toks source limits start) Failure.IsReported fun result =>
      ∃ expr, result.1.Represents expr := by
  have parsed := expr_produces ⟨toks.toks, source, limits⟩ limits.maxDepth.toNat 0
    (zero_add _) ⟨start, 0, 0, [], []⟩ inside rfl
  apply Ensures.bind parsed
  rintro result ⟨_, progress, expr, holds⟩
  exact ⟨expr, holds.laid, (zero_add _).symm.trans holds.ends, holds.root,
    progress.small (Nat.zero_le _)⟩

lemma parse_ensures (toks) (source : Bytes) (limits) :
    Ensures (parse toks source limits) Failure.IsReported fun ast =>
      ∃ expr, ast.Represents expr := by
  apply (parseExprAt_ensures toks source limits (Nat.zero_le _)).bind
  intro result represented
  dsimp only
  split
  · exact represented
  · trivial

end IronTraffic.Policy
