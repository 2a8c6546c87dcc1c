import IronTraffic.Foundation.Stateful
import IronTraffic.Policy.Tree

/-! # Forward passes over a tree

The checker and the compiler visit the arena front to back. On the layout of a
tree that is a post-order traversal: first the operands of a node from left to
right, then the node itself. What one visit does is said once for each kind of
node, and the traversal rule gives it for whole trees.
-/

namespace IronTraffic.Policy

open List

variable {arena : Arena} {expr : Expr} {start : Nat} {note : Expr → Nat → Prop} {rest : List Expr}

/-! ## Passes -/

section Passes

variable {State Reason : Type}

def Chain (Takes : Expr → Nat → State → State → Prop) :
    List Expr → Nat → State → State → Prop
  | [], _, before, after => after = before
  | expr :: rest, start, before, after =>
    ∃ middle, Takes expr start before middle ∧
      Chain Takes rest (start + expr.nodeCount) middle after

variable {step : Nat → Node → StateT State (Except Reason) Unit} {Admissible : Reason → Prop}
  {Takes : Expr → Nat → State → State → Prop} {Ready : Nat → State → Prop}

section

variable (onward : ∀ expr start before after, Ready start before → Takes expr start before after →
  Ready (start + expr.nodeCount) after)

include onward

private lemma passFrom_laidAll
    (each : ∀ expr ∈ exprs, ∀ start before, Laid arena expr start →
      Everywhere note expr start → Ready start before →
      Establishes (passFrom arena.nodes step start expr.nodeCount) before Admissible
        fun _ after => Takes expr start before after)
    (laid : LaidAll arena exprs start) (noted : EverywhereAll note exprs start)
    (ready : Ready start before) :
    Establishes (passFrom arena.nodes step start (Expr.nodeCounts exprs)) before Admissible
      fun _ after => Chain Takes exprs start before after := by
  induction exprs generalizing start before with
  | nil =>
    exact rfl
  | cons expr rest induction =>
    rw [Expr.nodeCounts, passFrom_add]
    apply (each expr mem_cons_self start before laid.head noted.head ready).bind
    intro _ middle taken
    apply (induction (fun later mem => each later (mem_cons_of_mem expr mem))
      laid.tail noted.tail (onward expr start before middle ready taken)).mono
    intro _ after chain
    exact ⟨middle, taken, chain⟩

lemma passFrom_laid
    (visit : ∀ expr start argsFrom before middle, Laid arena expr start →
      LaidNode arena expr start argsFrom → Everywhere note expr start → Ready start before →
      Chain Takes expr.operands start before middle →
      Establishes (step (expr.rootFrom start) (expr.node start argsFrom)) middle Admissible
        fun _ after => Takes expr start before after)
    (expr start before) (laid : Laid arena expr start) (noted : Everywhere note expr start)
    (ready : Ready start before) :
    Establishes (passFrom arena.nodes step start expr.nodeCount) before Admissible
      fun _ after => Takes expr start before after := by
  induction expr using Expr.operandInduct generalizing start before with
  | whole expr each =>
    rcases laid.here with ⟨argsFrom, node⟩
    have hit := node.hit
    rw [expr.nodeCount_operands, passFrom_add, passFrom_one]
    apply (passFrom_laidAll onward each laid.operands noted.operands ready).bind
    intro _ middle chain
    have visited := visit expr start argsFrom before middle laid node noted ready chain
    rw [expr.rootFrom_operands] at hit visited
    rw [visitAt, hit]
    exact visited

end

end Passes

section Notes

variable {State Reason : Type} {step : Nat → Node → StateT State (Except Reason) Unit}
  {Admissible : Reason → Prop}

/-- How states of a pass are compared: `keeps bound before after` says that what
`before` records about the nodes below `bound` still stands in `after`. -/
structure Keeping (keeps : Nat → State → State → Prop) : Prop where
  refl : ∀ bound state, keeps bound state state
  trans : ∀ {bound first second third}, keeps bound first second → keeps bound second third →
    keeps bound first third
  mono : ∀ {bound smaller before after}, smaller ≤ bound → keeps bound before after →
    keeps smaller before after

variable {keeps : Nat → State → State → Prop} {note : State → Expr → Nat → Prop}

/-- What a pass does to a tree: the next node may be visited, earlier records
stand, and the note stands all over the tree in every state that keeps the
records made so far. -/
structure Notes (Ready : Nat → State → Prop) (keeps : Nat → State → State → Prop)
    (note : State → Expr → Nat → Prop) (expr : Expr) (start : Nat) (before after : State) :
    Prop where
  ready : Ready (start + expr.nodeCount) after
  kept : keeps start before after
  noted : ∀ final, keeps (start + expr.nodeCount) after final → Everywhere (note final) expr start

variable {Ready : Nat → State → Prop}

private lemma notes_chain (keeping : Keeping keeps) {after : State}
    (chain : Chain (Notes Ready keeps note) operands start before after)
    (ready : Ready start before) :
    Ready (start + Expr.nodeCounts operands) after ∧ keeps start before after ∧
    ∀ final, keeps (start + Expr.nodeCounts operands) after final →
      EverywhereAll (note final) operands start := by
  induction operands generalizing start before with
  | nil =>
    subst after
    exact ⟨ready, keeping.refl start before, fun _ _ => .nil⟩
  | cons expr rest induction =>
    rcases chain with ⟨middle, notes, following⟩
    rcases induction following notes.ready with ⟨ready, later, restNoted⟩
    rw [Expr.nodeCounts, ← add_assoc]
    refine ⟨ready, keeping.trans notes.kept (keeping.mono (Nat.le_add_right _ _) later), ?_⟩
    intro final lasting
    exact .cons (notes.noted final
      (keeping.trans later (keeping.mono (Nat.le_add_right _ _) lasting))) (restNoted final lasting)

lemma passFrom_notes (keeping : Keeping keeps)
    (visit : ∀ expr start argsFrom state, Laid arena expr start →
      LaidNode arena expr start argsFrom → Ready (expr.rootFrom start) state →
      EverywhereAll (note state) expr.operands start →
      Establishes (step (expr.rootFrom start) (expr.node start argsFrom)) state Admissible
        fun _ after =>
          Ready (expr.rootFrom start + 1) after ∧ keeps (expr.rootFrom start) state after ∧
            ∀ final, keeps (expr.rootFrom start + 1) after final → note final expr start) :
    ∀ expr start before, Laid arena expr start → Ready start before →
      Establishes (passFrom arena.nodes step start expr.nodeCount) before Admissible
        fun _ after => Notes Ready keeps note expr start before after := by
  intro expr start before laid ready
  apply passFrom_laid _ _ expr start before laid (.of_forall (fun _ _ => trivial) _ _) ready
  · intro expr start before after _ notes
    exact notes.ready
  intro expr start argsFrom before middle laid node _ ready chain
  rcases notes_chain keeping chain ready with ⟨middleReady, kept, noted⟩
  have root := expr.rootFrom_operands start
  rw [← root] at middleReady noted
  apply (visit expr start argsFrom middle laid node middleReady
    (noted middle (keeping.refl _ _))).mono
  rintro _ after ⟨afterReady, later, noting⟩
  rw [expr.rootFrom_succ] at afterReady noting
  refine ⟨afterReady, keeping.trans kept (keeping.mono (by omega) later), ?_⟩
  intro final lasting
  have lasted : keeps (expr.rootFrom start) middle final := by
    apply keeping.trans later (keeping.mono _ lasting)
    rw [← expr.rootFrom_succ]
    exact Nat.le_succ _
  exact .whole (noting final lasting) (noted final lasted)

end Notes

end IronTraffic.Policy
