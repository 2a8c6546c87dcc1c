import IronTraffic.Policy.Meaning
import IronTraffic.Policy.Parsing
import IronTraffic.Policy.Traversal

/-! # The checker establishes the typing rules

The typing rules of the language over expression trees, and the proof that the
forward pass of the checker accepts only well-typed trees, resolves every
attribute to the row its dotted path names, and gives it a slot.
-/

namespace IronTraffic.Policy

open Checker

open List

open Fallible

def Unifies (thenTy elseTy ty : Ty) : Prop :=
  (thenTy = elseTy ∧ ty = thenTy) ∨ (thenTy = .null ∧ elseTy.nullable ∧ ty = elseTy) ∨
    (elseTy = .null ∧ thenTy.nullable ∧ ty = thenTy)

/-- The typing rules, for names that refer to `text`. -/
inductive HasType (text : Bytes) : Expr → Ty → Prop where
  | literal (constant : Literal) : HasType text (.literal constant) constant.ty
  | ident (name : Span) : HasType text (.ident name) .map
  | scalar {base : Expr} {name : Span} {attr : AttrId} (names : HasType text base .map)
      (resolved : (Expr.field base name).attrOf text = some attr) :
      HasType text (.field base name) attr.ty
  | map {base : Expr} {name : Span} {map : MapId} (names : HasType text base .map)
      (resolved : (Expr.field base name).mapOf text = some map) :
      HasType text (.field base name) .map
  | index {base : Expr} {ty : Ty} {map : MapId} {key : Span} (typed : HasType text base ty)
      (resolved : base.mapOf text = some map) :
      HasType text (.index base (.literal (.str key))) .str
  | size {base : Expr} {ty : Ty} (typed : HasType text base ty)
      (sized : ty = .str ∨ ty = .list) : HasType text (.size base) .int
  | test {method : Method} {base arg : Expr} {ty : Ty} (typed : HasType text base ty)
      (textual : ty = .str ∨ ty = .null) (argTyped : HasType text arg .str)
      (constant : method = .isMatch → ∃ pattern, arg = .literal (.str pattern)) :
      HasType text (.test method base arg) .bool
  | not {inner : Expr} (typed : HasType text inner .bool) : HasType text (.not inner) .bool
  | equality {op : BinOp} {lhs rhs : Expr} {left right : Ty} (equality : op = .eq ∨ op = .ne)
      (leftTyped : HasType text lhs left) (rightTyped : HasType text rhs right)
      (comparable : equatable left right) : HasType text (.bin op lhs rhs) .bool
  | ordering {op : BinOp} {lhs rhs : Expr} (ordering : op.isOrdering)
      (leftTyped : HasType text lhs .int) (rightTyped : HasType text rhs .int) :
      HasType text (.bin op lhs rhs) .bool
  | member {lhs : Expr} {elems : List Expr} {ty : Ty} (typed : HasType text lhs ty)
      (scalar : ty ≠ .map ∧ ty ≠ .list) (listTyped : HasType text (.list elems) .list) :
      HasType text (.bin .isIn lhs (.list elems)) .bool
  | junction {stop : Bool} {lhs rhs : Expr} (leftTyped : HasType text lhs .bool)
      (rightTyped : HasType text rhs .bool) : HasType text (.junction stop lhs rhs) .bool
  | ternary {cond thenExpr elseExpr : Expr} {thenTy elseTy ty : Ty}
      (condTyped : HasType text cond .bool) (thenTyped : HasType text thenExpr thenTy)
      (elseTyped : HasType text elseExpr elseTy) (unifies : Unifies thenTy elseTy ty) :
      HasType text (.ternary cond thenExpr elseExpr) ty
  | list {elems : List Expr} {ty : Ty} (scalar : ty.nullable)
      (typed : ∀ elem ∈ elems, HasType text elem ty) : HasType text (.list elems) .list

variable {text strings : Bytes} {elems : List Expr} {ty : Ty} {start argsFrom slot : Nat}
  {expr lhs rhs base : Expr} {reference : AttrRef} {slots : List AttrRef}

lemma HasType.list_ty (typed : HasType text (.list elems) ty) : ty = .list := by
  cases typed with
  | list => rfl

def Expr.reads (text : Bytes) (expr : Expr) : Bool :=
  match expr with
  | .field _ _ => (expr.attrOf text).isSome
  | .index _ _ => true
  | _ => false

/-! ## What the pass records -/

def SlotNote (text : Bytes) (nodeSlot : List Nat) (slots : List AttrRef) (expr : Expr)
    (index : Nat) : Prop :=
  match expr.reads text with
  | true => ∃ slot reference, nodeSlot[index]? = some slot ∧ slots[slot]? = some reference ∧
        ∀ attr, expr.attrOf text = some attr → reference = .scalar attr
  | false => nodeSlot[index]? = some noSlot

structure CheckNote (text : Bytes) (state : Checker) (expr : Expr) (start : Nat) : Prop where
  ty : ∃ ty, state.types[expr.rootFrom start]? = some ty ∧ HasType text expr ty
  map : state.nodeMap[expr.rootFrom start]? = some (expr.mapOf text)
  slot : SlotNote text state.nodeSlot state.slots expr (expr.rootFrom start)

/-- The records about nodes below `bound` stand. -/
structure Checker.Keeps (bound : Nat) (before after : Checker) : Prop where
  types : ∀ index < bound, after.types[index]? = before.types[index]?
  nodeMap : ∀ index < bound, after.nodeMap[index]? = before.nodeMap[index]?
  nodeSlot : ∀ index < bound, after.nodeSlot[index]? = before.nodeSlot[index]?
  slots : before.slots <+: after.slots

/-- Nothing was recorded yet about the nodes from `index` on. -/
structure Checker.Ready (count index : Nat) (state : Checker) : Prop where
  types : state.types.length = count
  nodeMap : ∀ later, index ≤ later → later < count → state.nodeMap[later]? = some none
  nodeSlot : ∀ later, index ≤ later → later < count → state.nodeSlot[later]? = some noSlot

lemma Checker.keeping : Keeping Keeps where
  refl _ _ := ⟨fun _ _ => rfl, fun _ _ => rfl, fun _ _ => rfl, prefix_refl _⟩
  trans first second :=
    ⟨fun index below => (second.types index below).trans (first.types index below),
      fun index below => (second.nodeMap index below).trans (first.nodeMap index below),
      fun index below => (second.nodeSlot index below).trans (first.nodeSlot index below),
      first.slots.trans second.slots⟩
  mono smaller keeps :=
    ⟨fun index below => keeps.types index (by omega),
      fun index below => keeps.nodeMap index (by omega),
      fun index below => keeps.nodeSlot index (by omega), keeps.slots⟩

lemma Checker.initial_ready (strings : Bytes) (count : Nat) :
    (initial strings count).Ready count 0 :=
  ⟨length_replicate .., fun _ _ below => getElem?_replicate_of_lt below,
    fun _ _ below => getElem?_replicate_of_lt below⟩

/-- What visiting one node does, apart from recording its type. -/
structure NodeChecked (text : Bytes) (index : Nat) (expr : Expr) (before : Checker) (ty : Ty)
    (after : Checker) : Prop where
  typed : HasType text expr ty
  types : after.types = before.types
  nodeMap : ∀ other ≠ index, after.nodeMap[other]? = before.nodeMap[other]?
  nodeSlot : ∀ other ≠ index, after.nodeSlot[other]? = before.nodeSlot[other]?
  slots : before.slots <+: after.slots
  map : after.nodeMap[index]? = some (expr.mapOf text)
  slot : SlotNote text after.nodeSlot after.slots expr index

abbrev Checks (action : CheckM Result) (state : Checker)
    (post : Result → Checker → Prop) : Prop :=
  Establishes action state Failure.IsReported post

section Visits

variable {count : Nat} {state : Checker} {index : Nat}

lemma nodeChecked_of_typed (ready : state.Ready count index) (inside : index < count)
    (typed : HasType text expr ty) (unread : expr.reads text = false)
    (noMap : expr.mapOf text = none) : NodeChecked text index expr state ty state where
  typed := typed
  types := rfl
  nodeMap _ _ := rfl
  nodeSlot _ _ := rfl
  slots := prefix_refl _
  map := by
    rw [noMap]
    exact ready.nodeMap index (le_refl _) inside
  slot := by
    rw [SlotNote, unread]
    exact ready.nodeSlot index (le_refl _) inside

lemma NodeChecked.recorded {before after : Checker}
    (inside : expr.rootFrom start < count) (ready : before.Ready count (expr.rootFrom start))
    (checked : NodeChecked text (expr.rootFrom start) expr before ty after) :
    let recorded := { after with
      types := after.types.set (expr.rootFrom start) ty
      starts := after.starts.set (expr.rootFrom start) spot }
    recorded.Ready count (expr.rootFrom start + 1) ∧ Keeps (expr.rootFrom start) before recorded ∧
      ∀ final, Keeps (expr.rootFrom start + 1) recorded final →
        CheckNote text final expr start := by
  refine ⟨⟨?_, ?_, ?_⟩, ⟨?_, ?_, ?_, checked.slots⟩, ?_⟩
  · simp only [length_set, checked.types]
    exact ready.types
  · intro later above below
    rw [checked.nodeMap later (by omega)]
    exact ready.nodeMap later (by omega) below
  · intro later above below
    rw [checked.nodeSlot later (by omega)]
    exact ready.nodeSlot later (by omega) below
  · intro other below
    simp only [checked.types]
    exact getElem?_set_ne (by omega)
  · intro other below
    exact checked.nodeMap other (by omega)
  · intro other below
    exact checked.nodeSlot other (by omega)
  intro final keeps
  have below := Nat.lt_succ_self (expr.rootFrom start)
  have slotKept := keeps.nodeSlot _ below
  refine ⟨⟨ty, ?_, checked.typed⟩, ?_, ?_⟩
  · rw [keeps.types _ below]
    apply getElem?_set_self
    rw [checked.types, ready.types]
    exact inside
  · rw [keeps.nodeMap _ below]
    exact checked.map
  have noted := checked.slot
  unfold SlotNote at noted ⊢
  cases reads : expr.reads text with
  | true =>
    rw [reads] at noted
    rcases noted with ⟨slot, reference, hit, listed, scalar⟩
    rcases keeps.slots with ⟨rest, equal⟩
    refine ⟨slot, reference, slotKept.trans hit, ?_, scalar⟩
    rw [← equal]
    exact getElem?_append_of_eq_some listed rest
  | false =>
    rw [reads] at noted
    exact slotKept.trans noted

end Visits

/-! ## Operands -/

section Operands

variable {state : Checker}

lemma CheckNote.typed (note : CheckNote text state expr start) :
    HasType text expr (state.tyOf (expr.rootFrom start)) := by
  rcases note.ty with ⟨ty, hit, typed⟩
  rw [tyOf, hit]
  exact typed

section Noted

lemma EverywhereAll.first (noted : EverywhereAll (CheckNote text state) (one :: rest) start) :
    CheckNote text state one start :=
  (noted [] one rest rfl).here

lemma EverywhereAll.second
    (noted : EverywhereAll (CheckNote text state) (one :: two :: rest) start) :
    CheckNote text state two (start + one.nodeCount) :=
  (noted [one] two rest rfl).here

lemma EverywhereAll.third
    (noted : EverywhereAll (CheckNote text state) (one :: two :: three :: rest) start) :
    CheckNote text state three (start + one.nodeCount + two.nodeCount) := by
  have here := (noted [one, two] three rest rfl).here
  simp only [Expr.nodeCounts, add_zero, ← add_assoc] at here
  exact here

lemma EverywhereAll.elem {elem : Expr}
    (noted : EverywhereAll (CheckNote text state) elems start) (mem : elem ∈ elems) :
    ∃ root ∈ Expr.rootsFrom elems start, HasType text elem (state.tyOf root) := by
  rcases append_of_mem mem with ⟨before, after, split⟩
  refine ⟨_, ?_, (noted before elem after split).here.typed⟩
  rw [split, Expr.rootsFrom_append]
  exact mem_append_right _ mem_cons_self

end Noted

lemma expectTy_checks (id) (want : Ty) :
    Checks (expectTy id want) state fun _ after => after = state ∧ state.tyOf id = want := by
  unfold Checks Establishes expectTy
  split
  case isTrue equal => exact ⟨rfl, equal⟩
  case isFalse => trivial

lemma startAt_checks (id) : Checks (startAt id) state fun _ after => after = state := rfl

lemma typed_startAt (post : Ty → Checker → Prop) (id) (checks : Checks action state post) :
    Checks (do
      let ty ← action
      pure (ty, ← startAt id)) state fun result after => post result.1 after := by
  apply checks.bind
  intro ty after holds
  apply (startAt_checks id).bind
  rintro spot later rfl
  exact holds

end Operands

lemma Expr.eq_of_isLiteralStr (isStr : isLiteralStr (some (expr.node start argsFrom))) :
    ∃ text, expr = .literal (.str text) := by
  cases expr with
  | literal constant =>
    cases constant with
    | str text => exact ⟨text, rfl⟩
    | bool | int | null => cases isStr
  | junction stop => cases stop <;> cases isStr
  | _ => cases isStr

lemma Expr.eq_of_listNode (isList : expr.node start argsFrom = .list from_ len) :
    ∃ elems, expr = .list elems ∧ from_ = argsFrom ∧ len = elems.length := by
  cases expr with
  | literal constant => cases constant <;> cases isList
  | junction stop => cases stop <;> cases isList
  | list elems =>
    cases isList
    exact ⟨elems, rfl, rfl, rfl⟩
  | _ => cases isList

section Nodes

variable {state : Checker}

lemma checkNot_checks {inner : Expr}
    (noted : EverywhereAll (CheckNote input.source state) [inner] start) :
    Checks (checkNode input index (.not (inner.rootFrom start))) state fun result after =>
      after = state ∧ HasType input.source (.not inner) result.1 := by
  have innerTyped := noted.first.typed
  apply (expectTy_checks _ _).bind
  rintro _ after ⟨rfl, isBool⟩
  rw [isBool] at innerTyped
  exact ⟨rfl, .not innerTyped⟩

lemma checkJunction_checks (noted : EverywhereAll (CheckNote input.source state) [lhs, rhs] start) :
    Checks (checkNode input index (Expr.node start argsFrom (.junction stop lhs rhs))) state
      fun result after =>
        after = state ∧ HasType input.source (.junction stop lhs rhs) result.1 := by
  have leftTyped := noted.first.typed
  have rightTyped := noted.second.typed
  cases stop <;>
  · apply (expectTy_checks _ _).bind
    intro _ after expected
    rcases expected with ⟨rfl, leftBool⟩
    apply (expectTy_checks _ _).bind
    rintro _ after ⟨rfl, rightBool⟩
    rw [leftBool] at leftTyped
    rw [rightBool] at rightTyped
    exact ⟨rfl, .junction leftTyped rightTyped⟩

lemma unify_checks (thenNode elseNode) :
    Checks (unify thenNode elseNode) state fun ty after =>
      after = state ∧ Unifies (state.tyOf thenNode) (state.tyOf elseNode) ty := by
  rw [unify, Checks, establishes_get_bind]
  dsimp only
  split
  case isTrue same => exact ⟨rfl, .inl ⟨same, rfl⟩⟩
  case isFalse =>
    split
    case isTrue nullThen => exact ⟨rfl, .inr (.inl ⟨nullThen.1, nullThen.2, rfl⟩)⟩
    case isFalse =>
      split
      case isTrue nullElse => exact ⟨rfl, .inr (.inr ⟨nullElse.1, nullElse.2, rfl⟩)⟩
      case isFalse => trivial

lemma checkTernary_checks {cond thenExpr elseExpr : Expr}
    (noted : EverywhereAll (CheckNote input.source state) [cond, thenExpr, elseExpr] start) :
    Checks (checkNode input index
      (Expr.node start argsFrom (.ternary cond thenExpr elseExpr))) state fun result after =>
        after = state ∧ HasType input.source (.ternary cond thenExpr elseExpr) result.1 := by
  have condTyped := noted.first.typed
  apply (expectTy_checks _ _).bind
  rintro _ state ⟨rfl, isBool⟩
  rw [isBool] at condTyped
  apply typed_startAt fun ty after =>
    after = state ∧ HasType input.source (.ternary cond thenExpr elseExpr) ty
  apply (unify_checks _ _).mono
  rintro ty after ⟨same, unifies⟩
  exact ⟨same, .ternary condTyped noted.second.typed noted.third.typed unifies⟩

lemma checkSize_checks (noted : EverywhereAll (CheckNote input.source state) [base] start) :
    Checks (checkCall input (base.rootFrom start) .size argsFrom 0) state fun ty after =>
      after = state ∧ HasType input.source (.size base) ty := by
  rw [checkCall, Checks, establishes_get_bind]
  rw [if_pos rfl]
  split
  case isTrue sized => exact ⟨rfl, .size noted.first.typed sized⟩
  case isFalse => trivial

lemma checkTest_checks (laid : Laid input.ast.arena (.test method base arg) start)
    (node : LaidNode input.ast.arena (.test method base arg) start argsFrom)
    (noted : EverywhereAll (CheckNote input.source state) [base, arg] start) :
    Checks (checkCall input (base.rootFrom start) method argsFrom 1) state fun ty after =>
      after = state ∧ HasType input.source (.test method base arg) ty := by
  have argTyped := noted.second.typed
  rw [checkCall, Checks, establishes_get_bind]
  rw [if_neg node.listed.1]
  split
  case isTrue => trivial
  case isFalse textual =>
    rw [node.argsOf_test]
    dsimp only [head?_cons]
    split
    case isTrue => trivial
    case isFalse isStr =>
      split
      case isTrue => trivial
      case isFalse constant =>
        rw [not_not] at textual isStr
        rw [isStr] at argTyped
        refine ⟨rfl, .test noted.first.typed textual argTyped ?_⟩
        intro isMatch
        simp only [isMatch, true_and, not_not] at constant
        rcases laid.operands.tail.head.here with ⟨argArgs, argNode⟩
        have hit : input.ast.node (arg.rootFrom (start + base.nodeCount)) = _ :=
          argNode.hit
        rw [hit] at constant
        exact Expr.eq_of_isLiteralStr constant

lemma checkBin_checks (laid : Laid input.ast.arena (.bin op lhs rhs) start)
    (noted : EverywhereAll (CheckNote input.source state) [lhs, rhs] start) :
    Checks (checkBin input op (lhs.rootFrom start) (rhs.rootFrom (start + lhs.nodeCount))) state
      fun ty after => after = state ∧ HasType input.source (.bin op lhs rhs) ty := by
  have leftTyped := noted.first.typed
  have rightTyped := noted.second.typed
  rw [checkBin, Checks, establishes_get_bind]
  cases op with
  | eq | ne =>
    dsimp only
    split
    case isTrue comparable => exact ⟨rfl, .equality (by simp) leftTyped rightTyped comparable⟩
    case isFalse => trivial
  | lt | le | gt | ge =>
    dsimp only
    split
    case isTrue both =>
      rw [both.1] at leftTyped
      rw [both.2] at rightTyped
      exact ⟨rfl, .ordering rfl leftTyped rightTyped⟩
    case isFalse => trivial
  | isIn =>
    dsimp only
    rcases laid.operands.tail.head.here with ⟨rhsArgs, node⟩
    have hit : input.ast.node (rhs.rootFrom (start + lhs.nodeCount)) = _ := node.hit
    rw [hit]
    split
    case h_1 listFrom len isList =>
      rcases Expr.eq_of_listNode (Option.some.inj isList) with ⟨elems, rfl, _, _⟩
      rw [rightTyped.list_ty] at rightTyped
      split
      case isTrue => trivial
      case isFalse scalar =>
        have mem : HasType input.source (.bin .isIn lhs (.list elems)) .bool :=
          .member leftTyped (not_or.mp scalar) rightTyped
        split
        case h_1 => exact ⟨rfl, mem⟩
        case h_2 =>
          split
          · exact ⟨rfl, mem⟩
          · trivial
    case h_2 => trivial

lemma checkElems_checks (first : Ty) :
    ∀ elems : List NodeId, Checks (checkElems first elems) state fun _ after =>
      after = state ∧ ∀ elem ∈ elems, state.tyOf elem = first := by
  intro elems
  induction elems with
  | nil => exact ⟨rfl, fun _ mem => by cases mem⟩
  | cons elem rest induction =>
    rw [checkElems, Checks, establishes_get_bind]
    split
    case isTrue same =>
      apply induction.mono
      intro _ after holds
      refine ⟨holds.1, ?_⟩
      intro other mem
      rcases mem_cons.mp mem with equal | later
      · subst other
        exact same
      · exact holds.2 other later
    case isFalse => trivial

lemma checkList_checks (node : LaidNode input.ast.arena (.list elems) start argsFrom)
    (noted : EverywhereAll (CheckNote input.source state) elems start) :
    Checks (checkList input argsFrom elems.length) state fun ty after =>
      after = state ∧ HasType input.source (.list elems) ty := by
  rw [checkList, Checks, establishes_get_bind, node.argsOf_list]
  cases elems with
  | nil => exact ⟨rfl, .list (show Ty.nullable .bool from rfl) (by simp)⟩
  | cons first rest =>
    dsimp only [Expr.rootsFrom]
    split
    case isTrue scalar =>
      apply (checkElems_checks _ _).bind
      intro _ after same
      refine ⟨same.1, .list scalar ?_⟩
      intro elem mem
      rcases noted.elem mem with ⟨root, listed, typed⟩
      rcases mem_cons.mp listed with equal | later
      · rw [equal] at typed
        exact typed
      · rw [same.2 root later] at typed
        exact typed
    case isFalse => trivial

end Nodes

/-! ## Attribute paths -/

lemma pushSegment_spec {tail segment written : Bytes}
    (fits : pushSegment tail segment first = some written) :
    written = segment ++ (if first then tail else ascii "." ++ tail) ∧
      written.length ≤ maxPathBytes := by
  simp only [pushSegment, Option.ite_none_right_eq_some, Option.some.injEq] at fits
  rcases fits with ⟨short, rfl⟩
  refine ⟨?_, short⟩
  cases first with
  | true => rfl
  | false => exact append_assoc _ _ _

lemma assembleFrom_ensures (ast : Ast) (text : Bytes) (name : Span) (fuel start : Nat) (base : Expr)
    (tail : Bytes) (segment : Span) (first : Bool) (laid : Laid ast.arena base start)
    (enough : maxPathBytes + 1 + first.toNat ≤ fuel + tail.length)
    (short : tail.length ≤ maxPathBytes) :
    Ensures (assembleFrom ast text name fuel tail segment (base.rootFrom start) first)
      Failure.IsReported fun result =>
        ∃ front bytes, base.path text = some front ∧ segment.slice text = some bytes ∧
          result.1 = front ++ ascii "." ++ bytes ++
            (if first then tail else ascii "." ++ tail) := by
  induction fuel generalizing start base tail segment first with
  | zero =>
    omega
  | succ fuel induction =>
    unfold assembleFrom
    cases sliced : segment.slice text with
    | none => trivial
    | some bytes =>
      dsimp only
      cases pushed : pushSegment tail bytes first with
      | none => trivial
      | some written =>
        rcases pushSegment_spec pushed with ⟨equal, within⟩
        rcases laid.here with ⟨argsFrom, node⟩
        have hit : ast.node (base.rootFrom start) = _ := node.hit
        rw [hit]
        cases base with
        | ident root =>
          dsimp only [Expr.node]
          cases rootSliced : root.slice text with
          | none => trivial
          | some front =>
            dsimp only
            cases rootPushed : pushSegment written front false with
            | none => trivial
            | some path =>
              refine ⟨front, bytes, rootSliced, rfl, ?_⟩
              rw [(pushSegment_spec rootPushed).1, equal]
              simp only [Bool.false_eq_true, if_false, append_assoc]
        | field base outer =>
          have wider : tail.length + 1 ≤ written.length + first.toNat := by
            rw [equal]
            cases first <;> simp [ascii]
          apply (induction start base written outer false laid.operands.head (by
            simp only [Bool.toNat_false]
            omega) within).mono
          rintro result ⟨front, middle, frontPath, outerSliced, path⟩
          refine ⟨front ++ ascii "." ++ middle, bytes, ?_, rfl, ?_⟩
          · simp only [Expr.path, frontPath, outerSliced, Option.bind_eq_bind, Option.bind_some]
          · rw [path, equal]
            simp only [Bool.false_eq_true, if_false, append_assoc]
        | literal constant => cases constant <;> trivial
        | junction stop => cases stop <;> trivial
        | _ => trivial

lemma assemblePath_ensures (name : Span) (laid : Laid ast.arena base start) :
    Ensures (assemblePath ast text (base.rootFrom start) name) Failure.IsReported fun result =>
      (Expr.field base name).path text = some result.1 := by
  apply (assembleFrom_ensures ast text name _ start base [] name true laid
    (le_refl _) (Nat.zero_le _)).mono
  rintro result ⟨front, bytes, frontPath, sliced, path⟩
  rw [path]
  simp only [Expr.path, frontPath, sliced, Option.bind_eq_bind, Option.bind_some, if_true,
    append_nil]

/-! ## Attributes -/

lemma sameRef_scalar (same : sameRef strings reference (.scalar attr)) :
    reference = .scalar attr := by
  cases reference with
  | scalar other =>
    simp only [sameRef, beq_iff_eq] at same
    rw [same]
  | field map key => cases same

lemma internSlot_spec {after} (interned : internSlot slots strings want = some (slot, after)) :
    slots <+: after ∧
      ∃ reference, after[slot]? = some reference ∧
        ∀ attr, want = .scalar attr → reference = .scalar attr := by
  unfold internSlot at interned
  cases hit : slots.findIdx? fun slot => sameRef strings slot want with
  | some index =>
    rw [hit] at interned
    simp only [Option.ite_none_right_eq_some, Option.some.injEq, Prod.mk.injEq] at interned
    rcases interned with ⟨_, rfl, rfl⟩
    rw [findIdx?_eq_some_iff_getElem] at hit
    rcases hit with ⟨inside, shared, _⟩
    refine ⟨prefix_refl _, slots[index], getElem?_eq_getElem inside, ?_⟩
    intro attr scalar
    subst want
    exact sameRef_scalar shared
  | none =>
    rw [hit] at interned
    simp only [Option.ite_none_right_eq_some, Option.some.injEq, Prod.mk.injEq] at interned
    rcases interned with ⟨_, rfl, rfl⟩
    exact ⟨prefix_append _ _, want, getElem?_concat_length, fun _ scalar => scalar⟩

lemma intern_checks (input state want) :
    Checks (intern input want) state fun slot after => ∃ slots,
      after = { state with slots } ∧ state.slots <+: slots ∧
        ∃ reference, slots[slot]? = some reference ∧
          ∀ attr, want = .scalar attr → reference = .scalar attr := by
  unfold Checks Establishes intern
  cases interned : internSlot state.slots state.strings want with
  | none => trivial
  | some result => exact ⟨result.2, rfl, internSlot_spec interned⟩

lemma nodeChecked_of_slot {count index : Nat} {state later : Checker}
    (ready : state.Ready count index) (inside : index < count)
    (grown : later = { state with strings := later.strings, slots })
    (prefixed : state.slots <+: slots) (hit : slots[slot]? = some reference)
    (scalar : ∀ attr, expr.attrOf text = some attr → reference = .scalar attr)
    (typed : HasType text expr ty) (reads : expr.reads text) (noMap : expr.mapOf text = none) :
    NodeChecked text index expr state ty
      { later with nodeSlot := later.nodeSlot.set index slot } := by
  rw [grown]
  refine ⟨typed, rfl, fun _ _ => rfl, ?_, prefixed, ?_, ?_⟩
  · intro other apart
    exact getElem?_set_ne (Ne.symm apart)
  · rw [noMap]
    exact ready.nodeMap index (le_refl _) inside
  · rw [SlotNote, reads]
    have unread := ready.nodeSlot index (le_refl _) inside
    exact ⟨slot, reference,
      getElem?_set_self (lt_of_getElem? unread), hit, scalar⟩

section Resolution

variable {state : Checker} {count index : Nat}

lemma resolveField_checks (name : Span) (laid : Laid input.ast.arena base start)
    (ready : state.Ready count index) (inside : index < count)
    (note : CheckNote input.source state base start) :
    Checks (resolveField input index (base.rootFrom start) name) state
      (NodeChecked input.source index (.field base name) state) := by
  have baseTyped := note.typed
  rw [resolveField, Checks, establishes_get_bind]
  split
  case isTrue => trivial
  case isFalse isMap =>
    rw [ne_eq, not_not] at isMap
    rw [isMap] at baseTyped
    apply ((assemblePath_ensures name laid).lift state).bind
    rintro result state ⟨rfl, path⟩
    have row : (Expr.field base name).entry input.source = resolvePath result.1 := by
      simp only [Expr.entry, path, Option.bind_some]
    cases resolved : resolvePath result.1 with
    | none =>
      simp only [resolved]
      trivial
    | some entry =>
      rw [resolved] at row
      have attrRow : (Expr.field base name).attrOf input.source = entry.attr := by
        simp only [Expr.attrOf, row, Option.bind_some]
      simp only [resolved]
      cases attr : entry.attr with
      | some attr =>
        rw [attr] at attrRow
        dsimp only
        split
        · apply (intern_checks input state _).bind
          rintro slot later ⟨slots, grown, prefixed, reference, hit, scalar⟩
          apply nodeChecked_of_slot ready inside (by rw [grown]) prefixed hit
          · intro other named
            rw [attrRow] at named
            exact scalar other (congrArg AttrRef.scalar (Option.some.inj named))
          · exact .scalar baseTyped attrRow
          · simp only [Expr.reads, attrRow, Option.isSome_some]
          · simp only [Expr.mapOf, attrRow]
        · trivial
      | none =>
        rw [attr] at attrRow
        have mapRow : (Expr.field base name).mapOf input.source = entry.map := by
          simp only [Expr.mapOf, attrRow, row, Option.bind_some]
        cases map : entry.map with
        | none => trivial
        | some map =>
          rw [map] at mapRow
          have unmapped := ready.nodeMap index (le_refl _) inside
          refine ⟨.map baseTyped mapRow, rfl, ?_, fun _ _ => rfl, prefix_refl _, ?_, ?_⟩
          · intro other apart
            exact getElem?_set_ne (Ne.symm apart)
          · rw [mapRow]
            exact getElem?_set_self (lt_of_getElem? unmapped)
          · rw [SlotNote, show (Expr.field base name).reads input.source = false by
              simp only [Expr.reads, attrRow, Option.isSome_none]]
            exact ready.nodeSlot index (le_refl _) inside

lemma canonicalKey_checks (map : MapId) (key : Span) (state) :
    Checks (canonicalKey map key) state fun _ after => ∃ strings,
      after = { state with strings } := by
  unfold Checks Establishes canonicalKey
  split
  · exact ⟨_, rfl⟩
  · exact ⟨state.strings, rfl⟩

lemma resolveIndex_checks (laid : Laid input.ast.arena key (start + base.nodeCount))
    (ready : state.Ready count index) (inside : index < count)
    (note : CheckNote input.source state base start) :
    Checks (resolveIndex input index (base.rootFrom start) (key.rootFrom (start + base.nodeCount)))
      state (NodeChecked input.source index (.index base key) state) := by
  rw [resolveIndex, Checks, establishes_get_bind, note.map]
  dsimp only [Option.join_some]
  cases mapped : base.mapOf input.source with
  | none => trivial
  | some map =>
    rcases laid.here with ⟨keyArgs, node⟩
    have hit : input.ast.node (key.rootFrom (start + base.nodeCount)) = _ := node.hit
    dsimp only
    rw [hit]
    split
    case h_2 => trivial
    case h_1 text isStr =>
      have literal : ∃ text, key = .literal (.str text) :=
        Expr.eq_of_isLiteralStr (by rw [isStr]; rfl)
      rcases literal with ⟨text, rfl⟩
      apply (canonicalKey_checks map _ state).bind
      rintro span middle ⟨strings, keyed⟩
      split
      · apply (intern_checks input middle _).bind
        rintro slot later ⟨slots, grown, prefixed, reference, hit, _⟩
        rw [keyed] at prefixed
        refine nodeChecked_of_slot ready inside ?_ prefixed hit ?_
          (.index note.typed mapped) rfl rfl
        · rw [grown, keyed]
        · intro attr named
          cases named
      · trivial

end Resolution

/-! ## The whole pass -/

section Pass

variable {state : Checker} {count : Nat}

lemma checkNode_checks (laid : Laid input.ast.arena expr start)
    (node : LaidNode input.ast.arena expr start argsFrom)
    (ready : state.Ready count (expr.rootFrom start)) (inside : expr.rootFrom start < count)
    (noted : EverywhereAll (CheckNote input.source state) expr.operands start) :
    Checks (checkNode input (expr.rootFrom start) (expr.node start argsFrom)) state
      fun result after =>
        NodeChecked input.source (expr.rootFrom start) expr state result.1 after := by
  -- Most nodes only look at the types of their operands.
  have untouched : expr.reads input.source = false → expr.mapOf input.source = none →
      ∀ {action : CheckM (Ty × Nat)}, Checks action state (fun result after =>
          after = state ∧ HasType input.source expr result.1) →
        Checks action state fun result after =>
          NodeChecked input.source (expr.rootFrom start) expr state result.1 after := by
    intro unread noMap action checks
    apply checks.mono
    rintro result after ⟨rfl, typed⟩
    exact nodeChecked_of_typed ready inside typed unread noMap
  cases expr with
  | literal constant =>
    apply untouched rfl rfl
    cases constant <;> exact ⟨rfl, .literal _⟩
  | ident name =>
    apply untouched rfl rfl
    show Checks (if input.isFieldBase[start]?.getD false then _ else _) _ _
    split
    · exact ⟨rfl, .ident name⟩
    have accepted : Ensures (namespaceOrError name input.source) Failure.IsReported
        fun _ => True := by
      unfold namespaceOrError
      split
      · split <;> trivial
      · trivial
    apply (accepted.lift state).bind
    intro _ after same
    exact ⟨same.1, .ident name⟩
  | field base name =>
    exact typed_startAt _ _ (resolveField_checks name laid.operands.head ready inside noted.first)
  | index base key =>
    exact typed_startAt _ _ (resolveIndex_checks laid.operands.tail.head ready inside noted.first)
  | size base =>
    apply untouched rfl rfl
    exact typed_startAt (fun ty after => after = state ∧ HasType _ _ ty) _
      (checkSize_checks noted)
  | test method base arg =>
    apply untouched rfl rfl
    exact typed_startAt (fun ty after => after = state ∧ HasType _ _ ty) _
      (checkTest_checks laid node noted)
  | not inner => exact untouched rfl rfl (checkNot_checks noted)
  | bin op lhs rhs =>
    apply untouched rfl rfl
    exact typed_startAt (fun ty after => after = state ∧ HasType _ _ ty) _
      (checkBin_checks laid noted)
  | junction stop lhs rhs => exact untouched rfl rfl (checkJunction_checks noted)
  | ternary cond thenExpr elseExpr => exact untouched rfl rfl (checkTernary_checks noted)
  | list elems =>
    apply untouched rfl rfl
    apply (checkList_checks node noted).bind
    rintro ty after ⟨rfl, typed⟩
    split
    case h_1 first _ =>
      apply (startAt_checks first).bind
      intro spot after same
      exact ⟨same, typed⟩
    case h_2 => exact ⟨rfl, typed⟩

end Pass

structure Checked.Describes (checked : Checked) (text : Bytes) (expr : Expr) : Prop where
  typed : HasType text expr checked.result
  notMap : checked.result ≠ .map
  nodes : Everywhere (fun expr start => (∃ ty, HasType text expr ty) ∧
    SlotNote text checked.nodeSlot checked.slots expr (expr.rootFrom start)) expr 0

lemma check_ensures (strings text : Bytes) (phase : Phase) (limits)
    (represents : ast.Represents expr) :
    Ensures (check ast strings text phase limits) Failure.IsReported fun checked =>
      checked.ast = ast ∧ checked.slots.length ≤ limits.maxAttrSlots.toNat ∧
        checked.Describes text expr := by
  have passed : Establishes (passFrom ast.arena.nodes
      (checkStep ⟨ast, text, phase, limits, fieldBases ast.nodes⟩) 0 expr.nodeCount)
      (.initial strings ast.nodes.length) Failure.IsReported fun _ after =>
        Notes (Ready ast.nodes.length) Keeps (CheckNote text) expr 0
          (.initial strings ast.nodes.length) after := by
    apply passFrom_notes keeping
    · intro inner start argsFrom state laid node ready noted
      have inside : inner.rootFrom start < ast.nodes.length :=
        lt_of_getElem? node.hit
      apply (checkNode_checks laid node ready inside noted).bind
      intro result after checked
      exact checked.recorded inside ready
    · exact represents.laid
    · exact initial_ready strings _
  rw [represents.count] at passed
  apply Ensures.bind passed
  intro result notes
  have noted := notes.noted result.2 (keeping.refl _ _)
  have typed := noted.here.typed
  rw [← represents.root] at typed
  dsimp only
  split
  case isTrue => trivial
  case isFalse few =>
    split
    case isTrue => trivial
    case isFalse notMap =>
      refine ⟨rfl, Nat.le_of_not_lt few, typed, notMap, noted.mono ?_⟩
      intro inner start note
      exact ⟨⟨_, note.typed⟩, note.slot⟩

end IronTraffic.Policy
