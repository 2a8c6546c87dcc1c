import IronTraffic.Policy.Emission

/-! # Compiled programs are the code of their expression

One lemma for each kind of node says what visiting it adds to the code of its
operands. The traversal rule gives the code of the whole tree, and the accepted
program is that code followed by a return.
-/

namespace IronTraffic.Policy

open List

lemma emitStep_eq (input) (index : Nat) (node : Node) (state) :
    emitStep input index node state = emitNode input index node (state.opened input index) := by
  show (openHole input index state >>= fun result => emitNode input index node result.2) = _
  rw [openHole_eq]
  rfl

def Literal.const : Literal → Const
  | .bool value => .bool value
  | .int value => .int value
  | .str text => .str text.start text.len
  | .null => .null

lemma Literal.isScalar_const (literal : Literal) : literal.const.isScalar := by
  cases literal <;> rfl

lemma Literal.constToValue_const (program) (literal : Literal) :
    constToValue program literal.const = some (literal.value program.strings) := by
  cases literal <;> rfl

lemma emitNode_literal (input) (index : Nat) (literal : Literal) :
    emitNode input index literal.node = emitLeaf input index literal.const := by
  cases literal <;> rfl

variable {ast : Ast} {expr base : Expr} {text : Bytes} {first last argsFrom : Nat} {Item : Type}

lemma isListNode_laid (laid : Laid ast.arena expr start) :
    isListNode ast (expr.rootFrom start) = expr.isList ∧
    listLenOf ast (expr.rootFrom start) = expr.elems.length := by
  rcases laid.here with ⟨argsFrom, node⟩
  have hit : ast.node (expr.rootFrom start) = _ := node.hit
  rw [isListNode, listLenOf, hit]
  cases expr with
  | literal constant => cases constant <;> exact ⟨rfl, rfl⟩
  | junction stop => cases stop <;> exact ⟨rfl, rfl⟩
  | _ => exact ⟨rfl, rfl⟩

/-! ## Names -/

lemma AttrId.ty_ne_map (attr : AttrId) : attr.ty ≠ .map := by
  cases attr <;> simp [AttrId.ty]

lemma coded_of_map (named : (expr.path text).isSome) (typed : HasType text expr .map)
    (coded : Coded program text expr first last) : last = first := by
  cases expr with
  | ident name => exact coded
  | field base name =>
    have unread : (Expr.field base name).attrOf text = none := by
      generalize ty : Ty.map = mapTy at typed
      cases typed with
      | @scalar _ _ attr _ resolved => exact absurd ty.symm attr.ty_ne_map
      | map _ resolved =>
        unfold Expr.mapOf at resolved
        split at resolved
        case h_1 => cases resolved
        case h_2 unread => exact unread
    rw [Coded, unread] at coded
    exact coded
  | literal | index | size | test | not | bin | junction | ternary | list => cases named

lemma Expr.path_base (hit : (Expr.field base name).entry text = some row) :
    (base.path text).isSome := by
  rw [Expr.entry, Expr.path] at hit
  cases path : base.path text with
  | none =>
    rw [path] at hit
    cases hit
  | some front => rfl

lemma Expr.entry_of_attrOf (hit : expr.attrOf text = some attr) :
    ∃ row, expr.entry text = some row := by
  rcases Option.bind_eq_some_iff.mp hit with ⟨row, equal, _⟩
  exact ⟨row, equal⟩

lemma Expr.entry_of_mapOf {map : MapId} (hit : expr.mapOf text = some map) :
    expr.attrOf text = none ∧ ∃ row, expr.entry text = some row := by
  unfold Expr.mapOf at hit
  split at hit
  case h_1 => cases hit
  case h_2 unread =>
    rcases Option.bind_eq_some_iff.mp hit with ⟨row, equal, _⟩
    exact ⟨unread, row, equal⟩

lemma HasType.field_base (typed : HasType text (.field base name) ty) :
    (base.path text).isSome ∧ HasType text base .map := by
  cases typed with
  | scalar names resolved =>
    rcases Expr.entry_of_attrOf resolved with ⟨row, hit⟩
    exact ⟨Expr.path_base hit, names⟩
  | map names resolved =>
    rcases (Expr.entry_of_mapOf resolved).2 with ⟨row, hit⟩
    exact ⟨Expr.path_base hit, names⟩

/-! ## Nodes that emit at most one instruction -/

section Visits

variable {input : CompileInput} {before state : Compiler} {start : Nat} {arg inner lhs rhs : Expr}

lemma emitLeaf_emits (visiting : Visiting input text (.literal constant) start before state) :
    Emitting (emitLeaf input ((Expr.literal constant).rootFrom start) constant.const) state fun _
      after => Emits input text (.literal constant) start before after := by
  unfold emitLeaf
  cases suppressed : isSuppressed input ((Expr.literal constant).rootFrom start) with
  | true =>
    apply visiting.emits_nothing rfl fun _ => rfl
    intro unsuppressed
    rw [suppressed] at unsuppressed
    cases unsuppressed
  | false =>
    have ready := visiting.prepared.ready
    apply (internConst_emits constant.const ready.consts).bind
    intro const tables interned
    have tabled := interned.tabled ready (by
      intro start len equal
      cases constant <;> cases equal)
    apply visiting.emits_op tabled _ rfl
    · intro isSuppressed
      rw [suppressed] at isSuppressed
      cases isSuppressed
    · intro program first middle carried operated hit
      subst middle
      refine ⟨rfl, const, hit, ?_⟩
      rw [interned.value constant.isScalar_const carried, constant.constToValue_const]

lemma isSuppressed_only (guided : Guided input text expr start) (single : expr.operands = [base]) :
    isSuppressed input (base.rootFrom start) = expr.folds 0 base := by
  have split : expr.operands = [] ++ base :: [] := single
  exact guided.isSuppressed_operand split

lemma isSuppressed_pair (guided : Guided input text expr start)
    (pair : expr.operands = [lhs, rhs]) :
    isSuppressed input (lhs.rootFrom start) = expr.folds 0 lhs ∧
      isSuppressed input (rhs.rootFrom (start + lhs.nodeCount)) = expr.folds 1 rhs := by
  have left : expr.operands = [] ++ lhs :: [rhs] := pair
  have right : expr.operands = [lhs] ++ rhs :: [] := pair
  exact ⟨guided.isSuppressed_operand left, guided.isSuppressed_operand right⟩

lemma operated_only (unfolded : isSuppressed input (base.rootFrom start) = false)
    (operated : Operated input program text [base] start first last) :
    Coded program text base first last := by
  simp only [Operated, unfolded, Bool.false_eq_true, if_false] at operated
  rcases operated with ⟨middle, coded, equal⟩
  rw [equal]
  exact coded

lemma operated_pair (left : isSuppressed input (lhs.rootFrom start) = false)
    (right : isSuppressed input (rhs.rootFrom (start + lhs.nodeCount)) = false)
    (operated : Operated input program text [lhs, rhs] start first last) :
    ∃ middle, Coded program text lhs first middle ∧ Coded program text rhs middle last := by
  simp only [Operated, left, right, Bool.false_eq_true, if_false] at operated
  rcases operated with ⟨middle, leftCoded, second, rightCoded, equal⟩
  rw [equal]
  exact ⟨middle, leftCoded, rightCoded⟩

section

variable (few : input.checked.slots.length ≤ u16Max)

include few

lemma emitAttr_emits (visiting : Visiting input text expr start before state)
    (notList : expr.isList = false) (notLiteral : expr.isLiteral = false)
    (unread : expr.reads text = false →
      ∀ program first last,
        state.Carried input program → Operated input program text expr.operands start first last →
        Coded program text expr first last)
    (reads : expr.reads text = true →
      ∀ program first middle slot reference,
        state.Carried input program → Operated input program text expr.operands start first middle →
        program.ops[middle]? = some (.loadAttr slot) → program.slots[slot]? = some reference →
        (∀ attr, expr.attrOf text = some attr → reference = .scalar attr) →
        Coded program text expr first (middle + 1)) :
    Emitting (emitAttr input (expr.rootFrom start)) state fun _ after =>
      Emits input text expr start before after := by
  have leaf : expr.isLiteral → expr.operands = [] := by
    rw [notLiteral]
    intro impossible
    cases impossible
  unfold emitAttr
  cases suppressed : isSuppressed input (expr.rootFrom start) with
  | true =>
    apply visiting.emits_nothing notList leaf
    intro unsuppressed
    rw [suppressed] at unsuppressed
    cases unsuppressed
  | false =>
    have slotted := visiting.guided.slot
    unfold SlotNote at slotted
    cases reading : expr.reads text with
    | false =>
      simp only [reading] at slotted
      simp only [slotted, Option.getD_some, ne_eq, not_true_eq_false, if_false, Bool.false_eq_true]
      exact visiting.emits_nothing notList leaf fun _ => unread reading
    | true =>
      simp only [reading] at slotted
      rcases slotted with ⟨slot, reference, hit, listed, resolved⟩
      have inside := lt_of_getElem? listed
      have named : slot ≠ noSlot := by
        unfold noSlot
        omega
      simp only [hit, Option.getD_some, ne_eq, named, not_false_eq_true, if_true,
        Bool.false_eq_true, if_false]
      apply visiting.emits_op (.refl visiting.prepared.ready) _ notList fun _ => notLiteral
      intro program first middle carried operated loaded
      have slots : program.slots[slot]? = some reference := by
        rw [carried.slots]
        exact listed
      exact reads reading program first middle slot reference carried operated loaded slots
        resolved

lemma emitField_emits (visiting : Visiting input text (.field base name) start before state) :
    Emitting (emitAttr input ((Expr.field base name).rootFrom start)) state fun _ after =>
      Emits input text (.field base name) start before after := by
  rcases visiting.guided.typed with ⟨ty, typed⟩
  rcases typed.field_base with ⟨named, baseTyped⟩
  have unfolded := isSuppressed_only visiting.guided rfl
  -- The base pushes nothing, so the code of the access starts where the base does.
  have silent : ∀ program first last,
      Operated input program text [base] start first last → last = first := by
    intro program first last operated
    exact coded_of_map named baseTyped (operated_only unfolded operated)
  apply emitAttr_emits few visiting rfl rfl
  · intro unread program first last _ operated
    have none : (Expr.field base name).attrOf text = none := by
      simpa [Expr.reads] using unread
    rw [Coded, none]
    exact silent program first last operated
  · intro reads program first middle slot reference _ operated loaded listed resolved
    have start := silent program first middle operated
    subst middle
    rcases Option.isSome_iff_exists.mp reads with ⟨attr, hit⟩
    rw [Coded, hit]
    rw [resolved attr hit] at listed
    exact ⟨rfl, slot, loaded, listed⟩

lemma emitIndex_emits (visiting : Visiting input text (.index base key) start before state) :
    Emitting (emitAttr input ((Expr.index base key).rootFrom start)) state fun _ after =>
      Emits input text (.index base key) start before after := by
  rcases visiting.guided.typed with ⟨ty, typed⟩
  rcases isSuppressed_pair visiting.guided rfl with ⟨baseUnfolded, keyUnfolded⟩
  cases typed with
  | @index _ _ map span baseTyped resolved =>
    rcases Expr.entry_of_mapOf resolved with ⟨unread, row, hit⟩
    apply emitAttr_emits few visiting rfl rfl
    · intro unread
      cases unread
    intro _ program first middle slot reference _ operated loaded _ _
    rcases operated_pair baseUnfolded keyUnfolded operated with
      ⟨second, baseCoded, keyCoded⟩
    have silent : second = first := by
      cases base with
      | field inner name =>
        rw [Coded, unread] at baseCoded
        exact baseCoded
      | _ => cases hit
    subst second
    rcases keyCoded with ⟨rfl, const, loads, _⟩
    exact ⟨rfl, ⟨const, loads⟩, slot, loaded⟩

lemma emitIdent_emits (visiting : Visiting input text (.ident name) start before state) :
    Emitting (emitAttr input ((Expr.ident name).rootFrom start)) state fun _ after =>
      Emits input text (.ident name) start before after := by
  apply emitAttr_emits few visiting rfl rfl
  · intro _ program first last _ operated
    exact operated
  · intro reads
    cases reads

end

lemma emitNot_emits (visiting : Visiting input text (.not inner) start before state) :
    Emitting (emit .not) state fun _ after => Emits input text (.not inner) start before after := by
  have unfolded := isSuppressed_only visiting.guided rfl
  apply visiting.emits_op (.refl visiting.prepared.ready) _ rfl fun _ => rfl
  intro program first middle _ operated hit
  exact ⟨middle, operated_only unfolded operated, rfl, hit⟩

lemma emitSizeCall_emits (laid : Laid input.checked.ast.arena base start)
    (visiting : Visiting input text (.size base) start before state) :
    Emitting (emitSizeCall input (base.rootFrom start)) state fun _ after =>
      Emits input text (.size base) start before after := by
  have unfolded := isSuppressed_only visiting.guided rfl
  rcases isListNode_laid laid with ⟨isList, length⟩
  rw [emitSizeCall, isList, length]
  cases list : base.isList with
  | true =>
    have ready := visiting.prepared.ready
    apply (internConst_emits (.int base.elems.length) ready.consts).bind
    intro const tables interned
    have tabled := interned.tabled ready (by
      intro start len equal
      cases equal)
    apply visiting.emits_op tabled _ rfl fun _ => rfl
    intro program first middle carried operated hit
    refine ⟨middle, operated_only unfolded operated, rfl, ?_⟩
    rw [if_pos list]
    exact ⟨const, hit, interned.value rfl carried⟩
  | false =>
    apply visiting.emits_op (.refl visiting.prepared.ready) _ rfl fun _ => rfl
    intro program first middle _ operated hit
    refine ⟨middle, operated_only unfolded operated, rfl, ?_⟩
    rw [list]
    exact hit

lemma emitMethod_emits (notMatch : method ≠ .isMatch) (notSize : method ≠ .size)
    (visiting : Visiting input text (.test method base arg) start before state) :
    Emitting (emit (methodOp method)) state fun _ after =>
      Emits input text (.test method base arg) start before after := by
  rcases isSuppressed_pair visiting.guided rfl with ⟨baseUnfolded, argUnfolded⟩
  have unfolds : ∀ spot operand,
      (Expr.test method base arg).folds spot operand = false := by
    intro spot operand
    cases method with
    | isMatch => exact absurd rfl notMatch
    | _ => rfl
  rw [unfolds] at baseUnfolded argUnfolded
  apply visiting.emits_op (.refl visiting.prepared.ready) _ rfl fun _ => rfl
  intro program first middle _ operated hit
  rcases operated_pair baseUnfolded argUnfolded operated with ⟨second, baseCoded, argCoded⟩
  refine ⟨second, baseCoded, ?_⟩
  rw [if_neg notMatch]
  exact ⟨notSize, middle, argCoded, rfl, hit⟩

lemma patternOf_laid
    (argLaid : Laid input.checked.ast.arena (.literal (.str pattern)) (start + base.nodeCount))
    (node : LaidNode input.checked.ast.arena (.test .isMatch base (.literal (.str pattern))) start
      argsFrom) :
    patternOf input argsFrom 1 =
      (rangeOf input.checked.strings pattern.start pattern.len, pattern.start) := by
  rcases argLaid.here with ⟨argArgs, argNode⟩
  have hit : input.checked.ast.node _ = some (.str pattern) := argNode.hit
  rw [patternOf, node.argsOf_test, head?_cons, Option.bind_some, hit]

lemma emitMatchesCall_emits (laid : Laid input.checked.ast.arena (.test .isMatch base arg) start)
    (node : LaidNode input.checked.ast.arena (.test .isMatch base arg) start argsFrom)
    (visiting : Visiting input text (.test .isMatch base arg) start before state) :
    Emitting (emitMatchesCall input argsFrom 1) state fun _ after =>
      Emits input text (.test .isMatch base arg) start before after := by
  rcases isSuppressed_pair visiting.guided rfl with ⟨baseUnfolded, argFolded⟩
  rcases visiting.guided.typed with ⟨ty, typed⟩
  cases typed with
  | test _ _ _ constant =>
    rcases constant rfl with ⟨pattern, literal⟩
    subst arg
    rw [emitMatchesCall, patternOf_laid laid.operands.tail.head node]
    dsimp only
    split
    · trivial
    have ready := visiting.prepared.ready
    apply (internRegex_emits _ _ ready.regexes).bind
    intro regex tables interned
    apply visiting.emits_op (interned.tabled ready) _ rfl fun _ => rfl
    intro program first middle carried operated hit
    simp only [Expr.operands, Operated, baseUnfolded, argFolded, Expr.folds,
      beq_self_eq_true, if_true] at operated
    rcases operated with ⟨second, baseCoded, third, silent, equal⟩
    have same : third = second := silent rfl
    subst third middle
    refine ⟨second, baseCoded, ?_⟩
    refine ⟨rfl, pattern, regex, rfl, hit, ?_⟩
    rw [carried.strings]
    exact getElem?_grown carried.regexes interned.hit

lemma emitComparison_emits (notIn : op ≠ .isIn)
    (visiting : Visiting input text (.bin op lhs rhs) start before state) :
    Emitting (emit (comparisonOp op)) state fun _ after =>
      Emits input text (.bin op lhs rhs) start before after := by
  rcases isSuppressed_pair visiting.guided rfl with ⟨leftUnfolded, rightUnfolded⟩
  apply visiting.emits_op (.refl visiting.prepared.ready) _ rfl fun _ => rfl
  intro program first middle _ operated hit
  rcases operated_pair leftUnfolded rightUnfolded operated with ⟨second, leftCoded, rightCoded⟩
  refine ⟨second, middle, leftCoded, rightCoded, rfl, ?_⟩
  rw [Compares, if_neg notIn]
  exact hit

lemma emitMember_emits (visiting : Visiting input text (.bin .isIn lhs rhs) start before state)
    (listed : state.code.length ≤ u16Max → ∀ elems, rhs = .list elems →
      ∃ const, state.nodeConst[rhs.rootFrom (start + lhs.nodeCount)]? = some const ∧
        ∀ program, state.Carried input program → ListConst program const elems) :
    Emits input text (.bin .isIn lhs rhs) start before { state with code := state.code ++
        [.inSet (state.nodeConst[rhs.rootFrom (start + lhs.nodeCount)]?.getD 0)] } := by
  rcases isSuppressed_pair visiting.guided rfl with ⟨leftUnfolded, rightUnfolded⟩
  rcases visiting.guided.typed with ⟨ty, typed⟩
  have isList : ∃ elems, rhs = .list elems := by
    cases typed with
    | equality equality => rcases equality with equal | equal <;> cases equal
    | ordering ordering => cases ordering
    | member => exact ⟨_, rfl⟩
  rcases isList with ⟨elems, equal⟩
  apply visiting.prepared.emits_op (.refl visiting.prepared.ready) _ rfl fun _ => rfl
  intro small
  rcases visiting.operated small with ⟨segment, _, begun, operated⟩
  rcases listed small elems equal with ⟨const, known, holds⟩
  refine ⟨segment, begun, ?_⟩
  intro program carried hit next
  rcases operated_pair leftUnfolded rightUnfolded (operated program carried hit) with
    ⟨second, leftCoded, rightCoded⟩
  refine ⟨second, _, leftCoded, rightCoded, rfl, ?_⟩
  rw [known] at next
  subst rhs
  exact ⟨rfl, const, next, holds program carried⟩

end Visits

/-! ## List literals -/

section Lists

variable {input : CompileInput} {before state : Compiler} {start : Nat}

lemma codedAll_of_operated :
    ∀ {elems : List Expr} {start first last : Nat},
      (∀ left elem right, elems = left ++ elem :: right →
         isSuppressed input (elem.rootFrom (start + Expr.nodeCounts left)) = elem.isLiteral) →
      Operated input program text elems start first last →
      CodedAll program text elems first last := by
  intro elems
  induction elems with
  | nil =>
    intro start first last _ operated
    exact operated
  | cons elem rest induction =>
    rintro start first last folded ⟨middle, head, tail⟩
    have own : isSuppressed input (elem.rootFrom start) = elem.isLiteral :=
      folded [] elem rest rfl
    refine ⟨middle, ?_, ?_⟩
    · rw [own] at head
      cases literal : elem.isLiteral with
      | true =>
        rw [literal] at head
        exact head rfl
      | false =>
        rw [literal] at head
        exact head
    · apply induction _ tail
      intro left later right split
      have whole : elem :: rest = (elem :: left) ++ later :: right := by
        rw [split]
        rfl
      have flag := folded _ _ _ whole
      rw [Expr.nodeCounts, ← add_assoc] at flag
      exact flag

lemma constOfLeaf_laid {elem : Expr} (program) (laid : Laid ast.arena elem start) :
    constToValue program (constOfLeaf ast (elem.rootFrom start)) =
      some (elem.folded program.strings) := by
  rcases laid.here with ⟨argsFrom, node⟩
  have hit : ast.node (elem.rootFrom start) = _ := node.hit
  rw [constOfLeaf, hit]
  cases elem with
  | literal constant => cases constant <;> rfl
  | junction stop => cases stop <;> rfl
  | _ => rfl

lemma constOfLeaf_laidAll (program) :
    ∀ {elems : List Expr} {start : Nat}, LaidAll ast.arena elems start →
      ((Expr.rootsFrom elems start).map (constOfLeaf ast)).filterMap (constToValue program) =
        elems.map (Expr.folded program.strings) := by
  intro elems
  induction elems with
  | nil =>
    intro start _
    rfl
  | cons elem rest induction =>
    intro start laid
    rw [Expr.rootsFrom, map_cons, filterMap_cons, constOfLeaf_laid program laid.head,
      map_cons, induction laid.tail]

lemma toU32_of_le (small : number ≤ u16Max) : toU32 number = number := by
  have bound : u16Max ≤ u32Max := by decide
  exact min_eq_left (small.trans bound)

lemma rangeOf_append_right (left right : List Item) :
    rangeOf (left ++ right) left.length right.length = right := by
  unfold rangeOf slice
  simp

def Compiler.collected (state : Compiler) (consts : List Const) : Compiler :=
  { state with listElems := state.listElems ++ consts }

lemma emitList_emits (small : input.checked.ast.nodes.length ≤ u16Max)
    (laid : Laid input.checked.ast.arena (.list elems) start)
    (node : LaidNode input.checked.ast.arena (.list elems) start argsFrom)
    (visiting : Visiting input text (.list elems) start before state)
    (ready : before.Ready input start) :
    Emitting (emitList input ((Expr.list elems).rootFrom start) argsFrom elems.length) state fun _
      after => Emits input text (.list elems) start before after := by
  have prepared := visiting.prepared
  have root : (Expr.list elems).rootFrom start = start + Expr.nodeCounts elems :=
    Expr.rootFrom_operands _ start
  have inside := lt_of_getElem? node.hit
  have earlier := ready.elems
  have more : state.listElems.length + elems.length ≤
    before.listElems.length + Expr.nodeCounts elems := prepared.elems
  have nodes : input.checked.ast.arena.nodes.length = input.checked.ast.nodes.length := rfl
  generalize consts : (Expr.rootsFrom elems start).map (constOfLeaf input.checked.ast) = folded
  have length : folded.length = elems.length := by
    rw [← consts, length_map, Expr.length_rootsFrom]
  have range : rangeOf (state.listElems ++ folded) state.listElems.length elems.length =
      folded := by
    rw [← length]
    exact rangeOf_append_right _ _
  have collected : (state.collected folded).Ready input (start + Expr.nodeCounts elems) := by
    have middle := prepared.ready
    refine ⟨middle.consts, middle.regexes, ?_, ?_, middle.holePos, middle.nodeConst⟩
    · intro from_ len mem
      have old := middle.lists from_ len mem
      simp only [Compiler.collected, length_append]
      omega
    · simp only [Compiler.collected, length_append]
      omega
  unfold emitList
  rw [node.argsOf_list]
  dsimp only
  rw [consts, Expr.length_rootsFrom]
  show Establishes (get >>= _) state _ _
  rw [establishes_get_bind]
  have collects : Emitting (set (state.collected folded) : CompileM Unit) state
      fun _ after => after = state.collected folded := rfl
  apply collects.bind
  rintro _ after rfl
  rw [toU32_of_le (by omega), toU32_of_le (by omega)]
  apply (internConst_emits _ collected.consts).bind
  intro const tables interned
  have within : state.listElems.length + elems.length ≤
      (state.collected folded).listElems.length := by
    simp only [Compiler.collected, length_append]
    omega
  have tabled := interned.tabled collected (by
    intro from_ len equal
    cases equal
    exact within)
  have grown : state.Grows (state.collected folded) :=
    ⟨prefix_refl _, prefix_append _ _, prefix_refl _⟩
  have tableReady := tabled.ready
  refine ⟨?_, ?_, ?_, ?_, ?_⟩
  · refine Compiler.Ready.mono { tableReady with nodeConst := ?_ } ?_
    · simp only [length_set]
      exact tableReady.nodeConst
    · rw [Expr.nodeCount]
      omega
  · exact prepared.grows.trans (grown.trans
      ⟨tabled.grows.consts, tabled.grows.listElems, tabled.grows.regexes⟩)
  · simp only [tabled.code]
    exact prepared.longer
  · simp only [tabled.listElems, Compiler.collected, length_append, Expr.nodeCount]
    omega
  · intro short
    simp only [tabled.code] at short
    rcases visiting.operated short with ⟨segment, _, begun, operated⟩
    refine ⟨segment, begun.congr tabled.code tabled.holePos, ?_, ?_, ?_⟩
    · intro _ program carried hit
      apply codedAll_of_operated _ (operated program (carried.of_grows (grown.trans
        ⟨tabled.grows.consts, tabled.grows.listElems, tabled.grows.regexes⟩)) hit)
      intro left elem right split
      exact visiting.guided.isSuppressed_operand split
    · intro _ literal
      cases literal
    · intro others equal
      cases equal
      refine ⟨const, ?_, ?_⟩
      · apply getElem?_set_self
        rw [tableReady.nodeConst]
        exact inside
      · intro program carried
        have carriedTables : tables.Carried input program :=
          carried.of_grows ⟨prefix_refl _, prefix_refl _, prefix_refl _⟩
        rcases interned.list collected.lists within carriedTables with ⟨hit, listed, values⟩
        refine ⟨hit, listed, ?_⟩
        have leaves : LaidAll _ elems start := laid.operands
        rw [values, Compiler.collected, range, ← consts, constOfLeaf_laidAll program leaves]

end Lists

/-! ## Jumps -/

section Jumps

variable {input : CompileInput} {before state : Compiler} {start : Nat}

private lemma modify_middle (update) (item : Item) (front back) :
    (front ++ item :: back).modify front.length update = front ++ update item :: back := by
  induction front with
  | nil => rfl
  | cons head front induction =>
    rw [cons_append, length_cons, modify_succ_cons, induction, cons_append]

/-- The state in which the jump reserved before node `key` leads to `target`. -/
def Compiler.patched (state : Compiler) (key target : Nat) : Compiler :=
  match state.holePos[key]? with
  | some spot => { state with code := state.code.modify spot (Op.retarget target) }
  | none => state

lemma Compiler.patched_same (state : Compiler) (key target : Nat) :
    state.patched key target = { state with code := (state.patched key target).code } ∧
      (state.patched key target).code.length = state.code.length := by
  unfold Compiler.patched
  split
  case h_1 => exact ⟨rfl, length_modify _ _ _⟩
  case h_2 => exact ⟨rfl, rfl⟩

lemma Begun.patched (target : Nat) (begun : Begun input start before state (front ++ op :: back))
    (opened : state.holePos[key]? = some (codeFrom input start before + front.length)) :
    Begun input start before (state.patched key target)
      (front ++ Op.retarget target op :: back) := by
  rw [Compiler.patched, opened]
  refine ⟨?_, begun.holes, begun.opened⟩
  have spot : codeFrom input start before + front.length =
      (before.code ++ holeOps (input.holeAt start) ++ front).length := by
    simp only [codeFrom, length_append]
  show state.code.modify _ _ = _
  rw [begun.code, ← append_assoc, spot, modify_middle, append_assoc]

lemma Prepared.emits_patched {after} (prepared : Prepared input expr.operands start before state)
    (same : after = { state with code := after.code })
    (length : after.code.length = state.code.length) (notList : expr.isList = false)
    (notLiteral : expr.isLiteral = false)
    (emitted : state.code.length ≤ u16Max → ∃ segment,
      Begun input start before after segment ∧ ∀ program, state.Carried input program →
        SegmentAt program.ops (codeFrom input start before) segment →
        Coded program text expr (codeFrom input start before)
          (codeFrom input start before + segment.length)) :
    Emits input text expr start before after := by
  have grows : state.Grows after := by
    rw [same]
    exact ⟨prefix_refl _, prefix_refl _, prefix_refl _⟩
  apply prepared.emits _ grows length.ge (by rw [same])
  · intro small
    rcases emitted (by omega) with ⟨segment, begun, coded⟩
    refine ⟨segment, begun, ?_, ?_, ?_⟩
    · intro _ program carried hit
      exact coded program (carried.of_grows grows) hit
    · intro _ literal
      rw [notLiteral] at literal
      cases literal
    · intro elems equal
      rw [equal] at notList
      cases notList
  · rw [same]
    have ready := prepared.ready
    exact { ready with }

lemma retarget_junctionHole (stop : Bool) (target : Nat) :
    Op.retarget target (placeholderFor (junctionHole stop)) = junctionOp stop target := by
  cases stop <;> rfl

lemma closeShortCircuit_emits (guided : Guided input text (.junction stop lhs rhs) start)
    (ready : before.Ready input start)
    (chain : Chain (Emits input text) [lhs, rhs] start before state) :
    Emits input text (.junction stop lhs rhs) start before
      (state.patched (lhs.rootFrom start + 1) (toU16 state.code.length)) := by
  have prepared : Prepared input [lhs, rhs] start before state := prepared_of_chain chain ready
  rcases chain with ⟨middle, left, chain⟩
  rcases chain with ⟨last, right, equal⟩
  subst last
  rcases isSuppressed_pair guided rfl with ⟨leftUnfolded, rightUnfolded⟩
  have split : (Expr.junction stop lhs rhs).operands = [lhs] ++ rhs :: [] := rfl
  have hole := guided.holeAt_operand split (cons_ne_nil _ _)
  have positive := lhs.nodeCount_pos
  simp only [Expr.nodeCounts, add_zero, length_singleton, Expr.holeBefore] at hole
  rcases state.patched_same (lhs.rootFrom start + 1) (toU16 state.code.length) with
    ⟨same, length⟩
  apply prepared.emits_patched same length rfl rfl
  intro small
  rcases left.emitted (right.longer.trans small) with ⟨front, leftEmitted⟩
  rcases right.emitted small with ⟨back, rightEmitted⟩
  have joined := leftEmitted.append rightEmitted.toBegun (by omega)
  rw [hole] at joined
  have whole : Begun input start before state
      (front ++ placeholderFor (junctionHole stop) :: back) := by
    simpa [holeOps] using joined
  have spot := leftEmitted.length
  have opened := rightEmitted.opened (by rw [hole]; rfl)
  have target := whole.length
  rw [spot] at opened
  rw [lhs.rootFrom_succ] at same ⊢
  refine ⟨_, whole.patched _ opened, ?_⟩
  intro program carried hit
  have leftCoded := leftEmitted.coded leftUnfolded program (carried.of_grows right.grows)
    hit.left
  have jump := hit.right.hit
  have entry : codeFrom input (start + lhs.nodeCount) middle =
      codeFrom input start before + front.length + 1 := by
    rw [codeFrom, spot, hole]
    rfl
  have tail : SegmentAt program.ops (codeFrom input start before)
      ((front ++ [Op.retarget (toU16 state.code.length)
        (placeholderFor (junctionHole stop))]) ++ back) := by
    simpa using hit
  have rightCoded := rightEmitted.coded rightUnfolded program carried (by
    rw [entry, add_assoc]
    simpa using tail.right)
  rw [retarget_junctionHole, toU16_of_le small] at jump
  rw [entry] at rightCoded
  simp only [length_append, length_cons] at target ⊢
  rw [target] at jump
  refine ⟨_, leftCoded, jump, ?_⟩
  convert rightCoded using 1
  omega

lemma closeTernary_emits {cond thenExpr elseExpr : Expr}
    (guided : Guided input text (.ternary cond thenExpr elseExpr) start)
    (ready : before.Ready input start)
    (chain : Chain (Emits input text) [cond, thenExpr, elseExpr] start before state) :
    Emits input text (.ternary cond thenExpr elseExpr) start before
      ((state.patched (start + cond.nodeCount + thenExpr.nodeCount)
        (toU16 state.code.length)).patched (start + cond.nodeCount)
        (toU16 (state.holePos[start + cond.nodeCount + thenExpr.nodeCount]?.getD u16Max + 1))) := by
  have prepared : Prepared input [cond, thenExpr, elseExpr] start before state :=
    prepared_of_chain chain ready
  rcases chain with ⟨first, condEmits, chain⟩
  rcases chain with ⟨second, thenEmits, chain⟩
  rcases chain with ⟨last, elseEmits, equal⟩
  subst last
  have condSplit : (Expr.ternary cond thenExpr elseExpr).operands =
    [] ++ cond :: [thenExpr, elseExpr] := rfl
  have thenSplit : (Expr.ternary cond thenExpr elseExpr).operands =
    [cond] ++ thenExpr :: [elseExpr] := rfl
  have elseSplit : (Expr.ternary cond thenExpr elseExpr).operands =
    [cond, thenExpr] ++ elseExpr :: [] := rfl
  have condUnfolded : isSuppressed input (cond.rootFrom start) = false :=
    guided.isSuppressed_operand condSplit
  have thenUnfolded := guided.isSuppressed_operand thenSplit
  have elseUnfolded := guided.isSuppressed_operand elseSplit
  have thenHole := guided.holeAt_operand thenSplit (cons_ne_nil _ _)
  have elseHole := guided.holeAt_operand elseSplit (cons_ne_nil _ _)
  simp only [Expr.nodeCounts, add_zero, ← add_assoc, length_cons, length_nil,
    zero_add, Expr.holeBefore, Expr.folds] at thenHole elseHole thenUnfolded elseUnfolded
  have condPositive := cond.nodeCount_pos
  have thenPositive := thenExpr.nodeCount_pos
  generalize thenStart : start + cond.nodeCount = thenAt at *
  generalize elseStart : thenAt + thenExpr.nodeCount = elseAt at *
  generalize jumpTarget : toU16 state.code.length = afterAll
  generalize branchTarget : toU16 (state.holePos[elseAt]?.getD u16Max + 1) = afterThen
  rcases state.patched_same elseAt afterAll with ⟨innerSame, innerLength⟩
  rcases (state.patched elseAt afterAll).patched_same thenAt afterThen with ⟨same, length⟩
  refine prepared.emits_patched ?_ (length.trans innerLength) rfl rfl ?_
  · rw [same, innerSame]
  intro small
  have shorter := elseEmits.longer.trans small
  rcases condEmits.emitted (thenEmits.longer.trans shorter) with ⟨front, condEmitted⟩
  rcases thenEmits.emitted shorter with ⟨inner, thenEmitted⟩
  rcases elseEmits.emitted small with ⟨back, elseEmitted⟩
  have whole : Begun input start before state
      (front ++ .branchIfFalse 0 :: (inner ++ .jump 0 :: back)) := by
    have joined := (condEmitted.append thenEmitted.toBegun (by omega)).append
      elseEmitted.toBegun (by omega)
    rw [thenHole, elseHole] at joined
    simpa [holeOps, placeholderFor] using joined
  have thenFrom : codeFrom input thenAt first = codeFrom input start before + front.length + 1 := by
    rw [codeFrom, condEmitted.length, thenHole]
    rfl
  have elseFrom : codeFrom input elseAt second =
      codeFrom input start before + front.length + 1 + inner.length + 1 := by
    rw [codeFrom, thenEmitted.length, thenFrom, elseHole]
    rfl
  have thenOpened : state.holePos[thenAt]? = some (codeFrom input start before + front.length) := by
    rw [elseEmitted.holes thenAt (by omega), thenEmitted.opened (by rw [thenHole]; rfl),
      condEmitted.length]
  have elseOpened : state.holePos[elseAt]? =
      some (codeFrom input start before + (front ++ .branchIfFalse 0 :: inner).length) := by
    rw [elseEmitted.opened (by rw [elseHole]; rfl), thenEmitted.length, thenFrom,
      length_append, length_cons]
    congr 1
    omega
  have total := whole.length
  simp only [length_append, length_cons] at total elseOpened
  rw [toU16_of_le small] at jumpTarget
  rw [elseOpened, Option.getD_some, toU16_of_le (by omega)] at branchTarget
  subst jumpTarget branchTarget
  have once : Begun input start before (state.patched elseAt state.code.length)
      (front ++ .branchIfFalse 0 :: (inner ++ .jump state.code.length :: back)) := by
    have flat : Begun input start before state
        ((front ++ .branchIfFalse 0 :: inner) ++ .jump 0 :: back) := by
      simpa using whole
    have opened : state.holePos[elseAt]? =
        some (codeFrom input start before + (front ++ .branchIfFalse 0 :: inner).length) := by
      rw [elseOpened, length_append, length_cons]
    have patched := flat.patched state.code.length opened
    simpa [Op.retarget] using patched
  have keptHoles : (state.patched elseAt state.code.length).holePos = state.holePos := by
    rw [(state.patched_same elseAt state.code.length).1]
  refine ⟨_, once.patched _ (keptHoles ▸ thenOpened), ?_⟩
  intro program carried hit
  simp only [Op.retarget] at hit ⊢
  have condCoded := condEmitted.coded condUnfolded program
    (carried.of_grows (thenEmits.grows.trans elseEmits.grows)) hit.left
  have branch := hit.right.hit
  have afterBranch : SegmentAt program.ops (codeFrom input thenAt first)
      (inner ++ .jump state.code.length :: back) := by
    rw [thenFrom]
    exact hit.right.tail
  have thenCoded := thenEmitted.coded thenUnfolded program
    (carried.of_grows elseEmits.grows) afterBranch.left
  have jump := afterBranch.right.hit
  have elseCoded := elseEmitted.coded elseUnfolded program carried (by
    rw [elseFrom, ← thenFrom]
    exact afterBranch.right.tail)
  rw [thenFrom] at thenCoded jump
  rw [elseFrom] at elseCoded
  simp only [length_append, length_cons]
  refine ⟨_, codeFrom input start before + front.length + 1 + inner.length, condCoded, ?_,
    thenCoded, ?_, ?_⟩
  · convert branch using 4
    omega
  · convert jump using 4
    omega
  · convert elseCoded using 1
    omega

end Jumps

/-! ## Whole trees -/

section Trees

variable {input : CompileInput}

lemma emitNode_junction (index : Nat) (stop : Bool) (lhs rhs) :
    emitNode input index (junctionNode stop lhs rhs) = closeShortCircuit lhs := by
  cases stop <;> rfl

lemma emitStep_emits (few : input.checked.slots.length ≤ u16Max)
    (small : input.checked.ast.nodes.length ≤ u16Max) (expr : Expr) (start argsFrom : Nat)
    (before state) (laid : Laid input.checked.ast.arena expr start)
    (node : LaidNode input.checked.ast.arena expr start argsFrom)
    (guided : Guided input text expr start) (ready : before.Ready input start)
    (chain : Chain (Emits input text) expr.operands start before state) :
    Emitting (emitStep input (expr.rootFrom start) (expr.node start argsFrom)) state fun _ after =>
      Emits input text expr start before after := by
  rw [Emitting, Establishes, emitStep_eq]
  have inside : start < input.checked.ast.nodes.length := by
    have root := lt_of_getElem? node.hit
    have positive := expr.nodeCount_pos
    have last := expr.rootFrom_succ start
    have nodes : input.checked.ast.arena.nodes.length = input.checked.ast.nodes.length := rfl
    omega
  have visiting := fun noHoles => visiting_of_chain guided noHoles ready inside chain
  cases expr with
  | literal constant =>
    rw [Expr.node, emitNode_literal]
    exact emitLeaf_emits (visiting fun _ => rfl)
  | ident name => exact emitIdent_emits few (visiting fun _ => rfl)
  | field base name => exact emitField_emits few (visiting fun _ => rfl)
  | index base key => exact emitIndex_emits few (visiting fun _ => rfl)
  | size base =>
    exact emitSizeCall_emits laid.operands.head (visiting fun _ => rfl)
  | test method base arg =>
    have known := visiting fun _ => rfl
    have notSize : method ≠ .size := by
      exact node.listed.1
    by_cases isMatch : method = .isMatch
    · subst method
      exact emitMatchesCall_emits laid node known
    · have emits := emitMethod_emits isMatch notSize known
      cases method with
      | isMatch => exact absurd rfl isMatch
      | size => exact absurd rfl notSize
      | _ => exact emits
  | not inner => exact emitNot_emits (visiting fun _ => rfl)
  | bin op lhs rhs =>
    have known := visiting fun _ => rfl
    by_cases isIn : op = .isIn
    · subst op
      have noHole := guided.holeAt_root (cons_ne_nil _ _)
      rcases chain with ⟨middle, left, last, right, equal⟩
      subst last
      refine emitMember_emits known ?_
      simp only [Compiler.opened, noHole]
      intro short elems list
      rcases right.emitted short with ⟨segment, emitted⟩
      exact emitted.listed elems list
    · have emits := emitComparison_emits isIn known
      cases op with
      | isIn => exact absurd rfl isIn
      | _ => exact emits
  | junction stop lhs rhs =>
    have noHole := guided.holeAt_root (cons_ne_nil _ _)
    rw [Expr.node, emitNode_junction]
    simp only [Compiler.opened, noHole]
    exact closeShortCircuit_emits guided ready chain
  | ternary cond thenExpr elseExpr =>
    have noHole := guided.holeAt_root (cons_ne_nil _ _)
    have emits := closeTernary_emits guided ready chain
    simp only [Compiler.opened, noHole]
    rw [← cond.rootFrom_succ, ← thenExpr.rootFrom_succ] at emits
    rw [Expr.node, ← cond.rootFrom_succ]
    exact emits
  | list elems => exact emitList_emits small laid node (visiting fun _ => rfl) ready

end Trees

def CompileInput.of (engine : RegexEngine) (checked : Checked) (limits : PolicyLimits) :
    CompileInput :=
  ⟨checked, limits, engine, buildHoleBefore checked.ast, buildSuppressed checked.ast⟩

section Programs

variable (engine : RegexEngine) {checked : Checked} (limits : PolicyLimits)

lemma guided_of_described (represents : checked.ast.Represents expr)
    (described : checked.Describes text expr) :
    Everywhere (Guided (.of engine checked limits) text) expr 0 ∧
      (CompileInput.of engine checked limits).holeAt 0 = none ∧
      isSuppressed (.of engine checked limits) (expr.rootFrom 0) = false := by
  have whole : expr.nodeCount = checked.ast.arena.nodes.length := represents.count
  rcases Marking.noted_of_visits (markHoles_visits checked.ast.arena) represents.laid whole with
    ⟨noHole, holes⟩
  rcases Marking.noted_of_visits (markSuppressed_visits checked.ast) represents.laid whole with
    ⟨notFolded, folds⟩
  refine ⟨?_, ?_, ?_⟩
  · apply ((described.nodes.and holes).and folds).mono
    rintro inner start ⟨⟨⟨typed, slot⟩, holeNote⟩, foldNote⟩
    exact ⟨typed, slot, holeNote, foldNote⟩
  · exact congrArg Option.join noHole
  · exact congrArg (Option.getD · false) notFolded

lemma passFrom_emits (represents : checked.ast.Represents expr)
    (described : checked.Describes text expr) (few : checked.slots.length ≤ u16Max)
    (initial) (ready : initial.Ready (.of engine checked limits) 0) :
    Emitting (passFrom checked.ast.nodes (emitStep (.of engine checked limits)) 0
        checked.ast.nodes.length) initial fun _ after =>
      Emits (.of engine checked limits) text expr 0 initial after := by
  rw [← represents.count]
  have guided := (guided_of_described engine limits represents described).1
  apply @passFrom_laid checked.ast.arena
  · intro _ _ _ _ _ emits
    exact emits.ready
  · intro inner start argsFrom before state laid node noted ready chain
    exact emitStep_emits few represents.small inner start argsFrom before state laid node
      noted.here ready chain
  · exact represents.laid
  · exact guided
  · exact ready

/-- A compiled program is verified, and it is the code of the expression followed
by a return. -/
structure Compiled (program : Program) (checked : Checked) (text : Bytes) (expr : Expr) :
    Prop where
  verified : ∃ depths, Verified program depths
  short : program.ops.length ≤ u16Max
  strings : program.strings = checked.strings
  slots : program.slots = checked.slots
  result : program.result = checked.result
  coded : ∃ last, Coded program text expr 0 last ∧ program.ops[last]? = some .ret

def Compiler.initial (count : Nat) : Compiler where
  holePos := replicate count u16Max
  nodeConst := replicate count 0
  code := []
  consts := []
  listElems := []
  regexes := []

lemma Compiler.initial_ready :
    (Compiler.initial checked.ast.nodes.length).Ready (.of engine checked limits) 0 :=
  ⟨Nat.zero_le _, Nat.zero_le _, by simp [Compiler.initial], Nat.zero_le _,
    length_replicate .., length_replicate ..⟩

def Compiler.program (state : Compiler) (checked : Checked) (maxStack : Nat) : Program where
  ops := state.code ++ [.ret]
  consts := state.consts
  listElems := state.listElems
  strings := checked.strings
  slots := checked.slots
  regexes := state.regexes
  result := checked.result
  phase := checked.phase
  maxStack

variable {engine limits}

lemma compile_eq_ok (compiled : compile engine checked limits = .ok program) :
    ∃ state maxStack depths,
      passFrom checked.ast.nodes (emitStep (.of engine checked limits)) 0 checked.ast.nodes.length
        (.initial checked.ast.nodes.length) = .ok ((), state) ∧
      recordDepths (state.code ++ [.ret]) state.consts checked.slots state.regexes.length limits =
        .ok depths ∧
      program = state.program checked maxStack := by
  rcases bind_eq_ok_iff.mp compiled with ⟨result, passed, rest⟩
  rcases result with ⟨_, state⟩
  dsimp only at rest
  split at rest
  case h_1 => cases rest
  case h_2 maxStack accepted =>
    rcases bind_eq_ok_iff.mp accepted with ⟨depths, recorded, _⟩
    exact ⟨state, maxStack, depths, passed, recorded, (Except.ok.inj rest).symm⟩

lemma compiled_of_compile (represents : checked.ast.Represents expr)
    (described : checked.Describes text expr) (few : checked.slots.length ≤ u16Max)
    (compiled : compile engine checked limits = .ok program) :
    Compiled program checked text expr := by
  rcases guided_of_described engine limits represents described with ⟨_, noHole, notFolded⟩
  rcases compile_eq_ok compiled with ⟨state, maxStack, depths, passed, recorded, rfl⟩
  have emits := (passFrom_emits engine limits represents described few _
    (Compiler.initial_ready engine limits)).of_eq_ok passed
  have accepted : recordDepths (state.program checked maxStack).ops
      (state.program checked maxStack).consts (state.program checked maxStack).slots
      (state.program checked maxStack).regexes.length limits = .ok depths := recorded
  rcases verified_of_recordDepths accepted with ⟨verified, short⟩
  have length : (state.program checked maxStack).ops.length = state.code.length + 1 :=
    length_append
  have small : state.code.length ≤ u16Max := by omega
  rcases emits.emitted small with ⟨segment, emitted⟩
  have code : state.code = segment := by
    rw [emitted.code, noHole]
    rfl
  have first : codeFrom (.of engine checked limits) 0
      (Compiler.initial checked.ast.nodes.length) = 0 := by
    rw [codeFrom, noHole]
    rfl
  refine ⟨⟨depths, verified⟩, short, rfl, rfl, rfl, segment.length, ?_, ?_⟩
  · have coded := emitted.coded notFolded (state.program checked maxStack)
      ⟨prefix_refl _, prefix_refl _, prefix_refl _, rfl, rfl⟩ (by
        rw [first]
        exact ⟨[], [.ret], by rw [← code]; rfl, rfl⟩)
    rw [first, zero_add] at coded
    exact coded
  · rw [← code]
    exact getElem?_concat_length

end Programs

end IronTraffic.Policy
