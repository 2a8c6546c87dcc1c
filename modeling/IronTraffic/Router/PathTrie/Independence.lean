import IronTraffic.Foundation.Agreement
import IronTraffic.Router.PathTrie.Index

/-! # Independence of the order of candidates

Two lists of the same candidates differ in the indices that nodes keep, and in nothing
else: the keys are inserted in their own order, and what is read through the indices is
sorted by precedences, which are distinct. So both lists build the same group.
-/

namespace IronTraffic.Router

open Agree Std

open List

open Fallible

/-! ## Arenas up to indices -/

/-- A node with its candidates in the place of their indices. -/
structure NodeView where
  label : List UInt8
  children : TreeMap UInt8 Nat
  keyLen : Nat
  subtree : Nat
  cands : Multiset (Option CandInput)

def BuildNode.view (cands : List CandInput) (node : BuildNode) : NodeView where
  label := node.label
  children := node.children
  keyLen := node.keyLen
  subtree := node.subtree
  cands := node.cands.map fun index => cands[index]?

section Views

variable {cands others : List CandInput} {arena other : List BuildNode}

def SameNode (cands others : List CandInput) (left right : BuildNode) : Prop :=
  left.view cands = right.view others

def SameArena (cands others : List CandInput) (arena other : List BuildNode) : Prop :=
  arena.map (·.view cands) = other.map (·.view others)

namespace SameNode

variable {left right : BuildNode}

section

variable (same : SameNode cands others left right)

include same

lemma label : left.label = right.label :=
  congrArg NodeView.label same

lemma children : left.children = right.children :=
  congrArg NodeView.children same

lemma childIds : left.childIds = right.childIds := by
  unfold BuildNode.childIds
  rw [same.children]

lemma keyLen : left.keyLen = right.keyLen :=
  congrArg NodeView.keyLen same

lemma subtree : left.subtree = right.subtree :=
  congrArg NodeView.subtree same

lemma perm :
    (left.cands.map fun index => cands[index]?).Perm
      (right.cands.map fun index => others[index]?) :=
  Multiset.coe_eq_coe.mp (congrArg NodeView.cands same)

lemma isEmpty : left.cands.isEmpty = right.cands.isEmpty := by
  have lengths := same.perm.length_eq
  rw [length_map, length_map] at lengths
  rw [Bool.eq_iff_iff, isEmpty_iff_length_eq_zero, isEmpty_iff_length_eq_zero, lengths]

end

end SameNode

section

variable (same : SameArena cands others arena other)

include same

lemma SameArena.length : arena.length = other.length := by
  simpa using congrArg List.length same

lemma nodeRef_agree (index : Nat) :
    Agree (SameNode cands others) (nodeRef arena index maxNodes)
      (nodeRef other index maxNodes) := by
  have lookup := congrArg (fun views : List NodeView => views[index]?) same
  simp only [getElem?_map] at lookup
  unfold nodeRef
  cases left : arena[index]? with
  | none =>
    rw [left, Option.map_none, eq_comm, Option.map_eq_none_iff] at lookup
    rw [lookup]
    exact .error _
  | some node =>
    rw [left, Option.map_some, eq_comm] at lookup
    rcases Option.map_eq_some_iff.mp lookup with ⟨otherNode, right, view⟩
    rw [right]
    exact .ok view.symm

lemma SameArena.set (nodes : SameNode cands others left right) (index : Nat) :
    SameArena cands others (arena.set index left) (other.set index right) := by
  rw [SameArena, map_set, map_set, same, nodes]

lemma nodeMut_agree (index : Nat)
    (updates : ∀ left right, SameNode cands others left right →
      SameNode cands others (update left) (update right)) :
    Agree (SameArena cands others) (nodeMut arena index maxNodes update)
      (nodeMut other index maxNodes update) := by
  apply (nodeRef_agree same index).bind
  intro left right nodes
  exact .ok (same.set (updates left right nodes) index)

end

/-! ## Traversals -/

lemma subtree_eq (maxNodes : UInt32) (same : SameArena cands others arena other) (index : Nat)
    (use : Nat → Value) :
    (nodeRef arena index maxNodes >>= fun node => pure (use node.subtree)) =
      nodeRef other index maxNodes >>= fun node => pure (use node.subtree) := by
  apply eq
  apply (nodeRef_agree same index).bind
  intro left right nodes
  exact .ok (congrArg use nodes.subtree)

section

variable (same : SameArena cands others arena other)

include same

lemma sizesVisit_agree (entry : Nat × Bool) :
    Agree (fun left right => SameArena cands others left.1 right.1 ∧ left.2 = right.2)
      (sizesVisit maxNodes arena entry) (sizesVisit maxNodes other entry) := by
  rcases entry with ⟨index, expanded⟩
  cases expanded with
  | false =>
    apply (nodeRef_agree same index).bind
    intro left right nodes
    rw [nodes.childIds]
    exact .ok ⟨same, rfl⟩
  | true =>
    apply (nodeRef_agree same index).bind
    intro left right nodes
    have totals := fun total child =>
      subtree_eq maxNodes same child (saturatingAdd32 total)
    simp only [nodes.childIds, totals]
    apply (refl _).bind
    rintro total _ rfl
    apply (nodeMut_agree same index ?_).bind
    · intro after otherAfter sameAfter
      exact .ok ⟨sameAfter, rfl⟩
    · intro left right nodes
      unfold SameNode BuildNode.view
      simp only [nodes.label, nodes.children, nodes.keyLen, NodeView.mk.injEq, true_and]
      exact congrArg NodeView.cands nodes

lemma sizes_agree :
    Agree (SameArena cands others) (sizes arena maxNodes) (sizes other maxNodes) := by
  rw [sizes, same.length]
  exact drain (fun _ _ entry related => sizesVisit_agree related entry) same

lemma upVisit_eq : upVisit arena maxNodes = upVisit other maxNodes := by
  funext up entry
  rcases entry with ⟨index, owner⟩
  apply eq
  apply (refl _).bind
  intro slot _ _
  apply (nodeRef_agree same index).bind
  intro left right nodes
  have owners : nextOwner left index owner maxNodes = nextOwner right index owner maxNodes := by
    unfold nextOwner
    rw [nodes.isEmpty]
  rw [owners, nodes.childIds]
  exact refl _

lemma visit_eq : visit arena maxNodes = visit other maxNodes := by
  unfold visit
  rw [upVisit_eq same, same.length]

lemma sortedChildren_eq (index : Nat) :
    sortedChildren arena index maxNodes = sortedChildren other index maxNodes := by
  apply eq
  apply (nodeRef_agree same index).bind
  intro left right nodes
  have entries := fun (byte : UInt8) (child : Nat) =>
    subtree_eq maxNodes same child fun subtree => (byte, child, subtree)
  simp only [nodes.children, entries]
  exact refl _

lemma number_eq : number arena maxNodes = number other maxNodes := by
  have visits : numberVisit arena maxNodes = numberVisit other maxNodes := by
    funext numbering index
    unfold numberVisit
    rw [sortedChildren_eq same]
  unfold number
  rw [visits, same.length]

end

/-! ## Emission -/

lemma mapM_okOr [DecidableEq Item] (reason : Reason) (options : List (Option Item)) :
    options.mapM (okOr reason) =
      if none ∈ options then report reason else .ok (options.filterMap id) := by
  induction options with
  | nil => rfl
  | cons option options induction =>
    rw [mapM_cons, induction]
    cases option with
    | none => rw [if_pos mem_cons_self]; rfl
    | some item =>
      by_cases missing : none ∈ options
      · rw [if_pos missing, if_pos (mem_cons_of_mem _ missing)]
        rfl
      · rw [if_neg missing, if_neg (by simp [missing])]
        rfl

section

variable (nodup : (cands.map fun cand => cand.prec.bits).Nodup)

include nodup

lemma byPrecedence_eq (perm : hit.Perm otherFound) (inside : ∀ cand ∈ hit, cand ∈ cands) :
    byPrecedence hit = byPrecedence otherFound := by
  have sorted : ∀ list : List CandInput,
      (byPrecedence list).Pairwise fun left right => right.prec.bits ≤ left.prec.bits := by
    intro list
    exact pairwise_insertionSort _ list
  have perms : (byPrecedence hit).Perm (byPrecedence otherFound) :=
    (byPrecedence_perm hit).trans (perm.trans (byPrecedence_perm otherFound).symm)
  refine List.Perm.eq_of_pairwise ?_ (sorted hit) (sorted otherFound) perms
  intro left right leftMember rightMember leftFirst rightFirst
  have leftInside := inside left ((byPrecedence_perm hit).mem_iff.mp leftMember)
  have rightInside := inside right
    (perm.mem_iff.mpr ((byPrecedence_perm otherFound).mem_iff.mp rightMember))
  exact inj_on_of_nodup_map nodup leftInside rightInside
    (le_antisymm rightFirst leftFirst)

lemma sortedCands_eq
    (perm : (indices.map fun index => cands[index]?).Perm
      (otherIndices.map fun index => others[index]?)) :
    sortedCands cands indices = sortedCands others otherIndices := by
  have collects : ∀ (list : List CandInput) (indices : List Nat), sortedCands list indices =
        ((indices.map fun index => list[index]?).mapM (okOr .tooManyCandidates) >>= fun hit =>
          pure (byPrecedence hit)) := by
    intro list indices
    rw [mapM_map]
    rfl
  have inside : ∀ cand ∈ (indices.map fun index => cands[index]?).filterMap id, cand ∈ cands := by
    intro cand mem
    rcases mem_filterMap.mp mem with ⟨option, listed, hit⟩
    rcases mem_map.mp listed with ⟨index, _, equal⟩
    exact mem_of_getElem? (equal.trans hit)
  rw [collects, collects, mapM_okOr, mapM_okOr]
  by_cases missing : none ∈ indices.map fun index => cands[index]?
  · rw [if_pos missing, if_pos (perm.mem_iff.mp missing)]
  · rw [if_neg missing, if_neg (mt perm.mem_iff.mpr missing)]
    exact congrArg Except.ok (byPrecedence_eq nodup (perm.filterMap id) inside)

lemma emit_eq (same : SameArena cands others arena other)
    (order oldToNew upOld : List Nat) (parts) :
    emit arena order oldToNew upOld cands parts = emit other order oldToNew upOld others parts := by
  have nodes : emitNode arena oldToNew upOld cands parts =
      emitNode other oldToNew upOld others parts := by
    funext out old
    apply eq
    apply (nodeRef_agree same old).bind
    intro left right nodes
    rw [nodes.label, nodes.keyLen, sortedCands_eq nodup nodes.perm, sortedChildren_eq same]
    exact refl _
  unfold emit
  rw [nodes]

end

end Views

/-! ## Attaching candidates -/

variable {arena : List BuildNode}

section Attaching

variable {nodeOf : TreeMap (List UInt8) Nat}

def isLocated (nodeOf : TreeMap (List UInt8) Nat) (size : Nat) (key : List UInt8) : Bool :=
  nodeOf[key]?.any (· < size)

def attachedTo (nodeOf : TreeMap (List UInt8) Nat) (entries : List (CandInput × Nat))
    (arena : List BuildNode) : List BuildNode :=
  arena.mapIdx fun index node =>
    { node with cands := node.cands ++
        (entries.filter fun entry => nodeOf[entry.1.key]? = some index).map Prod.snd }

lemma nodeMut_eq (arena) (index : Nat) (update) :
    nodeMut arena index maxNodes update =
      match arena[index]? with
      | some node => .ok (arena.set index (update node))
      | none => report (.tooManyNodes maxNodes) := by
  unfold nodeMut nodeRef
  cases arena[index]? with
  | none | some => rfl

lemma attachedTo_nil (arena) : attachedTo nodeOf [] arena = arena := by
  apply ext_getElem?
  unfold attachedTo
  simp

lemma attachCand_eq (arena) (entry : CandInput × Nat) :
    attachCand maxNodes nodeOf arena entry =
      if isLocated nodeOf arena.length entry.1.key then .ok (attachedTo nodeOf [entry] arena)
      else report (.tooManyNodes maxNodes) := by
  unfold attachCand isLocated
  cases hit : nodeOf[entry.1.key]? with
  | none => rfl
  | some index =>
    show nodeMut arena index maxNodes _ = _
    rw [nodeMut_eq]
    by_cases inside : index < arena.length
    · rw [getElem?_eq_getElem inside, if_pos (by simpa using inside)]
      apply congrArg Except.ok
      apply ext_getElem?
      intro spot
      unfold attachedTo
      by_cases here : index = spot
      · subst here
        simp [inside, hit]
      · simp [hit, here]
    · rw [getElem?_eq_none (Nat.not_lt.mp inside), if_neg (by simpa using inside)]

lemma attachedTo_attachedTo (entry : CandInput × Nat) (entries arena) :
    attachedTo nodeOf entries (attachedTo nodeOf [entry] arena) =
      attachedTo nodeOf (entry :: entries) arena := by
  apply ext_getElem?
  intro spot
  unfold attachedTo
  rw [getElem?_mapIdx, getElem?_mapIdx, getElem?_mapIdx, Option.map_map]
  congr 1
  funext node
  by_cases here : nodeOf[entry.1.key]? = some spot
  · simp [here]
  · simp [here]

lemma length_attachedTo (entries arena) : (attachedTo nodeOf entries arena).length = arena.length :=
  length_mapIdx

lemma attachCands_eq (entries : List (CandInput × Nat)) (arena) :
    entries.foldlM (attachCand maxNodes nodeOf) arena = if entries.all fun entry =>
      isLocated nodeOf arena.length entry.1.key then
      .ok (attachedTo nodeOf entries arena) else report (.tooManyNodes maxNodes) := by
  induction entries generalizing arena with
  | nil =>
    rw [attachedTo_nil]
    rfl
  | cons entry entries induction =>
    rw [foldlM_cons, attachCand_eq, all_cons]
    cases isLocated nodeOf arena.length entry.1.key with
    | false => rfl
    | true =>
      rw [if_pos rfl, Bool.true_and, ← attachedTo_attachedTo entry entries]
      have rest := induction (attachedTo nodeOf [entry] arena)
      rw [length_attachedTo] at rest
      exact rest

lemma lookup_zipIdx_filter (cands : List CandInput) (selects) :
    ((cands.zipIdx.filter fun entry => selects entry.1).map Prod.snd).map (fun index =>
      cands[index]?) = (cands.filter selects).map some := by
  have located : ∀ entry ∈ cands.zipIdx.filter (fun entry => selects entry.1),
      cands[entry.2]? = some entry.1 := by
    intro entry mem
    exact mem_zipIdx_iff_getElem?.mp (mem_filter.mp mem).1
  have projected : (cands.zipIdx.map Prod.fst).filter selects =
      (cands.zipIdx.filter fun entry => selects entry.1).map Prod.fst := by
    rw [filter_map]
    rfl
  rw [zipIdx_map_fst] at projected
  rw [projected, map_map, map_map]
  exact map_congr_left located

variable {cands others : List CandInput}

lemma sameArena_attachedTo (perm : cands.Perm others) (noCands : NoCands arena) :
    SameArena cands others (attachedTo nodeOf cands.zipIdx arena)
      (attachedTo nodeOf others.zipIdx arena) := by
  apply ext_getElem?
  intro spot
  unfold attachedTo
  rw [getElem?_map, getElem?_map, getElem?_mapIdx, getElem?_mapIdx]
  cases hit : arena[spot]? with
  | none => rfl
  | some node =>
    have bare := noCands spot node hit
    have views : ∀ list : List CandInput,
        ((list.zipIdx.filter fun entry => nodeOf[entry.1.key]? = some spot).map
          Prod.snd).map (fun index => list[index]?) =
        (list.filter fun cand => nodeOf[cand.key]? = some spot).map some :=
      fun list => lookup_zipIdx_filter list fun cand => nodeOf[cand.key]? = some spot
    simp only [Option.map_some, BuildNode.view, bare, nil_append, views]
    congr 2
    exact Multiset.coe_eq_coe.mpr ((perm.filter _).map some)

lemma attachCands_agree (perm : cands.Perm others) (noCands : NoCands arena) :
    Agree (SameArena cands others) (cands.zipIdx.foldlM (attachCand maxNodes nodeOf) arena)
      (others.zipIdx.foldlM (attachCand maxNodes nodeOf) arena) := by
  have keysOnly : ∀ list : List CandInput,
      (list.zipIdx.all fun entry => isLocated nodeOf arena.length entry.1.key) =
        list.all fun cand => isLocated nodeOf arena.length cand.key := by
    intro list
    have projected := @all_map _ _ Prod.fst list.zipIdx
      (fun cand : CandInput => isLocated nodeOf arena.length cand.key)
    rw [zipIdx_map_fst] at projected
    exact projected.symm
  rw [attachCands_eq, attachCands_eq, keysOnly, keysOnly, perm.all_eq]
  cases others.all fun cand => isLocated nodeOf arena.length cand.key with
  | false => exact .error _
  | true => exact .ok (sameArena_attachedTo perm noCands)

end Attaching

/-! ## The whole build -/

section Build

variable {cands others : List CandInput}

lemma checkPrecedences_eq (perm : cands.Perm others) :
    checkPrecedences cands = checkPrecedences others := by
  have sorted := fun list : List Precedence =>
    pairwise_insertionSort (fun left right : Precedence => right.bits ≤ left.bits) list
  have perms := fun list : List Precedence =>
    perm_insertionSort (fun left right : Precedence => right.bits ≤ left.bits) list
  have same : (cands.map fun cand => cand.prec).insertionSort
      (fun left right => right.bits ≤ left.bits) =
      (others.map fun cand => cand.prec).insertionSort
        fun left right => right.bits ≤ left.bits := by
    refine List.Perm.eq_of_pairwise ?_ (sorted _) (sorted _)
      ((perms _).trans ((perm.map _).trans (perms _).symm))
    intro left right _ _ leftFirst rightFirst
    exact congrArg Precedence.mk (le_antisymm rightFirst leftFirst)
  unfold checkPrecedences
  rw [same]

lemma distinctKeys_eq (perm : cands.Perm others) :
    (TreeSet.ofList (cands.map fun cand => cand.key)).toList =
      (TreeSet.ofList (others.map fun cand => cand.key)).toList := by
  have nodup : ∀ list : List (List UInt8), (TreeSet.ofList list).toList.Nodup := by
    intro list
    have apart : (TreeSet.ofList list).toList.Pairwise
        fun left right => ¬compare left right = .eq := TreeSet.distinct_toList
    exact apart.imp fun apart equal => apart (by simp [equal])
  have members : ∀ word, word ∈ (TreeSet.ofList (cands.map fun cand => cand.key)).toList ↔
      word ∈ (TreeSet.ofList (others.map fun cand => cand.key)).toList := by
    simp [perm.mem_iff]
  refine List.Perm.eq_of_pairwise ?_ TreeSet.ordered_toList TreeSet.ordered_toList
    ((perm_ext_iff_of_nodup (nodup _) (nodup _)).mpr members)
  intro left right _ _ less more
  rw [OrientedCmp.gt_of_lt less] at more
  cases more

lemma buildGroup_eq (perm : cands.Perm others) (parts)
    (checked : ∀ cand ∈ cands, checkKey cand = .ok ()) :
    buildGroup cands parts = buildGroup others parts := by
  have checks : cands.forM checkKey = .ok () := forM_eq_ok_iff.mpr checked
  have otherChecks : others.forM checkKey = .ok () :=
    forM_eq_ok_iff.mpr fun cand mem => checked cand (perm.mem_iff.mpr mem)
  have short : ∀ cand ∈ cands, cand.key.length ≤ maxPathBytes :=
    (checkKeys_meets cands).of_eq_ok checks
  apply eq
  unfold buildGroup
  rw [checks, otherChecks, ← checkPrecedences_eq perm]
  apply (refl _).bind
  intro _ _ _
  apply (of_meets (checkPrecedences_meets cands)).bind
  intro _ _ both
  have nodup := both.2
  apply (of_meets (pushNode_meets _ _ _)).bind
  intro root _ both
  rcases both with ⟨rfl, rfl, _⟩
  show Agree Eq (insertKeys _ _ _ >>= _) (insertKeys _ _ _ >>= _)
  rw [distinctKeys_eq perm]
  apply (of_meets (insertKeys_meets parts.maxNodes arenaKeys_root ?_ ?_)).bind
  · rintro inserted _ ⟨rfl, key, _, noCands, _, _⟩
    apply (attachCands_agree perm noCands).bind
    intro arena other same
    apply (sizes_agree same).bind
    intro arena other same
    rw [visit_eq same]
    apply (refl _).bind
    rintro upOld _ rfl
    rw [number_eq same]
    apply (refl _).bind
    rintro numbering _ rfl
    exact of_eq (emit_eq nodup same _ _ _ parts)
  · intro index node hit
    rw [mem_singleton.mp (mem_of_getElem? hit)]
  · intro word mem
    rw [← distinctKeys_eq perm] at mem
    have carried : ∃ cand ∈ cands, cand.key = word := by simpa using mem
    rcases carried with ⟨cand, inside, equal⟩
    rw [← equal]
    exact short cand inside

lemma checkKey_eq (cand) :
    checkKey cand = if cand.key.head? ≠ some 47 then report .keyNotAbsolute else if maxPathBytes <
      cand.key.length then report .keyTooLong else .ok () := by
  have rooted : (cand.key.isEmpty ∨ cand.key.head? ≠ some 47) ↔ cand.key.head? ≠ some 47 := by
    cases cand.key with
    | nil | cons => simp
  simp only [checkKey, rooted]
  rfl

def HasRelativeKey (cands : List CandInput) : Prop :=
  ∃ cand ∈ cands, cand.key.head? ≠ some 47

def HasLongKey (cands : List CandInput) : Prop :=
  ∃ cand ∈ cands, cand.key.head? = some 47 ∧ maxPathBytes < cand.key.length

lemma buildGroup_of_bad_key (parts) (bad : ¬∀ cand ∈ cands, checkKey cand = .ok ()) :
    (buildGroup cands parts = report .keyNotAbsolute ∧ HasRelativeKey cands) ∨
      buildGroup cands parts = report .keyTooLong ∧ HasLongKey cands := by
  rw [← forM_eq_ok_iff] at bad
  cases failed : cands.forM checkKey with
  | ok passed => exact absurd failed bad
  | error reason =>
    have stops : buildGroup cands parts = .error reason := by
      rw [buildGroup, failed]
      rfl
    rcases exists_of_forM_eq_error failed with ⟨cand, mem, fails⟩
    rw [checkKey_eq] at fails
    by_cases relative : cand.key.head? ≠ some 47
    · rw [if_pos relative] at fails
      cases fails
      exact .inl ⟨stops, cand, mem, relative⟩
    · rw [if_neg relative] at fails
      by_cases long : maxPathBytes < cand.key.length
      · rw [if_pos long] at fails
        cases fails
        exact .inr ⟨stops, cand, mem, not_not.mp relative, long⟩
      · rw [if_neg long] at fails
        cases fails

/-- Lists of the same candidates build the same group or fail alike, unless one key is
relative and another one too long: then both fail for one of them. -/
theorem buildGroup_perm (perm : cands.Perm others) (parts : GroupParts) :
    (¬(HasRelativeKey cands ∧ HasLongKey cands) →
      buildGroup cands parts = buildGroup others parts) ∧ (HasRelativeKey cands ∧ HasLongKey cands →
      (buildGroup cands parts = report .keyNotAbsolute ∨
        buildGroup cands parts = report .keyTooLong) ∧
      (buildGroup others parts = report .keyNotAbsolute ∨
        buildGroup others parts = report .keyTooLong)) := by
  have relative : HasRelativeKey others ↔ HasRelativeKey cands :=
    exists_congr fun cand => and_congr_left' perm.mem_iff.symm
  have long : HasLongKey others ↔ HasLongKey cands :=
    exists_congr fun cand => and_congr_left' perm.mem_iff.symm
  by_cases checked : ∀ cand ∈ cands, checkKey cand = .ok ()
  · refine ⟨fun _ => buildGroup_eq perm parts checked, fun both => ?_⟩
    rcases both.1 with ⟨cand, mem, isRelative⟩
    have passes := checked cand mem
    rw [checkKey_eq, if_pos isRelative] at passes
    cases passes
  · have otherChecked : ¬∀ cand ∈ others, checkKey cand = .ok () :=
      fun passes => checked fun cand mem => passes cand (perm.mem_iff.mp mem)
    have stops := buildGroup_of_bad_key parts checked
    have otherStops := buildGroup_of_bad_key parts otherChecked
    rw [relative, long] at otherStops
    refine ⟨fun notBoth => ?_, fun _ => ?_⟩
    · rcases stops with ⟨stop, isRelative⟩ | ⟨stop, isLong⟩
      · rcases otherStops with ⟨otherStop, _⟩ | ⟨_, isLong⟩
        · rw [stop, otherStop]
        · exact absurd ⟨isRelative, isLong⟩ notBoth
      · rcases otherStops with ⟨_, isRelative⟩ | ⟨otherStop, _⟩
        · exact absurd ⟨isRelative, isLong⟩ notBoth
        · rw [stop, otherStop]
    · exact ⟨stops.imp And.left And.left, otherStops.imp And.left And.left⟩

end Build

def keyedCand (key : List UInt8) (prec : UInt64) : CandInput :=
  ⟨key, .exact, ⟨prec⟩, ⟨0⟩, ⟨0⟩, 0⟩

def roomyParts : GroupParts := ⟨[], [], ⟨0⟩, 0, 100, 10000⟩

theorem swapped_builds :
    (buildGroup [keyedCand [47, 97] 1, keyedCand [47, 98] 2] roomyParts).isOk ∧
      buildGroup [keyedCand [47, 97] 1, keyedCand [47, 98] 2] roomyParts =
        buildGroup [keyedCand [47, 98] 2, keyedCand [47, 97] 1] roomyParts := by
  refine ⟨by decide +kernel, (buildGroup_perm (List.Perm.swap _ _ _) roomyParts).1 ?_⟩
  have rooted : ¬HasRelativeKey [keyedCand [47, 97] 1, keyedCand [47, 98] 2] := by
    unfold HasRelativeKey
    decide
  exact fun both => rooted both.1

def longKey : List UInt8 := 47 :: List.replicate maxPathBytes 97

/-- Which of two bad keys is reported depends on which comes first. -/
theorem badKeys_differ :
    buildGroup [keyedCand [] 1, keyedCand longKey 2] roomyParts = report .keyNotAbsolute ∧
      buildGroup [keyedCand longKey 2, keyedCand [] 1] roomyParts = report .keyTooLong := by
  have relative : checkKey (keyedCand [] 1) = report .keyNotAbsolute := rfl
  have long : checkKey (keyedCand longKey 2) = report .keyTooLong := by
    have rooted : ¬(keyedCand longKey 2).key.head? ≠ some 47 := not_not.mpr rfl
    have length : (keyedCand longKey 2).key.length = maxPathBytes + 1 := by
      rw [keyedCand, longKey, length_cons, length_replicate]
    rw [checkKey_eq, if_neg rooted, if_pos (length ▸ Nat.lt_succ_self _)]
  constructor
  · show (checkKey _ >>= fun _ => _) >>= _ = _
    rw [relative]
    rfl
  · show (checkKey _ >>= fun _ => _) >>= _ = _
    rw [long]
    rfl

end IronTraffic.Router
