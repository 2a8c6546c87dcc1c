import IronTraffic.Router.PathTrie.Emission

/-! # A built group indexes its candidates by key

`GroupIndex` is what the readers of a group rely on: the nodes form a prefix
tree read through the group's own accessors, every node lists the candidates
that carry its key, and `up` is the nearest candidate-owning ancestor. The build
establishes it for every group it returns.
-/

namespace IronTraffic.Router

open List

open Fallible

def Carries (cands : List CandInput) (word : List UInt8) : Prop :=
  ∃ cand ∈ cands, cand.key = word

/-- The accessors list exactly `inputs` at `node`, once each, strictly descending
by precedence. -/
def Group.Lists (group : Group) (node : PathNode) (inputs : List CandInput) : Prop :=
  ∃ sorted : List CandInput, sorted.Perm inputs ∧
    (sorted.Pairwise fun left right => right.prec.bits < left.prec.bits) ∧
    group.candsOf node = sorted.map CandInput.toCand ∧
    ∀ (spot : Nat) (cand : CandInput), sorted[spot]? = some cand →
      group.candRoute (node.cands + spot) = some cand.route ∧
        group.candKind (node.cands + spot) = some cand.kind

structure GroupIndex (group : Group) (cands : List CandInput) where
  tree : PrefixTree NodeId UInt8
  valid_iff : ∀ id, tree.Valid id ↔ id < group.nodes.length
  root_eq : tree.root = NodeId.root
  child_eq : ∀ {id node}, group.node id = some node → ∀ byte,
    tree.child id byte = group.child node byte
  key_child : ∀ {id node byte below child}, group.node id = some node →
    group.child node byte = some below → group.node below = some child →
    tree.key below = tree.key id ++ group.label child
  keyLen : ∀ {id node}, group.node id = some node → node.keyLen = (tree.key id).length
  up : ∀ {id node}, group.node id = some node →
    tree.NearestOwner (fun id => Carries cands (tree.key id)) id (linkOf node.up)
  lists : ∀ {id node}, group.node id = some node →
    group.Lists node (cands.filter fun cand => cand.key = tree.key id)
  complete : ∀ {word}, Carries cands word → ∃ id, tree.Valid id ∧ tree.key id = word
  fits : group.nodes.length ≤ sentinel

/-! ## The checks before the build -/

lemma checkKeys_meets : ∀ cands : List CandInput,
    Meets (cands.forM checkKey) fun _ => ∀ cand ∈ cands, cand.key.length ≤ maxPathBytes
  | [] => by simp
  | cand :: cands => by
    have here : Meets (checkKey cand) fun _ => cand.key.length ≤ maxPathBytes := by
      unfold checkKey
      split
      · trivial
      · split
        · trivial
        case isFalse notLong => exact Nat.le_of_not_lt notLong
    refine here.bind ?_
    intro _ short
    refine (checkKeys_meets cands).mono ?_
    intro _ rest other mem
    rcases mem_cons.mp mem with rfl | mem
    · exact short
    · exact rest other mem

lemma pairwise_of_adjacentDuplicate : ∀ precs : List Precedence,
    precs.Pairwise (fun left right => right.bits ≤ left.bits) →
    adjacentDuplicate precs = none →
    precs.Pairwise fun left right => right.bits < left.bits
  | [], _, _ => .nil
  | [_], _, _ => pairwise_singleton _ _
  | first :: second :: rest, sorted, noPair => by
    rw [adjacentDuplicate] at noPair
    split at noPair
    · cases noPair
    case isFalse apart =>
      have strict := pairwise_of_adjacentDuplicate (second :: rest)
        (pairwise_cons.mp sorted).2 noPair
      have above : second.bits < first.bits := by
        refine Std.lt_of_le_of_ne ((pairwise_cons.mp sorted).1 second (by simp)) ?_
        intro equal
        cases second
        simp_all
      refine pairwise_cons.mpr ⟨?_, strict⟩
      intro later mem
      rcases mem_cons.mp mem with rfl | mem
      · exact above
      · exact Std.lt_trans ((pairwise_cons.mp strict).1 later mem) above

lemma checkPrecedences_meets (cands) :
    Meets (checkPrecedences cands) fun _ => (cands.map fun cand => cand.prec.bits).Nodup := by
  have perm := perm_insertionSort (fun left right : Precedence => right.bits ≤ left.bits)
    (cands.map fun cand => cand.prec)
  have sorted := pairwise_insertionSort
    (fun left right : Precedence => right.bits ≤ left.bits) (cands.map fun cand => cand.prec)
  unfold checkPrecedences
  simp only
  split
  · trivial
  case h_2 noPair =>
    have strict := pairwise_of_adjacentDuplicate _ sorted noPair
    have nodup : ((cands.map fun cand => cand.prec).map Precedence.bits).Nodup := by
      rw [← (perm.map Precedence.bits).nodup_iff, nodup_iff_pairwise_ne, pairwise_map]
      refine strict.imp ?_
      intro left right lower equal
      rw [equal] at lower
      exact Std.lt_irrefl lower
    rwa [map_map] at nodup

/-! ## Inserting the keys and attaching the candidates -/

lemma arenaKeys_root :
    ArenaKeys [{ label := [], children := ∅, cands := [], keyLen := 0, subtree := 0 }] fun _ =>
      [] := by
  have noChild : ∀ parent byte, arenaChild
      [{ label := [], children := ∅, cands := [], keyLen := 0, subtree := 0 }] parent byte =
        none := by
    intro parent byte
    cases parent <;> simp [arenaChild]
  refine ⟨by simp, rfl, ?_, ?_, ?_, ?_, by simp, by simp [sentinel]⟩
  · intro parent byte below edge
    rw [noChild] at edge
    cases edge
  · intro below notRoot valid
    simp only [length_singleton, Nat.lt_one_iff] at valid
    exact absurd valid notRoot
  · intro left right leftValid rightValid _
    simp only [length_singleton, Nat.lt_one_iff] at leftValid rightValid
    omega
  · intro index node hit
    cases index with
    | zero => cases hit; rfl
    | succ index => simp at hit

def KeysInserted (done : List (List UInt8))
    (state : List BuildNode × List (List UInt8 × Nat)) : Prop :=
  ∃ key, ArenaKeys state.1 key ∧ NoCands state.1 ∧ state.2.map Prod.fst = done ∧
    ∀ pair ∈ state.2, pair.2 < state.1.length ∧ key pair.2 = pair.1

variable {arena : List BuildNode} {key : Nat → List UInt8} {group : Group} {node : PathNode}

lemma insertKeys_meets (maxNodes) (keys : ArenaKeys arena key) (noCands : NoCands arena)
    (short : ∀ word ∈ words, word.length ≤ maxPathBytes) :
    Meets (insertKeys maxNodes arena words) (KeysInserted words) := by
  refine meets_foldlM KeysInserted ⟨key, keys, noCands, rfl, by simp⟩ ?_
  rintro done word rest ⟨arena, pairs⟩ whole ⟨key, keys, noCands, inserted, located⟩
  refine (insert_meets maxNodes (short word (by simp [← whole])) keys noCands).bind ?_
  rintro ⟨grown, index⟩ ⟨after, result⟩
  refine ⟨after, result.keys, result.noCands, by simp [inserted], ?_⟩
  intro pair mem
  rcases mem_append.mp mem with earlier | here
  · rcases located pair earlier with ⟨valid, pairKey⟩
    exact ⟨valid.trans_le result.grows.length_le, (result.grows.same_key valid).trans pairKey⟩
  · rw [mem_singleton.mp here]
    exact ⟨result.valid, result.key_eq⟩

lemma mem_of_getElem?_ofList {word : List UInt8}
    {index : Nat} (nodup : (pairs.map Prod.fst).Nodup)
    (hit : (Std.TreeMap.ofList pairs)[word]? = some index) : (word, index) ∈ pairs := by
  have apart : pairs.Pairwise fun left right => ¬compare left.1 right.1 = .eq := by
    rw [nodup_iff_pairwise_ne, pairwise_map] at nodup
    exact nodup.imp fun apart equal => apart (by simpa using equal)
  by_cases mem : word ∈ pairs.map Prod.fst
  · rcases mem_map.mp mem with ⟨⟨same, other⟩, paired, rfl⟩
    rw [Std.TreeMap.getElem?_ofList_of_mem (k := same) (by simp) apart paired] at hit
    cases hit
    exact paired
  · rw [Std.TreeMap.getElem?_ofList_of_contains_eq_false (by simpa using mem)] at hit
    cases hit

lemma attachCands_meets (maxNodes entries) (keys : ArenaKeys arena key) (noCands : NoCands arena)
    (located : ∀ (word : List UInt8) (index : Nat), nodeOf[word]? = some index →
      index < arena.length ∧ key index = word) :
    Meets (entries.foldlM (attachCand maxNodes nodeOf) arena) fun after =>
      after.map BuildNode.bare = arena.map BuildNode.bare ∧ CandsAttached entries after key := by
  refine meets_foldlM (fun seen after => after.map BuildNode.bare = arena.map BuildNode.bare ∧
    CandsAttached seen after key) ⟨rfl, ?_⟩ ?_
  · intro index node hit
    simpa [candsWithKey] using noCands index node hit
  rintro seen entry _ current _ ⟨same, attached⟩
  have sameLength := length_eq_of_map_eq same
  refine (attachCand_meets maxNodes (keys.of_map_bare same) ?_ attached).mono ?_
  · intro index lookup
    rw [sameLength]
    exact located _ index lookup
  · rintro after ⟨bare, attached⟩
    exact ⟨bare.trans same, attached⟩

/-! ## Reading the records back -/

lemma Group.child_eq_lookup (blockFor : BlockFor oldToNew childList block)
    (flags : (node.flags &&& nodeDense != 0) = block.dense) (childN : node.childN = block.childN)
    (bytes : slice group.childBytes node.children (node.children + block.bytes.length) =
      some block.bytes)
    (nodes : slice group.childNodes node.children (node.children + block.nodes.length) =
      some block.nodes)
    (byte : UInt8) : group.child node byte = block.lookup byte := by
  rw [Group.child, ChildBlock.lookup, flags]
  cases dense : block.dense with
  | true =>
    have inside : byte.toNat < block.nodes.length := by
      rw [blockFor.dense dense]
      exact byte.toNat_lt
    simp only [↓reduceIte, getElem?_of_slice nodes inside]
  | false =>
    rw [childN, blockFor.sparse dense, bytes]
    simp only [Bool.false_eq_true, ↓reduceIte, Option.bind_eq_bind, Option.bind_some]
    cases spot : block.bytes.findIdx? (· == byte) with
    | none => rfl
    | some index =>
      have inside := (findIdx?_eq_some_iff_findIdx_eq.mp spot).1
      rw [blockFor.same_length] at inside
      exact getElem?_of_slice nodes inside

lemma Group.lists_of_slices {inputs sorted : List CandInput} (perm : sorted.Perm inputs)
    (strict : sorted.Pairwise fun left right => right.prec.bits < left.prec.bits)
    (cands : slice group.cands node.cands (node.cands + node.candN) =
      some (sorted.map CandInput.toCand))
    (routes : slice group.candRoutes node.cands (node.cands + node.candN) =
      some (sorted.map CandInput.route))
    (kinds : slice group.candKinds node.cands (node.cands + node.candN) =
      some (sorted.map fun cand => cand.kind.toU8)) : group.Lists node inputs := by
  refine ⟨sorted, perm, strict, by simp [Group.candsOf, cands], ?_⟩
  intro spot cand hit
  have inside := lt_of_getElem? hit
  constructor
  · rw [Group.candRoute, getElem?_of_slice routes (by simpa using inside)]
    simp [hit]
  · rw [Group.candKind, getElem?_of_slice kinds (by simpa using inside)]
    simp [hit]

/-! ## The index of a finished build -/

lemma candsWithKey_ne_nil_iff (cands word) :
    candsWithKey cands.zipIdx word ≠ [] ↔ Carries cands word := by
  have members : Carries cands word ↔ ∃ entry ∈ cands.zipIdx, entry.1.key = word := by
    constructor
    · rintro ⟨cand, mem, carried⟩
      rw [← zipIdx_map_fst 0 cands] at mem
      rcases mem_map.mp mem with ⟨entry, inside, rfl⟩
      exact ⟨entry, inside, carried⟩
    · rintro ⟨entry, inside, carried⟩
      exact ⟨entry.1, fst_mem_of_mem_zipIdx inside, carried⟩
  rw [members, candsWithKey, ne_eq, map_eq_nil_iff, filter_eq_nil_iff]
  simp

/-- Everything the steps of the build established, at its end. -/
structure Finished (cands : List CandInput) (arena : List BuildNode)
    (key : Nat → List UInt8) (numbering : Numbering) (upOld : List Nat)
    (group : Group) : Prop where
  keys : ArenaKeys arena key
  attached : CandsAttached cands.zipIdx arena key
  order : FinalOrder arena numbering
  ups : ∀ index, index < arena.length → ∃ owner, upOld[index]? = some owner ∧
    keys.tree.NearestOwner (Owns arena) index (linkOf owner)
  nodes_length : group.nodes.length = arena.length
  emitted : ∀ {final old : Nat} {node}, numbering.order[final]? = some old →
    group.node final = some node → ∃ out : Emission,
      Emitted arena numbering.oldToNew upOld cands out old node ∧
      group.childBytes = out.childBytes ∧ group.childNodes = out.childNodes ∧
      group.cands = out.cands ∧ group.candRoutes = out.candRoutes ∧
      group.candKinds = out.candKinds ∧ group.blob = out.blob
  nodup : (cands.map fun cand => cand.prec.bits).Nodup
  complete : ∀ {word}, Carries cands word → ∃ index, index < arena.length ∧ key index = word

namespace Finished

variable {cands : List CandInput} {numbering : Numbering} {upOld : List Nat} {id : NodeId}
  {old index : Nat}

def oldIndex (numbering : Numbering) (id : NodeId) : Nat := numbering.order[id]?.getD 0

lemma order_eq (finished : Finished cands arena key numbering upOld group)
    (valid : id < arena.length) : numbering.order[id]? = some (oldIndex numbering id) := by
  have inside : id < numbering.order.length := by rw [finished.order.length_eq]; exact valid
  rw [oldIndex, getElem?_eq_getElem inside]
  rfl

lemma oldIndex_eq (hit : numbering.order[id]? = some old) : oldIndex numbering id = old := by
  rw [oldIndex, hit]
  rfl

section

variable (finished : Finished cands arena key numbering upOld group)

include finished

lemma lt_of_order (hit : numbering.order[id]? = some old) : id < arena.length := by
  rw [← finished.order.length_eq]
  exact lt_of_getElem? hit

lemma oldIndex_lt (valid : id < arena.length) : oldIndex numbering id < arena.length :=
  (finished.order.mem_iff _).mp (mem_of_getElem? (finished.order_eq valid))

lemma lt_of_node (hit : group.node id = some node) : id < arena.length := by
  rw [← finished.nodes_length]
  exact lt_of_getElem? hit

lemma child_iff (hit : group.node id = some node) :
    group.child node byte = some below ↔
      below < arena.length ∧
      arenaChild arena (oldIndex numbering id) byte = some (oldIndex numbering below) := by
  have valid := finished.lt_of_node hit
  rcases finished.emitted (finished.order_eq valid) hit with
    ⟨out, emitted, bytesEq, nodesEq, _⟩
  rcases emitted.dispatch with ⟨block, blockFor, dense, childN, bytes, nodes⟩
  rw [← bytesEq] at bytes
  rw [← nodesEq] at nodes
  rw [Group.child_eq_lookup blockFor dense childN bytes nodes, blockFor.lookup]
  constructor
  · rintro ⟨old, subtree, mem, renumbered⟩
    have atBelow := finished.order.order_of_renumbered renumbered
    rw [oldIndex_eq atBelow]
    exact ⟨finished.lt_of_order atBelow, mem_childOrder_iff.mp ⟨subtree, mem⟩⟩
  · rintro ⟨belowValid, edge⟩
    rcases mem_childOrder_iff.mpr edge with ⟨subtree, mem⟩
    exact ⟨_, subtree, mem, finished.order.renumbered (finished.order_eq belowValid)⟩

end

def copy (finished : Finished cands arena key numbering upOld group) :
    finished.keys.tree.Copy NodeId where
  Valid id := id < arena.length
  old := oldIndex numbering
  child id byte := (group.node id).bind fun node => group.child node byte
  root := NodeId.root
  old_valid valid := finished.oldIndex_lt valid
  old_injective leftValid rightValid equal := by
    have leftAt := finished.order.renumbered (finished.order_eq leftValid)
    have rightAt := finished.order.renumbered (finished.order_eq rightValid)
    rw [equal] at leftAt
    exact Option.some.inj (leftAt.symm.trans rightAt)
  old_surjective valid := by
    rcases mem_iff_getElem?.mp ((finished.order.mem_iff _).mpr valid) with ⟨id, atId⟩
    exact ⟨id, finished.lt_of_order atId, oldIndex_eq atId⟩
  root_valid := finished.keys.nonempty
  old_root := oldIndex_eq finished.order.first
  child_iff valid := by
    have inside : _ < group.nodes.length := finished.nodes_length.symm ▸ valid
    have hit := getElem?_eq_getElem inside
    change ((group.node _).bind _ = some _ ↔ _)
    rw [show group.node _ = _ from hit, Option.bind_some]
    exact finished.child_iff hit

section

variable (finished : Finished cands arena key numbering upOld group)

include finished

lemma owns_iff (valid : index < arena.length) : Owns arena index ↔ Carries cands (key index) := by
  have hit := getElem?_eq_getElem valid
  rw [← candsWithKey_ne_nil_iff, ← finished.attached index _ hit]
  simp [Owns, hit]

lemma nearestOwner (hit : group.node id = some node) :
    finished.copy.copied.NearestOwner (fun id => Carries cands (finished.copy.copied.key id)) id
      (linkOf node.up) := by
  have valid := finished.lt_of_node hit
  rcases finished.emitted (finished.order_eq valid) hit with ⟨out, emitted, _⟩
  rcases emitted.up with ⟨owner, ownerFound, remapped⟩
  rcases finished.ups _ (finished.oldIndex_lt valid) with ⟨same, sameFound, nearest⟩
  cases Option.some.inj (ownerFound.symm.trans sameFound)
  have owns : ∀ other, finished.copy.Valid other →
      (Carries cands (finished.copy.copied.key other) ↔ Owns arena (finished.copy.old other)) :=
    fun other otherValid => (finished.owns_iff (finished.oldIndex_lt otherValid)).symm
  rcases remapped with ⟨none, upNone⟩ | ⟨some, renumbered⟩
  · rw [upNone, linkOf_sentinel]
    rw [none, linkOf_sentinel] at nearest
    exact finished.copy.nearestOwner_copied owns (by simp) nearest
  have atUp := finished.order.order_of_renumbered renumbered
  have upValid := finished.lt_of_order atUp
  rw [linkOf_of_lt (upValid.trans_le finished.keys.fits)]
  refine finished.copy.nearestOwner_copied owns ?_ ?_
  · intro new equal
    cases equal
    exact upValid
  · rw [linkOf, if_neg some, ← oldIndex_eq atUp] at nearest
    exact nearest

lemma lists (hit : group.node id = some node) :
    group.Lists node (cands.filter fun cand => cand.key = finished.copy.copied.key id) := by
  have valid := finished.lt_of_node hit
  rcases finished.emitted (finished.order_eq valid) hit with
    ⟨out, emitted, _, _, candsEq, routesEq, kindsEq, _⟩
  rcases emitted.owned with ⟨bnode, sorted, bnodeFound, rfl, candSlice, routeSlice, kindSlice⟩
  rw [← candsEq] at candSlice
  rw [← routesEq] at routeSlice
  rw [← kindsEq] at kindSlice
  have read := filterMap_candsWithKey cands (key (oldIndex numbering id))
  rw [← finished.attached _ bnode bnodeFound] at read
  rw [read] at candSlice routeSlice kindSlice
  refine Group.lists_of_slices (byPrecedence_perm _) (byPrecedence_sorted ?_) candSlice
    routeSlice kindSlice
  exact finished.nodup.sublist (filter_sublist.map _)

end

def groupIndex (finished : Finished cands arena key numbering upOld group) :
    GroupIndex group cands where
  tree := finished.copy.copied
  valid_iff id := by
    rw [finished.nodes_length]
    rfl
  root_eq := rfl
  child_eq hit byte := by
    change (group.node _).bind _ = _
    rw [hit, Option.bind_some]
  key_child hit edge belowFound := by
    rcases (finished.child_iff hit).mp edge with ⟨belowValid, oldEdge⟩
    rcases finished.keys.edge oldEdge with ⟨child, childFound, keyBelow, _⟩
    rcases finished.emitted (finished.order_eq belowValid) belowFound with
      ⟨out, emitted, _, _, _, _, _, blobEq⟩
    rcases emitted.label with ⟨bnode, bnodeFound, _, label⟩
    cases Option.some.inj (childFound.symm.trans bnodeFound)
    rw [← blobEq] at label
    rw [Group.label, label]
    exact keyBelow
  keyLen hit := by
    have valid := finished.lt_of_node hit
    rcases finished.emitted (finished.order_eq valid) hit with ⟨out, emitted, _⟩
    rcases emitted.label with ⟨bnode, bnodeFound, keyLen, _⟩
    rw [keyLen, finished.keys.keyLen bnodeFound]
    rfl
  up := finished.nearestOwner
  lists := finished.lists
  complete carried := by
    rcases finished.complete carried with ⟨old, valid, rfl⟩
    rcases finished.copy.old_surjective valid with ⟨id, idValid, rfl⟩
    exact ⟨id, idValid, rfl⟩
  fits := by
    rw [finished.nodes_length]
    exact finished.keys.fits

end Finished

lemma buildGroup_meets (cands parts) :
    Meets (buildGroup cands parts) fun group => Nonempty (GroupIndex group cands) := by
  refine (checkKeys_meets cands).bind ?_
  intro _ short
  refine (checkPrecedences_meets cands).bind ?_
  intro _ nodup
  refine (pushNode_meets _ _ _).bind ?_
  rintro _ ⟨rfl, _⟩
  have wordIff : ∀ word, word ∈ (Std.TreeSet.ofList (cands.map fun cand => cand.key)).toList ↔
      Carries cands word := by
    simp [Carries]
  have rootBare : NoCands
      [{ label := [], children := ∅, cands := [], keyLen := 0, subtree := 0 }] := by
    intro index node hit
    rw [mem_singleton.mp (mem_of_getElem? hit)]
  refine (insertKeys_meets parts.maxNodes arenaKeys_root rootBare ?_).bind ?_
  · intro word mem
    rcases (wordIff word).mp mem with ⟨cand, inside, rfl⟩
    exact short cand inside
  rintro ⟨inserted, pairs⟩ ⟨key, keys, noCands, words, located⟩
  have distinctWords : (pairs.map Prod.fst).Nodup := by
    rw [words, nodup_iff_pairwise_ne]
    have apart : (Std.TreeSet.ofList (cands.map fun cand => cand.key)).toList.Pairwise
        fun left right => ¬compare left right = .eq := Std.TreeSet.distinct_toList
    exact apart.imp fun apart equal => apart (by simp [equal])
  refine (attachCands_meets parts.maxNodes cands.zipIdx keys noCands ?_).bind ?_
  · intro word index lookup
    exact located _ (mem_of_getElem?_ofList distinctWords lookup)
  rintro withCands ⟨sameBare, attached⟩
  have candKeys := keys.of_map_bare sameBare
  refine (sizes_meets candKeys parts.maxNodes).bind ?_
  intro arena sameUncounted
  have finalKeys := candKeys.of_map_bare (map_bare_of_map_uncounted sameUncounted)
  refine (visit_meets finalKeys parts.maxNodes).bind ?_
  intro upOld ups
  refine (number_meets finalKeys parts.maxNodes).bind ?_
  intro numbering order
  refine (emit_meets ?_).mono ?_
  · intro old new renumbered
    have bound := lt_of_getElem? (order.order_of_renumbered renumbered)
    rw [order.length_eq] at bound
    exact (bound.trans_le finalKeys.fits).ne
  rintro group ⟨out, emission, nodesEq, bytesEq, childrenEq, candsEq, routesEq, kindsEq, blobEq⟩
  suffices finished : Finished cands arena key numbering upOld group from
    ⟨finished.groupIndex⟩
  refine ⟨finalKeys, ?_, order, ups, ?_, ?_, nodup, ?_⟩
  · intro index node hit
    rcases exists_of_map_eq sameUncounted.symm hit with ⟨before, beforeFound, same⟩
    have candsSame : before.cands = node.cands := by
      simpa [BuildNode.uncounted] using congrArg BuildNode.cands same
    rw [← candsSame]
    exact attached index before beforeFound
  · rw [nodesEq, emission.nodes_length, order.length_eq]
  · intro final old node atFinal hit
    rw [Group.node, nodesEq] at hit
    exact ⟨out, emission.emitted atFinal hit, bytesEq, childrenEq, candsEq, routesEq,
      kindsEq, blobEq⟩
  · intro word carried
    have mem := (wordIff word).mpr carried
    rw [← words] at mem
    rcases mem_map.mp mem with ⟨pair, inside, rfl⟩
    rcases located pair inside with ⟨valid, pairKey⟩
    refine ⟨pair.2, ?_, pairKey⟩
    rw [length_eq_of_map_eq sameUncounted, length_eq_of_map_eq sameBare]
    exact valid

end IronTraffic.Router
