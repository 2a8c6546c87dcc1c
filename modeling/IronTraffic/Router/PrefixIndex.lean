import IronTraffic.Router.Descent
import IronTraffic.Router.PathTrie.Index

/-! # The path trie is an exact prefix index

Descending a built group along a path and then following `up` meets exactly the
nodes of the configured keys that are prefixes of the path, longest first.
-/

namespace IronTraffic.Router

open List

open Fallible

/-- The full key of a node: the edge labels on the way from the root. -/
inductive Group.HasKey (group : Group) : NodeId → List UInt8 → Prop
  | root : group.HasKey NodeId.root []
  | child {id below : NodeId} {node belowNode : PathNode} {word : List UInt8} {byte : UInt8} :
      group.HasKey id word → group.node id = some node →
      group.child node byte = some below → group.node below = some belowNode →
      group.HasKey below (word ++ group.label belowNode)

/-- The nodes met by following `up` until `SENTINEL`. -/
def Group.ownersAbove (group : Group) : Nat → Nat → Option (List NodeId)
  | 0, _ => none
  | fuel + 1, up =>
    if up = sentinel then some [] else do
      let node ← group.node up
      let rest ← group.ownersAbove fuel node.up
      some (up :: rest)

/-- The candidate-owning nodes from `start` on: `start` itself when it owns
candidates, then the nodes on its `up` chain. -/
def Group.owners (group : Group) (start : NodeId) : Option (List NodeId) := do
  let node ← group.node start
  let above ← group.ownersAbove (group.nodes.length + 1) node.up
  if (group.candsOf node).isEmpty then some above else some (start :: above)

variable {path : List UInt8}

namespace GroupIndex

variable {group : Group} {cands : List CandInput} (index : GroupIndex group cands)

lemma node_of_valid {id} (valid : index.tree.Valid id) : ∃ node, group.node id = some node :=
  ⟨_, getElem?_eq_getElem ((index.valid_iff id).mp valid)⟩

lemma hasKey {id} (valid : index.tree.Valid id) : group.HasKey id (index.tree.key id) := by
  by_cases atRoot : id = index.tree.root
  · subst atRoot
    rw [index.tree.key_root, index.root_eq]
    exact .root
  · rcases index.tree.has_parent valid atRoot with ⟨parent, byte, parentValid, edge⟩
    have shorter := index.tree.length_lt_of_child parentValid edge
    rcases index.node_of_valid parentValid with ⟨parentNode, parentFound⟩
    rcases index.node_of_valid valid with ⟨node, hit⟩
    rw [index.child_eq parentFound] at edge
    rw [index.key_child parentFound edge hit]
    exact .child (hasKey parentValid) parentFound edge hit
termination_by (index.tree.key id).length

/-! ## Descent -/

/-- What the descent answers: the deepest node whose key is a prefix of the path. -/
structure Deepest (path : List UInt8) (descent : Descent) : Prop where
  exhausted : descent.exhausted = false
  valid : index.tree.Valid descent.node
  isPrefix : index.tree.key descent.node <+: path
  deepest : ∀ other, index.tree.Valid other → index.tree.key other <+: path →
    index.tree.key other <+: index.tree.key descent.node

lemma descendFrom_deepest (path) :
    ∀ (budget : Nat) (id : NodeId) (consumed : Nat), index.tree.Valid id →
      index.tree.key id = path.take consumed → consumed ≤ path.length →
      path.length - consumed < budget →
      index.Deepest path (descendFrom group path budget id id consumed)
  | 0, _, _, _, _, _, enough => absurd enough (Nat.not_lt_zero _)
  | budget + 1, id, consumed, valid, keyEq, inside, enough => by
    have herePrefix : index.tree.key id <+: path := by
      rw [keyEq]
      exact take_prefix _ _
    rw [descendFrom]
    by_cases finished : consumed = path.length
    · rw [if_pos finished]
      refine ⟨rfl, valid, herePrefix, fun other _ otherPrefix => ?_⟩
      rw [keyEq, finished, take_length]
      exact otherPrefix
    rw [if_neg finished]
    rcases index.node_of_valid valid with ⟨node, hit⟩
    have bound : consumed < path.length := by omega
    have atByte := getElem?_eq_getElem bound
    have nextPrefix : index.tree.key id ++ [path[consumed]] <+: path := by
      rw [keyEq, take_concat_get']
      exact take_prefix _ _
    -- a child along the path would be the one the next byte selects
    have stuckUnless : (∀ below, group.child node path[consumed] = some below →
        ¬index.tree.key below <+: path) → ∀ other, index.tree.Valid other →
        index.tree.key other <+: path → index.tree.key other <+: index.tree.key id := by
      intro blocked other otherValid otherPrefix
      refine index.tree.prefix_of_stuck valid herePrefix ?_ otherValid otherPrefix
      intro byte below edge belowPrefix
      have same := PrefixTree.symbol_eq_of_prefix
        ((index.tree.key_child valid edge).trans belowPrefix) nextPrefix
      subst same
      rw [index.child_eq hit] at edge
      exact blocked below edge belowPrefix
    simp only [hit, atByte]
    cases step : group.child node path[consumed] with
    | none =>
      exact ⟨rfl, valid, herePrefix, stuckUnless fun below edge => by
        rw [step] at edge
        cases edge⟩
    | some child =>
      have edge : index.tree.child id path[consumed] = some child := by
        rw [index.child_eq hit, step]
      have childValid := index.tree.child_valid valid edge
      rcases index.node_of_valid childValid with ⟨childNode, childFound⟩
      have childKey := index.key_child hit step childFound
      have longer := index.tree.length_lt_of_child valid edge
      rw [childKey, length_append] at longer
      have notEmpty : (group.label childNode).isEmpty = false := by
        rw [isEmpty_eq_false_iff, ← length_pos_iff]
        omega
      have whole : slice path consumed path.length = some (path.drop consumed) := by
        rw [slice, if_pos ⟨inside, le_rfl⟩, take_of_length_le (by simp)]
      have childPrefixIff : index.tree.key child <+: path ↔
          group.label childNode <+: path.drop consumed := by
        have cancel : path.take consumed ++ group.label childNode <+:
            path.take consumed ++ path.drop consumed ↔ _ :=
          prefix_append_right_inj _
        rwa [take_append_drop, ← keyEq, ← childKey] at cancel
      have blockedBy : ¬group.label childNode <+: path.drop consumed →
          ∀ below, group.child node path[consumed] = some below →
            ¬index.tree.key below <+: path := by
        intro blocked below belowEdge belowPrefix
        rw [step] at belowEdge
        cases belowEdge
        exact blocked (childPrefixIff.mp belowPrefix)
      simp only [childFound, notEmpty, whole, Bool.false_eq_true, ↓reduceIte]
      by_cases short : (path.drop consumed).length < (group.label childNode).length
      · rw [if_pos short]
        exact ⟨rfl, valid, herePrefix, stuckUnless (blockedBy fun labelPrefix => by
          have := labelPrefix.length_le
          omega)⟩
      rw [if_neg short]
      have readLabel : slice (path.drop consumed) 0 (group.label childNode).length =
          some ((path.drop consumed).take (group.label childNode).length) := by
        rw [slice, if_pos ⟨Nat.zero_le _, by omega⟩, drop_zero, Nat.sub_zero]
      by_cases mismatch : slice (path.drop consumed) 0 (group.label childNode).length ≠
          some (group.label childNode)
      · rw [if_pos mismatch]
        refine ⟨rfl, valid, herePrefix, stuckUnless (blockedBy fun labelPrefix => ?_)⟩
        rw [readLabel] at mismatch
        exact mismatch (congrArg some (prefix_iff_eq_take.mp labelPrefix).symm)
      · rw [if_neg mismatch]
        rw [readLabel, not_not, Option.some.injEq] at mismatch
        refine descendFrom_deepest path budget child _ childValid ?_ ?_ ?_
        · rw [childKey, keyEq, take_add, mismatch]
        · simp only [length_drop] at short
          omega
        · omega

lemma descend_deepest (short : path.length ≤ maxPathBytes) :
    index.Deepest path (descend group path (visitBudget path.length)) := by
  rw [descend, if_neg (by omega)]
  refine index.descendFrom_deepest path _ NodeId.root 0 ?_ ?_ (Nat.zero_le _) ?_
  · exact index.root_eq ▸ index.tree.root_valid
  · rw [← index.root_eq, index.tree.key_root, take_zero]
  · unfold visitBudget maxPathBytes at *
    simp only
    rw [if_neg (by omega)]
    omega

/-! ## The chain of owners -/

/-- `up` as an optional index, by node. -/
def upOf (group : Group) (id : NodeId) : Option NodeId :=
  (group.node id).bind fun node => linkOf node.up

lemma ownersAbove_eq (walk : PrefixTree.UpChain (upOf group) (linkOf link) chain)
    (hit : ∀ id ∈ chain, ∃ node, group.node id = some node) :
    ∀ fuel, chain.length < fuel → group.ownersAbove fuel link = some chain := by
  induction chain generalizing link with
  | nil =>
    intro fuel enough
    have stop : link = sentinel := by
      by_contra other
      rw [linkOf, if_neg other] at walk
      cases walk
    cases fuel with
    | zero => omega
    | succ fuel => rw [Group.ownersAbove, if_pos stop]
  | cons id rest induction =>
    intro fuel enough
    have other : link ≠ sentinel := by
      rintro rfl
      cases walk
    rw [linkOf, if_neg other] at walk
    cases walk with
    | next later =>
      rcases hit _ mem_cons_self with ⟨node, nodeFound⟩
      rw [upOf, nodeFound, Option.bind_some] at later
      cases fuel with
      | zero => omega
      | succ fuel =>
        rw [Group.ownersAbove, if_neg other, nodeFound]
        have tail := induction later
          (fun id mem => hit id (mem_cons_of_mem _ mem)) fuel (by
            simp only [length_cons] at enough
            omega)
        simp [tail]

lemma candsOf_eq_nil_iff {id} (hit : group.node id = some node) :
    group.candsOf node = [] ↔ ¬Carries cands (index.tree.key id) := by
  rcases index.lists hit with ⟨sorted, perm, _, listed, _⟩
  rw [listed, map_eq_nil_iff]
  constructor
  · rintro rfl ⟨cand, mem, carried⟩
    have none := perm.nil_eq
    exact filter_eq_nil_iff.mp none.symm cand mem (by simpa using carried)
  · intro bare
    refine List.Perm.eq_nil (perm.trans ?_)
    rw [filter_eq_nil_iff.mpr]
    intro cand mem carried
    exact bare ⟨cand, mem, by simpa using carried⟩

lemma owners_eq (deepest : index.Deepest path descent) :
    ∃ walk : List NodeId, group.owners descent.node = some walk ∧
      (walk.Pairwise fun deep shallow =>
        (index.tree.key shallow).length < (index.tree.key deep).length) ∧
      ∀ id, id ∈ walk ↔
        index.tree.Valid id ∧ Carries cands (index.tree.key id) ∧ index.tree.key id <+: path := by
  rcases index.node_of_valid deepest.valid with ⟨node, hit⟩
  have nearest : ∀ id, index.tree.Valid id → index.tree.NearestOwner
      (fun id => Carries cands (index.tree.key id)) id (upOf group id) := by
    intro id valid
    rcases index.node_of_valid valid with ⟨idNode, idFound⟩
    rw [upOf, idFound, Option.bind_some]
    exact index.up idFound
  rcases index.tree.upChain_complete _ nearest deepest.valid with
    ⟨chain, walked, sorted, members⟩
  rw [upOf, hit, Option.bind_some] at walked
  have chainLength : chain.length ≤ group.nodes.length := by
    refine length_le_of_nodup ?_ fun id mem =>
      (index.valid_iff id).mp ((members id).mp mem).1
    exact sorted.imp fun shorter equal => by
      subst equal
      exact lt_irrefl _ shorter
  have above := ownersAbove_eq walked
    (fun id mem => index.node_of_valid ((members id).mp mem).1)
    (group.nodes.length + 1) (by omega)
  have strictlyAbove : ∀ id, id ∈ chain ↔ index.tree.Valid id ∧
      Carries cands (index.tree.key id) ∧ index.tree.key id <+: path ∧ id ≠ descent.node := by
    intro id
    rw [members id]
    constructor
    · rintro ⟨valid, carried, isPrefix, shorter⟩
      refine ⟨valid, carried, isPrefix.trans deepest.isPrefix, ?_⟩
      rintro rfl
      exact lt_irrefl _ shorter
    · rintro ⟨valid, carried, isPrefix, apart⟩
      have under := deepest.deepest id valid isPrefix
      refine ⟨valid, carried, under, lt_of_le_of_ne under.length_le fun lengths => apart ?_⟩
      exact index.tree.eq_of_prefix_of_length_eq valid deepest.valid under lengths
  by_cases carried : Carries cands (index.tree.key descent.node)
  · have shown : group.candsOf node ≠ [] := fun empty =>
    (index.candsOf_eq_nil_iff hit).mp empty carried
    refine ⟨descent.node :: chain, by simp [Group.owners, hit, above, shown],
      pairwise_cons.mpr ⟨fun id mem => ((members id).mp mem).2.2.2, sorted⟩, ?_⟩
    intro id
    rw [mem_cons, strictlyAbove]
    constructor
    · rintro (rfl | ⟨valid, carried, isPrefix, _⟩)
      · exact ⟨deepest.valid, carried, deepest.isPrefix⟩
      · exact ⟨valid, carried, isPrefix⟩
    · rintro ⟨valid, carried, isPrefix⟩
      by_cases here : id = descent.node
      · exact .inl here
      · exact .inr ⟨valid, carried, isPrefix, here⟩
  · have shown : group.candsOf node = [] := (index.candsOf_eq_nil_iff hit).mpr carried
    refine ⟨chain, by simp [Group.owners, hit, above, shown], sorted, ?_⟩
    intro id
    rw [strictlyAbove]
    constructor
    · rintro ⟨valid, carried, isPrefix, _⟩
      exact ⟨valid, carried, isPrefix⟩
    · rintro ⟨valid, owned, isPrefix⟩
      refine ⟨valid, owned, isPrefix, ?_⟩
      rintro rfl
      exact carried owned

end GroupIndex

/-- For every group the build returns and every path the router may search, the
descent is not exhausted, and the owners from the node it returns on are the
nodes of exactly the distinct keys that are prefixes of the path, in strictly
decreasing length. Each of them lists exactly the candidates carrying its key. -/
theorem buildGroup_prefix_index (cands : List CandInput) (parts : GroupParts) {group : Group}
    (built : buildGroup cands parts = .ok group) (path : List UInt8)
    (short : path.length ≤ maxPathBytes) :
    (descend group path (visitBudget path.length)).exhausted = false ∧
    ∃ walk : List (NodeId × List UInt8),
      group.owners (descend group path (visitBudget path.length)).node = some (walk.map Prod.fst) ∧
      ((walk.map Prod.snd).Pairwise fun deep shallow => shallow.length < deep.length) ∧
      (∀ word, word ∈ walk.map Prod.snd ↔ (∃ cand ∈ cands, cand.key = word) ∧ word <+: path) ∧
      ∀ entry ∈ walk, group.HasKey entry.1 entry.2 ∧
        ∃ node, group.node entry.1 = some node ∧ node.keyLen = entry.2.length ∧
          group.Lists node (cands.filter fun cand => cand.key = entry.2) := by
  rcases (buildGroup_meets cands parts).of_eq_ok built with ⟨index⟩
  have deepest := index.descend_deepest short
  rcases index.owners_eq deepest with ⟨walk, owners, sorted, members⟩
  refine ⟨deepest.exhausted, walk.map fun id => (id, index.tree.key id), ?_, ?_, ?_, ?_⟩
  · simpa [map_map, Function.comp_def] using owners
  · simpa [map_map, Function.comp_def, pairwise_map] using sorted
  · intro word
    simp only [map_map, mem_map, Function.comp_def, members]
    constructor
    · rintro ⟨id, ⟨_, carried, isPrefix⟩, rfl⟩
      exact ⟨carried, isPrefix⟩
    · rintro ⟨carried, isPrefix⟩
      rcases index.complete carried with ⟨id, valid, rfl⟩
      exact ⟨id, ⟨valid, carried, isPrefix⟩, rfl⟩
  · intro entry mem
    rcases mem_map.mp mem with ⟨id, inside, rfl⟩
    have valid := ((members id).mp inside).1
    rcases index.node_of_valid valid with ⟨node, hit⟩
    exact ⟨index.hasKey valid, node, hit, index.keyLen hit, index.lists hit⟩

/-- Two nested keys, `/a` and `/ab`. -/
def nestedCands : List CandInput :=
  [{ key := [47, 97], kind := .segmentPrefix, prec := ⟨2⟩, action := ⟨0⟩, route := ⟨0⟩,
     preds := 4294967295 },
   { key := [47, 97, 98], kind := .exact, prec := ⟨1⟩, action := ⟨1⟩, route := ⟨1⟩,
     preds := 4294967295 }]

def smallParts : GroupParts :=
  { preds := [], blob := [], next := ⟨4294967295⟩, contentHash := 0, maxNodes := 16,
    maxBlobBytes := 64 }

/-- Searching `/abc` meets `/ab` and not `/`. -/
theorem nestedCands_prefix_index :
    ∃ group, buildGroup nestedCands smallParts = .ok group ∧
      (descend group [47, 97, 98, 99] (visitBudget 4)).exhausted = false ∧
      ∃ walk : List (NodeId × List UInt8),
        group.owners (descend group [47, 97, 98, 99] (visitBudget 4)).node =
          some (walk.map Prod.fst) ∧ [47, 97, 98] ∈ walk.map Prod.snd ∧
        [47] ∉ walk.map Prod.snd := by
  refine ⟨_, rfl, ?_⟩
  have holds := buildGroup_prefix_index nestedCands smallParts rfl [47, 97, 98, 99]
    (by decide)
  rcases holds with ⟨exhausted, walk, owners, _, members, _⟩
  refine ⟨exhausted, walk, owners, (members _).mpr ?_, fun mem => ?_⟩
  · exact ⟨⟨_, mem_cons_of_mem _ mem_cons_self, rfl⟩, by decide⟩
  · exact absurd ((members _).mp mem).1 (by decide)

end IronTraffic.Router
