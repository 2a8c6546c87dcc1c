import IronTraffic.Router.PathTrie.Arena

/-! # Candidates, up links and the final order

Once all keys are inserted the shape of the arena is fixed. Attaching
candidates and computing subtree sizes fill in the remaining fields; the two
later traversals only read. Each traversal is an explicit stack loop over the
prefix tree, so it visits every node exactly once.
-/

namespace IronTraffic.Router

open BuildNode

open List

open Fallible Worklist

/-! ## What keeps the shape -/

def BuildNode.bare (node : BuildNode) : BuildNode := { node with cands := [], subtree := 0 }

lemma BuildNode.of_bare_eq {left right : BuildNode} (equal : left.bare = right.bare) :
    left.label = right.label ∧ left.children = right.children ∧ left.keyLen = right.keyLen := by
  simp only [bare, mk.injEq] at equal
  exact ⟨equal.1, equal.2.1, equal.2.2.2.1⟩

def BuildNode.uncounted (node : BuildNode) : BuildNode := { node with subtree := 0 }

lemma map_bare_of_map_uncounted {before after : List BuildNode}
    (same : after.map uncounted = before.map uncounted) : after.map bare = before.map bare := by
  have forget : bare = bare ∘ uncounted := rfl
  rw [forget, ← map_map, ← map_map, same]

variable {Part : Type} {index : Nat} {node : BuildNode} {arena : List BuildNode}
  {key : Nat → List UInt8} {numbering : Numbering}

section Shape

variable {before after : List BuildNode}

lemma exists_of_map_eq {part : BuildNode → Part} (same : after.map part = before.map part)
    (hit : before[index]? = some node) :
    ∃ now, after[index]? = some now ∧ part now = part node := by
  have lookup := congrArg (fun parts : List Part => parts[index]?) same
  simp only [getElem?_map, hit, Option.map_some] at lookup
  exact Option.map_eq_some_iff.mp lookup

lemma length_eq_of_map_eq (same : after.map part = before.map part) :
    after.length = before.length := by
  simpa using congrArg length same

lemma arenaChild_eq_of_map_bare (same : after.map bare = before.map bare) :
    arenaChild after = arenaChild before := by
  funext parent byte
  unfold arenaChild
  cases hit : before[parent]? with
  | none =>
    have absent : after[parent]? = none := by
      rw [getElem?_eq_none_iff, length_eq_of_map_eq same, ← getElem?_eq_none_iff, hit]
    rw [absent]
  | some node =>
    rcases exists_of_map_eq same hit with ⟨now, nowFound, equal⟩
    rw [nowFound]
    simp only [Option.bind_some]
    rw [(of_bare_eq equal).2.1]

lemma ArenaKeys.of_map_bare (keys : ArenaKeys before key)
    (same : after.map bare = before.map bare) : ArenaKeys after key := by
  have sameLength := length_eq_of_map_eq same
  have sameChild := arenaChild_eq_of_map_bare same
  refine ⟨by rw [sameLength]; exact keys.nonempty, keys.key_root, ?_, ?_, ?_, ?_, ?_,
    by rw [sameLength]; exact keys.fits⟩
  · intro parent byte below edge
    rw [sameChild] at edge
    rcases keys.edge edge with ⟨child, hit, keyBelow, childHead⟩
    rcases exists_of_map_eq same hit with ⟨now, nowFound, equal⟩
    have label := (of_bare_eq equal).1
    exact ⟨now, nowFound, by rw [label, keyBelow], by rw [label, childHead]⟩
  · intro below notRoot valid
    rw [sameLength] at valid
    rw [sameChild]
    exact keys.has_parent notRoot valid
  · intro left right leftValid rightValid
    rw [sameLength] at leftValid rightValid
    exact keys.injective leftValid rightValid
  · intro index now nowFound
    rcases exists_of_map_eq same.symm nowFound with ⟨node, hit, equal⟩
    rw [← (of_bare_eq equal).2.2, keys.keyLen hit]
  · intro index valid
    rw [sameLength] at valid
    exact keys.bounded valid

end Shape

lemma map_set_of_eq (update) (hit : arena[index]? = some node)
    (same : part update = part node) : (arena.set index update).map part = arena.map part := by
  rw [map_set, same]
  apply ext_getElem?
  intro other
  by_cases here : index = other
  · subst here
    have bound := lt_of_getElem? hit
    rw [getElem?_set_self (by simpa using bound), getElem?_map, hit]
    rfl
  · rw [getElem?_set_ne here]

/-! ## Attaching candidates -/

def candsWithKey (seen : List (CandInput × Nat)) (word : List UInt8) : List Nat :=
  (seen.filter fun entry => entry.1.key = word).map Prod.snd

def CandsAttached (seen : List (CandInput × Nat)) (arena : List BuildNode)
    (key : Nat → List UInt8) : Prop :=
  ∀ (index : Nat) (node : BuildNode), arena[index]? = some node →
    node.cands = candsWithKey seen (key index)

lemma attachCand_meets (maxNodes : UInt32) (keys : ArenaKeys arena key)
    (located : ∀ index, nodeOf[entry.1.key]? = some index →
      index < arena.length ∧ key index = entry.1.key)
    (attached : CandsAttached seen arena key) :
    Meets (attachCand maxNodes nodeOf arena entry) fun after =>
      after.map bare = arena.map bare ∧ CandsAttached (seen ++ [entry]) after key := by
  refine (meets_okOr _ _).bind ?_
  intro target lookup
  rcases located target lookup with ⟨valid, targetKey⟩
  refine (nodeMut_meets arena target maxNodes _).mono ?_
  rintro after ⟨node, hit, rfl⟩
  refine ⟨map_set_of_eq _ hit rfl, ?_⟩
  intro index now nowFound
  have appended : candsWithKey (seen ++ [entry]) (key index) =
      candsWithKey seen (key index) ++ (if entry.1.key = key index then [entry.2] else []) := by
    unfold candsWithKey
    by_cases carries : entry.1.key = key index <;> simp [carries]
  rw [appended]
  by_cases here : target = index
  · subst here
    rw [getElem?_set_self valid] at nowFound
    cases nowFound
    simp [attached target node hit, targetKey]
  · rw [getElem?_set_ne here] at nowFound
    have indexValid := lt_of_getElem? nowFound
    have apart : entry.1.key ≠ key index := fun equal =>
      here (keys.injective valid indexValid (targetKey.trans equal))
    simp [attached index now nowFound, apart]

/-! ## Lists of children -/

/-- `list` holds the children of a node, each once, in some order. -/
def ChildList (arena : List BuildNode) (parent : Nat) (list : List Nat) : Prop :=
  ∃ entries : List (UInt8 × Nat), list = entries.map Prod.snd ∧ (entries.map Prod.fst).Nodup ∧
    ∀ byte below, (byte, below) ∈ entries ↔ arenaChild arena parent byte = some below

lemma nodup_child_bytes (node : BuildNode) : (node.children.toList.map Prod.fst).Nodup := by
  have nodup : node.children.toList.Pairwise fun left right =>
      ¬compare left.1 right.1 = .eq := Std.TreeMap.distinct_keys_toList
  rw [nodup_iff_pairwise_ne, pairwise_map]
  exact nodup.imp fun apart equal => apart (by simp [equal])

namespace ChildList

variable {parent : Nat} {list : List Nat}

lemma of_toList (hit : arena[parent]? = some node) {entries : List (UInt8 × Nat)}
    (perm : entries.Perm node.children.toList) : ChildList arena parent (entries.map Prod.snd) := by
  refine ⟨entries, rfl, ?_, ?_⟩
  · rw [(perm.map Prod.fst).nodup_iff]
    exact nodup_child_bytes node
  · intro byte below
    rw [perm.mem_iff, Std.TreeMap.mem_toList_iff_getElem?_eq_some]
    simp [arenaChild, hit]

lemma childIds (hit : arena[parent]? = some node) : ChildList arena parent node.childIds :=
  of_toList hit (List.Perm.refl _)

lemma of_absent (absent : arena[parent]? = none) : ChildList arena parent [] :=
  ⟨[], rfl, nodup_nil, fun byte below => by simp [arenaChild, absent]⟩

lemma reverse (children : ChildList arena parent list) : ChildList arena parent list.reverse := by
  rcases children with ⟨entries, rfl, nodup, members⟩
  exact ⟨entries.reverse, by simp, by simpa using nodup,
    fun byte below => by rw [mem_reverse, members]⟩

lemma mem_iff (children : ChildList arena parent list) :
    below ∈ list ↔ ∃ byte, arenaChild arena parent byte = some below := by
  rcases children with ⟨entries, rfl, _, members⟩
  simp only [mem_map, Prod.exists, exists_eq_right]
  exact exists_congr fun byte => members byte below

lemma disjoint (children : ChildList arena parent list) (keys : ArenaKeys arena key) :
    list.Pairwise fun left right => ∀ word, key left <+: word → ¬key right <+: word := by
  rcases children with ⟨entries, rfl, nodup, members⟩
  rw [pairwise_map]
  rw [nodup_iff_pairwise_ne, pairwise_map] at nodup
  refine nodup.imp_of_mem ?_
  rintro ⟨leftByte, left⟩ ⟨rightByte, right⟩ leftMem rightMem apart word inLeft inRight
  have leftEdge := (members _ _).mp leftMem
  have rightEdge := (members _ _).mp rightMem
  have valid := ArenaKeys.parent_lt_of_child leftEdge
  exact apart (PrefixTree.symbol_eq_of_prefix
    ((keys.tree.key_child valid leftEdge).trans inLeft)
    ((keys.tree.key_child valid rightEdge).trans inRight))

end ChildList

def height (key : Nat → List UInt8) (index : Nat) : Nat := maxPathBytes - (key index).length

lemma height_lt_of_child (keys : ArenaKeys arena key)
    (edge : arenaChild arena parent byte = some below) : height key below < height key parent := by
  have deeper := keys.length_lt_of_child edge
  have bounded := keys.bounded (keys.lt_of_child edge)
  unfold height
  omega

lemma length_le_of_nodup {list : List Nat} (nodup : list.Nodup)
    (below : ∀ item ∈ list, item < bound) : list.length ≤ bound := by
  have inside := subperm_of_subset nodup
    (fun item mem => mem_range.mpr (below item mem))
  simpa using inside.length_le

/-! ## Traversals -/

/-- A stack loop over the nodes of an arena: an entry stands for one node and
leads to one entry for each child of that node. -/
structure Traversal (arena : List BuildNode) (Entry : Type) where
  node : Entry → Nat
  following : Entry → List Entry
  children : ∀ entry, ChildList arena (node entry) ((following entry).map node)

namespace Traversal

variable {Entry : Type} (traversal : Traversal arena Entry) (keys : ArenaKeys arena key)

lemma edge_of_mem {entry later : Entry} (follows : later ∈ traversal.following entry) :
    ∃ byte, arenaChild arena (traversal.node entry) byte = some (traversal.node later) :=
  (traversal.children entry).mem_iff.mp (mem_map_of_mem follows)

include keys in
lemma falls :
    ∀ entry, ∀ later ∈ traversal.following entry,
      height key (traversal.node later) < height key (traversal.node entry) := by
  intro entry later follows
  rcases traversal.edge_of_mem follows with ⟨byte, edge⟩
  exact height_lt_of_child keys edge

/-- The entries met from `start` on, in order. -/
def entries (start : Entry) : List Entry :=
  unroll traversal.following (fun entry => height key (traversal.node entry))
    (traversal.falls keys) start

lemma nodup (start : Entry) : ((traversal.entries keys start).map traversal.node).Nodup := by
  refine (nodup_unroll traversal.node (fun entry index => key (traversal.node entry) <+: key index)
    (fun _ => prefix_rfl) ?_ ?_ ?_ start).1
  · intro entry later follows target inside
    rcases traversal.edge_of_mem follows with ⟨byte, edge⟩
    exact (keys.prefix_of_child edge).trans inside
  · intro entry later follows inside
    rcases traversal.edge_of_mem follows with ⟨byte, edge⟩
    have shorter := keys.length_lt_of_child edge
    exact absurd inside.length_le (by omega)
  · intro entry
    exact (pairwise_map.mp ((traversal.children entry).disjoint keys)).imp
      fun separate target => separate (key target)

lemma mem_iff (start : Entry) (root : traversal.node start = 0) (index : Nat) :
    index ∈ (traversal.entries keys start).map traversal.node ↔ index < arena.length := by
  constructor
  · intro mem
    rcases mem_map.mp mem with ⟨entry, met, rfl⟩
    refine forall_mem_unroll (fun entry => traversal.node entry < arena.length) ?_ start
      (by rw [root]; exact keys.nonempty) entry met
    intro entry _ later follows
    rcases traversal.edge_of_mem follows with ⟨byte, edge⟩
    exact keys.lt_of_child edge
  · -- by the length of the key: the parent is met, and so are its children
    induction size : (key index).length using Nat.strong_induction_on generalizing index with
    | _ length induction =>
      intro valid
      by_cases atRoot : index = 0
      · subst atRoot
        exact mem_map.mpr ⟨start, self_mem_unroll start, root⟩
      rcases keys.has_parent atRoot valid with ⟨parent, byte, edge⟩
      have shorter := keys.length_lt_of_child edge
      rcases mem_map.mp (induction _ (by omega) parent rfl
        (ArenaKeys.parent_lt_of_child edge)) with ⟨entry, mem, rfl⟩
      rcases mem_map.mp ((traversal.children entry).mem_iff.mpr ⟨byte, edge⟩) with
        ⟨later, follows, laterNode⟩
      exact mem_map.mpr ⟨later, unroll_closed start entry mem later follows, laterNode⟩

lemma length_le (start : Entry) (root : traversal.node start = 0) :
    (traversal.entries keys start).length ≤ arena.length := by
  have bound := length_le_of_nodup (traversal.nodup keys start)
    fun index mem => (traversal.mem_iff keys start root index).mp mem
  simpa using bound

lemma drain_meets {visit : State → Entry → Fallible Reason (State × List Entry)}
    (Invariant : List Entry → State → Prop) (root : traversal.node start = 0)
    (visits : ∀ done entry state, entry ∈ traversal.entries keys start →
        traversal.node entry ∉ done.map traversal.node → Invariant done state →
        Meets (visit state entry) fun result =>
          result.2 = (traversal.following entry).reverse ∧ Invariant (done ++ [entry]) result.1)
    {state : State} (initially : Invariant [] state) :
    Meets (drain visit arena.length [start] state) (Invariant (traversal.entries keys start)) := by
  refine Worklist.drain_meets (traversal.falls keys) Invariant ?_ arena.length [start] [] state
    (by simp [entries]) (by simpa [entries] using traversal.length_le keys start root) initially
  intro done entry rest state whole holds
  have nodup := traversal.nodup keys start
  rw [← whole, map_append, nodup_append] at nodup
  refine visits done entry state (by rw [← whole]; simp) ?_ holds
  intro again
  exact nodup.2.2 _ again _ (by simp) rfl

end Traversal

/-! ## Final numbering -/

/-- The children of a node in the order of `sortedChildren`, which cannot fail
on a well-formed arena. -/
def childOrder (arena : List BuildNode) (index : Nat) : List (UInt8 × Nat × Nat) :=
  match arena[index]? with
  | none => []
  | some node =>
    (node.children.toList.map fun entry =>
      (entry.1, entry.2, (arena[entry.2]?.map subtree).getD 0)).insertionSort
      fun left right => right.2.2 ≤ left.2.2

lemma sortedChildren_meets (arena) (index : Nat) (maxNodes : UInt32) :
    Meets (sortedChildren arena index maxNodes) fun list => list = childOrder arena index := by
  refine (nodeRef_meets arena index maxNodes).bind ?_
  intro node hit
  refine Meets.bind (meets_mapM (fun entry =>
    (entry.1, entry.2, (arena[entry.2]?.map subtree).getD 0)) ?_) ?_
  · rintro ⟨byte, child⟩ _
    refine (nodeRef_meets arena child maxNodes).bind ?_
    intro childNode childFound
    simp [childFound]
  · rintro _ rfl
    simp [childOrder, hit]

lemma childOrder_perm (hit : arena[index]? = some node) :
    ((childOrder arena index).map fun entry => (entry.1, entry.2.1)).Perm node.children.toList := by
  have perm := (perm_insertionSort (fun left right : UInt8 × Nat × Nat => right.2.2 ≤ left.2.2)
    (node.children.toList.map fun entry =>
      (entry.1, entry.2, (arena[entry.2]?.map subtree).getD 0))).map
    fun entry => (entry.1, entry.2.1)
  simpa [childOrder, hit, Function.comp_def] using perm

lemma nodup_childOrder_bytes (arena) (index : Nat) :
    ((childOrder arena index).map Prod.fst).Nodup := by
  cases hit : arena[index]? with
  | none => simp [childOrder, hit]
  | some node =>
    have perm := (childOrder_perm hit).map Prod.fst
    rw [map_map] at perm
    exact perm.nodup_iff.mpr (nodup_child_bytes node)

lemma childList_childOrder (arena) (index : Nat) :
    ChildList arena index ((childOrder arena index).map fun entry => entry.2.1) := by
  cases hit : arena[index]? with
  | none => simpa [childOrder, hit] using ChildList.of_absent hit
  | some node =>
    simpa [map_map, Function.comp_def] using
      ChildList.of_toList hit (childOrder_perm hit)

lemma mem_childOrder_iff :
    (∃ subtree, (byte, child, subtree) ∈ childOrder arena index) ↔
      arenaChild arena index byte = some child := by
  cases hit : arena[index]? with
  | none => simp [childOrder, arenaChild, hit]
  | some node =>
    have mapped := (childOrder_perm hit).mem_iff (a := (byte, child))
    simpa [arenaChild, hit] using mapped

/-- Every node once, the root first, with its final index recorded. -/
structure FinalOrder (arena : List BuildNode) (numbering : Numbering) : Prop where
  nodup : numbering.order.Nodup
  mem_iff : ∀ index, index ∈ numbering.order ↔ index < arena.length
  first : numbering.order[0]? = some 0
  renumbered : ∀ {final old : Nat}, numbering.order[final]? = some old →
    numbering.oldToNew[old]? = some final
  sized : numbering.oldToNew.length = arena.length

lemma FinalOrder.order_of_renumbered (final : FinalOrder arena numbering) {old new : Nat}
    (renumbered : numbering.oldToNew[old]? = some new) : numbering.order[new]? = some old := by
  have valid := lt_of_getElem? renumbered
  rw [final.sized] at valid
  rcases mem_iff_getElem?.mp ((final.mem_iff old).mpr valid) with ⟨spot, atPosition⟩
  have same := final.renumbered atPosition
  rw [renumbered] at same
  cases same
  exact atPosition

lemma FinalOrder.length_eq (final : FinalOrder arena numbering) :
    numbering.order.length = arena.length := by
  have perm : numbering.order.Perm (range arena.length) :=
    (perm_ext_iff_of_nodup final.nodup nodup_range).mpr fun index => by
      rw [final.mem_iff, mem_range]
  simpa using perm.length_eq

def numberTraversal (arena : List BuildNode) : Traversal arena Nat where
  node := id
  following index := (childOrder arena index).map fun entry => entry.2.1
  children index := by simpa using childList_childOrder arena index

def Numbered (size : Nat) (done : List Nat) (numbering : Numbering) : Prop :=
  numbering.order = done ∧ numbering.oldToNew.length = size ∧
    ∀ (final old : Nat), done[final]? = some old → numbering.oldToNew[old]? = some final

lemma numberVisit_meets (maxNodes : UInt32) (fresh : index ∉ done)
    (numbered : Numbered size done numbering) :
    Meets (numberVisit arena maxNodes numbering index) fun result =>
      result.2 = ((numberTraversal arena).following index).reverse ∧
      Numbered size (done ++ [index]) result.1 := by
  rcases numbering with ⟨order, oldToNew⟩
  rcases numbered with ⟨rfl, sized, renumbered⟩
  refine Meets.guard fun _ => ?_
  refine (meets_okOr _ _).bind ?_
  intro slot slotFound
  have slotBound := lt_of_getElem? slotFound
  refine (sortedChildren_meets arena index maxNodes).bind ?_
  rintro _ rfl
  refine ⟨rfl, rfl, by simpa using sized, ?_⟩
  intro final old hit
  by_cases last : final = order.length
  · subst last
    rw [getElem?_concat_length] at hit
    cases hit
    exact getElem?_set_self slotBound
  have inside : final < order.length := by
    have bound := lt_of_getElem? hit
    simp only [length_append, length_singleton] at bound
    omega
  rw [getElem?_append_left inside] at hit
  have apart : index ≠ old := by
    rintro rfl
    exact fresh (mem_of_getElem? hit)
  rw [getElem?_set_ne apart]
  exact renumbered final old hit

lemma number_meets (keys : ArenaKeys arena key) (maxNodes : UInt32) :
    Meets (number arena maxNodes) (FinalOrder arena) := by
  let traversal := numberTraversal arena
  have names : ∀ list : List Nat, list.map traversal.node = list := map_id
  have run : Meets (number arena maxNodes) (Numbered arena.length (traversal.entries keys 0)) := by
    refine traversal.drain_meets keys (Numbered arena.length) rfl ?_ ⟨rfl, by simp, by simp⟩
    intro done index numbering _ fresh numbered
    rw [names] at fresh
    exact numberVisit_meets maxNodes fresh numbered
  refine run.mono ?_
  rintro numbering ⟨order, sized, renumbered⟩
  refine ⟨?_, ?_, ?_, fun hit => renumbered _ _ (order ▸ hit), sized⟩
  · rw [order, ← names (traversal.entries keys 0)]
    exact traversal.nodup keys 0
  · intro index
    rw [order, ← names (traversal.entries keys 0)]
    exact traversal.mem_iff keys 0 rfl index
  · rw [order, Traversal.entries, unroll_eq]
    rfl

/-! ## Up links -/

def Owns (arena : List BuildNode) (index : Nat) : Prop :=
  ∃ node, arena[index]? = some node ∧ node.cands ≠ []

/-- An `up` value as an optional index. -/
def linkOf (up : Nat) : Option Nat := if up = sentinel then none else some up

@[simp] lemma linkOf_sentinel : linkOf sentinel = none := rfl

lemma linkOf_of_lt (valid : index < sentinel) : linkOf index = some index :=
  if_neg valid.ne

def upTraversal (arena : List BuildNode) : Traversal arena (Nat × Nat) where
  node := Prod.fst
  following entry :=
    match arena[entry.1]? with
    | none => []
    | some node => (node.childIds.map fun child =>
      (child, if node.cands.isEmpty then entry.2 else entry.1)).reverse
  children entry := by
    cases hit : arena[entry.1]? with
    | none => simpa using ChildList.of_absent hit
    | some node => simpa [Function.comp_def] using (ChildList.childIds hit).reverse

section UpLinks

lemma nearestOwner_of_mem (keys : ArenaKeys arena key) :
    ∀ entry ∈ (upTraversal arena).entries keys (0, sentinel),
      keys.tree.NearestOwner (Owns arena) entry.1 (linkOf entry.2) := by
  refine forall_mem_unroll
    (fun entry : Nat × Nat =>
      keys.tree.NearestOwner (Owns arena) entry.1 (linkOf entry.2)) ?_ _
    (keys.tree.nearestOwner_root (Owns arena))
  rintro ⟨index, owner⟩ nearest ⟨child, nextOwner⟩ follows
  rcases (upTraversal arena).edge_of_mem follows with ⟨byte, edge⟩
  change arenaChild arena index byte = some child at edge
  cases hit : arena[index]? with
  | none => simp [upTraversal, hit] at follows
  | some node =>
    have valid : index < arena.length := lt_of_getElem? hit
    have step : nextOwner = if node.cands.isEmpty then owner else index := by
      simp only [upTraversal, hit, mem_reverse, mem_map, Prod.mk.injEq] at follows
      rcases follows with ⟨_, _, _, equal⟩
      exact equal.symm
    classical
    have handed := keys.tree.nearestOwner_child (Owns arena) valid edge nearest
    have owns : Owns arena index ↔ node.cands.isEmpty = false := by
      simp [Owns, hit]
    subst step
    cases empty : node.cands.isEmpty with
    | true => simpa [owns, empty] using handed
    | false =>
      simpa [owns, empty, linkOf_of_lt (valid.trans_le keys.fits)] using handed

def UpRecorded (done : List (Nat × Nat)) (up : List Nat) : Prop :=
  ∀ entry ∈ done, up[entry.1]? = some entry.2

lemma nextOwner_meets (node) (index owner : Nat) (maxNodes : UInt32) :
    Meets (nextOwner node index owner maxNodes) fun next =>
      next = if node.cands.isEmpty then owner else index := by
  unfold nextOwner
  cases node.cands.isEmpty with
  | true => rfl
  | false => exact Meets.guard fun _ => rfl

lemma upVisit_meets (maxNodes : UInt32) (fresh : entry.1 ∉ done.map Prod.fst)
    (recorded : UpRecorded done up) :
    Meets (upVisit arena maxNodes up entry) fun result =>
      result.2 = ((upTraversal arena).following entry).reverse ∧
      UpRecorded (done ++ [entry]) result.1 := by
  rcases entry with ⟨index, owner⟩
  refine (meets_okOr _ _).bind ?_
  intro slot slotFound
  have slotBound := lt_of_getElem? slotFound
  refine (nodeRef_meets arena index maxNodes).bind ?_
  intro node hit
  refine (nextOwner_meets node index owner maxNodes).bind ?_
  rintro _ rfl
  refine ⟨by simp [upTraversal, hit], ?_⟩
  intro entry mem
  rcases mem_append.mp mem with earlier | here
  · have apart : index ≠ entry.1 := by
      rintro rfl
      exact fresh (mem_map.mpr ⟨entry, earlier, rfl⟩)
    rw [getElem?_set_ne apart]
    exact recorded entry earlier
  · rw [mem_singleton.mp here]
    exact getElem?_set_self slotBound

lemma visit_meets (keys : ArenaKeys arena key) (maxNodes : UInt32) :
    Meets (visit arena maxNodes) fun up => ∀ index, index < arena.length →
      ∃ owner, up[index]? = some owner ∧
        keys.tree.NearestOwner (Owns arena) index (linkOf owner) := by
  have run : Meets (visit arena maxNodes)
      (UpRecorded ((upTraversal arena).entries keys (0, sentinel))) := by
    refine (upTraversal arena).drain_meets keys UpRecorded rfl ?_ (by simp [UpRecorded])
    intro done entry up _ fresh recorded
    exact upVisit_meets maxNodes fresh recorded
  refine run.mono ?_
  intro up recorded index valid
  have met := ((upTraversal arena).mem_iff keys (0, sentinel) rfl index).mpr valid
  rcases mem_map.mp met with ⟨entry, mem, rfl⟩
  exact ⟨entry.2, recorded entry mem, nearestOwner_of_mem keys entry mem⟩

end UpLinks

/-! ## Subtree sizes -/

section Sizes

/-- What a visit of `sizes` leads to. A node is entered, its children are
visited, and it is met a second time. -/
def sizesFollowing (arena : List BuildNode) : Nat × Bool → List (Nat × Bool)
  | (_, true) => []
  | (index, false) =>
    match arena[index]? with
    | none => []
    | some node => ((index, true) :: node.childIds.map fun child => (child, false)).reverse

def sizesRank (key : Nat → List UInt8) : Nat × Bool → Nat
  | (index, true) => 2 * height key index
  | (index, false) => 2 * height key index + 1

lemma sizesFollowing_falls (keys : ArenaKeys arena key) :
    ∀ entry, ∀ later ∈ sizesFollowing arena entry, sizesRank key later < sizesRank key entry := by
  rintro ⟨index, expanded⟩ later follows
  cases expanded with
  | true => simp [sizesFollowing] at follows
  | false =>
    cases hit : arena[index]? with
    | none => simp [sizesFollowing, hit] at follows
    | some node =>
      simp only [sizesFollowing, hit, mem_reverse, mem_cons, mem_map] at follows
      rcases follows with rfl | ⟨child, mem, rfl⟩
      · simp [sizesRank]
      · rcases (ChildList.childIds hit).mem_iff.mp mem with ⟨byte, edge⟩
        have lower := height_lt_of_child keys edge
        simp only [sizesRank]
        omega

lemma length_sizes_unroll (keys : ArenaKeys arena key) (index owner : Nat) :
    (unroll (sizesFollowing arena) (sizesRank key) (sizesFollowing_falls keys)
      (index, false)).length ≤ 2 * ((upTraversal arena).entries keys (index, owner)).length := by
  rw [unroll_eq, Traversal.entries, unroll_eq]
  cases hit : arena[index]? with
  | none =>
    simp [sizesFollowing, upTraversal, hit]
  | some node =>
    have second : unroll (sizesFollowing arena) (sizesRank key)
        (sizesFollowing_falls keys) (index, true) = [(index, true)] := by
      rw [unroll_eq]
      rfl
    have children : ∀ child ∈ node.childIds,
        (unroll (sizesFollowing arena) (sizesRank key) (sizesFollowing_falls keys)
          (child, false)).length ≤ 2 * ((upTraversal arena).entries keys
            (child, if node.cands.isEmpty then owner else index)).length := by
      intro child mem
      rcases (ChildList.childIds hit).mem_iff.mp mem with ⟨byte, edge⟩
      have lower := height_lt_of_child keys edge
      exact length_sizes_unroll keys child _
    have sums := sum_le_sum children
    rw [sum_map_mul_left] at sums
    simp only [sizesFollowing, upTraversal, hit, reverse_cons, flatMap_append,
      flatMap_cons, flatMap_nil, second, length_cons, length_append,
      length_flatMap, map_reverse, sum_reverse, map_map,
      Function.comp_def, length_nil]
    simp only [Traversal.entries, upTraversal] at sums
    omega
termination_by height key index

lemma sizesVisit_meets (entry : Nat × Bool) (maxNodes : UInt32)
    (kept : state.map uncounted = arena.map uncounted) :
    Meets (sizesVisit maxNodes state entry) fun result =>
      result.2 = (sizesFollowing arena entry).reverse ∧
      result.1.map uncounted = arena.map uncounted := by
  rcases entry with ⟨index, expanded⟩
  cases expanded with
  | true =>
    refine (nodeRef_meets state index maxNodes).bind ?_
    intro node _
    have total : Meets (node.childIds.foldlM (fun total child => do
        let childSubtree := (← nodeRef state child maxNodes).subtree
        pure (saturatingAdd32 total childSubtree)) 1) fun _ => True := by
      refine meets_foldlM (fun _ _ => True) trivial ?_
      intro _ child _ total _ _
      exact (nodeRef_meets state child maxNodes).bind fun _ _ => trivial
    refine total.bind ?_
    intro total _
    refine (nodeMut_meets state index maxNodes _).bind ?_
    rintro after ⟨node, hit, rfl⟩
    exact ⟨rfl, Eq.trans (map_set_of_eq { node with subtree := total } hit rfl) kept⟩
  | false =>
    refine (nodeRef_meets state index maxNodes).bind ?_
    intro node hit
    rcases exists_of_map_eq kept.symm hit with ⟨original, originalFound, same⟩
    have children : node.childIds = original.childIds := by
      have equal := congrArg childIds same
      exact equal.symm
    refine ⟨?_, kept⟩
    simp only [sizesFollowing, originalFound, reverse_reverse, children]

lemma sizes_meets (keys : ArenaKeys arena key) (maxNodes : UInt32) :
    Meets (sizes arena maxNodes) fun after => after.map uncounted = arena.map uncounted := by
  have enough := length_sizes_unroll keys 0 sentinel
  have visited := (upTraversal arena).length_le keys (0, sentinel) rfl
  refine drain_meets (sizesFollowing_falls keys)
    (fun _ state => state.map uncounted = arena.map uncounted) ?_ (2 * arena.length)
      [(0, false)] [] arena rfl
    (by simp only [flatMap_cons, flatMap_nil, append_nil]; omega) rfl
  intro _ entry _ state _ kept
  exact sizesVisit_meets entry maxNodes kept

end Sizes

end IronTraffic.Router
