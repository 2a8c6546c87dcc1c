import IronTraffic.Foundation.PrefixTree
import IronTraffic.Router.PathTrie

/-! # The intermediate arena is a prefix tree

`insert` is verified against the full key of every node. The keys are not
stored anywhere: they are the ghost function of `ArenaKeys`, which insertion
only ever extends to the nodes it pushes. Splitting an edge changes the label of
the node below it and leaves its full key alone.
-/

namespace IronTraffic.Router

open Function

open List

open Fallible

def arenaChild (arena : List BuildNode) (parent : Nat) (byte : UInt8) : Option Nat :=
  arena[parent]?.bind fun node => node.children[byte]?

/-- `key` gives the full key of every node of the arena. -/
structure ArenaKeys (arena : List BuildNode) (key : Nat → List UInt8) : Prop where
  nonempty : 0 < arena.length
  key_root : key 0 = []
  edge : ∀ {parent byte below}, arenaChild arena parent byte = some below →
    ∃ child, arena[below]? = some child ∧ key below = key parent ++ child.label ∧
      child.label.head? = some byte
  has_parent : ∀ {below}, below ≠ 0 → below < arena.length →
    ∃ parent byte, arenaChild arena parent byte = some below
  injective : ∀ {left right}, left < arena.length → right < arena.length →
    key left = key right → left = right
  keyLen : ∀ {index node}, arena[index]? = some node → node.keyLen = (key index).length
  bounded : ∀ {index}, index < arena.length → (key index).length ≤ maxPathBytes
  fits : arena.length ≤ sentinel

namespace ArenaKeys

variable {arena : List BuildNode} {key : Nat → List UInt8}

lemma lt_of_child (keys : ArenaKeys arena key)
    (edge : arenaChild arena parent byte = some below) : below < arena.length := by
  rcases keys.edge edge with ⟨child, hit, _⟩
  exact lt_of_getElem? hit

lemma parent_lt_of_child (edge : arenaChild arena parent byte = some below) :
    parent < arena.length := by
  rcases Option.bind_eq_some_iff.mp edge with ⟨node, hit, _⟩
  exact lt_of_getElem? hit

def tree (keys : ArenaKeys arena key) : PrefixTree Nat UInt8 where
  Valid index := index < arena.length
  key := key
  child := arenaChild arena
  root := 0
  root_valid := keys.nonempty
  key_root := keys.key_root
  child_valid _ edge := keys.lt_of_child edge
  key_child _ edge := by
    rcases keys.edge edge with ⟨child, _, keyBelow, labelHead⟩
    rcases head?_eq_some_iff.mp labelHead with ⟨rest, label⟩
    rw [keyBelow, label, prefix_append_right_inj]
    exact ⟨rest, rfl⟩
  key_injective := keys.injective
  has_parent valid notRoot := by
    rcases keys.has_parent notRoot valid with ⟨parent, byte, edge⟩
    exact ⟨parent, byte, parent_lt_of_child edge, edge⟩

lemma length_lt_of_child (keys : ArenaKeys arena key)
    (edge : arenaChild arena parent byte = some below) : (key parent).length < (key below).length :=
  keys.tree.length_lt_of_child (parent_lt_of_child edge) edge

lemma ne_of_child (keys : ArenaKeys arena key)
    (edge : arenaChild arena parent byte = some below) : below ≠ parent := by
  rintro rfl
  exact lt_irrefl _ (keys.length_lt_of_child edge)

lemma prefix_of_child (keys : ArenaKeys arena key)
    (edge : arenaChild arena parent byte = some below) : key parent <+: key below :=
  keys.tree.prefix_of_child (parent_lt_of_child edge) edge

end ArenaKeys

/-- The keys of `before` are still the keys of the same nodes in `after`. -/
structure Grows (before : List BuildNode) (beforeKey : Nat → List UInt8)
    (after : List BuildNode) (afterKey : Nat → List UInt8) : Prop where
  length_le : before.length ≤ after.length
  same_key : ∀ {index}, index < before.length → afterKey index = beforeKey index

lemma Grows.refl (arena key) : Grows arena key arena key := ⟨le_rfl, fun _ => rfl⟩

lemma Grows.trans (left : Grows first firstKey second secondKey)
    (right : Grows second secondKey third thirdKey) : Grows first firstKey third thirdKey :=
  ⟨left.length_le.trans right.length_le, fun valid =>
    (right.same_key (valid.trans_le left.length_le)).trans (left.same_key valid)⟩

def NoCands (arena : List BuildNode) : Prop :=
  ∀ (index : Nat) (node : BuildNode), arena[index]? = some node → node.cands = []

/-! ## Common prefixes -/

@[simp] lemma commonPrefixLen_nil_left (b) : commonPrefixLen [] b = 0 := rfl

@[simp] lemma commonPrefixLen_nil_right (a) : commonPrefixLen a [] = 0 := by
  simp [commonPrefixLen]

lemma commonPrefixLen_cons (x y : UInt8) (a b) :
    commonPrefixLen (x :: a) (y :: b) = if x = y then commonPrefixLen a b + 1 else 0 := by
  by_cases equal : x = y <;> simp [commonPrefixLen, equal]

lemma commonPrefixLen_spec (a b) :
    commonPrefixLen a b ≤ a.length ∧ a.take (commonPrefixLen a b) <+: b ∧
      (commonPrefixLen a b < a.length → a[commonPrefixLen a b]? ≠ b[commonPrefixLen a b]?) := by
  induction a generalizing b with
  | nil => simp
  | cons x a induction =>
    cases b with
    | nil => simp
    | cons y b =>
      rw [commonPrefixLen_cons]
      by_cases equal : x = y
      · subst equal
        rcases induction b with ⟨bound, agrees, parts⟩
        simp only [↓reduceIte, length_cons, Nat.add_le_add_iff_right, bound,
          take_succ_cons, cons_prefix_cons, agrees, Nat.add_lt_add_iff_right,
          getElem?_cons_succ, true_and]
        exact parts
      · simp [equal]

lemma commonPrefixLen_pos (left : a.head? = some byte) (right : b.head? = some byte) :
    0 < commonPrefixLen a b := by
  rcases head?_eq_some_iff.mp left with ⟨restLeft, rfl⟩
  rcases head?_eq_some_iff.mp right with ⟨restRight, rfl⟩
  simp [commonPrefixLen_cons]

/-! ## Arena accesses -/

lemma nodeRef_meets (arena) (index : Nat) (maxNodes : UInt32) :
    Meets (nodeRef arena index maxNodes) fun node => arena[index]? = some node :=
  meets_okOr _ _

lemma nodeMut_meets (arena) (index : Nat) (maxNodes : UInt32) (update) :
    Meets (nodeMut arena index maxNodes update) fun after =>
      ∃ node, arena[index]? = some node ∧ after = arena.set index (update node) :=
  (nodeRef_meets arena index maxNodes).bind fun node hit => ⟨node, hit, rfl⟩

lemma pushNode_meets (arena node) (maxNodes : UInt32) :
    Meets (pushNode arena node maxNodes) fun result =>
      result = (arena ++ [node], arena.length) ∧ arena.length < sentinel := by
  refine Meets.guard fun fits => ?_
  have bound := fits.1
  simp only [length_append, length_singleton] at bound
  simp only [meets_pure, length_append, length_singleton, Nat.add_sub_cancel, true_and, sentinel]
  omega

lemma keyLenU32_meets (n : Nat) : Meets (keyLenU32 n) fun value => value = n :=
  Meets.guard fun _ => rfl

/-! ## Splicing a node below a parent

Attaching a leaf and splitting an edge both push one node and make it the
child of `parent` at `byte`. After a split the previous child there hangs below
the new node and has lost the new node's label from its own. -/

/-- The arena after `fresh` was pushed and entered below `parent`. -/
private def withFresh (arena : List BuildNode) (parent : Nat) (parentNode fresh : BuildNode)
    (byte : UInt8) : List BuildNode :=
  (arena ++ [fresh]).set parent
    { parentNode with children := parentNode.children.insert byte arena.length }

section WithFresh

variable {arena : List BuildNode} {parent : Nat} {parentNode : BuildNode}

private lemma withFresh_length (fresh) (byte : UInt8) :
    (withFresh arena parent parentNode fresh byte).length = arena.length + 1 := by
  simp [withFresh]

section

variable (hit : arena[parent]? = some parentNode)

include hit

private lemma withFresh_getElem? (fresh) (byte : UInt8) (index : Nat) :
    (withFresh arena parent parentNode fresh byte)[index]? = if index = parent then
        some { parentNode with children := parentNode.children.insert byte arena.length }
      else if index = arena.length then some fresh else arena[index]? := by
  have bound := lt_of_getElem? hit
  unfold withFresh
  by_cases atParent : index = parent
  · subst atParent
    rw [getElem?_set_self (by simp; omega)]
    simp
  rw [getElem?_set_ne (fun equal => atParent equal.symm)]
  by_cases atFresh : index = arena.length
  · subst atFresh
    simp [atParent]
  · simp only [atParent, atFresh, ↓reduceIte]
    by_cases inside : index < arena.length
    · rw [getElem?_append_left inside]
    · rw [getElem?_eq_none (by simp; omega), getElem?_eq_none (by omega)]

private lemma withFresh_at_fresh (fresh) (byte : UInt8) :
    (withFresh arena parent parentNode fresh byte)[arena.length]? = some fresh := by
  have bound := lt_of_getElem? hit
  rw [withFresh_getElem? hit]
  simp [bound.ne']

private lemma withFresh_old (fresh) (byte : UInt8) {index : Nat} (old : arena[index]? = some node) :
    ∃ now, (withFresh arena parent parentNode fresh byte)[index]? = some now ∧
      now.label = node.label ∧ now.keyLen = node.keyLen ∧ now.cands = node.cands := by
  have bound := lt_of_getElem? old
  rw [withFresh_getElem? hit]
  by_cases atParent : index = parent
  · subst atParent
    cases Option.some.inj (hit.symm.trans old)
    exact ⟨_, if_pos rfl, rfl, rfl, rfl⟩
  · simp only [atParent, bound.ne, ↓reduceIte]
    exact ⟨node, old, rfl, rfl, rfl⟩

private lemma withFresh_child (fresh) (byte : UInt8) (index : Nat) (symbol : UInt8) :
    arenaChild (withFresh arena parent parentNode fresh byte) index symbol = if index = parent ∧
      symbol = byte then some arena.length else if index = arena.length then
      fresh.children[symbol]? else arenaChild arena index symbol := by
  have bound := lt_of_getElem? hit
  unfold arenaChild
  rw [withFresh_getElem? hit]
  by_cases atParent : index = parent
  · subst atParent
    by_cases same : symbol = byte
    · subst same
      simp
    · have apart : compare byte symbol ≠ .eq := by
        simpa using fun equal => same equal.symm
      simp [hit, same, Std.TreeMap.getElem?_insert, apart, bound.ne]
  · by_cases atFresh : index = arena.length
    · subst atFresh
      simp [atParent]
    · simp [atParent, atFresh]

end

end WithFresh

/-- What splicing `fresh` in below `parent` at `byte` does to the arena. -/
private structure Spliced (arena after : List BuildNode) (parent : Nat) (byte : UInt8)
    (fresh : BuildNode) : Prop where
  length : after.length = arena.length + 1
  parent_lt : parent < arena.length
  at_fresh : after[arena.length]? = some fresh
  child : ∀ index symbol, arenaChild after index symbol =
    if index = parent ∧ symbol = byte then some arena.length
    else if index = arena.length then fresh.children[symbol]?
    else arenaChild arena index symbol
  old : ∀ {index node}, arena[index]? = some node → ∃ now, after[index]? = some now ∧
    now.keyLen = node.keyLen ∧ now.cands = node.cands ∧
    (arenaChild arena parent byte ≠ some index → now.label = node.label) ∧
    (arenaChild arena parent byte = some index →
      ∃ rest, node.label = fresh.label ++ now.label ∧ now.label.head? = some rest ∧
        fresh.children[rest]? = some index)
  moved : ∀ {symbol below}, fresh.children[symbol]? = some below →
    arenaChild arena parent byte = some below ∧
    ∃ now, after[below]? = some now ∧ now.label.head? = some symbol
  head : fresh.label.head? = some byte

namespace Spliced

variable {arena after : List BuildNode} {key : Nat → List UInt8} {parent : Nat}
  {byte : UInt8} {fresh : BuildNode}

section

variable (splice : Spliced arena after parent byte fresh)

include splice

/-- The key of the spliced node is not the key of any earlier node: such a node
would lie inside the edge that starts with `byte`. -/
private lemma key_fresh (keys : ArenaKeys arena key) (valid : index < arena.length) :
    key index ≠ key parent ++ fresh.label := by
  intro equal
  rcases head?_eq_some_iff.mp splice.head with ⟨rest, label⟩
  have next : key parent ++ [byte] <+: key index := by
    rw [equal, label, prefix_append_right_inj]
    exact ⟨rest, rfl⟩
  rcases keys.tree.child_of_next_symbol splice.parent_lt valid next with
    ⟨below, edge, belowPrefix⟩
  rcases keys.edge edge with ⟨child, childFound, keyBelow, _⟩
  rcases splice.old childFound with ⟨now, _, _, _, _, movedLabel⟩
  rcases movedLabel edge with ⟨symbol, labelEq, nowHead, _⟩
  have bound : (key below).length ≤ (key index).length := belowPrefix.length_le
  have nonempty : 0 < now.label.length := by
    rcases head?_eq_some_iff.mp nowHead with ⟨tail, nowLabel⟩
    simp [nowLabel]
  rw [equal, keyBelow, labelEq] at bound
  simp only [length_append] at bound
  omega

private lemma keys (before : ArenaKeys arena key) (room : arena.length < sentinel)
    (freshKeyLen : fresh.keyLen = (key parent ++ fresh.label).length)
    (bounded : (key parent ++ fresh.label).length ≤ maxPathBytes) :
    ArenaKeys after (update key arena.length (key parent ++ fresh.label)) := by
  have oldKey : ∀ {index}, index < arena.length →
      update key arena.length (key parent ++ fresh.label) index = key index :=
    fun valid => update_of_ne valid.ne _ _
  refine ⟨by simp [splice.length], ?_, ?_, ?_, ?_, ?_, ?_, by rw [splice.length]; omega⟩
  · rw [oldKey before.nonempty, before.key_root]
  · intro above symbol below edge
    rw [splice.child] at edge
    split at edge
    case isTrue here =>
      rcases here with ⟨rfl, rfl⟩
      cases edge
      exact ⟨fresh, splice.at_fresh, by rw [update_self, oldKey splice.parent_lt], splice.head⟩
    case isFalse elsewhere =>
      split at edge
      case isTrue atFresh =>
        subst atFresh
        rcases splice.moved edge with ⟨oldEdge, now, nowFound, nowHead⟩
        rcases before.edge oldEdge with ⟨child, childFound, keyBelow, _⟩
        rcases splice.old childFound with ⟨same, sameFound, _, _, _, movedLabel⟩
        rcases movedLabel oldEdge with ⟨_, labelEq, _⟩
        cases Option.some.inj (nowFound.symm.trans sameFound)
        exact ⟨now, nowFound, by
          rw [oldKey (before.lt_of_child oldEdge), update_self, keyBelow,
            labelEq, append_assoc], nowHead⟩
      case isFalse =>
        rcases before.edge edge with ⟨child, childFound, keyBelow, childHead⟩
        rcases splice.old childFound with ⟨now, nowFound, _, _, sameLabel, _⟩
        -- a node has one parent and one byte, so this edge was not split
        have notMoved : arenaChild arena parent byte ≠ some below := by
          intro moved
          rcases before.edge moved with ⟨again, againFound, keyAgain, againHead⟩
          cases Option.some.inj (childFound.symm.trans againFound)
          have sameParent := before.injective (ArenaKeys.parent_lt_of_child edge)
            splice.parent_lt (append_cancel_right (keyBelow.symm.trans keyAgain))
          exact elsewhere ⟨sameParent, Option.some.inj (childHead.symm.trans againHead)⟩
        rw [← sameLabel notMoved] at keyBelow childHead
        exact ⟨now, nowFound, by
          rw [oldKey (before.lt_of_child edge),
            oldKey (ArenaKeys.parent_lt_of_child edge), keyBelow], childHead⟩
  · intro below notRoot valid
    rw [splice.length] at valid
    by_cases atFresh : below = arena.length
    · subst atFresh
      exact ⟨parent, byte, by rw [splice.child]; simp⟩
    rcases before.has_parent notRoot (by omega) with ⟨above, symbol, edge⟩
    have aboveBound := ArenaKeys.parent_lt_of_child edge
    by_cases moved : above = parent ∧ symbol = byte
    · rcases moved with ⟨rfl, rfl⟩
      rcases before.edge edge with ⟨child, childFound, _⟩
      rcases splice.old childFound with ⟨now, _, _, _, _, movedLabel⟩
      rcases movedLabel edge with ⟨first, _, _, entry⟩
      exact ⟨arena.length, first, by
        rw [splice.child, if_neg (by omega), if_pos rfl, entry]⟩
    · exact ⟨above, symbol, by
        rw [splice.child, if_neg moved, if_neg aboveBound.ne, edge]⟩
  · intro left right leftValid rightValid equal
    rw [splice.length] at leftValid rightValid
    by_cases leftFresh : left = arena.length
    · subst leftFresh
      by_cases rightFresh : right = arena.length
      · exact rightFresh.symm
      · rw [update_self, oldKey (by omega)] at equal
        exact absurd equal.symm (splice.key_fresh before (by omega))
    · rw [oldKey (by omega)] at equal
      by_cases rightFresh : right = arena.length
      · subst rightFresh
        rw [update_self] at equal
        exact absurd equal (splice.key_fresh before (by omega))
      · rw [oldKey (by omega)] at equal
        exact before.injective (by omega) (by omega) equal
  · intro index node nodeFound
    have valid := lt_of_getElem? nodeFound
    rw [splice.length] at valid
    by_cases atFresh : index = arena.length
    · subst atFresh
      cases Option.some.inj (nodeFound.symm.trans splice.at_fresh)
      rw [update_self, freshKeyLen]
    · have old := getElem?_eq_getElem (show index < arena.length by omega)
      rcases splice.old old with ⟨now, nowFound, sameLen, _⟩
      cases Option.some.inj (nodeFound.symm.trans nowFound)
      rw [sameLen, before.keyLen old, oldKey (by omega)]
  · intro index valid
    rw [splice.length] at valid
    by_cases atFresh : index = arena.length
    · subst atFresh
      rw [update_self]
      exact bounded
    · rw [oldKey (by omega)]
      exact before.bounded (by omega)

private lemma noCands (none : NoCands arena) (freshCands : fresh.cands = []) : NoCands after := by
  intro index node nodeFound
  have valid := lt_of_getElem? nodeFound
  rw [splice.length] at valid
  by_cases atFresh : index = arena.length
  · subst atFresh
    cases Option.some.inj (nodeFound.symm.trans splice.at_fresh)
    exact freshCands
  · have old := getElem?_eq_getElem (show index < arena.length by omega)
    rcases splice.old old with ⟨now, nowFound, _, sameCands, _⟩
    cases Option.some.inj (nodeFound.symm.trans nowFound)
    rw [sameCands]
    exact none index _ old

private lemma grows : Grows arena key after (update key arena.length (key parent ++ fresh.label)) :=
  ⟨by simp [splice.length], fun valid => update_of_ne valid.ne _ _⟩

end

end Spliced

/-! ## Insertion -/

/-- What inserting `word` guarantees about the arena and the node it returns. -/
structure Inserted (arena : List BuildNode) (key : Nat → List UInt8) (word : List UInt8)
    (result : List BuildNode × Nat) (after : Nat → List UInt8) : Prop where
  keys : ArenaKeys result.1 after
  grows : Grows arena key result.1 after
  noCands : NoCands result.1
  valid : result.2 < result.1.length
  key_eq : after result.2 = word

variable {parentNode childNode : BuildNode} {child : Nat}

section Insert

variable {arena : List BuildNode} {key : Nat → List UInt8} {word : List UInt8}
  {parent pos : Nat} {byte : UInt8}

lemma head?_drop_of_getElem? (atByte : word[pos]? = some byte) :
    (word.drop pos).head? = some byte := by
  rw [head?_drop, atByte]

private lemma withFresh_spliced_leaf (leaf)
    (hit : arena[parent]? = some parentNode) (absent : arenaChild arena parent byte = none)
    (leafChildren : leaf.children = ∅) (leafHead : leaf.label.head? = some byte) :
    Spliced arena (withFresh arena parent parentNode leaf byte) parent byte leaf where
  length := withFresh_length leaf byte
  parent_lt := lt_of_getElem? hit
  at_fresh := withFresh_at_fresh hit leaf byte
  child := withFresh_child hit leaf byte
  old oldFound := by
    rcases withFresh_old hit leaf byte oldFound with ⟨now, nowFound, label, len, cands⟩
    exact ⟨now, nowFound, len, cands, fun _ => label, fun moved => by
      rw [absent] at moved
      cases moved⟩
  moved entry := by simp [leafChildren] at entry
  head := leafHead

lemma attachLeaf_meets (keys : ArenaKeys arena key) (noCands : NoCands arena)
    (parentBound : parent < arena.length)
    (parentKey : key parent = word.take pos) (atByte : word[pos]? = some byte)
    (absent : arenaChild arena parent byte = none)
    (bounded : word.length ≤ maxPathBytes) (maxNodes : UInt32) :
    Meets (attachLeaf arena parent byte word pos maxNodes) fun result =>
      ∃ after, Inserted arena key word result after := by
  refine (keyLenU32_meets word.length).bind ?_
  rintro _ rfl
  refine (pushNode_meets arena _ maxNodes).bind ?_
  rintro _ ⟨rfl, room⟩
  refine (nodeMut_meets _ parent maxNodes _).bind ?_
  rintro _ ⟨parentNode, hit, rfl⟩
  rw [getElem?_append_left parentBound] at hit
  have splice := withFresh_spliced_leaf ⟨word.drop pos, ∅, [], word.length, 0⟩
    hit absent rfl (head?_drop_of_getElem? atByte)
  have wordEq : key parent ++ word.drop pos = word := by
    rw [parentKey, take_append_drop]
  exact ⟨_, splice.keys keys room (by rw [wordEq]) (by rw [wordEq]; exact bounded),
    splice.grows, splice.noCands noCands rfl, by simp, by
      rw [update_self, wordEq]⟩

private lemma withFresh_spliced_split (mid)
    (keys : ArenaKeys arena key) (hit : arena[parent]? = some parentNode)
    (childFound : arena[child]? = some childNode)
    (edge : arenaChild arena parent byte = some child) (midPrefix : mid.label <+: childNode.label)
    (midHead : mid.label.head? = some byte)
    (tail : childNode.label[mid.label.length]? = some tailFirst)
    (midChildren : mid.children = (∅ : Std.TreeMap UInt8 Nat).insert tailFirst child) :
    Spliced arena
      (withFresh
        (arena.set child { childNode with label := childNode.label.drop mid.label.length })
        parent parentNode mid byte) parent byte mid := by
  have apart := keys.ne_of_child edge
  have childBound := lt_of_getElem? childFound
  generalize based : arena.set child
    { childNode with label := childNode.label.drop mid.label.length } = base
  have baseLength : base.length = arena.length := by rw [← based, length_set]
  have atChild : base[child]? =
      some { childNode with label := childNode.label.drop mid.label.length } := by
    rw [← based, getElem?_set_self childBound]
  have elsewhere : ∀ {index}, index ≠ child → base[index]? = arena[index]? := by
    intro index apart
    rw [← based, getElem?_set_ne apart.symm]
  have baseFound : base[parent]? = some parentNode := by rw [elsewhere apart.symm, hit]
  have baseChild : ∀ index symbol,
      arenaChild base index symbol = arenaChild arena index symbol := by
    intro index symbol
    by_cases here : index = child
    · subst here
      simp [arenaChild, atChild, childFound]
    · simp [arenaChild, elsewhere here]
  have split : childNode.label = mid.label ++ childNode.label.drop mid.label.length :=
    prefix_iff_eq_append.mp midPrefix |>.symm
  have tailHead : (childNode.label.drop mid.label.length).head? = some tailFirst :=
    head?_drop_of_getElem? tail
  refine ⟨by rw [withFresh_length, baseLength], lt_of_getElem? hit,
    by rw [← baseLength, withFresh_at_fresh baseFound], ?_, ?_, ?_, midHead⟩
  · intro index symbol
    rw [withFresh_child baseFound, baseLength, baseChild]
  · intro index node oldFound
    by_cases here : index = child
    · subst here
      cases Option.some.inj (oldFound.symm.trans childFound)
      rcases withFresh_old baseFound mid byte atChild with
        ⟨now, nowFound, label, len, cands⟩
      refine ⟨now, nowFound, len, cands, fun unmoved => absurd edge unmoved, fun _ => ?_⟩
      refine ⟨tailFirst, by rw [label]; exact split, by rw [label]; exact tailHead, ?_⟩
      simp [midChildren]
    · rcases withFresh_old baseFound mid byte ((elsewhere here).trans oldFound) with
        ⟨now, nowFound, label, len, cands⟩
      exact ⟨now, nowFound, len, cands, fun _ => label, fun moved =>
        absurd (Option.some.inj (moved.symm.trans edge)) here⟩
  · intro symbol below entry
    rw [midChildren, Std.TreeMap.getElem?_insert] at entry
    split at entry
    case isTrue same =>
      cases entry
      have symbolEq : tailFirst = symbol := by simpa using same
      rcases withFresh_old baseFound mid byte atChild with ⟨now, nowFound, label, _⟩
      exact ⟨edge, now, nowFound, by rw [label, ← symbolEq]; exact tailHead⟩
    case isFalse => simp at entry

lemma splitEdge_meets (keys : ArenaKeys arena key) (noCands : NoCands arena)
    (edge : arenaChild arena parent byte = some child) (childFound : arena[child]? = some childNode)
    (positive : 0 < common) (inside : common < childNode.label.length) (maxNodes : UInt32) :
    Meets (splitEdge arena parent byte child common maxNodes) fun result =>
      ∃ after, Inserted arena key (key parent ++ childNode.label.take common) result after ∧
        ∀ symbol,
          childNode.label[common]? ≠ some symbol → arenaChild result.1 result.2 symbol = none := by
  refine (nodeRef_meets arena child maxNodes).bind ?_
  intro again againFound
  cases Option.some.inj (againFound.symm.trans childFound)
  refine (nodeRef_meets arena parent maxNodes).bind ?_
  intro parentNode hit
  refine (meets_okOr _ _).bind ?_
  intro tailFirst tail
  refine (nodeMut_meets arena child maxNodes _).bind ?_
  rintro _ ⟨again, againFound, rfl⟩
  cases Option.some.inj (againFound.symm.trans childFound)
  refine (keyLenU32_meets common).bind ?_
  intro commonU32 widened
  subst commonU32
  refine (keyLenU32_meets _).bind ?_
  rintro _ rfl
  refine (pushNode_meets _ _ maxNodes).bind ?_
  rintro _ ⟨rfl, room⟩
  rw [length_set] at room
  refine (nodeMut_meets _ parent maxNodes _).bind ?_
  rintro _ ⟨stillParent, stillFound, rfl⟩
  have parentBound := lt_of_getElem? hit
  have apart := keys.ne_of_child edge
  rw [getElem?_append_left (by simpa using parentBound),
    getElem?_set_ne apart, hit] at stillFound
  cases stillFound
  rcases keys.edge edge with ⟨again, againFound, keyChild, childHead⟩
  cases Option.some.inj (againFound.symm.trans childFound)
  have takeLength : (childNode.label.take common).length = common := by
    rw [length_take]
    omega
  have splice := withFresh_spliced_split
    ⟨childNode.label.take common, (∅ : Std.TreeMap UInt8 Nat).insert tailFirst child, [],
      parentNode.keyLen + common, 0⟩
    keys hit childFound edge ( take_prefix _ _)
    (by rw [head?_take, if_neg positive.ne', childHead])
    (by rw [takeLength, tail]) rfl
  have keyBound := keys.bounded (keys.lt_of_child edge)
  rw [keyChild, length_append] at keyBound
  simp only [takeLength] at splice
  refine ⟨_, ⟨splice.keys keys room ?_ ?_, splice.grows, splice.noCands noCands rfl, ?_, ?_⟩, ?_⟩
  · simp only [length_append, takeLength, keys.keyLen hit]
  · simp only [length_append, takeLength]
    omega
  · simp
  · simp [update_self]
  intro symbol apart
  have atMid := splice.child arena.length symbol
  rw [if_neg (by omega), if_pos rfl] at atMid
  simp only [withFresh, length_set] at atMid ⊢
  refine atMid.trans ?_
  rw [Std.TreeMap.getElem?_insert, if_neg]
  · simp
  · intro same
    exact apart (tail.trans (congrArg some (by simpa using same)))

/-- The loop of `insert`, from a node whose key is the consumed part of the
word. Every turn consumes a byte, which is what bounds the fuel. -/
lemma insertFrom_meets (maxNodes : UInt32) (bounded : word.length ≤ maxPathBytes)
    (keys : ArenaKeys arena key) (noCands : NoCands arena) :
    ∀ (fuel node pos : Nat), node < arena.length → key node = word.take pos →
      pos ≤ word.length → word.length - pos < fuel →
      Meets (insertFrom word maxNodes fuel arena node pos) fun result =>
        ∃ after, Inserted arena key word result after
  | 0, _, _, _, _, _, enough => absurd enough (Nat.not_lt_zero _)
  | fuel + 1, node, pos, valid, nodeKey, inside, enough => by
    rw [insertFrom]
    by_cases finished : pos = word.length
    · rw [if_pos finished]
      refine ⟨key, keys, .refl arena key, noCands, valid, ?_⟩
      rw [nodeKey, finished, take_length]
    rw [if_neg finished]
    have posBound : pos < word.length := by omega
    have atByte := getElem?_eq_getElem posBound
    rw [atByte]
    refine (nodeRef_meets arena node maxNodes).bind ?_
    intro parent hit
    have lookup : arenaChild arena node word[pos] = parent.children[word[pos]]? := by
      simp [arenaChild, hit]
    cases step : parent.children[word[pos]]? with
    | none =>
      rw [step] at lookup
      exact attachLeaf_meets keys noCands valid nodeKey atByte lookup bounded maxNodes
    | some child =>
      rw [step] at lookup
      refine (nodeRef_meets arena child maxNodes).bind ?_
      intro childNode childFound
      rcases keys.edge lookup with ⟨again, againFound, keyChild, childHead⟩
      cases Option.some.inj (againFound.symm.trans childFound)
      rcases commonPrefixLen_spec childNode.label (word.drop pos) with
        ⟨commonBound, agrees, parts⟩
      have positive := commonPrefixLen_pos childHead
        (head?_drop_of_getElem? atByte)
      generalize commonPrefixLen childNode.label (word.drop pos) = common at *
      have headLength : (childNode.label.take common).length = common := by
        rw [length_take]
        omega
      have consumed : key node ++ childNode.label.take common = word.take (pos + common) := by
        have taken := prefix_iff_eq_take.mp agrees
        rw [headLength] at taken
        rw [nodeKey, taken, take_add]
      have withinWord : pos + common ≤ word.length := by
        have bound := agrees.length_le
        rw [headLength, length_drop] at bound
        omega
      by_cases whole : common = childNode.label.length
      · simp only [whole, ↓reduceIte]
        rw [whole, take_length, ← keyChild] at consumed
        rw [whole] at withinWord positive
        exact insertFrom_meets maxNodes bounded keys noCands fuel child _
          (keys.lt_of_child lookup) consumed withinWord (by omega)
      · simp only [whole, ↓reduceIte]
        refine (splitEdge_meets keys noCands lookup childFound positive (by omega)
          maxNodes).bind ?_
        rintro ⟨split, mid⟩ ⟨after, inserted, midChild⟩
        rw [consumed] at inserted
        by_cases ends : pos + common = word.length
        · simp only [ends, ↓reduceIte]
          rw [ends, take_length] at inserted
          exact ⟨after, inserted⟩
        simp only [ends, ↓reduceIte]
        have nextByte := getElem?_eq_getElem
          (show pos + common < word.length by omega)
        rw [nextByte]
        have absent := midChild word[pos + common] (by
          have apart := parts (by omega)
          rwa [getElem?_drop, nextByte] at apart)
        refine (attachLeaf_meets inserted.keys inserted.noCands inserted.valid
          inserted.key_eq nextByte absent bounded maxNodes).mono ?_
        rintro result ⟨final, leaf⟩
        exact ⟨final, leaf.keys, inserted.grows.trans leaf.grows, leaf.noCands,
          leaf.valid, leaf.key_eq⟩

lemma insert_meets (maxNodes : UInt32) (bounded : word.length ≤ maxPathBytes)
    (keys : ArenaKeys arena key) (noCands : NoCands arena) :
    Meets (insert arena word maxNodes) fun result =>
      ∃ after, Inserted arena key word result after :=
  insertFrom_meets maxNodes bounded keys noCands (word.length + 1) 0 0 keys.nonempty
    (by rw [keys.key_root, take_zero]) (Nat.zero_le _) (by omega)

end Insert

end IronTraffic.Router
