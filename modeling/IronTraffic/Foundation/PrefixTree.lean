import Mathlib

/-! # Prefix trees

A tree whose nodes are identified by the words that lead to them. Nothing here
depends on how nodes are stored: a tree is given by the word of every node and
by the child each symbol selects. Compressed edges are allowed, so one step may
add several symbols to the word.
-/

namespace IronTraffic

open List

structure PrefixTree (Node : Type u) (Symbol : Type v) where
  Valid : Node → Prop
  key : Node → List Symbol
  child : Node → Symbol → Option Node
  root : Node
  root_valid : Valid root
  key_root : key root = []
  child_valid : Valid parent → child parent symbol = some below → Valid below
  key_child : Valid parent → child parent symbol = some below → key parent ++ [symbol] <+: key below
  key_injective : Valid left → Valid right → key left = key right → left = right
  has_parent : Valid below → below ≠ root →
    ∃ parent symbol, Valid parent ∧ child parent symbol = some below

namespace PrefixTree

variable {Node : Type u} {Symbol : Type v}

lemma symbol_eq_of_prefix (leftPrefix : word ++ [left] <+: long)
    (rightPrefix : word ++ [right] <+: long) : left = right := by
  have equal := (prefix_of_prefix_length_le leftPrefix rightPrefix
    (by simp)).eq_of_length (by simp)
  simpa using equal

variable (tree : PrefixTree Node Symbol)

lemma length_lt_of_child (valid : tree.Valid parent)
    (edge : tree.child parent symbol = some below) :
    (tree.key parent).length < (tree.key below).length := by
  have bound := (tree.key_child valid edge).length_le
  simp only [length_append, length_singleton] at bound
  omega

lemma prefix_of_child (valid : tree.Valid parent) (edge : tree.child parent symbol = some below) :
    tree.key parent <+: tree.key below :=
  (prefix_append _ _).trans (tree.key_child valid edge)

lemma eq_of_prefix_of_length_eq (leftValid : tree.Valid left) (rightValid : tree.Valid right)
    (extends_ : tree.key left <+: tree.key right)
    (lengths : (tree.key left).length = (tree.key right).length) : left = right :=
  tree.key_injective leftValid rightValid (extends_.eq_of_length lengths)

lemma child_toward (nodeValid : tree.Valid node) (targetValid : tree.Valid target)
    (extends_ : tree.key node <+: tree.key target)
    (shorter : (tree.key node).length < (tree.key target).length) :
    ∃ symbol below, tree.child node symbol = some below ∧ tree.key below <+: tree.key target := by
  have notRoot : target ≠ tree.root := by
    rintro rfl
    simp [tree.key_root] at shorter
  rcases tree.has_parent targetValid notRoot with ⟨parent, symbol, parentValid, edge⟩
  have parentPrefix := tree.prefix_of_child parentValid edge
  have parentShorter := tree.length_lt_of_child parentValid edge
  rcases Nat.lt_trichotomy (tree.key node).length (tree.key parent).length with
    nodeAbove | level | parentAbove
  · have nodePrefix : tree.key node <+: tree.key parent :=
      prefix_of_prefix_length_le extends_ parentPrefix nodeAbove.le
    rcases child_toward nodeValid parentValid nodePrefix nodeAbove with
      ⟨first, below, firstEdge, belowPrefix⟩
    exact ⟨first, below, firstEdge, belowPrefix.trans parentPrefix⟩
  · have nodePrefix : tree.key node <+: tree.key parent :=
      prefix_of_prefix_length_le extends_ parentPrefix level.le
    have same := tree.eq_of_prefix_of_length_eq nodeValid parentValid nodePrefix level
    subst same
    exact ⟨symbol, target, edge, prefix_rfl⟩
  · -- the parent of the target would have to branch strictly above `node`
    have abovePrefix : tree.key parent <+: tree.key node :=
      prefix_of_prefix_length_le parentPrefix extends_ parentAbove.le
    rcases child_toward parentValid nodeValid abovePrefix parentAbove with
      ⟨first, below, firstEdge, belowPrefix⟩
    have sameSymbol : first = symbol := symbol_eq_of_prefix
      ((tree.key_child parentValid firstEdge).trans (belowPrefix.trans extends_))
      (tree.key_child parentValid edge)
    subst sameSymbol
    have sameChild : below = target := Option.some.inj (firstEdge.symm.trans edge)
    subst sameChild
    have bound := belowPrefix.length_le
    omega
termination_by (tree.key target).length

lemma child_of_next_symbol (nodeValid : tree.Valid node) (targetValid : tree.Valid target)
    (next : tree.key node ++ [symbol] <+: tree.key target) :
    ∃ below, tree.child node symbol = some below ∧ tree.key below <+: tree.key target := by
  have bound := next.length_le
  simp only [length_append, length_singleton] at bound
  rcases tree.child_toward nodeValid targetValid ((prefix_append _ _).trans next)
    (by omega) with ⟨first, below, edge, belowPrefix⟩
  have same := symbol_eq_of_prefix ((tree.key_child nodeValid edge).trans belowPrefix) next
  subst same
  exact ⟨below, edge, belowPrefix⟩

/-- Where no child's word continues along `word`, the node is the deepest one
whose word is a prefix of it. -/
lemma prefix_of_stuck (nodeValid : tree.Valid node) (nodePrefix : tree.key node <+: word)
    (stuck : ∀ symbol below, tree.child node symbol = some below → ¬tree.key below <+: word)
    (otherValid : tree.Valid other) (otherPrefix : tree.key other <+: word) :
    tree.key other <+: tree.key node := by
  rcases prefix_or_prefix_of_prefix nodePrefix otherPrefix with above | below
  · by_cases shorter : (tree.key node).length < (tree.key other).length
    · rcases tree.child_toward nodeValid otherValid above shorter with
        ⟨symbol, below, edge, belowPrefix⟩
      exact absurd (belowPrefix.trans otherPrefix) (stuck symbol below edge)
    · rw [above.eq_of_length (by have := above.length_le; omega)]
  · exact below

/-! ## Owners

Some nodes own something. `NearestOwner` says which owner, if any, is the
closest one strictly above a node. -/

variable (Owns : Node → Prop)

/-- `node` is an owner whose word is a strict prefix of `word`. -/
def OwnerAbove (word : List Symbol) (node : Node) : Prop :=
  tree.Valid node ∧ Owns node ∧ tree.key node <+: word ∧ (tree.key node).length < word.length

def NearestOwner (node : Node) : Option Node → Prop
  | none => ∀ other, ¬tree.OwnerAbove Owns (tree.key node) other
  | some owner => tree.OwnerAbove Owns (tree.key node) owner ∧
      ∀ other, tree.OwnerAbove Owns (tree.key node) other → tree.key other <+: tree.key owner

lemma nearestOwner_root : tree.NearestOwner Owns tree.root none := by
  intro other above
  have shorter := above.2.2.2
  simp [tree.key_root] at shorter

lemma ownerAbove_child (valid : tree.Valid parent) (edge : tree.child parent symbol = some below)
    (above : tree.OwnerAbove Owns (tree.key below) other) :
    other = parent ∨ tree.OwnerAbove Owns (tree.key parent) other := by
  rcases above with ⟨otherValid, owns, otherPrefix, shorter⟩
  have parentPrefix := tree.prefix_of_child valid edge
  by_cases level : (tree.key other).length < (tree.key parent).length
  · exact .inr ⟨otherValid, owns,
      prefix_of_prefix_length_le otherPrefix parentPrefix level.le, level⟩
  left
  have reversed : tree.key parent <+: tree.key other :=
    prefix_of_prefix_length_le parentPrefix otherPrefix (by omega)
  by_cases longer : (tree.key parent).length < (tree.key other).length
  · rcases tree.child_toward valid otherValid reversed longer with
      ⟨first, node, firstEdge, nodePrefix⟩
    have same : first = symbol := symbol_eq_of_prefix
      ((tree.key_child valid firstEdge).trans (nodePrefix.trans otherPrefix))
      (tree.key_child valid edge)
    subst same
    have sameNode : node = below := Option.some.inj (firstEdge.symm.trans edge)
    subst sameNode
    have bound := nodePrefix.length_le
    omega
  · exact (tree.eq_of_prefix_of_length_eq valid otherValid reversed (by omega)).symm

lemma ownerAbove_of_child (valid : tree.Valid parent) (edge : tree.child parent symbol = some below)
    (above : tree.OwnerAbove Owns (tree.key parent) other) :
    tree.OwnerAbove Owns (tree.key below) other :=
  ⟨above.1, above.2.1, above.2.2.1.trans (tree.prefix_of_child valid edge),
    above.2.2.2.trans (tree.length_lt_of_child valid edge)⟩

lemma nearestOwner_child [Decidable (Owns parent)] (valid : tree.Valid parent)
    (edge : tree.child parent symbol = some below) (nearest : tree.NearestOwner Owns parent owner) :
    tree.NearestOwner Owns below (if Owns parent then some parent else owner) := by
  by_cases owns : Owns parent
  · simp only [owns, ↓reduceIte]
    refine ⟨⟨valid, owns, tree.prefix_of_child valid edge, tree.length_lt_of_child valid edge⟩, ?_⟩
    intro other above
    rcases tree.ownerAbove_child Owns valid edge above with same | above
    · rw [same]
    · exact above.2.2.1
  · simp only [owns, ↓reduceIte]
    have notParent : ∀ other, tree.OwnerAbove Owns (tree.key below) other →
        tree.OwnerAbove Owns (tree.key parent) other := by
      intro other above
      rcases tree.ownerAbove_child Owns valid edge above with same | above
      · exact absurd (same ▸ above.2.1) owns
      · exact above
    cases owner with
    | none => exact fun other above => nearest other (notParent other above)
    | some owner =>
      exact ⟨tree.ownerAbove_of_child Owns valid edge nearest.1,
        fun other above => nearest.2 other (notParent other above)⟩

/-- The nodes met by following `up` until it answers `none`. -/
inductive UpChain (up : Node → Option Node) : Option Node → List Node → Prop
  | stop : UpChain up none []
  | next : UpChain up (up node) rest → UpChain up (some node) (node :: rest)

/-- When `up` is the nearest owner everywhere, following it from a node's
nearest owner meets exactly the owners strictly above the node, deepest first. -/
lemma upChain_complete {up : Node → Option Node}
    (nearest : ∀ node, tree.Valid node → tree.NearestOwner Owns node (up node))
    (valid : tree.Valid node) :
    ∃ chain, UpChain up (up node) chain ∧
      chain.Pairwise (fun deep shallow => (tree.key shallow).length < (tree.key deep).length) ∧
      ∀ other, other ∈ chain ↔ tree.OwnerAbove Owns (tree.key node) other := by
  have here := nearest node valid
  cases step : up node with
  | none =>
    rw [step] at here
    exact ⟨[], .stop, .nil, fun other => by simpa using here other⟩
  | some owner =>
    rw [step] at here
    rcases here with ⟨⟨ownerValid, owns, ownerPrefix, shorter⟩, closest⟩
    rcases upChain_complete nearest ownerValid with ⟨rest, chain, sorted, members⟩
    refine ⟨owner :: rest, .next chain, pairwise_cons.mpr ⟨?_, sorted⟩, ?_⟩
    · exact fun other mem => ((members other).mp mem).2.2.2
    intro other
    rw [mem_cons, members other]
    constructor
    · rintro (rfl | above)
      · exact ⟨ownerValid, owns, ownerPrefix, shorter⟩
      · exact ⟨above.1, above.2.1, above.2.2.1.trans ownerPrefix, above.2.2.2.trans shorter⟩
    · intro above
      have otherPrefix := closest other above
      by_cases level : (tree.key other).length < (tree.key owner).length
      · exact .inr ⟨above.1, above.2.1, otherPrefix, level⟩
      · exact .inl (tree.eq_of_prefix_of_length_eq above.1 ownerValid otherPrefix
          (by have := otherPrefix.length_le; omega))
termination_by (tree.key node).length

/-! ## Copies over other nodes -/

/-- How the nodes of another representation stand for the nodes of a tree. -/
structure Copy (New : Type w) where
  Valid : New → Prop
  old : New → Node
  child : New → Symbol → Option New
  root : New
  old_valid : Valid node → tree.Valid (old node)
  old_injective : Valid left → Valid right → old left = old right → left = right
  old_surjective : tree.Valid node → ∃ new, Valid new ∧ old new = node
  root_valid : Valid root
  old_root : old root = tree.root
  child_iff : Valid parent → (child parent symbol = some below ↔
    Valid below ∧ tree.child (old parent) symbol = some (old below))

namespace Copy

variable {tree} {New : Type w} (copy : tree.Copy New)

def copied : PrefixTree New Symbol where
  Valid := copy.Valid
  key node := tree.key (copy.old node)
  child := copy.child
  root := copy.root
  root_valid := copy.root_valid
  key_root := by rw [copy.old_root, tree.key_root]
  child_valid valid edge := ((copy.child_iff valid).mp edge).1
  key_child valid edge := tree.key_child (copy.old_valid valid)
    ((copy.child_iff valid).mp edge).2
  key_injective leftValid rightValid equal := copy.old_injective leftValid rightValid
    (tree.key_injective (copy.old_valid leftValid) (copy.old_valid rightValid) equal)
  has_parent valid notRoot := by
    have oldNotRoot : copy.old _ ≠ tree.root := fun equal =>
      notRoot (copy.old_injective valid copy.root_valid (equal.trans copy.old_root.symm))
    rcases tree.has_parent (copy.old_valid valid) oldNotRoot with
      ⟨parent, symbol, parentValid, edge⟩
    rcases copy.old_surjective parentValid with ⟨new, newValid, rfl⟩
    exact ⟨new, symbol, newValid, (copy.child_iff newValid).mpr ⟨valid, edge⟩⟩

lemma nearestOwner_copied {Owns : Node → Prop} {NewOwns : New → Prop}
    (owns_iff : ∀ node, copy.Valid node → (NewOwns node ↔ Owns (copy.old node)))
    (ownerValid : ∀ new ∈ owner, copy.Valid new)
    (nearest : tree.NearestOwner Owns (copy.old node) (owner.map copy.old)) :
    copy.copied.NearestOwner NewOwns node owner := by
  have above : ∀ other, copy.copied.OwnerAbove NewOwns (copy.copied.key node) other →
      tree.OwnerAbove Owns (tree.key (copy.old node)) (copy.old other) :=
    fun other holds => ⟨copy.old_valid holds.1, (owns_iff other holds.1).mp holds.2.1, holds.2.2⟩
  cases owner with
  | none => exact fun other holds => nearest _ (above other holds)
  | some new =>
    have valid := ownerValid new rfl
    exact ⟨⟨valid, (owns_iff new valid).mpr nearest.1.2.1, nearest.1.2.2⟩,
      fun other holds => nearest.2 _ (above other holds)⟩

end Copy

end PrefixTree

end IronTraffic
