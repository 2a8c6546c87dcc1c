import IronTraffic.Router.PathTrie.Order

/-! # Emission

The emission loop only appends to the arenas, so what it wrote for one node
stays readable while later nodes are written. `Emitted` says what a record means
in terms of the intermediate node it was written for.
-/

namespace IronTraffic.Router

open List

open Fallible

/-! ## Candidates of a node -/

lemma meets_mapM_okOr {Reason Item : Type} (reason : Reason) (items : List Item) :
    ∀ indices : List Nat, Meets (indices.mapM fun index => okOr reason items[index]?) fun hit =>
        hit = indices.filterMap fun index => items[index]?
  | [] => by simp
  | index :: indices => by
    rw [mapM_cons]
    refine (meets_okOr reason items[index]?).bind ?_
    intro item hit
    refine (meets_mapM_okOr reason items indices).bind ?_
    rintro _ rfl
    simp [hit]

def byPrecedence (cands : List CandInput) : List CandInput :=
  cands.insertionSort fun left right => right.prec.bits ≤ left.prec.bits

lemma sortedCands_meets (cands) (indices : List Nat) :
    Meets (sortedCands cands indices) fun sorted =>
      sorted = byPrecedence (indices.filterMap fun index => cands[index]?) := by
  refine (meets_mapM_okOr _ cands indices).bind ?_
  rintro _ rfl
  rfl

lemma filterMap_candsWithKey (cands : List CandInput) (word) :
    (candsWithKey cands.zipIdx word).filterMap (fun index => cands[index]?) =
      cands.filter fun cand => cand.key = word := by
  have located : ∀ entry ∈ cands.zipIdx.filter (fun entry => entry.1.key = word),
      cands[entry.2]? = some entry.1 := by
    rintro ⟨cand, index⟩ mem
    exact mem_zipIdx_iff_getElem?.mp (mem_filter.mp mem).1
  rw [candsWithKey, filterMap_map]
  have pointwise : ∀ entries : List (CandInput × Nat),
      (∀ entry ∈ entries, cands[entry.2]? = some entry.1) →
      entries.filterMap ((fun index => cands[index]?) ∘ Prod.snd) = entries.map Prod.fst := by
    intro entries each
    rw [← filterMap_eq_map]
    exact filterMap_congr each
  rw [pointwise _ located]
  have projected : (cands.zipIdx.map Prod.fst).filter (fun cand => cand.key = word) =
      (cands.zipIdx.filter fun entry => entry.1.key = word).map Prod.fst := by
    rw [filter_map]
    rfl
  rw [← projected, zipIdx_map_fst]

lemma byPrecedence_perm (cands) : (byPrecedence cands).Perm cands :=
  perm_insertionSort _ cands

lemma byPrecedence_sorted (nodup : (cands.map fun cand => cand.prec.bits).Nodup) :
    (byPrecedence cands).Pairwise fun left right => right.prec.bits < left.prec.bits := by
  have sorted := pairwise_insertionSort
    (fun left right : CandInput => right.prec.bits ≤ left.prec.bits) cands
  have nodup := (((byPrecedence_perm cands).map fun cand => cand.prec.bits).nodup_iff).mpr
    nodup
  rw [nodup_iff_pairwise_ne, pairwise_map] at nodup
  refine (sorted.and nodup).imp ?_
  rintro left right ⟨le, ne⟩
  exact Std.lt_of_le_of_ne le (Ne.symm ne)

/-! ## Child dispatch -/

def ChildBlock.lookup (block : ChildBlock) (byte : UInt8) : Option Nat :=
  if block.dense then do
    let value ← block.nodes[byte.toNat]?
    if value = sentinel then none else some value
  else do
    let spot ← block.bytes.findIdx? (· == byte)
    block.nodes[spot]?

lemma findIdx?_bind_getElem? (entries : List (UInt8 × Nat)) (byte : UInt8) :
    ((entries.map Prod.fst).findIdx? (· == byte) >>= fun spot =>
      (entries.map Prod.snd)[spot]?) = entries.lookup byte := by
  induction entries with
  | nil => rfl
  | cons entry entries induction =>
    rcases entry with ⟨first, child⟩
    rw [map_cons, map_cons, findIdx?_cons, lookup_cons]
    by_cases here : first = byte
    · subst here
      simp
    · have apart : (byte == first) = false := by simpa using fun equal => here equal.symm
      have scanned : (first == byte) = false := by simpa using here
      rw [apart, scanned]
      rw [← induction]
      cases (entries.map Prod.fst).findIdx? (· == byte) <;> simp

lemma foldl_set_getElem? (entries : List (UInt8 × Nat)) (nodup : (entries.map Prod.fst).Nodup)
    (byte : UInt8) :
    ∀ slots : List Nat, slots.length = 256 →
      (entries.foldl (fun slots entry => slots.set entry.1.toNat entry.2) slots)[byte.toNat]? =
      match entries.lookup byte with | some child => some child | none => slots[byte.toNat]? := by
  induction entries with
  | nil => intro slots _; rfl
  | cons entry entries induction =>
    rcases entry with ⟨first, child⟩
    intro slots width
    rw [map_cons, nodup_cons] at nodup
    rw [foldl_cons, induction nodup.2 _ (by simpa using width), lookup_cons]
    by_cases here : byte = first
    · subst here
      have later : entries.lookup byte = none := by
        rw [lookup_eq_none_iff]
        intro other mem
        simpa using fun equal => nodup.1 (mem_map.mpr ⟨other, mem, equal.symm⟩)
      rw [later]
      simp only [beq_self_eq_true]
      exact getElem?_set_self (by rw [width]; exact byte.toNat_lt)
    · have apart : (byte == first) = false := by simpa using here
      rw [apart]
      cases entries.lookup byte with
      | some _ => rfl
      | none =>
        refine getElem?_set_ne ?_
        exact fun equal => here (UInt8.toNat_inj.mp equal.symm)

lemma foldl_set_length (entries : List (UInt8 × Nat)) (slots : List Nat) :
    (entries.foldl (fun slots entry => slots.set entry.1.toNat entry.2) slots).length =
      slots.length := by
  induction entries generalizing slots with
  | nil => rfl
  | cons entry entries induction => simp [induction]

lemma lookup_eq_some_iff_mem {entries : List (UInt8 × Nat)}
    (nodup : (entries.map Prod.fst).Nodup) (byte : UInt8) (child : Nat) :
    entries.lookup byte = some child ↔ (byte, child) ∈ entries := by
  induction entries with
  | nil => simp
  | cons entry entries induction =>
    rcases entry with ⟨first, other⟩
    rw [map_cons, nodup_cons] at nodup
    rw [lookup_cons, mem_cons]
    by_cases here : byte = first
    · subst here
      have absent : (byte, child) ∉ entries := fun mem =>
        nodup.1 (mem_map.mpr ⟨_, mem, rfl⟩)
      simp [absent, eq_comm]
    · have apart : (byte == first) = false := by simpa using here
      rw [apart, induction nodup.2]
      simp [here]

/-- What `childBlock` guarantees: the extents reading relies on, and that a byte
selects the renumbered child of the list. -/
structure BlockFor (oldToNew : List Nat) (childList : List (UInt8 × Nat × Nat))
    (block : ChildBlock) : Prop where
  same_length : block.bytes.length = block.nodes.length
  sparse : block.dense = false → block.childN = block.bytes.length
  dense : block.dense = true → block.nodes.length = 256
  lookup : ∀ byte new, block.lookup byte = some new ↔
    ∃ old subtree, (byte, old, subtree) ∈ childList ∧ oldToNew[old]? = some new

lemma renumber_meets (oldToNew : List Nat) (reason : TrieBuildError) :
    ∀ childList : List (UInt8 × Nat × Nat), Meets (childList.mapM fun (byte, child, _) => do
        let newChild ← okOr reason oldToNew[child]?
        pure (byte, newChild)) fun renumbered =>
          renumbered.map Prod.fst = childList.map Prod.fst ∧
          ∀ byte new, (byte, new) ∈ renumbered ↔
            ∃ old subtree, (byte, old, subtree) ∈ childList ∧ oldToNew[old]? = some new
  | [] => by simp
  | (first, old, subtree) :: childList => by
    rw [mapM_cons]
    have head : Meets (do
        let newChild ← okOr reason oldToNew[old]?
        pure (first, newChild)) fun result : UInt8 × Nat =>
          result.1 = first ∧ oldToNew[old]? = some result.2 :=
      (meets_okOr _ _).bind fun new hit => ⟨rfl, hit⟩
    refine head.bind ?_
    rintro ⟨_, new⟩ ⟨rfl, hit⟩
    refine (renumber_meets oldToNew reason childList).bind ?_
    rintro renumbered ⟨sameBytes, members⟩
    refine ⟨by simp [sameBytes], ?_⟩
    intro byte target
    simp only [mem_cons, Prod.mk.injEq, members]
    constructor
    · rintro (⟨rfl, rfl⟩ | ⟨other, size, mem, target⟩)
      · exact ⟨old, subtree, .inl ⟨rfl, rfl, rfl⟩, hit⟩
      · exact ⟨other, size, .inr mem, target⟩
    · rintro ⟨other, size, ⟨rfl, rfl, rfl⟩ | mem, target⟩
      · exact .inl ⟨rfl, Option.some.inj (target.symm.trans hit)⟩
      · exact .inr ⟨other, size, mem, target⟩

lemma childBlock_meets (maxNodes : UInt32) (nodup : (childList.map Prod.fst).Nodup)
    (small : ∀ (old new : Nat), oldToNew[old]? = some new → new ≠ sentinel) :
    Meets (childBlock oldToNew childList maxNodes) (BlockFor oldToNew childList) := by
  refine (renumber_meets oldToNew _ childList).bind ?_
  rintro renumbered ⟨sameBytes, members⟩
  have nodup : (renumbered.map Prod.fst).Nodup := by rw [sameBytes]; exact nodup
  have lengths : renumbered.length = childList.length := by
    simpa using congrArg length sameBytes
  by_cases few : childList.length ≤ 16
  · rw [if_pos few]
    refine ⟨by simp, fun _ => by simp [lengths], by simp, ?_⟩
    intro byte new
    rw [← members, ← lookup_eq_some_iff_mem nodup, ← findIdx?_bind_getElem?]
    simp [ChildBlock.lookup]
  · rw [if_neg few]
    refine ⟨?_, fun sparse => Bool.noConfusion sparse, fun _ => ?_, ?_⟩
    · rw [foldl_set_length, length_replicate, length_replicate]
    · rw [foldl_set_length, length_replicate]
    intro byte new
    rw [← members, ← lookup_eq_some_iff_mem nodup]
    have slot := foldl_set_getElem? renumbered nodup byte (replicate 256 sentinel)
      length_replicate
    rw [getElem?_replicate_of_lt byte.toNat_lt] at slot
    simp only [ChildBlock.lookup, ↓reduceIte, slot]
    cases hit : renumbered.lookup byte with
    | none => simp
    | some child =>
      have mem := (members byte child).mp
        ((lookup_eq_some_iff_mem nodup byte child).mp hit)
      rcases mem with ⟨old, _, _, target⟩
      simp [small old child target]

/-! ## Records -/

lemma nodeFlags_dense (dense singleUncond hasPrefix hasExact : Bool) :
    (nodeFlags dense singleUncond hasPrefix hasExact &&& nodeDense != 0) = dense := by
  cases dense <;> cases singleUncond <;> cases hasPrefix <;> cases hasExact <;> decide

variable {old : Nat}

section Records

variable (arena : List BuildNode) (oldToNew upOld : List Nat) (cands : List CandInput)

/-- What the record of the intermediate node `old` says, read in the arenas of
`out`. -/
structure Emitted (out : Emission) (old : Nat) (node : PathNode) : Prop where
  label : ∃ bnode, arena[old]? = some bnode ∧ node.keyLen = bnode.keyLen ∧
    slice out.blob node.blobOff (node.blobOff + node.blobLen) = some bnode.label
  owned : ∃ bnode sorted, arena[old]? = some bnode ∧
    sorted = byPrecedence (bnode.cands.filterMap fun index => cands[index]?) ∧
    slice out.cands node.cands (node.cands + node.candN) = some (sorted.map CandInput.toCand) ∧
    slice out.candRoutes node.cands (node.cands + node.candN) = some (sorted.map CandInput.route) ∧
    slice out.candKinds node.cands (node.cands + node.candN) =
      some (sorted.map fun cand => cand.kind.toU8)
  dispatch : ∃ block, BlockFor oldToNew (childOrder arena old) block ∧
    (node.flags &&& nodeDense != 0) = block.dense ∧ node.childN = block.childN ∧
    slice out.childBytes node.children (node.children + block.bytes.length) = some block.bytes ∧
    slice out.childNodes node.children (node.children + block.nodes.length) = some block.nodes
  up : ∃ owner, upOld[old]? = some owner ∧
    (owner = sentinel ∧ node.up = sentinel ∨ owner ≠ sentinel ∧ oldToNew[owner]? = some node.up)

/-- `after` has at least what `before` has, in the same places. -/
structure Emission.Extends (before after : Emission) : Prop where
  childBytes : ∃ more, after.childBytes = before.childBytes ++ more
  childNodes : ∃ more, after.childNodes = before.childNodes ++ more
  cands : ∃ more, after.cands = before.cands ++ more
  candRoutes : ∃ more, after.candRoutes = before.candRoutes ++ more
  candKinds : ∃ more, after.candKinds = before.candKinds ++ more
  blob : ∃ more, after.blob = before.blob ++ more

variable {arena oldToNew upOld cands}

lemma Emitted.mono {before after : Emission}
    (emitted : Emitted arena oldToNew upOld cands before old node)
    (extended : before.Extends after) : Emitted arena oldToNew upOld cands after old node := by
  rcases extended with ⟨⟨_, bytes⟩, ⟨_, nodes⟩, ⟨_, owned⟩, ⟨_, routes⟩, ⟨_, kinds⟩, ⟨_, blob⟩⟩
  refine ⟨?_, ?_, ?_, emitted.up⟩
  · rcases emitted.label with ⟨bnode, hit, keyLen, label⟩
    exact ⟨bnode, hit, keyLen, by rw [blob]; exact slice_append_of_eq_some label _⟩
  · rcases emitted.owned with ⟨bnode, sorted, hit, sortedEq, candSlice, routeSlice, kindSlice⟩
    exact ⟨bnode, sorted, hit, sortedEq, by rw [owned]; exact slice_append_of_eq_some candSlice _,
      by rw [routes]; exact slice_append_of_eq_some routeSlice _,
      by rw [kinds]; exact slice_append_of_eq_some kindSlice _⟩
  · rcases emitted.dispatch with ⟨block, blockFor, dense, childN, byteSlice, nodeSlice⟩
    exact ⟨block, blockFor, dense, childN, by rw [bytes]; exact slice_append_of_eq_some byteSlice _,
      by rw [nodes]; exact slice_append_of_eq_some nodeSlice _⟩

lemma remapUp_meets (old : Nat) (maxNodes : UInt32) :
    Meets (remapUp oldToNew upOld old maxNodes) fun up => ∃ owner, upOld[old]? = some owner ∧
        (owner = sentinel ∧ up = sentinel ∨ owner ≠ sentinel ∧ oldToNew[owner]? = some up) := by
  refine (meets_okOr _ _).bind ?_
  intro owner hit
  by_cases none : owner = sentinel
  · rw [if_pos none]
    exact ⟨owner, hit, .inl ⟨none, rfl⟩⟩
  · rw [if_neg none]
    exact (meets_okOr _ _).mono fun up remapped => ⟨owner, hit, .inr ⟨none, remapped⟩⟩

lemma toU32_meets (error) (n : Nat) :
    Meets (tryU32 error n) fun value => value = n := Meets.guard fun _ => rfl

lemma toU16_meets (error) (n : Nat) :
    Meets (tryU16 error n) fun value => value = n := Meets.guard fun _ => rfl

/-- The parallel arenas have parallel lengths, and there is a valid record for
every node written so far. -/
structure EmissionInvariant (arena : List BuildNode) (oldToNew upOld : List Nat)
    (cands : List CandInput) (done : List Nat) (out : Emission) : Prop where
  nodes_length : out.nodes.length = done.length
  children_length : out.childBytes.length = out.childNodes.length
  routes_length : out.candRoutes.length = out.cands.length
  kinds_length : out.candKinds.length = out.cands.length
  emitted : ∀ {final old : Nat} {node}, done[final]? = some old → out.nodes[final]? = some node →
    Emitted arena oldToNew upOld cands out old node

lemma emitNode_meets (small : ∀ (old new : Nat), oldToNew[old]? = some new → new ≠ sentinel)
    (holds : EmissionInvariant arena oldToNew upOld cands done out) :
    Meets (emitNode arena oldToNew upOld cands parts out old)
      (EmissionInvariant arena oldToNew upOld cands (done ++ [old])) := by
  refine (nodeRef_meets arena old parts.maxNodes).bind ?_
  intro bnode hit
  have budget : Meets (checkBlobBudget out.blob.length bnode.label.length parts.maxBlobBytes)
      fun _ => True := Meets.guard fun _ => trivial
  refine budget.bind ?_
  intro _ _
  refine (toU32_meets _ _).bind ?_
  rintro _ rfl
  refine (toU16_meets _ _).bind ?_
  rintro _ rfl
  refine (sortedCands_meets cands bnode.cands).bind ?_
  intro sorted sortedEq
  refine (toU32_meets _ _).bind ?_
  rintro _ rfl
  refine (toU16_meets _ _).bind ?_
  rintro _ rfl
  refine (sortedChildren_meets arena old parts.maxNodes).bind ?_
  rintro _ rfl
  refine (toU32_meets _ _).bind ?_
  rintro _ rfl
  refine (childBlock_meets parts.maxNodes (nodup_childOrder_bytes arena old) small).bind ?_
  intro block blockFor
  refine (remapUp_meets old parts.maxNodes).bind ?_
  intro up upEq
  by_cases tooLong : bnode.keyLen > maxPathBytes
  · simp [tooLong]
  rw [if_neg tooLong]
  refine (toU16_meets _ _).bind ?_
  rintro _ rfl
  refine ⟨by simp [holds.nodes_length], by simp [holds.children_length, blockFor.same_length],
    by simp [holds.routes_length], by simp [holds.kinds_length], ?_⟩
  intro final other node atFinal nodeFound
  by_cases last : final = done.length
  · subst last
    rw [getElem?_concat_length] at atFinal
    cases atFinal
    rw [← holds.nodes_length, getElem?_concat_length] at nodeFound
    cases nodeFound
    refine ⟨⟨bnode, hit, rfl, slice_append _ _⟩, ⟨bnode, sorted, hit, sortedEq, ?_, ?_, ?_⟩,
      ⟨block, blockFor, nodeFlags_dense .., rfl, slice_append _ _, ?_⟩, upEq⟩
    · simpa using slice_append out.cands (sorted.map CandInput.toCand)
    · simpa [holds.routes_length] using
        slice_append out.candRoutes (sorted.map CandInput.route)
    · simpa [holds.kinds_length] using
        slice_append out.candKinds (sorted.map fun cand => cand.kind.toU8)
    · simpa [holds.children_length] using slice_append out.childNodes block.nodes
  · have inside : final < done.length := by
      have bound := lt_of_getElem? atFinal
      simp only [length_append, length_singleton] at bound
      omega
    rw [getElem?_append_left inside] at atFinal
    rw [getElem?_append_left (by rw [holds.nodes_length]; exact inside)] at nodeFound
    exact (holds.emitted atFinal nodeFound).mono
      ⟨⟨_, rfl⟩, ⟨_, rfl⟩, ⟨_, rfl⟩, ⟨_, rfl⟩, ⟨_, rfl⟩, ⟨_, rfl⟩⟩

lemma emit_meets (small : ∀ (old new : Nat), oldToNew[old]? = some new → new ≠ sentinel) :
    Meets (emit arena order oldToNew upOld cands parts) fun group => ∃ out : Emission,
      EmissionInvariant arena oldToNew upOld cands order out ∧ group.nodes = out.nodes ∧
      group.childBytes = out.childBytes ∧ group.childNodes = out.childNodes ∧
      group.cands = out.cands ∧ group.candRoutes = out.candRoutes ∧
      group.candKinds = out.candKinds ∧ group.blob = out.blob := by
  have initially : EmissionInvariant arena oldToNew upOld cands [] {
      nodes := [], childBytes := [], childNodes := [], cands := [], candRoutes := [],
      candKinds := [], blob := parts.blob } :=
    ⟨rfl, rfl, rfl, rfl, fun atFinal => by simp at atFinal⟩
  refine (meets_foldlM (EmissionInvariant arena oldToNew upOld cands) initially ?_).bind ?_
  · intro done old _ out _ holds
    exact emitNode_meets small holds
  · intro out holds
    exact ⟨out, holds, rfl, rfl, rfl, rfl, rfl, rfl, rfl⟩

end Records

end IronTraffic.Router
