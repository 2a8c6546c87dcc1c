import IronTraffic.Foundation.Fallible

/-! # Explicit-stack traversals

`drain` is the shape of a loop that pops an entry, updates a state and pushes
further entries. When what is pushed depends on the entry alone and some rank
falls at every push, the loop visits a fixed list of entries, the `unroll` of
the initial stack.
-/

namespace IronTraffic.Worklist

open List

/-- `while let Some(entry) = stack.pop()`. The head of the list is the top of
the stack, so the entry pushed last is popped first. -/
def drain (visit : State → Entry → Fallible Reason (State × List Entry)) :
    Nat → List Entry → State → Fallible Reason State
  | _, [], state => .ok state
  | 0, _ :: _, _ => .error .outOfFuel
  | fuel + 1, entry :: rest, state => do
      let (next, pushed) ← visit state entry
      drain visit fuel (pushed.reverse ++ rest) next

def unroll (following : Entry → List Entry) (rank : Entry → Nat)
    (falls : ∀ entry, ∀ later ∈ following entry, rank later < rank entry)
    (entry : Entry) : List Entry :=
  entry :: (following entry).attach.flatMap fun later =>
    unroll following rank falls later.val
termination_by rank entry
decreasing_by exact falls entry later.val later.property

section Unroll

variable {following : Entry → List Entry} {rank : Entry → Nat}
  {falls : ∀ entry, ∀ later ∈ following entry, rank later < rank entry}

lemma unroll_eq (entry : Entry) :
    unroll following rank falls entry =
      entry :: (following entry).flatMap (unroll following rank falls) := by
  rw [unroll]
  rw [flatMap_subtype (fun later _ => rfl), unattach_attach]

lemma self_mem_unroll (entry : Entry) : entry ∈ unroll following rank falls entry := by
  rw [unroll_eq]
  exact mem_cons_self

lemma mem_unroll_of_following (follows : later ∈ following entry)
    (mem : target ∈ unroll following rank falls later) :
    target ∈ unroll following rank falls entry := by
  rw [unroll_eq]
  exact mem_cons_of_mem _ (mem_flatMap.mpr ⟨later, follows, mem⟩)

lemma forall_mem_unroll (Holds : Entry → Prop)
    (passes : ∀ entry, Holds entry → ∀ later ∈ following entry, Holds later)
    (entry : Entry) (holds : Holds entry) :
    ∀ target ∈ unroll following rank falls entry, Holds target := by
  intro target mem
  rw [unroll_eq] at mem
  rcases mem_cons.mp mem with equal | mem
  · exact equal ▸ holds
  · rcases mem_flatMap.mp mem with ⟨later, follows, mem⟩
    exact forall_mem_unroll Holds passes later (passes entry holds later follows)
      target mem
termination_by rank entry
decreasing_by exact falls entry later follows

lemma unroll_closed (entry : Entry) :
    ∀ target ∈ unroll following rank falls entry,
      ∀ later ∈ following target, later ∈ unroll following rank falls entry := by
  intro target mem later follows
  rw [unroll_eq] at mem
  rcases mem_cons.mp mem with equal | mem
  · subst target
    exact mem_unroll_of_following follows (self_mem_unroll later)
  · rcases mem_flatMap.mp mem with ⟨first, firstFollows, mem⟩
    exact mem_unroll_of_following firstFollows
      (unroll_closed first target mem later follows)
termination_by rank entry
decreasing_by exact falls entry first firstFollows

/-- Disjoint branches make the names of the unrolled entries distinct.
`Under entry name` is any relation that every unrolled entry keeps to its
origin. -/
lemma nodup_unroll (name : Entry → Name) (Under : Entry → Name → Prop)
    (reflexive : ∀ entry, Under entry (name entry))
    (climbs : ∀ entry, ∀ later ∈ following entry, ∀ target, Under later target → Under entry target)
    (irreflexive : ∀ entry, ∀ later ∈ following entry, ¬Under later (name entry))
    (disjoint : ∀ entry, (following entry).Pairwise fun left right =>
      ∀ target, Under left target → ¬Under right target) (entry : Entry) :
    ((unroll following rank falls entry).map name).Nodup ∧
      ∀ target ∈ unroll following rank falls entry, Under entry (name target) := by
  have below : ∀ later ∈ following entry, ((unroll following rank falls later).map name).Nodup ∧
        ∀ target ∈ unroll following rank falls later, Under later (name target) :=
    fun later follows =>
      nodup_unroll name Under reflexive climbs irreflexive disjoint later
  rw [unroll_eq, map_cons, map_flatMap]
  constructor
  · refine nodup_cons.mpr ⟨?_, nodup_flatMap.mpr
      ⟨fun later follows => (below later follows).1, ?_⟩⟩
    · intro mem
      rcases mem_flatMap.mp mem with ⟨later, follows, mem⟩
      rcases mem_map.mp mem with ⟨target, mem, equal⟩
      exact irreflexive entry later follows
        (equal ▸ (below later follows).2 target mem)
    · refine (disjoint entry).imp_of_mem ?_
      intro left right leftMem rightMem separate target inLeft inRight
      rcases mem_map.mp inLeft with ⟨leftTarget, inLeft, leftName⟩
      rcases mem_map.mp inRight with ⟨rightTarget, inRight, rightName⟩
      exact separate target (leftName ▸ (below left leftMem).2 leftTarget inLeft)
        (rightName ▸ (below right rightMem).2 rightTarget inRight)
  · intro target mem
    rcases mem_cons.mp mem with equal | mem
    · exact equal ▸ reflexive entry
    · rcases mem_flatMap.mp mem with ⟨later, follows, mem⟩
      exact climbs entry later follows _ ((below later follows).2 target mem)
termination_by rank entry
decreasing_by exact falls entry later follows

end Unroll

/-- The loop visits the unrolled stack in order. `Invariant` speaks of the
entries visited so far; a visit has to push what its entry leads to. -/
lemma drain_meets {visit : State → Entry → Fallible Reason (State × List Entry)}
    {following : Entry → List Entry} {rank : Entry → Nat}
    (falls : ∀ entry, ∀ later ∈ following entry, rank later < rank entry)
    (Invariant : List Entry → State → Prop) {all : List Entry}
    (visits : ∀ done entry rest state, done ++ entry :: rest = all →
      Invariant done state → Fallible.Meets (visit state entry) fun result =>
        result.2 = (following entry).reverse ∧ Invariant (done ++ [entry]) result.1) :
    ∀ (fuel : Nat) (stack done : List Entry) (state : State),
      done ++ stack.flatMap (unroll following rank falls) = all →
      (stack.flatMap (unroll following rank falls)).length ≤ fuel →
      Invariant done state →
      Fallible.Meets (drain visit fuel stack state) (Invariant all)
  | fuel, [], done, state, whole, _, holds => by
    simp only [flatMap_nil, append_nil] at whole
    subst done
    simpa [drain] using holds
  | 0, entry :: rest, done, state, _, enough, _ => by
    rw [flatMap_cons, unroll_eq entry] at enough
    simp at enough
  | fuel + 1, entry :: rest, done, state, whole, enough, holds => by
    have shape : (entry :: rest).flatMap (unroll following rank falls) =
        entry :: (following entry ++ rest).flatMap (unroll following rank falls) := by
      rw [flatMap_cons, unroll_eq entry]
      simp
    rw [shape, length_cons] at enough
    rw [shape] at whole
    refine (visits done entry _ state whole holds).bind ?_
    rintro ⟨next, pushed⟩ ⟨rfl, nextHolds⟩
    simp only [reverse_reverse]
    exact drain_meets falls Invariant visits fuel (following entry ++ rest) (done ++ [entry]) next
      (by simpa using whole) (by omega) nextHolds

end IronTraffic.Worklist
