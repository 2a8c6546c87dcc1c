import IronTraffic.Foundation.Tally
import IronTraffic.Health.Wheel

/-! # The leased semaphore

Calls on one `LeasedSemaphore`, one after the other. A permit comes from the worker's
credit cell or from a batch charged to the shared counter, and a dropped permit becomes
a credit. `compare_exchange_weak` may fail for no reason; a call carries how often it
does.
-/

namespace IronTraffic.Limits

open Health List

structure Cell where
  credit : Nat
  touchedMs : Millis

/-- The credits and `touched_ms` of the workers are one list of cells. -/
structure LeasedSemaphore where
  limit : Nat
  charged : Nat
  cells : List Cell
  batch : Nat
  leaseMaxAgeMs : Nat

namespace LeasedSemaphore

def new (limit workers batch leaseMaxAgeMs : Nat) : LeasedSemaphore :=
  let requestedBatch := if batch = 0 then 1 else batch
  let exact := limit ≤ 4 * workers * requestedBatch
  ⟨limit, 0, List.replicate workers ⟨0, 0⟩, if exact then 1 else requestedBatch, leaseMaxAgeMs⟩

def sumCredits (sem : LeasedSemaphore) : Nat := (sem.cells.map Cell.credit).sum

def inUse (sem : LeasedSemaphore) : Nat := sem.charged - sem.sumCredits

/-- The permits granted, and the semaphore after it. Eight failed exchanges grant none. -/
def tryCharge (sem : LeasedSemaphore) (amount failures : Nat) : Nat × LeasedSemaphore :=
  if sem.limit ≤ sem.charged ∨ 8 ≤ failures then (0, sem)
  else
    let grant := min amount (sem.limit - sem.charged)
    (grant, { sem with charged := sem.charged + grant })

section

variable (sem : LeasedSemaphore)

/-- The worker of the permit, if one is granted. `spends` and `charges` count the exchanges
that fail before one succeeds, on the cell and on the counter. -/
def tryAcquire (worker : Nat) (now : Millis) (spends charges : Nat) :
    Option Nat × LeasedSemaphore :=
  match sem.cells[worker]? with
  | none => (none, sem)
  | some cell =>
    if cell.credit ≠ 0 ∧ spends < 4 then
      (some worker,
        { sem with cells := sem.cells.set worker { cell with credit := cell.credit - 1 } })
    else
      let (granted, sem) := sem.tryCharge sem.batch charges
      if granted = 0 then (none, sem)
      else if granted = 1 then (some worker, sem)
      else
        (some worker, { sem with cells := sem.cells.set worker ⟨cell.credit + (granted - 1), now⟩ })

/-- `Drop for Permit`. -/
def dropPermit (worker : Nat) : LeasedSemaphore :=
  match sem.cells[worker]? with
  | none => sem
  | some cell =>
    { sem with cells := sem.cells.set worker { cell with credit := cell.credit + 1 } }

/-- What `flush_stale` takes from a cell whose exchanges fail `failures` times. -/
def takes (now : Millis) (failures : Nat) (cell : Cell) : Nat :=
  if now.since cell.touchedMs < sem.leaseMaxAgeMs ∨ 8 ≤ failures then 0 else cell.credit

def flushStale (now : Millis) (failures : Nat → Nat) : LeasedSemaphore :=
  { sem with
    charged := sem.charged -
      (sem.cells.zipIdx.map fun cell => sem.takes now (failures cell.2) cell.1).sum
    cells := sem.cells.zipIdx.map fun cell =>
      if now.since cell.1.touchedMs < sem.leaseMaxAgeMs then cell.1
      else ⟨cell.1.credit - sem.takes now (failures cell.2) cell.1, now⟩ }

def setLimit (newLimit : Nat) : LeasedSemaphore :=
  { sem with limit := newLimit }

end

end LeasedSemaphore

/-! ## Runs -/

inductive Call where
  | tryAcquire (worker : Nat) (now : Millis) (spends charges : Nat)
  | dropPermit (worker : Nat)
  | flushStale (now : Millis) (failures : Nat → Nat)
  | setLimit (newLimit : Nat)

def Call.publish (limit : Nat) : Call → Nat
  | .setLimit newLimit => newLimit
  | _ => limit

/-- The limit published last. -/
def published (limit : Nat) (calls : List Call) : Nat := calls.foldl Call.publish limit

/-- A semaphore, the workers of the permits alive, and the highest limit published. `drawn` has
the permits that a worker held right after it last charged the counter. -/
structure Held where
  sem : LeasedSemaphore
  live : List Nat
  highest : Nat
  drawn : Nat → Nat

namespace Held

def new (limit workers batch leaseMaxAgeMs : Nat) : Held :=
  ⟨.new limit workers batch leaseMaxAgeMs, [], limit, fun _ => 0⟩

/-- Only a permit that is alive can be dropped. -/
def call (held : Held) : Call → Held
  | .tryAcquire worker now spends charges =>
    let (granted, sem) := held.sem.tryAcquire worker now spends charges
    let live := granted.toList ++ held.live
    { held with
      sem := sem
      live := live
      drawn := if sem.charged = held.sem.charged then held.drawn
        else Function.update held.drawn worker (live.count worker) }
  | .dropPermit worker =>
    if worker ∈ held.live then
      { held with sem := held.sem.dropPermit worker, live := held.live.erase worker }
    else held
  | .flushStale now failures => { held with sem := held.sem.flushStale now failures }
  | .setLimit newLimit =>
    { held with sem := held.sem.setLimit newLimit, highest := max held.highest newLimit }

/-- Every charged permit is alive or idle. -/
structure Balanced (held : Held) : Prop where
  charged : held.sem.charged = held.sem.sumCredits + held.live.length
  highest : held.sem.charged ≤ held.highest
  limit : held.sem.limit ≤ held.highest
  owned : ∀ worker ∈ held.live, worker < held.sem.cells.length

end Held

namespace LeasedSemaphore

/-- A permit is paid for with a credit, or with a batch charged to the counter. What the batch
has beyond the permit is idle. -/
structure Grants (sem after : LeasedSemaphore) (worker spends : Nat) (cell next : Cell) :
    Prop where
  limit : after.limit = sem.limit
  batch : after.batch = sem.batch
  hit : sem.cells[worker]? = some cell
  cells : after.cells = sem.cells.set worker next
  balance : after.sumCredits + sem.charged + 1 = sem.sumCredits + after.charged
  paid : after.charged = sem.charged ∧ next.credit + 1 = cell.credit ∨
    sem.charged < after.charged ∧ after.charged ≤ sem.limit ∧
      (cell.credit = 0 ∨ 4 ≤ spends) ∧ next.credit < cell.credit + sem.batch

lemma tryAcquire_cases (sem) (worker : Nat) (now) (spends charges : Nat) :
    (sem.tryAcquire worker now spends charges = (none, sem) ∧
        (charges < 8 → 0 < sem.batch → worker < sem.cells.length → sem.limit ≤ sem.charged)) ∨
      ∃ after cell next, sem.tryAcquire worker now spends charges = (some worker, after) ∧
        Grants sem after worker spends cell next := by
  unfold tryAcquire
  cases hit : sem.cells[worker]? with
  | none => exact .inl ⟨rfl, fun _ _ valid => absurd (getElem?_eq_none_iff.mp hit) (by omega)⟩
  | some cell =>
    simp only
    split
    next spent =>
      have sum := @sum_map_set _ _ Cell.credit _ _ { cell with credit := cell.credit - 1 } hit
      refine .inr ⟨_, cell, _, rfl, rfl, rfl, hit, rfl, ?_, .inl ⟨rfl, ?_⟩⟩
      · simp only [sumCredits] at sum ⊢
        omega
      · simp only
        omega
    next unspent =>
      have empty : cell.credit = 0 ∨ 4 ≤ spends := by omega
      unfold tryCharge
      split
      next refused => exact .inl ⟨rfl, fun few _ _ => refused.resolve_right (by omega)⟩
      next room =>
        rw [not_or, not_le, not_le] at room
        have grant : min sem.batch (sem.limit - sem.charged) ≤ sem.batch := min_le_left _ _
        have fits : min sem.batch (sem.limit - sem.charged) ≤ sem.limit - sem.charged :=
          min_le_right _ _
        simp only
        split
        next none =>
          rw [none, add_zero]
          exact .inl ⟨rfl, fun _ positive _ => by omega⟩
        split
        next one =>
          refine .inr ⟨_, cell, cell, rfl, rfl, rfl, hit, ?_, ?_, .inr ⟨?_, ?_, empty, ?_⟩⟩
          · rcases List.getElem?_eq_some_iff.mp hit with ⟨valid, rfl⟩
            exact (set_getElem_self valid).symm
          · simp only [sumCredits, one]
            omega
          · simp only
            omega
          · simp only
            omega
          · omega
        next =>
          have sum := @sum_map_set _ _ Cell.credit _ _
            ⟨cell.credit + (min sem.batch (sem.limit - sem.charged) - 1), now⟩ hit
          refine .inr ⟨_, cell, _, rfl, rfl, rfl, hit, rfl, ?_, .inr ⟨?_, ?_, empty, ?_⟩⟩
          · simp only [sumCredits] at sum ⊢
            omega
          · simp only
            omega
          · simp only
            omega
          · simp only
            omega

lemma sumCredits_eq (sem : LeasedSemaphore) :
    sem.sumCredits = (sem.cells.zipIdx.map fun cell => cell.1.credit).sum := by
  rw [sumCredits, ← zipIdx_map_fst 0 sem.cells, map_map, zipIdx_map_fst]
  rfl

lemma takes_le (sem : LeasedSemaphore) (now) (failures : Nat) (cell : Cell) :
    sem.takes now failures cell ≤ cell.credit := by
  unfold takes
  split <;> omega

lemma flushStale_balance (sem : LeasedSemaphore) (now failures)
    (covered : sem.sumCredits ≤ sem.charged) :
    (sem.flushStale now failures).sumCredits + sem.charged =
        sem.sumCredits + (sem.flushStale now failures).charged ∧
      (sem.flushStale now failures).charged ≤ sem.charged := by
  have parts : ∀ cells : List (Cell × Nat), ((cells.map fun cell =>
      if now.since cell.1.touchedMs < sem.leaseMaxAgeMs then cell.1
      else (⟨cell.1.credit - sem.takes now (failures cell.2) cell.1, now⟩ : Cell)).map
        Cell.credit).sum + (cells.map fun cell => sem.takes now (failures cell.2) cell.1).sum =
      (cells.map fun cell => cell.1.credit).sum := by
    intro cells
    induction cells with
    | nil => rfl
    | cons cell rest induction =>
      have part := sem.takes_le now (failures cell.2) cell.1
      simp only [map_cons, sum_cons]
      split
      next recent =>
        have nothing : sem.takes now (failures cell.2) cell.1 = 0 := if_pos (.inl recent)
        omega
      next =>
        simp only
        omega
  have whole := parts sem.cells.zipIdx
  rw [← sumCredits_eq] at whole
  simp only [flushStale, sumCredits] at covered whole ⊢
  omega

end LeasedSemaphore

namespace Held

variable {held : Held} (limit workers batch leaseMaxAgeMs : Nat)

lemma Balanced.call (balanced : Balanced held) (call : Call) : Balanced (held.call call) := by
  rcases balanced with ⟨charged, highest, limit, owned⟩
  cases call with
  | tryAcquire worker now spends charges =>
    rcases held.sem.tryAcquire_cases worker now spends charges with
      ⟨gave, -⟩ | ⟨after, cell, next, gave, grants⟩
    · simp only [Held.call, gave]
      exact ⟨charged, highest, limit, owned⟩
    have balance := grants.balance
    have paid := grants.paid
    have valid := (List.getElem?_eq_some_iff.mp grants.hit).1
    simp only [Held.call, gave, Option.toList_some, singleton_append]
    refine ⟨?_, ?_, grants.limit.trans_le limit, ?_⟩
    · simp only [length_cons]
      omega
    · simp only
      omega
    · simp only [grants.cells, length_set, forall_mem_cons]
      exact ⟨valid, owned⟩
  | dropPermit worker =>
    simp only [Held.call]
    split
    next alive =>
      have valid := owned worker alive
      have hit := getElem?_eq_getElem valid
      have sum := @sum_map_set _ _ Cell.credit _ _
        { held.sem.cells[worker] with credit := held.sem.cells[worker].credit + 1 } hit
      have fewer := length_erase_of_mem alive
      have some := length_pos_of_mem alive
      simp only [LeasedSemaphore.dropPermit, hit]
      refine ⟨?_, highest, limit, ?_⟩
      · simp only [LeasedSemaphore.sumCredits] at charged sum ⊢
        omega
      · intro other mem
        rw [length_set]
        exact owned other (mem_of_mem_erase mem)
    next => exact ⟨charged, highest, limit, owned⟩
  | flushStale now failures =>
    have balance := held.sem.flushStale_balance now failures (by omega)
    refine ⟨?_, balance.2.trans highest, limit, ?_⟩
    · simp only [Held.call]
      omega
    · intro worker alive
      simpa [Held.call, LeasedSemaphore.flushStale] using owned worker alive
  | setLimit newLimit =>
    exact ⟨charged, highest.trans (le_max_left _ _), le_max_right _ _, owned⟩

lemma balanced_run (calls : List Call) :
    Balanced (calls.foldl call (.new limit workers batch leaseMaxAgeMs)) := by
  induction calls using reverseRecOn with
  | nil => exact ⟨by simp [new, LeasedSemaphore.new, LeasedSemaphore.sumCredits],
      Nat.zero_le _, le_rfl, by simp [new]⟩
  | append_singleton calls call induction =>
    rw [foldl_append]
    exact induction.call call

lemma limit_run (calls : List Call) :
    (calls.foldl call (.new limit workers batch leaseMaxAgeMs)).sem.limit =
      published limit calls := by
  induction calls using reverseRecOn with
  | nil => rfl
  | append_singleton calls call induction =>
    rw [published, foldl_append, foldl_append]
    change (Held.call _ call).sem.limit = call.publish (published limit calls)
    rw [← induction]
    cases call with
    | tryAcquire worker now spends charges =>
      simp only [Held.call]
      rcases LeasedSemaphore.tryAcquire_cases _ worker now spends charges with
        ⟨gave, -⟩ | ⟨after, cell, next, gave, grants⟩
      · rw [gave]
        rfl
      · rw [gave]
        exact grants.limit
    | dropPermit worker =>
      simp only [Held.call]
      split
      · unfold LeasedSemaphore.dropPermit
        split <;> rfl
      · rfl
    | flushStale | setLimit => rfl

lemma Balanced.inUse_eq (balanced : Balanced held) : held.sem.inUse = held.live.length := by
  rw [LeasedSemaphore.inUse, balanced.charged, Nat.add_sub_cancel_left]

/-- The permits in use are those alive. One is granted only below the highest limit that was
published, and above the limit published last only for a credit of the worker. -/
theorem tryAcquire_below_highest (calls : List Call) (worker : Nat) (now : Millis)
    (spends charges : Nat) :
    let held := calls.foldl call (.new limit workers batch leaseMaxAgeMs)
    held.sem.inUse = held.live.length ∧
      ((held.sem.tryAcquire worker now spends charges).1.isSome →
        held.sem.inUse < held.highest ∧
        (held.sem.charged < published limit calls ∨
          ∃ cell, held.sem.cells[worker]? = some cell ∧ 0 < cell.credit)) := by
  intro held
  have balanced : Balanced held := balanced_run limit workers batch leaseMaxAgeMs calls
  have after : Balanced (held.call (.tryAcquire worker now spends charges)) := balanced.call _
  refine ⟨balanced.inUse_eq, fun granted => ?_⟩
  rw [balanced.inUse_eq, ← limit_run limit workers batch leaseMaxAgeMs calls]
  rcases held.sem.tryAcquire_cases worker now spends charges with
    ⟨gave, -⟩ | ⟨next, cell, _, gave, grants⟩
  · rw [gave] at granted
    cases granted
  · have more := after.charged
    have bound := after.highest
    simp only [call, gave, Option.toList_some, singleton_append, length_cons] at more bound
    refine ⟨by omega, ?_⟩
    rcases grants.paid with ⟨-, spent⟩ | ⟨more, below, -⟩
    · exact .inr ⟨cell, grants.hit, by omega⟩
    · exact .inl (more.trans_le below)

/-- The limit is lowered to the permits in use, and a credit is spent above it. -/
theorem credit_spent_at_limit :
    let held := [Call.tryAcquire 0 0 0 0, .setLimit 1].foldl call (.new 100 1 8 1000)
    held.sem.limit = 1 ∧ held.sem.inUse = 1 ∧ (held.sem.tryAcquire 0 0 0 0).1 = some 0 := by
  decide

/-! ## Idle capacity -/

/-- By how much the live permits of the workers fell since each last charged the counter. -/
def released (held : Held) : Nat :=
  (held.sem.cells.zipIdx.map fun cell => held.drawn cell.2 - held.live.count cell.2).sum

/-- A call in which a worker with credits spends one. -/
def Steady : Call → Prop
  | .tryAcquire _ _ spends _ => spends < 4
  | _ => True

/-- Beyond the permits it held when it last charged, a worker has less than a batch. -/
structure Leased (start : LeasedSemaphore) (held : Held) : Prop where
  batch : held.sem.batch = start.batch
  length : held.sem.cells.length = start.cells.length
  credit : ∀ worker cell, held.sem.cells[worker]? = some cell →
    cell.credit + held.live.count worker < start.batch + held.drawn worker

lemma Leased.call (leased : Leased start held) (balanced : Balanced held) {call : Call}
    (steady : Steady call) : Leased start (held.call call) := by
  rcases leased with ⟨batch, length, credit⟩
  cases call with
  | tryAcquire worker now spends charges =>
    rcases held.sem.tryAcquire_cases worker now spends charges with
      ⟨gave, -⟩ | ⟨after, cell, next, gave, grants⟩
    · simp only [Held.call, gave]
      exact ⟨batch, length, credit⟩
    have mine := credit worker cell grants.hit
    simp only [Held.call, gave, Option.toList_some, singleton_append]
    refine ⟨grants.batch.trans batch, by rw [grants.cells, length_set, length], ?_⟩
    intro other found isCell
    rw [grants.cells] at isCell
    simp only
    by_cases same : other = worker
    · -- a credit becomes a permit, or the cell was empty and a batch was charged
      subst same
      rw [getElem?_set_self (List.getElem?_eq_some_iff.mp grants.hit).1] at isCell
      cases isCell
      have steady : spends < 4 := steady
      have size := grants.batch
      rcases grants.paid with ⟨unchanged, spent⟩ | ⟨more, -, empty, few⟩
      · rw [if_pos unchanged, count_cons_self]
        omega
      · rw [if_neg more.ne', Function.update_self]
        omega
    · rw [getElem?_set_ne (Ne.symm same)] at isCell
      have theirs := credit other found isCell
      rw [count_cons_of_ne (Ne.symm same)]
      split
      · exact theirs
      · rwa [Function.update_of_ne same]
  | dropPermit worker =>
    simp only [Held.call]
    split
    next alive =>
      have hit := getElem?_eq_getElem (balanced.owned worker alive)
      have mine := credit worker _ hit
      have some := count_pos_iff.mpr alive
      simp only [LeasedSemaphore.dropPermit, hit]
      refine ⟨batch, by rw [length_set, length], ?_⟩
      intro other found isCell
      by_cases same : other = worker
      · subst same
        rw [getElem?_set_self (balanced.owned _ alive)] at isCell
        cases isCell
        rw [count_erase_self]
        simp only
        omega
      · rw [getElem?_set_ne (Ne.symm same)] at isCell
        rw [count_erase_of_ne same]
        exact credit other found isCell
    next => exact ⟨batch, length, credit⟩
  | flushStale now failures =>
    refine ⟨batch, by simpa [Held.call, LeasedSemaphore.flushStale] using length, ?_⟩
    intro worker cell isCell
    simp only [Held.call, LeasedSemaphore.flushStale, getElem?_map, getElem?_zipIdx,
      Option.map_map, Option.map_eq_some_iff] at isCell
    rcases isCell with ⟨old, hit, rfl⟩
    have before := credit worker old hit
    refine lt_of_le_of_lt (Nat.add_le_add_right ?_ _) before
    simp only [Function.comp]
    split
    · exact le_rfl
    · exact Nat.sub_le _ _
  | setLimit newLimit => exact ⟨batch, length, credit⟩

end Held

end IronTraffic.Limits
