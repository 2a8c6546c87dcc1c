import IronTraffic.Foundation.Tally

/-! # The body buffer pool

Any number of `try_acquire` calls and lease drops on one `BufferPool`, interleaved at
their atomic steps.
-/

namespace IronTraffic.Conn

open List

/-- A call of `try_acquire`, or the lease that it returned. -/
inductive Lease where
  /-- Before a load, with the turns of the loop that are left. -/
  | trying (bytes : UInt64) (turns : Nat)
  /-- Between the load of `outstanding` and the exchange. -/
  | loaded (bytes : UInt64) (turns : Nat) (outstanding : Nat)
  | granted (bytes : UInt64)
  | refused
  | dropped

structure BufferPool where
  outstanding : Nat
  total : UInt64
  leases : List Lease

inductive PoolStep where
  | tryAcquire (bytes : UInt64)
  /-- The next atomic step of a call. `fails` is an exchange that fails for no reason. -/
  | advance (lease : Nat) (fails : Bool)
  | drop (lease : Nat)

namespace BufferPool

def new (total : UInt64) : BufferPool := ⟨0, total, []⟩

/-- A request for nothing takes no step on the counter. -/
def tryAcquire (bytes : UInt64) : Lease := if bytes = 0 then .granted 0 else .trying bytes 64

/-- The load and its checks: `checked_add`, then the bound. -/
def load (pool : BufferPool) (bytes : UInt64) : Nat → Lease
  | 0 => .refused
  | turns + 1 =>
    if 2 ^ 64 ≤ pool.outstanding + bytes.toNat then .refused
    else if pool.total.toNat < pool.outstanding + bytes.toNat then .refused
    else .loaded bytes turns pool.outstanding

def step (pool : BufferPool) : PoolStep → BufferPool
  | .tryAcquire bytes => { pool with leases := pool.leases ++ [tryAcquire bytes] }
  | .advance lease fails =>
    match pool.leases[lease]? with
    | some (.trying bytes turns) =>
      { pool with leases := pool.leases.set lease (pool.load bytes turns) }
    | some (.loaded bytes turns outstanding) =>
      if fails = false ∧ pool.outstanding = outstanding then
        { pool with
          outstanding := outstanding + bytes.toNat
          leases := pool.leases.set lease (.granted bytes) }
      else { pool with leases := pool.leases.set lease (.trying bytes turns) }
    | _ => pool
  | .drop lease =>
    match pool.leases[lease]? with
    | some (.granted bytes) =>
      { pool with
        -- `fetch_sub` wraps
        outstanding := (pool.outstanding + 2 ^ 64 - bytes.toNat) % 2 ^ 64
        leases := pool.leases.set lease .dropped }
    | _ => pool

/-- The bytes of a lease that is granted and not yet subtracted. -/
def bytes : Lease → Nat
  | .granted bytes => bytes.toNat
  | _ => 0

/-- The counter is the sum of the leases, and what a call has loaded leaves room for it. -/
structure Committed (pool : BufferPool) : Prop where
  outstanding : pool.outstanding = (pool.leases.map bytes).sum
  bounded : pool.outstanding ≤ pool.total.toNat
  room : ∀ requested turns outstanding, .loaded requested turns outstanding ∈ pool.leases →
    outstanding + requested.toNat ≤ pool.total.toNat

lemma load_spec (pool : BufferPool) (requested : UInt64) (turns : Nat) :
    bytes (pool.load requested turns) = 0 ∧ ∀ bytes left seen,
      pool.load requested turns = .loaded bytes left seen →
        seen + bytes.toNat ≤ pool.total.toNat := by
  cases turns with
  | zero => exact ⟨rfl, by simp [load]⟩
  | succ turns =>
    unfold load
    split_ifs with overflows exceeds
    · exact ⟨rfl, by simp⟩
    · exact ⟨rfl, by simp⟩
    · refine ⟨rfl, fun bytes left seen same => ?_⟩
      cases same
      omega

/-- A lease is replaced, and the counter follows its bytes. -/
lemma Committed.replace (committed : Committed pool) {index outstanding : Nat} {lease next : Lease}
    (hit : pool.leases[index]? = some lease)
    (moved : outstanding + bytes lease = pool.outstanding + bytes next)
    (bounded : outstanding ≤ pool.total.toNat)
    (room : ∀ requested turns seen,
        next = .loaded requested turns seen → seen + requested.toNat ≤ pool.total.toNat) :
    Committed ⟨outstanding, pool.total, pool.leases.set index next⟩ := by
  have sum := @sum_map_set _ _ bytes _ _ next hit
  have before := committed.outstanding
  refine ⟨by simp only; omega, bounded, ?_⟩
  intro requested turns seen mem
  rcases mem_or_eq_of_mem_set mem with old | new
  · exact committed.room requested turns seen old
  · exact room requested turns seen new.symm

lemma Committed.step {pool : BufferPool} (committed : Committed pool) (step : PoolStep) :
    Committed (pool.step step) := by
  have total := pool.total.toNat_lt
  have bounded := committed.bounded
  cases step with
  | tryAcquire requested =>
    have fresh : bytes (tryAcquire requested) = 0 ∧
        ∀ bytes turns seen, tryAcquire requested ≠ .loaded bytes turns seen := by
      unfold tryAcquire
      split <;> simp [bytes]
    refine ⟨by simp [BufferPool.step, fresh.1, committed.outstanding], bounded, ?_⟩
    intro bytes turns seen mem
    rcases mem_append.mp mem with old | new
    · exact committed.room bytes turns seen old
    · exact absurd (mem_singleton.mp new).symm (fresh.2 bytes turns seen)
  | advance index fails =>
    simp only [BufferPool.step]
    split
    next requested turns hit =>
      have loads := pool.load_spec requested turns
      exact committed.replace hit (by rw [loads.1]; rfl) bounded loads.2
    next requested turns seen hit =>
      have room := committed.room requested turns seen (mem_of_getElem? hit)
      split
      next won => exact committed.replace hit (by simp only [bytes]; omega) room (by simp)
      next => exact committed.replace hit (by simp only [bytes]) bounded (by simp)
    next => exact committed
  | drop index =>
    simp only [BufferPool.step]
    split
    next requested hit =>
      have part : requested.toNat ≤ pool.outstanding := by
        have sum := @sum_map_set _ _ bytes _ _ .dropped hit
        rw [committed.outstanding]
        simp only [bytes] at sum
        omega
      refine committed.replace hit ?_ ?_ (by simp)
      · simp only [bytes]
        omega
      · omega
    next => exact committed

lemma step_total (pool : BufferPool) (step : PoolStep) : (pool.step step).total = pool.total := by
  unfold BufferPool.step
  split
  · rfl
  · split
    · rfl
    · split <;> rfl
    · rfl
  · split <;> rfl

/-- The counter is the sum of the leases granted and not yet subtracted, never above the
total, and zero once no lease is left. -/
theorem outstanding_of_steps (total : UInt64) (steps : List PoolStep) :
    let pool := steps.foldl step (new total)
    pool.outstanding = (pool.leases.map bytes).sum ∧ pool.outstanding ≤ total.toNat ∧
      ((∀ size, .granted size ∉ pool.leases) → pool.outstanding = 0) := by
  have run : ∀ steps : List PoolStep, Committed (steps.foldl step (new total)) ∧
      (steps.foldl step (new total)).total = total := by
    intro steps
    induction steps using reverseRecOn with
    | nil => exact ⟨⟨rfl, Nat.zero_le _, by simp [new]⟩, rfl⟩
    | append_singleton steps last induction =>
      rw [foldl_append]
      exact ⟨induction.1.step last, (step_total _ last).trans induction.2⟩
  intro pool
  rcases run steps with ⟨committed, same⟩
  refine ⟨committed.outstanding, same ▸ committed.bounded, fun none => ?_⟩
  rw [committed.outstanding, sum_eq_zero_iff]
  intro size mem
  rcases mem_map.mp mem with ⟨lease, stored, rfl⟩
  cases lease with
  | granted size => exact absurd stored (none size)
  | _ => rfl

end BufferPool

end IronTraffic.Conn
