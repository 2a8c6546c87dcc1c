import IronTraffic.Foundation.Bytes

/-! # The open-loop request schedule

Request `index` is due `index / rate` seconds after the origin, rounded down to nanoseconds. The
products are taken in 128 bits, where factors of 64 bits cannot overflow.
-/

namespace IronTraffic.Bench

def nanosPerSec : Nat := 1000000000
def minRateHz : Nat := 1
def maxRateHz : Nat := 50000000
def maxBurstCap : Nat := 65536

def maxIndexFor (originNs rateHz : Nat) : Nat :=
  min ((u64Max - originNs) * rateHz / nanosPerSec) u64Max

structure Schedule where
  originNs : Nat
  rateHz : Nat
  burstCap : Nat
  nextIndex : Nat
  maxIndex : Nat
  catchupBursts : Nat
  rate_pos : minRateHz ≤ rateHz
  rate_le : rateHz ≤ maxRateHz
  maxIndex_for : maxIndex = maxIndexFor originNs rateHz

namespace Schedule

def new (originNs rateHz burstCap : Nat) : Except String Schedule :=
  if low : rateHz < minRateHz then .error "zero rate"
  else if high : maxRateHz < rateHz then .error "rate too high"
  else if burstCap = 0 then .error "zero burst cap"
  else if maxBurstCap < burstCap then .error "burst cap too high"
  else .ok ⟨originNs, rateHz, burstCap, 0, _, 0, not_lt.mp low, not_lt.mp high, rfl⟩

variable (plan : Schedule)

def dueNsRaw (index : Nat) : Nat :=
  plan.originNs + index * nanosPerSec / plan.rateHz % 2 ^ 64

def dueNs (index : Nat) : Option Nat :=
  if plan.maxIndex < index then none else some (plan.dueNsRaw index)

/-- The due time itself, whether or not it fits. -/
def due (index : Nat) : Nat :=
  plan.originNs + index * nanosPerSec / plan.rateHz

lemma maxIndex_eq :
    plan.maxIndex = (u64Max - plan.originNs) * plan.rateHz / nanosPerSec := by
  have bound := Nat.mul_le_mul (Nat.sub_le u64Max plan.originNs) plan.rate_le
  rw [plan.maxIndex_for]
  exact min_eq_left ((Nat.div_le_div_right bound).trans (by decide))

variable {plan}

lemma dueNs_eq_some (hit : plan.dueNs index = some ns) : ns = plan.due index := by
  rw [dueNs, maxIndex_eq] at hit
  split_ifs at hit with past
  rw [not_lt, Nat.le_div_iff_mul_le (by decide)] at past
  have offset := Nat.div_le_of_le_mul (past.trans_eq (mul_comm ..))
  rw [u64Max] at offset
  cases hit
  rw [dueNsRaw, Nat.mod_eq_of_lt (by omega), due]

/-- A due time fits when its numerator stays below the headroom's next nanosecond. -/
lemma due_le_iff (fits : plan.originNs ≤ u64Max) :
    plan.due index ≤ u64Max ↔
      index ≤ ((u64Max - plan.originNs + 1) * plan.rateHz - 1) / nanosPerSec := by
  have positive : 0 < (u64Max - plan.originNs + 1) * plan.rateHz :=
    Nat.mul_pos (Nat.succ_pos _) plan.rate_pos
  have below := @Nat.div_lt_iff_lt_mul plan.rateHz (index * nanosPerSec)
    (u64Max - plan.originNs + 1) plan.rate_pos
  rw [Nat.le_div_iff_mul_le (by decide), due]
  omega

lemma new_spec (built : new origin rate cap = .ok plan) :
    plan.originNs = origin ∧ plan.rateHz = rate := by
  unfold new at built
  split_ifs at built
  cases built
  exact ⟨rfl, rfl⟩

/-- The last index is the greatest whose due time fits, unless a multiple of `10⁹` lies strictly
between `capacity · rate` and `(capacity + 1) · rate`. -/
theorem maxIndex_greatest_iff (fits : origin ≤ u64Max) (built : new origin rate cap = .ok plan) :
    (∀ index, plan.due index ≤ u64Max ↔ index ≤ plan.maxIndex) ↔
      (u64Max - origin) * rate % nanosPerSec + rate ≤ nanosPerSec := by
  rcases new_spec built with ⟨rfl, rfl⟩
  have positive : 1 ≤ plan.rateHz := plan.rate_pos
  have bound : plan.rateHz ≤ 50000000 := plan.rate_le
  have next : (u64Max - plan.originNs + 1) * plan.rateHz =
      (u64Max - plan.originNs) * plan.rateHz + plan.rateHz := Nat.succ_mul _ _
  simp only [maxIndex_eq, due_le_iff fits, next, nanosPerSec]
  constructor
  · intro greatest
    have least := (greatest _).mp le_rfl
    omega
  · intro room index
    omega

theorem maxIndex_greatest_millisecond :
    ∃ plan, new 0 1000 1 = .ok plan ∧ ∀ index, plan.due index ≤ u64Max ↔ index ≤ plan.maxIndex :=
  ⟨_, rfl, (@maxIndex_greatest_iff _ 0 1000 1 (by decide) rfl).mpr (by decide)⟩

theorem maxIndex_not_greatest :
    ∃ plan, new (u64Max - 333333333) 3 1 = .ok plan ∧ plan.due 1 = u64Max ∧ plan.maxIndex = 0 ∧
      plan.dueNs 1 = none :=
  ⟨_, rfl, by decide, by decide, by decide⟩

/-- Due times do not drift: any two are as far apart as the rate says, rounded down or up. -/
theorem dueNs_spacing (isFirst : plan.dueNs index = some first)
    (isLater : plan.dueNs (index + steps) = some later) :
    later = first + steps * nanosPerSec / plan.rateHz ∨ ¬plan.rateHz ∣ steps * nanosPerSec ∧
      later = first + steps * nanosPerSec / plan.rateHz + 1 := by
  have rest := Nat.mod_lt (index * nanosPerSec) plan.rate_pos
  rw [dueNs_eq_some isFirst, dueNs_eq_some isLater, due, due, add_mul,
    Nat.dvd_iff_mod_eq_zero, Nat.add_div plan.rate_pos]
  split_ifs <;> omega

theorem thirds_spacing :
    nanosPerSec = 666666666 + 1 * nanosPerSec / 3 ∨
      ¬3 ∣ 1 * nanosPerSec ∧ nanosPerSec = 666666666 + 1 * nanosPerSec / 3 + 1 :=
  @dueNs_spacing ⟨0, 3, 1, 0, _, 0, by decide, by decide, rfl⟩ 2 _ 1 _ rfl rfl

/-- A worker rounds its origin and its own index down: a nanosecond is lost when the two remainders
together reach the rate. -/
theorem worker_due_iff (divides : workers ∣ rate) (below : worker < workers)
    (whole : new origin rate cap = .ok plan)
    (part : new (origin + worker * nanosPerSec / rate) (rate / workers) shareCap = .ok share)
    (shareDue : share.dueNs index = some own)
    (wholeDue : plan.dueNs (worker + index * workers) = some common) :
    own = common ↔ worker * nanosPerSec % rate + index * workers * nanosPerSec % rate < rate := by
  rcases new_spec part with ⟨shifted, slower⟩
  rcases new_spec whole with ⟨rfl, rfl⟩
  have scaled : index * nanosPerSec / share.rateHz =
      index * workers * nanosPerSec / plan.rateHz := by
    rw [slower, ← Nat.mul_div_mul_right _ _ (Nat.zero_lt_of_lt below), Nat.div_mul_cancel divides,
      Nat.mul_right_comm]
  rw [dueNs_eq_some shareDue, dueNs_eq_some wholeDue, due, due, shifted, scaled, add_mul,
    Nat.add_div plan.rate_pos]
  split_ifs with reaches <;> omega

theorem worker_due_third :
    ∃ plan share own common, new 0 6 1 = .ok plan ∧
      new (0 + 1 * nanosPerSec / 6) (6 / 2) 2 = .ok share ∧ share.dueNs 3 = some own ∧
      plan.dueNs (1 + 3 * 2) = some common ∧ own = common :=
  ⟨_, _, _, _, rfl, rfl, rfl, rfl, (@worker_due_iff _ 2 6 1 0 1 2 _ 3 _ _ (by decide) (by decide)
    rfl rfl rfl rfl).mpr (by decide)⟩

theorem worker_due_early :
    ∃ plan share, new 0 6 1 = .ok plan ∧ new (0 + 1 * nanosPerSec / 6) (6 / 2) 1 = .ok share ∧
      share.dueNs 1 = some 499999999 ∧ plan.dueNs (1 + 1 * 2) = some 500000000 :=
  ⟨_, _, rfl, rfl, by decide, by decide⟩

end Schedule

end IronTraffic.Bench
