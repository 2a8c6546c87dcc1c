import IronTraffic.Foundation.Bytes
import IronTraffic.Foundation.Fallible

/-! # The health response

`decode_health_response` reads the fields of a message one after another. Each reader takes
the front part of what is left and does not look past it, so a message in front of another
one is read as it is alone.
-/

namespace IronTraffic.Health

open List

inductive GrpcDecodeError where
  | shortFrame | compressed | tooLong | badVarint | groupWireType | badLength
  deriving DecidableEq

def maxMessageLen : Nat := 256

/-- Readers consume the bytes of the message that are left. -/
abbrev Reader := StateT Bytes (Except GrpcDecodeError)

def readVarintFrom : Nat → UInt64 → UInt64 → Reader UInt64
  | 0, _, _, _ => .error .badVarint
  | _, _, _, [] => .error .badVarint
  | turns + 1, result, shift, byte :: left =>
    let result := result ||| ((byte &&& 0x7F).toUInt64 <<< shift)
    if byte &&& 0x80 = 0 then .ok (result, left) else readVarintFrom turns result (shift + 7) left

def readVarint : Reader UInt64 := readVarintFrom 10 0 0

def skip (count : Nat) : Reader Unit := fun left =>
  if count ≤ left.length then .ok ((), left.drop count) else .error .badLength

/-- One turn of the loop: the status, if the field is one. -/
def readField : Reader (Option UInt32) := do
  let tag ← readVarint
  match tag &&& 7 with
  | 0 => do
    let value ← readVarint
    pure (if tag >>> 3 = 1 then some value.toUInt32 else none)
  | 1 => do
    skip 8
    pure none
  | 2 => do
    let length ← readVarint
    skip length.toNat
    pure none
  | 5 => do
    skip 4
    pure none
  | _ => throw .groupWireType

/-- The reader takes at least `least` bytes and leaves what follows them alone. -/
def Takes (least : Nat) (reader : Reader Value) : Prop :=
  ∀ input value rest, reader input = .ok (value, rest) → ∃ taken, input = taken ++ rest ∧
    least ≤ taken.length ∧ ∀ more, reader (taken ++ more) = .ok (value, more)

lemma Takes.bind {next : First → Reader Second} (first : Takes least reader)
    (second : ∀ value, Takes 0 (next value)) : Takes least (reader >>= next) := by
  intro input value rest gave
  rcases bind_eq_ok_iff.mp gave with ⟨⟨middle, left⟩, read, continued⟩
  rcases first input middle left read with ⟨front, rfl, enough, stable⟩
  rcases second middle left value rest continued with ⟨back, rfl, _, continues⟩
  refine ⟨front ++ back, by simp, by simp; omega, ?_⟩
  intro more
  refine bind_eq_ok_iff.mpr ⟨(middle, back ++ more), ?_, continues more⟩
  rw [append_assoc, stable]

lemma takes_pure : Takes 0 (pure value : Reader Value) := by
  intro input other rest gave
  cases gave
  exact ⟨[], rfl, le_rfl, fun _ => rfl⟩

lemma takes_readVarintFrom (small : least ≤ 1) :
    Takes least (readVarintFrom turns result shift) := by
  intro input value rest gave
  induction turns generalizing result shift input with
  | zero => cases gave
  | succ turns induction =>
    cases input with
    | nil => cases gave
    | cons byte left =>
      rw [readVarintFrom] at gave
      split at gave <;> rename_i last
      · cases gave
        refine ⟨[byte], rfl, small, ?_⟩
        intro more
        rw [singleton_append, readVarintFrom, if_pos last]
      · rcases induction left gave with ⟨taken, rfl, _, stable⟩
        refine ⟨byte :: taken, rfl, small.trans (Nat.le_add_left 1 _), ?_⟩
        intro more
        rw [cons_append, readVarintFrom, if_neg last, stable]

lemma takes_skip (size : Nat) : Takes 0 (do skip size; pure none : Reader (Option UInt32)) := by
  refine Takes.bind ?_ fun _ => takes_pure
  intro input value rest gave
  rw [skip] at gave
  split at gave <;> rename_i enough
  · cases gave
    refine ⟨input.take size, (take_append_drop size input).symm, Nat.zero_le _, ?_⟩
    intro more
    have length : (input.take size).length = size := length_take_of_le enough
    rw [skip, if_pos (by rw [length_append]; omega), drop_left' length]
  · cases gave

lemma takes_readField : Takes 1 readField := by
  refine (takes_readVarintFrom le_rfl).bind fun tag => ?_
  split
  · exact (takes_readVarintFrom (Nat.zero_le 1)).bind fun _ => takes_pure
  · exact takes_skip 8
  · exact (takes_readVarintFrom (Nat.zero_le 1)).bind fun _ => takes_skip _
  · exact takes_skip 4
  · intro input value rest gave
    cases gave

def decodeFields (msg : Bytes) (status : Option UInt32) :
    Except GrpcDecodeError (Option UInt32) :=
  if msg = [] then .ok status
  else
    match _read : readField msg with
    | .error error => .error error
    | .ok (hit, rest) => decodeFields rest (hit.or status)
termination_by msg.length
decreasing_by
  rcases takes_readField _ _ _ _read with ⟨taken, rfl, some, _⟩
  rw [length_append]
  omega

def decodeHealthResponse : Bytes → Except GrpcDecodeError (Option UInt32)
  | flag :: first :: second :: third :: fourth :: body =>
    if flag ≠ 0 then .error .compressed
    else
      let len := first.toNat * 2 ^ 24 + second.toNat * 2 ^ 16 + third.toNat * 2 ^ 8 + fourth.toNat
      if maxMessageLen < len then .error .tooLong
      else if body.length < len then .error .shortFrame
      else decodeFields (body.take len) none
  | _ => .error .shortFrame

def frame (msg : Bytes) : Bytes :=
  let byte shift := UInt8.ofNat (msg.length / 2 ^ shift)
  0 :: byte 24 :: byte 16 :: byte 8 :: byte 0 :: msg

lemma decodeFields_of_read (read : readField msg = .ok (hit, rest)) :
    decodeFields msg status = decodeFields rest (hit.or status) := by
  have filled : msg ≠ [] := by
    rintro rfl
    cases read
  rw [decodeFields, if_neg filled]
  split <;> simp_all

lemma decodeFields_append (decoded : decodeFields msg status = .ok final) :
    decodeFields (msg ++ more) status = decodeFields more final := by
  fun_induction decodeFields msg status with
  | case1 status =>
    cases decoded
    rfl
  | case2 => cases decoded
  | case3 msg status filled hit rest read induction =>
    rcases takes_readField _ _ _ read with ⟨taken, rfl, _, stable⟩
    rw [append_assoc, decodeFields_of_read (stable _), induction decoded]

lemma decodeFields_or :
    decodeFields msg (first.or second) = (decodeFields msg first).map (·.or second) := by
  fun_induction decodeFields msg first with
  | case1 first =>
    rw [decodeFields, if_pos rfl]
    rfl
  | case2 msg first filled error read =>
    rw [decodeFields, if_neg filled]
    split <;> simp_all [Except.map]
  | case3 msg first filled hit rest read induction =>
    rw [decodeFields_of_read read, ← induction, Option.or_assoc]

lemma decodeHealthResponse_frame (fits : msg.length ≤ maxMessageLen) :
    decodeHealthResponse (frame msg) = decodeFields msg none := by
  have small : msg.length ≤ 256 := fits
  have len : (UInt8.ofNat (msg.length / 2 ^ 24)).toNat * 2 ^ 24 +
      (UInt8.ofNat (msg.length / 2 ^ 16)).toNat * 2 ^ 16 +
      (UInt8.ofNat (msg.length / 2 ^ 8)).toNat * 2 ^ 8 +
      (UInt8.ofNat (msg.length / 2 ^ 0)).toNat = msg.length := by
    simp only [UInt8.toNat_ofNat']
    omega
  rw [frame, decodeHealthResponse, if_neg (by simp)]
  simp only [len]
  rw [if_neg fits.not_gt, if_neg (lt_irrefl _), take_length]

theorem decode_append (fits : (first ++ second).length ≤ maxMessageLen)
    (decoded : decodeHealthResponse (frame first) = .ok status) :
    decodeHealthResponse (frame (first ++ second)) =
      (decodeHealthResponse (frame second)).map (·.or status) := by
  rw [length_append] at fits
  rw [decodeHealthResponse_frame (by omega)] at decoded
  rw [decodeHealthResponse_frame (by rw [length_append]; omega), decodeFields_append decoded,
    decodeHealthResponse_frame (by omega), ← decodeFields_or, Option.none_or]

theorem later_status_wins :
    decodeHealthResponse (frame ([8, 1] ++ [8, 2])) = .ok (some 2) :=
  (@decode_append [8, 1] [8, 2] (some 1) (by decide) (by decide +kernel)).trans (by decide +kernel)

end IronTraffic.Health
