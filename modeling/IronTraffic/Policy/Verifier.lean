import IronTraffic.Policy.Machine

/-! # Soundness of the bytecode verifier

The depths `verify` records are an invariant of the evaluator: the operand
stack at an executed instruction is as deep as recorded, every jump goes
forward and stays inside the program, and so a run ends within one step for
each instruction.
-/

namespace IronTraffic.Policy

open Program

open List

/-! ## The recorded depths -/

/-- The depths recorded so far are kept in `later`. -/
def Extends (depths later : List Int) : Prop :=
  later.length = depths.length ∧
    ∀ (spot : Nat) (depth : Int), depths[spot]? = some depth → 0 ≤ depth →
      later[spot]? = some depth

lemma Extends.refl (depths) : Extends depths depths :=
  ⟨rfl, fun _ _ hit _ => hit⟩

lemma Extends.trans (left : Extends first second) (right : Extends second third) :
    Extends first third :=
  ⟨right.1.trans left.1, fun spot depth hit reached =>
    right.2 spot depth (left.2 spot depth hit reached) reached⟩

def OperandInRange (program : Program) : Op → Prop
  | .loadConst index => index < program.consts.length
  | .loadAttr index => index < program.slots.length
  | .regexMatch index => index < program.regexes.length
  | .inSet index => ∃ start len, program.consts[index]? = some (.list start len)
  | _ => True

/-- The successors of an instruction at `spot`, entered at `depth`, are
recorded with the depths it leaves behind. -/
def SuccessorsRecorded (depths : List Int) (spot : Nat) (op : Op) (depth : Int) : Prop :=
  match op with
  | .ret => depth = 1
  | .jump target => spot < target ∧ depths[target]? = some depth
  | .jumpIfFalse target | .jumpIfTrue target =>
    spot < target ∧ depths[target]? = some depth ∧ depths[spot + 1]? = some (depth - 1)
  | .branchIfFalse target =>
    spot < target ∧ depths[target]? = some (depth - 1) ∧
      depths[spot + 1]? = some (depth - 1)
  | _ => depths[spot + 1]? = some (depth - (effect op).1 + (effect op).2)

/-- What the verifier established about an instruction some path reaches. -/
structure Admitted (program : Program) (depths : List Int) (spot : Nat) (op : Op)
    (depth : Int) : Prop where
  operand : OperandInRange program op
  enough : (effect op).1 ≤ depth
  room : depth - (effect op).1 + (effect op).2 ≤ stackLimit
  successors : SuccessorsRecorded depths spot op depth

variable {depths recorded later : List Int} {spot target pc : Nat} {program : Program}
  {op : Op} {next depth : Int} {stack : Stack} {env : Env}

lemma merge_spec (inside : spot < depths.length)
    (accepted : merge depths spot incoming = .ok merged) :
    Extends depths merged ∧ merged[spot]? = some incoming ∧ ∀ other, other ≠ spot →
      merged[other]? = depths[other]? := by
  rw [merge, getElem?_eq_getElem inside] at accepted
  simp only at accepted
  split at accepted
  case isTrue unreached =>
    cases accepted
    have elsewhere : ∀ other, other ≠ spot →
        (depths.set spot incoming)[other]? = depths[other]? := fun other apart =>
      getElem?_set_ne (Ne.symm apart)
    refine ⟨⟨length_set, ?_⟩, getElem?_set_self inside, elsewhere⟩
    intro other depth hit nonneg
    by_cases same : other = spot
    · subst other
      rw [getElem?_eq_getElem inside, Option.some.injEq] at hit
      omega
    · rw [elsewhere other same]
      exact hit
  case isFalse recorded =>
    split at accepted
    case isTrue equal =>
      cases accepted
      refine ⟨Extends.refl _, ?_, fun _ _ => rfl⟩
      rw [getElem?_eq_getElem inside, equal]
    case isFalse => cases accepted

lemma checkOperand_spec
    (accepted : checkOperand op spot program.consts program.slots program.regexes.length = .ok ()) :
    OperandInRange program op := by
  cases op with
  | loadConst index | loadAttr index | regexMatch index =>
    simp only [checkOperand] at accepted
    split at accepted
    · assumption
    · cases accepted
  | inSet index =>
    simp only [checkOperand] at accepted
    split at accepted
    case h_1 start len hit => exact ⟨start, len, hit⟩
    case h_2 => cases accepted
  | _ => trivial

private lemma record_both (forward : spot < target)
    (inside : target < depths.length) (reached : 0 ≤ taken)
    (accepted : (do
      let depths ← merge depths target taken
      merge depths (spot + 1) next) = .ok recorded) :
    Extends depths recorded ∧ (∀ other ≤ spot, recorded[other]? = depths[other]?) ∧
      recorded[target]? = some taken ∧ recorded[spot + 1]? = some next := by
  rcases bind_eq_ok_iff.mp accepted with ⟨middle, first, second⟩
  rcases merge_spec inside first with ⟨extended, hit, elsewhere⟩
  have followingInside : spot + 1 < middle.length := by
    rw [extended.1]
    omega
  rcases merge_spec followingInside second with ⟨extendedAgain, foundNext, elsewhereAgain⟩
  refine ⟨extended.trans extendedAgain, ?_, ?_, foundNext⟩
  · intro other before
    rw [elsewhereAgain other (by omega), elsewhere other (by omega)]
  · exact extendedAgain.2 target taken hit reached

private lemma record_next (inside : spot + 1 < depths.length)
    (accepted : merge depths (spot + 1) next = .ok recorded) :
    Extends depths recorded ∧ (∀ other ≤ spot, recorded[other]? = depths[other]?) ∧
      recorded[spot + 1]? = some next := by
  rcases merge_spec inside accepted with ⟨extended, hit, elsewhere⟩
  exact ⟨extended, fun other before => elsewhere other (by omega), hit⟩

private lemma target_of_accepted {continued : Except VerifyError (List Int)}
    (accepted : (if target ≤ spot then .error (.backwardJump (toU16 spot) target)
      else if len ≤ target then .error (.jumpOutOfRange (toU16 spot) target (toU16 len))
      else continued) = .ok recorded) :
    spot < target ∧ target < len ∧ continued = .ok recorded := by
  rcases of_ite_error accepted with ⟨forward, accepted⟩
  rcases of_ite_error accepted with ⟨inside, accepted⟩
  exact ⟨by omega, by omega, accepted⟩

lemma recordSuccessors_spec (enough : (effect op).1 ≤ depth) (reached : 0 ≤ depth)
    (following : op ≠ .ret → spot + 1 < depths.length)
    (accepted : recordSuccessors depths.length spot op depth
      (depth - (effect op).1 + (effect op).2) depths = .ok recorded) :
    Extends depths recorded ∧ (∀ other ≤ spot, recorded[other]? = depths[other]?) ∧
      SuccessorsRecorded recorded spot op depth := by
  cases op with
  | ret =>
    simp only [recordSuccessors] at accepted
    split at accepted
    case isTrue singleton =>
      cases accepted
      exact ⟨Extends.refl _, fun _ _ => rfl, singleton⟩
    case isFalse => cases accepted
  | jump target =>
    simp only [recordSuccessors, depthAfterJump] at accepted
    rcases target_of_accepted accepted with ⟨forward, inside, merged⟩
    rcases bind_eq_ok_iff.mp merged with ⟨_, first, returned⟩
    cases returned
    rcases merge_spec inside first with ⟨extended, hit, elsewhere⟩
    exact ⟨extended, fun other before => elsewhere other (by omega), forward, hit⟩
  | jumpIfFalse target | jumpIfTrue target =>
    simp only [recordSuccessors, depthAfterJump, effect] at accepted
    rcases target_of_accepted accepted with ⟨forward, inside, merged⟩
    rcases record_both forward inside reached merged with ⟨extended, before, taken, next⟩
    refine ⟨extended, before, forward, taken, ?_⟩
    rw [next, Int.add_zero]
  | branchIfFalse target =>
    simp only [recordSuccessors, depthAfterJump, effect] at accepted
    simp only [effect] at enough
    rcases target_of_accepted accepted with ⟨forward, inside, merged⟩
    have popped : 0 ≤ depth - 1 := by omega
    rcases record_both forward inside popped merged with ⟨extended, before, taken, next⟩
    refine ⟨extended, before, forward, taken, ?_⟩
    rw [next, Int.add_zero]
  | _ => exact record_next (following (by simp)) accepted

lemma SuccessorsRecorded.of_extends (extended : Extends depths later)
    (enough : (effect op).1 ≤ depth) (reached : 0 ≤ depth)
    (holds : SuccessorsRecorded depths spot op depth) :
    SuccessorsRecorded later spot op depth := by
  have keep := extended.2
  cases op with
  | ret => exact holds
  | jump target => exact ⟨holds.1, keep _ _ holds.2 reached⟩
  | jumpIfFalse target | jumpIfTrue target =>
    simp only [effect] at enough
    exact ⟨holds.1, keep _ _ holds.2.1 reached, keep _ _ holds.2.2 (by omega)⟩
  | branchIfFalse target =>
    simp only [effect] at enough
    exact ⟨holds.1, keep _ _ holds.2.1 (by omega), keep _ _ holds.2.2 (by omega)⟩
  | _ =>
    simp only [effect] at enough
    apply keep _ _ holds
    simp only [effect]
    omega

lemma Admitted.of_extends (extended : Extends depths later) (reached : 0 ≤ depth)
    (holds : Admitted program depths spot op depth) :
    Admitted program later spot op depth :=
  { holds with successors := holds.successors.of_extends extended holds.enough reached }

lemma verifyOp_spec (following : op ≠ .ret → spot + 1 < depths.length)
    (accepted : verifyOp program.consts program.slots program.regexes.length depths.length spot
      op depths = .ok recorded) :
    Extends depths recorded ∧ (∀ other ≤ spot, recorded[other]? = depths[other]?) ∧ ∀ depth,
      depths[spot]? = some depth → 0 ≤ depth → Admitted program recorded spot op depth := by
  unfold verifyOp at accepted
  cases hit : depths[spot]? with
  | none =>
    rw [hit] at accepted
    cases accepted
    exact ⟨Extends.refl _, fun _ _ => rfl, fun _ impossible => by cases impossible⟩
  | some depth =>
    rw [hit] at accepted
    simp only at accepted
    split at accepted
    case isTrue unreached =>
      cases accepted
      refine ⟨Extends.refl _, fun _ _ => rfl, ?_⟩
      intro other equal reached
      cases equal
      omega
    case isFalse reached =>
      rcases bind_eq_ok_iff.mp accepted with ⟨_, operand, accepted⟩
      rcases of_ite_error accepted with ⟨enough, accepted⟩
      rcases of_ite_error accepted with ⟨room, accepted⟩
      have nonneg : 0 ≤ depth := by omega
      have deep : (effect op).1 ≤ depth := by omega
      rcases recordSuccessors_spec deep nonneg following accepted with
        ⟨extended, before, successors⟩
      refine ⟨extended, before, ?_⟩
      intro other equal _
      cases equal
      exact ⟨checkOperand_spec operand, deep, by omega, successors⟩

/-- The loop admits every instruction of `rest` that some path reaches. -/
lemma verifyFrom_spec (rest) (spot : Nat) (depths final)
    (following : ∀ offset op, rest[offset]? = some op → op ≠ .ret →
      spot + offset + 1 < depths.length)
    (accepted : verifyFrom program.consts program.slots program.regexes.length depths.length
      spot rest depths = .ok final) :
    Extends depths final ∧ (∀ other < spot, final[other]? = depths[other]?) ∧ ∀ offset op depth,
      rest[offset]? = some op → final[spot + offset]? = some depth → 0 ≤ depth →
      Admitted program final (spot + offset) op depth := by
  induction rest generalizing spot depths final with
  | nil =>
    cases accepted
    refine ⟨Extends.refl _, fun _ _ => rfl, ?_⟩
    intro offset op depth missing
    cases missing
  | cons op rest induction =>
    rw [verifyFrom] at accepted
    rcases bind_eq_ok_iff.mp accepted with ⟨recorded, first, accepted⟩
    rcases verifyOp_spec (following 0 op rfl) first with ⟨extended, before, admitted⟩
    have same : recorded.length = depths.length := extended.1
    have remaining := induction (spot + 1) recorded final
      (by
        intro offset later hit apart
        have bound := following (offset + 1) later (by simpa using hit) apart
        omega)
      (by rw [same]; exact accepted)
    rcases remaining with ⟨extendedLater, beforeLater, admittedLater⟩
    refine ⟨extended.trans extendedLater, ?_, ?_⟩
    · intro other earlier
      rw [beforeLater other (by omega), before other (by omega)]
    intro offset later depth hit reached nonneg
    cases offset with
    | zero =>
      cases hit
      rw [add_zero] at reached
      rw [beforeLater spot (by omega), before spot (le_refl _)] at reached
      exact (admitted depth reached nonneg).of_extends extendedLater nonneg
    | succ offset =>
      have shifted : spot + (offset + 1) = spot + 1 + offset := by omega
      rw [shifted] at reached ⊢
      exact admittedLater offset later depth (by simpa using hit) reached nonneg

structure Verified (program : Program) (depths : List Int) : Prop where
  length : depths.length = program.ops.length
  entry : depths[0]? = some 0
  admitted : ∀ spot op depth, program.ops[spot]? = some op →
    depths[spot]? = some depth → 0 ≤ depth → Admitted program depths spot op depth

lemma verified_of_recordDepths
    (accepted : recordDepths program.ops program.consts program.slots program.regexes.length
      limits = .ok depths) :
    Verified program depths ∧ program.ops.length ≤ u16Max := by
  unfold recordDepths at accepted
  rcases of_ite_error accepted with ⟨few, accepted⟩
  split at accepted
  case isFalse => cases accepted
  case isTrue last =>
    have nonempty : program.ops ≠ [] := by
      intro empty
      rw [empty] at last
      cases last
    have positive : 0 < program.ops.length := length_pos_iff.mpr nonempty
    have initialLength :
        ((replicate program.ops.length (-1 : Int)).set 0 0).length = program.ops.length := by
      rw [length_set, length_replicate]
    have following : ∀ offset op, program.ops[offset]? = some op → op ≠ .ret →
        0 + offset + 1 < ((replicate program.ops.length (-1 : Int)).set 0 0).length := by
      intro offset op hit apart
      have inside : offset < program.ops.length := lt_of_getElem? hit
      by_cases final : offset + 1 = program.ops.length
      · rw [getLast?_eq_getElem?] at last
        have spot : program.ops.length - 1 = offset := by omega
        rw [spot, hit] at last
        exact absurd (Option.some.inj last) apart
      · omega
    rcases verifyFrom_spec program.ops 0 _ depths following
      (by rw [initialLength]; exact accepted) with ⟨extended, _, admitted⟩
    have small := limits.maxOps.toNat_lt
    refine ⟨⟨extended.1.trans initialLength, ?_, ?_⟩, by simp only [u16Max]; omega⟩
    · apply extended.2 0 0 _ (le_refl _)
      apply getElem?_set_self
      rw [length_replicate]
      exact positive
    · intro spot op depth hit reached nonneg
      have holds := admitted spot op depth hit
      rw [zero_add] at holds
      exact holds reached nonneg

/-! ## What an instruction does to the depth -/

/-- The instruction reads a table entry the verifier does not look at: a list
constant, or a slot the cache has no cell for. -/
def ReadsUnchecked (program : Program) (op : Op) : Prop :=
  (∃ index start len, op = .loadConst index ∧ program.consts[index]? = some (.list start len)) ∨
  ∃ index, op = .loadAttr index ∧ Env.maxSlots ≤ index

def Faults (program : Program) (op : Op) : EvalError → Prop
  | .typeError _ => True
  | .badOperand _ => ReadsUnchecked program op
  | _ => False

section Operands

lemma push_ensures (room : stack.length < stackLimit) (value : Value) :
    Ensures (push stack pc value) (Faults program op) fun pushed =>
      pushed.length = stack.length + 1 := by
  simp only [push, room, if_true]
  rfl

/-- Takes one operand from the stack, or finds it of the wrong type. -/
def Pops (program : Program) (op : Op)
    (popping : Stack → Nat → Except EvalError (Operand × Stack)) : Prop :=
  ∀ ⦃stack pc⦄, 1 ≤ stack.length → Ensures (popping stack pc) (Faults program op) fun popped =>
    popped.2.length + 1 = stack.length

lemma pop_ensures : Pops program op pop
  | _ :: _, _, _ => rfl

lemma popInt_ensures : Pops program op popInt
  | top :: _, _, _ => by cases top <;> trivial

lemma popBool_ensures : Pops program op popBool
  | top :: _, _, _ => by cases top <;> trivial

lemma popStrOrNull_ensures : Pops program op popStrOrNull
  | top :: _, _, _ => by cases top <;> trivial

lemma peekBool_ensures (deep : 1 ≤ stack.length) :
    Ensures (peekBool stack pc) (Faults program op) fun _ => True := by
  cases stack with
  | nil => simp at deep
  | cons top rest => cases top <;> trivial

section

variable (deep : 2 ≤ stack.length) (limit : stack.length ≤ stackLimit + 1)

include deep limit

lemma compare_ensures {popping : Stack → Nat → Except EvalError (Operand × Stack)}
    (pops : Pops program op popping) (answer : Operand → Operand → Value) :
    Ensures (do
        let (right, stack) ← popping stack pc
        let (left, stack) ← popping stack pc
        push stack pc (answer left right)) (Faults program op) fun pushed =>
      pushed.length + 1 = stack.length := by
  apply (pops (by omega)).bind
  intro right first
  apply (pops (by omega)).bind
  intro left second
  apply (push_ensures (by omega) _).mono
  omega

lemma compareValues_ensures (test) :
    Ensures (compareValues test stack pc) (Faults program op)
      fun pushed => pushed.length + 1 = stack.length :=
  compare_ensures deep limit pop_ensures fun left right => .bool (test left right)

lemma compareInts_ensures (test) :
    Ensures (compareInts test stack pc) (Faults program op)
      fun pushed => pushed.length + 1 = stack.length :=
  compare_ensures deep limit popInt_ensures fun left right => .bool (test left right)

lemma compareStrings_ensures (test) :
    Ensures (compareStrings test stack pc) (Faults program op)
      fun pushed => pushed.length + 1 = stack.length :=
  compare_ensures deep limit popStrOrNull_ensures fun left right =>
    .bool (testStrings test left right)

end

end Operands

def Op.Plain : Op → Prop
  | .loadAttr _ | .jumpIfFalse _ | .jumpIfTrue _ | .branchIfFalse _ | .jump _ | .ret => False
  | _ => True

lemma operate_ensures (engine) (plain : op.Plain) (operand : OperandInRange program op)
    (enough : (effect op).1 ≤ stack.length)
    (room : (stack.length : Int) - (effect op).1 + (effect op).2 ≤ stackLimit) :
    Ensures (operate engine program op stack pc) (Faults program op) fun pushed =>
      (pushed.length : Int) = stack.length - (effect op).1 + (effect op).2 := by
  cases op <;> simp only [effect] at enough room ⊢
  case loadConst index =>
    simp only [operate, constValue]
    have inside : index < program.consts.length := operand
    rw [getElem?_eq_getElem inside]
    cases hit : program.consts[index] with
    | list start len =>
      -- The verifier admits a list constant here; the evaluator refuses it.
      left
      refine ⟨index, start, len, rfl, ?_⟩
      rw [getElem?_eq_getElem inside, hit]
    | _ =>
      apply (push_ensures (by omega) _).mono
      omega
  case inSet index =>
    rcases operand with ⟨start, len, hit⟩
    simp only [operate, listOf, hit]
    apply (pop_ensures (by omega)).bind
    intro popped rest
    apply (push_ensures (by omega) _).mono
    omega
  case regexMatch index =>
    have inside : index < program.regexes.length := operand
    simp only [operate, regex, getElem?_eq_getElem inside]
    apply (popStrOrNull_ensures (by omega)).bind
    intro popped rest
    apply (push_ensures (by omega) _).mono
    omega
  case size =>
    apply (pop_ensures (by omega)).bind
    intro popped rest
    rcases popped with ⟨value, stack'⟩
    cases value with
    | str bytes =>
      apply (push_ensures (by simp only at rest; omega) _).mono
      intro pushed length
      simp only at rest length
      omega
    | _ => trivial
  case not =>
    apply (popBool_ensures (by omega)).bind
    intro popped rest
    apply (push_ensures (by omega) _).mono
    omega
  case loadAttr | jumpIfFalse | jumpIfTrue | branchIfFalse | jump | ret => cases plain
  case eq | ne =>
    simp only [operate]
    apply (compareValues_ensures (by omega) (by omega) _).mono
    omega
  case lt | le | gt | ge =>
    simp only [operate]
    apply (compareInts_ensures (by omega) (by omega) _).mono
    omega
  case startsWith | endsWith | contains | eqIgnoreCase | startsWithIgnoreCase =>
    apply (compareStrings_ensures (by omega) (by omega) _).mono
    omega

/-! ## The depth invariant of a run -/

/-- The machine stands at an instruction the verifier reached, with the operand
stack as deep as recorded there. -/
structure Tracks (program : Program) (depths : List Int) (machine : Machine) : Prop where
  depth : depths[machine.pc]? = some (machine.stack.length : Int)
  used : machine.env.used = program.slots.length

lemma Env.slot_ensures (source) (used : env.used = program.slots.length)
    (inside : index < program.slots.length) :
    Ensures (env.slot index source program) (Faults program (.loadAttr index)) fun resolved =>
      resolved.2.used = program.slots.length := by
  unfold Env.slot
  split
  case isTrue outside =>
    right
    refine ⟨index, rfl, ?_⟩
    omega
  case isFalse =>
    split
    case h_1 value hit => exact used
    case h_2 empty =>
      rw [getElem?_eq_getElem inside]
      exact used

def Continues (program : Program) (depths : List Int) (pc : Nat) : Effect → Prop
  | .fallThrough stack env => Tracks program depths ⟨pc + 1, stack, env⟩
  | .goTo target stack env => pc < target ∧ Tracks program depths ⟨target, stack, env⟩
  | .return _ => True

lemma execute_ensures (engine source) (admitted : Admitted program depths pc op stack.length)
    (used : env.used = program.slots.length) :
    Ensures (execute engine program source op stack env pc) (Faults program op)
      (Continues program depths pc) := by
  have enough := admitted.enough
  have room := admitted.room
  have successors := admitted.successors
  cases op with
  | loadAttr index =>
    simp only [effect] at enough room
    apply (Env.slot_ensures source used admitted.operand).bind
    intro resolved keeps
    apply (push_ensures (by omega) resolved.1).bind
    intro pushed length
    refine ⟨?_, keeps⟩
    simp only [SuccessorsRecorded, effect] at successors
    simp only [successors, length]
    push_cast
    ring_nf
  | jumpIfFalse target | jumpIfTrue target =>
    simp only [effect] at enough
    rcases successors with ⟨forward, taken, next⟩
    apply (peekBool_ensures (by omega)).bind
    intro flag _
    have falls : Tracks program depths ⟨pc + 1, stack.tail, env⟩ := by
      refine ⟨?_, used⟩
      simp only [length_tail, next]
      congr 1
      omega
    cases flag with
    | false | true => first | exact falls | exact ⟨forward, taken, used⟩
  | branchIfFalse target =>
    simp only [effect] at enough
    rcases successors with ⟨forward, taken, next⟩
    apply (popBool_ensures (by omega)).bind
    intro popped rest
    have shallower : (stack.length : Int) - 1 = popped.2.length := by omega
    rw [shallower] at taken next
    cases flag : popped.1 with
    | false =>
      simp only [flag]
      exact ⟨forward, taken, used⟩
    | true =>
      simp only [flag]
      exact ⟨next, used⟩
  | jump target => exact ⟨successors.1, successors.2, used⟩
  | ret =>
    have singleton : (stack.length : Int) = 1 := successors
    rcases length_eq_one_iff.mp (by omega : stack.length = 1) with ⟨value, rfl⟩
    trivial
  | _ =>
    apply (operate_ensures engine (by exact trivial) admitted.operand enough room).bind
    intro pushed length
    refine ⟨?_, used⟩
    simp only [length]
    exact successors

lemma Tracks.inside {machine} (verified : Verified program depths)
    (tracks : Tracks program depths machine) : machine.pc < program.ops.length := by
  have hit := lt_of_getElem? tracks.depth
  rw [verified.length] at hit
  exact hit

section Steps

variable (engine : RegexEngine) (source : AttrSource) (verified : Verified program depths)
  {machine : Machine}

include verified

lemma step_cases (tracks : Tracks program depths machine) :
    (∃ following, step engine program source machine = .next following ∧
      machine.pc < following.pc ∧ Tracks program depths following) ∨
    (∃ value, step engine program source machine = .halt (.ok value)) ∨
    ∃ op reason, program.ops[machine.pc]? = some op ∧ Faults program op reason ∧
      step engine program source machine = .halt (.error reason) := by
  have inside := tracks.inside verified
  have hit : program.ops[machine.pc]? = some program.ops[machine.pc] :=
    getElem?_eq_getElem inside
  have admitted := verified.admitted _ _ _ hit tracks.depth (Int.natCast_nonneg _)
  have ensured := execute_ensures engine source admitted tracks.used
  simp only [step, hit]
  cases executed : execute engine program source program.ops[machine.pc] machine.stack
      machine.env machine.pc with
  | error reason =>
    rw [executed] at ensured
    exact .inr (.inr ⟨_, reason, rfl, ensured, rfl⟩)
  | ok outcome =>
    rw [executed] at ensured
    cases outcome with
    | fallThrough stack env =>
      left
      exact ⟨_, rfl, Nat.lt_succ_self _, ensured⟩
    | goTo target stack env =>
      left
      exact ⟨_, rfl, ensured.1, ensured.2⟩
    | «return» value =>
      right
      left
      exact ⟨value, rfl⟩

lemma tracks_of_next (tracks : Tracks program depths machine)
    (moves : step engine program source machine = .next following) :
    machine.pc < following.pc ∧ Tracks program depths following := by
  rcases step_cases engine source verified tracks with
    ⟨other, equal, forward, holds⟩ | ⟨value, halts⟩ | ⟨op, reason, hit, fault, halts⟩
  · rw [moves] at equal
    cases equal
    exact ⟨forward, holds⟩
  · rw [moves] at halts
    cases halts
  · rw [moves] at halts
    cases halts

private lemma descends_of_verified :
    Descends (step engine program source) (Tracks program depths) fun machine =>
      program.ops.length - machine.pc where
  positive _ tracks := Nat.sub_pos_of_lt (tracks.inside verified)
  keeps machine following tracks moves := by
    have inside := tracks.inside verified
    rcases tracks_of_next engine source verified tracks moves with ⟨forward, kept⟩
    exact ⟨kept, by omega⟩

lemma Verified.initial_tracks : Tracks program depths (.initial (Env.new program.slots.length)) :=
  ⟨verified.entry, rfl⟩

lemma executed_tracks :
    ∀ machine ∈ executed engine program source (Env.new program.slots.length),
      Tracks program depths machine :=
  visited_invariant (descends_of_verified engine source verified) _ _ verified.initial_tracks

lemma executed_length_le :
    (executed engine program source (Env.new program.slots.length)).length ≤ program.ops.length :=
  visited_length_le (descends_of_verified engine source verified) _ _ verified.initial_tracks

lemma runFor_of_verified (fits : program.ops.length ≤ u16Max) :
    ∃ outcome, runFor (step engine program source) (stepBudget program + 1)
      (.initial (Env.new program.slots.length)) = some outcome := by
  apply runFor_isSome (descends_of_verified engine source verified) _ _ verified.initial_tracks
  simp only [stepBudget, toU32, u16Max, Machine.initial] at fits ⊢
  omega

/-- `eval` returns what the first halting machine it reaches returns. -/
lemma eval_of_reaches (fits : program.ops.length ≤ u16Max)
    (reaches : Reaches (step engine program source) (.initial (Env.new program.slots.length))
      machine)
    (halts : step engine program source machine = .halt outcome) :
    eval engine program source (Env.new program.slots.length) = outcome := by
  rcases runFor_of_verified engine source verified fits with ⟨other, gave⟩
  have equal := runFor_of_reaches reaches halts _ _ gave
  simp only [eval, gave]
  exact equal

end Steps

private lemma effect_bounds (op : Op) : (effect op).1 ≤ 2 ∧ 0 ≤ (effect op).2 := by
  cases op <;> simp [effect]

/-- The maximum `verify` returns bounds every recorded depth. -/
private lemma le_of_verify {max depth : Nat}
    (bounded : (depths.filter fun depth => 0 ≤ depth).max?.elim 0 clampU8 = max)
    (small : depth ≤ 255) (hit : depths[spot]? = some (depth : Int)) : depth ≤ max := by
  have mem : (depth : Int) ∈ depths.filter fun depth => 0 ≤ depth := by
    rw [mem_filter]
    exact ⟨mem_of_getElem? hit, by simp⟩
  cases largest : (depths.filter fun depth => 0 ≤ depth).max? with
  | none =>
    rw [max?_eq_none_iff] at largest
    rw [largest] at mem
    cases mem
  | some top =>
    have below := (max?_eq_some_iff.mp largest).2 depth mem
    rw [largest] at bounded
    simp only [Option.elim, clampU8] at bounded
    omega

/-- What verification promises about an evaluation: it takes at most one step an
instruction, on a stack as deep as recorded, and ends with a value, with a type
error, or at an operand the verifier does not look at. -/
structure RunsAsVerified (engine : RegexEngine) (program : Program) (source : AttrSource)
    (depths : List Int) (max : Nat) : Prop where
  steps : (executed engine program source (Env.new program.slots.length)).length ≤
    program.ops.length
  depth : ∀ machine ∈ executed engine program source (Env.new program.slots.length),
    depths[machine.pc]? = some (machine.stack.length : Int) ∧ machine.stack.length ≤ max
  errors : ∀ reason, eval engine program source (Env.new program.slots.length) = .error reason →
      (∃ pc, reason = .typeError pc) ∨
      ∃ operand, reason = .badOperand operand ∧
        ∃ machine ∈ executed engine program source (Env.new program.slots.length),
        ∃ op, program.ops[machine.pc]? = some op ∧ ReadsUnchecked program op ∧
          step engine program source machine = .halt (.error reason)

lemma errors_of_verified (engine source)
    (verified : Verified program depths) (fits : program.ops.length ≤ u16Max)
    (failed : eval engine program source (Env.new program.slots.length) = .error reason) :
    ∃ machine ∈ executed engine program source (Env.new program.slots.length), ∃ op,
      program.ops[machine.pc]? = some op ∧ Faults program op reason ∧
      step engine program source machine = .halt (.error reason) := by
  rcases runFor_of_verified engine source verified fits with ⟨outcome, gave⟩
  simp only [eval, gave] at failed
  subst outcome
  rcases exists_halting_of_runFor _ _ _ gave with ⟨machine, mem, halts⟩
  have tracks := executed_tracks engine source verified machine mem
  rcases step_cases engine source verified tracks with
    ⟨following, moves, _⟩ | ⟨value, done⟩ | ⟨op, other, hit, fault, stops⟩
  · rw [moves] at halts
    cases halts
  · rw [done] at halts
    cases halts
  · have same : other = reason := by
      rw [stops] at halts
      cases halts
      rfl
    subst other
    exact ⟨machine, mem, op, hit, fault, halts⟩

/-- Verifier soundness for arbitrary bytecode and tables. -/
theorem verify_sound (engine : RegexEngine) (program : Program) (limits : PolicyLimits)
    (source : AttrSource) (max : Nat)
    (accepted : verify program.ops program.consts program.slots program.regexes.length limits =
      .ok max) :
    ∃ depths, recordDepths program.ops program.consts program.slots program.regexes.length limits =
        .ok depths ∧
      RunsAsVerified engine program source depths max := by
  rcases bind_eq_ok_iff.mp accepted with ⟨depths, recorded, returned⟩
  have bounded := Except.ok.inj returned
  rcases verified_of_recordDepths recorded with ⟨verified, fits⟩
  refine ⟨depths, recorded, executed_length_le engine source verified, ?_, ?_⟩
  · intro machine mem
    have tracks := executed_tracks engine source verified machine mem
    refine ⟨tracks.depth, ?_⟩
    apply le_of_verify bounded _ tracks.depth
    have inside := tracks.inside verified
    have room := (verified.admitted _ _ _ (getElem?_eq_getElem inside) tracks.depth
      (Int.natCast_nonneg _)).room
    have bounds := effect_bounds program.ops[machine.pc]
    simp only [stackLimit] at room
    omega
  · intro reason failed
    rcases errors_of_verified engine source verified fits failed with
      ⟨machine, mem, op, hit, fault, halts⟩
    cases reason with
    | typeError pc => exact .inl ⟨pc, rfl⟩
    | badOperand operand =>
      exact .inr ⟨operand, rfl, machine, mem, op, hit, fault, halts⟩
    | badPc | stackUnderflow | stackOverflow | stepBudget => cases fault

/-- `connection.tls && true` as bytecode. -/
def shortCircuit : Program where
  ops := [.loadAttr 0, .jumpIfFalse 3, .loadConst 0, .ret]
  consts := [.bool true]
  listElems := []
  strings := []
  slots := [.scalar .connectionTls]
  regexes := []
  result := .bool
  phase := .requestHeaders
  maxStack := 1

def plaintext : AttrSource where
  scalar
    | .connectionTls => .bool false
    | _ => .null
  field _ _ := .absent

def neverMatches : RegexEngine := ⟨fun _ _ => .ok (), fun _ _ => false⟩

theorem shortCircuit_runs_as_verified :
    verify shortCircuit.ops shortCircuit.consts shortCircuit.slots
      shortCircuit.regexes.length PolicyLimits.defaults = .ok 1 ∧
    ∃ depths, recordDepths shortCircuit.ops shortCircuit.consts shortCircuit.slots
        shortCircuit.regexes.length PolicyLimits.defaults = .ok depths ∧
      RunsAsVerified neverMatches shortCircuit plaintext depths 1 :=
  ⟨by decide, verify_sound neverMatches shortCircuit .defaults plaintext 1 (by decide)⟩

end IronTraffic.Policy
