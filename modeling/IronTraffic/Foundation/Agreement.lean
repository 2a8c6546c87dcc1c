import IronTraffic.Foundation.Worklist

/-! # Agreeing computations

Two fallible computations agree if they fail alike, or return values that are related.
Steps that agree make loops that agree.
-/

namespace IronTraffic

/-- Both fail with the same reason, or both return related values. -/
inductive Agree (Same : First → Second → Prop) : Except Reason First → Except Reason Second → Prop
  | ok {first : First} {second : Second} (same : Same first second) :
      Agree Same (.ok first) (.ok second)
  | error (reason : Reason) : Agree Same (.error reason) (.error reason)

namespace Agree

variable {Same : First → Second → Prop}

lemma bind {Later : Third → Fourth → Prop} {onward : First → Except Reason Third}
    {otherward : Second → Except Reason Fourth} (agree : Agree Same left right)
    (continues : ∀ first second, Same first second →
      Agree Later (onward first) (otherward second)) :
    Agree Later (left >>= onward) (right >>= otherward) := by
  cases agree with
  | ok same => exact continues _ _ same
  | error reason => exact .error reason

lemma refl (outcome : Except Reason First) : Agree Eq outcome outcome := by
  cases outcome with
  | ok value => exact .ok rfl
  | error reason => exact .error reason

lemma of_meets {Reason : Type*} {outcome : Fallible Reason First} {post : First → Prop}
    (holds : outcome.Meets post) :
    Agree (fun first second => first = second ∧ post first) outcome outcome := by
  cases outcome with
  | ok value => exact .ok ⟨rfl, holds⟩
  | error reason => exact .error reason

lemma eq {left right : Except Reason First} (agree : Agree Eq left right) : left = right := by
  cases agree with
  | ok same => rw [same]
  | error reason => rfl

lemma of_eq {left right : Except Reason First} (same : left = right) : Agree Eq left right :=
  same ▸ refl left

lemma drain {Entry FirstState SecondState Reason : Type}
    {SameState : FirstState → SecondState → Prop}
    {visit : FirstState → Entry → Fallible Reason (FirstState × List Entry)}
    {other : SecondState → Entry → Fallible Reason (SecondState × List Entry)}
    (visits : ∀ first second entry, SameState first second →
      Agree (fun one two => SameState one.1 two.1 ∧ one.2 = two.2) (visit first entry)
        (other second entry)) {fuel : Nat} {stack : List Entry}
    {first : FirstState} {second : SecondState} (same : SameState first second) :
    Agree SameState (Worklist.drain visit fuel stack first)
      (Worklist.drain other fuel stack second) := by
  induction fuel generalizing stack first second with
  | zero =>
    cases stack with
    | nil => exact .ok same
    | cons entry rest => exact .error _
  | succ fuel induction =>
    cases stack with
    | nil => exact .ok same
    | cons entry rest =>
      apply (visits first second entry same).bind
      intro one two both
      rcases one with ⟨one, pushed⟩
      rcases both with ⟨states, pushes⟩
      cases pushes
      exact induction states

end Agree

end IronTraffic
