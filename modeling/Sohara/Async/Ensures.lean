import Sohara.Async.BigStep

/-! # Postconditions of programs running alone

A program ensures a postcondition from a world when every way it may evaluate there ends
in it. The rules follow the program, so that what a sequential program computes is read
off by running it on paper.
-/

namespace Async

variable {S : Signature} {W α β : Type}

namespace Program

section Definitions

variable (body : S.Call → Program S S.Outcome) (handle : Handler S W)

/-- Whatever the program evaluates to from the world satisfies the postcondition. -/
def Ensures (program : Program S α) (world : W) (post : α → W → Prop) : Prop :=
  ∀ steps value after, Evaluates body handle program world steps value after → post value after

end Definitions

variable {body : S.Call → Program S S.Outcome} {handle : Handler S W} {world : W}
  {post : α → W → Prop} {last : β → W → Prop}

theorem ensures_pure {value : α} (holds : post value world) :
    Ensures body handle (pure value) world post := by
  intro steps result after evaluates
  obtain ⟨-, rfl, rfl⟩ := evaluates_pure.mp evaluates
  exact holds

theorem ensures_op {op : S.Op} {post : S.Response op → W → Prop}
    (holds : post (handle world op).1 (handle world op).2) :
    Ensures body handle (Program.op op) world post := by
  intro steps response after evaluates
  obtain ⟨-, rfl, rfl⟩ := evaluates_op.mp evaluates
  exact holds

/-- Sequencing rule. -/
theorem Ensures.bind {program : Program S α} {rest : α → Program S β}
    (first : Ensures body handle program world fun value middle =>
      Ensures body handle (rest value) middle last) :
    Ensures body handle (program >>= rest) world last := by
  intro steps result after evaluates
  obtain ⟨_, _, value, middle, -, left, right⟩ := evaluates_bind.mp evaluates
  exact first _ _ _ left _ _ _ right

theorem Ensures.mono {program : Program S α} {post' : α → W → Prop}
    (ensures : Ensures body handle program world post)
    (weaker : ∀ value after, post value after → post' value after) :
    Ensures body handle program world post' := fun _ _ _ evaluates =>
  weaker _ _ (ensures _ _ _ evaluates)

/-- One operation before the rest. -/
theorem ensures_op_bind {op : S.Op} {rest : S.Response op → Program S β}
    (others : Ensures body handle (rest (handle world op).1) (handle world op).2 last) :
    Ensures body handle (Program.op op >>= rest) world last := by
  intro steps result after evaluates
  obtain ⟨_, -, right⟩ := evaluates_op_bind evaluates
  exact others _ _ _ right

/-- The second program runs when the first one succeeds. -/
theorem Ensures.andThen {first second : Program S S.Outcome} {post : S.Outcome → W → Prop}
    (left : Ensures body handle first world fun outcome middle =>
      outcome = .ok () ∧ Ensures body handle second middle post) :
    Ensures body handle (first.andThen second) world post := by
  intro steps result after evaluates
  rcases evaluates_andThen.mp evaluates with ⟨failure, -, failed⟩ | ⟨_, _, middle, -, ran, rest⟩
  · cases (left _ _ _ failed).1
  · exact (left _ _ _ ran).2 _ _ _ rest

/-- A failure of the first program is one of the whole. -/
theorem Ensures.andThen_error {first second : Program S S.Outcome} {post : S.Outcome → W → Prop}
    (left : Ensures body handle first world fun outcome middle =>
      ∃ failure, outcome = .error failure ∧ post (.error failure) middle) :
    Ensures body handle (first.andThen second) world post := by
  intro steps result after evaluates
  rcases evaluates_andThen.mp evaluates with ⟨failure, rfl, failed⟩ | ⟨_, _, middle, -, ran, rest⟩
  · obtain ⟨_, same, holds⟩ := left _ _ _ failed
    cases same
    exact holds
  · obtain ⟨_, same, -⟩ := left _ _ _ ran
    cases same

/-- A call ensures what its body does. -/
theorem ensures_call {target : S.Call} {post : S.Outcome → W → Prop}
    (ensures : Ensures body handle (body target) world post) :
    Ensures body handle (Program.call target) world post := fun _ _ _ evaluates =>
  ensures _ _ _ (evaluates_call evaluates)

/-- A program without calls evaluates to something. -/
theorem exists_evaluates {program : Program S α}
    (safe : Safe (fun _ _ => True) (fun _ => True) (fun _ => False) program) (world : W) :
    ∃ steps value after, Evaluates body handle program world steps value after := by
  induction program generalizing world with
  | done value => exact ⟨[], value, world, .done ..⟩
  | perform op next ih =>
      obtain ⟨steps, value, after, evaluates⟩ :=
        ih (handle world op).1 (safe.2 _ trivial) (handle world op).2
      exact ⟨_, value, after, .perform evaluates⟩
  | await calls next ih =>
      obtain rfl : calls = [] := List.eq_nil_iff_forall_not_mem.mpr safe.1
      obtain ⟨steps, value, after, evaluates⟩ := ih (.ok ()) (safe.2 _) world
      exact ⟨_, value, after, .await (.refl ..) evaluates⟩

end Program

end Async
