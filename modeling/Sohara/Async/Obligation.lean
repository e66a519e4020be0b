import Sohara.Async.History

/-! # Obligations

Some operations raise an obligation that a later operation of the same program has to meet.
When tasks without calls honor what they raise, then in every run each obligation raised so far
has been met since by some task, or is still owed by one; once all tasks are done, all are met.
-/

namespace Async

variable {S : Signature} {W α β : Type}

namespace Program

section Definitions

variable (admits : (op : S.Op) → S.Response op → Prop) (raises meets : S.Op → Prop)

/-- The program meets an obligation before it is done. -/
def Owes : Program S α → Prop
  | .done _ => False
  | .perform op next => meets op ∨ ∀ response, admits op response → Owes (next response)
  | .await calls next => calls = [] ∧ ∀ outcome, Owes (next outcome)

/-- Without calls, the program meets every obligation that it raises. -/
def Honors : Program S α → Prop
  | .done _ => True
  | .perform op next => ∀ response, admits op response →
      (raises op → (next response).Owes admits meets) ∧ Honors (next response)
  | .await calls next => calls = [] ∧ ∀ outcome, Honors (next outcome)

end Definitions

variable {admits : (op : S.Op) → S.Response op → Prop} {raises meets : S.Op → Prop}

theorem Owes.bind {program : Program S α} (next : α → Program S β)
    (owes : program.Owes admits meets) : (program >>= next).Owes admits meets := by
  show (program.bind next).Owes admits meets
  induction program with
  | done => exact owes.elim
  | perform op rest ih =>
      rcases owes with now | later
      · exact .inl now
      · exact .inr fun response admitted => ih response (later response admitted)
  | await calls rest ih => exact ⟨owes.1, fun outcome => ih outcome (owes.2 outcome)⟩

theorem Honors.bind {program : Program S α} {next : α → Program S β}
    (first : program.Honors admits raises meets)
    (rest : ∀ value, (next value).Honors admits raises meets) :
    (program >>= next).Honors admits raises meets := by
  show (program.bind next).Honors admits raises meets
  induction program with
  | done value => exact rest value
  | perform op after ih =>
      intro response admitted
      obtain ⟨owes, later⟩ := first response admitted
      exact ⟨fun raised => (owes raised).bind next, ih response later⟩
  | await calls after ih => exact ⟨first.1, fun outcome => ih outcome (first.2 outcome)⟩

/-- Programs that raise nothing. -/
theorem honors_of_safe {program : Program S α}
    (safe : Safe admits (fun op => ¬ raises op) (fun _ => False) program) :
    program.Honors admits raises meets := by
  induction program with
  | done => exact trivial
  | perform op next ih =>
      exact fun response admitted =>
        ⟨fun raised => absurd raised safe.1, ih response (safe.2 response admitted)⟩
  | await calls next ih =>
      exact ⟨List.eq_nil_iff_forall_not_mem.mpr safe.1, fun outcome => ih outcome (safe.2 outcome)⟩

theorem honors_pure (value : α) : (pure value : Program S α).Honors admits raises meets := trivial

/-- An operation that raises nothing. -/
theorem honors_op {op : S.Op} (quiet : ¬ raises op) :
    (Program.op op).Honors admits raises meets :=
  fun _ _ => ⟨fun raised => absurd raised quiet, trivial⟩

/-- An operation whose obligation the rest meets. -/
theorem honors_op_bind {op : S.Op} {next : S.Response op → Program S α}
    (owes : raises op → ∀ response, admits op response → (next response).Owes admits meets)
    (rest : ∀ response, admits op response → (next response).Honors admits raises meets) :
    (Program.op op >>= next).Honors admits raises meets :=
  fun response admitted => ⟨fun raised => owes raised response admitted, rest response admitted⟩

end Program

namespace Config

section Definitions

variable (admits : (op : S.Op) → S.Response op → Prop) (raises meets : S.Op → Prop)

/-- All tasks are programs that honor their obligations. -/
def Honors (config : Config S W) : Prop :=
  ∀ task ∈ config.tasks, ∃ program, task = .run program ∧ program.Honors admits raises meets

/-- Some task owes. -/
def Owes (config : Config S W) : Prop :=
  ∃ (index : Nat) (program : Program S S.Outcome), config.tasks[index]? = some (.run program) ∧
    program.Owes admits meets

/-- Every obligation has been met since it was raised, unless one is owed. -/
def Met (owed : Prop) (steps : List (Occurrence S W)) : Prop :=
  ∀ before step after, steps = before ++ step :: after → raises step.op →
    owed ∨ ∃ later ∈ after, meets later.op

end Definitions

variable {admits : (op : S.Op) → S.Response op → Prop} {raises meets : S.Op → Prop}
  {body : S.Call → Program S S.Outcome} {handle : Handler S W} {start config : Config S W}
  {steps : List (Occurrence S W)} {invariant : W → Prop}

/-- **Obligations along a run.** -/
theorem Run.met (admitted : ∀ world op, invariant world → admits op (handle world op).1)
    (preserved : ∀ world op, invariant world → invariant (handle world op).2)
    (holds : invariant start.world) (honors : start.Honors admits raises meets)
    (run : Run body (fun _ => handle) (fun _ _ => False) start steps config) :
    invariant config.world ∧ config.Honors admits raises meets ∧
      Met raises meets (config.Owes admits meets) steps := by
  have moved : ∀ {config : Config S W} {index : Nat} {program : Program S S.Outcome},
      config.Honors admits raises meets → program.Honors admits raises meets →
        ∀ task ∈ config.tasks.set index (.run program),
          ∃ program, task = .run program ∧ program.Honors admits raises meets := by
    intro config index program honors later task member
    rcases List.mem_or_eq_of_mem_set member with old | rfl
    · exact honors task old
    · exact ⟨_, rfl, later⟩
  induction run with
  | refl => exact ⟨holds, honors, fun before step after split => by cases before <;> cases split⟩
  | @silent steps config index task next _ selected step ih =>
      obtain ⟨holds, honors, met⟩ := ih
      obtain ⟨program, rfl, honoring⟩ := honors _ (List.mem_of_getElem? selected)
      cases step with
      | start calls rest =>
          obtain ⟨rfl, later⟩ := honoring
          refine ⟨holds, moved honors (later (.ok ())), fun before last after split raises_ => ?_⟩
          refine (met before last after split raises_).imp_left ?_
          rintro ⟨other, program, found, owes⟩
          by_cases same : index = other
          · subst same
            rw [selected] at found
            cases found
            have inside := (List.getElem?_eq_some_iff.mp selected).1
            exact ⟨index, _, List.getElem?_set_self inside, owes.2 (.ok ())⟩
          · exact ⟨other, program, (List.getElem?_set_ne same).trans found, owes⟩
  | @event steps config index task next op _ selected step ih =>
      obtain ⟨holds, honors, met⟩ := ih
      obtain ⟨program, rfl, honoring⟩ := honors _ (List.mem_of_getElem? selected)
      cases step with
      | perform _ rest =>
          have inside := (List.getElem?_eq_some_iff.mp selected).1
          obtain ⟨raised, later⟩ := honoring _ (admitted _ op holds)
          refine ⟨preserved _ op holds, moved honors later, ?_⟩
          -- the task that moves owes what it raises, and what it owed it owes or has met
          have own : (rest (handle config.world op).1).Owes admits meets →
              Config.Owes admits meets ⟨(handle config.world op).2,
                config.tasks.set index (.run (rest (handle config.world op).1))⟩ :=
            fun owes => ⟨index, _, List.getElem?_set_self inside, owes⟩
          intro before last after split raises_
          rcases snoc_eq_append_cons.mp split with ⟨rfl, rfl, rfl⟩ | ⟨between, rfl, earlier⟩
          · exact .inl (own (raised raises_))
          · rcases met before last between earlier raises_ with
              ⟨other, program, found, owes⟩ | ⟨pay, member, meets_⟩
            · by_cases same : index = other
              · subst same
                rw [selected] at found
                cases found
                rcases owes with now | owes
                · exact .inr ⟨_, List.mem_append_right _ List.mem_cons_self, now⟩
                · exact .inl (own (owes _ (admitted _ op holds)))
              · exact .inl ⟨other, program, (List.getElem?_set_ne same).trans found, owes⟩
            · exact .inr ⟨pay, List.mem_append_left _ member, meets_⟩
  | environment _ changed => exact changed.elim

/-- **Once all tasks are done, all obligations are met.** -/
theorem Run.met_of_done (admitted : ∀ world op, invariant world → admits op (handle world op).1)
    (preserved : ∀ world op, invariant world → invariant (handle world op).2)
    (holds : invariant start.world) (honors : start.Honors admits raises meets)
    (run : Run body (fun _ => handle) (fun _ _ => False) start steps config)
    (done : ∀ task ∈ config.tasks, task.outcome?.isSome = true) :
    Met raises meets False steps := by
  obtain ⟨-, -, met⟩ := run.met admitted preserved holds honors
  intro before step after split raised
  refine .inr ((met before step after split raised).resolve_left ?_)
  rintro ⟨index, program, found, owes⟩
  obtain ⟨outcome, finished⟩ := Option.isSome_iff_exists.mp (done _ (List.mem_of_getElem? found))
  cases Task.outcome?_eq_some finished
  exact owes

end Config

end Async
