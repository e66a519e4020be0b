import Sohara.Async.History
import Sohara.Async.Lineage

/-! # What visits pass on

What a visit may do can depend on the visit: on the call it was made by, and on what it and
the visits above it have been told. A visit passes a right on when the calls it awaits have it
as visits of their own. Then all visits of a run have it.
-/

namespace Async

variable {S : Signature} {W α : Type} {admits : (op : S.Op × Visit S) → S.Response op.1 → Prop}
  {onOp : S.Op × Visit S → Prop} {onCall : S.Call × Visit S → Prop}

namespace Program

variable (admits onOp onCall) in
/-- What a program does in a visit is permitted there, and its calls are in their own visits. -/
abbrev ObeysAt (visit : Visit S) (post : α → Prop) (program : Program S α) : Prop :=
  program.Obeys (fun op => admits (op, visit)) (fun op => onOp (op, visit))
    (fun target => ∀ round position, onCall (target, visit.enter ⟨round, position, target⟩)) post

theorem Obeys.traced {visit : Visit S} {post : α → Prop} {program : Program S α}
    (obeys : program.ObeysAt admits onOp onCall visit post) (round : Nat) :
    (program.traced visit round).Obeys (S := Traced S) admits onOp onCall post := by
  induction program generalizing round with
  | done value => exact obeys
  | perform op next ih => exact ⟨obeys.1, fun response admitted => ih _ (obeys.2 _ admitted) _⟩
  | await calls next ih =>
      refine ⟨fun target member => ?_, fun outcome => ih _ (obeys.2 outcome) _⟩
      unfold Visit.awaits at member
      obtain ⟨⟨call, position⟩, listed, rfl⟩ := List.mem_map.mp member
      exact obeys.1 call (List.fst_mem_of_mem_zipIdx listed) round position

end Program

open Program

/-- **The operations of a traced run.** When the programs and the bodies of permitted calls
obey in their visits, every operation is permitted in its visit. -/
theorem Config.Run.permitted_traced {body : S.Call → Program S S.Outcome} {handle : Handler S W}
    {programs : List (Program S S.Outcome)} {world : W} {steps : List (Occurrence (Traced S) W)}
    {config : Config (Traced S) W}
    (bodies : ∀ call visit, onCall (call, visit) →
      (body call).ObeysAt admits onOp onCall visit fun _ => True)
    (starts : ∀ program ∈ programs, ∀ origin,
      program.ObeysAt admits onOp onCall ⟨origin, []⟩ fun _ => True)
    (run : Config.Run (tracedBody body) (fun _ => tracedHandle handle) (fun _ _ => False)
      ⟨world, spawnedAll programs⟩ steps config)
    (admitted : ∀ before step rest, steps = before ++ step :: rest →
      Permitted (S := Traced S) onOp (before ++ [step]) →
        admits step.op (handle step.world step.op.1).1) :
    Permitted (S := Traced S) onOp steps := by
  have obeys : Config.Obeys (S := Traced S) admits onOp onCall
      (⟨world, spawnedAll programs⟩ : Config (Traced S) W) := by
    intro task member
    obtain ⟨⟨program, origin⟩, listed, rfl⟩ := List.mem_map.mp member
    exact (starts program (List.fst_mem_of_mem_zipIdx listed) origin).traced 0
  exact (run.permitted_of_earlier (fun target called => (bodies _ _ called).traced 0) obeys
    admitted).1

end Async
