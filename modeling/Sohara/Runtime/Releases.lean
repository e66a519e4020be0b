import Mathlib.Algebra.BigOperators.Group.Finset.Piecewise
import Sohara.Async.Share
import Sohara.Runtime.Fleet

/-! # What approval passes release

A pass takes the queue of one gate after the other and injects what it has taken behind the
gate, each record to its end, up to the first failure. Its share of a run tells which records
those are; they are the ones the ledger of the queue counts as taken by it.
-/

namespace Sohara

open Async Async.Program

section Definitions

/-- What a pass has done at one gate: the records it has injected, and those it has taken and
not injected because of a failure. -/
structure Released where
  key : String
  injected : List Record
  dropped : List Record

variable (handle : Handler Engine Fleet) (executor : Executor) (gate : Node)

/-- Records are injected behind a gate, one after the other and each to its end. -/
inductive Injects : List Record → List (Occurrence Engine Fleet) → Prop where
  | nil : Injects [] []
  | cons {record : Record} {records : List Record} {first second : List (Occurrence Engine Fleet)}
      (injected : Does (S := Engine) walkCall handle (executor.injectAndFlush gate record) first
        (.ok ()))
      (rest : Injects records second) : Injects (record :: records) (first ++ second)

/-- Gates are visited: the queue of each is taken, and its records are injected. -/
inductive Visits : List Node → List (Occurrence Engine Fleet) → List Released → Outcome → Prop where
  | nil : Visits [] [] [] (.ok ())
  | cons {gate : Node} {gates : List Node} {taking injecting others : List (Occurrence Engine Fleet)}
      {records : List Record} {released : List Released} {outcome : Outcome}
      (took : Does (S := Engine) walkCall handle (executor.takeApproveQueue gate.id) taking
        (.ok records))
      (injected : Injects handle executor gate records injecting)
      (rest : Visits gates others released outcome) :
      Visits (gate :: gates) (taking ++ injecting ++ others)
        (⟨executor.approveKey gate.id, records, []⟩ :: released) outcome
  | failed {gate : Node} {gates : List Node}
      {taking injecting failing : List (Occurrence Engine Fleet)} {completed rest : List Record}
      {record : Record} {failure : Error}
      (took : Does (S := Engine) walkCall handle (executor.takeApproveQueue gate.id) taking
        (.ok (completed ++ record :: rest)))
      (injected : Injects handle executor gate completed injecting)
      (fails : Does (S := Engine) walkCall handle (executor.injectAndFlush gate record) failing
        (.error failure)) :
      Visits (gate :: gates) (taking ++ injecting ++ failing)
        [⟨executor.approveKey gate.id, completed, record :: rest⟩] (.error failure)

/-- What a program has released by its share of a run: an approval pass over a graph creates an
executor and visits the approve steps; other programs take no queue. -/
inductive Releases : Prog Outcome → List (Occurrence Engine Fleet) → List Released → Outcome →
    Prop where
  | nothing {program : Prog Outcome} {steps : List (Occurrence Engine Fleet)} {outcome : Outcome}
      (keeps : ∀ step ∈ steps, ∀ key, step.op ≠ .delete key) : Releases program steps [] outcome
  | pass {env : ExecutorEnv} {registry : Registry} {flow : FlowConfig} {step : Option String}
      {graph : FlowGraph} {executor : Executor}
      {creating visiting : List (Occurrence Engine Fleet)} {released : List Released}
      {outcome : Outcome}
      (built : FlowGraph.build registry env.hashOrder flow (approvalContext flow) = .ok graph)
      (created : Does (S := Engine) walkCall handle
        (newExecutor env graph flow.vars.toList ⟨true, none, false⟩) creating executor)
      (visits : Visits handle executor (executor.approveSteps step) visiting released outcome) :
      Releases (approval env registry flow step) (creating ++ visiting) released outcome

/-- The payloads a pass has injected from a queue. -/
def injectedFrom (key : String) (released : List Released) : List Value :=
  released.flatMap fun visit => if visit.key = key then visit.injected.map (·.payload) else []

/-- The payloads a pass has taken from a queue and not injected. -/
def droppedFrom (key : String) (released : List Released) : List Value :=
  released.flatMap fun visit => if visit.key = key then visit.dropped.map (·.payload) else []

/-- The payloads a pass has taken from a queue. -/
def takenFrom (key : String) (released : List Released) : List Value :=
  released.flatMap fun visit =>
    if visit.key = key then (visit.injected ++ visit.dropped).map (·.payload) else []

/-- The tasks that have ended have released what their shares tell; without a failure nothing is
dropped. -/
def EachReleases (hosts : Nat → Host) (owner : Nat → Nat) (duties : List (Prog Outcome))
    (steps : List (Occurrence Engine Fleet)) (tasks : List (Async.Task Engine))
    (released : Nat → List Released) : Prop :=
  ∀ index program outcome, duties[index]? = some program →
    tasks[index]? = some (.run (.done outcome)) →
      Releases (Fleet.perform hosts (owner index)) program (share index steps)
          (released index) outcome ∧
        (outcome = .ok () → ∀ visit ∈ released index, visit.dropped = [])

/-- Every approval pass has come to its end. -/
def PassesEnded (flow : String) (duties : List (Prog Outcome)) (tasks : List (Async.Task Engine)) :
    Prop :=
  ∀ (index : Nat) (program : Prog Outcome), duties[index]? = some program →
    ServesFlow flow program ∨ ∃ outcome, tasks[index]? = some (.run (.done outcome))

end Definitions

section Taking

/-- The steps take the listed payloads from the queue, whatever has come before. -/
def Takes (key : String) (owner : Nat → Nat) (steps : List (Occurrence Engine Fleet))
    (payloads : List Value) : Prop :=
  ∀ ledger : Ledger, (steps.foldl (Ledger.note key owner) ledger).taken = ledger.taken ++ payloads

variable {key : String} {owner : Nat → Nat} {first second steps : List (Occurrence Engine Fleet)}

theorem Takes.append {earlier later : List Value} (left : Takes key owner first earlier)
    (right : Takes key owner second later) :
    Takes key owner (first ++ second) (earlier ++ later) := by
  intro ledger
  rw [List.foldl_append, right, left, List.append_assoc]

/-- What a step takes from a queue. -/
def Ledger.takes (key : String) (ledger : Ledger) (step : Occurrence Engine Fleet) : List Value :=
  match step.op with
  | .delete other => if other = key then ledger.seen step.task else []
  | _ => []

theorem Ledger.taken_note (ledger : Ledger) (step : Occurrence Engine Fleet) :
    (ledger.note key owner step).taken = ledger.taken ++ ledger.takes key step := by
  obtain ⟨task, fleet, op⟩ := step
  cases op with
  | load other =>
      show Ledger.taken (if other = key then _ else _) = ledger.taken ++ []
      rw [List.append_nil]
      split <;> rfl
  | delete other =>
      show Ledger.taken (if other = key then _ else _) =
        ledger.taken ++ if other = key then ledger.seen task else []
      split
      · rfl
      · exact (List.append_nil _).symm
  | _ => exact (List.append_nil _).symm

/-- A step tells nothing to the other tasks. -/
theorem Ledger.seen_note (ledger : Ledger) {step : Occurrence Engine Fleet} {index : Nat}
    (other : step.task ≠ index) :
    (ledger.note key owner step).seen index = ledger.seen index := by
  obtain ⟨task, fleet, op⟩ := step
  cases op with
  | load name =>
      show Ledger.seen (if name = key then _ else _) index = _
      split
      · exact Function.update_of_ne (Ne.symm other) _ _
      · rfl
  | delete name =>
      show Ledger.seen (if name = key then _ else _) index = _
      split <;> rfl
  | _ => rfl

/-- To its own task a step tells the same whatever the others know. -/
theorem Ledger.seen_note_self {ledger own : Ledger} (step : Occurrence Engine Fleet)
    (same : ledger.seen step.task = own.seen step.task) :
    (ledger.note key owner step).seen step.task = (own.note key owner step).seen step.task := by
  obtain ⟨task, fleet, op⟩ := step
  cases op with
  | load name =>
      show Ledger.seen (if name = key then _ else _) task =
        Ledger.seen (if name = key then _ else _) task
      split
      · exact (Function.update_self task _ ledger.seen).trans
          (Function.update_self task _ own.seen).symm
      · exact same
  | delete name =>
      show Ledger.seen (if name = key then _ else _) task =
        Ledger.seen (if name = key then _ else _) task
      split <;> exact same
  | _ => exact same

/-- What a task has seen is told by its own share. -/
theorem seen_share (index : Nat) : (ledger key owner steps).seen index =
    (ledger key owner (share index steps)).seen index := by
  induction steps using List.reverseRecOn with
  | nil => rfl
  | append_singleton steps step ih =>
      rw [ledger_snoc]
      by_cases own : step.task = index
      · subst own
        rw [share_snoc_self, ledger_snoc]
        exact Ledger.seen_note_self step ih
      · rw [share_snoc_of_ne own, Ledger.seen_note _ own]
        exact ih

/-- **The queue's ledger is the sum of the shares.** -/
theorem takenAt_sum {count : Nat} (within : ∀ step ∈ steps, step.task < count) :
    (takenAt key owner steps : Multiset Value) = ∑ index ∈ Finset.range count,
      (takenAt key owner (share index steps) : Multiset Value) := by
  induction steps using List.reverseRecOn with
  | nil => exact (Finset.sum_const_zero).symm
  | append_singleton steps step ih =>
      have earlier := ih fun other member => within other (List.mem_append_left _ member)
      have inside := within step (List.mem_append_right _ List.mem_cons_self)
      have share : ∀ index, (takenAt key owner (share index (steps ++ [step])) :
          Multiset Value) = takenAt key owner (share index steps) +
            if step.task = index then ((ledger key owner steps).takes key step : Multiset Value)
              else 0 := by
        intro index
        by_cases own : step.task = index
        · subst own
          rw [share_snoc_self, if_pos rfl]
          unfold takenAt
          rw [ledger_snoc, Ledger.taken_note]
          have same : (ledger key owner (share step.task steps)).takes key step =
              (ledger key owner steps).takes key step := by
            unfold Ledger.takes
            rw [← seen_share step.task]
          rw [same]
          exact Multiset.coe_add _ _
        · rw [share_snoc_of_ne own, if_neg own, add_zero]
      rw [Finset.sum_congr rfl fun index _ => share index, Finset.sum_add_distrib, ← earlier,
        Finset.sum_ite_eq, if_pos (Finset.mem_range.mpr inside)]
      unfold takenAt
      rw [ledger_snoc, Ledger.taken_note]
      exact (Multiset.coe_add _ _).symm

theorem Takes.takenAt {payloads : List Value} (takes : Takes key owner steps payloads) :
    takenAt key owner steps = payloads := takes ⟨fun _ => [], []⟩

/-- Nothing is taken without a delete. -/
theorem takes_nil_of_keeps (keeps : ∀ step ∈ steps, step.op ≠ .delete key) :
    Takes key owner steps [] := by
  intro ledger
  rw [List.append_nil]
  induction steps generalizing ledger with
  | nil => rfl
  | cons step rest ih =>
      rw [List.foldl_cons, ih fun other member => keeps other (List.mem_cons_of_mem _ member)]
      obtain ⟨task, fleet, op⟩ := step
      cases op with
      | load other =>
          show Ledger.taken (if other = key then _ else _) = _
          split <;> rfl
      | delete other =>
          refine congrArg Ledger.taken (if_neg ?_)
          rintro rfl
          exact keeps _ List.mem_cons_self rfl
      | _ => rfl

variable {hosts : Nat → Host} {index : Nat} {executor : Executor}

/-- A new record is made for each payload. -/
theorem does_newRecords {process : Nat} {payloads : List Value} {records : List Record}
    (does : Does (S := Engine) walkCall (Fleet.perform hosts process)
      (Executor.newRecords payloads) steps records) :
    records.map (·.payload) = payloads ∧ ∀ step ∈ steps, ∀ key, step.op ≠ .delete key := by
  induction payloads generalizing steps records with
  | nil =>
      obtain ⟨rfl, rfl⟩ := does_pure does
      exact ⟨rfl, fun _ member => nomatch member⟩
  | cons payload rest ih =>
      obtain ⟨index, world, more, rfl, others⟩ := does_op_bind does
      obtain ⟨created, _, made, rfl, creates, ended⟩ := does_bind others
      obtain ⟨rfl, rfl⟩ := does_pure ended
      obtain ⟨payloads, keeps⟩ := ih creates
      rw [List.append_nil]
      refine ⟨congrArg (payload :: ·) payloads, fun step member key => ?_⟩
      rcases List.mem_cons.mp member with rfl | inside
      · exact Op.noConfusion
      · exact keeps step inside key

/-- **Taking a queue** returns what the ledger counts. -/
theorem takes_takeApproveQueue (persists : ∀ process time, (hosts process).persist time = .ok ())
    (own : ∀ step ∈ steps, step.task = index) {id : String} {result : Except Error (List Record)}
    (does : Does (S := Engine) walkCall (Fleet.perform hosts (owner index))
      (executor.takeApproveQueue id) steps result) :
    ∃ records, result = .ok records ∧ ∀ key, Takes key owner steps
      (if executor.approveKey id = key then records.map (·.payload) else []) := by
  obtain ⟨_, before, more, rfl, opened⟩ := does_op_bind does
  split at opened
  · obtain ⟨_, found, more, rfl, loaded⟩ := does_op_bind opened
    obtain ⟨_, full, more, rfl, deleted⟩ := does_op_bind loaded
    have emptied : (Fleet.perform hosts (owner index) full (.delete (executor.approveKey id))).1 =
        .ok () := World.perform_delete_fst _ _ (persists _) _
    rw [emptied] at deleted
    obtain ⟨made, _, records, rfl, created, ended⟩ := does_bind deleted
    obtain ⟨rfl, rfl⟩ := does_pure ended
    obtain ⟨payloads, keeps⟩ := does_newRecords created
    refine ⟨records, rfl, fun key ledger => ?_⟩
    have loads := own _ (List.mem_cons_of_mem _ List.mem_cons_self)
    have deletes := own _ (List.mem_cons_of_mem _ (List.mem_cons_of_mem _ List.mem_cons_self))
    dsimp only at loads deletes
    subst loads deletes
    rw [List.append_nil, payloads, List.foldl_cons, List.foldl_cons, List.foldl_cons,
      takes_nil_of_keeps (fun step member => keeps step member key), List.append_nil]
    by_cases same : executor.approveKey id = key
    · subst same
      simp only [Ledger.note, if_true, Function.update_self]
      rfl
    · simp only [Ledger.note, same, if_false, List.append_nil]
  · obtain ⟨rfl, rfl⟩ := does_pure opened
    refine ⟨[], rfl, fun key => ?_⟩
    have silent : (if executor.approveKey id = key then [] else []) = ([] : List Value) := ite_self _
    rw [List.map_nil, silent]
    exact takes_nil_of_keeps fun step member => by
      rw [List.mem_singleton.mp member]
      exact Op.noConfusion

end Taking

section Visiting

variable {hosts : Nat → Host} {executor : Executor} {gate : Node} {flow : String}
  {steps : List (Occurrence Engine Fleet)} {handle : Handler Engine Fleet}

/-- Injections come to an end or up to the first that fails. -/
theorem injects_of_does {records : List Record} {outcome : Outcome}
    (does : Does (S := Engine) walkCall handle (executor.injectAll gate records) steps outcome) :
    (outcome = .ok () ∧ Injects handle executor gate records steps) ∨
      ∃ failure completed record rest injecting failing, outcome = .error failure ∧
        records = completed ++ record :: rest ∧ steps = injecting ++ failing ∧
        Injects handle executor gate completed injecting ∧
        Does (S := Engine) walkCall handle (executor.injectAndFlush gate record) failing
          (.error failure) := by
  induction records generalizing steps with
  | nil =>
      obtain ⟨rfl, rfl⟩ := does_pure does
      exact .inl ⟨rfl, .nil⟩
  | cons record rest ih =>
      rcases does_andThen does with ⟨failure, rfl, fails⟩ | ⟨first, second, rfl, injected, others⟩
      · exact .inr ⟨failure, [], record, rest, [], steps, rfl, rfl, rfl, .nil, fails⟩
      · rcases ih others with ⟨rfl, injects⟩ |
          ⟨failure, completed, failed, left, injecting, failing, rfl, rfl, rfl, injects, fails⟩
        · exact .inl ⟨rfl, .cons injected injects⟩
        · exact .inr ⟨failure, record :: completed, failed, left, first ++ injecting, failing, rfl,
            rfl, (List.append_assoc ..).symm, .cons injected injects, fails⟩

/-- What a queue is not taken by permits no delete. -/
theorem keeps_of_permits {op : Op} (permitted : ∃ state, Parking.Permits flow false state op)
    (key : String) : op ≠ .delete key := by
  rintro rfl
  obtain ⟨state, permitted⟩ := permitted
  cases state with
  | idle => exact permitted
  | loaded name stored =>
      obtain ⟨-, ⟨item, same⟩ | ⟨takes, -⟩⟩ := permitted
      · cases same
      · cases takes
  | parked => cases permitted

/-- Walks delete nothing. -/
theorem obeys_walkCall (target : Call) (inFlow : InFlow flow target) :
    (walkCall target).Obeys (Parking.AdmitsPlain flow)
      (fun op => ∃ state, Parking.Permits flow false state op) (InFlow flow) fun _ => True := by
  have parks : (walkCall target).Follows (Parking.protocol flow false) (Parking.AdmitsPlain flow)
      (InFlow flow) (fun _ state => state = .idle) .idle :=
    (Executor.parks_walkCall target inFlow).mono Parking.admits_of_admitsPlain (fun _ same => same)
      fun _ _ same => same
  exact parks.obeys.mono (fun _ => id) (fun _ => id) fun _ _ => trivial

/-- Programs that park without taking delete nothing. -/
theorem keeps_of_parks {α : Type} {program : Prog α} {post : α → Prop} {value : α}
    (parks : ParksPlain flow false post program)
    (does : Does (S := Engine) walkCall handle program steps value)
    (admitted : ∀ step ∈ steps, Parking.AdmitsPlain flow step.op (handle step.world step.op).1) :
    (∀ step ∈ steps, ∀ key, step.op ≠ .delete key) ∧ post value := by
  obtain ⟨permitted, _, -, holds⟩ := does.obeys obeys_walkCall parks.obeys admitted
  exact ⟨fun step member => keeps_of_permits (permitted step member), holds⟩

/-- **Visits of the gates.** A pass that has ended has visited gates, and what it has released is
what the ledgers count as taken by it. -/
theorem visits_of_does {owner : Nat → Nat} {index : Nat}
    (persists : ∀ process time, (hosts process).persist time = .ok ())
    (plain : PlainId executor.flowName executor.runId) {gates : List Node} {approved : Nat}
    {result : Except Error Nat} (own : ∀ step ∈ steps, step.task = index)
    (admitted : ∀ step ∈ steps, Parking.AdmitsPlain executor.flowName step.op
      (Fleet.perform hosts (owner index) step.world step.op).1)
    (does : Does (S := Engine) walkCall (Fleet.perform hosts (owner index))
      (executor.approveNodes approved gates) steps result) :
    ∃ released, Visits (Fleet.perform hosts (owner index)) executor gates steps released
        (result.map fun _ => ()) ∧
      ∀ key, Takes key owner steps (takenFrom key released) := by
  induction gates generalizing steps approved with
  | nil =>
      obtain ⟨rfl, rfl⟩ := does_pure does
      exact ⟨[], .nil, fun key => takes_nil_of_keeps fun _ member => nomatch member⟩
  | cons gate gates ih =>
      obtain ⟨visiting, others, visited, rfl, visits, continues⟩ := does_bind does
      obtain ⟨taking, rest, taken, rfl, took, releases⟩ := does_bind visits
      obtain ⟨records, rfl, takes⟩ := takes_takeApproveQueue persists
        (fun step member => own step (List.mem_append_left _ (List.mem_append_left _ member))) took
      obtain ⟨injecting, ending, outcome, rfl, injected, ended⟩ := does_bind releases
      have parks : ParksPlain executor.flowName false (fun _ => True)
          (executor.injectAll gate records) :=
        parksPlain_of_parks rfl (Executor.parks_injectAll plain gate records)
      obtain ⟨keeps, -⟩ := keeps_of_parks parks injected fun step member =>
        admitted step (List.mem_append_left _ (List.mem_append_right _
          (List.mem_append_left _ member)))
      have silent : ∀ key, Takes key owner injecting [] := fun key =>
        takes_nil_of_keeps fun step member => keeps step member key
      rcases injects_of_does injected with ⟨rfl, injects⟩ |
        ⟨failure, completed, record, left, first, failing, rfl, rfl, rfl, injects, fails⟩
      · obtain ⟨rfl, rfl⟩ := does_pure ended
        obtain ⟨released, visits, others'⟩ := ih
          (fun step member => own step (List.mem_append_right _ member))
          (fun step member => admitted step (List.mem_append_right _ member)) continues
        rw [List.append_nil]
        refine ⟨_, .cons took injects visits, fun key => ?_⟩
        have both := ((takes key).append (silent key)).append (others' key)
        rwa [List.append_nil, ← List.append_nil records] at both
      · obtain ⟨rfl, rfl⟩ := does_pure ended
        obtain ⟨rfl, rfl⟩ := does_pure continues
        rw [List.append_nil, List.append_nil, ← List.append_assoc]
        refine ⟨_, .failed took injects fails, fun key => ?_⟩
        have both := (takes key).append (silent key)
        rw [List.append_nil] at both
        unfold takenFrom
        rwa [List.flatMap_singleton, List.append_assoc]

/-- The share of a duty that has come to its end. -/
theorem releases_of_does {owner : Nat → Nat} {index : Nat} {program : Prog Outcome}
    {outcome : Outcome} (duty : Duty flow program)
    (persists : ∀ process time, (hosts process).persist time = .ok ())
    (own : ∀ step ∈ steps, step.task = index)
    (admitted : ∀ step ∈ steps, Parking.AdmitsPlain flow step.op
      (Fleet.perform hosts (owner index) step.world step.op).1)
    (does : Does (S := Engine) walkCall (Fleet.perform hosts (owner index)) program steps outcome) :
    ∃ released, Releases (Fleet.perform hosts (owner index)) program steps released outcome ∧
      ∀ key, Takes key owner steps (takenFrom key released) := by
  cases duty with
  | serve serves =>
      obtain ⟨keeps, -⟩ := keeps_of_parks serves.parks does admitted
      exact ⟨[], .nothing keeps, fun key => takes_nil_of_keeps fun step member =>
        keeps step member key⟩
  | approve env registry config step named =>
      obtain ⟨passing, last, result, rfl, passed, ended⟩ := does_bind does
      obtain ⟨rfl, rfl⟩ := does_pure ended
      rw [List.append_nil] at own admitted ⊢
      unfold approvePending at passed
      dsimp only at passed
      split at passed
      · obtain ⟨rfl, rfl⟩ := does_pure passed
        exact ⟨[], .nothing (fun _ member => nomatch member), fun key =>
          takes_nil_of_keeps fun _ member => nomatch member⟩
      · next graph built =>
          rw [← named, ← FlowGraph.name_of_build built] at admitted
          obtain ⟨creating, visiting, executor, rfl, created, visits⟩ := does_bind passed
          obtain ⟨keeps, sameName, plain⟩ := keeps_of_parks
            (parksPlain_newExecutor env graph config.vars.toList _) created
            fun step member => admitted step (List.mem_append_left _ member)
          rw [← sameName] at plain admitted
          obtain ⟨released, visits, takes⟩ := visits_of_does persists plain
            (fun step member => own step (List.mem_append_right _ member))
            (fun step member => admitted step (List.mem_append_right _ member)) visits
          refine ⟨released, .pass built created visits, fun key => ?_⟩
          exact (takes_nil_of_keeps fun step member => keeps step member key).append (takes key)

/-- A pass without a failure drops nothing. -/
theorem Visits.kept {gates : List Node} {released : List Released} {outcome : Outcome}
    (visits : Visits handle executor gates steps released outcome) (succeeded : outcome = .ok ()) :
    ∀ visit ∈ released, visit.dropped = [] := by
  induction visits with
  | nil => exact fun _ member => nomatch member
  | cons _ _ _ ih => exact List.forall_mem_cons.mpr ⟨rfl, ih succeeded⟩
  | failed _ _ _ => cases succeeded

theorem Releases.kept {program : Prog Outcome} {released : List Released}
    (releases : Releases handle program steps released (.ok ())) :
    ∀ visit ∈ released, visit.dropped = [] := by
  cases releases with
  | nothing _ => exact fun _ member => nomatch member
  | pass _ _ visits => exact visits.kept rfl

/-- What is taken is injected or dropped. -/
theorem takenFrom_eq (key : String) (released : List Released) :
    (takenFrom key released : Multiset Value) =
      injectedFrom key released + droppedFrom key released := by
  unfold takenFrom injectedFrom droppedFrom
  induction released with
  | nil => rfl
  | cons visit rest ih =>
      simp only [List.flatMap_cons, ← Multiset.coe_add, ih]
      split
      · rw [List.map_append, ← Multiset.coe_add]
        exact add_add_add_comm ..
      · rw [Multiset.coe_nil, zero_add, zero_add, zero_add]

/-- What each task has released: whatever a task does, it takes only what its share tells. -/
theorem released_of_did {owner : Nat → Nat} {index : Nat} {program : Prog Outcome}
    {task : Async.Task Engine} (duty : Duty flow program)
    (persists : ∀ process time, (hosts process).persist time = .ok ())
    (own : ∀ step ∈ steps, step.task = index)
    (admitted : ∀ step ∈ steps, Parking.AdmitsPlain flow step.op
      (Fleet.perform hosts (owner index) step.world step.op).1)
    (did : Task.Did (S := Engine) walkCall (Fleet.perform hosts (owner index)) (.run program)
      steps task) :
    ∃ released, (∀ outcome, task = .run (.done outcome) →
        Releases (Fleet.perform hosts (owner index)) program steps released outcome) ∧
      (ServesFlow flow program ∨ (∃ outcome, task = .run (.done outcome)) →
        ∀ key, Takes key owner steps (takenFrom key released)) := by
  by_cases serving : ServesFlow flow program
  · have keeps : ∀ step ∈ steps, ∀ key, step.op ≠ .delete key := fun step member =>
      keeps_of_permits ((did.obeys obeys_walkCall (serving.parks.obeys.mono (fun _ => id)
        (fun _ => id) fun _ _ => trivial) admitted).1 step member)
    exact ⟨[], fun _ _ => .nothing keeps, fun _ key =>
      takes_nil_of_keeps fun step member => keeps step member key⟩
  · by_cases ended : ∃ outcome, task = .run (.done outcome)
    · obtain ⟨outcome, rfl⟩ := ended
      obtain ⟨released, releases, takes⟩ := releases_of_does duty persists own admitted
        (does_of_did did)
      refine ⟨released, fun other same => ?_, fun _ => takes⟩
      cases same
      exact releases
    · exact ⟨[], fun outcome same => absurd ⟨outcome, same⟩ ended,
        fun either => absurd either (not_or.mpr ⟨serving, ended⟩)⟩

end Visiting

/-- **What the processes release.** In a run of serving and approving processes the tasks that
have ended have released what their shares tell, and when all passes have ended, what has been
taken from a queue is what they have injected and dropped. -/
theorem released_of_run {flow : String} {hosts : Nat → Host} {owner : Nat → Nat}
    {start config : Config Engine Fleet} {steps : List (Occurrence Engine Fleet)}
    {duties : List (Prog Outcome)}
    (persists : ∀ process time, (hosts process).persist time = .ok ())
    (each : ∀ program ∈ duties, Duty flow program) (spawned : start.tasks = duties.map .run)
    (run : Config.Run (S := Engine) walkCall (fun task => Fleet.perform hosts (owner task))
      Fleet.Opens start steps config)
    (admitted : ∀ step ∈ steps, Parking.AdmitsPlain flow step.op
      (Fleet.perform hosts (owner step.task) step.world step.op).1) :
    ∃ released, EachReleases hosts owner duties steps config.tasks released ∧
      (PassesEnded flow duties config.tasks → ∀ key, (takenAt key owner steps : Multiset Value) =
        ∑ index ∈ Finset.range duties.length, (injectedFrom key (released index) +
          droppedFrom key (released index) : Multiset Value)) := by
  have shares : ∀ index, ∃ released, ∀ program, duties[index]? = some program →
      (∀ outcome, config.tasks[index]? = some (.run (.done outcome)) →
        Releases (Fleet.perform hosts (owner index)) program (share index steps) released
          outcome) ∧
      (ServesFlow flow program ∨ (∃ outcome, config.tasks[index]? = some (.run (.done outcome))) →
        ∀ key, Takes key owner (share index steps) (takenFrom key released)) := by
    intro index
    cases selected : duties[index]? with
    | none => exact ⟨[], fun _ same => nomatch same⟩
    | some program =>
        have started : start.tasks[index]? = some (.run program) := by
          rw [spawned, List.getElem?_map, selected]
          rfl
        obtain ⟨task, now, did⟩ := run.did started
        obtain ⟨released, releases, takes⟩ := released_of_did
          (each program (List.mem_of_getElem? selected)) persists
          (fun step member => (mem_share.mp member).2)
          (fun step member => by
            obtain ⟨inside, rfl⟩ := mem_share.mp member
            exact admitted step inside) did
        refine ⟨released, fun other same => ?_⟩
        cases same
        rw [now]
        refine ⟨fun outcome same => releases outcome (Option.some.inj same), fun either => ?_⟩
        exact takes (either.imp_right fun ⟨outcome, same⟩ => ⟨outcome, Option.some.inj same⟩)
  choose released holds using shares
  refine ⟨released, fun index program outcome selected ended => ?_, fun passes key => ?_⟩
  · have releases := (holds index program selected).1 outcome ended
    refine ⟨releases, ?_⟩
    rintro rfl
    exact releases.kept
  · have within : ∀ step ∈ steps, step.task < duties.length := by
      have inside := run.within.2
      rwa [spawned, List.length_map] at inside
    rw [takenAt_sum within]
    refine Finset.sum_congr rfl fun index member => ?_
    obtain ⟨program, selected⟩ : ∃ program, duties[index]? = some program :=
      ⟨_, List.getElem?_eq_getElem (Finset.mem_range.mp member)⟩
    rw [← takenFrom_eq,
      ((holds index program selected).2 (passes index program selected) key).takenAt]

end Sohara
