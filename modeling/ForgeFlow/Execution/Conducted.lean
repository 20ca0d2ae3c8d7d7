import ForgeFlow.Execution.Boarding
import ForgeFlow.Execution.Guarantees

/-!
# Every scheduler conducts the run

The contract of the conduct in every world reached, with a store that checks what it
takes. The tables of a scheduler agree with its run, and no run is ever stalled.
-/

namespace ForgeFlow.Execution

open ForgeFlow.Base ForgeFlow.Workflow

/-- Every scheduler keeps to the contract of the conduct. -/
structure Conducted (w : World) (conducts : Nat → Conduct) : Prop where
  consistent : Consistent w (Conduct.books ∘ conducts)
  safe : ∀ pid p, w.Live pid p → p.thread.Safe (conductContract p.config w.runID)
    (Conducting p.config w.runID) Anyhow (conducts pid)

/-- A step of the world, with what the schedulers note of it. -/
inductive ConductMoves (w : World) (conducts : Nat → Conduct) :
    Label → World → (Nat → Conduct) → Prop
  | launch {pid : Nat} (config : EngineConfig) (start : Start) (h : w.processes.get? pid = none) :
    ConductMoves w conducts (.launch pid config start)
      (w.put pid { config := config, thread := start.thread config w.runID })
      (Function.update conducts pid { books := start.ledger w.runID })
  | call {pid : Nat} {p p' : Process} {w' : World} {c : EngineCall}
    {next : EngineResult c → Round} {r : EngineResult c} {choice : Choice} (h : w.Live pid p)
    (ht : p.thread = .running (.call c next)) (ha : answer choice pid p w c = some (r, p', w')) :
    ConductMoves w conducts (.scheduler pid choice)
      (w'.put pid { p' with thread := .running (next r) })
      (Function.update conducts pid ((conducts pid).note p.config w.runID c r))
  /-- Neither a start of a process nor an answer to a call. -/
  | quiet {label : Label} {w' : World} (h : w.Moves label w')
    (hlaunch : ∀ pid config start, label ≠ .launch pid config start)
    (hcall : ∀ pid choice, label = .scheduler pid choice → w.pending pid = none) :
    ConductMoves w conducts label w' conducts

section

variable {w w' : World} {conducts : Nat → Conduct} {label : Label} {pid : Nat}
  {p p' : Process}

/-- Every step of the world is one of these. -/
theorem World.Moves.conduct (hm : w.Moves label w') (conducts : Nat → Conduct) :
    ∃ conducts', ConductMoves w conducts label w' conducts' := by
  cases hm with
  | launch config start hnone => exact ⟨_, .launch config start hnone⟩
  | call hlive ht ha => exact ⟨_, .call hlive ht ha⟩
  | again choice hlive ht =>
    exact ⟨_, .quiet (.again choice hlive ht) nofun (pending_none choice hlive (by rw [ht]; rfl))⟩
  | finish choice hlive ht =>
    exact ⟨_, .quiet (.finish choice hlive ht) nofun (pending_none choice hlive (by rw [ht]; rfl))⟩
  | crash hlive => exact ⟨_, .quiet (.crash hlive) nofun nofun⟩
  | cancel hlive => exact ⟨_, .quiet (.cancel hlive) nofun nofun⟩
  | worker hlive hw hm => exact ⟨_, .quiet (.worker hlive hw hm) nofun nofun⟩
  | transport broker => exact ⟨_, .quiet (.transport broker) nofun nofun⟩

theorem ConductMoves.moves {conducts' : Nat → Conduct}
    (h : ConductMoves w conducts label w' conducts') : w.Moves label w' := by
  cases h with
  | launch config start hnone => exact .launch config start hnone
  | call hlive ht ha => exact .call hlive ht ha
  | quiet hm => exact hm

theorem World.Initial.conducted (h : w.Initial) :
    Conducted w fun _ => { books := {} } :=
  ⟨h.consistent, fun _ _ hl => absurd hl h.not_live⟩

/-- What a scheduler may assume of an answer. -/
theorem answer_sees {g : Conduct} {choice : Choice} {c : EngineCall} {r : EngineResult c}
    (hv : w.validating = true) (ha : answer choice pid p w c = some (r, p', w'))
    (hstaffed : Staffed g.books p.workers p.claimEvents p.resultEvents) : g.sees c r := by
  cases c with
  | createRun s =>
    rcases Choice.attempt_cases (attempt_map ha).2 with ⟨a, hok, hr⟩ | ⟨-, e, rfl⟩
    · rcases r with e | stored
      · trivial
      · exact World.checkSnapshot_ok (bind_unit_ok_iff.mp hok).1 hv
    · trivial
  | saveRun s =>
    rcases Choice.attempt_cases (attempt_map ha).2 with ⟨a, hok, hr⟩ | ⟨-, e, rfl⟩
    · rcases r with e | stored
      · trivial
      · exact World.checkSnapshot_ok (bind_unit_ok_iff.mp hok).1 hv
    · trivial
  | select armed =>
    obtain ⟨source, -, htake, -⟩ := answer_select ha
    rcases take_cases htake with ⟨claim, rest, rfl, hclaims, -⟩ | ⟨_, _, rfl, -⟩ |
      ⟨_, _, _, rfl, -⟩ | ⟨_, _, _, _, rfl, -⟩ | ⟨_, _, rfl, -⟩ | ⟨rfl | ⟨_, rfl, -⟩, -⟩
    · obtain ⟨worker, hget, -⟩ := hstaffed.awaited claim (by rw [hclaims]; exact List.mem_cons_self)
      exact hstaffed.spawned _ worker hget
    all_goals trivial
  | _ => trivial

theorem Conducted.launch (h : Conducted w conducts)
    (hnone : w.processes.get? pid = none) (config : EngineConfig) (start : Start) :
    Conducted (w.put pid { config := config, thread := start.thread config w.runID })
      (Function.update conducts pid { books := start.ledger w.runID }) := by
  refine ⟨?_, fun pid' q hq => ?_⟩
  · rw [Function.comp_update]
    exact h.consistent.launch hnone config start
  · rcases World.live_put hq with ⟨rfl, rfl⟩ | ⟨hne, hq'⟩
    · rw [Function.update_self]
      cases start with
      | execute d =>
        exact wp_round (wp_execute config w.runID d) (conduct_execute config w.runID d)
      | recover =>
        exact wp_round (wp_recoverEngine config w.runID) (conduct_recoverEngine config w.runID)
    · rw [Function.update_of_ne hne]
      exact h.safe pid' q hq'

theorem Conducted.call (h : Conducted w conducts) {choice : Choice} {c : EngineCall}
    {next : EngineResult c → Round} {r : EngineResult c} (hv : w.validating = true)
    (hlive : w.Live pid p)
    (ht : p.thread = .running (.call c next)) (ha : answer choice pid p w c = some (r, p', w')) :
    Conducted (w'.put pid { p' with thread := .running (next r) })
      (Function.update conducts pid ((conducts pid).note p.config w.runID c r)) := by
  obtain ⟨hid, hprocesses, hconfig, -⟩ := answer_log ha
  have hstaffed := h.consistent.staffed pid p hlive
  refine ⟨?_, fun pid' q hq => ?_⟩
  · rw [Function.comp_update]
    exact h.consistent.call hlive ht ha
  · rcases World.live_put hq with ⟨rfl, rfl⟩ | ⟨hne, hq'⟩
    · rw [Function.update_self]
      show Thread.Safe (conductContract p'.config w'.runID)
        (Conducting p'.config w'.runID) Anyhow (.running (next r)) _
      rw [hid, hconfig]
      have hsafe := h.safe pid' p hlive
      rw [ht] at hsafe
      exact hsafe.2 r ⟨answer_expects h.consistent.chain hstaffed.reported ha,
        answer_sees hv ha hstaffed⟩
    · rw [Function.update_of_ne hne]
      show Thread.Safe (conductContract q.config w'.runID) (Conducting q.config w'.runID) _ _ _
      rw [hid]
      rw [World.Live, hprocesses] at hq'
      exact h.safe pid' q hq'

/-- Steps that neither start a process nor answer a call. -/
theorem Conducted.quiet (h : Conducted w conducts) (hm : w.Moves label w')
    (hlaunch : ∀ pid config start, label ≠ .launch pid config start)
    (hcall : ∀ pid choice, label = .scheduler pid choice → w.pending pid = none) :
    Conducted w' conducts := by
  have hid := (moves_frame hm).1
  refine ⟨h.consistent.quiet hm hlaunch hcall, fun pid' q hq => ?_⟩
  rcases hm.thread_cases hq with ⟨config, start, rfl, -⟩ | ⟨p, hlive, hconfig, hthread⟩
  · exact absurd rfl (hlaunch pid' config start)
  · have hsafe := h.safe pid' p hlive
    rw [hid, hconfig]
    rcases hthread with hsame | ⟨st, hst, hthread⟩ | ⟨o, ho, hthread⟩ |
      ⟨choice, c, next, r, rfl, hc, -⟩
    · rw [hsame]
      exact hsafe
    · rw [hst] at hsafe
      rw [hthread]
      exact conduct_schedulerRound hsafe
    · rw [ho] at hsafe
      rw [hthread]
      exact hsafe
    · have hpending := hcall pid' choice rfl
      rw [hlive.pending hc] at hpending
      cases hpending

/-- Only calls store something. -/
theorem World.Moves.stores_nothing (hm : w.Moves label w')
    (hcall : ∀ pid choice, label = .scheduler pid choice → w.pending pid = none) :
    w'.history = w.history := by
  cases hm with
  | call hlive ht ha =>
    have hpending := hcall _ _ rfl
    rw [hlive.pending ht] at hpending
    cases hpending
  | _ => rfl

/-- A scheduler that makes a save knows what it replaces. -/
theorem Conducted.saving {x current : WorkflowRunSnapshot} {rest : List WorkflowRunSnapshot}
    (hc : Conducted w conducts) (hlive : w.Live pid p)
    {next : EngineResult (.saveRun x) → Round} (ht : p.thread = .running (.call (.saveRun x) next))
    (hhistory : w.history = current :: rest) (hv : x.version = current.version) :
    (conducts pid).books.stored = some current ∧ Later current x.next := by
  have hsafe := hc.consistent.safe pid p hlive
  have hchain := hc.consistent.chain
  have hinformed := hc.consistent.informed pid
  rw [ht] at hsafe
  rw [hhistory] at hchain hinformed
  obtain ⟨hstored, hlater, -⟩ := hchain.saved hinformed hsafe.1 hv
  exact ⟨hstored, hlater⟩

theorem Conducted.step {conducts' : Nat → Conduct} (h : Conducted w conducts)
    (hv : w.validating = true) (hm : ConductMoves w conducts label w' conducts') :
    Conducted w' conducts' := by
  cases hm with
  | launch config start hnone => exact h.launch hnone config start
  | call hlive ht ha => exact h.call hv hlive ht ha
  | quiet hm hlaunch hcall => exact h.quiet hm hlaunch hcall

/-- Every scheduler goes on conducting its run as it should; and what holds at first and is
kept by every step holds with it. -/
theorem Conducted.reached {C : World → Label → Prop} {P : World → (Nat → Conduct) → Prop}
    {labels : List Label} (h : Conducted w conducts) (hv : w.validating = true)
    (hP : P w conducts)
    (hstep : ∀ w conducts label w' conducts', C w label → Conducted w conducts →
      Conducted w' conducts' → ConductMoves w conducts label w' conducts' → P w conducts →
      P w' conducts')
    (hmeets : w.Meets C labels) (hrun : w.run labels = some w') :
    w'.validating = true ∧ ∃ conducts, Conducted w' conducts ∧ P w' conducts := by
  refine hmeets.induction (P := fun v => v.validating = true ∧ ∃ conducts, Conducted v conducts ∧
    P v conducts) (fun v label v' hmeet ⟨hv, conducts, hc, hp⟩ hm => ?_) ⟨hv, _, h, hP⟩ hrun
  obtain ⟨conducts', hm'⟩ := hm.conduct conducts
  have hc' := hc.step hv hm'
  exact ⟨(moves_frame hm).2.trans hv, conducts', hc',
    hstep v conducts label v' conducts' hmeet hc hc' hm' hp⟩

end

/-! ## No run is stalled -/

/-- The tables of the scheduler are those of its run. -/
structure TablesAgree (st : Scheduler) : Prop where
  ready : ∀ k, st.ready.contains k = true ↔
    ∃ t, st.run.tasks.get? k = some t ∧ t.status = .ready
  inFlight : ∀ k t, st.run.tasks.get? k = some t → t.status = .running →
    st.inFlight.contains t.currentAttemptID = true
  completed : ∀ k, st.completed.contains k = true ↔
    ∃ t, st.run.tasks.get? k = some t ∧ t.status = .succeeded

/-- Answers of a store that checks what it takes, and whatever else the calls may
answer before a scheduler waits for an event. -/
def StoreAnswers : (c : EngineCall) → EngineResult c → Prop
  | .createRun s, .ok stored => stored = { s with version := s.version + 1 } ∧ s.validate = .ok ()
  | .saveRun s, .ok stored => stored = { s with version := s.version + 1 } ∧ s.validate = .ok ()
  | .loadRun _, .ok (some _) => False
  | .select _, event => event = .timer
  | _, _ => True

theorem storeAnswers_expected {runID : RunID} (g : Conduct) (c : EngineCall) (r : EngineResult c)
    (h : StoreAnswers c r) :
    g.books.expects runID c r ∧ g.sees c r := by
  cases c with
  | createRun s =>
    cases r with
    | error _ => exact ⟨trivial, trivial⟩
    | ok _ => exact h
  | saveRun s =>
    cases r with
    | error _ => exact ⟨trivial, trivial⟩
    | ok _ => exact h
  | loadRun _ =>
    rcases r with _ | _ | _
    · exact ⟨trivial, trivial⟩
    · exact ⟨trivial, trivial⟩
    · exact h.elim
  | select _ =>
    cases (show r = .timer from h)
    exact ⟨trivial, trivial⟩
  | _ => exact ⟨trivial, trivial⟩

/-- Whenever a scheduler goes on after it has looked for expired leases and for the end
of the run, its tables agree with the run, a task can be worked on, and the run is not
found stalled. -/
theorem scheduler_never_stalled {w w' : World} {labels : List Label} (h : w.Initial)
    (hv : w.validating = true) (hrun : w.run labels = some w') {pid : Nat} {p : Process}
    {st st' : Scheduler} (hlive : w'.Live pid p) (ht : p.thread = .running (.ret (.again st)))
    (hhead : (roundHead p.config st).Returns StoreAnswers (.again st')) :
    TablesAgree st' ∧
      (∃ k t, st'.run.tasks.get? k = some t ∧
        (t.status = .ready ∨ t.status = .running ∨ t.status = .retryWaiting)) ∧
      checkStalled st' = pure (.again st') := by
  obtain ⟨-, conducts, hc, -⟩ := h.conducted.reached (P := fun _ _ => True) hv trivial
    (fun _ _ _ _ _ _ _ _ _ _ => trivial) (World.meets_of_labels w fun _ _ => trivial) hrun
  have hsafe := hc.safe pid p hlive
  rw [ht] at hsafe
  obtain ⟨g, hworking, hongoing⟩ := hhead.post storeAnswers_expected
    (conduct_roundHead hsafe.1 hsafe.2)
  refine ⟨⟨fun k => ⟨hworking.desk.ready k, ?_⟩, hongoing.running, hworking.desk.completed⟩,
    hongoing.planned.progress hongoing.unfinished hworking.unfailed,
    if_neg (hongoing.not_stalled hworking.toScheduling)⟩
  rintro ⟨t, ht, hs⟩
  exact hongoing.ready k t ht hs

/-- The configuration and the variables of a process that is between two rounds. -/
def World.between (w : World) (pid : Nat) : Option (EngineConfig × Scheduler) :=
  match w.processes.get? pid with
  | some p =>
    match p.thread, p.crashed with
    | .running (.ret (.again st)), false => some (p.config, st)
    | _, _ => none
  | none => none

theorem World.between_live {w : World} {pid : Nat} {config : EngineConfig} {st : Scheduler}
    (h : w.between pid = some (config, st)) :
    ∃ p, w.Live pid p ∧ p.config = config ∧ p.thread = .running (.ret (.again st)) := by
  unfold World.between at h
  split at h
  · rename_i p hget
    split at h
    · rename_i hthread hcrashed
      cases h
      exact ⟨p, ⟨hget, hcrashed⟩, rfl, hthread⟩
    · cases h
  · cases h

/-- Every message is published, nothing is stored, and it is the instant 5. -/
def idleAnswers : (c : EngineCall) → EngineResult c
  | .now => (5 : Int)
  | .nows => fun _ => 5
  | .contextErr => none
  | .saveWorkflow _ | .createRun _ | .saveRun _ | .loadRun _ | .loadWorkflow _ => .error []
  | .publish _ => .ok ()
  | .ack _ | .nack _ | .progress _ => .ok ()
  | .spawnWorker .. | .cancelWorker _ | .cancelWorkers | .waitWorkers | .respond .. => ()
  | .select _ => .timer

theorem idleAnswers_store (c : EngineCall) : StoreAnswers c (idleAnswers c) := by
  cases c <;> trivial

/-- The variables a round goes on with when its calls are answered that way. -/
def goesOnWith (config : EngineConfig) (st : Scheduler) : Option Scheduler :=
  match (roundHead config st).runWith idleAnswers with
  | .again st' => some st'
  | .done _ => none

theorem sample_not_stalled : ∃ w' p st st',
    (sampleWorld (ascii "r")).run (.launch 0 sampleConfig
      (.execute ⟨ascii "w", [sampleTask (ascii "a")]⟩) ::
        schedulerSteps 0 ((executeToSelect 1).take 9)) = some w' ∧
    w'.Live 0 p ∧ p.thread = .running (.ret (.again st)) ∧
    (roundHead p.config st).Returns StoreAnswers (.again st') ∧
    TablesAgree st' ∧ checkStalled st' = pure (.again st') := by
  obtain ⟨w', hrun, hgoes⟩ := run_reaches (sampleWorld (ascii "r"))
    (.launch 0 sampleConfig (.execute ⟨ascii "w", [sampleTask (ascii "a")]⟩) ::
      schedulerSteps 0 ((executeToSelect 1).take 9))
    (fun w' => ((w'.between 0).bind fun q => goesOnWith q.1 q.2).isSome = true)
    (by decide +kernel)
  obtain ⟨st', hst'⟩ := Option.isSome_iff_exists.mp hgoes
  obtain ⟨⟨config, st⟩, hbetween, hgoes⟩ := Option.bind_eq_some_iff.mp hst'
  obtain ⟨p, hlive, rfl, ht⟩ := World.between_live hbetween
  have hreturns : (roundHead p.config st).Returns StoreAnswers (.again st') := by
    have hrunWith := Prog.returns_runWith idleAnswers_store (roundHead p.config st)
    unfold goesOnWith at hgoes
    split at hgoes
    · rename_i hagain
      cases hgoes
      rw [← hagain]
      exact hrunWith
    · cases hgoes
  obtain ⟨htables, -, hgo⟩ := scheduler_never_stalled (sampleWorld_initial _) rfl hrun hlive ht
    hreturns
  exact ⟨w', p, st, st', hrun, hlive, ht, hreturns, htables, hgo⟩

end ForgeFlow.Execution
