import ForgeFlow.Execution.Updates

/-!
# Calls that have returned

In every world reached, a call that has returned has left no worker behind, a call that
waits for its workers can be let go by them alone, and a call that reports no error has
left the run over.
-/

namespace ForgeFlow.Execution

open ForgeFlow.Base ForgeFlow.Workflow

variable {c : EngineCall} {id : WorkerID} {worker : Worker} {broker : MemoryBroker} {o : RunOutcome}

/-- The workers of the process are where its call takes them to be. -/
def Staffing.Fits (p : Process) : Staffing → Prop
  | .hired => True
  | .stopping => p.workersCanceled = true
  | .gone => ∀ id worker, p.workers.get? id = some worker → worker.phase = .exited

structure Tended (w : World) (ledgers : Nat → Ledger) : Prop where
  consistent : Consistent w ledgers
  fits : ∀ pid p, w.Live pid p → (ledgers pid).staff.Fits p

section

variable {w w' : World} {ledgers : Nat → Ledger} {label : Label} {pid : Nat} {p p' : Process}
  {g : Ledger} {labels : List Label}

/-- No worker is new, and none that has exited comes back. -/
def KeepsWorkers (p p' : Process) : Prop :=
  p'.workersCanceled = p.workersCanceled ∧ ∀ id worker', p'.workers.get? id = some worker' →
    ∃ worker, p.workers.get? id = some worker ∧ (worker.phase = .exited → worker'.phase = .exited)

theorem Staffing.Fits.keeps {staff : Staffing} (h : staff.Fits p) (hk : KeepsWorkers p p') :
    staff.Fits p' := by
  cases staff with
  | hired => trivial
  | stopping => exact hk.1.trans h
  | gone =>
    intro id worker' hget
    obtain ⟨worker, hworker, hexited⟩ := hk.2 id worker' hget
    exact hexited (h id worker hworker)

theorem keepsWorkers_refl {p' : Process} (hworkers : p'.workers = p.workers)
    (hcanceled : p'.workersCanceled = p.workersCanceled) : KeepsWorkers p p' :=
  ⟨hcanceled, fun _ worker' hget => ⟨worker', hworkers ▸ hget, id⟩⟩

theorem keepsWorkers_mapWorker (p : Process) (id : WorkerID) {f : Worker → Worker}
    (hf : ∀ worker, worker.phase = .exited → (f worker).phase = .exited) :
    KeepsWorkers p (p.mapWorker id f) := by
  refine ⟨?_, fun k worker' hget => ?_⟩
  · unfold Process.mapWorker
    split <;> rfl
  · rw [mapWorker_get?] at hget
    obtain ⟨worker, hworker, rfl⟩ := Option.map_eq_some_iff.mp hget
    refine ⟨worker, hworker, fun hexited => ?_⟩
    split
    · exact hf worker hexited
    · exact hexited

theorem answer_keepsWorkers {choice : Choice} {r : EngineResult c}
    (hspawn : ∀ id slot, c ≠ .spawnWorker id slot) (hcancel : c ≠ .cancelWorkers)
    (ha : answer choice pid p w c = some (r, p', w')) : KeepsWorkers p p' := by
  rcases answer_cases ha with ⟨rfl, -⟩ | ⟨_, -, rfl, -⟩ | ⟨_, _, _, -, rfl, -⟩ | ⟨_, -, rfl, -⟩ |
    ⟨claim, job, -, rfl, -⟩ | ⟨_, _, hc, -⟩ | ⟨id, -, -, rfl⟩ | ⟨hc, -⟩ | ⟨_, _, _, -, -, htake⟩
  · exact keepsWorkers_refl rfl rfl
  · exact keepsWorkers_refl rfl rfl
  · exact keepsWorkers_refl rfl rfl
  · exact keepsWorkers_refl rfl rfl
  · refine keepsWorkers_mapWorker p _ fun worker hexited => ?_
    rw [Worker.answer, if_neg (by rw [hexited]; simp)]
    exact hexited
  · exact absurd hc (hspawn _ _)
  · exact keepsWorkers_mapWorker p id fun _ hexited => hexited
  · exact absurd hc hcancel
  · rcases take_cases htake with ⟨_, _, -, -, rfl⟩ | ⟨_, _, -, -, rfl⟩ | ⟨_, _, _, -, -, rfl⟩ |
      ⟨_, _, _, _, -, -, rfl⟩ | ⟨_, _, -, -, rfl⟩ | ⟨-, rfl⟩ <;> exact keepsWorkers_refl rfl rfl

theorem workersExited_iff : p.workersExited = true ↔
    ∀ id worker, p.workers.get? id = some worker → worker.phase = .exited := by
  simp only [Process.workersExited, List.all_eq_true, decide_eq_true_eq, KeyMap.mem_values_iff]
  exact ⟨fun h id worker hget => h worker ⟨id, hget⟩,
    fun h worker hget => hget.elim fun id hid => h id worker hid⟩

/-- The rest of the calls leaves the staff alone. -/
theorem note_staffing (config : EngineConfig) (runID : RunID) (g : Ledger)
    (hspawn : ∀ id slot, c ≠ .spawnWorker id slot) (hcancel : c ≠ .cancelWorkers)
    (hwait : c ≠ .waitWorkers) (r : EngineResult c) :
    (g.note config runID c r).staff = g.staff := by
  unfold Ledger.note
  split <;> first | rfl | contradiction | exact absurd rfl (hspawn _ _)

/-- A call answered in the world. -/
theorem Staffing.Fits.call {config : EngineConfig} {runID : RunID} {choice : Choice}
    {r : EngineResult c} (h : g.staff.Fits p) (ha : answer choice pid p w c = some (r, p', w')) :
    (g.note config runID c r).staff.Fits p' := by
  cases c with
  | spawnWorker id slot => trivial
  | cancelWorkers =>
    cases ha
    rfl
  | waitWorkers =>
    rw [answer] at ha
    split at ha
    · rename_i hexited
      cases ha
      exact workersExited_iff.mp hexited
    · cases ha
  | _ =>
    rw [note_staffing config runID g (by simp) (by simp) (by simp)]
    exact h.keeps (answer_keepsWorkers (by simp) (by simp) ha)

theorem moveWorker_not_exited {move : WorkerMove} {broker' : MemoryBroker}
    (hm : p.moveWorker broker id worker move = some (p', broker')) : worker.phase ≠ .exited := by
  intro hexited
  cases moveWorker_steps hm <;> simp_all [WorkerPhase.leaving]

/-- A worker moves. -/
theorem Staffing.Fits.move {move : WorkerMove}
    {broker' : MemoryBroker} {staff : Staffing} (h : staff.Fits p)
    (hw : p.workers.get? id = some worker)
    (hm : p.moveWorker broker id worker move = some (p', broker')) : staff.Fits p' := by
  cases staff with
  | hired => trivial
  | stopping =>
    show p'.workersCanceled = true
    rw [← show p.workersCanceled = true from h]
    cases moveWorker_steps hm <;> rfl
  | gone => exact absurd (h id worker hw) (moveWorker_not_exited hm)

theorem fits_put (h : ∀ pid p, w.Live pid p → (ledgers pid).staff.Fits p)
    (hp : p.crashed = false → g.staff.Fits p) (pid' : Nat) (q : Process)
    (hq : (w.put pid p).Live pid' q) : (Function.update ledgers pid g pid').staff.Fits q := by
  rcases World.live_put hq with ⟨rfl, rfl⟩ | ⟨hne, hq'⟩
  · rw [Function.update_self]
    exact hp hq.2
  · rw [Function.update_of_ne hne]
    exact h pid' q hq'

/-- A process goes on with what it has noted. -/
theorem Tended.put (h : Tended w ledgers)
    (hc : Consistent ({ w with broker := broker }.put pid p') ledgers)
    (hp : p'.crashed = false → (ledgers pid).staff.Fits p') :
    ∃ ledgers', Tended ({ w with broker := broker }.put pid p') ledgers' := by
  refine ⟨ledgers, hc, fun pid' q hq => ?_⟩
  have hput := fits_put (w := { w with broker := broker }) (g := ledgers pid) h.fits hp pid' q hq
  rw [Function.update_eq_self] at hput
  exact hput

theorem Tended.step (h : Tended w ledgers) (hm : w.Moves label w') :
    ∃ ledgers', Tended w' ledgers' := by
  have hmoves := hm
  cases hm with
  | launch config start hnone =>
    exact ⟨_, h.consistent.launch hnone config start, fits_put h.fits fun _ => by
      cases start <;> trivial⟩
  | @call pid p p' w'' c next r choice hlive ht ha =>
    obtain ⟨-, hprocesses, -⟩ := answer_log ha
    refine ⟨_, h.consistent.call hlive ht ha, fits_put (fun pid' q hq => ?_) fun _ => ?_⟩
    · rw [World.Live, hprocesses] at hq
      exact h.fits pid' q hq
    · exact ((h.fits pid p hlive).call ha).keeps (keepsWorkers_refl rfl rfl)
  | @again pid p st choice hlive ht =>
    exact h.put (h.consistent.quiet hmoves (by simp) (pending_none choice hlive (by rw [ht]; rfl)))
      fun _ => (h.fits pid p hlive).keeps (keepsWorkers_refl rfl rfl)
  | @finish pid p o choice hlive ht =>
    exact h.put (h.consistent.quiet hmoves (by simp) (pending_none choice hlive (by rw [ht]; rfl)))
      fun _ => (h.fits pid p hlive).keeps (keepsWorkers_refl rfl rfl)
  | crash hlive =>
    exact h.put (h.consistent.quiet hmoves (by simp) (by simp)) fun hcrashed => by cases hcrashed
  | @cancel pid p hlive =>
    exact h.put (h.consistent.quiet hmoves (by simp) (by simp))
      fun _ => (h.fits pid p hlive).keeps (keepsWorkers_refl rfl rfl)
  | @worker pid p p' id worker move broker hlive hw hm =>
    exact h.put (h.consistent.quiet hmoves (by simp) (by simp))
      fun _ => (h.fits pid p hlive).move hw hm
  | transport broker => exact ⟨ledgers, h.consistent.quiet hmoves (by simp) (by simp), h.fits⟩

theorem World.Initial.tended (h : w.Initial) (hrun : w.run labels = some w') :
    ∃ ledgers, Tended w' ledgers := by
  refine World.run_induction (P := fun v => ∃ ledgers, Tended v ledgers) ?_
    ⟨fun _ => {}, h.consistent, fun _ _ hl => absurd hl h.not_live⟩ hrun
  rintro v label v' ⟨ledgers, hv⟩ hm
  exact hv.step hm

/-! ## Returning -/

/-- What a call that has returned has returned. -/
def World.returned (world : World) (pid : Nat) : Option RunOutcome :=
  match world.processes.get? pid with
  | none => none
  | some process =>
    if process.crashed then none
    else match process.thread with
      | .finished outcome => some outcome
      | .running _ => none

theorem World.returned_some (h : w.returned pid = some o) :
    ∃ p, w.Live pid p ∧ p.thread = .finished o := by
  unfold World.returned at h
  split at h
  · cases h
  · rename_i p hget
    split at h
    · cases h
    · rename_i hcrashed
      split at h
      · rename_i outcome hthread
        cases h
        exact ⟨p, ⟨hget, by simpa using hcrashed⟩, hthread⟩
      · cases h

theorem Tended.exited (h : Tended w ledgers) (hlive : w.Live pid p)
    (hthread : p.thread = .finished o)
    (hget : p.workers.get? id = some worker) : worker.phase = .exited := by
  have hover := h.consistent.safe pid p hlive
  rw [hthread] at hover
  rcases hover.deserted with hnone | hgone
  · have hspawned := (h.consistent.staffed pid p hlive).spawned id worker hget
    rw [hnone] at hspawned
    cases hspawned
  · have hfits := h.fits pid p hlive
    rw [hgone] at hfits
    exact hfits id worker hget

/-- If every call of the number has returned, neither it nor its workers take a step. -/
theorem Tended.quiet (h : Tended w ledgers)
    (hfinished : ∀ p, w.Live pid p → ∃ o, p.thread = .finished o) :
    (∀ choice, w.step (.scheduler pid choice) = none) ∧
      ∀ id move, w.step (.worker pid id move) = none := by
  constructor
  · refine fun choice => Option.eq_none_iff_forall_ne_some.mpr fun w'' hstep => ?_
    cases World.step_moves hstep with
    | again _ hl ht =>
      obtain ⟨o, ho⟩ := hfinished _ hl
      cases ho.symm.trans ht
    | finish _ hl ht =>
      obtain ⟨o, ho⟩ := hfinished _ hl
      cases ho.symm.trans ht
    | call hl ht =>
      obtain ⟨o, ho⟩ := hfinished _ hl
      cases ho.symm.trans ht
  · refine fun id move => Option.eq_none_iff_forall_ne_some.mpr fun w'' hstep => ?_
    cases World.step_moves hstep with
    | worker hl hw hm =>
      obtain ⟨o, ho⟩ := hfinished _ hl
      exact absurd (h.exited hl ho hw) (moveWorker_not_exited hm)

/-- However the calls on a run are interleaved, once a call of `Execute` or `Recover` has
returned, every worker it ever spawned has exited, and neither the call nor any of its
workers takes another step. -/
theorem returned_call_leaves_no_worker (h : w.Initial) (hrun : w.run labels = some w')
    (hreturned : w'.returned pid = some o) :
    (∀ p, w'.processes.get? pid = some p → p.workersExited = true) ∧
      (∀ choice, w'.step (.scheduler pid choice) = none) ∧
      ∀ id move, w'.step (.worker pid id move) = none := by
  obtain ⟨ledgers, ht⟩ := h.tended hrun
  obtain ⟨p, hlive, hthread⟩ := World.returned_some hreturned
  refine ⟨fun q hq => ?_, ht.quiet fun q hq => ?_⟩
  · cases hlive.1.symm.trans hq
    exact workersExited_iff.mpr fun id worker hget => ht.exited hlive hthread hget
  · cases hlive.1.symm.trans hq.1
    exact ⟨o, hthread⟩

/-- The task is done and the scheduler waits for its worker. -/
def untilWait : List Label :=
  firstResult (ascii "r") [ascii "a"] ++ schedulerSteps 0 [.go, .go, .go, .clock 5, .clock 5, .go]

/-- The worker leaves and the call returns. -/
def untilReturn : List Label :=
  untilWait ++ .worker 0 (workerIDFor sampleConfig (ascii "r") 1 1) .leave ::
    schedulerSteps 0 [.go, .clock 5, .go, .go]

theorem sample_call_leaves_no_worker : ∃ w' o,
    (sampleWorld (ascii "r")).run untilReturn = some w' ∧ w'.returned 0 = some o ∧
    ∀ id move, w'.step (.worker 0 id move) = none := by
  obtain ⟨w', hrun, hreturned⟩ := run_reaches (sampleWorld (ascii "r")) untilReturn
    (fun w' => (w'.returned 0).isSome = true) (by decide +kernel)
  obtain ⟨o, ho⟩ := Option.isSome_iff_exists.mp hreturned
  exact ⟨w', o, hrun, ho, (returned_call_leaves_no_worker (sampleWorld_initial _) hrun ho).2.2⟩

/-- Whenever a call of `Execute` or `Recover` has returned without an error, the run it
returned is over, and the run is stored with the same status from then on. -/
theorem returned_without_error_ended (h : w.Initial) (hrun : w.run labels = some w')
    (hreturned : w'.returned pid = some o) (herror : o.error = none) :
    ∃ run, o.run = some run ∧ run.status.terminal = true ∧
      ∀ later w'', w'.run later = some w'' →
        ∃ last, w''.history.head? = some last ∧ last.status = run.status := by
  obtain ⟨ledgers, ht⟩ := h.tended hrun
  obtain ⟨p, hlive, hthread⟩ := World.returned_some hreturned
  have hover := ht.consistent.safe pid p hlive
  rw [hthread] at hover
  obtain ⟨s, run, hs, hended, horun, hstatus⟩ := hover.returned herror
  refine ⟨run, horun, hstatus ▸ hended, fun later w'' hlater => ?_⟩
  have hmem : s ∈ w''.history := World.run_induction (P := fun v => s ∈ v.history)
    (fun _ _ _ hv hm => hm.history.2 s hv) ((ht.consistent.informed pid).stored s hs) hlater
  obtain ⟨last, hlast, hsame⟩ :=
    ended_to_last ((h.serial.run hrun).run hlater).chain hmem hended
  exact ⟨last, hlast, hsame.trans hstatus.symm⟩

theorem sample_returned_ended : ∃ w' o run,
    (sampleWorld (ascii "r")).run untilReturn = some w' ∧ w'.returned 0 = some o ∧
    o.error = none ∧ o.run = some run ∧ run.status.terminal = true := by
  obtain ⟨w', hrun, hreturned⟩ := run_reaches (sampleWorld (ascii "r")) untilReturn
    (fun w' => (w'.returned 0).map RunOutcome.error = some none) (by decide +kernel)
  obtain ⟨o, ho, herror⟩ := Option.map_eq_some_iff.mp hreturned
  obtain ⟨run, horun, hended, -⟩ :=
    returned_without_error_ended (sampleWorld_initial _) hrun ho herror
  exact ⟨w', o, run, hrun, ho, herror, horun, hended⟩

/-! ## Waiting for the workers -/

/-- A call that waits for its workers waits for running handlers only: it goes on as soon as
all workers have exited, and a worker that has not exited runs a handler or can leave at
once, whatever the channels hold. -/
theorem waiting_call_awaits_handlers (h : w.Initial) (hrun : w.run labels = some w')
    (hwait : w'.pending pid = some .waitWorkers) (hget : w'.processes.get? pid = some p) :
    ((w'.step (.scheduler pid .go)).isSome = true ↔ p.workersExited = true) ∧
      ∀ id worker, p.workers.get? id = some worker → worker.phase ≠ .exited →
        (∃ claim job, worker.phase = .executing claim job) ∨
          (w'.step (.worker pid id .leave)).isSome = true := by
  obtain ⟨ledgers, ht⟩ := h.tended hrun
  obtain ⟨q, next, hlive, hthread⟩ := World.pending_some hwait
  cases hlive.1.symm.trans hget
  have hsafe := ht.consistent.safe pid p hlive
  rw [hthread] at hsafe
  have hcanceled := ht.fits pid p hlive
  rw [show (ledgers pid).staff = .stopping from hsafe.1] at hcanceled
  replace hcanceled : p.workersCanceled = true := hcanceled
  refine ⟨?_, fun id worker hworker hphase => ?_⟩
  · cases hexited : p.workersExited <;>
      simp [World.step, World.stepProcess, hlive.1, hlive.2, hthread, Thread.advance, answer, hexited]
  · cases hphase' : worker.phase with
    | executing claim job => exact .inl ⟨claim, job, rfl⟩
    | exited => exact absurd hphase' hphase
    | _ =>
      right
      simp [World.step, World.stepProcess, hlive.1, hlive.2, hworker, Process.moveWorker, hcanceled,
        hphase', WorkerPhase.leaving]

theorem sample_call_awaits_handlers : ∃ w' p,
    (sampleWorld (ascii "r")).run untilWait = some w' ∧ w'.pending 0 = some .waitWorkers ∧
    w'.processes.get? 0 = some p ∧ p.workersExited = false ∧
    ((w'.step (.scheduler 0 .go)).isSome = true ↔ p.workersExited = true) := by
  obtain ⟨w', hrun, hwait, hstaffed⟩ := run_reaches (sampleWorld (ascii "r")) untilWait
    (fun w' => w'.pending 0 = some .waitWorkers ∧
      (w'.processes.get? 0).map Process.workersExited = some false) (by decide +kernel)
  obtain ⟨p, hget, hexited⟩ := Option.map_eq_some_iff.mp hstaffed
  exact ⟨w', p, hrun, hwait, hget, hexited,
    (waiting_call_awaits_handlers (sampleWorld_initial _) hrun hwait hget).1⟩

end

end ForgeFlow.Execution
