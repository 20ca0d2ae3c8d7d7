import ForgeFlow.Base.Counting
import ForgeFlow.Execution.Guarantees

/-!
# How many handlers execute at a time

Each slot of an engine has one worker that is given jobs. A worker that is replaced
goes on with the handler it executes, so as many handlers execute as there are slots,
and no more, only while nobody who has a job is replaced.
-/

namespace ForgeFlow.Execution

open ForgeFlow.Base ForgeFlow.Workflow

def WorkerPhase.executes : WorkerPhase → Bool
  | .executing .. => true
  | _ => false

/-- The handlers that execute for a call; in a process that crashed none does. -/
def Process.handlers (p : Process) : Nat :=
  if p.crashed then 0 else p.workers.entries.countP fun e => e.2.phase.executes

/-- The handlers of the run that execute for the calls made on an engine. -/
def World.handlers (w : World) (calls : Nat → Bool) : Nat :=
  ((w.processes.entries.filter fun e => calls e.1).map fun e => e.2.handlers).sum

/-- The call has returned and its workers have left, or its process crashed. -/
def Process.over (p : Process) : Bool :=
  p.crashed || p.workersExited && match p.thread with
    | .finished _ => true
    | .running _ => false

/-- A call is made on the engine only when the ones before it are over, and a worker is
spawned for a slot only when no worker of the slot has a job. -/
def World.undisturbed (calls : Nat → Bool) (w : World) : Label → Bool
  | .launch pid _ _ => !calls pid || w.processes.entries.all fun e => !calls e.1 || e.2.over
  | .scheduler pid _ => !calls pid ||
    match w.pending pid, w.processes.get? pid with
    | some (.spawnWorker _ slot), some p =>
      p.workers.values.all fun worker => worker.slot ≠ slot || worker.phase.job? = none
    | _, _ => true
  | _ => true

/-! ## Workers at their posts -/

/-- A worker of a slot of the engine; it has a job only if it is on the roster. -/
structure AtPost (config : EngineConfig) (roster : Nat → Option WorkerID) (id : WorkerID)
    (worker : Worker) : Prop where
  named : id ≠ []
  slot : config.HasSlot worker.slot
  claim : ∀ claim, worker.phase = .waiting claim → claim.workerID = id ∧ claim.slot = worker.slot
  job : worker.phase.job? ≠ none → roster worker.slot = some id

def Posted (config : EngineConfig) (roster : Nat → Option WorkerID)
    (workers : KeyMap WorkerID Worker) : Prop :=
  ∀ id worker, workers.get? id = some worker → AtPost config roster id worker

section

variable {config : EngineConfig} {runID : RunID} {g : Ledger} {roster : Nat → Option WorkerID}
  {id : WorkerID} {worker worker' : Worker} {workers : KeyMap WorkerID Worker} {p p' : Process}
  {w w' : World}

theorem executes_job {phase : WorkerPhase} (h : phase.executes = true) : phase.job? ≠ none := by
  cases phase with
  | executing claim job => exact nofun
  | _ => cases h

/-- Workers at their posts that execute have slots of their own. -/
theorem Posted.handlers_le (h : Posted config roster p.workers) :
    p.handlers ≤ config.workerCount := by
  unfold Process.handlers
  split
  · exact Nat.zero_le _
  · refine countP_le_of_places (fun e => e.2.slot) (List.Nodup.of_map _ p.workers.keys_nodup) ?_ ?_
    · rintro ⟨id, worker⟩ hmem -
      exact (h id worker ((KeyMap.mem_entries_iff _ _ _).mp hmem)).slot
    · rintro ⟨id, worker⟩ hmem ⟨id', worker'⟩ hmem' hexec hexec' hslot
      rw [KeyMap.mem_entries_iff] at hmem hmem'
      have hcurrent := (h id worker hmem).job (executes_job hexec)
      have hcurrent' := (h id' worker' hmem').job (executes_job hexec')
      rw [show worker.slot = worker'.slot from hslot, hcurrent'] at hcurrent
      cases hcurrent
      rw [hmem] at hmem'
      cases hmem'
      rfl

theorem Posted.insert (h : Posted config roster workers)
    (hworker : AtPost config roster id worker) :
    Posted config roster (workers.insert id worker) := by
  intro id' worker' hget
  rcases KeyMap.get?_insert_cases hget with ⟨rfl, rfl⟩ | ⟨-, hget⟩
  · exact hworker
  · exact h id' worker' hget

/-! ## The moves of a worker -/

/-- What a worker does by itself: it keeps its slot, takes no job but the one it was
given, and claims in its own name. -/
structure Goes (id : WorkerID) (worker worker' : Worker) : Prop where
  slot : worker'.slot = worker.slot
  job : worker'.phase.job? ≠ none → worker.phase.job? ≠ none
  claim : ∀ claim, worker'.phase = .waiting claim → claim.workerID = id ∧ claim.slot = worker.slot

theorem Goes.atPost (h : Goes id worker worker') (hp : AtPost config roster id worker) :
    AtPost config roster id worker' where
  named := hp.named
  slot := by
    rw [h.slot]
    exact hp.slot
  claim claim hclaim := by
    rw [h.slot]
    exact h.claim claim hclaim
  job hjob := by
    rw [h.slot]
    exact hp.job (h.job hjob)

theorem Goes.idle {phase : WorkerPhase} (hj : phase.job? = none)
    (hw : ∀ claim, phase ≠ .waiting claim) : Goes id worker { worker with phase := phase } :=
  ⟨rfl, fun h => absurd hj h, fun claim h => absurd h (hw claim)⟩

/-- A worker that left does not move; another one goes on, if it does more than beat. -/
theorem moveWorker_goes {move : WorkerMove} {broker broker' : MemoryBroker}
    (h : p.moveWorker broker id worker move = some (p', broker')) :
    worker.phase ≠ .exited ∧ (p'.workers = p.workers ∨
      ∃ worker', p'.workers = p.workers.insert id worker' ∧ Goes id worker worker') := by
  cases moveWorker_steps h with
  | start hphase | receiveFails err hphase | receive hphase | sentAway hphase
  | finish output err hphase | disappear hphase | sendResult hphase | sendLost hphase
  | sendError hphase =>
    exact ⟨by simp [hphase], .inr ⟨_, rfl, .idle rfl (by simp)⟩⟩
  | beat hphase => exact ⟨hphase.2, .inl rfl⟩
  | sendClaim hphase =>
    refine ⟨by simp [hphase], .inr ⟨_, rfl, rfl, fun hjob => absurd rfl hjob, fun claim hclaim => ?_⟩⟩
    cases hclaim
    exact ⟨rfl, rfl⟩
  | accept hphase =>
    exact ⟨by simp [hphase], .inr ⟨_, rfl, rfl, fun _ => by simp [hphase, WorkerPhase.job?], by simp⟩⟩
  | leave _ hleaving | handBack _ hleaving =>
    refine ⟨fun hphase => ?_, .inr ⟨_, rfl, .idle rfl (by simp)⟩⟩
    rw [hphase] at hleaving
    cases hleaving

/-! ## The calls of a scheduler -/

theorem Posted.mapWorker (h : Posted config roster p.workers) {f : Worker → Worker}
    (hf : ∀ worker, AtPost config roster id worker → AtPost config roster id (f worker)) :
    Posted config roster (p.mapWorker id f).workers := by
  rcases (mapWorker_workers p id f).2.2 with ⟨-, hw⟩ | ⟨worker, hget, hw⟩ <;> rw [hw]
  · exact h
  · exact h.insert (hf worker (h id worker hget))

/-- The answer to a claim makes a worker at its post one that has a job. -/
theorem AtPost.answer {claim : WorkerClaim} {job : Option TaskJob}
    (hneeds : g.needs config runID (.respond claim job)) (h : AtPost config g.roster id worker) :
    AtPost config g.roster id (worker.answer claim job) := by
  unfold Worker.answer
  split
  · rename_i hphase
    obtain ⟨hid, hslot⟩ := h.claim claim hphase
    refine ⟨h.named, h.slot, nofun, fun hjob => ?_⟩
    cases job with
    | none => exact absurd rfl hjob
    | some job =>
      have hcurrent := hneeds.1 (hid ▸ h.named)
      rw [hid, hslot] at hcurrent
      exact hcurrent
  · exact h

/-- A worker is spawned for a slot where nobody has a job. -/
theorem Posted.spawn (h : Posted config roster workers) {slot : Nat} (hid : id ≠ [])
    (hslot : config.HasSlot slot)
    (hfree : ∀ id' worker, workers.get? id' = some worker → worker.slot = slot →
      worker.phase.job? = none) :
    Posted config (Function.update roster slot (some id)) (workers.insert id { slot := slot }) := by
  intro id' worker hget
  rcases KeyMap.get?_insert_cases hget with ⟨rfl, rfl⟩ | ⟨-, hget⟩
  · exact ⟨hid, hslot, nofun, fun hjob => absurd rfl hjob⟩
  · have hpost := h id' worker hget
    refine ⟨hpost.named, hpost.slot, hpost.claim, fun hjob => ?_⟩
    have hne : worker.slot ≠ slot := fun heq => hjob (hfree id' worker hget heq)
    rw [Function.update_of_ne hne]
    exact hpost.job hjob

theorem Spawnable.ne_nil (h : Spawnable config runID id) : id ≠ [] := by
  obtain ⟨slot, n, rfl⟩ := h
  exact workerIDFor_ne_nil _ _ _ _

theorem Posted.answer {choice : Choice} {pid : Nat} {c : EngineCall} {r : EngineResult c}
    (h : Posted config g.roster p.workers) (hneeds : g.needs config runID c)
    (hfree : ∀ id slot, c = .spawnWorker id slot → ∀ id' worker,
      p.workers.get? id' = some worker → worker.slot = slot → worker.phase.job? = none)
    (ha : answer choice pid p w c = some (r, p', w')) :
    Posted config (g.note config runID c r).roster p'.workers := by
  -- most calls leave workers and roster alone
  have hsame : c.staffing = false → Posted config (g.note config runID c r).roster p.workers := by
    intro hc
    rw [(note_staff config runID g hc).2.2.2.2.2]
    exact h
  cases c with
  | spawnWorker id slot =>
    cases ha
    exact h.spawn hneeds.2.1.ne_nil hneeds.1 (hfree id slot rfl)
  | cancelWorker id =>
    cases ha
    exact h.mapWorker fun worker hw => ⟨hw.named, hw.slot, hw.claim, hw.job⟩
  | cancelWorkers =>
    cases ha
    exact h
  | respond claim job =>
    cases ha
    have hposted : Posted config g.roster
        (p.mapWorker claim.workerID fun worker => worker.answer claim job).workers :=
      h.mapWorker fun worker hw => hw.answer hneeds
    cases job <;> exact hposted
  | select armed =>
    obtain ⟨source, -, htake, -⟩ := answer_select ha
    have hroster : (g.note config runID (.select armed) r).roster = g.roster := by
      cases r <;> rfl
    rw [hroster]
    rcases take_cases htake with ⟨_, _, -, -, rfl⟩ | ⟨_, _, -, -, rfl⟩ | ⟨_, _, _, -, -, rfl⟩ |
      ⟨_, _, _, _, -, -, rfl⟩ | ⟨_, _, -, -, rfl⟩ | ⟨-, rfl⟩ <;> exact h
  | _ =>
    have hsame := hsame rfl
    rcases answer_cases ha with ⟨rfl, -⟩ | ⟨_, _, rfl, -⟩ | ⟨_, _, _, _, rfl, -⟩ | ⟨_, _, rfl, -⟩ |
      ⟨_, _, hc, -⟩ | ⟨_, _, hc, -⟩ | ⟨_, hc, -⟩ | ⟨hc, -⟩ | ⟨_, _, _, hc, -⟩
    all_goals first | exact hsame | cases hc

/-! ## Calls on one engine -/

/-- The calls on an engine: the workers of all of them are at their posts, and at most one
call is not over. -/
structure Paced (config : EngineConfig) (calls : Nat → Bool) (w : World)
    (ledgers : Nat → Ledger) : Prop where
  consistent : Consistent w ledgers
  configured : ∀ pid p, w.processes.get? pid = some p → calls pid = true → p.config = config
  posted : ∀ pid p, w.processes.get? pid = some p → calls pid = true →
    Posted p.config (ledgers pid).roster p.workers
  alone : ∀ pid p pid' p', w.processes.get? pid = some p → w.processes.get? pid' = some p' →
    calls pid = true → calls pid' = true → p.over = false → p'.over = false → pid = pid'

variable {calls : Nat → Bool} {pid : Nat} {ledgers ledgers' : Nat → Ledger}

theorem over_handlers (h : p.over = true) : p.handlers = 0 := by
  unfold Process.handlers
  split
  · rfl
  · rename_i hcrashed
    have hexited : p.workersExited = true := by
      cases hx : p.workersExited with
      | true => rfl
      | false => simp [Process.over, hx, hcrashed] at h
    refine List.countP_eq_zero.mpr fun e he hexec => ?_
    have hphase := of_decide_eq_true
      (List.all_eq_true.mp hexited e.2 (List.mem_map_of_mem he))
    rw [hphase] at hexec
    cases hexec

theorem Paced.handlers_le (h : Paced config calls w ledgers) :
    w.handlers calls ≤ config.workerCount := by
  refine sum_map_le_of_alone ?_ ?_
  · rintro ⟨pid, p⟩ hmem
    obtain ⟨hmem, hcalls⟩ := List.mem_filter.mp hmem
    rw [KeyMap.mem_entries_iff] at hmem
    rw [← h.configured pid p hmem hcalls]
    exact (h.posted pid p hmem hcalls).handlers_le
  · have hkeys : w.processes.entries.Pairwise fun e e' => e.1 ≠ e'.1 :=
      List.pairwise_map.mp w.processes.keys_nodup
    refine (hkeys.filter _).imp_of_mem ?_
    rintro ⟨pid, p⟩ ⟨pid', p'⟩ hmem hmem' hne
    obtain ⟨hmem, hcalls⟩ := List.mem_filter.mp hmem
    obtain ⟨hmem', hcalls'⟩ := List.mem_filter.mp hmem'
    rw [KeyMap.mem_entries_iff] at hmem hmem'
    cases hover : p.over with
    | true => exact .inl (over_handlers hover)
    | false =>
      cases hover' : p'.over with
      | true => exact .inr (over_handlers hover')
      | false => exact absurd (h.alone pid p pid' p' hmem hmem' hcalls hcalls' hover hover') hne

/-- One process of the world goes on. -/
theorem Paced.put {v : World} (h : Paced config calls w ledgers)
    (hc : Consistent (v.put pid p') ledgers') (hsame : v.processes = w.processes)
    (hledgers : ∀ pid', pid' ≠ pid → ledgers' pid' = ledgers pid')
    (hget : w.processes.get? pid = some p) (hconfig : p'.config = p.config)
    (hover : p.over = true → p'.over = true)
    (hposted : calls pid = true → Posted p.config (ledgers pid).roster p.workers →
      Posted p.config (ledgers' pid).roster p'.workers) :
    Paced config calls (v.put pid p') ledgers' := by
  -- a process that is not over now was there before and was not over
  have hformer : ∀ {pid' q}, (v.put pid p').processes.get? pid' = some q → q.over = false →
      ∃ q', w.processes.get? pid' = some q' ∧ q'.over = false := by
    intro pid' q hq hrunning
    rcases World.put_cases hq with ⟨rfl, rfl⟩ | ⟨-, hq⟩
    · refine ⟨p, hget, ?_⟩
      cases hp : p.over with
      | true => exact absurd (hover hp) (by rw [hrunning]; nofun)
      | false => rfl
    · exact ⟨q, hsame ▸ hq, hrunning⟩
  refine ⟨hc, fun pid' q hq hcalls => ?_, fun pid' q hq hcalls => ?_,
    fun pid₁ q₁ pid₂ q₂ hq₁ hq₂ hcalls₁ hcalls₂ hover₁ hover₂ => ?_⟩
  · rcases World.put_cases hq with ⟨rfl, rfl⟩ | ⟨-, hq⟩
    · exact hconfig.trans (h.configured pid' p hget hcalls)
    · exact h.configured pid' q (hsame ▸ hq) hcalls
  · rcases World.put_cases hq with ⟨rfl, rfl⟩ | ⟨hne, hq⟩
    · rw [hconfig]
      exact hposted hcalls (h.posted pid' p hget hcalls)
    · rw [hledgers pid' hne]
      exact h.posted pid' q (hsame ▸ hq) hcalls
  · obtain ⟨q₁', hget₁, hrunning₁⟩ := hformer hq₁ hover₁
    obtain ⟨q₂', hget₂, hrunning₂⟩ := hformer hq₂ hover₂
    exact h.alone pid₁ q₁' pid₂ q₂' hget₁ hget₂ hcalls₁ hcalls₂ hrunning₁ hrunning₂

/-- A call begins when those before it are over. -/
theorem Paced.launch (h : Paced config calls w ledgers) (hnone : w.processes.get? pid = none)
    {config' : EngineConfig} (start : Start) (hconfig : calls pid = true → config' = config)
    (hover : calls pid = true → ∀ pid' q, w.processes.get? pid' = some q → calls pid' = true →
      q.over = true) :
    Paced config calls (w.put pid { config := config', thread := start.thread config' w.runID })
      (Function.update ledgers pid (start.ledger w.runID)) := by
  refine ⟨h.consistent.launch hnone config' start, fun pid' q hq hcalls => ?_,
    fun pid' q hq hcalls => ?_,
    fun pid₁ q₁ pid₂ q₂ hq₁ hq₂ hcalls₁ hcalls₂ hover₁ hover₂ => ?_⟩
  · rcases World.put_cases hq with ⟨rfl, rfl⟩ | ⟨-, hq⟩
    · exact hconfig hcalls
    · exact h.configured pid' q hq hcalls
  · rcases World.put_cases hq with ⟨rfl, rfl⟩ | ⟨hne, hq⟩
    · exact nofun
    · rw [Function.update_of_ne hne]
      exact h.posted pid' q hq hcalls
  · rcases World.put_cases hq₁ with ⟨rfl, -⟩ | ⟨-, hget₁⟩ <;>
      rcases World.put_cases hq₂ with ⟨rfl, -⟩ | ⟨-, hget₂⟩
    · rfl
    · rw [hover hcalls₁ pid₂ q₂ hget₂ hcalls₂] at hover₂
      cases hover₂
    · rw [hover hcalls₂ pid₁ q₁ hget₁ hcalls₁] at hover₁
      cases hover₁
    · exact h.alone pid₁ q₁ pid₂ q₂ hget₁ hget₂ hcalls₁ hcalls₂ hover₁ hover₂

/-- A call that still takes steps is not over. -/
theorem running_not_over {rest : Round} (hlive : w.Live pid p) (ht : p.thread = .running rest) :
    p.over = false := by
  simp [Process.over, hlive.2, ht]

theorem undisturbed_launch {config' : EngineConfig} {start : Start}
    (h : w.undisturbed calls (.launch pid config' start) = true) (hcalls : calls pid = true)
    {pid' : Nat} {q : Process} (hget : w.processes.get? pid' = some q)
    (hcalls' : calls pid' = true) : q.over = true := by
  simp only [World.undisturbed, hcalls, Bool.not_true, Bool.false_or, List.all_eq_true] at h
  have hq := h (pid', q) ((KeyMap.mem_entries_iff _ _ _).mpr hget)
  simpa [hcalls'] using hq

theorem undisturbed_spawn {choice : Choice} {slot : Nat}
    {next : EngineResult (.spawnWorker id slot) → Round}
    (h : w.undisturbed calls (.scheduler pid choice) = true) (hcalls : calls pid = true)
    (hlive : w.Live pid p) (ht : p.thread = .running (.call (.spawnWorker id slot) next))
    {id' : WorkerID} (hget : p.workers.get? id' = some worker) (hslot : worker.slot = slot) :
    worker.phase.job? = none := by
  have hpending := hlive.pending ht
  simp only [World.undisturbed, hcalls, Bool.not_true, Bool.false_or, hpending, hlive.1,
    List.all_eq_true] at h
  have hworker := h worker ((KeyMap.mem_values_iff _ _).mpr ⟨id', hget⟩)
  simpa [hslot] using hworker

/-- One undisturbed step of the world. -/
theorem Paced.step {label : Label} (h : Paced config calls w ledgers)
    (hlaunch : ∀ pid config' start, label = .launch pid config' start → calls pid = true →
      config' = config)
    (hu : w.undisturbed calls label = true) (hm : w.Moves label w') :
    ∃ ledgers', Paced config calls w' ledgers' := by
  have hc := h.consistent
  cases hm with
  | launch config' start hnone =>
    exact ⟨_, h.launch hnone start (hlaunch _ config' start rfl) fun hcalls pid' q hget hcalls' =>
      undisturbed_launch hu hcalls hget hcalls'⟩
  | crash hlive =>
    exact ⟨ledgers, h.put (hc.quiet (.crash hlive) nofun nofun) rfl (fun _ _ => rfl) hlive.1 rfl
      (fun _ => rfl) fun _ hp => hp⟩
  | cancel hlive =>
    exact ⟨ledgers, h.put (hc.quiet (.cancel hlive) nofun nofun) rfl (fun _ _ => rfl) hlive.1 rfl
      id fun _ hp => hp⟩
  | again choice hlive ht =>
    have hquiet := hc.quiet (.again choice hlive ht) nofun
      (pending_none choice hlive (by rw [ht]; rfl))
    refine ⟨ledgers, h.put hquiet rfl (fun _ _ => rfl) hlive.1 rfl (fun hover => ?_) fun _ hp => hp⟩
    rw [running_not_over hlive ht] at hover
    cases hover
  | finish choice hlive ht =>
    have hquiet := hc.quiet (.finish choice hlive ht) nofun
      (pending_none choice hlive (by rw [ht]; rfl))
    refine ⟨ledgers, h.put hquiet rfl (fun _ _ => rfl) hlive.1 rfl (fun hover => ?_) fun _ hp => hp⟩
    rw [running_not_over hlive ht] at hover
    cases hover
  | @call pid p p' w'' c next r choice hlive ht ha =>
    obtain ⟨-, hprocesses, hconfig, -⟩ := answer_log ha
    refine ⟨_, h.put (hc.call hlive ht ha) hprocesses (fun _ hne => Function.update_of_ne hne _ _)
      hlive.1 hconfig (fun hover => ?_) fun hcalls hposted => ?_⟩
    · rw [running_not_over hlive ht] at hover
      cases hover
    · have hsafe := hc.safe pid p hlive
      rw [ht] at hsafe
      have hfree : ∀ id slot, c = .spawnWorker id slot → ∀ id' worker,
          p.workers.get? id' = some worker → worker.slot = slot → worker.phase.job? = none := by
        rintro id slot rfl id' worker hget hslot
        exact undisturbed_spawn hu hcalls hlive ht hget hslot
      rw [Function.update_self]
      have hafter := hposted.answer hsafe.1 hfree ha
      exact hafter
  | @worker pid p p' id worker move broker hlive hw hm =>
    obtain ⟨hconfig, hcrashed, hthread⟩ := moveWorker_frame hm
    obtain ⟨hphase, hworkers⟩ := moveWorker_goes hm
    refine ⟨ledgers, h.put (hc.quiet (.worker hlive hw hm) nofun nofun) rfl (fun _ _ => rfl) hlive.1
      hconfig (fun hover => ?_) fun _ hposted => ?_⟩
    · have hexited : p.workersExited = true := by
        simp only [Process.over, hlive.2, Bool.false_or, Bool.and_eq_true] at hover
        exact hover.1
      exact absurd (of_decide_eq_true (List.all_eq_true.mp hexited worker
        ((KeyMap.mem_values_iff _ _).mpr ⟨id, hw⟩))) hphase
    · rcases hworkers with hsame | ⟨worker', hsame, hgoes⟩ <;> rw [hsame]
      · exact hposted
      · exact hposted.insert (hgoes.atPost (hposted id worker hw))
  | transport broker =>
    exact ⟨ledgers, hc.quiet (.transport broker) nofun nofun, h.configured, h.posted, h.alone⟩

/-- Any number of undisturbed steps. -/
theorem Paced.run : ∀ {labels : List Label} {w : World} {ledgers : Nat → Ledger},
    Paced config calls w ledgers →
    (∀ pid config' start, .launch pid config' start ∈ labels → calls pid = true →
      config' = config) →
    w.Meets (fun w label => w.undisturbed calls label = true) labels →
    w.run labels = some w' → ∃ ledgers', Paced config calls w' ledgers'
  | [], _, ledgers, h, _, _, hrun => by
    cases hrun
    exact ⟨ledgers, h⟩
  | label :: rest, w, _, h, hlaunch, ⟨hu, hrest⟩, hrun => by
    obtain ⟨w₁, hw₁, hrun⟩ := Option.bind_eq_some_iff.mp hrun
    rw [hw₁] at hrest
    obtain ⟨_, h₁⟩ := h.step (fun pid config' start heq => hlaunch pid config' start
      (heq ▸ List.mem_cons_self)) hu (World.step_moves hw₁)
    exact h₁.run (fun pid config' start hmem => hlaunch pid config' start
      (List.mem_cons_of_mem _ hmem)) hrest hrun

end

/-- In every run in which calls are made on an engine only when the ones before are over,
and a worker is spawned for a slot only when no worker of the slot has a job, no more
handlers of the run execute for the engine than it has workers. -/
theorem handlers_within_workers (config : EngineConfig) (calls : Nat → Bool) {w w' : World}
    {labels : List Label} (h : w.Initial)
    (hcalls : ∀ pid config' start, .launch pid config' start ∈ labels → calls pid = true →
      config' = config)
    (hu : w.Meets (fun w label => w.undisturbed calls label = true) labels)
    (hrun : w.run labels = some w') : w'.handlers calls ≤ config.workerCount := by
  have hnone : ∀ {pid : Nat} {p : Process}, w.processes.get? pid ≠ some p := by
    intro pid p hget
    rw [h.processes] at hget
    cases hget
  have hpaced : Paced config calls w fun _ => {} :=
    ⟨h.consistent, fun _ _ hget => absurd hget hnone, fun _ _ hget => absurd hget hnone,
      fun _ _ _ _ hget => absurd hget hnone⟩
  obtain ⟨_, hreached⟩ := hpaced.run hcalls hu hrun
  exact hreached.handlers_le

/-- The worker of the sample engine in its only slot. -/
def sampleWorker (generation : Nat) : WorkerID :=
  workerIDFor sampleConfig (ascii "r") 1 generation

/-- The worker disappears with the first task, and the next one executes the second. -/
def lostWorkerReplaced : List Label :=
  firstClaim (ascii "r") [ascii "a", ascii "b"] ++ schedulerSteps 0 [.clock 5, .go, .go] ++
    workerSteps 0 (sampleWorker 1) [.takeAnswer, .disappear, .sendLost] ++
    schedulerSteps 0 [.go, .go, .clock 5, .clock 5, .take .lost, .go, .go] ++
    workerSteps 0 (sampleWorker 2) [.start, .receive, .sendClaim] ++
    schedulerSteps 0 [.go, .go, .clock 5, .clock 5, .take .claim, .clock 5, .go, .go] ++
    workerSteps 0 (sampleWorker 2) [.takeAnswer]

theorem lostWorkerReplaced_handlers : ∃ w',
    (sampleWorld (ascii "r")).run lostWorkerReplaced = some w' ∧
    w'.handlers (fun _ => true) = 1 ∧
    w'.handlers (fun _ => true) ≤ sampleConfig.workerCount := by
  obtain ⟨w', hrun, hone⟩ := run_reaches (sampleWorld (ascii "r")) lostWorkerReplaced
    (fun w' => w'.handlers (fun _ => true) = 1) (by decide +kernel)
  have hcalls : ∀ pid config' start, .launch pid config' start ∈ lostWorkerReplaced →
      true = true → config' = sampleConfig := by
    intro pid config' start hmem _
    simp only [lostWorkerReplaced, firstClaim, schedulerSteps, workerSteps, List.mem_append,
      List.mem_cons, List.mem_map, Label.launch.injEq, reduceCtorEq, and_false, exists_false,
      or_false, List.not_mem_nil] at hmem
    exact hmem.2.1
  exact ⟨w', hrun, hone, handlers_within_workers sampleConfig (fun _ => true)
    (sampleWorld_initial _) hcalls (by decide +kernel) hrun⟩

/-- The lease of the first task runs out while its handler executes. The worker is
replaced, and the next one executes the second task beside it. -/
def busyWorkerReplaced : List Label :=
  .launch 0 sampleConfig (.execute ⟨ascii "w",
      [{ sampleTask (ascii "a") with retry := ⟨2, 1, 1⟩ }, sampleTask (ascii "b")]⟩) ::
    schedulerSteps 0 (executeToSelect 2) ++
    workerSteps 0 (sampleWorker 1) [.start, .receive, .sendClaim] ++
    schedulerSteps 0 [.take .claim, .clock 5, .go, .go] ++
    workerSteps 0 (sampleWorker 1) [.takeAnswer] ++
    schedulerSteps 0 [.go, .go, .clock 20, .clock 20, .go, .go, .go] ++
    workerSteps 0 (sampleWorker 2) [.start, .receive, .sendClaim] ++
    schedulerSteps 0 [.take .claim, .clock 20, .go, .go] ++
    workerSteps 0 (sampleWorker 2) [.takeAnswer]

theorem busyWorkerReplaced_handlers : sampleConfig.workerCount = 1 ∧ ∃ w',
    (sampleWorld (ascii "r")).run busyWorkerReplaced = some w' ∧
    w'.handlers (fun pid => pid = 0) = 2 :=
  ⟨rfl, run_reaches _ _ _ (by decide +kernel)⟩

end ForgeFlow.Execution
