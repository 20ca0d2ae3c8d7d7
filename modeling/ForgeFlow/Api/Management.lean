import ForgeFlow.Api.EventLog
import ForgeFlow.Base.Transition
import ForgeFlow.Execution.Returns

/-!
# Runs under the run manager

The manager starts a goroutine with a call of `Recover` for a run, keeps its cancel
function while the call lasts, and refuses a second one. All runs of a server with their
worlds are taken together, in every order of requests, calls, workers and shutdown.
-/

namespace ForgeFlow.Api

open ForgeFlow.Base ForgeFlow.Execution

/-- The manager, and for each run its world and the number of calls started for it. -/
structure Fleet where
  config : EngineConfig
  manager : RunManager := {}
  worlds : RunID → World
  calls : RunID → Nat := fun _ => 0

inductive FleetLabel where
  | start (runID : RunID)
  | cancel (runID : RunID)
  | shutdown
  /-- `Recover` has returned and the goroutine takes the run off the list. -/
  | leave (runID : RunID)
  | scheduler (runID : RunID) (pid : Nat) (choice : Choice)
  | worker (runID : RunID) (pid : Nat) (workerID : WorkerID) (move : WorkerMove)

namespace Fleet

def put (fleet : Fleet) (runID : RunID) (world : World) : Fleet :=
  { fleet with worlds := Function.update fleet.worlds runID world }

/-- The context of a goroutine is canceled. -/
def canceled (fleet : Fleet) (runID : RunID) : World :=
  ((fleet.worlds runID).step (.cancel (fleet.calls runID - 1))).getD (fleet.worlds runID)

def step (fleet : Fleet) : FleetLabel → Option Fleet
  | .start runID =>
    match fleet.manager.start runID with
    | .error _ => none
    | .ok manager =>
      ((fleet.worlds runID).step (.launch (fleet.calls runID) fleet.config .recover)).map
        fun world => { fleet.put runID world with
          manager := manager
          calls := Function.update fleet.calls runID (fleet.calls runID + 1) }
  | .cancel runID =>
    match fleet.manager.cancel runID with
    | (false, _) => some fleet
    | (true, manager) => some { fleet.put runID (fleet.canceled runID) with manager := manager }
  | .shutdown =>
    if fleet.manager.closed then some fleet
    else some { fleet with
      manager := { active := fleet.manager.active.map fun _ _ => true, closed := true }
      worlds := fun runID =>
        if fleet.manager.active.contains runID then fleet.canceled runID else fleet.worlds runID }
  | .leave runID =>
    if ((fleet.worlds runID).returned (fleet.calls runID - 1)).isSome then
      some { fleet with
        manager := { fleet.manager with active := fleet.manager.active.erase runID } }
    else none
  | .scheduler runID pid choice =>
    ((fleet.worlds runID).step (.scheduler pid choice)).map (fleet.put runID)
  | .worker runID pid workerID move =>
    ((fleet.worlds runID).step (.worker pid workerID move)).map (fleet.put runID)

end Fleet

/-- So many calls have been started for the run, and only the last one may not have
returned; then the run is on the manager's list. -/
structure Managed (active : Prop) (calls : Nat) (w : World) : Prop where
  tended : ∃ ledgers, Tended w ledgers
  live : ∀ pid p, w.Live pid p → pid < calls ∧
    ((∃ o, p.thread = .finished o) ∨ active ∧ pid + 1 = calls)

section

variable {active : Prop} {calls : Nat} {w w' : World}

theorem Managed.moves (h : Managed active calls w) {label : Label} (hm : w.Moves label w')
    (hlaunch : ∀ pid config start, label ≠ .launch pid config start) :
    Managed active calls w' := by
  obtain ⟨ledgers, ht⟩ := h.tended
  refine ⟨ht.step hm, fun pid q hq => ?_⟩
  rcases hm.thread_cases hq with ⟨config, start, heq, -⟩ | ⟨p, hp, -, hthread⟩
  · exact absurd heq (hlaunch pid config start)
  · obtain ⟨hlt, hor⟩ := h.live pid p hp
    refine ⟨hlt, hor.imp_left ?_⟩
    rintro ⟨o, ho⟩
    rcases hthread with hsame | ⟨st, hst, -⟩ | ⟨o', ho', -⟩ | ⟨_, _, _, _, -, hc, -⟩
    · exact ⟨o, hsame.trans ho⟩
    · cases ho.symm.trans hst
    · cases ho.symm.trans ho'
    · cases ho.symm.trans hc

theorem Managed.launch (h : Managed False calls w) {config : EngineConfig} {start : Start}
    (hstep : w.step (.launch calls config start) = some w') : Managed True (calls + 1) w' := by
  obtain ⟨ledgers, ht⟩ := h.tended
  have hm := World.step_moves hstep
  refine ⟨ht.step hm, fun pid q hq => ?_⟩
  cases hm with
  | launch _ _ hnone =>
    rcases World.live_put hq with ⟨rfl, -⟩ | ⟨-, hq'⟩
    · exact ⟨Nat.lt_succ_self _, .inr ⟨trivial, rfl⟩⟩
    · obtain ⟨hlt, hfinished | ⟨hfalse, -⟩⟩ := h.live pid q hq'
      · exact ⟨Nat.lt_succ_of_lt hlt, .inl hfinished⟩
      · exact hfalse.elim

/-- The last call has returned. -/
theorem Managed.left (h : Managed active calls w)
    (hreturned : (w.returned (calls - 1)).isSome = true) : Managed False calls w := by
  refine ⟨h.tended, fun pid p hp => ?_⟩
  obtain ⟨hlt, hfinished | ⟨-, hlast⟩⟩ := h.live pid p hp
  · exact ⟨hlt, .inl hfinished⟩
  · obtain ⟨o, ho⟩ := Option.isSome_iff_exists.mp hreturned
    obtain ⟨q, hq, hthread⟩ := World.returned_some ho
    have hpid : calls - 1 = pid := by omega
    rw [hpid] at hq
    cases hq.1.symm.trans hp.1
    exact ⟨hlt, .inl ⟨o, hthread⟩⟩

end

namespace Fleet

/-- Every run is managed. -/
def Sound (fleet : Fleet) : Prop :=
  ∀ runID, Managed (fleet.manager.active.contains runID = true) (fleet.calls runID)
    (fleet.worlds runID)

variable {fleet fleet' fleet'' : Fleet}

theorem Sound.canceled (h : fleet.Sound) (runID : RunID) :
    Managed (fleet.manager.active.contains runID = true) (fleet.calls runID)
      (fleet.canceled runID) := by
  unfold Fleet.canceled
  cases hstep : (fleet.worlds runID).step (.cancel (fleet.calls runID - 1)) with
  | none => exact h runID
  | some w' => exact (h runID).moves (World.step_moves hstep) (by simp)

/-- A run goes on, and the others stay as they are. -/
theorem Sound.put (h : fleet.Sound) {runID : RunID} {w' : World}
    (hw : Managed (fleet.manager.active.contains runID = true) (fleet.calls runID) w') :
    (fleet.put runID w').Sound := by
  intro runID'
  by_cases heq : runID' = runID
  · subst heq
    simpa [Fleet.put] using hw
  · simpa [Fleet.put, heq] using h runID'

theorem start_ok {manager manager' : RunManager} {runID : RunID}
    (h : manager.start runID = .ok manager') : manager.closed = false ∧
      manager.active.contains runID = false ∧
      manager' = { manager with active := manager.active.insert runID false } := by
  obtain ⟨hc, heq⟩ := bind_unit_ok_iff.mp h
  cases heq
  cases hclosed : manager.closed <;> cases hactive : manager.active.contains runID <;>
    simp_all [firstError]

theorem Sound.step (h : fleet.Sound) {label : FleetLabel} (hstep : fleet.step label = some fleet') :
    fleet'.Sound := by
  cases label with
  | start runID =>
    simp only [Fleet.step] at hstep
    split at hstep
    · cases hstep
    · rename_i manager hstart
      obtain ⟨-, hactive, rfl⟩ := start_ok hstart
      obtain ⟨w', hw', heq⟩ := Option.map_eq_some_iff.mp hstep
      cases heq
      intro runID'
      have hrun := h runID'
      by_cases heq : runID' = runID
      · subst heq
        simp only [hactive, Bool.false_eq_true] at hrun
        simpa [Fleet.put, KeyMap.contains_insert] using hrun.launch hw'
      · simpa [Fleet.put, heq, KeyMap.contains_insert] using hrun
  | cancel runID =>
    simp only [Fleet.step] at hstep
    split at hstep
    · cases hstep
      exact h
    · rename_i manager hcancel
      cases hstep
      rw [RunManager.cancel] at hcancel
      split at hcancel
      · rename_i hactive
        cases hcancel
        intro runID'
        have hput := h.put (h.canceled runID) runID'
        by_cases heq : runID' = runID
        · subst heq
          simpa [Fleet.put, KeyMap.contains_insert, hactive] using hput
        · simpa [Fleet.put, KeyMap.contains_insert, heq] using hput
      · cases hcancel
  | shutdown =>
    simp only [Fleet.step] at hstep
    split at hstep
    · cases hstep
      exact h
    · cases hstep
      intro runID
      simp only [KeyMap.contains_map]
      split
      · exact h.canceled runID
      · exact h runID
  | leave runID =>
    simp only [Fleet.step] at hstep
    split at hstep
    · rename_i hreturned
      cases hstep
      intro runID'
      by_cases heq : runID' = runID
      · subst heq
        simpa [KeyMap.contains_erase] using (h runID').left hreturned
      · simpa [KeyMap.contains_erase, heq] using h runID'
    · cases hstep
  | scheduler runID pid choice =>
    obtain ⟨w', hw', rfl⟩ := Option.map_eq_some_iff.mp hstep
    exact h.put ((h runID).moves (World.step_moves hw') (by simp))
  | worker runID pid id move =>
    obtain ⟨w', hw', rfl⟩ := Option.map_eq_some_iff.mp hstep
    exact h.put ((h runID).moves (World.step_moves hw') (by simp))

/-- A server that has started no call yet, over any stores. -/
def Fresh (fleet : Fleet) : Prop := ∀ runID, (fleet.worlds runID).Initial

theorem Fresh.sound (h : fleet.Fresh) : fleet.Sound := fun runID =>
  ⟨(h runID).tended (show (fleet.worlds runID).run [] = some _ from rfl),
    fun _ _ hp => absurd hp (h runID).not_live⟩

variable {labels later : List FleetLabel}

/-- In whatever order runs are started and canceled and their calls, workers and the shutdown
proceed: of the calls started for a run at most one has not returned, and while there is one
the manager lists the run, so it starts no other. -/
theorem one_call_at_a_time (h : fleet.Fresh) (hrun : runLabels step fleet labels = some fleet')
    {runID : RunID} {pid : Nat} {p : Process} (hp : (fleet'.worlds runID).Live pid p)
    (hrunning : ∀ o, p.thread ≠ .finished o) :
    fleet'.step (.start runID) = none ∧ ∀ pid' p', (fleet'.worlds runID).Live pid' p' →
      (∀ o, p'.thread ≠ .finished o) → pid' = pid := by
  have hsound := run_invariant (I := Sound) (fun _ _ _ hs hi => hi.step hs) h.sound hrun
  have hlast : ∀ {pid p}, (fleet'.worlds runID).Live pid p → (∀ o, p.thread ≠ .finished o) →
      fleet'.manager.active.contains runID = true ∧ pid + 1 = fleet'.calls runID := by
    intro pid p hp hrunning
    obtain ⟨-, ⟨o, ho⟩ | hactive⟩ := (hsound runID).live pid p hp
    · exact absurd ho (hrunning o)
    · exact hactive
  obtain ⟨hactive, hpid⟩ := hlast hp hrunning
  refine ⟨?_, fun pid' p' hp' hrunning' => ?_⟩
  · rw [Fleet.step]
    split
    · rfl
    · rename_i manager hstart
      rw [(start_ok hstart).2.1] at hactive
      cases hactive
  · obtain ⟨-, hpid'⟩ := hlast hp' hrunning'
    omega

/-- A server with nothing stored. -/
def sampleFleet : Fleet where
  config := sampleConfig
  worlds := sampleWorld

theorem sampleFleet_fresh : sampleFleet.Fresh := sampleWorld_initial

theorem sample_call_alone : ∃ fleet',
    runLabels step sampleFleet [.start (ascii "r")] = some fleet' ∧
    (fleet'.worlds (ascii "r")).pending 0 = some (.loadRun (ascii "r")) ∧
    fleet'.step (.start (ascii "r")) = none := by
  obtain ⟨fleet', hrun, hpending⟩ := exists_of_runLabels step sampleFleet [.start (ascii "r")]
    (fun fleet' => (fleet'.worlds (ascii "r")).pending 0 = some (.loadRun (ascii "r")))
    (by decide +kernel)
  obtain ⟨p, next, hp, hthread⟩ := World.pending_some hpending
  exact ⟨fleet', hrun, hpending, (one_call_at_a_time sampleFleet_fresh hrun hp
    fun o ho => by cases hthread.symm.trans ho).1⟩

/-- Once the manager is closed and its list is empty, which is what `shutdown` waits for, no
call and no worker of any run takes another step, whatever is tried. -/
theorem nothing_runs_after_shutdown (h : fleet.Fresh)
    (hrun : runLabels step fleet labels = some fleet') (hclosed : fleet'.manager.closed = true)
    (hempty : fleet'.manager.active = ∅) (hlater : runLabels step fleet' later = some fleet'') :
    fleet'' = fleet' := by
  have hsound := run_invariant (I := Sound) (fun _ _ _ hs hi => hi.step hs) h.sound hrun
  refine run_invariant (I := (· = fleet')) (fun s label s' hs hi => ?_) rfl hlater
  subst hi
  have hquiet : ∀ runID pid, (∀ choice, (s.worlds runID).step (.scheduler pid choice) = none) ∧
      ∀ id move, (s.worlds runID).step (.worker pid id move) = none := by
    intro runID pid
    obtain ⟨ledgers, ht⟩ := (hsound runID).tended
    refine ht.quiet fun p hp => ?_
    obtain ⟨-, hfinished | ⟨hactive, -⟩⟩ := (hsound runID).live pid p hp
    · exact hfinished
    · rw [hempty] at hactive
      cases hactive
  cases label with
  | start runID =>
    simp only [Fleet.step] at hs
    split at hs
    · cases hs
    · rename_i manager hstart
      rw [(start_ok hstart).1] at hclosed
      cases hclosed
  | cancel runID => simpa [Fleet.step, RunManager.cancel, hempty, KeyMap.contains] using hs.symm
  | shutdown => simpa [Fleet.step, hclosed] using hs.symm
  | leave runID =>
    simp only [Fleet.step] at hs
    split at hs
    · cases hs
      rw [hempty, show (∅ : KeyMap RunID Bool).erase runID = ∅ from rfl, ← hempty]
    · cases hs
  | scheduler runID pid choice => simp [Fleet.step, (hquiet runID pid).1] at hs
  | worker runID pid id move => simp [Fleet.step, (hquiet runID pid).2] at hs

/-- The runs of a server as its stores have them when it starts. -/
def ofServer (config : EngineConfig) (server : ApiServer) : Fleet where
  config := config
  worlds := server.world

theorem ofServer_fresh {server : ApiServer} (h : server.Filed) (config : EngineConfig) :
    (ofServer config server).Fresh := by
  refine fun runID => ⟨rfl, rfl, ?_⟩
  show (server.store.runs.get? runID).toList = [] ∨ _
  cases hget : server.store.runs.get? runID with
  | none => exact .inl rfl
  | some s => exact .inr ⟨s, congrArg Option.toList hget, h.store.sound_keyed.2.runs runID s hget⟩

/-- A server with a run that has been created and not yet taken up. -/
def createdServer : ApiServer := (workflowServer.handle atNoon ada .post startR).2

/-- The step of a scheduler or a worker of the run. -/
def ofLabel (runID : RunID) : Label → Option FleetLabel
  | .scheduler pid choice => some (.scheduler runID pid choice)
  | .worker pid id move => some (.worker runID pid id move)
  | _ => none

/-- The run is started, executed to its end by its worker and taken off the list, and the
server shuts down. -/
def startToShutdown : List FleetLabel :=
  .start (ascii "r") :: recoverToEnd.filterMap (ofLabel (ascii "r")) ++
    [.scheduler (ascii "r") 0 .go, .leave (ascii "r"), .shutdown]

theorem sample_nothing_runs : ∃ fleet' fleet'',
    runLabels step (ofServer sampleConfig createdServer) startToShutdown = some fleet' ∧
    ((fleet'.worlds (ascii "r")).processes.get? 0).map (fun p => p.workers.keys) =
      some [workerIDFor sampleConfig (ascii "r") 1 1] ∧
    runLabels step fleet' [.cancel (ascii "r"), .shutdown] = some fleet'' ∧ fleet'' = fleet' := by
  obtain ⟨fleet', hrun, hclosed, hempty, hspawned, hlater⟩ := exists_of_runLabels step
    (ofServer sampleConfig createdServer) startToShutdown (fun fleet' =>
      fleet'.manager.closed = true ∧ fleet'.manager.active = ∅ ∧
      ((fleet'.worlds (ascii "r")).processes.get? 0).map (fun p => p.workers.keys) =
        some [workerIDFor sampleConfig (ascii "r") 1 1] ∧
      (runLabels step fleet' [.cancel (ascii "r"), .shutdown]).isSome = true) (by decide +kernel)
  obtain ⟨fleet'', hfleet''⟩ := Option.isSome_iff_exists.mp hlater
  exact ⟨fleet', fleet'', hrun, hspawned, hfleet'', nothing_runs_after_shutdown
    (ofServer_fresh (handle_filed (handle_filed projectServer_filed _ _ _ _) _ _ _ _) sampleConfig)
    hrun hclosed hempty hfleet''⟩

end Fleet

end ForgeFlow.Api
