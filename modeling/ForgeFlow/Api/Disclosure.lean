import ForgeFlow.Api.Concealment
import ForgeFlow.Api.EventLog

/-!
# What a member learns about the tasks of a run

A member may read the summary of a run and not its tasks. Two histories of a run with
the same summaries are followed side by side, through any sequence of saves, restarts
and requests of the member. The summary keeps the tasks to itself; the event stream
names every task that changes its status.
-/

namespace ForgeFlow.Api

open ForgeFlow.Base ForgeFlow.Workflow ForgeFlow.Execution ForgeFlow.Security
  ForgeFlow.Persistence

variable {s : FileStore} {a' b' : WorkflowRunSnapshot} {l m : List WorkflowRunSnapshot}
  {server : ApiServer} {route : Route} {stream : RunEventStream}

/-! ## A run as it goes on and a user who asks about it -/

/-- After a snapshot of a run has been stored through the observed store. -/
def ApiServer.saved (server : ApiServer) (snapshot : WorkflowRunSnapshot) : ApiServer :=
  { server with
    store := { server.store with runs := server.store.runs.insert snapshot.id snapshot }
    broker := server.broker.observe snapshot }

inductive Moment where
  /-- The next snapshot of the run is stored. -/
  | saved
  /-- A new process takes over; the streams are gone. -/
  | restarted
  /-- The streams are closed for the shutdown. -/
  | closed
  /-- The user sends a request. A stream it opens is read again after each of the given
  numbers of moments. -/
  | asked (env : Surroundings) (method : Method) (route : Route) (reads : List Nat)

def Moment.interrupts : Moment → Bool
  | .restarted => true
  | _ => false

/-- A route of the run. -/
def Route.IsOfRun (id : RunID) (route : Route) : Prop :=
  route = .run id ∨ route = .runTasks id ∨ route = .runCancellation id ∨
    (∃ body, route = .runRetry id body) ∨ ∃ lastEventID, route = .runEvents id lastEventID

def Moment.IsOfRun (id : RunID) : Moment → Prop
  | .asked _ _ route _ => route.IsOfRun id
  | _ => True

/-- A server and the snapshots of the run that are still to come. -/
structure Course where
  server : ApiServer
  ahead : List WorkflowRunSnapshot

section Course

variable (principal : Principal)

def Course.step (c : Course) : Moment → Course
  | .saved =>
    match c.ahead with
    | [] => c
    | snapshot :: ahead => ⟨c.server.saved snapshot, ahead⟩
  | .restarted => { c with server := { c.server with broker := {}, manager := {} } }
  | .closed => { c with server := { c.server with broker := c.server.broker.close } }
  | .asked env method route _ =>
    { c with server := (c.server.handle env principal method route).2 }

def Course.run (c : Course) (script : List Moment) : Course :=
  script.foldl (Course.step principal) c

/-- The broker as the later passes of a stream find it, as long as its process lives. -/
def Course.laterBrokers (c : Course) (script : List Moment) (reads : List Nat) :
    List EventBroker :=
  reads.map fun n =>
    (c.run principal ((script.takeWhile fun moment => !moment.interrupts).take n)).server.broker

/-- The responses the user gets. -/
def Course.replies (c : Course) : List Moment → List Reply
  | [] => []
  | moment :: script =>
    let next := c.step principal moment
    match moment with
    | .asked env method route reads =>
      (c.server.handle { env with later := next.laterBrokers principal script reads } principal
        method route).1 :: next.replies script
    | _ => next.replies script

end Course

/-- What a save makes of a task. -/
structure TaskChange where
  taskID : TaskID
  status : TaskRunStatus
  attemptID : AttemptID
  updatedAt : Int
  /-- It was running and is ready again. -/
  again : Bool

/-- The tasks that have come to another status, which is not pending. -/
def taskChanges (previous current : WorkflowRunSnapshot) : Set TaskChange :=
  {change | ∃ old ∈ previous.tasks, ∃ new ∈ current.tasks, old.taskID = new.taskID ∧
    old.status ≠ new.status ∧ new.status ≠ .pending ∧
    change = ⟨new.taskID, new.status, new.currentAttemptID, new.updatedAt,
      decide (old.status = .running ∧ new.status = .ready)⟩}

/-- Save after save, the same tasks come to the same status, attempt and time. -/
def SameTaskChanges : List WorkflowRunSnapshot → List WorkflowRunSnapshot → Prop
  | a :: b :: rest, a' :: b' :: rest' =>
    taskChanges a b = taskChanges a' b' ∧ SameTaskChanges (b :: rest) (b' :: rest')
  | _, _ => True

/-- Save after save, the same events are derived for the tasks. -/
def SameTaskEvents : List WorkflowRunSnapshot → List WorkflowRunSnapshot → Prop
  | a :: b :: rest, a' :: b' :: rest' =>
    sortedTaskEvents a b = sortedTaskEvents a' b' ∧ SameTaskEvents (b :: rest) (b' :: rest')
  | _, _ => True

/-! ## Lookups of the run -/

/-- The checks on the way to a run. -/
def runGate (s : FileStore) (ctx : ContextState) (principal : Principal) (id : RunID)
    (workflowID : WorkflowID) (permission : Permission) : Except APIError Unit := do
  firstError [(!validResourceID id, apiError 400 "invalid_run_id" "run ID is invalid" "runID")]
  reading ctx ()
  let ownership ← required (← reading ctx (s.ownerships.get? workflowID)) runNotFound
  authorizeProject s ctx principal ownership.projectID permission

theorem loadRun_eq_gate {ctx : ContextState} {principal : Principal} {id : RunID}
    {permission : Permission} {run : WorkflowRunSnapshot} (h : s.runs.get? id = some run) :
    loadRun s ctx principal id permission =
      (runGate s ctx principal id run.workflowID permission).map fun _ => run := by
  unfold loadRun runGate
  rw [h]
  cases firstError [(!validResourceID id,
      apiError 400 "invalid_run_id" "run ID is invalid" "runID")] with
  | error e => rfl
  | ok a =>
    cases hctx : contextError ctx with
    | error e => simp [reading, hctx, Except.mapError, Except.map]
    | ok a =>
      simp only [reading_of_live hctx, ok_do, required]
      cases s.ownerships.get? run.workflowID with
      | none => rfl
      | some o =>
        simp only [ok_do]
        cases authorizeProject s ctx principal o.projectID permission <;> rfl

/-! ## Two histories side by side -/

/-- The role of the user in the project of the workflow does not let them read tasks. -/
def Limited (s : FileStore) (principal : Principal) (w : WorkflowID) : Prop :=
  ∀ o m, s.ownerships.get? w = some o → s.membership? o.projectID principal.userID = some m →
    m.role.allows .taskRead = false

/-- Who may not read tasks may not operate runs. -/
theorem allows_runOperate {role : Role} (h : role.allows .taskRead = false) :
    role.allows .runOperate = false := by
  cases role <;> simp_all [Role.allows, Role.operatorAllows, Role.memberAllows]

/-- What a reader of the stream of a run can see of it. -/
def EventBroker.visible (broker : EventBroker) (id : RunID) :
    Option (List RunEvent × WorkflowRunStatus) :=
  (broker.streams.get? id).map fun stream => (stream.events, stream.latest.status)

/-- The stream of the run goes on from the snapshot that is stored. -/
def UpToDate (id : RunID) (server : ApiServer) : Prop :=
  server.broker.closed = false → ∀ stream, server.broker.streams.get? id = some stream →
    server.store.runs.get? id = some stream.latest

/-- Two courses of a run that look alike to a user who may not read its tasks. -/
structure Twin (principal : Principal) (id : RunID) (w : WorkflowID) (c d : Course) : Prop where
  users : c.server.store.users = d.server.store.users
  memberships : c.server.store.memberships = d.server.store.memberships
  ownerships : c.server.store.ownerships = d.server.store.ownerships
  limited : Limited c.server.store principal w
  run : (c.server.store.runs.get? id).map runDTO = (d.server.store.runs.get? id).map runDTO
  ids : ∀ run, c.server.store.runs.get? id = some run → run.id = id ∧ run.workflowID = w
  stream : c.server.broker.visible id = d.server.broker.visible id
  closed : c.server.broker.closed = d.server.broker.closed
  left : UpToDate id c.server
  right : UpToDate id d.server
  ahead : List.Forall₂ (fun a b => runDTO a = runDTO b) c.ahead d.ahead
  aheadIDs : ∀ run ∈ c.ahead, run.id = id ∧ run.workflowID = w
  events : SameTaskEvents ((c.server.store.runs.get? id).toList ++ c.ahead)
    ((d.server.store.runs.get? id).toList ++ d.ahead)

section Summary

variable {a b : WorkflowRunSnapshot} (h : runDTO a = runDTO b)

include h

theorem id_of_runDTO : a.id = b.id := congrArg RunResponse.id h

theorem workflowID_of_runDTO : a.workflowID = b.workflowID := congrArg RunResponse.workflowID h

theorem status_of_runDTO : a.status = b.status := congrArg RunResponse.status h

theorem workflowEvent_of_runDTO (type : RunEventType) :
    workflowEvent type a = workflowEvent type b := by
  have hupdated : a.updatedAt = b.updatedAt := congrArg RunResponse.updatedAt h
  simp only [workflowEvent, id_of_runDTO h, workflowID_of_runDTO h, status_of_runDTO h, hupdated]

/-- Of the derived events only those of the tasks are not in the summaries. -/
theorem deriveRunEvents_eq_iff (h' : runDTO a' = runDTO b') :
    deriveRunEvents a a' = deriveRunEvents b b' ↔
      sortedTaskEvents a a' = sortedTaskEvents b b' := by
  have hstarted : startedEvents a a' = startedEvents b b' := by
    simp only [startedEvents, status_of_runDTO h, status_of_runDTO h',
      workflowEvent_of_runDTO h']
  have hcompleted : completedEvents a a' = completedEvents b b' := by
    simp only [completedEvents, status_of_runDTO h, status_of_runDTO h',
      workflowEvent_of_runDTO h']
  unfold deriveRunEvents
  rw [hstarted, hcompleted, List.append_left_inj, List.append_right_inj]

end Summary

/-! ## Changes of tasks and their events -/

/-- The event of a change, with its priority. -/
def TaskChange.told (run : WorkflowRunSnapshot) (change : TaskChange) : Option (Nat × RunEvent) :=
  (taskTransitionEvent (if change.again then .running else .pending) change.status).map
    fun (type, priority) => (priority, {
      type := type
      runID := run.id
      workflowID := run.workflowID
      taskID := change.taskID
      taskStatus := some change.status
      attemptID := change.attemptID
      occurredAt := change.updatedAt })

/-- Of the status before, an event tells only whether a ready task was running. -/
theorem taskTransitionEvent_again {old new : TaskRunStatus} (hne : old ≠ new) :
    taskTransitionEvent (if decide (old = .running ∧ new = .ready) then .running else .pending)
      new = taskTransitionEvent old new := by
  cases new with
  | ready => by_cases hold : old = .running <;> simp [taskTransitionEvent, hold]
  | _ => rfl

theorem mem_taskEvents_iff {previous current : WorkflowRunSnapshot} (hp : ValidSnapshot previous)
    {q : Nat × RunEvent} : q ∈ taskEvents previous current ↔
      ∃ change ∈ taskChanges previous current, change.told current = some q := by
  have hfst : ((previous.tasks.map fun task => (task.taskID, task)).map Prod.fst).Nodup := by
    rw [List.map_map]
    exact hp.taskIDs
  have hget : ∀ {k : TaskID} {old : TaskRun},
      (KeyMap.ofList (previous.tasks.map fun task => (task.taskID, task))).get? k = some old ↔
        old ∈ previous.tasks ∧ old.taskID = k := by
    intro k old
    rw [KeyMap.get?_ofList_iff hfst]
    simp only [List.mem_map, Prod.mk.injEq]
    constructor
    · rintro ⟨task, hmem, hk, rfl⟩
      exact ⟨hmem, hk⟩
    · rintro ⟨hmem, hk⟩
      exact ⟨old, hmem, hk, rfl⟩
  rw [taskEvents, List.mem_filterMap]
  constructor
  · rintro ⟨new, hnew, heq⟩
    split at heq
    · cases heq
    · rename_i old hold
      obtain ⟨hmem, hk⟩ := hget.mp hold
      split at heq
      · cases heq
      · rename_i hne
        refine ⟨_, ⟨old, hmem, new, hnew, hk, hne, ?_, rfl⟩, ?_⟩
        · intro hpending
          rw [hpending] at heq
          cases heq
        · rw [TaskChange.told, taskTransitionEvent_again hne]
          exact heq
  · rintro ⟨_, ⟨old, hmem, new, hnew, hk, hne, -, rfl⟩, htold⟩
    rw [TaskChange.told, taskTransitionEvent_again hne] at htold
    refine ⟨new, hnew, ?_⟩
    simp only [hget.mpr ⟨hmem, hk⟩, if_neg hne]
    exact htold

/-- Every change is told. -/
theorem taskChanges_told {previous current : WorkflowRunSnapshot} (hc : ValidSnapshot current)
    {change : TaskChange} (h : change ∈ taskChanges previous current)
    (run : WorkflowRunSnapshot) : ∃ q, change.told run = some q := by
  obtain ⟨old, -, new, hnew, -, -, hpending, rfl⟩ := h
  obtain ⟨q, hq⟩ := exists_transition hpending (hc.taskRuns new hnew).status
  rw [TaskChange.told, hq]
  exact ⟨_, rfl⟩

/-- An event tells its change. -/
theorem taskChanges_injective {a b run run' : WorkflowRunSnapshot}
    {change change' : TaskChange} (h : change ∈ taskChanges a a')
    (h' : change' ∈ taskChanges b b') {n n' : Nat} {e : RunEvent}
    (htold : change.told run = some (n, e)) (htold' : change'.told run' = some (n', e)) :
    change = change' := by
  obtain ⟨⟨type, priority⟩, htype, heq⟩ := Option.map_eq_some_iff.mp htold
  obtain ⟨⟨type', priority'⟩, htype', heq'⟩ := Option.map_eq_some_iff.mp htold'
  obtain ⟨old, -, new, -, -, -, -, rfl⟩ := h
  obtain ⟨old', -, new', -, -, -, -, rfl⟩ := h'
  obtain ⟨-, rfl⟩ := Prod.mk.inj heq
  obtain ⟨-, heq'⟩ := Prod.mk.inj heq'
  simp only [RunEvent.mk.injEq, Option.some.injEq, true_and] at heq'
  obtain ⟨rfl, -, -, hid, hstatus, hattempt, hupdated⟩ := heq'
  rw [hid, hattempt, hupdated, hstatus]
  -- only a ready task tells more than its status
  simp only [TaskChange.mk.injEq, true_and]
  rw [hstatus] at htype'
  by_cases hready : new.status = .ready
  · by_cases hold : old.status = .running <;> by_cases hold' : old'.status = .running <;>
      simp only [hready, hold, hold', taskTransitionEvent, and_true, decide_true, decide_false,
        Bool.false_eq_true, reduceCtorEq, if_true, if_false, Option.some.injEq,
        Prod.mk.injEq] at htype htype' ⊢
    · exact absurd (htype.1.trans htype'.1.symm) (by decide)
    · exact absurd (htype.1.trans htype'.1.symm) (by decide)
  · simp [hready]

/-- The events of the tasks are the same exactly if the changes are. -/
theorem sortedTaskEvents_eq_iff {a b : WorkflowRunSnapshot} (ha : ValidSnapshot a)
    (ha' : ValidSnapshot a') (hb : ValidSnapshot b) (hb' : ValidSnapshot b')
    (hsame : runDTO a' = runDTO b') :
    sortedTaskEvents a a' = sortedTaskEvents b b' ↔ taskChanges a a' = taskChanges b b' := by
  have htold : ∀ change : TaskChange, change.told a' = change.told b' := by
    intro change
    rw [TaskChange.told, TaskChange.told, id_of_runDTO hsame, workflowID_of_runDTO hsame]
  constructor
  · intro hevents
    have hsub : ∀ {x x' y y' : WorkflowRunSnapshot}, ValidSnapshot x → ValidSnapshot x' →
        ValidSnapshot y → sortedTaskEvents x x' = sortedTaskEvents y y' →
        taskChanges x x' ⊆ taskChanges y y' := by
      intro x x' y y' hx hx' hy heq change hchange
      obtain ⟨⟨n, e⟩, hq⟩ := taskChanges_told hx' hchange x'
      have hmem : e ∈ sortedTaskEvents x x' :=
        mem_sortedTaskEvents.mpr ⟨_, (mem_taskEvents_iff hx).mpr ⟨change, hchange, hq⟩, rfl⟩
      rw [heq] at hmem
      obtain ⟨⟨n', _⟩, hq', rfl⟩ := mem_sortedTaskEvents.mp hmem
      obtain ⟨change', hchange', htold'⟩ := (mem_taskEvents_iff hy).mp hq'
      rw [taskChanges_injective hchange hchange' hq htold']
      exact hchange'
    exact (hsub ha ha' hb hevents).antisymm (hsub hb hb' ha hevents.symm)
  · intro hchanges
    have hmem : ∀ q, q ∈ taskEvents a a' ↔ q ∈ taskEvents b b' := by
      intro q
      rw [mem_taskEvents_iff ha, mem_taskEvents_iff hb, hchanges]
      simp only [htold]
    have hnodup := List.Nodup.of_map _ (taskEvents_nodup a ha'.taskIDs)
    have hnodup' := List.Nodup.of_map _ (taskEvents_nodup b hb'.taskIDs)
    have hperm := (List.perm_ext_iff_of_nodup hnodup hnodup').mpr hmem
    -- no two events are about one task, so the order leaves no choice
    have hsort := List.Perm.eq_of_pairwise (fun q q' hq hq' hle hle' => ?_)
      (List.pairwise_insertionSort (fun left right => taskEventLE left right = true) _)
      (List.pairwise_insertionSort (fun left right => taskEventLE left right = true) _)
      (((List.perm_insertionSort _ _).trans hperm).trans (List.perm_insertionSort _ _).symm)
    · rw [sortedTaskEvents, sortedTaskEvents, hsort]
    · rw [List.mem_insertionSort] at hq hq'
      simp only [taskEventLE, Bool.or_eq_true, Bool.and_eq_true, decide_eq_true_eq] at hle hle'
      have hid : q.2.taskID = q'.2.taskID := by
        rcases hle with hlt | ⟨heq, hle⟩
        · rcases hle' with hlt' | ⟨heq', -⟩ <;> omega
        · rcases hle' with hlt' | ⟨-, hle'⟩
          · omega
          · exact le_antisymm hle hle'
      exact List.inj_on_of_nodup_map (taskEvents_nodup b hb'.taskIDs) ((hmem q).mp hq) hq' hid

theorem sameTaskEvents_iff (hsame : List.Forall₂ (fun a b => runDTO a = runDTO b) l m)
    (hl : ∀ run ∈ l, ValidSnapshot run) (hm : ∀ run ∈ m, ValidSnapshot run) :
    SameTaskEvents l m ↔ SameTaskChanges l m := by
  induction hsame with
  | nil => rfl
  | @cons a b l m _ hrest ih =>
    cases hrest with
    | nil => rfl
    | @cons a' b' l m hab' hrest =>
      simp only [List.forall_mem_cons] at hl hm ih
      exact and_congr (sortedTaskEvents_eq_iff hl.1 hl.2.1 hm.1 hm.2.1 hab') (ih hl.2 hm.2)

/-! ## The streams -/

theorem eventsAfter_of_visible {b b' : EventBroker} {id : RunID} (h : b.visible id = b'.visible id)
    (hclosed : b.closed = b'.closed) (n : Nat) : b.eventsAfter id n = b'.eventsAfter id n := by
  unfold EventBroker.visible at h
  unfold EventBroker.eventsAfter
  cases hb : b.streams.get? id with
  | none =>
    rw [hb] at h
    rw [Option.map_eq_none_iff.mp h.symm, hclosed]
  | some stream =>
    rw [hb] at h
    obtain ⟨stream', hb', hsame⟩ := Option.map_eq_some_iff.mp h.symm
    obtain ⟨hevents, hstatus⟩ := Prod.mk.inj hsame
    simp only [hb', hevents, hstatus, hclosed]

/-- The same events and the same end. -/
def ReadAlike (id : RunID) (b b' : EventBroker) : Prop :=
  ∀ n, b.eventsAfter id n = b'.eventsAfter id n

theorem streamedEvents_congr {id : RunID} {bs bs' : List EventBroker}
    (h : List.Forall₂ (ReadAlike id) bs bs') (n : Nat) :
    streamedEvents id bs n = streamedEvents id bs' n := by
  induction h generalizing n with
  | nil => rfl
  | cons hb _ ih => simp only [streamedEvents, hb n, ih]

section Twins

variable {principal : Principal} {id : RunID} {w : WorkflowID} {c d : Course}

theorem Twin.readAlike (h : Twin principal id w c d) :
    ReadAlike id c.server.broker d.server.broker :=
  eventsAfter_of_visible h.stream h.closed

/-- A lookup of the run fails alike or gives the two snapshots. -/
theorem Twin.loadRun (h : Twin principal id w c d) (ctx : ContextState)
    (permission : Permission) :
    (∃ e, loadRun c.server.store ctx principal id permission = .error e ∧
      loadRun d.server.store ctx principal id permission = .error e) ∨
    ∃ a b, loadRun c.server.store ctx principal id permission = .ok a ∧
      loadRun d.server.store ctx principal id permission = .ok b ∧
      c.server.store.runs.get? id = some a ∧ d.server.store.runs.get? id = some b ∧
      runDTO a = runDTO b ∧ a.id = id := by
  have hauth : ∀ p, authorizeProject c.server.store ctx principal p permission =
      authorizeProject d.server.store ctx principal p permission := by
    intro p
    simp only [authorizeProject, FileStore.membership?, FileStore.membersOf, h.users,
      h.memberships]
  have hrun := h.run
  cases ha : c.server.store.runs.get? id with
  | none =>
    rw [ha] at hrun
    have hb := Option.map_eq_none_iff.mp hrun.symm
    have hsame : Api.loadRun c.server.store ctx principal id permission =
        Api.loadRun d.server.store ctx principal id permission := by
      simp only [Api.loadRun, ha, hb, h.ownerships, hauth]
    cases hload : Api.loadRun c.server.store ctx principal id permission with
    | error e => exact .inl ⟨e, rfl, hsame ▸ hload⟩
    | ok run =>
      rw [(loadRun_found hload).1] at ha
      cases ha
  | some a =>
    rw [ha] at hrun
    obtain ⟨b, hb, hab⟩ := Option.map_eq_some_iff.mp hrun.symm
    rw [loadRun_eq_gate ha, loadRun_eq_gate hb]
    have hgate : runGate c.server.store ctx principal id a.workflowID permission =
        runGate d.server.store ctx principal id b.workflowID permission := by
      simp only [runGate, h.ownerships, hauth, workflowID_of_runDTO hab]
    rw [hgate]
    cases runGate d.server.store ctx principal id b.workflowID permission with
    | error e => exact .inl ⟨e, rfl, rfl⟩
    | ok u => exact .inr ⟨a, b, rfl, rfl, rfl, hb, hab.symm, (h.ids a ha).1⟩

/-- A permission the user lacks is refused alike. -/
theorem Twin.loadRun_refused (h : Twin principal id w c d) (ctx : ContextState)
    {permission : Permission}
    (hlacks : ∀ role : Role, role.allows .taskRead = false → role.allows permission = false) :
    ∃ e, Api.loadRun c.server.store ctx principal id permission = .error e ∧
      Api.loadRun d.server.store ctx principal id permission = .error e := by
  rcases h.loadRun ctx permission with hrefused | ⟨a, b, hload, -, ha, -⟩
  · exact hrefused
  · obtain ⟨-, o, ho, user, m, -, -, hmember, hallows⟩ := loadRun_found hload
    rw [(h.ids a ha).2] at ho
    rw [hlacks m.role (h.limited o m ho hmember)] at hallows
    cases hallows

theorem handle_of_error {env : Surroundings} {method : Method} {e : APIError}
    (h : server.plan env principal method route = .error e) :
    server.handle env principal method route = (.failed e, server) := by
  unfold ApiServer.handle
  rw [h]

theorem handle_of_ok {env : Surroundings} {method : Method} {action : Action}
    (h : server.plan env principal method route = .ok action) :
    server.handle env principal method route = server.perform env action := by
  unfold ApiServer.handle
  rw [h]

/-- A handler fails alike on either side when its lookup does. -/
theorem fails_alike {α : Type} {x y : Except APIError α} {f g : α → Except APIError Action}
    (check : Except APIError Unit) (h : ∃ e, x = .error e ∧ y = .error e) :
    ∃ e, (do
        check
        let a ← x
        f a) = .error e ∧
      (do
        check
        let a ← y
        g a) = .error e := by
  obtain ⟨e, rfl, rfl⟩ := h
  cases check with
  | error e' => exact ⟨e', rfl, rfl⟩
  | ok u => exact ⟨e, rfl, rfl⟩

/-- A request about the run fails alike, shows the summary, or opens a stream. -/
theorem Twin.plan (h : Twin principal id w c d) (env : Surroundings) (method : Method)
    (hroute : route.IsOfRun id) (later later' : List EventBroker) :
    (∃ e, c.server.plan { env with later := later } principal method route = .error e ∧
      d.server.plan { env with later := later' } principal method route = .error e) ∨
    (∃ content,
      c.server.plan { env with later := later } principal method route =
        .ok (.reply 200 content) ∧
      d.server.plan { env with later := later' } principal method route =
        .ok (.reply 200 content)) ∨
    ∃ a b n, c.server.store.runs.get? id = some a ∧ d.server.store.runs.get? id = some b ∧
      runDTO a = runDTO b ∧ a.id = id ∧
      c.server.plan { env with later := later } principal method route =
        .ok (.streamEvents a n) ∧
      d.server.plan { env with later := later' } principal method route =
        .ok (.streamEvents b n) := by
  rcases hroute with rfl | rfl | rfl | ⟨body, rfl⟩ | ⟨lastEventID, rfl⟩
  · rcases h.loadRun env.ctx .runRead with hrefused | ⟨a, b, hc, hd, -, -, hab, -⟩
    · exact .inl (fails_alike _ hrefused)
    · simp only [ApiServer.plan, handleRun, hc, hd, ok_do, hab]
      cases requireMethod method .get with
      | error e => exact .inl ⟨e, rfl, rfl⟩
      | ok u => exact .inr (.inl ⟨_, rfl, rfl⟩)
  · exact .inl (fails_alike _ (h.loadRun_refused env.ctx fun _ hlacks => hlacks))
  · exact .inl (fails_alike _ (h.loadRun_refused env.ctx fun _ => allows_runOperate))
  · exact .inl (fails_alike _ (h.loadRun_refused env.ctx fun _ => allows_runOperate))
  · rcases h.loadRun env.ctx .runRead with hrefused | ⟨a, b, hc, hd, ha, hb, hab, hid⟩
    · exact .inl (fails_alike _ hrefused)
    · simp only [ApiServer.plan, handleRunEvents, hc, hd, ok_do]
      cases requireMethod method .get with
      | error e => exact .inl ⟨e, rfl, rfl⟩
      | ok u =>
        cases lastEventID with
        | none => exact .inl ⟨_, rfl, rfl⟩
        | some n =>
          simp only [required, ok_do]
          generalize firstError _ = check
          cases check with
          | error e => exact .inl ⟨e, rfl, rfl⟩
          | ok u => exact .inr (.inr ⟨a, b, n, ha, hb, hab, hid, rfl, rfl⟩)

theorem seed_closed (broker : EventBroker) (snapshot : WorkflowRunSnapshot) :
    (broker.seed snapshot).closed = broker.closed := by
  unfold EventBroker.seed
  split <;> rfl

theorem observe_closed (broker : EventBroker) (snapshot : WorkflowRunSnapshot) :
    (broker.observe snapshot).closed = broker.closed := by
  unfold EventBroker.observe
  split <;> rfl

theorem UpToDate.seed (h : UpToDate id server) {a : WorkflowRunSnapshot}
    (ha : server.store.runs.get? id = some a) (hid : a.id = id) :
    UpToDate id { server with broker := server.broker.seed a } := by
  intro hopen stream hget
  simp only [seed_closed] at hopen
  unfold EventBroker.seed at hget
  rw [hid] at hget
  split at hget
  · exact h hopen stream hget
  · rw [KeyMap.get?_insert_self] at hget
    cases hget
    exact ha

/-- The snapshot that is stored is the one the stream goes on from. -/
theorem upToDate_saved (server : ApiServer) {a : WorkflowRunSnapshot} (hid : a.id = id) :
    UpToDate id (server.saved a) := by
  intro hopen stream hget
  subst hid
  simp only [ApiServer.saved, observe_closed] at hopen hget ⊢
  rw [KeyMap.get?_insert_self]
  unfold EventBroker.observe at hget
  rw [if_neg (by simp [hopen]), KeyMap.get?_insert_self] at hget
  cases hget
  cases server.broker.streams.get? a.id <;> rfl

/-- Seeding either side with its snapshot keeps them alike. -/
theorem Twin.seed (h : Twin principal id w c d) {a b : WorkflowRunSnapshot}
    (ha : c.server.store.runs.get? id = some a) (hb : d.server.store.runs.get? id = some b)
    (hab : runDTO a = runDTO b) :
    Twin principal id w
      { c with server := { c.server with broker := c.server.broker.seed a } }
      { d with server := { d.server with broker := d.server.broker.seed b } } := by
  have hida : a.id = id := (h.ids a ha).1
  have hidb : b.id = id := (id_of_runDTO hab).symm.trans hida
  have hcontains : c.server.broker.streams.contains id = d.server.broker.streams.contains id := by
    have hstream := congrArg Option.isSome h.stream
    simpa [EventBroker.visible, KeyMap.contains] using hstream
  refine { h with
    stream := ?_, closed := by rw [seed_closed, seed_closed, h.closed]
    left := h.left.seed ha hida, right := h.right.seed hb hidb }
  unfold EventBroker.seed
  rw [hida, hidb, h.closed, hcontains]
  split
  · exact h.stream
  · simp only [EventBroker.visible, KeyMap.get?_insert_self, Option.map_some,
      status_of_runDTO hab, workflowEvent_of_runDTO hab]

theorem SameTaskEvents.tail {l' : List WorkflowRunSnapshot} {a b : WorkflowRunSnapshot}
    {m' : List WorkflowRunSnapshot} (hl : l = [] ∧ l' = [] ∨ ∃ x y, l = [x] ∧ l' = [y])
    (h : SameTaskEvents (l ++ a :: m) (l' ++ b :: m')) :
    SameTaskEvents (a :: m) (b :: m') := by
  rcases hl with ⟨rfl, rfl⟩ | ⟨x, y, rfl, rfl⟩
  · exact h
  · exact h.2

/-- The next snapshot of either history makes the same events. -/
theorem Twin.saved (h : Twin principal id w c d) {a b : WorkflowRunSnapshot} (hc : c.ahead = a :: l)
    (hd : d.ahead = b :: m) :
    Twin principal id w ⟨c.server.saved a, l⟩ ⟨d.server.saved b, m⟩ := by
  have hahead := h.ahead
  have hevents := h.events
  rw [hc, hd] at hahead hevents
  obtain ⟨hab, hrest⟩ := List.forall₂_cons.mp hahead
  obtain ⟨hida, hwa⟩ := h.aheadIDs a (hc ▸ List.mem_cons_self)
  have hidb : b.id = id := (id_of_runDTO hab).symm.trans hida
  have hgetc : (c.server.saved a).store.runs.get? id = some a := by
    rw [← hida]
    exact KeyMap.get?_insert_self _ _ _
  have hgetd : (d.server.saved b).store.runs.get? id = some b := by
    rw [← hidb]
    exact KeyMap.get?_insert_self _ _ _
  have hboth : (c.server.store.runs.get? id).toList = [] ∧
        (d.server.store.runs.get? id).toList = [] ∨
      ∃ x y, (c.server.store.runs.get? id).toList = [x] ∧
        (d.server.store.runs.get? id).toList = [y] := by
    have hrun := h.run
    cases hx : c.server.store.runs.get? id with
    | none =>
      rw [hx] at hrun
      rw [Option.map_eq_none_iff.mp hrun.symm]
      exact .inl ⟨rfl, rfl⟩
    | some x =>
      rw [hx] at hrun
      obtain ⟨y, hy, -⟩ := Option.map_eq_some_iff.mp hrun.symm
      rw [hy]
      exact .inr ⟨x, y, rfl, rfl⟩
  refine ⟨h.users, h.memberships, h.ownerships, h.limited, ?_, ?_, ?_, ?_,
    upToDate_saved c.server hida, upToDate_saved d.server hidb, hrest, ?_, ?_⟩
  · rw [hgetc, hgetd, Option.map_some, Option.map_some, hab]
  · intro run hrun
    rw [hgetc] at hrun
    cases hrun
    exact ⟨hida, hwa⟩
  · -- the streams grow by the events of the save
    simp only [ApiServer.saved]
    unfold EventBroker.observe
    rw [hida, hidb, h.closed]
    by_cases hclosed : d.server.broker.closed = true
    · rw [if_pos hclosed, if_pos hclosed]
      exact h.stream
    · have hopend : d.server.broker.closed = false := by simpa using hclosed
      have hopenc : c.server.broker.closed = false := h.closed.trans hopend
      rw [if_neg hclosed, if_neg hclosed]
      have hstream := h.stream
      simp only [EventBroker.visible, KeyMap.get?_insert_self, Option.map_some] at hstream ⊢
      cases hsc : c.server.broker.streams.get? id with
      | none =>
        rw [hsc] at hstream
        rw [Option.map_eq_none_iff.mp hstream.symm]
        simp only [status_of_runDTO hab]
      | some stream =>
        rw [hsc] at hstream
        obtain ⟨stream', hsd, hsame⟩ := Option.map_eq_some_iff.mp hstream.symm
        obtain ⟨hsame, -⟩ := Prod.mk.inj hsame
        have hlatest := h.left hopenc stream hsc
        have hlatest' := h.right hopend stream' hsd
        have hrun := h.run
        rw [hlatest, hlatest'] at hrun hevents
        have hderived := (deriveRunEvents_eq_iff (Option.some.inj hrun) hab).mpr hevents.1
        simp only [hsd, RunEventStream.observe, hsame, hderived, status_of_runDTO hab]
  · simp only [ApiServer.saved, observe_closed]
    exact h.closed
  · intro run hrun
    exact h.aheadIDs run (hc ▸ List.mem_cons_of_mem _ hrun)
  · rw [hgetc, hgetd]
    exact hevents.tail hboth

theorem Twin.step (h : Twin principal id w c d) {moment : Moment} (hmoment : moment.IsOfRun id) :
    Twin principal id w (c.step principal moment) (d.step principal moment) := by
  cases moment with
  | saved =>
    have hahead := h.ahead
    cases hc : c.ahead with
    | nil =>
      rw [hc] at hahead
      have hd := List.forall₂_nil_left_iff.mp hahead
      simpa only [Course.step, hc, hd] using h
    | cons a l =>
      rw [hc] at hahead
      obtain ⟨b, m, -, -, hd⟩ := List.forall₂_cons_left_iff.mp hahead
      simpa only [Course.step, hc, hd] using h.saved hc hd
  | restarted =>
    exact { h with
      stream := rfl, closed := rfl
      left := fun _ _ hget => by cases hget
      right := fun _ _ hget => by cases hget }
  | closed =>
    exact { h with
      stream := h.stream, closed := rfl
      left := fun hopen => by cases hopen
      right := fun hopen => by cases hopen }
  | asked env method route reads =>
    rcases h.plan env method hmoment env.later env.later with
      ⟨e, hpc, hpd⟩ | ⟨content, hpc, hpd⟩ | ⟨a, b, n, ha, hb, hab, -, hpc, hpd⟩
    · simp only [Course.step, handle_of_error hpc, handle_of_error hpd]
      exact h
    · simp only [Course.step, handle_of_ok hpc, handle_of_ok hpd]
      exact h
    · simp only [Course.step, handle_of_ok hpc, handle_of_ok hpd]
      exact h.seed ha hb hab

theorem Twin.runScript (h : Twin principal id w c d) {script : List Moment}
    (hscript : ∀ moment ∈ script, moment.IsOfRun id) :
    Twin principal id w (c.run principal script) (d.run principal script) := by
  induction script generalizing c d with
  | nil => exact h
  | cons moment script ih =>
    exact ih (h.step (hscript moment List.mem_cons_self))
      fun m hm => hscript m (List.mem_cons_of_mem _ hm)

/-- Whatever the user asks and when, the responses are the same. -/
theorem Twin.replies (h : Twin principal id w c d) {script : List Moment}
    (hscript : ∀ moment ∈ script, moment.IsOfRun id) :
    c.replies principal script = d.replies principal script := by
  induction script generalizing c d with
  | nil => rfl
  | cons moment script ih =>
    have hmoment := hscript moment List.mem_cons_self
    have hrest : ∀ m ∈ script, m.IsOfRun id := fun m hm => hscript m (List.mem_cons_of_mem _ hm)
    have hnext := ih (h.step hmoment) hrest
    cases moment with
    | saved | restarted | closed => exact hnext
    | asked env method route reads =>
      simp only [Course.replies]
      refine congrArg₂ List.cons ?_ hnext
      have hlater : List.Forall₂ (ReadAlike id)
          ((c.step principal (.asked env method route reads)).laterBrokers principal script reads)
          ((d.step principal (.asked env method route reads)).laterBrokers principal script
            reads) := by
        refine List.forall₂_map_left_iff.mpr (List.forall₂_map_right_iff.mpr
          (List.forall₂_same.mpr fun n _ => ?_))
        refine ((h.step hmoment).runScript fun m hm => hrest m ?_).readAlike
        exact List.takeWhile_subset _ (List.mem_of_mem_take hm)
      generalize Course.laterBrokers _ _ _ _ = later at hlater ⊢
      generalize Course.laterBrokers _ _ _ _ = later' at hlater ⊢
      rcases h.plan env method hmoment later later' with
        ⟨e, hpc, hpd⟩ | ⟨content, hpc, hpd⟩ | ⟨a, b, n, ha, hb, hab, hid, hpc, hpd⟩
      · rw [handle_of_error hpc, handle_of_error hpd]
      · rw [handle_of_ok hpc, handle_of_ok hpd]
        rfl
      · rw [handle_of_ok hpc, handle_of_ok hpd]
        simp only [ApiServer.perform, ← id_of_runDTO hab, hid]
        rw [streamedEvents_congr (.cons (h.seed ha hb hab).readAlike hlater)]

end Twins

/-! ## Reading the tasks off the stream -/

theorem numberEvents_inj {n : Nat} : ∀ {l l' : List RunEvent},
    (∀ e ∈ l, e.sequence = 0) → (∀ e ∈ l', e.sequence = 0) →
      numberEvents n l = numberEvents n l' → l = l'
  | [], [], _, _, _ => rfl
  | [], _ :: _, _, _, h => by cases h
  | _ :: _, [], _, _, h => by cases h
  | e :: l, e' :: l', hl, hl', h => by
    obtain ⟨hhead, htail⟩ := List.cons.inj h
    have hrest := numberEvents_inj (fun x hx => hl x (List.mem_cons_of_mem _ hx))
      (fun x hx => hl' x (List.mem_cons_of_mem _ hx)) htail
    have he := hl e List.mem_cons_self
    have he' := hl' e' List.mem_cons_self
    -- the events differ in nothing but the number they were given
    have hsame : e = e' := by
      cases e
      cases e'
      simp only [RunEvent.mk.injEq] at hhead he he' ⊢
      exact ⟨he.trans he'.symm, hhead.2⟩
    rw [hsame, hrest]

/-- A provisioned user who is a member of the project of the workflow. -/
def MemberOf (s : FileStore) (principal : Principal) (w : WorkflowID) : Prop :=
  ∃ user o m, s.users.get? principal.userID = some user ∧ user.disabled = false ∧
    s.ownerships.get? w = some o ∧ s.membership? o.projectID principal.userID = some m ∧
    m.role = .member

theorem MemberOf.limited {principal : Principal} {w : WorkflowID}
    (h : MemberOf s principal w) : Limited s principal w := by
  obtain ⟨user, o, m, -, -, ho, hm, hrole⟩ := h
  intro o' m' ho' hm'
  rw [ho] at ho'
  cases ho'
  rw [hm] at hm'
  cases hm'
  rw [hrole]
  rfl

section Reading

variable {principal : Principal} {id : RunID} {w : WorkflowID}

/-- A request for all events so far. -/
def readAll (id : RunID) : Moment := .asked {} .get (.runEvents id (some 0)) []

theorem readAll_isOfRun (id : RunID) : (readAll id).IsOfRun id :=
  .inr (.inr (.inr (.inr ⟨some 0, rfl⟩)))

theorem loadRun_of_member (h : MemberOf s principal w)
    (hid : validResourceID id = true) {run : WorkflowRunSnapshot}
    (hrun : s.runs.get? id = some run) (hw : run.workflowID = w) :
    loadRun s .live principal id .runRead = .ok run := by
  obtain ⟨user, o, m, huser, hdisabled, ho, hm, hrole⟩ := h
  have hallows : m.role.allows .runRead = true := by rw [hrole]; rfl
  rw [loadRun_eq_gate hrun, hw]
  simp [runGate, authorizeProject, reading_of_live (show contextError .live = .ok () from rfl),
    hid, firstError, required, huser, hdisabled, ho, hm, hallows, Except.map]

/-- The member gets every event of the stream. -/
theorem replies_readAll {c : Course} (h : MemberOf c.server.store principal w)
    (hid : validResourceID id = true) {run : WorkflowRunSnapshot}
    (hrun : c.server.store.runs.get? id = some run) (hrunID : run.id = id)
    (hw : run.workflowID = w)
    (hstream : c.server.broker.streams.get? id = some stream) :
    c.replies principal [readAll id] = [.ok 200 (.events id stream.events)] := by
  have hplan : ∀ env : Surroundings, env.ctx = .live → env.flusher = true →
      c.server.plan env principal .get (.runEvents id (some 0)) = .ok (.streamEvents run 0) := by
    intro env hctx hflusher
    simp [ApiServer.plan, handleRunEvents, requireMethod, firstError, required, hctx, hflusher,
      loadRun_of_member h hid hrun hw]
  have hseed : c.server.broker.seed run = c.server.broker := by
    unfold EventBroker.seed
    rw [hrunID, if_pos (by simp [KeyMap.contains, hstream])]
  simp only [readAll, Course.replies, Course.laterBrokers, List.map_nil]
  rw [handle_of_ok (hplan _ rfl rfl)]
  simp [ApiServer.perform, hrunID, hseed, streamedEvents, EventBroker.eventsAfter, hstream]

/-- A member can follow the stream of the run, which goes on from the snapshot. -/
structure Followed (principal : Principal) (id : RunID) (w : WorkflowID) (c : Course)
    (a : WorkflowRunSnapshot) (stream : RunEventStream) : Prop where
  member : MemberOf c.server.store principal w
  run : c.server.store.runs.get? id = some a
  ids : a.id = id ∧ a.workflowID = w
  found : c.server.broker.streams.get? id = some stream
  latest : stream.latest = a
  opened : c.server.broker.closed = false
  aheadIDs : ∀ run ∈ c.ahead, run.id = id ∧ run.workflowID = w

theorem Followed.saved {c : Course} {a x : WorkflowRunSnapshot}
    (h : Followed principal id w c a stream) (hahead : c.ahead = x :: l) :
    Followed principal id w ⟨c.server.saved x, l⟩ x (stream.observe x) := by
  have hids := h.aheadIDs x (hahead ▸ List.mem_cons_self)
  refine ⟨h.member, ?_, hids, ?_, rfl, ?_, fun run hrun => ?_⟩
  · rw [← hids.1]
    exact KeyMap.get?_insert_self _ _ _
  · simp only [ApiServer.saved, EventBroker.observe, h.opened, hids.1, h.found]
    exact KeyMap.get?_insert_self _ _ _
  · simp only [ApiServer.saved, observe_closed, h.opened]
  · exact h.aheadIDs run (hahead ▸ List.mem_cons_of_mem _ hrun)

theorem Followed.replies_readAll {c : Course} {a : WorkflowRunSnapshot}
    (h : Followed principal id w c a stream) (hid : validResourceID id = true) :
    c.replies principal [readAll id] = [.ok 200 (.events id stream.events)] :=
  Api.replies_readAll h.member hid h.run h.ids.1 h.ids.2 h.found

/-- A member whose responses are the same has seen the same task events. -/
theorem sameTaskEvents_of_replies (hid : validResourceID id = true) {c d : Course}
    {a b : WorkflowRunSnapshot} {sc sd : RunEventStream}
    (hc : Followed principal id w c a sc) (hd : Followed principal id w d b sd)
    (hab : runDTO a = runDTO b)
    (hahead : List.Forall₂ (fun a b => runDTO a = runDTO b) c.ahead d.ahead)
    (hreplies : ∀ script, (∀ moment ∈ script, moment.IsOfRun id) →
      c.replies principal script = d.replies principal script) :
    SameTaskEvents (a :: c.ahead) (b :: d.ahead) := by
  obtain ⟨server, ahead⟩ := c
  obtain ⟨server', ahead'⟩ := d
  simp only at hahead
  induction hahead generalizing server server' a b sc sd with
  | nil => trivial
  | @cons x y l m hxy _ ih =>
    have hcx := hc.saved rfl
    have hdy := hd.saved rfl
    have hread : ∀ moment ∈ [readAll id], moment.IsOfRun id := by
      intro moment hmoment
      rw [List.mem_singleton.mp hmoment]
      exact readAll_isOfRun id
    -- the stream before the save, and after it
    have hbefore := hreplies [readAll id] hread
    rw [hc.replies_readAll hid, hd.replies_readAll hid] at hbefore
    have hafter := hreplies [.saved, readAll id] (by
      intro moment hmoment
      rcases List.mem_cons.mp hmoment with rfl | hmoment
      · trivial
      · exact hread moment hmoment)
    have hsteps : (Course.mk (server.saved x) l).replies principal [readAll id] =
        (Course.mk (server'.saved y) m).replies principal [readAll id] := hafter
    rw [hcx.replies_readAll hid, hdy.replies_readAll hid] at hsteps
    simp only [List.cons.injEq, Reply.ok.injEq, Content.events.injEq, true_and, and_true]
      at hbefore hsteps
    simp only [RunEventStream.observe, hbefore, List.append_cancel_left_eq, hc.latest,
      hd.latest] at hsteps
    have hderived := numberEvents_inj (fun e he => (mem_deriveRunEvents he).1)
      (fun e he => (mem_deriveRunEvents he).1) hsteps
    refine ⟨(deriveRunEvents_eq_iff hab hxy).mp hderived, ?_⟩
    exact ih hxy _ hcx _ hdy fun script hscript =>
      hreplies (.saved :: script) (by
        intro moment hmoment
        rcases List.mem_cons.mp hmoment with rfl | hmoment
        · trivial
        · exact hscript moment hmoment)

end Reading

/-! ## The two histories -/

theorem ids_of_summaries {id : RunID} {w : WorkflowID}
    (h : List.Forall₂ (fun a b => runDTO a = runDTO b) l m)
    (hl : ∀ run ∈ l, run.id = id ∧ run.workflowID = w) :
    ∀ run ∈ m, run.id = id ∧ run.workflowID = w := by
  induction h with
  | nil => exact hl
  | cons hab _ ih =>
    intro run hrun
    rcases List.mem_cons.mp hrun with rfl | hrun
    · rw [← id_of_runDTO hab, ← workflowID_of_runDTO hab]
      exact hl _ List.mem_cons_self
    · exact ih (fun x hx => hl x (List.mem_cons_of_mem _ hx)) run hrun

/-- Two histories of a run with the same summaries get a member the same responses,
whatever the member asks and when, exactly if save after save the same tasks come to the
same status under the same attempt at the same time. -/
theorem member_responses_same_iff {principal : Principal} {id : RunID}
    {w : WorkflowID} {history history' : List WorkflowRunSnapshot}
    (hmember : MemberOf server.store principal w) (hid : validResourceID id = true)
    (hrun : server.store.runs.get? id = none) (hstream : server.broker.streams.get? id = none)
    (hopen : server.broker.closed = false)
    (hids : ∀ run ∈ history, run.id = id ∧ run.workflowID = w)
    (hvalid : ∀ run ∈ history ++ history', run.validate = .ok ())
    (hsame : List.Forall₂ (fun a b => runDTO a = runDTO b) history history') :
    (∀ script, (∀ moment ∈ script, moment.IsOfRun id) →
      (Course.mk server history).replies principal script =
        (Course.mk server history').replies principal script) ↔
      SameTaskChanges history history' := by
  simp only [List.forall_mem_append, WorkflowRunSnapshot.validate_ok_iff] at hvalid
  rw [← sameTaskEvents_iff hsame hvalid.1 hvalid.2]
  constructor
  · intro hreplies
    cases hsame with
    | nil => trivial
    | @cons a b l m hab hrest =>
      have hstart : ∀ {x : WorkflowRunSnapshot} {ahead : List WorkflowRunSnapshot},
          x.id = id ∧ x.workflowID = w → (∀ run ∈ ahead, run.id = id ∧ run.workflowID = w) →
          Followed principal id w ⟨server.saved x, ahead⟩ x ⟨x, []⟩ := by
        intro x ahead hx hahead
        refine ⟨hmember, ?_, hx, ?_, rfl, ?_, hahead⟩
        · rw [← hx.1]
          exact KeyMap.get?_insert_self _ _ _
        · simp only [ApiServer.saved, EventBroker.observe, hopen, hx.1, hstream]
          exact KeyMap.get?_insert_self _ _ _
        · simp only [ApiServer.saved, observe_closed, hopen]
      have ha := hids a List.mem_cons_self
      have hl : ∀ run ∈ l, run.id = id ∧ run.workflowID = w :=
        fun run hmem => hids run (List.mem_cons_of_mem _ hmem)
      -- the IDs of the second history are those of the first
      have hm := ids_of_summaries hrest hl
      have hb : b.id = id ∧ b.workflowID = w := by
        rw [← id_of_runDTO hab, ← workflowID_of_runDTO hab]
        exact ha
      exact sameTaskEvents_of_replies hid (hstart ha hl) (hstart hb hm) hab hrest
        fun script hscript => hreplies (.saved :: script) (by
          intro moment hmoment
          rcases List.mem_cons.mp hmoment with rfl | hmoment
          · trivial
          · exact hscript moment hmoment)
  · intro hevents script hscript
    have htwin : Twin principal id w ⟨server, history⟩ ⟨server, history'⟩ := by
      refine ⟨rfl, rfl, rfl, hmember.limited, rfl, fun run hget => ?_, rfl, rfl,
        fun _ stream hget => ?_, fun _ stream hget => ?_, hsame, hids, ?_⟩
      · rw [hrun] at hget
        cases hget
      · rw [hstream] at hget
        cases hget
      · rw [hstream] at hget
        cases hget
      · simpa only [hrun, Option.toList_none, List.nil_append] using hevents
    exact htwin.replies hscript

/-! ## Two tasks and one worker -/

def teamMember : Principal := ⟨ascii "bob", ascii "Bob"⟩

def pairWorkflow : WorkflowPayload where
  id := ascii "w"
  projectID := ascii "forge"
  tasks := [⟨ascii "a", ascii "A", [], ascii "h", [], 1, some 0, some 0⟩,
    ⟨ascii "b", ascii "B", [], ascii "h", [], 1, some 0, some 0⟩]

def pairDefinition : WorkflowDefinition :=
  ⟨ascii "w", [⟨ascii "a", ascii "A", .nil, ascii "h", [], ⟨1, 0, 0⟩⟩,
    ⟨ascii "b", ascii "B", .nil, ascii "h", [], ⟨1, 0, 0⟩⟩]⟩

/-- A project with an admin, a member and a workflow. -/
def teamServer : ApiServer :=
  ((projectServer.handle atNoon ada .put addBob).2.handle atNoon ada .post
    (.workflows (.ok pairWorkflow))).2

/-- A run is created, started, and given a task to a worker. -/
def pairHistory (taskID : TaskID) (workerID : WorkerID) : List WorkflowRunSnapshot :=
  match newWorkflowRun (ascii "r") pairDefinition 1 with
  | .error _ => []
  | .ok run =>
    let created := run.applyAll [.persisted 1]
    let started := created.applyAll [.startWorkflow 2, .markNewReady fun _ => 2, .persisted 2]
    let leased := started.applyAll [.startTaskAttempt taskID workerID 10 3, .persisted 3]
    [created.snapshot, started.snapshot, leased.snapshot]

theorem teamServer_member : MemberOf teamServer.store teamMember (ascii "w") :=
  ⟨⟨ascii "bob", ascii "Bob", false, 1⟩, ⟨ascii "w", ascii "forge", ascii "ada", 1⟩,
    ⟨ascii "forge", ascii "bob", .member, 1, 1⟩, by decide +kernel⟩

theorem forall₂_of_map_eq (h : l.map runDTO = m.map runDTO) :
    List.Forall₂ (fun a b => runDTO a = runDTO b) l m := by
  rw [← List.forall₂_eq_eq_eq, List.forall₂_map_left_iff, List.forall₂_map_right_iff] at h
  exact h

/-- Which worker has the task makes no difference to a member. -/
theorem sample_member_responses_same :
    (Course.mk teamServer (pairHistory (ascii "a") (ascii "x"))).replies teamMember
        [.saved, .saved, .saved, readAll (ascii "r")] =
      (Course.mk teamServer (pairHistory (ascii "a") (ascii "y"))).replies teamMember
        [.saved, .saved, .saved, readAll (ascii "r")] := by
  have hvalid : ∀ run ∈ pairHistory (ascii "a") (ascii "x") ++ pairHistory (ascii "a") (ascii "y"),
      run.validate = .ok () := by decide +kernel
  have hsnapshots : ∀ run, run ∈ pairHistory (ascii "a") (ascii "x") ∨
      run ∈ pairHistory (ascii "a") (ascii "y") → ValidSnapshot run := fun run hrun =>
    (WorkflowRunSnapshot.validate_ok_iff run).mp (hvalid run (List.mem_append.mpr hrun))
  have hsummaries := forall₂_of_map_eq (l := pairHistory (ascii "a") (ascii "x"))
    (m := pairHistory (ascii "a") (ascii "y")) (by decide +kernel)
  have hsame : ∀ script, (∀ moment ∈ script, moment.IsOfRun (ascii "r")) →
      (Course.mk teamServer (pairHistory (ascii "a") (ascii "x"))).replies teamMember script =
        (Course.mk teamServer (pairHistory (ascii "a") (ascii "y"))).replies teamMember script :=
    (member_responses_same_iff teamServer_member (by decide +kernel) (by decide +kernel)
      (by decide +kernel) (by decide +kernel) (by decide +kernel) hvalid hsummaries).mpr
        ((sameTaskEvents_iff hsummaries (fun run hrun => hsnapshots run (.inl hrun))
          fun run hrun => hsnapshots run (.inr hrun)).mp
            ⟨by decide +kernel, by decide +kernel, trivial⟩)
  refine hsame _ fun moment hmoment => ?_
  simp only [List.mem_cons, List.not_mem_nil, or_false] at hmoment
  rcases hmoment with rfl | rfl | rfl | rfl
  · trivial
  · trivial
  · trivial
  · exact readAll_isOfRun _

/-- What a stream tells about tasks. -/
def shownTasks (replies : List Reply) : List (RunEventType × TaskID) :=
  replies.flatMap fun
    | .ok _ (.events _ events) => events.map fun e => (e.type, e.taskID)
    | _ => []

/-- The summaries are the same, the tasks are refused, and the stream names the task
that is running. -/
theorem event_stream_names_running_task :
    MemberOf teamServer.store teamMember (ascii "w") ∧
    (pairHistory (ascii "a") (ascii "x")).map runDTO =
      (pairHistory (ascii "b") (ascii "x")).map runDTO ∧
    (∀ run ∈ pairHistory (ascii "a") (ascii "x") ++ pairHistory (ascii "b") (ascii "x"),
      run.validate = .ok ()) ∧
    (Course.mk teamServer (pairHistory (ascii "a") (ascii "x"))).replies teamMember
        [.saved, .saved, .saved, .asked {} .get (.runTasks (ascii "r")) []] =
      [.failed (apiError 403 "forbidden" "project role does not allow this operation" "")] ∧
    shownTasks ((Course.mk teamServer (pairHistory (ascii "a") (ascii "x"))).replies teamMember
        [.saved, .saved, .saved, readAll (ascii "r")]) =
      [(.workflowStarted, []), (.taskReady, ascii "a"), (.taskReady, ascii "b"),
        (.taskStarted, ascii "a")] ∧
    shownTasks ((Course.mk teamServer (pairHistory (ascii "b") (ascii "x"))).replies teamMember
        [.saved, .saved, .saved, readAll (ascii "r")]) =
      [(.workflowStarted, []), (.taskReady, ascii "a"), (.taskReady, ascii "b"),
        (.taskStarted, ascii "b")] :=
  ⟨teamServer_member, by decide +kernel⟩

end ForgeFlow.Api
