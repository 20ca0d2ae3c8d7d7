import ForgeFlow.Api.EventChannels
import ForgeFlow.Execution.Operations

/-!
# Event streams over restarts

A deployment keeps its stored runs when the process restarts, and loses the event
streams. The scheduler saves a snapshot and shows it to the event broker in two steps;
a client's request loads the run, makes sure that there is a stream and then reads it
until the run has ended.
-/

namespace ForgeFlow.Api

open ForgeFlow.Base ForgeFlow.Workflow ForgeFlow.Execution

/-- Where a response of `handleRunEvents` stands. -/
inductive EventResponsePhase where
  | loaded (snapshot : WorkflowRunSnapshot)
  | streaming (sequence : Nat)
  /-- Ended by the server, because the run has this status. -/
  | ended (status : WorkflowRunStatus)
  /-- Over by shutdown, disconnect or restart. -/
  | over
  deriving DecidableEq

structure EventResponse where
  runID : RunID
  /-- Zero without a `Last-Event-ID`. -/
  lastSequence : Nat
  phase : EventResponsePhase
  received : List RunEvent := []
  deriving DecidableEq

structure Deployment where
  stored : KeyMap RunID WorkflowRunSnapshot := ∅
  /-- Saved by this process and not yet observed. -/
  unobserved : List WorkflowRunSnapshot := []
  broker : EventBroker := {}
  responses : List EventResponse := []
  deriving DecidableEq

inductive DeploymentLabel where
  | save (snapshot : WorkflowRunSnapshot)
  | observe (i : Nat)
  | restart
  | shutdown
  | request (runID : RunID) (lastSequence : Nat)
  | seed (response : Nat)
  | pass (response : Nat)
  | disconnect (response : Nat)
  deriving DecidableEq

/-- One pass of the delivery loop over the broker. -/
def EventResponse.pass (response : EventResponse) (broker : EventBroker) (sequence : Nat) :
    EventResponse :=
  let events := (broker.eventsAfter response.runID sequence).1
  { response with
    received := response.received ++ events
    phase := match broker.streams.get? response.runID with
      | some stream =>
        if stream.latest.status.terminal then .ended stream.latest.status
        else if broker.closed then .over
        else .streaming ((events.getLast?.map RunEvent.sequence).getD sequence)
      | none => if broker.closed then .over else .streaming sequence }

/-- The connection is gone. -/
def EventResponse.cut (response : EventResponse) : EventResponse :=
  match response.phase with
  | .ended _ => response
  | _ => { response with phase := .over }

namespace Deployment

/-- A response takes a step over the broker. -/
def respond (w : Deployment) (i : Nat) (f : EventResponse → Option (EventBroker × EventResponse)) :
    Option Deployment :=
  (w.responses[i]?).bind fun response => (f response).map fun after =>
    { w with broker := after.1, responses := w.responses.set i after.2 }

def step (w : Deployment) : DeploymentLabel → Option Deployment
  | .save snapshot => some { w with
      stored := w.stored.insert snapshot.id snapshot
      unobserved := w.unobserved ++ [snapshot] }
  | .observe i => (w.unobserved[i]?).map fun snapshot => { w with
      unobserved := w.unobserved.eraseIdx i
      broker := w.broker.observe snapshot }
  | .restart => some { w with
      unobserved := []
      broker := {}
      responses := w.responses.map EventResponse.cut }
  | .shutdown => some { w with broker := w.broker.close }
  | .request runID lastSequence => (w.stored.get? runID).map fun snapshot => { w with
      responses := w.responses ++ [⟨runID, lastSequence, .loaded snapshot, []⟩] }
  | .seed i => w.respond i fun response =>
      match response.phase with
      | .loaded snapshot => some (w.broker.seed snapshot,
          { response with phase := .streaming response.lastSequence })
      | _ => none
  | .pass i => w.respond i fun response =>
      match response.phase with
      | .streaming sequence => some (w.broker, response.pass w.broker sequence)
      | _ => none
  | .disconnect i => w.respond i fun response => some (w.broker, response.cut)

end Deployment

/-! ## Events that carry the final status -/

/-- An event of the whole run that carries its status. -/
def RunEvent.Carries (event : RunEvent) (status : WorkflowRunStatus) : Prop :=
  event.status = some status ∧ (event.type = .workflowCompleted ∨ event.type = .runSnapshot)

/-- The end of the run, if it has ended, is among the events. -/
def RunEventStream.Concluded (stream : RunEventStream) : Prop :=
  stream.latest.status.terminal = true →
    ∃ event ∈ stream.events, event.Carries stream.latest.status

/-- Numbering leaves the rest of an event as it is. -/
theorem mem_numberEvents {event : RunEvent} : ∀ {events : List RunEvent} (n : Nat),
    event ∈ events → ∃ m, { event with sequence := m } ∈ numberEvents n events
  | e :: rest, n, h => by
    rcases List.mem_cons.mp h with rfl | h
    · exact ⟨n, List.mem_cons_self⟩
    · obtain ⟨m, hm⟩ := mem_numberEvents (n + 1) h
      exact ⟨m, List.mem_cons_of_mem _ hm⟩

theorem RunEventStream.Concluded.observe {stream : RunEventStream} (h : stream.Concluded)
    (snapshot : WorkflowRunSnapshot) : (stream.observe snapshot).Concluded := by
  intro hterminal
  by_cases hsame : stream.latest.status = snapshot.status
  · have hold : stream.latest.status.terminal = true := by rw [hsame]; exact hterminal
    obtain ⟨event, he, hcarries⟩ := h hold
    exact ⟨event, List.mem_append_left _ he, hsame ▸ hcarries⟩
  · have hlast : workflowEvent .workflowCompleted snapshot ∈
        deriveRunEvents stream.latest snapshot := by
      refine List.mem_append_right _ ?_
      rw [completedEvents, if_pos ⟨hsame, hterminal⟩]
      exact List.mem_singleton.mpr rfl
    obtain ⟨m, hm⟩ := mem_numberEvents (stream.events.length + 1) hlast
    exact ⟨_, List.mem_append_right _ hm, rfl, .inl rfl⟩

namespace EventBroker

/-- The events of a run so far. -/
def events (broker : EventBroker) (id : RunID) : List RunEvent :=
  ((broker.streams.get? id).map RunEventStream.events).getD []

/-- Streams are numbered, and hold the end of their run. -/
def Faithful (broker : EventBroker) : Prop :=
  ∀ id stream, broker.streams.get? id = some stream → Numbered stream.events ∧ stream.Concluded

section

variable {broker : EventBroker}

theorem events_of_get? {id : RunID} {stream : RunEventStream}
    (h : broker.streams.get? id = some stream) : broker.events id = stream.events := by
  rw [events, h]
  rfl

theorem Faithful.insert (h : broker.Faithful) {id : RunID} {stream : RunEventStream}
    (hnumbered : Numbered stream.events) (hconcluded : stream.Concluded) :
    Faithful { broker with streams := broker.streams.insert id stream } := by
  intro id' stream' hget
  rw [KeyMap.get?_insert] at hget
  split at hget
  · cases hget
    exact ⟨hnumbered, hconcluded⟩
  · exact h id' stream' hget

/-- An observation that makes the stream finds the run not ended. -/
theorem Faithful.observe (h : broker.Faithful) {snapshot : WorkflowRunSnapshot}
    (hfresh : broker.closed = false → broker.streams.get? snapshot.id = none →
      snapshot.status.terminal = false) : (broker.observe snapshot).Faithful := by
  unfold EventBroker.observe
  split
  · exact h
  rename_i hopen
  have hopen : broker.closed = false := by simpa using hopen
  cases hget : broker.streams.get? snapshot.id with
  | none =>
    refine h.insert rfl fun hterminal => ?_
    rw [hfresh hopen hget] at hterminal
    cases hterminal
  | some stream =>
    obtain ⟨hnumbered, hconcluded⟩ := h _ stream hget
    exact h.insert (hnumbered.append _) (hconcluded.observe snapshot)

theorem Faithful.seed (h : broker.Faithful) (snapshot : WorkflowRunSnapshot) :
    (broker.seed snapshot).Faithful := by
  unfold EventBroker.seed
  split
  · exact h
  · exact h.insert rfl fun _ => ⟨_, List.mem_singleton.mpr rfl, rfl, .inr rfl⟩

theorem events_observe (snapshot : WorkflowRunSnapshot) (id : RunID) :
    broker.events id <+: (broker.observe snapshot).events id := by
  unfold EventBroker.observe
  split
  · exact List.prefix_rfl
  unfold events
  rw [KeyMap.get?_insert]
  split
  · rename_i hid
    subst hid
    cases broker.streams.get? snapshot.id with
    | none => exact List.nil_prefix
    | some stream => exact List.prefix_append _ _
  · exact List.prefix_rfl

theorem events_seed (snapshot : WorkflowRunSnapshot) (id : RunID) :
    broker.events id <+: (broker.seed snapshot).events id := by
  unfold EventBroker.seed
  split
  · exact List.prefix_rfl
  rename_i hnew
  unfold events
  rw [KeyMap.get?_insert]
  split
  · rename_i hid
    subst hid
    simp only [Bool.or_eq_true, not_or, KeyMap.contains, Option.not_isSome_iff_eq_none] at hnew
    rw [hnew.2]
    exact List.nil_prefix
  · exact List.prefix_rfl

end

end EventBroker

/-! ## Responses -/

/-- A response without `Last-Event-ID` has what it needs to have. -/
def EventResponse.Served (broker : EventBroker) (response : EventResponse) : Prop :=
  response.lastSequence = 0 →
    match response.phase with
    | .loaded _ => response.received = []
    | .streaming sequence =>
      response.received = (broker.events response.runID).take sequence ∧
        sequence ≤ (broker.events response.runID).length
    | .ended status => ∃ event ∈ response.received, event.Carries status
    | .over => True

section

variable {broker broker' : EventBroker} {response : EventResponse}

theorem EventResponse.Served.extend (h : response.Served broker)
    (hgrown : ∀ id, broker.events id <+: broker'.events id) : response.Served broker' := by
  intro hstart
  have := h hstart
  split at this
  · exact this
  · obtain ⟨hreceived, hle⟩ := this
    obtain ⟨more, hmore⟩ := hgrown response.runID
    rw [← hmore, List.take_append_of_le_length hle, List.length_append]
    exact ⟨hreceived, hle.trans (Nat.le_add_right _ _)⟩
  · exact this
  · trivial

theorem EventResponse.Served.cut (h : response.Served broker) : response.cut.Served broker' := by
  unfold EventResponse.cut
  split
  · rename_i status hphase
    intro hstart
    have := h hstart
    rw [hphase] at this ⊢
    exact this
  · exact fun _ => trivial

theorem EventResponse.Served.pass (h : response.Served broker) (hfaithful : broker.Faithful)
    {sequence : Nat} (hphase : response.phase = .streaming sequence) :
    (response.pass broker sequence).Served broker := by
  intro hstart
  have hserved := h hstart
  rw [hphase] at hserved
  obtain ⟨hreceived, hle⟩ := hserved
  unfold EventResponse.pass EventBroker.eventsAfter
  cases hget : broker.streams.get? response.runID with
  | none =>
    have hnone : broker.events response.runID = [] := by rw [EventBroker.events, hget]; rfl
    rw [hnone] at hreceived hle
    dsimp only
    by_cases hclosed : broker.closed = true
    · rw [if_pos hclosed]
      trivial
    · rw [if_neg hclosed, hnone, List.append_nil]
      exact ⟨hreceived, hle⟩
  | some stream =>
    obtain ⟨hnumbered, hconcluded⟩ := hfaithful _ stream hget
    have hevents := EventBroker.events_of_get? hget
    rw [hevents] at hreceived hle
    have hall : response.received ++ stream.events.drop sequence = stream.events := by
      rw [hreceived, List.take_append_drop]
    dsimp only
    rw [hall, hevents]
    by_cases hterminal : stream.latest.status.terminal = true
    · rw [if_pos hterminal]
      exact hconcluded hterminal
    · rw [if_neg hterminal]
      by_cases hclosed : broker.closed = true
      · rw [if_pos hclosed]
        trivial
      · have hlast := hnumbered.last sequence stream.events.length
        rw [List.take_of_length_le (by rw [List.length_drop]; omega), List.length_drop,
          Nat.add_sub_cancel' hle] at hlast
        rw [if_neg hclosed]
        dsimp only
        rw [hlast, List.take_length]
        exact ⟨rfl, le_refl _⟩

end

namespace Deployment

structure Sound (w : Deployment) : Prop where
  broker : w.broker.Faithful
  responses : ∀ response ∈ w.responses, response.Served w.broker

/-- An observation that makes the stream of a run, the first in this process, finds the
run not ended. -/
def OpensEarly (w : Deployment) : DeploymentLabel → Prop
  | .observe i => ∀ snapshot ∈ w.unobserved[i]?, w.broker.closed = false →
      w.broker.streams.get? snapshot.id = none → snapshot.status.terminal = false
  | _ => True

instance (w : Deployment) : (label : DeploymentLabel) → Decidable (w.OpensEarly label)
  | .observe i => inferInstanceAs (Decidable (∀ snapshot ∈ w.unobserved[i]?,
      w.broker.closed = false → w.broker.streams.get? snapshot.id = none →
        snapshot.status.terminal = false))
  | .save _ | .restart | .shutdown | .request _ _ | .seed _ | .pass _ | .disconnect _ =>
    isTrue trivial

section

variable {w w' : Deployment}

theorem sound_initial : Sound {} := ⟨nofun, nofun⟩

theorem Sound.respond (h : w.Sound) {i : Nat}
    {f : EventResponse → Option (EventBroker × EventResponse)}
    (hstep : w.respond i f = some w')
    (hf : ∀ response after, response.Served w.broker → f response = some after →
      after.1.Faithful ∧ (∀ id, w.broker.events id <+: after.1.events id) ∧
        after.2.Served after.1) : w'.Sound := by
  obtain ⟨response, hresponse, hmap⟩ := Option.bind_eq_some_iff.mp hstep
  obtain ⟨after, hafter, rfl⟩ := Option.map_eq_some_iff.mp hmap
  obtain ⟨hbroker, hgrown, hserved⟩ :=
    hf response after (h.responses response (List.mem_of_getElem? hresponse)) hafter
  refine ⟨hbroker, fun other hother => ?_⟩
  rcases List.mem_or_eq_of_mem_set hother with hold | rfl
  · exact (h.responses other hold).extend hgrown
  · exact hserved

theorem Sound.step (h : w.Sound) {label : DeploymentLabel} (hopens : w.OpensEarly label)
    (hstep : w.step label = some w') : w'.Sound := by
  cases label with
  | save snapshot =>
    cases hstep
    exact ⟨h.broker, h.responses⟩
  | observe i =>
    obtain ⟨snapshot, hsnapshot, rfl⟩ := Option.map_eq_some_iff.mp hstep
    have hbroker := h.broker.observe (hopens snapshot hsnapshot)
    exact ⟨hbroker, fun response hr =>
      (h.responses response hr).extend (EventBroker.events_observe snapshot)⟩
  | restart =>
    cases hstep
    refine ⟨nofun, fun response hr => ?_⟩
    obtain ⟨old, hold, rfl⟩ := List.mem_map.mp hr
    exact (h.responses old hold).cut
  | shutdown =>
    cases hstep
    exact ⟨h.broker, h.responses⟩
  | request runID lastSequence =>
    obtain ⟨snapshot, -, rfl⟩ := Option.map_eq_some_iff.mp hstep
    refine ⟨h.broker, fun response hr => ?_⟩
    rcases List.mem_append.mp hr with hr | hr
    · exact h.responses response hr
    · rw [List.mem_singleton.mp hr]
      exact fun _ => rfl
  | seed i =>
    refine h.respond (f := fun response => match response.phase with
      | .loaded snapshot => some (w.broker.seed snapshot,
          { response with phase := .streaming response.lastSequence })
      | _ => none) hstep fun response after hserved hafter => ?_
    split at hafter
    · rename_i snapshot hphase
      cases hafter
      refine ⟨h.broker.seed snapshot, EventBroker.events_seed snapshot, fun hstart => ?_⟩
      have hnil := hserved hstart
      rw [hphase] at hnil
      have hzero : response.lastSequence = 0 := hstart
      dsimp only
      rw [hzero]
      exact ⟨hnil, Nat.zero_le _⟩
    · cases hafter
  | pass i =>
    refine h.respond (f := fun response => match response.phase with
      | .streaming sequence => some (w.broker, response.pass w.broker sequence)
      | _ => none) hstep fun response after hserved hafter => ?_
    split at hafter
    · rename_i sequence hphase
      cases hafter
      exact ⟨h.broker, fun _ => List.prefix_rfl, hserved.pass h.broker hphase⟩
    · cases hafter
  | disconnect i =>
    refine h.respond (f := fun response => some (w.broker, response.cut)) hstep
      fun response after hserved hafter => ?_
    cases hafter
    exact ⟨h.broker, fun _ => List.prefix_rfl, hserved.cut⟩

end

/-- A response from the beginning on that the server ended because of the status of the run
has delivered an event with that status. -/
def EndsTold (w : Deployment) : Prop :=
  ∀ response ∈ w.responses, response.lastSequence = 0 → ∀ status,
    response.phase = .ended status → ∃ event ∈ response.received, event.Carries status

theorem ends_told_of_opens_early {w : Deployment} {labels : List DeploymentLabel}
    (hopens : Meets Deployment.step OpensEarly {} labels)
    (hrun : runLabels Deployment.step {} labels = some w) : w.EndsTold := by
  have h : w.Sound := hopens.invariant (fun _ _ _ hc hstep hs => Sound.step hs hc hstep)
    sound_initial hrun
  intro response hr hstart status hphase
  have := h.responses response hr hstart
  rw [hphase] at this
  exact this

/-- A run of this process, read while it goes on; another one, read after a restart. -/
def readOverRestart : List DeploymentLabel := [.save (EventSystem.bareRun .pending), .observe 0,
  .request (ascii "run-1") 0, .seed 0, .pass 0, .save (EventSystem.bareRun .failed), .observe 0,
  .pass 0, .restart, .request (ascii "run-1") 0, .seed 1, .pass 1]

theorem ends_told_of_opens_early_readOverRestart : ∃ w,
    Meets Deployment.step OpensEarly {} readOverRestart ∧
      runLabels Deployment.step {} readOverRestart = some w ∧ w.EndsTold := by
  have hopens : Meets Deployment.step OpensEarly {} readOverRestart := by decide +kernel
  obtain ⟨w, hw⟩ := Option.isSome_iff_exists.mp
    (by decide +kernel : (runLabels Deployment.step {} readOverRestart).isSome = true)
  exact ⟨w, hopens, hw, ends_told_of_opens_early hopens hw⟩

/-- What `Recover` saves of a run whose tasks already decide how it ends. -/
def recoveredEnding (snapshot : WorkflowRunSnapshot) (definition : WorkflowDefinition)
    (now now' : Int) : Option WorkflowRunSnapshot :=
  match restoreWorkflowRun snapshot definition with
  | .error _ => none
  | .ok run => (recoveredTerminalTaskState run).bind fun (status, cause) =>
    match stopRun run status (some cause) now now' with
    | (_, .error _) => none
    | (run, .ok _) => some run.snapshot

def strandedDefinition : WorkflowDefinition where
  id := ascii "w"
  tasks := [⟨ascii "a", ascii "task", .nil, ascii "h", [], ⟨0, 0, 0⟩⟩]

/-- The process stopped after a failed task was saved and before the run was. -/
def strandedRun : WorkflowRunSnapshot where
  id := ascii "run-1"
  workflowID := ascii "w"
  version := 6
  status := .running
  createdAt := 1
  updatedAt := 5
  tasks := [{
    taskID := ascii "a"
    taskRunID := taskRunIDFor (ascii "run-1") (ascii "a")
    status := .failed
    error := ascii "boom"
    attemptCount := 1
    currentAttemptID := attemptIDFor (taskRunIDFor (ascii "run-1") (ascii "a")) 1
    updatedAt := 5
    startedAt := 4
    finishedAt := 5 }]
  workers := []

/-- The run is recovered after a restart: the only save of the new process ends it, and its
stream stays without events. -/
def readAfterRecovery (recovered : WorkflowRunSnapshot) : List DeploymentLabel :=
  [.save strandedRun, .observe 0, .restart, .save { recovered with version := 7 }, .observe 0,
    .request (ascii "run-1") 0, .seed 0, .pass 0]

theorem recovered_run_ends_untold : ∃ recovered w,
    recoveredEnding strandedRun strandedDefinition 9 9 = some recovered ∧
      runLabels Deployment.step {} (readAfterRecovery recovered) = some w ∧ ¬w.EndsTold := by
  have hrecovered : (recoveredEnding strandedRun strandedDefinition 9 9).any (fun recovered =>
      (runLabels Deployment.step {} (readAfterRecovery recovered)).any fun w =>
        w.responses = [⟨ascii "run-1", 0, .ended .failed, []⟩]) = true := by
    decide +kernel
  obtain ⟨recovered, hrecovered, hrun⟩ := (Option.any_eq_true _ _).mp hrecovered
  obtain ⟨w, hw, hresponses⟩ := exists_of_runLabels _ _ _ _ hrun
  refine ⟨recovered, w, hrecovered, hw, fun htold => ?_⟩
  obtain ⟨event, hevent, -⟩ := htold _ (by rw [hresponses]; exact List.mem_singleton.mpr rfl) rfl
    .failed rfl
  cases hevent

end Deployment

end ForgeFlow.Api
