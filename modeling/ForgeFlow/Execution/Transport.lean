import ForgeFlow.Broker.Receivers
import ForgeFlow.Execution.Broker

/-!
# The messages of a run in the shared broker

`InMemoryBroker` serves all runs of a process. Attempts are always published to it, and what
the schedulers of one run do with it is what they do with the one queue of `MemoryBroker`.
-/

namespace ForgeFlow.Execution

open ForgeFlow.Base ForgeFlow.Workflow

/-- What `json.Marshal` makes of a dispatch. -/
structure DispatchEncoding where
  document : TaskDispatch → List UInt8
  nonempty : ∀ dispatch, document dispatch ≠ []

def MessageBody.bytes (e : DispatchEncoding) : MessageBody → List UInt8
  | .json dispatch => e.document dispatch
  | _ => []

/-- The message as it is handed to the broker. Its headers are those of the trace. -/
def TaskMessage.wire (e : DispatchEncoding) (message : TaskMessage)
    (headers : KeyMap GoString GoString) : Broker.TaskMessage :=
  ⟨message.id, message.topic, message.body.bytes e, headers⟩

theorem MemoryBroker.enqueue_messages (broker : MemoryBroker) (id : MessageID) :
    (broker.enqueue id).messages = broker.messages := by
  unfold MemoryBroker.enqueue
  split <;> rfl

/-- Every stored message is that of an attempt, under its own ID. -/
def HoldsAttempts (e : DispatchEncoding) (b : Broker.InMemoryBroker) : Prop :=
  ∀ id x, b.messages.get? id = some x →
    x.id = id ∧ ∃ r k n headers, x = (attemptMessage r k n).wire e headers

section Publications

variable {e : DispatchEncoding} {b : Broker.InMemoryBroker} {r : RunID} {k : TaskID}
  {headers : KeyMap GoString GoString}

theorem wire_validate (hr : validIdentifier r = true) (hk : validIdentifier k = true) (n : Int)
    (hheaders : checkAll Broker.validHeader headers.entries = .ok ()) :
    ((attemptMessage r k n).wire e headers).validate = .ok () := by
  have hid : Broker.validIdentifier (attemptIDFor (taskRunIDFor r k) n) = true :=
    validIdentifier_attemptIDFor hr hk n
  have htopic : Broker.validIdentifier (taskTopic r) = true := validIdentifier_taskTopic r
  rw [Broker.TaskMessage.validate, bind_of_ok]
  · exact hheaders
  · simp [TaskMessage.wire, hid, htopic, MessageBody.bytes, attemptMessage, dispatchMessage,
      e.nonempty]

/-- The ID of an attempt is free, or taken by this very attempt. -/
theorem HoldsAttempts.publish (h : HoldsAttempts e b) (hopen : b.closed = false)
    (hr : validIdentifier r = true) (hk : validIdentifier k = true) (n : Int)
    (hheaders : checkAll Broker.validHeader headers.entries = .ok ()) :
    (b.messages.get? (attemptMessage r k n).id = none ∧
      b.publish none ((attemptMessage r k n).wire e headers) =
        (b.store ((attemptMessage r k n).wire e headers), .ok ())) ∨
    (∃ headers', b.messages.get? (attemptMessage r k n).id =
        some ((attemptMessage r k n).wire e headers')) ∧
      b.publish none ((attemptMessage r k n).wire e headers) = (b, .ok ()) := by
  have hid : ((attemptMessage r k n).wire e headers).id = (attemptMessage r k n).id := rfl
  unfold Broker.InMemoryBroker.publish
  simp only [wire_validate hr hk n hheaders, hopen, Bool.false_eq_true, if_false, hid]
  cases hget : b.messages.get? (attemptMessage r k n).id with
  | none => exact .inl ⟨rfl, rfl⟩
  | some x =>
    obtain ⟨hx, r', k', n', headers', rfl⟩ := h _ x hget
    obtain ⟨rfl, rfl, rfl⟩ := attemptID_injective hx
    exact .inr ⟨⟨headers', rfl⟩, if_pos ⟨rfl, rfl⟩⟩

theorem HoldsAttempts.store (h : HoldsAttempts e b) (r : RunID) (k : TaskID) (n : Int)
    (headers : KeyMap GoString GoString) :
    HoldsAttempts e (b.store ((attemptMessage r k n).wire e headers)) := by
  intro id x hx
  rcases KeyMap.get?_insert_cases hx with ⟨rfl, rfl⟩ | ⟨-, hx⟩
  · exact ⟨rfl, r, k, n, headers, rfl⟩
  · exact h id x hx

end Publications

/-- A publication by `publishReadyTasks`. -/
structure Publication where
  runID : RunID
  taskID : TaskID
  number : Int
  headers : KeyMap GoString GoString

structure Publication.Valid (p : Publication) : Prop where
  runID : validIdentifier p.runID = true
  taskID : validIdentifier p.taskID = true
  headers : checkAll Broker.validHeader p.headers.entries = .ok ()

/-- The broker after publications with a live context, and what each of them returned. -/
def publishAll (e : DispatchEncoding) (b : Broker.InMemoryBroker) :
    List Publication → Broker.InMemoryBroker × List (Except Broker.BrokerError Unit)
  | [] => (b, [])
  | p :: rest =>
    let (b, result) := b.publish none ((attemptMessage p.runID p.taskID p.number).wire e p.headers)
    let (b, results) := publishAll e b rest
    (b, result :: results)

/-- However often and in whatever order attempts of any runs and tasks are published to an
open broker, no publication finds its ID taken by a different message. -/
theorem publish_attempts_ok (e : DispatchEncoding) (publications : List Publication)
    (b : Broker.InMemoryBroker) (hopen : b.closed = false) (h : HoldsAttempts e b)
    (hvalid : ∀ p ∈ publications, p.Valid) :
    (publishAll e b publications).2 = publications.map (fun _ => .ok ()) ∧
      (publishAll e b publications).1.closed = false ∧
      HoldsAttempts e (publishAll e b publications).1 := by
  induction publications generalizing b with
  | nil => exact ⟨rfl, hopen, h⟩
  | cons p rest ih =>
    obtain ⟨hp, hrest⟩ := List.forall_mem_cons.mp hvalid
    simp only [publishAll]
    rcases h.publish hopen hp.runID hp.taskID p.number hp.headers with ⟨-, heq⟩ | ⟨-, heq⟩
    · obtain ⟨hresults, hend⟩ := ih (b.store _) hopen
        (h.store p.runID p.taskID p.number p.headers) hrest
      rw [heq]
      exact ⟨congrArg _ hresults, hend⟩
    · obtain ⟨hresults, hend⟩ := ih b hopen h hrest
      rw [heq]
      exact ⟨congrArg _ hresults, hend⟩

def sampleEncoding : DispatchEncoding := ⟨fun d => 0x7B :: d.attemptID, fun _ => nofun⟩

def samplePublication (n : Int) : Publication := ⟨ascii "r", ascii "a", n, ∅⟩

theorem sample_attempts_published :
    (publishAll sampleEncoding {}
      [samplePublication 1, samplePublication 2, samplePublication 1]).2 =
        [.ok (), .ok (), .ok ()] := by
  refine (publish_attempts_ok sampleEncoding _ {} rfl (fun _ _ hx => by cases hx) ?_).1
  have hp : ∀ n, (samplePublication n).Valid := fun _ => ⟨rfl, rfl, rfl⟩
  simp [hp]

/-! ## The queue of a run -/

def taskSubscription (runID : RunID) : Broker.Subscription :=
  ⟨ascii "forgeflow-run-" ++ hexEncode (sha256 runID), taskTopic runID⟩

/-- The state of the subscription is that of the queue. -/
structure Views (s : Broker.MemorySubscription) (m : MemoryBroker) : Prop where
  queued : s.queued = m.queued
  inFlight : s.inFlight = m.inFlight
  acked : s.acked = m.acked
  deliveryCount : s.deliveryCount = m.deliveryCount

/-- The shared broker is open and holds what the broker of the run holds. No other run has the
topic of the run. -/
structure Shows (e : DispatchEncoding) (runID : RunID) (m : MemoryBroker)
    (b : Broker.InMemoryBroker) : Prop where
  kept : b.Kept
  opened : b.closed = false
  attempts : HoldsAttempts e b
  own : ∀ id r k n headers, b.messages.get? id = some ((attemptMessage r k n).wire e headers) →
    taskTopic r = taskTopic runID → r = runID
  messages : ∀ id message, m.messages.get? id = some message ↔ ∃ k n headers,
    message = attemptMessage runID k n ∧ b.messages.get? id = some (message.wire e headers)
  subscription : Views (b.subscriptionLocked (taskSubscription runID)) m

section Queue

variable {e : DispatchEncoding} {runID : RunID} {m m' : MemoryBroker} {b : Broker.InMemoryBroker}
  {s : Broker.MemorySubscription} {key : Broker.Subscription} {d : Delivery}
  {headers : KeyMap GoString GoString}

theorem shows_initial (e : DispatchEncoding) (runID : RunID) : Shows e runID {} {} where
  kept := Broker.System.sound_initial.kept
  opened := rfl
  attempts := nofun
  own := nofun
  messages := by simp
  subscription := ⟨rfl, rfl, rfl, rfl⟩

theorem Views.enqueue (h : Views s m)
    (hset : ∀ id, s.queuedSet.contains id = true ↔ id ∈ s.queued) (id : MessageID) :
    Views (Broker.enqueueMemoryMessage s id) (m.enqueue id) := by
  have hcontains : s.queuedSet.contains id = s.queued.contains id := by
    rw [Bool.eq_iff_iff, hset, List.contains_iff_mem]
  unfold Broker.enqueueMemoryMessage MemoryBroker.enqueue
  rw [← h.acked, ← h.queued, ← h.inFlight, hcontains]
  cases s.acked.contains id <;> cases s.queued.contains id <;> cases s.inFlight.contains id
  all_goals first
    | exact h
    | exact ⟨rfl, rfl, rfl, h.deliveryCount⟩

theorem enqueueAll_inFlight (ids : List MessageID) (s : Broker.MemorySubscription) :
    (ids.foldl Broker.enqueueMemoryMessage s).inFlight = s.inFlight := by
  induction ids generalizing s with
  | nil => rfl
  | cons id rest ih =>
    rw [List.foldl_cons, ih]
    unfold Broker.enqueueMemoryMessage
    split
    · rfl
    · split
      · rfl
      · split <;> rfl

/-- The delivery in the hands of a worker. -/
def Delivery.handle (e : DispatchEncoding) (runID : RunID) (headers : KeyMap GoString GoString)
    (d : Delivery) : Broker.MemoryDelivery :=
  ⟨taskSubscription runID, d.message.wire e headers, d.count⟩

/-- A delivery is settled in both brokers, or was settled before. -/
def SettlesAs (e : DispatchEncoding) (runID : RunID) (b : Broker.InMemoryBroker)
    (result : Except DeliveryError MemoryBroker)
    (shared : Broker.InMemoryBroker × Except Broker.BrokerError Unit) : Prop :=
  (∃ m' b', result = .ok m' ∧ shared = (b', .ok ()) ∧ Shows e runID m' b') ∨
    result = .error .settled ∧ shared = (b, .error .settled)

namespace Shows

/-- The subscription of the run is replaced. -/
theorem put (h : Shows e runID m b)
    (hs : Broker.Shares (· ∈ b.published (taskTopic runID)) s) (hviews : Views s m')
    (hm : m'.messages = m.messages) : Shows e runID m' (b.with (taskSubscription runID) s) where
  kept := h.kept.with hs
  opened := h.opened
  attempts := h.attempts
  own := h.own
  messages := by
    rw [hm]
    exact h.messages
  subscription := by
    rw [Broker.locked_with, if_pos rfl]
    exact hviews

theorem store (h : Shows e runID m b) {k : TaskID} {n : Int}
    (hnew : b.messages.get? (attemptMessage runID k n).id = none) :
    Shows e runID
      ({ m with
          messages := m.messages.insert (attemptMessage runID k n).id (attemptMessage runID k n)
        }.enqueue (attemptMessage runID k n).id)
      (b.store ((attemptMessage runID k n).wire e headers)) where
  kept := h.kept.store hnew
  opened := h.opened
  attempts := h.attempts.store runID k n headers
  own id r k' n' headers' hget htopic := by
    rcases KeyMap.get?_insert_cases hget with ⟨-, heq⟩ | ⟨-, hget⟩
    · exact (attemptID_injective (congrArg Broker.TaskMessage.id heq)).1
    · exact h.own id r k' n' headers' hget htopic
  messages id message := by
    rw [MemoryBroker.enqueue_messages]
    by_cases hid : id = (attemptMessage runID k n).id
    · subst hid
      rw [KeyMap.get?_insert_self]
      constructor
      · rintro ⟨⟩
        exact ⟨k, n, headers, rfl, KeyMap.get?_insert_self _ _ _⟩
      · rintro ⟨k', n', headers', rfl, hget⟩
        have heq := (KeyMap.get?_insert_self b.messages _ _).symm.trans hget
        obtain ⟨-, rfl, rfl⟩ :=
          attemptID_injective (congrArg Broker.TaskMessage.id (Option.some.inj heq))
        rfl
    · rw [KeyMap.get?_insert_ne _ _ hid, h.messages]
      simp only [Broker.InMemoryBroker.store, TaskMessage.wire, KeyMap.get?_insert_ne _ _ hid]
  subscription := by
    have htopic : (taskSubscription runID).topic =
        ((attemptMessage runID k n).wire e headers).topic := rfl
    rw [Broker.locked_store, if_pos htopic]
    have hv := h.subscription
    have hviews : Views (b.subscriptionLocked (taskSubscription runID)) { m with
        messages := m.messages.insert (attemptMessage runID k n).id (attemptMessage runID k n) } :=
      ⟨hv.queued, hv.inFlight, hv.acked, hv.deliveryCount⟩
    exact hviews.enqueue (h.kept.locked _).queuedSet _

/-- An attempt of the run is published to both. -/
theorem publish (h : Shows e runID m b) {k : TaskID} (hr : validIdentifier runID = true)
    (hk : validIdentifier k = true) (n : Int)
    (hheaders : checkAll Broker.validHeader headers.entries = .ok ()) :
    ∃ m' b', m.publish (attemptMessage runID k n) = .ok m' ∧
      b.publish none ((attemptMessage runID k n).wire e headers) = (b', .ok ()) ∧
        Shows e runID m' b' := by
  unfold MemoryBroker.publish
  rw [bind_of_ok (attemptMessage_validate hr hk n)]
  rcases h.attempts.publish h.opened hr hk n hheaders with
    ⟨hnone, hpublish⟩ | ⟨⟨headers', hsome⟩, hpublish⟩
  · have hnone' : m.messages.get? (attemptMessage runID k n).id = none := by
      rw [Option.eq_none_iff_forall_ne_some]
      intro message hget
      obtain ⟨_, _, _, -, hsome⟩ := (h.messages _ _).mp hget
      rw [hnone] at hsome
      cases hsome
    rw [hnone']
    exact ⟨_, _, rfl, hpublish, h.store hnone⟩
  · rw [(h.messages _ _).mpr ⟨k, n, headers', rfl, hsome⟩]
    exact ⟨m, b, if_pos ⟨rfl, rfl⟩, hpublish, h⟩

/-- A pass of `Receive` waits for a message where the queue is empty, and else gives the first
message of the queue. -/
theorem receive (h : Shows e runID m b) :
    (m.receive = none ∧ ∃ b', b.examine (taskSubscription runID) = (b', none) ∧
      Shows e runID m b') ∨
    ∃ d m' b' headers, m.receive = some (d, m') ∧ 0 < d.count ∧
      b.examine (taskSubscription runID) = (b', some (.ok (d.handle e runID headers))) ∧
        Shows e runID m' b' := by
  have hlocked := h.kept.locked (taskSubscription runID)
  have hv := h.subscription
  rcases Broker.examine_cases b (taskSubscription runID) with
    ⟨hclosed, -⟩ | ⟨-, ⟨hq, hexamine⟩ | ⟨id, rest, hq, hexamine⟩⟩
  · rw [h.opened] at hclosed
    cases hclosed
  · refine .inl ⟨?_, _, hexamine, h.put hlocked hv rfl⟩
    rw [MemoryBroker.receive, ← hv.queued, hq]
  · -- what is queued was published to the topic, so by this run
    have hpublished := (hlocked.covers id).mpr (.inl (hq ▸ List.mem_cons_self))
    obtain ⟨x, hx, htopic⟩ := (h.kept.topics _ id).mp hpublished
    obtain ⟨-, r, k, n, headers, rfl⟩ := h.attempts id x hx
    obtain rfl := h.own id r k n headers hx htopic
    have hmessage := (h.messages id _).mpr ⟨k, n, headers, rfl, hx⟩
    obtain ⟨count, hcount⟩ : ∃ count, (m.deliveryCount.get? id).getD 0 + 1 = count := ⟨_, rfl⟩
    have hreceive : m.receive = some (⟨attemptMessage r k n, count⟩, { m with
        queued := rest
        inFlight := m.inFlight.insert id count
        deliveryCount := m.deliveryCount.insert id count }) := by
      rw [MemoryBroker.receive, ← hv.queued, hq]
      simp only [hmessage, hcount, Option.map_some]
    refine .inr ⟨_, _, _, headers, hreceive, hcount ▸ Nat.succ_pos _, ?_,
      h.put (hlocked.deliver hq _) ⟨rfl, congrArg (KeyMap.insert · id _) hv.inFlight, hv.acked,
        congrArg (KeyMap.insert · id _) hv.deliveryCount⟩ rfl⟩
    rw [hexamine]
    simp only [Broker.InMemoryBroker.deliver, hx, hv.deliveryCount, hcount]
    rfl

/-- A delivery is active in both or in neither. -/
theorem settle (h : Shows e runID m b) (hd : 0 < d.count)
    (update : Broker.MemorySubscription → Broker.MemorySubscription) :
    (m.active d = true ∧ m.inFlight.contains d.message.id = true ∧
      b.settle update none (d.handle e runID headers) =
        (b.with (taskSubscription runID) (update (b.subscriptionLocked (taskSubscription runID))),
          .ok ())) ∨
    m.active d = false ∧
      b.settle update none (d.handle e runID headers) = (b, .error .settled) := by
  have hv := h.subscription
  rcases Broker.settle_cases b update none (d := d.handle e runID headers) hd with
    ⟨err, hsettle, herr⟩ | ⟨s, hget, hin, -, hsettle⟩
  · obtain ⟨rfl, hstale⟩ := herr h.opened rfl
    refine .inr ⟨decide_eq_false fun hactive => hstale ?_, hsettle⟩
    cases hsub : b.subscriptions.get? (taskSubscription runID) with
    | none =>
      -- nothing is in flight in a subscription that was not made yet
      have hempty := hv.inFlight
      rw [Broker.InMemoryBroker.subscriptionLocked, hsub, enqueueAll_inFlight] at hempty
      rw [← hempty] at hactive
      exact absurd hd (hactive ▸ Nat.lt_irrefl 0)
    | some s =>
      refine ⟨s, hsub, ?_⟩
      have hin := hv.inFlight
      rw [Broker.locked_of_get? hsub] at hin
      rw [hin]
      cases hcount : m.inFlight.get? d.message.id with
      | none =>
        rw [hcount] at hactive
        exact absurd hd (hactive ▸ Nat.lt_irrefl 0)
      | some count =>
        rw [hcount] at hactive
        exact hcount.trans (congrArg some hactive)
  · have hlocked : b.subscriptionLocked (taskSubscription runID) = s := Broker.locked_of_get? hget
    rw [hlocked] at hv ⊢
    have hin : m.inFlight.get? d.message.id = some d.count := hv.inFlight ▸ hin
    refine .inl ⟨?_, KeyMap.contains_of_get? hin, hsettle⟩
    simp [MemoryBroker.active, hin]

/-- `Ack`, `Nack` and `Progress` come out the same. -/
theorem settles (h : Shows e runID m b) (hd : 0 < d.count) :
    SettlesAs e runID b (m.ack d) (b.ack none (d.handle e runID headers)) ∧
      SettlesAs e runID b (m.nack d) (b.nack none (d.handle e runID headers)) ∧
      SettlesAs e runID b ((m.progress d).map fun _ => m)
        (b.progress none (d.handle e runID headers)) := by
  have hv := h.subscription
  have hlocked := h.kept.locked (taskSubscription runID)
  have herase := congrArg (KeyMap.erase · d.message.id) hv.inFlight
  unfold MemoryBroker.ack MemoryBroker.nack MemoryBroker.progress
  refine ⟨?_, ?_, ?_⟩
  · rcases h.settle hd _ with ⟨hactive, hin, hsettle⟩ | ⟨hstale, hsettle⟩
    · exact .inl ⟨_, _, if_pos hactive, hsettle, h.put (hlocked.ack (hv.inFlight ▸ hin))
        ⟨hv.queued, herase, congrArg (KeyMap.insert · d.message.id ()) hv.acked,
          hv.deliveryCount⟩ rfl⟩
    · exact .inr ⟨by rw [hstale]; rfl, hsettle⟩
  · rcases h.settle hd _ with ⟨hactive, hin, hsettle⟩ | ⟨hstale, hsettle⟩
    · have hviews : Views { b.subscriptionLocked (taskSubscription runID) with
          inFlight := (b.subscriptionLocked (taskSubscription runID)).inFlight.erase d.message.id }
          { m with inFlight := m.inFlight.erase d.message.id } :=
        ⟨hv.queued, herase, hv.acked, hv.deliveryCount⟩
      exact .inl ⟨_, _, if_pos hactive, hsettle, h.put (hlocked.nack (hv.inFlight ▸ hin))
        (hviews.enqueue hlocked.queuedSet _) (MemoryBroker.enqueue_messages _ _)⟩
    · exact .inr ⟨by rw [hstale]; rfl, hsettle⟩
  · rcases h.settle hd id with ⟨hactive, -, hsettle⟩ | ⟨hstale, hsettle⟩
    · exact .inl ⟨_, _, by rw [hactive]; rfl, hsettle, h.put hlocked hv rfl⟩
    · exact .inr ⟨by rw [hstale]; rfl, hsettle⟩

/-- What another run publishes does not reach the run. -/
theorem store_other (h : Shows e runID m b) {r : RunID} (hr : taskTopic r ≠ taskTopic runID)
    {k : TaskID} {n : Int} (hnew : b.messages.get? (attemptMessage r k n).id = none) :
    Shows e runID m (b.store ((attemptMessage r k n).wire e headers)) where
  kept := h.kept.store hnew
  opened := h.opened
  attempts := h.attempts.store r k n headers
  own id r' k' n' headers' hget htopic := by
    rcases KeyMap.get?_insert_cases hget with ⟨-, heq⟩ | ⟨-, hget⟩
    · obtain ⟨rfl, -⟩ := attemptID_injective (congrArg Broker.TaskMessage.id heq)
      exact absurd htopic hr
    · exact h.own id r' k' n' headers' hget htopic
  messages id message := by
    rw [h.messages]
    refine exists_congr fun k' => exists_congr fun n' => exists_congr fun headers' =>
      and_congr_right ?_
    rintro rfl
    by_cases hid : id = (attemptMessage r k n).id
    · subst hid
      rw [hnew]
      refine ⟨nofun, fun hget => absurd ?_ hr⟩
      have heq := (KeyMap.get?_insert_self b.messages _ _).symm.trans hget
      exact congrArg Broker.TaskMessage.topic (Option.some.inj heq)
    · simp only [Broker.InMemoryBroker.store, TaskMessage.wire, KeyMap.get?_insert_ne _ _ hid]
  subscription := by
    have hne : (taskSubscription runID).topic ≠ ((attemptMessage r k n).wire e headers).topic :=
      Ne.symm hr
    rw [Broker.locked_store, if_neg hne]
    exact h.subscription

/-- Nor does what happens to another subscription. -/
theorem with_other (h : Shows e runID m b) (hkey : key ≠ taskSubscription runID)
    (hs : Broker.Shares (· ∈ b.published key.topic) s) : Shows e runID m (b.with key s) where
  kept := h.kept.with hs
  opened := h.opened
  attempts := h.attempts
  own := h.own
  messages := h.messages
  subscription := by
    rw [Broker.locked_with, if_neg (Ne.symm hkey)]
    exact h.subscription

end Shows

end Queue

end ForgeFlow.Execution
