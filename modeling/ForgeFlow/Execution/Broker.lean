import ForgeFlow.Base.Sha256
import ForgeFlow.Execution.Errors

/-!
# Task messages and the in-memory broker

A message carries the JSON document of a dispatch; encoding replaces whatever is
not UTF-8, so a body is the dispatch it decodes to. All schedulers of a run share
one topic and one consumer group, so the broker keeps one queue.
-/

namespace ForgeFlow.Execution

open ForgeFlow.Base ForgeFlow.Workflow

abbrev MessageID := GoString
abbrev Topic := GoString

structure TaskDispatch where
  runID : RunID
  taskID : TaskID
  taskRunID : TaskRunID
  attemptID : AttemptID
  deriving DecidableEq

/-- The dispatch as it comes out of its JSON document. -/
def TaskDispatch.marshal (dispatch : TaskDispatch) : TaskDispatch where
  runID := toValidUTF8 dispatch.runID
  taskID := toValidUTF8 dispatch.taskID
  taskRunID := toValidUTF8 dispatch.taskRunID
  attemptID := toValidUTF8 dispatch.attemptID

inductive MessageBody where
  | empty
  | json (dispatch : TaskDispatch)
  | other (reason : GoString)
  deriving DecidableEq

structure TaskMessage where
  id : MessageID
  topic : Topic
  body : MessageBody
  deriving DecidableEq

structure Delivery where
  message : TaskMessage
  count : Nat
  deriving DecidableEq

def TaskMessage.validate (message : TaskMessage) : Except GoString Unit :=
  firstError [
    (!validIdentifier message.id, describe [("invalid broker message ID ", message.id)]),
    (!validIdentifier message.topic, describe [("invalid broker topic ", message.topic)]),
    (message.body = .empty, ascii "invalid broker body: must not be empty")]

def decodeTaskDispatch (message : TaskMessage) : Except GoString TaskDispatch :=
  message.validate.bind fun _ =>
    match message.body with
    | .json dispatch =>
      (firstError [
        (!validIdentifier dispatch.runID || !validIdentifier dispatch.taskID ||
          !validIdentifier dispatch.taskRunID || !validIdentifier dispatch.attemptID,
          ascii "decode task dispatch: identity is invalid")]).bind fun _ => .ok dispatch
    | .other e => .error (ascii "decode task dispatch: " ++ e)
    | .empty => .error (ascii "decode task dispatch: unexpected end of JSON input")

def taskTopic (runID : RunID) : Topic := ascii "run-" ++ hexEncode (sha256 runID)

/-- The message `publishReadyTasks` makes for an attempt. -/
def dispatchMessage (dispatch : TaskDispatch) : TaskMessage where
  id := dispatch.attemptID
  topic := taskTopic dispatch.runID
  body := .json dispatch.marshal

/-- The message for attempt `n` of a task. -/
def attemptMessage (runID : RunID) (taskID : TaskID) (n : Int) : TaskMessage :=
  dispatchMessage ⟨runID, taskID, taskRunIDFor runID taskID,
    attemptIDFor (taskRunIDFor runID taskID) n⟩

/-- What a call on a delivery can report. -/
inductive DeliveryError where
  | settled
  | failed (text : GoString)
  deriving DecidableEq

def DeliveryError.text : DeliveryError → GoString
  | .settled => ascii "task delivery is no longer active"
  | .failed text => text

structure MemoryBroker where
  messages : KeyMap MessageID TaskMessage := ∅
  queued : List MessageID := []
  inFlight : KeyMap MessageID Nat := ∅
  acked : KeyMap MessageID Unit := ∅
  deliveryCount : KeyMap MessageID Nat := ∅

namespace MemoryBroker

def enqueue (broker : MemoryBroker) (messageID : MessageID) : MemoryBroker :=
  if broker.acked.contains messageID || broker.queued.contains messageID ||
      broker.inFlight.contains messageID then broker
  else { broker with queued := broker.queued ++ [messageID] }

def publish (broker : MemoryBroker) (message : TaskMessage) : Except GoString MemoryBroker :=
  message.validate.bind fun _ =>
    match broker.messages.get? message.id with
    | some existing =>
      if existing.topic = message.topic ∧ existing.body = message.body then .ok broker
      else .error (describe [("broker message ", message.id)] " already exists with different content")
    | none =>
      .ok ({ broker with messages := broker.messages.insert message.id message }.enqueue message.id)

/-- The next delivery, if one is queued; `Receive` waits until there is. -/
def receive (broker : MemoryBroker) : Option (Delivery × MemoryBroker) :=
  match broker.queued with
  | [] => none
  | messageID :: rest =>
    (broker.messages.get? messageID).map fun message =>
      let count := (broker.deliveryCount.get? messageID).getD 0 + 1
      (⟨message, count⟩,
        { broker with
          queued := rest
          inFlight := broker.inFlight.insert messageID count
          deliveryCount := broker.deliveryCount.insert messageID count })

/-- The delivery is the one the queue waits for; a missing entry counts zero. -/
def active (broker : MemoryBroker) (delivery : Delivery) : Bool :=
  (broker.inFlight.get? delivery.message.id).getD 0 = delivery.count

def ack (broker : MemoryBroker) (delivery : Delivery) : Except DeliveryError MemoryBroker :=
  if broker.active delivery then
    .ok { broker with
      inFlight := broker.inFlight.erase delivery.message.id
      acked := broker.acked.insert delivery.message.id () }
  else .error .settled

def nack (broker : MemoryBroker) (delivery : Delivery) : Except DeliveryError MemoryBroker :=
  if broker.active delivery then
    .ok ({ broker with
      inFlight := broker.inFlight.erase delivery.message.id }.enqueue delivery.message.id)
  else .error .settled

def progress (broker : MemoryBroker) (delivery : Delivery) : Except DeliveryError Unit :=
  if broker.active delivery then .ok () else .error .settled

end MemoryBroker

/-! ## A published attempt is recognised again -/

theorem validIdentifier_taskRunIDFor {r : RunID} {k : TaskID} (hr : validIdentifier r = true)
    (hk : validIdentifier k = true) : validIdentifier (taskRunIDFor r k) = true := by
  have hlen : (runes (formatNat r.length)).all plainRune = true :=
    all_plainRune_of_printable fun b hb => formatInt_printable (n := r.length) hb
  have hsep : plainRune (0x3A : UInt8).toNat = true := by decide
  have hc : (0x3A : UInt8) < 0x80 := by decide
  have hsplit : taskRunIDFor r k = formatNat r.length ++ 0x3A :: (r ++ 0x3A :: k) := by
    simp [taskRunIDFor, ascii]
  simp only [validIdentifier, plainIdentifier_eq, Bool.and_eq_true] at hr hk ⊢
  refine ⟨by simp [taskRunIDFor, ascii], ?_⟩
  rw [hsplit, all_runes_append_ascii _ _ _ hc, all_runes_append_ascii _ _ _ hc]
  simp only [hlen, hsep, hr.2, hk.2, Bool.and_self]

theorem validIdentifier_taskTopic (r : RunID) : validIdentifier (taskTopic r) = true := by
  have hword : ∀ b ∈ ascii "run-", 0x20 < b ∧ b < 0x7F := by decide +kernel
  have hprint : ∀ b ∈ taskTopic r, 0x20 < b ∧ b < 0x7F := by
    intro b hb
    rcases List.mem_append.mp hb with hb | hb
    · exact hword b hb
    · exact hexEncode_printable hb
  simp only [validIdentifier, plainIdentifier_eq, Bool.and_eq_true]
  exact ⟨by simp [taskTopic, ascii], all_plainRune_of_printable hprint⟩

theorem formatInt_ascii {n : Int} {b : UInt8} (h : b ∈ formatInt n) : b < 0x80 :=
  lt_trans (formatInt_printable h).2 (by decide)

theorem validUTF8_taskRunIDFor {r : RunID} {k : TaskID} (hr : validUTF8 r = true)
    (hk : validUTF8 k = true) : validUTF8 (taskRunIDFor r k) = true := by
  have hlen : validUTF8 (formatNat r.length) = true :=
    validUTF8_ascii fun b hb => formatInt_ascii (n := r.length) hb
  have hc : (0x3A : UInt8) < 0x80 := by decide
  have hsplit : taskRunIDFor r k = formatNat r.length ++ 0x3A :: (r ++ 0x3A :: k) := by
    simp [taskRunIDFor, ascii]
  rw [hsplit, validUTF8_append_ascii _ _ hc, validUTF8_append_ascii _ _ hc, hlen, hr, hk]
  rfl

theorem validUTF8_attemptIDFor {r : TaskRunID} (hr : validUTF8 r = true) (n : Int) :
    validUTF8 (attemptIDFor r n) = true := by
  have hnum : validUTF8 (ascii "attempt:" ++ formatInt n) = true := by
    apply validUTF8_ascii
    intro b hb
    rcases List.mem_append.mp hb with hb | hb
    · exact (by decide +kernel : ∀ b ∈ ascii "attempt:", b < 0x80) b hb
    · exact formatInt_ascii hb
  have hc : (0x3A : UInt8) < 0x80 := by decide
  have hsplit : attemptIDFor r n = r ++ 0x3A :: (ascii "attempt:" ++ formatInt n) := by
    simp [attemptIDFor, ascii]
  rw [hsplit, validUTF8_append_ascii _ _ hc, hr, hnum]
  rfl

@[simp] theorem attemptMessage_id (r : RunID) (k : TaskID) (n : Int) :
    (attemptMessage r k n).id = attemptIDFor (taskRunIDFor r k) n := rfl

@[simp] theorem attemptMessage_topic (r : RunID) (k : TaskID) (n : Int) :
    (attemptMessage r k n).topic = taskTopic r := rfl

theorem attemptID_injective {r r' : RunID} {k k' : TaskID} {n n' : Int}
    (h : attemptIDFor (taskRunIDFor r k) n = attemptIDFor (taskRunIDFor r' k') n') :
    r = r' ∧ k = k' ∧ n = n' := by
  obtain ⟨hk, hn⟩ := attemptIDFor_injective h
  obtain ⟨hr, hk⟩ := taskRunIDFor_injective hk
  exact ⟨hr, hk, hn⟩

/-- Whatever punctuation, digits or delimiters the parts contain, an identifier
stands for one run, one task and one attempt. -/
theorem execution_identifiers_unambiguous (r r' : RunID) (t t' : TaskID) (n n' : Int) :
    (taskRunIDFor r t = taskRunIDFor r' t' ↔ r = r' ∧ t = t') ∧
      (attemptIDFor (taskRunIDFor r t) n = attemptIDFor (taskRunIDFor r' t') n' ↔
        r = r' ∧ t = t' ∧ n = n') ∧
      ((attemptMessage r t n).id = (attemptMessage r' t' n').id ↔ r = r' ∧ t = t' ∧ n = n') := by
  refine ⟨⟨taskRunIDFor_injective, ?_⟩, ⟨attemptID_injective, ?_⟩, ⟨attemptID_injective, ?_⟩⟩
  · rintro ⟨rfl, rfl⟩
    rfl
  · rintro ⟨rfl, rfl, rfl⟩
    rfl
  · rintro ⟨rfl, rfl, rfl⟩
    rfl

theorem attemptMessage_validate {r : RunID} {k : TaskID} (hr : validIdentifier r = true)
    (hk : validIdentifier k = true) (n : Int) : (attemptMessage r k n).validate = .ok () := by
  simp [TaskMessage.validate, validIdentifier_attemptIDFor hr hk, validIdentifier_taskTopic,
    attemptMessage, dispatchMessage]

/-- With identifiers in UTF-8 nothing is lost in the JSON document. -/
theorem decode_attemptMessage {r : RunID} {k : TaskID} (hr : validIdentifier r = true)
    (hk : validIdentifier k = true) (hur : validUTF8 r = true) (huk : validUTF8 k = true)
    (n : Int) : decodeTaskDispatch (attemptMessage r k n) =
      .ok ⟨r, k, taskRunIDFor r k, attemptIDFor (taskRunIDFor r k) n⟩ := by
  have htask := validUTF8_taskRunIDFor hur huk
  have hattempt := validUTF8_attemptIDFor htask n
  rw [decodeTaskDispatch, bind_of_ok (attemptMessage_validate hr hk n)]
  simp only [attemptMessage, dispatchMessage, TaskDispatch.marshal, toValidUTF8_of_valid hur,
    toValidUTF8_of_valid huk, toValidUTF8_of_valid htask, toValidUTF8_of_valid hattempt]
  rw [bind_of_ok]
  simp [hr, hk, validIdentifier_taskRunIDFor hr hk, validIdentifier_attemptIDFor hr hk]

end ForgeFlow.Execution
