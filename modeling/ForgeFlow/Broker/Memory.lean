import ForgeFlow.Base.GoString
import ForgeFlow.Base.Checks
import ForgeFlow.Base.KeyMap
import Mathlib.Data.Prod.Lex

/-!
# The in-memory task broker

`InMemoryBroker` with its topics and subscriptions. Every section under the mutex is
one function; a call of `Receive` goes through several of them and waits for the
notify channel in between, so calls of `Receive` are kept with the phase they are in.
Messages are values here, so `cloneMessage` has nothing to do.
-/

namespace ForgeFlow.Broker

open ForgeFlow.Base

abbrev MessageID := GoString
abbrev Topic := GoString
abbrev ConsumerID := GoString

structure TaskMessage where
  id : MessageID := []
  topic : Topic := []
  body : List UInt8 := []
  headers : KeyMap GoString GoString := ∅
  deriving DecidableEq

/-- A subscription, and the key under which the broker keeps its state. -/
structure Subscription where
  consumerID : ConsumerID
  topic : Topic
  deriving DecidableEq

instance : LinearOrder Subscription :=
  LinearOrder.lift' (fun s => toLex (s.consumerID, s.topic)) fun s s' h => by
    cases s
    cases s'
    cases h
    rfl

structure ValidationError where
  field : String
  value : GoString := []
  reason : String := ""
  deriving DecidableEq

inductive BrokerError where
  | context (text : GoString)
  | validation (error : ValidationError)
  | closed
  | settled
  | conflict (messageID : MessageID)
  deriving DecidableEq

def ValidationError.text (e : ValidationError) : GoString :=
  if e.reason ≠ "" then ascii "invalid broker " ++ ascii e.field ++ ascii ": " ++ ascii e.reason
  else ascii "invalid broker " ++ ascii e.field ++ ascii " " ++ quote e.value

def BrokerError.text : BrokerError → GoString
  | .context text => text
  | .validation error => error.text
  | .closed => ascii "task broker is closed"
  | .settled => ascii "task delivery is no longer active"
  | .conflict messageID =>
    ascii "broker message " ++ quote messageID ++ ascii " already exists with different content"

def validIdentifier (identifier : GoString) : Bool := plainIdentifier identifier

/-- A byte of a header name; each is its own lower case. -/
def headerByte (b : UInt8) : Bool :=
  (0x61 ≤ b && b ≤ 0x7A) || (0x30 ≤ b && b ≤ 0x39) || (ascii "!#$%&'*+-.^_`|~").contains b

def validHeaderName (name : GoString) : Bool := name ≠ [] && name.all headerByte

def validHeader (header : GoString × GoString) : Except ValidationError Unit :=
  firstError [
    (!validHeaderName header.1, { field := "header name", value := header.1 }),
    (header.2.contains 0x0D || header.2.contains 0x0A,
      { field := "header value", reason := "must not contain a line break" })]

def TaskMessage.validate (message : TaskMessage) : Except ValidationError Unit :=
  (firstError [
    (!validIdentifier message.id, { field := "message ID", value := message.id }),
    (!validIdentifier message.topic, { field := "topic", value := message.topic }),
    (message.body = [], { field := "body", reason := "must not be empty" })]).bind fun _ =>
      checkAll validHeader message.headers.entries

def Subscription.validate (subscription : Subscription) : Except ValidationError Unit :=
  firstError [
    (!validIdentifier subscription.consumerID,
      { field := "consumer ID", value := subscription.consumerID }),
    (!validIdentifier subscription.topic, { field := "topic", value := subscription.topic })]

/-- The state of a subscription; `notify` says whether the channel holds its token. -/
structure MemorySubscription where
  queued : List MessageID := []
  queuedSet : KeyMap MessageID Unit := ∅
  inFlight : KeyMap MessageID Nat := ∅
  acked : KeyMap MessageID Unit := ∅
  deliveryCount : KeyMap MessageID Nat := ∅
  notify : Bool := false
  deriving DecidableEq

structure InMemoryBroker where
  closed : Bool := false
  messages : KeyMap MessageID TaskMessage := ∅
  topics : KeyMap Topic (List MessageID) := ∅
  subscriptions : KeyMap Subscription MemorySubscription := ∅
  deriving DecidableEq

structure MemoryDelivery where
  key : Subscription
  message : TaskMessage
  count : Nat
  deriving DecidableEq

def signalMemorySubscription (subscription : MemorySubscription) : MemorySubscription :=
  { subscription with notify := true }

def enqueueMemoryMessage (subscription : MemorySubscription) (messageID : MessageID) :
    MemorySubscription :=
  if subscription.acked.contains messageID then subscription
  else if subscription.queuedSet.contains messageID then subscription
  else if subscription.inFlight.contains messageID then subscription
  else signalMemorySubscription { subscription with
    queued := subscription.queued ++ [messageID]
    queuedSet := subscription.queuedSet.insert messageID () }

namespace InMemoryBroker

/-- The IDs published to a topic, in their order. -/
def published (broker : InMemoryBroker) (topic : Topic) : List MessageID :=
  (broker.topics.get? topic).getD []

/-- The first publication of a message: every subscription of its topic gets it. -/
def store (broker : InMemoryBroker) (message : TaskMessage) : InMemoryBroker :=
  { broker with
    messages := broker.messages.insert message.id message
    topics := broker.topics.insert message.topic (broker.published message.topic ++ [message.id])
    subscriptions := broker.subscriptions.map fun key subscription =>
      if key.topic = message.topic then enqueueMemoryMessage subscription message.id
      else subscription }

/-- `Publish`; `contextErr` is what `contextError` makes of the context of the call. -/
def publish (broker : InMemoryBroker) (contextErr : Option GoString) (message : TaskMessage) :
    InMemoryBroker × Except BrokerError Unit :=
  match contextErr with
  | some text => (broker, .error (.context text))
  | none =>
    match message.validate with
    | .error e => (broker, .error (.validation e))
    | .ok _ =>
      if broker.closed then (broker, .error .closed)
      else
        match broker.messages.get? message.id with
        | some existing =>
          if existing.topic = message.topic ∧ existing.body = message.body then (broker, .ok ())
          else (broker, .error (.conflict message.id))
        | none => (broker.store message, .ok ())

def subscriptionLocked (broker : InMemoryBroker) (key : Subscription) : MemorySubscription :=
  match broker.subscriptions.get? key with
  | some subscription => subscription
  | none => (broker.published key.topic).foldl enqueueMemoryMessage {}

/-- Take the first queued message of a subscription. -/
def deliver (broker : InMemoryBroker) (key : Subscription) (subscription : MemorySubscription)
    (messageID : MessageID) (rest : List MessageID) : InMemoryBroker × MemoryDelivery :=
  let count := (subscription.deliveryCount.get? messageID).getD 0 + 1
  ({ broker with
      subscriptions := broker.subscriptions.insert key { subscription with
        queued := rest
        queuedSet := subscription.queuedSet.erase messageID
        deliveryCount := subscription.deliveryCount.insert messageID count
        inFlight := subscription.inFlight.insert messageID count } },
    { key := key, message := (broker.messages.get? messageID).getD {}, count := count })

/-- One pass of the loop of `Receive` under the mutex; without a result the call waits. -/
def examine (broker : InMemoryBroker) (key : Subscription) :
    InMemoryBroker × Option (Except BrokerError MemoryDelivery) :=
  if broker.closed then (broker, some (.error .closed))
  else
    let subscription := broker.subscriptionLocked key
    match subscription.queued with
    | messageID :: rest =>
      let (broker, delivery) := broker.deliver key subscription messageID rest
      (broker, some (.ok delivery))
    | [] => ({ broker with subscriptions := broker.subscriptions.insert key subscription }, none)

/-- What `Receive` checks before its loop. -/
def checkReceive (contextErr : Option GoString) (subscription : Subscription) :
    Except BrokerError Unit :=
  match contextErr with
  | some text => .error (.context text)
  | none => subscription.validate.mapError .validation

/-- A woken receiver has taken the token. -/
def consume (broker : InMemoryBroker) (key : Subscription) : Option InMemoryBroker :=
  match broker.subscriptions.get? key with
  | some subscription =>
    if subscription.notify then
      some { broker with
        subscriptions := broker.subscriptions.insert key { subscription with notify := false } }
    else none
  | none => none

/-- `Close`; a second call does nothing. -/
def close (broker : InMemoryBroker) : InMemoryBroker :=
  if broker.closed then broker
  else { broker with
    closed := true
    subscriptions := broker.subscriptions.map fun _ => signalMemorySubscription }

/-- The subscription of a delivery, if the delivery is the one in flight; a message that
is not in flight counts zero. -/
def active? (broker : InMemoryBroker) (delivery : MemoryDelivery) : Option MemorySubscription :=
  match broker.subscriptions.get? delivery.key with
  | none => none
  | some subscription =>
    if (subscription.inFlight.get? delivery.message.id).getD 0 ≠ delivery.count then none
    else some subscription

/-- What `Ack`, `Nack` and `Progress` have in common: an active delivery is settled by an
update of its subscription. -/
def settle (broker : InMemoryBroker) (update : MemorySubscription → MemorySubscription)
    (contextErr : Option GoString) (delivery : MemoryDelivery) :
    InMemoryBroker × Except BrokerError Unit :=
  match contextErr with
  | some text => (broker, .error (.context text))
  | none =>
    if broker.closed then (broker, .error .closed)
    else
      match broker.active? delivery with
      | none => (broker, .error .settled)
      | some subscription =>
        let subscriptions := broker.subscriptions.insert delivery.key (update subscription)
        ({ broker with subscriptions := subscriptions }, .ok ())

def ack (broker : InMemoryBroker) (contextErr : Option GoString) (delivery : MemoryDelivery) :
    InMemoryBroker × Except BrokerError Unit :=
  broker.settle (fun subscription => { subscription with
    inFlight := subscription.inFlight.erase delivery.message.id
    acked := subscription.acked.insert delivery.message.id () }) contextErr delivery

def nack (broker : InMemoryBroker) (contextErr : Option GoString) (delivery : MemoryDelivery) :
    InMemoryBroker × Except BrokerError Unit :=
  broker.settle (fun subscription => enqueueMemoryMessage { subscription with
    inFlight := subscription.inFlight.erase delivery.message.id } delivery.message.id)
    contextErr delivery

def progress (broker : InMemoryBroker) (contextErr : Option GoString)
    (delivery : MemoryDelivery) : InMemoryBroker × Except BrokerError Unit :=
  broker.settle id contextErr delivery

end InMemoryBroker

/-! ## The broker and its clients -/

/-- Where a call of `Receive` stands: about to lock the mutex, after a token was taken
from the channel or not; waiting for a token; or over. -/
inductive ReceivePhase where
  | examining (woken : Bool)
  | waiting
  | returned (result : Except BrokerError MemoryDelivery)
  deriving DecidableEq

structure ReceiveCall where
  subscription : Subscription
  phase : ReceivePhase
  deriving DecidableEq

/-- The broker with all calls of `Receive` so far, and the messages whose publication
was accepted, in their order. -/
structure System where
  broker : InMemoryBroker := {}
  calls : List ReceiveCall := []
  accepted : List TaskMessage := []
  deriving DecidableEq

inductive Label where
  | publish (contextErr : Option GoString) (message : TaskMessage)
  | receive (contextErr : Option GoString) (subscription : Subscription)
  | examine (call : Nat)
  | wake (call : Nat)
  | cancel (call : Nat) (err : GoString)
  | ack (contextErr : Option GoString) (delivery : MemoryDelivery)
  | nack (contextErr : Option GoString) (delivery : MemoryDelivery)
  | progress (contextErr : Option GoString) (delivery : MemoryDelivery)
  | close
  deriving DecidableEq

namespace System

/-- A call of `Receive` returned the delivery. -/
def handed (w : System) (delivery : MemoryDelivery) : Bool :=
  w.calls.any fun call => call.phase = .returned (.ok delivery)

def publish (w : System) (contextErr : Option GoString) (message : TaskMessage) : System :=
  match w.broker.publish contextErr message with
  | (broker, .ok _) => { w with broker := broker, accepted := w.accepted ++ [message] }
  | (broker, .error _) => { w with broker := broker }

def begin (contextErr : Option GoString) (subscription : Subscription) : ReceiveCall where
  subscription := subscription
  phase := match InMemoryBroker.checkReceive contextErr subscription with
    | .ok _ => .examining false
    | .error e => .returned (.error e)

/-- A delivery is settled by a client that got it. -/
def settle (w : System) (delivery : MemoryDelivery)
    (operation : InMemoryBroker × Except BrokerError Unit) : Option System :=
  if w.handed delivery then some { w with broker := operation.1 } else none

def examine (w : System) (i : Nat) : Option System :=
  match w.calls[i]? with
  | some ⟨subscription, .examining _⟩ =>
    let (broker, result) := w.broker.examine subscription
    some { w with
      broker := broker
      calls := w.calls.set i ⟨subscription, match result with
        | some result => .returned result
        | none => .waiting⟩ }
  | _ => none

def wake (w : System) (i : Nat) : Option System :=
  match w.calls[i]? with
  | some ⟨subscription, .waiting⟩ => (w.broker.consume subscription).map fun broker =>
    { w with broker := broker, calls := w.calls.set i ⟨subscription, .examining true⟩ }
  | _ => none

def cancel (w : System) (i : Nat) (err : GoString) : Option System :=
  match w.calls[i]? with
  | some ⟨subscription, .waiting⟩ =>
    some { w with calls := w.calls.set i ⟨subscription, .returned (.error (.context err))⟩ }
  | _ => none

def step (w : System) : Label → Option System
  | .publish contextErr message => some (w.publish contextErr message)
  | .receive contextErr subscription =>
    some { w with calls := w.calls ++ [begin contextErr subscription] }
  | .examine call => w.examine call
  | .wake call => w.wake call
  | .cancel call err => w.cancel call err
  | .ack contextErr delivery => w.settle delivery (w.broker.ack contextErr delivery)
  | .nack contextErr delivery => w.settle delivery (w.broker.nack contextErr delivery)
  | .progress contextErr delivery => w.settle delivery (w.broker.progress contextErr delivery)
  | .close => some { w with broker := w.broker.close }

end System

end ForgeFlow.Broker
