import ForgeFlow.Base.Transition
import ForgeFlow.Api.RunEvents

/-!
# Event streams and their notify channels

A stream tells its readers of new events by closing the channel it gave them and
making a new one. Channels are numbered in the order they are made, and every call of
`close` on one is recorded. Readers keep the sequence number of the last event they
have received, also over a broken connection.
-/

namespace ForgeFlow.Api

open ForgeFlow.Base ForgeFlow.Execution

structure NotifyingStream where
  latest : WorkflowRunSnapshot
  events : List RunEvent := []
  notify : Nat
  deriving DecidableEq

structure NotifyingBroker where
  streams : KeyMap RunID NotifyingStream := ∅
  closed : Bool := false
  /-- How many channels have been made. -/
  made : Nat := 0
  /-- The channels that were closed, in the order of the calls. -/
  closings : List Nat := []
  deriving DecidableEq

namespace NotifyingBroker

def observe (broker : NotifyingBroker) (snapshot : WorkflowRunSnapshot) : NotifyingBroker :=
  if broker.closed then broker
  else
    match broker.streams.get? snapshot.id with
    | none => { broker with
        streams := broker.streams.insert snapshot.id { latest := snapshot, notify := broker.made }
        made := broker.made + 1 }
    | some stream =>
      let events := deriveRunEvents stream.latest snapshot
      if events = [] then { broker with
        streams := broker.streams.insert snapshot.id { stream with latest := snapshot } }
      else { broker with
        streams := broker.streams.insert snapshot.id {
          latest := snapshot
          events := stream.events ++ numberEvents (stream.events.length + 1) events
          notify := broker.made }
        made := broker.made + 1
        closings := broker.closings ++ [stream.notify] }

def seed (broker : NotifyingBroker) (snapshot : WorkflowRunSnapshot) : NotifyingBroker :=
  if broker.closed || broker.streams.contains snapshot.id then broker
  else { broker with
    streams := broker.streams.insert snapshot.id {
      latest := snapshot
      events := [{ workflowEvent .runSnapshot snapshot with sequence := 1 }]
      notify := broker.made }
    made := broker.made + 1 }

/-- What `eventsAfter` returns. -/
structure Batch where
  events : List RunEvent
  notify : Nat
  closed : Bool
  terminal : Bool

/-- Without a stream the channel is a new one, closed at once. -/
def eventsAfter (broker : NotifyingBroker) (runID : RunID) (sequence : Nat) :
    NotifyingBroker × Batch :=
  match broker.streams.get? runID with
  | none =>
    ({ broker with made := broker.made + 1, closings := broker.closings ++ [broker.made] },
      ⟨[], broker.made, broker.closed, false⟩)
  | some stream =>
    (broker, ⟨stream.events.drop sequence, stream.notify, broker.closed,
      stream.latest.status.terminal⟩)

def close (broker : NotifyingBroker) : NotifyingBroker :=
  if broker.closed then broker
  else { broker with
    closed := true
    closings := broker.closings ++ broker.streams.values.map NotifyingStream.notify }

/-- The broker without its channels. -/
def forget (broker : NotifyingBroker) : EventBroker where
  streams := broker.streams.map fun _ stream => ⟨stream.latest, stream.events⟩
  closed := broker.closed

/-! ## The broker without channels -/

theorem forget_get? (broker : NotifyingBroker) (id : RunID) :
    broker.forget.streams.get? id =
      (broker.streams.get? id).map fun stream => ⟨stream.latest, stream.events⟩ :=
  KeyMap.get?_map _ _ _

theorem forget_observe (broker : NotifyingBroker) (snapshot : WorkflowRunSnapshot) :
    (broker.observe snapshot).forget = broker.forget.observe snapshot := by
  unfold observe EventBroker.observe
  rw [forget_get?]
  have hclosed : broker.forget.closed = broker.closed := rfl
  rw [hclosed]
  split
  · rfl
  · cases broker.streams.get? snapshot.id with
    | none => simp [forget, KeyMap.map_insert]
    | some stream =>
      dsimp only [Option.map_some, RunEventStream.observe]
      split
      · rename_i hnone
        simp [forget, KeyMap.map_insert, hnone, numberEvents]
      · simp [forget, KeyMap.map_insert]

theorem forget_seed (broker : NotifyingBroker) (snapshot : WorkflowRunSnapshot) :
    (broker.seed snapshot).forget = broker.forget.seed snapshot := by
  unfold seed EventBroker.seed
  have hsame : (broker.forget.closed || broker.forget.streams.contains snapshot.id) =
      (broker.closed || broker.streams.contains snapshot.id) := by
    rw [forget, KeyMap.contains_map]
  rw [hsame]
  split
  · rfl
  · simp [forget, KeyMap.map_insert]

theorem forget_close (broker : NotifyingBroker) : broker.close.forget = broker.forget.close := by
  unfold close EventBroker.close
  split
  · rename_i hclosed
    simp [forget, hclosed]
  · rfl

/-- `eventsAfter` reads the same with and without channels. -/
theorem forget_eventsAfter (broker : NotifyingBroker) (id : RunID) (n : Nat) :
    (broker.eventsAfter id n).1.forget = broker.forget ∧
      broker.forget.eventsAfter id n = ((broker.eventsAfter id n).2.events,
        !((broker.eventsAfter id n).2.terminal || (broker.eventsAfter id n).2.closed)) := by
  unfold eventsAfter EventBroker.eventsAfter
  rw [forget_get?]
  cases broker.streams.get? id with
  | none => exact ⟨rfl, rfl⟩
  | some stream => exact ⟨rfl, rfl⟩

end NotifyingBroker

/-! ## Readers -/

/-- A reader of the stream of a run, from the sequence number it began with on. -/
structure Reader where
  runID : RunID
  start : Nat
  sequence : Nat
  received : List RunEvent := []
  /-- The channel it waits on. -/
  waiting : Option Nat := none
  deriving DecidableEq

/-- The events of a batch come in one after the other. -/
def Reader.receive (reader : Reader) (events : List RunEvent) (waiting : Option Nat) : Reader :=
  { reader with
    sequence := (events.getLast?.map RunEvent.sequence).getD reader.sequence
    received := reader.received ++ events
    waiting := waiting }

structure EventSystem where
  broker : NotifyingBroker := {}
  readers : List Reader := []
  deriving DecidableEq

inductive EventLabel where
  | observe (snapshot : WorkflowRunSnapshot)
  | seed (snapshot : WorkflowRunSnapshot)
  | close
  | connect (runID : RunID) (lastSequence : Nat)
  /-- A pass of the delivery loop, of a reader that goes on or comes back. -/
  | pass (reader : Nat)
  /-- A pass in which the connection breaks after some events. -/
  | broken (reader : Nat) (delivered : Nat)
  | disconnect (reader : Nat)
  deriving DecidableEq

namespace EventSystem

def pass (w : EventSystem) (i : Nat) (deliver : NotifyingBroker.Batch → List RunEvent × Option Nat) :
    Option EventSystem :=
  match w.readers[i]? with
  | none => none
  | some reader =>
    let after := w.broker.eventsAfter reader.runID reader.sequence
    let delivery := deliver after.2
    some { broker := after.1, readers := w.readers.set i (reader.receive delivery.1 delivery.2) }

def step (w : EventSystem) : EventLabel → Option EventSystem
  | .observe snapshot => some { w with broker := w.broker.observe snapshot }
  | .seed snapshot => some { w with broker := w.broker.seed snapshot }
  | .close => some { w with broker := w.broker.close }
  | .connect runID lastSequence => some { w with
      readers := w.readers ++ [{ runID := runID, start := lastSequence, sequence := lastSequence }] }
  | .pass i => w.pass i fun batch =>
      (batch.events, if batch.terminal || batch.closed then none else some batch.notify)
  | .broken i delivered => w.pass i fun batch => (batch.events.take delivered, none)
  | .disconnect i => (w.readers[i]?).map fun reader =>
      { w with readers := w.readers.set i { reader with waiting := none } }

end EventSystem

/-! ## What the operations keep -/

theorem map_sequence_numberEvents : ∀ (events : List RunEvent) (n : Nat),
    (numberEvents n events).map RunEvent.sequence = List.range' n events.length
  | [], _ => rfl
  | _ :: rest, n => by
    rw [numberEvents, List.map_cons, map_sequence_numberEvents rest (n + 1), List.length_cons,
      List.range'_succ]

theorem length_numberEvents : ∀ (events : List RunEvent) (n : Nat),
    (numberEvents n events).length = events.length
  | [], _ => rfl
  | _ :: rest, n => by
    rw [numberEvents, List.length_cons, length_numberEvents rest (n + 1), List.length_cons]

/-- Events numbered 1, 2, 3 and so on. -/
def Numbered (events : List RunEvent) : Prop :=
  events.map RunEvent.sequence = List.range' 1 events.length

theorem Numbered.append {events : List RunEvent} (h : Numbered events) (more : List RunEvent) :
    Numbered (events ++ numberEvents (events.length + 1) more) := by
  unfold Numbered at h ⊢
  rw [List.map_append, h, map_sequence_numberEvents, List.length_append, length_numberEvents,
    Nat.add_comm events.length 1, List.range'_append_1]

/-- The sequence number after some events of the rest of a stream. -/
theorem Numbered.last {events : List RunEvent} (h : Numbered events) (n k : Nat) :
    ((((events.drop n).take k).getLast?.map RunEvent.sequence).getD n) =
      n + ((events.drop n).take k).length := by
  have hmap : ((events.drop n).take k).map RunEvent.sequence =
      ((List.range' 1 events.length).drop n).take k := by
    rw [List.map_take, List.map_drop, h]
  rcases Nat.eq_zero_or_pos ((events.drop n).take k).length with hzero | hpos
  · rw [List.length_eq_zero_iff.mp hzero]
    rfl
  · have hlast : ((events.drop n).take k).getLast?.map RunEvent.sequence =
        some (n + ((events.drop n).take k).length) := by
      rw [← List.getLast?_map, hmap, List.getLast?_eq_getElem?]
      rw [List.length_take, List.length_drop] at hpos ⊢
      rw [List.length_take, List.length_drop, List.length_range', List.getElem?_take,
        if_pos (by omega), List.getElem?_drop, List.getElem?_range' (by omega)]
      congr 1
      omega
    rw [hlast]
    rfl

namespace NotifyingBroker

/-- The events of a run so far. -/
def events (broker : NotifyingBroker) (id : RunID) : List RunEvent :=
  ((broker.streams.get? id).map NotifyingStream.events).getD []

structure Sound (broker : NotifyingBroker) : Prop where
  numbered : ∀ id stream, broker.streams.get? id = some stream → Numbered stream.events
  made : ∀ id stream, broker.streams.get? id = some stream → stream.notify < broker.made
  distinct : ∀ id id' stream stream', broker.streams.get? id = some stream →
    broker.streams.get? id' = some stream' → stream.notify = stream'.notify → id = id'
  closings_made : ∀ channel ∈ broker.closings, channel < broker.made
  once : broker.closings.Nodup
  notify_open : broker.closed = false → ∀ id stream, broker.streams.get? id = some stream →
    stream.notify ∉ broker.closings

/-- Streams only grow, and one that grew has closed its channel. -/
structure Extends (broker broker' : NotifyingBroker) : Prop where
  events : ∀ id, broker.events id <+: broker'.events id
  closings : ∀ channel ∈ broker.closings, channel ∈ broker'.closings
  notify : ∀ id stream, broker.streams.get? id = some stream →
    stream.notify ∈ broker'.closings ∨ ∃ stream', broker'.streams.get? id = some stream' ∧
      stream'.notify = stream.notify ∧ stream'.events = stream.events

section

variable {broker : NotifyingBroker}

theorem sound_empty : Sound {} := ⟨nofun, nofun, nofun, nofun, .nil, nofun⟩

theorem Extends.refl (broker : NotifyingBroker) : Extends broker broker :=
  ⟨fun _ => List.prefix_rfl, fun _ h => h, fun _ stream h => .inr ⟨stream, h, rfl, rfl⟩⟩

theorem events_of_get? {id : RunID} {stream : NotifyingStream}
    (h : broker.streams.get? id = some stream) : broker.events id = stream.events := by
  rw [events, h]
  rfl

/-- The stream of one run is put in place, with the channels made and closed for it. -/
theorem Sound.put (h : broker.Sound) {id : RunID} {stream : NotifyingStream} {made : Nat}
    {closings : List Nat} (hnumbered : Numbered stream.events) (hmade : broker.made ≤ made)
    (hnotify : stream.notify < made)
    (hdistinct : ∀ id' other, id' ≠ id → broker.streams.get? id' = some other →
      other.notify ≠ stream.notify)
    (hclosings : ∀ channel ∈ closings, channel < made) (honce : closings.Nodup)
    (hopen : broker.closed = false → stream.notify ∉ closings ∧ ∀ id' other, id' ≠ id →
      broker.streams.get? id' = some other → other.notify ∉ closings) :
    Sound { broker with
      streams := broker.streams.insert id stream, made := made, closings := closings } := by
  -- each stream is the new one or one of the others
  have hcases : ∀ {id' stream'}, (broker.streams.insert id stream).get? id' = some stream' →
      id' = id ∧ stream' = stream ∨ id' ≠ id ∧ broker.streams.get? id' = some stream' := by
    intro id' stream' hget
    rw [KeyMap.get?_insert] at hget
    split at hget
    · rename_i hid
      exact .inl ⟨hid, (Option.some.inj hget).symm⟩
    · rename_i hid
      exact .inr ⟨hid, hget⟩
  refine ⟨fun id' stream' hget => ?_, fun id' stream' hget => ?_,
    fun id₁ id₂ stream₁ stream₂ hget₁ hget₂ heq => ?_, hclosings, honce,
    fun hclosed id' stream' hget => ?_⟩
  · rcases hcases hget with ⟨-, rfl⟩ | ⟨-, hold⟩
    · exact hnumbered
    · exact h.numbered id' stream' hold
  · rcases hcases hget with ⟨-, rfl⟩ | ⟨-, hold⟩
    · exact hnotify
    · exact (h.made id' stream' hold).trans_le hmade
  · rcases hcases hget₁ with ⟨rfl, rfl⟩ | ⟨hne₁, hold₁⟩ <;>
      rcases hcases hget₂ with ⟨rfl, rfl⟩ | ⟨hne₂, hold₂⟩
    · rfl
    · exact absurd heq.symm (hdistinct id₂ stream₂ hne₂ hold₂)
    · exact absurd heq (hdistinct id₁ stream₁ hne₁ hold₁)
    · exact h.distinct id₁ id₂ stream₁ stream₂ hold₁ hold₂ heq
  · rcases hcases hget with ⟨-, rfl⟩ | ⟨hne, hold⟩
    · exact (hopen hclosed).1
    · exact (hopen hclosed).2 id' stream' hne hold

theorem Extends.put {id : RunID} {stream : NotifyingStream} {made : Nat} {closings : List Nat}
    (hevents : broker.events id <+: stream.events)
    (hclosings : ∀ channel ∈ broker.closings, channel ∈ closings)
    (hold : ∀ old, broker.streams.get? id = some old → old.notify ∈ closings ∨
      stream.notify = old.notify ∧ stream.events = old.events) :
    Extends broker { broker with
      streams := broker.streams.insert id stream, made := made, closings := closings } := by
  refine ⟨fun id' => ?_, hclosings, fun id' stream' hget => ?_⟩
  · unfold NotifyingBroker.events
    rw [KeyMap.get?_insert]
    split
    · rename_i hid
      rw [hid]
      exact hevents
    · exact List.prefix_rfl
  · rw [KeyMap.get?_insert]
    split
    · rename_i hid
      rw [hid] at hget
      rcases hold stream' hget with hclosed | hsame
      · exact .inl hclosed
      · exact .inr ⟨stream, rfl, hsame⟩
    · exact .inr ⟨stream', hget, rfl, rfl⟩

/-- A run gets a stream on a new channel. -/
theorem Sound.create (h : broker.Sound) {id : RunID} (hnone : broker.streams.get? id = none)
    (latest : WorkflowRunSnapshot) {events : List RunEvent} (hnumbered : Numbered events) :
    Sound { broker with
      streams := broker.streams.insert id ⟨latest, events, broker.made⟩
      made := broker.made + 1 } ∧
    Extends broker { broker with
      streams := broker.streams.insert id ⟨latest, events, broker.made⟩
      made := broker.made + 1 } := by
  constructor
  · refine h.put hnumbered (Nat.le_succ _) (Nat.lt_succ_self _)
      (fun id' other _ hget => (h.made id' other hget).ne)
      (fun channel hc => (h.closings_made channel hc).trans (Nat.lt_succ_self _)) h.once
      fun hclosed => ⟨fun hc => Nat.lt_irrefl _ (h.closings_made _ hc), fun id' other _ hget => ?_⟩
    exact h.notify_open hclosed id' other hget
  · refine .put ?_ (fun _ hc => hc) fun old hget => ?_
    · rw [NotifyingBroker.events, hnone]
      exact List.nil_prefix
    · rw [hnone] at hget
      cases hget

theorem Sound.observe (h : broker.Sound) (snapshot : WorkflowRunSnapshot) :
    (broker.observe snapshot).Sound ∧ Extends broker (broker.observe snapshot) := by
  unfold NotifyingBroker.observe
  split
  · exact ⟨h, .refl _⟩
  rename_i hopen
  have hopen : broker.closed = false := by simpa using hopen
  split
  · rename_i hnone
    exact h.create hnone snapshot rfl
  rename_i stream hstream
  have hothers : ∀ id' other, id' ≠ snapshot.id → broker.streams.get? id' = some other →
      other.notify ≠ stream.notify := fun id' other hne hget heq =>
    hne (h.distinct id' snapshot.id other stream hget hstream heq)
  dsimp only
  split
  · -- nothing changed that readers are told of
    refine ⟨h.put (h.numbered _ stream hstream) (le_refl _) (h.made _ stream hstream) hothers
      h.closings_made h.once fun hclosed => ⟨h.notify_open hclosed _ stream hstream,
        fun id' other _ hget => h.notify_open hclosed id' other hget⟩, .put ?_ (fun _ hc => hc) ?_⟩
    · rw [events_of_get? hstream]
    · intro old hget
      rw [hstream] at hget
      cases hget
      exact .inr ⟨rfl, rfl⟩
  · refine ⟨h.put ((h.numbered _ stream hstream).append _) (Nat.le_succ _) (Nat.lt_succ_self _)
      (fun id' other _ hget => (h.made id' other hget).ne) (fun channel hc => ?_) ?_
      fun hclosed => ⟨fun hc => ?_, fun id' other hne hget hc => ?_⟩, .put ?_ ?_ ?_⟩
    · rcases List.mem_append.mp hc with hc | hc
      · exact (h.closings_made channel hc).trans (Nat.lt_succ_self _)
      · rw [List.mem_singleton.mp hc]
        exact (h.made _ stream hstream).trans (Nat.lt_succ_self _)
    · refine List.nodup_append.mpr ⟨h.once, List.nodup_singleton _, fun a ha b hb heq => ?_⟩
      rw [heq, List.mem_singleton.mp hb] at ha
      exact h.notify_open hopen _ stream hstream ha
    · rcases List.mem_append.mp hc with hc | hc
      · exact Nat.lt_irrefl _ (h.closings_made _ hc)
      · exact (h.made _ stream hstream).ne (List.mem_singleton.mp hc).symm
    · rcases List.mem_append.mp hc with hc | hc
      · exact h.notify_open hclosed id' other hget hc
      · exact hothers id' other hne hget (List.mem_singleton.mp hc)
    · rw [events_of_get? hstream]
      exact List.prefix_append _ _
    · exact fun _ hc => List.mem_append_left _ hc
    · intro old hget
      rw [hstream] at hget
      cases hget
      exact .inl (List.mem_append_right _ (List.mem_singleton.mpr rfl))

theorem Sound.seed (h : broker.Sound) (snapshot : WorkflowRunSnapshot) :
    (broker.seed snapshot).Sound ∧ Extends broker (broker.seed snapshot) := by
  unfold NotifyingBroker.seed
  split
  · exact ⟨h, .refl _⟩
  · rename_i hnew
    refine h.create ?_ snapshot rfl
    simp only [Bool.or_eq_true, not_or, KeyMap.contains, Option.not_isSome_iff_eq_none] at hnew
    exact hnew.2

theorem Sound.close (h : broker.Sound) : broker.close.Sound ∧ Extends broker broker.close := by
  unfold NotifyingBroker.close
  split
  · exact ⟨h, .refl _⟩
  rename_i hopen
  have hopen : broker.closed = false := by simpa using hopen
  have hvalues : (broker.streams.values.map NotifyingStream.notify).Nodup := by
    rw [KeyMap.values, List.map_map]
    refine List.Nodup.map_on (fun e he e' he' heq => ?_) (List.Nodup.of_map _ broker.streams.keys_nodup)
    have hget := (KeyMap.mem_entries_iff _ e.1 e.2).mp he
    have hget' := (KeyMap.mem_entries_iff _ e'.1 e'.2).mp he'
    have hid := h.distinct e.1 e'.1 e.2 e'.2 hget hget' heq
    rw [hid, hget'] at hget
    exact Prod.ext hid (Option.some.inj hget).symm
  have hnotify : ∀ channel ∈ broker.streams.values.map NotifyingStream.notify,
      ∃ id stream, broker.streams.get? id = some stream ∧ stream.notify = channel := by
    intro channel hc
    obtain ⟨stream, hs, rfl⟩ := List.mem_map.mp hc
    obtain ⟨id, hget⟩ := (KeyMap.mem_values_iff _ stream).mp hs
    exact ⟨id, stream, hget, rfl⟩
  refine ⟨⟨h.numbered, h.made, h.distinct, fun channel hc => ?_, ?_, by simp⟩,
    fun _ => List.prefix_rfl, fun _ hc => List.mem_append_left _ hc,
    fun id stream hget => .inr ⟨stream, hget, rfl, rfl⟩⟩
  · rcases List.mem_append.mp hc with hc | hc
    · exact h.closings_made channel hc
    · obtain ⟨id, stream, hget, rfl⟩ := hnotify channel hc
      exact h.made id stream hget
  · refine List.nodup_append.mpr ⟨h.once, hvalues, fun a ha b hb heq => ?_⟩
    obtain ⟨id, stream, hget, rfl⟩ := hnotify b hb
    rw [heq] at ha
    exact h.notify_open hopen id stream hget ha

theorem Sound.eventsAfter (h : broker.Sound) (id : RunID) (n : Nat) :
    (broker.eventsAfter id n).1.Sound ∧ Extends broker (broker.eventsAfter id n).1 ∧
    (broker.eventsAfter id n).2.events = ((broker.eventsAfter id n).1.events id).drop n ∧
    ((broker.eventsAfter id n).2.notify ∈ (broker.eventsAfter id n).1.closings ∨
      ∃ stream, (broker.eventsAfter id n).1.streams.get? id = some stream ∧
        stream.notify = (broker.eventsAfter id n).2.notify) := by
  unfold NotifyingBroker.eventsAfter
  cases hget : broker.streams.get? id with
  | some stream =>
    refine ⟨h, .refl _, ?_, .inr ⟨stream, hget, rfl⟩⟩
    rw [events_of_get? hget]
  | none =>
    refine ⟨⟨h.numbered, fun id' other hother => (h.made id' other hother).trans (Nat.lt_succ_self _),
      h.distinct, fun channel hc => ?_, ?_, fun hclosed id' other hother hc => ?_⟩,
      ⟨fun _ => List.prefix_rfl, fun _ hc => List.mem_append_left _ hc,
        fun id' other hother => .inr ⟨other, hother, rfl, rfl⟩⟩, ?_,
      .inl (List.mem_append_right _ (List.mem_singleton.mpr rfl))⟩
    · rcases List.mem_append.mp hc with hc | hc
      · exact (h.closings_made channel hc).trans (Nat.lt_succ_self _)
      · rw [List.mem_singleton.mp hc]
        exact Nat.lt_succ_self _
    · refine List.nodup_append.mpr ⟨h.once, List.nodup_singleton _, fun a ha b hb heq => ?_⟩
      rw [heq, List.mem_singleton.mp hb] at ha
      exact Nat.lt_irrefl _ (h.closings_made _ ha)
    · rcases List.mem_append.mp hc with hc | hc
      · exact h.notify_open hclosed id' other hother hc
      · exact (h.made id' other hother).ne (List.mem_singleton.mp hc)
    · simp [NotifyingBroker.events, hget]

end

end NotifyingBroker

/-! ## What readers get -/

/-- What a reader has received and where it waits agree with the broker. -/
structure Reader.Follows (broker : NotifyingBroker) (reader : Reader) : Prop where
  segment : reader.start = 0 → reader.received = (broker.events reader.runID).take reader.sequence ∧
    reader.sequence ≤ (broker.events reader.runID).length
  waiting : ∀ channel, reader.waiting = some channel → channel ∈ broker.closings ∨
    ∃ stream, broker.streams.get? reader.runID = some stream ∧ stream.notify = channel ∧
      stream.events.length ≤ reader.sequence

section

variable {broker broker' : NotifyingBroker} {reader : Reader}

theorem Reader.Follows.extend (h : reader.Follows broker) (hext : broker.Extends broker') :
    reader.Follows broker' := by
  refine ⟨fun hstart => ?_, fun channel hwaiting => ?_⟩
  · obtain ⟨hreceived, hle⟩ := h.segment hstart
    have hgrown := hext.events reader.runID
    refine ⟨?_, hle.trans hgrown.length_le⟩
    rw [hreceived]
    obtain ⟨more, hmore⟩ := hgrown
    rw [← hmore, List.take_append_of_le_length hle]
  · rcases h.waiting channel hwaiting with hclosed | ⟨stream, hget, rfl, hle⟩
    · exact .inl (hext.closings channel hclosed)
    · rcases hext.notify _ stream hget with hclosed | ⟨stream', hget', hnotify, hevents⟩
      · exact .inl hclosed
      · exact .inr ⟨stream', hget', hnotify, hevents ▸ hle⟩

/-- Some events of the rest of the stream come in. -/
theorem Reader.Follows.receive (h : reader.Follows broker) (hsound : broker.Sound) (k : Nat)
    {waiting : Option Nat} (hwaiting : ∀ channel, waiting = some channel →
      (broker.events reader.runID).length ≤ reader.sequence + k ∧ (channel ∈ broker.closings ∨
        ∃ stream, broker.streams.get? reader.runID = some stream ∧ stream.notify = channel)) :
    (reader.receive (((broker.events reader.runID).drop reader.sequence).take k)
      waiting).Follows broker := by
  have hnumbered : Numbered (broker.events reader.runID) := by
    cases hget : broker.streams.get? reader.runID with
    | none => simp [NotifyingBroker.events, hget, Numbered]
    | some stream =>
      rw [NotifyingBroker.events_of_get? hget]
      exact hsound.numbered _ stream hget
  have hlast := hnumbered.last reader.sequence k
  have hlength : (((broker.events reader.runID).drop reader.sequence).take k).length =
      min k ((broker.events reader.runID).length - reader.sequence) := by
    rw [List.length_take, List.length_drop]
  refine ⟨fun hstart => ?_, fun channel hchannel => ?_⟩
  · obtain ⟨hreceived, hle⟩ := h.segment hstart
    show _ = List.take ((_ : Option Nat).getD _) _ ∧ (_ : Option Nat).getD _ ≤ _
    rw [hlast, hlength]
    refine ⟨?_, by show _ ≤ (broker.events reader.runID).length; omega⟩
    show reader.received ++ _ = _
    rw [hreceived, List.take_add]
    congr 1
    conv_lhs => rw [List.take_eq_take_min, List.length_drop]
    rfl
  · obtain ⟨hall, hthere⟩ := hwaiting channel hchannel
    rcases hthere with hclosed | ⟨stream, hget, hnotify⟩
    · exact .inl hclosed
    · refine .inr ⟨stream, hget, hnotify, ?_⟩
      show _ ≤ (_ : Option Nat).getD _
      rw [hlast, hlength, ← NotifyingBroker.events_of_get? hget]
      omega

end

namespace EventSystem

structure Sound (w : EventSystem) : Prop where
  broker : w.broker.Sound
  readers : ∀ reader ∈ w.readers, reader.Follows w.broker

section

variable {w w' : EventSystem}

/-- The broker moves on and the readers stay as they are. -/
theorem Sound.extend (h : w.Sound) {broker : NotifyingBroker}
    (hbroker : broker.Sound ∧ w.broker.Extends broker) : Sound { w with broker := broker } :=
  ⟨hbroker.1, fun reader hr => (h.readers reader hr).extend hbroker.2⟩

theorem Sound.pass (h : w.Sound) {i : Nat}
    {deliver : NotifyingBroker.Batch → List RunEvent × Option Nat}
    (hstep : w.pass i deliver = some w')
    (hdeliver : ∀ batch, ∃ k, (deliver batch).1 = batch.events.take k ∧
      ((deliver batch).2 = none ∨
        (deliver batch).2 = some batch.notify ∧ batch.events.length ≤ k)) : w'.Sound := by
  unfold EventSystem.pass at hstep
  split at hstep
  · cases hstep
  rename_i reader hreader
  cases hstep
  obtain ⟨hbroker, hext, hevents, hnotify⟩ :=
    h.broker.eventsAfter reader.runID reader.sequence
  obtain ⟨k, hk, hwaiting⟩ := hdeliver (w.broker.eventsAfter reader.runID reader.sequence).2
  refine ⟨hbroker, fun other hother => ?_⟩
  rcases List.mem_or_eq_of_mem_set hother with hold | rfl
  · exact (h.readers other hold).extend hext
  · have hfollows := (h.readers reader (List.mem_of_getElem? hreader)).extend hext
    rw [hk, hevents]
    refine hfollows.receive hbroker k fun channel hchannel => ?_
    rcases hwaiting with hnone | ⟨hsome, hall⟩
    · rw [hnone] at hchannel
      cases hchannel
    · rw [hsome] at hchannel
      cases hchannel
      rw [hevents, List.length_drop] at hall
      exact ⟨by omega, hnotify⟩

theorem Sound.step (h : w.Sound) {label : EventLabel} (hstep : w.step label = some w') :
    w'.Sound := by
  cases label with
  | observe snapshot =>
    cases hstep
    exact h.extend (h.broker.observe snapshot)
  | seed snapshot =>
    cases hstep
    exact h.extend (h.broker.seed snapshot)
  | close =>
    cases hstep
    exact h.extend h.broker.close
  | connect runID lastSequence =>
    cases hstep
    refine ⟨h.broker, fun reader hr => ?_⟩
    rcases List.mem_append.mp hr with hr | hr
    · exact h.readers reader hr
    · rw [List.mem_singleton.mp hr]
      refine ⟨fun hstart => ?_, nofun⟩
      obtain rfl : lastSequence = 0 := hstart
      exact ⟨rfl, Nat.zero_le _⟩
  | pass i =>
    simp only [EventSystem.step] at hstep
    refine h.pass hstep fun batch => ⟨batch.events.length, List.take_length.symm, ?_⟩
    dsimp only
    split
    · exact .inl rfl
    · exact .inr ⟨rfl, le_refl _⟩
  | broken i delivered =>
    simp only [EventSystem.step] at hstep
    exact h.pass hstep fun _ => ⟨delivered, rfl, .inl rfl⟩
  | disconnect i =>
    obtain ⟨reader, hreader, rfl⟩ := Option.map_eq_some_iff.mp hstep
    refine ⟨h.broker, fun other hother => ?_⟩
    rcases List.mem_or_eq_of_mem_set hother with hold | rfl
    · exact h.readers other hold
    · exact ⟨(h.readers reader (List.mem_of_getElem? hreader)).segment, nofun⟩

theorem sound_initial : Sound {} := ⟨NotifyingBroker.sound_empty, nofun⟩

end

/-- What the streams promise their readers. -/
structure Contract (w : EventSystem) : Prop where
  numbered : ∀ id stream, w.broker.streams.get? id = some stream →
    stream.events.map RunEvent.sequence = List.range' 1 stream.events.length
  /-- A reader from the beginning on has the stream up to its cursor. -/
  segment : ∀ reader ∈ w.readers, reader.start = 0 →
    reader.received = (w.broker.events reader.runID).take reader.sequence ∧
      reader.sequence ≤ (w.broker.events reader.runID).length
  /-- A reader that waits on an open channel has all events. -/
  awake : ∀ reader ∈ w.readers, ∀ channel, reader.waiting = some channel →
    channel ∉ w.broker.closings → (w.broker.events reader.runID).length ≤ reader.sequence
  closedOnce : w.broker.closings.Nodup

theorem Sound.contract {w : EventSystem} (h : w.Sound) : w.Contract where
  numbered := h.broker.numbered
  segment reader hr := (h.readers reader hr).segment
  awake reader hr channel hwaiting hopen := by
    rcases (h.readers reader hr).waiting channel hwaiting with hclosed | ⟨stream, hget, -, hle⟩
    · exact absurd hclosed hopen
    · rw [NotifyingBroker.events_of_get? hget]
      exact hle
  closedOnce := h.broker.once

/-- However observations, readers and shutdown interleave, the streams keep their promise. -/
theorem event_streams_keep_contract {w : EventSystem} {labels : List EventLabel}
    (hrun : runLabels EventSystem.step {} labels = some w) : w.Contract :=
  (run_invariant (fun _ _ _ hstep (hs : Sound _) => hs.step hstep) sound_initial hrun).contract

/-- A run with the given status, without tasks. -/
def bareRun (status : WorkflowRunStatus) : WorkflowRunSnapshot where
  id := ascii "run-1"
  workflowID := ascii "w"
  version := 1
  status := status
  createdAt := 0
  updatedAt := 0
  tasks := []
  workers := []

/-- A reader waits for the first event, leaves, and comes back for the last. -/
def readTwice : List EventLabel := [.observe (bareRun .pending), .connect (ascii "run-1") 0,
  .pass 0, .observe (bareRun .running), .pass 0, .disconnect 0, .observe (bareRun .succeeded),
  .pass 0, .close]

theorem event_streams_keep_contract_readTwice : ∃ w,
    runLabels EventSystem.step {} readTwice = some w ∧ w.Contract := by
  obtain ⟨w, hw⟩ := Option.isSome_iff_exists.mp
    (by decide +kernel : (runLabels EventSystem.step {} readTwice).isSome = true)
  exact ⟨w, hw, event_streams_keep_contract hw⟩

end EventSystem

end ForgeFlow.Api
