import ForgeFlow.Base.Transition
import ForgeFlow.Broker.Memory

/-!
# What holds of the broker in every state

Of each subscription the queue, the messages in flight and the acknowledged ones
share out what was published to its topic; handles of earlier deliveries are dead.
-/

namespace ForgeFlow.Broker

open ForgeFlow.Base

variable {d : MemoryDelivery} {i : Nat} {labels : List Label}

/-! ## One subscription -/

/-- A subscription that shares out the messages `T`. -/
structure Shares (T : MessageID → Prop) (s : MemorySubscription) : Prop where
  nodup : s.queued.Nodup
  queuedSet : ∀ id, s.queuedSet.contains id = true ↔ id ∈ s.queued
  covers : ∀ id, T id ↔
    id ∈ s.queued ∨ s.inFlight.contains id = true ∨ s.acked.contains id = true
  queued : ∀ id ∈ s.queued, ¬s.inFlight.contains id = true ∧ ¬s.acked.contains id = true
  inFlight : ∀ id, s.inFlight.contains id = true → ¬s.acked.contains id = true
  counts : ∀ id n, s.inFlight.get? id = some n → s.deliveryCount.get? id = some n

section

variable {T T' : MessageID → Prop} {s : MemorySubscription} {id : MessageID}

theorem Shares.congr (h : Shares T s) (hT : ∀ id, T' id ↔ T id) : Shares T' s where
  nodup := h.nodup
  queuedSet := h.queuedSet
  covers id := (hT id).trans (h.covers id)
  queued := h.queued
  inFlight := h.inFlight
  counts := h.counts

theorem Shares.notify (h : Shares T s) (token : Bool) : Shares T { s with notify := token } :=
  ⟨h.nodup, h.queuedSet, h.covers, h.queued, h.inFlight, h.counts⟩

theorem Shares.signal (h : Shares T s) : Shares T (signalMemorySubscription s) := h.notify true

theorem shares_empty : Shares (fun _ => False) {} where
  nodup := List.nodup_nil
  queuedSet id := by simp [KeyMap.contains]
  covers id := by simp [KeyMap.contains]
  queued := nofun
  inFlight := nofun
  counts := nofun

theorem Shares.enqueue (h : Shares T s) (id : MessageID) :
    Shares (fun x => T x ∨ x = id) (enqueueMemoryMessage s id) := by
  have hthere : T id → Shares (fun x => T x ∨ x = id) s := by
    intro hid
    refine h.congr fun x => ⟨?_, .inl⟩
    rintro (hx | rfl)
    · exact hx
    · exact hid
  unfold enqueueMemoryMessage
  split
  · rename_i hacked
    exact hthere ((h.covers id).mpr (.inr (.inr hacked)))
  · rename_i hacked
    split
    · rename_i hqueued
      exact hthere ((h.covers id).mpr (.inl ((h.queuedSet id).mp hqueued)))
    · rename_i hqueued
      rw [h.queuedSet] at hqueued
      split
      · rename_i hinFlight
        exact hthere ((h.covers id).mpr (.inr (.inl hinFlight)))
      · rename_i hinFlight
        refine Shares.signal ⟨?_, fun x => ?_, fun x => ?_, fun x hx => ?_, h.inFlight, h.counts⟩
        · exact List.nodup_append.mpr ⟨h.nodup, List.nodup_singleton id, by
            rintro a ha b hb rfl
            exact hqueued (List.mem_singleton.mp hb ▸ ha)⟩
        · rw [KeyMap.contains_insert, h.queuedSet, List.mem_append, List.mem_singleton]
          exact or_comm
        · rw [h.covers, List.mem_append, List.mem_singleton]
          tauto
        · rcases List.mem_append.mp hx with hx | hx
          · exact h.queued x hx
          · rw [List.mem_singleton.mp hx]
            exact ⟨hinFlight, hacked⟩

theorem Shares.enqueueAll : ∀ (ids : List MessageID) {T : MessageID → Prop}
    {s : MemorySubscription}, Shares T s →
      Shares (fun x => T x ∨ x ∈ ids) (ids.foldl enqueueMemoryMessage s)
  | [], _, _, h => h.congr fun x => by simp
  | id :: rest, _, _, h => (Shares.enqueueAll rest (h.enqueue id)).congr fun x => by
    rw [List.mem_cons, or_assoc]

theorem Shares.deliver (h : Shares T s) {rest : List MessageID} (hq : s.queued = id :: rest)
    (count : Nat) : Shares T { s with
      queued := rest
      queuedSet := s.queuedSet.erase id
      deliveryCount := s.deliveryCount.insert id count
      inFlight := s.inFlight.insert id count } := by
  have hnodup := h.nodup
  rw [hq] at hnodup
  obtain ⟨hnot, hrest⟩ := List.nodup_cons.mp hnodup
  have hfree := h.queued id (by rw [hq]; exact List.mem_cons_self)
  have hmem : ∀ x, x ∈ s.queued ↔ x = id ∨ x ∈ rest := fun x => by rw [hq, List.mem_cons]
  refine ⟨hrest, fun x => ?_, fun x => ?_, fun x hx => ?_, fun x hx => ?_, fun x n hx => ?_⟩
  · rw [KeyMap.contains_erase, h.queuedSet, hmem]
    constructor
    · rintro ⟨hne, heq | hx⟩
      · exact absurd heq hne
      · exact hx
    · intro hx
      exact ⟨fun heq => hnot (heq ▸ hx), .inr hx⟩
  · rw [h.covers, hmem, KeyMap.contains_insert]
    tauto
  · rw [KeyMap.contains_insert]
    have hold := h.queued x ((hmem x).mpr (.inr hx))
    refine ⟨?_, hold.2⟩
    rintro (rfl | hin)
    · exact hnot hx
    · exact hold.1 hin
  · rcases (KeyMap.contains_insert _ _ _ _).mp hx with rfl | hx
    · exact hfree.2
    · exact h.inFlight x hx
  · rw [KeyMap.get?_insert] at hx ⊢
    by_cases hid : x = id
    · rw [if_pos hid] at hx ⊢
      exact hx
    · rw [if_neg hid] at hx ⊢
      exact h.counts x n hx

theorem Shares.ack (h : Shares T s) (hin : s.inFlight.contains id = true) : Shares T { s with
    inFlight := s.inFlight.erase id
    acked := s.acked.insert id () } := by
  refine ⟨h.nodup, h.queuedSet, fun x => ?_, fun x hx => ?_, fun x hx => ?_, fun x n hx => ?_⟩
  · rw [h.covers, KeyMap.contains_erase, KeyMap.contains_insert]
    by_cases hx : x = id
    · subst hx
      simp [hin]
    · simp [hx]
  · rw [KeyMap.contains_erase, KeyMap.contains_insert]
    have hold := h.queued x hx
    refine ⟨fun hc => hold.1 hc.2, ?_⟩
    rintro (rfl | hacked)
    · exact hold.1 hin
    · exact hold.2 hacked
  · rw [KeyMap.contains_erase] at hx
    rw [KeyMap.contains_insert]
    rintro (heq | hacked)
    · exact hx.1 heq
    · exact h.inFlight x hx.2 hacked
  · rw [KeyMap.get?_erase] at hx
    split at hx
    · cases hx
    · exact h.counts x n hx

theorem Shares.nack (h : Shares T s) (hin : s.inFlight.contains id = true) :
    Shares T (enqueueMemoryMessage { s with inFlight := s.inFlight.erase id } id) := by
  have hnot : id ∉ s.queued := fun hq => (h.queued id hq).1 hin
  have hnacked := h.inFlight id hin
  have hout : Shares (fun x => T x ∧ x ≠ id) { s with inFlight := s.inFlight.erase id } := by
    refine ⟨h.nodup, h.queuedSet, fun x => ?_, fun x hx => ?_, fun x hx => ?_, fun x n hx => ?_⟩
    · rw [h.covers, KeyMap.contains_erase]
      by_cases hx : x = id
      · subst hx
        simp [hnot, hnacked]
      · simp [hx]
    · rw [KeyMap.contains_erase]
      exact ⟨fun hc => (h.queued x hx).1 hc.2, (h.queued x hx).2⟩
    · exact h.inFlight x ((KeyMap.contains_erase _ _ _).mp hx).2
    · rw [KeyMap.get?_erase] at hx
      split at hx
      · cases hx
      · exact h.counts x n hx
  refine (hout.enqueue id).congr fun x => ?_
  by_cases hx : x = id
  · subst hx
    simp only [ne_eq, not_true_eq_false, and_false, or_true, iff_true]
    exact (h.covers x).mpr (.inr (.inl hin))
  · simp [hx]

/-- Enqueueing changes neither the counts nor what is acknowledged. -/
theorem enqueue_frame (s : MemorySubscription) (id : MessageID) :
    (enqueueMemoryMessage s id).deliveryCount = s.deliveryCount ∧
      (enqueueMemoryMessage s id).acked = s.acked := by
  unfold enqueueMemoryMessage
  split
  · exact ⟨rfl, rfl⟩
  · split
    · exact ⟨rfl, rfl⟩
    · split <;> exact ⟨rfl, rfl⟩

end

/-! ## The whole broker -/

/-- The messages, the topics and the subscriptions agree. -/
structure InMemoryBroker.Kept (b : InMemoryBroker) : Prop where
  named : ∀ id m, b.messages.get? id = some m → m.id = id
  topics : ∀ topic id, id ∈ b.published topic ↔
    ∃ m, b.messages.get? id = some m ∧ m.topic = topic
  subscriptions : ∀ key s, b.subscriptions.get? key = some s →
    Shares (· ∈ b.published key.topic) s

/-- What no operation takes back. -/
structure Grows (b b' : InMemoryBroker) : Prop where
  messages : ∀ id m, b.messages.get? id = some m → b'.messages.get? id = some m
  subscriptions : ∀ key s, b.subscriptions.get? key = some s →
    ∃ s', b'.subscriptions.get? key = some s' ∧
      (∀ id, (s.deliveryCount.get? id).getD 0 ≤ (s'.deliveryCount.get? id).getD 0) ∧
      ∀ id, s.acked.contains id = true → s'.acked.contains id = true

section

variable {b b' b'' : InMemoryBroker} {key : Subscription} {s s' : MemorySubscription}

theorem Grows.refl (b : InMemoryBroker) : Grows b b :=
  ⟨fun _ _ h => h, fun _ s h => ⟨s, h, fun _ => le_refl _, fun _ h => h⟩⟩

/-- One subscription is replaced. -/
def InMemoryBroker.with (b : InMemoryBroker) (key : Subscription) (s : MemorySubscription) :
    InMemoryBroker :=
  { b with subscriptions := b.subscriptions.insert key s }

theorem InMemoryBroker.Kept.with (h : b.Kept) (hs : Shares (· ∈ b.published key.topic) s) :
    (b.with key s).Kept where
  named := h.named
  topics := h.topics
  subscriptions key' s' hs' := by
    rw [InMemoryBroker.with, KeyMap.get?_insert] at hs'
    split at hs'
    · rename_i hkey
      cases hs'
      rw [hkey]
      exact hs
    · exact h.subscriptions key' s' hs'

theorem Grows.with (hs : ∀ s₀, b.subscriptions.get? key = some s₀ →
    (∀ id, (s₀.deliveryCount.get? id).getD 0 ≤ (s.deliveryCount.get? id).getD 0) ∧
      ∀ id, s₀.acked.contains id = true → s.acked.contains id = true) :
    Grows b (b.with key s) := by
  refine ⟨fun _ _ hm => hm, fun key' s₀ hget => ?_⟩
  rw [InMemoryBroker.with, KeyMap.get?_insert]
  split
  · rename_i hkey
    rw [hkey] at hget
    exact ⟨s, rfl, hs s₀ hget⟩
  · exact ⟨s₀, hget, fun _ => le_refl _, fun _ h => h⟩

/-- The subscription `Receive` finds, made if there was none. -/
theorem InMemoryBroker.Kept.locked (h : b.Kept) (key : Subscription) :
    Shares (· ∈ b.published key.topic) (b.subscriptionLocked key) := by
  unfold InMemoryBroker.subscriptionLocked
  split
  · rename_i s hs
    exact h.subscriptions key s hs
  · exact (Shares.enqueueAll (b.published key.topic) shares_empty).congr fun x => by simp

theorem locked_of_get? (hs : b.subscriptions.get? key = some s) : b.subscriptionLocked key = s := by
  rw [InMemoryBroker.subscriptionLocked, hs]

theorem published_store (b : InMemoryBroker) (m : TaskMessage) (topic : Topic) :
    (b.store m).published topic =
      if topic = m.topic then b.published topic ++ [m.id] else b.published topic := by
  rw [InMemoryBroker.store, InMemoryBroker.published, KeyMap.get?_insert]
  split
  · rename_i htopic
    rw [htopic]
    rfl
  · rfl

theorem InMemoryBroker.Kept.store (h : b.Kept) {m : TaskMessage}
    (hnew : b.messages.get? m.id = none) : (b.store m).Kept where
  named id m' hm' := by
    rw [InMemoryBroker.store, KeyMap.get?_insert] at hm'
    split at hm'
    · rename_i hid
      cases hm'
      exact hid.symm
    · exact h.named id m' hm'
  topics topic id := by
    rw [published_store, InMemoryBroker.store, KeyMap.get?_insert]
    have hold := h.topics topic id
    by_cases hid : id = m.id
    · have hnot : id ∉ b.published topic := by
        intro hmem
        obtain ⟨m', hm', -⟩ := hold.mp hmem
        rw [hid, hnew] at hm'
        cases hm'
      by_cases htopic : topic = m.topic
      · simp [hid, htopic]
      · simp only [if_neg htopic, if_pos hid, Option.some.injEq]
        refine ⟨fun hmem => absurd hmem hnot, ?_⟩
        rintro ⟨m', rfl, hm'⟩
        exact absurd hm'.symm htopic
    · rw [if_neg hid, ← hold]
      split
      · simp [hid]
      · rfl
  subscriptions key s hs := by
    rw [InMemoryBroker.store, KeyMap.get?_map] at hs
    obtain ⟨s₀, hs₀, rfl⟩ := Option.map_eq_some_iff.mp hs
    have hshares := h.subscriptions key s₀ hs₀
    simp only [published_store]
    by_cases htopic : key.topic = m.topic
    · rw [if_pos htopic, if_pos htopic]
      exact (hshares.enqueue m.id).congr fun x => by
        rw [List.mem_append, List.mem_singleton]
    · rw [if_neg htopic, if_neg htopic]
      exact hshares

theorem Grows.store {m : TaskMessage} (hnew : b.messages.get? m.id = none) :
    Grows b (b.store m) := by
  refine ⟨fun id m' hm' => ?_, fun key s hs => ?_⟩
  · rw [InMemoryBroker.store, KeyMap.get?_insert, if_neg]
    · exact hm'
    · rintro rfl
      rw [hnew] at hm'
      cases hm'
  · refine ⟨_, by rw [InMemoryBroker.store, KeyMap.get?_map, hs]; rfl, ?_⟩
    split
    · obtain ⟨hcount, hacked⟩ := enqueue_frame s m.id
      rw [hcount, hacked]
      exact ⟨fun _ => le_refl _, fun _ h => h⟩
    · exact ⟨fun _ => le_refl _, fun _ h => h⟩

/-- Everything `Publish` can do. -/
theorem publish_cases (b : InMemoryBroker) (contextErr : Option GoString) (m : TaskMessage) :
    (∃ e, b.publish contextErr m = (b, .error e)) ∨
    (∃ existing, b.messages.get? m.id = some existing ∧ existing.topic = m.topic ∧
      b.publish contextErr m = (b, .ok ())) ∨
    b.messages.get? m.id = none ∧ b.closed = false ∧
      b.publish contextErr m = (b.store m, .ok ()) := by
  unfold InMemoryBroker.publish
  split
  · exact .inl ⟨_, rfl⟩
  · split
    · exact .inl ⟨_, rfl⟩
    · split
      · exact .inl ⟨_, rfl⟩
      · rename_i hopen
        split
        · rename_i existing hexisting
          split
          · rename_i hsame
            exact .inr (.inl ⟨existing, hexisting, hsame.1, rfl⟩)
          · exact .inl ⟨_, rfl⟩
        · rename_i hnew
          exact .inr (.inr ⟨hnew, by simpa using hopen, rfl⟩)

/-- The delivery is of the message in flight, under the count it is in flight with. -/
def InMemoryBroker.Active (b : InMemoryBroker) (d : MemoryDelivery) : Prop :=
  ∃ s, b.subscriptions.get? d.key = some s ∧ s.inFlight.get? d.message.id = some d.count

/-- For a delivery that was counted, the comparison finds the active one. -/
theorem active?_eq_some (hd : 0 < d.count) :
    b.active? d = some s ↔
      b.subscriptions.get? d.key = some s ∧ s.inFlight.get? d.message.id = some d.count := by
  unfold InMemoryBroker.active?
  cases hget : b.subscriptions.get? d.key with
  | none => simp
  | some s₀ =>
    cases hin : s₀.inFlight.get? d.message.id with
    | none =>
      have hne : 0 ≠ d.count := by omega
      simp only [hin, Option.getD_none, hne, ne_eq, not_false_eq_true, if_true]
      constructor
      · nofun
      · rintro ⟨hs, hs'⟩
        cases hs
        rw [hin] at hs'
        cases hs'
    | some n =>
      by_cases hn : n = d.count
      · simp only [hin, Option.getD_some, hn, ne_eq, not_true_eq_false, if_false]
        constructor
        · rintro h
          cases h
          exact ⟨rfl, hn ▸ hin⟩
        · rintro ⟨hs, -⟩
          exact hs
      · simp only [hin, Option.getD_some, hn, ne_eq, not_false_eq_true, if_true]
        constructor
        · nofun
        · rintro ⟨hs, hs'⟩
          cases hs
          rw [hin] at hs'
          exact absurd (Option.some.inj hs') hn

/-- Everything `Ack`, `Nack` and `Progress` can do. -/
theorem settle_cases (b : InMemoryBroker) (update : MemorySubscription → MemorySubscription)
    (contextErr : Option GoString) (hd : 0 < d.count) :
    (∃ e, b.settle update contextErr d = (b, .error e) ∧
      (b.closed = false → contextErr = none → e = .settled ∧ ¬b.Active d)) ∨
    ∃ s, b.subscriptions.get? d.key = some s ∧ s.inFlight.get? d.message.id = some d.count ∧
      b.closed = false ∧ b.settle update contextErr d = (b.with d.key (update s), .ok ()) := by
  unfold InMemoryBroker.settle
  split
  · exact .inl ⟨_, rfl, nofun⟩
  · split
    · rename_i hclosed
      exact .inl ⟨_, rfl, fun hopen => absurd (hclosed.symm.trans hopen) nofun⟩
    · rename_i hopen
      split
      · rename_i hnone
        refine .inl ⟨_, rfl, fun _ _ => ⟨rfl, ?_⟩⟩
        rintro ⟨s, hs, hin⟩
        rw [(active?_eq_some hd).mpr ⟨hs, hin⟩] at hnone
        cases hnone
      · rename_i s hs
        obtain ⟨hget, hin⟩ := (active?_eq_some hd).mp hs
        exact .inr ⟨s, hget, hin, by simpa using hopen, rfl⟩

/-- Everything a pass of `Receive` can do. -/
theorem examine_cases (b : InMemoryBroker) (key : Subscription) :
    (b.closed = true ∧ b.examine key = (b, some (.error .closed))) ∨
    b.closed = false ∧
      (((b.subscriptionLocked key).queued = [] ∧
        b.examine key = (b.with key (b.subscriptionLocked key), none)) ∨
      ∃ id rest, (b.subscriptionLocked key).queued = id :: rest ∧
        b.examine key =
          ((b.deliver key (b.subscriptionLocked key) id rest).1,
            some (.ok (b.deliver key (b.subscriptionLocked key) id rest).2))) := by
  unfold InMemoryBroker.examine
  split
  · rename_i hclosed
    exact .inl ⟨hclosed, rfl⟩
  · rename_i hopen
    refine .inr ⟨by simpa using hopen, ?_⟩
    dsimp only
    split
    · rename_i id rest hq
      exact .inr ⟨id, rest, hq, rfl⟩
    · rename_i hq
      exact .inl ⟨hq, rfl⟩

end

/-! ## The system -/

namespace System

/-- Call number `i` of `Receive` returned the delivery. -/
def Gave (w : System) (i : Nat) (d : MemoryDelivery) : Prop :=
  (w.calls[i]?).map ReceiveCall.phase = some (.returned (.ok d))

theorem handed_iff {w : System} : w.handed d = true ↔ ∃ i, w.Gave i d := by
  simp only [handed, List.any_eq_true, decide_eq_true_eq, Gave, Option.map_eq_some_iff,
    List.mem_iff_getElem?]
  constructor
  · rintro ⟨call, ⟨i, hi⟩, hphase⟩
    exact ⟨i, call, hi, hphase⟩
  · rintro ⟨i, call, hi, hphase⟩
    exact ⟨call, ⟨i, hi⟩, hphase⟩

/-- What holds in every state. -/
structure Sound (w : System) : Prop where
  kept : w.broker.Kept
  accepted : ∀ id, w.broker.messages.get? id = w.accepted.find? fun m => m.id = id
  topics : ∀ m ∈ w.accepted, m.id ∈ w.broker.published m.topic
  handles : ∀ i d, w.Gave i d → 0 < d.count ∧
    w.broker.messages.get? d.message.id = some d.message ∧ d.message.topic = d.key.topic ∧
    ∃ s, w.broker.subscriptions.get? d.key = some s ∧
      d.count ≤ (s.deliveryCount.get? d.message.id).getD 0
  distinct : ∀ i j d d', w.Gave i d → w.Gave j d' → d.key = d'.key →
    d.message.id = d'.message.id → d.count = d'.count → i = j

theorem sound_initial : Sound {} where
  kept := ⟨nofun, fun topic id => by simp [InMemoryBroker.published], nofun⟩
  accepted id := rfl
  topics := nofun
  handles := nofun
  distinct := nofun

section

variable {w w' : System}

/-- A step keeps what holds, and what it gives out was queued. -/
structure Proceeds (w w' : System) : Prop where
  sound : w'.Sound
  grows : Grows w.broker w'.broker
  gave : ∀ j d, w'.Gave j d →
    w.Gave j d ∨ d.message.id ∈ (w.broker.subscriptionLocked d.key).queued

/-- The broker moved on, and no delivery came out. -/
theorem Sound.quiet (h : w.Sound) (hkept : w'.broker.Kept) (hgrows : Grows w.broker w'.broker)
    (haccepted : ∀ id, w'.broker.messages.get? id = w'.accepted.find? fun m => m.id = id)
    (htopics : ∀ m ∈ w'.accepted, m.id ∈ w'.broker.published m.topic)
    (hgave : ∀ i d, w'.Gave i d → w.Gave i d) : Proceeds w w' := by
  refine ⟨⟨hkept, haccepted, htopics, fun i d hd => ?_, fun i j d d' hd hd' => ?_⟩, hgrows,
    fun j d hd => .inl (hgave j d hd)⟩
  · obtain ⟨hpos, hm, htopic, s, hs, hcount⟩ := h.handles i d (hgave i d hd)
    obtain ⟨s', hs', hcounts, -⟩ := hgrows.subscriptions d.key s hs
    exact ⟨hpos, hgrows.messages _ _ hm, htopic, s', hs', hcount.trans (hcounts _)⟩
  · exact h.distinct i j d d' (hgave i d hd) (hgave j d' hd')

theorem Proceeds.refl (h : w.Sound) : Proceeds w w :=
  h.quiet h.kept (.refl _) h.accepted h.topics fun _ _ hg => hg

/-- The call at one place changed its phase, and no delivery came out. -/
theorem gave_set (call : ReceiveCall) (hno : ∀ d, call.phase ≠ .returned (.ok d))
    (hcalls : w'.calls = w.calls.set i call) (j : Nat) (d : MemoryDelivery) (h : w'.Gave j d) :
    w.Gave j d := by
  unfold Gave at h ⊢
  rw [hcalls, List.getElem?_set] at h
  split at h
  · split at h
    · cases hphase : call.phase with
      | returned r =>
        rw [Option.map_some, hphase] at h
        cases h
        exact absurd hphase (hno d)
      | _ =>
        rw [Option.map_some, hphase] at h
        cases h
    · cases h
  · exact h

/-- Settling a delivery that was given out. -/
theorem Sound.settle (h : w.Sound) (hd : ∃ i, w.Gave i d)
    {update : MemorySubscription → MemorySubscription}
    (hupdate : ∀ {T : MessageID → Prop} {s : MemorySubscription}, Shares T s →
      s.inFlight.contains d.message.id = true → Shares T (update s))
    (hframe : ∀ s : MemorySubscription, (update s).deliveryCount = s.deliveryCount ∧
      ∀ id, s.acked.contains id = true → (update s).acked.contains id = true)
    (contextErr : Option GoString) :
    Proceeds w { w with broker := (w.broker.settle update contextErr d).1 } := by
  obtain ⟨i, hi⟩ := hd
  rcases settle_cases w.broker update contextErr (h.handles i d hi).1 with
    ⟨e, heq, -⟩ | ⟨s, hs, hin, -, heq⟩ <;> rw [heq]
  · exact .refl h
  · have hgrows : Grows w.broker (w.broker.with d.key (update s)) := by
      refine .with fun s₀ hs₀ => ?_
      rw [hs] at hs₀
      cases hs₀
      rw [(hframe s).1]
      exact ⟨fun _ => le_refl _, (hframe s).2⟩
    refine h.quiet (h.kept.with (hupdate (h.kept.subscriptions d.key s hs) ?_)) hgrows h.accepted
      h.topics fun _ _ hg => hg
    rw [KeyMap.contains, hin]
    rfl

theorem Sound.publish (h : w.Sound) (contextErr : Option GoString) (m : TaskMessage) :
    Proceeds w (w.publish contextErr m) := by
  unfold System.publish
  rcases publish_cases w.broker contextErr m with ⟨e, heq⟩ | ⟨existing, hold, hsame, heq⟩ |
    ⟨hnew, -, heq⟩ <;> rw [heq]
  · exact .refl h
  · -- the message was found, so it was accepted before
    refine h.quiet h.kept (.refl _) (fun id => ?_) (fun m' hm' => ?_) fun _ _ hg => hg
    · rw [List.find?_append, h.accepted id]
      cases hfind : w.accepted.find? fun m => m.id = id with
      | some _ => rfl
      | none =>
        have hne : m.id ≠ id := by
          rintro rfl
          rw [h.accepted, hfind] at hold
          cases hold
        simp [hne]
    · rcases List.mem_append.mp hm' with hm' | hm'
      · exact h.topics m' hm'
      · rw [List.mem_singleton.mp hm']
        exact (h.kept.topics _ _).mpr ⟨existing, hold, hsame⟩
  · refine h.quiet (h.kept.store hnew) (.store hnew) (fun id => ?_) (fun m' hm' => ?_)
      fun _ _ hg => hg
    · rw [InMemoryBroker.store, KeyMap.get?_insert, List.find?_append, h.accepted id]
      split
      · rename_i hid
        rw [hid, ← h.accepted, hnew]
        simp
      · rename_i hid
        have hne : m.id ≠ id := fun heq => hid heq.symm
        simp [hne]
    · dsimp only
      rw [published_store]
      rcases List.mem_append.mp hm' with hm' | hm'
      · split
        · exact List.mem_append_left _ (h.topics m' hm')
        · exact h.topics m' hm'
      · rw [List.mem_singleton.mp hm', if_pos rfl]
        exact List.mem_append_right _ List.mem_cons_self

theorem Sound.receive (h : w.Sound) (contextErr : Option GoString) (sub : Subscription) :
    Proceeds w { w with calls := w.calls ++ [begin contextErr sub] } := by
  refine h.quiet h.kept (.refl _) h.accepted h.topics fun i d hg => ?_
  have hbegin : ∀ d, (begin contextErr sub).phase ≠ .returned (.ok d) := by
    intro d
    unfold begin
    dsimp only
    split <;> nofun
  unfold Gave at hg ⊢
  rw [List.getElem?_append] at hg
  split at hg
  · exact hg
  · obtain ⟨call, hcall, hphase⟩ := Option.map_eq_some_iff.mp hg
    rw [List.getElem?_singleton] at hcall
    split at hcall
    · cases hcall
      exact absurd hphase (hbegin d)
    · cases hcall

/-- A call returns a delivery. -/
theorem gave_given {key : Subscription} {d₀ : MemoryDelivery}
    (hcalls : w'.calls = w.calls.set i ⟨key, .returned (.ok d₀)⟩) {j : Nat}
    (h : w'.Gave j d) : w.Gave j d ∨ j = i ∧ d = d₀ := by
  unfold Gave at h ⊢
  rw [hcalls, List.getElem?_set] at h
  split at h
  · rename_i hij
    split at h
    · cases h
      exact .inr ⟨hij.symm, rfl⟩
    · cases h
  · exact .inl h

/-- A call returns a delivery with a count above all counts before. -/
theorem Sound.given (h : w.Sound) {key : Subscription} {d₀ : MemoryDelivery}
    (hcalls : w'.calls = w.calls.set i ⟨key, .returned (.ok d₀)⟩) (hkept : w'.broker.Kept)
    (hgrows : Grows w.broker w'.broker) (haccepted : w'.accepted = w.accepted)
    (hmessages : w'.broker.messages = w.broker.messages)
    (htopics : w'.broker.topics = w.broker.topics)
    (hmessage : w.broker.messages.get? d₀.message.id = some d₀.message)
    (htopic : d₀.message.topic = d₀.key.topic)
    (hcount : ∃ s, w'.broker.subscriptions.get? d₀.key = some s ∧
      d₀.count ≤ (s.deliveryCount.get? d₀.message.id).getD 0) (hpos : 0 < d₀.count)
    (hfresh : ∀ j d, w.Gave j d → d.key = d₀.key → d.message.id = d₀.message.id →
      d.count < d₀.count) : w'.Sound where
  kept := hkept
  accepted id := by
    rw [hmessages, haccepted]
    exact h.accepted id
  topics m hm := by
    rw [InMemoryBroker.published, htopics]
    rw [haccepted] at hm
    exact h.topics m hm
  handles j d hd := by
    rcases gave_given hcalls hd with hd | ⟨-, rfl⟩
    · obtain ⟨hpos, hm, htopic, s, hs, hle⟩ := h.handles j d hd
      obtain ⟨s', hs', hcounts, -⟩ := hgrows.subscriptions d.key s hs
      exact ⟨hpos, hgrows.messages _ _ hm, htopic, s', hs', hle.trans (hcounts _)⟩
    · rw [hmessages]
      exact ⟨hpos, hmessage, htopic, hcount⟩
  distinct j j' d d' hd hd' hk hi hc := by
    rcases gave_given hcalls hd with hd | ⟨rfl, rfl⟩
    · rcases gave_given hcalls hd' with hd' | ⟨rfl, rfl⟩
      · exact h.distinct j j' d d' hd hd' hk hi hc
      · have := hfresh j d hd hk hi
        omega
    · rcases gave_given hcalls hd' with hd' | ⟨rfl, rfl⟩
      · have := hfresh j' d' hd' hk.symm hi.symm
        omega
      · rfl

theorem examine_eq_some (h : w.examine i = some w') :
    ∃ key woken, w.calls[i]? = some ⟨key, .examining woken⟩ ∧ w' = { w with
      broker := (w.broker.examine key).1
      calls := w.calls.set i ⟨key, match (w.broker.examine key).2 with
        | some result => .returned result
        | none => .waiting⟩ } := by
  unfold System.examine at h
  split at h
  · rename_i key woken hcall
    cases h
    exact ⟨key, woken, hcall, rfl⟩
  · cases h

/-- Taking the first message of a queue. -/
theorem Sound.deliver (h : w.Sound) {key : Subscription} {id : MessageID}
    {rest : List MessageID} (hq : (w.broker.subscriptionLocked key).queued = id :: rest) :
    Sound { w with
      broker := (w.broker.deliver key (w.broker.subscriptionLocked key) id rest).1
      calls := w.calls.set i ⟨key, .returned (.ok
        (w.broker.deliver key (w.broker.subscriptionLocked key) id rest).2)⟩ } ∧
    Grows w.broker (w.broker.deliver key (w.broker.subscriptionLocked key) id rest).1 ∧
    (w.broker.deliver key (w.broker.subscriptionLocked key) id rest).2.message.id = id := by
  have hshares := h.kept.locked key
  have hmem : id ∈ w.broker.published key.topic :=
    (hshares.covers id).mpr (.inl (by rw [hq]; exact List.mem_cons_self))
  obtain ⟨m, hm, htopic⟩ := (h.kept.topics _ _).mp hmem
  have hid := h.kept.named id m hm
  have hmessage : (w.broker.deliver key (w.broker.subscriptionLocked key) id rest).2.message = m := by
    rw [InMemoryBroker.deliver, hm]
    rfl
  have hgrows : Grows w.broker
      (w.broker.deliver key (w.broker.subscriptionLocked key) id rest).1 := by
    refine .with fun s hs => ?_
    rw [locked_of_get? hs]
    refine ⟨fun x => ?_, fun _ ha => ha⟩
    rw [KeyMap.get?_insert]
    split
    · rename_i hx
      rw [hx]
      exact Nat.le_succ _
    · exact le_refl _
  refine ⟨h.given rfl (h.kept.with (hshares.deliver hq _)) hgrows rfl rfl rfl ?_ ?_ ?_
    (Nat.succ_pos _) fun j d hd hk hi => ?_, hgrows, hmessage ▸ hid⟩
  · rw [hmessage, hid]
    exact hm
  · rw [hmessage]
    exact htopic
  · refine ⟨_, KeyMap.get?_insert_self _ _ _, ?_⟩
    rw [hmessage, hid, KeyMap.get?_insert_self]
    exact le_refl _
  · obtain ⟨-, -, -, s, hs, hle⟩ := h.handles j d hd
    have hk : d.key = key := hk
    rw [hk] at hs
    rw [hi, hmessage, hid] at hle
    have hcount : (w.broker.deliver key (w.broker.subscriptionLocked key) id rest).2.count =
        (s.deliveryCount.get? id).getD 0 + 1 := by
      rw [InMemoryBroker.deliver, locked_of_get? hs]
    omega

/-- A pass keeps everything, and what it gives out was queued. -/
theorem Sound.examine (h : w.Sound) (hstep : w.examine i = some w') :
    Proceeds w w' := by
  obtain ⟨key, woken, hcall, rfl⟩ := examine_eq_some hstep
  rcases examine_cases w.broker key with ⟨-, heq⟩ | ⟨-, ⟨-, heq⟩ | ⟨id, rest, hq, heq⟩⟩ <;> rw [heq]
  · have hgave := @gave_set i w { w with
      calls := w.calls.set i ⟨key, .returned (.error .closed)⟩ }
      ⟨key, .returned (.error .closed)⟩ (fun _ h => nomatch h) rfl
    exact h.quiet h.kept (.refl _) h.accepted h.topics hgave
  · have hgave := @gave_set i w { w with
      broker := w.broker.with key (w.broker.subscriptionLocked key)
      calls := w.calls.set i ⟨key, .waiting⟩ } ⟨key, .waiting⟩ (fun _ h => nomatch h) rfl
    have hgrows : Grows w.broker (w.broker.with key (w.broker.subscriptionLocked key)) := by
      refine .with fun s hs => ?_
      rw [locked_of_get? hs]
      exact ⟨fun _ => le_refl _, fun _ ha => ha⟩
    exact h.quiet (h.kept.with (h.kept.locked key)) hgrows h.accepted h.topics hgave
  · obtain ⟨hsound, hgrows, hid⟩ := h.deliver (i := i) hq
    refine ⟨hsound, hgrows, fun j d hg => (gave_given rfl hg).imp_right ?_⟩
    rintro ⟨-, rfl⟩
    rw [hid]
    exact hq ▸ List.mem_cons_self

theorem wake_eq_some (h : w.wake i = some w') :
    ∃ key s, w.calls[i]? = some ⟨key, .waiting⟩ ∧ w.broker.subscriptions.get? key = some s ∧
      s.notify = true ∧ w' = { w with
        broker := w.broker.with key { s with notify := false }
        calls := w.calls.set i ⟨key, .examining true⟩ } := by
  unfold System.wake at h
  split at h
  · rename_i key hcall
    obtain ⟨b, hb, rfl⟩ := Option.map_eq_some_iff.mp h
    unfold InMemoryBroker.consume at hb
    split at hb
    · rename_i s hs
      split at hb
      · rename_i hnotify
        cases hb
        exact ⟨key, s, hcall, hs, hnotify, rfl⟩
      · cases hb
    · cases hb
  · cases h

theorem cancel_eq_some {err : GoString} (h : w.cancel i err = some w') :
    ∃ key, w.calls[i]? = some ⟨key, .waiting⟩ ∧ w' = { w with
      calls := w.calls.set i ⟨key, .returned (.error (.context err))⟩ } := by
  unfold System.cancel at h
  split at h
  · rename_i key hcall
    cases h
    exact ⟨key, hcall, rfl⟩
  · cases h

theorem settle_eq_some {operation : InMemoryBroker × Except BrokerError Unit}
    (h : w.settle d operation = some w') :
    (∃ i, w.Gave i d) ∧ w' = { w with broker := operation.1 } := by
  unfold System.settle at h
  split at h
  · rename_i hd
    cases h
    exact ⟨handed_iff.mp hd, rfl⟩
  · cases h

theorem Sound.wake (h : w.Sound) (hstep : w.wake i = some w') : Proceeds w w' := by
  obtain ⟨key, s, -, hs, -, rfl⟩ := wake_eq_some hstep
  refine h.quiet (h.kept.with ((h.kept.subscriptions key s hs).notify false)) (.with fun s₀ hs₀ => ?_)
    h.accepted h.topics (gave_set ⟨key, .examining true⟩ (fun _ h => nomatch h) rfl)
  rw [hs] at hs₀
  cases hs₀
  exact ⟨fun _ => le_refl _, fun _ ha => ha⟩

theorem Sound.close (h : w.Sound) : Proceeds w { w with broker := w.broker.close } := by
  unfold InMemoryBroker.close
  split
  · exact .refl h
  · refine h.quiet ⟨h.kept.named, h.kept.topics, fun key s hs => ?_⟩
      ⟨fun _ _ hm => hm, fun key s hs => ?_⟩ h.accepted h.topics fun _ _ hg => hg
    · rw [KeyMap.get?_map] at hs
      obtain ⟨s₀, hs₀, rfl⟩ := Option.map_eq_some_iff.mp hs
      exact (h.kept.subscriptions key s₀ hs₀).signal
    · refine ⟨signalMemorySubscription s, ?_, fun _ => le_refl _, fun _ ha => ha⟩
      rw [KeyMap.get?_map, hs]
      rfl

theorem Sound.ack (h : w.Sound) (hd : ∃ i, w.Gave i d) (contextErr : Option GoString) :
    Proceeds w { w with broker := (w.broker.ack contextErr d).1 } :=
  h.settle hd (fun hshares hin => hshares.ack hin)
    (fun _ => ⟨rfl, fun _ ha => (KeyMap.contains_insert _ _ _ _).mpr (.inr ha)⟩) contextErr

theorem Sound.nack (h : w.Sound) (hd : ∃ i, w.Gave i d) (contextErr : Option GoString) :
    Proceeds w { w with broker := (w.broker.nack contextErr d).1 } := by
  refine h.settle hd (fun hshares hin => hshares.nack hin) (fun s => ?_) contextErr
  obtain ⟨hcount, hacked⟩ := enqueue_frame { s with
    inFlight := s.inFlight.erase d.message.id } d.message.id
  rw [hcount, hacked]
  exact ⟨rfl, fun _ ha => ha⟩

theorem Sound.progress (h : w.Sound) (hd : ∃ i, w.Gave i d) (contextErr : Option GoString) :
    Proceeds w { w with broker := (w.broker.progress contextErr d).1 } :=
  h.settle hd (fun hshares _ => hshares) (fun _ => ⟨rfl, fun _ ha => ha⟩) contextErr

theorem Sound.step (h : w.Sound) {label : Label} (hstep : w.step label = some w') :
    Proceeds w w' := by
  cases label with
  | publish contextErr m =>
    cases hstep
    exact h.publish contextErr m
  | receive contextErr sub =>
    cases hstep
    exact h.receive contextErr sub
  | examine i => exact h.examine hstep
  | wake i => exact h.wake hstep
  | cancel i err =>
    obtain ⟨key, -, rfl⟩ := cancel_eq_some hstep
    exact h.quiet h.kept (.refl _) h.accepted h.topics
      (gave_set ⟨key, .returned (.error (.context err))⟩ (fun _ h => nomatch h) rfl)
  | ack contextErr d =>
    obtain ⟨hd, rfl⟩ := settle_eq_some hstep
    exact h.ack hd contextErr
  | nack contextErr d =>
    obtain ⟨hd, rfl⟩ := settle_eq_some hstep
    exact h.nack hd contextErr
  | progress contextErr d =>
    obtain ⟨hd, rfl⟩ := settle_eq_some hstep
    exact h.progress hd contextErr
  | close =>
    cases hstep
    exact h.close

theorem Sound.run (h : w.Sound) (hrun : runLabels System.step w labels = some w') : w'.Sound :=
  run_invariant (fun _ _ _ hstep hs => (hs.step hstep).sound) h hrun

end

end System

/-! ## The contract of the broker -/

def sampleSubscription : Subscription := ⟨ascii "engine", ascii "tasks"⟩

def sampleMessage (id : String) : TaskMessage where
  id := ascii id
  topic := ascii "tasks"
  body := ascii "run"

end ForgeFlow.Broker
