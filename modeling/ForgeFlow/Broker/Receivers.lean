import ForgeFlow.Broker.Invariants

/-!
# Waiting receivers and their wake-ups

All calls of `Receive` on a subscription share one channel with room for one token. A
tally keeps of a subscription what matters for its wake-ups: how many messages are
queued, whether the channel holds a token, how many calls wait for one, and how many
have taken one and are about to look at the queue again.
-/

namespace ForgeFlow.Broker

open ForgeFlow.Base

variable {i : Nat} {label : Label}

theorem countP_set_add {α : Type} {p : α → Bool} {l : List α} {a : α}
    (h : l[i]? = some a) (b : α) : (l.set i b).countP p + (if p a = true then 1 else 0) =
      l.countP p + if p b = true then 1 else 0 := by
  induction l generalizing i with
  | nil => cases h
  | cons x rest ih =>
    cases i with
    | zero =>
      cases h
      rw [List.set_cons_zero, List.countP_cons, List.countP_cons]
      omega
    | succ i =>
      have := ih (i := i) h
      rw [List.set_cons_succ, List.countP_cons, List.countP_cons]
      omega

/-! ## Tallies -/

structure Tally where
  queued : Nat
  token : Bool
  waiting : Nat
  woken : Nat
  deriving DecidableEq

namespace Tally

/-- What a step can do to a subscription of an open broker, given whether it adds a
message. -/
inductive Step (t : Tally) (adds : Prop) (t' : Tally) : Prop where
  | stay (h : t' = t)
  | add (hadds : adds) (h : t' = { t with queued := t.queued + 1, token := true })
  | wake (htoken : t.token = true) (hwaiting : t.waiting = t'.waiting + 1)
      (h : t' = { t with token := false, waiting := t'.waiting, woken := t.woken + 1 })
  | take (hqueued : t.queued = t'.queued + 1) (hwoken : t.woken ≤ t'.woken + 1)
      (h : t' = { t with queued := t'.queued, woken := t'.woken })
  | wait (hqueued : t.queued = 0)
      (h : t' = { t with waiting := t.waiting + 1, woken := t'.woken })
  | leave (hwaiting : t.waiting = t'.waiting + 1) (h : t' = { t with waiting := t'.waiting })

/-- A sleeping receiver has a wake-up on its way. -/
def Awake (t : Tally) : Prop :=
  0 < t.queued → 0 < t.waiting → t.token = true ∨ 0 < t.woken

/-- One more message would need a second token: the channel holds one, which at least two
calls wait for, and the queued messages outnumber the calls that are awake. -/
def Crowded (t : Tally) : Prop := t.token = true ∧ 2 ≤ t.waiting ∧ t.woken < t.queued

instance (t : Tally) : Decidable t.Crowded := by
  unfold Crowded
  infer_instance

/-- While calls wait, each queued message has its own wake-up, or one call is left to
take them all. -/
def Served (t : Tally) : Prop :=
  0 < t.queued → 0 < t.waiting →
    t.queued ≤ t.token.toNat + t.woken ∨ t.waiting = 1 ∧ t.token = true

theorem Served.awake {t : Tally} (h : t.Served) : t.Awake := by
  intro hq hw
  rcases h hq hw with hle | ⟨-, htoken⟩
  · cases htoken : t.token with
    | true => exact .inl rfl
    | false =>
      rw [htoken, Bool.toNat_false] at hle
      exact .inr (by omega)
  · exact .inl htoken

theorem Served.step {t t' : Tally} {adds : Prop} (h : t.Served) (hstep : t.Step adds t')
    (hcalm : t.Crowded → ¬adds) : t'.Served := by
  intro hq hw
  cases hstep with
  | stay heq => exact heq ▸ h (heq ▸ hq) (heq ▸ hw)
  | add hadds heq =>
    subst heq
    show t.queued + 1 ≤ 1 + t.woken ∨ t.waiting = 1 ∧ true = true
    have hroom : ¬t.Crowded := fun hc => hcalm hc hadds
    rcases Nat.eq_zero_or_pos t.queued with hnone | hsome
    · exact .inl (by omega)
    rcases h hsome hw with hle | ⟨hone, -⟩
    · cases htoken : t.token with
      | false =>
        rw [htoken, Bool.toNat_false] at hle
        exact .inl (by omega)
      | true =>
        -- with a token in the channel a second waiting call has to find enough awake
        by_cases hone : t.waiting = 1
        · exact .inr ⟨hone, rfl⟩
        · refine .inl (Nat.le_of_not_lt fun hlt => hroom ⟨htoken, ?_, ?_⟩)
          · have : 0 < t.waiting := hw
            omega
          · omega
    · exact .inr ⟨hone, rfl⟩
  | wake htoken hwaiting heq =>
    rw [heq] at hq ⊢
    rcases h hq (by omega) with hle | ⟨hone, -⟩
    · rw [htoken, Bool.toNat_true] at hle
      exact .inl (by simp only [Bool.toNat_false]; omega)
    · omega
  | take hqueued hwoken heq =>
    rw [heq] at hw ⊢
    rcases h (by omega) hw with hle | hone
    · exact .inl (by dsimp only; omega)
    · exact .inr hone
  | wait hqueued heq =>
    rw [heq] at hq
    exact absurd hq (by dsimp only; omega)
  | leave hwaiting heq =>
    rw [heq] at hq ⊢
    rcases h hq (by omega) with hle | ⟨hone, -⟩
    · exact .inl hle
    · omega

end Tally

namespace System

def waiting (w : System) (key : Subscription) : Nat :=
  w.calls.countP fun call => call = ⟨key, .waiting⟩

def woken (w : System) (key : Subscription) : Nat :=
  w.calls.countP fun call => call = ⟨key, .examining true⟩

def tally (w : System) (key : Subscription) : Tally where
  queued := (w.broker.subscriptionLocked key).queued.length
  token := (w.broker.subscriptionLocked key).notify
  waiting := w.waiting key
  woken := w.woken key

theorem waiting_pos {w : System} {key : Subscription} :
    0 < w.waiting key ↔ (⟨key, .waiting⟩ : ReceiveCall) ∈ w.calls := by
  simp [waiting, List.countP_pos_iff]

theorem woken_pos {w : System} {key : Subscription} :
    0 < w.woken key ↔ (⟨key, .examining true⟩ : ReceiveCall) ∈ w.calls := by
  simp [woken, List.countP_pos_iff]

end System

theorem locked_with (b : InMemoryBroker) (key key' : Subscription) (s : MemorySubscription) :
    (b.with key s).subscriptionLocked key' = if key' = key then s else b.subscriptionLocked key' := by
  rw [InMemoryBroker.with, InMemoryBroker.subscriptionLocked, KeyMap.get?_insert]
  by_cases hkey : key' = key
  · rw [if_pos hkey, if_pos hkey]
  · rw [if_neg hkey, if_neg hkey]
    rfl

theorem locked_store (b : InMemoryBroker) (m : TaskMessage) (key : Subscription) :
    (b.store m).subscriptionLocked key = if key.topic = m.topic then
      enqueueMemoryMessage (b.subscriptionLocked key) m.id else b.subscriptionLocked key := by
  unfold InMemoryBroker.subscriptionLocked
  rw [published_store]
  simp only [InMemoryBroker.store, KeyMap.get?_map]
  cases b.subscriptions.get? key with
  | some s => rfl
  | none =>
    dsimp only [Option.map_none]
    split
    · rw [List.foldl_append]
      rfl
    · rfl

theorem deliver_with (b : InMemoryBroker) (key : Subscription) (s : MemorySubscription)
    (id : MessageID) (rest : List MessageID) :
    ∃ s', (b.deliver key s id rest).1 = b.with key s' ∧ s'.queued = rest ∧
      s'.notify = s.notify := ⟨_, rfl, rfl, rfl⟩

/-- A message is added at the end of the queue with a token, or nothing happens. -/
theorem enqueue_cases (s : MemorySubscription) (id : MessageID) :
    enqueueMemoryMessage s id = s ∨
      (enqueueMemoryMessage s id).queued = s.queued ++ [id] ∧
        (enqueueMemoryMessage s id).notify = true := by
  unfold enqueueMemoryMessage
  split
  · exact .inl rfl
  · split
    · exact .inl rfl
    · split
      · exact .inl rfl
      · exact .inr ⟨rfl, rfl⟩

namespace System

section

variable {w w' : System}

/-- A message may have been added to a subscription; the calls are as they were. -/
theorem tally_enqueue {key : Subscription} {s : MemorySubscription} {adds : Prop}
    (id : MessageID) (hadds : adds)
    (hcalls : w'.calls = w.calls) (hqueued : s.queued = (w.broker.subscriptionLocked key).queued)
    (hnotify : s.notify = (w.broker.subscriptionLocked key).notify)
    (hlocked : w'.broker.subscriptionLocked key = enqueueMemoryMessage s id) :
    (w.tally key).Step adds (w'.tally key) := by
  unfold tally waiting woken
  rw [hcalls, hlocked]
  rcases enqueue_cases s id with heq | ⟨hq, hn⟩
  · exact .stay (by rw [heq, hqueued, hnotify])
  · exact .add hadds (by rw [hq, hn, hqueued, List.length_append]; rfl)

theorem tally_stay {key : Subscription} (hcalls : w'.calls = w.calls)
    (hlocked : w'.broker.subscriptionLocked key = w.broker.subscriptionLocked key) :
    w'.tally key = w.tally key := by
  unfold tally waiting woken
  rw [hcalls, hlocked]

/-- A call of one subscription changes its phase: the counts of another stay. -/
theorem tally_other (w' : System) {key key' : Subscription} {p p' : ReceivePhase} (hne : key' ≠ key)
    (hcall : w.calls[i]? = some ⟨key, p⟩) (hcalls : w'.calls = w.calls.set i ⟨key, p'⟩)
    (hlocked : w'.broker.subscriptionLocked key' = w.broker.subscriptionLocked key') :
    w'.tally key' = w.tally key' := by
  have hkeep : ∀ q : ReceivePhase, w'.calls.countP (fun call => call = ⟨key', q⟩) =
      w.calls.countP fun call => call = ⟨key', q⟩ := by
    intro q
    have := countP_set_add (p := fun call => call = ⟨key', q⟩) hcall ⟨key, p'⟩
    simpa [hcalls, hne.symm] using this
  unfold tally waiting woken
  rw [hlocked, hkeep, hkeep]

/-- The counts of a subscription after one of its calls changed its phase. -/
theorem counts_set (w' : System) {key : Subscription} {p p' : ReceivePhase}
    (hcall : w.calls[i]? = some ⟨key, p⟩) (hcalls : w'.calls = w.calls.set i ⟨key, p'⟩) :
    w'.waiting key + (if p = .waiting then 1 else 0) =
      w.waiting key + (if p' = .waiting then 1 else 0) ∧
    w'.woken key + (if p = .examining true then 1 else 0) =
      w.woken key + if p' = .examining true then 1 else 0 := by
  unfold waiting woken
  rw [hcalls]
  constructor
  · have := countP_set_add (p := fun call => call = ⟨key, .waiting⟩) hcall ⟨key, p'⟩
    simpa using this
  · have := countP_set_add (p := fun call => call = ⟨key, .examining true⟩) hcall ⟨key, p'⟩
    simpa using this

theorem tally_examine (hopen : w.broker.closed = false) (hstep : w.examine i = some w')
    (key' : Subscription) {adds : Prop} : (w.tally key').Step adds (w'.tally key') := by
  obtain ⟨key, woken, hcall, rfl⟩ := examine_eq_some hstep
  rcases examine_cases w.broker key with ⟨hclosed, -⟩ | ⟨-, ⟨hq, heq⟩ | ⟨id, rest, hq, heq⟩⟩
  · rw [hopen] at hclosed
    cases hclosed
  · rw [heq]
    by_cases hkey : key' = key
    · subst hkey
      obtain ⟨hwaiting, -⟩ := counts_set { w with
        broker := w.broker.with key' (w.broker.subscriptionLocked key')
        calls := w.calls.set i ⟨key', .waiting⟩ } hcall rfl
      refine .wait (by simp [tally, hq]) ?_
      simp only [tally, locked_with, Tally.mk.injEq, and_true]
      simpa using hwaiting
    · refine .stay (tally_other _ hkey hcall rfl ?_)
      rw [locked_with, if_neg hkey]
  · rw [heq]
    obtain ⟨s', hwith, hrest, hnotify⟩ := deliver_with w.broker key
      (w.broker.subscriptionLocked key) id rest
    have hlocked := locked_with w.broker key key' s'
    rw [← hwith] at hlocked
    by_cases hkey : key' = key
    · subst hkey
      rw [if_pos rfl] at hlocked
      obtain ⟨hwaiting, hwoken⟩ := counts_set { w with
        broker := (w.broker.deliver key' (w.broker.subscriptionLocked key') id rest).1
        calls := w.calls.set i ⟨key', .returned (.ok
          (w.broker.deliver key' (w.broker.subscriptionLocked key') id rest).2)⟩ } hcall rfl
      simp only [reduceCtorEq, if_false, Nat.add_zero] at hwaiting hwoken
      refine .take ?_ ?_ ?_
      · simp [tally, hlocked, hrest, hq]
      · show w.woken key' ≤ _ + 1
        rw [← hwoken]
        exact Nat.add_le_add_left (by split <;> omega) _
      · simpa [tally, hlocked, hnotify] using hwaiting
    · exact .stay (tally_other _ hkey hcall rfl (hlocked.trans (if_neg hkey)))

theorem wake_tally (hstep : w.wake i = some w') (key' : Subscription) :
    w'.tally key' = w.tally key' ∨
    (w.tally key').token = true ∧ (w.tally key').waiting = (w'.tally key').waiting + 1 ∧
      w'.tally key' = { w.tally key' with
        token := false
        waiting := (w'.tally key').waiting
        woken := (w.tally key').woken + 1 } := by
  obtain ⟨key, s, hcall, hs, hnotify, rfl⟩ := wake_eq_some hstep
  by_cases hkey : key' = key
  · subst hkey
    obtain ⟨hwaiting, hwoken⟩ := counts_set { w with
      broker := w.broker.with key' { s with notify := false }
      calls := w.calls.set i ⟨key', .examining true⟩ } hcall rfl
    refine .inr ⟨?_, ?_, ?_⟩
    · show (w.broker.subscriptionLocked key').notify = true
      rw [locked_of_get? hs, hnotify]
    · simpa [tally] using hwaiting.symm
    · simp only [tally, locked_with, if_true, locked_of_get? hs, Tally.mk.injEq, true_and]
      simpa using hwoken
  · refine .inl (tally_other _ hkey hcall rfl ?_)
    rw [locked_with, if_neg hkey]

theorem cancel_tally {err : GoString} (hstep : w.cancel i err = some w')
    (key' : Subscription) : w'.tally key' = w.tally key' ∨
      (w.tally key').waiting = (w'.tally key').waiting + 1 ∧
      w'.tally key' = { w.tally key' with waiting := (w'.tally key').waiting } := by
  obtain ⟨key, hcall, rfl⟩ := cancel_eq_some hstep
  by_cases hkey : key' = key
  · subst hkey
    obtain ⟨hwaiting, hwoken⟩ := counts_set { w with
      calls := w.calls.set i ⟨key', .returned (.error (.context err))⟩ } hcall rfl
    refine .inr ⟨?_, ?_⟩
    · simpa [tally] using hwaiting.symm
    · simp only [tally, Tally.mk.injEq, true_and]
      simpa using hwoken
  · exact .inl (tally_other _ hkey hcall rfl rfl)

theorem begin_phase (contextErr : Option GoString) (sub : Subscription) :
    (begin contextErr sub).phase = .examining false ∨
      ∃ e, (begin contextErr sub).phase = .returned (.error e) := by
  unfold begin
  dsimp only
  split
  · exact .inl rfl
  · exact .inr ⟨_, rfl⟩

theorem tally_receive (contextErr : Option GoString) (sub key : Subscription) :
    tally { w with calls := w.calls ++ [begin contextErr sub] } key = w.tally key := by
  have hwaiting : begin contextErr sub ≠ ⟨key, .waiting⟩ := by
    intro h
    rcases begin_phase contextErr sub with hp | ⟨e, hp⟩ <;> rw [h] at hp <;> cases hp
  have hwoken : begin contextErr sub ≠ ⟨key, .examining true⟩ := by
    intro h
    rcases begin_phase contextErr sub with hp | ⟨e, hp⟩ <;> rw [h] at hp <;> cases hp
  simp [tally, waiting, woken, hwaiting, hwoken]

/-- Whether the step, taken in this state, adds a message to the subscription: a message
of its topic that is published for the first time, or one of its deliveries that is put
back. -/
def Adds (w : System) (key : Subscription) : Label → Prop
  | .publish contextErr m => (w.broker.publish contextErr m).2 = .ok () ∧
      w.broker.messages.get? m.id = none ∧ key.topic = m.topic
  | .nack contextErr d => (w.broker.nack contextErr d).2 = .ok () ∧ key = d.key
  | _ => False

instance (w : System) (key : Subscription) : ∀ label, Decidable (w.Adds key label)
  | .publish _ _ => inferInstanceAs (Decidable (_ ∧ _))
  | .nack _ _ => inferInstanceAs (Decidable (_ ∧ _))
  | .receive _ _ | .examine _ | .wake _ | .cancel _ _ | .ack _ _ | .progress _ _ | .close =>
    isFalse id

theorem tally_publish (contextErr : Option GoString) (m : TaskMessage) (key : Subscription) :
    (w.tally key).Step (w.Adds key (.publish contextErr m))
      ((w.publish contextErr m).tally key) := by
  unfold System.publish
  rcases publish_cases w.broker contextErr m with ⟨e, heq⟩ | ⟨existing, -, -, heq⟩ |
    ⟨hnew, -, heq⟩
  · rw [heq]
    exact .stay rfl
  · rw [heq]
    exact .stay rfl
  · by_cases htopic : key.topic = m.topic
    · refine tally_enqueue m.id ⟨by rw [heq], hnew, htopic⟩ (by rw [heq]) rfl rfl ?_
      rw [heq]
      exact (locked_store w.broker m key).trans (if_pos htopic)
    · rw [heq]
      exact .stay (tally_stay rfl ((locked_store w.broker m key).trans (if_neg htopic)))

/-- Settling a delivery leaves the queues alone, except that `Nack` puts it back. -/
theorem tally_settle (h : w.Sound) {d : MemoryDelivery}
    {update : MemorySubscription → MemorySubscription} {contextErr : Option GoString}
    {adds : Prop} (key : Subscription)
    (hstep : w.settle d (w.broker.settle update contextErr d) = some w')
    (hupdate : ∀ s : MemorySubscription, ((update s).queued = s.queued ∧
      (update s).notify = s.notify) ∨
      ((w.broker.settle update contextErr d).2 = .ok () ∧ key = d.key → adds) ∧
      ∃ s' id, update s = enqueueMemoryMessage s' id ∧ s'.queued = s.queued ∧
        s'.notify = s.notify) :
    (w.tally key).Step adds (w'.tally key) := by
  obtain ⟨⟨i, hd⟩, rfl⟩ := settle_eq_some hstep
  rcases settle_cases w.broker update contextErr (h.handles i d hd).1 with
    ⟨e, heq, -⟩ | ⟨s, hs, -, -, heq⟩ <;> rw [heq] at hupdate ⊢
  · exact .stay rfl
  · have hlocked := locked_with w.broker d.key key (update s)
    by_cases hkey : key = d.key
    · subst hkey
      rw [if_pos rfl] at hlocked
      have hold := locked_of_get? hs
      rcases hupdate s with ⟨hq, hn⟩ | ⟨hadds, s', id, hs', hq, hn⟩
      · exact .stay (by simp [tally, waiting, woken, hlocked, hold, hq, hn])
      · exact tally_enqueue _ (hadds ⟨rfl, rfl⟩) rfl (hold ▸ hq) (hold ▸ hn) (hlocked.trans hs')
    · exact .stay (tally_stay rfl (hlocked.trans (if_neg hkey)))

/-- What a step does to the tally of any subscription while the broker is open. -/
theorem tally_step (h : w.Sound) (hopen : w.broker.closed = false)
    (hlabel : label ≠ .close) (hstep : w.step label = some w') (key : Subscription) :
    (w.tally key).Step (w.Adds key label) (w'.tally key) := by
  cases label with
  | publish contextErr m =>
    cases hstep
    exact tally_publish contextErr m key
  | receive contextErr sub =>
    cases hstep
    exact .stay (tally_receive contextErr sub key)
  | examine i => exact tally_examine hopen hstep key
  | wake i =>
    rcases wake_tally hstep key with heq | ⟨htoken, hwaiting, heq⟩
    · exact .stay heq
    · exact .wake htoken hwaiting heq
  | cancel i err =>
    rcases cancel_tally hstep key with heq | ⟨hwaiting, heq⟩
    · exact .stay heq
    · exact .leave hwaiting heq
  | ack contextErr d => exact tally_settle h key hstep fun _ => .inl ⟨rfl, rfl⟩
  | nack contextErr d => exact tally_settle h key hstep fun _ => .inr ⟨id, _, _, rfl, rfl, rfl⟩
  | progress contextErr d => exact tally_settle h key hstep fun _ => .inl ⟨rfl, rfl⟩
  | close => exact absurd rfl hlabel

/-- Only `Close` closes the broker, and nothing opens it again. -/
theorem step_closed (h : w.Sound) (hlabel : label ≠ .close)
    (hstep : w.step label = some w') : w'.broker.closed = w.broker.closed := by
  have hsettled : ∀ (update : MemorySubscription → MemorySubscription) contextErr d,
      w.settle d (w.broker.settle update contextErr d) = some w' →
        w'.broker.closed = w.broker.closed := by
    intro update contextErr d hsettle
    obtain ⟨⟨i, hd⟩, rfl⟩ := settle_eq_some hsettle
    rcases settle_cases w.broker update contextErr (h.handles i d hd).1 with
      ⟨e, heq, -⟩ | ⟨s, -, -, -, heq⟩ <;> rw [heq]
    rfl
  cases label with
  | publish contextErr m =>
    cases hstep
    unfold System.publish
    rcases publish_cases w.broker contextErr m with ⟨e, heq⟩ | ⟨existing, -, -, heq⟩ | ⟨-, -, heq⟩ <;>
      rw [heq]
    rfl
  | receive contextErr sub =>
    cases hstep
    rfl
  | examine i =>
    obtain ⟨key, woken, -, rfl⟩ := examine_eq_some hstep
    rcases examine_cases w.broker key with ⟨-, heq⟩ | ⟨-, ⟨-, heq⟩ | ⟨id, rest, -, heq⟩⟩ <;>
      rw [heq] <;> rfl
  | wake i =>
    obtain ⟨key, s, -, -, -, rfl⟩ := wake_eq_some hstep
    rfl
  | cancel i err =>
    obtain ⟨key, -, rfl⟩ := cancel_eq_some hstep
    rfl
  | ack contextErr d => exact hsettled _ _ _ hstep
  | nack contextErr d => exact hsettled _ _ _ hstep
  | progress contextErr d => exact hsettled _ _ _ hstep
  | close => exact absurd rfl hlabel

theorem close_closed : w.broker.close.closed = true := by
  unfold InMemoryBroker.close
  split
  · rename_i h
    exact h
  · rfl

/-- Every subscription of an open broker is served. -/
def AllServed (w : System) : Prop :=
  w.broker.closed = false → ∀ key, (w.tally key).Served

/-- The step adds no message to a crowded subscription. -/
def Unhurried (w : System) (label : Label) : Prop :=
  ∀ call ∈ w.calls, (w.tally call.subscription).Crowded → ¬w.Adds call.subscription label

instance (w : System) (label : Label) : Decidable (w.Unhurried label) := by
  unfold Unhurried
  infer_instance

theorem AllServed.step (hserved : w.AllServed) (h : w.Sound)
    (hcalm : w.Unhurried label) (hstep : w.step label = some w') : w'.AllServed := by
  intro hopen' key
  have hlabel : label ≠ .close := by
    rintro rfl
    cases hstep
    rw [close_closed] at hopen'
    cases hopen'
  have hopen : w.broker.closed = false := step_closed h hlabel hstep ▸ hopen'
  refine (hserved hopen key).step (tally_step h hopen hlabel hstep key) fun hcrowded => ?_
  have hwaits : (⟨key, .waiting⟩ : ReceiveCall) ∈ w.calls :=
    waiting_pos.mp (Nat.lt_of_lt_of_le Nat.zero_lt_two hcrowded.2.1)
  exact hcalm _ hwaits hcrowded

/-- While the broker is open, no message stays queued with a receiver asleep and no
wake-up on its way: a token, or a call that took one and has yet to look at the queue. -/
def NoneForgotten (w : System) : Prop :=
  w.broker.closed = false → ∀ key s, w.broker.subscriptions.get? key = some s → s.queued ≠ [] →
    (⟨key, .waiting⟩ : ReceiveCall) ∈ w.calls →
      s.notify = true ∨ (⟨key, .examining true⟩ : ReceiveCall) ∈ w.calls

theorem AllServed.noneForgotten (h : w.AllServed) : w.NoneForgotten := by
  intro hopen key s hs hqueued hwaits
  have hlocked := locked_of_get? hs
  rw [← woken_pos, ← hlocked]
  refine (h hopen key).awake ?_ (waiting_pos.mpr hwaits)
  rw [tally, hlocked]
  exact List.length_pos_iff.mpr hqueued

/-- Receivers are woken in every run that never adds a message to a crowded subscription. -/
theorem receivers_woken_of_unhurried {labels : List Label}
    (hcalm : Meets System.step Unhurried {} labels)
    (hrun : runLabels System.step {} labels = some w) : w.NoneForgotten := by
  refine (Meets.invariant (I := fun v : System => v.Sound ∧ v.AllServed) ?_ hcalm ?_
    hrun).2.noneForgotten
  · rintro v label v' hc hstep ⟨hsound, hserved⟩
    exact ⟨(hsound.step hstep).sound, hserved.step hsound hc hstep⟩
  · exact ⟨sound_initial, fun _ _ hq => absurd hq (Nat.lt_irrefl 0)⟩

/-- Two calls of `Receive` wait. -/
def twoWaiting : List Label := [.receive none sampleSubscription, .receive none sampleSubscription,
  .examine 0, .examine 1]

/-- The second message comes when a call has taken the token of the first: both are queued,
one call is awake, and there is a token for the other one. -/
theorem receivers_woken_of_unhurried_twoWaiting : ∃ v, runLabels System.step {} (twoWaiting ++
    [.publish none (sampleMessage "m"), .wake 0, .publish none (sampleMessage "n")]) = some v ∧
      v.tally sampleSubscription = ⟨2, true, 1, 1⟩ ∧ v.NoneForgotten := by
  obtain ⟨v, hv, htally⟩ := exists_of_runLabels System.step {} (twoWaiting ++
    [.publish none (sampleMessage "m"), .wake 0, .publish none (sampleMessage "n")])
    (fun v => v.tally sampleSubscription = ⟨2, true, 1, 1⟩) (by decide +kernel)
  exact ⟨v, hv, htally, receivers_woken_of_unhurried (by decide +kernel) hv⟩

/-- Two messages come while two calls wait; the second token has no room in the channel,
and the call that took the first leaves with one message. -/
theorem message_forgotten : ∃ v, runLabels System.step {} (twoWaiting ++
    [.publish none (sampleMessage "m"), .publish none (sampleMessage "n"), .wake 0, .examine 0]) =
      some v ∧ ¬v.NoneForgotten := by
  obtain ⟨v, hv, hopen, hqueue, hwaits, hnone⟩ := exists_of_runLabels System.step {}
    (twoWaiting ++ [.publish none (sampleMessage "m"), .publish none (sampleMessage "n"), .wake 0,
      .examine 0])
    (fun v => v.broker.closed = false ∧
      ((v.broker.subscriptions.get? sampleSubscription).any fun s =>
        s.queued ≠ [] ∧ s.notify = false) = true ∧
      ⟨sampleSubscription, .waiting⟩ ∈ v.calls ∧ ⟨sampleSubscription, .examining true⟩ ∉ v.calls)
    (by decide +kernel)
  refine ⟨v, hv, fun h => ?_⟩
  obtain ⟨s, hs, hqueued⟩ := (Option.any_eq_true _ _).mp hqueue
  obtain ⟨hq, hnotify⟩ := of_decide_eq_true hqueued
  rcases h hopen _ s hs hq hwaits with htoken | hwoken
  · rw [hnotify] at htoken
    cases htoken
  · exact hnone hwoken

end

/-! ## Closing -/

/-- What a step does to the phase of a call. -/
inductive PhaseStep (closed : Bool) (label : Label) : ReceivePhase → ReceivePhase → Prop where
  | deliver (woken : Bool) (d : MemoryDelivery) (h : closed = false) :
      PhaseStep closed label (.examining woken) (.returned (.ok d))
  | refuse (woken : Bool) (h : closed = true) :
      PhaseStep closed label (.examining woken) (.returned (.error .closed))
  | wait (woken : Bool) (h : closed = false) :
      PhaseStep closed label (.examining woken) .waiting
  | wake : PhaseStep closed label .waiting (.examining true)
  | cancel (i : Nat) (err : GoString) (h : label = .cancel i err) :
      PhaseStep closed label .waiting (.returned (.error (.context err)))

section

variable {w w' : System}

/-- What a step does to the calls; a call that starts to wait does so on a subscription
that is there. -/
theorem step_calls (hstep : w.step label = some w') :
    w'.calls = w.calls ∨ (∃ contextErr sub, w'.calls = w.calls ++ [begin contextErr sub]) ∨
    ∃ i key p p', w.calls[i]? = some ⟨key, p⟩ ∧ w'.calls = w.calls.set i ⟨key, p'⟩ ∧
      PhaseStep w.broker.closed label p p' ∧
      (p' = .waiting → ∃ s, w'.broker.subscriptions.get? key = some s) := by
  cases label with
  | publish contextErr m =>
    cases hstep
    unfold System.publish
    split
    · exact .inl rfl
    · exact .inl rfl
  | receive contextErr sub =>
    cases hstep
    exact .inr (.inl ⟨contextErr, sub, rfl⟩)
  | examine i =>
    obtain ⟨key, woken, hcall, rfl⟩ := examine_eq_some hstep
    rcases examine_cases w.broker key with ⟨hclosed, heq⟩ |
      ⟨hopen, ⟨-, heq⟩ | ⟨id, rest, -, heq⟩⟩ <;> rw [heq]
    · exact .inr (.inr ⟨i, key, _, _, hcall, rfl, .refuse woken hclosed, nofun⟩)
    · refine .inr (.inr ⟨i, key, _, _, hcall, rfl, .wait woken hopen, fun _ => ?_⟩)
      exact ⟨_, KeyMap.get?_insert_self _ _ _⟩
    · exact .inr (.inr ⟨i, key, _, _, hcall, rfl, .deliver woken _ hopen, nofun⟩)
  | wake i =>
    obtain ⟨key, s, hcall, -, -, rfl⟩ := wake_eq_some hstep
    exact .inr (.inr ⟨i, key, _, _, hcall, rfl, .wake, nofun⟩)
  | cancel i err =>
    obtain ⟨key, hcall, rfl⟩ := cancel_eq_some hstep
    exact .inr (.inr ⟨i, key, _, _, hcall, rfl, .cancel i err rfl, nofun⟩)
  | ack contextErr d =>
    obtain ⟨-, rfl⟩ := settle_eq_some hstep
    exact .inl rfl
  | nack contextErr d =>
    obtain ⟨-, rfl⟩ := settle_eq_some hstep
    exact .inl rfl
  | progress contextErr d =>
    obtain ⟨-, rfl⟩ := settle_eq_some hstep
    exact .inl rfl
  | close =>
    cases hstep
    exact .inl rfl

/-- A call waits on a subscription that is there. -/
def Attached (w : System) : Prop :=
  ∀ key, (⟨key, .waiting⟩ : ReceiveCall) ∈ w.calls →
    ∃ s, w.broker.subscriptions.get? key = some s

theorem Attached.step (hattached : w.Attached) (h : w.Sound)
    (hstep : w.step label = some w') : w'.Attached := by
  intro key hwaits
  have hold : (⟨key, .waiting⟩ : ReceiveCall) ∈ w.calls →
      ∃ s, w'.broker.subscriptions.get? key = some s := by
    intro hmem
    obtain ⟨s, hs⟩ := hattached key hmem
    obtain ⟨s', hs', -⟩ := (h.step hstep).grows.subscriptions key s hs
    exact ⟨s', hs'⟩
  rcases step_calls hstep with heq | ⟨contextErr, sub, heq⟩ | ⟨i, key', p, p', -, heq, -, hthere⟩ <;>
    rw [heq] at hwaits
  · exact hold hwaits
  · rcases List.mem_append.mp hwaits with hmem | hnew
    · exact hold hmem
    · have := List.mem_singleton.mp hnew
      rcases begin_phase contextErr sub with hp | ⟨e, hp⟩ <;> rw [← this] at hp <;> cases hp
  · rcases List.mem_or_eq_of_mem_set hwaits with hmem | hnew
    · exact hold hmem
    · cases hnew
      exact hthere rfl

theorem examine_closed (hclosed : w.broker.closed = true)
    (hstep : w.examine i = some w') : ∃ key woken, w.calls[i]? = some ⟨key, .examining woken⟩ ∧
      w' = { w with calls := w.calls.set i ⟨key, .returned (.error .closed)⟩ } := by
  obtain ⟨key, woken, hcall, rfl⟩ := examine_eq_some hstep
  refine ⟨key, woken, hcall, ?_⟩
  rcases examine_cases w.broker key with ⟨-, heq⟩ | ⟨hopen, -⟩
  · rw [heq]
  · rw [hclosed] at hopen
    cases hopen

/-- What a step after `Close` does to the wake-ups of a subscription: nothing, or a call
takes the token, or a call gives up. -/
theorem shut_step (h : w.Sound) (hclosed : w.broker.closed = true)
    (hstep : w.step label = some w') (key : Subscription) :
    ((w'.tally key).token = (w.tally key).token ∧
      (w'.tally key).waiting = (w.tally key).waiting) ∨
    ((w.tally key).token = true ∧ (w'.tally key).token = false ∧
      (w.tally key).waiting = (w'.tally key).waiting + 1) ∨
    (∃ i err, label = .cancel i err) ∧ (w'.tally key).token = (w.tally key).token ∧
      (w.tally key).waiting = (w'.tally key).waiting + 1 := by
  have hstay : w'.tally key = w.tally key → (w'.tally key).token = (w.tally key).token ∧
      (w'.tally key).waiting = (w.tally key).waiting := fun heq => by rw [heq]; exact ⟨rfl, rfl⟩
  have hsettled : ∀ (update : MemorySubscription → MemorySubscription) contextErr d,
      w.settle d (w.broker.settle update contextErr d) = some w' → w'.tally key = w.tally key := by
    intro update contextErr d hsettle
    obtain ⟨⟨i, hd⟩, rfl⟩ := settle_eq_some hsettle
    rcases settle_cases w.broker update contextErr (h.handles i d hd).1 with
      ⟨e, heq, -⟩ | ⟨s, -, -, hopen, -⟩
    · rw [heq]
    · rw [hclosed] at hopen
      cases hopen
  cases label with
  | publish contextErr m =>
    cases hstep
    refine .inl (hstay ?_)
    unfold System.publish
    rcases publish_cases w.broker contextErr m with ⟨e, heq⟩ | ⟨existing, -, -, heq⟩ |
      ⟨-, hopen, heq⟩
    · rw [heq]
    · rw [heq]
      rfl
    · rw [hclosed] at hopen
      cases hopen
  | receive contextErr sub =>
    cases hstep
    exact .inl (hstay (tally_receive contextErr sub key))
  | examine i =>
    obtain ⟨key', woken, hcall, rfl⟩ := examine_closed hclosed hstep
    refine .inl ⟨rfl, ?_⟩
    by_cases hkey : key = key'
    · subst hkey
      have := (counts_set { w with
        calls := w.calls.set i ⟨key, .returned (.error .closed)⟩ } hcall rfl).1
      simpa [tally] using this
    · exact congrArg Tally.waiting (tally_other { w with
        calls := w.calls.set i ⟨key', .returned (.error .closed)⟩ } hkey hcall rfl rfl)
  | wake i =>
    rcases wake_tally hstep key with heq | ⟨htoken, hwaiting, heq⟩
    · exact .inl (hstay heq)
    · exact .inr (.inl ⟨htoken, by rw [heq], hwaiting⟩)
  | cancel i err =>
    rcases cancel_tally hstep key with heq | ⟨hwaiting, heq⟩
    · exact .inl (hstay heq)
    · exact .inr (.inr ⟨⟨i, err, rfl⟩, by rw [heq], hwaiting⟩)
  | ack contextErr d => exact .inl (hstay (hsettled _ _ _ hstep))
  | nack contextErr d => exact .inl (hstay (hsettled _ _ _ hstep))
  | progress contextErr d => exact .inl (hstay (hsettled _ _ _ hstep))
  | close =>
    cases hstep
    refine .inl (hstay ?_)
    rw [InMemoryBroker.close, if_pos hclosed]

theorem step_shut (h : w.Sound) (hclosed : w.broker.closed = true)
    (hstep : w.step label = some w') : w'.broker.closed = true := by
  by_cases hlabel : label = .close
  · subst hlabel
    cases hstep
    exact close_closed
  · rw [step_closed h hlabel hstep, hclosed]

end

/-- No call of `Receive` can take a step. -/
def Stuck (w : System) : Prop := ∀ i, w.examine i = none ∧ w.wake i = none

instance (w : System) : Decidable w.Stuck :=
  decidable_of_iff (∀ i < w.calls.length, w.examine i = none ∧ w.wake i = none) <| by
    refine ⟨fun h i => ?_, fun h i _ => h i⟩
    by_cases hi : i < w.calls.length
    · exact h i hi
    · have hnone : w.calls[i]? = none := List.getElem?_eq_none (Nat.le_of_not_lt hi)
      simp [System.examine, System.wake, hnone]

/-- The call has not returned. -/
def inProgress (call : ReceiveCall) : Bool :=
  match call.phase with
  | .returned _ => false
  | _ => true

/-- No call is left waiting, and those in progress at `Close` have returned `ErrClosed`
or a delivery. -/
def Released (w w' : System) : Prop :=
  ∀ (i : Nat) (call : ReceiveCall), w'.calls[i]? = some call →
    ∃ result, call.phase = .returned result ∧
      ∀ before, w.calls[i]? = some before → inProgress before = true →
        result = .error .closed ∨ ∃ d, result = .ok d

section

variable {w w' : System} {key : Subscription}

/-- The calls left waiting have a token. -/
def Provided (w : System) (key : Subscription) : Prop :=
  (w.tally key).waiting ≤ (w.tally key).token.toNat

/-- More calls wait than there are tokens. -/
def Abandons (w : System) (key : Subscription) : Prop :=
  (w.tally key).token.toNat < (w.tally key).waiting

theorem Stuck.not_waiting (hstuck : w.Stuck) {s : MemorySubscription}
    (hs : w.broker.subscriptions.get? key = some s) (hnotify : s.notify = true) :
    (⟨key, .waiting⟩ : ReceiveCall) ∉ w.calls := by
  intro hmem
  obtain ⟨i, hi⟩ := List.mem_iff_getElem?.mp hmem
  have := (hstuck i).2
  simp [System.wake, hi, InMemoryBroker.consume, hs, hnotify] at this

theorem Stuck.not_examining (hstuck : w.Stuck) {woken : Bool} :
    w.calls[i]? ≠ some ⟨key, .examining woken⟩ := by
  intro hi
  have := (hstuck i).1
  simp [System.examine, hi] at this

/-- Where the calls in progress at `Close` can be after it, without a cancelled context. -/
def Settling (w v : System) : Prop :=
  ∀ (i : Nat) (before : ReceiveCall), w.calls[i]? = some before → inProgress before = true →
    ∃ call, v.calls[i]? = some call ∧ (inProgress call = true ∨ call.phase = .returned (.error .closed))

theorem Settling.step {v v' : System} (hsettling : Settling w v) (hclosed : v.broker.closed = true)
    (hlabel : ∀ i err, label ≠ .cancel i err) (hstep : v.step label = some v') :
    Settling w v' := by
  intro i before hi hprogress
  obtain ⟨call, hcall, hphase⟩ := hsettling i before hi hprogress
  rcases step_calls hstep with heq | ⟨contextErr, sub, heq⟩ | ⟨j, key, p, p', hj, heq, hmove, -⟩ <;>
    rw [heq]
  · exact ⟨call, hcall, hphase⟩
  · refine ⟨call, ?_, hphase⟩
    rw [List.getElem?_append_left (List.getElem?_eq_some_iff.mp hcall).1, hcall]
  · by_cases hij : j = i
    · subst hij
      rw [List.getElem?_set_self (List.getElem?_eq_some_iff.mp hcall).1]
      refine ⟨_, rfl, ?_⟩
      cases hmove with
      | deliver woken d hopen =>
        rw [hclosed] at hopen
        cases hopen
      | refuse woken => exact .inr rfl
      | wait woken hopen =>
        rw [hclosed] at hopen
        cases hopen
      | wake => exact .inl rfl
      | cancel j err hcancel => exact absurd hcancel (hlabel j err)
    · rw [List.getElem?_set_ne hij]
      exact ⟨call, hcall, hphase⟩

/-- How many steps the calls have left after `Close`. -/
def stepsLeft (w : System) : Nat :=
  w.calls.countP (fun call => call.phase = .waiting) +
    w.calls.countP inProgress

theorem stepsLeft_lt (hclosed : w.broker.closed = true)
    (hstep : w.examine i = some w' ∨ w.wake i = some w') : w'.stepsLeft < w.stepsLeft := by
  unfold stepsLeft
  rcases hstep with hstep | hstep
  · obtain ⟨key, woken, hcall, rfl⟩ := examine_closed hclosed hstep
    have hwaiting := countP_set_add (p := fun call => call.phase = .waiting) hcall
      ⟨key, .returned (.error .closed)⟩
    have hprogress := countP_set_add (p := inProgress) hcall
      ⟨key, .returned (.error .closed)⟩
    simp [inProgress] at hwaiting hprogress
    dsimp only
    omega
  · obtain ⟨key, s, hcall, -, -, rfl⟩ := wake_eq_some hstep
    have hwaiting := countP_set_add (p := fun call => call.phase = .waiting) hcall
      ⟨key, .examining true⟩
    have hprogress := countP_set_add (p := inProgress) hcall
      ⟨key, .examining true⟩
    simp [inProgress] at hwaiting hprogress
    dsimp only
    omega

theorem exists_stuck (h : w.Sound) (hclosed : w.broker.closed = true) :
    ∃ labels w', (∀ label ∈ labels, ∀ i err, label ≠ .cancel i err) ∧
      runLabels System.step w labels = some w' ∧ w'.Stuck := by
  induction hleft : w.stepsLeft using Nat.strong_induction_on generalizing w with
  | _ left ih =>
    by_cases hstuck : w.Stuck
    · exact ⟨[], w, nofun, rfl, hstuck⟩
    -- some call can take a step, after which fewer are left
    have hmove : ∃ i label v, w.step label = some v ∧ (∀ j err, label ≠ .cancel j err) ∧
        (w.examine i = some v ∨ w.wake i = some v) := by
      obtain ⟨i, hi⟩ := not_forall.mp hstuck
      rcases Decidable.not_and_iff_or_not.mp hi with hexamine | hwake
      · obtain ⟨v, hv⟩ := Option.ne_none_iff_exists'.mp hexamine
        exact ⟨i, .examine i, v, hv, nofun, .inl hv⟩
      · obtain ⟨v, hv⟩ := Option.ne_none_iff_exists'.mp hwake
        exact ⟨i, .wake i, v, hv, nofun, .inr hv⟩
    obtain ⟨i, label, v, hstep, hlabel, hv⟩ := hmove
    obtain ⟨labels, w', hlabels, hrun, hw'⟩ := ih v.stepsLeft (hleft ▸ stepsLeft_lt hclosed hv)
      (h.step hstep).sound (step_shut h hclosed hstep) rfl
    refine ⟨label :: labels, w', fun l hl => ?_, runLabels_cons.mpr ⟨v, hstep, hrun⟩, hw'⟩
    rcases List.mem_cons.mp hl with rfl | hl
    · exact hlabel
    · exact hlabels l hl

theorem Abandons.step (habandons : w.Abandons key) (h : w.Sound)
    (hclosed : w.broker.closed = true) (hlabel : ∀ i err, label ≠ .cancel i err)
    (hstep : w.step label = some w') : w'.Abandons key := by
  unfold Abandons at habandons ⊢
  rcases shut_step h hclosed hstep key with ⟨htoken, hwaiting⟩ | ⟨htoken, htoken', hwaiting⟩ |
    ⟨⟨i, err, hcancel⟩, -⟩
  · rwa [htoken, hwaiting]
  · rw [htoken, Bool.toNat_true] at habandons
    rw [htoken', Bool.toNat_false]
    omega
  · exact absurd hcancel (hlabel i err)

theorem Provided.step (hprovided : w.Provided key) (h : w.Sound)
    (hclosed : w.broker.closed = true) (hstep : w.step label = some w') :
    w'.Provided key := by
  unfold Provided at hprovided ⊢
  rcases shut_step h hclosed hstep key with ⟨htoken, hwaiting⟩ | ⟨htoken, htoken', hwaiting⟩ |
    ⟨-, htoken, hwaiting⟩
  · rwa [htoken, hwaiting]
  · rw [htoken, Bool.toNat_true] at hprovided
    rw [htoken', Bool.toNat_false]
    omega
  · rw [htoken]
    omega

/-- `Close` gives every subscription a token. -/
theorem close_provided (hattached : w.Attached) (hopen : w.broker.closed = false)
    (hone : w.waiting key ≤ 1) : Provided { w with broker := w.broker.close } key := by
  rcases Nat.eq_zero_or_pos (w.waiting key) with hnone | hsome
  · exact hnone.le.trans (Nat.zero_le _)
  · obtain ⟨s, hs⟩ := hattached key (waiting_pos.mp hsome)
    have hclose : w.broker.close.subscriptions.get? key = some (signalMemorySubscription s) := by
      simp [InMemoryBroker.close, hopen, KeyMap.get?_map, hs]
    have htoken : (tally { w with broker := w.broker.close } key).token = true :=
      congrArg MemorySubscription.notify (locked_of_get? hclose)
    rw [Provided, htoken]
    exact hone

theorem released_of_stuck {v : System} (hattached : v.Attached) (hprovided : ∀ key, v.Provided key)
    (hsettling : Settling w v) (hstuck : v.Stuck) : Released w v := by
  intro i call hcall
  obtain ⟨key, phase⟩ := call
  cases phase with
  | examining woken => exact absurd hcall hstuck.not_examining
  | waiting =>
    have hmem := List.mem_of_getElem? hcall
    obtain ⟨s, hs⟩ := hattached key hmem
    have htoken : 1 ≤ (v.tally key).token.toNat :=
      (waiting_pos.mpr hmem).trans_le (hprovided key)
    have hnotify : s.notify = true := by
      rw [tally, locked_of_get? hs] at htoken
      cases hn : s.notify with
      | true => rfl
      | false => simp [hn] at htoken
    exact absurd hmem (hstuck.not_waiting hs hnotify)
  | returned result =>
    refine ⟨result, rfl, fun before hbefore hprogress => .inl ?_⟩
    obtain ⟨call, hcall', hphase⟩ := hsettling i before hbefore hprogress
    rw [hcall] at hcall'
    cases hcall'
    rcases hphase with hstill | hclosed
    · cases hstill
    · exact (ReceivePhase.returned.inj hclosed)

/-- A run after `Close` without a cancelled context keeps what each of its steps keeps. -/
theorem closed_invariant {I : System → Prop}
    (hstep : ∀ v label v', v.Sound → v.broker.closed = true → (∀ i err, label ≠ .cancel i err) →
      v.step label = some v' → I v → I v')
    {after : List Label} (hafter : ∀ label ∈ after, ∀ i err, label ≠ .cancel i err)
    (h : w.Sound) (hclosed : w.broker.closed = true) (hw : I w)
    (hrun : runLabels System.step w after = some w') : I w' := by
  refine (Meets.invariant (I := fun v : System => v.Sound ∧ v.broker.closed = true ∧ I v) ?_
    (meets_of_forall (fun label hl _ => hafter label hl) w) ⟨h, hclosed, hw⟩ hrun).2.2
  rintro v label v' hlabel hv ⟨hsound, hclosed, hI⟩
  exact ⟨(hsound.step hv).sound, step_shut hsound hclosed hv,
    hstep v label v' hsound hclosed hlabel hv hI⟩

/-- All calls are released when at most one waits on each subscription. -/
theorem released_of_one (h : w.Sound) (hattached : w.Attached) (hopen : w.broker.closed = false)
    (hone : ∀ key, w.waiting key ≤ 1) {after : List Label}
    (hafter : ∀ label ∈ after, ∀ i err, label ≠ .cancel i err)
    (hrun : runLabels System.step { w with broker := w.broker.close } after = some w')
    (hstuck : w'.Stuck) : Released w w' := by
  obtain ⟨hattached', hprovided, hsettling⟩ := closed_invariant
    (I := fun v => v.Attached ∧ (∀ key, v.Provided key) ∧ Settling w v)
    (fun v label v' hv hclosed hlabel hstep hI => ⟨hI.1.step hv hstep,
      fun key => (hI.2.1 key).step hv hclosed hstep, hI.2.2.step hclosed hlabel hstep⟩)
    hafter h.close.sound close_closed
    ⟨hattached.step h (show w.step .close = _ from rfl),
      fun key => close_provided hattached hopen (hone key),
      fun i before hi hprogress => ⟨before, hi, .inl hprogress⟩⟩ hrun
  exact released_of_stuck hattached' hprovided hsettling hstuck

/-- Two calls wait on a subscription: however the calls go on, one is left when none can. -/
theorem not_released_of_two (h : w.Sound) (htwo : 1 < w.waiting key) :
    ∃ after w', (∀ label ∈ after, ∀ i err, label ≠ .cancel i err) ∧
      runLabels System.step { w with broker := w.broker.close } after = some w' ∧ w'.Stuck ∧
      ¬Released w w' := by
  obtain ⟨after, w', hafter, hrun, hstuck⟩ := exists_stuck h.close.sound close_closed
  refine ⟨after, w', hafter, hrun, hstuck, fun hreleased => ?_⟩
  have hleft : w'.Abandons key := closed_invariant (I := fun v => v.Abandons key)
    (fun v label v' hv hclosed hlabel hstep hI => hI.step hv hclosed hlabel hstep)
    hafter h.close.sound close_closed (Nat.lt_of_le_of_lt (Bool.toNat_le _) htwo) hrun
  obtain ⟨i, hi⟩ := List.mem_iff_getElem?.mp (waiting_pos.mp (Nat.zero_lt_of_lt hleft))
  obtain ⟨result, hresult, -⟩ := hreleased i _ hi
  cases hresult

/-- `Close` releases all calls of `Receive` if and only if one at most waits on each
subscription when it is called. -/
theorem close_releases_iff {labels : List Label}
    (hrun : runLabels System.step {} labels = some w) (hopen : w.broker.closed = false) :
    (∀ after w', (∀ label ∈ after, ∀ i err, label ≠ .cancel i err) →
      runLabels System.step { w with broker := w.broker.close } after = some w' → w'.Stuck →
        Released w w') ↔ ∀ key, w.waiting key ≤ 1 := by
  have hsound := sound_initial.run hrun
  have hattached : w.Attached := (run_invariant (I := fun v : System => v.Sound ∧ v.Attached)
    (fun v label v' hstep hv => ⟨(hv.1.step hstep).sound, hv.2.step hv.1 hstep⟩)
    ⟨sound_initial, nofun⟩ hrun).2
  constructor
  · intro hreleased key
    by_contra htwo
    obtain ⟨after, w', hafter, hrun', hstuck, hnot⟩ :=
      not_released_of_two hsound (Nat.lt_of_not_le htwo)
    exact hnot (hreleased after w' hafter hrun' hstuck)
  · intro hone after w' hafter hrun' hstuck
    exact released_of_one hsound hattached hopen hone hafter hrun' hstuck

/-- One receiver waits when the broker is closed. -/
theorem close_releases_iff_one : ∃ v, runLabels System.step {} [.receive none sampleSubscription,
    .examine 0] = some v ∧ v.broker.closed = false ∧
      ((∀ after v', (∀ label ∈ after, ∀ i err, label ≠ .cancel i err) →
        runLabels System.step { v with broker := v.broker.close } after = some v' → v'.Stuck →
          Released v v') ↔ ∀ key, v.waiting key ≤ 1) := by
  obtain ⟨v, hv, hopen⟩ := exists_of_runLabels System.step {}
    [.receive none sampleSubscription, .examine 0] (fun v => v.broker.closed = false)
    (by decide +kernel)
  exact ⟨v, hv, hopen, close_releases_iff hv hopen⟩

/-- Two calls wait on one subscription, and `Close` has a token for one of them. -/
theorem receiver_left_waiting : ∃ v v', runLabels System.step {} twoWaiting = some v ∧
    v.broker.closed = false ∧
    runLabels System.step { v with broker := v.broker.close } [.wake 0, .examine 0] = some v' ∧
    v'.Stuck ∧ ¬Released v v' := by
  obtain ⟨v, hv, hopen, hafter⟩ := exists_of_runLabels System.step {} twoWaiting
    (fun v => v.broker.closed = false ∧
      ((runLabels System.step { v with broker := v.broker.close } [.wake 0, .examine 0]).any
        fun v' => v'.Stuck ∧ v'.calls[1]? = some ⟨sampleSubscription, .waiting⟩) = true)
    (by decide +kernel)
  obtain ⟨v', hv', hstuck, hwaits⟩ := exists_of_runLabels _ _ _ _ hafter
  refine ⟨v, v', hv, hopen, hv', hstuck, fun hreleased => ?_⟩
  obtain ⟨result, hresult, -⟩ := hreleased 1 _ hwaits
  cases hresult

end

end System

end ForgeFlow.Broker
