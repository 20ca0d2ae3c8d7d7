import ForgeFlow.Base.Checks
import ForgeFlow.Base.GoString
import ForgeFlow.Base.Greedy
import ForgeFlow.Base.KeyMap
import ForgeFlow.Base.Machine

/-!
# The fixed-window rate limiter

`FixedWindowRateLimiter` of `security/rate_limit.go`: a window for each key, opened by the
key's first call and by each call after the window has passed. All keys share a call
counter, and every 1024th call deletes the windows that have passed. The clock reading of
a call is an argument here.
-/

namespace ForgeFlow.Security

open ForgeFlow.Base

structure RateLimitDecision where
  allowed : Bool
  limit : Int
  remaining : Int
  retryAfter : Int
  resetAt : Int
  deriving DecidableEq

structure RateWindow where
  startedAt : Int
  count : Int
  deriving DecidableEq

structure FixedWindowRateLimiter where
  limit : Int
  window : Int
  windows : KeyMap GoString RateWindow
  calls : UInt64

def newFixedWindowRateLimiter (limit window : Int) : Except GoString FixedWindowRateLimiter := do
  firstError [
    (limit < 1, ascii "rate limit must be at least one"),
    (window ≤ 0, ascii "rate-limit window must be positive")]
  pure { limit := limit, window := window, windows := ∅, calls := 0 }

/-- The window a call falls in: the one that is there until it has passed, then a new one. -/
def currentWindow (duration : Int) (window : Option RateWindow) (now : Int) : RateWindow :=
  match window with
  | some window =>
    if now < window.startedAt + duration then window else { startedAt := now, count := 0 }
  | none => { startedAt := now, count := 0 }

namespace FixedWindowRateLimiter

/-- The windows a call looks at, after the purge that every 1024th call makes. -/
def purge (limiter : FixedWindowRateLimiter) (calls : UInt64) (now : Int) :
    KeyMap GoString RateWindow :=
  if calls % 1024 = 0 then
    limiter.windows.filter fun _ window => now < window.startedAt + limiter.window
  else limiter.windows

def allow (limiter : FixedWindowRateLimiter) (call : GoString × Int) :
    FixedWindowRateLimiter × RateLimitDecision :=
  let (key, now) := call
  let calls := limiter.calls + 1
  let windows := limiter.purge calls now
  let window := currentWindow limiter.window (windows.get? key) now
  if limiter.limit ≤ window.count then
    ({ limiter with calls := calls, windows := windows },
      { allowed := false
        limit := limiter.limit
        remaining := 0
        retryAfter := max 0 (window.startedAt + limiter.window - now)
        resetAt := window.startedAt + limiter.window })
  else
    let window := { window with count := window.count + 1 }
    ({ limiter with calls := calls, windows := windows.insert key window },
      { allowed := true
        limit := limiter.limit
        remaining := limiter.limit - window.count
        retryAfter := 0
        resetAt := window.startedAt + limiter.window })

/-- The calls of a sequence, each a key and a clock reading, with their decisions. -/
def decisions (limiter : FixedWindowRateLimiter) (calls : List (GoString × Int)) :
    List ((GoString × Int) × RateLimitDecision) :=
  trace allow limiter calls

end FixedWindowRateLimiter

/-! ## The reference: one window for each key, kept for ever -/

/-- One call of a key, given the key's window. -/
def consume (limit duration : Int) (window : Option RateWindow) (now : Int) :
    Option RateWindow × RateLimitDecision :=
  let current := currentWindow duration window now
  let resetAt := current.startedAt + duration
  if limit ≤ current.count then
    (window, ⟨false, limit, 0, max 0 (resetAt - now), resetAt⟩)
  else
    (some { current with count := current.count + 1 },
      ⟨true, limit, limit - (current.count + 1), 0, resetAt⟩)

/-- The decisions of the limiter that never deletes a window. -/
def referenceDecisions (limit duration : Int) (calls : List (GoString × Int)) :
    List ((GoString × Int) × RateLimitDecision) :=
  trace (stepAt (consume limit duration)) (fun _ => none) calls

/-- The decisions of a key that is alone, on the times of its calls. -/
def keyDecisions (limit duration : Int) (times : List Int) : List (Int × RateLimitDecision) :=
  trace (consume limit duration) none times

section Reference

variable {limit duration : Int} {limiter : FixedWindowRateLimiter}

theorem currentWindow_of_passed {window : RateWindow} {now : Int}
    (h : window.startedAt + duration ≤ now) :
    currentWindow duration (some window) now = { startedAt := now, count := 0 } :=
  if_neg (not_lt.mpr h)

theorem currentWindow_of_open {window : RateWindow} {now : Int}
    (h : now < window.startedAt + duration) :
    currentWindow duration (some window) now = window := if_pos h

/-- A window that has passed is as good as none. -/
theorem consume_of_passed (hlimit : 1 ≤ limit) {window : RateWindow} {now : Int}
    (h : window.startedAt + duration ≤ now) :
    consume limit duration (some window) now = consume limit duration none now := by
  have hfresh : ¬limit ≤ 0 := by omega
  rw [consume, consume, currentWindow_of_passed h, currentWindow, if_neg hfresh, if_neg hfresh]

theorem allow_decision (limiter : FixedWindowRateLimiter) (key : GoString) (now : Int) :
    (limiter.allow (key, now)).2 = (consume limiter.limit limiter.window
      ((limiter.purge (limiter.calls + 1) now).get? key) now).2 := by
  simp only [FixedWindowRateLimiter.allow, consume]
  split <;> rfl

theorem allow_windows (limiter : FixedWindowRateLimiter) (key : GoString) (now : Int)
    (key' : GoString) :
    (limiter.allow (key, now)).1.windows.get? key' =
      if key' = key then (consume limiter.limit limiter.window
        ((limiter.purge (limiter.calls + 1) now).get? key) now).1
      else (limiter.purge (limiter.calls + 1) now).get? key' := by
  simp only [FixedWindowRateLimiter.allow, consume]
  split
  · split
    · rename_i heq
      rw [heq]
    · rfl
  · exact KeyMap.get?_insert _ _ _ _

theorem allow_limit (limiter : FixedWindowRateLimiter) (call : GoString × Int) :
    (limiter.allow call).1.limit = limiter.limit := by
  simp only [FixedWindowRateLimiter.allow]
  split <;> rfl

theorem allow_window (limiter : FixedWindowRateLimiter) (call : GoString × Int) :
    (limiter.allow call).1.window = limiter.window := by
  simp only [FixedWindowRateLimiter.allow]
  split <;> rfl

/-- A purge deletes only windows that have passed. -/
theorem purge_get? (limiter : FixedWindowRateLimiter) (calls : UInt64) (now : Int)
    (key : GoString) :
    (limiter.purge calls now).get? key = limiter.windows.get? key ∨
      (limiter.purge calls now).get? key = none ∧
        ∀ window, limiter.windows.get? key = some window →
          window.startedAt + limiter.window ≤ now := by
  unfold FixedWindowRateLimiter.purge
  split
  · rw [KeyMap.get?_filter]
    cases limiter.windows.get? key with
    | none => exact .inl rfl
    | some window =>
      by_cases hopen : now < window.startedAt + limiter.window
      · exact .inl (by simp [hopen])
      · have hpassed := not_lt.mp hopen
        refine .inr ⟨by simp [hpassed], ?_⟩
        rintro _ ⟨⟩
        exact hpassed
  · exact .inl rfl

/-- The limiter has the reference's windows, but for windows that no call to come falls in. -/
structure Tracks (limit duration : Int) (limiter : FixedWindowRateLimiter)
    (windows : GoString → Option RateWindow) (calls : List (GoString × Int)) : Prop where
  limit_eq : limiter.limit = limit
  window_eq : limiter.window = duration
  clock : (calls.map Prod.snd).Pairwise (· ≤ ·)
  same : ∀ key, limiter.windows.get? key = windows key ∨
    limiter.windows.get? key = none ∧
      ∀ window, windows key = some window → ∀ call ∈ calls, window.startedAt + duration ≤ call.2

variable {windows : GoString → Option RateWindow} {key : GoString} {now : Int}
  {rest : List (GoString × Int)}

theorem Tracks.now_le (h : Tracks limit duration limiter windows ((key, now) :: rest)) :
    ∀ call ∈ (key, now) :: rest, now ≤ call.2 := by
  intro call hcall
  rcases List.mem_cons.mp hcall with rfl | hcall
  · exact le_refl _
  · exact (List.pairwise_cons.mp h.clock).1 _ (List.mem_map_of_mem hcall)

/-- The purge at a call leaves the windows the reference has, as far as calls can tell. -/
theorem Tracks.purged (h : Tracks limit duration limiter windows ((key, now) :: rest))
    (calls : UInt64) (key' : GoString) :
    (limiter.purge calls now).get? key' = windows key' ∨
      (limiter.purge calls now).get? key' = none ∧
        ∀ window, windows key' = some window →
          ∀ call ∈ (key, now) :: rest, window.startedAt + duration ≤ call.2 := by
  rcases purge_get? limiter calls now key' with hkept | ⟨hgone, hpassed⟩
  · rw [hkept]
    exact h.same key'
  · refine .inr ⟨hgone, ?_⟩
    intro window hwindow call hcall
    rcases h.same key' with hsame | ⟨-, hlater⟩
    · have hle := hpassed window (hsame.trans hwindow)
      rw [h.window_eq] at hle
      exact hle.trans (h.now_le call hcall)
    · exact hlater window hwindow call hcall

theorem Tracks.consume_eq (hlimit : 1 ≤ limit)
    (h : Tracks limit duration limiter windows ((key, now) :: rest)) :
    consume limiter.limit limiter.window ((limiter.purge (limiter.calls + 1) now).get? key) now =
      consume limit duration (windows key) now := by
  rw [h.limit_eq, h.window_eq]
  rcases h.purged (limiter.calls + 1) key with hsame | ⟨hgone, hpassed⟩
  · rw [hsame]
  · rw [hgone]
    cases hwindow : windows key with
    | none => rfl
    | some window =>
      exact (consume_of_passed hlimit (hpassed window hwindow _ List.mem_cons_self)).symm

/-- One call gives the reference's decision and stays on its track. -/
theorem Tracks.step (hlimit : 1 ≤ limit)
    (h : Tracks limit duration limiter windows ((key, now) :: rest)) :
    (limiter.allow (key, now)).2 = (stepAt (consume limit duration) windows (key, now)).2 ∧
      Tracks limit duration (limiter.allow (key, now)).1
        (stepAt (consume limit duration) windows (key, now)).1 rest := by
  refine ⟨by rw [allow_decision, h.consume_eq hlimit]; rfl, ?_⟩
  refine ⟨(allow_limit _ _).trans h.limit_eq, (allow_window _ _).trans h.window_eq,
    (List.pairwise_cons.mp h.clock).2, ?_⟩
  intro key'
  rw [allow_windows, h.consume_eq hlimit]
  by_cases hkey : key' = key
  · subst hkey
    exact .inl (by simp [stepAt])
  · have hother : (stepAt (consume limit duration) windows (key, now)).1 key' = windows key' :=
      Function.update_of_ne hkey _ _
    rw [if_neg hkey, hother]
    rcases h.purged (limiter.calls + 1) key' with hsame | ⟨hgone, hpassed⟩
    · exact .inl hsame
    · exact .inr ⟨hgone, fun window hwindow call hcall =>
        hpassed window hwindow call (List.mem_cons_of_mem _ hcall)⟩

/-- A new limiter decides as the reference does. -/
theorem decisions_eq_reference (hlimit : 1 ≤ limit) {calls : List (GoString × Int)}
    (hclock : (calls.map Prod.snd).Pairwise (· ≤ ·)) (counter : UInt64) :
    FixedWindowRateLimiter.decisions
        { limit := limit, window := duration, windows := ∅, calls := counter } calls =
      referenceDecisions limit duration calls :=
  trace_eq_of_related (R := Tracks limit duration)
    (fun _ _ ⟨_, _⟩ _ h => Tracks.step hlimit h) ⟨rfl, rfl, hclock, fun _ => .inl rfl⟩

end Reference

/-! ## One key's windows -/

section Windows

variable {limit duration : Int} {times : List Int} {past : List (Int × RateLimitDecision)}
  {window : RateWindow}

/-- The calls allowed in the window that ends at the given time. -/
def allowedUntil (resetAt : Int) (entries : List (Int × RateLimitDecision)) : Nat :=
  entries.countP fun entry => entry.2.allowed && entry.2.resetAt = resetAt

/-- A decision as the calls before it explain it. -/
structure Explained (limit duration : Int) (before : List (Int × RateLimitDecision))
    (entry : Int × RateLimitDecision) : Prop where
  /-- The call lies in its window, which begins with a call of the key. -/
  within : entry.1 < entry.2.resetAt ∧
    ∃ first ∈ before ++ [entry], first.1 + duration = entry.2.resetAt ∧ first.1 ≤ entry.1
  /-- Windows do not overlap. -/
  apart : ∀ earlier ∈ before, earlier.2.resetAt = entry.2.resetAt ∨
    earlier.2.resetAt + duration ≤ entry.2.resetAt
  remaining : entry.2.remaining = limit - allowedUntil entry.2.resetAt (before ++ [entry])
  remaining_nonneg : 0 ≤ entry.2.remaining
  /-- After a denial, calls before the reported reset are denied. -/
  denied : ∀ earlier ∈ before, earlier.2.allowed = false → entry.1 < earlier.2.resetAt →
    entry.2.allowed = false
  /-- After a denial, the first call at or after the reported reset is allowed. -/
  allowed : ∀ earlier ∈ before, earlier.2.allowed = false →
    (∀ other ∈ before, other.1 < earlier.2.resetAt) → earlier.2.resetAt ≤ entry.1 →
    entry.2.allowed = true

/-- What a key's window says about the calls so far. -/
structure Counted (limit duration : Int) (past : List (Int × RateLimitDecision))
    (window : RateWindow) : Prop where
  count : (allowedUntil (window.startedAt + duration) past : Int) = window.count
  bounded : window.count ≤ limit
  opened : ∃ first ∈ past, first.1 = window.startedAt
  others : ∀ entry ∈ past, entry.2.resetAt = window.startedAt + duration ∨
    entry.2.resetAt ≤ window.startedAt
  full : ∀ entry ∈ past, entry.2.allowed = false →
    entry.2.resetAt = window.startedAt + duration → window.count = limit

theorem allowedUntil_snoc (resetAt : Int) (entry : Int × RateLimitDecision) :
    allowedUntil resetAt (past ++ [entry]) = allowedUntil resetAt past +
      if entry.2.allowed && entry.2.resetAt = resetAt then 1 else 0 := by
  simp [allowedUntil, List.countP_append, List.countP_cons]

theorem allowedUntil_eq_zero {resetAt : Int} (h : ∀ entry ∈ past, entry.2.resetAt < resetAt) :
    allowedUntil resetAt past = 0 := by
  refine List.countP_eq_zero.mpr ?_
  intro entry hentry
  have hne : entry.2.resetAt ≠ resetAt := (h entry hentry).ne
  simp [hne]

theorem consume_fresh (hlimit : 1 ≤ limit) {state : Option RateWindow} {now : Int}
    (h : currentWindow duration state now = ⟨now, 0⟩) :
    consume limit duration state now =
      (some ⟨now, 1⟩, ⟨true, limit, limit - 1, 0, now + duration⟩) := by
  have hfresh : ¬limit ≤ 0 := by omega
  simp [consume, h, hfresh]

theorem consume_open {now : Int} (hopen : now < window.startedAt + duration)
    (hcount : window.count < limit) :
    consume limit duration (some window) now =
      (some ⟨window.startedAt, window.count + 1⟩,
        ⟨true, limit, limit - (window.count + 1), 0, window.startedAt + duration⟩) := by
  simp [consume, currentWindow_of_open hopen, hcount]

theorem consume_full {now : Int} (hopen : now < window.startedAt + duration)
    (hcount : limit ≤ window.count) :
    consume limit duration (some window) now =
      (some window, ⟨false, limit, 0, max 0 (window.startedAt + duration - now),
        window.startedAt + duration⟩) := by
  simp [consume, currentWindow_of_open hopen, hcount]

/-- A call after every window has passed opens one. -/
theorem explained_fresh (hduration : 0 < duration) {now : Int}
    (hlimit : 1 ≤ limit) (hpassed : ∀ entry ∈ past, entry.2.resetAt ≤ now) :
    Explained limit duration past (now, ⟨true, limit, limit - 1, 0, now + duration⟩) ∧
      Counted limit duration
        (past ++ [(now, ⟨true, limit, limit - 1, 0, now + duration⟩)]) ⟨now, 1⟩ := by
  have hnone : allowedUntil (now + duration) past = 0 :=
    allowedUntil_eq_zero fun entry hentry => by
      have := hpassed entry hentry
      omega
  refine ⟨⟨?_, ?_, ?_, ?_, ?_, ?_⟩, ⟨?_, hlimit, ?_, ?_, ?_⟩⟩
  · refine ⟨?_, _, List.mem_append_right _ (List.mem_singleton_self _), rfl, le_refl _⟩
    show now < now + duration
    omega
  · intro earlier hearlier
    have := hpassed earlier hearlier
    exact .inr (show earlier.2.resetAt + duration ≤ now + duration by omega)
  · simp [allowedUntil_snoc, hnone]
  · exact sub_nonneg.mpr hlimit
  · intro earlier hearlier _ hbefore
    exact absurd hbefore (not_lt.mpr (hpassed earlier hearlier))
  · exact fun _ _ _ _ _ => rfl
  · simp [allowedUntil_snoc, hnone]
  · exact ⟨_, List.mem_append_right _ (List.mem_singleton_self _), rfl⟩
  · intro entry hentry
    rcases List.mem_append.mp hentry with hentry | hentry
    · exact .inr (hpassed entry hentry)
    · cases List.mem_singleton.mp hentry
      exact .inl rfl
  · intro entry hentry hdenied hreset
    rcases List.mem_append.mp hentry with hentry | hentry
    · have := hpassed entry hentry
      simp only at hreset
      omega
    · cases List.mem_singleton.mp hentry
      cases hdenied

/-- A call while the window is open. -/
theorem Counted.explained (h : Counted limit duration past window)
    {entry : Int × RateLimitDecision} (hclock : ∀ earlier ∈ past, earlier.1 ≤ entry.1)
    (hopen : entry.1 < window.startedAt + duration)
    (hreset : entry.2.resetAt = window.startedAt + duration)
    (hremaining : entry.2.remaining =
      limit - allowedUntil (window.startedAt + duration) (past ++ [entry]))
    (hnonneg : 0 ≤ entry.2.remaining)
    (hdenied : window.count = limit → entry.2.allowed = false) :
    Explained limit duration past entry := by
  obtain ⟨first, hfirst, hstart⟩ := h.opened
  have hstarted : window.startedAt ≤ entry.1 := hstart ▸ hclock first hfirst
  refine ⟨⟨hreset ▸ hopen, first, List.mem_append_left _ hfirst, ?_, hclock first hfirst⟩, ?_,
    ?_, hnonneg, ?_, ?_⟩
  · rw [hreset, hstart]
  · intro earlier hearlier
    rw [hreset]
    exact (h.others earlier hearlier).imp id fun hle => by omega
  · rw [hreset]
    exact hremaining
  · intro earlier hearlier hfalse hbefore
    rcases h.others earlier hearlier with hsame | hle
    · exact hdenied (h.full earlier hearlier hfalse hsame)
    · omega
  · intro earlier hearlier _ hall hafter
    -- the window would have begun with a call that is already past the reset
    rcases h.others earlier hearlier with hsame | hle
    · omega
    · have := hall first hfirst
      omega

/-- The window after one more call in it. -/
theorem Counted.next (h : Counted limit duration past window)
    {entry : Int × RateLimitDecision} {count : Int}
    (hreset : entry.2.resetAt = window.startedAt + duration)
    (hcount : (allowedUntil (window.startedAt + duration) (past ++ [entry]) : Int) = count)
    (hle : window.count ≤ count) (hbounded : count ≤ limit)
    (hfull : entry.2.allowed = false → count = limit) :
    Counted limit duration (past ++ [entry]) ⟨window.startedAt, count⟩ := by
  refine ⟨hcount, hbounded, ?_, ?_, ?_⟩
  · obtain ⟨first, hfirst, hstart⟩ := h.opened
    exact ⟨first, List.mem_append_left _ hfirst, hstart⟩
  · intro other hother
    rcases List.mem_append.mp hother with hother | hother
    · exact h.others other hother
    · cases List.mem_singleton.mp hother
      exact .inl hreset
  · intro other hother hdenied hsame
    rcases List.mem_append.mp hother with hother | hother
    · have := h.full other hother hdenied hsame
      show count = limit
      omega
    · cases List.mem_singleton.mp hother
      exact hfull hdenied

/-- What is known of a key's window, if it has one. -/
def Kept (limit duration : Int) (past : List (Int × RateLimitDecision)) :
    Option RateWindow → Prop
  | none => past = []
  | some window => Counted limit duration past window

theorem Kept.step (hlimit : 1 ≤ limit) (hduration : 0 < duration) {state : Option RateWindow}
    (h : Kept limit duration past state) {now : Int} (hclock : ∀ earlier ∈ past, earlier.1 ≤ now) :
    Explained limit duration past (now, (consume limit duration state now).2) ∧
      Kept limit duration (past ++ [(now, (consume limit duration state now).2)])
        (consume limit duration state now).1 := by
  have hfresh : currentWindow duration state now = ⟨now, 0⟩ →
      (∀ entry ∈ past, entry.2.resetAt ≤ now) →
      Explained limit duration past (now, (consume limit duration state now).2) ∧
        Kept limit duration (past ++ [(now, (consume limit duration state now).2)])
          (consume limit duration state now).1 := by
    intro hcurrent hpassed
    rw [consume_fresh hlimit hcurrent]
    exact explained_fresh hduration hlimit hpassed
  cases state with
  | none =>
    refine hfresh rfl ?_
    rw [show past = [] from h]
    exact fun _ hentry => absurd hentry List.not_mem_nil
  | some window =>
    have hcounted : Counted limit duration past window := h
    by_cases hopen : now < window.startedAt + duration
    · by_cases hroom : window.count < limit
      · rw [consume_open hopen hroom]
        have hcount : (allowedUntil (window.startedAt + duration) (past ++ [(now,
            ⟨true, limit, limit - (window.count + 1), 0, window.startedAt + duration⟩)]) : Int) =
            window.count + 1 := by
          rw [allowedUntil_snoc, if_pos (by simp), Nat.cast_add, hcounted.count, Nat.cast_one]
        refine ⟨hcounted.explained hclock hopen rfl ?_ (sub_nonneg.mpr hroom) ?_,
          hcounted.next rfl hcount (by omega) (by omega) nofun⟩
        · rw [hcount]
        · intro hfull
          omega
      · have hfull : limit ≤ window.count := not_lt.mp hroom
        have hsame : window.count = limit := le_antisymm hcounted.bounded hfull
        rw [consume_full hopen hfull]
        have hcount : (allowedUntil (window.startedAt + duration) (past ++ [(now,
            ⟨false, limit, 0, max 0 (window.startedAt + duration - now),
              window.startedAt + duration⟩)]) : Int) = window.count := by
          rw [allowedUntil_snoc, if_neg (by simp), Nat.add_zero, hcounted.count]
        refine ⟨hcounted.explained hclock hopen rfl ?_ (le_refl _) fun _ => rfl,
          hcounted.next rfl hcount (le_refl _) hcounted.bounded fun _ => hsame⟩
        rw [hcount, hsame, sub_self]
    · have hpassed := not_lt.mp hopen
      refine hfresh (currentWindow_of_passed hpassed) ?_
      intro entry hentry
      rcases hcounted.others entry hentry with hsame | hle
      · omega
      · omega

/-- Every decision of a key is explained by the key's calls before it. -/
theorem keyDecisions_explained (hlimit : 1 ≤ limit) (hduration : 0 < duration)
    (hclock : times.Pairwise (· ≤ ·)) :
    EachSplit (Explained limit duration) (keyDecisions limit duration times) ∧
      Kept limit duration (keyDecisions limit duration times)
        (stateAfter (consume limit duration) none times) := by
  induction times using List.reverseRecOn with
  | nil => exact ⟨EachSplit.nil, rfl⟩
  | append_singleton times now ih =>
    obtain ⟨hbefore, -, hlast⟩ := List.pairwise_append.mp hclock
    obtain ⟨hsplit, hkept⟩ := ih hbefore
    have hpast : ∀ earlier ∈ keyDecisions limit duration times, earlier.1 ≤ now := by
      intro earlier hearlier
      have hmem := List.mem_map_of_mem (f := Prod.fst) hearlier
      rw [keyDecisions, trace_map_fst] at hmem
      exact hlast _ hmem now (List.mem_singleton_self _)
    obtain ⟨hexplained, hnext⟩ := hkept.step hlimit hduration hpast
    rw [keyDecisions, trace_snoc, stateAfter_snoc]
    exact ⟨hsplit.snoc hexplained, hnext⟩

/-- No window has more allowed calls than the limit. -/
theorem allowedUntil_le (hlimit : 1 ≤ limit) (h : EachSplit (Explained limit duration) past)
    (resetAt : Int) : (allowedUntil resetAt past : Int) ≤ limit := by
  induction past using List.reverseRecOn with
  | nil =>
    show (0 : Int) ≤ limit
    omega
  | append_singleton past entry ih =>
    obtain ⟨hpast, hentry⟩ := h.of_snoc
    by_cases hreset : entry.2.resetAt = resetAt
    · have hremaining := hentry.remaining
      have hnonneg := hentry.remaining_nonneg
      rw [hreset] at hremaining
      omega
    · rw [allowedUntil_snoc, if_neg (by simp [hreset]), Nat.add_zero]
      exact ih hpast

end Windows

theorem newFixedWindowRateLimiter_eq {limit window : Int} (hlimit : 1 ≤ limit)
    (hwindow : 0 < window) :
    newFixedWindowRateLimiter limit window =
      .ok { limit := limit, window := window, windows := ∅, calls := 0 } := by
  have hlimit' : ¬limit < 1 := by omega
  have hwindow' : ¬window ≤ 0 := by omega
  simp [newFixedWindowRateLimiter, firstError, hlimit', hwindow']

theorem inputsOf_clock {calls : List (GoString × Int)} (key : GoString)
    (hclock : (calls.map Prod.snd).Pairwise (· ≤ ·)) :
    (inputsOf key calls).Pairwise (· ≤ ·) := by
  refine List.Pairwise.sublist ?_ hclock
  induction calls with
  | nil => exact List.Sublist.slnil
  | cons call rest ih =>
    have hrest := ih (List.pairwise_cons.mp hclock).2
    by_cases hkey : call.1 = key
    · simp only [inputsOf, List.filterMap_cons, hkey, if_true, List.map_cons]
      exact hrest.cons_cons _
    · simp only [inputsOf, List.filterMap_cons, hkey, if_false, List.map_cons]
      exact hrest.cons _

/-- A limiter gives every key the decisions of the limiter that keeps the key's windows for
ever and serves no other key, whatever the other keys do and whenever it purges. In each of
the key's windows it allows at most the limit, and it reports what remains and when the
window ends. -/
theorem allow_serves_each_key (limit window : Int) (hlimit : 1 ≤ limit) (hwindow : 0 < window) :
    ∃ limiter, newFixedWindowRateLimiter limit window = .ok limiter ∧
      ∀ calls : List (GoString × Int), (calls.map Prod.snd).Pairwise (· ≤ ·) →
        limiter.decisions calls = referenceDecisions limit window calls ∧
        ∀ key,
          traceOf key (limiter.decisions calls) = keyDecisions limit window (inputsOf key calls) ∧
          (∀ calls' : List (GoString × Int), (calls'.map Prod.snd).Pairwise (· ≤ ·) →
            inputsOf key calls' = inputsOf key calls →
            traceOf key (limiter.decisions calls') = traceOf key (limiter.decisions calls)) ∧
          EachSplit (Explained limit window) (traceOf key (limiter.decisions calls)) ∧
          ∀ resetAt,
            (allowedUntil resetAt (traceOf key (limiter.decisions calls)) : Int) ≤ limit := by
  refine ⟨_, newFixedWindowRateLimiter_eq hlimit hwindow, ?_⟩
  have hkey : ∀ calls : List (GoString × Int), (calls.map Prod.snd).Pairwise (· ≤ ·) → ∀ key,
      traceOf key (FixedWindowRateLimiter.decisions
          { limit := limit, window := window, windows := ∅, calls := 0 } calls) =
        keyDecisions limit window (inputsOf key calls) := by
    intro calls hclock key
    rw [decisions_eq_reference hlimit hclock]
    exact traceOf_stepAt _ _ _ _
  intro calls hclock
  refine ⟨decisions_eq_reference hlimit hclock _, ?_⟩
  intro key
  have hexplained : EachSplit (Explained limit window)
      (keyDecisions limit window (inputsOf key calls)) :=
    (keyDecisions_explained hlimit hwindow (inputsOf_clock key hclock)).1
  refine ⟨hkey calls hclock key, ?_, ?_, ?_⟩
  · intro calls' hclock' hsame
    rw [hkey calls' hclock', hkey calls hclock, hsame]
  · rw [hkey calls hclock]
    exact hexplained
  · rw [hkey calls hclock]
    exact allowedUntil_le hlimit hexplained

/-- Two keys with a limit of one: the denied key is served again when its window ends. -/
def twoKeyCalls : List (GoString × Int) :=
  [(ascii "a", 0), (ascii "b", 3), (ascii "a", 9), (ascii "a", 10)]

theorem twoKeyCalls_decisions :
    (1 : Int) ≤ 1 ∧ (0 : Int) < 10 ∧ (twoKeyCalls.map Prod.snd).Pairwise (· ≤ ·) ∧
      ∃ limiter, newFixedWindowRateLimiter 1 10 = .ok limiter ∧
        limiter.decisions twoKeyCalls = referenceDecisions 1 10 twoKeyCalls := by
  obtain ⟨limiter, hnew, hcalls⟩ := allow_serves_each_key 1 10 (by decide) (by decide)
  exact ⟨by decide, by decide, by decide, limiter, hnew, (hcalls twoKeyCalls (by decide)).1⟩

end ForgeFlow.Security
