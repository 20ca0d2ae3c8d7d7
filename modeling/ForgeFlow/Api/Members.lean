import ForgeFlow.Api.Responses
import ForgeFlow.Persistence.References

/-!
# Concurrent membership requests

`handleProjectMember` makes up to five store calls, each atomic. Any number of
requests run at once, together with the other calls of the store, and their steps
interleave freely.
-/

namespace ForgeFlow.Api

open ForgeFlow.Base ForgeFlow.Workflow ForgeFlow.Execution ForgeFlow.Security
  ForgeFlow.Persistence

variable {m₀ : Membership} {t : MemberThread} {i : Nat}

/-! ## The handler, one store call at a time -/

inductive Response where
  | failed (error : APIError)
  | member (status : Nat) (membership : Membership)
  deriving DecidableEq

structure MemberRequest where
  principal : UserID
  projectID : ProjectID
  userID : UserID
  displayName : GoString
  role : Role
  deriving DecidableEq

/-- Where a request stands: before the store call it makes next, or answered. -/
inductive Phase where
  | loadingPrincipal
  | loadingPrincipalMembership
  | loadingMembership
  | listingMemberships (now : Int) (existing : Option Membership)
  | puttingMembership (now : Int) (existing : Option Membership)
  | responded (response : Response)
  deriving DecidableEq

/-- What a step takes from its surroundings: the context, the clock, the random
part of an audit ID, and the error of the journal append, if any. -/
structure StepInput where
  ctx : ContextState := .live
  now : Int := 0
  randomID : Option GoString := none
  appendError : Option GoString := none

def fail (error : APIError) : Phase := .responded (.failed error)

namespace MemberRequest

/-- `LoadUser`, the first half of `authorizeProject`. -/
def loadPrincipal (request : MemberRequest) (store : FileStore) (input : StepInput) : Phase :=
  if !validResourceID request.projectID then
    fail (apiError 400 "invalid_project_id" "project ID is invalid" "projectID")
  else
    match contextError input.ctx with
    | .error e => fail (storeErrorResponse e)
    | .ok _ =>
      match store.users.get? request.principal with
      | none => fail (apiError 403 "forbidden" "authenticated user is not provisioned" "")
      | some user =>
        if user.disabled then
          fail (apiError 403 "user_disabled" "authenticated user is disabled" "")
        else .loadingPrincipalMembership

/-- `LoadMembership` of the principal, and the checks of the request behind it. -/
def loadPrincipalMembership (request : MemberRequest) (store : FileStore) (input : StepInput) :
    Phase :=
  match contextError input.ctx with
  | .error e => fail (storeErrorResponse e)
  | .ok _ =>
    match store.membership? request.projectID request.principal with
    | none => fail (apiError 404 "project_not_found" "project was not found" "project_id")
    | some membership =>
      if !membership.role.allows .projectManage then
        fail (apiError 403 "forbidden" "project role does not allow this operation" "")
      else if !plainIdentifier request.userID then
        fail (apiError 400 "invalid_user_id" "user ID is invalid" "userID")
      else
        match request.role.validate with
        | .error e => fail ⟨422, ascii "invalid_role", e, ascii "role"⟩
        | .ok _ => .loadingMembership

/-- `LoadMembership` of the user the request is about. -/
def loadMembership (request : MemberRequest) (store : FileStore) (input : StepInput) : Phase :=
  match contextError input.ctx with
  | .error e => fail (storeErrorResponse e)
  | .ok _ =>
    let existing := store.membership? request.projectID request.userID
    if (existing.any fun m => m.role = .admin) && request.role ≠ .admin then
      .listingMemberships input.now existing
    else .puttingMembership input.now existing

def admins (store : FileStore) (projectID : ProjectID) : Nat :=
  (store.membersOf projectID).values.countP fun m => m.role = .admin

/-- `ListMemberships` and the count of the admins. -/
def listMemberships (request : MemberRequest) (store : FileStore) (input : StepInput)
    (now : Int) (existing : Option Membership) : Phase :=
  match contextError input.ctx with
  | .error e => fail (storeErrorResponse e)
  | .ok _ =>
    if admins store request.projectID = 1 then
      fail (apiError 409 "last_admin" "a project must retain at least one admin" "role")
    else .puttingMembership now existing

def newMembership (request : MemberRequest) (now : Int) (existing : Option Membership) :
    Membership where
  projectID := request.projectID
  userID := request.userID
  role := request.role
  createdAt := (existing.map Membership.createdAt).getD now
  updatedAt := now

def newUser (request : MemberRequest) (now : Int) : User :=
  ⟨request.userID, request.displayName, false, now⟩

def auditEvent (request : MemberRequest) (now : Int) (existing : Option Membership)
    (randomID : GoString) : AuditEvent :=
  newAuditEvent request.projectID request.principal "membership.updated" "user" request.userID
    (KeyMap.ofList [
      (ascii "old_role", (existing.map fun m => m.role.text).getD []),
      (ascii "new_role", request.role.text)]) now randomID

/-- The call of `PutMembership`. -/
def putCall (request : MemberRequest) (input : StepInput) (randomID : GoString) (now : Int)
    (existing : Option Membership) : Mutation :=
  .putMembership input.ctx (request.newUser now) (request.newMembership now existing)
    (request.auditEvent now existing randomID)

/-- What comes before the call: the identity of the event, and the check of the user. -/
def auditIdentity (request : MemberRequest) (input : StepInput) (now : Int) :
    Except APIError GoString := do
  let randomID ← required input.randomID
    (apiError 500 "internal_error" "could not create audit identity" "")
  (request.newUser now).validate.mapError fun e =>
    ⟨422, ascii "invalid_user", e, ascii "display_name"⟩
  return randomID

def putMembership (request : MemberRequest) (store : FileStore) (input : StepInput)
    (now : Int) (existing : Option Membership) : FileStore × Phase :=
  match request.auditIdentity input now with
  | .error e => (store, fail e)
  | .ok randomID =>
    match commit store (request.putCall input randomID now existing) input.appendError with
    | .error e => (store, fail (requestOrStoreErrorResponse e))
    | .ok next => (next, .responded (.member (if existing.isSome then 200 else 201)
        (request.newMembership now existing)))

/-- The next store call of a request and the code up to the one after it. -/
def step (request : MemberRequest) (store : FileStore) (input : StepInput) :
    Phase → FileStore × Phase
  | .loadingPrincipal => (store, request.loadPrincipal store input)
  | .loadingPrincipalMembership => (store, request.loadPrincipalMembership store input)
  | .loadingMembership => (store, request.loadMembership store input)
  | .listingMemberships now existing =>
    (store, request.listMemberships store input now existing)
  | .puttingMembership now existing => request.putMembership store input now existing
  | .responded response => (store, .responded response)

end MemberRequest

/-! ## The server -/

structure MemberThread where
  request : MemberRequest
  phase : Phase
  deriving DecidableEq

structure Server where
  store : FileStore := {}
  threads : List MemberThread := []
  deriving DecidableEq

def putsMembership : Mutation → Bool
  | .putMembership _ _ _ _ => true
  | _ => false

inductive ServerStep where
  /-- A membership request comes in. -/
  | arrive (request : MemberRequest)
  /-- A request makes its next store call. -/
  | advance (index : Nat) (input : StepInput)
  /-- Another handler, or the engine, changes the store. -/
  | mutate (m : Mutation) (h : putsMembership m = false)

def Server.step (s : Server) : ServerStep → Server
  | .arrive request => { s with threads := s.threads ++ [⟨request, .loadingPrincipal⟩] }
  | .advance i input =>
    match s.threads[i]? with
    | none => s
    | some t =>
      let next := t.request.step s.store input t.phase
      { store := next.1, threads := s.threads.set i { t with phase := next.2 } }
  | .mutate m _ => { s with store := s.store.mutate m }

def Server.run (s : Server) (steps : List ServerStep) : Server := steps.foldl Server.step s

/-- Every project has a member who is an admin. -/
def AdminPresent (store : FileStore) : Prop :=
  ∀ p, store.projects.contains p = true →
    ∃ u m, store.membership? p u = some m ∧ m.role = .admin

/-! ## What a mutation does to the members -/

/-- A mutation leaves the members alone, or creates a project with an admin, or
is a call of `PutMembership`. -/
inductive MemberEffect (s : FileStore) (m : Mutation) (s' : FileStore) : Prop where
  | none (projects : ∀ p, s'.projects.contains p = true ↔ s.projects.contains p = true)
      (members : ∀ p u, s'.membership? p u = s.membership? p u)
  | created (m₀ : Membership) (admin : m₀.role = .admin)
      (projects : ∀ p, s'.projects.contains p = true ↔
        p = m₀.projectID ∨ s.projects.contains p = true)
      (members : ∀ p u, s'.membership? p u = (s.putMember m₀).membership? p u)
  | put (ctx : ContextState) (user : User) (arg : Membership) (event : AuditEvent)
      (call : m = .putMembership ctx user arg event) (m₀ : Membership)
      (same : m₀.projectID = arg.projectID ∧ m₀.userID = arg.userID ∧ m₀.role = arg.role)
      (projects : ∀ p, s'.projects.contains p = true ↔ s.projects.contains p = true)
      (members : ∀ p u, s'.membership? p u = (s.putMember m₀).membership? p u)

theorem memberEffect_refl (s : FileStore) (m : Mutation) : MemberEffect s m s :=
  .none (fun _ => Iff.rfl) fun _ _ => rfl

/-- A record that is not applied leaves the members alone. -/
theorem memberEffect_of_applied {s : FileStore} {m : Mutation} {r : JournalRecord}
    (h : ∀ s' : FileStore, s'.projects = (s.applyParts r).projects →
      (∀ p u, s'.membership? p u = (s.applyParts r).membership? p u) → MemberEffect s m s') :
    MemberEffect s m (s.securityCommit r).next := by
  unfold FileStore.securityCommit
  cases happlied : s.applySecurityRecord r with
  | error e => exact memberEffect_refl s m
  | ok s' =>
    obtain ⟨hprojects, hmembers⟩ := FileStore.applySecurityRecord_frame happlied
    exact h s' hprojects hmembers

theorem memberEffect_of_commits {s s' : FileStore} {m : Mutation} (h : Commits s m s') :
    MemberEffect s m s' := by
  cases h with
  | saveWorkflow new => exact .none (fun _ => Iff.rfl) fun _ _ => rfl
  | createRun new definition => exact .none (fun _ => Iff.rfl) fun _ _ => rfl
  | saveRun known version definition => exact .none (fun _ => Iff.rfl) fun _ _ => rfl
  | @createProject _ _ _ project membership event r record new own admin admissible =>
    subst record
    refine memberEffect_of_applied fun s' hprojects hmembers =>
      .created membership admin (fun p => ?_) fun p u => ?_
    · rw [hprojects, FileStore.applyParts_projects, own]
      exact KeyMap.contains_insert _ _ _ _
    · rw [hmembers, FileStore.applyParts_membership?]
  | @saveProject _ project event r record logged admissible =>
    subst record
    refine memberEffect_of_applied fun s' hprojects hmembers =>
      .none (fun p => ?_) fun p u => ?_
    · -- the project is there already
      rw [hprojects, FileStore.applyParts_projects, KeyMap.contains_insert]
      refine ⟨?_, .inr⟩
      rintro (rfl | hp)
      · rcases admissible.project project rfl with ⟨existing, hexisting, -⟩ | ⟨-, _, _, huser, -⟩
        · exact KeyMap.contains_of_get? hexisting
        · cases huser
      · exact hp
    · rw [hmembers, FileStore.applyParts_membership?]
  | @putMembership ctx user known membership replaced event r replaces record _ logged admissible =>
    subst record
    refine memberEffect_of_applied fun s' hprojects hmembers =>
      .put ctx user membership event rfl replaced (replaceMembership_same replaces)
        (fun p => ?_) fun p u => ?_
    · rw [hprojects, FileStore.applyParts_projects]
    · rw [hmembers, FileStore.applyParts_membership?]
  | @saveWorkflowForProject _ d ownership r record admissible =>
    subst record
    refine memberEffect_of_applied fun s' hprojects hmembers =>
      .none (fun p => ?_) fun p u => ?_
    · rw [hprojects, FileStore.applyParts_projects]
    · rw [hmembers, FileStore.applyParts_membership?]

/-! ## Admins along a run -/

/-- The request has been let through by `authorizeProject`. -/
def Phase.authorized : Phase → Bool
  | .loadingMembership | .listingMemberships _ _ | .puttingMembership _ _ => true
  | _ => false

def IsAdmin (store : FileStore) (p : ProjectID) (u : UserID) : Prop :=
  ∃ m, store.membership? p u = some m ∧ m.role = .admin

/-- A request about to give a user a role other than admin. -/
def MemberThread.Demoting (t : MemberThread) : Prop :=
  (∃ now existing, t.phase = .puttingMembership now existing) ∧ t.request.role ≠ .admin

structure Guarded (s : Server) : Prop where
  tended : Tended s.store
  admin : AdminPresent s.store
  known : ∀ t ∈ s.threads, t.phase.authorized = true →
    s.store.projects.contains t.request.projectID = true
  spare : ∀ t ∈ s.threads, t.Demoting →
    ∃ u, u ≠ t.request.userID ∧ IsAdmin s.store t.request.projectID u

/-- No request takes the admin role from a member while another one for the same
project, past its own checks, is about to assign a role other than admin. -/
def Server.Undisturbed (s : Server) : ServerStep → Prop
  | .advance i _ => ∀ t, s.threads[i]? = some t → t.Demoting →
      IsAdmin s.store t.request.projectID t.request.userID →
      ∀ j t', j ≠ i → s.threads[j]? = some t' →
        t'.request.projectID = t.request.projectID → ¬ t'.Demoting
  | _ => True

def Server.AllUndisturbed : Server → List ServerStep → Prop
  | _, [] => True
  | s, step :: steps => s.Undisturbed step ∧ (s.step step).AllUndisturbed steps

theorem isAdmin_putMember {s s' : FileStore} {p : ProjectID} {u : UserID}
    (hmembers : ∀ p u, s'.membership? p u = (s.putMember m₀).membership? p u)
    (hu : IsAdmin s p u)
    (h : p = m₀.projectID → u = m₀.userID → m₀.role = .admin) : IsAdmin s' p u := by
  unfold IsAdmin
  rw [hmembers, FileStore.membership?_putMember]
  split
  · rename_i hsame
    exact ⟨m₀, rfl, h hsame.1 hsame.2⟩
  · exact hu

/-! ## The steps of a request -/

namespace MemberRequest

variable (request : MemberRequest) (store : FileStore) (input : StepInput)

theorem loadPrincipal_authorized : (request.loadPrincipal store input).authorized = false := by
  unfold loadPrincipal
  split
  · rfl
  · split
    · rfl
    · split
      · rfl
      · split <;> rfl

/-- Only a member gets past the authorization. -/
theorem loadPrincipalMembership_cases :
    (∃ response, request.loadPrincipalMembership store input = .responded response) ∨
      request.loadPrincipalMembership store input = .loadingMembership ∧
        ∃ m, store.membership? request.projectID request.principal = some m := by
  unfold loadPrincipalMembership
  split
  · exact .inl ⟨_, rfl⟩
  · split
    · exact .inl ⟨_, rfl⟩
    · rename_i m hm
      split
      · exact .inl ⟨_, rfl⟩
      · split
        · exact .inl ⟨_, rfl⟩
        · split
          · exact .inl ⟨_, rfl⟩
          · exact .inr ⟨rfl, m, hm⟩

/-- A request that assigns another role to an admin goes on to count the admins. -/
theorem loadMembership_cases :
    (∃ response, request.loadMembership store input = .responded response) ∨
    (∃ now existing, request.loadMembership store input = .listingMemberships now existing) ∨
    ∃ now existing, request.loadMembership store input = .puttingMembership now existing ∧
      (request.role ≠ .admin → ¬ IsAdmin store request.projectID request.userID) := by
  unfold loadMembership
  split
  · exact .inl ⟨_, rfl⟩
  · simp only
    split
    · exact .inr (.inl ⟨_, _, rfl⟩)
    · rename_i hcount
      refine .inr (.inr ⟨_, _, rfl, ?_⟩)
      rintro hrole ⟨m, hm, hadmin⟩
      exact hcount (by simp [hm, hadmin, hrole])

theorem listMemberships_cases (now : Int) (existing : Option Membership) :
    (∃ response, request.listMemberships store input now existing = .responded response) ∨
    request.listMemberships store input now existing = .puttingMembership now existing ∧
      admins store request.projectID ≠ 1 := by
  unfold listMemberships
  split
  · exact .inl ⟨_, rfl⟩
  · split
    · exact .inl ⟨_, rfl⟩
    · rename_i hcount
      exact .inr ⟨rfl, hcount⟩

theorem putMembership_cases (now : Int) (existing : Option Membership) :
    (∃ response, (request.putMembership store input now existing).2 = .responded response) ∧
    ((request.putMembership store input now existing).1 = store ∨
      ∃ randomID c, store.prepare (request.putCall input randomID now existing) = .ok (some c) ∧
        (request.putMembership store input now existing).1 = c.next) := by
  unfold putMembership
  cases request.auditIdentity input now with
  | error e => exact ⟨⟨_, rfl⟩, .inl rfl⟩
  | ok randomID =>
    dsimp only
    split
    · exact ⟨⟨_, rfl⟩, .inl rfl⟩
    · rename_i next hnext
      refine ⟨⟨_, rfl⟩, ?_⟩
      rcases commit_ok hnext with ⟨-, rfl⟩ | ⟨c, hc, rfl⟩
      · exact .inl rfl
      · exact .inr ⟨randomID, c, hc, rfl⟩

end MemberRequest

theorem not_demoting_responded (request : MemberRequest) (response : Response) :
    ¬ MemberThread.Demoting ⟨request, .responded response⟩ := by
  rintro ⟨⟨_, _, h⟩, -⟩
  cases h

namespace Guarded

variable {s : Server}

theorem empty : Guarded {} where
  tended := tended_empty
  admin := nofun
  known := nofun
  spare := nofun

theorem arrive (h : Guarded s) (request : MemberRequest) : Guarded (s.step (.arrive request)) where
  tended := h.tended
  admin := h.admin
  known := by
    intro t ht hphase
    rcases List.mem_append.mp ht with ht | ht
    · exact h.known t ht hphase
    · rw [List.mem_singleton.mp ht] at hphase
      cases hphase
  spare := by
    intro t ht hdemoting
    rcases List.mem_append.mp ht with ht | ht
    · exact h.spare t ht hdemoting
    · rw [List.mem_singleton.mp ht] at hdemoting
      obtain ⟨⟨_, _, hphase⟩, -⟩ := hdemoting
      cases hphase

/-- One thread moves on and the store stays. -/
theorem setPhase (h : Guarded s) (i : Nat) {phase : Phase}
    (hknown : phase.authorized = true → s.store.projects.contains t.request.projectID = true)
    (hspare : MemberThread.Demoting ⟨t.request, phase⟩ →
      ∃ u, u ≠ t.request.userID ∧ IsAdmin s.store t.request.projectID u) :
    Guarded { s with threads := s.threads.set i { t with phase := phase } } where
  tended := h.tended
  admin := h.admin
  known := by
    intro t' ht' hphase
    rcases List.mem_or_eq_of_mem_set ht' with ht' | rfl
    · exact h.known t' ht' hphase
    · exact hknown hphase
  spare := by
    intro t' ht' hdemoting
    rcases List.mem_or_eq_of_mem_set ht' with ht' | rfl
    · exact h.spare t' ht' hdemoting
    · exact hspare hdemoting

/-- The store changes and every admin stays one. -/
theorem keepAdmins (h : Guarded s) {store : FileStore} (ht : Tended store)
    (hprojects : ∀ p, s.store.projects.contains p = true → store.projects.contains p = true)
    (hnew : ∀ p, store.projects.contains p = true →
      s.store.projects.contains p = true ∨ ∃ u, IsAdmin store p u)
    (hadmin : ∀ p u, IsAdmin s.store p u → IsAdmin store p u) :
    Guarded { s with store := store } where
  tended := ht
  admin := by
    intro p hp
    rcases hnew p hp with hp | hu
    · obtain ⟨u, hu⟩ := h.admin p hp
      exact ⟨u, hadmin p u hu⟩
    · exact hu
  known := fun t ht hphase => hprojects _ (h.known t ht hphase)
  spare := by
    intro t ht hdemoting
    obtain ⟨u, hne, hu⟩ := h.spare t ht hdemoting
    exact ⟨u, hne, hadmin _ u hu⟩

theorem sameMembers (h : Guarded s) {store : FileStore} (ht : Tended store)
    (hprojects : ∀ p, store.projects.contains p = true ↔ s.store.projects.contains p = true)
    (hmembers : ∀ p u, store.membership? p u = s.store.membership? p u) :
    Guarded { s with store := store } := by
  apply h.keepAdmins ht (fun p => (hprojects p).mpr) (fun p hp => .inl ((hprojects p).mp hp))
  intro p u hu
  unfold IsAdmin
  rw [hmembers]
  exact hu

theorem newProject (h : Guarded s) {store : FileStore} (ht : Tended store)
    (hadmin : m₀.role = .admin)
    (hprojects : ∀ p, store.projects.contains p = true ↔
      p = m₀.projectID ∨ s.store.projects.contains p = true)
    (hmembers : ∀ p u, store.membership? p u = (s.store.putMember m₀).membership? p u) :
    Guarded { s with store := store } := by
  apply h.keepAdmins ht (fun p hp => (hprojects p).mpr (.inr hp))
  · intro p hp
    rcases (hprojects p).mp hp with rfl | hp
    · exact .inr ⟨m₀.userID, m₀, by simp [hmembers, FileStore.membership?_putMember], hadmin⟩
    · exact .inl hp
  · exact fun p u hu => isAdmin_putMember hmembers hu fun _ _ => hadmin

theorem mutate (h : Guarded s) (m : Mutation) (hm : putsMembership m = false) :
    Guarded (s.step (.mutate m hm)) := by
  simp only [Server.step, FileStore.mutate]
  split
  · rename_i c hc
    obtain ⟨ht, -, hcommits⟩ := h.tended.commits hc
    cases memberEffect_of_commits hcommits with
    | none projects members => exact h.sameMembers ht projects members
    | created m₀ admin projects members => exact h.newProject ht admin projects members
    | put ctx user arg event call =>
      rw [call] at hm
      cases hm
  · exact h

/-- Before a demotion that was not held up by the count there is another admin. -/
theorem exists_other_admin (h : Guarded s) {p : ProjectID}
    (hp : s.store.projects.contains p = true) (hcount : MemberRequest.admins s.store p ≠ 1)
    (v : UserID) : ∃ u, u ≠ v ∧ IsAdmin s.store p u := by
  obtain ⟨u₀, m₀, hm₀, hrole⟩ := h.admin p hp
  obtain ⟨u, m, hne, hm, hadmin⟩ := KeyMap.exists_ne_of_countP_ne_one
    (p := fun m : Membership => decide (m.role = .admin)) hm₀ (decide_eq_true hrole) hcount v
  exact ⟨u, hne, m, hm, of_decide_eq_true hadmin⟩

/-- A step of a request that only reads. -/
theorem read (h : Guarded s) (ht : s.threads[i]? = some t)
    (input : StepInput) (hread : ∀ now existing, t.phase ≠ .puttingMembership now existing) :
    Guarded { s with
      threads := s.threads.set i { t with phase := (t.request.step s.store input t.phase).2 } } := by
  have hmem := List.mem_of_getElem? ht
  cases hphase : t.phase with
  | loadingPrincipal =>
    have hauth := t.request.loadPrincipal_authorized s.store input
    refine h.setPhase i (fun h' => ?_) fun h' => ?_
    · rw [MemberRequest.step, hauth] at h'
      cases h'
    · obtain ⟨⟨_, _, h'⟩, -⟩ := h'
      simp only [MemberRequest.step] at h'
      rw [h'] at hauth
      cases hauth
  | loadingPrincipalMembership =>
    rcases t.request.loadPrincipalMembership_cases s.store input with
      ⟨response, hstep⟩ | ⟨hstep, m, hm⟩
    · rw [MemberRequest.step, hstep]
      exact h.setPhase i nofun fun h' => absurd h' (not_demoting_responded _ _)
    · rw [MemberRequest.step, hstep]
      refine h.setPhase i (fun _ => (h.tended.references.members _ _ m hm).2.2.1) ?_
      rintro ⟨⟨_, _, h'⟩, -⟩
      cases h'
  | loadingMembership =>
    have hknown := h.known t hmem (by rw [hphase]; rfl)
    rcases t.request.loadMembership_cases s.store input with
      ⟨response, hstep⟩ | ⟨now, existing, hstep⟩ | ⟨now, existing, hstep, hother⟩
    · rw [MemberRequest.step, hstep]
      exact h.setPhase i nofun fun h' => absurd h' (not_demoting_responded _ _)
    · rw [MemberRequest.step, hstep]
      refine h.setPhase i (fun _ => hknown) ?_
      rintro ⟨⟨_, _, h'⟩, -⟩
      cases h'
    · rw [MemberRequest.step, hstep]
      refine h.setPhase i (fun _ => hknown) ?_
      rintro ⟨-, hrole⟩
      obtain ⟨u, hu⟩ := h.admin _ hknown
      refine ⟨u, ?_, hu⟩
      rintro rfl
      exact hother hrole hu
  | listingMemberships now existing =>
    have hknown := h.known t hmem (by rw [hphase]; rfl)
    rcases t.request.listMemberships_cases s.store input now existing with
      ⟨response, hstep⟩ | ⟨hstep, hcount⟩
    · rw [MemberRequest.step, hstep]
      exact h.setPhase i nofun fun h' => absurd h' (not_demoting_responded _ _)
    · rw [MemberRequest.step, hstep]
      exact h.setPhase i (fun _ => hknown) fun _ => h.exists_other_admin hknown hcount _
  | puttingMembership now existing => exact absurd hphase (hread now existing)
  | responded response =>
    exact h.setPhase i nofun fun h' => absurd h' (not_demoting_responded _ _)

/-- The write of a request that no other demotion has overtaken. -/
theorem put (h : Guarded s) {input : StepInput} {now : Int}
    {existing : Option Membership} {store : FileStore} {response : Response}
    (ht : s.threads[i]? = some t) (hphase : t.phase = .puttingMembership now existing)
    (hquiet : s.Undisturbed (.advance i input)) (htended : Tended store)
    (hproject : m₀.projectID = t.request.projectID) (huser : m₀.userID = t.request.userID)
    (hrole : m₀.role = t.request.role)
    (hprojects : ∀ p, store.projects.contains p = true ↔ s.store.projects.contains p = true)
    (hmembers : ∀ p u, store.membership? p u = (s.store.putMember m₀).membership? p u) :
    Guarded { store := store
              threads := s.threads.set i { t with phase := .responded response } } := by
  -- an admin other than the user of the request stays one
  have hstays : ∀ p u, IsAdmin s.store p u →
      (p = t.request.projectID → u = t.request.userID → t.request.role = .admin) →
      IsAdmin store p u := by
    intro p u hu hsame
    refine isAdmin_putMember hmembers hu fun hp hu' => ?_
    rw [hrole]
    exact hsame (hp.trans hproject) (hu'.trans huser)
  refine ⟨htended, ?_, ?_, ?_⟩
  · intro p hp
    obtain ⟨u, hu⟩ := h.admin p ((hprojects p).mp hp)
    by_cases hdemotes : p = t.request.projectID ∧ u = t.request.userID ∧ t.request.role ≠ .admin
    · obtain ⟨rfl, rfl, hne⟩ := hdemotes
      obtain ⟨u', hother, hu'⟩ :=
        h.spare t (List.mem_of_getElem? ht) ⟨⟨now, existing, hphase⟩, hne⟩
      exact ⟨u', hstays _ _ hu' fun _ heq => absurd heq hother⟩
    · refine ⟨u, hstays _ _ hu fun hp hu => ?_⟩
      by_contra hne
      exact hdemotes ⟨hp, hu, hne⟩
  · intro t' ht' hauth
    rcases List.mem_or_eq_of_mem_set ht' with ht' | rfl
    · exact (hprojects _).mpr (h.known t' ht' hauth)
    · cases hauth
  · intro t' ht' hdemoting
    obtain ⟨j, hj⟩ := List.mem_iff_getElem?.mp ht'
    rw [List.getElem?_set] at hj
    split at hj
    · split at hj
      · cases hj
        exact absurd hdemoting (not_demoting_responded _ _)
      · cases hj
    · rename_i hij
      obtain ⟨u, hne, hu⟩ := h.spare t' (List.mem_of_getElem? hj) hdemoting
      refine ⟨u, hne, hstays _ _ hu fun hp hu' => ?_⟩
      by_contra hadmin
      rw [hp, hu'] at hu
      exact hquiet t ht ⟨⟨now, existing, hphase⟩, hadmin⟩ hu j t' (Ne.symm hij) hj hp hdemoting

theorem advance (h : Guarded s) {input : StepInput}
    (hquiet : s.Undisturbed (.advance i input)) : Guarded (s.step (.advance i input)) := by
  simp only [Server.step]
  split
  · exact h
  · rename_i t ht
    by_cases hput : ∃ now existing, t.phase = .puttingMembership now existing
    · obtain ⟨now, existing, hphase⟩ := hput
      obtain ⟨⟨response, hresponse⟩, hstore⟩ :=
        t.request.putMembership_cases s.store input now existing
      simp only [hphase, MemberRequest.step, hresponse]
      rcases hstore with hstore | ⟨randomID, c, hc, hstore⟩
      · rw [hstore]
        exact h.setPhase i nofun fun h' => absurd h' (not_demoting_responded _ _)
      · rw [hstore]
        obtain ⟨htended, -, hcommits⟩ := h.tended.commits hc
        cases memberEffect_of_commits hcommits with
        | none projects members =>
          exact (h.sameMembers htended projects members).setPhase i nofun
            fun h' => absurd h' (not_demoting_responded _ _)
        | created m₀ admin projects members =>
          exact (h.newProject htended admin projects members).setPhase i nofun
            fun h' => absurd h' (not_demoting_responded _ _)
        | put ctx user arg event call m₀ same projects members =>
          cases call
          exact h.put ht hphase hquiet htended same.1 same.2.1 same.2.2 projects members
    · push Not at hput
      have hstore : (t.request.step s.store input t.phase).1 = s.store := by
        cases hphase : t.phase with
        | puttingMembership now existing => exact absurd hphase (hput now existing)
        | _ => rfl
      simp only [hstore]
      exact h.read ht input hput

theorem run : ∀ (steps : List ServerStep) {s : Server}, Guarded s → s.AllUndisturbed steps →
    Guarded (s.run steps)
  | [], _, h, _ => h
  | .arrive request :: steps, _, h, hquiet => (h.arrive request).run steps hquiet.2
  | .advance _ _ :: steps, _, h, hquiet => (h.advance hquiet.1).run steps hquiet.2
  | .mutate m hm :: steps, _, h, hquiet => (h.mutate m hm).run steps hquiet.2

end Guarded

/-- In every run in which no request takes an admin's role while another one for
the same project, past its checks, is about to assign a role other than admin,
every project keeps an admin. -/
theorem every_project_keeps_an_admin (steps : List ServerStep)
    (hquiet : Server.AllUndisturbed {} steps) : AdminPresent (Server.run {} steps).store :=
  (Guarded.empty.run steps hquiet).admin

/-! ## Two admins -/

def alice : UserID := ascii "alice"

def bob : UserID := ascii "bob"

def sampleProject : ProjectID := ascii "p"

def createSampleProject : Mutation :=
  .createProject .live ⟨alice, ascii "Alice", false, 1⟩ ⟨sampleProject, ascii "P", alice, 1, 1⟩
    ⟨sampleProject, alice, .admin, 1, 1⟩
    (newAuditEvent sampleProject alice "project.created" "project" sampleProject ∅ 1 (ascii "0"))

/-- All store calls of one request, one after the other. -/
def uninterrupted (request : MemberRequest) (index calls : Nat) (input : StepInput) :
    List ServerStep :=
  .arrive request :: List.replicate calls (.advance index input)

/-- Alice makes Bob an admin, and then each asks to make the other one a member. Alice's
request comes to its write, Bob's to the reads given. -/
def demotions (reads : Nat) : List ServerStep :=
  .mutate createSampleProject rfl ::
    uninterrupted ⟨alice, sampleProject, bob, ascii "Bob", .admin⟩ 0 4
      { now := 2, randomID := some (ascii "1") } ++
    [.arrive ⟨alice, sampleProject, bob, ascii "Bob", .member⟩,
      .arrive ⟨bob, sampleProject, alice, ascii "Alice", .member⟩] ++
    List.replicate 4 (.advance 1 { now := 3 }) ++ List.replicate reads (.advance 2 { now := 3 })

def Phase.putting : Phase → Bool
  | .puttingMembership _ _ => true
  | _ => false

/-- At most one request is about to write, or the one that takes the step is not. -/
def Server.apart (s : Server) : ServerStep → Bool
  | .advance i _ => (s.threads[i]?).all (fun t => !t.phase.putting) ||
      (s.threads.eraseIdx i).all fun t => !t.phase.putting
  | _ => true

def Server.allApart : Server → List ServerStep → Bool
  | _, [] => true
  | s, step :: steps => s.apart step && (s.step step).allApart steps

theorem Server.undisturbed_of_apart {s : Server} {step : ServerStep} (h : s.apart step = true) :
    s.Undisturbed step := by
  cases step with
  | advance i input =>
    rintro t ht ⟨⟨now, existing, hphase⟩, -⟩ - j t' hne ht' - ⟨⟨now', existing', hphase'⟩, -⟩
    have hother := List.mem_eraseIdx_iff_getElem?.mpr ⟨j, hne, ht'⟩
    rcases Bool.or_eq_true_iff.mp h with hself | hothers
    · rw [ht] at hself
      simp [hphase, Phase.putting] at hself
    · have hread := List.all_eq_true.mp hothers t' hother
      simp [hphase', Phase.putting] at hread
  | _ => trivial

theorem Server.allUndisturbed_of_apart : ∀ (steps : List ServerStep) {s : Server},
    s.allApart steps = true → s.AllUndisturbed steps
  | [], _, _ => trivial
  | _ :: steps, _, h => ⟨undisturbed_of_apart (Bool.and_eq_true_iff.mp h).1,
      allUndisturbed_of_apart steps (Bool.and_eq_true_iff.mp h).2⟩

/-- Bob's request counts the admins after Alice's has been written, and is refused. -/
def demoteOneAdmin : List ServerStep :=
  demotions 3 ++ [.advance 1 { randomID := some (ascii "2") }, .advance 2 { now := 3 }]

theorem only_admin_stays :
    (Server.run {} demoteOneAdmin).threads.map MemberThread.phase =
      [.responded (.member 201 ⟨sampleProject, bob, .admin, 2, 2⟩),
        .responded (.member 200 ⟨sampleProject, bob, .member, 2, 3⟩),
        fail (apiError 409 "last_admin" "a project must retain at least one admin" "role")] ∧
    AdminPresent (Server.run {} demoteOneAdmin).store :=
  ⟨by decide +kernel, every_project_keeps_an_admin demoteOneAdmin
    (Server.allUndisturbed_of_apart _ (by decide +kernel))⟩

/-- Both requests count two admins before either writes. -/
def demoteEachOther : List ServerStep :=
  demotions 4 ++
    [.advance 1 { randomID := some (ascii "2") }, .advance 2 { randomID := some (ascii "3") }]

theorem project_without_admin : ¬ AdminPresent (Server.run {} demoteEachOther).store := by
  intro h
  obtain ⟨u, m, hm, hadmin⟩ := h sampleProject (by decide +kernel)
  have hmem := (KeyMap.mem_values_iff _ m).mpr ⟨u, hm⟩
  have hall : ∀ m ∈ ((Server.run {} demoteEachOther).store.membersOf sampleProject).values,
      m.role ≠ .admin := by decide +kernel
  exact hall m hmem hadmin

end ForgeFlow.Api
