import ForgeFlow.Persistence.Encoding
import ForgeFlow.Persistence.References
import ForgeFlow.Persistence.PostgresWorkflows

/-!
# Saving the same workflow twice

The stores compare the definition and the ownership a caller brings with the ones they
hold. A held definition has been copied, so its empty dependency slices are nil; a held
creation time is in the form it was brought in, or in the form JSON or the database
returns it in. The form of a time is what a comparison of two `time.Time` values sees
beside the instant: the location and the monotonic reading.
-/

namespace ForgeFlow.Persistence

open ForgeFlow.Base ForgeFlow.Workflow ForgeFlow.Execution ForgeFlow.Security

/-! ## Definitions with the same content -/

/-- Equal task sequences with equal dependency sequences. -/
def SameContent (d d' : WorkflowDefinition) : Prop := cloneDefinition d' = cloneDefinition d

/-- No task has an empty dependency slice that is not nil. -/
def NilWhenEmpty (d : WorkflowDefinition) : Prop := ∀ t ∈ d.tasks, t.dependencies ≠ .of []

instance (d : WorkflowDefinition) : Decidable (NilWhenEmpty d) := by
  unfold NilWhenEmpty
  infer_instance

theorem Slice.clone_eq_self_iff {α : Type} (s : Slice α) : s.clone = s ↔ s ≠ .of [] := by
  cases s with
  | nil => simp [Slice.clone, Slice.elems]
  | of l => cases l <;> simp [Slice.clone, Slice.elems]

theorem cloneDefinition_eq_self_iff (d : WorkflowDefinition) :
    cloneDefinition d = d ↔ NilWhenEmpty d := by
  have htask : ∀ t : TaskDefinition, cloneTaskDefinition t = t ↔ t.dependencies ≠ .of [] := by
    intro t
    rw [← Slice.clone_eq_self_iff]
    cases t
    simp [cloneTaskDefinition]
  have htasks : ∀ tasks : List TaskDefinition, tasks.map cloneTaskDefinition = tasks ↔
      ∀ t ∈ tasks, t.dependencies ≠ .of [] := by
    intro tasks
    induction tasks with
    | nil => simp
    | cons t rest ih => simp [htask, ih]
  cases d with
  | mk id tasks => simp [cloneDefinition, NilWhenEmpty, htasks]

section

variable {d d' : WorkflowDefinition}

theorem SameContent.id (h : SameContent d d') : d'.id = d.id := by
  simpa using congrArg WorkflowDefinition.id h

theorem SameContent.validate (h : SameContent d d') (hd : d.validate = .ok ()) :
    d'.validate = .ok () :=
  (validate_clone d').mp (h ▸ (validate_clone d).mpr hd)

/-- The copy that is held equals the definition that is brought exactly if that one is as a
copy. -/
theorem SameContent.held_iff (h : SameContent d d') :
    cloneDefinition d = d' ↔ NilWhenEmpty d' := by
  rw [← cloneDefinition_eq_self_iff, h]

theorem reread_clone (d : WorkflowDefinition) :
    reread (cloneDefinition d) = cloneDefinition (reread d) := by
  have hslice : ∀ s : Slice TaskID, reread s.clone = (reread s).clone := by
    intro s
    cases s with
    | nil => rfl
    | of l => cases l <;> rfl
  have htask : ∀ t : TaskDefinition,
      reread (cloneTaskDefinition t) = cloneTaskDefinition (reread t) := by
    intro t
    exact congrArg (fun dependencies => { reread t with dependencies := dependencies })
      (hslice t.dependencies)
  cases d with
  | mk id tasks =>
    have hmap : (tasks.map cloneTaskDefinition).map reread =
        (tasks.map reread).map cloneTaskDefinition := by
      rw [List.map_map, List.map_map]
      exact List.map_congr_left fun t _ => htask t
    exact congrArg (WorkflowDefinition.mk (reread id)) hmap

/-- What was read back under the right content was UTF-8. -/
theorem SameContent.plain_of_reread (h : SameContent d d')
    (hread : cloneDefinition (reread (cloneDefinition d)) = d') : Plain (cloneDefinition d) := by
  refine (reread_eq_self_iff _).mp ?_
  rw [reread_clone, cloneDefinition_clone] at hread
  rw [reread_clone, ← h, ← hread, cloneDefinition_clone]

end

/-! ## The file store -/

section FileStore

variable {s s' : FileStore} {d d' : WorkflowDefinition} {o : WorkflowOwnership}

/-- What `SaveWorkflowForProject` checks before it looks for an ownership. -/
structure Grounds (s : FileStore) (d : WorkflowDefinition) (o : WorkflowOwnership) : Prop where
  definition : d.validate = .ok ()
  ownership : o.validate = .ok ()
  id : o.workflowID = d.id
  project : s.projects.contains o.projectID = true
  member : (s.membersOf o.projectID).contains o.ownerUserID = true
  enabled : (s.users.get? o.ownerUserID).any User.disabled = false
  same : ∀ existing, s.workflows.get? d.id = some existing → existing = d

/-- The record of a workflow. -/
def workflowRecord (d : WorkflowDefinition) : JournalRecord :=
  { operation := .saveWorkflow, workflow := some (cloneDefinition d) }

/-- The record of an owned workflow. -/
def ownedRecord (d : WorkflowDefinition) (o : WorkflowOwnership) : JournalRecord :=
  { operation := .saveOwnedWorkflow, workflow := some (cloneDefinition d), ownership := some o }

theorem saveWorkflowForProject_ok_iff {result : Option Commit} :
    s.saveWorkflowForProject .live d o = .ok result ↔ Grounds s d o ∧
      ((s.ownerships.get? d.id = some o ∧ result = none) ∨
        (s.ownerships.get? d.id = none ∧
          result = some ⟨ownedRecord d o, s.applyParts (ownedRecord d o)⟩)) := by
  have hgrounds : Grounds s d o ↔ d.validate = .ok () ∧ o.validate = .ok () ∧
      o.workflowID = d.id ∧ s.projects.contains o.projectID = true ∧
      (s.membersOf o.projectID).contains o.ownerUserID = true ∧
      (s.users.get? o.ownerUserID).any User.disabled = false ∧
      ((s.workflows.get? d.id).any fun existing => decide (existing ≠ d)) = false := by
    constructor
    · rintro ⟨h1, h2, h3, h4, h5, h6, h7⟩
      refine ⟨h1, h2, h3, h4, h5, h6, ?_⟩
      cases hw : s.workflows.get? d.id with
      | none => rfl
      | some existing => simp [h7 existing hw]
    · rintro ⟨h1, h2, h3, h4, h5, h6, h7⟩
      refine ⟨h1, h2, h3, h4, h5, h6, fun existing hw => ?_⟩
      simpa [hw] using h7
  rw [hgrounds]
  simp only [FileStore.saveWorkflowForProject, bind_unit_ok_iff, contextError, true_and,
    checkDefinition_ok_iff, checkRecord_ok_iff, firstError_cons, firstError_nil, and_true,
    decide_eq_false_iff_not, ne_eq, not_not, Bool.not_eq_false', and_assoc]
  refine and_congr_right fun _ => and_congr_right fun _ => and_congr_right fun _ =>
    and_congr_right fun _ => and_congr_right fun _ => and_congr_right fun _ =>
    and_congr_right fun _ => ?_
  cases hown : s.ownerships.get? d.id with
  | none =>
    simp only [Except.ok.injEq, reduceCtorEq, false_and, true_and, false_or]
    exact eq_comm
  | some existing =>
    simp only [Option.some.injEq, reduceCtorEq, false_and, or_false]
    split
    · rename_i heq
      simp only [Except.ok.injEq, heq, true_and]
      exact eq_comm
    · rename_i hne
      simp [hne]

/-- The workflow and its ownership are held, and the owner is in order. -/
structure Owned (s : FileStore) (d : WorkflowDefinition) (o : WorkflowOwnership) : Prop where
  grounds : Grounds s (cloneDefinition d) o
  workflow : s.workflows.get? d.id = some (cloneDefinition d)
  owned : s.ownerships.get? d.id = some o

theorem Owned.again_iff (h : Owned s d o) (hsame : SameContent d d') :
    s.saveWorkflowForProject .live d' o = .ok none ↔ NilWhenEmpty d' := by
  obtain ⟨hvalid, hown, hid, hproject, hmember, henabled, -⟩ := h.grounds
  rw [cloneDefinition_id] at hid
  rw [saveWorkflowForProject_ok_iff, hsame.id, h.owned, ← hsame.held_iff]
  constructor
  · rintro ⟨hgrounds, -⟩
    exact hgrounds.same _ (hsame.id ▸ h.workflow)
  · intro hheld
    refine ⟨⟨?_, hown, hid.trans hsame.id.symm, hproject, hmember, henabled, ?_⟩, .inl ⟨rfl, rfl⟩⟩
    · rw [← hheld]
      exact hvalid
    · intro existing hexisting
      rw [hsame.id, h.workflow] at hexisting
      cases hexisting
      exact hheld

/-- Whether it wrote or found everything there, an accepted call leaves the workflow owned. -/
theorem owned_of_ok (hs : Tended s) {result : Option Commit}
    (h : s.saveWorkflowForProject .live d o = .ok result) :
    Owned (match result with | some c => c.next | none => s) d o := by
  obtain ⟨hg, ⟨hown, rfl⟩ | ⟨-, rfl⟩⟩ := saveWorkflowForProject_ok_iff.mp h
  · -- an ownership refers to a definition that is held
    obtain ⟨existing, hexisting⟩ := KeyMap.exists_of_contains (hs.references.ownerships _ _ hown).2.1
    have heq := hg.same existing hexisting
    subst heq
    have hclone := hs.sound.workflows _ _ hexisting
    refine ⟨?_, ?_, hown⟩
    · rw [hclone]
      exact hg
    · rw [hclone]
      exact hexisting
  · have happlied : s.applyParts (ownedRecord d o) = { s with
        workflows := s.workflows.insert d.id (cloneDefinition d)
        ownerships := s.ownerships.insert o.workflowID o } := by
      simp [FileStore.applyParts_eq, ownedRecord]
    show Owned (s.applyParts (ownedRecord d o)) d o
    rw [happlied]
    refine ⟨⟨(validate_clone d).mpr hg.definition, hg.ownership, hg.id, hg.project, hg.member,
      hg.enabled, fun existing hexisting => ?_⟩, KeyMap.get?_insert_self _ _ _, ?_⟩
    · rw [cloneDefinition_id, KeyMap.get?_insert_self] at hexisting
      exact (Option.some.inj hexisting).symm
    · rw [← hg.id]
      exact KeyMap.get?_insert_self _ _ _

theorem saveWorkflow_ok_iff {result : Option Commit} :
    s.saveWorkflow .live .live d = .ok result ↔ d.validate = .ok () ∧
      ((s.workflows.get? d.id = some d ∧ result = none) ∨
        (s.workflows.get? d.id = none ∧ result = some ⟨workflowRecord d,
          { s with workflows := s.workflows.insert d.id (cloneDefinition d) }⟩)) := by
  simp only [FileStore.saveWorkflow, bind_unit_ok_iff, contextError, true_and,
    checkDefinition_ok_iff]
  refine and_congr_right fun _ => ?_
  cases hw : s.workflows.get? d.id with
  | none =>
    simp only [bind_unit_ok_iff, true_and, Except.ok.injEq, reduceCtorEq, false_and, false_or]
    exact eq_comm
  | some existing =>
    simp only [Option.some.injEq, reduceCtorEq, false_and, or_false]
    split
    · rename_i heq
      simp only [Except.ok.injEq, heq, true_and]
      exact eq_comm
    · rename_i hne
      simp [hne]

/-- An accepted call leaves a copy of the definition. -/
theorem saved_of_ok (hs : Tended s) {result : Option Commit}
    (h : s.saveWorkflow .live .live d = .ok result) :
    (match result with | some c => c.next | none => s).workflows.get? d.id =
      some (cloneDefinition d) := by
  obtain ⟨-, ⟨hw, rfl⟩ | ⟨-, rfl⟩⟩ := saveWorkflow_ok_iff.mp h
  · rw [hs.sound.workflows _ _ hw]
    exact hw
  · exact KeyMap.get?_insert_self _ _ _

theorem saveWorkflow_again_iff_nil (hd : d.validate = .ok ())
    (hw : s.workflows.get? d.id = some (cloneDefinition d)) (hsame : SameContent d d') :
    s.saveWorkflow .live .live d' = .ok none ↔ NilWhenEmpty d' := by
  rw [saveWorkflow_ok_iff, hsame.id, hw, ← hsame.held_iff]
  simp [hsame.validate hd]

/-! Replaying the record of a workflow that was read back from JSON. -/

theorem replayRecord_workflows {w : WorkflowDefinition}
    (h : s.replayRecord { operation := .saveWorkflow, workflow := some w } = .ok s') :
    s'.workflows = s.workflows.insert w.id (cloneDefinition w) := by
  obtain ⟨-, h⟩ := bind_unit_ok_iff.mp h
  obtain ⟨-, h⟩ := bind_unit_ok_iff.mp h
  obtain ⟨-, h⟩ := bind_unit_ok_iff.mp h
  cases h
  rfl

theorem replayRecord_owned {w : WorkflowDefinition}
    (h : s.replayRecord { operation := .saveOwnedWorkflow, workflow := some w,
                          ownership := some o } = .ok s') :
    s'.workflows = s.workflows.insert w.id (cloneDefinition w) ∧
      s'.ownerships = s.ownerships.insert o.workflowID o := by
  obtain ⟨-, h⟩ := bind_unit_ok_iff.mp h
  obtain ⟨-, h⟩ := bind_unit_ok_iff.mp h
  obtain ⟨-, h⟩ := bind_unit_ok_iff.mp h
  obtain ⟨-, h⟩ := bind_unit_ok_iff.mp h
  obtain ⟨s₁, hs₁, rfl⟩ := FileStore.applySecurityRecord_ok h
  obtain rfl : s₁ = s := by
    rcases hs₁ with rfl | ⟨u, hu, -⟩
    · rfl
    · cases hu
  exact ⟨FileStore.applyParts_workflows _ _, FileStore.applyParts_ownerships _ _⟩

end FileStore

/-! ## The file store with the forms of its times -/

/-- A store on its file, and the forms of the creation times of its ownerships. -/
structure OwnedStore (F : Type) where
  opened : OpenStore
  forms : KeyMap WorkflowID F

section Reload

variable {F : Type} {codec : JournalCodec} {decoded : Int → F → F} {s : OwnedStore F}

namespace OwnedStore

/-- The creation time of an ownership. -/
def createdAt (s : OwnedStore F) (id : WorkflowID) : Int :=
  ((s.opened.store.ownerships.get? id).map WorkflowOwnership.createdAt).getD 0

/-- The store after its file was opened again. Of a time, its instant and what JSON keeps of
its form come back. -/
def reload (codec : JournalCodec) (decoded : Int → F → F) (s : OwnedStore F) :
    Except StoreError (OwnedStore F) :=
  (openFileStore codec s.opened.file).map fun opened =>
    { opened := opened
      forms := KeyMap.ofList (s.forms.entries.map fun e =>
        (reread e.1, decoded (s.createdAt e.1) e.2)) }

end OwnedStore

theorem reload_eq_ok {r : OwnedStore F} (h : s.reload codec decoded = .ok r) :
    openFileStore codec s.opened.file = .ok r.opened := by
  obtain ⟨opened, hopen, rfl⟩ := map_eq_ok.mp h
  exact hopen

/-- Under UTF-8 keys the forms come back under their keys. -/
theorem reload_forms (hforms : ∀ id form, s.forms.get? id = some form → validUTF8 id = true)
    {r : OwnedStore F} (h : s.reload codec decoded = .ok r) (id : WorkflowID) :
    r.forms.get? id = (s.forms.get? id).map (decoded (s.createdAt id)) := by
  obtain ⟨opened, -, rfl⟩ := map_eq_ok.mp h
  have hentries : (s.forms.entries.map fun e => (reread e.1, decoded (s.createdAt e.1) e.2)) =
      (s.forms.map fun id form => decoded (s.createdAt id) form).entries := by
    rw [KeyMap.map_entries]
    refine List.map_congr_left fun e he => ?_
    have hvalid := hforms e.1 e.2 ((s.forms.mem_entries_iff e.1 e.2).mp he)
    rw [show reread e.1 = e.1 from toValidUTF8_of_valid hvalid]
  show (KeyMap.ofList _).get? id = _
  rw [hentries, KeyMap.ofList_entries, KeyMap.get?_map]

end Reload

section OwnedStore

variable {F : Type} [DecidableEq F] {codec : JournalCodec} {decoded : Int → F → F}
  {s : OwnedStore F} {d d' : WorkflowDefinition} {o : WorkflowOwnership} {form form' : F}

namespace OwnedStore

/-- A call, with the form of the creation time it brings. Where `SaveWorkflowForProject` finds
the ownership it brings, `reflect.DeepEqual` compares the forms too. -/
def write (codec : JournalCodec) (s : OwnedStore F) (call : Mutation × F) :
    OwnedStore F × Except StoreError Unit :=
  match call.1, s.opened.store.prepare call.1 with
  | .saveWorkflowForProject _ definition _, .ok none =>
    if s.forms.get? definition.id = some call.2 then (s, .ok ())
    else (s, .error (.workflowOwnershipConflict definition.id))
  | .saveWorkflowForProject _ definition _, .ok (some _) =>
    ({ opened := (s.opened.write codec call.1).1,
       forms := s.forms.insert definition.id call.2 }, .ok ())
  | m, _ => ({ s with opened := (s.opened.write codec m).1 }, (s.opened.write codec m).2)

def writeStep (codec : JournalCodec) (s : OwnedStore F) (call : Mutation × F) :
    Option (OwnedStore F) :=
  some (s.write codec call).1

/-- What the call journals is UTF-8. -/
def WritesPlain (s : OwnedStore F) (call : Mutation × F) : Prop := s.opened.WritesPlain call.1

end OwnedStore

theorem write_owned_none (h : s.opened.store.saveWorkflowForProject .live d o = .ok none) :
    s.write codec (.saveWorkflowForProject .live d o, form) =
      if s.forms.get? d.id = some form then (s, .ok ())
      else (s, .error (.workflowOwnershipConflict d.id)) := by
  simp only [OwnedStore.write, FileStore.prepare, h]

theorem write_owned_some {ctx : ContextState} {c : Commit}
    (h : s.opened.store.saveWorkflowForProject ctx d o = .ok (some c)) :
    s.write codec (.saveWorkflowForProject ctx d o, form) =
      (⟨(s.opened.write codec (.saveWorkflowForProject ctx d o)).1,
        s.forms.insert d.id form⟩, .ok ()) := by
  simp only [OwnedStore.write, FileStore.prepare, h]

theorem write_owned_error (codec : JournalCodec) (form : F) {e : StoreError}
    (h : s.opened.store.saveWorkflowForProject .live d o = .error e) :
    (s.write codec (.saveWorkflowForProject .live d o, form)).2 = .error e := by
  simp only [OwnedStore.write, OpenStore.write, FileStore.prepare, h]

theorem write_opened (codec : JournalCodec) (s : OwnedStore F) (call : Mutation × F) :
    (s.write codec call).1.opened = (s.opened.write codec call.1).1 := by
  obtain ⟨m, form⟩ := call
  unfold OwnedStore.write
  split
  · rename_i hp
    simp only at hp
    have hwrite : (s.opened.write codec m).1 = s.opened := by rw [OpenStore.write, hp]
    rw [hwrite]
    split <;> rfl
  · rfl
  · rfl

theorem plain_workflowRecord_iff :
    Plain (workflowRecord d) ↔ Plain (cloneDefinition d) := by
  have hstrings : strings (workflowRecord d) = strings (cloneDefinition d) := by
    simp [workflowRecord, strings]
  rw [Plain, hstrings]
  rfl

theorem plain_ownedRecord_iff :
    Plain (ownedRecord d o) ↔ Plain (cloneDefinition d) ∧ Plain o := by
  have hstrings : strings (ownedRecord d o) = strings (cloneDefinition d) ++ strings o := by
    simp [ownedRecord, strings]
  rw [Plain, hstrings, List.forall_mem_append]
  rfl

theorem plain_id (h : Plain (cloneDefinition d)) : validUTF8 d.id = true :=
  h d.id (List.mem_append_left _ (List.mem_singleton_self _))

/-- The forms after a call: one more where a call has stored an ownership. -/
theorem write_forms (codec : JournalCodec) (s : OwnedStore F) (call : Mutation × F) :
    (s.write codec call).1.forms = s.forms ∨
      ∃ d o c, s.opened.store.prepare call.1 = .ok (some c) ∧ c.record = ownedRecord d o ∧
        (s.write codec call).1.forms = s.forms.insert d.id call.2 := by
  obtain ⟨m, form⟩ := call
  cases m with
  | saveWorkflowForProject ctx d o =>
    cases hp : s.opened.store.saveWorkflowForProject ctx d o with
    | error e => exact .inl (by simp only [OwnedStore.write, FileStore.prepare, hp])
    | ok result =>
      cases result with
      | none =>
        refine .inl ?_
        simp only [OwnedStore.write, FileStore.prepare, hp]
        split <;> rfl
      | some c =>
        refine .inr ⟨d, o, c, hp, ?_, by rw [write_owned_some hp]⟩
        have hlive : ctx = .live := by
          cases ctx with
          | live => rfl
          | missing => cases hp
          | done err => cases hp
        subst hlive
        obtain ⟨-, ⟨-, hnone⟩ | ⟨-, hsome⟩⟩ := saveWorkflowForProject_ok_iff.mp hp
        · cases hnone
        · rw [Option.some.inj hsome]
  | _ => exact .inl rfl

/-- What calls that journal UTF-8 keep. -/
structure Held (codec : JournalCodec) (s : OwnedStore F) : Prop where
  journal : ∃ records, Journaled codec s.opened records []
  tended : Tended s.opened.store
  forms : ∀ id form, s.forms.get? id = some form → validUTF8 id = true

theorem Held.write (h : Held codec s) {call : Mutation × F} (hplain : s.WritesPlain call) :
    Held codec (s.write codec call).1 := by
  obtain ⟨records, hj⟩ := h.journal
  refine ⟨?_, ?_, ?_⟩
  · rw [write_opened, write_of_plain hplain]
    exact (hj.commit call.1).1
  · rw [write_opened, write_eq_call]
    exact (h.tended.call codec call.1 .complete).1
  · rcases write_forms codec s call with hsame | ⟨d, o, c, hp, hrecord, hforms⟩
    · rw [hsame]
      exact h.forms
    · rw [hforms]
      intro id form hform
      rw [KeyMap.get?_insert] at hform
      split at hform
      · rename_i hid
        have hrecordPlain := hplain c hp
        rw [hrecord, plain_ownedRecord_iff] at hrecordPlain
        rw [hid]
        exact plain_id hrecordPlain.1
      · exact h.forms id form hform

theorem held_of_plain {calls : List (Mutation × F)}
    (hplain : Meets (OwnedStore.writeStep codec) OwnedStore.WritesPlain ⟨⟨[], {}⟩, ∅⟩ calls)
    (hrun : runLabels (OwnedStore.writeStep codec) ⟨⟨[], {}⟩, ∅⟩ calls = some s) :
    Held codec s := by
  refine Meets.invariant (I := Held codec) ?_ hplain
    ⟨⟨[], Journaled.empty codec⟩, tended_empty, nofun⟩ hrun
  rintro s call s' hcall hstep h
  cases hstep
  exact h.write hcall

/-- Whatever is journaled, the stores of a run are in order. -/
theorem tended_of_run {calls : List (Mutation × F)}
    (hrun : runLabels (OwnedStore.writeStep codec) ⟨⟨[], {}⟩, ∅⟩ calls = some s) :
    Tended s.opened.store := by
  refine run_invariant (I := fun s : OwnedStore F => Tended s.opened.store) ?_ tended_empty hrun
  rintro s call s' hstep h
  cases hstep
  rw [write_opened, write_eq_call]
  exact (h.call codec call.1 .complete).1

/-- A call that writes makes the file longer. -/
theorem openWrite_unchanged_iff (codec : JournalCodec) {t : OpenStore} {m : Mutation} :
    t.write codec m = (t, .ok ()) ↔ t.store.prepare m = .ok none := by
  unfold OpenStore.write
  cases hp : t.store.prepare m with
  | error e => simp
  | ok result =>
    cases result with
    | none => simp
    | some c =>
      have hlonger : t.file ++ codec.encodeLine (reread c.record) ≠ t.file := by
        simp [JournalCodec.encodeLine]
      constructor
      · intro h
        exact absurd (congrArg (fun r => r.1.file) h) hlonger
      · intro h
        cases h

theorem write_workflow_unchanged_iff :
    s.write codec (.saveWorkflow .live .live d, form) = (s, .ok ()) ↔
      s.opened.store.saveWorkflow .live .live d = .ok none := by
  have hwrite : s.write codec (.saveWorkflow .live .live d, form) =
      ({ s with opened := (s.opened.write codec (.saveWorkflow .live .live d)).1 },
        (s.opened.write codec (.saveWorkflow .live .live d)).2) := rfl
  rw [hwrite, ← FileStore.prepare, ← openWrite_unchanged_iff codec]
  constructor
  · intro h
    have hopened := congrArg (fun r => r.1.opened) h
    have hresult := congrArg Prod.snd h
    exact Prod.ext hopened hresult
  · intro h
    rw [h]

theorem write_owned_unchanged_iff :
    s.write codec (.saveWorkflowForProject .live d o, form) = (s, .ok ()) ↔
      s.opened.store.saveWorkflowForProject .live d o = .ok none ∧
        s.forms.get? d.id = some form := by
  cases hp : s.opened.store.saveWorkflowForProject .live d o with
  | error e =>
    have herror := write_owned_error codec form hp
    constructor
    · intro h
      rw [h] at herror
      cases herror
    · rintro ⟨h, -⟩
      cases h
  | ok result =>
    cases result with
    | none =>
      rw [write_owned_none hp]
      split
      · rename_i hform
        simp [hform]
      · rename_i hform
        simp [hform]
    | some c =>
      have hp' : s.opened.store.prepare (.saveWorkflowForProject .live d o) = .ok (some c) := hp
      have hlonger : s.opened.file ++ codec.encodeLine (reread c.record) ≠ s.opened.file := by
        simp [JournalCodec.encodeLine]
      rw [write_owned_some hp, write_commit hp']
      constructor
      · intro h
        exact absurd (congrArg (fun r => r.1.opened.file) h) hlonger
      · rintro ⟨h, -⟩
        cases h

/-! ### Opening the file again -/

/-- A call that journals UTF-8 leaves a file that gives the store back. -/
theorem Held.reopen_write (h : Held codec s) {call : Mutation × F} (hplain : s.WritesPlain call) :
    openFileStore codec (s.write codec call).1.opened.file = .ok (s.write codec call).1.opened := by
  obtain ⟨records, hj⟩ := (h.write hplain).journal
  have hcrash := hj.crash List.not_mem_nil
  rwa [List.append_nil] at hcrash

theorem Held.reload_write (h : Held codec s) {call : Mutation × F} (hplain : s.WritesPlain call)
    {r : OwnedStore F} (hr : (s.write codec call).1.reload codec decoded = .ok r) :
    r.opened = (s.write codec call).1.opened := by
  have hopen := reload_eq_ok hr
  rw [h.reopen_write hplain] at hopen
  exact (Except.ok.inj hopen).symm

theorem Held.exists_reload (h : Held codec s) (decoded : Int → F → F) {call : Mutation × F}
    (hplain : s.WritesPlain call) :
    ∃ r, (s.write codec call).1.reload codec decoded = .ok r :=
  ⟨_, map_eq_ok.mpr ⟨_, h.reopen_write hplain, rfl⟩⟩

/-! ### `SaveWorkflow` -/

/-- The store after an accepted call holds a copy of the definition. -/
theorem saved_of_write (ht : Tended s.opened.store)
    (haccepted : (s.write codec (.saveWorkflow .live .live d, form)).2 = .ok ()) :
    d.validate = .ok () ∧
      (s.write codec (.saveWorkflow .live .live d, form)).1.opened.store.workflows.get? d.id =
        some (cloneDefinition d) := by
  have haccepted : (s.opened.write codec (.saveWorkflow .live .live d)).2 = .ok () := haccepted
  rw [write_opened]
  unfold OpenStore.write at haccepted ⊢
  cases hp : s.opened.store.saveWorkflow .live .live d with
  | error e =>
    simp only [FileStore.prepare, hp] at haccepted
    cases haccepted
  | ok result =>
    have hsaved := saved_of_ok ht hp
    refine ⟨(saveWorkflow_ok_iff.mp hp).1, ?_⟩
    simp only [FileStore.prepare, hp]
    cases result with
    | none => exact hsaved
    | some c => exact hsaved

theorem saved_unchanged_iff (ht : Tended s.opened.store)
    (haccepted : (s.write codec (.saveWorkflow .live .live d, form)).2 = .ok ())
    (hsame : SameContent d d') {r : OwnedStore F}
    (hr : r.opened = (s.write codec (.saveWorkflow .live .live d, form)).1.opened) :
    r.write codec (.saveWorkflow .live .live d', form') = (r, .ok ()) ↔ NilWhenEmpty d' := by
  obtain ⟨hd, hw⟩ := saved_of_write ht haccepted
  rw [write_workflow_unchanged_iff, hr]
  exact saveWorkflow_again_iff_nil hd hw hsame

/-- If the definition is found again after a reload, it was journaled as UTF-8. -/
theorem Held.plain_of_saved (h : Held codec s) (hsame : SameContent d d') {r : OwnedStore F}
    (hr : (s.write codec (.saveWorkflow .live .live d, form)).1.reload codec decoded = .ok r)
    (hagain : r.write codec (.saveWorkflow .live .live d', form') = (r, .ok ())) :
    s.WritesPlain (.saveWorkflow .live .live d, form) := by
  obtain ⟨records, hj⟩ := h.journal
  intro c hc
  obtain ⟨-, ⟨-, hnone⟩ | ⟨hnew, hsome⟩⟩ := saveWorkflow_ok_iff.mp hc
  · cases hnone
  cases hsome
  have hopen := reload_eq_ok hr
  rw [write_opened, hj.reopen_write hc] at hopen
  obtain ⟨store, hreplay, hstore⟩ := bind_eq_ok.mp hopen
  have hworkflows := replayRecord_workflows hreplay
  obtain ⟨-, ⟨hfound, -⟩ | ⟨-, hsome⟩⟩ :=
    saveWorkflow_ok_iff.mp (write_workflow_unchanged_iff.mp hagain)
  · rw [← Except.ok.inj hstore, hsame.id] at hfound
    have hfound : store.workflows.get? d.id = some d' := hfound
    rw [hworkflows, KeyMap.get?_insert] at hfound
    split at hfound
    · exact plain_workflowRecord_iff.mpr (hsame.plain_of_reread (Option.some.inj hfound))
    · rw [hnew] at hfound
      cases hfound
  · cases hsome

/-- Saving a definition again in the file store after a reload. -/
theorem Held.resaveWorkflow (h : Held codec s)
    (haccepted : (s.write codec (.saveWorkflow .live .live d, form)).2 = .ok ())
    (hsame : SameContent d d') :
    (∃ r, (s.write codec (.saveWorkflow .live .live d, form)).1.reload codec decoded = .ok r ∧
        r.write codec (.saveWorkflow .live .live d', form') = (r, .ok ())) ↔
      NilWhenEmpty d' ∧ s.WritesPlain (.saveWorkflow .live .live d, form) := by
  have hagain_iff : s.WritesPlain (.saveWorkflow .live .live d, form) → ∀ r,
      (s.write codec (.saveWorkflow .live .live d, form)).1.reload codec decoded = .ok r →
      (r.write codec (.saveWorkflow .live .live d', form') = (r, .ok ()) ↔ NilWhenEmpty d') :=
    fun hplain _ hr => saved_unchanged_iff h.tended haccepted hsame (h.reload_write hplain hr)
  constructor
  · rintro ⟨r, hr, hagain⟩
    have hplain := h.plain_of_saved hsame hr hagain
    exact ⟨(hagain_iff hplain r hr).mp hagain, hplain⟩
  · rintro ⟨hnil, hplain⟩
    obtain ⟨r, hr⟩ := h.exists_reload decoded hplain
    exact ⟨r, hr, (hagain_iff hplain r hr).mpr hnil⟩

/-! ### `SaveWorkflowForProject` -/

/-- The store after an accepted call holds the workflow, its ownership and the form of its
creation time. -/
theorem owned_of_write (ht : Tended s.opened.store)
    (haccepted : (s.write codec (.saveWorkflowForProject .live d o, form)).2 = .ok ()) :
    Owned (s.write codec (.saveWorkflowForProject .live d o, form)).1.opened.store d o ∧
      (s.write codec (.saveWorkflowForProject .live d o, form)).1.forms.get? d.id = some form := by
  cases hp : s.opened.store.saveWorkflowForProject .live d o with
  | error e =>
    rw [write_owned_error codec form hp] at haccepted
    cases haccepted
  | ok result =>
    have howned := owned_of_ok ht hp
    cases result with
    | none =>
      rw [write_owned_none hp] at haccepted ⊢
      split at haccepted
      · rename_i hform
        rw [if_pos hform]
        exact ⟨howned, hform⟩
      · cases haccepted
    | some c =>
      have hp' : s.opened.store.prepare (.saveWorkflowForProject .live d o) = .ok (some c) := hp
      rw [write_owned_some hp, write_commit hp']
      exact ⟨howned, KeyMap.get?_insert_self _ _ _⟩

theorem Owned.unchanged_iff {r : OwnedStore F} (h : Owned r.opened.store d o)
    (hsame : SameContent d d') :
    r.write codec (.saveWorkflowForProject .live d' o, form') = (r, .ok ()) ↔
      NilWhenEmpty d' ∧ r.forms.get? d.id = some form' := by
  rw [write_owned_unchanged_iff, h.again_iff hsame, hsame.id]

/-- If the workflow and its ownership are found again after a reload, they were journaled as
UTF-8. -/
theorem Held.plain_of_owned (h : Held codec s) (hsame : SameContent d d') {r : OwnedStore F}
    (hr : (s.write codec (.saveWorkflowForProject .live d o, form)).1.reload codec decoded = .ok r)
    (hagain : r.write codec (.saveWorkflowForProject .live d' o, form') = (r, .ok ())) :
    s.WritesPlain (.saveWorkflowForProject .live d o, form) := by
  obtain ⟨records, hj⟩ := h.journal
  intro c hc
  obtain ⟨hgrounds, ⟨-, hnone⟩ | ⟨hnew, hsome⟩⟩ := saveWorkflowForProject_ok_iff.mp hc
  · cases hnone
  cases hsome
  have hopen := reload_eq_ok hr
  rw [write_opened, hj.reopen_write hc] at hopen
  obtain ⟨store, hreplay, hstore⟩ := bind_eq_ok.mp hopen
  obtain ⟨hworkflows, hownerships⟩ := replayRecord_owned hreplay
  have hstore : r.opened.store = store := by rw [← Except.ok.inj hstore]
  obtain ⟨hagainOk, -⟩ := write_owned_unchanged_iff.mp hagain
  obtain ⟨hgrounds', ⟨hfound, -⟩ | ⟨-, hsome⟩⟩ := saveWorkflowForProject_ok_iff.mp hagainOk
  · rw [hstore, hownerships, hsame.id, KeyMap.get?_insert] at hfound
    split at hfound
    · rename_i hid
      have hplain : Plain o := (reread_eq_self_iff o).mp (Option.some.inj hfound)
      have hreread : reread d.id = d.id := by
        rw [← hgrounds.id] at hid ⊢
        exact hid.symm
      have hw : r.opened.store.workflows.get? d'.id =
          some (cloneDefinition (reread (cloneDefinition d))) := by
        rw [hstore, hworkflows, hsame.id]
        conv_lhs => rw [← hreread]
        exact KeyMap.get?_insert_self _ _ _
      exact plain_ownedRecord_iff.mpr
        ⟨hsame.plain_of_reread (hgrounds'.same _ hw), hplain⟩
    · rw [hnew] at hfound
      cases hfound
  · cases hsome

/-- Saving an owned workflow again in the file store after a reload. -/
theorem Held.resaveOwned (h : Held codec s)
    (haccepted : (s.write codec (.saveWorkflowForProject .live d o, form)).2 = .ok ())
    (hsame : SameContent d d') :
    (∃ r, (s.write codec (.saveWorkflowForProject .live d o, form)).1.reload codec decoded =
          .ok r ∧
        r.write codec (.saveWorkflowForProject .live d' o, form') = (r, .ok ())) ↔
      NilWhenEmpty d' ∧ form' = decoded o.createdAt form ∧
        s.WritesPlain (.saveWorkflowForProject .live d o, form) := by
  obtain ⟨howned, hform⟩ := owned_of_write h.tended haccepted
  -- after a reload of UTF-8 the form is the one JSON gives back
  have hreload : s.WritesPlain (.saveWorkflowForProject .live d o, form) → ∀ r,
      (s.write codec (.saveWorkflowForProject .live d o, form)).1.reload codec decoded = .ok r →
      (r.write codec (.saveWorkflowForProject .live d' o, form') = (r, .ok ()) ↔
        NilWhenEmpty d' ∧ form' = decoded o.createdAt form) := by
    intro hplain r hr
    have hcreated : (s.write codec (.saveWorkflowForProject .live d o, form)).1.createdAt d.id =
        o.createdAt := by
      simp [OwnedStore.createdAt, howned.owned]
    have hrform := reload_forms (h.write hplain).forms hr d.id
    rw [hform, hcreated, Option.map_some] at hrform
    have hrowned : Owned r.opened.store d o := by
      rw [h.reload_write hplain hr]
      exact howned
    rw [hrowned.unchanged_iff hsame, hrform, Option.some.injEq, eq_comm]
  constructor
  · rintro ⟨r, hr, hagain⟩
    have hplain := h.plain_of_owned hsame hr hagain
    obtain ⟨hnil, hform'⟩ := (hreload hplain r hr).mp hagain
    exact ⟨hnil, hform', hplain⟩
  · rintro ⟨hnil, hform', hplain⟩
    obtain ⟨r, hr⟩ := h.exists_reload decoded hplain
    exact ⟨r, hr, (hreload hplain r hr).mpr ⟨hnil, hform'⟩⟩

end OwnedStore

/-! ## Both stores -/

/-- Saving a workflow again with the same content succeeds and changes nothing exactly under
these conditions. In both stores the definition brought the second time has no empty slice
that is not nil. In the file store the ownership comes in the form it is held in, and for a
reload of a file that is UTF-8 what is journaled is too. In PostgreSQL the creation time is of
whole microseconds and in the form the database returns. -/
theorem resave_unchanged_iff {F : Type} [DecidableEq F] (codec : JournalCodec)
    (decoded : Int → F → F) (returned : Int → F) (earlier : List (Mutation × F))
    (s : OwnedStore F)
    (hrun : runLabels (OwnedStore.writeStep codec) ⟨⟨[], {}⟩, ∅⟩ earlier = some s)
    (tables tables' : WorkflowTables) (d d' : WorkflowDefinition) (hsame : SameContent d d')
    (o : WorkflowOwnership) (form form' : F) :
    -- `SaveWorkflow` of the file store
    ((s.write codec (.saveWorkflow .live .live d, form)).2 = .ok () →
      let saved := (s.write codec (.saveWorkflow .live .live d, form)).1
      (saved.write codec (.saveWorkflow .live .live d', form') = (saved, .ok ()) ↔
        NilWhenEmpty d') ∧
      (Meets (OwnedStore.writeStep codec) OwnedStore.WritesPlain ⟨⟨[], {}⟩, ∅⟩ earlier →
        ((∃ r, saved.reload codec decoded = .ok r ∧
            r.write codec (.saveWorkflow .live .live d', form') = (r, .ok ())) ↔
          NilWhenEmpty d' ∧ s.WritesPlain (.saveWorkflow .live .live d, form)))) ∧
    -- `SaveWorkflowForProject` of the file store
    ((s.write codec (.saveWorkflowForProject .live d o, form)).2 = .ok () →
      let saved := (s.write codec (.saveWorkflowForProject .live d o, form)).1
      (saved.write codec (.saveWorkflowForProject .live d' o, form') = (saved, .ok ()) ↔
        NilWhenEmpty d' ∧ form' = form) ∧
      (Meets (OwnedStore.writeStep codec) OwnedStore.WritesPlain ⟨⟨[], {}⟩, ∅⟩ earlier →
        ((∃ r, saved.reload codec decoded = .ok r ∧
            r.write codec (.saveWorkflowForProject .live d' o, form') = (r, .ok ())) ↔
          NilWhenEmpty d' ∧ form' = decoded o.createdAt form ∧
            s.WritesPlain (.saveWorkflowForProject .live d o, form)))) ∧
    -- the two calls in PostgreSQL
    (tables.saveWorkflow .live d = .ok tables' →
      (tables'.saveWorkflow .live d' = .ok tables' ↔ NilWhenEmpty d')) ∧
    (tables.saveWorkflowForProject returned .live d o form = .ok tables' →
      (tables'.saveWorkflowForProject returned .live d' o form' = .ok tables' ↔
        NilWhenEmpty d' ∧ microseconds o.createdAt = o.createdAt ∧
          returned o.createdAt = form')) := by
  have ht := tended_of_run hrun
  refine ⟨fun haccepted => ⟨saved_unchanged_iff ht haccepted hsame rfl, fun hplain =>
      (held_of_plain hplain hrun).resaveWorkflow haccepted hsame⟩,
    fun haccepted => ⟨?_, fun hplain => (held_of_plain hplain hrun).resaveOwned haccepted hsame⟩,
    fun haccepted => ?_, fun haccepted => ?_⟩
  · obtain ⟨howned, hform⟩ := owned_of_write ht haccepted
    rw [howned.unchanged_iff hsame, hform, Option.some.injEq, eq_comm]
  · rw [saveWorkflow_again_iff haccepted hsame, cloneDefinition_eq_self_iff]
  · rw [saveWorkflowForProject_again_iff haccepted hsame, cloneDefinition_eq_self_iff]

/-- The sample definition is saved twice, in one process and over a reload. -/
theorem sample_resaved :
    NilWhenEmpty sampleDefinition ∧
      ∃ saved, OwnedStore.write unaryCodec ⟨⟨[], {}⟩, ∅⟩ (saveSample, ()) = (saved, .ok ()) ∧
        saved.write unaryCodec (saveSample, ()) = (saved, .ok ()) ∧
        ∃ r, saved.reload unaryCodec (fun _ form => form) = .ok r ∧
          r.write unaryCodec (saveSample, ()) = (r, .ok ()) := by
  have hnil : NilWhenEmpty sampleDefinition := by decide +kernel
  have hplain : OwnedStore.WritesPlain (⟨⟨[], {}⟩, ∅⟩ : OwnedStore Unit) (saveSample, ()) := by
    rintro commit ⟨⟩
    decide +kernel
  obtain ⟨hagain, hreload⟩ := (resave_unchanged_iff unaryCodec (fun _ form => form)
    (fun _ => ()) [] _ rfl {} {} sampleDefinition sampleDefinition rfl
    ⟨[], [], [], 0⟩ () ()).1 rfl
  exact ⟨hnil, _, rfl, hagain.mpr hnil, (hreload trivial).mpr ⟨hnil, hplain⟩⟩

/-- A definition as the HTTP layer builds it: the task without dependencies has a slice of
none, made with capacity. -/
def builtDefinition : WorkflowDefinition where
  id := ascii "w"
  tasks := [⟨ascii "a", ascii "A", .of [], ascii "h", [], ⟨0, 0, 0⟩⟩]

/-- The store that holds it. -/
def storeOfBuilt : FileStore :=
  { workflows := KeyMap.empty.insert (ascii "w") (cloneDefinition builtDefinition) }

theorem storeOfBuilt_refuses (file : List UInt8) :
    OwnedStore.write unaryCodec (⟨⟨file, storeOfBuilt⟩, ∅⟩ : OwnedStore Unit)
        (.saveWorkflow .live .live builtDefinition, ()) =
      (⟨⟨file, storeOfBuilt⟩, ∅⟩, .error (.workflowConflict (ascii "w"))) := rfl

/-- Either store accepts the definition and refuses it the second time. -/
theorem builtDefinition_conflicts_with_itself :
    (∃ saved, OwnedStore.write unaryCodec ⟨⟨[], {}⟩, ∅⟩
        (.saveWorkflow .live .live builtDefinition, ()) = (saved, .ok ()) ∧
      saved.write unaryCodec (.saveWorkflow .live .live builtDefinition, ()) =
        (saved, .error (.workflowConflict (ascii "w")))) ∧
    ∃ tables : WorkflowTables, WorkflowTables.saveWorkflow {} .live builtDefinition = .ok tables ∧
      tables.saveWorkflow .live builtDefinition ≠ .ok tables := by
  refine ⟨⟨⟨⟨_, storeOfBuilt⟩, ∅⟩, rfl, storeOfBuilt_refuses _⟩, ?_⟩
  obtain ⟨tables, htables⟩ : ∃ tables,
      WorkflowTables.saveWorkflow {} .live builtDefinition = .ok tables := ⟨_, rfl⟩
  refine ⟨tables, htables, fun hagain => ?_⟩
  exact absurd ((saveWorkflow_again_iff htables rfl).mp hagain) (by decide +kernel)

end ForgeFlow.Persistence
