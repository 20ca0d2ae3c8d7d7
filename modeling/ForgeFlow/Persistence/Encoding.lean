import ForgeFlow.Persistence.Journal
import ForgeFlow.Base.Transition

/-!
# Text in the journal

A store that journals a string which is not UTF-8 is not the store its journal gives back.
-/

namespace ForgeFlow.Persistence

open ForgeFlow.Base ForgeFlow.Workflow ForgeFlow.Execution ForgeFlow.Security

variable {codec : JournalCodec} {s : OpenStore} {m : Mutation} {c : Commit}
  {snapshot : WorkflowRunSnapshot} {records : List JournalRecord}

namespace OpenStore

/-- A call whose append succeeds: the record goes to the file in its JSON form. -/
def write (codec : JournalCodec) (s : OpenStore) (m : Mutation) :
    OpenStore × Except StoreError Unit :=
  match s.store.prepare m with
  | .error e => (s, .error e)
  | .ok none => (s, .ok ())
  | .ok (some commit) =>
    ({ file := s.file ++ codec.encodeLine (reread commit.record), store := commit.next }, .ok ())

/-- The store after a call. -/
def writeStep (codec : JournalCodec) (s : OpenStore) (m : Mutation) : Option OpenStore :=
  some (s.write codec m).1

/-- What the call journals is UTF-8. -/
def WritesPlain (s : OpenStore) (m : Mutation) : Prop :=
  ∀ commit, s.store.prepare m = .ok (some commit) → Plain commit.record

end OpenStore

theorem write_commit (h : s.store.prepare m = .ok (some c)) :
    s.write codec m = (⟨s.file ++ codec.encodeLine (reread c.record), c.next⟩, .ok ()) := by
  rw [OpenStore.write, h]

theorem write_eq_call (codec : JournalCodec) (s : OpenStore) (m : Mutation) :
    (s.write codec m).1 = (s.call codec m .complete).1 := by
  unfold OpenStore.write OpenStore.call
  cases s.store.prepare m with
  | error e => rfl
  | ok result => cases result <;> rfl

theorem write_of_plain (h : s.WritesPlain m) : (s.write codec m).1 = s.commit codec m := by
  unfold OpenStore.write OpenStore.commit
  cases hp : s.store.prepare m with
  | error e => rfl
  | ok result =>
    cases result with
    | none => rfl
    | some c => simp only [(reread_eq_self_iff c.record).mpr (h c hp)]

/-- Calls that journal only UTF-8 leave a journal that gives the store back. -/
theorem journaled_of_plain {calls : List Mutation}
    (hplain : Meets (OpenStore.writeStep codec) OpenStore.WritesPlain ⟨[], {}⟩ calls)
    (hrun : runLabels (OpenStore.writeStep codec) ⟨[], {}⟩ calls = some s) :
    ∃ records, Journaled codec s records [] := by
  refine Meets.invariant (I := fun s => ∃ records, Journaled codec s records []) ?_ hplain
    ⟨[], Journaled.empty codec⟩ hrun
  rintro s m s' hm hstep ⟨records, h⟩
  cases hstep
  rw [write_of_plain hm]
  exact (h.commit m).1

/-- The snapshot that a call brings. -/
def Mutation.run? : Mutation → Option WorkflowRunSnapshot
  | .createRun _ _ snapshot => some snapshot
  | .saveRun _ _ snapshot => some snapshot
  | _ => none

/-- What an accepted `CreateRun` or `SaveRun` journals and stores: the snapshot under a version
that the store has not had. -/
structure StoresRun (s : FileStore) (snapshot : WorkflowRunSnapshot) (c : Commit)
    (version : Nat) : Prop where
  operation : c.record.operation = .createRun ∨ c.record.operation = .saveRun
  record : c.record =
    { operation := c.record.operation, run := some { snapshot with version := version } }
  next : c.next = { s with
    runs := s.runs.insert snapshot.id { snapshot with version := version } }
  positive : version ≠ 0
  fresh : ∀ current, s.runs.get? snapshot.id = some current → current.version ≠ version

theorem prepare_storesRun {s : FileStore}
    (hm : m.run? = some snapshot) {result : Option Commit} (h : s.prepare m = .ok result) :
    ∃ c version, result = some c ∧ StoresRun s snapshot c version := by
  cases m with
  | createRun entry late run =>
    cases hm
    obtain ⟨-, h⟩ := bind_unit_ok_iff.mp h
    obtain ⟨-, h⟩ := bind_unit_ok_iff.mp h
    obtain ⟨hfirst, h⟩ := bind_unit_ok_iff.mp h
    obtain ⟨-, h⟩ := bind_unit_ok_iff.mp h
    obtain ⟨-, h⟩ := bind_unit_ok_iff.mp h
    cases h
    simp only [firstError_cons, KeyMap.contains, Option.isSome_eq_false_iff,
      Option.isNone_iff_eq_none] at hfirst
    refine ⟨_, 1, rfl, .inl rfl, rfl, rfl, Nat.one_ne_zero, fun current hcurrent => ?_⟩
    rw [hfirst.1] at hcurrent
    cases hcurrent
  | saveRun entry late run =>
    cases hm
    obtain ⟨-, h⟩ := bind_unit_ok_iff.mp h
    obtain ⟨-, h⟩ := bind_unit_ok_iff.mp h
    split at h
    · cases h
    · rename_i current hcurrent
      obtain ⟨hfirst, h⟩ := bind_unit_ok_iff.mp h
      obtain ⟨-, h⟩ := bind_unit_ok_iff.mp h
      obtain ⟨-, h⟩ := bind_unit_ok_iff.mp h
      cases h
      have hversion : snapshot.version = current.version := by simpa using hfirst
      refine ⟨_, snapshot.version + 1, rfl, .inr rfl, rfl, rfl, Nat.succ_ne_zero _, ?_⟩
      intro current' hcurrent'
      rw [hcurrent] at hcurrent'
      cases hcurrent'
      omega
  | _ => cases hm

/-- Replaying the record of a run stores the run under its own ID. -/
theorem replayRecord_runs {s s' : FileStore} {operation : JournalOperation}
    {run : WorkflowRunSnapshot} (hop : operation = .createRun ∨ operation = .saveRun)
    (hversion : run.version ≠ 0)
    (h : s.replayRecord { operation := operation, run := some run } = .ok s') :
    s'.runs = s.runs.insert run.id run := by
  have happly : s.applyRunRecord { operation := operation, run := some run } = .ok s' := by
    obtain ⟨-, h⟩ := bind_unit_ok_iff.mp h
    rcases hop with rfl | rfl
    · exact h
    · exact h
  have hnumbered : FileStore.numberedRun run (s.runs.get? run.id) = run := if_neg hversion
  simp only [FileStore.applyRunRecord, hnumbered] at happly
  obtain ⟨-, happly⟩ := bind_unit_ok_iff.mp happly
  obtain ⟨-, happly⟩ := bind_unit_ok_iff.mp happly
  obtain ⟨-, happly⟩ := bind_unit_ok_iff.mp happly
  cases happly
  rfl

/-- Opening the file after a call replays one more record, in its JSON form. -/
theorem Journaled.reopen_write (h : Journaled codec s records [])
    (hc : s.store.prepare m = .ok (some c)) :
    openFileStore codec (s.write codec m).1.file =
      (s.store.replayRecord (reread c.record)).bind fun store =>
        .ok { file := (s.write codec m).1.file, store := store } := by
  have hfile : s.file ++ codec.encodeLine (reread c.record) =
      codec.journal (records ++ [reread c.record]) := by
    rw [h.file, List.append_nil, codec.journal_append]
  rw [write_commit hc, hfile]
  conv_lhs => rw [← List.append_nil (codec.journal _)]
  rw [codec.open_journal _ List.not_mem_nil, FileStore.replayRecords_append _ _ h.replay]

/-- Opening the file after a call that journals UTF-8 gives the store back. -/
theorem Journaled.reopen_plain (h : Journaled codec s records [])
    (hc : s.store.prepare m = .ok (some c)) (hplain : Plain c.record) :
    openFileStore codec (s.write codec m).1.file = .ok (s.write codec m).1 := by
  have hreplayed := prepare_replayed h.sound hc
  rw [h.reopen_write hc, (reread_eq_self_iff c.record).mpr hplain, FileStore.replayRecord,
    bind_of_ok (by simp [hreplayed.version]), hreplayed.apply, write_commit hc]
  rfl

theorem plain_version {version : Nat} :
    Plain { snapshot with version := version } ↔ Plain snapshot := Iff.rfl

/-- A run is journaled faithfully exactly if its strings are UTF-8. -/
theorem StoresRun.reopened_iff (hj : Journaled codec s records [])
    (hc : s.store.prepare m = .ok (some c)) {version : Nat}
    (h : StoresRun s.store snapshot c version) :
    (∃ reopened, openFileStore codec (s.write codec m).1.file = .ok reopened ∧
      ∀ ctx, reopened.store.loadRun ctx snapshot.id =
        (s.write codec m).1.store.loadRun ctx snapshot.id) ↔ Plain snapshot := by
  have hrecord : reread c.record =
      { operation := c.record.operation
        run := some (reread { snapshot with version := version }) } := by
    rw [h.record]
    rcases h.operation with hop | hop
    · rw [hop]
      rfl
    · rw [hop]
      rfl
  have hlive : (s.write codec m).1.store.runs.get? snapshot.id =
      some { snapshot with version := version } := by
    rw [write_commit hc, h.next]
    exact KeyMap.get?_insert_self _ _ _
  constructor
  · rintro ⟨reopened, hopen, hload⟩
    rw [hj.reopen_write hc] at hopen
    obtain ⟨store, hreplay, hstore⟩ := bind_eq_ok.mp hopen
    cases hstore
    rw [hrecord] at hreplay
    have hruns : store.runs = s.store.runs.insert (reread snapshot.id)
        (reread { snapshot with version := version }) :=
      replayRecord_runs h.operation h.positive hreplay
    have hsame : store.runs.get? snapshot.id = some { snapshot with version := version } := by
      have hlive' := hload .live
      simp only [FileStore.loadRun, contextError, Except.map, Except.ok.injEq] at hlive'
      exact hlive'.trans hlive
    rw [hruns, KeyMap.get?_insert] at hsame
    split at hsame
    · -- the run is found under its ID, as it was read back
      exact plain_version.mp ((reread_eq_self_iff _).mp (Option.some.inj hsame))
    · -- only an earlier version can be found under the ID
      exact absurd rfl (h.fresh _ hsame)
  · intro hplain
    have hfaithful : reread c.record = c.record := by
      rw [hrecord, (reread_eq_self_iff _).mpr (plain_version.mpr hplain)]
      exact h.record.symm
    exact ⟨_, hj.reopen_plain hc ((reread_eq_self_iff _).mp hfaithful), fun _ => rfl⟩

/-- As long as what a store journals is UTF-8, its journal gives the store back. An accepted
`CreateRun` or `SaveRun` keeps it so exactly if the strings of its snapshot are UTF-8:
otherwise the journal cannot be opened, or it gives another snapshot back. -/
theorem reopened_run_same_iff (codec : JournalCodec) (earlier : List Mutation) (s : OpenStore)
    (hplain : Meets (OpenStore.writeStep codec) OpenStore.WritesPlain ⟨[], {}⟩ earlier)
    (hrun : runLabels (OpenStore.writeStep codec) ⟨[], {}⟩ earlier = some s) :
    openFileStore codec s.file = .ok s ∧
      ∀ m snapshot, m.run? = some snapshot → (s.write codec m).2 = .ok () →
        ((∃ reopened, openFileStore codec (s.write codec m).1.file = .ok reopened ∧
          ∀ ctx, reopened.store.loadRun ctx snapshot.id =
            (s.write codec m).1.store.loadRun ctx snapshot.id) ↔ Plain snapshot) := by
  obtain ⟨records, hj⟩ := journaled_of_plain hplain hrun
  refine ⟨?_, ?_⟩
  · have hcrash := hj.crash List.not_mem_nil
    rwa [List.append_nil] at hcrash
  · intro m snapshot hm haccepted
    cases hp : s.store.prepare m with
    | error e =>
      rw [OpenStore.write, hp] at haccepted
      cases haccepted
    | ok result =>
      obtain ⟨c, version, rfl, hstores⟩ := prepare_storesRun hm hp
      exact hstores.reopened_iff hj hp

theorem saveSample_plain :
    Meets (OpenStore.writeStep unaryCodec) OpenStore.WritesPlain ⟨[], {}⟩ [saveSample] := by
  refine ⟨?_, fun _ _ => trivial⟩
  rintro commit ⟨⟩
  decide +kernel

theorem sample_run_reopened :
    Meets (OpenStore.writeStep unaryCodec) OpenStore.WritesPlain ⟨[], {}⟩ [saveSample] ∧
      Plain sampleSnapshot ∧
      ∃ s, runLabels (OpenStore.writeStep unaryCodec) ⟨[], {}⟩ [saveSample] = some s ∧
        ∃ reopened, openFileStore unaryCodec (s.write unaryCodec createSample).1.file =
            .ok reopened ∧
          ∀ ctx, reopened.store.loadRun ctx (ascii "r") =
            (s.write unaryCodec createSample).1.store.loadRun ctx (ascii "r") := by
  have hplain : Plain sampleSnapshot := by decide +kernel
  refine ⟨saveSample_plain, hplain, _, rfl, ?_⟩
  exact ((reopened_run_same_iff unaryCodec [saveSample] _ saveSample_plain rfl).2 createSample
    sampleSnapshot rfl rfl).mpr hplain

/-- A run whose ID is one byte that is not UTF-8. -/
def strayByteRun : WorkflowRunSnapshot where
  id := [0xFF]
  workflowID := ascii "w"
  version := 0
  status := .pending
  createdAt := 1
  updatedAt := 1
  tasks := [newTaskRun [0xFF] 1 (ascii "a"), newTaskRun [0xFF] 1 (ascii "b")]
  workers := []

/-- The run is created, and the journal cannot be opened any more. -/
theorem strayByteRun_makes_journal_unreadable :
    ∃ s, runLabels (OpenStore.writeStep unaryCodec) ⟨[], {}⟩ [saveSample] = some s ∧
      (s.write unaryCodec (.createRun .live .live strayByteRun)).2 = .ok () ∧
      ∀ reopened, openFileStore unaryCodec
        (s.write unaryCodec (.createRun .live .live strayByteRun)).1.file ≠ .ok reopened := by
  obtain ⟨records, hj⟩ := journaled_of_plain saveSample_plain rfl
  refine ⟨_, rfl, rfl, ?_⟩
  intro reopened hopen
  rw [hj.reopen_write rfl] at hopen
  cases hopen

end ForgeFlow.Persistence
