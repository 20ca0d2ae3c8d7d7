import Mathlib.Tactic.DeriveEncodable
import Mathlib.Logic.Equiv.List
import ForgeFlow.Persistence.Replay
import ForgeFlow.Persistence.Text
import ForgeFlow.Execution.History

/-!
# Journals, crashes and failed appends

Histories of a store on its file. An append may stop in the middle of a line,
either because the process dies, or with an error that the process survives.
-/

namespace ForgeFlow.Persistence

open ForgeFlow.Base ForgeFlow.Workflow ForgeFlow.Execution ForgeFlow.Security

/-- How an append ends: with success, or with an error after some of the bytes of
the line, at most all of them, have reached the file. -/
inductive AppendOutcome where
  | complete
  | failed (written : Nat) (err : StoreError)
  deriving DecidableEq

def appendRecord (codec : JournalCodec) (file : List UInt8) (record : JournalRecord) :
    AppendOutcome → List UInt8 × Except StoreError Unit
  | .complete => (file ++ codec.encodeLine record, .ok ())
  | .failed written err => (file ++ (codec.encodeLine record).take written, .error err)

namespace OpenStore

/-- A call of a mutation: the store and file behind it, and what the call
returns, the stored snapshot where it returns one. The record goes to the file in
its JSON form. -/
def call (codec : JournalCodec) (s : OpenStore) (m : Mutation) (outcome : AppendOutcome) :
    OpenStore × Except StoreError (Option WorkflowRunSnapshot) :=
  match s.store.prepare m with
  | .error e => (s, .error e)
  | .ok none => (s, .ok none)
  | .ok (some commit) =>
    match appendRecord codec s.file (reread commit.record) outcome with
    | (file, .error e) => ({ file := file, store := s.store }, .error e)
    | (file, .ok _) => ({ file := file, store := commit.next }, .ok commit.record.run)

/-- A call is refused, or has nothing to write, or appends and commits, or fails
to append. -/
theorem call_cases (codec : JournalCodec) (s : OpenStore) (m : Mutation)
    (outcome : AppendOutcome) :
    (∃ e, s.store.prepare m = .error e ∧ s.call codec m outcome = (s, .error e)) ∨
    (s.store.prepare m = .ok none ∧ s.call codec m outcome = (s, .ok none)) ∨
    ∃ c, s.store.prepare m = .ok (some c) ∧
      ((outcome = .complete ∧ s.call codec m outcome =
          (⟨s.file ++ codec.encodeLine (reread c.record), c.next⟩, .ok c.record.run)) ∨
        ∃ written err, outcome = .failed written err ∧ s.call codec m outcome =
          (⟨s.file ++ (codec.encodeLine (reread c.record)).take written, s.store⟩,
            .error err)) := by
  unfold call
  cases h : s.store.prepare m with
  | error e => exact .inl ⟨e, rfl, rfl⟩
  | ok commit =>
    cases commit with
    | none => exact .inr (.inl ⟨rfl, rfl⟩)
    | some c =>
      refine .inr (.inr ⟨c, rfl, ?_⟩)
      cases outcome with
      | complete => exact .inl ⟨rfl, rfl⟩
      | failed written err => exact .inr ⟨written, err, rfl, rfl⟩

end OpenStore

/-! ## What is in the file -/

def FileStore.replayRecords : FileStore → List JournalRecord → Except StoreError FileStore
  | store, [] => .ok store
  | store, r :: rs => (store.replayRecord r).bind fun store => store.replayRecords rs

theorem FileStore.replayRecords_append (r : JournalRecord) :
    ∀ (rs : List JournalRecord) {s s' : FileStore}, s.replayRecords rs = .ok s' →
      s.replayRecords (rs ++ [r]) = s'.replayRecord r
  | [], s, s', h => by
    cases h
    simp only [List.nil_append, replayRecords]
    cases s.replayRecord r <;> rfl
  | r₀ :: rs, s, s', h => by
    obtain ⟨s₁, h₁, h⟩ := bind_eq_ok.mp h
    simp only [List.cons_append, replayRecords, h₁]
    exact replayRecords_append r rs h

namespace JournalCodec

variable (codec : JournalCodec)

/-- The file that holds the records and nothing else. -/
def journal (records : List JournalRecord) : List UInt8 :=
  joinLines newline (records.map codec.envelope)

theorem journal_append (records : List JournalRecord) (r : JournalRecord) :
    codec.journal (records ++ [r]) = codec.journal records ++ codec.encodeLine r := by
  simp [journal, encodeLine]

theorem replayLine_envelope (s : FileStore) (r : JournalRecord) :
    codec.replayLine s (codec.envelope r) = s.replayRecord r := by
  simp [replayLine, decodeLine, envelope, codec.decodeEnvelope_encode, codec.decodeRecord_encode,
    Except.bind, Except.mapError, firstError]

theorem replayLines_envelopes : ∀ (rs : List JournalRecord) (s : FileStore),
    codec.replayLines s (rs.map codec.envelope) = s.replayRecords rs
  | [], _ => rfl
  | r :: rs, s => by
    simp only [List.map_cons, replayLines, FileStore.replayRecords, replayLine_envelope]
    cases s.replayRecord r with
    | error e => rfl
    | ok s' => exact replayLines_envelopes rs s'

theorem split_journal (records : List JournalRecord) {tail : List UInt8} (htail : newline ∉ tail) :
    splitLines newline (codec.journal records ++ tail) = (records.map codec.envelope, tail) := by
  apply splitLines_joinLines htail
  intro line hline
  obtain ⟨r, -, rfl⟩ := List.mem_map.mp hline
  exact codec.newline_not_mem r

/-- Opening replays the records of the file and cuts off its unterminated tail. -/
theorem open_journal (records : List JournalRecord) {tail : List UInt8} (htail : newline ∉ tail) :
    openFileStore codec (codec.journal records ++ tail) =
      (FileStore.replayRecords {} records).bind fun store =>
        .ok { file := codec.journal records, store := store } := by
  have hfile : (if tail = [] then codec.journal records ++ tail
      else (codec.journal records ++ tail).take (codec.journal records).length) =
        codec.journal records := by
    split
    · rename_i h
      rw [h, List.append_nil]
    · exact List.take_left
  simp only [openFileStore, codec.split_journal records htail, replayLines_envelopes]
  cases FileStore.replayRecords {} records with
  | error e => rfl
  | ok store => exact congrArg (fun f => Except.ok (OpenStore.mk f store)) hfile

/-- Every proper prefix of a line is without a newline. -/
theorem newline_not_mem_of_proper {tail : List UInt8} {r : JournalRecord}
    (h : tail <+: codec.encodeLine r) (hne : tail ≠ codec.encodeLine r) : newline ∉ tail := by
  obtain ⟨k, rfl⟩ : ∃ k, tail = (codec.encodeLine r).take k :=
    ⟨tail.length, (List.prefix_iff_eq_take.mp h)⟩
  refine not_mem_take_line (codec.newline_not_mem r) ?_
  by_contra hk
  exact hne (List.take_of_length_le (not_lt.mp hk))

end JournalCodec

/-- The file holds records that replay to the live state, and an unterminated tail. -/
structure Journaled (codec : JournalCodec) (s : OpenStore) (records : List JournalRecord)
    (tail : List UInt8) : Prop where
  file : s.file = codec.journal records ++ tail
  tail : newline ∉ tail
  replay : FileStore.replayRecords {} records = .ok s.store
  sound : Sound s.store

namespace Journaled

variable {codec : JournalCodec} {s : OpenStore} {records : List JournalRecord}
  {tail : List UInt8}

theorem empty (codec : JournalCodec) : Journaled codec ⟨[], {}⟩ [] [] where
  file := rfl
  tail := List.not_mem_nil
  replay := rfl
  sound := sound_empty

theorem reopen (h : Journaled codec s records tail) :
    openFileStore codec s.file = .ok ⟨codec.journal records, s.store⟩ := by
  rw [h.file, codec.open_journal records h.tail, h.replay]
  rfl

theorem tail_eq (h : Journaled codec s records tail) : (splitLines newline s.file).2 = tail := by
  rw [h.file, codec.split_journal records h.tail]

/-- More bytes of an unfinished line. -/
theorem torn (h : Journaled codec s records tail) {more : List UInt8} (hmore : newline ∉ more) :
    Journaled codec ⟨s.file ++ more, s.store⟩ records (tail ++ more) where
  file := by rw [h.file, List.append_assoc]
  tail := by simp [h.tail, hmore]
  replay := h.replay
  sound := h.sound

/-- A line that starts at a line boundary. -/
theorem append (h : Journaled codec s records []) {m : Mutation} {c : Commit}
    (hc : s.store.prepare m = .ok (some c)) :
    Journaled codec ⟨s.file ++ codec.encodeLine c.record, c.next⟩ (records ++ [c.record]) [] := by
  have hr := prepare_replayed h.sound hc
  refine ⟨?_, List.not_mem_nil, ?_, hr.sound⟩
  · rw [h.file, codec.journal_append, List.append_nil, List.append_nil]
  · rw [FileStore.replayRecords_append c.record records h.replay, FileStore.replayRecord,
      bind_of_ok (by simp [hr.version]), hr.apply]

end Journaled

/-! ## Crashes -/

inductive StoreEvent where
  | call (m : Mutation)
  /-- The process dies having written this many bytes of the line of a record, but
  not its newline, and the store is opened again. -/
  | crash (torn : JournalRecord) (written : Nat)

/-- A call whose append succeeds and writes the record as it is. -/
def OpenStore.commit (codec : JournalCodec) (s : OpenStore) (m : Mutation) : OpenStore :=
  match s.store.prepare m with
  | .ok (some commit) =>
    { file := s.file ++ codec.encodeLine commit.record, store := commit.next }
  | _ => s

def OpenStore.serve (codec : JournalCodec) (s : OpenStore) :
    StoreEvent → Except StoreError OpenStore
  | .call m => .ok (s.commit codec m)
  | .crash torn written => openFileStore codec (s.file ++ (codec.envelope torn).take written)

def OpenStore.serveAll (codec : JournalCodec) :
    OpenStore → List StoreEvent → Except StoreError OpenStore
  | s, [] => .ok s
  | s, event :: events => (s.serve codec event).bind fun s => s.serveAll codec events

def StoreEvent.mutation? : StoreEvent → Option Mutation
  | .call m => some m
  | .crash _ _ => none

theorem Journaled.commit {codec : JournalCodec} {s : OpenStore} {records : List JournalRecord}
    (h : Journaled codec s records []) (m : Mutation) :
    (∃ records, Journaled codec (s.commit codec m) records []) ∧
      (s.commit codec m).store = s.store.mutate m := by
  unfold FileStore.mutate OpenStore.commit
  cases hp : s.store.prepare m with
  | error e => exact ⟨⟨records, h⟩, rfl⟩
  | ok result =>
    cases result with
    | none => exact ⟨⟨records, h⟩, rfl⟩
    | some c => exact ⟨⟨_, h.append hp⟩, rfl⟩

theorem Journaled.crash {codec : JournalCodec} {s : OpenStore} {records : List JournalRecord}
    (h : Journaled codec s records []) {tail : List UInt8} (htail : newline ∉ tail) :
    openFileStore codec (s.file ++ tail) = .ok s := by
  rw [(h.torn htail).reopen]
  have hfile := h.file
  rw [List.append_nil] at hfile
  rw [← hfile]

/-- Calls and crashes in any order are all served, and the store is the one the
calls alone would have built in memory. -/
theorem Journaled.serveAll {codec : JournalCodec} :
    ∀ (events : List StoreEvent) {s : OpenStore} {records : List JournalRecord},
      Journaled codec s records [] →
      ∃ s' records', s.serveAll codec events = .ok s' ∧ Journaled codec s' records' [] ∧
        s'.store = (events.filterMap StoreEvent.mutation?).foldl FileStore.mutate s.store
  | [], s, records, h => ⟨s, records, rfl, h, rfl⟩
  | .call m :: events, s, records, h => by
    obtain ⟨⟨records₁, h₁⟩, hstore⟩ := h.commit m
    obtain ⟨s', records', hserve, h', hs'⟩ := h₁.serveAll events
    refine ⟨s', records', hserve, h', ?_⟩
    rw [hs', hstore]
    rfl
  | .crash torn written :: events, s, records, h => by
    obtain ⟨s', records', hserve, h', hs'⟩ := h.serveAll events
    have htail : newline ∉ (codec.envelope torn).take written :=
      fun hmem => codec.newline_not_mem torn (List.mem_of_mem_take hmem)
    refine ⟨s', records', ?_, h', hs'⟩
    rw [OpenStore.serveAll, OpenStore.serve, h.crash htail]
    exact hserve

/-- Whatever calls a store serves, accepted or refused, and however often it is
opened again after a crash, opening its file after one more crash gives the same
store and file back, and the store is the one the calls built in memory; a refused
call changes nothing. -/
theorem reopened_store_is_live_store (codec : JournalCodec) (events : List StoreEvent) :
    ∃ s, OpenStore.serveAll codec ⟨[], {}⟩ events = .ok s ∧
      s.store = (events.filterMap StoreEvent.mutation?).foldl FileStore.mutate {} ∧
      (∀ record tail, tail <+: codec.encodeLine record → tail ≠ codec.encodeLine record →
        openFileStore codec (s.file ++ tail) = .ok s) ∧
      ∀ m e, (s.call codec m .complete).2 = .error e → (s.call codec m .complete).1 = s := by
  obtain ⟨s, records, hserve, h, hstore⟩ := (Journaled.empty codec).serveAll events
  refine ⟨s, hserve, hstore, ?_, ?_⟩
  · intro record tail hprefix hne
    exact h.crash (codec.newline_not_mem_of_proper hprefix hne)
  · intro m e he
    rcases s.call_cases codec m .complete with ⟨e, -, hcall⟩ | ⟨-, hcall⟩ |
      ⟨c, -, ⟨-, hcall⟩ | ⟨written, err, hfail, -⟩⟩
    · rw [hcall]
    · rw [hcall]
    · rw [hcall] at he
      cases he
    · cases hfail

/-! ## Failed appends -/

/-- The calls that returned success. -/
def OpenStore.succeeded (codec : JournalCodec) :
    OpenStore → List (Mutation × AppendOutcome) → List Mutation
  | _, [] => []
  | s, (m, outcome) :: calls =>
    let result := s.call codec m outcome
    match result.2 with
    | .ok _ => m :: result.1.succeeded codec calls
    | .error _ => result.1.succeeded codec calls

def OpenStore.callAll (codec : JournalCodec) :
    OpenStore → List (Mutation × AppendOutcome) → OpenStore
  | s, [] => s
  | s, (m, outcome) :: calls => (s.call codec m outcome).1.callAll codec calls

/-- A failed append has not written its whole line, and a successful one starts at a
line boundary and writes UTF-8. -/
def OpenStore.CleanCall (codec : JournalCodec) (s : OpenStore) (m : Mutation)
    (outcome : AppendOutcome) : Prop :=
  ∀ commit, s.store.prepare m = .ok (some commit) →
    match outcome with
    | .complete => (splitLines newline s.file).2 = [] ∧ Plain commit.record
    | .failed written _ => written < (codec.encodeLine (reread commit.record)).length

def OpenStore.Clean (codec : JournalCodec) : OpenStore → List (Mutation × AppendOutcome) → Prop
  | _, [] => True
  | s, (m, outcome) :: calls =>
    s.CleanCall codec m outcome ∧ (s.call codec m outcome).1.Clean codec calls

theorem Journaled.cleanCall {codec : JournalCodec} {s : OpenStore} {records : List JournalRecord}
    {tail : List UInt8} (h : Journaled codec s records tail) {m : Mutation}
    {outcome : AppendOutcome} (hclean : s.CleanCall codec m outcome) :
    ∃ records tail, Journaled codec (s.call codec m outcome).1 records tail := by
  rcases s.call_cases codec m outcome with ⟨e, -, hcall⟩ | ⟨-, hcall⟩ |
    ⟨c, hp, ⟨rfl, hcall⟩ | ⟨written, err, rfl, hcall⟩⟩
  · rw [hcall]
    exact ⟨records, tail, h⟩
  · rw [hcall]
    exact ⟨records, tail, h⟩
  · -- the append starts a new line: nothing unterminated is left from before
    obtain ⟨htail, hplain⟩ := hclean c hp
    rw [hcall, (reread_eq_self_iff c.record).mpr hplain]
    rw [h.tail_eq] at htail
    subst htail
    exact ⟨_, [], h.append hp⟩
  · rw [hcall]
    exact ⟨records, _, h.torn (not_mem_take_line (codec.newline_not_mem _) (hclean c hp))⟩

theorem Journaled.callAll {codec : JournalCodec} :
    ∀ (calls : List (Mutation × AppendOutcome)) {s : OpenStore} {records : List JournalRecord}
      {tail : List UInt8}, Journaled codec s records tail → s.Clean codec calls →
      ∃ records tail, Journaled codec (s.callAll codec calls) records tail
  | [], s, records, tail, h, _ => ⟨records, tail, h⟩
  | (m, outcome) :: calls, s, records, tail, h, hclean => by
    obtain ⟨records₁, tail₁, h₁⟩ := h.cleanCall hclean.1
    exact h₁.callAll calls hclean.2

/-- In memory only the calls that returned success have an effect. -/
theorem callAll_store (codec : JournalCodec) :
    ∀ (calls : List (Mutation × AppendOutcome)) (s : OpenStore),
      (s.callAll codec calls).store = (s.succeeded codec calls).foldl FileStore.mutate s.store
  | [], _ => rfl
  | (m, outcome) :: calls, s => by
    rw [OpenStore.callAll, callAll_store codec calls, OpenStore.succeeded]
    rcases s.call_cases codec m outcome with ⟨e, -, hcall⟩ | ⟨hp, hcall⟩ |
      ⟨c, hp, ⟨-, hcall⟩ | ⟨written, err, -, hcall⟩⟩
    · rw [hcall]
    · rw [hcall, List.foldl_cons, FileStore.mutate, hp]
    · rw [hcall, List.foldl_cons, FileStore.mutate, hp]
    · rw [hcall]

/-- Appends may fail as long as no failed one leaves its whole line, and no successful
one continues the line of a failed one or writes what is not UTF-8: then opening the
file gives exactly the state that the successful calls built. -/
theorem failed_appends_not_replayed (codec : JournalCodec)
    (calls : List (Mutation × AppendOutcome)) (hclean : OpenStore.Clean codec ⟨[], {}⟩ calls) :
    ∃ file, openFileStore codec (OpenStore.callAll codec ⟨[], {}⟩ calls).file =
      .ok ⟨file, (OpenStore.succeeded codec ⟨[], {}⟩ calls).foldl FileStore.mutate {}⟩ := by
  obtain ⟨records, tail, h⟩ := (Journaled.empty codec).callAll calls hclean
  refine ⟨codec.journal records, ?_⟩
  rw [h.reopen, callAll_store]

/-! ## A codec -/

instance encodableUInt8 : Encodable UInt8 := Encodable.ofLeftInverse UInt8.toNat UInt8.ofNat (by simp)

instance {K V : Type} [LinearOrder K] [Encodable K] [Encodable V] : Encodable (KeyMap K V) :=
  Encodable.ofLeftInverse KeyMap.entries KeyMap.ofList KeyMap.ofList_entries

deriving instance Encodable for Slice, RetryPolicy, TaskDefinition, WorkflowDefinition

deriving instance Encodable for TaskRunStatus, WorkflowRunStatus, TaskLease, TaskRun,
  WorkerHeartbeat, WorkflowRunSnapshot

deriving instance Encodable for Role, User, Project, Security.Membership, WorkflowOwnership,
  AuditEvent

deriving instance Encodable for JournalOperation, JournalRecord, JournalEnvelope

/-- A value written in unary, without a newline. -/
def unary {α : Type} [Encodable α] (a : α) : List UInt8 := List.replicate (Encodable.encode a) 0x31

def readUnary {α : Type} [Encodable α] (bytes : List UInt8) : Except GoString α :=
  match Encodable.decode bytes.length with
  | some a => .ok a
  | none => .error []

theorem readUnary_unary {α : Type} [Encodable α] (a : α) : readUnary (unary a) = .ok a := by
  simp [readUnary, unary]

theorem newline_not_mem_unary {α : Type} [Encodable α] (a : α) : newline ∉ unary a := by
  intro h
  exact absurd (List.eq_of_mem_replicate h) (by decide)

/-- The laws of a codec can be met. -/
def unaryCodec : JournalCodec where
  encodeRecord := unary
  decodeRecord := readUnary
  encodeEnvelope := unary
  decodeEnvelope := readUnary
  digest := fun _ => []
  decodeRecord_encode := readUnary_unary
  decodeEnvelope_encode := fun _ _ => readUnary_unary _
  newline_not_mem := fun _ => newline_not_mem_unary _

def saveSample : Mutation := .saveWorkflow .live .live sampleDefinition

/-- A first attempt writes nothing and fails, the second one succeeds. -/
theorem failed_append_retried : ∃ file,
    openFileStore unaryCodec (OpenStore.callAll unaryCodec ⟨[], {}⟩
      [(saveSample, .failed 0 (refuse "disk full")), (saveSample, .complete)]).file =
    .ok ⟨file, (OpenStore.succeeded unaryCodec ⟨[], {}⟩
      [(saveSample, .failed 0 (refuse "disk full")), (saveSample, .complete)]).foldl
        FileStore.mutate {}⟩ := by
  apply failed_appends_not_replayed
  refine ⟨fun c hc => ?_, fun c hc => ?_, trivial⟩
  · exact Nat.lt_of_lt_of_le Nat.zero_lt_one (by simp [JournalCodec.encodeLine])
  · cases hc
    exact ⟨rfl, by decide +kernel⟩

def sampleSnapshot : WorkflowRunSnapshot where
  id := ascii "r"
  workflowID := ascii "w"
  version := 0
  status := .pending
  createdAt := 1
  updatedAt := 1
  tasks := [newTaskRun (ascii "r") 1 (ascii "a"), newTaskRun (ascii "r") 1 (ascii "b")]
  workers := []

def savedSample : JournalRecord := { operation := .saveWorkflow, workflow := some sampleDefinition }

def storeOfSample : FileStore := { workflows := KeyMap.ofList [(ascii "w", sampleDefinition)] }

def createSample : Mutation := .createRun .live .live sampleSnapshot

def createdSample : JournalRecord :=
  { operation := .createRun, run := some { sampleSnapshot with version := 1 } }

/-- The whole line of a run is written and the append then fails; the caller
tries again. -/
def retriedCreation (codec : JournalCodec) : List (Mutation × AppendOutcome) :=
  [(saveSample, .complete),
    (createSample, .failed (codec.encodeLine createdSample).length (refuse "sync failed")),
    (createSample, .complete)]

theorem call_createSample (codec : JournalCodec) (file : List UInt8) (outcome : AppendOutcome) :
    OpenStore.call codec ⟨file, storeOfSample⟩ createSample outcome =
      match appendRecord codec file (reread createdSample) outcome with
      | (file, .error e) => (⟨file, storeOfSample⟩, .error e)
      | (file, .ok _) => (⟨file, { storeOfSample with
          runs := KeyMap.ofList [(ascii "r", { sampleSnapshot with version := 1 })] }⟩,
          .ok createdSample.run) := rfl

theorem retriedCreation_file (codec : JournalCodec) :
    (OpenStore.callAll codec ⟨[], {}⟩ (retriedCreation codec)).file =
      codec.journal [savedSample, createdSample, createdSample] := by
  have hsave : OpenStore.call codec ⟨[], {}⟩ saveSample .complete =
      (⟨codec.encodeLine (reread savedSample), storeOfSample⟩, .ok none) := rfl
  have hsaved : reread savedSample = savedSample :=
    (reread_eq_self_iff _).mpr (by decide +kernel)
  have hcreated : reread createdSample = createdSample :=
    (reread_eq_self_iff _).mpr (by decide +kernel)
  simp only [retriedCreation, OpenStore.callAll, hsave, call_createSample, appendRecord, hsaved,
    hcreated, List.take_length]
  simp [JournalCodec.journal, JournalCodec.encodeLine]

theorem retriedCreation_succeeded (codec : JournalCodec) :
    OpenStore.succeeded codec ⟨[], {}⟩ (retriedCreation codec) = [saveSample, createSample] := by
  have hsave : OpenStore.call codec ⟨[], {}⟩ saveSample .complete =
      (⟨codec.encodeLine (reread savedSample), storeOfSample⟩, .ok none) := rfl
  simp only [retriedCreation, OpenStore.succeeded, hsave, call_createSample, appendRecord]

/-- Two calls have returned success, and the file they leave cannot be opened. -/
theorem failed_append_makes_journal_unreadable :
    OpenStore.succeeded unaryCodec ⟨[], {}⟩ (retriedCreation unaryCodec) =
      [saveSample, createSample] ∧
    openFileStore unaryCodec
        (OpenStore.callAll unaryCodec ⟨[], {}⟩ (retriedCreation unaryCodec)).file =
      .error (.runAlreadyExists (ascii "r")) := by
  refine ⟨retriedCreation_succeeded unaryCodec, ?_⟩
  have hreplay : FileStore.replayRecords {} [savedSample, createdSample, createdSample] =
      .error (.runAlreadyExists (ascii "r")) := rfl
  rw [retriedCreation_file, ← List.append_nil (unaryCodec.journal _),
    unaryCodec.open_journal _ List.not_mem_nil, hreplay]
  rfl

end ForgeFlow.Persistence
