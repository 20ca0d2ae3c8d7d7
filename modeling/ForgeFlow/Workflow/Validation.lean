import ForgeFlow.Base.Acyclic
import ForgeFlow.Workflow.Topology

/-!
# What validation accepts

The conditions on a definition in their own terms: identifiers and names as
sequences of runes, and cycles of the dependency relation. Validation accepts the
definitions that meet all of them, and reports a cycle for those that only have one.
-/

namespace ForgeFlow.Workflow

open ForgeFlow.Base DependencyGraph

/-- Non-empty, without whitespace and control characters. -/
def Plain (s : GoString) : Prop := s ≠ [] ∧ ∀ r ∈ runes s, isSpace r = false ∧ isControl r = false

/-- Not made of whitespace only. -/
def NotBlank (s : GoString) : Prop := ∃ r ∈ runes s, isSpace r = false

/-- All conditions on a definition but one. -/
structure Structured (d : WorkflowDefinition) : Prop where
  id_plain : Plain d.id
  tasks_ne : d.tasks ≠ []
  taskIDs_plain : ∀ task ∈ d.tasks, Plain task.id
  dependencyIDs_plain : ∀ task ∈ d.tasks, ∀ dep ∈ task.dependencies.elems, Plain dep
  names : ∀ task ∈ d.tasks, NotBlank task.name
  retry_nonneg : ∀ task ∈ d.tasks, 0 ≤ task.retry.maxAttempts ∧ 0 ≤ task.retry.initialBackoff ∧
    0 ≤ task.retry.maxBackoff
  retry_backoff : ∀ task ∈ d.tasks,
    task.retry.maxBackoff = 0 ∨ task.retry.initialBackoff ≤ task.retry.maxBackoff
  ids_distinct : (d.tasks.map TaskDefinition.id).Nodup
  not_self : ∀ task ∈ d.tasks, task.id ∉ task.dependencies.elems
  dependencies_distinct : ∀ task ∈ d.tasks, task.dependencies.elems.Nodup
  dependencies_known : ∀ task ∈ d.tasks, ∀ dep ∈ task.dependencies.elems,
    ∃ other ∈ d.tasks, other.id = dep

/-- The dependency relation of a definition. -/
def DependsOn (d : WorkflowDefinition) (id dep : TaskID) : Prop :=
  ∃ task ∈ d.tasks, task.id = id ∧ dep ∈ task.dependencies.elems

/-! ## Identifiers, names and policies -/

theorem validIdentifier_iff (s : GoString) : validIdentifier s = true ↔ Plain s := by
  simp [validIdentifier, plainIdentifier, Plain]

theorem chunksFrom_bytes_ne : ∀ (s : GoString) (skip : Nat), ∀ c ∈ chunksFrom skip s, c.2 ≠ []
  | [], _, c, h => by simp [chunksFrom] at h
  | b :: rest, 0, c, h => by
    rcases List.mem_cons.mp h with rfl | h
    · intro hnil
      have hpos := decodeRune_width_pos b rest
      have := congrArg List.length hnil
      simp at this
      omega
    · exact chunksFrom_bytes_ne rest _ c h
  | _ :: rest, skip + 1, c, h => chunksFrom_bytes_ne rest skip c h

theorem trimSpace_ne_nil_iff (s : GoString) : trimSpace s ≠ [] ↔ NotBlank s := by
  have hchunks : NotBlank s ↔ ∃ c ∈ chunks s, isSpace c.1 = false := by simp [NotBlank, runes]
  rw [hchunks, trimSpace]
  constructor
  · intro hne
    by_contra hall
    refine hne ?_
    have hdrop : (chunks s).dropWhile (fun c => isSpace c.1) = [] := by
      refine List.dropWhile_eq_nil_iff.mpr fun c hc => ?_
      by_contra hspace
      exact hall ⟨c, hc, by simpa using hspace⟩
    rw [hdrop]
    rfl
  · rintro ⟨c, hc, hspace⟩ hnil
    -- what is left after both cuts starts with a rune that is no space, and has its bytes
    have hdrop : (chunks s).dropWhile (fun c => isSpace c.1) ≠ [] := fun h => by
      have := List.dropWhile_eq_nil_iff.mp h c hc
      rw [hspace] at this
      cases this
    obtain ⟨first, rest, heq⟩ := List.exists_cons_of_ne_nil hdrop
    have hfirst : isSpace first.1 = false := by
      have := List.head_dropWhile_not (fun c : Nat × GoString => isSpace c.1) hdrop
      simpa [heq] using this
    have hleft : ((chunks s).dropWhile fun c => isSpace c.1).rdropWhile (fun c => isSpace c.1) ≠ [] := by
      intro h
      have := List.rdropWhile_eq_nil_iff.mp h first (by rw [heq]; exact List.mem_cons_self)
      rw [hfirst] at this
      cases this
    obtain ⟨last, hlast⟩ := List.exists_mem_of_ne_nil _ hleft
    have hmem : last ∈ chunks s :=
      (List.dropWhile_suffix _).subset ((List.rdropWhile_prefix _ _).subset hlast)
    exact chunksFrom_bytes_ne s 0 last hmem (List.flatMap_eq_nil_iff.mp hnil last hlast)

theorem invalidRetryPolicyReason_iff (policy : RetryPolicy) :
    invalidRetryPolicyReason policy = [] ↔ (0 ≤ policy.maxAttempts ∧ 0 ≤ policy.initialBackoff ∧
      0 ≤ policy.maxBackoff) ∧ (policy.maxBackoff = 0 ∨ policy.initialBackoff ≤ policy.maxBackoff) := by
  have htext : ∀ text ∈ ["maximum attempts must not be negative",
      "initial backoff must not be negative", "maximum backoff must not be negative",
      "maximum backoff must not be less than initial backoff"], ascii text ≠ [] := by
    decide +kernel
  simp only [List.mem_cons, List.not_mem_nil, or_false, forall_eq_or_imp, forall_eq] at htext
  unfold invalidRetryPolicyReason
  split
  · simp only [htext.1, false_iff]
    omega
  · split
    · simp only [htext.2.1, false_iff]
      omega
    · split
      · simp only [htext.2.2.1, false_iff]
        omega
      · split
        · simp only [htext.2.2.2, false_iff]
          omega
        · simp only [true_iff]
          omega

theorem structured_iff (d : WorkflowDefinition) : Structured d ↔ WellFormed d := by
  constructor
  · intro h
    refine ⟨(validIdentifier_iff _).mpr h.id_plain, h.tasks_ne, fun task ht => ?_, h.ids_distinct,
      fun task ht => ?_⟩
    · exact ⟨(validIdentifier_iff _).mpr (h.taskIDs_plain task ht),
        (trimSpace_ne_nil_iff _).mpr (h.names task ht),
        (invalidRetryPolicyReason_iff _).mpr ⟨h.retry_nonneg task ht, h.retry_backoff task ht⟩⟩
    · exact ⟨fun dep hdep => (validIdentifier_iff _).mpr (h.dependencyIDs_plain task ht dep hdep),
        h.not_self task ht, h.dependencies_distinct task ht,
        fun dep hdep => List.mem_map.mpr (h.dependencies_known task ht dep hdep)⟩
  · intro h
    exact {
      id_plain := (validIdentifier_iff _).mp h.id_valid
      tasks_ne := h.tasks_ne
      taskIDs_plain := fun task ht => (validIdentifier_iff _).mp (h.tasks task ht).id_valid
      dependencyIDs_plain := fun task ht dep hdep =>
        (validIdentifier_iff _).mp ((h.dependencies task ht).valid dep hdep)
      names := fun task ht => (trimSpace_ne_nil_iff _).mp (h.tasks task ht).name
      retry_nonneg := fun task ht =>
        ((invalidRetryPolicyReason_iff _).mp (h.tasks task ht).retry).1
      retry_backoff := fun task ht =>
        ((invalidRetryPolicyReason_iff _).mp (h.tasks task ht).retry).2
      ids_distinct := h.ids_nodup
      not_self := fun task ht => (h.dependencies task ht).not_self
      dependencies_distinct := fun task ht => (h.dependencies task ht).nodup
      dependencies_known := fun task ht dep hdep =>
        List.mem_map.mp ((h.dependencies task ht).defined dep hdep) }

/-! ## Cycles -/

section

variable {d : WorkflowDefinition} {g : DependencyGraph} {remaining : KeyMap TaskID Int}
  {ready order : List TaskID}

theorem Removal.length_le (h : Removal d remaining ready order) :
    order.length ≤ d.tasks.length := by
  have hsub := h.order_nodup.subperm fun id hid => List.mem_map.mpr (h.order_mem id hid)
  simpa using hsub.length_le

/-- Once every task is removed none is available. -/
theorem Removal.ready_nil (h : Removal d remaining ready order)
    (hall : d.tasks.length ≤ order.length) : ready = [] := by
  have hsub := h.order_nodup.subperm fun id hid => List.mem_map.mpr (h.order_mem id hid)
  have hperm := hsub.perm_of_length_le (by simpa using hall)
  refine List.eq_nil_iff_forall_not_mem.mpr fun id hid => ?_
  obtain ⟨hout, task, ht, rfl, -⟩ := (h.available id).mp hid
  exact hout (hperm.mem_iff.mpr (List.mem_map.mpr ⟨task, ht, rfl⟩))

/-- The loop stops when no task is available. -/
theorem Removal.exhausts (hd : WellFormed d) (hg : EdgesOf d g) : ∀ (rounds : Nat)
    {remaining : KeyMap TaskID Int} {ready order : List TaskID}, Removal d remaining ready order →
    d.tasks.length ≤ rounds + order.length →
    ∃ remaining', Removal d remaining' [] (topologicalLoop g rounds remaining ready order)
  | 0, remaining, ready, order, h, hrounds => by
    have hnil := h.ready_nil (by omega)
    rw [hnil] at h
    exact ⟨remaining, h⟩
  | _ + 1, remaining, [], _, h, _ => ⟨remaining, h⟩
  | rounds + 1, _, _ :: _, _, h, hrounds => by
    refine (h.step hd hg).exhausts hd hg rounds ?_
    rw [List.length_append, List.length_singleton]
    omega

/-- A task that is left when none is available depends on one that is left. -/
theorem Removal.complete (hd : WellFormed d) (h : Removal d remaining [] order)
    (hacyclic : Acyclic (DependsOn d)) : order.length = d.tasks.length := by
  refine h.length_le.antisymm (Nat.le_of_not_lt fun hlt => ?_)
  let left : Set TaskID := { id | id ∈ d.tasks.map TaskDefinition.id ∧ id ∉ order }
  have hfinite : left.Finite :=
    (List.finite_toSet (d.tasks.map TaskDefinition.id)).subset fun id hid => hid.1
  have hleft : left.Nonempty := by
    by_contra hnone
    have hall : ∀ id ∈ d.tasks.map TaskDefinition.id, id ∈ order := fun id hid => by
      by_contra hout
      exact hnone ⟨id, hid, hout⟩
    have := (hd.ids_nodup.subperm hall).length_le
    rw [List.length_map] at this
    omega
  obtain ⟨id, ⟨hid, hout⟩, hsink⟩ := hacyclic.exists_sink hfinite hleft
  obtain ⟨task, ht, rfl⟩ := List.mem_map.mp hid
  have hready : task.id ∈ ([] : List TaskID) := by
    refine (h.available task.id).mpr ⟨hout, task, ht, rfl, fun dep hdep => ?_⟩
    by_contra hopen
    exact hsink dep ⟨(hd.dependencies task ht).defined dep hdep, hopen⟩ ⟨task, ht, rfl, hdep⟩
  cases hready

theorem acyclic_of_closed (hnodup : order.Nodup) (hclosed : DependencyClosed d order)
    (hall : ∀ task ∈ d.tasks, task.id ∈ order) : Acyclic (DependsOn d) := by
  -- a dependency has its place before the task
  refine acyclic_of_rank order.idxOf ?_
  rintro id dep ⟨task, ht, rfl, hdep⟩
  obtain ⟨before, after, heq⟩ := List.append_of_mem (hall task ht)
  have hbefore := hclosed before task.id after heq task ht rfl dep hdep
  have hnot : task.id ∉ before := by
    rw [heq] at hnodup
    exact fun hin => (List.nodup_append.mp hnodup).2.2 _ hin _ List.mem_cons_self rfl
  rw [heq, List.idxOf_append_of_mem hbefore, List.idxOf_append_of_notMem hnot]
  exact Nat.lt_of_lt_of_le (List.idxOf_lt_length_iff.mpr hbefore) (Nat.le_add_right _ _)

/-- The removal loop takes all tasks exactly when there is no cycle. -/
theorem topologicalOrder_complete_iff (h : buildDependencyGraph d = .ok g) :
    g.topologicalOrder.2 = true ↔ Acyclic (DependsOn d) := by
  obtain ⟨hd, hids, -⟩ := buildDependencyGraph_ok h
  have hg := buildDependencyGraph_edges h
  have hlength : g.taskIDs.length = d.tasks.length := by
    rw [hids, sortTaskIDs, List.length_insertionSort, List.length_map]
  constructor
  · intro hall
    have hacyclic : acyclicGraph d = .ok g := bind_eq_ok.mpr ⟨g, h, if_pos hall⟩
    have horder : d.topologicalOrder = .ok g.topologicalOrder.1 := bind_eq_ok.mpr ⟨g, hacyclic, rfl⟩
    obtain ⟨hperm, hclosed⟩ := WorkflowDefinition.topologicalOrder_ok horder
    exact acyclic_of_closed (hperm.nodup_iff.mpr hd.ids_nodup) hclosed fun task ht =>
      hperm.mem_iff.mpr (List.mem_map.mpr ⟨task, ht, rfl⟩)
  · intro hacyclic
    obtain ⟨remaining', hend⟩ := (Removal.init h).exhausts hd hg g.taskIDs.length
      (by rw [hlength]; exact Nat.le_add_right _ _)
    exact decide_eq_true ((hend.complete hd hacyclic).trans hlength.symm)

end

/-! ## Validation -/

theorem code_of_firstError {checks : List (Bool × ValidationError)} {e : ValidationError}
    (hchecks : ∀ check ∈ checks, check.2.code ≠ .cycle) (h : firstError checks = .error e) :
    e.code ≠ .cycle := by
  obtain ⟨check, hcheck, rfl⟩ := List.mem_map.mp (mem_of_firstError h)
  exact hchecks check hcheck

/-- The structural checks never report a cycle. -/
theorem buildDependencyGraph_code {d : WorkflowDefinition} {e : ValidationError}
    (h : buildDependencyGraph d = .error e) : e.code ≠ .cycle := by
  have htasks : ∀ (tasks : List TaskDefinition) (g : DependencyGraph),
      addTasks d tasks g = .error e → e.code ≠ .cycle := by
    intro tasks
    induction tasks with
    | nil =>
      intro g h
      cases h
    | cons task rest ih =>
      intro g h
      rcases bind_eq_error.mp h with h | ⟨-, -, h⟩
      · exact code_of_firstError (by simp) h
      · exact ih _ h
  have hdependencies : ∀ (task : TaskDefinition) (deps : List TaskID) (seen : KeyMap TaskID Unit)
      (g : DependencyGraph), addDependencies d task deps seen g = .error e → e.code ≠ .cycle := by
    intro task deps
    induction deps with
    | nil =>
      intro seen g h
      cases h
    | cons dep rest ih =>
      intro seen g h
      rcases bind_eq_error.mp h with h | ⟨-, -, h⟩
      · exact code_of_firstError (by simp) h
      · exact ih _ _ h
  have hedges : ∀ (ids : List TaskID) (g : DependencyGraph),
      addEdges d ids g = .error e → e.code ≠ .cycle := by
    intro ids
    induction ids with
    | nil =>
      intro g h
      cases h
    | cons id rest ih =>
      intro g h
      rw [addEdges] at h
      split at h
      · exact ih _ h
      · rcases bind_eq_error.mp h with h | ⟨g', -, h⟩
        · exact hdependencies _ _ _ _ h
        · exact ih g' h
  rcases bind_eq_error.mp h with h | ⟨-, -, h⟩
  · exact code_of_firstError (by simp) h
  · rcases bind_eq_error.mp h with h | ⟨g, -, h⟩
    · exact htasks _ _ h
    · rcases bind_eq_error.mp h with h | ⟨g', -, h⟩
      · exact hedges _ _ h
      · cases h

theorem acyclicGraph_ok_iff (d : WorkflowDefinition) :
    (∃ g, acyclicGraph d = .ok g) ↔ Structured d ∧ Acyclic (DependsOn d) := by
  rw [structured_iff, ← buildDependencyGraph_ok_iff]
  constructor
  · rintro ⟨g, hg⟩
    obtain ⟨g', hbuild, hif⟩ := bind_eq_ok.mp hg
    split at hif
    · rename_i hall
      exact ⟨⟨g', hbuild⟩, (topologicalOrder_complete_iff hbuild).mp hall⟩
    · cases hif
  · rintro ⟨⟨g, hbuild⟩, hacyclic⟩
    exact ⟨g, bind_eq_ok.mpr ⟨g, hbuild, if_pos ((topologicalOrder_complete_iff hbuild).mpr hacyclic)⟩⟩

theorem acyclicGraph_cycle_iff (d : WorkflowDefinition) :
    (∃ e, acyclicGraph d = .error e ∧ e.code = .cycle) ↔
      Structured d ∧ ¬Acyclic (DependsOn d) := by
  rw [structured_iff, ← buildDependencyGraph_ok_iff]
  constructor
  · rintro ⟨e, he, hcode⟩
    rcases bind_eq_error.mp he with hbuild | ⟨g, hbuild, hif⟩
    · exact absurd hcode (buildDependencyGraph_code hbuild)
    · split at hif
      · cases hif
      · rename_i hstuck
        exact ⟨⟨g, hbuild⟩, fun h => hstuck ((topologicalOrder_complete_iff hbuild).mpr h)⟩
  · rintro ⟨⟨g, hbuild⟩, hcycle⟩
    refine ⟨{ code := .cycle, workflowID := d.id }, bind_eq_error.mpr (.inr ⟨g, hbuild, ?_⟩), rfl⟩
    exact if_neg fun hall => hcycle ((topologicalOrder_complete_iff hbuild).mp hall)

theorem readyTasks_empty (d : WorkflowDefinition) : d.readyTasks ∅ =
    (acyclicGraph d).bind fun g => .ok
      ((g.taskIDs.filterMap g.tasks.get?).filter (WorkflowDefinition.unlocked ∅)) := rfl

section

variable {α : Type} (d : WorkflowDefinition) (f : DependencyGraph → α)

/-- What is computed from the graph succeeds when the graph is accepted. -/
theorem bind_acyclicGraph_ok_iff : (∃ a, ((acyclicGraph d).bind fun g => .ok (f g)) = .ok a) ↔
    Structured d ∧ Acyclic (DependsOn d) := by
  rw [← acyclicGraph_ok_iff]
  cases acyclicGraph d <;> simp [Except.bind]

theorem bind_acyclicGraph_cycle_iff :
    (∃ e, ((acyclicGraph d).bind fun g => .ok (f g)) = .error e ∧ e.code = .cycle) ↔
      Structured d ∧ ¬Acyclic (DependsOn d) := by
  rw [← acyclicGraph_cycle_iff]
  cases acyclicGraph d <;> simp [Except.bind]

end

theorem validate_eq (d : WorkflowDefinition) :
    d.validate = (acyclicGraph d).bind fun _ => .ok () := by
  unfold WorkflowDefinition.validate WorkflowDefinition.topologicalOrder
  cases acyclicGraph d <;> rfl

/-- Validation and the three functions that go through it accept the definitions that meet
all conditions, `IsAcyclic` says so of the same definitions, and the error is the cycle
when a cycle is all that is wrong. -/
theorem validation_accepts_iff (d : WorkflowDefinition) :
    (d.validate = .ok () ↔ Structured d ∧ Acyclic (DependsOn d)) ∧
    ((∃ order, d.topologicalOrder = .ok order) ↔ Structured d ∧ Acyclic (DependsOn d)) ∧
    ((∃ roots, d.rootTasks = .ok roots) ↔ Structured d ∧ Acyclic (DependsOn d)) ∧
    ((∃ ready, d.readyTasks ∅ = .ok ready) ↔ Structured d ∧ Acyclic (DependsOn d)) ∧
    (d.isAcyclic = .ok true ↔ Structured d ∧ Acyclic (DependsOn d)) ∧
    ((∃ e, d.validate = .error e ∧ e.code = .cycle) ↔ Structured d ∧ ¬Acyclic (DependsOn d)) ∧
    ((∃ e, d.topologicalOrder = .error e ∧ e.code = .cycle) ↔
      Structured d ∧ ¬Acyclic (DependsOn d)) ∧
    ((∃ e, d.rootTasks = .error e ∧ e.code = .cycle) ↔ Structured d ∧ ¬Acyclic (DependsOn d)) ∧
    ((∃ e, d.readyTasks ∅ = .error e ∧ e.code = .cycle) ↔
      Structured d ∧ ¬Acyclic (DependsOn d)) := by
  rw [readyTasks_empty, validate_eq]
  refine ⟨?_, bind_acyclicGraph_ok_iff d _, bind_acyclicGraph_ok_iff d _,
    bind_acyclicGraph_ok_iff d _, ?_, bind_acyclicGraph_cycle_iff d _,
    bind_acyclicGraph_cycle_iff d _, bind_acyclicGraph_cycle_iff d _,
    bind_acyclicGraph_cycle_iff d _⟩
  · rw [← bind_acyclicGraph_ok_iff d fun _ => ()]
    exact ⟨fun h => ⟨(), h⟩, fun ⟨_, h⟩ => h⟩
  · rw [structured_iff, ← buildDependencyGraph_ok_iff]
    constructor
    · intro h
      obtain ⟨g, hbuild, hall⟩ := bind_eq_ok.mp h
      exact ⟨⟨g, hbuild⟩, (topologicalOrder_complete_iff hbuild).mp (Except.ok.inj hall)⟩
    · rintro ⟨⟨g, hbuild⟩, hacyclic⟩
      refine bind_eq_ok.mpr ⟨g, hbuild, ?_⟩
      rw [(topologicalOrder_complete_iff hbuild).mpr hacyclic]

end ForgeFlow.Workflow
