import ForgeFlow.Base.Greedy
import ForgeFlow.Workflow.Validation

/-!
# The order is the first one

Each round of `topologicalOrder` removes the least of the tasks whose dependencies
are removed. The order is therefore the lexicographically first of all orders that
have every task after its dependencies, and depends on the set of tasks and their
sets of dependencies only.
-/

namespace ForgeFlow.Workflow

open ForgeFlow.Base DependencyGraph

/-- The task is not taken, and its dependencies are. -/
def Available (d : WorkflowDefinition) (taken : List TaskID) (id : TaskID) : Prop :=
  id ∉ taken ∧ ∃ task ∈ d.tasks, task.id = id ∧ ∀ dep ∈ task.dependencies.elems, dep ∈ taken

section

variable {d : WorkflowDefinition} {g : DependencyGraph} {remaining : KeyMap TaskID Int}
  {ready order other : List TaskID}

theorem releaseDependents_sorted : ∀ (ids : List TaskID) (remaining : KeyMap TaskID Int)
    (ready : List TaskID), ready.Pairwise (· ≤ ·) →
    (releaseDependents ids remaining ready).2.Pairwise (· ≤ ·)
  | [], _, _, h => h
  | id :: ids, remaining, ready, h => by
    rw [releaseDependents]
    apply releaseDependents_sorted ids
    split
    · exact h.orderedInsert id ready
    · exact h

/-- The queue holds what is available, the least of it first. -/
theorem Removal.loop_least (hd : WellFormed d) (hg : EdgesOf d g) : ∀ (rounds : Nat)
    {remaining : KeyMap TaskID Int} {ready order : List TaskID},
    Removal d remaining ready order → ready.Pairwise (· ≤ ·) →
    EachSplit (Least (Available d)) order →
    EachSplit (Least (Available d)) (topologicalLoop g rounds remaining ready order)
  | 0, _, _, _, _, _, hleast => hleast
  | _ + 1, _, [], _, _, _, hleast => hleast
  | rounds + 1, remaining, id :: ready, order, h, hsorted, hleast => by
    obtain ⟨hfirst, hrest⟩ := List.pairwise_cons.mp hsorted
    refine (h.step hd hg).loop_least hd hg rounds (releaseDependents_sorted _ _ _ hrest)
      (hleast.snoc fun y hy => ?_)
    rcases List.mem_cons.mp ((h.available y).mpr hy) with rfl | hmem
    · exact le_refl y
    · exact hfirst y hmem

theorem topologicalOrder_isLeast (h : d.topologicalOrder = .ok order) :
    EachSplit (Least (Available d)) order := by
  obtain ⟨g, hacyclic, horder⟩ := bind_eq_ok.mp h
  cases horder
  have hbuild := WorkflowDefinition.acyclicGraph_ok hacyclic
  exact (Removal.init hbuild).loop_least (buildDependencyGraph_ok hbuild).wellFormed
    (buildDependencyGraph_edges hbuild) _ (List.pairwise_insertionSort _ _) EachSplit.nil

/-- An order of all tasks after their dependencies takes what is available only. -/
theorem DependencyClosed.available (hd : WellFormed d)
    (hperm : other.Perm (d.tasks.map TaskDefinition.id)) (hclosed : DependencyClosed d other) :
    EachSplit (Available d) other := by
  intro before id after heq
  have hmem : id ∈ other := by
    rw [heq]
    exact List.mem_append_right _ List.mem_cons_self
  have hnot : id ∉ before := by
    have hnodup := hperm.nodup_iff.mpr hd.ids_nodup
    rw [heq] at hnodup
    exact fun hin => (List.nodup_append.mp hnodup).2.2 _ hin _ List.mem_cons_self rfl
  obtain ⟨task, ht, rfl⟩ := List.mem_map.mp (hperm.mem_iff.mp hmem)
  exact ⟨hnot, task, ht, rfl, hclosed before task.id after heq task ht rfl⟩

theorem topologicalOrder_le (h : d.topologicalOrder = .ok order)
    (hperm : other.Perm (d.tasks.map TaskDefinition.id)) (hclosed : DependencyClosed d other) :
    order ≤ other := by
  have hd : WellFormed d := by
    obtain ⟨g, hacyclic, -⟩ := bind_eq_ok.mp h
    exact (buildDependencyGraph_ok (WorkflowDefinition.acyclicGraph_ok hacyclic)).wellFormed
  have hlength : order.length = other.length :=
    (WorkflowDefinition.topologicalOrder_ok h).1.length_eq.trans hperm.length_eq.symm
  exact (topologicalOrder_isLeast h).least_le (hclosed.available hd hperm) hlength.le

end

/-! ## Other orders of the lists -/

/-- The same tasks in some order, each with its dependencies in some order. -/
structure Rearranged (d d' : WorkflowDefinition) : Prop where
  id : d'.id = d.id
  tasks : ∃ dependencies : TaskDefinition → Slice TaskID,
    (∀ task ∈ d.tasks, (dependencies task).elems.Perm task.dependencies.elems) ∧
    d'.tasks.Perm (d.tasks.map fun task => { task with dependencies := dependencies task })

namespace Rearranged

variable {d d' : WorkflowDefinition}

theorem ids (h : Rearranged d d') :
    (d'.tasks.map TaskDefinition.id).Perm (d.tasks.map TaskDefinition.id) := by
  obtain ⟨dependencies, -, hperm⟩ := h.tasks
  refine (hperm.map _).trans (.of_eq ?_)
  rw [List.map_map]
  rfl

theorem dependsOn (h : Rearranged d d') (id dep : TaskID) :
    DependsOn d' id dep ↔ DependsOn d id dep := by
  obtain ⟨dependencies, hdeps, hperm⟩ := h.tasks
  constructor
  · rintro ⟨task', ht', rfl, hdep⟩
    obtain ⟨task, ht, rfl⟩ := List.mem_map.mp (hperm.mem_iff.mp ht')
    exact ⟨task, ht, rfl, (hdeps task ht).mem_iff.mp hdep⟩
  · rintro ⟨task, ht, rfl, hdep⟩
    exact ⟨_, hperm.mem_iff.mpr (List.mem_map.mpr ⟨task, ht, rfl⟩), rfl,
      (hdeps task ht).mem_iff.mpr hdep⟩

theorem wellFormed (h : Rearranged d d') (hd : WellFormed d) : WellFormed d' := by
  have hids := h.ids
  obtain ⟨dependencies, hdeps, hperm⟩ := h.tasks
  refine ⟨h.id ▸ hd.id_valid, fun hnil => ?_, fun task' ht' => ?_,
    hids.nodup_iff.mpr hd.ids_nodup, fun task' ht' => ?_⟩
  · rw [hnil] at hperm
    exact hd.tasks_ne (List.map_eq_nil_iff.mp hperm.nil_eq.symm)
  · obtain ⟨task, ht, rfl⟩ := List.mem_map.mp (hperm.mem_iff.mp ht')
    exact ⟨(hd.tasks task ht).id_valid, (hd.tasks task ht).name, (hd.tasks task ht).retry⟩
  · obtain ⟨task, ht, rfl⟩ := List.mem_map.mp (hperm.mem_iff.mp ht')
    have hown := hd.dependencies task ht
    have hsame := hdeps task ht
    exact ⟨fun id hid => hown.valid id (hsame.mem_iff.mp hid),
      fun hself => hown.not_self (hsame.mem_iff.mp hself), hsame.nodup_iff.mpr hown.nodup,
      fun id hid => hids.mem_iff.mpr (hown.defined id (hsame.mem_iff.mp hid))⟩

theorem dependencyClosed (h : Rearranged d d') {order : List TaskID} :
    DependencyClosed d' order ↔ DependencyClosed d order := by
  have hiff : ∀ (d : WorkflowDefinition) (order : List TaskID), DependencyClosed d order ↔
      EachSplit (fun before id => ∀ dep, DependsOn d id dep → dep ∈ before) order := by
    intro d order
    refine forall_congr' fun before => forall_congr' fun id => forall₂_congr fun after _ => ?_
    exact ⟨fun hc dep ⟨task, ht, hid, hdep⟩ => hc task ht hid dep hdep,
      fun hc task ht hid dep hdep => hc dep ⟨task, ht, hid, hdep⟩⟩
  simp only [hiff, h.dependsOn]

/-- The first order is the same. -/
theorem topologicalOrder (h : Rearranged d d') {order : List TaskID}
    (horder : d.topologicalOrder = .ok order) : d'.topologicalOrder = .ok order := by
  have hvalid := ((validation_accepts_iff d).2.1).mp ⟨order, horder⟩
  have hvalid' : Structured d' ∧ Acyclic (DependsOn d') := by
    refine ⟨(structured_iff d').mpr (h.wellFormed ((structured_iff d).mp hvalid.1)), ?_⟩
    have hrel : DependsOn d' = DependsOn d := funext₂ fun id dep => propext (h.dependsOn id dep)
    rw [hrel]
    exact hvalid.2
  obtain ⟨order', horder'⟩ := ((validation_accepts_iff d').2.1).mpr hvalid'
  obtain ⟨hperm, hclosed⟩ := WorkflowDefinition.topologicalOrder_ok horder
  obtain ⟨hperm', hclosed'⟩ := WorkflowDefinition.topologicalOrder_ok horder'
  have hle := topologicalOrder_le horder (hperm'.trans h.ids) (h.dependencyClosed.mp hclosed')
  have hge := topologicalOrder_le horder' (hperm.trans h.ids.symm) (h.dependencyClosed.mpr hclosed)
  rw [horder', le_antisymm hge hle]

end Rearranged

/-- The order of a valid definition holds every task after its dependencies, is the
lexicographically first order that does, and does not depend on how the tasks and
their dependencies are listed. -/
theorem topologicalOrder_is_first {d : WorkflowDefinition} (h : d.validate = .ok ()) :
    ∃ order, d.topologicalOrder = .ok order ∧
      order.Perm (d.tasks.map TaskDefinition.id) ∧ DependencyClosed d order ∧
      (∀ other : List TaskID, other.Perm (d.tasks.map TaskDefinition.id) →
        DependencyClosed d other → order ≤ other) ∧
      ∀ d', Rearranged d d' → d'.topologicalOrder = .ok order := by
  obtain ⟨order, horder, -⟩ := bind_eq_ok.mp h
  obtain ⟨hperm, hclosed⟩ := WorkflowDefinition.topologicalOrder_ok horder
  exact ⟨order, horder, hperm, hclosed, fun _ => topologicalOrder_le horder,
    fun _ hd' => hd'.topologicalOrder horder⟩

/-- Two tasks, the smaller ID behind the larger one, and a third. -/
def threeTasks : WorkflowDefinition where
  id := ascii "w"
  tasks := [
    ⟨ascii "a", ascii "last", .of [ascii "c"], ascii "h", [], ⟨0, 0, 0⟩⟩,
    ⟨ascii "c", ascii "first", .nil, ascii "h", [], ⟨0, 0, 0⟩⟩,
    ⟨ascii "b", ascii "free", .nil, ascii "h", [], ⟨0, 0, 0⟩⟩]

example : threeTasks.topologicalOrder = .ok [ascii "b", ascii "c", ascii "a"] := by decide +kernel

theorem threeTasks_order_is_first : threeTasks.validate = .ok () ∧
    ∃ order, threeTasks.topologicalOrder = .ok order ∧
      ∀ other : List TaskID, other.Perm (threeTasks.tasks.map TaskDefinition.id) →
        DependencyClosed threeTasks other → order ≤ other := by
  have hvalid : threeTasks.validate = .ok () := by decide +kernel
  obtain ⟨order, horder, -, -, hfirst, -⟩ := topologicalOrder_is_first hvalid
  exact ⟨hvalid, order, horder, hfirst⟩

end ForgeFlow.Workflow
