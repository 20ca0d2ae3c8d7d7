import ForgeFlow.Base.Greedy
import ForgeFlow.Workflow.Graph

/-!
# The order of the tasks

The removal loop of `topologicalOrder` counts the open dependencies of every task.
The order it returns is without repetition and has every task after its
dependencies; a definition is accepted when that order holds all tasks. So as long
as some tasks of a valid definition are left, one of them has none of its
dependencies left.
-/

namespace ForgeFlow.Workflow

open ForgeFlow.Base

/-! ## The edges of a built graph -/

namespace DependencyGraph

def indegreeOf (graph : DependencyGraph) (id : TaskID) : Int := (graph.indegree.get? id).getD 0

def dependentsOf (graph : DependencyGraph) (id : TaskID) : List TaskID :=
  (graph.dependents.get? id).getD []

/-- The dependencies of a task by its ID. -/
def dependenciesOf (graph : DependencyGraph) (id : TaskID) : List TaskID :=
  (graph.tasks.get? id).elim [] fun task => task.dependencies.elems

theorem addEdge_indegreeOf (graph : DependencyGraph) (t dep id : TaskID) :
    (graph.addEdge t dep).indegreeOf id = graph.indegreeOf id + if id = t then 1 else 0 := by
  unfold indegreeOf addEdge
  rw [KeyMap.get?_insert]
  split
  · rename_i h
    rw [h]
    rfl
  · exact (Int.add_zero _).symm

theorem addEdge_dependentsOf (graph : DependencyGraph) (t dep id : TaskID) :
    (graph.addEdge t dep).dependentsOf id =
      graph.dependentsOf id ++ if id = dep then [t] else [] := by
  unfold dependentsOf addEdge
  rw [KeyMap.get?_insert]
  split
  · rename_i h
    rw [h]
    rfl
  · exact (List.append_nil _).symm

end DependencyGraph

open DependencyGraph

/-- One task's edges. -/
theorem foldl_addEdge_edges (t : TaskID) : ∀ (deps : List TaskID) (g : DependencyGraph),
    deps.Nodup →
    (∀ id, (deps.foldl (fun g dep => g.addEdge t dep) g).indegreeOf id =
      g.indegreeOf id + if id = t then (deps.length : Int) else 0) ∧
    ∀ id, (deps.foldl (fun g dep => g.addEdge t dep) g).dependentsOf id =
      g.dependentsOf id ++ if id ∈ deps then [t] else []
  | [], g, _ => by simp
  | dep :: deps, g, hnodup => by
    obtain ⟨hnot, hnodup⟩ := List.nodup_cons.mp hnodup
    obtain ⟨hin, hout⟩ := foldl_addEdge_edges t deps (g.addEdge t dep) hnodup
    refine ⟨fun id => ?_, fun id => ?_⟩
    · rw [List.foldl_cons, hin, addEdge_indegreeOf]
      split
      · rw [List.length_cons]
        push_cast
        omega
      · omega
    · rw [List.foldl_cons, hout, addEdge_dependentsOf, List.append_assoc]
      by_cases hid : id = dep
      · subst hid
        simp [hnot]
      · simp [hid]

/-- The second loop of `buildDependencyGraph` adds the edges of the tasks it visits. -/
theorem addEdges_edges (d : WorkflowDefinition) : ∀ (ids : List TaskID) (g g' : DependencyGraph),
    ids.Nodup → (∀ id task, g.tasks.get? id = some task → task.id = id) →
    addEdges d ids g = .ok g' →
    (∀ id, g'.indegreeOf id =
      g.indegreeOf id + if id ∈ ids then ((g.dependenciesOf id).length : Int) else 0) ∧
    ∀ id, g'.dependentsOf id = g.dependentsOf id ++ ids.filter fun t => id ∈ g.dependenciesOf t
  | [], g, g', _, _, h => by
    cases h
    simp
  | t :: ids, g, g', hnodup, hids, h => by
    obtain ⟨hnot, hrestNodup⟩ := List.nodup_cons.mp hnodup
    rw [addEdges] at h
    cases hget : g.tasks.get? t with
    | none =>
      rw [hget] at h
      obtain ⟨hin, hout⟩ := addEdges_edges d ids g g' hrestNodup hids h
      have hdeps : g.dependenciesOf t = [] := by rw [dependenciesOf, hget]; rfl
      refine ⟨fun id => ?_, fun id => ?_⟩
      · rw [hin]
        by_cases hid : id = t
        · subst hid
          simp [hnot, hdeps]
        · simp [hid]
      · rw [hout]
        simp [hdeps]
    | some task =>
      rw [hget] at h
      obtain ⟨g₁, hadd, hrest⟩ := bind_eq_ok.mp h
      obtain ⟨-, hdeps, rfl⟩ := (addDependencies_ok_iff d task _ _ _ _).mp hadd
      obtain rfl : task.id = t := hids t task hget
      have htasks := (foldl_addEdge_frame task.id task.dependencies.elems g).1
      have hsame : ∀ id, (task.dependencies.elems.foldl (fun g dep => g.addEdge task.id dep)
          g).dependenciesOf id = g.dependenciesOf id := by
        intro id
        rw [dependenciesOf, dependenciesOf, htasks]
      have hown : g.dependenciesOf task.id = task.dependencies.elems := by
        rw [dependenciesOf, hget]
        rfl
      obtain ⟨hin₁, hout₁⟩ := foldl_addEdge_edges task.id task.dependencies.elems g hdeps
      obtain ⟨hin, hout⟩ := addEdges_edges d ids _ g' hrestNodup (by rw [htasks]; exact hids) hrest
      refine ⟨fun id => ?_, fun id => ?_⟩
      · rw [hin, hin₁, hsame]
        by_cases hid : id = task.id
        · subst hid
          simp [hnot, hown]
        · simp [hid]
      · rw [hout, hout₁, List.append_assoc]
        simp only [hsame, List.filter_cons, hown, decide_eq_true_iff]
        split <;> rfl

/-- The edges of the graph are the dependencies of the definition. -/
structure EdgesOf (d : WorkflowDefinition) (g : DependencyGraph) : Prop where
  indegree : ∀ task ∈ d.tasks, g.indegreeOf task.id = task.dependencies.elems.length
  dependents : ∀ id t, t ∈ g.dependentsOf id ↔
    ∃ task ∈ d.tasks, task.id = t ∧ id ∈ task.dependencies.elems
  dependents_nodup : ∀ id, (g.dependentsOf id).Nodup

theorem foldl_addTask_edges : ∀ (tasks : List TaskDefinition) (g : DependencyGraph),
    (∀ id, g.indegreeOf id = 0) → (∀ id, g.dependentsOf id = []) →
    (∀ id, (tasks.foldl addTask g).indegreeOf id = 0) ∧
      ∀ id, (tasks.foldl addTask g).dependentsOf id = []
  | [], _, hin, hout => ⟨hin, hout⟩
  | task :: tasks, g, hin, hout => by
    refine foldl_addTask_edges tasks (g.addTask task) (fun id => ?_) hout
    unfold indegreeOf addTask
    rw [KeyMap.get?_insert]
    split
    · rfl
    · exact hin id

theorem buildDependencyGraph_edges {d : WorkflowDefinition} {g : DependencyGraph}
    (h : buildDependencyGraph d = .ok g) : EdgesOf d g := by
  obtain ⟨-, htaskIDs, htasks⟩ := buildDependencyGraph_ok h
  obtain ⟨⟨⟩, -, h⟩ := bind_eq_ok.mp h
  obtain ⟨g₁, hadd, h⟩ := bind_eq_ok.mp h
  obtain ⟨g₂, hedges, hg⟩ := bind_eq_ok.mp h
  obtain ⟨-, hnodup, -, rfl⟩ := (addTasks_ok_iff d _ _ _).mp hadd
  obtain ⟨hin₀, hout₀⟩ := foldl_addTask_edges d.tasks ⟨∅, [], ∅, ∅⟩ (fun _ => rfl) fun _ => rfl
  obtain ⟨hframe, hframe'⟩ := addEdges_frame d _ _ _ hedges
  cases hg
  have htasks : ∀ id task, g₂.tasks.get? id = some task ↔ task ∈ d.tasks ∧ task.id = id := htasks
  have hids : g₂.taskIDs = sortTaskIDs (d.tasks.map TaskDefinition.id) := htaskIDs
  rw [hframe] at htasks
  rw [hframe'] at hids
  have hmem : ∀ id, id ∈ sortTaskIDs (d.tasks.map TaskDefinition.id) ↔
      ∃ task ∈ d.tasks, task.id = id := by
    intro id
    rw [sortTaskIDs, List.mem_insertionSort, List.mem_map]
  have hsorted : (sortTaskIDs (d.tasks.map TaskDefinition.id)).Nodup :=
    (List.perm_insertionSort _ _).nodup_iff.mpr hnodup
  have hdeps : ∀ task ∈ d.tasks, DependencyGraph.dependenciesOf
      { d.tasks.foldl addTask ⟨∅, [], ∅, ∅⟩ with
        taskIDs := sortTaskIDs (d.tasks.foldl addTask ⟨∅, [], ∅, ∅⟩).taskIDs } task.id =
      task.dependencies.elems := by
    intro task htask
    rw [dependenciesOf, (htasks task.id task).mpr ⟨htask, rfl⟩]
    rfl
  obtain ⟨hin, hout⟩ := addEdges_edges d _ _ g₂ (by rw [hids]; exact hsorted)
    (fun id task hget => ((htasks id task).mp hget).2) hedges
  rw [hids] at hin hout
  -- the lists of dependents are sorted at the end
  have hfinal : ∀ id, DependencyGraph.dependentsOf
      { g₂ with dependents := g₂.dependents.map fun _ ids => sortTaskIDs ids } id =
      sortTaskIDs (g₂.dependentsOf id) := by
    intro id
    unfold dependentsOf
    rw [KeyMap.get?_map]
    cases g₂.dependents.get? id <;> rfl
  refine ⟨fun task htask => ?_, fun id t => ?_, fun id => ?_⟩
  · show g₂.indegreeOf task.id = _
    rw [hin, if_pos ((hmem _).mpr ⟨task, htask, rfl⟩), hdeps task htask]
    exact (congrArg (· + _) (hin₀ task.id)).trans (Int.zero_add _)
  · rw [hfinal, sortTaskIDs, List.mem_insertionSort, hout]
    have hnil := hout₀ id
    unfold dependentsOf at hnil ⊢
    rw [hnil, List.nil_append, List.mem_filter, hmem]
    constructor
    · rintro ⟨⟨task, htask, rfl⟩, hdep⟩
      rw [hdeps task htask] at hdep
      exact ⟨task, htask, rfl, of_decide_eq_true hdep⟩
    · rintro ⟨task, htask, rfl, hdep⟩
      exact ⟨⟨task, htask, rfl⟩, by rw [hdeps task htask]; exact decide_eq_true hdep⟩
  · rw [hfinal, sortTaskIDs, (List.perm_insertionSort _ _).nodup_iff, hout]
    have hnil := hout₀ id
    unfold dependentsOf at hnil ⊢
    rw [hnil, List.nil_append]
    exact hsorted.filter _

/-! ## The removal loop -/

theorem releaseDependents_counts : ∀ (ids : List TaskID) (remaining : KeyMap TaskID Int)
    (ready : List TaskID), ids.Nodup → ∀ id,
    ((releaseDependents ids remaining ready).1.get? id).getD 0 =
      (remaining.get? id).getD 0 - if id ∈ ids then 1 else 0
  | [], _, _, _, _ => by simp [releaseDependents]
  | t :: ids, remaining, ready, hnodup, id => by
    obtain ⟨hnot, hnodup⟩ := List.nodup_cons.mp hnodup
    rw [releaseDependents, releaseDependents_counts ids _ _ hnodup, KeyMap.get?_insert]
    by_cases hid : id = t
    · subst hid
      simp [hnot]
    · simp [hid]

theorem releaseDependents_ready : ∀ (ids : List TaskID) (remaining : KeyMap TaskID Int)
    (ready : List TaskID), ids.Nodup →
    (releaseDependents ids remaining ready).2.Perm
      (ids.filter (fun id => (remaining.get? id).getD 0 = 1) ++ ready)
  | [], _, _, _ => .refl _
  | t :: ids, remaining, ready, hnodup => by
    obtain ⟨hnot, hnodup⟩ := List.nodup_cons.mp hnodup
    rw [releaseDependents]
    refine (releaseDependents_ready ids _ _ hnodup).trans ?_
    have hsame : ids.filter (fun id => ((remaining.insert t ((remaining.get? t).getD 0 - 1)).get?
        id).getD 0 = 1) = ids.filter fun id => (remaining.get? id).getD 0 = 1 := by
      refine List.filter_congr fun id hid => ?_
      rw [KeyMap.get?_insert_ne _ _ (fun heq : id = t => hnot (heq ▸ hid))]
    rw [hsame, List.filter_cons]
    by_cases hone : (remaining.get? t).getD 0 = 1
    · rw [if_pos (by omega), if_pos (decide_eq_true hone), List.cons_append]
      exact ((List.perm_orderedInsert _ _ _).append_left _).trans List.perm_middle
    · rw [if_neg (by omega), if_neg (by simpa using hone)]

/-- Every task of the list comes after its dependencies. -/
def DependencyClosed (d : WorkflowDefinition) (order : List TaskID) : Prop :=
  ∀ before id after, order = before ++ id :: after → ∀ task ∈ d.tasks, task.id = id →
    ∀ dep ∈ task.dependencies.elems, dep ∈ before

/-- The state of the removal loop: counts of the dependencies still to be removed,
the tasks without any, and the tasks removed so far. -/
structure Removal (d : WorkflowDefinition) (remaining : KeyMap TaskID Int)
    (ready order : List TaskID) : Prop where
  counts : ∀ task ∈ d.tasks, (remaining.get? task.id).getD 0 =
    ((task.dependencies.elems.filter (· ∉ order)).length : Int)
  available : ∀ id, id ∈ ready ↔ id ∉ order ∧
    ∃ task ∈ d.tasks, task.id = id ∧ ∀ dep ∈ task.dependencies.elems, dep ∈ order
  available_nodup : ready.Nodup
  order_nodup : order.Nodup
  order_mem : ∀ id ∈ order, ∃ task ∈ d.tasks, task.id = id
  closed : DependencyClosed d order

theorem DependencyClosed.snoc {d : WorkflowDefinition} {order : List TaskID} {id : TaskID}
    (h : DependencyClosed d order)
    (hid : ∀ task ∈ d.tasks, task.id = id → ∀ dep ∈ task.dependencies.elems, dep ∈ order) :
    DependencyClosed d (order ++ [id]) := EachSplit.snoc h hid

section

variable {d : WorkflowDefinition} {g : DependencyGraph} {remaining : KeyMap TaskID Int}
  {ready order : List TaskID} {id : TaskID}

theorem filter_open_eq_nil {deps : List TaskID} :
    deps.filter (· ∉ order) = [] ↔ ∀ dep ∈ deps, dep ∈ order := by
  rw [List.filter_eq_nil_iff]
  exact forall₂_congr fun dep _ => by simp

/-- The dependencies still open once one more task is removed. -/
theorem length_filter_removed {deps : List TaskID} (hdeps : deps.Nodup) (hid : id ∉ order) :
    ((deps.filter (· ∉ order ++ [id])).length : Int) =
      (deps.filter (· ∉ order)).length - if id ∈ deps then 1 else 0 := by
  have hsplit : deps.filter (· ∉ order ++ [id]) = (deps.filter (· ∉ order)).erase id := by
    rw [(hdeps.filter _).erase_eq_filter, List.filter_filter]
    refine List.filter_congr fun x _ => ?_
    rw [Bool.eq_iff_iff]
    simp [and_comm]
  rw [hsplit]
  by_cases hmem : id ∈ deps
  · have hin : id ∈ deps.filter (· ∉ order) := List.mem_filter.mpr ⟨hmem, decide_eq_true hid⟩
    have hpos := List.length_pos_of_mem hin
    rw [List.length_erase_of_mem hin, if_pos hmem]
    omega
  · rw [List.erase_of_not_mem fun hin => hmem (List.mem_filter.mp hin).1, if_neg hmem]
    omega

theorem Removal.step (hd : WellFormed d) (hg : EdgesOf d g)
    (h : Removal d remaining (id :: ready) order) :
    Removal d (releaseDependents (g.dependentsOf id) remaining ready).1
      (releaseDependents (g.dependentsOf id) remaining ready).2 (order ++ [id]) := by
  obtain ⟨hfree, hready⟩ := List.nodup_cons.mp h.available_nodup
  obtain ⟨hnew, task, htask, rfl, hdone⟩ := (h.available id).mp List.mem_cons_self
  have hunique : ∀ t ∈ d.tasks, ∀ t' ∈ d.tasks, t.id = t'.id → t = t' :=
    fun t ht t' ht' => List.inj_on_of_nodup_map hd.ids_nodup ht ht'
  have hself : ∀ t ∈ d.tasks, t.id ∉ t.dependencies.elems := fun t ht =>
    (hd.dependencies t ht).not_self
  have hcounts : ∀ t ∈ d.tasks,
      ((releaseDependents (g.dependentsOf task.id) remaining ready).1.get? t.id).getD 0 =
        ((t.dependencies.elems.filter (· ∉ order ++ [task.id])).length : Int) := by
    intro t ht
    rw [releaseDependents_counts _ _ _ (hg.dependents_nodup _), h.counts t ht,
      length_filter_removed (hd.dependencies t ht).nodup hnew]
    have hiff : t.id ∈ g.dependentsOf task.id ↔ task.id ∈ t.dependencies.elems := by
      rw [hg.dependents]
      constructor
      · rintro ⟨t', ht', heq, hdep⟩
        exact hunique t' ht' t ht heq ▸ hdep
      · exact fun hdep => ⟨t, ht, rfl, hdep⟩
    simp only [hiff]
  -- a task has its last open dependency removed in this round
  have hlast : ∀ t ∈ d.tasks, (remaining.get? t.id).getD 0 = 1 → task.id ∈ t.dependencies.elems →
      ∀ dep ∈ t.dependencies.elems, dep ∈ order ++ [task.id] := by
    intro t ht hone hdep
    have hzero := h.counts t ht ▸ length_filter_removed (hd.dependencies t ht).nodup hnew
    rw [hone, if_pos hdep] at hzero
    have hnil : t.dependencies.elems.filter (· ∉ order ++ [task.id]) = [] :=
      List.length_eq_zero_iff.mp (by omega)
    exact filter_open_eq_nil.mp hnil
  have hperm := releaseDependents_ready (g.dependentsOf task.id) remaining ready
    (hg.dependents_nodup _)
  refine ⟨hcounts, fun id' => ?_, ?_, ?_, fun id' hid' => ?_, ?_⟩
  · rw [hperm.mem_iff, List.mem_append, List.mem_filter, hg.dependents, decide_eq_true_iff]
    constructor
    · rintro (⟨⟨t, ht, rfl, hdep⟩, hone⟩ | hid')
      · refine ⟨fun hmem => ?_, t, ht, rfl, hlast t ht hone hdep⟩
        rcases List.mem_append.mp hmem with hmem | hmem
        · -- a task that was removed before had all its dependencies removed before it
          obtain ⟨before, after, heq⟩ := List.append_of_mem hmem
          have hbefore := h.closed before t.id after heq t ht rfl task.id hdep
          exact hnew (by rw [heq]; exact List.mem_append_left _ hbefore)
        · rw [List.mem_singleton] at hmem
          rw [hunique t ht task htask hmem] at hdep
          exact hself task htask hdep
      · obtain ⟨hout, t, ht, rfl, hall⟩ := (h.available id').mp (List.mem_cons_of_mem _ hid')
        refine ⟨fun hmem => ?_, t, ht, rfl, fun dep hdep => List.mem_append_left _ (hall dep hdep)⟩
        rcases List.mem_append.mp hmem with hmem | hmem
        · exact hout hmem
        · rw [List.mem_singleton] at hmem
          exact hfree (hmem ▸ hid')
    · rintro ⟨hout, t, ht, rfl, hall⟩
      rw [List.mem_append, List.mem_singleton, not_or] at hout
      by_cases hdep : task.id ∈ t.dependencies.elems
      · refine .inl ⟨⟨t, ht, rfl, hdep⟩, ?_⟩
        have hcount := length_filter_removed (hd.dependencies t ht).nodup hnew
        rw [if_pos hdep, filter_open_eq_nil.mpr hall] at hcount
        rw [h.counts t ht]
        simp only [List.length_nil] at hcount
        omega
      · have hbefore : t.id ∈ task.id :: ready := by
          refine (h.available t.id).mpr ⟨hout.1, t, ht, rfl, fun dep hin => ?_⟩
          rcases List.mem_append.mp (hall dep hin) with hmem | hmem
          · exact hmem
          · rw [List.mem_singleton] at hmem
            exact absurd (hmem ▸ hin) hdep
        exact .inr ((List.mem_cons.mp hbefore).resolve_left hout.2)
  · rw [hperm.nodup_iff]
    refine List.nodup_append.mpr ⟨(hg.dependents_nodup _).filter _, hready, fun x hx y hy heq => ?_⟩
    subst heq
    obtain ⟨hin, hone⟩ := List.mem_filter.mp hx
    obtain ⟨t, ht, rfl, hdep⟩ := (hg.dependents _ _).mp hin
    obtain ⟨-, t', ht', heq, hall⟩ := (h.available _).mp (List.mem_cons_of_mem _ hy)
    rw [hunique t' ht' t ht heq] at hall
    exact hnew (hall _ hdep)
  · exact List.nodup_append.mpr ⟨h.order_nodup, List.nodup_singleton _, fun x hx y hy heq =>
      hnew (by rw [← List.mem_singleton.mp hy, ← heq]; exact hx)⟩
  · rcases List.mem_append.mp hid' with hid' | hid'
    · exact h.order_mem id' hid'
    · exact ⟨task, htask, (List.mem_singleton.mp hid').symm⟩
  · refine h.closed.snoc fun t ht heq => ?_
    rw [hunique t ht task htask heq]
    exact hdone

/-- The order the loop returns. -/
theorem Removal.loop (hd : WellFormed d) (hg : EdgesOf d g) : ∀ (rounds : Nat)
    {remaining : KeyMap TaskID Int} {ready order : List TaskID},
    Removal d remaining ready order →
    (topologicalLoop g rounds remaining ready order).Nodup ∧
      (∀ id ∈ topologicalLoop g rounds remaining ready order, ∃ task ∈ d.tasks, task.id = id) ∧
      DependencyClosed d (topologicalLoop g rounds remaining ready order)
  | 0, _, _, _, h => ⟨h.order_nodup, h.order_mem, h.closed⟩
  | _ + 1, _, [], _, h => ⟨h.order_nodup, h.order_mem, h.closed⟩
  | rounds + 1, _, _ :: _, _, h => (h.step hd hg).loop hd hg rounds

theorem Removal.init (h : buildDependencyGraph d = .ok g) : Removal d g.indegree
    (sortTaskIDs (g.taskIDs.filter fun id => (g.indegree.get? id).getD 0 = 0)) [] := by
  obtain ⟨hd, hids, -⟩ := buildDependencyGraph_ok h
  have hg := buildDependencyGraph_edges h
  have hperm : (sortTaskIDs (d.tasks.map TaskDefinition.id)).Perm (d.tasks.map TaskDefinition.id) :=
    List.perm_insertionSort _ _
  refine ⟨fun task htask => ?_, fun id => ?_, ?_, .nil, by simp, fun before id after heq => ?_⟩
  · rw [List.filter_eq_self.mpr (by simp)]
    exact hg.indegree task htask
  · rw [sortTaskIDs, List.mem_insertionSort, List.mem_filter, hids, hperm.mem_iff, List.mem_map,
      decide_eq_true_iff]
    constructor
    · rintro ⟨⟨task, htask, rfl⟩, hzero⟩
      have hlen : (task.dependencies.elems.length : Int) = 0 :=
        (hg.indegree task htask).symm.trans hzero
      have hnil := List.length_eq_zero_iff.mp (Int.ofNat_eq_zero.mp hlen)
      exact ⟨List.not_mem_nil, task, htask, rfl, fun dep hdep => hnil ▸ hdep⟩
    · rintro ⟨-, task, htask, rfl, hall⟩
      refine ⟨⟨task, htask, rfl⟩, (hg.indegree task htask).trans ?_⟩
      rw [List.eq_nil_iff_forall_not_mem.mpr fun dep hdep => List.not_mem_nil (hall dep hdep)]
      rfl
  · rw [sortTaskIDs, (List.perm_insertionSort _ _).nodup_iff, hids]
    exact (hperm.nodup_iff.mpr hd.ids_nodup).filter _
  · simp at heq

end

/-! ## Valid definitions -/

/-- The order of a valid definition holds every task, after its dependencies. -/
theorem WorkflowDefinition.topologicalOrder_ok {d : WorkflowDefinition} {order : List TaskID}
    (h : d.topologicalOrder = .ok order) :
    order.Perm (d.tasks.map TaskDefinition.id) ∧ DependencyClosed d order := by
  obtain ⟨g, hacyclic, horder⟩ := bind_eq_ok.mp h
  cases horder
  obtain ⟨g', hbuild, hif⟩ := bind_eq_ok.mp hacyclic
  split at hif
  · rename_i hlength
    cases hif
    obtain ⟨hd, hids, -⟩ := buildDependencyGraph_ok hbuild
    obtain ⟨hnodup, hmem, hclosed⟩ := (Removal.init hbuild).loop hd
      (buildDependencyGraph_edges hbuild) g.taskIDs.length
    have hlength : g.topologicalOrder.1.length = g.taskIDs.length := of_decide_eq_true hlength
    refine ⟨(hnodup.subperm fun id hid => ?_).perm_of_length_le ?_, hclosed⟩
    · exact List.mem_map.mpr (hmem id hid)
    · show _ ≤ g.topologicalOrder.1.length
      rw [hlength, hids]
      exact (List.perm_insertionSort _ _).length_eq.ge
  · cases hif

/-- Of the tasks that are left, one has none of its dependencies left. -/
theorem WorkflowDefinition.exists_unblocked {d : WorkflowDefinition} (h : d.validate = .ok ())
    (left : TaskID → Prop) (hleft : ∃ task ∈ d.tasks, left task.id) :
    ∃ task ∈ d.tasks, left task.id ∧ ∀ dep ∈ task.dependencies.elems, ¬left dep := by
  classical
  obtain ⟨order, horder, -⟩ := bind_eq_ok.mp h
  obtain ⟨hperm, hclosed⟩ := topologicalOrder_ok horder
  obtain ⟨task, htask, hl⟩ := hleft
  -- the first of them in the order
  obtain ⟨id, before, after, hbefore, hid, heq, -⟩ := List.exists_of_eraseP
    (p := fun id => decide (left id))
    (hperm.mem_iff.mpr (List.mem_map.mpr ⟨task, htask, rfl⟩)) (decide_eq_true hl)
  have hmem : id ∈ order := by
    rw [heq]
    exact List.mem_append_right _ List.mem_cons_self
  obtain ⟨first, hfirst, rfl⟩ := List.mem_map.mp (hperm.mem_iff.mp hmem)
  refine ⟨first, hfirst, of_decide_eq_true hid, fun dep hdep hl => ?_⟩
  exact hbefore dep (hclosed before first.id after heq first hfirst rfl dep hdep)
    (decide_eq_true hl)

end ForgeFlow.Workflow
