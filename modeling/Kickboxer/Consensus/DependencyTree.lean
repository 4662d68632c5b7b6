import Kickboxer.Consensus.Dependencies

/-! What the operations of the dependency tree do to its nodes
(`consensus/manager_depedencies.go`).

A node is read through `DependencyMap.node`, and `paths` are the nodes created
so far. Creating a node (`get`) changes no node's sets and adds an empty one,
which adds nothing to a fold over the tree; replacing a node (`setNode`)
changes that node alone. The descents along a key path all do one thing to the
tree, `descend`: they create each node of the path and replace the last one.
From this, by one induction on the keys below the current node:

* `GetAndSetDeps_spec`: `GetAndSetDeps` returns the local dependencies of every
  node on the path and of every node below its last one, without the instance
  itself. At the last node it registers the instance and then drops what that
  node had both executed and acknowledged, the instance included
  (`exAcked_instance_unregistered`). No other node changes, and the nodes of the
  path are created.
* `node_ReportAcknowledged`: on a path of any length, `ReportAcknowledged`
  acknowledges the instance's dependencies at the path's node and nowhere else.
* `node_ReportExecuted_single`, `node_AddDependency_single`: on one key,
  `ReportExecuted` marks the instance executed and `AddDependency` registers it.
  On two keys or more both are `ReportAcknowledged` (`ReportExecuted_deep`,
  `AddDependency_deep`), so neither touches an executed set, a write or a read
  (`executed_ReportExecuted_deep`, `registered_AddDependency_deep`). -/
namespace Kickboxer.Consensus
open Library

namespace Dependencies
variable (d : Dependencies) (inst : Instance)

@[simp] theorem getLocalDeps_new : newDependencies.getLocalDeps inst = [] := by
  unfold getLocalDeps
  split <;> rfl

/-- The last node of `GetAndSetDeps` afterwards: the instance registered, then
everything executed and acknowledged before the call removed from all four
sets. -/
theorem mem_register_removeExAcked (x : InstanceID) :
    (x ∈ ((d.register inst).removeExAcked).writes ↔
      (x ∈ d.writes ∨ (x = inst.InstanceID ∧ inst.ReadOnly = false)) ∧
        ¬ (x ∈ d.executed ∧ x ∈ d.acknowledged)) ∧
    (x ∈ ((d.register inst).removeExAcked).reads ↔
      (x ∈ d.reads ∨ (x = inst.InstanceID ∧ inst.ReadOnly = true)) ∧
        ¬ (x ∈ d.executed ∧ x ∈ d.acknowledged)) ∧
    (x ∈ ((d.register inst).removeExAcked).executed ↔ x ∈ d.executed ∧ x ∉ d.acknowledged) ∧
    (x ∈ ((d.register inst).removeExAcked).acknowledged ↔ x ∈ d.acknowledged ∧ x ∉ d.executed) := by
  unfold register removeExAcked
  cases inst.ReadOnly <;> simp <;> tauto

/-- `ReportAcknowledged` at its node: the dependencies join the acknowledged
set, the instance itself only where it already was. -/
theorem mem_acknowledge (x : InstanceID) :
    x ∈ (d.acknowledge inst).acknowledged ↔
      x ∈ d.acknowledged ∨ (x ∈ inst.Dependencies ∧ x ≠ inst.InstanceID) := by
  unfold acknowledge
  by_cases hx : x = inst.InstanceID
  · subst hx
    by_cases h : inst.InstanceID ∈ d.acknowledged <;> simp [h, ListSet.mem_foldl_add]
  · by_cases h : inst.InstanceID ∈ d.acknowledged <;> simp [h, hx, ListSet.mem_foldl_add]

end Dependencies

namespace DependencyMap
variable (dm : DependencyMap) (inst : Instance)

/-- The key paths of the nodes created so far. -/
def paths : List (List String) := dm.nodes.map (·.1)

@[simp] theorem node_newDependencyMap (p : List String) : newDependencyMap.node p = newDependencies :=
  rfl

/-! ### Creating and replacing one node -/

@[simp] theorem node_get (q p : List String) : (dm.get q).node p = dm.node p := by
  unfold get
  split
  · rfl
  · unfold node
    rw [List.find?_append]
    -- a node found before the new one is the old node; otherwise both are empty
    cases dm.nodes.find? (·.1 == p) with
    | some e => rfl
    | none => simp only [Option.none_or, List.find?_singleton]; split <;> rfl

theorem mem_paths_get {q p : List String} : p ∈ (dm.get q).paths ↔ p ∈ dm.paths ∨ p = q := by
  unfold get paths
  split
  · rename_i h
    obtain ⟨e, he, heq⟩ := List.any_eq_true.mp h
    constructor
    · exact .inl
    · rintro (hp | rfl)
      · exact hp
      · exact List.mem_map.mpr ⟨e, he, beq_iff_eq.mp heq⟩
  · simp

theorem paths_setNode (q : List String) (d : Dependencies) : (dm.setNode q d).paths = dm.paths := by
  unfold setNode paths
  rw [List.map_map]
  congr 1
  funext e
  by_cases he : e.1 = q <;> simp [he]

/-- `setNode` keeps every key path, so a lookup through it finds the entry it
found before, replaced where it is `q`'s. -/
theorem find?_setNode (q p : List String) (d : Dependencies) :
    (dm.setNode q d).nodes.find? (·.1 == p) =
      (dm.nodes.find? (·.1 == p)).map fun e => if e.1 == q then (q, d) else e := by
  unfold setNode
  rw [List.find?_map]
  congr 2
  funext e
  by_cases he : e.1 = q <;> simp [he]

theorem node_setNode_self {q : List String} (h : q ∈ dm.paths) (d : Dependencies) :
    (dm.setNode q d).node q = d := by
  unfold node
  rw [find?_setNode]
  cases hf : dm.nodes.find? (·.1 == q) with
  | none =>
    obtain ⟨e, he, rfl⟩ := List.mem_map.mp h
    exact absurd (List.find?_eq_none.mp hf e he) (by simp)
  | some e =>
    have heq : e.1 = q := by simpa using List.find?_some hf
    simp [heq]

theorem node_setNode_ne {q p : List String} (hp : p ≠ q) (d : Dependencies) :
    (dm.setNode q d).node p = dm.node p := by
  unfold node
  rw [find?_setNode]
  cases hf : dm.nodes.find? (·.1 == p) with
  | none => rfl
  | some e =>
    have heq : e.1 = p := by simpa using List.find?_some hf
    simp [heq, hp]

/-! ### The nodes below a path -/

theorem mem_subtreeDeps {p : List String} {x : InstanceID} :
    x ∈ dm.subtreeDeps p inst ↔ ∃ e ∈ dm.nodes, p <+: e.1 ∧ e.1 ≠ p ∧ x ∈ e.2.getLocalDeps inst := by
  unfold subtreeDeps
  rw [ListSet.mem_foldl_union]
  simp [List.isPrefixOf_iff_prefix, and_assoc]

/-- A created node is empty, so it adds nothing below any path. -/
@[simp] theorem mem_subtreeDeps_get {q p : List String} {x : InstanceID} :
    x ∈ (dm.get q).subtreeDeps p inst ↔ x ∈ dm.subtreeDeps p inst := by
  rw [mem_subtreeDeps, mem_subtreeDeps]
  unfold get
  split
  · rfl
  · simp

/-! ### Descents -/

/-- What a descent along `keys` does to the tree: create each node below `path`
on the way, and replace the last one by `f` of it. -/
def descend (f : Dependencies → Dependencies) :
    DependencyMap → List String → List String → DependencyMap
  | dm, path, [_] => dm.setNode path (f (dm.node path))
  | dm, path, _ :: k :: ks => descend f (dm.get (path ++ [k])) (path ++ [k]) (k :: ks)
  | dm, _, [] => dm

section Descend
variable (f : Dependencies → Dependencies)

/-- A descent from a created node changes the node at the end of the path
alone. -/
theorem node_descend (ks : List String) :
    ∀ (dm : DependencyMap) (path : List String) (k : String) (p : List String), path ∈ dm.paths →
      (descend f dm path (k :: ks)).node p =
        if p = path ++ ks then f (dm.node (path ++ ks)) else dm.node p := by
  induction ks with
  | nil =>
    intro dm path k p h
    simp only [descend, List.append_nil]
    split_ifs with hp
    · subst hp
      exact node_setNode_self dm h _
    · exact node_setNode_ne dm hp _
  | cons k' ks ih =>
    intro dm path k p h
    rw [descend, ih _ _ _ _ ((mem_paths_get _).mpr (.inr rfl)), node_get, node_get]
    simp only [List.append_assoc, List.singleton_append]

/-- A descent creates the nodes of its path. -/
theorem mem_paths_descend (ks : List String) :
    ∀ (dm : DependencyMap) (path : List String) (k : String) (p : List String), path ∈ dm.paths →
      (p ∈ (descend f dm path (k :: ks)).paths ↔ p ∈ dm.paths ∨ ∃ q, q <+: ks ∧ p = path ++ q) := by
  induction ks with
  | nil =>
    intro dm path k p h
    simp only [descend, paths_setNode, List.prefix_nil, exists_eq_left, List.append_nil]
    constructor
    · exact .inl
    · rintro (hp | rfl)
      · exact hp
      · exact h
  | cons k' ks ih =>
    intro dm path k p h
    rw [descend, ih _ _ _ _ ((mem_paths_get _).mpr (.inr rfl)), mem_paths_get, ListSet.exists_prefix_cons]
    constructor
    · rintro ((hp | rfl) | ⟨q, hq, rfl⟩)
      · exact .inl hp
      · exact .inr (.inr ⟨[], List.nil_prefix, by simp⟩)
      · exact .inr (.inr ⟨q, hq, by simp⟩)
    · rintro (hp | rfl | ⟨q, hq, rfl⟩)
      · exact .inl (.inl hp)
      · exact .inl (.inl (by simpa using h))
      · exact .inr ⟨q, hq, by simp⟩

/-- The descent of an entry point, from the node of the first key. -/
theorem node_descend_root (k : String) (ks p : List String) :
    (descend f (dm.get [k]) [k] (k :: ks)).node p =
      if p = k :: ks then f (dm.node (k :: ks)) else dm.node p := by
  rw [node_descend f ks _ _ _ _ ((mem_paths_get _).mpr (.inr rfl)), node_get, node_get,
    List.singleton_append]

theorem mem_paths_descend_root (k : String) (ks p : List String) :
    p ∈ (descend f (dm.get [k]) [k] (k :: ks)).paths ↔ p ∈ dm.paths ∨ (p <+: k :: ks ∧ p ≠ []) := by
  rw [mem_paths_descend f ks _ _ _ _ ((mem_paths_get _).mpr (.inr rfl)), mem_paths_get]
  simp only [List.singleton_append]
  constructor
  · rintro ((hp | rfl) | ⟨q, hq, rfl⟩)
    · exact .inl hp
    · exact .inr ⟨List.prefix_cons_iff.mpr (.inr ⟨[], rfl, List.nil_prefix⟩), by simp⟩
    · exact .inr ⟨List.prefix_cons_iff.mpr (.inr ⟨q, rfl, hq⟩), by simp⟩
  · rintro (hp | ⟨hpre, hne⟩)
    · exact .inl (.inl hp)
    · rcases List.prefix_cons_iff.mp hpre with rfl | ⟨q, rfl, hq⟩
      · exact absurd rfl hne
      · exact .inr ⟨q, hq, rfl⟩

end Descend

theorem getAndSetDepsAt_fst (path keys : List String) :
    (getAndSetDepsAt inst dm path keys).1 =
      descend (fun d => (d.register inst).removeExAcked) dm path keys := by
  fun_induction getAndSetDepsAt inst dm path keys with
  | case1 => rfl
  | case2 _ _ _ _ _ _ _ _ ih => exact ih
  | case3 => rfl

theorem reportAcknowledgedAt_eq (path keys : List String) :
    reportAcknowledgedAt inst dm path keys = descend (·.acknowledge inst) dm path keys := by
  fun_induction reportAcknowledgedAt inst dm path keys with
  | case1 => rfl
  | case2 _ _ _ _ _ ih => exact ih
  | case3 => rfl

/-- What the descent of `GetAndSetDeps` gathers from the node `path` on: the
local dependencies of each node down to `path ++ ks`, and of every node below
that one, without the instance. -/
theorem mem_getAndSetDepsAt (ks : List String) :
    ∀ (dm : DependencyMap) (path : List String) (k : String) (x : InstanceID),
      x ∈ (getAndSetDepsAt inst dm path (k :: ks)).2 ↔
        ((∃ q, q <+: ks ∧ x ∈ (dm.node (path ++ q)).getLocalDeps inst) ∨
          x ∈ dm.subtreeDeps (path ++ ks) inst) ∧ x ≠ inst.InstanceID := by
  induction ks with
  | nil =>
    intro dm path k x
    simp [getAndSetDepsAt]
  | cons k' ks ih =>
    intro dm path k x
    simp only [getAndSetDepsAt, List.mem_filter, ListSet.mem_union, ih, node_get, mem_subtreeDeps_get,
      ListSet.exists_prefix_cons, List.append_nil, List.append_assoc, List.singleton_append,
      decide_eq_true_eq]
    by_cases hx : x = inst.InstanceID <;> simp [hx, or_assoc]

/-! ### The entry points -/

section EntryPoints
variable (k : String) (ks : List String)

/-- What `dependencyManager.GetAndSetDeps` returns: the local dependencies of
each node on the path and of each node below its last one, without the
instance. -/
theorem mem_GetAndSetDeps (x : InstanceID) :
    x ∈ (getAndSetDepsAt inst (dm.get [k]) [k] (k :: ks)).2 ↔
      ((∃ p, p <+: k :: ks ∧ p ≠ [] ∧ x ∈ (dm.node p).getLocalDeps inst) ∨
        (∃ e ∈ dm.nodes, k :: ks <+: e.1 ∧ e.1 ≠ k :: ks ∧ x ∈ e.2.getLocalDeps inst)) ∧
      x ≠ inst.InstanceID := by
  rw [mem_getAndSetDepsAt, mem_subtreeDeps_get, mem_subtreeDeps, ListSet.exists_prefix_cons]
  simp [node_get]

theorem node_GetAndSetDeps (p : List String) :
    (dm.GetAndSetDeps (k :: ks) inst).1.node p =
      if p = k :: ks then ((dm.node p).register inst).removeExAcked else dm.node p := by
  simp only [GetAndSetDeps, getAndSetDepsAt_fst]
  rw [node_descend_root]
  split_ifs with hp
  · rw [hp]
  · rfl

theorem mem_paths_GetAndSetDeps (p : List String) :
    p ∈ (dm.GetAndSetDeps (k :: ks) inst).1.paths ↔ p ∈ dm.paths ∨ (p <+: k :: ks ∧ p ≠ []) := by
  simp only [GetAndSetDeps, getAndSetDepsAt_fst]
  exact mem_paths_descend_root _ _ _ _ _

/-- `dependencyManager.GetAndSetDeps` on a key path of one key or more: what it
returns, the last node afterwards, and that it changes no other node and creates
the nodes of the path. -/
theorem GetAndSetDeps_spec :
    (∃ deps, (dm.GetAndSetDeps (k :: ks) inst).2 = .ok deps ∧ ∀ x, x ∈ deps ↔
      ((∃ p, p <+: k :: ks ∧ p ≠ [] ∧ x ∈ (dm.node p).getLocalDeps inst) ∨
        (∃ e ∈ dm.nodes, k :: ks <+: e.1 ∧ e.1 ≠ k :: ks ∧ x ∈ e.2.getLocalDeps inst)) ∧
      x ≠ inst.InstanceID) ∧
    (∀ x,
      (x ∈ ((dm.GetAndSetDeps (k :: ks) inst).1.node (k :: ks)).writes ↔
        (x ∈ (dm.node (k :: ks)).writes ∨ (x = inst.InstanceID ∧ inst.ReadOnly = false)) ∧
          ¬ (x ∈ (dm.node (k :: ks)).executed ∧ x ∈ (dm.node (k :: ks)).acknowledged)) ∧
      (x ∈ ((dm.GetAndSetDeps (k :: ks) inst).1.node (k :: ks)).reads ↔
        (x ∈ (dm.node (k :: ks)).reads ∨ (x = inst.InstanceID ∧ inst.ReadOnly = true)) ∧
          ¬ (x ∈ (dm.node (k :: ks)).executed ∧ x ∈ (dm.node (k :: ks)).acknowledged)) ∧
      (x ∈ ((dm.GetAndSetDeps (k :: ks) inst).1.node (k :: ks)).executed ↔
        x ∈ (dm.node (k :: ks)).executed ∧ x ∉ (dm.node (k :: ks)).acknowledged) ∧
      (x ∈ ((dm.GetAndSetDeps (k :: ks) inst).1.node (k :: ks)).acknowledged ↔
        x ∈ (dm.node (k :: ks)).acknowledged ∧ x ∉ (dm.node (k :: ks)).executed)) ∧
    (∀ p, p ≠ k :: ks → (dm.GetAndSetDeps (k :: ks) inst).1.node p = dm.node p) ∧
    (∀ p, p ∈ (dm.GetAndSetDeps (k :: ks) inst).1.paths ↔ p ∈ dm.paths ∨ (p <+: k :: ks ∧ p ≠ [])) := by
  refine ⟨⟨_, rfl, mem_GetAndSetDeps dm inst k ks⟩, fun x => ?_, fun p hp => ?_,
    mem_paths_GetAndSetDeps dm inst k ks⟩
  · rw [node_GetAndSetDeps, if_pos rfl]
    exact Dependencies.mem_register_removeExAcked _ _ x
  · rw [node_GetAndSetDeps, if_neg hp]

/-- A node holding `A` as both executed and acknowledged. -/
def exAckedLeaf : DependencyMap :=
  ⟨[(["a"], ⟨[], [], [InstanceID.ofNat 1], [InstanceID.ofNat 1]⟩)]⟩

theorem exAcked_instance_unregistered :
    instanceA.InstanceID ∉ ((exAckedLeaf.GetAndSetDeps ["a"] instanceA).1.node ["a"]).writes := by
  decide

/-- `dependencyManager.ReportAcknowledged` on a key path of one key or more. -/
theorem node_ReportAcknowledged (p : List String) :
    (dm.ReportAcknowledged (k :: ks) inst).1.node p =
      if p = k :: ks then (dm.node p).acknowledge inst else dm.node p := by
  simp only [ReportAcknowledged, reportAcknowledgedAt_eq]
  rw [node_descend_root]
  split_ifs with hp
  · rw [hp]
  · rfl

theorem mem_paths_ReportAcknowledged (p : List String) :
    p ∈ (dm.ReportAcknowledged (k :: ks) inst).1.paths ↔ p ∈ dm.paths ∨ (p <+: k :: ks ∧ p ≠ []) := by
  simp only [ReportAcknowledged, reportAcknowledgedAt_eq]
  exact mem_paths_descend_root _ _ _ _ _

end EntryPoints

/-- `ReportExecuted` on one key marks the instance executed at its node. -/
theorem node_ReportExecuted_single (k : String) (p : List String) :
    (dm.ReportExecuted [k] inst).1.node p =
      if p = [k] then { dm.node p with executed := ListSet.add (dm.node p).executed inst.InstanceID }
      else dm.node p := by
  have hk : [k] ∈ (dm.get [k]).paths := (mem_paths_get _).mpr (.inr rfl)
  simp only [ReportExecuted, reportExecutedAt]
  split_ifs with hp
  · subst hp
    rw [node_setNode_self _ hk, node_get]
  · rw [node_setNode_ne _ hp, node_get]

/-- `AddDependency` on one key registers the instance at its node. -/
theorem node_AddDependency_single (k : String) (p : List String) :
    (dm.AddDependency [k] inst).1.node p =
      if p = [k] then (dm.node p).register inst else dm.node p := by
  have hk : [k] ∈ (dm.get [k]).paths := (mem_paths_get _).mpr (.inr rfl)
  simp only [AddDependency, addDependencyAt]
  split_ifs with hp
  · subst hp
    rw [node_setNode_self _ hk, node_get]
  · rw [node_setNode_ne _ hp, node_get]

theorem ReportExecuted_deep (k k' : String) (ks : List String) :
    dm.ReportExecuted (k :: k' :: ks) inst = dm.ReportAcknowledged (k :: k' :: ks) inst :=
  rfl

theorem AddDependency_deep (k k' : String) (ks : List String) :
    dm.AddDependency (k :: k' :: ks) inst = dm.ReportAcknowledged (k :: k' :: ks) inst :=
  rfl

/-- On two keys or more, `ReportExecuted` leaves every executed set as it was. -/
theorem executed_ReportExecuted_deep (k k' : String) (ks : List String) (p : List String) :
    ((dm.ReportExecuted (k :: k' :: ks) inst).1.node p).executed = (dm.node p).executed := by
  rw [ReportExecuted_deep, node_ReportAcknowledged]
  split_ifs <;> rfl

/-- On two keys or more, `AddDependency` leaves every write and read as it was. -/
theorem registered_AddDependency_deep (k k' : String) (ks : List String) (p : List String) :
    ((dm.AddDependency (k :: k' :: ks) inst).1.node p).writes = (dm.node p).writes ∧
      ((dm.AddDependency (k :: k' :: ks) inst).1.node p).reads = (dm.node p).reads := by
  rw [AddDependency_deep, node_ReportAcknowledged]
  split_ifs <;> exact ⟨rfl, rfl⟩

theorem deep_reports_leave_node_unmarked :
    ((newDependencyMap.ReportExecuted ["a", "b"] instanceA).1.node ["a", "b"]).executed = [] ∧
      ((newDependencyMap.AddDependency ["a", "b"] instanceA).1.node ["a", "b"]).writes = [] :=
  ⟨executed_ReportExecuted_deep _ _ _ _ _ _, (registered_AddDependency_deep _ _ _ _ _ _).1⟩

end DependencyMap

end Kickboxer.Consensus
