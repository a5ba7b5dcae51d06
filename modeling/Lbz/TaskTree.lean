import Lbz.Lib.Run
import Lbz.Lib.SearchTree
import Lbz.Sched

/-!
# The task tree

`lbz-io-scheduler.c`: the red-black tree behind `Sys.taskTree`, keyed by the block of a task.

* `RbNode`, `RbLib`: what the code links, and the two functions of the kernel that rebalance;
  `RbLib.KeepsOrder`: they keep the sequence of the tasks from left to right;
* `insertTaskToTree`, `delTaskFromRbTree`, `searchTask`: the functions that descend the tree;
* `TreeOk`: the blocks ascend from left to right, and `task_count` is the number of nodes;
  `TreeOk.insert`, `TreeOk.del`: both operations keep it, and what else they do;
* `insertTaskToTree_sim`, `delTaskFromRbTree_sim`: `searchTree`, `linkTask` and `delTaskFromTree` are
  what they do to the set of tasks;
* **`task_tree_set`**: in every sequence of insertions and deletions the tree is a set keyed by
  block; `search_task` goes to the larger blocks where it wants a smaller one, and is right about a
  block just when its task is at the root or in no node.
-/

namespace Lbz

variable {α : Type}

/-! ## The tree and its operations -/

/-- `struct rb_node` of a task, and the colour that it keeps for the kernel. -/
structure RbNode where
  task : ℕ
  black : Bool
deriving DecidableEq, Repr

/-- `rb_insert_color` and `rb_erase`, on the node of a task. -/
structure RbLib where
  insertColor : ℕ → BinaryTree RbNode → BinaryTree RbNode
  erase : ℕ → BinaryTree RbNode → BinaryTree RbNode

/-- The tasks from left to right. -/
def tasksOf (root : BinaryTree RbNode) : List ℕ := root.inorder.map RbNode.task

/-- The kernel rebalances without moving a task past another one. -/
structure RbLib.KeepsOrder (rb : RbLib) : Prop where
  insertColor : ∀ t root, t ∈ tasksOf root → tasksOf (rb.insertColor t root) = tasksOf root
  erase : ∀ t root, t ∈ tasksOf root → tasksOf (rb.erase t root) = (tasksOf root).erase t

/-- `task_tree` and `task_count` of `struct lbz_io_scheduler`, with the tasks. -/
structure TaskTree (α : Type) where
  root : BinaryTree RbNode
  taskCount : ℤ
  tasks : Heap (Task α)
deriving DecidableEq, Repr

namespace TaskTree

/-- `RB_ROOT` -/
def empty (tasks : Heap (Task α)) : TaskTree α := { root := .nil, taskCount := 0, tasks }

/-- `tk->blkid` -/
def blkid (q : TaskTree α) (t : ℕ) : ℕ := (q.tasks.get t).elim 0 Task.blkid

/-- The key of a node. -/
def key (q : TaskTree α) (n : RbNode) : ℕ := q.blkid n.task

/-- The tasks in the tree. -/
def members (q : TaskTree α) : List ℕ := tasksOf q.root

/-- `task_get` -/
def taskGet (q : TaskTree α) (t : ℕ) : TaskTree α :=
  { q with tasks := q.tasks.modify t fun x => { x with refcount := x.refcount + 1 } }

end TaskTree

/-- The comparisons of `insert_task_to_tree`, at the node of block `nodeBlkid`. -/
def insertDir (blkid nodeBlkid : ℕ) : Ordering :=
  if blkid > nodeBlkid then .gt
  else if blkid < nodeBlkid then .lt
  else .eq

/-- The comparisons of `search_task`. -/
def searchDir (blkid nodeBlkid : ℕ) : Ordering :=
  if nodeBlkid > blkid then .gt
  else if nodeBlkid < blkid then .lt
  else .eq

/-- `insert_task_to_tree`, with the task it returns. -/
def insertTaskToTree (rb : RbLib) (q : TaskTree α) (t : ℕ) : TaskTree α × Option ℕ :=
  let dir := fun n => insertDir (q.blkid t) (q.key n)
  match q.root.descend dir with
  | some n => (q.taskGet n.task, some n.task)
  | none =>
    -- `rb_link_node` makes a red node
    let root := rb.insertColor t (q.root.link dir ⟨t, false⟩)
    ({ q.taskGet t with root, taskCount := q.taskCount + 1 }, none)

/-- `del_task_from_tree` -/
def delTaskFromRbTree (rb : RbLib) (q : TaskTree α) (t : ℕ) : TaskTree α :=
  { q with root := rb.erase t q.root, taskCount := q.taskCount - 1 }

/-- `search_task`, with the task it returns. -/
def searchTask (q : TaskTree α) (blkid : ℕ) : TaskTree α × Option ℕ :=
  match q.root.descend fun n => searchDir blkid (q.key n) with
  | some n => (q.taskGet n.task, some n.task)
  | none => (q, none)

/-- The operations on the tree, and the tasks that are given to them. -/
inductive TreeOp
  | insert (t : ℕ)
  | del (t : ℕ)
deriving DecidableEq, Repr

/-- One operation: a task that lives is inserted, a task of the tree is deleted. -/
def treeStep (rb : RbLib) (q : TaskTree α) : TreeOp → Option (TaskTree α)
  | .insert t => if (q.tasks.get t).isSome then some (insertTaskToTree rb q t).1 else none
  | .del t => if t ∈ q.members then some (delTaskFromRbTree rb q t) else none

/-! ## What they do -/

theorem insertDir_eq (b b' : ℕ) : insertDir b b' = compare b b' := by
  unfold insertDir
  split_ifs with h1 h2
  · exact (compare_gt_iff_gt.mpr h1).symm
  · exact (compare_lt_iff_lt.mpr h2).symm
  · exact (compare_eq_iff_eq.mpr (by omega)).symm

theorem searchDir_eq (b b' : ℕ) : searchDir b b' = (compare b b').swap := by
  unfold searchDir
  split_ifs with h1 h2
  · rw [compare_lt_iff_lt.mpr h1]
    rfl
  · rw [compare_gt_iff_gt.mpr h2]
    rfl
  · rw [compare_eq_iff_eq.mpr (by omega)]
    rfl

namespace TaskTree

variable {q : TaskTree α}

theorem blkid_taskGet (q : TaskTree α) (t u : ℕ) : (q.taskGet t).blkid u = q.blkid u := by
  rw [blkid, blkid, TaskTree.taskGet, Heap.get_modify]
  split_ifs
  · cases q.tasks.get u <;> rfl
  · rfl

theorem live_taskGet {u : ℕ} (t : ℕ) (h : (q.tasks.get u).isSome) :
    ((q.taskGet t).tasks.get u).isSome := by
  rw [TaskTree.taskGet, Heap.get_modify]
  split_ifs
  · rwa [Option.isSome_map]
  · exact h

theorem mem_members {t : ℕ} : t ∈ q.members ↔ ∃ n ∈ q.root.inorder, n.task = t := List.mem_map

end TaskTree

theorem insertTaskToTree_some (rb : RbLib) {q : TaskTree α} {t : ℕ} {n : RbNode}
    (h : q.root.descend (fun n => insertDir (q.blkid t) (q.key n)) = some n) :
    insertTaskToTree rb q t = (q.taskGet n.task, some n.task) := by
  simp only [insertTaskToTree, h]

theorem insertTaskToTree_none (rb : RbLib) {q : TaskTree α} {t : ℕ}
    (h : q.root.descend (fun n => insertDir (q.blkid t) (q.key n)) = none) :
    insertTaskToTree rb q t = ({ q.taskGet t with
      root := rb.insertColor t
        (q.root.link (fun n => insertDir (q.blkid t) (q.key n)) ⟨t, false⟩)
      taskCount := q.taskCount + 1 }, none) := by
  simp only [insertTaskToTree, h]

open TaskTree

/-- The tree is ordered, without duplicates and counted; its tasks live. -/
structure TreeOk (q : TaskTree α) : Prop where
  sorted : (q.members.map q.blkid).Pairwise (· < ·)
  count : q.taskCount = q.members.length
  live : ∀ t ∈ q.members, (q.tasks.get t).isSome

/-- What `insert_task_to_tree` promises of `t`: it returns the task of the tree with the block of `t`,
or makes `t` a member; one task has one reference more. -/
structure Inserts (q q' : TaskTree α) (t : ℕ) (retk : Option ℕ) : Prop where
  returns : ∀ u, retk = some u ↔ u ∈ q.members ∧ q.blkid u = q.blkid t
  found : ∀ u, retk = some u →
    q' = { q with tasks := q.tasks.modify u fun x => { x with refcount := x.refcount + 1 } }
  linked : retk = none → q'.members.Perm (t :: q.members) ∧ q'.taskCount = q.taskCount + 1 ∧
    q'.tasks = q.tasks.modify t fun x => { x with refcount := x.refcount + 1 }

/-- `search_task` is right about the block `b`. -/
def SearchOk (q : TaskTree α) (b : ℕ) : Prop :=
  ∀ t, (searchTask q b).2 = some t ↔ t ∈ q.members ∧ q.blkid t = b

/-- The task of block `b` is at the root. -/
def AtRoot (q : TaskTree α) (b : ℕ) : Prop := ∃ n l r, q.root = .node n l r ∧ q.key n = b

namespace TreeOk

variable {q : TaskTree α} {rb : RbLib}

theorem empty (tasks : Heap (Task α)) : TreeOk (TaskTree.empty tasks) :=
  ⟨List.Pairwise.nil, rfl, nofun⟩

theorem root (a : TreeOk q) : q.root.Sorted q.key := by
  have h := a.sorted
  rwa [members, tasksOf, List.map_map] at h

theorem nodup (a : TreeOk q) : q.members.Nodup := List.Nodup.of_map _ (a.sorted.imp ne_of_lt)

theorem key_inj (a : TreeOk q) {t u : ℕ} (ht : t ∈ q.members) (hu : u ∈ q.members)
    (e : q.blkid t = q.blkid u) : t = u :=
  List.inj_on_of_nodup_map (a.sorted.imp ne_of_lt) ht hu e

/-- The descent of `insert_task_to_tree` for the block `b`. -/
theorem descend (a : TreeOk q) {b : ℕ} {n : RbNode} :
    q.root.descend (fun n => insertDir b (q.key n)) = some n ↔ n ∈ q.root.inorder ∧ q.key n = b := by
  simp only [insertDir_eq]
  exact BinaryTree.descend_compare a.root

/-- Where nothing is found, the new node stands between the smaller blocks and the larger ones. -/
theorem link (a : TreeOk q) {t : ℕ}
    (hd : q.root.descend (fun n => insertDir (q.blkid t) (q.key n)) = none) :
    ∃ l₁ l₂, q.members = l₁ ++ l₂ ∧
      tasksOf (q.root.link (fun n => insertDir (q.blkid t) (q.key n)) ⟨t, false⟩) = l₁ ++ t :: l₂ ∧
      (∀ u ∈ l₁, q.blkid u < q.blkid t) ∧ ∀ u ∈ l₂, q.blkid t < q.blkid u := by
  simp only [insertDir_eq] at hd ⊢
  obtain ⟨l₁, l₂, h1, h2, h3, h4⟩ :=
    BinaryTree.inorder_link (v := (⟨t, false⟩ : RbNode)) a.root hd
  refine ⟨l₁.map RbNode.task, l₂.map RbNode.task, ?_, ?_, ?_, ?_⟩
  · rw [members, tasksOf, h1, List.map_append]
  · exact (congrArg (List.map RbNode.task) h2).trans (List.map_append ..)
  · exact List.forall_mem_map.mpr h3
  · exact List.forall_mem_map.mpr h4

theorem insert (hrb : rb.KeepsOrder) (a : TreeOk q) {t : ℕ} (ht : (q.tasks.get t).isSome) :
    TreeOk (insertTaskToTree rb q t).1 ∧
      Inserts q (insertTaskToTree rb q t).1 t (insertTaskToTree rb q t).2 := by
  cases hd : q.root.descend fun n => insertDir (q.blkid t) (q.key n) with
  | some n =>
    rw [insertTaskToTree_some rb hd]
    obtain ⟨hn, hk⟩ := a.descend.mp hd
    have hmem : n.task ∈ q.members := mem_members.mpr ⟨n, hn, rfl⟩
    refine ⟨⟨?_, a.count, fun u hu => live_taskGet _ (a.live u hu)⟩, fun u => ⟨fun h => ?_, fun h => ?_⟩,
      fun u h => ?_, nofun⟩
    · change (q.members.map (q.taskGet n.task).blkid).Pairwise _
      rw [funext (q.blkid_taskGet n.task)]
      exact a.sorted
    · cases h
      exact ⟨hmem, hk⟩
    · exact congrArg some (a.key_inj hmem h.1 (hk.trans h.2.symm))
    · cases h
      rfl
  | none =>
    rw [insertTaskToTree_none rb hd]
    obtain ⟨l₁, l₂, h1, h2, h3, h4⟩ := a.link hd
    have hin : t ∈ tasksOf (q.root.link (fun n => insertDir (q.blkid t) (q.key n)) ⟨t, false⟩) := by
      rw [h2]
      exact List.mem_append_right _ List.mem_cons_self
    -- the members after the kernel has rebalanced
    have hm := (hrb.insertColor t _ hin).trans h2
    have hperm : (l₁ ++ t :: l₂).Perm (t :: q.members) := by
      rw [h1]
      exact List.perm_middle
    refine ⟨⟨?_, ?_, fun u hu => ?_⟩, fun u => ⟨nofun, fun h => ?_⟩, nofun, fun _ => ⟨?_, rfl, rfl⟩⟩
    · change (List.map (q.taskGet t).blkid (tasksOf _)).Pairwise _
      rw [funext (q.blkid_taskGet t), hm, List.map_append, List.map_cons, List.pairwise_append,
        List.pairwise_cons]
      have hold := a.sorted
      rw [h1, List.map_append, List.pairwise_append] at hold
      obtain ⟨h5, h6, h7⟩ := hold
      refine ⟨h5, ⟨List.forall_mem_map.mpr h4, h6⟩, List.forall_mem_map.mpr fun u hu b hb => ?_⟩
      rcases List.mem_cons.mp hb with rfl | hb
      · exact h3 u hu
      · exact h7 _ (List.mem_map_of_mem hu) b hb
    · change q.taskCount + 1 = ((tasksOf _).length : ℤ)
      rw [hm, hperm.length_eq, List.length_cons, a.count]
      norm_cast
    · change u ∈ tasksOf _ at hu
      rw [hm, hperm.mem_iff, List.mem_cons] at hu
      rcases hu with rfl | hu
      · exact live_taskGet _ ht
      · exact live_taskGet _ (a.live u hu)
    · obtain ⟨n, hn, rfl⟩ := mem_members.mp h.1
      rw [a.descend.mpr ⟨hn, h.2⟩] at hd
      cases hd
    · change (tasksOf _).Perm _
      rw [hm]
      exact hperm

theorem del (hrb : rb.KeepsOrder) (a : TreeOk q) {t : ℕ} (ht : t ∈ q.members) :
    TreeOk (delTaskFromRbTree rb q t) ∧
      (delTaskFromRbTree rb q t).members = q.members.erase t := by
  have hm : (delTaskFromRbTree rb q t).members = q.members.erase t := hrb.erase t q.root ht
  refine ⟨⟨?_, ?_, fun u hu => ?_⟩, hm⟩
  · rw [hm]
    exact a.sorted.sublist ((List.erase_sublist).map _)
  · rw [hm, List.length_erase_of_mem ht]
    change q.taskCount - 1 = _
    rw [a.count]
    have := List.length_pos_of_mem ht
    omega
  · rw [hm] at hu
    exact a.live u (List.mem_of_mem_erase hu)

/-- `search_task` finds the root, and nothing else. -/
theorem searchTask_eq_some (a : TreeOk q) {b t : ℕ} :
    (searchTask q b).2 = some t ↔ ∃ n l r, q.root = .node n l r ∧ q.key n = b ∧ n.task = t := by
  have hd : ∀ n, q.root.descend (fun n => searchDir b (q.key n)) = some n ↔
      q.key n = b ∧ ∃ l r, q.root = .node n l r := fun n => by
    simp only [searchDir_eq]
    exact BinaryTree.descend_swap a.root
  unfold searchTask
  constructor
  · intro h
    cases hn : q.root.descend fun n => searchDir b (q.key n) with
    | none =>
      rw [hn] at h
      cases h
    | some n =>
      rw [hn] at h
      obtain ⟨hk, l, r, hr⟩ := (hd n).mp hn
      exact ⟨n, l, r, hr, hk, Option.some.inj h⟩
  · rintro ⟨n, l, r, hr, hk, rfl⟩
    rw [(hd n).mpr ⟨hk, l, r, hr⟩]

/-- When `search_task` is right. -/
theorem searchOk_iff (a : TreeOk q) {b : ℕ} :
    SearchOk q b ↔ AtRoot q b ∨ ∀ t ∈ q.members, q.blkid t ≠ b := by
  constructor
  · intro h
    by_cases hb : ∃ t ∈ q.members, q.blkid t = b
    · obtain ⟨t, ht, hk⟩ := hb
      obtain ⟨n, l, r, hr, hn, -⟩ := a.searchTask_eq_some.mp ((h t).mpr ⟨ht, hk⟩)
      exact Or.inl ⟨n, l, r, hr, hn⟩
    · exact Or.inr fun t ht hk => hb ⟨t, ht, hk⟩
  · have hmem : ∀ {n l r}, q.root = .node n l r → n.task ∈ q.members := fun {n l r} hr =>
      mem_members.mpr ⟨n, by rw [hr]; exact BinaryTree.mem_inorder_node.mpr (Or.inr (Or.inl rfl)), rfl⟩
    intro h t
    rw [a.searchTask_eq_some]
    refine ⟨fun ⟨n, l, r, hr, hk, ht⟩ => ht ▸ ⟨hmem hr, hk⟩, fun ⟨ht, hk⟩ => ?_⟩
    rcases h with ⟨n, l, r, hr, hn⟩ | h
    · exact ⟨n, l, r, hr, hn, a.key_inj (hmem hr) ht (hn.trans hk.symm)⟩
    · exact absurd hk (h t ht)

end TreeOk

/-- `search_task` takes a reference on the task it returns. -/
theorem searchTask_fst {q : TaskTree α} {b t : ℕ} (h : (searchTask q b).2 = some t) :
    (searchTask q b).1 =
      { q with tasks := q.tasks.modify t fun x => { x with refcount := x.refcount + 1 } } := by
  cases hd : q.root.descend fun n => searchDir b (q.key n) with
  | none =>
    simp only [searchTask, hd] at h
    cases h
  | some n =>
    simp only [searchTask, hd] at h ⊢
    cases h
    rfl

/-! ## The set of tasks of a running device -/

/-- The tree holds the tasks that `s.taskTree` lists. -/
structure TaskTree.Represents (q : TaskTree α) (s : Sys α) : Prop where
  tasks : q.tasks = s.tasks
  perm : q.members.Perm s.taskTree

section

variable {q : TaskTree α} {s : Sys α} {rb : RbLib}

theorem searchTree_eq_some (a : TreeOk q) (r : q.Represents s) {b u : ℕ} :
    searchTree s b = some u ↔ u ∈ q.members ∧ q.blkid u = b := by
  have hfound : ∀ {v}, searchTree s b = some v → v ∈ q.members ∧ q.blkid v = b := fun {v} h => by
    obtain ⟨hv, x, hx, hb⟩ := searchTree_some h
    refine ⟨r.perm.mem_iff.mpr hv, ?_⟩
    rw [blkid, r.tasks, hx]
    exact hb
  refine ⟨hfound, fun ⟨hu, hb⟩ => ?_⟩
  cases h : searchTree s b with
  | none =>
    obtain ⟨x, hx⟩ := Option.isSome_iff_exists.mp (a.live u hu)
    rw [blkid, hx] at hb
    exact absurd hb (searchTree_none h u (r.perm.mem_iff.mp hu) x (by rw [← r.tasks, hx]))
  | some v =>
    obtain ⟨hv, hvb⟩ := hfound h
    exact congrArg some (a.key_inj hv hu (hvb.trans hb.symm))

/-- **Insertion in the model is insertion in the tree.** -/
theorem insertTaskToTree_sim (hrb : rb.KeepsOrder) (a : TreeOk q) (r : q.Represents s) {t : ℕ}
    {x : Task α} (hx : s.tasks.get t = some x) :
    (insertTaskToTree rb q t).2 = searchTree s x.blkid ∧
      (insertTaskToTree rb q t).1.Represents
        (match searchTree s x.blkid with
        | some u => taskGet s u
        | none => linkTask s t) := by
  have hx' : q.tasks.get t = some x := by rw [r.tasks, hx]
  have hb : q.blkid t = x.blkid := by rw [blkid, hx']; rfl
  obtain ⟨-, h⟩ := a.insert hrb (t := t) (by rw [hx']; rfl)
  have hret : (insertTaskToTree rb q t).2 = searchTree s x.blkid := by
    refine Option.ext fun u => ?_
    rw [h.returns u, hb]
    exact (searchTree_eq_some a r).symm
  refine ⟨hret, ?_⟩
  cases hs : searchTree s x.blkid with
  | some u =>
    rw [h.found u (hret.trans hs)]
    refine ⟨?_, r.perm⟩
    rw [r.tasks]
    rfl
  | none =>
    obtain ⟨h1, -, h3⟩ := h.linked (hret.trans hs)
    refine ⟨?_, h1.trans (r.perm.cons t)⟩
    rw [h3, r.tasks]
    rfl

/-- **Deletion in the model is deletion in the tree.** -/
theorem delTaskFromRbTree_sim (hrb : rb.KeepsOrder) (r : q.Represents s) {t : ℕ}
    (ht : t ∈ q.members) : (delTaskFromRbTree rb q t).Represents (delTaskFromTree s t) := by
  refine ⟨r.tasks, ?_⟩
  have hm : (delTaskFromRbTree rb q t).members = q.members.erase t := hrb.erase t q.root ht
  rw [hm]
  exact r.perm.erase t

end

/-! ## Sequences of operations -/

/-- **The task tree is a set keyed by block**, whatever was inserted and deleted: it is ordered and
counted, an insertion returns the task that has the block or makes the new one a member, a deletion
takes out its task, and a task that is returned or becomes a member has one reference more.
`search_task` is right about a block just when its task is at the root or there is none. -/
theorem task_tree_set {rb : RbLib} (hrb : rb.KeepsOrder) {tasks : Heap (Task α)} {q : TaskTree α}
    (h : Runs (stepRel (treeStep rb)) (fun _ _ => True) (TaskTree.empty tasks) q) :
    TreeOk q ∧
      (∀ t, (q.tasks.get t).isSome →
        Inserts q (insertTaskToTree rb q t).1 t (insertTaskToTree rb q t).2) ∧
      (∀ t ∈ q.members, (delTaskFromRbTree rb q t).members = q.members.erase t ∧
        (delTaskFromRbTree rb q t).tasks = q.tasks) ∧
      (∀ b t, (searchTask q b).2 = some t → (searchTask q b).1 =
        { q with tasks := q.tasks.modify t fun x => { x with refcount := x.refcount + 1 } }) ∧
      ∀ b, SearchOk q b ↔ AtRoot q b ∨ ∀ t ∈ q.members, q.blkid t ≠ b := by
  have a : TreeOk q := by
    refine h.inv (I := TreeOk) (fun q e q' a _ hs => ?_) (TreeOk.empty tasks)
    cases e with
    | insert t =>
      simp only [stepRel, treeStep, Option.ite_none_right_eq_some, Option.some.injEq] at hs
      obtain ⟨ht, rfl⟩ := hs
      exact (a.insert hrb ht).1
    | del t =>
      simp only [stepRel, treeStep, Option.ite_none_right_eq_some, Option.some.injEq] at hs
      obtain ⟨ht, rfl⟩ := hs
      exact (a.del hrb ht).1
  exact ⟨a, fun t ht => (a.insert hrb ht).2, fun t ht => ⟨(a.del hrb ht).2, rfl⟩,
    fun b t => searchTask_fst, fun b => a.searchOk_iff⟩

/-- The right-hand tree hung below the last node of the left-hand one. -/
def joinTrees : BinaryTree RbNode → BinaryTree RbNode → BinaryTree RbNode
  | .nil, r => r
  | .node n l r, r' => .node n l (joinTrees r r')

/-- Take out the node of `t`. -/
def eraseNode (t : ℕ) : BinaryTree RbNode → BinaryTree RbNode
  | .nil => .nil
  | .node n l r =>
    if t ∈ tasksOf l then .node n (eraseNode t l) r
    else if n.task = t then joinTrees l r
    else .node n l (eraseNode t r)

/-- What the kernel does to a tree of two nodes at most: the root is made black, and a leaf or the
parent of one is taken out. -/
def smallRb : RbLib where
  insertColor _ root :=
    match root with
    | .node n l r => .node { n with black := true } l r
    | .nil => .nil
  erase := eraseNode

theorem tasksOf_node (n : RbNode) (l r : BinaryTree RbNode) :
    tasksOf (.node n l r) = tasksOf l ++ n.task :: tasksOf r := by
  simp only [tasksOf, BinaryTree.inorder, List.map_append, List.map_cons]

theorem tasksOf_joinTrees : ∀ l r, tasksOf (joinTrees l r) = tasksOf l ++ tasksOf r
  | .nil, r => rfl
  | .node n l r, r' => by
    rw [joinTrees, tasksOf_node, tasksOf_node, tasksOf_joinTrees r r', List.append_assoc,
      List.cons_append]

theorem tasksOf_eraseNode (t : ℕ) : ∀ root, tasksOf (eraseNode t root) = (tasksOf root).erase t
  | .nil => rfl
  | .node n l r => by
    rw [eraseNode, tasksOf_node]
    split_ifs with hl hn
    · rw [tasksOf_node, tasksOf_eraseNode t l, List.erase_append_left _ hl]
    · rw [tasksOf_joinTrees, List.erase_append_right _ hl, hn, List.erase_cons_head]
    · rw [tasksOf_node, tasksOf_eraseNode t r, List.erase_append_right _ hl,
        List.erase_cons_tail (by simpa using hn)]

theorem smallRb_keepsOrder : smallRb.KeepsOrder where
  insertColor t root _ := by
    cases root with
    | nil => rfl
    | node n l r => exact (tasksOf_node _ l r).trans (tasksOf_node n l r).symm
  erase t root _ := tasksOf_eraseNode t root

/-- Writes of the blocks 5 and 9. -/
def fiveAndNine : Heap (Task ℕ) := ⟨[some (Task.forWrite .userWrite 5 0),
  some (Task.forWrite .userWrite 9 0)]⟩

theorem task_tree_set_two : ∃ q, Runs (stepRel (treeStep smallRb)) (fun _ _ => True)
    (TaskTree.empty fiveAndNine) q ∧ q.members = [0, 1] ∧ q.taskCount = 2 ∧ SearchOk q 5 := by
  obtain ⟨q, h1, h2⟩ := exists_run (treeStep smallRb) (fun _ _ => True)
    (fun q => decide (q.members = [0, 1] ∧ q.blkid 0 = 5 ∧ q.root.left = .nil))
    (TaskTree.empty fiveAndNine) [.insert 1, .del 1, .insert 0, .insert 1] (by decide)
  obtain ⟨hm, hb, hl⟩ := of_decide_eq_true h2
  obtain ⟨a, -, -, -, hs⟩ := task_tree_set smallRb_keepsOrder h1
  refine ⟨q, h1, hm, by rw [a.count, hm]; rfl, (hs 5).mpr (Or.inl ?_)⟩
  cases hr : q.root with
  | nil =>
    rw [members, hr] at hm
    cases hm
  | node n l r =>
    rw [hr] at hl
    change l = .nil at hl
    rw [members, hr, hl, tasksOf_node] at hm
    refine ⟨n, l, r, hr, ?_⟩
    rw [key, (List.cons.inj hm).1, hb]

/-- With 5 at the root, the task of block 9 is in the tree, and `search_task` looks for it among the
smaller blocks. -/
theorem search_task_wrong : ¬ ∀ (rb : RbLib) (tasks : Heap (Task ℕ)) (q : TaskTree ℕ),
    rb.KeepsOrder → Runs (stepRel (treeStep rb)) (fun _ _ => True) (TaskTree.empty tasks) q →
      ∀ b t, (searchTask q b).2 = some t ↔ t ∈ q.members ∧ q.blkid t = b := by
  intro h
  obtain ⟨q, h1, h2⟩ := exists_run (treeStep smallRb) (fun _ _ => True)
    (fun q => decide ((searchTask q 9).2 = none ∧ 1 ∈ q.members ∧ q.blkid 1 = 9))
    (TaskTree.empty fiveAndNine) [.insert 0, .insert 1] (by decide)
  obtain ⟨hn, hm, hb⟩ := of_decide_eq_true h2
  have h3 := (h smallRb fiveAndNine q smallRb_keepsOrder h1 9 1).mpr ⟨hm, hb⟩
  rw [hn] at h3
  cases h3

end Lbz
