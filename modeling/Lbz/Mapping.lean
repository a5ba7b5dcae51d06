import Lbz.Lib.Heap
import Lbz.Lib.Loop
import Mathlib.Logic.Function.Basic
import Mathlib.Tactic.Linarith

/-!
# The mapping tree

`lbz-mapping.c`: a tree of three levels with `L` blocks in a leaf and `I` leaves in an internal node.
An operation is `none` where the code would follow a pointer that is none, or leave an array.

* `Mapping`: `struct lbz_mapping` with the pages of its nodes;
* `findSpecificNode`, `mappingLookup`, `mappingAdd`, `mappingRemove`;
* `mappingInit`, `mappingDestroy`: the loops that build the tree and free it;
* `Row`, `Built`: where the loops of `mappingInit` put the nodes;
* **`mapping_spec`**: the tree is a finite map from block ids to block addresses, and
  `lbz_mapping_destroy` frees each of its nodes once.
-/

namespace Lbz

/-- `LBZ_INVALID_PBID` -/
def invalidPbid : ℕ := 2 ^ 32 - 1

/-- A page of the tree. -/
inductive Node (L I : ℕ)
  /-- `struct mapping_leaf_node` -/
  | leaf (blkid : ℕ) (pbids : Fin L → ℕ)
  /-- `struct mapping_internal_node` -/
  | internal (entries blkid : ℕ) (childern : Fin I → Option ℕ)

/-- `struct lbz_mapping`, `M` being `MAX_INTERNAL_NODES`, with the pages it points to. -/
structure Mapping (L I M : ℕ) where
  root : Fin M → Option ℕ
  maxBlkid : ℕ
  nodes : Heap (Node L I)

/-- The values of `nr_internal_node` and `nr_leaf_node`. -/
def nrInternalNode (L I maxBlkid : ℕ) : ℕ := (maxBlkid + L * I - 1) / (L * I)

def nrLeafNode (L maxBlkid : ℕ) : ℕ := (maxBlkid + L - 1) / L

variable {L I M : ℕ}

/-! ## Look up and change -/

/-- `mapping->root[i]` -/
def Mapping.root? (m : Mapping L I M) (i : ℕ) : Option ℕ :=
  if h : i < M then m.root ⟨i, h⟩ else none

/-- `node->childern[j]` -/
def Mapping.child? (m : Mapping L I M) (node j : ℕ) : Option ℕ :=
  match m.nodes.get node with
  | some (.internal _ _ childern) => if h : j < I then childern ⟨j, h⟩ else none
  | _ => none

/-- `leaf->pbids[index]` -/
def Mapping.pbid? (m : Mapping L I M) (leaf index : ℕ) : Option ℕ :=
  match m.nodes.get leaf with
  | some (.leaf _ pbids) => if h : index < L then some (pbids ⟨index, h⟩) else none
  | _ => none

/-- `__find_specific_node`: the leaf and the slot in it. -/
def findSpecificNode (m : Mapping L I M) (blkid : ℕ) : Option (ℕ × ℕ) :=
  -- `BUG_ON`
  if m.maxBlkid ≤ blkid then none
  else
    let rootIndex := blkid / (L * I)
    let intIndex := blkid / L % I
    let leafIndex := blkid % L
    ((m.root? rootIndex).bind fun node => m.child? node intIndex).map fun leaf => (leaf, leafIndex)

/-- `lbz_mapping_lookup`: `none` inside for `-ENOENT`. -/
def mappingLookup (m : Mapping L I M) (blkid : ℕ) : Option (Option ℕ) :=
  (findSpecificNode m blkid).bind fun slot => (m.pbid? slot.1 slot.2).map fun pbid =>
    if pbid = invalidPbid then none else some pbid

/-- Write a slot of a leaf. -/
def Node.setPbid (index pbid : ℕ) : Node L I → Node L I
  | .leaf b pbids => .leaf b fun k => if k.val = index then pbid else pbids k
  | n => n

def Mapping.setPbid (m : Mapping L I M) (leaf index pbid : ℕ) : Mapping L I M :=
  { m with nodes := m.nodes.modify leaf (Node.setPbid index pbid) }

/-- The body of `lbz_mapping_add` and `lbz_mapping_remove`, with what they return. -/
def mappingSet (m : Mapping L I M) (blkid pbid : ℕ) : Option (Mapping L I M × ℕ) :=
  (findSpecificNode m blkid).bind fun slot => (m.pbid? slot.1 slot.2).map fun oldPbid =>
    (m.setPbid slot.1 slot.2 pbid, oldPbid)

/-- `lbz_mapping_add` -/
def mappingAdd (m : Mapping L I M) (blkid pbid : ℕ) : Option (Mapping L I M × ℕ) :=
  mappingSet m blkid pbid

/-- `lbz_mapping_remove` -/
def mappingRemove (m : Mapping L I M) (blkid : ℕ) : Option (Mapping L I M × ℕ) :=
  mappingSet m blkid invalidPbid

/-! ## Build and free -/

/-- The local variables of `lbz_mapping_init`. -/
structure InitState (L I M : ℕ) where
  m : Mapping L I M
  i : ℕ
  j : ℕ
  count : ℕ
  startBlkid : ℕ

/-- `node->childern[j] = leaf` and `entries++` -/
def Mapping.addChild (m : Mapping L I M) (node j leaf : ℕ) : Option (Mapping L I M) :=
  match m.nodes.get node with
  | some (.internal e b childern) =>
    if h : j < I then
      let node' := .internal (e + 1) b (Function.update childern ⟨j, h⟩ (some leaf))
      some { m with nodes := m.nodes.modify node fun _ => node' }
    else none
  | _ => none

/-- The inner loop of `lbz_mapping_init`. -/
def initLeaf (s : InitState L I M) : Option (InitState L I M) :=
  (s.m.root? s.i).bind fun node =>
    let leaf := s.m.nodes.next
    let m := { s.m with nodes := s.m.nodes.alloc (.leaf s.startBlkid fun _ => invalidPbid) }
    (m.addChild node s.j leaf).map fun m =>
      { s with m := m, j := s.j + 1, count := s.count + 1, startBlkid := (s.startBlkid + L) % 2 ^ 32 }

/-- The outer loop of `lbz_mapping_init`. -/
def initInternal (nrLeaf : ℕ) (s : InitState L I M) : Option (InitState L I M) :=
  if h : s.i < M then
    let m := { s.m with
      nodes := s.m.nodes.alloc (.internal 0 s.startBlkid fun _ => none)
      root := Function.update s.m.root ⟨s.i, h⟩ (some s.m.nodes.next) }
    (whileLoop (fun s => decide (s.j < I ∧ s.count < nrLeaf)) initLeaf I { s with m := m, j := 0 }).map
      fun s => { s with i := s.i + 1 }
  else none

/-- `lbz_mapping_init` -/
def mappingInit (L I M maxBlkid : ℕ) : Option (Mapping L I M) :=
  (whileLoop (fun s => decide (s.i < nrInternalNode L I maxBlkid))
    (initInternal (nrLeafNode L maxBlkid)) (nrInternalNode L I maxBlkid)
    ⟨⟨fun _ => none, maxBlkid, Heap.empty⟩, 0, 0, 0, 0⟩).map InitState.m

/-- The local variables of `lbz_mapping_destroy`, and the nodes it has freed. -/
structure DestroyState (L I M : ℕ) where
  m : Mapping L I M
  i : ℕ
  j : ℕ
  count : ℕ
  freed : List ℕ

/-- `__free_mapping_node`, of a node that is not free. -/
def DestroyState.freeNode (s : DestroyState L I M) (node : ℕ) : Option (DestroyState L I M) :=
  if (s.m.nodes.get node).isSome then
    some { s with m := { s.m with nodes := s.m.nodes.free node }, freed := node :: s.freed }
  else none

/-- The inner loop of `lbz_mapping_destroy`. -/
def destroyLeaf (s : DestroyState L I M) : Option (DestroyState L I M) :=
  ((s.m.root? s.i).bind fun node => s.m.child? node s.j).bind fun leaf =>
    (s.freeNode leaf).map fun s => { s with j := s.j + 1, count := s.count + 1 }

/-- The outer loop of `lbz_mapping_destroy`. -/
def destroyInternal (nrLeaf : ℕ) (s : DestroyState L I M) : Option (DestroyState L I M) :=
  (whileLoop (fun s => decide (s.j < I ∧ s.count < nrLeaf)) destroyLeaf I { s with j := 0 }).bind
    fun s => (s.m.root? s.i).bind fun node => (s.freeNode node).map fun s => { s with i := s.i + 1 }

/-- `lbz_mapping_destroy`: the pages that are left, and the nodes freed. -/
def mappingDestroy (m : Mapping L I M) : Option (Mapping L I M × List ℕ) :=
  (whileLoop (fun s => decide (s.i < nrInternalNode L I m.maxBlkid))
    (destroyInternal (nrLeafNode L m.maxBlkid)) (nrInternalNode L I m.maxBlkid)
    ⟨m, 0, 0, 0, []⟩).map fun s => (s.m, s.freed)

/-! ## Where the nodes are -/

/-- The id of the internal node `i` for `r = 0`, and of its leaf `j` for `r = j + 1`, when
`lbz_mapping_init` has allocated them in its order. -/
def nodeId (I i r : ℕ) : ℕ := i * (I + 1) + r

theorem nodeId_inj {i i' r r' : ℕ} (hr : r ≤ I) (hr' : r' ≤ I)
    (h : nodeId I i r = nodeId I i' r') : i = i' ∧ r = r' := by
  have hdiv : ∀ {i r}, r ≤ I → nodeId I i r / (I + 1) = i ∧ nodeId I i r % (I + 1) = r := by
    intro i r hr
    rw [nodeId, Nat.mul_comm, Nat.mul_add_div (Nat.succ_pos I), Nat.mul_add_mod,
      Nat.div_eq_of_lt (by omega), Nat.mod_eq_of_lt (by omega)]
    exact ⟨rfl, rfl⟩
  obtain ⟨h1, h2⟩ := hdiv (i := i) hr
  obtain ⟨h3, h4⟩ := hdiv (i := i') hr'
  rw [h] at h1 h2
  exact ⟨h1.symm.trans h3, h2.symm.trans h4⟩

theorem nodeId_ne_of_lt {i i' r r' : ℕ} (hr : r ≤ I) (hr' : r' ≤ I) (hi : i < i') :
    nodeId I i r ≠ nodeId I i' r' := fun h => hi.ne (nodeId_inj hr hr' h).1

theorem lt_ceil_iff {n d k : ℕ} (hd : 0 < d) : k < (n + d - 1) / d ↔ k * d < n := by
  rw [← Nat.succ_le_iff, Nat.le_div_iff_mul_le hd, Nat.succ_mul]
  omega

/-- An internal node is needed for each `I` leaves. -/
theorem lt_nrInternalNode_iff (hL : 0 < L) (hI : 0 < I) {n i : ℕ} :
    i < nrInternalNode L I n ↔ i * I < nrLeafNode L n := by
  rw [nrInternalNode, nrLeafNode, lt_ceil_iff (Nat.mul_pos hL hI), lt_ceil_iff hL, Nat.mul_assoc,
    Nat.mul_comm I]

/-- The internal node `i` with its first `k` leaves. -/
structure Row (m : Mapping L I M) (i k : ℕ) : Prop where
  root : m.root? i = some (nodeId I i 0)
  node : ∃ e b childern, m.nodes.get (nodeId I i 0) = some (.internal e b childern)
  child : ∀ j < k, m.child? (nodeId I i 0) j = some (nodeId I i (j + 1))
  leaf : ∀ j < k, ∃ b pbids, m.nodes.get (nodeId I i (j + 1)) = some (.leaf b pbids)

theorem child?_of_get {m : Mapping L I M} {node e b j : ℕ} {childern : Fin I → Option ℕ}
    (h : m.nodes.get node = some (.internal e b childern)) (hj : j < I) :
    m.child? node j = childern ⟨j, hj⟩ := by
  rw [Mapping.child?, h]
  exact dif_pos hj

theorem pbid?_of_get {m : Mapping L I M} {leaf b index : ℕ} {pbids : Fin L → ℕ}
    (h : m.nodes.get leaf = some (.leaf b pbids)) (hi : index < L) :
    m.pbid? leaf index = some (pbids ⟨index, hi⟩) := by
  simp only [Mapping.pbid?, h, dif_pos hi]

theorem child?_congr {m m' : Mapping L I M} {node : ℕ} (h : m'.nodes.get node = m.nodes.get node)
    (j : ℕ) : m'.child? node j = m.child? node j := by
  rw [Mapping.child?, Mapping.child?, h]

/-- The nodes of a row are what they were. -/
theorem Row.congr {m m' : Mapping L I M} {i k : ℕ} (h : Row m i k) (hr : m'.root? i = m.root? i)
    (hn : ∀ r ≤ k, m'.nodes.get (nodeId I i r) = m.nodes.get (nodeId I i r)) : Row m' i k := by
  refine ⟨hr.trans h.root, ?_, fun j hj => ?_, fun j hj => ?_⟩
  · rw [hn 0 (Nat.zero_le k)]
    exact h.node
  · rw [child?_congr (hn 0 (Nat.zero_le k))]
    exact h.child j hj
  · rw [hn (j + 1) hj]
    exact h.leaf j hj

/-- The number of leaves of the internal node `i`, of `n` leaves in all. -/
def rowLeaves (I n i : ℕ) : ℕ := min I (n - i * I)

theorem rowLeaves_le (I n i : ℕ) : rowLeaves I n i ≤ I := Nat.min_le_left _ _

/-- No block is mapped. -/
def AllInvalid (m : Mapping L I M) : Prop :=
  ∀ id b pbids, m.nodes.get id = some (.leaf b pbids) → ∀ k, pbids k = invalidPbid

/-! ## `lbz_mapping_init` -/

section

variable {n i : ℕ}

/-- In the inner loop, at internal node `i` of a tree with `n` leaves. -/
structure LeavesInv (n i maxBlkid : ℕ) (s : InitState L I M) : Prop where
  idx : s.i = i
  rows : ∀ i' < i, Row s.m i' (rowLeaves I n i')
  row : Row s.m i s.j
  count : s.count = i * I + s.j
  le : s.j ≤ I ∧ s.count ≤ n
  next : s.m.nodes.next = nodeId I i (s.j + 1)
  fresh : AllInvalid s.m
  maxBlkid : s.m.maxBlkid = maxBlkid

theorem LeavesInv.step {maxBlkid : ℕ} {s : InitState L I M} (a : LeavesInv n i maxBlkid s)
    (hj : s.j < I) (hc : s.count < n) :
    ∃ s', initLeaf s = some s' ∧ LeavesInv n i maxBlkid s' ∧ s'.j = s.j + 1 := by
  obtain ⟨rfl, rows, row, count, le, next, fresh, hmax⟩ := a
  obtain ⟨e, b, childern, hnode⟩ := row.node
  -- the pages after the allocation, and after the link to the new leaf
  set leaf : Node L I := .leaf s.startBlkid fun _ => invalidPbid with hleaf
  set node' : Node L I := .internal (e + 1) b
    (Function.update childern ⟨s.j, hj⟩ (some s.m.nodes.next)) with hnode'
  have hne : nodeId I s.i 0 ≠ s.m.nodes.next := by
    rw [next]
    exact fun h => absurd (nodeId_inj (Nat.zero_le I) hj h).2 nofun
  have hnode₁ : (s.m.nodes.alloc leaf).get (nodeId I s.i 0) = some (.internal e b childern) := by
    rw [Heap.get_alloc, if_neg hne, hnode]
  have hadd : Mapping.addChild { s.m with nodes := s.m.nodes.alloc leaf } (nodeId I s.i 0) s.j
      s.m.nodes.next = some { s.m with
        nodes := (s.m.nodes.alloc leaf).modify (nodeId I s.i 0) fun _ => node' } := by
    rw [Mapping.addChild, hnode₁]
    exact dif_pos hj
  have hget : ∀ id, ((s.m.nodes.alloc leaf).modify (nodeId I s.i 0) fun _ => node').get id =
      if id = nodeId I s.i 0 then some node' else if id = s.m.nodes.next then some leaf
      else s.m.nodes.get id := fun id => by
    rw [Heap.get_modify]
    by_cases h : id = nodeId I s.i 0
    · rw [if_pos h, if_pos h, h, hnode₁]
      rfl
    · rw [if_neg h, if_neg h, Heap.get_alloc]
  have hstep : initLeaf s = some { s with
      m := { s.m with nodes := (s.m.nodes.alloc leaf).modify (nodeId I s.i 0) fun _ => node' }
      j := s.j + 1, count := s.count + 1, startBlkid := (s.startBlkid + L) % 2 ^ 32 } := by
    rw [initLeaf, row.root, Option.bind_some]
    exact congrArg (Option.map _) hadd
  refine ⟨_, hstep, ⟨rfl, fun i' hi' => ?_, ?_, ?_, ?_, ?_, ?_, hmax⟩, rfl⟩
  · -- the earlier rows
    refine (rows i' hi').congr rfl fun r hr => ?_
    have hrI := hr.trans (rowLeaves_le I n i')
    change Heap.get _ _ = _
    rw [hget, if_neg (nodeId_ne_of_lt hrI (Nat.zero_le I) hi'), if_neg]
    rw [next]
    exact nodeId_ne_of_lt hrI hj hi'
  · have hold : ∀ j < s.j, nodeId I s.i (j + 1) ≠ nodeId I s.i 0 ∧
        nodeId I s.i (j + 1) ≠ s.m.nodes.next := fun j hlt => by
      rw [next]
      exact ⟨fun h => absurd (nodeId_inj (by omega) (Nat.zero_le I) h).2 nofun,
        fun h => by have := (nodeId_inj (by omega) hj h).2; omega⟩
    have hself : ((s.m.nodes.alloc leaf).modify (nodeId I s.i 0) fun _ => node').get
        (nodeId I s.i 0) = some node' := by rw [hget, if_pos rfl]
    refine ⟨row.root, ⟨_, _, _, hself⟩, fun j hlt => ?_, fun j hlt => ?_⟩
    · change j < s.j + 1 at hlt
      rw [child?_of_get hself (by omega)]
      by_cases hjj : j = s.j
      · subst hjj
        rw [Function.update_self, next]
      · rw [Function.update_of_ne fun h => hjj (congrArg Fin.val h),
          ← child?_of_get hnode (by omega)]
        exact row.child j (by omega)
    · change j < s.j + 1 at hlt
      rw [hget]
      by_cases hjj : j = s.j
      · subst hjj
        rw [← next, if_neg hne.symm, if_pos rfl]
        exact ⟨_, _, rfl⟩
      · have h := hold j (by omega)
        rw [if_neg h.1, if_neg h.2]
        exact row.leaf j (by omega)
  · change s.count + 1 = s.i * I + (s.j + 1)
    omega
  · change s.j + 1 ≤ I ∧ s.count + 1 ≤ n
    omega
  · change Heap.next _ = nodeId I s.i (s.j + 1 + 1)
    rw [Heap.next_modify, Heap.next_alloc, next]
    rfl
  · intro id b' pbids hid
    change Heap.get _ _ = _ at hid
    rw [hget] at hid
    split_ifs at hid with h1 h2
    · rw [hnode'] at hid
      cases hid
    · rw [hleaf] at hid
      cases hid
      exact fun _ => rfl
    · exact fresh id b' pbids hid

/-- In the outer loop of a tree with `n` leaves. -/
structure InitInv (n maxBlkid : ℕ) (s : InitState L I M) : Prop where
  rows : ∀ i < s.i, Row s.m i (rowLeaves I n i)
  count : s.count = min (s.i * I) n
  next : s.m.nodes.next = s.i + s.count
  fresh : AllInvalid s.m
  maxBlkid : s.m.maxBlkid = maxBlkid

theorem InitInv.step {maxBlkid : ℕ} {s : InitState L I M} (a : InitInv n maxBlkid s)
    (hM : s.i < M) (hi : s.i * I < n) :
    ∃ s', initInternal n s = some s' ∧ InitInv n maxBlkid s' ∧ s'.i = s.i + 1 := by
  have hcount : s.count = s.i * I := by
    rw [a.count]
    exact Nat.min_eq_left hi.le
  have hid : s.m.nodes.next = nodeId I s.i 0 := by
    rw [a.next, hcount, nodeId]
    ring
  set m₁ : Mapping L I M := { s.m with
    nodes := s.m.nodes.alloc (.internal 0 s.startBlkid fun _ => none)
    root := Function.update s.m.root ⟨s.i, hM⟩ (some s.m.nodes.next) } with hm₁
  have hroot : ∀ i', m₁.root? i' = if i' = s.i then some s.m.nodes.next else s.m.root? i' := by
    intro i'
    rw [Mapping.root?, Mapping.root?]
    by_cases h : i' = s.i
    · subst h
      rw [dif_pos hM, if_pos rfl]
      exact Function.update_self ..
    · rw [if_neg h]
      by_cases hlt : i' < M
      · rw [dif_pos hlt, dif_pos hlt]
        exact Function.update_of_ne (fun e => h (congrArg Fin.val e)) ..
      · rw [dif_neg hlt, dif_neg hlt]
  have hinner : LeavesInv n s.i maxBlkid { s with m := m₁, j := 0 } := by
    refine ⟨rfl, fun i' hi' => ?_, ⟨?_, ?_, nofun, nofun⟩, hcount, ⟨Nat.zero_le I, ?_⟩, ?_, ?_,
      a.maxBlkid⟩
    · refine (a.rows i' hi').congr ((hroot i').trans (if_neg hi'.ne)) fun r hr => ?_
      change Heap.get (Heap.alloc _ _) _ = _
      rw [Heap.get_alloc, if_neg]
      rw [hid]
      exact nodeId_ne_of_lt (hr.trans (rowLeaves_le I n i')) (Nat.zero_le I) hi'
    · rw [hroot, if_pos rfl, hid]
    · refine ⟨0, s.startBlkid, fun _ => none, ?_⟩
      change Heap.get (Heap.alloc _ _) _ = _
      rw [Heap.get_alloc, if_pos hid.symm]
    · change s.count ≤ n
      omega
    · change Heap.next (Heap.alloc _ _) = _
      rw [Heap.next_alloc, hid]
      rfl
    · intro id b pbids hget
      change Heap.get (Heap.alloc _ _) _ = _ at hget
      rw [Heap.get_alloc] at hget
      split_ifs at hget
      · cases hget
      · exact a.fresh id b pbids hget
  obtain ⟨s', h1, h2, h3⟩ := whileLoop_spec (b := fun s : InitState L I M =>
      decide (s.j < I ∧ s.count < n)) (f := initLeaf) (P := LeavesInv n s.i maxBlkid)
    (fun s => I - s.j) (fun s' hs' hb => by
      obtain ⟨hj, hc⟩ := of_decide_eq_true hb
      obtain ⟨s'', h1, h2, h3⟩ := hs'.step hj hc
      exact ⟨s'', h1, h2, by omega⟩) hinner (n := I) (Nat.sub_le I 0)
  have hend := of_decide_eq_false h3
  have hj : s'.j = rowLeaves I n s.i := by
    have h4 := h2.count
    have h5 := h2.le
    rw [rowLeaves]
    omega
  refine ⟨{ s' with i := s'.i + 1 }, ?_, ⟨fun i' hi' => ?_, ?_, ?_, h2.fresh, h2.maxBlkid⟩, ?_⟩
  · rw [initInternal, dif_pos hM]
    exact congrArg (Option.map _) h1
  · change i' < s'.i + 1 at hi'
    rw [h2.idx] at hi'
    by_cases hlast : i' = s.i
    · subst hlast
      rw [← hj]
      exact h2.row
    · exact h2.rows i' (by omega)
  · change s'.count = min ((s'.i + 1) * I) n
    have h4 := h2.count
    have h5 := h2.le
    rw [h2.idx, Nat.add_mul, Nat.one_mul]
    omega
  · change s'.m.nodes.next = s'.i + 1 + s'.count
    rw [h2.next, h2.count, h2.idx, nodeId]
    ring
  · change s'.i + 1 = s.i + 1
    rw [h2.idx]

end

/-- The tree of `lbz_mapping_init`, whatever is mapped in it. -/
structure Built (m : Mapping L I M) : Prop where
  rows : ∀ i < nrInternalNode L I m.maxBlkid, Row m i (rowLeaves I (nrLeafNode L m.maxBlkid) i)
  next : m.nodes.next = nrInternalNode L I m.maxBlkid + nrLeafNode L m.maxBlkid

/-- **`lbz_mapping_init` builds the tree**, with no block mapped. -/
theorem mappingInit_spec {maxBlkid : ℕ} (hL : 0 < L) (hI : 0 < I)
    (hM : nrInternalNode L I maxBlkid ≤ M) : ∃ m, mappingInit L I M maxBlkid = some m ∧ Built m ∧
      m.maxBlkid = maxBlkid ∧ AllInvalid m := by
  have hstart : InitInv (L := L) (I := I) (M := M) (nrLeafNode L maxBlkid) maxBlkid
      ⟨⟨fun _ => none, maxBlkid, Heap.empty⟩, 0, 0, 0, 0⟩ := by
    refine ⟨nofun, ?_, rfl, fun id b pbids h => ?_, rfl⟩
    · rw [Nat.zero_mul, Nat.zero_min]
    · change Heap.get Heap.empty id = _ at h
      rw [Heap.get_empty] at h
      cases h
  obtain ⟨s, h1, ⟨h2, h3⟩, h4⟩ := whileLoop_spec (b := fun s : InitState L I M =>
      decide (s.i < nrInternalNode L I maxBlkid)) (f := initInternal (nrLeafNode L maxBlkid))
    (P := fun s => InitInv (nrLeafNode L maxBlkid) maxBlkid s ∧
      s.i ≤ nrInternalNode L I maxBlkid) (fun s => nrInternalNode L I maxBlkid - s.i)
    (fun s hs hb => by
      have hlt := of_decide_eq_true hb
      obtain ⟨s', h1, h2, h3⟩ := hs.1.step (by omega) ((lt_nrInternalNode_iff hL hI).mp hlt)
      exact ⟨s', h1, ⟨h2, by omega⟩, by omega⟩) ⟨hstart, Nat.zero_le _⟩
    (n := nrInternalNode L I maxBlkid) (Nat.sub_le _ _)
  have hi : s.i = nrInternalNode L I maxBlkid := by
    have := of_decide_eq_false h4
    omega
  have hcount : s.count = nrLeafNode L maxBlkid := by
    rw [h2.count, hi]
    refine Nat.min_eq_right (not_lt.mp fun h => ?_)
    exact lt_irrefl _ ((lt_nrInternalNode_iff hL hI).mpr h)
  refine ⟨s.m, by rw [mappingInit, h1]; rfl, ⟨?_, ?_⟩, h2.maxBlkid, h2.fresh⟩
  · rw [h2.maxBlkid, ← hi]
    exact h2.rows
  · rw [h2.maxBlkid, h2.next, hi, hcount]

/-! ## The operations -/

section

variable {m : Mapping L I M} {blkid : ℕ}

/-- The slot of a block. -/
def Mapping.entry (m : Mapping L I M) (blkid : ℕ) : Option ℕ :=
  (findSpecificNode m blkid).bind fun slot => m.pbid? slot.1 slot.2

/-- **`__find_specific_node` finds a leaf and a slot** of each block. -/
theorem findSpecificNode_eq (hL : 0 < L) (hI : 0 < I) (a : Built m) (hb : blkid < m.maxBlkid) :
    findSpecificNode m blkid =
      some (nodeId I (blkid / (L * I)) (blkid / L % I + 1), blkid % L) ∧
    ∃ b pbids, m.nodes.get (nodeId I (blkid / (L * I)) (blkid / L % I + 1)) =
      some (.leaf b pbids) := by
  have hi : blkid / (L * I) < nrInternalNode L I m.maxBlkid := by
    rw [nrInternalNode, lt_ceil_iff (Nat.mul_pos hL hI)]
    exact (Nat.div_mul_le_self _ _).trans_lt hb
  have hk : blkid / L < nrLeafNode L m.maxBlkid := by
    rw [nrLeafNode, lt_ceil_iff hL]
    exact (Nat.div_mul_le_self _ _).trans_lt hb
  have hj : blkid / L % I < rowLeaves I (nrLeafNode L m.maxBlkid) (blkid / (L * I)) := by
    have h1 := Nat.mod_lt (blkid / L) hI
    have h2 := Nat.div_add_mod (blkid / L) I
    rw [Nat.div_div_eq_div_mul, Nat.mul_comm] at h2
    rw [rowLeaves]
    omega
  have row := a.rows _ hi
  refine ⟨?_, row.leaf _ hj⟩
  rw [findSpecificNode, if_neg (not_le.mpr hb)]
  simp only [row.root, Option.bind_some, row.child _ hj, Option.map_some]

/-- No two blocks share a slot. -/
theorem slot_inj (hI : 0 < I) {b b' : ℕ}
    (h : (nodeId I (b / (L * I)) (b / L % I + 1), b % L) =
      (nodeId I (b' / (L * I)) (b' / L % I + 1), b' % L)) : b = b' := by
  obtain ⟨h1, h2⟩ := Prod.mk.inj h
  obtain ⟨h3, h4⟩ := nodeId_inj (Nat.mod_lt _ hI) (Nat.mod_lt _ hI) h1
  rw [← Nat.div_div_eq_div_mul, ← Nat.div_div_eq_div_mul] at h3
  have h5 : b / L = b' / L := by
    rw [← Nat.div_add_mod (b / L) I, h3, Nat.succ_injective h4, Nat.div_add_mod]
  rw [← Nat.div_add_mod b L, h5, h2, Nat.div_add_mod]

theorem entry_eq (hL : 0 < L) (hI : 0 < I) (a : Built m) (hb : blkid < m.maxBlkid) :
    ∃ b pbids, m.nodes.get (nodeId I (blkid / (L * I)) (blkid / L % I + 1)) =
      some (.leaf b pbids) ∧ m.entry blkid = some (pbids ⟨blkid % L, Nat.mod_lt _ hL⟩) := by
  obtain ⟨h1, b, pbids, h2⟩ := findSpecificNode_eq hL hI a hb
  refine ⟨b, pbids, h2, ?_⟩
  rw [Mapping.entry, h1, Option.bind_some]
  exact pbid?_of_get h2 (Nat.mod_lt _ hL)

variable {leaf index pbid : ℕ}

theorem child?_setPbid (node j : ℕ) :
    (m.setPbid leaf index pbid).child? node j = m.child? node j := by
  have hget : (m.setPbid leaf index pbid).nodes.get node =
      if node = leaf then (m.nodes.get node).map (Node.setPbid index pbid) else m.nodes.get node :=
    Heap.get_modify ..
  by_cases h : node = leaf
  · rw [if_pos h] at hget
    cases hx : m.nodes.get node with
    | none => simp only [Mapping.child?, hget, hx, Option.map_none]
    | some x => cases x <;> simp only [Mapping.child?, hget, hx, Option.map_some, Node.setPbid]
  · rw [if_neg h] at hget
    exact child?_congr hget j

theorem findSpecificNode_setPbid (b : ℕ) :
    findSpecificNode (m.setPbid leaf index pbid) b = findSpecificNode m b := by
  simp only [findSpecificNode, child?_setPbid]
  rfl

theorem Built.setPbid (a : Built m) : Built (m.setPbid leaf index pbid) := by
  refine ⟨fun i hi => ?_, ?_⟩
  · obtain ⟨h1, ⟨e, b, childern, h2⟩, h3, h4⟩ := a.rows i hi
    refine ⟨h1, ⟨e, b, childern, ?_⟩, fun j hj => (child?_setPbid ..).trans (h3 j hj),
      fun j hj => ?_⟩
    · rw [Mapping.setPbid, Heap.get_modify, h2]
      split_ifs <;> rfl
    · obtain ⟨b, pbids, h⟩ := h4 j hj
      rw [Mapping.setPbid, Heap.get_modify, h]
      split_ifs
      · exact ⟨b, _, rfl⟩
      · exact ⟨b, pbids, rfl⟩
  · exact (Heap.next_modify ..).trans a.next

/-- **`lbz_mapping_add` and `lbz_mapping_remove`** change one slot and return what it held. -/
theorem mappingSet_spec (hL : 0 < L) (hI : 0 < I) (a : Built m) (hb : blkid < m.maxBlkid)
    (pbid : ℕ) : ∃ m' old, mappingSet m blkid pbid = some (m', old) ∧ Built m' ∧
      m'.maxBlkid = m.maxBlkid ∧ m.entry blkid = some old ∧
      ∀ b < m.maxBlkid, m'.entry b = if b = blkid then some pbid else m.entry b := by
  obtain ⟨h1, -⟩ := findSpecificNode_eq hL hI a hb
  obtain ⟨k, pbids, h2, h3⟩ := entry_eq hL hI a hb
  refine ⟨m.setPbid (nodeId I (blkid / (L * I)) (blkid / L % I + 1)) (blkid % L) pbid,
    pbids ⟨blkid % L, Nat.mod_lt _ hL⟩, ?_, a.setPbid, rfl, h3, fun b hbm => ?_⟩
  · simp only [mappingSet, h1, Option.bind_some, pbid?_of_get h2 (Nat.mod_lt blkid hL),
      Option.map_some]
  · obtain ⟨h5, k', pbids', h6⟩ := findSpecificNode_eq hL hI a hbm
    have hget := Heap.get_modify m.nodes (nodeId I (blkid / (L * I)) (blkid / L % I + 1))
      (nodeId I (b / (L * I)) (b / L % I + 1)) (Node.setPbid (blkid % L) pbid)
    rw [Mapping.entry, Mapping.entry, findSpecificNode_setPbid, h5, Option.bind_some,
      Option.bind_some, pbid?_of_get h6 (Nat.mod_lt b hL)]
    rw [h6] at hget
    by_cases hleaf : nodeId I (b / (L * I)) (b / L % I + 1) =
        nodeId I (blkid / (L * I)) (blkid / L % I + 1)
    · rw [if_pos hleaf] at hget
      rw [pbid?_of_get hget (Nat.mod_lt b hL)]
      by_cases hidx : b % L = blkid % L
      · rw [if_pos (slot_inj hI (Prod.ext hleaf hidx))]
        exact congrArg some (if_pos hidx)
      · rw [if_neg fun (e : b = blkid) => hidx (by rw [e])]
        exact congrArg some (if_neg hidx)
    · rw [if_neg hleaf] at hget
      rw [pbid?_of_get hget (Nat.mod_lt b hL), if_neg fun (e : b = blkid) => hleaf (by rw [e])]

end

/-! ## The finite map -/

/-- A call of one of the three functions. -/
inductive MapOp
  | add (blkid pbid : ℕ)
  | remove (blkid : ℕ)
  | lookup (blkid : ℕ)

/-- What the call returns: the previous word, or the block address. -/
inductive MapRet
  | old (pbid : ℕ)
  | found (pbid : Option ℕ)
deriving DecidableEq

def MapOp.blkid : MapOp → ℕ
  | .add b _ | .remove b | .lookup b => b

/-- A block address as a word. -/
def pbidWord (p : Option ℕ) : ℕ := p.getD invalidPbid

/-- A word as a block address. -/
def wordPbid (pbid : ℕ) : Option ℕ := if pbid = invalidPbid then none else some pbid

/-- The call on the tree. -/
def MapOp.run (m : Mapping L I M) : MapOp → Option (Mapping L I M × MapRet)
  | .add b p => (mappingAdd m b p).map fun r => (r.1, .old r.2)
  | .remove b => (mappingRemove m b).map fun r => (r.1, .old r.2)
  | .lookup b => (mappingLookup m b).map fun r => (m, .found r)

/-- The call on a finite map. -/
def MapOp.spec (f : ℕ → Option ℕ) : MapOp → (ℕ → Option ℕ) × MapRet
  | .add b p => (Function.update f b (wordPbid p), .old (pbidWord (f b)))
  | .remove b => (Function.update f b none, .old (pbidWord (f b)))
  | .lookup b => (f, .found (f b))

/-- The calls one after another. -/
def runOps (m : Mapping L I M) : List MapOp → Option (Mapping L I M × List MapRet)
  | [] => some (m, [])
  | op :: l => (op.run m).bind fun r => (runOps r.1 l).map fun r' => (r'.1, r.2 :: r'.2)

def specOps (f : ℕ → Option ℕ) : List MapOp → (ℕ → Option ℕ) × List MapRet
  | [] => (f, [])
  | op :: l => ((specOps (op.spec f).1 l).1, (op.spec f).2 :: (specOps (op.spec f).1 l).2)

/-- The tree stores `f`. -/
structure Stores (m : Mapping L I M) (f : ℕ → Option ℕ) : Prop where
  built : Built m
  word : ∀ b < m.maxBlkid, m.entry b = some (pbidWord (f b))
  valid : ∀ b, f b ≠ some invalidPbid

theorem wordPbid_pbidWord {p : Option ℕ} (h : p ≠ some invalidPbid) : wordPbid (pbidWord p) = p := by
  cases p with
  | none => exact if_pos rfl
  | some p => exact if_neg fun e => h (congrArg some e)

theorem pbidWord_wordPbid (pbid : ℕ) : pbidWord (wordPbid pbid) = pbid := by
  rw [wordPbid]
  split_ifs with h
  · exact h.symm
  · rfl

theorem wordPbid_ne (pbid : ℕ) : wordPbid pbid ≠ some invalidPbid := by
  rw [wordPbid]
  split_ifs with h
  · nofun
  · exact fun e => h (Option.some.inj e)

section

variable {m : Mapping L I M} {f : ℕ → Option ℕ}

theorem Stores.set (hL : 0 < L) (hI : 0 < I) (a : Stores m f) {b : ℕ} (hb : b < m.maxBlkid)
    (pbid : ℕ) : ∃ m', mappingSet m b pbid = some (m', pbidWord (f b)) ∧
      Stores m' (Function.update f b (wordPbid pbid)) ∧ m'.maxBlkid = m.maxBlkid := by
  obtain ⟨m', old, h1, h2, h3, h4, h5⟩ := mappingSet_spec hL hI a.built hb pbid
  have hold : old = pbidWord (f b) := Option.some.inj (h4.symm.trans (a.word b hb))
  refine ⟨m', hold ▸ h1, ⟨h2, fun b' hb' => ?_, fun b' => ?_⟩, h3⟩
  · rw [h3] at hb'
    rw [h5 b' hb', Function.update_apply]
    split_ifs
    · rw [pbidWord_wordPbid]
    · exact a.word b' hb'
  · rw [Function.update_apply]
    split_ifs
    · exact wordPbid_ne pbid
    · exact a.valid b'

/-- **Each call does what it does on a finite map.** -/
theorem Stores.run (hL : 0 < L) (hI : 0 < I) (a : Stores m f) {op : MapOp}
    (hb : op.blkid < m.maxBlkid) : ∃ m', op.run m = some (m', (op.spec f).2) ∧
      Stores m' (op.spec f).1 ∧ m'.maxBlkid = m.maxBlkid := by
  cases op with
  | add b p =>
    obtain ⟨m', h1, h2⟩ := a.set (b := b) hL hI hb p
    refine ⟨m', ?_, h2⟩
    rw [MapOp.run, mappingAdd, h1]
    rfl
  | remove b =>
    obtain ⟨m', h1, h2⟩ := a.set (b := b) hL hI hb invalidPbid
    refine ⟨m', ?_, h2⟩
    rw [MapOp.run, mappingRemove, h1]
    rfl
  | lookup b =>
    refine ⟨m, ?_, a, rfl⟩
    have hw := a.word b hb
    rw [Mapping.entry] at hw
    obtain ⟨slot, h1, h2⟩ := Option.bind_eq_some_iff.mp hw
    rw [MapOp.run, mappingLookup, h1, Option.bind_some, h2]
    exact congrArg (fun p => some (m, MapRet.found p)) (wordPbid_pbidWord (a.valid b))

theorem Stores.runOps (hL : 0 < L) (hI : 0 < I) (a : Stores m f) {ops : List MapOp}
    (hb : ∀ op ∈ ops, op.blkid < m.maxBlkid) : ∃ m', runOps m ops = some (m', (specOps f ops).2) ∧
      Stores m' (specOps f ops).1 ∧ m'.maxBlkid = m.maxBlkid := by
  induction ops generalizing m f with
  | nil => exact ⟨m, rfl, a, rfl⟩
  | cons op l ih =>
    obtain ⟨m₁, h1, h2, h3⟩ := a.run hL hI (hb op List.mem_cons_self)
    obtain ⟨m', h4, h5, h6⟩ := ih h2 fun op' h => h3 ▸ hb op' (List.mem_cons_of_mem _ h)
    refine ⟨m', ?_, h5, h6.trans h3⟩
    rw [Lbz.runOps, h1, Option.bind_some, h4]
    rfl

end

/-! ## `lbz_mapping_destroy` -/

section

variable {n i : ℕ}

/-- The nodes freed are those that are gone, and none is freed twice. -/
structure Ledger (s : DestroyState L I M) : Prop where
  nodup : s.freed.Nodup
  mem : ∀ id, id ∈ s.freed ↔ id < s.m.nodes.next ∧ s.m.nodes.get id = none

theorem Ledger.free {s : DestroyState L I M} (a : Ledger s) {id : ℕ}
    (h : (s.m.nodes.get id).isSome) : ∃ s', s.freeNode id = some s' ∧ Ledger s' ∧
      s'.m = { s.m with nodes := s.m.nodes.free id } ∧ s'.i = s.i ∧ s'.j = s.j ∧
      s'.count = s.count := by
  refine ⟨_, if_pos h, ⟨List.nodup_cons.mpr ⟨fun hm => ?_, a.nodup⟩, fun id' => ?_⟩, rfl, rfl, rfl,
    rfl⟩
  · rw [((a.mem id).mp hm).2] at h
    cases h
  · change id' ∈ id :: s.freed ↔ id' < (s.m.nodes.free id).next ∧ (s.m.nodes.free id).get id' = none
    rw [List.mem_cons, a.mem, Heap.next_free, Heap.get_free]
    by_cases he : id' = id
    · obtain ⟨x, hx⟩ := Option.isSome_iff_exists.mp h
      rw [if_pos he, he]
      exact iff_of_true (Or.inl rfl) ⟨Heap.lt_next_of_get hx, rfl⟩
    · rw [if_neg he]
      exact or_iff_right he

/-- In the inner loop, at internal node `i` of a tree with `n` leaves. -/
structure FreeLeavesInv (n i : ℕ) (s : DestroyState L I M) : Prop where
  ledger : Ledger s
  idx : s.i = i
  root : s.m.root? i = some (nodeId I i 0)
  node : ∃ e b childern, s.m.nodes.get (nodeId I i 0) = some (.internal e b childern)
  child : ∀ j < rowLeaves I n i, s.m.child? (nodeId I i 0) j = some (nodeId I i (j + 1))
  leaf : ∀ j, s.j ≤ j → j < rowLeaves I n i → (s.m.nodes.get (nodeId I i (j + 1))).isSome
  gone : ∀ j < s.j, s.m.nodes.get (nodeId I i (j + 1)) = none
  count : s.count = i * I + s.j
  le : s.j ≤ rowLeaves I n i
  later : ∀ i', i < i' → i' * I < n → Row s.m i' (rowLeaves I n i')
  earlier : ∀ i' < i, ∀ r ≤ rowLeaves I n i', s.m.nodes.get (nodeId I i' r) = none

theorem FreeLeavesInv.step {s : DestroyState L I M} (a : FreeLeavesInv n i s) (hj : s.j < I)
    (hc : s.count < n) : ∃ s', destroyLeaf s = some s' ∧ FreeLeavesInv n i s' ∧
      s'.j = s.j + 1 ∧ s'.m.nodes.next = s.m.nodes.next := by
  obtain ⟨ledger, rfl, root, node, child, leaf, gone, count, le, later, earlier⟩ := a
  have hlt : s.j < rowLeaves I n s.i := by
    rw [rowLeaves]
    omega
  have hle := rowLeaves_le I n s.i
  obtain ⟨s₁, h1, h2, h3, h4, h5, h6⟩ := ledger.free (leaf s.j le_rfl hlt)
  have hget : ∀ id, s₁.m.nodes.get id =
      if id = nodeId I s.i (s.j + 1) then none else s.m.nodes.get id := fun id => by
    rw [h3]
    exact Heap.get_free ..
  have hnode : s₁.m.nodes.get (nodeId I s.i 0) = s.m.nodes.get (nodeId I s.i 0) := by
    rw [hget, if_neg fun h => absurd (nodeId_inj (Nat.zero_le I) hj h).2 nofun]
  have hroot : ∀ i', s₁.m.root? i' = s.m.root? i' := fun i' => by rw [h3]; rfl
  refine ⟨{ s₁ with j := s₁.j + 1, count := s₁.count + 1 }, ?_, ⟨⟨h2.nodup, h2.mem⟩, h4,
    (hroot _).trans root, ?_, fun j hj' => (child?_congr hnode j).trans (child j hj'),
    fun j hj1 hj2 => ?_, fun j hj' => ?_, ?_, ?_, fun i' h7 h8 => ?_, fun i' h7 r h8 => ?_⟩, ?_, ?_⟩
  · rw [destroyLeaf, root, Option.bind_some, child s.j hlt, Option.bind_some, h1]
    rfl
  · obtain ⟨e, b, childern, h⟩ := node
    exact ⟨e, b, childern, hnode.trans h⟩
  · change s₁.j + 1 ≤ j at hj1
    rw [h5] at hj1
    change (s₁.m.nodes.get _).isSome
    rw [hget, if_neg fun h => by have := (nodeId_inj (by omega) hj h).2; omega]
    exact leaf j (by omega) hj2
  · change j < s₁.j + 1 at hj'
    rw [h5] at hj'
    change s₁.m.nodes.get _ = none
    rw [hget]
    split_ifs with h
    · rfl
    · exact gone j (by
        by_contra hge
        exact h (by rw [show j = s.j by omega]))
  · change s₁.count + 1 = s.i * I + (s₁.j + 1)
    omega
  · change s₁.j + 1 ≤ rowLeaves I n s.i
    omega
  · refine (later i' h7 h8).congr (hroot i') fun r hr => ?_
    change s₁.m.nodes.get _ = _
    rw [hget, if_neg fun h => absurd h.symm
      (nodeId_ne_of_lt hj (hr.trans (rowLeaves_le I n i')) h7)]
  · change s₁.m.nodes.get _ = none
    rw [hget]
    split_ifs
    · rfl
    · exact earlier i' h7 r h8
  · change s₁.j + 1 = s.j + 1
    rw [h5]
  · change s₁.m.nodes.next = _
    rw [h3]
    exact Heap.next_free ..

/-- In the outer loop of a tree with `n` leaves. -/
structure DestroyInv (n : ℕ) (s : DestroyState L I M) : Prop where
  ledger : Ledger s
  rows : ∀ i, s.i ≤ i → i * I < n → Row s.m i (rowLeaves I n i)
  gone : ∀ i < s.i, ∀ r ≤ rowLeaves I n i, s.m.nodes.get (nodeId I i r) = none
  count : s.count = min (s.i * I) n

theorem DestroyInv.step {s : DestroyState L I M} (a : DestroyInv n s) (hi : s.i * I < n) :
    ∃ s', destroyInternal n s = some s' ∧ DestroyInv n s' ∧ s'.i = s.i + 1 ∧
      s'.m.nodes.next = s.m.nodes.next := by
  have row := a.rows s.i le_rfl hi
  have hcount : s.count = s.i * I := by
    rw [a.count]
    exact Nat.min_eq_left hi.le
  have hinner : FreeLeavesInv n s.i { s with j := 0 } := by
    refine ⟨⟨a.ledger.nodup, a.ledger.mem⟩, rfl, row.root, row.node, row.child, fun j _ hj => ?_,
      nofun, hcount, Nat.zero_le _, fun i' h1 h2 => a.rows i' h1.le h2, a.gone⟩
    obtain ⟨b, pbids, h⟩ := row.leaf j hj
    exact Option.isSome_iff_exists.mpr ⟨_, h⟩
  obtain ⟨s₁, h1, ⟨h2, h3⟩, h4⟩ := whileLoop_spec (b := fun s : DestroyState L I M =>
      decide (s.j < I ∧ s.count < n)) (f := destroyLeaf)
    (P := fun t => FreeLeavesInv n s.i t ∧ t.m.nodes.next = s.m.nodes.next) (fun s => I - s.j)
    (fun t ht hb => by
      obtain ⟨hj, hc⟩ := of_decide_eq_true hb
      obtain ⟨t', h1, h2, h3, h4⟩ := ht.1.step hj hc
      exact ⟨t', h1, ⟨h2, h4.trans ht.2⟩, by omega⟩) ⟨hinner, rfl⟩ (n := I) (Nat.sub_le I 0)
  have hend := of_decide_eq_false h4
  have hj : s₁.j = rowLeaves I n s.i := by
    have h5 := h2.count
    have h6 := h2.le
    rw [rowLeaves] at h6 ⊢
    omega
  obtain ⟨e, b, childern, hnode⟩ := h2.node
  obtain ⟨s₂, h5, h6, h7, h8, h9, h10⟩ := @Ledger.free _ _ _ s₁ h2.ledger (nodeId I s.i 0) (by rw [hnode]; rfl)
  have hget : ∀ id, s₂.m.nodes.get id =
      if id = nodeId I s.i 0 then none else s₁.m.nodes.get id := fun id => by
    rw [h7]
    exact Heap.get_free ..
  have hidx : s₂.i = s.i := h8.trans h2.idx
  refine ⟨{ s₂ with i := s₂.i + 1 }, ?_, ⟨⟨h6.nodup, h6.mem⟩, fun i' h11 h12 => ?_,
    fun i' h11 r h12 => ?_, ?_⟩, ?_, ?_⟩
  · rw [destroyInternal, h1, Option.bind_some, h2.idx, h2.root, Option.bind_some, h5]
    rfl
  · change s₂.i + 1 ≤ i' at h11
    refine (h2.later i' (by omega) h12).congr (by rw [h7]; rfl) fun r hr => ?_
    change s₂.m.nodes.get _ = _
    rw [hget, if_neg fun h => absurd h.symm
      (nodeId_ne_of_lt (Nat.zero_le I) (hr.trans (rowLeaves_le I n i')) (by omega))]
  · change i' < s₂.i + 1 at h11
    change s₂.m.nodes.get _ = none
    rw [hget]
    split_ifs with h
    · rfl
    · by_cases hlast : i' = s.i
      · subst hlast
        cases r with
        | zero => exact absurd rfl h
        | succ r => exact h2.gone r (by omega)
      · exact h2.earlier i' (by omega) r h12
  · change s₂.count = min ((s₂.i + 1) * I) n
    have h11 := h2.count
    rw [h10, hidx, h11, hj, rowLeaves, Nat.add_mul, Nat.one_mul]
    omega
  · change s₂.i + 1 = s.i + 1
    rw [hidx]
  · change s₂.m.nodes.next = _
    rw [h7, ← h3]
    exact Heap.next_free ..

/-- Every node is in a row. -/
theorem exists_nodeId (hL : 0 < L) (hI : 0 < I) {maxBlkid id : ℕ}
    (h : id < nrInternalNode L I maxBlkid + nrLeafNode L maxBlkid) :
    ∃ i r, i < nrInternalNode L I maxBlkid ∧ r ≤ rowLeaves I (nrLeafNode L maxBlkid) i ∧
      id = nodeId I i r := by
  have hdm := Nat.div_add_mod id (I + 1)
  have hr := Nat.mod_lt id (Nat.succ_pos I)
  generalize id / (I + 1) = i at hdm
  generalize id % (I + 1) = r at hdm hr
  rw [Nat.mul_comm, Nat.mul_add, Nat.mul_one] at hdm
  have hi : i < nrInternalNode L I maxBlkid := by
    by_contra hge
    have h1 := (lt_nrInternalNode_iff (i := nrInternalNode L I maxBlkid) hL hI).not.mp (lt_irrefl _)
    have h2 := Nat.mul_le_mul_right I (not_lt.mp hge)
    omega
  refine ⟨i, r, hi, ?_, by rw [nodeId, Nat.mul_add, Nat.mul_one]; omega⟩
  rw [rowLeaves]
  have hrI : r ≤ I := Nat.lt_succ_iff.mp hr
  refine le_min hrI ?_
  by_contra hgt
  -- then the next row has leaves too
  have h1 : i + 1 < nrInternalNode L I maxBlkid := by omega
  have h2 := (lt_nrInternalNode_iff hL hI).mp h1
  rw [Nat.add_mul, Nat.one_mul] at h2
  omega

/-- **`lbz_mapping_destroy` frees every node once.** -/
theorem mappingDestroy_spec (hL : 0 < L) (hI : 0 < I) {m : Mapping L I M} (a : Built m)
    (hlive : ∀ id < m.nodes.next, (m.nodes.get id).isSome) :
    ∃ m' freed, mappingDestroy m = some (m', freed) ∧ freed.Nodup ∧
      (∀ id, id ∈ freed ↔ id < m.nodes.next) ∧ ∀ id, m'.nodes.get id = none := by
  have hledger : Ledger (⟨m, 0, 0, 0, []⟩ : DestroyState L I M) := by
    refine ⟨List.nodup_nil, fun id => iff_of_false nofun ?_⟩
    rintro ⟨h1, h2⟩
    have := hlive id h1
    rw [show m.nodes.get id = none from h2] at this
    cases this
  have hstart : DestroyInv (nrLeafNode L m.maxBlkid) (⟨m, 0, 0, 0, []⟩ : DestroyState L I M) := by
    refine ⟨hledger, fun i _ hi => a.rows i ((lt_nrInternalNode_iff hL hI).mpr hi), nofun, ?_⟩
    rw [Nat.zero_mul, Nat.zero_min]
  obtain ⟨s, h1, ⟨h2, h3, h4⟩, h5⟩ := whileLoop_spec (b := fun s : DestroyState L I M =>
      decide (s.i < nrInternalNode L I m.maxBlkid)) (f := destroyInternal (nrLeafNode L m.maxBlkid))
    (P := fun s => DestroyInv (nrLeafNode L m.maxBlkid) s ∧
      s.i ≤ nrInternalNode L I m.maxBlkid ∧ s.m.nodes.next = m.nodes.next)
    (fun s => nrInternalNode L I m.maxBlkid - s.i) (fun s hs hb => by
      have hlt := of_decide_eq_true hb
      obtain ⟨s', h1, h2, h3, h4⟩ := hs.1.step ((lt_nrInternalNode_iff hL hI).mp hlt)
      exact ⟨s', h1, ⟨h2, by omega, h4.trans hs.2.2⟩, by omega⟩) ⟨hstart, Nat.zero_le _, rfl⟩
    (n := nrInternalNode L I m.maxBlkid) (Nat.sub_le _ _)
  have hi : s.i = nrInternalNode L I m.maxBlkid := by
    have := of_decide_eq_false h5
    omega
  have hgone : ∀ id, s.m.nodes.get id = none := fun id => by
    by_cases hid : id < m.nodes.next
    · rw [a.next] at hid
      obtain ⟨i, r, h6, h7, rfl⟩ := exists_nodeId hL hI hid
      exact h2.gone i (hi ▸ h6) r h7
    · exact Heap.get_eq_none_of_next_le (h4 ▸ not_lt.mp hid)
  refine ⟨s.m, s.freed, by rw [mappingDestroy, h1]; rfl, h2.ledger.nodup, fun id => ?_, hgone⟩
  rw [h2.ledger.mem, h4]
  exact and_iff_left (hgone id)

theorem Built.live (hL : 0 < L) (hI : 0 < I) {m : Mapping L I M} (a : Built m) {id : ℕ}
    (h : id < m.nodes.next) : (m.nodes.get id).isSome := by
  rw [a.next] at h
  obtain ⟨i, r, hi, hr, rfl⟩ := exists_nodeId hL hI h
  have row := a.rows i hi
  cases r with
  | zero =>
    obtain ⟨e, b, childern, hx⟩ := row.node
    rw [hx]
    rfl
  | succ r =>
    obtain ⟨b, pbids, hx⟩ := row.leaf r hr
    rw [hx]
    rfl

end

/-- **The mapping tree is a finite map.** After `lbz_mapping_init` each block has a leaf and a slot of
its own, with no address in it; every sequence of calls returns what it returns on a map that starts
empty; and `lbz_mapping_destroy` then frees every node once. -/
theorem mapping_spec {maxBlkid : ℕ} (hL : 1 ≤ L) (hI : 1 ≤ I)
    (hM : nrInternalNode L I maxBlkid ≤ M) : ∃ m, mappingInit L I M maxBlkid = some m ∧
      (∀ b < maxBlkid, ∃ leaf index, findSpecificNode m b = some (leaf, index) ∧
        m.pbid? leaf index = some invalidPbid) ∧
      (∀ b < maxBlkid, ∀ b' < maxBlkid, findSpecificNode m b = findSpecificNode m b' → b = b') ∧
      ∀ ops : List MapOp, (∀ op ∈ ops, op.blkid < maxBlkid) →
        ∃ m', runOps m ops = some (m', (specOps (fun _ => none) ops).2) ∧
          ∃ m'' freed, mappingDestroy m' = some (m'', freed) ∧ freed.Nodup ∧
            (∀ id, id ∈ freed ↔ id < m.nodes.next) ∧ ∀ id, m''.nodes.get id = none := by
  obtain ⟨m, h1, a, rfl, fresh⟩ := mappingInit_spec (M := M) hL hI hM
  have hword : ∀ b < m.maxBlkid, m.entry b = some invalidPbid := fun b hb => by
    obtain ⟨k, pbids, h2, h3⟩ := entry_eq hL hI a hb
    rw [h3, fresh _ _ _ h2]
  refine ⟨m, h1, fun b hb => ?_, fun b hb b' hb' h => ?_, fun ops hops => ?_⟩
  · have h2 := hword b hb
    rw [Mapping.entry, (findSpecificNode_eq hL hI a hb).1, Option.bind_some] at h2
    exact ⟨_, _, (findSpecificNode_eq hL hI a hb).1, h2⟩
  · rw [(findSpecificNode_eq hL hI a hb).1, (findSpecificNode_eq hL hI a hb').1] at h
    exact slot_inj hI (Option.some.inj h)
  · have hstores : Stores m fun _ => none := ⟨a, hword, nofun⟩
    obtain ⟨m', h2, h3, h4⟩ := hstores.runOps hL hI hops
    refine ⟨m', h2, ?_⟩
    have hnext : m'.nodes.next = m.nodes.next := by rw [h3.built.next, a.next, h4]
    rw [← hnext]
    exact mappingDestroy_spec hL hI h3.built fun id => h3.built.live hL hI

/-- Five blocks, two in a leaf and two leaves in an internal node. -/
theorem mapping_spec_five : ∃ m, mappingInit 2 2 4 5 = some m ∧
      (∀ b < 5, ∃ leaf index, findSpecificNode m b = some (leaf, index) ∧
        m.pbid? leaf index = some invalidPbid) ∧
      (∀ b < 5, ∀ b' < 5, findSpecificNode m b = findSpecificNode m b' → b = b') ∧
      ∀ ops : List MapOp, (∀ op ∈ ops, op.blkid < 5) →
        ∃ m', runOps m ops = some (m', (specOps (fun _ => none) ops).2) ∧
          ∃ m'' freed, mappingDestroy m' = some (m'', freed) ∧ freed.Nodup ∧
            (∀ id, id ∈ freed ↔ id < m.nodes.next) ∧ ∀ id, m''.nodes.get id = none :=
  mapping_spec (by decide) (by decide) (by decide)

end Lbz
