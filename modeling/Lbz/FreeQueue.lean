import Lbz.Faults
import Lbz.Landing
import Lbz.Lib.Chain
import Lbz.MapsAgree

/-!
# The pages of ids to be freed

The queue behind `NatSit.toFree`: pages of ids that `lbz_nat_sit_add_blkid` fills and
`lbz_nat_sit_tx_complete` empties.

* `FreeQueue`: the pages, `head`, `cur_node` and `to_free_count`; `addBlkid` and `txComplete` follow
  the pointers as the code does, `none` where one is null or dangling;
* `Holds q l`: the chain of pages spells the ids `l`; **`addBlkid_holds`**, **`txComplete_holds`**: on
  such chains the two functions do what the model does on the list;
* `MappedAt c s z i b`: block `b` is mapped to block `i` of zone `z`; `InZones`: every block that is
  mapped is in a zone, whatever fails; `mappedAt_iff`: without an error the reverse map says the same;
* `Freed`: what it means that the ids of a list are freed, each once;
* **`tx_complete_exact`**: queued ids are freed so, and the queue is as good as new;
* `tx_complete_wrapped`: not where a zone starts at a sector that does not fit an `unsigned int`.
-/

namespace Lbz

/-- `NAT_SIT_NODE_ENTRIES`: what is left of a page behind its packed header. -/
def natSitNodeEntries : ℕ := (4096 - 12) / 4

/-- `struct nat_sit_node` -/
structure NatSitNode where
  next : Option ℕ
  cursor : ℕ
  toFreeBlkids : ℕ → ℕ

/-- The queue in `struct lbz_nat_sit_mgmt`, with the pages that are allocated. -/
structure FreeQueue where
  pages : Heap NatSitNode
  first : Option ℕ
  curNode : Option ℕ
  toFreeCount : ℕ

namespace NatSitNode

/-- A page as `lbz_nat_sit_add_blkid` sets it up; its entries are what the page had in it. -/
def fresh (garbage : ℕ → ℕ) : NatSitNode := { next := none, cursor := 0, toFreeBlkids := garbage }

def push (blkid : ℕ) (x : NatSitNode) : NatSitNode :=
  { x with toFreeBlkids := Function.update x.toFreeBlkids x.cursor blkid, cursor := x.cursor + 1 }

/-- The ids of a page. -/
def ids (x : NatSitNode) : List ℕ := (List.range x.cursor).map x.toFreeBlkids

theorem ids_push (x : NatSitNode) (blkid : ℕ) : (x.push blkid).ids = x.ids ++ [blkid] := by
  have h1 : (List.range x.cursor).map (Function.update x.toFreeBlkids x.cursor blkid) = x.ids :=
    List.map_congr_left fun i hi => Function.update_of_ne (List.mem_range.mp hi).ne _ _
  change (List.range (x.cursor + 1)).map (Function.update x.toFreeBlkids x.cursor blkid) = _
  rw [List.range_succ, List.map_append, List.map_singleton, Function.update_self, h1]

end NatSitNode

namespace FreeQueue

/-- The queue of a new rule. -/
def initial : FreeQueue := { pages := Heap.empty, first := none, curNode := none, toFreeCount := 0 }

/-- The end of `lbz_nat_sit_add_blkid`, with room in the page `cur_node`. -/
def put (q : FreeQueue) (blkid : ℕ) : Option FreeQueue := do
  let i ← q.curNode
  let _ ← q.pages.get i
  return { q with
    pages := q.pages.modify i (NatSitNode.push blkid), toFreeCount := q.toFreeCount + 1 }

/-- The branch of `lbz_nat_sit_add_blkid` that takes a page; an allocation that fails is tried
again. -/
def addPage (garbage : ℕ → ℕ) (q : FreeQueue) : Option FreeQueue :=
  let new := q.pages.next
  let pages := q.pages.alloc (.fresh garbage)
  if q.first = none then some { q with pages, first := some new, curNode := some new }
  else do
    let i ← q.curNode
    let _ ← q.pages.get i
    return { q with
      pages := pages.modify i fun x => { x with next := some new }, curNode := some new }

/-- `lbz_nat_sit_add_blkid` -/
def addBlkid (garbage : ℕ → ℕ) (q : FreeQueue) (blkid : ℕ) : Option FreeQueue :=
  if q.first = none then (q.addPage garbage).bind fun q => q.put blkid
  else do
    let i ← q.curNode
    let x ← q.pages.get i
    if x.cursor = natSitNodeEntries then (q.addPage garbage).bind fun q => q.put blkid
    else q.put blkid

/-- A sequence of calls of `lbz_nat_sit_add_blkid`. -/
def addAll (garbage : ℕ → ℕ) : FreeQueue → List ℕ → Option FreeQueue
  | q, [] => some q
  | q, b :: l => (q.addBlkid garbage b).bind fun q => addAll garbage q l

variable {α : Type}

/-- The inner loop of `lbz_nat_sit_tx_complete`. -/
def freeNode (c : Conf) (s : Sys α) (x : NatSitNode) : Sys α :=
  (List.range x.cursor).foldl (fun s i => freeBlkid c s (x.toFreeBlkids i)) s

/-- The outer loop of `lbz_nat_sit_tx_complete`, for as many pages as `fuel` allows. -/
def freeNodes (c : Conf) : ℕ → Heap NatSitNode → Option ℕ → Sys α →
    Option (Heap NatSitNode × Sys α)
  | _, pages, none, s => some (pages, s)
  | 0, _, some _, _ => none
  | fuel + 1, pages, some i, s => do
    let x ← pages.get i
    freeNodes c fuel (pages.free i) x.next (freeNode c s x)

/-- `lbz_nat_sit_tx_complete`; there are no more pages than have been allocated. -/
def txComplete (c : Conf) (q : FreeQueue) (s : Sys α) : Option (FreeQueue × Sys α) := do
  let (pages, s) ← freeNodes c q.pages.next q.pages q.first s
  return ({ pages, first := none, curNode := none, toFreeCount := 0 }, s)

/-! ## The list that a queue holds -/

/-- The pages `l` make up the queue. -/
structure Spells (q : FreeQueue) (l : List ℕ) : Prop where
  chain : q.pages.Chain NatSitNode.next q.first l
  nodup : l.Nodup
  live : ∀ i, (∃ x, q.pages.get i = some x) → i ∈ l
  room : ∀ i x, q.pages.get i = some x → x.cursor ≤ natSitNodeEntries
  last : ∀ i, l.getLast? = some i → q.curNode = some i
  count : q.toFreeCount = (q.pages.contents NatSitNode.ids l).length

/-- The queue holds the ids `ids`, in order, and has no other pages. -/
def Holds (q : FreeQueue) (ids : List ℕ) : Prop :=
  ∃ l, q.Spells l ∧ q.pages.contents NatSitNode.ids l = ids

theorem initial_holds : initial.Holds [] := by
  have hno : ∀ i x, initial.pages.get i ≠ some x := fun i x hx => by
    rw [initial, Heap.get_empty] at hx
    cases hx
  exact ⟨[], ⟨rfl, List.nodup_nil, fun i ⟨x, hx⟩ => absurd hx (hno i x),
    fun i x hx => absurd hx (hno i x), nofun, rfl⟩, rfl⟩

theorem put_eq {q : FreeQueue} {i : ℕ} {x : NatSitNode} (hi : q.curNode = some i)
    (hx : q.pages.get i = some x) (blkid : ℕ) : q.put blkid = some { q with
      pages := q.pages.modify i (NatSitNode.push blkid), toFreeCount := q.toFreeCount + 1 } := by
  rw [FreeQueue.put, hi]
  change (q.pages.get i).bind _ = _
  rw [hx]
  rfl

/-- The last page has room. -/
theorem Spells.put {q : FreeQueue} {l : List ℕ} {i : ℕ} {x : NatSitNode} (a : q.Spells (l ++ [i]))
    (hx : q.pages.get i = some x) (hlt : x.cursor < natSitNodeEntries) (blkid : ℕ) :
    ∃ q', q.put blkid = some q' ∧
      q'.Holds (q.pages.contents NatSitNode.ids (l ++ [i]) ++ [blkid]) := by
  have hcur := a.last i List.getLast?_concat
  have hnot : i ∉ l := fun h =>
    (List.nodup_append.mp a.nodup).2.2 i h i (List.mem_singleton_self i) rfl
  have hself := Heap.get_modify_self hx (NatSitNode.push blkid)
  have hother : ∀ j ∈ l, (q.pages.modify i (NatSitNode.push blkid)).get j = q.pages.get j :=
    fun j hj => Heap.get_modify_ne (ne_of_mem_of_not_mem hj hnot) _
  have hids : (q.pages.modify i (NatSitNode.push blkid)).contents NatSitNode.ids (l ++ [i]) =
      q.pages.contents NatSitNode.ids (l ++ [i]) ++ [blkid] := by
    have hl : (q.pages.modify i (NatSitNode.push blkid)).contents NatSitNode.ids l =
        q.pages.contents NatSitNode.ids l := Heap.contents_congr fun j hj => by rw [hother j hj]
    rw [Heap.contents_concat _ _ _ hself, Heap.contents_concat _ _ _ hx, NatSitNode.ids_push, hl,
      List.append_assoc]
  refine ⟨_, put_eq hcur hx blkid, l ++ [i], ⟨?_, a.nodup, fun j ⟨y, hy⟩ => a.live j ?_,
    fun j y hy => ?_, a.last, ?_⟩, hids⟩
  · refine a.chain.congr fun j hj => ?_
    rcases List.mem_append.mp hj with hj | hj
    · rw [hother j hj]
    · rw [List.mem_singleton.mp hj, hself, hx]
      rfl
  · rw [Heap.get_modify] at hy
    split_ifs at hy with e
    · exact ⟨x, e ▸ hx⟩
    · exact ⟨y, hy⟩
  · rw [Heap.get_modify] at hy
    split_ifs at hy with e
    · rw [e, hx] at hy
      cases hy
      exact hlt
    · exact a.room j y hy
  · change q.toFreeCount + 1 = _
    rw [hids, List.length_append, a.count]
    rfl

/-- A new page is empty, and comes last. -/
theorem Spells.addPage {q : FreeQueue} {l : List ℕ} (a : q.Spells l) (garbage : ℕ → ℕ) :
    ∃ q', q.addPage garbage = some q' ∧ q'.Spells (l ++ [q.pages.next]) ∧
      q'.pages.get q.pages.next = some (.fresh garbage) ∧
      q'.pages.contents NatSitNode.ids (l ++ [q.pages.next]) =
        q.pages.contents NatSitNode.ids l := by
  have hnew : q.pages.next ∉ l := fun h => by
    obtain ⟨x, hx⟩ := a.chain.live _ h
    rw [Heap.get_eq_none_of_next_le le_rfl] at hx
    cases hx
  have hnd : (l ++ [q.pages.next]).Nodup :=
    (List.perm_append_singleton _ l).nodup_iff.mpr (List.nodup_cons.mpr ⟨hnew, a.nodup⟩)
  -- what is left to show of the new pages, whichever page the new one hangs on
  have key : ∀ pages first, (∀ j, (pages.get j).map NatSitNode.ids =
        ((q.pages.alloc (.fresh garbage)).get j).map NatSitNode.ids) →
      (∀ j, (pages.get j).map NatSitNode.cursor =
        ((q.pages.alloc (.fresh garbage)).get j).map NatSitNode.cursor) →
      pages.get q.pages.next = some (.fresh garbage) →
      pages.Chain NatSitNode.next first (l ++ [q.pages.next]) →
      FreeQueue.Spells ⟨pages, first, some q.pages.next, q.toFreeCount⟩ (l ++ [q.pages.next]) ∧
        pages.contents NatSitNode.ids (l ++ [q.pages.next]) =
          q.pages.contents NatSitNode.ids l := by
    intro pages first hids hcur hget hchain
    have hc : pages.contents NatSitNode.ids (l ++ [q.pages.next]) =
        q.pages.contents NatSitNode.ids l := by
      rw [Heap.contents_concat _ _ _ hget, Heap.contents_congr fun j hj => ?_]
      · exact List.append_nil _
      · rw [hids, Heap.get_alloc, if_neg (ne_of_mem_of_not_mem hj hnew)]
    refine ⟨⟨hchain, hnd, fun j ⟨y, hy⟩ => ?_, fun j y hy => ?_, fun j hj => ?_, ?_⟩, hc⟩
    · have h := hids j
      rw [show pages.get j = some y from hy, Heap.get_alloc] at h
      split_ifs at h with e
      · rw [e]
        exact List.mem_append_right _ List.mem_cons_self
      · cases hz : q.pages.get j with
        | none => rw [hz] at h; cases h
        | some z => exact List.mem_append_left _ (a.live j ⟨z, hz⟩)
    · have h := hcur j
      rw [show pages.get j = some y from hy, Heap.get_alloc] at h
      split_ifs at h with e
      · rw [Option.map_some, Option.map_some, Option.some.injEq] at h
        rw [h]
        exact Nat.zero_le _
      · cases hz : q.pages.get j with
        | none => rw [hz] at h; cases h
        | some z =>
          rw [hz, Option.map_some, Option.map_some, Option.some.injEq] at h
          rw [h]
          exact a.room j z hz
    · rw [List.getLast?_concat] at hj
      exact hj
    · rw [hc]
      exact a.count
  have hgetNew : (q.pages.alloc (.fresh garbage)).get q.pages.next = some (.fresh garbage) := by
    rw [Heap.get_alloc, if_pos rfl]
  rcases l.eq_nil_or_concat' with rfl | ⟨l, i, rfl⟩
  · have hf : q.first = none := a.chain
    obtain ⟨h1, h2⟩ := key (q.pages.alloc (.fresh garbage)) (some q.pages.next) (fun _ => rfl)
      (fun _ => rfl) hgetNew ⟨rfl, _, hgetNew, rfl⟩
    exact ⟨_, by simp only [FreeQueue.addPage, if_pos hf], h1, hgetNew, h2⟩
  · -- the new page hangs on the last one
    obtain ⟨x, hx⟩ := a.chain.live i (List.mem_append_right _ List.mem_cons_self)
    have hcur := a.last i List.getLast?_concat
    have hf : q.first ≠ none := fun h => by
      have hc := a.chain
      rw [h] at hc
      cases l <;> exact nomatch hc.1
    have hine : i ≠ q.pages.next :=
      ne_of_mem_of_not_mem (List.mem_append_right _ List.mem_cons_self) hnew
    have hil : i ∉ l := fun h =>
      (List.nodup_append.mp a.nodup).2.2 i h i (List.mem_singleton_self i) rfl
    have hself := Heap.get_modify_self (h := q.pages.alloc (.fresh garbage)) (i := i) (x := x)
      (by rw [Heap.get_alloc, if_neg hine]; exact hx)
      fun x => { x with next := some q.pages.next }
    have hmod : ∀ {δ : Type} (f : NatSitNode → δ),
        (∀ x, f { x with next := some q.pages.next } = f x) → ∀ j,
        (((q.pages.alloc (.fresh garbage)).modify i fun x =>
          { x with next := some q.pages.next }).get j).map f =
        ((q.pages.alloc (.fresh garbage)).get j).map f := fun f hf j => by
      rw [Heap.get_modify]
      split_ifs
      · rw [Option.map_map]
        exact congrFun (congrArg Option.map (funext hf)) _
      · rfl
    have hgetNew' : ((q.pages.alloc (.fresh garbage)).modify i fun x =>
        { x with next := some q.pages.next }).get q.pages.next = some (.fresh garbage) := by
      rw [Heap.get_modify_ne hine.symm]
      exact hgetNew
    obtain ⟨h1, h2⟩ := key _ q.first (hmod NatSitNode.ids fun _ => rfl)
      (hmod NatSitNode.cursor fun _ => rfl) hgetNew' (by
        rw [List.append_assoc]
        refine Heap.Chain.link a.chain hil (fun k hk => ?_) hself rfl hgetNew' rfl
        rw [Heap.get_modify_ne (ne_of_mem_of_not_mem hk hil), Heap.get_alloc,
          if_neg (ne_of_mem_of_not_mem (List.mem_append_left _ hk) hnew)])
    refine ⟨_, ?_, h1, hgetNew', h2⟩
    rw [FreeQueue.addPage, if_neg hf, hcur]
    change (q.pages.get i).bind _ = _
    rw [hx]
    rfl

/-- **`lbz_nat_sit_add_blkid` puts its id at the end.** -/
theorem addBlkid_holds {q : FreeQueue} {ids : List ℕ} (a : q.Holds ids) (garbage : ℕ → ℕ)
    (blkid : ℕ) : ∃ q', q.addBlkid garbage blkid = some q' ∧ q'.Holds (ids ++ [blkid]) := by
  obtain ⟨l, a, rfl⟩ := a
  -- on a new page
  have hnew : ∃ q', ((q.addPage garbage).bind fun q => q.put blkid) = some q' ∧
      q'.Holds (q.pages.contents NatSitNode.ids l ++ [blkid]) := by
    obtain ⟨q₁, h1, h2, h3, h4⟩ := a.addPage garbage
    obtain ⟨q', h5, h6⟩ := h2.put h3 (Nat.succ_pos _) blkid
    rw [h4] at h6
    exact ⟨q', by rw [h1]; exact h5, h6⟩
  rw [addBlkid]
  split_ifs with hf
  · exact hnew
  · rcases l.eq_nil_or_concat' with rfl | ⟨l, i, rfl⟩
    · exact absurd a.chain hf
    obtain ⟨x, hx⟩ := a.chain.live i (List.mem_append_right _ List.mem_cons_self)
    rw [a.last i List.getLast?_concat]
    change ∃ q', ((q.pages.get i).bind fun x => if x.cursor = natSitNodeEntries then
      (q.addPage garbage).bind fun q => q.put blkid else q.put blkid) = some q' ∧ _
    rw [hx, Option.bind_some]
    split_ifs with hfull
    · exact hnew
    · exact a.put hx (lt_of_le_of_ne (a.room i x hx) hfull) blkid

theorem addAll_holds (garbage : ℕ → ℕ) : ∀ {l ids : List ℕ} {q : FreeQueue}, q.Holds ids →
    ∃ q', q.addAll garbage l = some q' ∧ q'.Holds (ids ++ l)
  | [], ids, q, a => ⟨q, rfl, by rwa [List.append_nil]⟩
  | b :: l, ids, q, a => by
    obtain ⟨q₁, h1, h2⟩ := addBlkid_holds a garbage b
    obtain ⟨q', h3, h4⟩ := addAll_holds garbage (l := l) h2
    refine ⟨q', by rw [addAll, h1]; exact h3, ?_⟩
    rwa [List.append_assoc] at h4

/-! ## The loop over the pages -/

theorem freeNode_eq (c : Conf) (s : Sys α) (x : NatSitNode) :
    freeNode c s x = x.ids.foldl (freeBlkid c) s := by
  rw [freeNode, NatSitNode.ids, List.foldl_map]

/-- The loop visits the pages of the chain, frees them, and frees their ids in order. -/
theorem freeNodes_eq (c : Conf) : ∀ {l : List ℕ} {pages : Heap NatSitNode} {o : Option ℕ}
    {fuel : ℕ} {s : Sys α}, pages.Chain NatSitNode.next o l → l.Nodup → l.length ≤ fuel →
    freeNodes c fuel pages o s = some (l.foldl Heap.free pages,
      (pages.contents NatSitNode.ids l).foldl (freeBlkid c) s)
  | [], pages, o, fuel, s, hc, _, _ => by
    cases hc
    rw [freeNodes]
    rfl
  | i :: l, pages, o, 0, s, _, _, hf => absurd hf (Nat.not_succ_le_zero _)
  | i :: l, pages, o, fuel + 1, s, ⟨ho, x, hx, hc⟩, hnd, hf => by
    obtain ⟨hi, hnd⟩ := List.nodup_cons.mp hnd
    have hget : ∀ j ∈ l, (pages.free i).get j = pages.get j := fun j hj => by
      rw [Heap.get_free, if_neg (ne_of_mem_of_not_mem hj hi)]
    have ih : freeNodes c fuel (pages.free i) x.next (freeNode c s x) = _ := freeNodes_eq c
      (hc.congr fun j hj => by rw [hget j hj]) hnd (Nat.le_of_succ_le_succ hf)
    rw [ho, freeNodes]
    change (pages.get i).bind _ = _
    have hids : (pages.free i).contents NatSitNode.ids l = pages.contents NatSitNode.ids l :=
      Heap.contents_congr fun j hj => by rw [hget j hj]
    rw [hx, Option.bind_some, ih, Heap.contents_cons _ _ _ hx, List.foldl_append, freeNode_eq, hids]
    rfl

theorem get_foldl_free (i : ℕ) : ∀ {l : List ℕ} {pages : Heap NatSitNode},
    (∀ x, pages.get i = some x → i ∈ l) → (l.foldl Heap.free pages).get i = none
  | [], pages, h => by
    cases hx : pages.get i with
    | none => exact hx
    | some x => exact nomatch h x hx
  | j :: l, pages, h => by
    change (l.foldl Heap.free (pages.free j)).get i = none
    refine get_foldl_free i fun x hx => ?_
    rw [Heap.get_free] at hx
    split_ifs at hx with e
    exact (List.mem_cons.mp (h x hx)).resolve_left e

/-- The queue has no more pages than have been allocated. -/
theorem Spells.length_le {q : FreeQueue} {l : List ℕ} (a : q.Spells l) :
    l.length ≤ q.pages.next := by
  have hsub : l ⊆ List.range q.pages.next := fun i hi => by
    obtain ⟨x, hx⟩ := a.chain.live i hi
    exact List.mem_range.mpr (Heap.lt_next_of_get hx)
  have := (List.subperm_of_subset a.nodup hsub).length_le
  rwa [List.length_range] at this

/-- The queue has no page. -/
structure Drained (q : FreeQueue) : Prop where
  first : q.first = none
  count : q.toFreeCount = 0
  pages : ∀ i, q.pages.get i = none

theorem Drained.holds {q : FreeQueue} (a : q.Drained) : q.Holds [] := by
  have hno : ∀ i x, q.pages.get i ≠ some x := fun i x hx => by
    rw [a.pages] at hx
    cases hx
  exact ⟨[], ⟨a.first, List.nodup_nil, fun i ⟨x, hx⟩ => absurd hx (hno i x),
    fun i x hx => absurd hx (hno i x), nofun, a.count⟩, rfl⟩

/-- **`lbz_nat_sit_tx_complete` frees the ids that are queued, in order**, and leaves no page. -/
theorem txComplete_holds (c : Conf) {q : FreeQueue} {ids : List ℕ} (a : q.Holds ids) (s : Sys α) :
    ∃ q', q.txComplete c s = some (q', ids.foldl (freeBlkid c) s) ∧ q'.Drained := by
  obtain ⟨l, a, rfl⟩ := a
  refine ⟨⟨l.foldl Heap.free q.pages, none, none, 0⟩, ?_, rfl, rfl,
    fun i => get_foldl_free i fun y hy => a.live i ⟨y, hy⟩⟩
  rw [txComplete, freeNodes_eq c a.chain a.nodup a.length_le]
  rfl

/-- On a queue that holds the ids of the model, the loop over the pages does what the model does. -/
theorem txComplete_refines (c : Conf) {q : FreeQueue} {s : Sys α} (a : q.Holds s.natSit.toFree) :
    ∃ q' s', q.txComplete c s = some (q', s') ∧
      natSitTxComplete c s = { s' with natSit := { s'.natSit with toFree := [] } } ∧
      q'.Holds (natSitTxComplete c s).natSit.toFree := by
  obtain ⟨q', h1, h2⟩ := txComplete_holds c a s
  exact ⟨q', _, h1, rfl, h2.holds⟩

end FreeQueue

/-! ## What is freed -/

variable {α : Type} {c : Conf} {s s' : Sys α} {ids : List ℕ}

/-- The ids that are mapped, each once. -/
def mappedIds (s : Sys α) (ids : List ℕ) : Finset ℕ :=
  ids.toFinset.filter fun b => s.mapping b ≠ none

/-- Block `b` is mapped to a block of zone `z`. -/
def MappedIn (c : Conf) (s : Sys α) (z b : ℕ) : Prop := ∃ p ∈ s.mapping b, c.Contains z p

instance (c : Conf) (s : Sys α) (z : ℕ) : DecidablePred (MappedIn c s z) := fun b =>
  inferInstanceAs (Decidable (∃ p ∈ s.mapping b, c.Contains z p))

/-- Block `b` is mapped to block `i` of zone `z`. -/
def MappedAt (c : Conf) (s : Sys α) (z i b : ℕ) : Prop :=
  s.mapping b = some (c.startBlk z + i) ∧ c.Contains z (c.startBlk z + i)

/-- The ids are freed, each once, and nothing else changes. -/
structure Freed (c : Conf) (ids : List ℕ) (s s' : Sys α) : Prop where
  unmapped : ∀ b ∈ ids, s'.mapping b = none
  kept : ∀ b ∉ ids, s'.mapping b = s.mapping b
  entryGone : ∀ z i, (∃ b ∈ ids, MappedAt c s z i b) → (s'.zmd.zones z).zrms i = none
  entryKept : ∀ z i, (¬ ∃ b ∈ ids, MappedAt c s z i b) →
    (s'.zmd.zones z).zrms i = (s.zmd.zones z).zrms i
  weight : ∀ z, (s'.zmd.zones z).weight =
    (s.zmd.zones z).weight - ((mappedIds s ids).filter (MappedIn c s z)).card
  valid : s'.zmd.nrValidBlks = s.zmd.nrValidBlks - (mappedIds s ids).card
  total : s'.natSit.totalFreedBlks = s.natSit.totalFreedBlks + (mappedIds s ids).card
  zones : ∀ z, s'.zmd.zones z = { s.zmd.zones z with
    weight := (s'.zmd.zones z).weight, zrms := (s'.zmd.zones z).zrms }
  rest : s' = { s with
    mapping := s'.mapping
    zmd := { s.zmd with zones := s'.zmd.zones, nrValidBlks := s'.zmd.nrValidBlks }
    natSit := { s.natSit with totalFreedBlks := s'.natSit.totalFreedBlks } }

theorem Freed.nil (c : Conf) (s : Sys α) : Freed c [] s s where
  unmapped := nofun
  kept _ _ := rfl
  entryGone := fun z i ⟨b, hb, _⟩ => nomatch hb
  entryKept _ _ _ := rfl
  weight z := by simp [mappedIds]
  valid := by simp [mappedIds]
  total := by simp [mappedIds]
  zones _ := rfl
  rest := rfl

/-- An id without a mapping. -/
theorem Freed.skip {b : ℕ} (a : Freed c ids s s') (hb : s.mapping b = none) :
    Freed c (b :: ids) s s' := by
  have hm : mappedIds s (b :: ids) = mappedIds s ids := by
    rw [mappedIds, List.toFinset_cons, Finset.filter_insert, if_neg (not_not.mpr hb)]
    rfl
  have hat : ∀ z i, (∃ b' ∈ b :: ids, MappedAt c s z i b') ↔ ∃ b' ∈ ids, MappedAt c s z i b' := by
    intro z i
    rw [List.exists_mem_cons_iff]
    refine or_iff_right fun h => ?_
    have hp := h.1
    rw [hb] at hp
    cases hp
  refine { a with
    unmapped := fun b' hb' => ?_
    kept := fun b' hb' => a.kept b' fun h => hb' (List.mem_cons_of_mem _ h)
    entryGone := fun z i h => a.entryGone z i ((hat z i).mp h)
    entryKept := fun z i h => a.entryKept z i fun h' => h ((hat z i).mpr h')
    weight := by rw [hm]; exact a.weight
    valid := by rw [hm]; exact a.valid
    total := by rw [hm]; exact a.total }
  rcases List.mem_cons.mp hb' with rfl | hb'
  · by_cases hmem : b' ∈ ids
    · exact a.unmapped b' hmem
    · exact (a.kept b' hmem).trans hb
  · exact a.unmapped b' hb'

/-- The state after `freeBlkid` of a block `b` that is mapped to `p`. -/
def freedOne (c : Conf) (s : Sys α) (b p : ℕ) : Sys α :=
  { s with
    mapping := Function.update s.mapping b none
    zmd := invalidateOld c s.zmd (some p)
    natSit := { s.natSit with totalFreedBlks := s.natSit.totalFreedBlks + 1 } }

section

variable {b p z₀ z i : ℕ} (geo : Geom c) (hb : s.mapping b = some p) (hp : c.Contains z₀ p)

theorem freedOne_mapping (c : Conf) (s : Sys α) (b p b' : ℕ) :
    (freedOne c s b p).mapping b' = if b' = b then none else s.mapping b' :=
  Function.update_apply s.mapping b none b'

include geo hp in
theorem freedOne_zones : (freedOne c s b p).zmd.zones z =
    if z = z₀ then { s.zmd.zones z with
      zrms := Function.update (s.zmd.zones z).zrms (p - c.startBlk z₀) none
      weight := (s.zmd.zones z).weight - 1 } else s.zmd.zones z := by
  have h : (freedOne c s b p).zmd.zones z = _ := invalidate_zones s.zmd (getZoneByPbid c p) p z
  rwa [geo.zone_eq hp, geo.dis_eq hp] at h

theorem notMem_mappedIds_freedOne : b ∉ mappedIds (freedOne c s b p) ids := fun h => by
  rw [mappedIds, Finset.mem_filter, freedOne_mapping, if_pos rfl] at h
  exact h.2 rfl

include hb in
theorem mappedIds_cons : mappedIds s (b :: ids) = insert b (mappedIds (freedOne c s b p) ids) := by
  ext b'
  simp only [mappedIds, Finset.mem_filter, List.mem_toFinset, List.mem_cons, Finset.mem_insert,
    freedOne_mapping]
  by_cases e : b' = b
  · subst e
    simp [hb]
  · simp [e]

include geo hb hp in
theorem mappedIn_iff : MappedIn c s z b ↔ z = z₀ := by
  refine ⟨?_, fun e => ⟨p, hb, e ▸ hp⟩⟩
  rintro ⟨p', hp', h⟩
  cases (Option.mem_def.mp hp').symm.trans hb
  exact geo.unique h hp

include geo hb hp in
theorem mappedAt_iff_place : MappedAt c s z i b ↔ z = z₀ ∧ i = p - c.startBlk z₀ := by
  constructor
  · rintro ⟨h, hc⟩
    cases hb.symm.trans h
    obtain rfl := geo.unique hc hp
    exact ⟨rfl, (Nat.add_sub_cancel_left ..).symm⟩
  · rintro ⟨rfl, rfl⟩
    have he : c.startBlk z + (p - c.startBlk z) = p := Nat.add_sub_cancel' hp.2.1
    rw [MappedAt, he]
    exact ⟨hb, hp⟩

include geo hb hp in
/-- An entry is to go because of the first id, or because of one that is mapped after it is freed. -/
theorem exists_mappedAt_cons : (∃ b' ∈ b :: ids, MappedAt c s z i b') ↔
    z = z₀ ∧ i = p - c.startBlk z₀ ∨ ∃ b' ∈ ids, MappedAt c (freedOne c s b p) z i b' := by
  rw [List.exists_mem_cons_iff, mappedAt_iff_place geo hb hp]
  constructor
  · rintro (h | ⟨b', hb', h⟩)
    · exact Or.inl h
    · by_cases e : b' = b
      · exact Or.inl ((mappedAt_iff_place geo hb hp).mp (e ▸ h))
      · refine Or.inr ⟨b', hb', ?_, h.2⟩
        rw [freedOne_mapping, if_neg e]
        exact h.1
  · rintro (h | ⟨b', hb', h⟩)
    · exact Or.inl h
    · have hm := h.1
      rw [freedOne_mapping] at hm
      split_ifs at hm
      exact Or.inr ⟨b', hb', hm, h.2⟩

include geo hb hp in
/-- What the zone loses, in ids. -/
theorem card_mappedIn_cons : (((mappedIds s (b :: ids)).filter (MappedIn c s z)).card : ℤ) =
    ((mappedIds (freedOne c s b p) ids).filter (MappedIn c (freedOne c s b p) z)).card +
      if z = z₀ then 1 else 0 := by
  have hnot : b ∉ mappedIds (freedOne c s b p) ids := notMem_mappedIds_freedOne
  have hfilter : ∀ b' ∈ mappedIds (freedOne c s b p) ids,
      (MappedIn c (freedOne c s b p) z b' ↔ MappedIn c s z b') := fun b' hb' => by
    rw [MappedIn, MappedIn, freedOne_mapping, if_neg (ne_of_mem_of_not_mem hb' hnot)]
  rw [mappedIds_cons (c := c) hb, Finset.filter_insert, Finset.filter_congr hfilter]
  by_cases e : z = z₀
  · rw [if_pos e, if_pos ((mappedIn_iff geo hb hp).mpr e),
      Finset.card_insert_of_notMem fun h => hnot (Finset.mem_filter.mp h).1]
    push_cast
    rfl
  · rw [if_neg e, if_neg fun h => e ((mappedIn_iff geo hb hp).mp h), add_zero]

include geo hb hp in
/-- An id that is mapped to a block of zone `z₀`. -/
theorem Freed.free (a : Freed c ids (freedOne c s b p) s') : Freed c (b :: ids) s s' := by
  have hcard : ((mappedIds s (b :: ids)).card : ℤ) =
      (mappedIds (freedOne c s b p) ids).card + 1 := by
    rw [mappedIds_cons hb, Finset.card_insert_of_notMem notMem_mappedIds_freedOne]
    push_cast
    rfl
  refine ⟨fun b' hb' => ?_, fun b' hb' => ?_, fun z i h => ?_, fun z i h => ?_, fun z => ?_, ?_, ?_,
    fun z => ?_, a.rest⟩
  · by_cases hmem : b' ∈ ids
    · exact a.unmapped b' hmem
    · rw [a.kept b' hmem, freedOne_mapping, if_pos ((List.mem_cons.mp hb').resolve_right hmem)]
  · rw [List.mem_cons, not_or] at hb'
    rw [a.kept b' hb'.2, freedOne_mapping, if_neg hb'.1]
  · by_cases h2 : ∃ b' ∈ ids, MappedAt c (freedOne c s b p) z i b'
    · exact a.entryGone z i h2
    · obtain ⟨rfl, rfl⟩ := ((exists_mappedAt_cons geo hb hp).mp h).resolve_right h2
      rw [a.entryKept _ _ h2, freedOne_zones geo hp, if_pos rfl]
      exact Function.update_self ..
  · rw [exists_mappedAt_cons geo hb hp, not_or] at h
    rw [a.entryKept z i h.2, freedOne_zones geo hp]
    split_ifs with e
    · exact Function.update_of_ne (fun ei => h.1 ⟨e, ei⟩) _ _
    · rfl
  · rw [a.weight z, card_mappedIn_cons geo hb hp, freedOne_zones geo hp]
    split_ifs <;> ring
  · rw [a.valid, hcard]
    change s.zmd.nrValidBlks - 1 - _ = _
    ring
  · have h1 := a.total
    change _ = s.natSit.totalFreedBlks + 1 + _ at h1
    omega
  · rw [a.zones z, freedOne_zones geo hp]
    split_ifs <;> rfl

end

theorem freed_foldl (geo : Geom c) : ∀ {ids : List ℕ} {s : Sys α}, s.bug = none →
    (∀ b ∈ ids, b < c.maxBlkid) → (∀ b p, s.mapping b = some p → ∃ z, c.Contains z p) →
    Freed c ids s (ids.foldl (freeBlkid c) s)
  | [], s, _, _, _ => Freed.nil c s
  | b :: ids, s, hb, hids, hin => by
    have hlt : ¬ c.maxBlkid ≤ b := not_le.mpr (hids b List.mem_cons_self)
    have hrest : ∀ b' ∈ ids, b' < c.maxBlkid := fun b' h => hids b' (List.mem_cons_of_mem _ h)
    have hbug : ¬ s.bug.isSome = true := by rw [hb]; nofun
    rw [List.foldl_cons, freeBlkid, if_neg hbug, if_neg hlt]
    cases hm : s.mapping b with
    | none => exact (freed_foldl geo hb hrest hin).skip hm
    | some p =>
      obtain ⟨z, hz⟩ := hin b p hm
      refine Freed.free geo hm hz (freed_foldl geo (by exact hb) hrest fun b' p' h => ?_)
      change Function.update s.mapping b none b' = some p' at h
      rw [Function.update_apply] at h
      split_ifs at h
      exact hin b' p' h

/-! ## Where mapped blocks are -/

/-- Every block that is mapped to, or that an append has stored and whose completion is still to be
processed, is in a zone. -/
structure InZones (c : Conf) (k : Core α) : Prop where
  mapping : ∀ b p, k.mapping b = some p → ∃ z, c.Contains z p
  appended : k.tasks.All fun _ x => ∀ p, x.appended = some p → ∃ z, c.Contains z p

theorem InZones.move [Inhabited α] {k k' : Core α} {l : Label} (a : InZones c k) (L : Landing c k)
    (hm : Move c k l k') : InZones c k' := by
  have same : ∀ {h : Heap (Task α)} {t : ℕ} {f : Task α → Task α},
      (h.All fun _ x => ∀ p, x.appended = some p → ∃ z, c.Contains z p) →
      (∀ x, (f x).appended = x.appended ∨ (f x).appended = none) →
      (h.modify t f).All fun _ x => ∀ p, x.appended = some p → ∃ z, c.Contains z p := fun a hf =>
    Heap.All.modify a fun x _ h p hp => by
      rcases hf x with e | e <;> rw [e] at hp
      · exact h p hp
      · cases hp
  have entered : ∀ {b p : ℕ}, (∃ z, c.Contains z p) →
      ∀ b' p', Function.update k.mapping b (some p) b' = some p' → ∃ z, c.Contains z p' := by
    intro b p hp b' p' h
    rw [Function.update_apply] at h
    split_ifs at h
    · cases h
      exact hp
    · exact a.mapping b' p' h
  cases hm with
  | submitWrite | scanBlock => exact ⟨a.mapping, Heap.All.alloc a.appended fun p => nofun⟩
  | conflict | gcFind =>
    exact ⟨a.mapping, same (same a.appended fun _ => Or.inl rfl) fun _ => Or.inr rfl⟩
  | gcFound => exact ⟨a.mapping, same (same a.appended fun _ => Or.inr rfl) fun _ => Or.inl rfl⟩
  | insert | dropRef => exact ⟨a.mapping, same a.appended fun _ => Or.inl rfl⟩
  | dispatch | fallback | pend | writeFail | untree | nextUser | nextGc | gcServe | gcReadEnd
  | gcInsert | gcSkip | gcPass | skipEnd | dispatchFail | fallbackFail | allocFail | devFail
  | gcServeFail | gcReadFail | gcWriteFail | release =>
    exact ⟨a.mapping, same a.appended fun _ => Or.inr rfl⟩
  | @append t z off x log hx hpc hz hi hoff hfree =>
    refine ⟨a.mapping, Heap.All.modify a.appended fun _ _ _ p h => ?_⟩
    cases h
    refine ⟨z, contains_add (L.zone t x hx z ⟨hpc, hz⟩) ?_⟩
    rw [Task.len] at hoff
    omega
  | @apply t z p x hx hty hpc hz =>
    have hp := a.appended t x hx p (by rw [Task.appended, hpc])
    exact ⟨entered hp, same a.appended fun _ => Or.inr rfl⟩
  | @gcWritten g z p x hx hty hpc hz =>
    have hp := a.appended g x hx p (by rw [Task.appended, hpc])
    refine ⟨a.mapping, Heap.All.modify a.appended fun _ _ _ q h => ?_⟩
    cases h
    exact hp
  | @remap g z v p x hx hty hpc hl hz hv hm =>
    have hp := a.appended g x hx p (by rw [Task.appended, hpc])
    exact ⟨entered hp, same a.appended fun _ => Or.inr rfl⟩
  | @discard b p hb =>
    refine ⟨fun b' p' h => ?_, a.appended⟩
    change Function.update k.mapping b none b' = some p' at h
    rw [Function.update_apply] at h
    split_ifs at h
    exact a.mapping b' p' h
  | destroy => exact ⟨a.mapping, Heap.All.free a.appended _⟩
  | destroyCall => exact ⟨a.mapping, Heap.All.free (Heap.All.free a.appended _) _⟩
  | _ => exact ⟨a.mapping, a.appended⟩

section

variable {o : Options} {report : List BlkZone} {cap : ℕ} {s₀ : Sys α} [Inhabited α]

/-- **Every block that is mapped is in a zone**, whatever has failed. -/
theorem mapped_contains {ok : Sys α → Event α → Prop} (hu : OneCapacity report cap)
    (h0 : initSys o report = some s₀) (hrun : Runs (stepRel (step (confOf o report))) ok s₀ s)
    (hb : s.bug = none) (b p : ℕ) (hp : s.mapping b = some p) :
    ∃ z, (confOf o report).Contains z p := by
  obtain ⟨hN, hB⟩ := base_of_capacity hu h0
  have C := Counts.start h0
  have hstart : Landing (confOf o report) s₀.core ∧ InZones (confOf o report) s₀.core := by
    obtain ⟨-, m, -, rfl⟩ := initSys_eq h0
    exact ⟨⟨Heap.All.empty, fun i _ _ => Heap.All.empty⟩, nofun, Heap.All.empty⟩
  obtain ⟨k, ⟨-, a⟩, -, hk⟩ := Kept.run (I := fun k => Counts k ∧ Landing (confOf o report) k ∧
      InZones (confOf o report) k) hN
    (fun _ _ _ B a hm => ⟨a.1.move B hm, a.2.1.move B a.1 hm, a.2.2.move a.2.1 hm⟩) hrun
    ⟨_, ⟨hB, C, hstart⟩, rfl, fun _ => rfl⟩
  cases hk hb
  exact a.2.2.mapping b p hp

/-- Without an error, the block that is mapped to block `i` of a zone is its entry `i` of the reverse
map. -/
theorem mappedAt_iff (he : EmptyReport o report) (h0 : initSys o report = some s₀)
    (hrun : Runs (stepRel (step (confOf o report))) (fun _ e => e.NoError) s₀ s) {z i b : ℕ}
    (hz : z < (confOf o report).nrZones) (hi : i < (confOf o report).zoneNrBlocks) :
    MappedAt (confOf o report) s z i b ↔ (s.zmd.zones z).zrms i = some b := by
  have geo := geom_of_empty he (initSys_eq h0).1
  have hc := contains_add hz hi
  obtain ⟨-, d, -, -, a⟩ := maps_run he h0 hrun
  have h := a.inv.inverse b ((confOf o report).startBlk z + i)
  rw [reverseEntry_of geo hc, geo.dis_add hz hi] at h
  rw [MappedAt, and_iff_left hc]
  exact h

/-- **The queued ids are freed, each once**, however many pages they fill, and the queue is as good
as new. -/
theorem tx_complete_exact {ok : Sys α → Event α → Prop} (garbage : ℕ → ℕ)
    (hu : OneCapacity report cap) (geo : Geom (confOf o report)) (h0 : initSys o report = some s₀)
    (hrun : Runs (stepRel (step (confOf o report))) ok s₀ s) (hb : s.bug = none) {q : FreeQueue}
    (hq : q.Holds []) (hids : ∀ b ∈ ids, b < (confOf o report).maxBlkid) :
    ∃ q₁ q₂ s', q.addAll garbage ids = some q₁ ∧
      q₁.txComplete (confOf o report) s = some (q₂, s') ∧ Freed (confOf o report) ids s s' ∧
      q₂.Drained ∧ ∀ b, ∃ q₃, q₂.addBlkid garbage b = some q₃ ∧ q₃.Holds [b] := by
  obtain ⟨q₁, h1, h2⟩ := FreeQueue.addAll_holds garbage (l := ids) hq
  obtain ⟨q₂, h3, h4⟩ := FreeQueue.txComplete_holds (confOf o report) h2 s
  exact ⟨q₁, q₂, _, h1, h3, freed_foldl geo hb hids (mapped_contains hu h0 hrun hb), h4,
    fun b => FreeQueue.addBlkid_holds h4.holds garbage b⟩

end

/-- Three ids, one of them twice, on a device that maps one of the others. -/
theorem tx_complete_exact_three : ∃ s s' : Sys ℕ, s.mapping 5 = some 1 ∧ s.mapping 6 = none ∧
    Freed (confOf ⟨true, true, true, 16, 8⟩ (emptyReport 3 16 16)) [5, 6, 5] s s' ∧
    s'.natSit.totalFreedBlks = s.natSit.totalFreedBlks + 1 := by
  let o : Options := ⟨true, true, true, 16, 8⟩
  have he : EmptyReport o (emptyReport 3 16 16) := emptyReport_ok o 3 16 (by decide) (by decide)
    (by decide)
  have hu : OneCapacity (emptyReport 3 16 16) 16 := ⟨by decide, by decide⟩
  let s₀ : Sys ℕ := (initSys o (emptyReport 3 16 16)).get (by decide)
  obtain ⟨s, hrun, h⟩ := exists_run (step (confOf o (emptyReport 3 16 16))) (fun _ _ => True)
    (fun s => decide (s.bug = none ∧ s.mapping 5 = some 1 ∧ s.mapping 6 = none)) s₀ twoWrites
    (by decide +kernel)
  obtain ⟨hb, h5, h6⟩ := of_decide_eq_true h
  obtain ⟨-, -, s', -, -, hf, -⟩ := tx_complete_exact (fun _ => 0) hu (geom_of_empty he (by decide))
    (Option.some_get _).symm hrun hb FreeQueue.initial_holds
    (show ∀ b ∈ [5, 6, 5], b < (confOf o (emptyReport 3 16 16)).maxBlkid by decide)
  have hids : mappedIds s [5, 6, 5] = {5} := by
    ext b
    simp only [mappedIds, Finset.mem_filter, List.mem_toFinset, Finset.mem_singleton]
    constructor
    · rintro ⟨hb, hm⟩
      by_contra hne
      obtain rfl : b = 6 := by simpa [hne] using hb
      exact hm h6
    · rintro rfl
      exact ⟨by decide, by rw [h5]; nofun⟩
  refine ⟨s, s', h5, h6, hf, ?_⟩
  rw [hf.total, hids]
  rfl

/-- Block 2003 has its entry in zone 2, whose blocks land in zone 0: the entry stays. -/
theorem tx_complete_wrapped : ¬ ∀ (o : Options) (report : List BlkZone) (s₀ s s' : Sys ℕ)
    (garbage : ℕ → ℕ) (ids : List ℕ) (q q₁ q₂ : FreeQueue),
    (∃ n size capacity, report = emptyReport n size capacity ∧ o.zoneSizeSectors = size) →
    o.freeSupport = true → initSys o report = some s₀ →
    Runs (stepRel (step (confOf o report))) (fun _ e => e.NoError) s₀ s → q.Holds [] →
    (∀ b ∈ ids, b < (confOf o report).maxBlkid) → q.addAll garbage ids = some q₁ →
    q₁.txComplete (confOf o report) s = some (q₂, s') →
    ∀ b ∈ ids, s.mapping b ≠ none →
      ∀ z i, (s.zmd.zones z).zrms i = some b → (s'.zmd.zones z).zrms i = none := by
  intro h
  let o : Options := { wideOptions with freeSupport := true }
  let c : Conf := confOf o wideReport
  let s₀ : Sys ℕ := (initSys o wideReport).get (by decide +kernel)
  obtain ⟨s, hrun, hs⟩ := exists_run (step c) (fun _ e => e.NoError)
    (fun s => decide (s.mapping 2003 ≠ none ∧ (s.zmd.zones 2).zrms 1 = some 2003 ∧
      (([2003].foldl (freeBlkid c) s).zmd.zones 2).zrms 1 = some 2003)) s₀ wideWrites
    (by decide +kernel)
  obtain ⟨hm, h1, h2⟩ := of_decide_eq_true hs
  obtain ⟨q₁, h3, h4⟩ := FreeQueue.addAll_holds (fun _ => 0) (l := [2003]) FreeQueue.initial_holds
  obtain ⟨q₂, h5, -⟩ := FreeQueue.txComplete_holds c h4 s
  have h6 := h o wideReport s₀ s _ (fun _ => 0) [2003] FreeQueue.initial q₁ q₂
    ⟨3, 2 ^ 31, 24, rfl, rfl⟩ rfl (Option.some_get _).symm hrun FreeQueue.initial_holds (by decide)
    h3 h5 2003 List.mem_cons_self hm 2 1 h1
  rw [List.nil_append, h2] at h6
  cases h6

end Lbz
