import Lbz.MapMove
import Lbz.Start

/-!
# Reference counts and pending writes of zones

* `heldOn k z`: who holds zone `z`: tasks that write to it or read from it, reads, the completions
  and releases still to be made, the slots of the allocator, the scan;
* `writesOn k z`: the writes to `z` that `lbz_zone_complete_write` has not been called for;
* `Counts`: the two counters of a zone are these numbers; **`Counts.move`**: every move keeps it.
-/

namespace Lbz

variable {α : Type}

/-! ## What a party holds -/

/-- A block is allocated for the task. -/
def TaskStatus.hasBlock : TaskStatus → Bool
  | .dispatch | .ioWriting => true
  | _ => false

/-- The task writes to zone `z`, and has not been called back. -/
def Task.Writes (z : ℕ) (x : Task α) : Prop :=
  x.zone = some z ∧ x.status.hasBlock = true ∧ x.pc ≠ .done

/-- The task is a gc task that reads from zone `z`, and has not been called back. -/
def Task.Evacuates (z : ℕ) (x : Task α) : Prop :=
  x.type = .gc ∧ x.victim = some z ∧ x.pc ≠ .done

instance (z : ℕ) (x : Task α) : Decidable (x.Writes z) := by unfold Task.Writes; infer_instance

instance (z : ℕ) (x : Task α) : Decidable (x.Evacuates z) := by
  unfold Task.Evacuates; infer_instance

/-- The write has been completed at its zone. -/
def Task.Completed (x : Task α) : Prop := ∃ o, x.pc = .callback o

instance (x : Task α) : Decidable x.Completed :=
  match h : x.pc with
  | .callback o => isTrue ⟨o, h⟩
  | .submit | .fallback _ | .found _ | .check | .skip | .pending | .reading | .read _ | .device
  | .written _ | .failed | .ended | .waiting _ | .done =>
    isFalse fun ⟨o, e⟩ => by rw [h] at e; cases e

/-- The references of a task on zone `z`. -/
def Task.zoneRefs (z : ℕ) (x : Task α) : ℤ :=
  (if x.Writes z then 1 else 0) + if x.Evacuates z then 1 else 0

/-- The pending write of a task in zone `z`. -/
def Task.pendingIn (z : ℕ) (x : Task α) : ℤ := if x.Writes z ∧ ¬ x.Completed then 1 else 0

/-- The reference of a read on zone `z`. -/
def ReadHook.zoneRef (z : ℕ) (x : ReadHook α) : ℤ := if x.zone = z then 1 else 0

/-- The references of the slots on zone `z`. -/
def slotRefs (a : Fin 2 → Option ℕ) (z : ℕ) : ℤ :=
  (if a 0 = some z then 1 else 0) + if a 1 = some z then 1 else 0

/-- The reference of the scan on zone `z`. -/
def scanRef : GcPc → ℕ → ℤ
  | .idle, _ => 0
  | .scan z' _ _, z => if z' = z then 1 else 0

/-- Who holds zone `z`. -/
def heldOn (m : Zmd) (h : Heap (Task α)) (r : Heap (ReadHook α)) (comp : List ℕ)
    (puts : List (ℕ × PutBy)) (pc : GcPc) (z : ℕ) : ℤ :=
  h.sum (Task.zoneRefs z) + r.sum (ReadHook.zoneRef z) + comp.count z +
    (puts.map Prod.fst).count z + slotRefs m.activeZone z + scanRef pc z

/-- The writes to zone `z` that are not completed. -/
def writesOn (h : Heap (Task α)) (comp : List ℕ) (z : ℕ) : ℤ :=
  h.sum (Task.pendingIn z) + comp.count z

/-- The counters of every zone are exact. -/
structure CountInv (m : Zmd) (h : Heap (Task α)) (r : Heap (ReadHook α)) (comp : List ℕ)
    (puts : List (ℕ × PutBy)) (pc : GcPc) : Prop where
  refs : ∀ z, (m.zones z).refcount = heldOn m h r comp puts pc z
  pend : ∀ z, (m.zones z).pendingWriteIo = writesOn h comp z

def Counts (k : Core α) : Prop := CountInv k.zmd k.tasks k.reads k.completes k.puts k.gcPc

/-! ## The counters after an operation -/

/-- One at zone `z`. -/
def at1 (z z' : ℕ) : ℤ := if z' = z then 1 else 0

section

variable (c : Conf) (m : Zmd) (z z' : ℕ)

theorem getZone_counts : ((getZone m z).zones z').refcount = (m.zones z').refcount + at1 z z' ∧
    ((getZone m z).zones z').pendingWriteIo = (m.zones z').pendingWriteIo := by
  rw [getZone, Zmd.modZone_zones, at1]
  split_ifs
  · exact ⟨rfl, rfl⟩
  · exact ⟨(add_zero _).symm, rfl⟩

theorem put_counts (x : Zone) : x.put.refcount = x.refcount - 1 ∧
    x.put.pendingWriteIo = x.pendingWriteIo := by
  unfold Zone.put
  split_ifs <;> exact ⟨rfl, rfl⟩

theorem putZone_counts : ((putZone m z).zones z').refcount = (m.zones z').refcount - at1 z z' ∧
    ((putZone m z).zones z').pendingWriteIo = (m.zones z').pendingWriteIo := by
  rw [putZone, Zmd.modZone_zones, at1]
  split_ifs
  · exact put_counts _
  · exact ⟨(sub_zero _).symm, rfl⟩

theorem completeWrite_counts :
    ((zoneCompleteWrite m z).zones z').refcount = (m.zones z').refcount ∧
    ((zoneCompleteWrite m z).zones z').pendingWriteIo =
      (m.zones z').pendingWriteIo - at1 z z' := by
  rw [zoneCompleteWrite, Zmd.modZone_zones, at1]
  split_ifs
  · exact ⟨rfl, rfl⟩
  · exact ⟨rfl, (sub_zero _).symm⟩

theorem openZone_counts (i : Fin 2) :
    ((openZone m i z).zones z').refcount = (m.zones z').refcount + at1 z z' ∧
    ((openZone m i z).zones z').pendingWriteIo = (m.zones z').pendingWriteIo := by
  rw [openZone_zones, at1]
  split_ifs
  · exact ⟨rfl, rfl⟩
  · exact ⟨(add_zero _).symm, rfl⟩

theorem allocRes_counts :
    ((allocRes m z).zones z').refcount = (m.zones z').refcount + at1 z z' ∧
    ((allocRes m z).zones z').pendingWriteIo = (m.zones z').pendingWriteIo + at1 z z' := by
  rw [allocRes_zones, at1]
  split_ifs
  · exact ⟨rfl, rfl⟩
  · exact ⟨(add_zero _).symm, (add_zero _).symm⟩

theorem leaveActive_counts (i : Fin 2) :
    ((leaveActive m i z).zones z').refcount = (m.zones z').refcount - at1 z z' ∧
    ((leaveActive m i z).zones z').pendingWriteIo = (m.zones z').pendingWriteIo := by
  rw [leaveActive_zones, at1]
  split_ifs
  · exact put_counts _
  · exact ⟨(sub_zero _).symm, rfl⟩

theorem takeVictim_counts :
    ((takeVictim m z).zones z').refcount = (m.zones z').refcount + at1 z z' ∧
    ((takeVictim m z).zones z').pendingWriteIo = (m.zones z').pendingWriteIo := by
  rw [takeVictim_zones, at1]
  split_ifs
  · exact ⟨rfl, rfl⟩
  · exact ⟨(add_zero _).symm, rfl⟩

/-- A change of zone `z` that leaves its counters alone. -/
theorem modZone_counts {f : Zone → Zone}
    (hf : ∀ x, (f x).refcount = x.refcount ∧ (f x).pendingWriteIo = x.pendingWriteIo) :
    ((m.modZone z f).zones z').refcount = (m.zones z').refcount ∧
    ((m.modZone z f).zones z').pendingWriteIo = (m.zones z').pendingWriteIo := by
  rw [Zmd.modZone_zones]
  split_ifs
  · exact hf _
  · exact ⟨rfl, rfl⟩

theorem invalidate_counts (p : ℕ) :
    ((invalidate c m z p).zones z').refcount = (m.zones z').refcount ∧
    ((invalidate c m z p).zones z').pendingWriteIo = (m.zones z').pendingWriteIo := by
  rw [invalidate_zones]
  split_ifs <;> exact ⟨rfl, rfl⟩

end

/-! ## The totals after an operation -/

theorem count_cons_at1 (l : List ℕ) (z z' : ℕ) :
    ((z :: l).count z' : ℤ) = l.count z' + at1 z z' := TaskInv.count_cons_int l z z'

theorem count_erase_at1 {l : List ℕ} {z : ℕ} (hz : z ∈ l) (z' : ℕ) :
    ((l.erase z).count z' : ℤ) = l.count z' - at1 z z' := by
  have := count_cons_at1 (l.erase z) z z'
  rw [(List.perm_cons_erase hz).symm.count_eq] at this
  omega

theorem count_erase_fst {l : List (ℕ × PutBy)} {z : ℕ} {b : PutBy} (hz : (z, b) ∈ l) (z' : ℕ) :
    (((l.erase (z, b)).map Prod.fst).count z' : ℤ) = (l.map Prod.fst).count z' - at1 z z' := by
  have hp := ((List.perm_cons_erase hz).map Prod.fst).count_eq z'
  have := count_cons_at1 ((l.erase (z, b)).map Prod.fst) z z'
  change _ = (z :: (l.erase (z, b)).map Prod.fst).count z' at hp
  omega

theorem count_cons_fst (l : List (ℕ × PutBy)) (z : ℕ) (b : PutBy) (z' : ℕ) :
    ((((z, b) :: l).map Prod.fst).count z' : ℤ) = (l.map Prod.fst).count z' + at1 z z' :=
  count_cons_at1 (l.map Prod.fst) z z'

theorem slotRefs_update (a : Fin 2 → Option ℕ) (i : Fin 2) (v : Option ℕ) (z : ℕ) :
    slotRefs (Function.update a i v) z = slotRefs a z - (if a i = some z then 1 else 0) +
      if v = some z then 1 else 0 := by
  have h : i = 0 ∨ i = 1 := by omega
  rcases h with rfl | rfl
  · rw [slotRefs, slotRefs, Function.update_self, Function.update_of_ne (by decide)]
    ring
  · rw [slotRefs, slotRefs, Function.update_self, Function.update_of_ne (by decide)]
    ring

theorem some_eq_at1 (z z' : ℕ) : (if some z = some z' then 1 else 0 : ℤ) = at1 z z' := by
  simp only [at1, Option.some.injEq, eq_comm]

theorem scanRef_scan (z iter : ℕ) (pos : Option ℕ) (z' : ℕ) :
    scanRef (.scan z iter pos) z' = at1 z z' := by
  simp only [scanRef, at1, eq_comm]

/-- A block is taken from the zone of slot `i`, which may lose its slot by that. -/
theorem takeBlock_counts (c : Conf) {m : Zmd} {i : Fin 2} {z : ℕ} (ha : m.activeZone i = some z)
    (z' : ℕ) : (((takeBlock c m i z).1.zones z').refcount - slotRefs (takeBlock c m i z).1.activeZone z' =
      (m.zones z').refcount - slotRefs m.activeZone z' + at1 z z') ∧
    ((takeBlock c m i z).1.zones z').pendingWriteIo = (m.zones z').pendingWriteIo + at1 z z' := by
  obtain ⟨h1, h2⟩ := allocRes_counts m z z'
  rw [takeBlock]
  split_ifs
  · obtain ⟨h3, h4⟩ := leaveActive_counts (allocRes m z) z z' i
    have h5 : slotRefs (leaveActive (allocRes m z) i z).activeZone z' = slotRefs m.activeZone z' -
        at1 z z' := by
      refine (slotRefs_update m.activeZone i none z').trans ?_
      rw [ha, some_eq_at1, if_neg (by rintro ⟨⟩), add_zero]
    change ((leaveActive (allocRes m z) i z).zones z').refcount - _ = _ ∧
      ((leaveActive (allocRes m z) i z).zones z').pendingWriteIo = _
    rw [h3, h4, h5, h1, h2]
    exact ⟨by ring, rfl⟩
  · refine ⟨?_, h2⟩
    change ((allocRes m z).zones z').refcount - slotRefs m.activeZone z' = _
    rw [h1]
    ring

/-! ## What a task holds -/

/-- `y` is a later state of `x`, and holds the same. -/
structure SameHolds (x y : Task α) : Prop where
  writes : ∀ z, y.Writes z ↔ x.Writes z
  completed : ∀ z, x.Writes z → (y.Completed ↔ x.Completed)
  evacuates : ∀ z, y.Evacuates z ↔ x.Evacuates z

namespace SameHolds

variable {x y : Task α}

theorem zoneRefs (h : SameHolds x y) (z : ℕ) : y.zoneRefs z = x.zoneRefs z := by
  rw [Task.zoneRefs, Task.zoneRefs, if_congr (h.writes z) rfl rfl, if_congr (h.evacuates z) rfl rfl]

theorem pendingIn (h : SameHolds x y) (z : ℕ) : y.pendingIn z = x.pendingIn z := by
  have : y.Writes z ∧ ¬ y.Completed ↔ x.Writes z ∧ ¬ x.Completed := by
    rw [h.writes]
    exact and_congr_right fun hw => not_congr (h.completed z hw)
  exact if_congr this rfl rfl

/-- No block is allocated for the task, before and after. -/
theorem of_status (hst : x.status.hasBlock ≠ true) (hst' : y.status.hasBlock ≠ true)
    (hev : x.type = .gc → y.victim = x.victim ∧ (y.pc = .done ↔ x.pc = .done))
    (hty : y.type = x.type) : SameHolds x y := by
  refine ⟨fun z => iff_of_false (fun h => hst' h.2.1) fun h => hst h.2.1,
    fun z h => absurd h.2.1 hst, fun z => ?_⟩
  rw [Task.Evacuates, Task.Evacuates, hty]
  refine and_congr_right fun h => ?_
  rw [(hev h).1]
  exact and_congr_right fun _ => not_congr (hev h).2

/-- Only the place of the task changes. -/
theorem of_pc {pc : TaskPc} (hd : pc ≠ .done) (hd' : x.pc ≠ .done)
    (hc : ∀ o, pc ≠ .callback o) (hc' : ∀ o, x.pc ≠ .callback o) : SameHolds x { x with pc } :=
  ⟨fun _ => and_congr_right fun _ => and_congr_right fun _ => iff_of_true hd hd',
    fun _ _ => iff_of_false (fun ⟨o, h⟩ => hc o h) fun ⟨o, h⟩ => hc' o h,
    fun _ => and_congr_right fun _ => and_congr_right fun _ => iff_of_true hd hd'⟩

theorem refs (n : ℤ) (l : Link) : SameHolds x { x with refcount := n, link := l } :=
  ⟨fun _ => Iff.rfl, fun _ _ => Iff.rfl, fun _ => Iff.rfl⟩

theorem link (l : Link) : SameHolds x { x with link := l } := refs x.refcount l

theorem incRef : SameHolds x x.incRef := refs (x.refcount + 1) x.link

theorem decRef : SameHolds x x.decRef := refs (x.refcount - 1) x.link

end SameHolds

theorem Task.zoneRefs_eq_zero {x : Task α} {z : ℕ} (hw : ¬ x.Writes z) (he : ¬ x.Evacuates z) :
    x.zoneRefs z = 0 := by
  rw [Task.zoneRefs, if_neg hw, if_neg he, add_zero]

theorem Task.pendingIn_eq_zero {x : Task α} {z : ℕ} (hw : ¬ x.Writes z) : x.pendingIn z = 0 :=
  if_neg fun h => hw h.1

/-! ## The rules -/

/-- `m'` differs from `m` neither in counters nor in slots. -/
structure SameCounts (m m' : Zmd) : Prop where
  counts : ∀ z, (m'.zones z).refcount = (m.zones z).refcount ∧
    (m'.zones z).pendingWriteIo = (m.zones z).pendingWriteIo
  active : m'.activeZone = m.activeZone

namespace CountInv

variable {m m' : Zmd} {h : Heap (Task α)} {r : Heap (ReadHook α)} {comp : List ℕ}
  {puts : List (ℕ × PutBy)} {pc : GcPc} {t : ℕ} {x : Task α}

theorem same (a : CountInv m h r comp puts pc) (hs : SameCounts m m') :
    CountInv m' h r comp puts pc := by
  refine ⟨fun z => ?_, fun z => ?_⟩
  · rw [(hs.counts z).1, heldOn, hs.active]
    exact a.refs z
  · rw [(hs.counts z).2]
    exact a.pend z

theorem quiet (a : CountInv m h r comp puts pc) (hx : h.get t = some x) {F : Task α → Task α}
    (hq : SameHolds x (F x)) : CountInv m (h.modify t F) r comp puts pc := by
  refine ⟨fun z => ?_, fun z => ?_⟩
  · rw [heldOn, Heap.sum_modify hx, hq.zoneRefs, sub_add_cancel]
    exact a.refs z
  · rw [writesOn, Heap.sum_modify hx, hq.pendingIn, sub_add_cancel]
    exact a.pend z

theorem alloc (a : CountInv m h r comp puts pc) (hw : ∀ z, ¬ x.Writes z)
    (he : ∀ z, ¬ x.Evacuates z) : CountInv m (h.alloc x) r comp puts pc := by
  refine ⟨fun z => ?_, fun z => ?_⟩
  · rw [heldOn, Heap.sum_alloc, Task.zoneRefs_eq_zero (hw z) (he z), add_zero]
    exact a.refs z
  · rw [writesOn, Heap.sum_alloc, Task.pendingIn_eq_zero (hw z), add_zero]
    exact a.pend z

theorem free (a : CountInv m h r comp puts pc) (hx : h.get t = some x) (hd : x.pc = .done) :
    CountInv m (h.free t) r comp puts pc := by
  have hw : ∀ z, ¬ x.Writes z := fun z h => h.2.2 hd
  refine ⟨fun z => ?_, fun z => ?_⟩
  · rw [heldOn, Heap.sum_free hx, Task.zoneRefs_eq_zero (hw z) fun h => h.2.2 hd, sub_zero]
    exact a.refs z
  · rw [writesOn, Heap.sum_free hx, Task.pendingIn_eq_zero (hw z), sub_zero]
    exact a.pend z

theorem reads_burn (a : CountInv m h r comp puts pc) : CountInv m h r.burn comp puts pc := by
  refine ⟨fun z => ?_, a.pend⟩
  rw [heldOn, Heap.sum_burn]
  exact a.refs z

/-- A reference on zone `z` is taken. -/
theorem get (a : CountInv m h r comp puts pc) {z : ℕ} {h' : Heap (Task α)} {r' : Heap (ReadHook α)}
    {puts' : List (ℕ × PutBy)} {pc' : GcPc} (hh : ∀ z', writesOn h' comp z' = writesOn h comp z')
    (hr : ∀ z', heldOn (getZone m z) h' r' comp puts' pc' z' =
      heldOn m h r comp puts pc z' + at1 z z') : CountInv (getZone m z) h' r' comp puts' pc' := by
  refine ⟨fun z' => ?_, fun z' => ?_⟩
  · rw [(getZone_counts m z z').1, hr, a.refs]
  · rw [(getZone_counts m z z').2, hh, a.pend]

/-- The holders change, but not their number. -/
theorem holders (a : CountInv m h r comp puts pc) {h' : Heap (Task α)} {r' : Heap (ReadHook α)}
    {comp' : List ℕ} {puts' : List (ℕ × PutBy)} {pc' : GcPc}
    (hr : ∀ z, heldOn m h' r' comp' puts' pc' z = heldOn m h r comp puts pc z)
    (hw : ∀ z, writesOn h' comp' z = writesOn h comp z) : CountInv m h' r' comp' puts' pc' := by
  refine ⟨fun z => ?_, fun z => ?_⟩
  · rw [hr, a.refs]
  · rw [hw, a.pend]

/-- A block of zone `z`, in slot `i`, is taken for a task. -/
theorem take (c : Conf) (a : CountInv m h r comp puts pc) {i : Fin 2} {z : ℕ}
    (ha : m.activeZone i = some z) (hx : h.get t = some x) {F : Task α → Task α}
    (hw : ∀ z', ¬ x.Writes z') (hw' : ∀ z', (F x).Writes z' ↔ z' = z) (hc : ¬ (F x).Completed)
    (he : ∀ z', (F x).Evacuates z' ↔ x.Evacuates z') :
    CountInv (takeBlock c m i z).1 (h.modify t F) r comp puts pc := by
  refine ⟨fun z' => ?_, fun z' => ?_⟩
  · have h1 := (takeBlock_counts c ha z').1
    have h2 := a.refs z'
    rw [heldOn] at h2 ⊢
    rw [Heap.sum_modify hx, Task.zoneRefs, Task.zoneRefs, if_neg (hw z'), if_congr (hw' z') rfl rfl,
      if_congr (he z') rfl rfl, ← at1]
    omega
  · have h1 := (takeBlock_counts c ha z').2
    have h2 := a.pend z'
    rw [writesOn] at h2 ⊢
    rw [Heap.sum_modify hx, Task.pendingIn, Task.pendingIn, if_neg fun h => hw z' h.1,
      if_congr (and_iff_left hc) rfl rfl, if_congr (hw' z') rfl rfl, ← at1]
    omega

/-- A reference on zone `z` is released. -/
theorem put (a : CountInv m h r comp puts pc) {z : ℕ} {puts' : List (ℕ × PutBy)}
    (hr : ∀ z', heldOn m h r comp puts' pc z' = heldOn m h r comp puts pc z' - at1 z z') :
    CountInv (Lbz.putZone m z) h r comp puts' pc := by
  refine ⟨fun z' => ?_, fun z' => ?_⟩
  · rw [(putZone_counts m z z').1, a.refs, ← hr]
    rfl
  · rw [(putZone_counts m z z').2, a.pend]

/-- The write of a task to zone `z` is completed. -/
theorem complete (a : CountInv m h r comp puts pc) {z : ℕ} {h' : Heap (Task α)} {comp' : List ℕ}
    {puts' : List (ℕ × PutBy)}
    (hr : ∀ z', heldOn m h' r comp' puts' pc z' = heldOn m h r comp puts pc z')
    (hw : ∀ z', writesOn h' comp' z' = writesOn h comp z' - at1 z z') :
    CountInv (zoneCompleteWrite m z) h' r comp' puts' pc := by
  refine ⟨fun z' => ?_, fun z' => ?_⟩
  · rw [(completeWrite_counts m z z').1, a.refs, ← hr]
    rfl
  · rw [(completeWrite_counts m z z').2, a.pend, hw]

end CountInv

namespace SameCounts

variable {m m' m'' : Zmd}

theorem trans (h : SameCounts m m') (h' : SameCounts m' m'') : SameCounts m m'' :=
  ⟨fun z => ⟨(h'.counts z).1.trans (h.counts z).1, (h'.counts z).2.trans (h.counts z).2⟩,
    h'.active.trans h.active⟩

theorem modZone (m : Zmd) (z : ℕ) {f : Zone → Zone}
    (hf : ∀ x, (f x).refcount = x.refcount ∧ (f x).pendingWriteIo = x.pendingWriteIo) :
    SameCounts m (m.modZone z f) :=
  ⟨fun z' => modZone_counts m z z' hf, rfl⟩

theorem updateReverseMap (c : Conf) (m : Zmd) (z p : ℕ) (v : Option ℕ) :
    SameCounts m (updateReverseMap c m z p v) := modZone m z fun _ => ⟨rfl, rfl⟩

theorem invalidate (c : Conf) (m : Zmd) (z p : ℕ) : SameCounts m (invalidate c m z p) :=
  ⟨fun z' => invalidate_counts c m z z' p, rfl⟩

theorem invalidateOld (c : Conf) (m : Zmd) (o : Option ℕ) :
    SameCounts m (invalidateOld c m o) := by
  cases o with
  | none => exact ⟨fun _ => ⟨rfl, rfl⟩, rfl⟩
  | some p => exact invalidate c m _ p

/-- What `__gc_task_callback` does to the maps. -/
theorem remap (c : Conf) (m : Zmd) (z v p q : ℕ) (b : Option ℕ) (P : Prop) [Decidable P] :
    SameCounts m (if P then Lbz.updateReverseMap c m z p b
      else Lbz.invalidate c (Lbz.updateReverseMap c m z p b) v q) := by
  split_ifs
  · exact updateReverseMap c m z p b
  · exact (updateReverseMap c m z p b).trans (invalidate c _ v q)

end SameCounts

/-! ## Every move keeps the counters -/

section

variable {c : Conf} {k k' : Core α} {l : Label}

theorem Task.forWrite_holds (ty : TaskType) (b : ℕ) (d : α) (more : List α) (hty : ty ≠ .gc)
    (z : ℕ) :
    ¬ (Task.forWrite ty b d more).Writes z ∧ ¬ (Task.forWrite ty b d more).Evacuates z :=
  ⟨nofun, fun h => hty h.1⟩

/-- A block of zone `z`, in slot `i`, is taken for a task. -/
theorem Counts.takeBlock (a : Counts k) {t z : ℕ} {i : Fin 2} {x : Task α} (hs : x.Shape)
    (hx : k.tasks.get t = some x) (hst : x.status = .allocRes)
    (hpc : x.pc = .submit ∨ ∃ j, x.pc = .fallback j) (ha : k.zmd.activeZone i = some z)
    (st : TaskStatus) (pc : TaskPc) (b : IntegBuf) (hst' : st.hasBlock = true) (hd : pc ≠ .done)
    (hc : ∀ o, pc ≠ .callback o) :
    CountInv (takeBlock c k.zmd i z).1
      (k.tasks.modify t fun x => { x with zone := some z, status := st, pc := pc, integ := b })
      k.reads k.completes k.puts k.gcPc := by
  have hpd : x.pc ≠ .done := by rcases hpc with hpc | ⟨j, hpc⟩ <;> rw [hpc] <;> rintro ⟨⟩
  set y : Task α := { x with zone := some z, status := st, pc := pc, integ := b }
  have hw : ∀ z', ¬ x.Writes z' := fun z' h => by
    have := h.2.1
    rw [hst] at this
    cases this
  have hw' : ∀ z', y.Writes z' ↔ z' = z := fun z' =>
    ⟨fun h => (Option.some.inj h.1).symm, fun h => ⟨h ▸ rfl, hst', hd⟩⟩
  have he : ∀ z', y.Evacuates z' ↔ x.Evacuates z' := fun z' => by
    refine and_congr_right fun hty => ?_
    obtain ⟨⟨v, hp⟩, -⟩ := hs.gc hty
    obtain ⟨h1, h2⟩ : x.zone = none ∧ x.readZone = some v := by cases hp <;> simp_all
    have : y.victim = x.victim := by
      simp only [Task.victim, show y.readZone = some v from h2, h2, Option.some_or]
    rw [this]
    exact and_congr_right fun _ => iff_of_true hd hpd
  exact CountInv.take c a ha hx (F := fun x => { x with
    zone := some z, status := st, pc := pc, integ := b }) hw hw' (fun h => h.elim hc) he

/-- The write of a gc task is completed at its zone. -/
theorem Counts.completeWrite (a : Counts k) {g z : ℕ} {x : Task α} (hx : k.tasks.get g = some x)
    (hst : x.status.hasBlock = true) (hz : x.zone = some z) (hd : x.pc ≠ .done)
    (hc : ∀ o, x.pc ≠ .callback o) {F : Task α → Task α} (hF : (F x).Completed)
    (hz' : (F x).zone = x.zone) (hst' : (F x).status = x.status) (hty : (F x).type = x.type)
    (hv : (F x).readZone = x.readZone) :
    CountInv (zoneCompleteWrite k.zmd z) (k.tasks.modify g F) k.reads k.completes k.puts k.gcPc := by
  have hpd : (F x).pc ≠ .done := by
    obtain ⟨o, h⟩ := hF
    rw [h]
    nofun
  have hw : ∀ z', x.Writes z' ↔ z' = z := fun z' =>
    ⟨fun h => Option.some.inj (h.1.symm.trans hz), fun h => ⟨h ▸ hz, hst, hd⟩⟩
  have hnc : ¬ x.Completed := fun ⟨o, h⟩ => hc o h
  have h1 : ∀ z', (F x).Writes z' ↔ x.Writes z' := fun z' => by
    rw [Task.Writes, Task.Writes, hz', hst']
    exact and_congr_right fun _ => and_congr_right fun _ => iff_of_true hpd hd
  have h2 : ∀ z', (F x).Evacuates z' ↔ x.Evacuates z' := fun z' => by
    rw [Task.Evacuates, Task.Evacuates, Task.victim, Task.victim, hty, hz', hv]
    exact and_congr_right fun _ => and_congr_right fun _ => iff_of_true hpd hd
  refine CountInv.complete a (fun z' => ?_) fun z' => ?_
  · rw [heldOn, heldOn, Heap.sum_modify hx, Task.zoneRefs, Task.zoneRefs, if_congr (h1 z') rfl rfl,
      if_congr (h2 z') rfl rfl, sub_add_cancel]
  · rw [writesOn, writesOn, Heap.sum_modify hx, Task.pendingIn, Task.pendingIn,
      if_congr (and_iff_left hnc) rfl rfl, if_congr (hw z') rfl rfl, ← at1, if_neg fun h => h.2 hF]
    ring

/-- A gc task is called back after its write, and gives up both zones. -/
theorem Counts.release (a : Counts k) {g z v : ℕ} {o : Option ℕ} {x : Task α} (hs : x.Shape)
    (hx : k.tasks.get g = some x) (hpc : x.pc = .callback o) (hz : x.zone = some z)
    (hv : x.readZone = some v) :
    CountInv k.zmd (k.tasks.modify g fun x => { x with pc := .done, refcount := x.refcount - 1 })
      k.reads k.completes ((v, .gc) :: (z, .gc) :: k.puts) k.gcPc := by
  obtain ⟨hty, hst, -⟩ := hs.callback hpc
  have hpd : x.pc ≠ .done := by rw [hpc]; nofun
  have hw : ∀ z', x.Writes z' ↔ z' = z := fun z' =>
    ⟨fun h => Option.some.inj (h.1.symm.trans hz), fun h => ⟨h ▸ hz, by rw [hst]; rfl, hpd⟩⟩
  have he : ∀ z', x.Evacuates z' ↔ z' = v := fun z' => by
    have : x.victim = some v := by rw [Task.victim, hv, Option.some_or]
    rw [Task.Evacuates, this, Option.some.injEq]
    exact ⟨fun h => h.2.1.symm, fun h => ⟨hty, h.symm, hpd⟩⟩
  have hc : x.Completed := ⟨_, hpc⟩
  refine CountInv.holders a (fun z' => ?_) fun z' => ?_
  · rw [heldOn, heldOn, Heap.sum_modify hx, count_cons_fst, count_cons_fst, Task.zoneRefs,
      if_congr (hw z') rfl rfl, if_congr (he z') rfl rfl,
      Task.zoneRefs_eq_zero (fun h => h.2.2 rfl) fun h => h.2.2 rfl, ← at1, ← at1]
    ring
  · rw [writesOn, writesOn, Heap.sum_modify hx, Task.pendingIn,
      Task.pendingIn_eq_zero fun h => h.2.2 rfl, if_neg fun h => h.2 hc]
    ring

/-- A gc task that has not written is called back, and gives up its victim. -/
theorem Counts.evacuated (a : Counts k) {g v : ℕ} {x : Task α} (hx : k.tasks.get g = some x)
    (hty : x.type = .gc) (hst : x.status.hasBlock ≠ true) (hd : x.pc ≠ .done)
    (hv : x.readZone = some v) {F : Task α → Task α} (hF : (F x).pc = .done) :
    CountInv k.zmd (k.tasks.modify g F) k.reads k.completes ((v, .gc) :: k.puts) k.gcPc := by
  have he : ∀ z', x.Evacuates z' ↔ z' = v := fun z' => by
    have : x.victim = some v := by rw [Task.victim, hv, Option.some_or]
    rw [Task.Evacuates, this, Option.some.injEq]
    exact ⟨fun h => h.2.1.symm, fun h => ⟨hty, h.symm, hd⟩⟩
  have hw : ∀ z', ¬ x.Writes z' := fun z' h => hst h.2.1
  refine CountInv.holders a (fun z' => ?_) fun z' => ?_
  · rw [heldOn, heldOn, Heap.sum_modify hx, count_cons_fst, Task.zoneRefs, if_neg (hw z'),
      if_congr (he z') rfl rfl, Task.zoneRefs_eq_zero (fun h => h.2.2 hF) fun h => h.2.2 hF, ← at1]
    ring
  · rw [writesOn, writesOn, Heap.sum_modify hx, Task.pendingIn_eq_zero (hw z'),
      Task.pendingIn_eq_zero fun h => h.2.2 hF]
    ring

variable [Inhabited α]

theorem Task.forGc_holds (v p b z : ℕ) : (Task.forGc v p b : Task α).zoneRefs z = at1 v z ∧
    (Task.forGc v p b : Task α).pendingIn z = 0 := by
  have hw : ¬ (Task.forGc v p b : Task α).Writes z := nofun
  refine ⟨?_, Task.pendingIn_eq_zero hw⟩
  have he : (Task.forGc v p b : Task α).Evacuates z ↔ v = z := by
    simp [Task.Evacuates, Task.forGc, Task.victim]
  rw [Task.zoneRefs, if_neg hw, if_congr he rfl rfl, at1, zero_add, if_congr eq_comm rfl rfl]

/-- **Every move keeps the counters.** -/
theorem Counts.move (B : Base c k) (a : Counts k) (hm : Move c k l k') : Counts k' := by
  obtain ⟨pl, P⟩ := B.places
  have T := B.tasks
  have Q := B.queues
  cases hm with
  | retryUsers | retryGcs | retryDone | wkStart | wkIdle | wkNext | wkSticky | wkFree | wkEmpty
  | wkCarried | wkFail => exact a
  | readMiss => exact CountInv.reads_burn a
  | submitWrite b d more hty =>
    exact CountInv.alloc a (fun z => (Task.forWrite_holds _ b d more hty z).1)
      fun z => (Task.forWrite_holds _ b d more hty z).2
  | @conflict t tk x y hx hty hst hpc htk hy hb =>
    have hf : x.Fresh := by rw [Task.Fresh, if_neg hty]; exact hst
    have hne := TaskInv.ne_of_fresh T hx hf htk
    refine (CountInv.quiet a hy .incRef).quiet (x := x) (by rw [Heap.get_modify_ne hne, hx]) ?_
    exact .of_pc (by simp) (by rw [hpc]; simp) (by simp) (by rw [hpc]; rintro _ ⟨⟩)
  | @insert t x hx hty hst hpc hfree =>
    exact CountInv.quiet a hx (.of_status (by rw [hst]; rintro ⟨⟩) (by rintro ⟨⟩) (fun h => absurd h hty) rfl)
  | @openZone i z l ha he =>
    refine ⟨fun z' => ?_, fun z' => ?_⟩
    · have h1 := (openZone_counts { k.zmd with
        emptyZoneList := l, emptyZoneCount := k.zmd.emptyZoneCount - 1 } z z' i).1
      have h2 := slotRefs_update k.zmd.activeZone i (some z) z'
      rw [ha, if_neg (by rintro ⟨⟩), some_eq_at1, sub_zero] at h2
      refine h1.trans ?_
      have h3 := a.refs z'
      rw [heldOn] at h3 ⊢
      change (k.zmd.zones z').refcount + _ = _ + slotRefs (Function.update _ _ _) z' + _
      rw [h2, h3]
      ring
    · exact (openZone_counts _ z z' i).2.trans (a.pend z')
  | @dispatch t z i x log hx hst hpc ha hres hlog =>
    exact Counts.takeBlock a (T.shape t x hx) hx hst hpc ha .dispatch .device (.buf log) rfl (by rintro ⟨⟩)
      (by rintro _ ⟨⟩)
  | @fallback t i x hx hst hpc | @fallbackFail t i x hx hst hpc =>
    refine CountInv.quiet a hx (.of_pc ?_ ?_ ?_ ?_)
    · rintro ⟨⟩
    · rw [hpc]
      rintro ⟨⟩
    · rintro _ ⟨⟩
    · rw [hpc]
      rintro _ ⟨⟩
  | @pend t x hx hty hst hpc =>
    refine CountInv.quiet a hx (.of_pc (by rintro ⟨⟩) ?_ (by rintro _ ⟨⟩) ?_) <;>
      rcases hpc with hpc | ⟨j, hpc⟩ <;> rw [hpc] <;> simp
  | @append t z off x log hx hpc hz hi hoff hfree =>
    exact CountInv.quiet a hx (.of_pc (by simp) (by rw [hpc]; simp) (by simp) (by rw [hpc]; rintro _ ⟨⟩))
  | @apply t z p x hx hty hpc hz =>
    refine CountInv.quiet (a.same ((SameCounts.invalidateOld c k.zmd _).trans
      (.updateReverseMap c _ z p _))) hx ?_
    exact .of_pc (by simp) (by rw [hpc]; simp) (by simp) (by rw [hpc]; rintro _ ⟨⟩)
  | @untree t z x hx hpc hz =>
    obtain ⟨hty, hst, -⟩ := (T.shape t x hx).ended hpc
    have hst : x.status.hasBlock = true := by rcases hst with hst | hst <;> rw [hst] <;> rfl
    have hw : ∀ z', x.Writes z' ↔ z' = z := fun z' =>
      ⟨fun h => Option.some.inj (h.1.symm.trans hz), fun h => ⟨h ▸ hz, hst, by rw [hpc]; rintro ⟨⟩⟩⟩
    have hc : ¬ x.Completed := by
      rintro ⟨o, h⟩
      rw [hpc] at h
      cases h
    have he : ∀ z', ¬ x.Evacuates z' := fun z' h => hty h.1
    refine CountInv.holders a (fun z' => ?_) fun z' => ?_
    · rw [heldOn, heldOn, Heap.sum_modify hx, count_cons_at1, Task.zoneRefs,
        Task.zoneRefs_eq_zero (fun h => h.2.2 rfl) fun h => h.2.2 rfl, if_congr (hw z') rfl rfl,
        if_neg (he z'), ← at1]
      ring
    · rw [writesOn, writesOn, Heap.sum_modify hx, count_cons_at1, Task.pendingIn,
        Task.pendingIn_eq_zero fun h => h.2.2 rfl, if_congr (and_iff_left hc) rfl rfl,
        if_congr (hw z') rfl rfl, ← at1]
      ring
  | dropRef ht hx hr => exact CountInv.quiet a hx .decRef
  | destroy ht hx hr => exact CountInv.free a hx (TaskInv.last T hx ht hr).1
  | @destroyCall t g v x y ht hx hr hty hl hy hgc hpc hv =>
    have hd := (TaskInv.last T hx ht hr).1
    obtain ⟨⟨w, hp⟩, -⟩ := (T.shape g y hy).gc hgc
    have hne : t ≠ g := by
      rintro rfl
      cases hx.symm.trans hy
      exact hty hgc
    have hw : ∀ z', ¬ y.Writes z' := fun z' h => by
      have hst := h.2.1
      rw [(hp.waiting hpc).1] at hst
      cases hst
    have he : ∀ z', y.Evacuates z' ↔ z' = v := fun z' => by
      have : y.victim = some v := by rw [Task.victim, hv, Option.some_or]
      rw [Task.Evacuates, this, Option.some.injEq]
      exact ⟨fun h => h.2.1.symm, fun h => ⟨hgc, h.symm, by rw [hpc]; rintro ⟨⟩⟩⟩
    refine CountInv.free (x := x) (CountInv.holders a (fun z' => ?_) fun z' => ?_) ?_ hd
    · rw [heldOn, heldOn, Heap.sum_free hy, count_cons_fst, Task.zoneRefs, if_neg (hw z'),
        if_congr (he z') rfl rfl, ← at1]
      ring
    · rw [writesOn, writesOn, Heap.sum_free hy, Task.pendingIn_eq_zero (hw z'), sub_zero]
    · rw [Heap.get_free, if_neg hne, hx]
  | @complete z hz =>
    refine CountInv.complete a (fun z' => ?_) fun z' => ?_
    · rw [heldOn, heldOn, count_erase_at1 hz, count_cons_fst]
      ring
    · rw [writesOn, writesOn, count_erase_at1 hz]
      ring
  | @putZone z b hz =>
    refine CountInv.put a fun z' => ?_
    rw [heldOn, heldOn, count_erase_fst hz]
    ring
  | @readHit b p hb =>
    refine CountInv.get a (fun _ => rfl) fun z' => ?_
    rw [heldOn, heldOn, Heap.sum_alloc]
    change _ + (_ + if getZoneByPbid c p = z' then 1 else 0) + _ + _ +
      slotRefs k.zmd.activeZone z' + _ = _
    rw [if_congr eq_comm rfl rfl, ← at1]
    ring
  | @serve r x hx hs =>
    refine CountInv.holders a (fun z => ?_) fun _ => rfl
    rw [heldOn, heldOn, Heap.sum_modify hx]
    change _ + (_ - x.zoneRef z + x.zoneRef z) + _ + _ + _ + _ = _
    ring
  | @endRead r x v hx hs =>
    refine CountInv.holders a (fun z => ?_) fun _ => rfl
    rw [heldOn, heldOn, Heap.sum_free hx, count_cons_fst, ReadHook.zoneRef,
      if_congr eq_comm rfl rfl, ← at1]
    ring
  | @nextUser t l hr hret =>
    obtain ⟨x, hx, hty, hpc⟩ := Q.users.2 t (by simp [hr, RetryPc.usersLeft])
    exact CountInv.quiet a hx (.of_pc (by simp) (by rw [hpc]; simp) (by simp) (by rw [hpc]; rintro _ ⟨⟩))
  | @nextGc t l hr hret =>
    obtain ⟨x, hx, hty, hpc⟩ := Q.gcs.2 t (by simp [hr, RetryPc.gcsLeft])
    exact CountInv.quiet a hx (.of_pc (by simp) (by rw [hpc]; simp) (by simp) (by rw [hpc]; rintro _ ⟨⟩))
  | @select z mod hpc hbusy hz =>
    refine ⟨fun z' => ?_, fun z' => ?_⟩
    · have h3 := a.refs z'
      rw [heldOn, hpc] at h3
      rw [heldOn, (takeVictim_counts k.zmd z z').1, h3, scanRef_scan]
      change _ = _ + slotRefs k.zmd.activeZone z' + _
      rw [scanRef]
      ring
    · exact (takeVictim_counts k.zmd z z').2.trans (a.pend z')
  | @scanFree z iter hpc hi =>
    refine CountInv.holders a (fun z' => ?_) fun _ => rfl
    rw [heldOn, heldOn, hpc, scanRef_scan, scanRef_scan]
  | @scanBlock z iter b hpc hi =>
    refine CountInv.get a (fun z' => ?_) fun z' => ?_
    · rw [writesOn, Heap.sum_alloc, (Task.forGc_holds _ _ _ _).2, add_zero]
      rfl
    · rw [heldOn, heldOn, Heap.sum_alloc, (Task.forGc_holds _ _ _ _).1, hpc, scanRef_scan,
        scanRef_scan]
      change _ + _ + _ + _ + slotRefs k.zmd.activeZone z' + _ = _
      ring
  | @scanEnd z iter pos hpc hi =>
    refine CountInv.same (CountInv.holders a (fun z' => ?_) fun _ => rfl)
      (.modZone k.zmd z fun _ => ⟨rfl, rfl⟩)
    rw [heldOn, heldOn, hpc, scanRef_scan, count_cons_fst, scanRef]
    ring
  | @gcServe g x hx hpc =>
    obtain ⟨hty, -⟩ := Tame.gcServe true x.data (T.shape g x hx) hpc
    obtain ⟨⟨v, hp⟩, -⟩ := (T.shape g x hx).gc hty
    have hst : x.status.hasBlock ≠ true := by cases hp <;> simp_all [TaskStatus.hasBlock]
    exact CountInv.quiet a hx (.of_status hst hst
      (fun _ => ⟨rfl, iff_of_false (by rintro ⟨⟩) (by rw [hpc]; rintro ⟨⟩)⟩) rfl)
  | @gcReadEnd g x hx hpc =>
    obtain ⟨hty, -⟩ := Tame.gcReadEnd (T.shape g x hx) hpc
    obtain ⟨⟨v, hp⟩, -⟩ := (T.shape g x hx).gc hty
    obtain ⟨hst, hz, hv⟩ : x.status.hasBlock ≠ true ∧ x.zone = some v ∧ x.readZone = some v := by
      cases hp <;> simp_all [TaskStatus.hasBlock]
    refine CountInv.quiet a hx (.of_status hst hst
      (fun _ => ⟨?_, iff_of_false (by rintro ⟨⟩) (by rw [hpc]; rintro ⟨⟩)⟩) rfl)
    simp only [Task.victim, hz, hv, Option.some_or, Option.none_or]
  | @gcFind g tk x y hx hty hst hpc htk hy hb =>
    have hf : x.Fresh := by
      rw [Task.Fresh, if_pos hty, hpc]
      exact ⟨hst, by rintro ⟨⟩, by rintro ⟨⟩, by rintro ⟨⟩⟩
    have hne := TaskInv.ne_of_fresh T hx hf htk
    obtain ⟨⟨v, hp⟩, -⟩ := (T.shape g x hx).gc hty
    obtain ⟨hz, hv⟩ : x.zone = some v ∧ x.readZone = none := by cases hp <;> simp_all
    have hst' : x.status.hasBlock ≠ true := by rw [hst]; rintro ⟨⟩
    refine (CountInv.quiet a hy .incRef).quiet (x := x) (by rw [Heap.get_modify_ne hne, hx])
      (.of_status hst' hst' (fun _ => ⟨?_, iff_of_false (by rintro ⟨⟩) (by rw [hpc]; rintro ⟨⟩)⟩) rfl)
    simp only [Task.victim, hz, hv, Option.some_or, Option.none_or]
  | @gcInsert g x hx hty hst hpc hfree =>
    obtain ⟨⟨v, hp⟩, -⟩ := (T.shape g x hx).gc hty
    obtain ⟨hz, hv⟩ : x.zone = some v ∧ x.readZone = none := by cases hp <;> simp_all
    have hst' : x.status.hasBlock ≠ true := by rw [hst]; rintro ⟨⟩
    refine CountInv.quiet a hx
      (.of_status hst' hst' (fun _ => ⟨?_, iff_of_false (by rintro ⟨⟩) (by rw [hpc]; rintro ⟨⟩)⟩) rfl)
    simp only [Task.victim, hz, hv, Option.some_or, Option.none_or]
  | @gcFound g tk x hx hty hpc =>
    obtain ⟨y, hy, -⟩ := T.found g x hx tk hpc
    obtain ⟨⟨v, hp⟩, -⟩ := (T.shape g x hx).gc hty
    have hst : x.status.hasBlock ≠ true := by cases hp <;> simp_all [TaskStatus.hasBlock]
    have a' := CountInv.quiet a hx
      (F := fun x => { x with error := some .enoent, pc := .waiting tk })
      (.of_status hst hst (fun _ => ⟨rfl, iff_of_false (by rintro ⟨⟩) (by rw [hpc]; rintro ⟨⟩)⟩) rfl)
    by_cases e : tk = g
    · subst e
      exact a'.quiet (Heap.get_modify_self hx _) (.link _)
    · exact a'.quiet (x := y) (by rw [Heap.get_modify_ne e, hy]) (.link _)
  | @peek b p hb =>
    refine CountInv.get a (fun _ => rfl) fun z' => ?_
    rw [heldOn, heldOn, count_cons_fst]
    change _ + _ + _ + _ + slotRefs k.zmd.activeZone z' + _ = _
    ring
  | @gcSkip g x hx hty hpc hm =>
    obtain ⟨⟨v, hp⟩, -⟩ := (T.shape g x hx).gc hty
    have hst : x.status.hasBlock ≠ true := by cases hp <;> simp_all [TaskStatus.hasBlock]
    exact CountInv.quiet a hx (.of_status hst hst
      (fun _ => ⟨rfl, iff_of_false (by rintro ⟨⟩) (by rw [hpc]; rintro ⟨⟩)⟩) rfl)
  | @gcPass g x hx hty hpc hm =>
    obtain ⟨⟨v, hp⟩, -⟩ := (T.shape g x hx).gc hty
    have hst : x.status.hasBlock ≠ true := by cases hp <;> simp_all [TaskStatus.hasBlock]
    exact CountInv.quiet a hx (.of_status hst (by rintro ⟨⟩)
      (fun _ => ⟨rfl, iff_of_false (by rintro ⟨⟩) (by rw [hpc]; rintro ⟨⟩)⟩) rfl)
  | @gcWritten g z p x hx hty hpc hz =>
    refine Counts.completeWrite a hx ?_ hz (by rw [hpc]; simp) (by rw [hpc]; rintro _ ⟨⟩) ⟨_, rfl⟩ rfl rfl
      rfl rfl
    rw [((T.shape g x hx).written hpc).1]
    rfl
  | @gcWriteFail g z x hx hty hpc hz =>
    refine Counts.completeWrite a hx ?_ hz (by rw [hpc]; simp) (by rw [hpc]; rintro _ ⟨⟩) ⟨_, rfl⟩ rfl rfl
      rfl rfl
    rw [((T.shape g x hx).failed hpc).1.resolve_right fun h => h.1 hty]
    rfl
  | @remap g z v p x hx hty hpc hl hz hv hm =>
    exact CountInv.same (Counts.release a (T.shape g x hx) hx hpc hz hv)
      (.remap c k.zmd z v p _ _ _)
  | @release g z v o x hx hty hpc hl hz hv => exact Counts.release a (T.shape g x hx) hx hpc hz hv
  | @skipEnd g v x hx hty hpc hl hv =>
    obtain ⟨⟨w, hp⟩, -⟩ := (T.shape g x hx).gc hty
    exact Counts.evacuated a hx hty (by cases hp <;> simp_all [TaskStatus.hasBlock])
      (by rw [hpc]; rintro ⟨⟩) hv rfl
  | @gcReadFail g v x hx hpc hv =>
    have hty := (T.shape g x hx).read_type hpc
    obtain ⟨⟨w, hp⟩, -⟩ := (T.shape g x hx).gc hty
    exact Counts.evacuated a hx hty (by cases hp <;> simp_all [TaskStatus.hasBlock])
      (by rw [hpc]; rintro ⟨⟩) hv rfl
  | @dispatchFail t z i x hx hty hst hpc ha =>
    exact Counts.takeBlock a (T.shape t x hx) hx hst hpc ha .ioWriting .failed .err rfl (by rintro ⟨⟩) (by rintro _ ⟨⟩)
  | @allocFail t x hx hty hst hpc =>
    refine CountInv.quiet a hx ?_
    have hw : ∀ z', ¬ x.Writes z' := fun z' h => by
      have := h.2.1
      rw [hst] at this
      cases this
    exact ⟨fun z' => iff_of_false (fun h => h.2.2 rfl) (hw z'), fun z' h => absurd h (hw z'),
      fun z' => iff_of_false (fun h => hty h.1) fun h => hty h.1⟩
  | devFail hx hpc | writeFail hx hty hpc | gcServeFail hx hpc =>
    refine CountInv.quiet a hx (.of_pc ?_ ?_ ?_ ?_)
    · rintro ⟨⟩
    · rw [hpc]
      rintro ⟨⟩
    · rintro _ ⟨⟩
    · rw [hpc]
      rintro _ ⟨⟩
  | @serveFail r x hx hs =>
    refine CountInv.holders a (fun z => ?_) fun _ => rfl
    rw [heldOn, heldOn, Heap.sum_modify hx]
    change _ + (_ - x.zoneRef z + x.zoneRef z) + _ + _ + _ + _ = _
    ring
  | @wkFull i =>
    exact CountInv.same a (.modZone k.zmd i (f := fun x => { x with state := .closed })
      fun _ => ⟨rfl, rfl⟩)
  | @wkClose i =>
    exact CountInv.same a (.modZone k.zmd i (f := fun x => { x with flags := oneFlag .full })
      fun _ => ⟨rfl, rfl⟩)
  | wkLink | wkPublish => exact CountInv.same a ⟨fun _ => ⟨rfl, rfl⟩, rfl⟩
  | @wkReset i => exact CountInv.same a (.modZone k.zmd i (f := Zone.reset) fun _ => ⟨rfl, rfl⟩)
  | @discard b p hb => exact CountInv.same a (.invalidateOld c k.zmd (some p))

end

/-! ## The start -/

/-- The counters of the first `n` zones of a report: only the slots hold a zone. -/
structure Laid (n : ℕ) (m : Zmd) : Prop where
  counts : ∀ z, (m.zones z).refcount = slotRefs m.activeZone z ∧ (m.zones z).pendingWriteIo = 0
  slots : ∀ i z, m.activeZone i = some z → z < n

theorem Laid.start : Laid 0 emptyZmd := ⟨fun _ => ⟨rfl, rfl⟩, nofun⟩

theorem Laid.initZone {c : Conf} {m m' : Zmd} {b : BlkZone} {num : ℕ} (a : Laid num m)
    (h : initZone c m num b = some m') : Laid (num + 1) m' := by
  obtain ⟨m₁, h1, h2, h3, -⟩ := initZone_places h
  have hset : ∀ x, (b.setCond x).refcount = x.refcount ∧
      (b.setCond x).pendingWriteIo = x.pendingWriteIo := fun x => by
    unfold BlkZone.setCond
    split <;> exact ⟨rfl, rfl⟩
  have hnew : slotRefs m.activeZone num = 0 := by
    have hno : ∀ i, m.activeZone i ≠ some num := fun i hi => lt_irrefl _ (a.slots i num hi)
    rw [slotRefs, if_neg (hno 0), if_neg (hno 1)]
    rfl
  -- the new zone is held by the slot it gets, if it gets one
  have key : ∀ (x : Zone), m₁.zones = Function.update m.zones num x → x.pendingWriteIo = 0 →
      x.refcount = slotRefs m₁.activeZone num →
      (∀ z ≠ num, slotRefs m₁.activeZone z = slotRefs m.activeZone z) →
      (∀ i z, m₁.activeZone i = some z → z = num ∨ m.activeZone i = some z) →
      Laid (num + 1) m' := fun x hx hp hr ho ha => by
    refine ⟨fun z => ?_, fun i z hi => ?_⟩
    · rw [h3, hx, h2.active, Function.update_apply]
      split_ifs with e
      · subst e
        exact ⟨(hset x).1.trans hr, (hset x).2.trans hp⟩
      · rw [ho z e]
        exact a.counts z
    · rw [h2.active] at hi
      rcases ha i z hi with rfl | h
      · exact Nat.lt_succ_self z
      · exact (a.slots i z h).trans (Nat.lt_succ_self num)
  unfold placeZone at h1
  simp only at h1
  split_ifs at h1
  · cases h1
    exact key _ rfl rfl hnew.symm (fun _ _ => rfl) fun _ _ => Or.inr
  · obtain ⟨i, hi, rfl⟩ := Option.map_eq_some_iff.mp h1
    have hold := freeStream_eq hi
    refine key _ rfl rfl ?_ (fun z e => ?_) fun j z hj => ?_
    · refine Eq.trans ?_ (slotRefs_update m.activeZone i (some num) num).symm
      rw [hnew, hold, if_neg nofun, if_pos rfl]
      rfl
    · refine (slotRefs_update m.activeZone i (some num) z).trans ?_
      rw [hold, if_neg nofun, if_neg fun h => e (Option.some.inj h).symm]
      ring
    · have hj : Function.update m.activeZone i (some num) j = some z := hj
      rw [Function.update_apply] at hj
      split_ifs at hj
      · exact Or.inl (Option.some.inj hj).symm
      · exact Or.inr hj
  · cases h1
    exact key _ rfl rfl hnew.symm (fun _ _ => rfl) fun _ _ => Or.inr

theorem Laid.initZones {c : Conf} : ∀ {l : List BlkZone} {m m' : Zmd} {num : ℕ}, Laid num m →
    Lbz.initZones c m num l = some m' → Laid (num + l.length) m'
  | [], m, m', num, a, h => by
    cases h
    exact a
  | b :: l, m, m', num, a, h => by
    obtain ⟨m₁, h1, h2⟩ := Option.bind_eq_some_iff.mp h
    have := (a.initZone h1).initZones h2
    rwa [List.length_cons, Nat.add_comm l.length, ← Nat.add_assoc]

/-- Nothing but its slots holds a zone of a device that has just been started. -/
theorem Counts.start {o : Options} {report : List BlkZone} {s : Sys α}
    (h : initSys o report = some s) : Counts s.core := by
  obtain ⟨-, m, h1, rfl⟩ := initSys_eq h
  have b := Laid.start.initZones h1
  refine ⟨fun z => (b.counts z).1.trans ?_, fun z => (b.counts z).2.trans ?_⟩
  · change slotRefs m.activeZone z =
      Heap.empty.sum _ + Heap.empty.sum _ + 0 + 0 + slotRefs m.activeZone z + 0
    rw [Heap.sum_empty, Heap.sum_empty]
    ring
  · change 0 = Heap.empty.sum _ + 0
    rw [Heap.sum_empty]
    rfl

end Lbz
