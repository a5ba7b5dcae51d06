import Lbz.Ownership
import Lbz.Reload
import Lbz.SubmitBio

/-!
# The write pointers of the driver and of the device

A flush of the checkpoint with several blocks gets one block of a zone, and appends them all. In a
run whose bios have one block each:

* `slack c k z`: the blocks of zone `z` that are allocated, and neither on the device nor on their
  way to it; **`Move.slack`**: only an error adds to them;
* **`append_fits`**: an append that is on its way finds a free block in its zone, whatever fails;
* **`write_pointers_agree`**: without an error what the driver has allocated in a zone is what the
  device has of it, with the appends on their way;
* `write_pointers_flush`: a flush of two blocks leaves the driver behind.
-/

namespace Lbz

variable {α : Type} {c : Conf}

/-- A total of ones counts. -/
theorem Heap.sum_ite_eq_card {β : Type} {P : β → Prop} [DecidablePred P] (h : Heap β) :
    h.sum (fun x => if P x then 1 else 0) =
      ((Finset.range h.next).filter fun i => h.At i P).card := by
  obtain ⟨l⟩ := h
  induction l using List.reverseRecOn with
  | nil => rfl
  | append_singleton l o ih =>
    -- the last cell is a new one
    have hnew : ∀ h' : Heap β, h'.next = (Heap.mk l).next + 1 →
        (∀ i < (Heap.mk l).next, h'.get i = (Heap.mk l).get i) →
        (((Finset.range h'.next).filter fun i => h'.At i P).card : ℤ) =
          ((Finset.range (Heap.mk l).next).filter fun i => (Heap.mk l).At i P).card +
            if h'.At (Heap.mk l).next P then 1 else 0 := fun h' hn hg => by
      have hold : ((Finset.range (Heap.mk l).next).filter fun i => h'.At i P) =
          (Finset.range (Heap.mk l).next).filter fun i => (Heap.mk l).At i P :=
        Finset.filter_congr fun i hi => by rw [Heap.At, Heap.At, hg i (Finset.mem_range.mp hi)]
      rw [hn, Finset.range_add_one, Finset.filter_insert, hold]
      split_ifs
      · rw [Finset.card_insert_of_notMem fun hm => by simp at hm]
        push_cast
        rfl
      · rw [add_zero]
    cases o with
    | none =>
      change (Heap.mk l).burn.sum _ = _
      rw [Heap.sum_burn, ih]
      refine ((hnew (Heap.mk l).burn (Heap.next_burn _) fun i _ => Heap.get_burn _ i).trans ?_).symm
      rw [if_neg, add_zero]
      rintro ⟨x, hx, -⟩
      rw [Heap.get_burn, Heap.get_eq_none_of_next_le le_rfl] at hx
      cases hx
    | some x =>
      change ((Heap.mk l).alloc x).sum _ = _
      rw [Heap.sum_alloc, ih]
      refine ((hnew ((Heap.mk l).alloc x) (Heap.next_alloc _ x) fun i hi => ?_).trans ?_).symm
      · rw [Heap.get_alloc, if_neg hi.ne]
      · congr 1
        refine if_congr ⟨?_, fun h => ⟨x, by rw [Heap.get_alloc, if_pos rfl], h⟩⟩ rfl rfl
        rintro ⟨y, hy, h⟩
        rw [Heap.get_alloc, if_pos rfl] at hy
        cases hy
        exact h

/-! ## Bios of one block -/

/-- If it is the submission of a write, its bio has one block. -/
def Obs.oneBlock : Obs α → Bool
  | .submitW _ _ _ more => more.isEmpty
  | _ => true

/-- Every write that has been submitted has one block. -/
def OneBlocks (hist : List (Obs α)) : Prop := ∀ o ∈ hist, o.oneBlock = true

instance (hist : List (Obs α)) : Decidable (OneBlocks hist) :=
  inferInstanceAs (Decidable (∀ o ∈ hist, o.oneBlock = true))

theorem OneBlocks.suffix {h h' : List (Obs α)} (a : OneBlocks h') (hs : h <:+ h') : OneBlocks h :=
  fun o ho => a o (hs.subset ho)

/-- An event that submits no write keeps it so. -/
theorem OneBlocks.step [Inhabited α] {s s' : Sys α} {e : Event α} (a : OneBlocks s.hist)
    (B : Base c s.core) (hs : step c s e = some s')
    (he : ∀ b d flush more, e ≠ .submitWrite b d flush more) : OneBlocks s'.hist := by
  intro o ho
  cases o with
  | submitW t b d more =>
    rcases step_submits B hs ho with ho | ⟨flush, h⟩
    · exact a _ ho
    · exact absurd h (he b d flush more)
  | _ => rfl

/-- Every task has one block. -/
def Single (k : Core α) : Prop := k.tasks.All fun _ x => x.more = []

theorem Single.move [Inhabited α] {k k' : Core α} {l : Label} (a : Single k)
    (hone : OneBlocks k'.hist) (hm : Move c k l k') : Single k' := by
  have keep : ∀ {h : Heap (Task α)} {t : ℕ} {f : Task α → Task α}, (h.All fun _ x => x.more = []) →
      (∀ x, (f x).more = x.more) → (h.modify t f).All fun _ x => x.more = [] := fun a hf =>
    Heap.All.modify a fun x _ h => (hf x).trans h
  cases hm with
  | submitWrite b d more =>
    exact Heap.All.alloc a (List.isEmpty_iff.mp (hone _ List.mem_cons_self))
  | scanBlock => exact Heap.All.alloc a rfl
  | conflict | gcFind | gcFound => exact keep (keep a fun _ => rfl) fun _ => rfl
  | insert | dispatch | fallback | pend | append | apply | writeFail | untree | dropRef | nextUser
  | nextGc | gcServe | gcReadEnd | gcInsert | gcSkip | gcPass | gcWritten | remap | skipEnd
  | dispatchFail | fallbackFail | allocFail | devFail | gcServeFail | gcReadFail | gcWriteFail
  | release => exact keep a fun _ => rfl
  | destroy => exact Heap.All.free a _
  | destroyCall => exact Heap.All.free (Heap.All.free a _) _
  | _ => exact a

/-! ## Appends on their way -/

def Task.flying (z : ℕ) (x : Task α) : ℤ := if x.FliesTo z then 1 else 0

theorem Task.flying_eq_zero {z : ℕ} {x : Task α} (h : x.pc ≠ .device) : x.flying z = 0 :=
  if_neg fun h' => h h'.1

theorem Task.flying_nonneg (z : ℕ) (x : Task α) : 0 ≤ x.flying z := by
  unfold Task.flying
  split_ifs <;> omega

section

variable {h : Heap (Task α)} {t z : ℕ} {f : Task α → Task α}

/-- A task without an append changes. -/
theorem sum_flying_quiet (hx : h.At t fun x => x.pc ≠ .device) (hf : ∀ x, (f x).pc ≠ .device) :
    (h.modify t f).sum (Task.flying z) = h.sum (Task.flying z) := by
  obtain ⟨x, hx, hpc⟩ := hx
  rw [Heap.sum_modify hx, Task.flying_eq_zero hpc, Task.flying_eq_zero (hf x)]
  ring

/-- A task changes, but not where it is. -/
theorem sum_flying_keep (hx : h.At t fun _ => True)
    (hf : ∀ x, (f x).pc = x.pc ∧ (f x).zone = x.zone) :
    (h.modify t f).sum (Task.flying z) = h.sum (Task.flying z) := by
  obtain ⟨x, hx, -⟩ := hx
  have hiff : (f x).FliesTo z ↔ x.FliesTo z := by
    unfold Task.FliesTo
    rw [(hf x).1, (hf x).2]
  have hsame : (f x).flying z = x.flying z := if_congr hiff rfl rfl
  rw [Heap.sum_modify hx, hsame]
  ring

/-- A task without an append changes, and the one it has found in the tree gains a reference. -/
theorem sum_flying_incRef {t' : ℕ} {x y : Task α} (hx : h.get t = some x) (hpc : x.pc ≠ .device)
    (hy : h.get t' = some y) (hf : ∀ x, (f x).pc ≠ .device) :
    ((h.modify t' Task.incRef).modify t f).sum (Task.flying z) = h.sum (Task.flying z) := by
  have hx' : (h.modify t' Task.incRef).At t fun x => x.pc ≠ .device :=
    Heap.At.modify ⟨x, hx, hpc⟩ fun _ _ h => h
  rw [sum_flying_quiet hx' hf]
  exact sum_flying_keep ⟨y, hy, trivial⟩ fun _ => ⟨rfl, rfl⟩

theorem sum_flying_free {x : Task α} (hx : h.get t = some x) (hpc : x.pc ≠ .device) :
    (h.free t).sum (Task.flying z) = h.sum (Task.flying z) := by
  rw [Heap.sum_free hx, Task.flying_eq_zero hpc]
  ring

end

/-! ## What is neither on the device nor on its way -/

/-- The blocks of zone `z` that the device has. -/
def Core.stored (c : Conf) (k : Core α) (z : ℕ) : ℕ :=
  live c.zoneNrBlocks fun o => k.phys.content (c.startBlk z + o)

/-- The blocks of zone `z` that are allocated, and neither on the device nor on their way to it. -/
def slack (c : Conf) (k : Core α) (z : ℕ) : ℤ :=
  (k.zmd.zones z).wpBlock - k.stored c z - k.tasks.sum (Task.flying z)

section

variable {k k' : Core α} {z : ℕ}

theorem stored_congr (h : ∀ o < c.zoneNrBlocks,
    k'.phys.content (c.startBlk z + o) = k.phys.content (c.startBlk z + o)) :
    k'.stored c z = k.stored c z := by
  rw [Core.stored, Core.stored, live, live]
  congr 1
  exact Finset.filter_congr fun o ho => by rw [h o (Finset.mem_range.mp ho)]

/-- A free block of zone `z₀` is stored. -/
theorem stored_append (geo : Geom c) {z₀ off : ℕ} {v : α × Option DiskLog} (hz : z < c.nrZones)
    (hz₀ : z₀ < c.nrZones) (hoff : off < c.zoneNrBlocks)
    (hfree : k.phys.content (c.startBlk z₀ + off) = none)
    (hphys : k'.phys.content = Function.update k.phys.content (c.startBlk z₀ + off) (some v)) :
    (k'.stored c z : ℤ) = k.stored c z + if z = z₀ then 1 else 0 := by
  split_ifs with e
  · subst e
    have hupd : (fun o => k'.phys.content (c.startBlk z + o)) =
        Function.update (fun o => k.phys.content (c.startBlk z + o)) off (some v) := by
      funext o
      rw [hphys, Function.update_apply, Function.update_apply]
      exact if_congr Nat.add_left_cancel_iff rfl rfl
    rw [Core.stored, hupd, live_update hoff, hfree, Core.stored]
    simp [one]
  · rw [add_zero, stored_congr]
    intro o ho
    rw [hphys, Function.update_of_ne]
    intro he
    exact e (geo.unique (he ▸ contains_add hz ho) (contains_add hz₀ hoff))

/-- An append of one block stores it. -/
theorem Phys.put_one (d : Phys α) (p : ℕ) {x : Task α} (hx : x.more = []) (log : DiskLog) :
    (d.put p (x.cells log)).content = Function.update d.content p (some (x.data, some log)) := by
  have hlen : x.len = 1 := by rw [Task.len, hx]; rfl
  funext q
  rw [Function.update_apply]
  split_ifs with e
  · rw [e, put_cells]
  · refine put_cells_outside fun i hi => ?_
    rw [hlen, Nat.lt_one_iff] at hi
    rwa [hi]

/-- Zone `i` is reset. -/
theorem stored_reset (geo : Geom c) {i : ℕ} (hz : z < c.nrZones) (hi : i < c.nrZones)
    (hphys : k'.phys = k.phys.resetZone c i) :
    k'.stored c z = if z = i then 0 else k.stored c z := by
  split_ifs with e
  · refine live_eq_zero fun o ho => ?_
    rw [hphys]
    exact if_pos ((geo.reset_iff hi (contains_add hz ho)).mpr e)
  · refine stored_congr fun o ho => ?_
    rw [hphys]
    exact if_neg fun h => e ((geo.reset_iff hi (contains_add hz ho)).mp h)

/-- A block of the active zone `z₀` is taken. -/
theorem takeBlock_wpBlock (m : Zmd) (i : Fin 2) (z₀ z : ℕ) :
    ((takeBlock c m i z₀).1.zones z).wpBlock =
      (m.zones z).wpBlock + if z = z₀ then 1 else 0 := by
  rw [(takeBlock_same i z₀).wp z, allocRes_zones]
  split_ifs <;> rfl

theorem takeBlock_room (B : Base c k) {i : Fin 2} {z₀ : ℕ} (ha : k.zmd.activeZone i = some z₀)
    (h : (k.zmd.zones z).wpBlock ≤ c.zoneNrBlocks) :
    ((takeBlock c k.zmd i z₀).1.zones z).wpBlock ≤ c.zoneNrBlocks := by
  rw [takeBlock_wpBlock]
  split_ifs with e
  · subst e
    obtain ⟨pl, P⟩ := B.places
    exact P.wp i z ((P.active i z).mp ha)
  · exact h

theorem slack_congr (hm : (k'.zmd.zones z).wpBlock = (k.zmd.zones z).wpBlock)
    (hp : k'.phys = k.phys) (ht : k'.tasks.sum (Task.flying z) = k.tasks.sum (Task.flying z)) :
    slack c k' z = slack c k z := by
  rw [slack, slack, hm, ht, Core.stored, Core.stored, hp]

end

section

variable [Inhabited α] {k k' : Core α} {l : Label} {z : ℕ}

/-- **What a move does to the blocks of a zone**: it keeps those that are neither on the device nor
on their way, unless it is an error, which can add to them, or the reset, after which there are
none. -/
theorem Move.slack (geo : Geom c) (B : Base c k) (L : Landing c k) (hm : Move c k l k')
    (hz : z < c.nrZones) :
    (Single k → Lbz.slack c k' z = Lbz.slack c k z ∨
      l = .fault ∧ Lbz.slack c k z ≤ Lbz.slack c k' z ∨ Lbz.slack c k' z = 0) ∧
    ((k.zmd.zones z).wpBlock ≤ c.zoneNrBlocks → (k'.zmd.zones z).wpBlock ≤ c.zoneNrBlocks) := by
  have T := B.tasks
  -- the write pointers and the device stay
  have key : (∀ z, (k'.zmd.zones z).wpBlock = (k.zmd.zones z).wpBlock) → k'.phys = k.phys →
      k'.tasks.sum (Task.flying z) = k.tasks.sum (Task.flying z) →
      (Single k → Lbz.slack c k' z = Lbz.slack c k z ∨
        l = .fault ∧ Lbz.slack c k z ≤ Lbz.slack c k' z ∨ Lbz.slack c k' z = 0) ∧
      ((k.zmd.zones z).wpBlock ≤ c.zoneNrBlocks →
        (k'.zmd.zones z).wpBlock ≤ c.zoneNrBlocks) := fun hw hp ht =>
    ⟨fun _ => Or.inl (slack_congr (hw z) hp ht), fun h => (hw z).trans_le h⟩
  have quiet : ∀ {t : ℕ} {x : Task α} {f : Task α → Task α}, k.tasks.get t = some x →
      x.pc ≠ .device → (∀ x, (f x).pc ≠ .device) →
      (k.tasks.modify t f).sum (Task.flying z) = k.tasks.sum (Task.flying z) :=
    fun hx hpc hf => sum_flying_quiet ⟨_, hx, hpc⟩ hf
  cases hm with
  | submitWrite b d more hty =>
    refine key (fun _ => rfl) rfl ?_
    rw [Heap.sum_alloc, Task.flying_eq_zero (by rintro ⟨⟩), add_zero]
  | scanBlock hpc hi =>
    refine key (SameMaps.getZone _ _).wp rfl ?_
    rw [Heap.sum_alloc, Task.flying_eq_zero (by rintro ⟨⟩), add_zero]
  | conflict hx hty hst hpc htk hy | gcFind hx hty hst hpc htk hy =>
    exact key (fun _ => rfl) rfl
      (sum_flying_incRef hx (by rw [hpc]; rintro ⟨⟩) hy (by rintro x ⟨⟩))
  | insert hx | dropRef ht hx =>
    exact key (fun _ => rfl) rfl (sum_flying_keep ⟨_, hx, trivial⟩ fun _ => ⟨rfl, rfl⟩)
  | openZone => exact key (SameMaps.openZone _ _ _).wp rfl rfl
  | @dispatch t z₀ i x log hx hst hpc ha =>
    have hpc' : x.pc ≠ .device := by
      rcases hpc with hpc | ⟨j, hpc⟩ <;> rw [hpc] <;> rintro ⟨⟩
    have hnew : Task.flying z { x with
        zone := some z₀, status := .dispatch, pc := .device, integ := .buf log } =
          if z = z₀ then 1 else 0 :=
      if_congr ⟨fun h => (Option.some.inj h.2).symm, fun h => ⟨rfl, congrArg some h.symm⟩⟩ rfl rfl
    have hsum := Heap.sum_modify hx (fun x => { x with
      zone := some z₀, status := .dispatch, pc := .device, integ := .buf log }) (Task.flying z)
    rw [Task.flying_eq_zero hpc', hnew] at hsum
    refine ⟨fun _ => Or.inl ?_, takeBlock_room B ha⟩
    change (((takeBlock c k.zmd i z₀).1.zones z).wpBlock : ℤ) - k.stored c z -
      (k.tasks.modify t _).sum _ = _ - _ - _
    rw [takeBlock_wpBlock, hsum]
    split_ifs <;> push_cast <;> ring
  | @dispatchFail t z₀ i x hx hty hst hpc ha =>
    -- the block is lost
    have hsum := quiet (f := fun x => { x with
      zone := some z₀, status := .ioWriting, pc := .failed, integ := .err }) hx
      (by rcases hpc with hpc | ⟨j, hpc⟩ <;> rw [hpc] <;> rintro ⟨⟩) (by rintro x ⟨⟩)
    refine ⟨fun _ => Or.inr (Or.inl ⟨rfl, ?_⟩), takeBlock_room B ha⟩
    change _ - _ - _ ≤ (((takeBlock c k.zmd i z₀).1.zones z).wpBlock : ℤ) - k.stored c z -
      (k.tasks.modify t _).sum _
    rw [takeBlock_wpBlock, hsum]
    split_ifs <;> omega
  | fallback hx hst hpc | fallbackFail hx hst hpc =>
    exact key (fun _ => rfl) rfl (quiet hx (by rw [hpc]; rintro ⟨⟩) (by rintro x ⟨⟩))
  | pend hx hty hst hpc | allocFail hx hty hst hpc =>
    refine key (fun _ => rfl) rfl (quiet hx ?_ (by rintro x ⟨⟩))
    rcases hpc with hpc | ⟨j, hpc⟩ <;> rw [hpc] <;> rintro ⟨⟩
  | @append t z₀ off x log hx hpc hz₀ hi hoff hfree =>
    have hold : Task.flying z x = if z = z₀ then 1 else 0 :=
      if_congr ⟨fun h => Option.some.inj (h.2.symm.trans hz₀), fun h => ⟨hpc, h ▸ hz₀⟩⟩ rfl rfl
    have hsum := Heap.sum_modify hx
      (fun x => { x with pc := .written (c.startBlk z₀ + off) }) (Task.flying z)
    rw [hold, Task.flying_eq_zero (by rintro ⟨⟩), add_zero] at hsum
    refine ⟨fun one => Or.inl ?_, id⟩
    have hlen : x.len = 1 := by rw [Task.len, one t x hx]; rfl
    rw [hlen] at hoff hfree
    rw [Lbz.slack, stored_append geo hz (L.zone t x hx z₀ ⟨hpc, hz₀⟩) hoff (hfree 0 Nat.one_pos)
      (Phys.put_one _ _ (one t x hx) log)]
    change _ - _ - (k.tasks.modify t _).sum _ = _ - _ - _
    rw [hsum]
    ring
  | @devFail t x hx hpc =>
    have hsum := Heap.sum_modify hx (fun x => { x with pc := .failed }) (Task.flying z)
    rw [Task.flying_eq_zero (x := { x with pc := .failed }) (by rintro ⟨⟩), add_zero] at hsum
    refine ⟨fun _ => Or.inr (Or.inl ⟨rfl, ?_⟩), id⟩
    have hnn := x.flying_nonneg z
    change _ - _ - _ ≤ ((k.zmd.zones z).wpBlock : ℤ) - k.stored c z - (k.tasks.modify t _).sum _
    rw [hsum]
    omega
  | apply hx hty hpc =>
    refine key ?_ rfl (quiet hx (by rw [hpc]; rintro ⟨⟩) (by rintro x ⟨⟩))
    exact ((SamePlaces.invalidateOld ..).trans (.updateReverseMap ..)).wp
  | @remap g z₀ v p x hx hty hpc =>
    refine key ?_ rfl (quiet hx (by rw [hpc]; rintro ⟨⟩) (by rintro x ⟨⟩))
    refine SamePlaces.wp (m := k.zmd) ?_
    change SamePlaces k.zmd (if _ then _ else _)
    split_ifs
    · exact .updateReverseMap c _ _ _ _
    · exact (SamePlaces.updateReverseMap c _ _ _ _).trans (.invalidate c _ _ _)
  | untree hx hpc | writeFail hx hty hpc | gcServe hx hpc | gcReadEnd hx hpc
  | gcInsert hx hty hst hpc | gcSkip hx hty hpc | gcPass hx hty hpc | skipEnd hx hty hpc
  | gcServeFail hx hpc | gcReadFail hx hpc | release hx hty hpc =>
    exact key (fun _ => rfl) rfl (quiet hx (by rw [hpc]; rintro ⟨⟩) (by rintro x ⟨⟩))
  | gcWritten hx hty hpc | gcWriteFail hx hty hpc =>
    exact key (SameMaps.completeWrite _ _).wp rfl
      (quiet hx (by rw [hpc]; rintro ⟨⟩) (by rintro x ⟨⟩))
  | destroy ht hx hr =>
    refine key (fun _ => rfl) rfl (sum_flying_free hx ?_)
    rw [(TaskInv.last T hx ht hr).1]
    rintro ⟨⟩
  | @destroyCall t g v x y ht hx hr hty hl hy hgc hpc =>
    have hx' : (k.tasks.free g).get t = some x := by
      rw [Heap.get_free, if_neg, hx]
      rintro rfl
      cases hx.symm.trans hy
      exact hty hgc
    refine key (fun _ => rfl) rfl ((sum_flying_free hx' ?_).trans (sum_flying_free hy ?_))
    · rw [(TaskInv.last T hx ht hr).1]
      rintro ⟨⟩
    · rw [hpc]
      rintro ⟨⟩
  | @nextUser t l hr hret =>
    obtain ⟨x, hx, -, hpc⟩ := B.queues.users.2 t (by simp [hr, RetryPc.usersLeft])
    exact key (fun _ => rfl) rfl (quiet hx (by rw [hpc]; rintro ⟨⟩) (by rintro x ⟨⟩))
  | @nextGc t l hr hret =>
    obtain ⟨x, hx, -, hpc⟩ := B.queues.gcs.2 t (by simp [hr, RetryPc.gcsLeft])
    exact key (fun _ => rfl) rfl (quiet hx (by rw [hpc]; rintro ⟨⟩) (by rintro x ⟨⟩))
  | @gcFound g tk x hx hty hpc =>
    obtain ⟨y, hy, -⟩ := T.found g x hx tk hpc
    refine key (fun _ => rfl) rfl ((sum_flying_keep
      (f := fun y => { y with link := .node g }) ?_ fun _ => ⟨rfl, rfl⟩).trans
      (quiet (f := fun x => { x with error := some .enoent, pc := .waiting tk }) hx
        (by rw [hpc]; rintro ⟨⟩) (by rintro x ⟨⟩)))
    exact Heap.At.modify ⟨y, hy, trivial⟩ fun _ _ h => h
  | complete => exact key (SameMaps.completeWrite _ _).wp rfl rfl
  | putZone => exact key (SameMaps.putZone _ _).wp rfl rfl
  | readHit | peek => exact key (SameMaps.getZone _ _).wp rfl rfl
  | select => exact key (SameMaps.takeVictim _ _).wp rfl rfl
  | @scanEnd z₀ =>
    exact key (SameMaps.modZone k.zmd z₀ (f := Zone.setZoneState .gcCompleted)
      fun _ => ⟨rfl, rfl, rfl⟩).wp rfl rfl
  | @discard b p => exact key (SamePlaces.invalidateOld c k.zmd (some p)).wp rfl rfl
  | @wkFull i =>
    exact key (SameMaps.modZone k.zmd i (f := fun x => { x with state := .closed })
      fun _ => ⟨rfl, rfl, rfl⟩).wp rfl rfl
  | @wkClose i =>
    exact key (SameMaps.modZone k.zmd i (f := fun x => { x with flags := oneFlag .full })
      fun _ => ⟨rfl, rfl, rfl⟩).wp rfl rfl
  | @wkReset i hwk hw =>
    obtain ⟨pl, P⟩ := B.places
    have hpl : pl i = .gc := P.reset i hwk
    have hi : i < c.nrZones := lt_of_place P (by rw [hpl]; rintro ⟨⟩)
    have hwp : ((k.zmd.modZone i Zone.reset).zones z).wpBlock =
        if z = i then 0 else (k.zmd.zones z).wpBlock := by
      rw [Zmd.modZone_zones]
      split_ifs <;> rfl
    refine ⟨fun _ => ?_, fun h => ?_⟩
    · rw [Lbz.slack, stored_reset geo hz hi rfl]
      change (((k.zmd.modZone i Zone.reset).zones z).wpBlock : ℤ) - _ - k.tasks.sum _ = _ ∨ _ ∨
        (((k.zmd.modZone i Zone.reset).zones z).wpBlock : ℤ) - _ - k.tasks.sum _ = _
      rw [hwp]
      split_ifs with e
      · -- nothing is on its way to the zone
        have hno := L.spent i (Or.inl hwk) (Or.inr ((P.gc i).mpr hpl))
        have hfly : k.tasks.sum (Task.flying z) = 0 :=
          Heap.sum_eq_zero fun t x hx => if_neg (e ▸ hno t x hx)
        rw [hfly]
        exact Or.inr (Or.inr rfl)
      · exact Or.inl rfl
    · change ((k.zmd.modZone i Zone.reset).zones z).wpBlock ≤ _
      rw [hwp]
      split_ifs
      · exact Nat.zero_le _
      · exact h
  | _ => exact key (fun _ => rfl) rfl rfl

/-! ## Runs -/

/-- What every move keeps of the write pointers. -/
structure PointerInv (c : Conf) (k : Core α) : Prop where
  counts : Counts k
  landing : Landing c k
  room : ∀ z < c.nrZones, (k.zmd.zones z).wpBlock ≤ c.zoneNrBlocks
  single : OneBlocks k.hist → Single k
  slack : OneBlocks k.hist → ∀ z < c.nrZones, 0 ≤ slack c k z

theorem PointerInv.move (geo : Geom c) (B : Base c k) (a : PointerInv c k) (hm : Move c k l k') :
    PointerInv c k' where
  counts := a.counts.move B hm
  landing := a.landing.move B a.counts hm
  room z hz := (hm.slack geo B a.landing hz).2 (a.room z hz)
  single h := (a.single (h.suffix hm.hist_suffix)).move h hm
  slack h z hz := by
    have hk := h.suffix hm.hist_suffix
    have h0 := a.slack hk z hz
    rcases (hm.slack geo B a.landing hz).1 (a.single hk) with h | ⟨-, h⟩ | h <;> omega

end

variable {o : Options} {report : List BlkZone} {s₀ s : Sys α}

theorem pointers_start (he : EmptyReport o report) (h0 : initSys o report = some s₀) :
    PointerInv (confOf o report) s₀.core ∧
      ∀ z < (confOf o report).nrZones, slack (confOf o report) s₀.core z = 0 := by
  have C := Counts.start h0
  obtain ⟨m, hb, rfl⟩ := blank_initSys he h0
  have hwp : ∀ z, (m.zones z).wpBlock = 0 := fun z => by
    rw [hb.zones]
    split_ifs <;> rfl
  have hz : ∀ z, slack (confOf o report) (freshSys m : Sys α).core z = 0 := fun z => by
    change ((m.zones z).wpBlock : ℤ) - (live _ (fun _ => (none : Option (α × Option DiskLog))) : ℤ) -
      Heap.empty.sum _ = 0
    rw [hwp, live_none, Heap.sum_empty]
    rfl
  exact ⟨⟨C, ⟨Heap.All.empty, fun i _ _ => Heap.All.empty⟩,
    fun z _ => (hwp z).trans_le (Nat.zero_le _), fun _ => Heap.All.empty, fun _ z _ => (hz z).ge⟩,
    fun z _ => hz z⟩

theorem slack_eq (c : Conf) (s : Sys α) (z : ℕ) :
    slack c s.core z = (s.zmd.zones z).wpBlock - written c s z - (flight s z).card := by
  have h : s.tasks.sum (Task.flying z) = (flight s z).card := Heap.sum_ite_eq_card s.tasks
  rw [← h]
  rfl

variable [Inhabited α]

/-- The write pointers in a run. -/
theorem pointers_run {ok : Sys α → Event α → Prop} (he : EmptyReport o report)
    (h0 : initSys o report = some s₀) (hrun : Runs (stepRel (step (confOf o report))) ok s₀ s)
    (hb : s.bug = none) : Base (confOf o report) s.core ∧ PointerInv (confOf o report) s.core := by
  have geo := geom_of_empty he (initSys_eq h0).1
  exact (Kept.run geo.pos (fun _ _ _ B a hm => a.move geo B hm) hrun
    ⟨_, ⟨base_of_empty he h0, (pointers_start he h0).1⟩, rfl, fun _ => rfl⟩ : Kept _ _ s).core hb

/-- Two writes to stream 0; the append of the second one has failed, or is on its way. -/
def secondWrite (fails : Bool) : List (Event ℕ) :=
  soleWrite 0 0 0 7 ++ [.submitWrite 1 7 false, .runWrite 1 true, .runWrite 1 true] ++
    if fails then [.devFail 1, .submitWrite 2 7 false, .runWrite 2 true, .runWrite 2 true] else []

/-- **The write pointers agree**, if every bio has one block: without an error, what the driver has
allocated in a zone is what the device has of it, with the appends that are on their way. -/
theorem write_pointers_agree (he : EmptyReport o report) (h0 : initSys o report = some s₀)
    (hrun : Runs (stepRel (step (confOf o report))) (fun _ e => e.NoError) s₀ s) (hb : s.bug = none)
    (hone : OneBlocks s.hist) {z : ℕ} (hz : z < (confOf o report).nrZones) :
    written (confOf o report) s z + (flight s z).card = (s.zmd.zones z).wpBlock := by
  have geo := geom_of_empty he (initSys_eq h0).1
  obtain ⟨hstart, hzero⟩ := pointers_start he h0
  have hrun := Sound.run (I := fun k => PointerInv (confOf o report) k ∧
      (OneBlocks k.hist → ∀ z < (confOf o report).nrZones, slack (confOf o report) k z = 0))
    (fun _ _ => True) (fun _ _ => True) geo.pos
    (fun k l k' B a hf _ hm => ⟨a.1.move geo B hm, fun h z hz => ?_⟩)
    (fun _ _ _ _ _ _ _ _ => trivial) (hrun.mono fun _ _ h => ⟨h, trivial⟩)
    (sound_of_empty he h0 ⟨hstart, fun _ => hzero⟩)
  · obtain ⟨-, -, -, h⟩ := hrun.base hb
    have h := h hone z hz
    rw [slack_eq] at h
    omega
  · have hk := h.suffix hm.hist_suffix
    rcases (hm.slack geo B a.1.landing hz).1 (a.1.single hk) with h | ⟨h, -⟩ | h
    · exact h.trans (a.2 hk z hz)
    · exact absurd h hf
    · exact h

/-- One block of zone 0 is on the device, and one on its way. -/
theorem write_pointers_agree_second : ∃ s : Sys ℕ, (s.zmd.zones 0).wpBlock = 2 ∧
    written (confOf smallOptions (emptyReport 4 16 16)) s 0 + (flight s 0).card = 2 := by
  let c := confOf smallOptions (emptyReport 4 16 16)
  let s₀ : Sys ℕ := (initSys smallOptions (emptyReport 4 16 16)).get (by decide +kernel)
  obtain ⟨s, hrun, h⟩ := exists_run (step c) (fun _ e => e.NoError) (fun s : Sys ℕ =>
    decide (s.bug = none ∧ OneBlocks s.hist ∧ (s.zmd.zones 0).wpBlock = 2)) s₀ (secondWrite false)
    (by decide +kernel)
  obtain ⟨hbug, hone, hwp⟩ := of_decide_eq_true h
  refine ⟨s, hwp, ?_⟩
  rw [← hwp]
  exact write_pointers_agree smallOptions_empty (Option.some_get _).symm hrun hbug hone (by decide)

/-- After a flush of two blocks the device has both, and the driver has allocated one. -/
theorem write_pointers_flush : ∃ s : Sys ℕ,
    Runs (stepRel (step flushConf)) (fun _ e => e.NoError) flushStart s ∧
      written flushConf s 0 = 2 ∧ flight s 0 = ∅ ∧ (s.zmd.zones 0).wpBlock = 1 := by
  obtain ⟨s, hrun, h⟩ := exists_run (step flushConf) (fun _ e => e.NoError)
    (fun s : Sys ℕ => decide (written flushConf s 0 = 2 ∧ flight s 0 = ∅ ∧
      (s.zmd.zones 0).wpBlock = 1)) flushStart
    (.addRule ⟨0, 512, 1024, 1⟩ :: writeEvents 0 0 10 true 0 [11]) (by decide +kernel)
  exact ⟨s, hrun, of_decide_eq_true h⟩

end Lbz
