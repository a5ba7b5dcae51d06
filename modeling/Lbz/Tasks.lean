import Lbz.Move

/-!
# The lives of tasks

What every move keeps of the tasks, whatever the worker does.

* `Task.UserPhase`, `Task.GcPhase`: the fields that go together at each place of a task;
* `Task.InTree`, `Task.Fresh`: a task holds its block; a task has never been in the tree;
* `Tasks k`: the tree is the set of tasks that hold a block, no block has two holders, a reference
  count is the number of its owners, and a gc task past its check finds its block unmoved;
* `Tasks.move`: every move keeps `Tasks`.
-/

namespace Lbz

variable {α : Type}

/-! ## Phases -/

/-- The fields of a user task, phase by phase. -/
inductive Task.UserPhase (x : Task α) : Prop
  | new (hst : x.status = .init) (hpc : x.pc = .submit ∨ x.pc = .pending)
      (hz : x.zone = none) (hi : x.integ = .null)
  | own (hst : x.status = .allocRes)
      (hpc : x.pc = .submit ∨ x.pc = .pending ∨ ∃ i, x.pc = .fallback i)
      (hz : x.zone = none) (hi : x.integ = .null)
  | write (z : ℕ) (log : DiskLog) (hst : x.status = .dispatch)
      (hpc : x.pc = .device ∨ (∃ p, x.pc = .written p) ∨ x.pc = .failed ∨ x.pc = .ended ∨
        x.pc = .done)
      (hz : x.zone = some z) (hi : x.integ = .buf log)
  /-- `__add_integrity` has failed -/
  | noInteg (z : ℕ) (hst : x.status = .ioWriting)
      (hpc : x.pc = .failed ∨ x.pc = .ended ∨ x.pc = .done) (hz : x.zone = some z)
      (hi : x.integ = .err)
  /-- `lbz_zone_alloc_res` has returned `-EIO` -/
  | noBlock (hst : x.status = .allocRes) (hpc : x.pc = .done) (hz : x.zone = none)
      (hi : x.integ = .null)

/-- The fields of a gc task with victim zone `v`, phase by phase. -/
inductive Task.GcPhase (x : Task α) (v : ℕ) : Prop
  | read (hst : x.status = .gcReading) (hpc : x.pc = .reading ∨ ∃ ok, x.pc = .read ok)
      (hz : x.zone = some v) (hv : x.readZone = some v) (he : x.error = none)
      (hl : x.link = .iosched) (hi : x.integ = .null)
  | wait (hst : x.status = .gcReading) (hpc : x.pc = .pending ∨ x.pc = .submit)
      (hz : x.zone = some v) (hv : x.readZone = none) (he : x.error = none)
      (hl : x.link = .iosched) (hi : x.integ = .null)
  | found (tk : ℕ) (hst : x.status = .gcReading) (hpc : x.pc = .found tk)
      (hz : x.zone = none) (hv : x.readZone = some v) (he : x.error = none)
      (hl : x.link = .iosched) (hi : x.integ = .null)
  | handed (tk : ℕ) (hst : x.status = .gcReading) (hpc : x.pc = .waiting tk)
      (hz : x.zone = none) (hv : x.readZone = some v) (he : x.error = some .enoent)
      (hl : x.link = .iosched) (hi : x.integ = .null)
  | check (hst : x.status = .gcReading) (hpc : x.pc = .check)
      (hz : x.zone = none) (hv : x.readZone = some v) (he : x.error = none) (hi : x.integ = .null)
  | skip (hst : x.status = .gcReading) (hpc : x.pc = .skip ∨ x.pc = .done)
      (hz : x.zone = none) (hv : x.readZone = some v) (he : x.error = some .eexist)
      (hi : x.integ = .null)
  | own (hst : x.status = .allocRes) (hpc : x.pc = .submit ∨ ∃ i, x.pc = .fallback i)
      (hz : x.zone = none) (hv : x.readZone = some v) (he : x.error = none) (hi : x.integ = .null)
  | write (z : ℕ) (log : DiskLog) (hst : x.status = .dispatch)
      (hpc : x.pc = .device ∨ (∃ p, x.pc = .written p) ∨ x.pc = .failed ∨
        (∃ p, x.pc = .callback (some p)) ∨ x.pc = .done)
      (hz : x.zone = some z) (hv : x.readZone = some v) (he : x.error = none)
      (hi : x.integ = .buf log)
  | noRead (hst : x.status = .gcReading) (hpc : x.pc = .done) (hz : x.zone = some v)
      (hv : x.readZone = some v) (he : x.error = some .eio) (hi : x.integ = .null)
  | noWrite (z : ℕ) (log : DiskLog) (hst : x.status = .dispatch)
      (hpc : x.pc = .callback none ∨ x.pc = .done) (hz : x.zone = some z)
      (hv : x.readZone = some v) (he : x.error = some .eio) (hi : x.integ = .buf log)

/-- The fields of a task go together. -/
structure Task.Shape (x : Task α) : Prop where
  user : x.type ≠ .gc → x.UserPhase ∧ x.error = none ∧ x.link ≠ .iosched
  gc : x.type = .gc → (∃ v, x.GcPhase v) ∧ x.link ≠ .null

/-- `x` is in the task tree. -/
def Task.InTree (x : Task α) : Prop :=
  if x.type = .gc then x.pc = .check ∨ x.status ≠ .gcReading ∧ x.pc ≠ .done
  else x.status ≠ .init ∧ x.pc ≠ .done

/-- `x` has not been in the task tree yet. -/
def Task.Fresh (x : Task α) : Prop :=
  if x.type = .gc then x.status = .gcReading ∧ x.pc ≠ .check ∧ x.pc ≠ .skip ∧ x.pc ≠ .done
  else x.status = .init

instance (x : Task α) : Decidable x.InTree := by unfold Task.InTree; infer_instance

instance (x : Task α) : Decidable x.Fresh := by unfold Task.Fresh; infer_instance

/-- The references that the tree and the context working on `x` have. -/
def Task.ownRefs (x : Task α) : ℤ :=
  (if x.InTree then 1 else 0) + (if x.pc = .done then 0 else 1)

/-- The reference that a gc task has on the task it has found. -/
def Task.foundRef (t : ℕ) (x : Task α) : ℤ := if x.pc = .found t then 1 else 0

/-- The gc task `x` holds its block and has seen it at the position it read. -/
def Task.Past (x : Task α) : Prop := x.type = .gc ∧ x.status ≠ .gcReading ∧ x.pc ≠ .done

instance (x : Task α) : Decidable x.Past := by unfold Task.Past; infer_instance

/-! ## What a phase is known by -/

namespace Task

variable {x : Task α}

theorem Shape.init (h : x.Shape) (hty : x.type ≠ .gc) (hst : x.status = .init) :
    x.zone = none ∧ x.integ = .null := by
  obtain ⟨hp, -, -⟩ := h.user hty
  cases hp <;> simp_all

theorem Shape.own (h : x.Shape) (hst : x.status = .allocRes) :
    x.zone = none ∧ x.integ = .null ∧ x.error = none := by
  by_cases hty : x.type = .gc
  · obtain ⟨⟨v, hp⟩, -⟩ := h.gc hty
    cases hp <;> simp_all
  · obtain ⟨hp, he, -⟩ := h.user hty
    cases hp <;> simp_all

/-- An append is at the device: a block has been allocated. -/
theorem Shape.device (h : x.Shape) (hpc : x.pc = .device) :
    x.status = .dispatch ∧ (∃ z, x.zone = some z) ∧ ∃ log, x.integ = .buf log := by
  by_cases hty : x.type = .gc
  · obtain ⟨⟨v, hp⟩, -⟩ := h.gc hty
    cases hp <;> simp_all
  · obtain ⟨hp, -, -⟩ := h.user hty
    cases hp <;> simp_all

theorem Shape.written {p : ℕ} (h : x.Shape) (hpc : x.pc = .written p) :
    x.status = .dispatch ∧ (∃ z, x.zone = some z) ∧ ∃ log, x.integ = .buf log := by
  by_cases hty : x.type = .gc
  · obtain ⟨⟨v, hp⟩, -⟩ := h.gc hty
    cases hp <;> simp_all
  · obtain ⟨hp, -, -⟩ := h.user hty
    cases hp <;> simp_all

theorem Shape.failed (h : x.Shape) (hpc : x.pc = .failed) :
    (x.status = .dispatch ∨ x.type ≠ .gc ∧ x.status = .ioWriting) ∧ ∃ z, x.zone = some z := by
  by_cases hty : x.type = .gc
  · obtain ⟨⟨v, hp⟩, -⟩ := h.gc hty
    cases hp <;> simp_all
  · obtain ⟨hp, -, -⟩ := h.user hty
    cases hp <;> simp_all

theorem Shape.ended (h : x.Shape) (hpc : x.pc = .ended) :
    x.type ≠ .gc ∧ (x.status = .dispatch ∨ x.status = .ioWriting) ∧ ∃ z, x.zone = some z := by
  by_cases hty : x.type = .gc
  · obtain ⟨⟨v, hp⟩, -⟩ := h.gc hty
    cases hp <;> simp_all
  · obtain ⟨hp, -, -⟩ := h.user hty
    cases hp <;> simp_all

theorem Shape.callback {o : Option ℕ} (h : x.Shape) (hpc : x.pc = .callback o) :
    x.type = .gc ∧ x.status = .dispatch ∧ (∃ z, x.zone = some z) ∧ (∃ v, x.readZone = some v) ∧
      (∃ log, x.integ = .buf log) ∧
      ((∃ p, o = some p) ∧ x.error = none ∨ o = none ∧ x.error = some .eio) := by
  by_cases hty : x.type = .gc
  · obtain ⟨⟨v, hp⟩, -⟩ := h.gc hty
    cases hp <;> simp_all
  · obtain ⟨hp, -, -⟩ := h.user hty
    cases hp <;> simp_all

/-- Fields that are no part of the shape may differ. -/
theorem Shape.congr (h : x.Shape) {y : Task α} (hty : y.type = x.type) (hst : y.status = x.status)
    (hpc : y.pc = x.pc) (hz : y.zone = x.zone) (hv : y.readZone = x.readZone)
    (he : y.error = x.error) (hl : y.link = x.link) (hi : y.integ = x.integ) : y.Shape := by
  cases x
  cases y
  subst hty hst hpc hz hv he hl hi
  refine ⟨fun h' => ?_, fun h' => ?_⟩
  · obtain ⟨hp, he, hl⟩ := h.user h'
    refine ⟨?_, he, hl⟩
    cases hp with
    | new h1 h2 h3 h4 => exact .new h1 h2 h3 h4
    | own h1 h2 h3 h4 => exact .own h1 h2 h3 h4
    | write z log h1 h2 h3 h4 => exact .write z log h1 h2 h3 h4
    | noInteg z h1 h2 h3 h4 => exact .noInteg z h1 h2 h3 h4
    | noBlock h1 h2 h3 h4 => exact .noBlock h1 h2 h3 h4
  · obtain ⟨⟨v, hp⟩, hl⟩ := h.gc h'
    refine ⟨⟨v, ?_⟩, hl⟩
    cases hp with
    | read h1 h2 h3 h4 h5 h6 h7 => exact .read h1 h2 h3 h4 h5 h6 h7
    | wait h1 h2 h3 h4 h5 h6 h7 => exact .wait h1 h2 h3 h4 h5 h6 h7
    | found t h1 h2 h3 h4 h5 h6 h7 => exact .found t h1 h2 h3 h4 h5 h6 h7
    | handed t h1 h2 h3 h4 h5 h6 h7 => exact .handed t h1 h2 h3 h4 h5 h6 h7
    | check h1 h2 h3 h4 h5 h6 => exact .check h1 h2 h3 h4 h5 h6
    | skip h1 h2 h3 h4 h5 h6 => exact .skip h1 h2 h3 h4 h5 h6
    | own h1 h2 h3 h4 h5 h6 => exact .own h1 h2 h3 h4 h5 h6
    | write z log h1 h2 h3 h4 h5 h6 => exact .write z log h1 h2 h3 h4 h5 h6
    | noRead h1 h2 h3 h4 h5 h6 => exact .noRead h1 h2 h3 h4 h5 h6
    | noWrite z log h1 h2 h3 h4 h5 h6 => exact .noWrite z log h1 h2 h3 h4 h5 h6

theorem not_inTree_of_fresh (h : x.Fresh) : ¬ x.InTree := by
  unfold Fresh InTree at *
  split_ifs at h ⊢ with hty
  · rintro (hpc | ⟨hst, -⟩)
    · exact h.2.1 hpc
    · exact hst h.1
  · exact fun h' => h'.1 h

theorem Past.inTree (h : x.Past) : x.InTree := by
  rw [InTree, if_pos h.1]
  exact Or.inr h.2

end Task

/-! ## The invariant -/

/-- The references on task `t` that a `task_put` still to be made, or a gc task, has. -/
def heldRefs (h : Heap (Task α)) (puts : List ℕ) (t : ℕ) : ℤ :=
  puts.count t + h.sum (Task.foundRef t)

/-- The invariant of the tasks `h`, with the tree, the `task_put` still to be made, the mapping. -/
structure TaskInv (h : Heap (Task α)) (tree puts : List ℕ) (m : ℕ → Option ℕ) : Prop where
  shape : h.All fun _ x => x.Shape
  nodup : tree.Nodup
  tree : ∀ t, t ∈ tree ↔ ∃ x, h.get t = some x ∧ x.InTree
  holder : h.Pairs fun x y => x.InTree → y.InTree → x.blkid ≠ y.blkid
  refs : h.All fun t x => x.refcount = x.ownRefs + heldRefs h puts t
  fresh : h.All fun _ x => x.Fresh → x.refcount = 1
  puts : ∀ t ∈ puts, ∃ x, h.get t = some x
  found : h.All fun _ x => ∀ t, x.pc = .found t →
    ∃ y, h.get t = some y ∧ y.blkid = x.blkid ∧ ¬ y.Fresh
  link : h.All fun t x => x.type ≠ .gc → ∀ g, x.link = .node g →
    ∃ y, h.get g = some y ∧ y.type = .gc ∧ y.pc = .waiting t ∧ y.blkid = x.blkid
  past : h.All fun _ x => x.Past → m x.blkid = some x.pbid ∨ m x.blkid = none

def Tasks (k : Core α) : Prop := TaskInv k.tasks k.taskTree k.taskPuts k.mapping

namespace TaskInv

variable {h : Heap (Task α)} {tree puts : List ℕ} {m : ℕ → Option ℕ}

theorem ne_of_fresh (a : TaskInv h tree puts m) {t tk : ℕ} {x : Task α} (hx : h.get t = some x)
    (hf : x.Fresh) (htk : tk ∈ tree) : t ≠ tk := by
  rintro rfl
  obtain ⟨y, hy, hi⟩ := (a.tree t).mp htk
  cases hx.symm.trans hy
  exact Task.not_inTree_of_fresh hf hi

theorem heldRefs_nonneg (h : Heap (Task α)) (puts : List ℕ) (t : ℕ) : 0 ≤ heldRefs h puts t := by
  have : 0 ≤ h.sum (Task.foundRef t) := h.sum_nonneg fun x => by
    unfold Task.foundRef; split_ifs <;> omega
  unfold heldRefs
  omega

end TaskInv

/-! ## Steps of one task -/

/-- `y` is a later state of the task `x`, with the same references, still in the tree or still not. -/
structure Tame (x y : Task α) : Prop where
  shape : x.Shape → y.Shape
  type : y.type = x.type
  blkid : y.blkid = x.blkid
  pbid : y.pbid = x.pbid
  refcount : y.refcount = x.refcount
  link : y.link = x.link
  inTree : y.InTree ↔ x.InTree
  done : y.pc = .done ↔ x.pc = .done
  found : ∀ t, y.pc = .found t ↔ x.pc = .found t
  waiting : ∀ t, x.pc = .waiting t → y.pc = .waiting t
  fresh : y.Fresh → x.Fresh

namespace TaskInv

variable {h : Heap (Task α)} {tree puts : List ℕ} {m : ℕ → Option ℕ}

/-- One task changes. `δ` is the number of references on it that `task_put` calls gain. -/
theorem modify (a : TaskInv h tree puts m) {t : ℕ} {x : Task α} (hx : h.get t = some x)
    {f : Task α → Task α} {tree' puts' : List ℕ} (δ : ℤ)
    (hs : x.Shape → (f x).Shape) (hty : (f x).type = x.type) (hb : (f x).blkid = x.blkid)
    (hnd : tree'.Nodup) (htr : ∀ t', t' ∈ tree' ↔ if t' = t then (f x).InTree else t' ∈ tree)
    (hho : (f x).InTree → x.InTree ∨ ∀ tk ∈ tree, ∀ y, h.get tk = some y → y.blkid ≠ x.blkid)
    (hrc : (f x).refcount - (f x).ownRefs = x.refcount - x.ownRefs + δ)
    (hpu : ∀ t', puts'.count t' + (f x).foundRef t' =
      puts.count t' + x.foundRef t' + if t' = t then δ else 0)
    (hfr : (f x).Fresh → x.Fresh ∧ (f x).refcount = x.refcount)
    (hsub : ∀ t' ∈ puts', t' ∈ puts ∨ ∃ y, h.get t' = some y)
    (hfo : ∀ t', (f x).pc = .found t' → x.pc = .found t' ∨
      t' ≠ t ∧ ∃ y, h.get t' = some y ∧ y.blkid = x.blkid ∧ ¬ y.Fresh)
    (hwa : ∀ t', x.pc = .waiting t' → (f x).pc = .waiting t')
    (hli : x.type ≠ .gc → ∀ g, (f x).link = .node g → x.link = .node g ∨
      g ≠ t ∧ ∃ y, h.get g = some y ∧ y.type = .gc ∧ y.pc = .waiting t ∧ y.blkid = x.blkid)
    (hpa : (f x).Past → m x.blkid = some (f x).pbid ∨ m x.blkid = none) :
    TaskInv (h.modify t f) tree' puts' m := by
  have hsum : ∀ t', (h.modify t f).sum (Task.foundRef t') =
      h.sum (Task.foundRef t') - x.foundRef t' + (f x).foundRef t' :=
    fun t' => Heap.sum_modify hx f (Task.foundRef t')
  have hheld : ∀ t', heldRefs (h.modify t f) puts' t' =
      heldRefs h puts t' + if t' = t then δ else 0 := by
    intro t'
    have := hpu t'
    rw [heldRefs, heldRefs, hsum]
    omega
  -- a task that was there still is, with the same block
  have hkeep : ∀ i y, h.get i = some y → ∃ y', (h.modify t f).get i = some y' ∧
      y'.blkid = y.blkid ∧ y'.type = y.type ∧ (¬ y.Fresh → ¬ y'.Fresh) ∧
      ∀ t', y.pc = .waiting t' → y'.pc = .waiting t' := by
    intro i y hy
    by_cases e : i = t
    · subst e
      cases hx.symm.trans hy
      exact ⟨f x, Heap.get_modify_self hx f, hb, hty, fun h1 h2 => h1 (hfr h2).1, hwa⟩
    · exact ⟨y, by rw [Heap.get_modify_ne e, hy], rfl, rfl, id, fun _ => id⟩
  refine ⟨a.shape.modify_at hx hs, hnd, ?_, ?_, ?_, ?_, ?_, ?_, ?_, a.past.modify_at hx ?_⟩
  · intro t'
    rw [htr]
    by_cases e : t' = t
    · subst e
      rw [if_pos rfl, Heap.get_modify_self hx]
      exact ⟨fun hi => ⟨_, rfl, hi⟩, fun ⟨_, he, hi⟩ => Option.some.inj he ▸ hi⟩
    · rw [if_neg e, Heap.get_modify_ne e, a.tree]
  · refine a.holder.modify_at hx fun j y hj hy => ⟨fun hxy h1 h2 => ?_, fun hyx h1 h2 => ?_⟩
    · rw [hb]
      rcases hho h1 with h1 | h1
      · exact hxy h1 h2
      · exact (h1 j ((a.tree j).mpr ⟨y, hy, h2⟩) y hy).symm
    · rw [hb]
      rcases hho h2 with h2 | h2
      · exact hyx h1 h2
      · exact h2 j ((a.tree j).mpr ⟨y, hy, h1⟩) y hy
  · intro i y hy
    rw [hheld]
    rw [Heap.get_modify] at hy
    split_ifs at hy ⊢ with e
    · subst e
      rw [hx] at hy
      cases hy
      have := a.refs i x hx
      omega
    · rw [a.refs i y hy, add_zero]
  · exact a.fresh.modify_at hx fun hf hf' => (hfr hf').2.trans (hf (hfr hf').1)
  · intro t' ht'
    have : ∃ y, h.get t' = some y := (hsub t' ht').elim (a.puts t') id
    obtain ⟨y, hy⟩ := this
    obtain ⟨y', hy', -⟩ := hkeep t' y hy
    exact ⟨y', hy'⟩
  · have hall : (h.modify t f).All fun _ x => ∀ t', x.pc = .found t' →
        ∃ y, h.get t' = some y ∧ y.blkid = x.blkid ∧ ¬ y.Fresh := by
      refine a.found.modify_at hx fun hf t' hpc => ?_
      rw [hb]
      rcases hfo t' hpc with h1 | ⟨-, h1⟩
      · exact hf t' h1
      · exact h1
    refine hall.imp fun i y _ hf t' hpc => ?_
    obtain ⟨w, hw, hwb, hwf⟩ := hf t' hpc
    obtain ⟨w', hw', hb', -, hf', -⟩ := hkeep t' w hw
    exact ⟨w', hw', hb'.trans hwb, hf' hwf⟩
  · have hall : (h.modify t f).All fun t' x => x.type ≠ .gc → ∀ g, x.link = .node g →
        ∃ y, h.get g = some y ∧ y.type = .gc ∧ y.pc = .waiting t' ∧ y.blkid = x.blkid := by
      refine a.link.modify_at hx fun hf h1 g hg => ?_
      rw [hty] at h1
      rw [hb]
      rcases hli h1 g hg with h2 | ⟨-, h2⟩
      · exact hf h1 g h2
      · exact h2
    refine hall.imp fun i y _ hf h1 g hg => ?_
    obtain ⟨w, hw, hwt, hwp, hwb⟩ := hf h1 g hg
    obtain ⟨w', hw', hb', hty', -, hpc'⟩ := hkeep g w hw
    exact ⟨w', hw', hty'.trans hwt, hpc' _ hwp, hb'.trans hwb⟩
  · intro _ hp
    rw [hb]
    exact hpa hp

/-- A new task. -/
theorem alloc (a : TaskInv h tree puts m) {x : Task α} (hs : x.Shape) (hf : x.Fresh)
    (hr : x.refcount = 1) (hpc : x.pc ≠ .done ∧ ∀ t, x.pc ≠ .found t)
    (hl : ∀ g, x.link ≠ .node g) : TaskInv (h.alloc x) tree puts m := by
  have hkeep : ∀ i y, h.get i = some y → (h.alloc x).get i = some y := by
    intro i y hy
    rw [Heap.get_alloc, if_neg (Heap.lt_next_of_get hy).ne, hy]
  have hnot := Task.not_inTree_of_fresh hf
  have hsum : ∀ t, (h.alloc x).sum (Task.foundRef t) = h.sum (Task.foundRef t) := by
    intro t
    rw [Heap.sum_alloc, Task.foundRef, if_neg (hpc.2 t), add_zero]
  have hheld : ∀ t, heldRefs (h.alloc x) puts t = heldRefs h puts t := by
    intro t
    rw [heldRefs, heldRefs, hsum]
  refine ⟨a.shape.alloc hs, a.nodup, ?_, ?_, ?_, a.fresh.alloc fun _ => hr, ?_, ?_, ?_, ?_⟩
  · intro t
    rw [a.tree, Heap.get_alloc]
    constructor
    · rintro ⟨y, hy, hi⟩
      exact ⟨y, by rw [if_neg (Heap.lt_next_of_get hy).ne, hy], hi⟩
    · rintro ⟨y, hy, hi⟩
      split_ifs at hy with e
      · cases hy
        exact absurd hi hnot
      · exact ⟨y, hy, hi⟩
  · exact a.holder.alloc fun _ _ _ => ⟨fun h1 => absurd h1 hnot, fun _ h1 => absurd h1 hnot⟩
  · have hz : heldRefs h puts h.next = 0 := by
      have h1 : puts.count h.next = 0 := List.count_eq_zero.mpr fun hmem => by
        obtain ⟨y, hy⟩ := a.puts _ hmem
        exact (Heap.lt_next_of_get hy).ne rfl
      have h2 : h.sum (Task.foundRef h.next) = 0 := Heap.sum_eq_zero fun i y hy => by
        rw [Task.foundRef, if_neg]
        intro hfo
        obtain ⟨w, hw, -⟩ := a.found i y hy _ hfo
        exact (Heap.lt_next_of_get hw).ne rfl
      rw [heldRefs, h1, h2]
      rfl
    have : (h.alloc x).All fun t y => y.refcount = y.ownRefs + heldRefs h puts t := by
      refine a.refs.alloc ?_
      rw [hz, hr, Task.ownRefs, if_neg hnot, if_neg hpc.1]
      rfl
    exact this.imp fun t y _ hy => by rw [hheld]; exact hy
  · intro t ht
    obtain ⟨y, hy⟩ := a.puts t ht
    exact ⟨y, hkeep t y hy⟩
  · refine Heap.All.alloc (a.found.imp fun i y _ hy t ht => ?_) fun t ht => absurd ht (hpc.2 t)
    obtain ⟨w, hw, hr⟩ := hy t ht
    exact ⟨w, hkeep t w hw, hr⟩
  · refine Heap.All.alloc (a.link.imp fun i y _ hy hty g hg => ?_) fun _ g hg => absurd hg (hl g)
    obtain ⟨w, hw, hr⟩ := hy hty g hg
    exact ⟨w, hkeep g w hw, hr⟩
  · exact a.past.alloc fun hp => absurd hp.inTree hnot

/-- A task that nothing refers to is destroyed. -/
theorem free (a : TaskInv h tree puts m) {t : ℕ} {x : Task α} (hx : h.get t = some x)
    {puts' : List ℕ} (hin : ¬ x.InTree) (hfo : ∀ i y, h.get i = some y → y.pc ≠ .found t)
    (hxf : ∀ t', x.pc ≠ .found t') (ht : t ∉ puts')
    (hpu : ∀ t', t' ≠ t → puts'.count t' = puts.count t')
    (hli : ∀ i y, i ≠ t → h.get i = some y → y.type ≠ .gc → y.link ≠ .node t) :
    TaskInv (h.free t) tree puts' m := by
  have hsum : ∀ t', (h.free t).sum (Task.foundRef t') = h.sum (Task.foundRef t') := by
    intro t'
    rw [Heap.sum_free hx, Task.foundRef, if_neg (hxf t'), sub_zero]
  have hlive : ∀ i y, (h.free t).get i = some y → i ≠ t ∧ h.get i = some y := by
    intro i y hy
    rw [Heap.get_free] at hy
    split_ifs at hy with e
    exact ⟨e, hy⟩
  have hkeep : ∀ i y, i ≠ t → h.get i = some y → (h.free t).get i = some y := by
    intro i y e hy
    rw [Heap.get_free, if_neg e, hy]
  refine ⟨a.shape.free t, a.nodup, ?_, a.holder.free t, ?_, a.fresh.free t, ?_, ?_, ?_,
    a.past.free t⟩
  · intro t'
    rw [a.tree]
    constructor
    · rintro ⟨y, hy, hi⟩
      have e : t' ≠ t := by
        rintro rfl
        cases hx.symm.trans hy
        exact hin hi
      exact ⟨y, hkeep t' y e hy, hi⟩
    · rintro ⟨y, hy, hi⟩
      exact ⟨y, (hlive t' y hy).2, hi⟩
  · intro i y hy
    obtain ⟨e, hy⟩ := hlive i y hy
    rw [a.refs i y hy, heldRefs, heldRefs, hsum, hpu i e]
  · intro t' ht'
    have e : t' ≠ t := fun e => ht (e ▸ ht')
    have h1 : t' ∈ puts := by
      rw [← List.count_pos_iff, ← hpu t' e, List.count_pos_iff]
      exact ht'
    obtain ⟨y, hy⟩ := a.puts t' h1
    exact ⟨y, hkeep t' y e hy⟩
  · intro i y hy t' ht'
    obtain ⟨-, hy⟩ := hlive i y hy
    obtain ⟨w, hw, hr⟩ := a.found i y hy t' ht'
    exact ⟨w, hkeep t' w (fun e => hfo i y hy (e ▸ ht')) hw, hr⟩
  · intro i y hy hty g hg
    obtain ⟨e, hy⟩ := hlive i y hy
    obtain ⟨w, hw, hr⟩ := a.link i y hy hty g hg
    exact ⟨w, hkeep g w (fun e' => hli i y e hy hty (e' ▸ hg)) hw, hr⟩

/-- The mapping of a block that no gc task past its check holds changes. -/
theorem setMapping (a : TaskInv h tree puts m) {b : ℕ}
    (hb : ∀ i y, h.get i = some y → y.Past → y.blkid ≠ b) (v : Option ℕ) :
    TaskInv h tree puts (Function.update m b v) := by
  refine { a with past := fun i y hy hpast => ?_ }
  rw [Function.update_of_ne (hb i y hy hpast)]
  exact a.past i y hy hpast

/-- The holder of a block is the only task in the tree for it. -/
theorem eq_of_holder (a : TaskInv h tree puts m) {t i : ℕ} {x y : Task α} (hx : h.get t = some x)
    (hi : x.InTree) (hy : h.get i = some y) (hyi : y.InTree) (hb : y.blkid = x.blkid) : i = t := by
  by_contra e
  exact a.holder i t y x e hy hx hyi hi hb

/-- The last reference on `t` goes: nothing works on it and nothing looks at it. -/
theorem last (a : TaskInv h tree puts m) {t : ℕ} {x : Task α} (hx : h.get t = some x)
    (ht : t ∈ puts) (hr : x.refcount - 1 = 0) :
    x.pc = .done ∧ ¬ x.InTree ∧ puts.count t = 1 ∧ ∀ i y, h.get i = some y → y.pc ≠ .found t := by
  have h1 : x.refcount = x.ownRefs + heldRefs h puts t := a.refs t x hx
  have h2 : 0 < puts.count t := List.count_pos_iff.mpr ht
  have h3 : ∀ y : Task α, 0 ≤ y.foundRef t := fun y => by unfold Task.foundRef; split_ifs <;> omega
  have h4 := Heap.sum_nonneg h h3
  have h5 : 0 ≤ (if x.InTree then 1 else 0 : ℤ) := by split_ifs <;> omega
  have h6 : 0 ≤ (if x.pc = .done then 0 else 1 : ℤ) := by split_ifs <;> omega
  rw [heldRefs, Task.ownRefs] at h1
  have hs : h.sum (Task.foundRef t) = 0 := by omega
  refine ⟨?_, ?_, by omega, fun i y hy hpc => ?_⟩
  · by_contra hpc
    rw [if_neg hpc] at h1
    omega
  · intro hi
    rw [if_pos hi] at h1
    omega
  · have := Heap.eq_zero_of_sum_eq_zero h3 hs hy
    rw [Task.foundRef, if_pos hpc] at this
    omega

/-- Nothing refers to a task that has never been in the tree. -/
theorem unseen (a : TaskInv h tree puts m) {t : ℕ} {x : Task α} (hx : h.get t = some x)
    (hf : x.Fresh) (hpc : x.pc ≠ .done) :
    t ∉ puts ∧ ∀ i y, h.get i = some y → y.pc ≠ .found t := by
  have h1 : x.refcount = x.ownRefs + heldRefs h puts t := a.refs t x hx
  have h3 : ∀ y : Task α, 0 ≤ y.foundRef t := fun y => by unfold Task.foundRef; split_ifs <;> omega
  have h4 := Heap.sum_nonneg h h3
  rw [a.fresh t x hx hf, heldRefs, Task.ownRefs, if_neg (Task.not_inTree_of_fresh hf),
    if_neg hpc] at h1
  have hs : h.sum (Task.foundRef t) = 0 := by omega
  refine ⟨fun ht => ?_, fun i y hy hpc => ?_⟩
  · have : 0 < puts.count t := List.count_pos_iff.mpr ht
    omega
  · have := Heap.eq_zero_of_sum_eq_zero h3 hs hy
    rw [Task.foundRef, if_pos hpc] at this
    omega

/-- The mapping of a block is removed. -/
theorem discard (a : TaskInv h tree puts m) (b : ℕ) :
    TaskInv h tree puts (Function.update m b none) := by
  refine { a with past := fun i y hy hpast => ?_ }
  by_cases e : y.blkid = b
  · rw [e, Function.update_self]
    exact Or.inr rfl
  · rw [Function.update_of_ne e]
    exact a.past i y hy hpast



theorem tame (a : TaskInv h tree puts m) {t : ℕ} {x : Task α} (hx : h.get t = some x)
    {f : Task α → Task α} (hf : Tame x (f x))
    (hpa : (f x).Past → m x.blkid = some x.pbid ∨ m x.blkid = none) :
    TaskInv (h.modify t f) tree puts m := by
  refine a.modify hx 0 hf.shape hf.type hf.blkid a.nodup (fun t' => ?_)
    (fun hi => Or.inl (hf.inTree.mp hi)) ?_ (fun t' => ?_) (fun hfr => ⟨hf.fresh hfr, hf.refcount⟩)
    (fun _ => Or.inl) (fun t' h' => Or.inl ((hf.found t').mp h')) hf.waiting
    (fun _ g hg => Or.inl (hf.link ▸ hg)) ?_
  · split_ifs with e
    · rw [hf.inTree, e, a.tree]
      exact ⟨fun ⟨y, hy, hi⟩ => by cases hx.symm.trans hy; exact hi, fun hi => ⟨x, hx, hi⟩⟩
    · exact Iff.rfl
  · simp only [Task.ownRefs, hf.inTree, hf.done, hf.refcount, add_zero]
  · simp only [Task.foundRef, hf.found, ite_self, add_zero]
  · rw [hf.pbid]
    exact hpa

end TaskInv

/-! ## References and the tree -/

namespace TaskInv

variable {h : Heap (Task α)} {tree puts : List ℕ} {m : ℕ → Option ℕ}

theorem count_cons_int (l : List ℕ) (t t' : ℕ) :
    ((t :: l).count t' : ℤ) = l.count t' + if t' = t then 1 else 0 := by
  rw [List.count_cons]
  simp only [beq_iff_eq, eq_comm (a := t) (b := t')]
  push_cast
  rfl

theorem mem_tree (a : TaskInv h tree puts m) {t : ℕ} {x : Task α} (hx : h.get t = some x) :
    t ∈ tree ↔ x.InTree := by
  rw [a.tree]
  exact ⟨fun ⟨y, hy, hi⟩ => by cases hx.symm.trans hy; exact hi, fun hi => ⟨x, hx, hi⟩⟩

/-- A reference on a task of the tree is taken, for a `task_put` to come. -/
theorem grab (a : TaskInv h tree puts m) {tk : ℕ} {y : Task α} (hy : h.get tk = some y)
    (htk : tk ∈ tree) : TaskInv (h.modify tk Task.incRef) tree (tk :: puts) m := by
  have hi : y.InTree := (a.mem_tree hy).mp htk
  refine a.modify hy 1 (fun hs => hs.congr rfl rfl rfl rfl rfl rfl rfl rfl) rfl rfl a.nodup
    (fun t' => ?_) (fun _ => Or.inl hi) ?_ (fun t' => ?_)
    (fun hf => absurd hi (Task.not_inTree_of_fresh hf)) (fun t' ht' => ?_) (fun _ => Or.inl)
    (fun _ => id) (fun _ _ => Or.inl) (a.past tk y hy)
  · split_ifs with e
    · exact iff_of_true (e ▸ htk) hi
    · exact Iff.rfl
  · change y.refcount + 1 - y.ownRefs = _
    ring
  · rw [show Task.foundRef t' y.incRef = y.foundRef t' from rfl, count_cons_int]
    ring
  · rcases List.mem_cons.mp ht' with rfl | ht'
    · exact Or.inr ⟨y, hy⟩
    · exact Or.inl ht'

/-- A task enters the tree. -/
theorem enter (a : TaskInv h tree puts m) {t : ℕ} {x : Task α} (hx : h.get t = some x)
    {f : Task α → Task α} (hf : x.Fresh) (hs : x.Shape → (f x).Shape) (hty : (f x).type = x.type)
    (hb : (f x).blkid = x.blkid) (hin : (f x).InTree) (hrc : (f x).refcount = x.refcount + 1)
    (hxpc : x.pc ≠ .done ∧ (∀ t, x.pc ≠ .waiting t) ∧ ∀ t, x.pc ≠ .found t)
    (hypc : (f x).pc ≠ .done ∧ ∀ t, (f x).pc ≠ .found t)
    (hl : (f x).link = x.link) (hp : ¬ (f x).Past)
    (hfree : ∀ tk ∈ tree, ∀ y, h.get tk = some y → y.blkid ≠ x.blkid) :
    TaskInv (h.modify t f) (t :: tree) puts m := by
  have hx' : ¬ x.InTree := Task.not_inTree_of_fresh hf
  have ht : t ∉ tree := fun ht => hx' ((a.mem_tree hx).mp ht)
  refine a.modify hx 0 hs hty hb (List.nodup_cons.mpr ⟨ht, a.nodup⟩) (fun t' => ?_)
    (fun _ => Or.inr hfree) ?_ (fun t' => ?_) (fun hf' => absurd hin (Task.not_inTree_of_fresh hf'))
    (fun _ => Or.inl) (fun t' h' => absurd h' (hypc.2 t')) (fun t' h' => absurd h' (hxpc.2.1 t'))
    (fun _ g hg => Or.inl (hl ▸ hg)) (fun h' => absurd h' hp)
  · rw [List.mem_cons]
    split_ifs with e
    · exact iff_of_true (Or.inl e) hin
    · exact or_iff_right e
  · rw [Task.ownRefs, Task.ownRefs, if_pos hin, if_neg hx', if_neg hxpc.1, if_neg hypc.1, hrc]
    ring
  · rw [Task.foundRef, Task.foundRef, if_neg (hxpc.2.2 t'), if_neg (hypc.2 t'), ite_self, add_zero,
      add_zero]

/-- A task leaves the tree, with its reference. -/
theorem leave (a : TaskInv h tree puts m) {t : ℕ} {x : Task α} (hx : h.get t = some x)
    {f : Task α → Task α} {puts' : List ℕ}
    (hs : x.Shape → (f x).Shape) (hty : (f x).type = x.type)
    (hb : (f x).blkid = x.blkid) (hix : x.InTree) (hin : ¬ (f x).InTree)
    (hrc : (f x).refcount = x.refcount - 1)
    (hxpc : x.pc ≠ .done ∧ (∀ t, x.pc ≠ .waiting t) ∧ ∀ t, x.pc ≠ .found t)
    (hypc : ∀ t, (f x).pc ≠ .found t) (hfr : ¬ (f x).Fresh)
    (hl : (f x).link = x.link)
    (hpu : puts' = if (f x).pc = .done then t :: puts else puts) :
    TaskInv (h.modify t f) (tree.erase t) puts' m := by
  have hp : ¬ (f x).Past := fun hp => hin hp.inTree
  refine a.modify hx (if (f x).pc = .done then 1 else 0) hs hty hb (a.nodup.erase t) (fun t' => ?_)
    (fun h' => absurd h' hin) ?_ (fun t' => ?_) (fun hf' => absurd hf' hfr)
    (fun t' ht' => ?_) (fun t' h' => absurd h' (hypc t')) (fun t' h' => absurd h' (hxpc.2.1 t'))
    (fun _ g hg => Or.inl (hl ▸ hg)) (fun h' => absurd h' hp)
  · rw [a.nodup.mem_erase_iff]
    split_ifs with e
    · exact iff_of_false (fun h' => h'.1 e) hin
    · exact and_iff_right e
  · rw [Task.ownRefs, Task.ownRefs, if_neg hin, if_pos hix, if_neg hxpc.1, hrc]
    split_ifs <;> ring
  · rw [Task.foundRef, Task.foundRef, if_neg (hxpc.2.2 t'), if_neg (hypc t'), hpu]
    by_cases e1 : (f x).pc = .done
    · rw [if_pos e1, if_pos e1, count_cons_int]
      ring
    · rw [if_neg e1, if_neg e1, ite_self]
      ring
  · rw [hpu] at ht'
    split_ifs at ht'
    · rcases List.mem_cons.mp ht' with rfl | ht'
      · exact Or.inr ⟨x, hx⟩
      · exact Or.inl ht'
    · exact Or.inl ht'

end TaskInv

end Lbz
