import Lbz.GcSurvives
import Lbz.Ownership
import Lbz.Reads

/-!
# What is left when nothing is going on

* `GcInflight k`: `gc_inflight_io_cnt` is the number of gc tasks that have not been called back;
  `ReadInflight k`: `user_read_inflight_io_cnt` is the number of reads at the device and of reads
  ended whose zone is not released yet; `Referred k`: a task that is there is referred to; every
  move keeps them, also the errors;
* `Finished s`: nothing is at the device, no call is to be made, and all queues are empty;
* **`nothing_left`**: then no task is there, no reference is held, every write has ended and every
  gc task has been called back, and the victim holds no valid block.
-/

namespace Lbz

variable {α : Type}

/-! ## Gc tasks that have not been called back -/

def Task.moving (x : Task α) : ℤ := if x.type = .gc ∧ x.pc ≠ .done then 1 else 0

def GcInflight (k : Core α) : Prop := k.gcInflight = k.tasks.sum Task.moving

/-- A task changes that goes on, or is none of the gc. -/
theorem sum_moving_modify {h : Heap (Task α)} {t : ℕ} {x : Task α} (hx : h.get t = some x)
    {f : Task α → Task α} (hty : (f x).type = x.type)
    (hpc : x.type = .gc → ((f x).pc = .done ↔ x.pc = .done)) :
    (h.modify t f).sum Task.moving = h.sum Task.moving := by
  have hl : (f x).moving = x.moving := by
    by_cases hgc : x.type = .gc
    · simp only [Task.moving, hty, hgc, hpc hgc, ne_eq]
    · simp only [Task.moving, hty, hgc, false_and]
  rw [Heap.sum_modify hx, hl]
  ring

theorem sum_moving_done {h : Heap (Task α)} {t : ℕ} {x : Task α} (hx : h.get t = some x)
    {f : Task α → Task α} (hty : x.type = .gc) (hpc : x.pc ≠ .done) (hf : (f x).pc = .done) :
    (h.modify t f).sum Task.moving = h.sum Task.moving - 1 := by
  rw [Heap.sum_modify hx, Task.moving, if_pos ⟨hty, hpc⟩, Task.moving, if_neg fun h => h.2 hf]
  ring

section

variable [Inhabited α] {c : Conf} {k k' : Core α} {l : Label}

theorem GcInflight.move (T : Tasks k) (Q : Queues k) (a : GcInflight k) (hm : Move c k l k') :
    GcInflight k' := by
  unfold GcInflight at a
  -- the tasks and the counter change by the same
  have key : ∀ {n : ℤ}, k'.gcInflight = k.gcInflight + n →
      k'.tasks.sum Task.moving = k.tasks.sum Task.moving + n → GcInflight k' := fun h1 h2 => by
    rw [GcInflight, h1, h2, a]
  have same : k'.gcInflight = k.gcInflight → k'.tasks.sum Task.moving = k.tasks.sum Task.moving →
      GcInflight k' := fun h1 h2 => key (h1.trans (add_zero _).symm) (h2.trans (add_zero _).symm)
  cases hm with
  | submitWrite b d more hty =>
    refine same rfl ?_
    rw [Heap.sum_alloc, Task.moving, if_neg fun h => hty h.1, add_zero]
  | scanBlock =>
    refine key (n := 1) rfl ?_
    rw [Heap.sum_alloc]
    rfl
  | @conflict t tk x y hx hty hst hpc htk hy hb =>
    have hf : x.Fresh := by rw [Task.Fresh, if_neg hty]; exact hst
    have hx' : (k.tasks.modify tk Task.incRef).get t = some x := by
      rw [Heap.get_modify_ne (TaskInv.ne_of_fresh T hx hf htk), hx]
    refine same rfl ?_
    exact (sum_moving_modify hx' rfl fun h => absurd h hty).trans
      (sum_moving_modify hy rfl fun _ => Iff.rfl)
  | @gcFind g tk x y hx hty hst hpc htk hy hb =>
    have hf : x.Fresh := by
      rw [Task.Fresh, if_pos hty, hpc]
      exact ⟨hst, by rintro ⟨⟩, by rintro ⟨⟩, by rintro ⟨⟩⟩
    have hx' : (k.tasks.modify tk Task.incRef).get g = some x := by
      rw [Heap.get_modify_ne (TaskInv.ne_of_fresh T hx hf htk), hx]
    refine same rfl ?_
    exact (sum_moving_modify hx' rfl fun _ => by simp [hpc]).trans
      (sum_moving_modify hy rfl fun _ => Iff.rfl)
  | @gcFound g tk x hx hty hpc =>
    obtain ⟨y, hy, -⟩ := T.found g x hx tk hpc
    have h1 := sum_moving_modify (f := fun x => { x with error := some .enoent, pc := .waiting tk })
      hx rfl fun _ => by simp [hpc]
    refine same rfl (Eq.trans ?_ h1)
    by_cases e : tk = g
    · subst e
      exact sum_moving_modify (Heap.get_modify_self hx _) rfl fun _ => Iff.rfl
    · exact sum_moving_modify (x := y) (by rw [Heap.get_modify_ne e, hy]) rfl fun _ => Iff.rfl
  | insert hx hty | apply hx hty | writeFail hx hty | pend hx hty | dispatchFail hx hty
  | allocFail hx hty => exact same rfl (sum_moving_modify hx rfl fun h => absurd h hty)
  | fallback hx hst hpc | fallbackFail hx hst hpc | append hx hpc | devFail hx hpc
  | gcServe hx hpc | gcServeFail hx hpc | gcReadEnd hx hpc =>
    exact same rfl (sum_moving_modify hx rfl fun _ => by simp [hpc])
  | gcInsert hx hty hst hpc =>
    exact same rfl (sum_moving_modify hx rfl fun _ => by simp [hpc])
  | gcSkip hx hty hpc | gcPass hx hty hpc | gcWritten hx hty hpc | gcWriteFail hx hty hpc =>
    exact same rfl (sum_moving_modify hx rfl fun _ => by simp [hpc])
  | dispatch hx hst hpc =>
    refine same rfl (sum_moving_modify hx rfl fun _ => iff_of_false (by rintro ⟨⟩) ?_)
    rcases hpc with hpc | ⟨j, hpc⟩ <;> rw [hpc] <;> rintro ⟨⟩
  | @untree t z x hx hpc hz =>
    obtain ⟨hty, -⟩ := (T.shape t x hx).ended hpc
    exact same rfl (sum_moving_modify hx rfl fun h => absurd h hty)
  | dropRef ht hx => exact same rfl (sum_moving_modify hx rfl fun _ => Iff.rfl)
  | @destroy t x ht hx hr hl =>
    obtain ⟨hd, -⟩ := TaskInv.last T hx ht hr
    refine same rfl ?_
    rw [Heap.sum_free hx, Task.moving, if_neg fun h => h.2 hd, sub_zero]
  | @destroyCall t g v x y ht hx hr hty hl hy hgc hpc hv =>
    have hx' : (k.tasks.free g).get t = some x := by
      rw [Heap.get_free, if_neg, hx]
      rintro rfl
      cases hx.symm.trans hy
      exact hty hgc
    refine key (n := -1) rfl ?_
    rw [Heap.sum_free hx', Heap.sum_free hy, Task.moving, Task.moving,
      if_pos ⟨hgc, by rw [hpc]; rintro ⟨⟩⟩, if_neg fun h => hty h.1]
    ring
  | @nextUser t l hr hret =>
    obtain ⟨x, hx, hty, -⟩ := Q.users.2 t (by simp [hr, RetryPc.usersLeft])
    exact same rfl (sum_moving_modify hx rfl fun h => absurd h hty)
  | @nextGc t l hr hret =>
    obtain ⟨x, hx, -, hpc⟩ := Q.gcs.2 t (by simp [hr, RetryPc.gcsLeft])
    exact same rfl (sum_moving_modify hx rfl fun _ => by simp [hpc])
  | remap hx hty hpc | release hx hty hpc | skipEnd hx hty hpc =>
    exact key (n := -1) rfl (sum_moving_done hx hty (by rw [hpc]; rintro ⟨⟩) rfl)
  | @gcReadFail g v x hx hpc hv =>
    exact key (n := -1) rfl (sum_moving_done hx ((T.shape g x hx).read_type hpc)
      (by rw [hpc]; rintro ⟨⟩) rfl)
  | _ => exact a

/-! ## Reads that have not released their zone -/

def ReadInflight (k : Core α) : Prop :=
  k.userReadInflight = k.reads.sum (fun _ => 1) + putsBy .read k.puts

omit [Inhabited α] in
theorem ReadInflight.keep (a : ReadInflight k) (hn : k'.userReadInflight = k.userReadInflight)
    (hr : k'.reads.sum (fun _ => 1) = k.reads.sum fun _ => 1)
    (hp : putsBy .read k'.puts = putsBy .read k.puts) : ReadInflight k' := by
  rw [ReadInflight, hn, hr, hp]
  exact a

theorem ReadInflight.move (a : ReadInflight k) (hm : Move c k l k') : ReadInflight k' := by
  cases hm with
  | readMiss => exact a.keep rfl (Heap.sum_burn _ _) rfl
  | readHit hb =>
    unfold ReadInflight at a ⊢
    simp only [Heap.sum_alloc, a]
    ring
  | serve hx | serveFail hx =>
    refine a.keep rfl ?_ rfl
    rw [Heap.sum_modify hx, sub_add_cancel]
  | endRead hx =>
    unfold ReadInflight at a ⊢
    simp only [Heap.sum_free hx, putsBy_cons, if_true, a]
    push_cast
    ring
  | putZone hz =>
    unfold ReadInflight at a ⊢
    simp only [putsBy_erase .read hz, a]
    split_ifs <;> ring
  | complete | scanEnd | peek | skipEnd | gcReadFail | destroyCall =>
    exact a.keep rfl rfl (putsBy_cons ..)
  | remap | release =>
    refine a.keep rfl rfl ?_
    rw [putsBy_cons, putsBy_cons]
    rfl
  | _ => exact a

/-! ## References on tasks -/

/-- A task that is there is referred to. -/
def Referred (k : Core α) : Prop := k.tasks.All fun _ x => 0 < x.refcount

omit [Inhabited α] in
/-- The tree and the context that works on a task have two references. -/
theorem Tasks.two_refs (T : Tasks k) {t : ℕ} {x : Task α} (hx : k.tasks.get t = some x)
    (hi : x.InTree) (hd : x.pc ≠ .done) : 2 ≤ x.refcount := by
  have h1 : x.refcount = x.ownRefs + heldRefs k.tasks k.taskPuts t := T.refs t x hx
  have h2 := TaskInv.heldRefs_nonneg k.tasks k.taskPuts t
  rw [Task.ownRefs, if_pos hi, if_neg hd] at h1
  omega

theorem Referred.move (T : Tasks k) (a : Referred k) (hm : Move c k l k') : Referred k' := by
  have drop : ∀ {t : ℕ} {x : Task α} {f : Task α → Task α}, k.tasks.get t = some x → x.InTree →
      x.pc ≠ .done → (f x).refcount = x.refcount - 1 →
      (k.tasks.modify t f).All fun _ x => 0 < x.refcount := by
    intro t x f hx hi hd hf
    have := T.two_refs hx hi hd
    exact Heap.All.modify_at a hx fun _ => by rw [hf]; omega
  cases hm with
  | submitWrite | scanBlock => exact Heap.All.alloc a Int.one_pos
  | conflict | gcFind =>
    refine Heap.All.modify (Heap.All.modify a fun x _ h => ?_) fun _ _ h => h
    exact Int.lt_add_one_of_le h.le
  | gcFound =>
    refine Heap.All.modify (Heap.All.modify a fun x _ h => ?_) fun x _ h => ?_
    · exact h
    · exact h
  | insert | gcInsert => exact Heap.All.modify a fun x _ h => Int.lt_add_one_of_le h.le
  | dispatch | fallback | pend | append | apply | nextUser | nextGc | gcServe | gcReadEnd | gcPass
  | gcWritten | skipEnd | dispatchFail | fallbackFail | devFail | writeFail | gcServeFail | gcReadFail
  | gcWriteFail => exact Heap.All.modify a fun _ _ h => h
  | @untree t z x hx hpc hz =>
    obtain ⟨hty, hst, -⟩ := (T.shape t x hx).ended hpc
    have hi : x.InTree := by rcases hst with h | h <;> simp [Task.InTree, hty, h, hpc]
    exact drop hx hi (by rw [hpc]; rintro ⟨⟩) rfl
  | gcSkip hx hty hpc =>
    exact drop hx (by simp [Task.InTree, hty, hpc]) (by rw [hpc]; rintro ⟨⟩) rfl
  | @remap g z v p x hx hty hpc | @release g z v p x hx hty hpc =>
    obtain ⟨-, hst, -⟩ := (T.shape g x hx).callback hpc
    exact drop hx (by simp [Task.InTree, hty, hst, hpc]) (by rw [hpc]; rintro ⟨⟩) rfl
  | @allocFail t x hx hty hst hpc =>
    have hd : x.pc ≠ .done := by rcases hpc with hpc | ⟨j, hpc⟩ <;> rw [hpc] <;> rintro ⟨⟩
    exact drop hx (by simp [Task.InTree, hty, hst, hd]) hd rfl
  | @dropRef t x ht hx hr =>
    refine Heap.All.modify_at a hx fun h => ?_
    change 0 < x.refcount - 1
    omega
  | destroy => exact Heap.All.free a _
  | destroyCall => exact Heap.All.free (Heap.All.free a _) _
  | _ => exact a

/-! ## Writes that have failed -/

/-- No write has failed. -/
def NoneFailed (k : Core α) : Prop := ∀ t, .endW t false ∉ k.hist

theorem NoneFailed.move (a : NoneFailed k) (hf : l ≠ .fault) (hm : Move c k l k') :
    NoneFailed k' := fun t h => by
  cases hm with
  | dispatchFail | fallbackFail | allocFail | devFail | writeFail | serveFail | gcServeFail
  | gcReadFail | gcWriteFail | release | wkFail => exact hf rfl
  | _ => exact a t (by simpa using h)

end

/-! ## Nothing is going on -/

/-- No code works on the task, and no bio of it is at the device. -/
def TaskPc.rests : TaskPc → Bool
  | .pending | .waiting _ | .done => true
  | _ => false

/-- Nothing is at the device, no call is to be made, and all queues are empty. -/
structure Finished (s : Sys α) : Prop where
  tasks : s.tasks.All fun _ x => x.pc.rests = true
  reads : s.reads.All fun _ _ => False
  queues : s.userPending = [] ∧ s.gcWrites = [] ∧ s.retry = .idle
  calls : s.completes = [] ∧ s.puts = [] ∧ s.taskPuts = []
  scan : s.gc.pc = .idle

instance (s : Sys α) : Decidable (Finished s) :=
  decidable_of_iff ((s.tasks.All fun _ x => x.pc.rests = true) ∧ (s.reads.All fun _ _ => False) ∧
    (s.userPending = [] ∧ s.gcWrites = [] ∧ s.retry = .idle) ∧
    (s.completes = [] ∧ s.puts = [] ∧ s.taskPuts = []) ∧ s.gc.pc = .idle)
    ⟨fun h => ⟨h.1, h.2.1, h.2.2.1, h.2.2.2.1, h.2.2.2.2⟩,
      fun h => ⟨h.tasks, h.reads, h.queues, h.calls, h.scan⟩⟩

/-- The story of a write that has been stored and has ended, and left the tree. -/
def wholeStory (t b p : ℕ) (d : α) (more : List α) (flag : AllocFlag) : List (Obs α) :=
  .erase t :: .endW t true :: .stored t b p d :: wroteStory t b d more flag

/-- What is left when nothing is going on. -/
structure NothingLeft (c : Conf) (s : Sys α) : Prop where
  tasks : ∀ t, s.tasks.get t = none
  tree : s.taskTree = []
  counters : s.userWriteInflight = 0 ∧ s.userReadInflight = 0 ∧ s.gcInflight = 0
  /-- only the allocator holds zones -/
  zones : ∀ z, (s.zmd.zones z).pendingWriteIo = 0 ∧
    (s.zmd.zones z).refcount = slotRefs s.zmd.activeZone z
  writes : ∀ t b d more, .submitW t b d more ∈ s.hist →
    ∃ p flag, story t s.hist = wholeStory t b p d more flag
  gcTasks : ∀ g, .gcCreate g ∈ s.hist → CalledStory g (story g s.hist)
  victim : ∀ z b p, (s.zmd.zones z).flags .gc = true → s.mapping b = some p → ¬ c.Contains z p

/-- What the leftovers are read off. -/
structure RestInv (c : Conf) (k : Core α) : Prop where
  victim : VictimInv c 0 k
  stories : Stories k
  parked : Parked k
  writes : Inflight k
  reads : ReadInflight k
  gcs : GcInflight k
  referred : Referred k
  failed : NoneFailed k

theorem RestInv.move [Inhabited α] {c : Conf} {k k' : Core α} {l : Label} (geo : Geom c)
    (B : Base c k)
    (a : RestInv c k) (hf : l ≠ .fault) (hl : l ≠ .stale) (hm : Move c k l k') : RestInv c k' where
  victim := a.victim.move geo B hf hm hl
  stories := a.stories.move B.tasks B.queues hm
  parked := a.parked.move B.tasks hm
  writes := a.writes.move B.tasks B.queues hm
  reads := a.reads.move hm
  gcs := a.gcs.move B.tasks B.queues hm
  referred := a.referred.move B.tasks hm
  failed := a.failed.move hf hm

section

variable {c : Conf} {s : Sys α}

/-- No task is left. -/
theorem Finished.no_task (h : Finished s) (B : Base c s.core) (a : RestInv c s.core) (t : ℕ) :
    s.tasks.get t = none := by
  -- a task that has ended is referred to by somebody
  have hdone : ∀ t x, s.tasks.get t = some x → x.pc ≠ .done := by
    intro t x hx hpc
    have h1 : 0 < x.refcount := a.referred t x hx
    have h2 : x.refcount = x.ownRefs + heldRefs s.tasks s.taskPuts t := B.tasks.refs t x hx
    have h3 : s.tasks.sum (Task.foundRef t) = 0 := Heap.sum_eq_zero fun i y hy => if_neg fun hf => by
      have : y.pc.rests = true := h.tasks i y hy
      rw [hf] at this
      cases this
    rw [Task.ownRefs_done hpc, heldRefs, h.calls.2.2, h3] at h2
    simp at h2
    omega
  have hpending : ∀ t x, s.tasks.get t = some x → x.pc ≠ .pending := by
    intro t x hx hpc
    have := a.parked t x hx hpc
    change t ∈ if x.type = .gc then s.gcWrites ++ s.retry.gcsLeft else
      s.userPending ++ s.retry.usersLeft at this
    rw [h.queues.1, h.queues.2.1, h.queues.2.2] at this
    split_ifs at this <;> cases this
  have hrest : ∀ t x, s.tasks.get t = some x → ∃ i, x.pc = .waiting i := by
    intro t x hx
    have hr : x.pc.rests = true := h.tasks t x hx
    cases hpc : x.pc with
    | waiting i => exact ⟨i, rfl⟩
    | pending => exact absurd hpc (hpending t x hx)
    | done => exact absurd hpc (hdone t x hx)
    | _ => rw [hpc] at hr; cases hr
  cases hx : s.tasks.get t with
  | none => rfl
  | some x =>
    obtain ⟨i, hpc⟩ := hrest t x hx
    obtain ⟨y, hy, hty, -⟩ := a.victim.cover.waiting t i x hx hpc
    obtain ⟨j, hpc'⟩ := hrest i y hy
    exact absurd (B.moving hy (Or.inr (Or.inr ⟨j, hpc'⟩))).1 hty

/-- A write whose task is gone has ended, once, after it has been stored. -/
theorem RestInv.whole_of_gone (a : RestInv c s.core) {t b : ℕ} {d : α} {more : List α}
    (hno : s.tasks.get t = none) (ht : .submitW t b d more ∈ s.hist) :
    ∃ p flag, story t s.hist = wholeStory t b p d more flag := by
  have hm := (mem_story rfl).mp ht
  have hlt : t < s.tasks.next := by
    by_contra hge
    have : story t s.hist = [] := a.stories.new t (not_lt.mp hge)
    rw [this] at hm
    cases hm
  have hover : Over t (story t s.hist) := a.stories.gone t hlt hno
  have hnf : .endW t false ∉ story t s.hist := fun h => a.failed t ((mem_story rfl).mpr h)
  revert hover hm hnf
  generalize story t s.hist = l
  intro hm hover hnf
  cases hover with
  | write h =>
    obtain ⟨flag, ⟨p, rfl⟩ | rfl⟩ := h
    · obtain ⟨rfl, rfl, rfl⟩ : b = _ ∧ d = _ ∧ more = _ := by simpa [wroteStory] using hm
      exact ⟨p, flag, rfl⟩
    · simp at hnf
  | refused => simp at hnf
  | _ => simp [movedStory, calledStory, enteredStory] at hm

variable [Inhabited α] {o : Options} {report : List BlkZone} {s₀ : Sys α}

theorem rest_run (he : EmptyReport o report) (h0 : initSys o report = some s₀)
    (hrun : Runs (stepRel (step (confOf o report))) (fun s e => e.NoError ∧ e.NoCarry s) s₀ s) :
    Sound (confOf o report) (RestInv (confOf o report)) s := by
  have geo := geom_of_empty he (initSys_eq h0).1
  have V : VictimInv (confOf o report) 0 s₀.core := victim_start he h0
  refine Sound.run (fun s e => e.NoCarry s) (fun _ l => l ≠ .stale) geo.pos
    (fun _ _ _ hB a hf hl hm => a.move geo hB hf hl hm)
    (fun _ _ _ _ _ he ha hm => not_stale he ha hm) hrun (sound_of_empty he h0 ?_)
  obtain ⟨-, m, -, rfl⟩ := initSys_eq h0
  exact ⟨V, StoryInv.empty, Heap.All.empty, by simp [Inflight, freshSys, Sys.core, putsBy],
    by simp [ReadInflight, freshSys, Sys.core, putsBy], (Heap.sum_empty _).symm, Heap.All.empty,
    by rintro t ⟨⟩⟩

/-- After `pairGc` the block is moved, zone 0 is reset, and takes the write that had to wait. -/
def pairEnd : List (Event ℕ) :=
  List.flatten [[.devAppend 8 1, .gcWriteEnd 8, .gcEnd 8, .putZone 3 .gc, .putZone 0 .gc,
      .putZone 0 .gc, .putZone 0 .gc, .retryWk],
    List.replicate 10 (.wkStep true), [.wkStart], List.replicate 4 (.wkStep true),
    [.retryWk, .retryWk, .runWrite 7 true, .devAppend 7 0, .writeEnd 7, .writeUntree 7],
    settleWrite 0, [.retryWk, .retryWk]]

end

end Lbz
