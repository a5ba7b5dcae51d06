import Lbz.Leftovers
import Lbz.WorkerPass

/-!
# The work that is left

* `Sys.work c s`: the work that is left, each task, read, call and loop counted by what it can still
  give rise to;
* for each function of the driver that goes on with something, the work it leaves; it does some of
  it, or stops the device.
-/

namespace Lbz

variable {α : Type} {c : Conf}

/-- Nothing changes at an address where nothing is. -/
theorem Heap.modify_of_none {β : Type} {h : Heap β} {i : ℕ} (hx : h.get i = none) (f : β → β) :
    h.modify i f = h := by
  obtain ⟨l⟩ := h
  rw [Heap.modify, Heap.mk.injEq]
  refine List.ext_getElem? fun j => ?_
  rw [List.getElem?_modify]
  split_ifs with e
  · subst e
    rw [Heap.get, List.getD_eq_getElem?_getD] at hx
    cases hj : l[i]? with
    | none => rfl
    | some o =>
      rw [hj] at hx
      cases hx
      rfl
  · simp

theorem Heap.free_of_none {β : Type} {h : Heap β} {i : ℕ} (hx : h.get i = none) :
    h.free i = h := by
  obtain ⟨l⟩ := h
  rw [Heap.free, Heap.mk.injEq]
  refine List.ext_getElem? fun j => ?_
  rw [List.getElem?_set]
  split_ifs with e hlt
  · subst e
    rw [Heap.get, List.getD_eq_getElem?_getD, List.getElem?_eq_getElem hlt] at hx
    rw [List.getElem?_eq_getElem hlt]
    exact congrArg some hx.symm
  · subst e
    rw [List.getElem?_eq_none (not_lt.mp hlt)]
  · rfl

/-! ## The work that is left -/

/-- What can still come of a task: each step of it, with the calls that it leaves to others. -/
def Task.work (x : Task α) : ℤ :=
  match x.pc with
  | .reading => 23
  | .read _ => 22
  | .pending => if x.type = .gc then 10 else 0
  | .submit => if x.status = .init ∨ x.status = .gcReading then 10 else 7
  | .found _ | .check => 9
  | .fallback _ => 6
  | .device => 5
  | .written _ | .failed => 4
  | .ended | .callback _ | .skip => 3
  | .waiting _ => 2
  | .done => 0

theorem Task.work_of_pc {p : TaskPc} {x : Task α} (h : x.pc = p) :
    x.work = ({ x with pc := p } : Task α).work := by
  subst h
  rfl

theorem Task.work_nonneg (x : Task α) : 0 ≤ x.work := by
  unfold Task.work
  split <;> (try split_ifs) <;> omega

/-- A task that the retry worker submits is worth less than the turn it takes. -/
theorem Task.work_submit_le (x : Task α) : ({ x with pc := .submit } : Task α).work ≤ 10 := by
  unfold Task.work
  simp only
  split_ifs <;> omega

def ReadHook.work (x : ReadHook α) : ℤ := if x.served = none then 3 else 2

theorem ReadHook.work_nonneg (x : ReadHook α) : 0 ≤ x.work := by
  unfold ReadHook.work
  split_ifs <;> omega

def RetryPc.work : RetryPc → ℤ
  | .idle => 0
  | .users l => 11 * l.length + 2
  | .gcs l => 11 * l.length + 1

def GcPc.work (c : Conf) : GcPc → ℤ
  | .idle => 0
  | .scan _ iter _ => 24 * (c.zoneNrBlocks - iter : ℕ) + 2

/-- What is left to do outside of the tasks. -/
def Sys.load (c : Conf) (s : Sys α) : ℤ :=
  s.reads.sum ReadHook.work + 2 * s.completes.length + s.puts.length + s.taskPuts.length +
    11 * s.gcWrites.length + s.retry.work + s.gc.pc.work c + s.wk.left c

/-- The work that is left. -/
def Sys.work (c : Conf) (s : Sys α) : ℤ := s.tasks.sum Task.work + s.load c

theorem Sys.work_nonneg (c : Conf) (s : Sys α) : 0 ≤ s.work c := by
  have h1 := s.tasks.sum_nonneg Task.work_nonneg
  have h2 := s.reads.sum_nonneg ReadHook.work_nonneg
  have h3 : 0 ≤ s.retry.work := by
    unfold RetryPc.work
    split <;> omega
  have h4 : 0 ≤ s.gc.pc.work c := by
    unfold GcPc.work
    split <;> omega
  unfold Sys.work Sys.load
  omega

/-- The work on task `g`. -/
def Sys.workOn (s : Sys α) (g : ℕ) : ℤ := (s.tasks.get g).elim 0 Task.work

variable {s : Sys α} {t g : ℕ} {x y : Task α}

theorem workOn_of_get (hx : s.tasks.get t = some x) : s.workOn t = x.work := by
  rw [Sys.workOn, hx]
  rfl

theorem workOn_nonneg (s : Sys α) (t : ℕ) : 0 ≤ s.workOn t := by
  unfold Sys.workOn
  cases s.tasks.get t with
  | none => exact le_rfl
  | some x => exact x.work_nonneg

/-- A task changes. -/
theorem work_modTask (s : Sys α) (t : ℕ) (f : Task α → Task α) :
    (s.modTask t f).work c = s.work c - s.workOn t + (s.modTask t f).workOn t := by
  cases hx : s.tasks.get t with
  | none =>
    have hsame : s.tasks.modify t f = s.tasks := Heap.modify_of_none hx f
    rw [Sys.modTask, hsame]
    ring
  | some x =>
    have hsum := Heap.sum_modify hx f Task.work
    have hnew : (s.modTask t f).workOn t = (f x).work := workOn_of_get (Heap.get_modify_self hx f)
    rw [hnew, workOn_of_get hx]
    change (s.tasks.modify t f).sum Task.work + s.load c = s.tasks.sum Task.work + s.load c - _ + _
    rw [hsum]
    ring

theorem work_modTask_of_get (hx : s.tasks.get t = some x) (f : Task α → Task α) :
    (s.modTask t f).work c = s.work c - x.work + (f x).work := by
  rw [work_modTask, workOn_of_get hx, workOn_of_get (Heap.get_modify_self hx f)]

/-- A task changes, but not its work. -/
theorem work_modTask_keep (s : Sys α) (t : ℕ) {f : Task α → Task α}
    (hf : ∀ x, (f x).work = x.work) : (s.modTask t f).work c = s.work c := by
  have hon : (s.modTask t f).workOn t = s.workOn t := by
    rw [Sys.workOn, Sys.workOn, Sys.modTask, Heap.get_modify, if_pos rfl]
    cases s.tasks.get t with
    | none => rfl
    | some x => exact hf x
  rw [work_modTask, hon]
  ring

/-- The work but for that on task `g`. -/
def Sys.workBut (c : Conf) (s : Sys α) (g : ℕ) : ℤ := s.work c - s.workOn g

theorem workBut_modTask (s : Sys α) (g : ℕ) (f : Task α → Task α) :
    (s.modTask g f).workBut c g = s.workBut c g := by
  rw [Sys.workBut, Sys.workBut, work_modTask]
  ring

theorem workOn_done (s : Sys α) (g : ℕ) :
    (s.modTask g fun x => { x with pc := .done }).workOn g = 0 := by
  rw [Sys.workOn, Sys.modTask, Heap.get_modify, if_pos rfl]
  cases s.tasks.get g <;> rfl

/-! ## References on tasks -/

theorem work_free_le (s : Sys α) (t : ℕ) :
    ({ s with tasks := s.tasks.free t } : Sys α).work c ≤ s.work c := by
  change (s.tasks.free t).sum Task.work + s.load c ≤ s.tasks.sum Task.work + s.load c
  cases hx : s.tasks.get t with
  | none => rw [Heap.free_of_none hx]
  | some x =>
    have h1 := Heap.sum_free hx Task.work
    have h2 := x.work_nonneg
    omega

theorem workBut_free (s : Sys α) (t : ℕ) :
    ({ s with tasks := s.tasks.free t } : Sys α).workBut c t = s.workBut c t := by
  have hon : ({ s with tasks := s.tasks.free t } : Sys α).workOn t = 0 := by
    rw [Sys.workOn, Heap.get_free, if_pos rfl]
    rfl
  rw [Sys.workBut, hon, Sys.workBut]
  change (s.tasks.free t).sum Task.work + s.load c - 0 = s.tasks.sum Task.work + s.load c - _
  cases hx : s.tasks.get t with
  | none =>
    rw [Heap.free_of_none hx, Sys.workOn, hx]
    rfl
  | some x =>
    rw [Heap.sum_free hx, workOn_of_get hx]
    ring

theorem work_taskDestroy_le (s : Sys α) (t : ℕ) (x : Task α) :
    (taskDestroy s t x).work c ≤ s.work c := by
  unfold taskDestroy
  split_ifs
  · exact le_rfl
  · exact work_free_le s t

theorem work_taskPutGc_le (s : Sys α) (t : ℕ) : (taskPutGc s t).work c ≤ s.work c := by
  unfold taskPutGc
  split
  · exact le_rfl
  · split_ifs
    · exact work_taskDestroy_le s t _
    · exact (work_modTask_keep (f := Task.decRef) s t fun _ => rfl).le

theorem workBut_taskPutGc (s : Sys α) (g : ℕ) : (taskPutGc s g).workBut c g = s.workBut c g := by
  unfold taskPutGc
  split
  · rfl
  · unfold taskDestroy
    split_ifs
    · rfl
    · exact workBut_free s g
    · exact workBut_modTask s g _

theorem workBut_putLater_le (s : Sys α) (z : Option ℕ) (g : ℕ) :
    (putLater s z).workBut c g ≤ s.workBut c g + 1 := by
  cases z with
  | none =>
    change s.workBut c g ≤ _
    omega
  | some z =>
    have hload : (putLater s (some z)).load c = s.load c + 1 := by
      simp only [putLater, Sys.load, List.length_cons]
      push_cast
      ring
    change s.tasks.sum Task.work + (putLater s (some z)).load c - s.workOn g ≤
      s.tasks.sum Task.work + s.load c - s.workOn g + 1
    rw [hload]
    exact le_of_eq (by ring)

/-- What a gc task leaves to others when it lets go of everything. -/
theorem work_gcRelease_le (s : Sys α) (g : ℕ) (x : Task α) :
    (gcRelease s g x).work c ≤ s.workBut c g + 2 := by
  unfold gcRelease
  extract_lets written s₁ s₂ s₃
  have h1 : s₁.workBut c g ≤ s.workBut c g + 1 := by
    dsimp only [s₁]
    split_ifs
    · exact workBut_putLater_le s _ g
    · omega
  have h2 : s₂.workBut c g = s₁.workBut c g := by
    dsimp only [s₂]
    split_ifs
    · exact workBut_taskPutGc (delTaskFromTree s₁ g) g
    · rfl
  have h3 : s₃.workBut c g ≤ s₂.workBut c g + 1 :=
    workBut_putLater_le (s₂.log (.freePage g)) x.readZone g
  refine (work_taskPutGc_le _ g).trans ?_
  rw [work_modTask, workOn_done]
  change s₃.workBut c g + 0 ≤ _
  omega

theorem work_gcRemap (s : Sys α) (x : Task α) (p : Option ℕ) :
    (gcRemap c s x p).work c = s.work c ∧ (gcRemap c s x p).tasks = s.tasks := by
  unfold gcRemap
  split
  · dsimp only
    split_ifs <;> exact ⟨rfl, rfl⟩
  · exact ⟨rfl, rfl⟩

theorem work_gcTaskCallback (hy : s.tasks.get g = some y) (p : Option ℕ) :
    (gcTaskCallback c s g p).bug.isSome ∨
      (gcTaskCallback c s g p).work c ≤ s.work c - y.work + 2 := by
  have hsame : ∀ s₁ : Sys α, s₁.work c = s.work c ∧ s₁.tasks = s.tasks →
      (gcRelease (s₁.log (.callback g)) g y).work c ≤ s.work c - y.work + 2 := fun s₁ h => by
    have h1 := work_gcRelease_le (c := c) (s₁.log (.callback g)) g y
    have h2 : (s₁.log (.callback g)).workBut c g = s.work c - y.work := by
      have hon : s₁.workOn g = y.work := workOn_of_get (h.2 ▸ hy)
      change s₁.work c - s₁.workOn g = _
      rw [h.1, hon]
    omega
  unfold gcTaskCallback
  rw [hy]
  dsimp only
  by_cases hl : y.link ≠ .iosched
  · rw [if_pos hl]
    exact Or.inl rfl
  · rw [if_neg hl]
    generalize hs₁ : (if (!s.faulty) = true ∧ y.error = none then gcRemap c s y p else s) = s₁
    have h1 : s₁.work c = s.work c ∧ s₁.tasks = s.tasks := by
      rw [← hs₁]
      split_ifs
      · exact work_gcRemap s y p
      · exact ⟨rfl, rfl⟩
    split_ifs with hb
    · exact Or.inl hb
    · exact Or.inr (hsame s₁ h1)

/-- The gc task of the write `t` waits for it. -/
def LinkedAt (s : Sys α) (t : ℕ) : Prop :=
  ∀ x g, s.tasks.get t = some x → x.type ≠ .gc → x.link = .node g →
    ∃ y, s.tasks.get g = some y ∧ y.type = .gc ∧ ∃ t', y.pc = .waiting t'

theorem LinkedAt.modTask (h : LinkedAt s t) {f : Task α → Task α}
    (hf : ∀ x, (f x).type = x.type ∧ (f x).link = x.link) : LinkedAt (s.modTask t f) t := by
  intro x g hx hty hl
  have hx' : (s.tasks.modify t f).get t = some x := hx
  rw [Heap.get_modify, if_pos rfl, Option.map_eq_some_iff] at hx'
  obtain ⟨x₀, hx₀, rfl⟩ := hx'
  rw [(hf x₀).1] at hty
  rw [(hf x₀).2] at hl
  obtain ⟨y, hy, hgc, hpc⟩ := h x₀ g hx₀ hty hl
  refine ⟨y, ?_, hgc, hpc⟩
  change (s.tasks.modify t f).get g = some y
  rw [Heap.get_modify_ne _ f, hy]
  rintro rfl
  cases hx₀.symm.trans hy
  exact hty hgc

theorem work_taskPut_le (h : LinkedAt s t) :
    (taskPut c s t).bug.isSome ∨ (taskPut c s t).work c ≤ s.work c := by
  unfold taskPut
  split
  · exact Or.inl rfl
  next x hx =>
    split_ifs
    · unfold taskFinal
      split
      next g hl =>
        by_cases hty : x.type = .gc
        · rw [if_pos hty]
          exact Or.inr (work_taskDestroy_le s t x)
        · rw [if_neg hty]
          obtain ⟨y, hy, -, t', hpc⟩ := h x g hx hty hl
          have hwait : y.work = 2 := Task.work_of_pc hpc
          extract_lets s₁ s₂
          -- the gc task is called back
          have h1 : ∃ y', s₁.tasks.get g = some y' ∧ y'.work = 2 ∧ s₁.work c = s.work c := by
            dsimp only [s₁]
            split_ifs
            · exact ⟨_, Heap.get_modify_self hy _, hwait, work_modTask_keep s g fun _ => rfl⟩
            · exact ⟨y, hy, hwait, rfl⟩
          obtain ⟨y', hy', hw, hs⟩ := h1
          split_ifs with hb₂
          · exact Or.inl hb₂
          · refine Or.inr ((work_taskDestroy_le s₂ t x).trans ?_)
            rcases work_gcTaskCallback (c := c) hy' none with h2 | h2
            · exact absurd h2 hb₂
            · change s₂.work c ≤ _ at h2
              omega
      · exact Or.inr (work_taskDestroy_le s t x)
    · exact Or.inr (work_modTask_keep (f := Task.decRef) s t fun _ => rfl).le

theorem Tasks.linkedAt (T : Tasks s.core) (t : ℕ) : LinkedAt s t := fun x g hx hty hl => by
  obtain ⟨y, hy, hgc, hpc, -⟩ := T.link t x hx hty g hl
  exact ⟨y, hy, hgc, t, hpc⟩

/-! ## Queues and calls -/

theorem work_taskPuts (s : Sys α) (t : ℕ) :
    ({ s with taskPuts := t :: s.taskPuts } : Sys α).work c = s.work c + 1 := by
  simp only [Sys.work, Sys.load, List.length_cons]
  push_cast
  ring

theorem work_puts (s : Sys α) (p : ℕ × PutBy) :
    ({ s with puts := p :: s.puts } : Sys α).work c = s.work c + 1 := by
  simp only [Sys.work, Sys.load, List.length_cons]
  push_cast
  ring

theorem work_gcPc (s : Sys α) (g : GcCtx) :
    ({ s with gc := g } : Sys α).work c = s.work c - s.gc.pc.work c + g.pc.work c := by
  simp only [Sys.work, Sys.load]
  ring

theorem work_retry (s : Sys α) (r : RetryPc) :
    ({ s with retry := r } : Sys α).work c = s.work c - s.retry.work + r.work := by
  simp only [Sys.work, Sys.load]
  ring

theorem work_alloc (s : Sys α) (y : Task α) :
    ({ s with tasks := s.tasks.alloc y } : Sys α).work c = s.work c + y.work := by
  simp only [Sys.work, Sys.load, Heap.sum_alloc]
  ring

theorem length_erase_int {β : Type} [BEq β] [LawfulBEq β] {b : β} {l : List β} (h : b ∈ l) :
    ((l.erase b).length : ℤ) = l.length - 1 := by
  have hpos := List.length_pos_of_mem h
  rw [List.length_erase_of_mem h]
  omega

/-- A task changes whose work another change has kept. -/
theorem work_modTask_modTask (hx : s.tasks.get t = some x) (t' : ℕ) {f g : Task α → Task α}
    (hf : ∀ y, (f y).type = y.type ∧ (f y).pc = y.pc ∧ (f y).work = y.work) {n : ℤ}
    (hg : ∀ y, y.type = x.type → y.pc = x.pc → (g y).work = n) :
    ((s.modTask t' f).modTask t g).work c = s.work c - x.work + n := by
  have hget : ∃ y, (s.modTask t' f).tasks.get t = some y ∧ y.type = x.type ∧ y.pc = x.pc ∧
      y.work = x.work := by
    change ∃ y, (s.tasks.modify t' f).get t = some y ∧ _
    rw [Heap.get_modify, hx]
    split_ifs
    · exact ⟨_, rfl, hf x⟩
    · exact ⟨_, rfl, rfl, rfl, rfl⟩
  obtain ⟨y, hy, hty, hpc, hw⟩ := hget
  rw [work_modTask_of_get hy, work_modTask_keep s t' fun y => (hf y).2.2, hw, hg y hty hpc]

/-! ## User writes -/

theorem work_allocBlock (s : Sys α) (mod : AllocFlag) (i : Fin 2) :
    (allocBlock c s mod i).1.work c = s.work c ∧ (allocBlock c s mod i).1.tasks = s.tasks := by
  unfold allocBlock
  dsimp only
  split_ifs <;> exact ⟨rfl, rfl⟩

theorem work_addIntegrity (s : Sys α) (x : Task α) (ty : LogType) :
    (addIntegrity c s x ty).1.work c = s.work c ∧ (addIntegrity c s x ty).1.tasks = s.tasks := by
  unfold addIntegrity
  split_ifs
  · exact ⟨rfl, rfl⟩
  all_goals split <;> exact ⟨rfl, rfl⟩

theorem work_issueAppend (hx : s.tasks.get t = some x) (x' : Task α) (z : ℕ) (ty : LogType) :
    (issueAppend c s t x' z ty).work c = s.work c - x.work + 5 := by
  obtain ⟨hw, ht⟩ := work_addIntegrity (c := c) s x' ty
  have hx' : (addIntegrity c s x' ty).1.tasks.get t = some x := ht ▸ hx
  rw [← hw]
  exact work_modTask_of_get hx' _

theorem work_dispatchWrite_le (hx : s.tasks.get t = some x) (z : ℕ) (integ : Bool) :
    (dispatchWrite c s t x z integ).work c ≤ s.work c - x.work + 5 := by
  have key : ∀ s₁ : Sys α, s₁.work c = s.work c ∧ s₁.tasks = s.tasks →
      (if integ then issueAppend c s₁ t x z .userWrite
        else { s₁ with faulty := true }.modTask t fun x =>
          { x with zone := some z, status := .ioWriting, pc := .failed, integ := .err }).work c ≤
        s.work c - x.work + 5 := fun s₁ h => by
    have hx₁ : s₁.tasks.get t = some x := h.2 ▸ hx
    split_ifs
    · rw [work_issueAppend hx₁, h.1]
    · refine (work_modTask_of_get (s := { s₁ with faulty := true }) hx₁ _).trans_le ?_
      change s₁.work c - x.work + 4 ≤ _
      omega
  unfold dispatchWrite
  refine key _ ?_
  split_ifs <;> exact ⟨rfl, rfl⟩

theorem work_pending (hx : s.tasks.get t = some x) (hty : x.type ≠ .gc) :
    (s.modTask t fun x => { x with pc := .pending }).work c = s.work c - x.work := by
  rw [work_modTask_of_get hx]
  change _ + (if x.type = .gc then 10 else 0) = _
  rw [if_neg hty, add_zero]

theorem work_writeAllocFailed_le (hl : LinkedAt s t) (hx : s.tasks.get t = some x)
    (hty : x.type ≠ .gc) (ret : AllocRet) : (writeAllocFailed c s t x ret).bug.isSome ∨
      (writeAllocFailed c s t x ret).work c ≤ s.work c - x.work := by
  unfold writeAllocFailed
  by_cases hret : ret ≠ .eio
  · rw [if_pos hret]
    exact Or.inr (work_pending (s := s) hx hty).le
  · rw [if_neg hret]
    refine (work_taskPut_le ?_).imp_right fun h => h.trans ?_
    · exact hl.modTask (f := fun x => { x with refcount := x.refcount - 1, pc := .done })
        fun _ => ⟨rfl, rfl⟩
    · have h := work_modTask_of_get (c := c) hx
        fun x => { x with refcount := x.refcount - 1, pc := .done }
      refine h.le.trans ?_
      change _ + 0 ≤ _
      rw [add_zero]

theorem work_writeNoBlock_le (hl : LinkedAt s t) (hx : s.tasks.get t = some x) (hty : x.type ≠ .gc)
    {sid : Option (Fin 2)} {m : ℤ} (hm : 0 ≤ m) (hs : sid ≠ none → 6 ≤ m) (ret : AllocRet) :
    (writeNoBlock c s t x sid ret).bug.isSome ∨
      (writeNoBlock c s t x sid ret).work c ≤ s.work c - x.work + m := by
  unfold writeNoBlock
  by_cases hb : s.bug.isSome
  · rw [if_pos hb]
    exact Or.inl hb
  · rw [if_neg hb]
    cases sid with
    | some sid =>
      have h6 := hs (by rintro ⟨⟩)
      refine Or.inr ((work_modTask_of_get hx _).le.trans ?_)
      change _ + 6 ≤ _
      omega
    | none => exact (work_writeAllocFailed_le hl hx hty ret).imp_right fun h => h.trans (by omega)

theorem work_allocWrite_le (hl : LinkedAt s t) (hx : s.tasks.get t = some x) (hty : x.type ≠ .gc)
    {sid : Option (Fin 2)} {m : ℤ} (hm : 5 ≤ m) (hs : sid ≠ none → 6 ≤ m) (i : Fin 2)
    (integ : Bool) : (allocWrite c s t x i sid integ).bug.isSome ∨
      (allocWrite c s t x i sid integ).work c ≤ s.work c - x.work + m := by
  unfold allocWrite
  extract_lets flag
  obtain ⟨hw, ht⟩ := work_allocBlock (c := c) s flag i
  generalize allocBlock c s flag i = p at hw ht ⊢
  obtain ⟨s₁, ret⟩ := p
  have hx₁ : s₁.tasks.get t = some x := ht ▸ hx
  have hl₁ : LinkedAt s₁ t := by
    unfold LinkedAt
    rw [ht]
    exact hl
  change s₁.work c = s.work c at hw
  rw [← hw]
  cases ret with
  | ok z =>
    refine Or.inr ((work_dispatchWrite_le (s := s₁.log (.alloc t flag)) hx₁ z integ).trans ?_)
    change s₁.work c - x.work + 5 ≤ _
    omega
  | _ => exact work_writeNoBlock_le hl₁ hx₁ hty (by omega) hs _

theorem work_insertWrite_le (hx : s.tasks.get t = some x) (hty : x.type ≠ .gc)
    (hpc : x.pc = .submit) :
    (insertWrite s t x).work c ≤ s.work c - x.work + 7 := by
  unfold insertWrite
  cases searchTree s x.blkid with
  | some tk =>
    have h := work_modTask_modTask (c := c) (s := { s with taskPuts := tk :: s.taskPuts }) hx tk
      (f := fun x => { x with refcount := x.refcount + 1 })
      (g := fun x => { x with pc := .pending }) (n := 0) (fun _ => ⟨rfl, rfl, rfl⟩)
      fun y hy _ => if_neg (hy ▸ hty)
    refine h.le.trans ?_
    rw [work_taskPuts]
    omega
  | none =>
    have h := work_modTask_modTask (c := c) hx t
      (f := fun x => { x with refcount := x.refcount + 1 })
      (g := fun x => { x with status := .allocRes }) (n := 7) (fun _ => ⟨rfl, rfl, rfl⟩)
      fun y _ hy => ?_
    · exact h.le
    · exact Task.work_of_pc (x := { y with status := .allocRes }) (hy.trans hpc)

theorem work_submitWriteTask (hl : LinkedAt s t) (hx : s.tasks.get t = some x) (hty : x.type ≠ .gc)
    (hpc : x.pc = .submit ∨ ∃ j, x.pc = .fallback j) (integ : Bool) :
    (submitWriteTask c s t x integ).bug.isSome ∨
      (submitWriteTask c s t x integ).work c < s.work c := by
  unfold submitWriteTask
  rcases hpc with hpc | ⟨j, hpc⟩
  · rw [hpc]
    dsimp only
    by_cases hst : x.status = .init
    · have hw : x.work = 10 := (Task.work_of_pc hpc).trans (if_pos (Or.inl hst))
      have h := work_insertWrite_le (c := c) hx hty hpc
      rw [if_pos hst]
      exact Or.inr (by omega)
    · have hw : 7 ≤ x.work := by
        rw [Task.work_of_pc hpc]
        change 7 ≤ if _ then (10 : ℤ) else 7
        split_ifs <;> omega
      rw [if_neg hst]
      exact (work_allocWrite_le (m := 6) hl hx hty (by omega) (fun _ => le_rfl) _ integ).imp_right
        fun h => by omega
  · have hw : x.work = 6 := Task.work_of_pc hpc
    rw [hpc]
    exact (work_allocWrite_le (m := 5) hl hx hty le_rfl (fun h => absurd rfl h) _ integ).imp_right
      fun h => h.trans_lt (by omega)

theorem work_writeIoEndio (hx : s.tasks.get t = some x) :
    (writeIoEndio c s t x).work c = s.work c - x.work + 3 := by
  unfold writeIoEndio
  split
  next s₁ ok heq =>
    have h1 : s₁.work c = s.work c ∧ s₁.tasks = s.tasks := by
      split at heq
      all_goals
        cases heq
        exact ⟨rfl, rfl⟩
    have hx₁ : s₁.tasks.get t = some x := h1.2 ▸ hx
    refine (work_modTask_of_get (s := s₁.log (.endW t ok)) hx₁ _).trans ?_
    change s₁.work c - x.work + 3 = _
    rw [h1.1]

/-- `lbz_write_io_endio` calls `task_put` for the reference of the tree and for its own. -/
theorem work_writeUntree (hl : LinkedAt s t) (hx : s.tasks.get t = some x) (hpc : x.pc = .ended) :
    (writeUntree c s t x).bug.isSome ∨ (writeUntree c s t x).work c < s.work c := by
  have hw : x.work = 3 := Task.work_of_pc hpc
  unfold writeUntree
  cases x.zone with
  | none => exact Or.inl rfl
  | some z =>
    refine (work_taskPut_le ?_).imp_right fun h => h.trans_lt ?_
    · exact hl.modTask (f := fun x => { x with pc := .done, refcount := x.refcount - 1 })
        fun _ => ⟨rfl, rfl⟩
    · have h := work_modTask_of_get (c := c) (s := { s with completes := z :: s.completes }) hx
        fun x => { x with pc := .done, refcount := x.refcount - 1 }
      have hc : ({ s with completes := z :: s.completes } : Sys α).work c = s.work c + 2 := by
        simp only [Sys.work, Sys.load, List.length_cons]
        push_cast
        ring
      refine h.le.trans_lt ?_
      rw [hc]
      change _ + 0 < _
      omega

/-! ## Gc tasks -/

theorem work_gcNoBlock_le (hx : s.tasks.get g = some x) {sid : Option (Fin 2)} {m : ℤ}
    (hs : sid ≠ none → 6 ≤ m) (ret : AllocRet) :
    (gcNoBlock s g sid ret).bug.isSome ∨
      (gcNoBlock s g sid ret).work c ≤ s.work c - x.work + m := by
  unfold gcNoBlock
  by_cases hb : s.bug.isSome
  · rw [if_pos hb]
    exact Or.inl hb
  · rw [if_neg hb]
    cases sid with
    | some sid =>
      have h6 := hs (by rintro ⟨⟩)
      refine Or.inr ((work_modTask_of_get hx _).le.trans ?_)
      change _ + 6 ≤ _
      omega
    | none => exact Or.inl rfl

theorem work_allocGc_le (hx : s.tasks.get g = some x) {sid : Option (Fin 2)} {m : ℤ} (hm : 5 ≤ m)
    (hs : sid ≠ none → 6 ≤ m) (i : Fin 2) (integ : Bool) :
    (allocGc c s g x i sid integ).bug.isSome ∨
      (allocGc c s g x i sid integ).work c ≤ s.work c - x.work + m := by
  unfold allocGc
  obtain ⟨hw, ht⟩ := work_allocBlock (c := c) s .gc i
  generalize allocBlock c s .gc i = p at hw ht ⊢
  obtain ⟨s₁, ret⟩ := p
  have hx₁ : s₁.tasks.get g = some x := ht ▸ hx
  change s₁.work c = s.work c at hw
  rw [← hw]
  cases ret with
  | ok z =>
    cases integ with
    | true =>
      refine Or.inr ((work_issueAppend (s := s₁.log (.alloc g .gc)) hx₁ x z .gcWrite).le.trans ?_)
      change s₁.work c - x.work + 5 ≤ _
      omega
    | false => exact Or.inl rfl
  | _ => exact work_gcNoBlock_le hx₁ hs _

theorem work_insertGc (hx : s.tasks.get g = some x) :
    (insertGc s g x).work c = s.work c - x.work + 9 := by
  unfold insertGc
  extract_lets s₁
  have h1 : s₁.work c = s.work c := work_modTask_keep s g fun _ => rfl
  have hx₁ : s₁.tasks.get g = some { x with readZone := x.zone, zone := none } :=
    Heap.get_modify_self hx _
  rw [← h1]
  cases searchTree s₁ x.blkid with
  | some tk =>
    exact work_modTask_modTask hx₁ tk (f := fun x => { x with refcount := x.refcount + 1 })
      (g := fun x => { x with pc := .found tk }) (fun _ => ⟨rfl, rfl, rfl⟩) fun _ _ _ => rfl
  | none =>
    exact work_modTask_modTask (s := { s₁ with taskTree := g :: s₁.taskTree }) hx₁ g
      (f := fun x => { x with refcount := x.refcount + 1 }) (g := fun x => { x with pc := .check })
      (fun _ => ⟨rfl, rfl, rfl⟩) fun _ _ _ => rfl

theorem work_gcFound (hx : s.tasks.get g = some x) (tk : ℕ) :
    (gcFound s g tk).work c = s.work c - x.work + 3 := by
  have h1 := work_modTask_of_get (c := c) hx
    fun x => { x with error := some .enoent, pc := .waiting tk }
  have h2 := work_modTask_keep (c := c)
    (s.modTask g fun x => { x with error := some .enoent, pc := .waiting tk }) tk
    (f := fun y => { y with link := .node g }) fun _ => rfl
  refine (work_taskPuts (((s.modTask g fun x => { x with error := some .enoent, pc := .waiting tk })
    ).modTask tk fun y => { y with link := .node g }) tk).trans ?_
  rw [h2, h1]
  change _ + 2 + 1 = _
  ring

theorem work_gcSkip_le (hx : s.tasks.get g = some x) :
    (gcSkip s g).work c ≤ s.work c - x.work + 3 := by
  have hbut : (gcSkip s g).workBut c g = s.workBut c g := by
    unfold gcSkip
    rw [workBut_modTask, workBut_taskPutGc]
    rfl
  have hon : (gcSkip s g).workOn g ≤ 3 := by
    unfold gcSkip
    rw [Sys.workOn, Sys.modTask, Heap.get_modify, if_pos rfl]
    cases (taskPutGc (delTaskFromTree s g) g).tasks.get g with
    | none =>
      change (0 : ℤ) ≤ 3
      omega
    | some y => exact le_rfl
  rw [Sys.workBut, Sys.workBut, workOn_of_get hx] at hbut
  omega

theorem work_gcCheck (hx : s.tasks.get g = some x) (hpc : x.pc = .check) :
    (gcCheck c s g x).work c < s.work c := by
  have hw : x.work = 9 := Task.work_of_pc hpc
  unfold gcCheck
  cases s.mapping x.blkid with
  | none =>
    have h := work_gcSkip_le (c := c) hx
    dsimp only
    omega
  | some p =>
    have key : ∀ s₁ : Sys α, s₁.work c = s.work c + 1 → s₁.tasks.get g = some x →
        (if p ≠ x.pbid then gcSkip s₁ g
          else s₁.modTask g fun x => { x with status := .allocRes, pc := .submit }).work c <
            s.work c := fun s₁ h1 hx₁ => by
      split_ifs
      · have h := work_gcSkip_le (c := c) hx₁
        omega
      · rw [work_modTask_of_get hx₁]
        change _ + 7 < _
        omega
    exact key _ (work_puts s (getZoneByPbid c p, .gc)) hx

theorem work_submitGcTask (hx : s.tasks.get g = some x)
    (hpc : x.pc = .submit ∨ (∃ j, x.pc = .fallback j) ∨ (∃ tk, x.pc = .found tk) ∨ x.pc = .check)
    (integ : Bool) : (submitGcTask c s g x integ).bug.isSome ∨
      (submitGcTask c s g x integ).work c < s.work c := by
  unfold submitGcTask
  rcases hpc with hpc | ⟨j, hpc⟩ | ⟨tk, hpc⟩ | hpc
  · rw [hpc]
    dsimp only
    by_cases hst : x.status = .gcReading
    · have hw : x.work = 10 := (Task.work_of_pc hpc).trans (if_pos (Or.inr hst))
      have h := work_insertGc (c := c) hx
      rw [if_pos hst]
      exact Or.inr (by omega)
    · have hw : 7 ≤ x.work := by
        rw [Task.work_of_pc hpc]
        change 7 ≤ if _ then (10 : ℤ) else 7
        split_ifs <;> omega
      rw [if_neg hst]
      exact (work_allocGc_le (m := 6) hx (by omega) (fun _ => le_rfl) _ integ).imp_right
        fun h => by omega
  · have hw : x.work = 6 := Task.work_of_pc hpc
    rw [hpc]
    exact (work_allocGc_le (m := 5) hx le_rfl (fun h => absurd rfl h) _ integ).imp_right
      fun h => h.trans_lt (by omega)
  · have hw : x.work = 9 := Task.work_of_pc hpc
    have h := work_gcFound (c := c) hx tk
    rw [hpc]
    exact Or.inr (by dsimp only; omega)
  · have h := work_gcCheck (c := c) hx hpc
    rw [hpc]
    exact Or.inr h

theorem work_gcWriteEndio (hx : s.tasks.get g = some x)
    (hpc : (∃ p, x.pc = .written p) ∨ x.pc = .failed) :
    (gcWriteEndio s g x).bug.isSome ∨ (gcWriteEndio s g x).work c < s.work c := by
  have hw : x.work = 4 := by
    rcases hpc with ⟨p, hpc⟩ | hpc <;> exact Task.work_of_pc hpc
  unfold gcWriteEndio
  split
  · right
    rcases hpc with ⟨p, hpc⟩ | hpc
    · rw [hpc]
      refine (work_modTask_of_get (s := { s with zmd := _ }) hx _).trans_lt ?_
      change s.work c - x.work + 3 < _
      omega
    · rw [hpc]
      refine (work_modTask_of_get (s := { s with zmd := _ }) hx _).trans_lt ?_
      change s.work c - x.work + 3 < _
      omega
  · exact Or.inl rfl

theorem work_gcEnd (hx : s.tasks.get g = some x)
    (hpc : (∃ o, x.pc = .callback o) ∨ x.pc = .skip) :
    (gcEnd c s g x).bug.isSome ∨ (gcEnd c s g x).work c < s.work c := by
  have hw : x.work = 3 := by
    rcases hpc with ⟨o, hpc⟩ | hpc <;> exact Task.work_of_pc hpc
  have hcall := fun p => work_gcTaskCallback (c := c) hx p
  unfold gcEnd
  rcases hpc with ⟨_ | p, hpc⟩ | hpc
  · rw [hpc]
    dsimp only
    split_ifs with hb
    · exact Or.inl hb
    · refine (hcall none).imp (absurd · hb) fun h => ?_
      change (gcTaskCallback c s g none).work c < _
      omega
  · rw [hpc]
    dsimp only
    split_ifs with hb
    · exact Or.inl hb
    · refine (hcall (some p)).imp (absurd · hb) fun h => ?_
      change (gcTaskCallback c s g (some p)).work c < _
      omega
  · rw [hpc]
    exact (hcall none).imp_right fun h => by dsimp only; omega

theorem work_gcReadEndio (hx : s.tasks.get g = some x) (hpc : ∃ b, x.pc = .read b) (ok : Bool) :
    (gcReadEndio c s g ok).bug.isSome ∨ (gcReadEndio c s g ok).work c < s.work c := by
  obtain ⟨b, hpc⟩ := hpc
  have hw : x.work = 22 := Task.work_of_pc hpc
  unfold gcReadEndio
  split_ifs
  · have h := work_modTask_of_get (c := c) (s := { s with gcWrites := s.gcWrites ++ [g] }) hx
      fun x => { x with pc := .pending, readZone := none }
    have hq : ({ s with gcWrites := s.gcWrites ++ [g] } : Sys α).work c = s.work c + 11 := by
      simp only [Sys.work, Sys.load, List.length_append, List.length_singleton]
      push_cast
      ring
    refine Or.inr (h.trans_lt ?_)
    have h10 : ({ x with pc := .pending, readZone := none } : Task α).work ≤ 10 := by
      change (if x.type = .gc then (10 : ℤ) else 0) ≤ 10
      split_ifs <;> omega
    rw [hq]
    omega
  · extract_lets s₁
    have hx' : (s.modTask g fun x => { x with error := some .eio }).tasks.get g =
        some { x with error := some .eio } := Heap.get_modify_self hx _
    have hs : (s.modTask g fun x => { x with error := some .eio }).work c = s.work c :=
      work_modTask_keep s g fun _ => rfl
    have hw' : ({ x with error := some .eio } : Task α).work = x.work := rfl
    split_ifs with hb
    · exact Or.inl hb
    · refine (work_gcTaskCallback (c := c) hx' none).imp (absurd · hb) fun h => ?_
      change s₁.work c < _
      change s₁.work c ≤ _ at h
      omega

/-! ## The workers -/

theorem work_retryTake_le (s : Sys α) (t : ℕ) : (retryTake s t).work c ≤ s.work c + 10 := by
  have hon : (s.modTask t fun x => { x with pc := .submit }).workOn t ≤ 10 := by
    rw [Sys.workOn, Sys.modTask, Heap.get_modify, if_pos rfl]
    cases s.tasks.get t with
    | none =>
      change (0 : ℤ) ≤ 10
      omega
    | some x => exact x.work_submit_le
  have h := work_modTask (c := c) s t fun x => { x with pc := .submit }
  have hnn := workOn_nonneg s t
  refine h.trans_le ?_
  omega

theorem work_retryWkFn (hr : s.retry ≠ .idle) : (retryWkFn s).work c < s.work c := by
  have take : ∀ t r, r.work + 11 ≤ s.retry.work →
      ({ retryTake s t with retry := r } : Sys α).work c < s.work c := fun t r hle => by
    have h1 := work_retryTake_le (c := c) s t
    refine (work_retry (retryTake s t) r).trans_lt ?_
    change (retryTake s t).work c - s.retry.work + r.work < _
    omega
  unfold retryWkFn
  cases h : s.retry with
  | idle => exact absurd h hr
  | users l =>
    cases l with
    | nil =>
      have hw : ({ s with retry := .gcs s.gcWrites, gcWrites := [] } : Sys α).work c =
          s.work c - 1 := by
        simp only [Sys.work, Sys.load, h, RetryPc.work, List.length_nil]
        push_cast
        ring
      exact hw.trans_lt (sub_one_lt _)
    | cons t l =>
      refine take t (.users l) ?_
      rw [h]
      simp only [RetryPc.work, List.length_cons]
      push_cast
      omega
  | gcs l =>
    cases l with
    | nil =>
      have hw : ({ s with retry := .idle, retryCur := none } : Sys α).work c = s.work c - 1 := by
        simp only [Sys.work, Sys.load, h, RetryPc.work, List.length_nil]
        push_cast
        ring
      exact hw.trans_lt (sub_one_lt _)
    | cons t l =>
      refine take t (.gcs l) ?_
      rw [h]
      simp only [RetryPc.work, List.length_cons]
      push_cast
      omega

theorem work_gcScan [Inhabited α] {z iter : ℕ} {pos : Option ℕ} (hpc : s.gc.pc = .scan z iter pos)
    (hroom : (s.zmd.zones z).wpBlock ≤ c.zoneNrBlocks) :
    (gcScan c s z iter pos).work c < s.work c := by
  have hold : s.gc.pc.work c = 24 * (c.zoneNrBlocks - iter : ℕ) + 2 := by rw [hpc]; rfl
  unfold gcScan
  split_ifs with h
  · -- the next block
    have next : ∀ s₁ : Sys α, s₁.gc = s.gc → s₁.work c ≤ s.work c + 23 → ∀ p : Option ℕ,
        ({ s₁ with gc := { s₁.gc with pc := .scan z (iter + 1) p } } : Sys α).work c < s.work c :=
      fun s₁ hg hw p => by
        refine (work_gcPc s₁ _).trans_lt ?_
        change _ - s₁.gc.pc.work c + (24 * ((c.zoneNrBlocks - (iter + 1) : ℕ) : ℤ) + 2) < _
        rw [hg, hold]
        omega
    cases pos with
    | none => exact next s rfl (by omega) _
    | some b =>
      exact next (submitGcToIosched s z (c.startBlk z + iter) b) rfl
        (work_alloc s (Task.forGc z (c.startBlk z + iter) b)).le _
  · refine (work_gcPc { s with puts := (z, .gc) :: s.puts } _).trans_lt ?_
    rw [work_puts]
    change _ - s.gc.pc.work c + 0 < _
    rw [hold]
    omega

theorem work_wkStep (hw : s.wk ≠ .idle) (ok : Bool) :
    (wkStep c s ok).bug.isSome ∨ (wkStep c s ok).work c < s.work c := by
  have hrest : (wkStep c s ok).work c - (wkStep c s ok).wk.left c = s.work c - s.wk.left c := by
    unfold wkStep wkVisit wkGcTest wkReset
    cases h : s.wk <;> dsimp only <;> (try split_ifs) <;>
      simp only [Sys.work, Sys.load, wkClose, wkLink, wkPublish, Sys.halt, Sys.log, h] <;> ring
  by_cases hb : (wkStep c s ok).bug.isSome
  · exact Or.inl hb
  · have hleft : (wkStep c s ok).wk.left c < s.wk.left c := by
      cases ok with
      | true => exact wkStep_left hw (Option.not_isSome_iff_eq_none.mp hb)
      | false =>
        cases h : s.wk with
        | reset i =>
          simp only [wkStep, h, wkReset, Bool.not_false, if_true, WkPc.left]
          omega
        | _ =>
          have hsame : wkStep c s false = wkStep c s true := by simp only [wkStep, h]
          rw [hsame] at hb ⊢
          rw [← h]
          exact wkStep_left hw (Option.not_isSome_iff_eq_none.mp hb)
    exact Or.inr (by omega)

end Lbz
