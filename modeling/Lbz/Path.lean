import Lbz.TaskMove
import Lbz.Place

/-!
# Every event is a path of moves

* `Base c k`: the tasks, the queues, the places of zones and the reads are in order; `Base.move`;
* for each event, the moves it is made of; `Allowed s e` are those of event `e` in state `s`;
* **`path_of_step`**: in a run without errors, every step is a path of such moves, or stops the
  device at the panic of a reset;
* `Sound`, **`Sound.run`**: what every permitted move keeps, every state of a run has.
-/

namespace Lbz

variable {α : Type} {c : Conf} {s s' : Sys α}

/-! ## What every move keeps -/

structure Base (c : Conf) (k : Core α) : Prop where
  tasks : Tasks k
  queues : Queues k
  places : Places c k

/-- No error has reached `x`. -/
def Task.Clean (x : Task α) : Prop :=
  x.status ≠ .ioWriting ∧ x.pc ≠ .failed ∧ x.pc ≠ .read false ∧ x.pc ≠ .callback none

/-- No error has reached a task or a read. -/
structure Clean (k : Core α) : Prop where
  tasks : k.tasks.All fun _ x => x.Clean
  reads : k.reads.All fun _ x => x.served ≠ some none

theorem Task.Shape.integ {x : Task α} (h : x.Shape) (hc : x.Clean) : x.integ ≠ .err := by
  have hst := hc.1
  by_cases hty : x.type = .gc
  · obtain ⟨⟨v, hp⟩, -⟩ := h.gc hty
    cases hp <;> simp_all
  · obtain ⟨hp, -, -⟩ := h.user hty
    cases hp <;> simp_all

section

variable [Inhabited α] {k k' : Core α} {l : Label}

theorem Base.move (hN : 0 < c.zoneNrBlocks) (a : Base c k) (hm : Move c k l k') : Base c k' :=
  ⟨Tasks.move a.tasks a.queues hm, Queues.move a.tasks a.queues hm, a.places.move hN hm⟩

theorem Clean.move (a : Clean k) (hl : l ≠ .fault) (hm : Move c k l k') : Clean k' := by
  cases hm with
  | dispatchFail | fallbackFail | allocFail | devFail | writeFail | serveFail | gcServeFail
  | gcReadFail | gcWriteFail | release | wkFail => exact absurd rfl hl
  | readMiss => exact ⟨a.tasks, Heap.All.burn a.reads⟩
  | readHit => exact ⟨a.tasks, Heap.All.alloc a.reads nofun⟩
  | serve => exact ⟨a.tasks, Heap.All.modify a.reads fun _ _ _ => nofun⟩
  | endRead => exact ⟨a.tasks, Heap.All.free a.reads _⟩
  | submitWrite | scanBlock =>
    exact ⟨Heap.All.alloc a.tasks ⟨nofun, nofun, nofun, nofun⟩, a.reads⟩
  | destroy => exact ⟨Heap.All.free a.tasks _, a.reads⟩
  | destroyCall => exact ⟨Heap.All.free (Heap.All.free a.tasks _) _, a.reads⟩
  | dropRef => exact ⟨Heap.All.modify a.tasks fun _ _ h => h, a.reads⟩
  | insert => exact ⟨Heap.All.modify a.tasks fun _ _ h => ⟨nofun, h.2⟩, a.reads⟩
  | gcPass => exact ⟨Heap.All.modify a.tasks fun _ _ _ => ⟨nofun, nofun, nofun, nofun⟩, a.reads⟩
  | dispatch => exact ⟨Heap.All.modify a.tasks fun _ _ _ => ⟨nofun, nofun, nofun, nofun⟩, a.reads⟩
  | @conflict t tk x y | @gcFind t tk x y =>
    have a' := Heap.All.modify (i := tk) (f := Task.incRef) a.tasks fun _ _ h => h
    exact ⟨Heap.All.modify a' fun _ _ h => ⟨h.1, nofun, nofun, nofun⟩, a.reads⟩
  | @gcFound g tk =>
    have a' := Heap.All.modify (i := g) (f := fun x => { x with error := some .enoent, pc := .waiting tk })
      a.tasks fun _ _ h => ⟨h.1, nofun, nofun, nofun⟩
    exact ⟨Heap.All.modify a' fun _ _ h => h, a.reads⟩
  | fallback | pend | append | apply | untree | nextUser | nextGc | gcServe | gcReadEnd | gcInsert
  | gcSkip | gcWritten | remap | skipEnd =>
    exact ⟨Heap.All.modify a.tasks fun _ _ h => ⟨h.1, nofun, nofun, nofun⟩, a.reads⟩
  | _ => exact ⟨a.tasks, a.reads⟩

end

/-! ## Allocation -/

theorem takeBlock_snd (m : Zmd) (i : Fin 2) (z : ℕ) : (takeBlock c m i z).2 = .ok z := by
  rw [takeBlock]
  split_ifs <;> rfl

/-- What one call of `lbz_zone_alloc_res` can do. -/
theorem zoneAllocRes_cases {m : Zmd} (mod : AllocFlag) {i : Fin 2} {faulty : Bool}
    (hf : faulty = false)
    (hwp : ∀ z, m.activeZone i = some z → (m.zones z).wpBlock < c.zoneNrBlocks) :
    zoneAllocRes c faulty m mod i = (m, .reserved) ∧ mod = .user ∨
    zoneAllocRes c faulty m mod i = (m, .noZone) ∧ m.activeZone i = none ∧ m.emptyZoneList = [] ∨
    ∃ z m₁, zoneAllocRes c faulty m mod i = ((takeBlock c m₁ i z).1, .ok z) ∧
      m₁.activeZone i = some z ∧ (mod = .user → c.reservedBlksGc ≤ u32 m₁.nrAllocableBlks) ∧
      (m₁ = m ∨ ∃ l, m.activeZone i = none ∧ m.emptyZoneList = z :: l ∧ m₁ = openZone { m with
        emptyZoneList := l, emptyZoneCount := m.emptyZoneCount - 1 } i z) := by
  rw [zoneAllocRes, if_neg (by rw [hf]; nofun)]
  by_cases hres : mod = .user ∧ u32 m.nrAllocableBlks < c.reservedBlksGc
  · rw [if_pos hres]
    exact Or.inl ⟨rfl, hres.1⟩
  rw [if_neg hres]
  have hres' : mod = .user → c.reservedBlksGc ≤ u32 m.nrAllocableBlks := fun h => by
    by_contra hlt
    exact hres ⟨h, not_le.mp hlt⟩
  right
  cases ha : m.activeZone i with
  | some z =>
    have hne := (hwp z ha).ne
    refine Or.inr ⟨z, m, ?_, ha, hres', Or.inl rfl⟩
    simp only
    rw [if_neg hne]
    exact Prod.ext rfl (takeBlock_snd m i z)
  | none =>
    simp only [openAndTake, ha, getFreeZone]
    cases he : m.emptyZoneList with
    | nil =>
      left
      refine ⟨?_, trivial, rfl⟩
      have : Function.update m.activeZone i none = m.activeZone := by
        rw [← ha, Function.update_eq_self]
      simp only [this]
    | cons z l =>
      right
      refine ⟨z, _, Prod.ext rfl (takeBlock_snd _ i z), ?_, hres', Or.inr ⟨l, trivial, rfl, rfl⟩⟩
      exact Function.update_self i _ _

theorem core_modTask (s : Sys α) (t : ℕ) (f : Task α → Task α) :
    (s.modTask t f).core = { s.core with tasks := s.tasks.modify t f } := rfl

/-- What `__add_integrity` stamps, and what it changes. -/
theorem core_addIntegrity (s : Sys α) (x : Task α) (ty : LogType) :
    (addIntegrity c s x ty).1.core = { s.core with timestamp := s.timestamp + 1 } ∧
    (addIntegrity c s x ty).1.faulty = s.faulty ∧
    (addIntegrity c s x ty).2.timestamp = s.timestamp + 1 ∧
    (addIntegrity c s x ty).2.blkid = x.blkid := by
  unfold addIntegrity
  split_ifs
  · exact ⟨rfl, rfl, rfl, rfl⟩
  all_goals split <;> exact ⟨rfl, rfl, rfl, rfl⟩


/-- Moves that no later condition is about. -/
abbrev PlainPath [Inhabited α] (c : Conf) : Core α → Core α → Prop := Path c fun _ l => l = .plain

theorem plain [Inhabited α] {k k' : Core α} (h : Move c k .plain k') : PlainPath c k k' := Runs.one rfl h

/-! ## The task tree -/

theorem taskDestroy_eq {t : ℕ} {x : Task α} (hi : x.integ ≠ .err) :
    taskDestroy s t x = { s with tasks := s.tasks.free t } := by
  rw [taskDestroy, if_neg hi]

theorem taskPutGc_last {t : ℕ} {x : Task α} (hx : s.tasks.get t = some x)
    (hr : x.refcount - 1 = 0) (hi : x.integ ≠ .err) :
    taskPutGc s t = { s with tasks := s.tasks.free t } := by
  simp only [taskPutGc, hx, if_pos hr, taskDestroy_eq hi]

theorem taskPutGc_more {t : ℕ} {x : Task α} (hx : s.tasks.get t = some x)
    (hr : x.refcount - 1 ≠ 0) : taskPutGc s t = s.modTask t Task.decRef := by
  simp only [taskPutGc, hx, if_neg hr]
  rfl

theorem Task.GcPhase.waiting {x : Task α} {v t : ℕ} (h : x.GcPhase v) (hpc : x.pc = .waiting t) :
    x.status = .gcReading ∧ x.zone = none ∧ x.readZone = some v ∧ x.error = some .enoent ∧
      x.link = .iosched := by
  cases h <;> simp_all

theorem taskFinal_eq {t : ℕ} {x : Task α} (h : ∀ g, x.link = .node g → x.type = .gc) :
    taskFinal c s t x = taskDestroy s t x := by
  unfold taskFinal
  split
  · next g hg => rw [if_pos (h g hg)]
  · rfl

/-- What a gc task that was never written releases. -/
theorem gcRelease_reading {g v : ℕ} {y : Task α} (hst : y.status = .gcReading)
    (hv : y.readZone = some v) :
    gcRelease s g y = taskPutGc { s with
      tasks := s.tasks.modify g fun x => { x with pc := .done }
      puts := (v, .gc) :: s.puts
      hist := .putVictim g :: .freePage g :: s.hist } g := by
  simp only [gcRelease, hst, hv, putLater]
  rfl

/-- What a gc task that was written releases. -/
theorem gcRelease_written {g z v : ℕ} {x : Task α} (hst : x.status = .dispatch)
    (hz : x.zone = some z) (hv : x.readZone = some v) (hx : s.tasks.get g = some x)
    (hr : x.refcount - 1 ≠ 0) :
    gcRelease s g x = taskPutGc { s with
      tasks := s.tasks.modify g fun x => { x with pc := .done, refcount := x.refcount - 1 }
      taskTree := s.taskTree.erase g
      puts := (v, .gc) :: (z, .gc) :: s.puts
      hist := .putVictim g :: .freePage g :: .erase g :: s.hist } g := by
  have hmm : (s.tasks.modify g Task.decRef).modify g (fun x => { x with pc := .done }) =
      s.tasks.modify g fun x => { x with pc := .done, refcount := x.refcount - 1 } :=
    Heap.modify_modify _ _ _ _
  have h1 : taskPutGc (delTaskFromTree { s with puts := (z, .gc) :: s.puts } g) g =
      (delTaskFromTree { s with puts := (z, .gc) :: s.puts } g).modTask g Task.decRef :=
    taskPutGc_more hx hr
  simp only [gcRelease, hst, hz, hv, putLater, true_or, if_true, h1]
  rw [← hmm]
  rfl

/-- The callback of a gc task on a faulty device, or with an error. -/
theorem gcTaskCallback_release {g : ℕ} {y : Task α} (hb : s.bug = none)
    (hy : s.tasks.get g = some y) (hl : y.link = .iosched) (he : ¬ (!s.faulty ∧ y.error = none))
    (o : Option ℕ) : gcTaskCallback c s g o = { gcRelease (s.log (.callback g)) g y with
      gcInflight := (gcRelease (s.log (.callback g)) g y).gcInflight - 1 } := by
  simp only [gcTaskCallback, hy, hl, if_neg he, hb]
  rfl

theorem gcTaskCallback_error {g : ℕ} {y : Task α} (hb : s.bug = none) (hy : s.tasks.get g = some y)
    (hl : y.link = .iosched) (he : y.error.isSome) (o : Option ℕ) :
    gcTaskCallback c s g o = { gcRelease (s.log (.callback g)) g y with
      gcInflight := (gcRelease (s.log (.callback g)) g y).gcInflight - 1 } := by
  refine gcTaskCallback_release hb hy hl ?_ o
  rintro ⟨-, h⟩
  rw [h] at he
  cases he

/-- The callback of a gc task whose block a user write has taken over. -/
theorem gcTaskCallback_waiting {g v t : ℕ} {y : Task α} (hb : s.bug = none)
    (hy : s.tasks.get g = some y) (hs : y.Shape) (hgc : y.type = .gc) (hpc : y.pc = .waiting t)
    (hv : y.readZone = some v) (hr : y.refcount = 1) (o : Option ℕ) :
    gcTaskCallback c s g o = { s with
      tasks := s.tasks.free g
      puts := (v, .gc) :: s.puts
      gcInflight := s.gcInflight - 1
      hist := .putVictim g :: .freePage g :: .callback g :: s.hist } := by
  obtain ⟨⟨w, hp⟩, -⟩ := hs.gc hgc
  obtain ⟨hst, -, -, he, hl⟩ := hp.waiting hpc
  have hi : y.integ ≠ .err := by cases hp <;> simp_all
  rw [gcTaskCallback_error hb hy hl (by rw [he]; rfl), gcRelease_reading hst hv,
    taskPutGc_last (x := { y with pc := .done }) (Heap.get_modify_self hy _)
      (by change y.refcount - 1 = 0; omega) hi]
  simp only [Heap.free_modify]
  rfl


section

variable [Inhabited α]

/-- `task_put` of a reference that `k` still counts in `taskPuts`. -/
theorem taskPut_path {k : Core α} {t : ℕ} (hT : Tasks k) (hk : k = { s.core with taskPuts := k.taskPuts })
    (hi : ∀ x, k.tasks.get t = some x → x.refcount - 1 = 0 → x.integ ≠ .err)
    (ht : t ∈ k.taskPuts)
    (hs : k.taskPuts.erase t = s.taskPuts) (hb : s.bug = none) :
    PlainPath c k (taskPut c s t).core ∧ (taskPut c s t).faulty = s.faulty := by
  obtain ⟨x, hx⟩ := hT.puts t ht
  have hg : ∀ i, k.tasks.get i = s.tasks.get i := fun i => by rw [hk]; rfl
  have hx' : s.tasks.get t = some x := (hg t).symm.trans hx
  have hshape := hT.shape t x hx
  -- the core after a change of the tasks alone
  have hcore : ∀ h : Heap (Task α), ({ k with taskPuts := k.taskPuts.erase t, tasks := h } : Core α) =
      ({ s with tasks := h } : Sys α).core := fun h => by rw [hs, hk]; rfl
  have htasks : k.tasks = s.tasks := by rw [hk]; rfl
  by_cases hr : x.refcount - 1 = 0
  · have hfinal : taskPut c s t = taskFinal c s t x := by simp only [taskPut, hx', if_pos hr]
    have hinteg := hi x hx hr
    have hend : (taskDestroy s t x) = { s with tasks := s.tasks.free t } :=
      taskDestroy_eq hinteg
    have hdestroy : (x.type ≠ .gc → x.link = .null) → PlainPath c k (taskDestroy s t x).core := by
      intro hl
      have := plain (.destroy (c := c) ht hx hr hl hinteg)
      rw [hcore, htasks] at this
      rw [hend]
      exact this
    rw [hfinal]
    by_cases hty : x.type = .gc
    · rw [taskFinal_eq (fun g _ => hty)]
      exact ⟨hdestroy fun h => absurd hty h, by rw [hend]⟩
    · obtain ⟨-, he, hl⟩ := hshape.user hty
      cases hlink : x.link with
      | null =>
        rw [taskFinal_eq fun g h => by rw [hlink] at h; cases h]
        exact ⟨hdestroy fun _ => hlink, by rw [hend]⟩
      | iosched => exact absurd hlink hl
      | node g =>
        obtain ⟨y, hy, hgc, hpc, -⟩ := hT.link t x hx hty g hlink
        have hy' : s.tasks.get g = some y := (hg g).symm.trans hy
        have hys := hT.shape g y hy
        obtain ⟨⟨v, hp⟩, -⟩ := hys.gc hgc
        obtain ⟨hst, hz, hv, -, -⟩ := hp.waiting hpc
        have hfresh : y.Fresh := by
          rw [Task.Fresh, if_pos hgc, hpc]
          exact ⟨hst, by rintro ⟨⟩, by rintro ⟨⟩, by rintro ⟨⟩⟩
        have hcall := gcTaskCallback_waiting (c := c) hb hy' hys hgc hpc hv (hT.fresh g y hy hfresh) none
        have hmove := plain (.destroyCall (c := c) ht hx hr hty hlink hy hgc hpc hv hinteg)
        simp only [taskFinal, hlink, if_neg hty, he, Option.isSome_none, Bool.false_eq_true, if_false, hcall, hb]
        rw [taskDestroy_eq hinteg]
        refine ⟨?_, rfl⟩
        have : ({ k with
            taskPuts := k.taskPuts.erase t
            tasks := (k.tasks.free g).free t
            puts := (v, .gc) :: k.puts
            gcInflight := k.gcInflight - 1
            hist := .putVictim g :: .freePage g :: .callback g :: k.hist } : Core α) =
            ({ s with
              tasks := (s.tasks.free g).free t
              puts := (v, .gc) :: s.puts
              gcInflight := s.gcInflight - 1
              hist := .putVictim g :: .freePage g :: .callback g :: s.hist } : Sys α).core := by
          rw [hs, hk]
          rfl
        rw [this] at hmove
        exact hmove
  · have hput : taskPut c s t = { s with tasks := s.tasks.modify t Task.decRef } := by
      simp only [taskPut, hx', if_neg hr]
      rfl
    rw [hput]
    refine ⟨?_, rfl⟩
    have := plain (.dropRef (c := c) ht hx hr)
    rw [hcore, htasks] at this
    exact this

/-! ## Submission of a write and of a gc write -/

theorem allocBlock_cases (hP : Places c s.core) (hf : s.faulty = false) (mod : AllocFlag)
    (i : Fin 2) :
    ((allocBlock c s mod i).1.core = s.core ∧ (allocBlock c s mod i).1.faulty = false ∧
      ((allocBlock c s mod i).2 = .reserved ∨ (allocBlock c s mod i).2 = .noZone) ∧
      (mod = .gc → s.zmd.activeZone i = none ∧ s.zmd.emptyZoneList = [])) ∨
    ∃ z m₁, allocBlock c s mod i = ({ s with zmd := (takeBlock c m₁ i z).1 }, .ok z) ∧
      PlainPath c s.core { s.core with zmd := m₁ } ∧ m₁.activeZone i = some z ∧
      (mod = .user → c.reservedBlksGc ≤ u32 m₁.nrAllocableBlks) := by
  obtain ⟨pl, a⟩ := hP
  have hwp : ∀ z, s.zmd.activeZone i = some z → (s.zmd.zones z).wpBlock < c.zoneNrBlocks :=
    fun z hz => a.wp i z ((a.active i z).mp hz)
  rw [allocBlock]
  rcases zoneAllocRes_cases (c := c) mod hf hwp with ⟨h, hu⟩ | ⟨h, h1, h2⟩ | ⟨z, m₁, h, ha, hu, hm⟩
  · left
    simp only [h]
    rw [if_neg (by rintro ⟨h', -⟩; cases h')]
    exact ⟨rfl, hf, Or.inl rfl, fun h' => by rw [hu] at h'; cases h'⟩
  · left
    simp only [h]
    split_ifs
    · exact ⟨rfl, hf, Or.inr rfl, fun _ => ⟨h1, h2⟩⟩
    · exact ⟨rfl, hf, Or.inr rfl, fun _ => ⟨h1, h2⟩⟩
    · exact ⟨rfl, hf, Or.inr rfl, fun _ => ⟨h1, h2⟩⟩
  · right
    refine ⟨z, m₁, ?_, ?_, ha, hu⟩
    · simp only [h]
      rw [if_neg (by rintro ⟨h', -⟩; cases h')]
    · rcases hm with rfl | ⟨l, h1, h2, rfl⟩
      · exact Runs.refl
      · exact plain (.openZone (c := c) h1 h2)

omit [Inhabited α] in
theorem issueAppend_core (s : Sys α) (t z : ℕ) (x : Task α) (ty : LogType) : ∃ log : DiskLog,
    (log.timestamp = s.timestamp + 1 ∧ log.blkid = x.blkid) ∧
    (issueAppend c s t x z ty).core = { s.core with
      tasks := s.tasks.modify t fun x =>
        { x with zone := some z, status := .dispatch, pc := .device, integ := .buf log }
      timestamp := s.timestamp + 1 } ∧
    (issueAppend c s t x z ty).faulty = s.faulty := by
  obtain ⟨h1, h2, hlog⟩ := core_addIntegrity (c := c) s x ty
  have h3 : (addIntegrity c s x ty).1.tasks = s.tasks := congrArg Core.tasks h1
  refine ⟨(addIntegrity c s x ty).2, hlog, ?_, h2⟩
  rw [issueAppend, core_modTask, h1, h3]

omit [Inhabited α] in
theorem dispatchWrite_core (t z : ℕ) (x : Task α) : ∃ log : DiskLog,
    (log.timestamp = s.timestamp + 1 ∧ log.blkid = x.blkid) ∧
    (dispatchWrite c s t x z true).core = { s.core with
      tasks := s.tasks.modify t fun x =>
        { x with zone := some z, status := .dispatch, pc := .device, integ := .buf log }
      timestamp := s.timestamp + 1 } ∧
    (dispatchWrite c s t x z true).faulty = s.faulty := by
  rw [dispatchWrite, if_pos rfl]
  split_ifs
  · exact issueAppend_core { s with gc := { s.gc with reclaiming := true } } t z x .userWrite
  · exact issueAppend_core s t z x .userWrite

theorem writeNoBlock_path {s₁ : Sys α} (h1 : s₁.core = s.core) (h2 : s₁.faulty = false) {t : ℕ}
    {x : Task α} (hx : s.tasks.get t = some x) (hty : x.type ≠ .gc) (hst : x.status = .allocRes)
    (hpc : x.pc = .submit ∨ ∃ j, x.pc = .fallback j) {sid : Option (Fin 2)}
    (hsid : ∀ j, sid = some j → x.pc = .submit) {ret : AllocRet} (hret : ret ≠ .eio) :
    PlainPath c s.core (writeNoBlock c s₁ t x sid ret).core ∧
      (writeNoBlock c s₁ t x sid ret).faulty = false := by
  have htasks : s₁.tasks = s.tasks := congrArg Core.tasks h1
  have hup : s₁.userPending = s.userPending := congrArg Core.userPending h1
  unfold writeNoBlock
  split_ifs with hbug
  · rw [h1]
    exact ⟨Runs.refl, h2⟩
  · cases sid with
    | some j =>
      refine ⟨?_, h2⟩
      rw [core_modTask, h1, htasks]
      exact plain (.fallback (c := c) hx hst (hsid j rfl) fun h => absurd h hty)
    | none =>
      simp only [writeAllocFailed, if_pos hret]
      refine ⟨?_, h2⟩
      change PlainPath c s.core { s₁.core with
        tasks := s₁.tasks.modify t fun x => { x with pc := .pending }
        userPending := s₁.userPending ++ [t] }
      rw [h1, htasks, hup]
      exact plain (.pend (c := c) hx hty hst hpc)

theorem allocWrite_path (hP : Places c s.core) (hf : s.faulty = false) {t : ℕ} {x : Task α}
    (hx : s.tasks.get t = some x) (hty : x.type ≠ .gc) (hst : x.status = .allocRes) {i : Fin 2}
    {sid : Option (Fin 2)}
    (hpc : x.pc = .submit ∨ ∃ j, x.pc = .fallback j) (hsid : ∀ j, sid = some j → x.pc = .submit) :
    PlainPath c s.core (allocWrite c s t x i sid true).core ∧
      (allocWrite c s t x i sid true).faulty = false := by
  rw [allocWrite]
  rcases allocBlock_cases hP hf (if x.link = .null then .user else .gc) i with
    ⟨h1, h2, h3, -⟩ | ⟨z, m₁, h, hp, ha, hu⟩
  · generalize allocBlock c s (if x.link = .null then .user else .gc) i = r at h1 h2 h3 ⊢
    obtain ⟨s₁, ret⟩ := r
    rcases h3 with h3 | h3
    · simp only at h3
      subst h3
      exact writeNoBlock_path h1 h2 hx hty hst hpc hsid nofun
    · simp only at h3
      subst h3
      exact writeNoBlock_path h1 h2 hx hty hst hpc hsid nofun
  · simp only [h]
    obtain ⟨log, hlog, h1, h2⟩ := dispatchWrite_core (c := c)
      (s := ({ s with zmd := (takeBlock c m₁ i z).1 } : Sys α).log
        (.alloc t (if x.link = .null then .user else .gc))) t z x
    have hflag : x.flag = if x.link = .null then .user else .gc := by
      rw [Task.flag, if_congr (and_iff_right hty) rfl rfl]
    refine ⟨?_, h2.trans hf⟩
    rw [h1, ← hflag]
    refine hp.trans (plain (.dispatch (c := c) (k := { s.core with zmd := m₁ }) hx hst hpc ha ?_
      hlog))
    intro _ hl
    exact hu (if_pos hl)

theorem allocGc_path (hP : Places c s.core) (hf : s.faulty = false) {g : ℕ} {x : Task α}
    (hx : s.tasks.get g = some x) (hty : x.type = .gc) (hst : x.status = .allocRes) {i : Fin 2}
    {sid : Option (Fin 2)} (hpc : x.pc = .submit ∨ ∃ j, x.pc = .fallback j)
    (hsid : ∀ j, sid = some j → x.pc = .submit ∧ i = j) :
    PlainPath c s.core (allocGc c s g x i sid true).core ∧
      (allocGc c s g x i sid true).faulty = false := by
  rw [allocGc]
  rcases allocBlock_cases hP hf .gc i with ⟨h1, h2, h3, h4⟩ | ⟨z, m₁, h, hp, ha, -⟩
  · generalize allocBlock c s .gc i = r at h1 h2 h3 ⊢
    obtain ⟨s₁, ret⟩ := r
    have key : PlainPath c s.core (gcNoBlock s₁ g sid ret).core ∧
        (gcNoBlock s₁ g sid ret).faulty = false := by
      unfold gcNoBlock
      by_cases hbug : s₁.bug.isSome
      · rw [if_pos hbug, h1]
        exact ⟨Runs.refl, h2⟩
      · rw [if_neg hbug]
        cases sid with
        | some j =>
          refine ⟨?_, h2⟩
          rw [core_modTask, h1, show s₁.tasks = s.tasks from congrArg Core.tasks h1]
          obtain ⟨hpc', hij⟩ := hsid j rfl
          exact plain (.fallback (c := c) hx hst hpc' fun _ => hij ▸ h4 rfl)
        | none =>
          refine ⟨?_, h2⟩
          change PlainPath c s.core s₁.core
          rw [h1]
          exact Runs.refl
    rcases h3 with h3 | h3
    · simp only at h3
      subst h3
      exact key
    · simp only at h3
      subst h3
      exact key
  · simp only [h, dispatchGc, if_pos]
    obtain ⟨log, hlog, h1, h2⟩ := issueAppend_core (c := c)
      (({ s with zmd := (takeBlock c m₁ i z).1 } : Sys α).log (.alloc g .gc)) g z x .gcWrite
    have hflag : x.flag = .gc := by rw [Task.flag, if_neg fun h => h.1 hty]
    refine ⟨?_, h2.trans hf⟩
    rw [h1, ← hflag]
    exact hp.trans (plain (.dispatch (c := c) (k := { s.core with zmd := m₁ }) hx hst hpc ha
      (fun h => absurd hty h) hlog))

/-- The moves that an event in state `s` is made of. -/
def Allowed (s : Sys α) (e : Event α) (k : Core α) : Label → Prop
  | .plain => True
  | .stale => k = s.core ∧ e = .wkStep true
  | .select => k = s.core ∧ ∃ b, e = .gcSelect b
  | .discard b => e = .txComplete ∧ b ∈ s.natSit.toFree ∧ k.tasks = s.tasks
  | .stored t => k = s.core ∧ e = .writeEnd t
  | .moved g => k = s.core ∧ e = .gcEnd g
  | .fault => False

theorem allowed_of_plain {e : Event α} {k k' : Core α} (h : PlainPath c k k') :
    Path c (Allowed s e) k k' :=
  h.mono fun _ _ hl => by rw [hl]; trivial

/-! ## A gc task that is called back -/

theorem putGc_path {k : Core α} {g : ℕ} {x : Task α} (hg : g ∈ k.taskPuts)
    (hx : k.tasks.get g = some x) (hty : x.type = .gc) (hi : x.integ ≠ .err) :
    PlainPath c k { k with
      taskPuts := k.taskPuts.erase g
      tasks := if x.refcount - 1 = 0 then k.tasks.free g else k.tasks.modify g Task.decRef } := by
  split_ifs with hr
  · exact plain (.destroy (c := c) hg hx hr (fun h => absurd hty h) hi)
  · exact plain (.dropRef (c := c) hg hx hr)

omit [Inhabited α] in
theorem taskPutGc_eq {t : ℕ} {x : Task α} (hx : s.tasks.get t = some x) (hi : x.integ ≠ .err) :
    taskPutGc s t = { s with
      tasks := if x.refcount - 1 = 0 then s.tasks.free t else s.tasks.modify t Task.decRef } := by
  split_ifs with hr
  · exact taskPutGc_last hx hr hi
  · exact taskPutGc_more hx hr

/-- `__gc_task_callback` after `-EEXIST`. -/
theorem skipEnd_path (hT : Tasks s.core) (hb : s.bug = none) {g : ℕ}
    {x : Task α} (hx : s.tasks.get g = some x) (hty : x.type = .gc)
    (hpc : x.pc = .skip) (hl : x.link = .iosched) (o : Option ℕ) :
    PlainPath c s.core (gcTaskCallback c s g o).core ∧
      (gcTaskCallback c s g o).faulty = s.faulty := by
  have hs := hT.shape g x hx
  obtain ⟨⟨v, hp⟩, -⟩ := hs.gc hty
  obtain ⟨hst, hv, he, hi⟩ : x.status = .gcReading ∧ x.readZone = some v ∧
      x.error = some .eexist ∧ x.integ ≠ .err := by
    cases hp <;> simp_all
  have hmove := plain (.skipEnd (c := c) (k := s.core) hx hty hpc hl hv)
  have hget : (s.tasks.modify g fun x => { x with pc := .done }).get g =
      some { x with pc := .done } := Heap.get_modify_self hx _
  have hput := putGc_path (c := c) (k := { s.core with
    puts := (v, .gc) :: s.puts
    tasks := s.tasks.modify g fun x => { x with pc := .done }
    taskPuts := g :: s.taskPuts
    gcInflight := s.gcInflight - 1
    hist := .putVictim g :: .freePage g :: .callback g :: s.hist }) List.mem_cons_self hget hty hi
  rw [gcTaskCallback_error hb hx hl (by rw [he]; rfl), gcRelease_reading hst hv,
    taskPutGc_eq (x := { x with pc := .done }) hget hi]
  refine ⟨(hmove.trans hput).trans ?_, rfl⟩
  rw [List.erase_cons_head]
  exact Runs.refl

/-- `__gc_task_callback` after a write. -/
theorem remap_path (hT : Tasks s.core) (hf : s.faulty = false) (hb : s.bug = none) {g p : ℕ}
    {x : Task α} (hx : s.tasks.get g = some x) (hpc : x.pc = .callback (some p))
    (hl : x.link = .iosched) :
    (gcTaskCallback c s g (some p)).bug = none ∧
      Path c (Allowed s (.gcEnd g)) s.core
        ((gcTaskCallback c s g (some p)).log (.bioPut g true)).core ∧
      (gcTaskCallback c s g (some p)).faulty = false := by
  have hs := hT.shape g x hx
  obtain ⟨hty, hst, ⟨z, hz⟩, ⟨v, hv⟩, ⟨log, hi⟩, ⟨-, he⟩ | ⟨h, -⟩⟩ := hs.callback hpc
  swap
  · cases h
  have hpast : x.Past := ⟨hty, by rw [hst]; rintro ⟨⟩, by rw [hpc]; rintro ⟨⟩⟩
  have hm : s.mapping x.blkid = some x.pbid ∨ s.mapping x.blkid = none := hT.past g x hx hpast
  have hr : x.refcount - 1 ≠ 0 := by
    have h1 : x.refcount = x.ownRefs + heldRefs s.tasks s.taskPuts g := hT.refs g x hx
    have h2 := TaskInv.heldRefs_nonneg s.tasks s.taskPuts g
    rw [Task.ownRefs, if_pos hpast.inTree, if_neg hpast.2.2] at h1
    omega
  have hmove : Path c (Allowed s (.gcEnd g)) s.core _ :=
    Runs.one (e := .moved g) ⟨rfl, rfl⟩ (.remap (c := c) (k := s.core) hx hty hpc hl hz hv hm)
  -- the metadata and the mapping
  have hremap : gcRemap c s x (some p) = { s with
      zmd :=
        if s.mapping x.blkid = none then updateReverseMap c s.zmd z p (some x.blkid)
        else invalidate c (updateReverseMap c s.zmd z p (some x.blkid)) v x.pbid
      mapping := Function.update s.mapping x.blkid (some p) } := by
    rcases hm with hm | hm
    · simp only [gcRemap, hz, hv, hm, if_neg (show ¬ some x.pbid = none from (by rintro ⟨⟩)),
        if_neg (show ¬ (some x.pbid ≠ some x.pbid) from fun h => h rfl)]
    · simp only [gcRemap, hz, hv, hm, if_true]
  have hget : (s.tasks.modify g fun x => { x with pc := .done, refcount := x.refcount - 1 }).get g =
      some { x with pc := .done, refcount := x.refcount - 1 } := Heap.get_modify_self hx _
  have hput := putGc_path (c := c) (k := { s.core with
    zmd :=
      if s.mapping x.blkid = none then updateReverseMap c s.zmd z p (some x.blkid)
      else invalidate c (updateReverseMap c s.zmd z p (some x.blkid)) v x.pbid
    mapping := Function.update s.mapping x.blkid (some p)
    puts := (v, .gc) :: (z, .gc) :: s.puts
    taskTree := s.taskTree.erase g
    tasks := s.tasks.modify g fun x => { x with pc := .done, refcount := x.refcount - 1 }
    taskPuts := g :: s.taskPuts
    gcInflight := s.gcInflight - 1
    hist := .bioPut g true :: .putVictim g :: .freePage g :: .erase g :: .callback g :: s.hist })
    List.mem_cons_self hget hty (by change x.integ ≠ .err; rw [hi]; rintro ⟨⟩)
  have hcall : gcTaskCallback c s g (some p) =
      let s₁ := gcRelease ((gcRemap c s x (some p)).log (.callback g)) g x
      { s₁ with gcInflight := s₁.gcInflight - 1 } := by
    have hcond : (!s.faulty ∧ x.error = none) := ⟨by rw [hf]; rfl, he⟩
    have hnb : (gcRemap c s x (some p)).bug = none := by rw [hremap]; exact hb
    simp only [gcTaskCallback, hx, hl, if_pos hcond, hnb]
    rfl
  rw [hcall, gcRelease_written hst hz hv (by rw [hremap]; exact hx) hr,
    taskPutGc_eq (x := { x with pc := .done, refcount := x.refcount - 1 })
      (by rw [hremap]; exact hget) (by change x.integ ≠ .err; rw [hi]; rintro ⟨⟩), hremap]
  refine ⟨hb, (hmove.trans (allowed_of_plain hput)).trans ?_, hf⟩
  rw [List.erase_cons_head]
  exact Runs.refl

theorem gcEnd_path (hT : Tasks s.core) (hf : s.faulty = false) (hb : s.bug = none) {g : ℕ}
    {x : Task α} (hx : s.tasks.get g = some x) (hc : x.Clean)
    (hpc : (∃ o, x.pc = .callback o) ∨ x.pc = .skip) :
    Path c (Allowed s (.gcEnd g)) s.core (gcEnd c s g x).core ∧ (gcEnd c s g x).faulty = false := by
  have hs := hT.shape g x hx
  have hwild : ∀ o, x.link ≠ .iosched → gcTaskCallback c s g o = s.halt .wild := by
    intro o hl
    simp only [gcTaskCallback, hx, if_pos hl]
  rcases hpc with ⟨o, hpc⟩ | hpc
  · obtain ⟨p, rfl⟩ : ∃ p, o = some p := by
      cases o with
      | none => exact absurd hpc hc.2.2.2
      | some p => exact ⟨p, rfl⟩
    simp only [gcEnd, hpc]
    by_cases hl : x.link = .iosched
    · obtain ⟨h1, h2⟩ := remap_path hT hf hb hx hpc hl
      rw [h1, if_neg (show ¬ (none : Option Bug).isSome = true from nofun)]
      exact h2
    · rw [hwild _ hl]
      exact ⟨Runs.refl, hf⟩
  · have hend : gcEnd c s g x = gcTaskCallback c s g none := by simp only [gcEnd, hpc]
    have hty : x.type = .gc := by
      by_contra hty
      obtain ⟨hp, -⟩ := hs.user hty
      cases hp <;> simp_all
    rw [hend]
    by_cases hl : x.link = .iosched
    · exact (skipEnd_path hT hb hx hty hpc hl none).imp allowed_of_plain fun h => h.trans hf
    · rw [hwild _ hl]
      exact ⟨Runs.refl, hf⟩

/-! ## `lbz_nat_sit_tx_complete` -/

/-- Moves that free blocks of `l`, with the tasks `h`. -/
abbrev DiscardPath (c : Conf) (l : List ℕ) (h : Heap (Task α)) : Core α → Core α → Prop :=
  Path c fun k lbl => ∃ b ∈ l, lbl = .discard b ∧ k.tasks = h

theorem freeBlkid_path {l : List ℕ} {b : ℕ} (hb : b ∈ l) :
    DiscardPath c l s.tasks s.core (freeBlkid c s b).core ∧ (freeBlkid c s b).tasks = s.tasks ∧
      (freeBlkid c s b).faulty = s.faulty := by
  unfold freeBlkid
  split_ifs
  · exact ⟨Runs.refl, rfl, rfl⟩
  · exact ⟨Runs.refl, rfl, rfl⟩
  · cases hm : s.mapping b with
    | none => exact ⟨Runs.refl, rfl, rfl⟩
    | some p => exact ⟨Runs.one ⟨b, hb, rfl, rfl⟩ (.discard hm), rfl, rfl⟩

theorem foldl_freeBlkid_path {l : List ℕ} : ∀ (bs : List ℕ) (s : Sys α), bs ⊆ l →
    DiscardPath c l s.tasks s.core (bs.foldl (freeBlkid c) s).core ∧
      (bs.foldl (freeBlkid c) s).faulty = s.faulty
  | [], s, _ => ⟨Runs.refl, rfl⟩
  | b :: bs, s, h => by
    obtain ⟨h1, h2, h3⟩ := freeBlkid_path (c := c) (s := s) (h List.mem_cons_self)
    obtain ⟨h4, h5⟩ := foldl_freeBlkid_path bs (freeBlkid c s b) fun x hx =>
      h (List.mem_cons_of_mem _ hx)
    rw [h2] at h4
    exact ⟨h1.trans h4, h5.trans h3⟩

/-! ## Every event -/

omit [Inhabited α] in
theorem classify_ne_gc (n : NatSit) (b : ℕ) (flush : Bool) : classify c n b flush ≠ .gc := by
  unfold classify
  split_ifs <;> nofun

omit [Inhabited α] in
theorem retryReturned_iff : retryReturned s ↔ s.core.Returned := by
  have hl : retryReturned s ↔ ∀ t, s.retryCur = some t →
      ¬ s.tasks.At t fun x => x.pc.running = true := by
    rw [retryReturned]
    split
    · next h => exact iff_of_true trivial fun t ht => by rw [h] at ht; cases ht
    · next t h =>
      constructor
      · intro h' t' ht'
        rw [h] at ht'
        cases ht'
        exact h'
      · exact fun h' => h' t h
  rw [hl]
  constructor
  · intro h t x ht hx hp
    exact h t ht ⟨x, hx, hp⟩
  · rintro h t ht ⟨x, hx, hp⟩
    exact h t x ht hx hp

theorem wkVisit_path {i : ℕ} {send : Bool} (hw : s.wk = .visit i send) :
    (wkVisit c s i send).faulty = s.faulty ∧
      Path c (Allowed s (.wkStep true)) s.core (wkVisit c s i send).core := by
  unfold wkVisit
  split_ifs with h1 h2 h3 h4 h5
  · exact ⟨rfl, Runs.one (e := .plain) trivial (.wkIdle hw h1)⟩
  · exact ⟨rfl, Runs.one (e := .plain) trivial (.wkFull hw h2 h3)⟩
  · subst h4
    exact ⟨rfl, Runs.one (e := .stale) ⟨rfl, rfl⟩ (.wkSticky hw h2 h3)⟩
  · exact ⟨rfl, Runs.one (e := .plain) trivial (.wkNext (Or.inl hw))⟩
  · exact ⟨rfl, Runs.one (e := .plain) trivial (.wkNext (Or.inl hw))⟩
  · exact ⟨rfl, Runs.one (e := .plain) trivial (.wkFree hw (not_not.mp h5))⟩

theorem wkGcTest_path {i : ℕ} {send : Bool} (hw : s.wk = .gcTest i send) :
    (wkGcTest s i send).faulty = s.faulty ∧
      Path c (Allowed s (.wkStep true)) s.core (wkGcTest s i send).core := by
  unfold wkGcTest
  split_ifs with h1 h2
  · refine ⟨rfl, ?_⟩
    by_cases h3 : (s.zmd.zones i).state = .empty
    · exact Runs.one (e := .plain) trivial (.wkEmpty hw h1 h3)
    · have h4 : send = true := h2.resolve_left h3
      subst h4
      exact Runs.one (e := .stale) ⟨rfl, rfl⟩ (.wkCarried hw h1 h3)
  · exact ⟨rfl, Runs.one (e := .plain) trivial (.wkNext (Or.inr hw))⟩
  · exact ⟨rfl, Runs.one (e := .plain) trivial (.wkNext (Or.inr hw))⟩

/-- One step of the worker is one move, or the panic. -/
theorem wkStep_path (hwk : s.wk ≠ .idle) : (wkStep c s true).faulty = s.faulty ∧
    (Path c (Allowed s (.wkStep true)) s.core (wkStep c s true).core ∨
      (wkStep c s true).bug = some .resetValid ∧
        ∃ d, (wkStep c s true).core = { s.core with phys := d }) := by
  unfold wkStep
  split
  · next hw => exact absurd hw hwk
  · next i send hw => exact (wkVisit_path hw).imp_right Or.inl
  · next i hw => exact ⟨rfl, Or.inl (Runs.one (e := .plain) trivial (.wkClose hw))⟩
  · next i hw => exact ⟨rfl, Or.inl (Runs.one (e := .plain) trivial (.wkLink hw))⟩
  · next i send hw => exact (wkGcTest_path hw).imp_right Or.inl
  · next i hw =>
    rw [wkReset, if_neg nofun]
    split_ifs with h1
    · exact ⟨rfl, Or.inr ⟨rfl, _, rfl⟩⟩
    · exact ⟨rfl, Or.inl (Runs.one (e := .plain) trivial (.wkReset hw (not_not.mp h1)))⟩
  · next i hw => exact ⟨rfl, Or.inl (Runs.one (e := .plain) trivial (.wkPublish hw))⟩

theorem insertWrite_path {t : ℕ} {x : Task α} (hx : s.tasks.get t = some x) (hty : x.type ≠ .gc)
    (hst : x.status = .init) (hpc : x.pc = .submit) :
    PlainPath c s.core (insertWrite s t x).core ∧ (insertWrite s t x).faulty = s.faulty := by
  unfold insertWrite
  split
  · next tk h =>
    obtain ⟨htk, y, hy, hb⟩ := searchTree_some h
    exact ⟨plain (.conflict (c := c) (k := s.core) hx hty hst hpc htk hy hb), rfl⟩
  · next h =>
    refine ⟨?_, rfl⟩
    have hm := plain (.insert (c := c) (k := s.core) hx hty hst hpc (searchTree_none h))
    have hmm : (s.tasks.modify t Task.incRef).modify t (fun x => { x with status := .allocRes }) =
        s.tasks.modify t fun x => { x with refcount := x.refcount + 1, status := .allocRes } :=
      Heap.modify_modify _ _ _ _
    have he : (((linkTask s t).modTask t fun x => { x with status := .allocRes }).core) =
        { s.core with
          tasks := (s.tasks.modify t Task.incRef).modify t fun x => { x with status := .allocRes }
          taskTree := t :: s.taskTree
          hist := .insert t :: s.hist } := rfl
    rw [he, hmm]
    exact hm

theorem submitWriteTask_path (hT : Tasks s.core) (hP : Places c s.core) (hf : s.faulty = false)
    {t : ℕ} {x : Task α} (hx : s.tasks.get t = some x) (hty : x.type ≠ .gc)
    (hpc : x.pc = .submit ∨ ∃ j, x.pc = .fallback j) :
    PlainPath c s.core (submitWriteTask c s t x true).core ∧
      (submitWriteTask c s t x true).faulty = false := by
  obtain ⟨hp, -, -⟩ := (hT.shape t x hx).user hty
  rcases hpc with hpc | ⟨j, hpc⟩
  · by_cases hst : x.status = .init
    · have he : submitWriteTask c s t x true = insertWrite s t x := by
        simp only [submitWriteTask, hpc, if_pos hst]
      rw [he]
      exact (insertWrite_path hx hty hst hpc).imp_right fun h => h.trans hf
    · have hst' : x.status = .allocRes := by cases hp <;> simp_all
      simp only [submitWriteTask, hpc, if_neg hst]
      exact allocWrite_path hP hf hx hty hst' (Or.inl hpc) fun _ _ => hpc
  · have hst' : x.status = .allocRes := by cases hp <;> simp_all
    simp only [submitWriteTask, hpc]
    exact allocWrite_path hP hf hx hty hst' (Or.inr ⟨j, hpc⟩) nofun

/-- The return of `insert_task_to_tree` for a gc task. -/
theorem insertGc_path {g : ℕ} {x : Task α} (hx : s.tasks.get g = some x) (hty : x.type = .gc)
    (hst : x.status = .gcReading) (hpc : x.pc = .submit) (hT : Tasks s.core) :
    PlainPath c s.core (insertGc s g x).core ∧ (insertGc s g x).faulty = s.faulty := by
  have hfr : x.Fresh := by
    rw [Task.Fresh, if_pos hty, hpc]
    exact ⟨hst, by rintro ⟨⟩, by rintro ⟨⟩, by rintro ⟨⟩⟩
  -- the search looks at the blocks of the tasks, which the first assignment leaves alone
  have hsearch : searchTree (s.modTask g fun x => { x with readZone := x.zone, zone := none })
      x.blkid = searchTree s x.blkid := by
    unfold searchTree
    refine congrArg (fun p => s.taskTree.find? p) (funext fun t => ?_)
    refine decide_eq_decide.mpr ?_
    change (∃ y, _ ∧ _) ↔ ∃ y, _ ∧ _
    simp only [Sys.modTask, Heap.get_modify]
    split_ifs with e
    · rw [e, hx]
      simp
    · exact Iff.rfl
  simp only [insertGc, hsearch]
  split
  · next tk h =>
    obtain ⟨htk, y, hy, hb⟩ := searchTree_some h
    have hne : g ≠ tk := TaskInv.ne_of_fresh hT hx hfr htk
    refine ⟨?_, rfl⟩
    have hm := plain (.gcFind (c := c) (k := s.core) hx hty hst hpc htk hy hb)
    have hmm : ((s.tasks.modify g fun x => { x with readZone := x.zone, zone := none }).modify tk
        Task.incRef).modify g (fun x => { x with pc := .found tk }) =
        (s.tasks.modify tk Task.incRef).modify g fun x =>
          { x with readZone := x.zone, zone := none, pc := .found tk } := by
      rw [Heap.modify_comm hne, Heap.modify_modify]
      rfl
    have he : ((taskGet (s.modTask g fun x => { x with readZone := x.zone, zone := none }) tk).modTask
        g fun x => { x with pc := .found tk }).core = { s.core with
          tasks := ((s.tasks.modify g fun x => { x with readZone := x.zone, zone := none }).modify tk
            Task.incRef).modify g fun x => { x with pc := .found tk } } := rfl
    rw [he, hmm]
    exact hm
  · next h =>
    refine ⟨?_, rfl⟩
    have hm := plain (.gcInsert (c := c) (k := s.core) hx hty hst hpc (searchTree_none h))
    have hmm : ((s.tasks.modify g fun x => { x with readZone := x.zone, zone := none }).modify g
        Task.incRef).modify g (fun x => { x with pc := .check }) =
        s.tasks.modify g fun x =>
          { x with readZone := x.zone, zone := none, pc := .check, refcount := x.refcount + 1 } := by
      rw [Heap.modify_modify, Heap.modify_modify]
      rfl
    have he : ((linkTask (s.modTask g fun x => { x with readZone := x.zone, zone := none }) g).modTask
        g fun x => { x with pc := .check }).core = { s.core with
          tasks := ((s.tasks.modify g fun x => { x with readZone := x.zone, zone := none }).modify g
            Task.incRef).modify g fun x => { x with pc := .check }
          taskTree := g :: s.taskTree
          hist := .insert g :: s.hist } := rfl
    rw [he, hmm]
    exact hm

theorem gcSkip_path (hT : Tasks s.core) {g : ℕ} {x : Task α} (hx : s.tasks.get g = some x)
    (hty : x.type = .gc) (hpc : x.pc = .check) (hm : s.mapping x.blkid ≠ some x.pbid) :
    PlainPath c s.core (gcSkip s g).core ∧ (gcSkip s g).faulty = s.faulty := by
  have hi : x.InTree := by rw [Task.InTree, if_pos hty]; exact Or.inl hpc
  have hr : x.refcount - 1 ≠ 0 := by
    have h1 : x.refcount = x.ownRefs + heldRefs s.tasks s.taskPuts g := hT.refs g x hx
    have h2 := TaskInv.heldRefs_nonneg s.tasks s.taskPuts g
    rw [Task.ownRefs, if_pos hi, if_neg (by rw [hpc]; rintro ⟨⟩)] at h1
    omega
  have hput : taskPutGc (delTaskFromTree s g) g = (delTaskFromTree s g).modTask g Task.decRef :=
    taskPutGc_more hx hr
  rw [gcSkip, hput]
  refine ⟨?_, rfl⟩
  have hmv := plain (.gcSkip (c := c) (k := s.core) hx hty hpc hm)
  have hmm : (s.tasks.modify g Task.decRef).modify g
      (fun x => { x with error := some .eexist, pc := .skip }) =
      s.tasks.modify g fun x =>
        { x with refcount := x.refcount - 1, error := some .eexist, pc := .skip } := by
    rw [Heap.modify_modify]
    rfl
  have he : ((((delTaskFromTree s g).modTask g Task.decRef).modTask g fun x =>
      { x with error := some .eexist, pc := .skip }).core) = { s.core with
        tasks := (s.tasks.modify g Task.decRef).modify g fun x =>
          { x with error := some .eexist, pc := .skip }
        taskTree := s.taskTree.erase g
        hist := .erase g :: s.hist } := rfl
  rw [he, hmm]
  exact hmv

theorem gcCheck_path (hT : Tasks s.core) {g : ℕ} {x : Task α}
    (hx : s.tasks.get g = some x) (hty : x.type = .gc) (hpc : x.pc = .check) :
    PlainPath c s.core (gcCheck c s g x).core ∧ (gcCheck c s g x).faulty = s.faulty := by
  unfold gcCheck
  split
  · next h =>
    exact gcSkip_path hT hx hty hpc (by rw [h]; rintro ⟨⟩)
  · next p h =>
    have hpeek := plain (.peek (c := c) (k := s.core) h)
    -- the state after the reference on the zone is taken, with its release still to come
    have hk : ({ s with
        zmd := getZone s.zmd (getZoneByPbid c p)
        puts := (getZoneByPbid c p, .gc) :: s.puts } : Sys α).core =
        { s.core with
          zmd := getZone s.zmd (getZoneByPbid c p)
          puts := (getZoneByPbid c p, .gc) :: s.puts } := rfl
    by_cases e : p = x.pbid
    · simp only [if_neg (not_not.mpr e)]
      refine ⟨?_, rfl⟩
      rw [core_modTask, hk]
      exact hpeek.trans (plain (.gcPass (c := c) hx hty hpc (by rw [← e]; exact h)))
    · simp only [if_pos (show p ≠ x.pbid from e)]
      obtain ⟨h1, h2⟩ := gcSkip_path (c := c) (s := { s with
        zmd := getZone s.zmd (getZoneByPbid c p)
        puts := (getZoneByPbid c p, .gc) :: s.puts }) hT hx hty hpc
        (by rw [h]; exact fun h' => e (Option.some.inj h'))
      exact ⟨hpeek.trans h1, h2⟩

theorem submitGcTask_path (hT : Tasks s.core) (hP : Places c s.core) (hf : s.faulty = false)
    {g : ℕ} {x : Task α} (hx : s.tasks.get g = some x) (hty : x.type = .gc)
    (hpc : x.pc = .submit ∨ (∃ j, x.pc = .fallback j) ∨ (∃ tk, x.pc = .found tk) ∨
      x.pc = .check) :
    PlainPath c s.core (submitGcTask c s g x true).core ∧
      (submitGcTask c s g x true).faulty = false := by
  obtain ⟨⟨v, hp⟩, -⟩ := (hT.shape g x hx).gc hty
  rcases hpc with hpc | ⟨j, hpc⟩ | ⟨tk, hpc⟩ | hpc
  · by_cases hst : x.status = .gcReading
    · simp only [submitGcTask, hpc, if_pos hst]
      exact (insertGc_path hx hty hst hpc hT).imp_right fun h => h.trans hf
    · have hst' : x.status = .allocRes := by cases hp <;> simp_all
      simp only [submitGcTask, hpc, if_neg hst]
      refine allocGc_path hP hf hx hty hst' (Or.inl hpc) fun j hj => ?_
      split_ifs at hj
      exact ⟨hpc, Option.some.inj hj⟩
  · have hst' : x.status = .allocRes := by cases hp <;> simp_all
    simp only [submitGcTask, hpc]
    exact allocGc_path hP hf hx hty hst' (Or.inr ⟨j, hpc⟩) nofun
  · simp only [submitGcTask, hpc]
    exact ⟨plain (.gcFound (c := c) (k := s.core) hx hty hpc), hf⟩
  · simp only [submitGcTask, hpc]
    exact (gcCheck_path hT hx hty hpc).imp_right fun h => h.trans hf

theorem writeEnd_path (hT : Tasks s.core) {t : ℕ} {x : Task α}
    (hx : s.tasks.get t = some x) (hty : x.type ≠ .gc) (hpc : ∃ p, x.pc = .written p) :
    Path c (Allowed s (.writeEnd t)) s.core (writeIoEndio c s t x).core ∧
      (writeIoEndio c s t x).faulty = s.faulty := by
  have hs := hT.shape t x hx
  obtain ⟨p, hpc⟩ := hpc
  obtain ⟨-, ⟨z, hz⟩, -⟩ := hs.written hpc
  simp only [writeIoEndio, hpc, hz]
  exact ⟨Runs.one (e := .stored t) ⟨rfl, rfl⟩ (.apply (c := c) (k := s.core) hx hty hpc hz), rfl⟩

theorem writeUntree_path (hT : Tasks s.core) (hq : Queues s.core) (hb : s.bug = none) {t : ℕ}
    {x : Task α} (hx : s.tasks.get t = some x) (hi : x.integ ≠ .err) (hpc : x.pc = .ended) :
    PlainPath c s.core (writeUntree c s t x).core ∧
      (writeUntree c s t x).faulty = s.faulty := by
  have hs := hT.shape t x hx
  obtain ⟨-, -, z, hz⟩ := hs.ended hpc
  simp only [writeUntree, hz]
  have hmove : Move c s.core .plain { s.core with
      completes := z :: s.completes
      taskTree := s.taskTree.erase t
      tasks := s.tasks.modify t fun x => { x with pc := .done, refcount := x.refcount - 1 }
      taskPuts := t :: s.taskPuts
      hist := .erase t :: s.hist } := .untree hx hpc hz
  have hput := taskPut_path (c := c) (s := (delTaskFromTree
    { s with completes := z :: s.completes } t).modTask t fun x =>
      { x with pc := .done, refcount := x.refcount - 1 })
    (Tasks.move (c := c) hT hq hmove) rfl (fun y hy => by
      rw [Heap.get_modify_self hx] at hy
      cases hy
      exact fun _ => hi) List.mem_cons_self (List.erase_cons_head _ _) hb
  exact ⟨(plain hmove).trans hput.1, hput.2⟩

theorem submitRead_path (b : ℕ) : PlainPath c s.core (submitReadIo c s b).core ∧
    (submitReadIo c s b).faulty = s.faulty := by
  unfold submitReadIo
  split
  · next h => exact ⟨plain (.readMiss (c := c) (k := s.core) h), rfl⟩
  · next p h => exact ⟨plain (.readHit (c := c) (k := s.core) h), rfl⟩

theorem retryWk_path (hret : retryReturned s) : PlainPath c s.core (retryWkFn s).core ∧
    (retryWkFn s).faulty = s.faulty := by
  rw [retryReturned_iff] at hret
  unfold retryWkFn
  split
  · next h =>
    split_ifs
    · exact ⟨Runs.refl, rfl⟩
    · exact ⟨plain (.retryUsers (c := c) (k := s.core) h), rfl⟩
  · next h => exact ⟨plain (.retryGcs (c := c) (k := s.core) h hret), rfl⟩
  · next t l h => exact ⟨plain (.nextUser (c := c) (k := s.core) h hret), rfl⟩
  · next h => exact ⟨plain (.retryDone (c := c) (k := s.core) h hret), rfl⟩
  · next t l h => exact ⟨plain (.nextGc (c := c) (k := s.core) h hret), rfl⟩

omit [Inhabited α] in
theorem gcBusy_iff : gcBusy s = true ↔ s.core.Busy := by
  unfold gcBusy Core.Busy
  change _ ↔ ∃ z, s.gc.gcZone = some z ∧ _
  split
  · next z h =>
    rw [h]
    exact ⟨fun h' => ⟨z, rfl, h'⟩, fun ⟨z', e, h'⟩ => by cases e; exact h'⟩
  · next h =>
    rw [h]
    exact ⟨nofun, fun ⟨_, e, _⟩ => nomatch e⟩

theorem gcSelect_path {b : Bool} (hpc : s.gc.pc = .idle) (hbusy : gcBusy s = false) :
    Path c (Allowed s (.gcSelect b)) s.core (gcSelect c s b).core ∧
      (gcSelect c s b).faulty = s.faulty := by
  have hbusy' : ¬ s.core.Busy := fun h => by rw [← gcBusy_iff, hbusy] at h; cases h
  unfold gcSelect findVictimZone
  cases h : victim c s.zmd (victimMod c s b) with
  | none => exact ⟨Runs.refl, rfl⟩
  | some z =>
    refine ⟨Runs.one (e := .select) ⟨rfl, b, rfl⟩ ?_, rfl⟩
    have hm := Move.select (c := c) (k := s.core) hpc hbusy' h
    have hz : ((takeVictim s.zmd z).zones z).zrms 0 = (s.zmd.zones z).zrms 0 ∧
        ((takeVictim s.zmd z).zones z).weight = (s.zmd.zones z).weight := by
      rw [takeVictim_zones, if_pos rfl]
      exact ⟨rfl, rfl⟩
    simp only [hz.1, hz.2]
    exact hm

theorem gcScan_path {z iter : ℕ} {pos : Option ℕ} (hpc : s.gc.pc = .scan z iter pos) :
    PlainPath c s.core (gcScan c s z iter pos).core ∧
      (gcScan c s z iter pos).faulty = s.faulty := by
  unfold gcScan
  split_ifs with h
  · cases pos with
    | none => exact ⟨plain (.scanFree (c := c) (k := s.core) hpc h), rfl⟩
    | some b =>
      refine ⟨?_, rfl⟩
      have hm := plain (.scanBlock (c := c) (k := s.core) hpc h)
      have hz : ((getZone s.zmd z).zones z).zrms (iter + 1) = (s.zmd.zones z).zrms (iter + 1) := by
        rw [getZone, Zmd.modZone_zones, if_pos rfl]
      have he : (submitGcToIosched s z (c.startBlk z + iter) b).zmd = getZone s.zmd z := rfl
      simp only [he, hz]
      exact hm
  · exact ⟨plain (.scanEnd (c := c) (k := s.core) hpc (not_lt.mp h)), rfl⟩

theorem gcWriteEnd_path {g : ℕ} {x : Task α} (hx : s.tasks.get g = some x) (hty : x.type = .gc)
    (hpc : ∃ p, x.pc = .written p) :
    PlainPath c s.core (gcWriteEndio s g x).core ∧ (gcWriteEndio s g x).faulty = s.faulty := by
  obtain ⟨p, hpc⟩ := hpc
  unfold gcWriteEndio
  split
  · next z hl hz =>
    rw [hpc]
    exact ⟨plain (.gcWritten (c := c) (k := s.core) hx hty hpc hz), rfl⟩
  · exact ⟨Runs.refl, rfl⟩

theorem devAppend_path (hT : Tasks s.core) {t off : ℕ} {x : Task α}
    (hx : s.tasks.get t = some x) (ha : CanAppend c s off x) :
    PlainPath c s.core (devAppend s t x (appendPbid c x off)).core ∧
      (devAppend s t x (appendPbid c x off)).faulty = s.faulty := by
  obtain ⟨hpc, hoff, hfree⟩ := ha
  obtain ⟨-, ⟨z, hz⟩, log, hi⟩ := (hT.shape t x hx).device hpc
  have hp : appendPbid c x off = c.startBlk z + off := by simp only [appendPbid, hz, Option.elim]
  rw [hp] at hfree ⊢
  simp only [devAppend, hi]
  exact ⟨plain (.append (c := c) (k := s.core) hx hpc hz hi hoff hfree), rfl⟩

/-- **Every event is a path of moves**, or it stops the device at the panic of a reset. -/
theorem path_of_step {e : Event α} (hB : Base c s.core) (hC : Clean s.core)
    (hf : s.faulty = false) (he : e.NoError) (hs : step c s e = some s') :
    s'.faulty = false ∧ (Path c (Allowed s e) s.core s'.core ∨
      s'.bug = some .resetValid ∧ ∃ d, s'.core = { s.core with phys := d }) := by
  obtain ⟨hT, hQ, hP⟩ : Tasks s.core ∧ Queues s.core ∧ Places c s.core :=
    ⟨hB.tasks, hB.queues, hB.places⟩
  rw [step] at hs
  split_ifs at hs with h
  obtain ⟨hb, hr⟩ := h
  cases hs
  have hplain : ∀ {s' : Sys α}, PlainPath c s.core s'.core ∧ s'.faulty = false →
      s'.faulty = false ∧ (Path c (Allowed s e) s.core s'.core ∨
        s'.bug = some .resetValid ∧ ∃ d, s'.core = { s.core with phys := d }) :=
    fun h => ⟨h.2, Or.inl (allowed_of_plain h.1)⟩
  have htask : ∀ {t : ℕ} {f : Task α → Sys α} {x : Task α}, s.tasks.get t = some x →
      onTask s t f = f x := fun hx => by simp only [onTask, hx]
  cases e with
  | submitWrite b d flush more =>
    have hne := classify_ne_gc (c := c) s.natSit b flush
    exact hplain ⟨plain (.submitWrite (c := c) (k := s.core) b d more hne), hf⟩
  | runWrite t integ =>
    obtain ⟨x, hx, hty, hpc⟩ := hr
    cases he
    refine hplain ?_
    simp only [after, htask hx]
    refine submitWriteTask_path hT hP hf hx hty ?_
    split at hpc
    · next h => exact Or.inl h
    · next j h => exact Or.inr ⟨j, h⟩
    · cases hpc
  | devAppend t off =>
    obtain ⟨x, hx, ha⟩ := hr
    refine hplain ?_
    simp only [after, htask hx]
    exact (devAppend_path hT hx ha).imp_right fun h => h.trans hf
  | devFail t => exact he.elim
  | writeEnd t =>
    obtain ⟨x, hx, hty, hpc⟩ := hr
    simp only [after, htask hx]
    refine And.symm ((writeEnd_path hT hx hty ?_).imp Or.inl fun h => h.trans hf)
    split at hpc
    · next p h => exact ⟨p, h⟩
    · next h => exact absurd h (hC.tasks t x hx).2.1
    · cases hpc
  | writeUntree t =>
    obtain ⟨x, hx, hpc⟩ := hr
    refine hplain ?_
    simp only [after, htask hx]
    exact (writeUntree_path hT hQ hb hx ((hT.shape t x hx).integ (hC.tasks t x hx)) hpc).imp_right
      fun h => h.trans hf
  | writeComplete z => exact hplain ⟨plain (.complete (c := c) (k := s.core) hr), hf⟩
  | putZone z b => exact hplain ⟨plain (.putZone (c := c) (k := s.core) hr), hf⟩
  | putTask t =>
    obtain ⟨h1, h2⟩ := taskPut_path (c := c) (k := s.core)
      (s := { s with taskPuts := s.taskPuts.erase t }) hT rfl
      (fun x hx _ => (hT.shape t x hx).integ (hC.tasks t x hx)) hr rfl hb
    exact hplain ⟨h1, h2.trans hf⟩
  | submitRead b => exact hplain ((submitRead_path b).imp_right fun h => h.trans hf)
  | devRead r ok =>
    obtain ⟨x, hx, hsv⟩ := hr
    cases he
    refine hplain ?_
    simp only [after, hx]
    exact ⟨plain (.serve (c := c) (k := s.core) hx hsv), hf⟩
  | readEnd r =>
    obtain ⟨x, hx, hsv⟩ := hr
    refine hplain ?_
    obtain ⟨v, hv⟩ : ∃ v, x.served = some (some v) := by
      cases h : x.served with
      | none => exact absurd h hsv
      | some o =>
        cases o with
        | none => exact absurd h (hC.reads r x hx)
        | some v => exact ⟨v, rfl⟩
    simp only [after, hx, hv, Option.join_some, readIoEndio, hf]
    exact ⟨plain (.endRead (c := c) (k := s.core) hx hv), rfl⟩
  | retryWk => exact hplain ((retryWk_path hr).imp_right fun h => h.trans hf)
  | gcSelect b =>
    obtain ⟨hpc, -, -, -, hbusy⟩ := hr
    obtain ⟨h1, h2⟩ := gcSelect_path (c := c) (b := b) hpc (by simpa using hbusy)
    exact ⟨h2.trans hf, Or.inl h1⟩
  | gcScan =>
    refine hplain ?_
    cases hpc : s.gc.pc with
    | idle => exact absurd hpc hr
    | scan z iter pos =>
      simp only [after, hpc]
      exact (gcScan_path hpc).imp_right fun h => h.trans hf
  | gcDevRead g ok =>
    obtain ⟨x, hx, hpc⟩ := hr
    cases he
    refine hplain ?_
    simp only [after, htask hx]
    exact ⟨plain (.gcServe (c := c) (k := s.core) hx hpc), hf⟩
  | gcReadEnd g =>
    obtain ⟨x, hx, hpc⟩ := hr
    refine hplain ?_
    have hpc' : x.pc = .read true := by
      split at hpc
      · next b h =>
        have hty : x.type = .gc := by
          by_contra hty
          obtain ⟨hp, -⟩ := (hT.shape g x hx).user hty
          cases hp <;> simp_all
        obtain ⟨⟨v, hp⟩, -⟩ := (hT.shape g x hx).gc hty
        cases b with
        | false => exact absurd h (hC.tasks g x hx).2.2.1
        | true => exact h
      · cases hpc
    simp only [after, htask hx, hpc', gcReadEndio]
    exact ⟨plain (.gcReadEnd (c := c) (k := s.core) hx hpc'), hf⟩
  | runGc g integ =>
    obtain ⟨x, hx, hty, hpc⟩ := hr
    cases he
    refine hplain ?_
    simp only [after, htask hx]
    refine submitGcTask_path hT hP hf hx hty ?_
    split at hpc
    · next h => exact Or.inl h
    · next j h => exact Or.inr (Or.inl ⟨j, h⟩)
    · next tk h => exact Or.inr (Or.inr (Or.inl ⟨tk, h⟩))
    · next h => exact Or.inr (Or.inr (Or.inr h))
    · cases hpc
  | gcWriteEnd g =>
    obtain ⟨x, hx, hty, hpc⟩ := hr
    refine hplain ?_
    simp only [after, htask hx]
    refine (gcWriteEnd_path hx hty ?_).imp_right fun h => h.trans hf
    split at hpc
    · next p h => exact ⟨p, h⟩
    · next h => exact absurd h (hC.tasks g x hx).2.1
    · cases hpc
  | gcEnd g =>
    obtain ⟨x, hx, hpc⟩ := hr
    simp only [after, htask hx]
    refine And.symm ((gcEnd_path hT hf hb hx (hC.tasks g x hx) ?_).imp_left Or.inl)
    split at hpc
    · next o h => exact Or.inl ⟨o, h⟩
    · next h => exact Or.inr h
    · cases hpc
  | wkStart => exact hplain ⟨plain (.wkStart (c := c) (k := s.core) hr.1), hf⟩
  | wkStep ok =>
    cases he
    exact (wkStep_path hr).imp_left fun h => h.trans hf
  | txComplete =>
    obtain ⟨h1, h2⟩ := foldl_freeBlkid_path (c := c) s.natSit.toFree s fun _ h => h
    refine ⟨h2.trans hf, Or.inl ?_⟩
    refine h1.mono fun k l h => ?_
    obtain ⟨b, hb', hl, hk⟩ := h
    rw [hl]
    exact ⟨rfl, hb', hk⟩
  | addRule a =>
    refine hplain ?_
    simp only [after, installRule]
    split_ifs <;> exact ⟨Runs.refl, hf⟩
  | setReady b => exact hplain ⟨Runs.refl, hf⟩

/-! ## Runs -/

/-- `s` has had no error, and what the invariants are about satisfies `I`; at the panic of a reset
the device has lost the zone already, so that `I` speaks of the device before it. -/
def Sound (c : Conf) (I : Core α → Prop) (s : Sys α) : Prop :=
  s.faulty = false ∧ ∃ d, (s.bug ≠ some .resetValid → d = s.phys) ∧
    (Base c { s.core with phys := d } ∧ Clean { s.core with phys := d }) ∧
    I { s.core with phys := d }

/-- **A run keeps what every permitted move keeps.** -/
theorem Sound.step {I : Core α → Prop} {okL : Core α → Label → Prop} (hN : 0 < c.zoneNrBlocks)
    (hI : ∀ k l k', Base c k → I k → l ≠ .fault → okL k l → Move c k l k' → I k') {e : Event α}
    (hok : ∀ k l k', Allowed s e k l → Move c k l k' → okL k l)
    (a : Sound c I s) (he : e.NoError) (hs : Lbz.step c s e = some s') : Sound c I s' := by
  obtain ⟨hf, d, hd, ⟨hB, hC⟩, hIs⟩ := a
  have hbug : s.bug = none := by
    rw [Lbz.step] at hs
    split_ifs at hs with h
    exact h.1
  cases hd (by rw [hbug]; nofun)
  obtain ⟨hf', hp | ⟨hb, d, hc⟩⟩ := path_of_step hB hC hf he hs
  · have key : (Base c s'.core ∧ Clean s'.core) ∧ I s'.core := by
      refine Runs.inv (I := fun k => (Base c k ∧ Clean k) ∧ I k) (fun k l k' h hal hm => ?_) hp
        ⟨⟨hB, hC⟩, hIs⟩
      have hl : l ≠ .fault := by
        rintro rfl
        exact hal
      exact ⟨⟨h.1.1.move hN hm, h.1.2.move hl hm⟩,
        hI k l k' h.1.1 h.2 hl (hok k l k' hal hm) hm⟩
    exact ⟨hf', s'.phys, fun _ => rfl, key⟩
  · have hcore : ({ s'.core with phys := s.phys } : Core α) = s.core := by rw [hc]; rfl
    refine ⟨hf', s.phys, fun h => absurd hb h, ?_⟩
    rw [hcore]
    exact ⟨⟨hB, hC⟩, hIs⟩

theorem Sound.run {I : Core α → Prop} (okE : Sys α → Event α → Prop)
    (okL : Core α → Label → Prop) (hN : 0 < c.zoneNrBlocks)
    (hI : ∀ k l k', Base c k → I k → l ≠ .fault → okL k l → Move c k l k' → I k')
    (hok : ∀ s e k l k', okE s e → Allowed s e k l → Move c k l k' → okL k l)
    (hrun : Runs (stepRel (Lbz.step c)) (fun s e => e.NoError ∧ okE s e) s s')
    (a : Sound c I s) : Sound c I s' :=
  Runs.inv (I := Sound c I)
    (fun s e _ h ho hs => h.step hN hI (fun k l k' => hok s e k l k' ho.2) ho.1 hs) hrun a

end

end Lbz
