import Lbz.Path

/-!
# Runs with errors

What the invariants of `Base` say also of runs in which the device fails, turns faulty at any moment,
or memory cannot be had.

* `Reaches c k s`: a path of moves leads from `k` to `s`, or to a device with the same zones if `s`
  has stopped at a `BUG`;
* **`reaches_of_step`**: every event is such a path, whatever fails;
* `Kept`, **`Kept.run`**: what every move keeps, every state of every run has.
-/

namespace Lbz

variable {α : Type} {c : Conf} {s s' : Sys α}

/-- A path of moves leads from `k` to `s'`; if `s'` has stopped, to a device with its zones. -/
def Reaches [Inhabited α] (c : Conf) (k : Core α) (s' : Sys α) : Prop :=
  ∃ k', Path c (fun _ _ => True) k k' ∧ k'.zmd = s'.zmd ∧ (s'.bug = none → k' = s'.core)

section

variable [Inhabited α] {k k' : Core α}

theorem Path.one {l : Label} (h : Move c k l k') : Path c (fun _ _ => True) k k' :=
  Runs.one trivial h

theorem Reaches.of_path {ok : Core α → Label → Prop} (h : Path c ok k s'.core) : Reaches c k s' :=
  ⟨s'.core, h.mono fun _ _ _ => trivial, rfl, fun _ => rfl⟩

/-- The device stops, and its zones are those of `k'`. -/
theorem Reaches.stop {ok : Core α → Label → Prop} (h : Path c ok k k') (hz : k'.zmd = s'.zmd)
    (hb : s'.bug ≠ none) : Reaches c k s' :=
  ⟨k', h.mono fun _ _ _ => trivial, hz, fun h' => absurd h' hb⟩

theorem Reaches.trans {ok : Core α → Label → Prop} (h : Path c ok k k') (h' : Reaches c k' s') :
    Reaches c k s' := by
  obtain ⟨k'', h1, h2, h3⟩ := h'
  exact ⟨k'', (h.mono fun _ _ _ => trivial).trans h1, h2, h3⟩

theorem Reaches.refl : Reaches c s.core s := ⟨s.core, Runs.refl, rfl, fun _ => rfl⟩

theorem Reaches.stopped (hz : k.zmd = s'.zmd) (hb : s'.bug ≠ none) : Reaches c k s' :=
  ⟨k, Runs.refl, hz, fun h => absurd h hb⟩

theorem Reaches.step {l : Label} (h : Move c k l k') (h' : Reaches c k' s') : Reaches c k s' := by
  obtain ⟨k'', h1, h2, h3⟩ := h'
  exact ⟨k'', (Runs.one trivial h).trans h1, h2, h3⟩

theorem Reaches.fault (h : Move c k .fault s'.core) : Reaches c k s' := Reaches.refl.step h

/-! ## References on tasks -/

omit [Inhabited α] in
theorem Task.Shape.clean_of_callback {x : Task α} (h : x.Shape) {o : Option ℕ}
    (hpc : x.pc = .callback o) (he : x.error = none) : x.Clean := by
  obtain ⟨-, hst, -, -, -, ⟨⟨p, rfl⟩, -⟩ | ⟨-, h1⟩⟩ := h.callback hpc
  · exact ⟨by rw [hst]; nofun, by rw [hpc]; nofun, by rw [hpc]; nofun, by rw [hpc]; nofun⟩
  · rw [he] at h1
    cases h1

omit [Inhabited α] in
theorem Task.Shape.user_of_err {x : Task α} (h : x.Shape) (hi : x.integ = .err) : x.type ≠ .gc := by
  intro hty
  obtain ⟨⟨v, hp⟩, -⟩ := h.gc hty
  cases hp <;> simp_all

/-- `task_put`, also of a task whose `integrity_buf` is an error pointer. -/
theorem taskPut_reaches {t : ℕ} (hT : Tasks k) (hk : k = { s.core with taskPuts := k.taskPuts })
    (ht : t ∈ k.taskPuts) (hs : k.taskPuts.erase t = s.taskPuts) (hb : s.bug = none) :
    Reaches c k (taskPut c s t) := by
  obtain ⟨x, hx⟩ := hT.puts t ht
  by_cases hi : x.refcount - 1 = 0 ∧ x.integ = .err
  swap
  · refine .of_path (taskPut_path (c := c) hT hk (fun y hy hr he => ?_) ht hs hb).1
    cases hx.symm.trans hy
    exact hi ⟨hr, he⟩
  obtain ⟨hr, hi⟩ := hi
  have hg : ∀ i, k.tasks.get i = s.tasks.get i := fun i => by rw [hk]; rfl
  have hzmd : k.zmd = s.zmd := by rw [hk]; rfl
  have hput : taskPut c s t = taskFinal c s t x := by
    simp only [taskPut, (hg t).symm.trans hx, if_pos hr]
  have hwild : ∀ s : Sys α, taskDestroy s t x = s.halt .wild := fun s => by
    rw [taskDestroy, if_pos hi]
  have hty := (hT.shape t x hx).user_of_err hi
  rw [hput]
  by_cases hl : ∃ g, x.link = .node g
  · obtain ⟨g, hl⟩ := hl
    obtain ⟨y, hy, hgc, hpc, -⟩ := hT.link t x hx hty g hl
    have hys := hT.shape g y hy
    obtain ⟨⟨v, hp⟩, -⟩ := hys.gc hgc
    obtain ⟨hst, hz, hv, -, -⟩ := hp.waiting hpc
    have hfresh : y.Fresh := by
      rw [Task.Fresh, if_pos hgc, hpc]
      exact ⟨hst, by rintro ⟨⟩, by rintro ⟨⟩, by rintro ⟨⟩⟩
    have hcall := gcTaskCallback_waiting (c := c) hb ((hg g).symm.trans hy) hys hgc hpc hv
      (hT.fresh g y hy hfresh) none
    obtain ⟨-, he, -⟩ := (hT.shape t x hx).user hty
    have hcb : (gcTaskCallback c s g none).bug = none ∧ (gcTaskCallback c s g none).zmd = s.zmd := by
      rw [hcall]
      exact ⟨hb, rfl⟩
    simp only [taskFinal, hl, if_neg hty, he, Option.isSome_none, Bool.false_eq_true, if_false,
      hcb.1, hwild]
    exact .stopped (hzmd.trans hcb.2.symm) (by rintro ⟨⟩)
  · rw [taskFinal_eq fun g h => absurd ⟨g, h⟩ hl, hwild]
    exact .stopped hzmd (by rintro ⟨⟩)

/-! ## Allocation -/

omit [Inhabited α] in
theorem dispatchWrite_fail (t z : ℕ) (x : Task α) : (dispatchWrite c s t x z false).core =
    { s.core with
      tasks := s.tasks.modify t fun x =>
        { x with zone := some z, status := .ioWriting, pc := .failed, integ := .err } } := by
  rw [dispatchWrite, if_neg (show ¬ false = true from (by rintro ⟨⟩))]
  split_ifs <;> rfl

omit [Inhabited α] in
theorem allocBlock_faulty (hf : s.faulty = true) (mod : AllocFlag) (i : Fin 2) :
    allocBlock c s mod i = (s, .eio) := by
  rw [allocBlock, zoneAllocRes, if_pos hf]
  simp only [reduceCtorEq, false_and, if_false]

theorem writeNoBlock_reaches (hB : Base c s.core) (hb : s.bug = none) {t : ℕ} {x : Task α}
    (hx : s.tasks.get t = some x) (hty : x.type ≠ .gc) (hst : x.status = .allocRes)
    (hpc : x.pc = .submit ∨ ∃ j, x.pc = .fallback j) {sid : Option (Fin 2)}
    (hsid : ∀ j, sid = some j → x.pc = .submit) :
    Reaches c s.core (writeNoBlock c s t x sid .eio) := by
  have hbs : ¬ s.bug.isSome = true := by rw [hb]; nofun
  unfold writeNoBlock
  rw [if_neg hbs]
  cases sid with
  | some j =>
    exact .of_path (plain (.fallback (c := c) (k := s.core) hx hst (hsid j rfl)
      fun h => absurd h hty))
  | none =>
    simp only [writeAllocFailed, ne_eq, not_true_eq_false, if_false]
    have hm : Move c s.core .fault { s.core with
        taskTree := s.taskTree.erase t
        tasks := s.tasks.modify t fun x => { x with refcount := x.refcount - 1, pc := .done }
        taskPuts := t :: s.taskPuts
        userWriteInflight := s.userWriteInflight - 1
        hist := .endW t false :: .erase t :: s.hist } := .allocFail hx hty hst hpc
    refine .step hm ?_
    exact taskPut_reaches (hB.tasks.move hB.queues hm) rfl List.mem_cons_self
      (List.erase_cons_head _ _) hb

theorem allocWrite_reaches (hB : Base c s.core) (hb : s.bug = none) {t : ℕ} {x : Task α}
    (hx : s.tasks.get t = some x) (hty : x.type ≠ .gc) (hst : x.status = .allocRes) {i : Fin 2}
    {sid : Option (Fin 2)} (hpc : x.pc = .submit ∨ ∃ j, x.pc = .fallback j)
    (hsid : ∀ j, sid = some j → x.pc = .submit) (integ : Bool) :
    Reaches c s.core (allocWrite c s t x i sid integ) := by
  cases hf : s.faulty with
  | true =>
    simp only [allocWrite, allocBlock_faulty hf]
    exact writeNoBlock_reaches hB hb hx hty hst hpc hsid
  | false =>
    cases integ with
    | true => exact .of_path (allocWrite_path hB.places hf hx hty hst hpc hsid).1
    | false =>
      rcases allocBlock_cases hB.places hf (if x.link = .null then .user else .gc) i with
        ⟨h1, h2, h3, -⟩ | ⟨z, m₁, h, hp, ha, -⟩
      · -- no block: `__add_integrity` is not called
        have he : allocWrite c s t x i sid false = allocWrite c s t x i sid true := by
          simp only [allocWrite]
          generalize allocBlock c s (if x.link = .null then .user else .gc) i = r at h1 h2 h3
          obtain ⟨s₁, ret⟩ := r
          rcases h3 with h3 | h3 <;> simp only at h3 <;> subst h3 <;> rfl
        rw [he]
        exact .of_path (allocWrite_path hB.places hf hx hty hst hpc hsid).1
      · simp only [allocWrite, h]
        have hflag : x.flag = if x.link = .null then .user else .gc := by
          rw [Task.flag, if_congr (and_iff_right hty) rfl rfl]
        rw [← hflag]
        refine .trans hp ?_
        refine .fault ?_
        rw [dispatchWrite_fail]
        exact .dispatchFail (c := c) (k := { s.core with zmd := m₁ }) hx hty hst hpc ha

theorem allocGc_reaches (hB : Base c s.core) {g : ℕ} {x : Task α}
    (hx : s.tasks.get g = some x) (hty : x.type = .gc) (hst : x.status = .allocRes) {i : Fin 2}
    {sid : Option (Fin 2)} (hpc : x.pc = .submit ∨ ∃ j, x.pc = .fallback j)
    (hsid : ∀ j, sid = some j → x.pc = .submit ∧ i = j) (integ : Bool) :
    Reaches c s.core (allocGc c s g x i sid integ) := by
  cases hf : s.faulty with
  | true =>
    simp only [allocGc, allocBlock_faulty hf, gcNoBlock]
    split_ifs
    · exact Reaches.refl
    · cases sid with
      | some j => exact .fault (.fallbackFail (c := c) (k := s.core) hx hst (hsid j rfl).1)
      | none => exact Reaches.refl (s := s.halt _)
  | false =>
    cases integ with
    | true => exact .of_path (allocGc_path hB.places hf hx hty hst hpc hsid).1
    | false =>
      rcases allocBlock_cases hB.places hf .gc i with ⟨h1, h2, h3, -⟩ | ⟨z, m₁, h, hp, ha, -⟩
      · have he : allocGc c s g x i sid false = allocGc c s g x i sid true := by
          simp only [allocGc]
          generalize allocBlock c s .gc i = r at h1 h2 h3
          obtain ⟨s₁, ret⟩ := r
          rcases h3 with h3 | h3 <;> simp only at h3 <;> subst h3 <;> rfl
        rw [he]
        exact .of_path (allocGc_path hB.places hf hx hty hst hpc hsid).1
      · -- the block is taken, and nothing releases it: the device stops at `BUG()`
        simp only [allocGc, h, dispatchGc, Bool.false_eq_true, if_false]
        obtain ⟨log, hlog⟩ : ∃ log : DiskLog, log.timestamp = s.timestamp + 1 ∧
            log.blkid = x.blkid := ⟨⟨s.timestamp + 1, 0, x.blkid, 0, .gcWrite⟩, rfl, rfl⟩
        refine .trans hp (.step (.dispatch (c := c) (k := { s.core with zmd := m₁ }) hx hst hpc ha
          (fun h => absurd hty h) hlog) (.stopped rfl (by rintro ⟨⟩)))

/-! ## Gc tasks that are called back -/

/-- `__gc_task_callback` after a write that failed, or on a faulty device. -/
theorem release_reaches (hT : Tasks s.core) (hb : s.bug = none) {g : ℕ} {o : Option ℕ} {x : Task α}
    (hx : s.tasks.get g = some x) (hpc : x.pc = .callback o) (hl : x.link = .iosched)
    (he : ¬ (!s.faulty ∧ x.error = none)) (o' : Option ℕ) :
    (gcTaskCallback c s g o').bug = none ∧
      Path c (fun _ _ => True) s.core ((gcTaskCallback c s g o').log (.bioPut g true)).core := by
  have hs := hT.shape g x hx
  obtain ⟨hty, hst, ⟨z, hz⟩, ⟨v, hv⟩, ⟨log, hi⟩, -⟩ := hs.callback hpc
  have hin : x.InTree := hs.callback_inTree hpc
  have hr : x.refcount - 1 ≠ 0 := by
    have h1 : x.refcount = x.ownRefs + heldRefs s.tasks s.taskPuts g := hT.refs g x hx
    have h2 := TaskInv.heldRefs_nonneg s.tasks s.taskPuts g
    rw [Task.ownRefs, if_pos hin, if_neg (by rw [hpc]; rintro ⟨⟩)] at h1
    omega
  have hmove := Move.release (c := c) (k := s.core) hx hty hpc hl hz hv
  have hget : (s.tasks.modify g fun x => { x with pc := .done, refcount := x.refcount - 1 }).get g =
      some { x with pc := .done, refcount := x.refcount - 1 } := Heap.get_modify_self hx _
  have hput := putGc_path (c := c) (k := { s.core with
    puts := (v, .gc) :: (z, .gc) :: s.puts
    taskTree := s.taskTree.erase g
    tasks := s.tasks.modify g fun x => { x with pc := .done, refcount := x.refcount - 1 }
    taskPuts := g :: s.taskPuts
    gcInflight := s.gcInflight - 1
    hist := .bioPut g true :: .putVictim g :: .freePage g :: .erase g :: .callback g :: s.hist })
    List.mem_cons_self hget hty (by change x.integ ≠ .err; rw [hi]; rintro ⟨⟩)
  rw [gcTaskCallback_release hb hx hl he, gcRelease_written hst hz hv (by exact hx) hr,
    taskPutGc_eq (x := { x with pc := .done, refcount := x.refcount - 1 }) hget
      (by change x.integ ≠ .err; rw [hi]; rintro ⟨⟩)]
  refine ⟨hb, ((Path.one hmove).trans
    (hput.mono fun _ _ _ => trivial)).trans ?_⟩
  rw [List.erase_cons_head]
  exact Runs.refl

theorem gcEnd_reaches (hT : Tasks s.core) (hb : s.bug = none) {g : ℕ} {x : Task α}
    (hx : s.tasks.get g = some x) (hpc : (∃ o, x.pc = .callback o) ∨ x.pc = .skip) :
    Reaches c s.core (gcEnd c s g x) := by
  have hs := hT.shape g x hx
  by_cases hl : x.link = .iosched
  swap
  · -- the union holds the link of a user task
    have hwild : ∀ o, gcTaskCallback c s g o = s.halt .wild := fun o => by
      simp only [gcTaskCallback, hx, if_pos (show x.link ≠ .iosched from hl)]
    have hend : gcEnd c s g x = s.halt .wild := by
      unfold gcEnd
      split <;> rw [hwild] <;> rfl
    rw [hend]
    exact Reaches.refl (s := s.halt _)
  rcases hpc with ⟨o, hpc⟩ | hpc
  · by_cases he : !s.faulty ∧ x.error = none
    · have hf : s.faulty = false := by simpa using he.1
      exact .of_path (gcEnd_path hT hf hb hx (hs.clean_of_callback hpc he.2) (Or.inl ⟨o, hpc⟩)).1
    · cases o with
      | none =>
        obtain ⟨h1, h2⟩ := release_reaches (c := c) hT hb hx hpc hl he none
        simp only [gcEnd, hpc, h1, Option.isSome_none, Bool.false_eq_true, if_false]
        exact .of_path h2
      | some p =>
        obtain ⟨h1, h2⟩ := release_reaches (c := c) hT hb hx hpc hl he (some p)
        simp only [gcEnd, hpc, h1, Option.isSome_none, Bool.false_eq_true, if_false]
        exact .of_path h2
  · have hty : x.type = .gc := by
      by_contra hty
      obtain ⟨hp, -⟩ := hs.user hty
      cases hp <;> simp_all
    have hend : gcEnd c s g x = gcTaskCallback c s g none := by simp only [gcEnd, hpc]
    rw [hend]
    exact .of_path (skipEnd_path hT hb hx hty hpc hl none).1

/-- `lbz_gc_read_endio`, the branch with an error. -/
theorem gcReadFail_reaches (hT : Tasks s.core) (hb : s.bug = none) {g : ℕ} {x : Task α}
    (hx : s.tasks.get g = some x) (hpc : x.pc = .read false) :
    Reaches c s.core (gcReadEndio c s g false) := by
  have hs := hT.shape g x hx
  have hty := hs.read_type hpc
  obtain ⟨⟨v, hp⟩, -⟩ := hs.gc hty
  obtain ⟨hst, hv, hl, hi⟩ : x.status = .gcReading ∧ x.readZone = some v ∧ x.link = .iosched ∧
      x.integ ≠ .err := by cases hp <;> simp_all
  have hmove := Move.gcReadFail (c := c) (k := s.core) hx hpc hv
  have hx' : (s.modTask g fun x => { x with error := some .eio }).tasks.get g =
      some { x with error := some .eio } := Heap.get_modify_self hx _
  have hmm : (s.tasks.modify g fun x => { x with error := some .eio }).modify g
      (fun x => { x with pc := .done }) =
      s.tasks.modify g fun x => { x with error := some .eio, pc := .done } :=
    Heap.modify_modify _ _ _ _
  have hget : (s.tasks.modify g fun x => { x with error := some .eio, pc := .done }).get g =
      some { x with error := some .eio, pc := .done } := Heap.get_modify_self hx _
  have hput := putGc_path (c := c) (k := { s.core with
    puts := (v, .gc) :: s.puts
    tasks := s.tasks.modify g fun x => { x with error := some .eio, pc := .done }
    taskPuts := g :: s.taskPuts
    gcInflight := s.gcInflight - 1
    hist := .bioPut g false :: .putVictim g :: .freePage g :: .callback g :: s.hist })
    List.mem_cons_self hget hty hi
  have hcall : gcTaskCallback c (s.modTask g fun x => { x with error := some .eio }) g none =
      { s with
        puts := (v, .gc) :: s.puts
        tasks := if x.refcount - 1 = 0 then (s.tasks.modify g fun x =>
            { x with error := some .eio, pc := .done }).free g
          else (s.tasks.modify g fun x => { x with error := some .eio, pc := .done }).modify g
            Task.decRef
        gcInflight := s.gcInflight - 1
        hist := .putVictim g :: .freePage g :: .callback g :: s.hist } := by
    have hget' : ((s.tasks.modify g fun x => { x with error := some .eio }).modify g
        fun x => { x with pc := .done }).get g = some { x with error := some .eio, pc := .done } :=
      Heap.get_modify_self hx' _
    rw [gcTaskCallback_error (s := s.modTask g fun x => { x with error := some .eio }) hb hx' hl rfl,
      gcRelease_reading (y := { x with error := some .eio }) hst hv,
      taskPutGc_eq (x := { x with error := some .eio, pc := .done }) (by exact hget') hi, ← hmm]
    rfl
  have hbug : ¬ (gcTaskCallback c (s.modTask g fun x => { x with error := some .eio }) g
      none).bug.isSome = true := by
    rw [hcall]
    change ¬ s.bug.isSome = true
    rw [hb]
    rintro ⟨⟩
  rw [gcReadEndio, if_neg (show ¬ false = true from (by rintro ⟨⟩))]
  simp only [if_neg hbug]
  rw [hcall]
  refine .of_path (((Path.one hmove).trans
    (hput.mono fun _ _ _ => trivial)).trans ?_)
  rw [List.erase_cons_head]
  exact Runs.refl

/-! ## Every event -/

theorem submitWriteTask_reaches (hB : Base c s.core) (hb : s.bug = none) {t : ℕ} {x : Task α}
    (hx : s.tasks.get t = some x) (hty : x.type ≠ .gc)
    (hpc : x.pc = .submit ∨ ∃ j, x.pc = .fallback j) (integ : Bool) :
    Reaches c s.core (submitWriteTask c s t x integ) := by
  obtain ⟨hp, -, -⟩ := (hB.tasks.shape t x hx).user hty
  rcases hpc with hpc | ⟨j, hpc⟩
  · by_cases hst : x.status = .init
    · simp only [submitWriteTask, hpc, if_pos hst]
      exact .of_path (insertWrite_path hx hty hst hpc).1
    · have hst' : x.status = .allocRes := by cases hp <;> simp_all
      simp only [submitWriteTask, hpc, if_neg hst]
      exact allocWrite_reaches hB hb hx hty hst' (Or.inl hpc) (fun _ _ => hpc) integ
  · have hst' : x.status = .allocRes := by cases hp <;> simp_all
    simp only [submitWriteTask, hpc]
    exact allocWrite_reaches hB hb hx hty hst' (Or.inr ⟨j, hpc⟩) (fun _ h => by cases h) integ

theorem submitGcTask_reaches (hB : Base c s.core) {g : ℕ} {x : Task α}
    (hx : s.tasks.get g = some x) (hty : x.type = .gc)
    (hpc : x.pc = .submit ∨ (∃ j, x.pc = .fallback j) ∨ (∃ tk, x.pc = .found tk) ∨
      x.pc = .check) (integ : Bool) : Reaches c s.core (submitGcTask c s g x integ) := by
  obtain ⟨⟨v, hp⟩, -⟩ := (hB.tasks.shape g x hx).gc hty
  rcases hpc with hpc | ⟨j, hpc⟩ | ⟨tk, hpc⟩ | hpc
  · by_cases hst : x.status = .gcReading
    · simp only [submitGcTask, hpc, if_pos hst]
      exact .of_path (insertGc_path hx hty hst hpc hB.tasks).1
    · have hst' : x.status = .allocRes := by cases hp <;> simp_all
      simp only [submitGcTask, hpc, if_neg hst]
      refine allocGc_reaches hB hx hty hst' (Or.inl hpc) (fun j hj => ?_) integ
      split_ifs at hj
      exact ⟨hpc, Option.some.inj hj⟩
  · have hst' : x.status = .allocRes := by cases hp <;> simp_all
    simp only [submitGcTask, hpc]
    exact allocGc_reaches hB hx hty hst' (Or.inr ⟨j, hpc⟩) (fun _ h => by cases h) integ
  · simp only [submitGcTask, hpc]
    exact .of_path (plain (.gcFound (c := c) (k := s.core) hx hty hpc))
  · simp only [submitGcTask, hpc]
    exact .of_path (gcCheck_path hB.tasks hx hty hpc).1

theorem writeEnd_reaches (hT : Tasks s.core) {t : ℕ} {x : Task α} (hx : s.tasks.get t = some x)
    (hty : x.type ≠ .gc) (hpc : (∃ p, x.pc = .written p) ∨ x.pc = .failed) :
    Reaches c s.core (writeIoEndio c s t x) := by
  rcases hpc with hpc | hpc
  · exact .of_path (writeEnd_path hT hx hty hpc).1
  · simp only [writeIoEndio, hpc]
    exact .fault (.writeFail (c := c) (k := s.core) hx hty hpc)

theorem writeUntree_reaches (hB : Base c s.core) (hb : s.bug = none) {t : ℕ} {x : Task α}
    (hx : s.tasks.get t = some x) (hpc : x.pc = .ended) :
    Reaches c s.core (writeUntree c s t x) := by
  obtain ⟨-, -, z, hz⟩ := (hB.tasks.shape t x hx).ended hpc
  have hm : Move c s.core .plain { s.core with
      completes := z :: s.completes
      taskTree := s.taskTree.erase t
      tasks := s.tasks.modify t fun x => { x with pc := .done, refcount := x.refcount - 1 }
      taskPuts := t :: s.taskPuts
      hist := .erase t :: s.hist } := .untree hx hpc hz
  simp only [writeUntree, hz]
  exact .trans (plain hm) (taskPut_reaches (hB.tasks.move hB.queues hm) rfl List.mem_cons_self
    (List.erase_cons_head _ _) hb)

theorem gcWriteEnd_reaches {g : ℕ} {x : Task α}
    (hx : s.tasks.get g = some x) (hty : x.type = .gc)
    (hpc : (∃ p, x.pc = .written p) ∨ x.pc = .failed) :
    Reaches c s.core (gcWriteEndio s g x) := by
  rcases hpc with hpc | hpc
  · exact .of_path (gcWriteEnd_path hx hty hpc).1
  · unfold gcWriteEndio
    split
    · next z hl hz =>
      simp only [hpc]
      exact .fault (.gcWriteFail (c := c) (k := s.core) hx hty hpc hz)
    · exact Reaches.refl (s := s.halt _)

theorem wkStep_reaches (hwk : s.wk ≠ .idle) (ok : Bool) : Reaches c s.core (wkStep c s ok) := by
  by_cases h : ok = false ∧ ∃ i, s.wk = .reset i
  · obtain ⟨rfl, i, hi⟩ := h
    simp only [wkStep, hi, wkReset]
    exact .fault (.wkFail (c := c) (k := s.core) hi)
  · have he : wkStep c s ok = wkStep c s true := by
      cases ok with
      | true => rfl
      | false =>
        unfold wkStep
        split <;> try rfl
        next i hi => exact absurd ⟨rfl, i, hi⟩ h
    rw [he]
    obtain ⟨-, hp | ⟨hb, d, hc⟩⟩ := wkStep_path (c := c) hwk
    · exact .of_path hp
    · refine .stopped (congrArg Core.zmd hc).symm ?_
      rw [hb]
      rintro ⟨⟩

/-- **Every event is a path of moves**, whatever fails, until the device stops. -/
theorem reaches_of_step {e : Event α} (hB : Base c s.core) (hs : step c s e = some s') :
    Reaches c s.core s' := by
  obtain ⟨hT, hQ, hP⟩ : Tasks s.core ∧ Queues s.core ∧ Places c s.core :=
    ⟨hB.tasks, hB.queues, hB.places⟩
  rw [step] at hs
  split_ifs at hs with h
  obtain ⟨hb, hr⟩ := h
  cases hs
  have htask : ∀ {t : ℕ} {f : Task α → Sys α} {x : Task α}, s.tasks.get t = some x →
      onTask s t f = f x := fun hx => by simp only [onTask, hx]
  cases e with
  | submitWrite b d flush more =>
    exact .of_path (plain (.submitWrite (c := c) (k := s.core) b d more
      (classify_ne_gc s.natSit b flush)))
  | runWrite t integ =>
    obtain ⟨x, hx, hty, hpc⟩ := hr
    simp only [after, htask hx]
    refine submitWriteTask_reaches hB hb hx hty ?_ integ
    split at hpc
    · next h => exact Or.inl h
    · next j h => exact Or.inr ⟨j, h⟩
    · cases hpc
  | devAppend t off =>
    obtain ⟨x, hx, ha⟩ := hr
    simp only [after, htask hx]
    exact .of_path (devAppend_path hT hx ha).1
  | devFail t =>
    obtain ⟨x, hx, hpc⟩ := hr
    exact .fault (.devFail (c := c) (k := s.core) hx hpc)
  | writeEnd t =>
    obtain ⟨x, hx, hty, hpc⟩ := hr
    simp only [after, htask hx]
    refine writeEnd_reaches hT hx hty ?_
    split at hpc
    · next p h => exact Or.inl ⟨p, h⟩
    · next h => exact Or.inr h
    · cases hpc
  | writeUntree t =>
    obtain ⟨x, hx, hpc⟩ := hr
    simp only [after, htask hx]
    exact writeUntree_reaches hB hb hx hpc
  | writeComplete z => exact .of_path (plain (.complete (c := c) (k := s.core) hr))
  | putZone z b => exact .of_path (plain (.putZone (c := c) (k := s.core) hr))
  | putTask t =>
    exact taskPut_reaches (k := s.core) (s := { s with taskPuts := s.taskPuts.erase t }) hT rfl hr
      rfl hb
  | submitRead b => exact .of_path (submitRead_path b).1
  | devRead r ok =>
    obtain ⟨x, hx, hsv⟩ := hr
    simp only [after, hx]
    cases ok with
    | true => exact .of_path (plain (.serve (c := c) (k := s.core) hx hsv))
    | false => exact .fault (.serveFail (c := c) (k := s.core) hx hsv)
  | readEnd r =>
    obtain ⟨x, hx, hsv⟩ := hr
    obtain ⟨v, hv⟩ := Option.ne_none_iff_exists'.mp hsv
    simp only [after, hx, hv, Option.join_some]
    exact .of_path (plain (.endRead (c := c) (k := s.core) hx hv))
  | retryWk => exact .of_path (retryWk_path hr).1
  | gcSelect b =>
    obtain ⟨hpc, -, -, -, hbusy⟩ := hr
    exact .of_path (gcSelect_path (b := b) hpc (by simpa using hbusy)).1
  | gcScan =>
    cases hpc : s.gc.pc with
    | idle => exact absurd hpc hr
    | scan z iter pos =>
      simp only [after, hpc]
      exact .of_path (gcScan_path hpc).1
  | gcDevRead g ok =>
    obtain ⟨x, hx, hpc⟩ := hr
    simp only [after, htask hx]
    cases ok with
    | true => exact .of_path (plain (.gcServe (c := c) (k := s.core) hx hpc))
    | false => exact .fault (.gcServeFail (c := c) (k := s.core) hx hpc)
  | gcReadEnd g =>
    obtain ⟨x, hx, hpc⟩ := hr
    simp only [after, htask hx]
    obtain ⟨ok, hpc⟩ : ∃ ok, x.pc = .read ok := by
      split at hpc
      · next ok h => exact ⟨ok, h⟩
      · cases hpc
    cases ok with
    | true =>
      simp only [hpc, decide_true]
      exact .of_path (plain (.gcReadEnd (c := c) (k := s.core) hx hpc))
    | false =>
      have hd : decide (x.pc = .read true) = false := by rw [hpc]; rfl
      rw [hd]
      exact gcReadFail_reaches hT hb hx hpc
  | runGc g integ =>
    obtain ⟨x, hx, hty, hpc⟩ := hr
    simp only [after, htask hx]
    refine submitGcTask_reaches hB hx hty ?_ integ
    split at hpc
    · next h => exact Or.inl h
    · next j h => exact Or.inr (Or.inl ⟨j, h⟩)
    · next tk h => exact Or.inr (Or.inr (Or.inl ⟨tk, h⟩))
    · next h => exact Or.inr (Or.inr (Or.inr h))
    · cases hpc
  | gcWriteEnd g =>
    obtain ⟨x, hx, hty, hpc⟩ := hr
    simp only [after, htask hx]
    refine gcWriteEnd_reaches hx hty ?_
    split at hpc
    · next p h => exact Or.inl ⟨p, h⟩
    · next h => exact Or.inr h
    · cases hpc
  | gcEnd g =>
    obtain ⟨x, hx, hpc⟩ := hr
    simp only [after, htask hx]
    refine gcEnd_reaches hT hb hx ?_
    split at hpc
    · next o h => exact Or.inl ⟨o, h⟩
    · next h => exact Or.inr h
    · cases hpc
  | wkStart => exact .of_path (plain (.wkStart (c := c) (k := s.core) hr.1))
  | wkStep ok => exact wkStep_reaches hr ok
  | txComplete =>
    exact .of_path (foldl_freeBlkid_path (c := c) s.natSit.toFree s fun _ h => h).1
  | addRule a =>
    simp only [after, installRule]
    split_ifs
    · exact Reaches.refl (s := s.halt _)
    · exact Reaches.refl (s := { s with natSit := _ })
  | setReady b => exact Reaches.refl (s := { s with ready := b })

/-! ## Runs -/

/-- What the invariants are about satisfies `I`; where the device has stopped, `I` speaks of one
with the same zones. -/
def Kept (c : Conf) (I : Core α → Prop) (s : Sys α) : Prop :=
  ∃ k, (Base c k ∧ I k) ∧ k.zmd = s.zmd ∧ (s.bug = none → k = s.core)

theorem Kept.step {I : Core α → Prop} (hN : 0 < c.zoneNrBlocks)
    (hI : ∀ k l k', Base c k → I k → Move c k l k' → I k') {e : Event α}
    (hs : step c s e = some s') (a : Kept c I s) : Kept c I s' := by
  obtain ⟨k, hk, -, hc⟩ := a
  have hb : s.bug = none := by
    rw [Lbz.step] at hs
    split_ifs at hs with h
    exact h.1
  cases hc hb
  obtain ⟨k', hp, hz, hc'⟩ := reaches_of_step hk.1 hs
  refine ⟨k', ?_, hz, hc'⟩
  exact Runs.inv (I := fun k => Base c k ∧ I k)
    (fun k l k' h _ hm => ⟨h.1.move hN hm, hI k l k' h.1 h.2 hm⟩) hp hk

/-- **A run keeps what every move keeps**, whatever fails in it. -/
theorem Kept.run {I : Core α → Prop} (hN : 0 < c.zoneNrBlocks)
    (hI : ∀ k l k', Base c k → I k → Move c k l k' → I k') {ok : Sys α → Event α → Prop}
    (hrun : Runs (stepRel (Lbz.step c)) ok s s') (a : Kept c I s) : Kept c I s' :=
  Runs.inv (I := Kept c I) (fun _ _ _ a _ hs => Kept.step hN hI hs a) hrun a

end

end Lbz
