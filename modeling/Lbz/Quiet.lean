import Lbz.Step

/-!
# What most steps do not touch

* `Steady R`: the relation `R` between states does not see what happens outside `nat_sit_mgmt`, the
  device and the writes that are submitted, end or have their append issued;
* `Steady.taskPut`, `Steady.gcEnd`, ...: so `R` holds across the functions that do none of that, proved
  once for every such relation;
* **`Steady.after`**: and across every event but the few that do.
-/

namespace Lbz

variable {α : Type}

/-- A write is submitted or ends to its user. -/
def Obs.turns : Obs α → Bool
  | .submitW _ _ _ _ | .endW _ _ => true
  | _ => false

theorem mem_turns {hist : List (Obs α)} {o : Obs α} (ho : o.turns = true) :
    o ∈ hist ↔ o ∈ hist.filter Obs.turns := by
  rw [List.mem_filter, and_iff_left ho]

/-- The append of a task is at the device, or done. -/
def TaskPc.appends : TaskPc → Bool
  | .device | .written _ => true
  | _ => false

/-- If `y` has its append to zone `z` at the device or done, then so has `x`, with the same blocks. -/
def Task.Lands (x y : Task α) : Prop :=
  ∀ z, y.pc.appends = true → y.zone = some z →
    x.pc = y.pc ∧ x.zone = some z ∧ x.data = y.data ∧ x.more = y.more

/-- `f` changes nothing of the append of a task. -/
def SameAppend (f : Task α → Task α) : Prop :=
  ∀ x, (f x).pc = x.pc ∧ (f x).zone = x.zone ∧ (f x).data = x.data ∧ (f x).more = x.more

theorem SameAppend.lands {f : Task α → Task α} (hf : SameAppend f) (x : Task α) :
    Task.Lands x (f x) := fun _ _ hz => by
  obtain ⟨h1, h2, h3, h4⟩ := hf x
  exact ⟨h1.symm, h2.symm.trans hz, h3.symm, h4.symm⟩

/-- A task whose append is neither at the device nor done. -/
theorem Task.lands_of_away {x y : Task α} (hy : y.pc.appends = false) : Task.Lands x y :=
  fun _ h _ => by
    rw [hy] at h
    cases h

/-- What `R` sees is left alone by a step that submits and ends no write, issues no append, and touches
neither `nat_sit_mgmt` nor the device. -/
structure Steady (R : Sys α → Sys α → Prop) : Prop where
  refl : ∀ s, R s s
  trans : ∀ {s u s'}, R s u → R u s' → R s s'
  rest : ∀ {s s' : Sys α}, s'.natSit = s.natSit → s'.phys = s.phys → s'.tasks = s.tasks →
    s'.hist.filter Obs.turns = s.hist.filter Obs.turns → R s s'
  modTask : ∀ {s : Sys α} (t : ℕ) {f : Task α → Task α}, (∀ x, Task.Lands x (f x)) →
    R s (s.modTask t f)
  free : ∀ {s : Sys α} (t : ℕ), R s { s with tasks := s.tasks.free t }
  alloc : ∀ {s : Sys α} {x : Task α}, x.pc.appends = false → R s { s with tasks := s.tasks.alloc x }

namespace Steady

variable {R : Sys α → Sys α → Prop} {s s' s'' : Sys α} {c : Conf}

theorem ite {Q : Prop} [Decidable Q] (h : R s s') (h' : R s s'') : R s (if Q then s' else s'') := by
  split_ifs
  · exact h
  · exact h'

/-- `trans`, read from the end. -/
theorem comp (H : Steady R) (h' : R s' s'') (h : R s s') : R s s'' := H.trans h h'

theorem after_rest (H : Steady R) (h : R s' s'') (h1 : s'.natSit = s.natSit)
    (h2 : s'.phys = s.phys) (h3 : s'.tasks = s.tasks)
    (h4 : s'.hist.filter Obs.turns = s.hist.filter Obs.turns) : R s s'' :=
  H.trans (H.rest h1 h2 h3 h4) h

theorem then_rest {u : Sys α} (H : Steady R) (h : R s u) (h1 : s'.natSit = u.natSit)
    (h2 : s'.phys = u.phys) (h3 : s'.tasks = u.tasks)
    (h4 : s'.hist.filter Obs.turns = u.hist.filter Obs.turns) : R s s' :=
  H.trans h (H.rest h1 h2 h3 h4)

theorem halt (H : Steady R) (b : Bug) : R s (s.halt b) := H.rest rfl rfl rfl rfl

theorem log (H : Steady R) (o : Obs α) (ho : o.turns = false) : R s (s.log o) :=
  H.rest rfl rfl rfl (List.filter_cons_of_neg (by rw [ho]; nofun))

/-- A gc task whose record cannot be made. -/
theorem dispatchGc_fail (H : Steady R) (g : ℕ) (x : Task α) (z : ℕ) :
    R s (dispatchGc c s g x z false) := by
  rw [dispatchGc, if_neg Bool.false_ne_true]
  have hfault : R s { s with faulty := true } := H.rest rfl rfl rfl rfl
  exact H.trans hfault (H.trans (H.log _ rfl) (H.trans (H.log _ rfl) (H.halt _)))

/-- The task stays where it is. -/
theorem same (H : Steady R) (t : ℕ) {f : Task α → Task α} (hf : SameAppend f) :
    R s (s.modTask t f) := H.modTask t hf.lands

/-- The append of the task is neither at the device nor done afterwards. -/
theorem away (H : Steady R) (t : ℕ) {f : Task α → Task α} (hf : ∀ x, (f x).pc.appends = false) :
    R s (s.modTask t f) := H.modTask t fun x => Task.lands_of_away (hf x)

/-! ## Tasks -/

theorem taskDestroy (H : Steady R) (t : ℕ) (x : Task α) : R s (taskDestroy s t x) :=
  ite (H.halt _) (H.free t)

theorem taskPutGc (H : Steady R) (t : ℕ) : R s (taskPutGc s t) := by
  unfold Lbz.taskPutGc
  split
  · exact H.halt _
  · exact ite (H.taskDestroy ..) (H.same t fun _ => ⟨rfl, rfl, rfl, rfl⟩)

theorem putLater (H : Steady R) (z : Option ℕ) : R s (putLater s z) := by
  unfold Lbz.putLater
  split
  · exact H.rest rfl rfl rfl rfl
  · exact H.halt _

theorem gcRemap (H : Steady R) (x : Task α) (pbid : Option ℕ) : R s (gcRemap c s x pbid) := by
  unfold Lbz.gcRemap
  split
  · simp only
    split_ifs <;> exact H.rest rfl rfl rfl rfl
  · exact H.halt _

theorem gcRelease (H : Steady R) (g : ℕ) (x : Task α) : R s (gcRelease s g x) := by
  refine H.trans ?_ (H.taskPutGc g)
  refine H.trans ?_ (H.away g fun _ => rfl)
  refine H.comp (H.log _ rfl) (H.comp (H.putLater _) (H.comp (H.log _ rfl) ?_))
  refine H.comp (ite ?_ (H.refl _)) (ite (H.putLater _) (H.refl _))
  exact H.comp (H.taskPutGc g) (H.rest rfl rfl rfl rfl)

theorem gcTaskCallback (H : Steady R) (g : ℕ) (pbid : Option ℕ) :
    R s (gcTaskCallback c s g pbid) := by
  unfold Lbz.gcTaskCallback
  split
  · exact H.halt _
  · rename_i x _
    refine ite (H.halt _) ?_
    have h : R s (if !s.faulty ∧ x.error = none then Lbz.gcRemap c s x pbid else s) :=
      ite (H.gcRemap x pbid) (H.refl _)
    refine ite h (H.trans h ?_)
    refine H.then_rest (H.trans ?_ (H.gcRelease g x)) rfl rfl rfl rfl
    exact H.rest rfl rfl rfl rfl

theorem taskPut (H : Steady R) (t : ℕ) : R s (taskPut c s t) := by
  unfold Lbz.taskPut
  split
  · exact H.halt _
  · rename_i x _
    refine ite ?_ (H.same t fun _ => ⟨rfl, rfl, rfl, rfl⟩)
    unfold taskFinal
    split
    · rename_i g _
      refine ite (H.taskDestroy ..) ?_
      have h : R s (Lbz.gcTaskCallback c
          (if x.error.isSome then s.modTask g fun y => { y with error := x.error } else s) g none) :=
        H.comp (H.gcTaskCallback g none) (ite (H.same g fun _ => ⟨rfl, rfl, rfl, rfl⟩) (H.refl _))
      exact ite h (H.trans h (H.taskDestroy ..))
    · exact H.taskDestroy ..

theorem allocBlock (H : Steady R) (flag : AllocFlag) (i : Fin 2) : R s (allocBlock c s flag i).1 := by
  unfold Lbz.allocBlock
  simp only
  split_ifs <;> exact H.rest rfl rfl rfl rfl

/-! ## Writes -/

theorem addTaskToRetry (H : Steady R) (t : ℕ) : R s (addTaskToRetry s t) := by
  refine H.then_rest (u := s.modTask t fun x => { x with pc := .pending }) ?_ rfl rfl rfl rfl
  exact H.away t fun _ => rfl

/-- A node enters the task tree. -/
theorem linkTask (H : Steady R) (t : ℕ) : R s (linkTask s t) := by
  refine H.then_rest (u := taskGet { s with taskTree := t :: s.taskTree } t) ?_ rfl rfl rfl rfl
  refine H.comp (H.same t fun _ => ⟨rfl, rfl, rfl, rfl⟩) ?_
  exact H.rest rfl rfl rfl rfl

theorem insertWrite (H : Steady R) (t : ℕ) (x : Task α) : R s (insertWrite s t x) := by
  unfold Lbz.insertWrite
  split
  · rename_i tk _
    refine H.comp (H.addTaskToRetry t) (H.then_rest (u := taskGet s tk) ?_ rfl rfl rfl rfl)
    exact H.same tk fun _ => ⟨rfl, rfl, rfl, rfl⟩
  · exact H.comp (H.same t fun _ => ⟨rfl, rfl, rfl, rfl⟩) (H.linkTask t)

theorem writeUntree (H : Steady R) (t : ℕ) (x : Task α) : R s (writeUntree c s t x) := by
  unfold Lbz.writeUntree
  split
  · exact H.halt _
  · refine H.comp (H.taskPut t) (H.comp (H.away t fun _ => rfl) ?_)
    exact H.rest rfl rfl rfl rfl

/-! ## Reads -/

theorem submitReadIo (H : Steady R) (b : ℕ) : R s (submitReadIo c s b) := by
  unfold Lbz.submitReadIo
  split <;> exact H.rest rfl rfl rfl rfl

/-! ## Gc tasks -/

theorem gcReadEndio (H : Steady R) (g : ℕ) (ok : Bool) : R s (gcReadEndio c s g ok) := by
  refine ite (H.then_rest (u := s.modTask g fun x => { x with pc := .pending, readZone := none })
    (H.away g fun _ => rfl) rfl rfl rfl rfl) ?_
  have h : R s (Lbz.gcTaskCallback c (s.modTask g fun x => { x with error := some .eio }) g none) :=
    H.comp (H.gcTaskCallback g none) (H.same g fun _ => ⟨rfl, rfl, rfl, rfl⟩)
  exact ite h (H.then_rest h rfl rfl rfl rfl)

theorem insertGc (H : Steady R) (g : ℕ) (x : Task α) : R s (insertGc s g x) := by
  unfold Lbz.insertGc
  simp only
  refine H.trans (u := s.modTask g fun x => { x with readZone := x.zone, zone := none }) ?_ ?_
  · exact H.modTask g fun x z _ hz => nomatch hz
  · split
    · rename_i tk _
      exact H.comp (H.away g fun _ => rfl) (H.same tk fun _ => ⟨rfl, rfl, rfl, rfl⟩)
    · exact H.comp (H.away g fun _ => rfl) (H.linkTask g)

theorem gcSkip (H : Steady R) (g : ℕ) : R s (gcSkip s g) :=
  H.comp (H.away g fun _ => rfl) (H.comp (H.taskPutGc g) (H.rest rfl rfl rfl rfl))

theorem gcCheck (H : Steady R) (g : ℕ) (x : Task α) : R s (gcCheck c s g x) := by
  unfold Lbz.gcCheck
  split
  · exact H.gcSkip g
  · exact H.comp (ite (H.gcSkip g) (H.away g fun _ => rfl)) (H.rest rfl rfl rfl rfl)

theorem gcFound (H : Steady R) (g tk : ℕ) : R s (gcFound s g tk) := by
  refine H.then_rest (u := (s.modTask g fun x =>
    { x with error := some .enoent, pc := .waiting tk }).modTask tk fun y =>
      { y with link := .node g }) ?_ rfl rfl rfl rfl
  exact H.comp (H.same tk fun _ => ⟨rfl, rfl, rfl, rfl⟩) (H.away g fun _ => rfl)

/-- `__submit_gc_task`, where `R` holds across an allocation. -/
theorem submitGcTask (H : Steady R) {g : ℕ} {x : Task α} {integ : Bool}
    (halloc : ∀ i sid, R s (allocGc c s g x i sid integ)) : R s (submitGcTask c s g x integ) := by
  unfold Lbz.submitGcTask
  split
  · exact H.gcFound ..
  · exact H.gcCheck g x
  · exact halloc ..
  · exact ite (H.insertGc g x) (halloc ..)

theorem gcWriteEndio (H : Steady R) (g : ℕ) (x : Task α) : R s (gcWriteEndio s g x) := by
  unfold Lbz.gcWriteEndio
  split
  · simp only
    split <;> exact H.comp (H.away g fun _ => rfl) (H.rest rfl rfl rfl rfl)
  · exact H.halt _

theorem gcEnd (H : Steady R) (g : ℕ) (x : Task α) : R s (gcEnd c s g x) := by
  unfold Lbz.gcEnd
  split
  · exact ite (H.gcTaskCallback g none) (H.then_rest (H.gcTaskCallback g none) rfl rfl rfl rfl)
  · exact ite (H.gcTaskCallback g _) (H.then_rest (H.gcTaskCallback g _) rfl rfl rfl rfl)
  · exact H.gcTaskCallback g none

/-! ## Workers -/

theorem retryWkFn (H : Steady R) : R s (retryWkFn s) := by
  unfold Lbz.retryWkFn
  split
  · exact ite (H.refl _) (H.rest rfl rfl rfl rfl)
  · exact H.rest rfl rfl rfl rfl
  · rename_i t todo _
    refine H.then_rest (u := s.modTask t fun x => { x with pc := .submit }) ?_ rfl rfl rfl rfl
    exact H.away t fun _ => rfl
  · exact H.rest rfl rfl rfl rfl
  · rename_i t todo _
    refine H.then_rest (u := s.modTask t fun x => { x with pc := .submit }) ?_ rfl rfl rfl rfl
    exact H.away t fun _ => rfl

theorem gcSelect (H : Steady R) (b : Bool) : R s (gcSelect c s b) := by
  unfold Lbz.gcSelect
  split
  · exact H.refl _
  · exact H.rest rfl rfl rfl rfl

theorem gcScan [Inhabited α] (H : Steady R) (z iter : ℕ) (pos : Option ℕ) :
    R s (gcScan c s z iter pos) := by
  unfold Lbz.gcScan
  refine ite ?_ (H.rest rfl rfl rfl rfl)
  cases pos with
  | none => exact H.rest rfl rfl rfl rfl
  | some b =>
    refine H.then_rest (u := submitGcToIosched s z (c.startBlk z + iter) b) ?_ rfl rfl rfl rfl
    refine H.then_rest (H.alloc (x := Task.forGc z (c.startBlk z + iter) b) rfl) rfl rfl rfl rfl

/-- The worker does not touch the device but in a reset. -/
theorem wkStep (H : Steady R) (hr : ∀ i, s.wk ≠ .reset i) (ok : Bool) : R s (wkStep c s ok) := by
  unfold Lbz.wkStep
  split
  · exact H.refl _
  · unfold wkVisit
    split_ifs <;> exact H.rest rfl rfl rfl rfl
  · exact H.rest rfl rfl rfl rfl
  · exact H.rest rfl rfl rfl rfl
  · unfold wkGcTest
    split_ifs <;> exact H.rest rfl rfl rfl rfl
  · rename_i i h
    exact absurd h (hr i)
  · exact H.rest rfl rfl rfl rfl

theorem onTask (H : Steady R) (t : ℕ) {f : Task α → Sys α}
    (h : ∀ x, s.tasks.get t = some x → R s (f x)) : R s (onTask s t f) := by
  unfold Lbz.onTask
  split
  · rename_i x hx
    exact h x hx
  · exact H.halt _

/-- **What an event leaves alone**, if it is none of those of a write, of `__submit_gc_task`, of
`nat_sit_mgmt`, of the device and of a reset. -/
theorem after [Inhabited α] {e : Event α} (H : Steady R)
    (hsub : ∀ b d flush more, e ≠ .submitWrite b d flush more)
    (hrun : ∀ t integ, e ≠ .runWrite t integ)
    (hgc : ∀ g integ, e ≠ .runGc g integ) (happ : ∀ t off, e ≠ .devAppend t off)
    (hend : ∀ t, e ≠ .writeEnd t) (htx : e ≠ .txComplete) (hrule : ∀ a, e ≠ .addRule a)
    (hr : ∀ ok, e = .wkStep ok → ∀ i, s.wk ≠ .reset i) : R s (after c s e) := by
  cases e with
  | submitWrite b d flush more => exact absurd rfl (hsub b d flush more)
  | runWrite t integ => exact absurd rfl (hrun t integ)
  | runGc g integ => exact absurd rfl (hgc g integ)
  | devAppend t off => exact absurd rfl (happ t off)
  | writeEnd t => exact absurd rfl (hend t)
  | txComplete => exact absurd rfl htx
  | addRule a => exact absurd rfl (hrule a)
  | writeComplete | putZone | wkStart | setReady => exact H.rest rfl rfl rfl rfl
  | devFail t => exact H.away t fun _ => rfl
  | writeUntree t => exact H.onTask t fun x _ => H.writeUntree ..
  | putTask t => exact H.after_rest (H.taskPut t) rfl rfl rfl rfl
  | submitRead b => exact H.submitReadIo b
  | devRead r ok =>
    simp only [Lbz.after]
    split
    · exact H.rest rfl rfl rfl rfl
    · exact H.refl _
  | readEnd r =>
    simp only [Lbz.after]
    split
    · exact H.rest rfl rfl rfl rfl
    · exact H.refl _
  | retryWk => exact H.retryWkFn
  | gcSelect b => exact H.gcSelect b
  | gcScan =>
    simp only [Lbz.after]
    split
    · exact H.gcScan ..
    · exact H.refl _
  | gcDevRead g ok => exact H.onTask g fun x _ => H.away g fun _ => rfl
  | gcReadEnd g => exact H.onTask g fun x _ => H.gcReadEndio ..
  | gcWriteEnd g => exact H.onTask g fun x _ => H.gcWriteEndio ..
  | gcEnd g => exact H.onTask g fun x _ => H.gcEnd ..
  | wkStep ok => exact H.wkStep (hr ok rfl) ok

end Steady

end Lbz
