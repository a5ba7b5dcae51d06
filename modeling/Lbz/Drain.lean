import Lbz.Lib.Variant
import Lbz.Work
import Lbz.WritePointer

/-!
# The driver comes to rest

* `Event.drains s e`: event `e` in state `s` brings nothing new: no bio, no victim, no round of the
  retry worker and no pass of the zone-state worker begins with it; **`work_after`**: it does some
  of the work that is left;
* `Resting s`: nothing is at the device, no call is to be made, no code runs; what is left are tasks
  in the queues, and gc tasks that wait for a write there;
* **`drain_ends`**: the device drains in a bounded number of steps, whatever it has been doing, and
  is then at rest, if every bio has had one block.
-/

namespace Lbz

variable {α : Type} {c : Conf} {s : Sys α} {t : ℕ} {x : Task α}

/-- The event brings nothing new. -/
def Event.drains (s : Sys α) : Event α → Bool
  | .submitWrite _ _ _ _ | .submitRead _ | .gcSelect _ | .wkStart | .txComplete | .addRule _
  | .setReady _ => false
  | .retryWk => decide (s.retry ≠ .idle)
  | _ => true

theorem Event.drains.not_submit {e : Event α} (he : e.drains s) (b : ℕ) (d : α) (flush : Bool)
    (more : List α) : e ≠ .submitWrite b d flush more := by
  rintro rfl
  cases he

/-! ## Events -/

theorem onTask_of_get {f : Task α → Sys α} (hx : s.tasks.get t = some x) : onTask s t f = f x := by
  simp only [onTask, hx]

/-- **Every draining event does some of the work**, or stops the device. -/
theorem work_after [Inhabited α] {e : Event α} {s' : Sys α} (T : Tasks s.core)
    (hroom : ∀ z iter pos, s.gc.pc = .scan z iter pos →
      (s.zmd.zones z).wpBlock ≤ c.zoneNrBlocks) (he : e.drains s) (hs : step c s e = some s') :
    s'.bug.isSome ∨ s'.work c < s.work c := by
  rw [step] at hs
  split_ifs at hs with h
  obtain ⟨-, hr⟩ := h
  cases hs
  cases e with
  | submitWrite | submitRead | gcSelect | wkStart | txComplete | addRule | setReady => cases he
  | runWrite t integ =>
    obtain ⟨x, hx, hty, hpc⟩ := hr
    simp only [after, onTask_of_get hx]
    refine work_submitWriteTask (T.linkedAt t) hx hty ?_ integ
    split at hpc
    · next h => exact Or.inl h
    · next j h => exact Or.inr ⟨j, h⟩
    · cases hpc
  | devAppend t off =>
    obtain ⟨x, hx, hpc, -⟩ := hr
    have hw : x.work = 5 := Task.work_of_pc hpc
    simp only [after, onTask_of_get hx]
    unfold devAppend
    split
    · right
      refine (work_modTask_of_get (s := { s with phys := _ }) hx _).trans_lt ?_
      change s.work c - x.work + 4 < _
      omega
    · exact Or.inl rfl
  | devFail t =>
    obtain ⟨x, hx, hpc⟩ := hr
    have hw : x.work = 5 := Task.work_of_pc hpc
    refine Or.inr ((work_modTask_of_get hx _).trans_lt ?_)
    change s.work c - x.work + 4 < _
    omega
  | writeEnd t =>
    obtain ⟨x, hx, -, hpc⟩ := hr
    have hw : x.work = 4 := by
      split at hpc
      · next h => exact Task.work_of_pc h
      · next h => exact Task.work_of_pc h
      · cases hpc
    simp only [after, onTask_of_get hx]
    rw [work_writeIoEndio hx]
    exact Or.inr (by omega)
  | writeUntree t =>
    obtain ⟨x, hx, hpc⟩ := hr
    simp only [after, onTask_of_get hx]
    exact work_writeUntree (T.linkedAt t) hx hpc
  | writeComplete z =>
    have hz := length_erase_int (show z ∈ s.completes from hr)
    right
    simp only [after, writeComplete, Sys.work, Sys.load, List.length_cons]
    push_cast
    omega
  | putZone z b =>
    have hz := length_erase_int (show (z, b) ∈ s.puts from hr)
    right
    simp only [after, callPutZone, Sys.work, Sys.load]
    omega
  | putTask t =>
    have ht := length_erase_int (show t ∈ s.taskPuts from hr)
    have h := work_taskPut_le (c := c) (s := { s with taskPuts := s.taskPuts.erase t })
      (T.linkedAt t)
    refine h.imp_right fun h => h.trans_lt ?_
    simp only [Sys.work, Sys.load]
    omega
  | devRead r ok =>
    obtain ⟨x, hx, hsv⟩ := hr
    simp only [after, hx]
    have hsum : (readServe s r x ok).reads.sum ReadHook.work =
        s.reads.sum ReadHook.work - 3 + 2 := by
      refine (Heap.sum_modify hx _ _).trans ?_
      rw [show x.work = 3 from if_pos hsv]
      rfl
    right
    simp only [Sys.work, Sys.load, hsum]
    simp only [readServe]
    omega
  | readEnd r =>
    obtain ⟨x, hx, hsv⟩ := hr
    right
    simp only [after, hx]
    have hsum := Heap.sum_free hx ReadHook.work
    have hold : x.work = 2 := if_neg hsv
    simp only [readIoEndio, Sys.work, Sys.load, Sys.log, List.length_cons]
    rw [hsum, hold]
    push_cast
    omega
  | retryWk => exact Or.inr (work_retryWkFn (of_decide_eq_true he))
  | gcScan =>
    cases hpc : s.gc.pc with
    | idle => exact absurd hpc hr
    | scan z iter pos =>
      simp only [after, hpc]
      exact Or.inr (work_gcScan hpc (hroom z iter pos hpc))
  | gcDevRead g ok =>
    obtain ⟨x, hx, hpc⟩ := hr
    have hw : x.work = 23 := Task.work_of_pc hpc
    simp only [after, onTask_of_get hx]
    refine Or.inr ((work_modTask_of_get hx _).trans_lt ?_)
    change s.work c - x.work + 22 < _
    omega
  | gcReadEnd g =>
    obtain ⟨x, hx, hpc⟩ := hr
    simp only [after, onTask_of_get hx]
    refine work_gcReadEndio hx ?_ _
    split at hpc
    · next b h => exact ⟨b, h⟩
    · cases hpc
  | runGc g integ =>
    obtain ⟨x, hx, -, hpc⟩ := hr
    simp only [after, onTask_of_get hx]
    refine work_submitGcTask hx ?_ integ
    split at hpc
    · next h => exact Or.inl h
    · next j h => exact Or.inr (Or.inl ⟨j, h⟩)
    · next tk h => exact Or.inr (Or.inr (Or.inl ⟨tk, h⟩))
    · next h => exact Or.inr (Or.inr (Or.inr h))
    · cases hpc
  | gcWriteEnd g =>
    obtain ⟨x, hx, -, hpc⟩ := hr
    simp only [after, onTask_of_get hx]
    refine work_gcWriteEndio hx ?_
    split at hpc
    · next p h => exact Or.inl ⟨p, h⟩
    · next h => exact Or.inr h
    · cases hpc
  | gcEnd g =>
    obtain ⟨x, hx, hpc⟩ := hr
    simp only [after, onTask_of_get hx]
    refine work_gcEnd hx ?_
    split at hpc
    · next o h => exact Or.inl ⟨o, h⟩
    · next h => exact Or.inr h
    · cases hpc
  | wkStep ok => exact work_wkStep hr ok

/-! ## At rest -/

/-- Nothing is at the device, no call is to be made, and no code runs. -/
structure Resting (s : Sys α) : Prop where
  tasks : s.tasks.All fun _ x => x.pc.rests = true
  reads : s.reads.All fun _ _ => False
  retry : s.retry = .idle
  calls : s.completes = [] ∧ s.puts = [] ∧ s.taskPuts = []
  scan : s.gc.pc = .idle
  wk : s.wk = .idle

theorem TaskPc.running_eq_false {p : TaskPc} (h : p.rests = true) : p.running = false := by
  cases p <;> first | rfl | cases h

/-- A task at work can go on. -/
theorem exists_taskEvent (T : Tasks s.core)
    (happend : ∀ t x, s.tasks.get t = some x → x.pc = .device → ∃ off, CanAppend c s off x)
    (hx : s.tasks.get t = some x) (hno : x.pc.rests = false) :
    ∃ e : Event α, e.drains s ∧ e.NoError ∧ Ready c s e := by
  have gc : x.type = .gc ∨ x.type ≠ .gc := em _
  have only : (x.pc = .check ∨ ∃ tk, x.pc = .found tk) → x.type = .gc := fun h => by
    by_contra hty
    obtain ⟨hp, -⟩ := (T.shape t x hx).user hty
    rcases h with h | ⟨tk, h⟩ <;> cases hp <;> simp_all
  cases hpc : x.pc with
  | pending | waiting tk | done =>
    rw [hpc] at hno
    cases hno
  | reading => exact ⟨.gcDevRead t true, rfl, rfl, x, hx, hpc⟩
  | read b => exact ⟨.gcReadEnd t, rfl, trivial, x, hx, by simp [hpc]⟩
  | submit =>
    rcases gc with hty | hty
    · exact ⟨.runGc t true, rfl, rfl, x, hx, hty, by rw [hpc]⟩
    · exact ⟨.runWrite t true, rfl, rfl, x, hx, hty, by rw [hpc]⟩
  | fallback j =>
    rcases gc with hty | hty
    · exact ⟨.runGc t true, rfl, rfl, x, hx, hty, by rw [hpc]⟩
    · exact ⟨.runWrite t true, rfl, rfl, x, hx, hty, by rw [hpc]⟩
  | found tk => exact ⟨.runGc t true, rfl, rfl, x, hx, only (Or.inr ⟨tk, hpc⟩), by rw [hpc]⟩
  | check => exact ⟨.runGc t true, rfl, rfl, x, hx, only (Or.inl hpc), by rw [hpc]⟩
  | device =>
    obtain ⟨off, h⟩ := happend t x hx hpc
    exact ⟨.devAppend t off, rfl, trivial, x, hx, h⟩
  | written p =>
    rcases gc with hty | hty
    · exact ⟨.gcWriteEnd t, rfl, trivial, x, hx, hty, by rw [hpc]⟩
    · exact ⟨.writeEnd t, rfl, trivial, x, hx, hty, by rw [hpc]⟩
  | failed =>
    rcases gc with hty | hty
    · exact ⟨.gcWriteEnd t, rfl, trivial, x, hx, hty, by rw [hpc]⟩
    · exact ⟨.writeEnd t, rfl, trivial, x, hx, hty, by rw [hpc]⟩
  | ended => exact ⟨.writeUntree t, rfl, trivial, x, hx, hpc⟩
  | callback o => exact ⟨.gcEnd t, rfl, trivial, x, hx, by simp [hpc]⟩
  | skip => exact ⟨.gcEnd t, rfl, trivial, x, hx, by simp [hpc]⟩

/-- **A device that is not at rest can go on**, without an error. -/
theorem exists_event (T : Tasks s.core)
    (happend : ∀ t x, s.tasks.get t = some x → x.pc = .device → ∃ off, CanAppend c s off x)
    (hno : ¬ Resting s) : ∃ e : Event α, e.drains s ∧ e.NoError ∧ Ready c s e := by
  by_contra hev
  have htasks : s.tasks.All fun _ x => x.pc.rests = true := fun t x hx => by
    by_contra h
    exact hev (exists_taskEvent T happend hx (Bool.eq_false_of_not_eq_true h))
  refine hno ⟨htasks, fun r x hx => hev ?_, ?_, ⟨?_, ?_, ?_⟩, ?_, ?_⟩
  · by_cases hsv : x.served = none
    · exact ⟨.devRead r true, rfl, rfl, x, hx, hsv⟩
    · exact ⟨.readEnd r, rfl, trivial, x, hx, hsv⟩
  · by_contra hr
    refine hev ⟨.retryWk, decide_eq_true hr, trivial, ?_⟩
    -- the task that the worker took last is at rest
    change retryReturned s
    unfold retryReturned
    split
    · trivial
    · rintro ⟨x, hx, hrun⟩
      have hrun : x.pc.running = true := hrun
      rw [TaskPc.running_eq_false (htasks _ x hx)] at hrun
      cases hrun
  · by_contra h
    obtain ⟨z, hz⟩ := List.exists_mem_of_ne_nil _ h
    exact hev ⟨.writeComplete z, rfl, trivial, hz⟩
  · by_contra h
    obtain ⟨⟨z, b⟩, hz⟩ := List.exists_mem_of_ne_nil _ h
    exact hev ⟨.putZone z b, rfl, trivial, hz⟩
  · by_contra h
    obtain ⟨t, ht⟩ := List.exists_mem_of_ne_nil _ h
    exact hev ⟨.putTask t, rfl, trivial, ht⟩
  · by_contra h
    exact hev ⟨.gcScan, rfl, trivial, h⟩
  · by_contra h
    exact hev ⟨.wkStep true, rfl, rfl, h⟩

/-! ## Runs -/

/-- What draining rests on. -/
structure DrainInv (c : Conf) (k : Core α) : Prop where
  pointers : PointerInv c k
  scan : ∀ z iter pos, k.gcPc = .scan z iter pos → z < c.nrZones

theorem DrainInv.move [Inhabited α] {k k' : Core α} {l : Label} (geo : Geom c) (B : Base c k)
    (a : DrainInv c k) (hm : Move c k l k') : DrainInv c k' := by
  refine ⟨a.pointers.move geo B hm, ?_⟩
  have hscan := a.scan
  cases hm with
  | @select v mod hpc hbusy hz =>
    intro z iter pos h
    cases h
    obtain ⟨pl, P⟩ := B.places
    exact lt_of_place P (by rw [(P.full v).mp (victim_mem hz)]; rintro ⟨⟩)
  | scanFree hpc | scanBlock hpc =>
    intro z iter pos h
    cases h
    exact hscan _ _ _ hpc
  | scanEnd =>
    intro z iter pos h
    cases h
  | _ => exact hscan

variable {o : Options} {report : List BlkZone} {s₀ : Sys α} [Inhabited α]

theorem drain_run {ok : Sys α → Event α → Prop} (he : EmptyReport o report)
    (h0 : initSys o report = some s₀) (hrun : Runs (stepRel (step (confOf o report))) ok s₀ s)
    (hb : s.bug = none) : Base (confOf o report) s.core ∧ DrainInv (confOf o report) s.core := by
  have geo := geom_of_empty he (initSys_eq h0).1
  have hstart : DrainInv (confOf o report) s₀.core := by
    refine ⟨(pointers_start he h0).1, ?_⟩
    obtain ⟨-, m, -, rfl⟩ := initSys_eq h0
    intro z iter pos h
    cases h
  obtain ⟨k, h, -, hk⟩ := Kept.run (I := DrainInv (confOf o report)) geo.pos
    (fun _ _ _ B a hm => a.move geo B hm) hrun ⟨_, ⟨base_of_empty he h0, hstart⟩, rfl, fun _ => rfl⟩
  cases hk hb
  exact h

/-- The work is a variant of the draining events, which submit no write; `one` says of the state
before them that every bio has one block. -/
theorem work_variant (he : EmptyReport o report) (h0 : initSys o report = some s₀) (one : Prop) :
    Variant (step (confOf o report)) (fun s e => e.drains s)
      (fun s => Runs (stepRel (step (confOf o report))) (fun _ _ => True) s₀ s ∧
        (one → OneBlocks s.hist)) (fun s => s.bug.isSome)
      fun s => (s.work (confOf o report)).toNat where
  keep s e s' h hd hs := by
    obtain ⟨B, -⟩ := drain_run he h0 h.1 (bug_of_step hs)
    exact ⟨h.1.tail trivial hs, fun ho => (h.2 ho).step B hs (Event.drains.not_submit hd)⟩
  less s e s' h hd hs := by
    obtain ⟨B, a⟩ := drain_run he h0 h.1 (bug_of_step hs)
    refine (work_after B.tasks (fun z iter pos h => ?_) hd hs).imp_right fun h => ?_
    · exact a.pointers.room z (a.scan z iter pos h)
    · have h' := s'.work_nonneg (confOf o report)
      omega
  stop s e hb := by
    rw [step, if_neg]
    rintro ⟨h, -⟩
    rw [h] at hb
    cases hb

end Lbz
