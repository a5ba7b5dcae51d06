import Lbz.Stranded

/-!
# Writes that fail

* `WriteFails c s t integ`: `__submit_write_task` returns an error other than `-EAGAIN`;
* `Released s s' t x`: from `s` to `s'` the failed write `t` has given back everything, once;
* `Marred t k`: the task `t` has an error pointer as `integrity_buf`, which every move keeps;
* **`write_released_iff`**: a failed write is released, at once, exactly if it is the allocation that
  has failed.
-/

namespace Lbz

variable {α : Type}

/-- `__submit_write_task` gets `-EIO` from its last allocation, or no record from
`__add_integrity`. -/
def WriteFails (c : Conf) (s : Sys α) (t : ℕ) (integ : Bool) : Prop :=
  s.tasks.At t fun x => x.type ≠ .gc ∧ x.status = .allocRes ∧
    (x.pc = .submit ∨ ∃ j, x.pc = .fallback j) ∧
    if s.faulty then x.LastTry c
    else integ = false ∧ (x.link = .null → c.reservedBlksGc ≤ u32 s.zmd.nrAllocableBlks) ∧
      StreamHasBlock c s.zmd (x.stream c s)

instance (c : Conf) (s : Sys α) (t : ℕ) (integ : Bool) : Decidable (WriteFails c s t integ) := by
  unfold WriteFails
  infer_instance

/-- What a failed write has given back, from `s` to `s'`. -/
structure Released [DecidableEq α] (s s' : Sys α) (t : ℕ) (x : Task α) : Prop where
  bug : s'.bug = none
  ended : s'.hist.count (.endW t false) = 1 ∧ .endW t true ∉ s'.hist
  tree : t ∉ s'.taskTree ∧ s'.hist.count (.insert t) = 1 ∧ s'.hist.count (.erase t) = 1
  /-- it is destroyed, or will be when others put the references they have on it -/
  destroyed : ∀ y, s'.tasks.get t = some y →
    y.pc = .done ∧ y.integ ≠ .err ∧ y.refcount = heldRefs s'.tasks s'.taskPuts t
  writes : s'.userWriteInflight = s.userWriteInflight - 1
  natSit : s'.natSit.inflightWrites =
    s.natSit.inflightWrites - if x.type = .userWrite then 0 else 1
  zones : ∀ z, (s'.zmd.zones z).refcount = (s.zmd.zones z).refcount ∧
    (s'.zmd.zones z).pendingWriteIo = (s.zmd.zones z).pendingWriteIo

/-! ## Which calls fail -/

section

variable {c : Conf} {s s' : Sys α} {t : ℕ} {x : Task α} {i : Fin 2}

/-- An allocation that is let through. -/
theorem zoneAllocRes_admitted {m : Zmd} {mod : AllocFlag}
    (h : mod = .user → c.reservedBlksGc ≤ u32 m.nrAllocableBlks) :
    zoneAllocRes c false m mod i = zoneAllocRes c false m .gc i := by
  simp only [zoneAllocRes, Bool.false_eq_true, if_false]
  rw [if_neg fun ⟨h1, h2⟩ => absurd (h h1) (by omega), if_neg fun h => nomatch h.1]

theorem allocBlock_ok {mod : AllocFlag} {z : ℕ}
    (hz : (zoneAllocRes c s.faulty s.zmd mod i).2 = .ok z) :
    allocBlock c s mod i = ({ s with zmd := (zoneAllocRes c s.faulty s.zmd mod i).1 }, .ok z) := by
  simp only [allocBlock]
  rw [hz, if_neg fun h => by cases h.1]

/-- What one call of `lbz_zone_alloc_res` returns on a device that is not faulty. -/
theorem zoneAllocRes_snd (m : Zmd) (mod : AllocFlag) (i : Fin 2) :
    ((mod = .user → c.reservedBlksGc ≤ u32 m.nrAllocableBlks) ∧ StreamHasBlock c m i ∧
      ∃ z, (zoneAllocRes c false m mod i).2 = .ok z) ∨
    (zoneAllocRes c false m mod i).2 = .reserved ∨ (zoneAllocRes c false m mod i).2 = .noZone := by
  by_cases h : mod = .user ∧ u32 m.nrAllocableBlks < c.reservedBlksGc
  · refine Or.inr (Or.inl ?_)
    rw [zoneAllocRes, if_neg (show ¬ false = true from (by rintro ⟨⟩)), if_pos h]
  · have hadm : mod = .user → c.reservedBlksGc ≤ u32 m.nrAllocableBlks := fun hm => by
      by_contra hlt
      exact h ⟨hm, not_le.mp hlt⟩
    rw [zoneAllocRes_admitted hadm]
    rcases zoneAllocRes_gc (c := c) m i with h | h
    · exact Or.inl ⟨hadm, h⟩
    · exact Or.inr (Or.inr h.2)

/-- The call of `__submit_write_task` goes on, waits, or has issued its append. -/
def TaskPc.onward : TaskPc → Bool
  | .submit | .fallback _ | .pending | .device => true
  | _ => false

theorem allocWrite_cases (hb : s.bug = none) (hx : s.tasks.get t = some x) (sid : Option (Fin 2))
    (integ : Bool) :
    (if s.faulty then sid = none else integ = false ∧
      (x.link = .null → c.reservedBlksGc ≤ u32 s.zmd.nrAllocableBlks) ∧ StreamHasBlock c s.zmd i) ∨
    (allocWrite c s t x i sid integ).bug ≠ none ∨
      (allocWrite c s t x i sid integ).tasks.At t fun y => y.pc.onward = true := by
  have hat : ∀ (f : Task α → Task α), (f x).pc.onward = true →
      (s.tasks.modify t f).At t fun y => y.pc.onward = true :=
    fun f hf => ⟨f x, Heap.get_modify_self hx f, hf⟩
  cases hf : s.faulty with
  | true =>
    rw [if_pos rfl]
    cases sid with
    | none => exact Or.inl rfl
    | some j =>
      refine Or.inr (Or.inr ?_)
      simp only [allocWrite, allocBlock_faulty hf, writeNoBlock, hb, Option.isSome_none,
        Bool.false_eq_true, if_false]
      exact hat _ rfl
  | false =>
    rw [if_neg (by rintro ⟨⟩)]
    have hret := allocBlock_snd (c := c) (s := s) (if x.link = .null then .user else .gc) i
    have htasks : (allocBlock c s (if x.link = .null then .user else .gc) i).1.tasks = s.tasks := by
      simp only [allocBlock]
      split_ifs <;> rfl
    rw [hf] at hret
    rcases zoneAllocRes_snd (c := c) s.zmd (if x.link = .null then .user else .gc) i with
      ⟨hadm, hs, z, hz⟩ | hz
    · cases integ with
      | false => exact Or.inl ⟨rfl, fun h => hadm (if_pos h), hs⟩
      | true =>
        refine Or.inr (Or.inr ?_)
        rw [← hf] at hz
        simp only [allocWrite, allocBlock_ok hz]
        obtain ⟨log, -, hd, -⟩ := dispatchWrite_core (c := c) (s := ({ s with zmd :=
          (zoneAllocRes c s.faulty s.zmd (if x.link = .null then .user else .gc) i).1 } : Sys α).log
            (.alloc t (if x.link = .null then .user else .gc))) t z x
        have h := congrArg Core.tasks hd
        rw [show (Sys.core _).tasks = Sys.tasks _ from rfl] at h
        rw [h]
        exact hat _ rfl
    · refine Or.inr ?_
      simp only [allocWrite]
      generalize allocBlock c s (if x.link = .null then .user else .gc) i = r at hret htasks
      obtain ⟨s₁, ret⟩ := r
      simp only at hret htasks
      have hat₁ : ∀ (f : Task α → Task α), (f x).pc.onward = true →
          (s₁.tasks.modify t f).At t fun y => y.pc.onward = true := htasks ▸ hat
      have hno : ret ≠ .eio → ((writeNoBlock c s₁ t x sid ret).bug ≠ none ∨
          (writeNoBlock c s₁ t x sid ret).tasks.At t fun y => y.pc.onward = true) := by
        intro hne
        unfold writeNoBlock
        by_cases hb₁ : s₁.bug.isSome = true
        · rw [if_pos hb₁]
          exact Or.inl (Option.isSome_iff_ne_none.mp hb₁)
        · rw [if_neg hb₁]
          right
          cases sid with
          | some j => exact hat₁ _ rfl
          | none =>
            simp only [writeAllocFailed, if_pos hne]
            exact hat₁ _ rfl
      rcases hz with hz | hz <;> rw [hz] at hret <;> subst hret <;> exact hno (by rintro ⟨⟩)

/-- A call of `__submit_write_task` fails, or it goes on, waits, or has issued its append. -/
theorem submitWriteTask_cases (hb : s.bug = none) (hs : x.Shape) (hx : s.tasks.get t = some x)
    (hty : x.type ≠ .gc) (hpc : x.pc = .submit ∨ ∃ j, x.pc = .fallback j) (integ : Bool) :
    WriteFails c s t integ ∨ (submitWriteTask c s t x integ).bug ≠ none ∨
      (submitWriteTask c s t x integ).tasks.At t fun y => y.pc.onward = true := by
  obtain ⟨hp, -, -⟩ := hs.user hty
  have hfails : x.status = .allocRes → ∀ i (sid : Option (Fin 2)), x.stream c s = i → (sid = none → x.LastTry c) →
      (if s.faulty then sid = none else integ = false ∧
        (x.link = .null → c.reservedBlksGc ≤ u32 s.zmd.nrAllocableBlks) ∧
        StreamHasBlock c s.zmd i) → WriteFails c s t integ := by
    intro hst i sid hi hl h
    refine ⟨x, hx, hty, hst, hpc, ?_⟩
    rw [hi]
    split_ifs at h ⊢
    · exact hl h
    · exact h
  rcases hpc with hpc | ⟨j, hpc⟩
  · by_cases hst : x.status = .init
    · right
      right
      simp only [submitWriteTask, hpc, if_pos hst, insertWrite]
      cases hk : searchTree s x.blkid with
      | some tk =>
        obtain ⟨y, hy⟩ : ∃ y, (s.tasks.modify tk Task.incRef).get t = some y := by
          rw [Heap.get_modify]
          split_ifs with e
          · exact ⟨x.incRef, by rw [hx]; rfl⟩
          · exact ⟨x, hx⟩
        exact ⟨_, Heap.get_modify_self hy _, rfl⟩
      | none =>
        refine ⟨_, Heap.get_modify_self (Heap.get_modify_self hx _) _, ?_⟩
        change x.pc.onward = true
        rw [hpc]
        rfl
    · have hst' : x.status = .allocRes := by cases hp <;> simp_all
      simp only [submitWriteTask, hpc, if_neg hst]
      refine (allocWrite_cases hb hx _ integ).imp_left (hfails hst' _ _ ?_ ?_)
      · simp only [Task.stream, hpc]
      · intro h
        simp only [Task.LastTry, hpc]
        cases hfb : hasFallback c <;> simp_all
  · have hst' : x.status = .allocRes := by cases hp <;> simp_all
    simp only [submitWriteTask, hpc]
    refine (allocWrite_cases hb hx _ integ).imp_left (hfails hst' _ _ ?_ ?_)
    · simp only [Task.stream, hpc]
    · intro _
      simp only [Task.LastTry, hpc]

/-- What `task_put` of a user task leaves alone. -/
structure PutLeaves (s s' : Sys α) (t : ℕ) (x : Task α) : Prop where
  bug : s'.bug = none
  zmd : s'.zmd = s.zmd
  tree : s'.taskTree = s.taskTree
  natSit : s'.natSit = s.natSit
  writes : s'.userWriteInflight = s.userWriteInflight
  story : story t s'.hist = story t s.hist
  task : ∀ y, s'.tasks.get t = some y → y = x.decRef

theorem taskPut_leaves (hb : s.bug = none) (hx : s.tasks.get t = some x) (hty : x.type ≠ .gc)
    (he : x.error = none) (hi : x.integ ≠ .err) (hio : x.link ≠ .iosched)
    (hl : ∀ g, x.link = .node g → ∃ y v, s.tasks.get g = some y ∧ y.Shape ∧ y.type = .gc ∧
      y.pc = .waiting t ∧ y.readZone = some v ∧ y.refcount = 1) :
    PutLeaves s (taskPut c s t) t x := by
  by_cases hr : x.refcount - 1 = 0
  swap
  · have hput : taskPut c s t = s.modTask t Task.decRef := by
      simp only [taskPut, hx, if_neg hr]
      rfl
    rw [hput]
    refine ⟨hb, rfl, rfl, rfl, rfl, rfl, fun y hy => ?_⟩
    exact (Option.some.inj ((Heap.get_modify_self hx _).symm.trans hy)).symm
  have hput : taskPut c s t = taskFinal c s t x := by simp only [taskPut, hx, if_pos hr]
  have hfree : ∀ h : Heap (Task α), ∀ y, (h.free t).get t = some y → y = x.decRef := fun h y hy => by
    rw [Heap.get_free, if_pos rfl] at hy
    cases hy
  rw [hput]
  cases hlink : x.link with
  | null =>
    rw [taskFinal_eq (fun g h => by rw [hlink] at h; cases h), taskDestroy_eq hi]
    exact ⟨hb, rfl, rfl, rfl, rfl, rfl, hfree _⟩
  | iosched => exact absurd hlink hio
  | node g =>
    obtain ⟨y, v, hy, hs, hgc, hpc, hv, hone⟩ := hl g hlink
    have hgt : g ≠ t := by
      rintro rfl
      cases hx.symm.trans hy
      exact hty hgc
    have hcall := gcTaskCallback_waiting (c := c) hb hy hs hgc hpc hv hone none
    simp only [taskFinal, hlink, if_neg hty, he, Option.isSome_none, Bool.false_eq_true, if_false,
      hcall, hb]
    rw [taskDestroy_eq hi]
    refine ⟨rfl, rfl, rfl, rfl, rfl, ?_, hfree _⟩
    have h : story t [Obs.putVictim g, .freePage g, .callback g] = ([] : List (Obs α)) :=
      story_other (by simp [Obs.task, hgt])
    exact (story_append t [Obs.putVictim g, .freePage g, .callback g] s.hist).trans (by rw [h]; rfl)

theorem Task.ownRefs_done (hpc : x.pc = .done) : x.ownRefs = 0 := by
  have hout : ¬ x.InTree := by
    unfold Task.InTree
    split_ifs <;> simp [hpc]
  rw [Task.ownRefs, if_neg hout, if_pos hpc, zero_add]

/-- `lbz_zone_alloc_res` has returned `-EIO`: the write is taken off the tree and ended. -/
theorem writeAllocFailed_released [DecidableEq α] (hB : Base c s.core) (S : Stories s.core)
    (hb : s.bug = none) (hx : s.tasks.get t = some x) (hty : x.type ≠ .gc)
    (hst : x.status = .allocRes) (hpc : x.pc = .submit ∨ ∃ j, x.pc = .fallback j)
    (hB' : (writeAllocFailed c s t x .eio).bug = none →
      Base c (writeAllocFailed c s t x .eio).core) :
    Released s (writeAllocFailed c s t x .eio) t x := by
  have T := hB.tasks
  obtain ⟨-, hi, -⟩ := (T.shape t x hx).own hst
  obtain ⟨-, he, hio⟩ := (T.shape t x hx).user hty
  have hnd : x.pc ≠ .done := by rcases hpc with hpc | ⟨j, hpc⟩ <;> rw [hpc] <;> rintro ⟨⟩
  have hin : t ∈ s.taskTree := (T.mem_tree hx).mpr (by
    rw [Task.InTree, if_neg hty, hst]
    exact ⟨by rintro ⟨⟩, hnd⟩)
  have htold : story t s.hist = [.insert t, .submitW t x.blkid x.data x.more] := by
    have h : userTold t x.blkid x.data x.more x.status x.pc (story t s.hist) :=
      (Task.told_user hty).mp (S.live t x hx)
    simpa only [userTold, hst, if_neg hnd] using h
  -- the state before the last `task_put`
  let s₁ : Sys α := { s with
    gc := { s.gc with emergency := true }
    taskTree := s.taskTree.erase t
    tasks := s.tasks.modify t fun x => { x with refcount := x.refcount - 1, pc := .done }
    hist := .endW t false :: .erase t :: s.hist
    natSit := if x.type = .userWrite then s.natSit else s.natSit.completeWrite
    userWriteInflight := s.userWriteInflight - 1 }
  have hfail : writeAllocFailed c s t x .eio = taskPut c s₁ t := by
    simp only [writeAllocFailed, ne_eq, not_true_eq_false, if_false]
    rfl
  have hx₁ : s₁.tasks.get t = some { x with refcount := x.refcount - 1, pc := .done } :=
    Heap.get_modify_self hx _
  have hput := taskPut_leaves (c := c) (s := s₁) hb hx₁ hty he (by change x.integ ≠ .err; rw [hi]; rintro ⟨⟩)
    hio fun g hg => by
      obtain ⟨y, hy, hgc, hwait, -⟩ := T.link t x hx hty g hg
      have hgt : g ≠ t := by
        rintro rfl
        cases hx.symm.trans hy
        exact hty hgc
      obtain ⟨⟨v, hp⟩, -⟩ := (T.shape g y hy).gc hgc
      obtain ⟨hst', -, hv, -, -⟩ := hp.waiting hwait
      have hfresh : y.Fresh := by
        rw [Task.Fresh, if_pos hgc, hwait]
        exact ⟨hst', by rintro ⟨⟩, by rintro ⟨⟩, by rintro ⟨⟩⟩
      exact ⟨y, v, by rw [Heap.get_modify_ne hgt]; exact hy, T.shape g y hy, hgc, hwait, hv,
        T.fresh g y hy hfresh⟩
  rw [← hfail] at hput
  have hstory : story t (writeAllocFailed c s t x .eio).hist =
      [.endW t false, .erase t, .insert t, .submitW t x.blkid x.data x.more] := by
    rw [hput.story, ← htold]
    exact (story_append t [.endW t false, .erase t] s.hist).trans (by rw [story_self (by simp [Obs.task])]; rfl)
  refine ⟨hput.bug, ⟨?_, fun h => ?_⟩, ⟨?_, ?_, ?_⟩, fun y hy => ?_, hput.writes, ?_, fun z => ?_⟩
  · rw [← count_story (t := t) rfl, hstory]
    simp
  · have hm : .endW t true ∈ story t (writeAllocFailed c s t x .eio).hist :=
      List.mem_filter.mpr ⟨h, decide_eq_true rfl⟩
    rw [hstory] at hm
    simp at hm
  · rw [hput.tree]
    exact T.nodup.not_mem_erase
  · rw [← count_story (t := t) rfl, hstory]
    simp
  · rw [← count_story (t := t) rfl, hstory]
    simp
  · have href := (hB' hput.bug).tasks.refs t y hy
    cases hput.task y hy
    refine ⟨rfl, by change x.integ ≠ .err; rw [hi]; rintro ⟨⟩, ?_⟩
    rw [Task.ownRefs_done rfl, zero_add] at href
    exact href
  · rw [hput.natSit]
    change (if x.type = .userWrite then s.natSit else s.natSit.completeWrite).inflightWrites = _
    split_ifs
    · omega
    · rfl
  · rw [hput.zmd]
    exact ⟨rfl, rfl⟩

end

/-! ## Tasks with an error pointer -/

/-- `integrity_buf` of the task `t` is an error pointer. -/
def Marred (t : ℕ) (k : Core α) : Prop := k.tasks.At t fun x => x.integ = .err

section

variable {c : Conf} {t : ℕ}

/-- No block of the faulty device: the write is refused. -/
theorem submitWriteTask_eio {s : Sys α} {x : Task α} (hb : s.bug = none) (hf : s.faulty = true)
    (hst : x.status = .allocRes) (hpc : x.pc = .submit ∨ ∃ j, x.pc = .fallback j)
    (hl : x.LastTry c) (integ : Bool) :
    submitWriteTask c s t x integ = writeAllocFailed c s t x .eio := by
  have halloc : ∀ i, allocWrite c s t x i none integ = writeAllocFailed c s t x .eio := fun i => by
    simp only [allocWrite, allocBlock_faulty hf, writeNoBlock, hb, Option.isSome_none,
      Bool.false_eq_true, if_false]
  rcases hpc with hpc | ⟨j, hpc⟩
  · have hfb : hasFallback c = false := by simpa only [Task.LastTry, hpc] using hl
    simp only [submitWriteTask, hpc, hst, hfb, reduceCtorEq, Bool.false_eq_true, if_false, halloc]
  · simp only [submitWriteTask, hpc, halloc]

/-- A block, and no record: the write keeps the error pointer. -/
theorem submitWriteTask_marred {s : Sys α} {x : Task α} (hb : s.bug = none) (hf : s.faulty = false)
    (hx : s.tasks.get t = some x) (hst : x.status = .allocRes)
    (hpc : x.pc = .submit ∨ ∃ j, x.pc = .fallback j)
    (hres : x.link = .null → c.reservedBlksGc ≤ u32 s.zmd.nrAllocableBlks)
    (hs : StreamHasBlock c s.zmd (x.stream c s)) :
    (submitWriteTask c s t x false).bug = none ∧ Marred t (submitWriteTask c s t x false).core := by
  have halloc : ∀ i sid, StreamHasBlock c s.zmd i → (allocWrite c s t x i sid false).bug = none ∧
      Marred t (allocWrite c s t x i sid false).core := by
    intro i sid hi
    obtain ⟨z, hz⟩ : ∃ z, (zoneAllocRes c s.faulty s.zmd (if x.link = .null then .user else .gc) i).2 =
        .ok z := by
      rw [hf, zoneAllocRes_admitted fun h => hres (by by_contra hn; rw [if_neg hn] at h; cases h)]
      rcases zoneAllocRes_gc (c := c) s.zmd i with h | h
      · exact h.2
      · exact absurd hi h.1
    simp only [allocWrite, allocBlock_ok hz, dispatchWrite, Bool.false_eq_true, if_false]
    refine ⟨?_, _, Heap.get_modify_self (x := x) ?_ _, rfl⟩
    all_goals split_ifs <;> first | exact hb | exact hx
  rcases hpc with hpc | ⟨j, hpc⟩
  · have hne : ¬ x.status = .init := by rw [hst]; rintro ⟨⟩
    simp only [Task.stream, hpc] at hs
    simp only [submitWriteTask, hpc, if_neg hne]
    exact halloc _ _ hs
  · simp only [Task.stream, hpc] at hs
    simp only [submitWriteTask, hpc]
    exact halloc _ _ hs

variable [Inhabited α] {k k' : Core α} {l : Label}

/-- No move frees such a task: `task_destroy` would free the error pointer. -/
theorem Marred.move (T : Tasks k) (a : Marred t k) (hm : Move c k l k') : Marred t k' := by
  have hne : ∀ {i x}, k.tasks.get i = some x → x.integ ≠ .err → t ≠ i := by
    rintro i x hx hi rfl
    obtain ⟨y, hy, he⟩ := a
    cases hx.symm.trans hy
    exact hi he
  cases hm with
  | openZone | complete | putZone | readMiss | readHit | serve | endRead | select | scanFree
  | scanEnd | peek | wkStart | wkIdle | wkNext | wkFull | wkSticky | wkFree | wkClose | wkLink
  | wkEmpty | wkCarried | wkReset | wkPublish | discard | serveFail | wkFail | retryUsers | retryGcs
  | retryDone => exact a
  | submitWrite | scanBlock => exact Heap.At.alloc a _
  | @dispatch i z j x log hx hst =>
    refine Heap.At.modify a fun y hy he => ?_
    cases hx.symm.trans hy
    have := ((T.shape i x hx).own hst).2.1
    rw [he] at this
    cases this
  | dispatchFail => exact Heap.At.modify a fun _ _ _ => rfl
  | destroy ht hx hr hl hi => exact Heap.At.free a (hne hx hi)
  | @destroyCall i g v x y ht hx hr hty hl hy hgc hpc hv hi =>
    have hg : y.integ ≠ .err := fun h => (T.shape g y hy).user_of_err h hgc
    exact Heap.At.free (Heap.At.free a (hne hy hg)) (hne hx hi)
  | conflict | gcFind | gcFound =>
    exact Heap.At.modify (Heap.At.modify a fun _ _ he => he) fun _ _ he => he
  | _ => exact Heap.At.modify a fun _ _ he => he

/-- **A failed write is released exactly if its allocation has failed**; where it is
`__add_integrity` that has failed, it never is. -/
theorem write_released_iff [DecidableEq α] {o : Options} {report : List BlkZone} {cap : ℕ}
    {s₀ s s₁ : Sys α} {x : Task α} {integ : Bool} (hu : OneCapacity report cap)
    (h0 : initSys o report = some s₀)
    (hrun : Runs (stepRel (step (confOf o report))) (fun _ _ => True) s₀ s)
    (hx : s.tasks.get t = some x) (hf : WriteFails (confOf o report) s t integ)
    (hs : step (confOf o report) s (.runWrite t integ) = some s₁) :
    (Released s s₁ t x ↔ s.faulty = true) ∧
      (s.faulty = false → ∀ s', Runs (stepRel (step (confOf o report))) (fun _ _ => True) s₁ s' →
        ¬ Released s s' t x) := by
  obtain ⟨hN, hB₀⟩ := base_of_capacity hu h0
  obtain ⟨y, hy, hty, hst, hpc, hf⟩ := hf
  cases hx.symm.trans hy
  have hb : s.bug = none ∧ s₁ = submitWriteTask (confOf o report) s t x integ := by
    rw [step] at hs
    split_ifs at hs with h
    refine ⟨h.1, ?_⟩
    rw [← Option.some.inj hs]
    simp only [after, onTask, hx]
  obtain ⟨hb, he⟩ := hb
  obtain ⟨hB, hS, -, -⟩ := base_waiting hu h0 hrun hb
  have hrun₁ := hrun.tail trivial hs
  have hbase : s₁.bug = none → Base (confOf o report) s₁.core := fun hb₁ =>
    (base_waiting hu h0 hrun₁ hb₁).1
  cases hfy : s.faulty with
  | true =>
    rw [hfy, if_pos rfl] at hf
    rw [submitWriteTask_eio hb hfy hst hpc hf] at he
    rw [he] at hbase ⊢
    exact ⟨iff_of_true (writeAllocFailed_released hB hS hb hx hty hst hpc hbase) rfl, by rintro ⟨⟩⟩
  | false =>
    rw [hfy, if_neg (by rintro ⟨⟩)] at hf
    obtain ⟨rfl, hres, hblock⟩ := hf
    have hm := submitWriteTask_marred hb hfy hx hst hpc hres hblock
    rw [← he] at hm
    have hkept : Kept (confOf o report) (Marred t) s₁ :=
      ⟨_, ⟨hbase hm.1, hm.2⟩, rfl, fun _ => rfl⟩
    have hnot : ∀ s', Runs (stepRel (step (confOf o report))) (fun _ _ => True) s₁ s' →
        ¬ Released s s' t x := fun s' hrun' hr => by
      obtain ⟨k, ⟨-, z, hz, hi⟩, -, hk⟩ := Kept.run hN (fun k l k' B a hm => a.move B.tasks hm) hrun' hkept
      cases hk hr.bug
      exact (hr.destroyed z hz).2.1 hi
    exact ⟨iff_of_false (hnot s₁ Runs.refl) (by rintro ⟨⟩), fun _ => hnot⟩

end

/-! ## Two runs -/

/-- The device is faulty when a write of block 1 has tried both streams. -/
theorem write_released_faulty : ∃ s s₁ : Sys ℕ, ∃ x, s.faulty = true ∧ Released s s₁ 1 x := by
  have hu : OneCapacity (emptyReport 3 16 16) 16 := ⟨by decide, by decide⟩
  obtain ⟨s, hrun, h⟩ := exists_run (step strandConf) (fun _ _ => True)
    (fun s => s.faulty && decide (WriteFails strandConf s 1 true) &&
      (step strandConf s (.runWrite 1 true)).isSome) strandStart
    (failWrite ++ [.submitWrite 1 9 false, .runWrite 1 true, .runWrite 1 true]) (by decide +kernel)
  rw [Bool.and_eq_true, Bool.and_eq_true] at h
  obtain ⟨s₁, hs⟩ := Option.isSome_iff_exists.mp h.2
  have hf := of_decide_eq_true h.1.2
  obtain ⟨x, hx, -⟩ := id hf
  exact ⟨s, s₁, x, h.1.1,
    (write_released_iff hu (Option.some_get _).symm hrun hx hf hs).1.mpr h.1.1⟩

/-- `__add_integrity` fails, and `task_destroy` frees the error pointer. -/
theorem write_frees_error : ¬ ∀ (o : Options) (report : List BlkZone) (s₀ s s₁ s' : Sys ℕ) (t : ℕ)
    (integ : Bool), EmptyReport o report → initSys o report = some s₀ →
    Runs (stepRel (step (confOf o report))) (fun _ _ => True) s₀ s →
    WriteFails (confOf o report) s t integ →
    step (confOf o report) s (.runWrite t integ) = some s₁ →
    Runs (stepRel (step (confOf o report))) (fun _ _ => True) s₁ s' → s'.bug ≠ some .wild := by
  intro h
  obtain ⟨s, hrun, h1⟩ := exists_run (step strandConf) (fun _ _ => True)
    (fun s => decide (WriteFails strandConf s 0 false) &&
      (step strandConf s (.runWrite 0 false)).any fun s₁ =>
        (exec (step strandConf) (fun _ _ => True) s₁ [.writeEnd 0, .writeUntree 0]).any
          fun s' : Sys ℕ => decide (s'.bug = some .wild))
    strandStart [.submitWrite 0 7 false, .runWrite 0 true] (by decide +kernel)
  rw [Bool.and_eq_true] at h1
  obtain ⟨s₁, h2, h3⟩ := (Option.any_eq_true _ _).mp h1.2
  obtain ⟨s', h4, h5⟩ := (Option.any_eq_true _ _).mp h3
  have he : EmptyReport ⟨true, true, true, 16, 8⟩ (emptyReport 3 16 16) :=
    emptyReport_ok _ 3 16 (by decide) (by decide) (by decide)
  exact h _ _ strandStart s s₁ s' 0 false he (Option.some_get _).symm hrun (of_decide_eq_true h1.1) h2
    (runs_of_exec h4) (of_decide_eq_true h5)

end Lbz
