import Lbz.Geometry
import Lbz.Landing
import Lbz.WriteFails
import Mathlib.Data.Finset.Card
import Mathlib.Order.Interval.Finset.Nat

/-!
# What a step does to the appends

* `AppendsFrom h h'`: no append is issued and none lands from the tasks `h` to the tasks `h'`;
* `Event.Issues`: the event gives a task a block and issues its append;
* `Calm`, `Issued`, `Landed`, `Ended`, `Wiped`, `Submitted`: what a step can do to the device and to
  the appends; **`step_device`**: every step does one of these things.
-/

namespace Lbz

variable {α : Type}

/-- The appends that are at the device or done in `h'` have been so in `h`, with the same blocks. -/
def AppendsFrom (h h' : Heap (Task α)) : Prop :=
  ∀ t y, h'.get t = some y → ∀ z, y.pc.appends = true → y.zone = some z →
    ∃ x, h.get t = some x ∧ x.pc = y.pc ∧ x.zone = some z ∧ x.data = y.data ∧
      x.more = y.more

namespace AppendsFrom

variable {h h' h'' : Heap (Task α)}

theorem refl (h : Heap (Task α)) : AppendsFrom h h :=
  fun _ y hy _ _ hz => ⟨y, hy, rfl, hz, rfl, rfl⟩

theorem trans (a : AppendsFrom h h') (b : AppendsFrom h' h'') : AppendsFrom h h'' :=
  fun t y hy z hpc hz => by
    obtain ⟨x, hx, h1, h2, h3, h4⟩ := b t y hy z hpc hz
    obtain ⟨w, hw, h1', h2', h3', h4'⟩ := a t x hx z (h1 ▸ hpc) h2
    exact ⟨w, hw, h1'.trans h1, h2', h3'.trans h3, h4'.trans h4⟩

theorem modify (t : ℕ) {f : Task α → Task α} (hf : ∀ x, Task.Lands x (f x)) :
    AppendsFrom h (h.modify t f) := fun i y hy z hpc hz => by
  rw [Heap.get_modify] at hy
  split_ifs at hy
  · obtain ⟨x, hx, rfl⟩ := Option.map_eq_some_iff.mp hy
    exact ⟨x, hx, hf x z hpc hz⟩
  · exact ⟨y, hy, rfl, hz, rfl, rfl⟩

theorem free (t : ℕ) : AppendsFrom h (h.free t) := fun i y hy z _ hz => by
  rw [Heap.get_free] at hy
  split_ifs at hy
  exact ⟨y, hy, rfl, hz, rfl, rfl⟩

theorem alloc {x : Task α} (hx : x.pc.appends = false) : AppendsFrom h (h.alloc x) :=
  fun i y hy z hpc hz => by
    rw [Heap.get_alloc] at hy
    split_ifs at hy
    · cases hy
      rw [hx] at hpc
      cases hpc
    · exact ⟨y, hy, rfl, hz, rfl, rfl⟩

end AppendsFrom

/-! ## What a step can do -/

/-- A write is submitted, or ends with success. -/
def Obs.tells : Obs α → Bool
  | .submitW _ _ _ _ | .endW _ true => true
  | _ => false

/-- No write is submitted or ends with success from `s` to `s'`. -/
def NoNews (s s' : Sys α) : Prop := ∀ o, o.tells = true → o ∈ s'.hist → o ∈ s.hist

theorem Obs.turns_of_tells {o : Obs α} (h : o.tells = true) : o.turns = true := by
  unfold Obs.tells at h
  split at h
  · rfl
  · rfl
  · cases h

theorem NoNews.of_turns {s s' : Sys α} (h : s'.hist.filter Obs.turns = s.hist.filter Obs.turns) :
    NoNews s s' := fun o ho hm => by
  rw [mem_turns (Obs.turns_of_tells ho)] at hm ⊢
  rwa [← h]

theorem NoNews.trans {s s' s'' : Sys α} (h : NoNews s s') (h' : NoNews s' s'') : NoNews s s'' :=
  fun o ho hm => h o ho (h' o ho hm)

theorem NoNews.cons {s s' : Sys α} {o : Obs α} (h : s'.hist = o :: s.hist) (ho : o.tells = false) :
    NoNews s s' := fun o' ho' hm => by
  rw [h, List.mem_cons] at hm
  refine hm.resolve_left fun e => ?_
  rw [e, ho] at ho'
  cases ho'

/-- The device is the same, and no append is issued or lands. -/
structure Calm (s s' : Sys α) : Prop where
  phys : s'.phys = s.phys
  tasks : AppendsFrom s.tasks s'.tasks
  news : NoNews s s'

theorem Calm.steady : Steady (Calm : Sys α → Sys α → Prop) where
  refl _ := ⟨rfl, .refl _, fun _ _ => id⟩
  trans h h' := ⟨h'.phys.trans h.phys, h.tasks.trans h'.tasks, h.news.trans h'.news⟩
  rest _ h2 h3 h4 := ⟨h2, h3 ▸ .refl _, .of_turns h4⟩
  modTask t _ hf := ⟨rfl, .modify t hf, fun _ _ => id⟩
  free t := ⟨rfl, .free t, fun _ _ => id⟩
  alloc hx := ⟨rfl, .alloc hx, fun _ _ => id⟩

/-- The append of task `t`, which is `x`, to zone `z` is issued. -/
structure Issued (s s' : Sys α) (t z : ℕ) (x : Task α) : Prop where
  here : s.tasks.get t = some x
  status : x.status = .allocRes
  idle : x.pc.appends = false
  phys : s'.phys = s.phys
  tasks : ∃ f : Task α → Task α, (f x).FliesTo z ∧ (f x).len = x.len ∧
    s'.tasks = s.tasks.modify t f
  news : NoNews s s'

/-- The append of task `t`, which is `x`, has landed at offset `off` of zone `z`. -/
structure Landed (c : Conf) (s s' : Sys α) (t z off : ℕ) (x : Task α) : Prop where
  here : s.tasks.get t = some x
  flies : x.FliesTo z
  room : off + x.len ≤ c.zoneNrBlocks
  free : ∀ i < x.len, s.phys.content (c.startBlk z + off + i) = none
  phys : ∃ log, s'.phys = s.phys.put (c.startBlk z + off) (x.cells log)
  tasks : s'.tasks = s.tasks.modify t fun x => { x with pc := .written (c.startBlk z + off) }
  news : NoNews s s'

namespace Landed

variable {c : Conf} {s s' : Sys α} {t z off : ℕ} {x : Task α}

/-- The append fills as many blocks as the bio has. -/
theorem isSome_iff (h : Landed c s s' t z off x) (q : ℕ) : (s'.phys.content q).isSome ↔
    (s.phys.content q).isSome ∨ c.startBlk z + off ≤ q ∧ q < c.startBlk z + off + x.len := by
  obtain ⟨log, hp⟩ := h.phys
  rw [hp]
  by_cases hq : c.startBlk z + off ≤ q ∧ q < c.startBlk z + off + x.len
  · obtain ⟨i, rfl⟩ := Nat.exists_eq_add_of_le hq.1
    have hlen : i < (x.cells log).length := by
      rw [Task.length_cells]
      omega
    rw [Phys.put_inside hlen, List.getElem?_eq_getElem hlen]
    exact iff_of_true rfl (Or.inr hq)
  · rw [or_iff_left hq, Phys.put_cells_outside fun i hi => by omega]

end Landed

/-- Task `t` ends to its user; if with success, it has been entered into the mapping. -/
structure Ended (s s' : Sys α) (t : ℕ) : Prop where
  phys : s'.phys = s.phys
  tasks : AppendsFrom s.tasks s'.tasks
  news : NoNews s s' ∨ ∃ x p z, s.tasks.get t = some x ∧ x.pc = .written p ∧ x.zone = some z ∧
    x.type ≠ .gc ∧ s'.mapping x.blkid = some p ∧
    s'.hist = .endW t true :: .stored t x.blkid p x.data :: s.hist

/-- A write is submitted. -/
structure Submitted (s s' : Sys α) (b : ℕ) (d : α) (more : List α) : Prop where
  phys : s'.phys = s.phys
  tasks : AppendsFrom s.tasks s'.tasks
  hist : s'.hist = .submitW s.tasks.next b d more :: s.hist

/-- Zone `i` is reset, or its reset fails. -/
structure Wiped (c : Conf) (s s' : Sys α) (i : ℕ) : Prop where
  worker : s.wk = .reset i
  phys : s'.phys = s.phys ∨ s'.phys = s.phys.resetZone c i
  tasks : s'.tasks = s.tasks
  news : NoNews s s'

/-! ## Which step issues an append -/

/-- `lbz_zone_alloc_res` would take a block of zone `z` for stream `i`. -/
def Offers (c : Conf) (m : Zmd) (i : Fin 2) (z : ℕ) : Prop :=
  match m.activeZone i with
  | some a =>
    if (m.zones a).wpBlock = c.zoneNrBlocks then m.emptyZoneList.head? = some z else a = z
  | none => m.emptyZoneList.head? = some z

instance (c : Conf) (m : Zmd) (i : Fin 2) (z : ℕ) : Decidable (Offers c m i z) := by
  unfold Offers
  split <;> infer_instance

/-- `e` gives a task of `n` blocks a block of zone `z` and issues its append. -/
def Event.Issues (c : Conf) (s : Sys α) (z n : ℕ) : Event α → Prop
  | .runWrite t integ | .runGc t integ => integ = true ∧ s.faulty = false ∧
      s.tasks.At t fun x => x.status = .allocRes ∧
        (x.flag = .user → c.reservedBlksGc ≤ u32 s.zmd.nrAllocableBlks) ∧
        Offers c s.zmd (x.stream c s) z ∧ x.len = n
  | _ => False

instance (c : Conf) (s : Sys α) (z n : ℕ) : DecidablePred (Event.Issues c s z n) := by
  rintro (_ | _) <;> dsimp only [Event.Issues] <;> infer_instance

section

variable {c : Conf} {s s' : Sys α} {t z n : ℕ} {x : Task α} {m : Zmd} {i : Fin 2}

theorem Offers.unique {z' : ℕ} (h : Offers c m i z) (h' : Offers c m i z') : z = z' := by
  unfold Offers at h h'
  cases ha : m.activeZone i with
  | none =>
    simp only [ha] at h h'
    exact Option.some.inj (h.symm.trans h')
  | some a =>
    simp only [ha] at h h'
    split_ifs at h h'
    · exact Option.some.inj (h.symm.trans h')
    · exact h.symm.trans h'

theorem Event.Issues.unique {e : Event α} {z' n' : ℕ} (h : e.Issues c s z n)
    (h' : e.Issues c s z' n') : z = z' ∧ n = n' := by
  unfold Event.Issues at h h'
  split at h
  · obtain ⟨-, -, x, hx, -, -, ho, hn⟩ := h
    obtain ⟨-, -, x', hx', -, -, ho', hn'⟩ := h'
    cases hx.symm.trans hx'
    exact ⟨ho.unique ho', hn.symm.trans hn'⟩
  · obtain ⟨-, -, x, hx, -, -, ho, hn⟩ := h
    obtain ⟨-, -, x', hx', -, -, ho', hn'⟩ := h'
    cases hx.symm.trans hx'
    exact ⟨ho.unique ho', hn.symm.trans hn'⟩
  · exact h.elim

theorem getFreeZone_snd {m' : Zmd} (he : m'.emptyZoneList = m.emptyZoneList) :
    (getFreeZone m').2 = m.emptyZoneList.head? := by
  unfold getFreeZone
  rw [he]
  cases m.emptyZoneList <;> rfl

theorem openAndTake_ok (m : Zmd) (i : Fin 2) :
    (openAndTake c m i).2 = .ok z ↔ m.emptyZoneList.head? = some z := by
  have he := emptyZoneList_put m (m.activeZone i)
  unfold openAndTake
  simp only
  split
  · rename_i heq
    have h := (getFreeZone_snd he).symm.trans (congrArg Prod.snd heq)
    rw [h]
    exact iff_of_false (by rintro ⟨⟩) (by rintro ⟨⟩)
  · rename_i a heq
    have h := (getFreeZone_snd he).symm.trans (congrArg Prod.snd heq)
    rw [h, takeBlock_snd, AllocRet.ok.injEq]
    exact Option.some_inj.symm

/-- **When `lbz_zone_alloc_res` returns a zone**, and which. -/
theorem zoneAllocRes_ok {faulty : Bool} {mod : AllocFlag} :
    (zoneAllocRes c faulty m mod i).2 = .ok z ↔ faulty = false ∧
      (mod = .user → c.reservedBlksGc ≤ u32 m.nrAllocableBlks) ∧ Offers c m i z := by
  unfold zoneAllocRes Offers
  cases faulty with
  | true => simp
  | false =>
    rw [if_neg nofun, and_iff_right rfl]
    split_ifs with h
    · exact iff_of_false nofun fun h' => absurd (h'.1 h.1) (not_le.mpr h.2)
    · rw [and_iff_right fun hm => not_lt.mp fun hlt => h ⟨hm, hlt⟩]
      cases m.activeZone i with
      | none => exact openAndTake_ok m i
      | some a =>
        simp only
        split_ifs
        · exact openAndTake_ok m i
        · rw [takeBlock_snd, AllocRet.ok.injEq]

theorem addIntegrity_rest (s : Sys α) (x : Task α) (ty : LogType) :
    (addIntegrity c s x ty).1.phys = s.phys ∧ (addIntegrity c s x ty).1.tasks = s.tasks ∧
      (addIntegrity c s x ty).1.hist = s.hist := by
  unfold addIntegrity
  by_cases hn : c.natSit = true
  · rw [if_neg (by rw [hn]; nofun)]
    cases x.type with
    | userWrite | gc | txFather => exact ⟨rfl, rfl, rfl⟩
    | txChild => by_cases hf : c.freeSupport = true <;> simp [hf]
  · rw [if_pos (by simpa using hn)]
    exact ⟨rfl, rfl, rfl⟩

theorem issueAppend_issued {s₁ : Sys α} (hx : s.tasks.get t = some x)
    (hst : x.status = .allocRes) (hpc : x.pc.appends = false)
    (h1 : s₁.phys = s.phys) (h2 : s₁.tasks = s.tasks) (h3 : NoNews s s₁) (z : ℕ) (ty : LogType) :
    Issued s (issueAppend c s₁ t x z ty) t z x := by
  obtain ⟨h4, h5, h6⟩ := addIntegrity_rest (c := c) s₁ x ty
  refine ⟨hx, hst, hpc, h4.trans h1, ⟨fun y => { y with
    zone := some z, status := .dispatch, pc := .device,
    integ := .buf (addIntegrity c s₁ x ty).2 }, ⟨rfl, rfl⟩, rfl, ?_⟩,
    fun o ho hm => h3 o ho (h6 ▸ hm)⟩
  rw [← h2, ← h5]
  rfl

theorem writeAllocFailed_calm (t : ℕ) (x : Task α) (ret : AllocRet) :
    Calm s (writeAllocFailed c s t x ret) := by
  have H : Steady (Calm : Sys α → Sys α → Prop) := Calm.steady
  unfold writeAllocFailed
  refine Steady.ite ?_ ?_
  · exact H.comp (H.addTaskToRetry t) (H.rest rfl rfl rfl rfl)
  · refine H.comp (H.taskPut t) ?_
    refine ⟨rfl, .modify t fun x => Task.lands_of_away rfl, ?_⟩
    -- the write has left the tree, and has then ended with an error
    have h : NoNews s (delTaskFromTree s t) := .cons rfl rfl
    exact h.trans (.cons rfl rfl)

theorem allocWrite_device (hx : s.tasks.get t = some x) (hst : x.status = .allocRes)
    (hpc : x.pc.appends = false) (hty : x.type ≠ .gc) (sid : Option (Fin 2)) (integ : Bool) :
    (∃ z, (integ = true ∧ (zoneAllocRes c s.faulty s.zmd x.flag i).2 = .ok z) ∧
      Issued s (allocWrite c s t x i sid integ) t z x) ∨
    (∀ z, ¬ (integ = true ∧ (zoneAllocRes c s.faulty s.zmd x.flag i).2 = .ok z)) ∧
      Calm s (allocWrite c s t x i sid integ) := by
  have H : Steady (Calm : Sys α → Sys α → Prop) := Calm.steady
  have hflag : (if x.link = .null then AllocFlag.user else .gc) = x.flag :=
    if_congr (by rw [and_iff_right hty]) rfl rfl
  unfold allocWrite
  simp only
  rw [hflag]
  have hcalm : Calm s (allocBlock c s x.flag i).1 := H.allocBlock x.flag i
  have hret := allocBlock_snd (c := c) (s := s) x.flag i
  have htasks := allocBlock_tasks (c := c) (s := s) x.flag i
  split
  · rename_i s₁ z heq
    rw [heq] at hcalm hret htasks
    unfold dispatchWrite
    cases integ with
    | true =>
      refine Or.inl ⟨z, ⟨rfl, hret.symm⟩, ?_⟩
      have hacks : NoNews s (s₁.log (.alloc t x.flag)) :=
        hcalm.news.trans (.cons rfl rfl)
      simp only [if_true]
      refine issueAppend_issued hx hst hpc ?_ ?_ ?_ z .userWrite <;> split_ifs <;>
        first | exact hcalm.phys | exact htasks | exact hacks
    | false =>
      refine Or.inr ⟨fun _ h => Bool.false_ne_true h.1, H.trans hcalm ?_⟩
      simp only [Bool.false_eq_true, if_false]
      split_ifs <;>
        exact ⟨rfl, .modify t fun x => Task.lands_of_away rfl, .cons rfl rfl⟩
  · rename_i s₁ ret hne heq
    rw [heq] at hcalm hret
    refine Or.inr ⟨fun z h => hne z (hret.trans h.2), H.trans hcalm ?_⟩
    unfold writeNoBlock
    refine Steady.ite (H.refl _) ?_
    cases sid with
    | some j => exact H.away t fun _ => rfl
    | none => exact writeAllocFailed_calm t x ret

theorem allocGc_device (hx : s.tasks.get t = some x) (hst : x.status = .allocRes)
    (hpc : x.pc.appends = false) (hty : x.type = .gc) (sid : Option (Fin 2)) (integ : Bool) :
    (∃ z, (integ = true ∧ (zoneAllocRes c s.faulty s.zmd x.flag i).2 = .ok z) ∧
      Issued s (allocGc c s t x i sid integ) t z x) ∨
    (∀ z, ¬ (integ = true ∧ (zoneAllocRes c s.faulty s.zmd x.flag i).2 = .ok z)) ∧
      Calm s (allocGc c s t x i sid integ) := by
  have H : Steady (Calm : Sys α → Sys α → Prop) := Calm.steady
  have hflag : x.flag = .gc := if_neg fun h => h.1 hty
  unfold allocGc
  rw [hflag]
  have hcalm : Calm s (allocBlock c s .gc i).1 := H.allocBlock .gc i
  have hret := allocBlock_snd (c := c) (s := s) .gc i
  have htasks := allocBlock_tasks (c := c) (s := s) .gc i
  split
  · rename_i s₁ z heq
    rw [heq] at hcalm hret htasks
    cases integ with
    | true =>
      refine Or.inl ⟨z, ⟨rfl, hret.symm⟩, ?_⟩
      rw [dispatchGc, if_pos rfl]
      refine issueAppend_issued hx hst hpc ?_ ?_ ?_ z .gcWrite
      · exact hcalm.phys
      · exact htasks
      · exact hcalm.news.trans (.cons rfl rfl)
    | false =>
      refine Or.inr ⟨fun _ h => Bool.false_ne_true h.1, H.trans hcalm ?_⟩
      exact H.trans (H.log _ rfl) (H.dispatchGc_fail t x z)
  · rename_i s₁ ret hne heq
    rw [heq] at hcalm hret
    refine Or.inr ⟨fun z h => hne z (hret.trans h.2), H.trans hcalm ?_⟩
    unfold gcNoBlock
    refine Steady.ite (H.refl _) ?_
    cases sid with
    | some j => exact H.away t fun _ => rfl
    | none => exact H.halt _

/-- An event of `x` issues an append exactly if its next allocation succeeds. -/
theorem issues_iff (hx : s.tasks.get t = some x) (integ : Bool) :
    Event.Issues c s z n (.runWrite t integ) ↔ (x.status = .allocRes ∧ x.len = n) ∧ integ = true ∧
      (zoneAllocRes c s.faulty s.zmd x.flag (x.stream c s)).2 = .ok z := by
  rw [zoneAllocRes_ok]
  constructor
  · rintro ⟨h1, h2, y, hy, h3, h4, h5, h6⟩
    cases hx.symm.trans hy
    exact ⟨⟨h3, h6⟩, h1, h2, h4, h5⟩
  · rintro ⟨⟨h3, h6⟩, h1, h2, h4, h5⟩
    exact ⟨h1, h2, x, hx, h3, h4, h5, h6⟩

theorem submitWriteTask_device (hx : s.tasks.get t = some x) (hs : x.Shape) (hty : x.type ≠ .gc)
    (hpc : x.pc = .submit ∨ ∃ j, x.pc = .fallback j) (integ : Bool) :
    (∃ z, Event.Issues c s z x.len (.runWrite t integ) ∧
      Issued s (submitWriteTask c s t x integ) t z x) ∨
    (∀ z n, ¬ Event.Issues c s z n (.runWrite t integ)) ∧ Calm s (submitWriteTask c s t x integ) := by
  have hdev : x.pc.appends = false := by rcases hpc with h | ⟨j, h⟩ <;> rw [h] <;> rfl
  obtain ⟨hp, -, -⟩ := hs.user hty
  have halloc : x.status = .allocRes → ∀ sid,
      (∃ z, Event.Issues c s z x.len (.runWrite t integ) ∧
        Issued s (allocWrite c s t x (x.stream c s) sid integ) t z x) ∨
      (∀ z n, ¬ Event.Issues c s z n (.runWrite t integ)) ∧
        Calm s (allocWrite c s t x (x.stream c s) sid integ) := fun hst sid => by
    simp only [issues_iff hx, hst, true_and]
    refine (allocWrite_device hx hst hdev hty sid integ).imp_right fun h => ⟨fun z _ h' => ?_, h.2⟩
    exact h.1 z h'.2
  rcases hpc with hpc | ⟨j, hpc⟩
  · have hstream : x.stream c s = preferredStream c s x.blkid := by rw [Task.stream, hpc]
    rw [hstream] at halloc
    simp only [submitWriteTask, hpc]
    by_cases hst : x.status = .init
    · rw [if_pos hst]
      refine Or.inr ⟨fun z n h => ?_, Calm.steady.insertWrite ..⟩
      rw [issues_iff hx, hst] at h
      cases h.1.1
    · rw [if_neg hst]
      exact halloc (by cases hp <;> simp_all) _
  · have hstream : x.stream c s = 1 - j := by rw [Task.stream, hpc]
    rw [hstream] at halloc
    simp only [submitWriteTask, hpc]
    exact halloc (by cases hp <;> simp_all) _

theorem submitGcTask_device (hx : s.tasks.get t = some x) (hs : x.Shape) (hty : x.type = .gc)
    (hpc : x.pc = .submit ∨ (∃ j, x.pc = .fallback j) ∨ (∃ tk, x.pc = .found tk) ∨ x.pc = .check)
    (integ : Bool) :
    (∃ z, Event.Issues c s z x.len (.runGc t integ) ∧ Issued s (submitGcTask c s t x integ) t z x) ∨
    (∀ z n, ¬ Event.Issues c s z n (.runGc t integ)) ∧ Calm s (submitGcTask c s t x integ) := by
  have H : Steady (Calm : Sys α → Sys α → Prop) := Calm.steady
  obtain ⟨⟨v, hp⟩, -⟩ := hs.gc hty
  have hissues : ∀ z n, Event.Issues c s z n (.runGc t integ) ↔ _ := fun z n => issues_iff hx integ
  have hdev : x.pc.appends = false := by
    rcases hpc with h | ⟨j, h⟩ | ⟨tk, h⟩ | h <;> rw [h] <;> rfl
  have halloc : x.status = .allocRes → ∀ sid,
      (∃ z, Event.Issues c s z x.len (.runGc t integ) ∧
        Issued s (allocGc c s t x (x.stream c s) sid integ) t z x) ∨
      (∀ z n, ¬ Event.Issues c s z n (.runGc t integ)) ∧
        Calm s (allocGc c s t x (x.stream c s) sid integ) := fun hst sid => by
    simp only [hissues, hst, true_and]
    refine (allocGc_device hx hst hdev hty sid integ).imp_right fun h => ⟨fun z _ h' => ?_, h.2⟩
    exact h.1 z h'.2
  have hnone : x.status = .gcReading → ∀ z n, ¬ Event.Issues c s z n (.runGc t integ) :=
    fun hst z n h => by
      rw [hissues, hst] at h
      cases h.1.1
  rcases hpc with hpc | ⟨j, hpc⟩ | ⟨tk, hpc⟩ | hpc
  · have hstream : x.stream c s = preferredStream c s x.blkid := by rw [Task.stream, hpc]
    rw [hstream] at halloc
    simp only [submitGcTask, hpc]
    by_cases hst : x.status = .gcReading
    · rw [if_pos hst]
      exact Or.inr ⟨hnone hst, H.insertGc ..⟩
    · rw [if_neg hst]
      exact halloc (by cases hp <;> simp_all) _
  · have hstream : x.stream c s = 1 - j := by rw [Task.stream, hpc]
    rw [hstream] at halloc
    simp only [submitGcTask, hpc]
    exact halloc (by cases hp <;> simp_all) _
  · simp only [submitGcTask, hpc]
    exact Or.inr ⟨hnone (by cases hp <;> simp_all), H.gcFound ..⟩
  · simp only [submitGcTask, hpc]
    exact Or.inr ⟨hnone (by cases hp <;> simp_all), H.gcCheck ..⟩

theorem Offers.lt {wk : WkPc} {gcZone : Option ℕ} {pl : ℕ → Place}
    (P : PlaceInv c m wk gcZone pl) (h : Offers c m i z) : z < c.nrZones := by
  have hempty : m.emptyZoneList.head? = some z → z < c.nrZones := fun h => by
    have hz := (P.empty z).mp (List.mem_of_mem_head? h)
    exact lt_of_place P (by rw [hz]; nofun)
  unfold Offers at h
  cases ha : m.activeZone i with
  | none =>
    simp only [ha] at h
    exact hempty h
  | some a =>
    simp only [ha] at h
    split_ifs at h
    · exact hempty h
    · subst h
      exact lt_of_place P (by rw [(P.active i a).mp ha]; nofun)

theorem Event.Issues.lt {e : Event α} (hB : Base c s.core) (h : e.Issues c s z n) :
    z < c.nrZones := by
  obtain ⟨pl, P⟩ := hB.places
  unfold Event.Issues at h
  split at h
  · obtain ⟨-, -, x, -, -, -, ho, -⟩ := h
    exact ho.lt P
  · obtain ⟨-, -, x, -, -, -, ho, -⟩ := h
    exact ho.lt P
  · exact h.elim

theorem natSitTxComplete_calm (s : Sys α) : Calm s (natSitTxComplete c s) := by
  have H : Steady (Calm : Sys α → Sys α → Prop) := Calm.steady
  have h : ∀ (l : List ℕ) (s : Sys α), Calm s (l.foldl (freeBlkid c) s) := by
    intro l
    induction l with
    | nil => exact H.refl
    | cons b l ih =>
      refine fun s => H.trans ?_ (ih (freeBlkid c s b))
      unfold freeBlkid
      split_ifs
      · exact H.refl s
      · exact H.halt _
      · split <;> exact ⟨rfl, .refl _, fun _ _ => id⟩
  exact ⟨(h _ s).phys, (h _ s).tasks, (h _ s).news⟩

variable [Inhabited α]

/-- The device takes an append. -/
theorem devAppend_landed (hB : Base c s.core) {off : ℕ} (hr : Ready c s (.devAppend t off)) :
    ∃ z x, Landed c s (after c s (.devAppend t off)) t z off x := by
  obtain ⟨x, hx, hpc, hoff, hfree⟩ := hr
  obtain ⟨-, ⟨z, hz⟩, log, hlog⟩ := (hB.tasks.shape t x hx).device hpc
  have hp : appendPbid c x off = c.startBlk z + off := by rw [appendPbid, hz]; rfl
  rw [hp] at hfree
  have he : after c s (.devAppend t off) =
      { s.modTask t fun x => { x with pc := .written (c.startBlk z + off) } with
        phys := s.phys.put (c.startBlk z + off) (x.cells log) } := by
    simp only [after, onTask, hx, hp, devAppend, hlog]
  rw [he]
  exact ⟨z, x, hx, ⟨hpc, hz⟩, hoff, hfree, ⟨log, rfl⟩, rfl, fun _ _ => id⟩

/-- A write ends to its user. -/
theorem writeEnd_ended (hr : Ready c s (.writeEnd t)) : Ended s (after c s (.writeEnd t)) t := by
  obtain ⟨x, hx, hty, hpc⟩ := hr
  have he : after c s (.writeEnd t) = writeIoEndio c s t x := by simp only [after, onTask, hx]
  rw [he]
  unfold writeIoEndio
  split
  rename_i s₁ ok heq
  split at heq <;> cases heq
  · rename_i p z hp hz
    refine ⟨rfl, .modify t fun _ => Task.lands_of_away rfl, Or.inr ?_⟩
    exact ⟨x, p, z, hx, hp, hz, hty, Function.update_self .., rfl⟩
  · exact ⟨rfl, .modify t fun _ => Task.lands_of_away rfl, Or.inl (.cons rfl rfl)⟩

/-- **Every step** issues an append, or lands one, or ends a write, or resets a zone, or submits a
write, or leaves the device and the appends alone; only the first kind issues one. -/
theorem step_device {e : Event α} (hB : Base c s.core) (hs : step c s e = some s') :
    (∃ t z x, e.Issues c s z x.len ∧ Issued s s' t z x) ∨
    (∀ z n, ¬ e.Issues c s z n) ∧ ((∃ t z off x, e = .devAppend t off ∧ Landed c s s' t z off x) ∨
      (∃ t, Ended s s' t) ∨ (∃ i, Wiped c s s' i) ∨
      (∃ b d flush more, e = .submitWrite b d flush more ∧ Submitted s s' b d more) ∨
      Calm s s') := by
  have H : Steady (Calm : Sys α → Sys α → Prop) := Calm.steady
  rw [step] at hs
  split_ifs at hs with h
  obtain ⟨-, hr⟩ := h
  cases hs
  by_cases hrun : ∃ t integ, e = .runWrite t integ
  · obtain ⟨t, integ, rfl⟩ := hrun
    obtain ⟨x, hx, hty, hpc⟩ := hr
    simp only [after, onTask, hx]
    refine (submitWriteTask_device (c := c) hx (hB.tasks.shape t x hx) hty ?_ integ).imp
      (fun h => ?_) fun h => ⟨h.1, Or.inr (Or.inr (Or.inr (Or.inr h.2)))⟩
    · split at hpc
      · next h => exact Or.inl h
      · next j h => exact Or.inr ⟨j, h⟩
      · cases hpc
    · obtain ⟨z, h1, h2⟩ := h
      exact ⟨t, z, x, h1, h2⟩
  by_cases hgc : ∃ g integ, e = .runGc g integ
  · obtain ⟨t, integ, rfl⟩ := hgc
    obtain ⟨x, hx, hty, hpc⟩ := hr
    simp only [after, onTask, hx]
    refine (submitGcTask_device (c := c) hx (hB.tasks.shape t x hx) hty ?_ integ).imp
      (fun h => ?_) fun h => ⟨h.1, Or.inr (Or.inr (Or.inr (Or.inr h.2)))⟩
    · split at hpc
      · next h => exact Or.inl h
      · next j h => exact Or.inr (Or.inl ⟨j, h⟩)
      · next tk h => exact Or.inr (Or.inr (Or.inl ⟨tk, h⟩))
      · next h => exact Or.inr (Or.inr (Or.inr h))
      · cases hpc
    · obtain ⟨z, h1, h2⟩ := h
      exact ⟨t, z, x, h1, h2⟩
  refine Or.inr ⟨fun z n h => ?_, ?_⟩
  · unfold Event.Issues at h
    split at h
    · exact hrun ⟨_, _, rfl⟩
    · exact hgc ⟨_, _, rfl⟩
    · exact h
  by_cases happ : ∃ t off, e = .devAppend t off
  · obtain ⟨t, off, rfl⟩ := happ
    obtain ⟨z, x, h⟩ := devAppend_landed hB hr
    exact Or.inl ⟨t, z, off, x, rfl, h⟩
  by_cases hend : ∃ t, e = .writeEnd t
  · obtain ⟨t, rfl⟩ := hend
    exact Or.inr (Or.inl ⟨t, writeEnd_ended hr⟩)
  by_cases hreset : ∃ ok i, e = .wkStep ok ∧ s.wk = .reset i
  · obtain ⟨ok, i, rfl, hwk⟩ := hreset
    refine Or.inr (Or.inr (Or.inl ⟨i, ?_⟩))
    simp only [after, wkStep, hwk, wkReset]
    split_ifs
    · exact ⟨hwk, Or.inl rfl, rfl, fun _ _ => id⟩
    · exact ⟨hwk, Or.inr rfl, rfl, fun _ _ => id⟩
    · exact ⟨hwk, Or.inr rfl, rfl, .cons rfl rfl⟩
  by_cases hsub : ∃ b d flush more, e = .submitWrite b d flush more
  · obtain ⟨b, d, flush, more, rfl⟩ := hsub
    exact Or.inr (Or.inr (Or.inr (Or.inl ⟨b, d, flush, more, rfl, rfl, .alloc rfl, rfl⟩)))
  refine Or.inr (Or.inr (Or.inr (Or.inr ?_)))
  by_cases htx : e = .txComplete
  · subst htx
    exact natSitTxComplete_calm s
  by_cases hrule : ∃ a, e = .addRule a
  · obtain ⟨a, rfl⟩ := hrule
    exact Steady.ite (H.halt _) ⟨rfl, .refl _, fun _ _ => id⟩
  · exact H.after (fun b d flush more h => hsub ⟨b, d, flush, more, h⟩)
      (fun t integ h => hrun ⟨t, integ, h⟩) (fun g integ h => hgc ⟨g, integ, h⟩)
      (fun t off h => happ ⟨t, off, h⟩) (fun t h => hend ⟨t, h⟩) htx (fun a h => hrule ⟨a, h⟩)
      fun ok he i hi => hreset ⟨ok, i, he, hi⟩

/-- A write that has been submitted has been so before, or by this step. -/
theorem step_submits {e : Event α} (hB : Base c s.core) (hs : step c s e = some s') {b : ℕ} {d : α}
    {more : List α} (hm : .submitW t b d more ∈ s'.hist) :
    .submitW t b d more ∈ s.hist ∨ ∃ flush, e = .submitWrite b d flush more := by
  rcases step_device hB hs with ⟨_, _, _, -, h⟩ | ⟨-, ⟨_, _, _, _, -, h⟩ | ⟨_, h⟩ | ⟨_, h⟩ |
    ⟨b', d', flush, more', rfl, h⟩ | h⟩
  · exact Or.inl (h.news _ rfl hm)
  · exact Or.inl (h.news _ rfl hm)
  · rcases h.news with h | ⟨x, p, z, -, -, -, -, -, h⟩
    · exact Or.inl (h _ rfl hm)
    · rw [h] at hm
      exact Or.inl (by simpa using hm)
  · exact Or.inl (h.news _ rfl hm)
  · rw [h.hist, List.mem_cons] at hm
    refine hm.symm.imp_right fun e => ?_
    cases e
    exact ⟨flush, rfl⟩
  · exact Or.inl (h.news _ rfl hm)

end

end Lbz
