import Lbz.Contents
import Lbz.Writable

/-!
# What garbage collection needs

* `Task.Owes`: the task is still to take a block with `LBZ_ALLOC_FLAG_GC`;
* `need c k`: the blocks that are still to be taken so for the victim: one for each entry that the
  scan has ahead, and one for each task that owes; **`Move.need`**: a move that takes such a block
  lowers it, and no move but the choice of a victim raises it;
* `quota hist`: what the blocks taken so have left of the weight of the last victim;
* **`cycle_gains`**: in every cycle fewer blocks are taken than the victim gives back.
-/

namespace Lbz

variable {α : Type} {c : Conf}

/-! ## Tasks -/

/-- The task takes no block any more, or not of its own. -/
def TaskPc.quits : TaskPc → Bool
  | .waiting _ | .skip | .done => true
  | _ => false

/-- The task is still to take a block with `LBZ_ALLOC_FLAG_GC`. -/
def Task.Owes (x : Task α) : Prop :=
  x.link ≠ .null ∧ x.status.hasBlock = false ∧ x.pc.quits = false

instance : DecidablePred (Task.Owes : Task α → Prop) := fun x => by
  unfold Task.Owes
  infer_instance

def Task.owing (x : Task α) : ℤ := if x.Owes then 1 else 0

theorem Task.owing_nonneg (x : Task α) : 0 ≤ x.owing := by
  unfold Task.owing
  split_ifs <;> omega

theorem Task.owing_eq_zero {x : Task α} (h : ¬ x.Owes) : x.owing = 0 := if_neg h

theorem Task.owing_congr {x y : Task α} (hl : y.link = x.link)
    (hst : y.status.hasBlock = x.status.hasBlock) (hpc : y.pc.quits = x.pc.quits) :
    y.owing = x.owing := by
  have h : y.Owes ↔ x.Owes := by rw [Owes, Owes, hl, hst, hpc]
  rw [owing, owing, if_congr h rfl rfl]

/-- A task that has its block owes nothing. -/
theorem Task.owing_hasBlock {x : Task α} (h : x.status.hasBlock = true) : x.owing = 0 :=
  owing_eq_zero fun a => by rw [a.2.1] at h; cases h

theorem Task.owing_quits {x : Task α} (h : x.pc.quits = true) : x.owing = 0 :=
  owing_eq_zero fun a => by rw [a.2.2] at h; cases h

section

variable {h : Heap (Task α)} {t : ℕ} {x : Task α}

theorem sum_owing_modify (hx : h.get t = some x) {f : Task α → Task α} (hf : (f x).owing = x.owing) :
    (h.modify t f).sum Task.owing = h.sum Task.owing := by
  rw [Heap.sum_modify hx, hf]
  ring

/-- A task that owes gives up. -/
theorem sum_owing_le (hx : h.get t = some x) {f : Task α → Task α} (hf : (f x).owing = 0) :
    (h.modify t f).sum Task.owing = h.sum Task.owing - x.owing := by
  rw [Heap.sum_modify hx, hf]
  ring

theorem sum_owing_nonneg (h : Heap (Task α)) : 0 ≤ h.sum Task.owing :=
  h.sum_nonneg fun x => x.owing_nonneg

end

/-! ## The scan -/

/-- The entries of the victim that the scan is still to see, with what it has fetched. -/
def GcPc.ahead (m : Zmd) : GcPc → ℕ → Option ℕ
  | .idle, _ => none
  | .scan z iter pos, o => if o = iter then pos else if iter < o then (m.zones z).zrms o else none

/-- The blocks that are still to be taken for the victim. -/
def need (c : Conf) (k : Core α) : ℤ :=
  live c.zoneNrBlocks (k.gcPc.ahead k.zmd) + k.tasks.sum Task.owing

theorem live_mono {A : Type*} {n : ℕ} {g g' : ℕ → Option A} (h : ∀ o, g' o ≠ none → g o ≠ none) :
    live n g' ≤ live n g := by
  refine Finset.card_le_card fun o ho => ?_
  simp only [Finset.mem_filter, Option.isSome_iff_ne_none] at ho ⊢
  exact ⟨ho.1, h o ho.2⟩

theorem need_nonneg (k : Core α) : 0 ≤ need c k :=
  add_nonneg (Int.natCast_nonneg _) (sum_owing_nonneg _)

section

variable [Inhabited α] {k k' : Core α} {l : Label}

/-- The blocks that are taken with `LBZ_ALLOC_FLAG_GC`. -/
def Obs.isGcAlloc : Obs α → Bool
  | .alloc _ .gc => true
  | _ => false

def gcAllocs (hist : List (Obs α)) : ℕ := hist.countP Obs.isGcAlloc

/-- **What the tasks owe after a move.** -/
theorem Move.owing {ph : ℕ → ℤ} (B : Base c k) (V : VictimInv c ph k) (hf : l ≠ .fault)
    (hm : Move c k l k') :
    k'.tasks.sum Task.owing + Lbz.gcAllocs k'.hist ≤ k.tasks.sum Task.owing + Lbz.gcAllocs k.hist ∨
      (∃ z iter b, k.gcPc = .scan z iter (some b) ∧ iter < (k.zmd.zones z).wpBlock ∧
        k'.gcPc = .scan z (iter + 1) ((k.zmd.zones z).zrms (iter + 1))) ∧
      k'.tasks.sum Task.owing + Lbz.gcAllocs k'.hist =
        k.tasks.sum Task.owing + Lbz.gcAllocs k.hist + 1 := by
  have T := B.tasks
  have Q := B.queues
  -- no block is taken
  have key : Lbz.gcAllocs k'.hist = Lbz.gcAllocs k.hist →
      k'.tasks.sum Task.owing ≤ k.tasks.sum Task.owing →
      k'.tasks.sum Task.owing + Lbz.gcAllocs k'.hist ≤
        k.tasks.sum Task.owing + Lbz.gcAllocs k.hist := fun h1 h2 => by omega
  cases hm with
  | dispatchFail | fallbackFail | allocFail | devFail | writeFail | serveFail | gcServeFail
  | gcReadFail | gcWriteFail | release | wkFail => exact absurd rfl hf
  | submitWrite b d more hty =>
    refine Or.inl (key rfl ?_)
    rw [Heap.sum_alloc, Task.owing_eq_zero fun h => h.1 rfl, add_zero]
  | @scanBlock z iter b hpc hi =>
    refine Or.inr ⟨⟨z, iter, b, hpc, hi, rfl⟩, ?_⟩
    change (k.tasks.alloc _).sum Task.owing + (Lbz.gcAllocs k.hist : ℤ) = _
    rw [Heap.sum_alloc, Task.owing, if_pos ⟨by rintro ⟨⟩, rfl, rfl⟩]
    ring
  | @conflict t tk x y hx hty hst hpc htk hy hb =>
    have hfr : x.Fresh := by rw [Task.Fresh, if_neg hty]; exact hst
    have hx' : (k.tasks.modify tk Task.incRef).get t = some x := by
      rw [Heap.get_modify_ne (TaskInv.ne_of_fresh T hx hfr htk), hx]
    refine Or.inl (key rfl (Eq.le ?_))
    exact (sum_owing_modify hx' (Task.owing_congr rfl rfl (by rw [hpc]; rfl))).trans
      (sum_owing_modify hy rfl)
  | insert hx hty hst hpc =>
    exact Or.inl (key rfl (sum_owing_modify hx (Task.owing_congr rfl (by rw [hst]; rfl) rfl)).le)
  | @dispatch t z i x log hx hst hpc =>
    -- the task takes its block
    have hq : x.pc.quits = false := by rcases hpc with hpc | ⟨j, hpc⟩ <;> rw [hpc] <;> rfl
    have hsum := sum_owing_le (f := fun x => { x with
      zone := some z, status := .dispatch, pc := .device, integ := .buf log }) hx
      (Task.owing_hasBlock rfl)
    refine Or.inl ?_
    change (k.tasks.modify t _).sum Task.owing + (Lbz.gcAllocs (.alloc t x.flag :: k.hist) : ℤ) ≤ _
    rw [hsum, Lbz.gcAllocs, List.countP_cons, ← Lbz.gcAllocs]
    by_cases hl : x.link = .null
    · have hle := x.owing_nonneg
      have hflag : x.flag = .user := if_pos ⟨fun h => ((T.shape t x hx).gc h).2 hl, hl⟩
      rw [hflag]
      simp only [Obs.isGcAlloc, Bool.false_eq_true, if_false]
      omega
    · have hflag : x.flag = .gc := if_neg fun h => hl h.2
      rw [hflag, Task.owing, if_pos ⟨hl, by rw [hst]; rfl, hq⟩]
      simp only [Obs.isGcAlloc, if_true]
      omega
  | fallback hx hst hpc | append hx hpc | gcServe hx hpc | gcReadEnd hx hpc =>
    exact Or.inl (key rfl (sum_owing_modify hx (Task.owing_congr rfl rfl (by rw [hpc]; rfl))).le)
  | pend hx hty hst hpc =>
    refine Or.inl (key rfl (sum_owing_modify hx (Task.owing_congr rfl rfl ?_)).le)
    rcases hpc with hpc | ⟨j, hpc⟩ <;> rw [hpc] <;> rfl
  | apply hx hty hpc | gcWritten hx hty hpc | gcInsert hx hty hst hpc =>
    exact Or.inl (key rfl (sum_owing_modify hx (Task.owing_congr rfl rfl (by rw [hpc]; rfl))).le)
  | gcPass hx hty hpc =>
    obtain ⟨⟨v, hp⟩, -⟩ := (T.shape _ _ hx).gc hty
    refine Or.inl (key rfl (sum_owing_modify hx (Task.owing_congr rfl ?_ (by rw [hpc]; rfl))).le)
    cases hp <;> simp_all [TaskStatus.hasBlock]
  | @untree t z x hx hpc hz | @gcSkip t x hx _ hpc | @skipEnd t v x hx _ hpc
  | @remap t z v p x hx _ hpc =>
    refine Or.inl (key rfl ?_)
    exact (sum_owing_le hx (Task.owing_quits rfl)).le.trans (by have := x.owing_nonneg; omega)
  | dropRef ht hx => exact Or.inl (key rfl (sum_owing_modify hx rfl).le)
  | @destroy t x ht hx hr =>
    refine Or.inl (key rfl ?_)
    rw [Heap.sum_free hx]
    have := x.owing_nonneg
    omega
  | @destroyCall t g v x y ht hx hr hty hl hy hgc =>
    have hx' : (k.tasks.free g).get t = some x := by
      rw [Heap.get_free, if_neg, hx]
      rintro rfl
      cases hx.symm.trans hy
      exact hty hgc
    refine Or.inl (key rfl ?_)
    rw [Heap.sum_free hx', Heap.sum_free hy]
    have := x.owing_nonneg
    have := y.owing_nonneg
    omega
  | @nextUser t l hr hret =>
    obtain ⟨x, hx, -, hpc⟩ := Q.users.2 t (by simp [hr, RetryPc.usersLeft])
    exact Or.inl (key rfl (sum_owing_modify hx (Task.owing_congr rfl rfl (by rw [hpc]; rfl))).le)
  | @nextGc t l hr hret =>
    obtain ⟨x, hx, -, hpc⟩ := Q.gcs.2 t (by simp [hr, RetryPc.gcsLeft])
    exact Or.inl (key rfl (sum_owing_modify hx (Task.owing_congr rfl rfl (by rw [hpc]; rfl))).le)
  | @gcFind g tk x y hx hty hst hpc htk hy hb =>
    have hfr : x.Fresh := by
      rw [Task.Fresh, if_pos hty, hpc]
      exact ⟨hst, by rintro ⟨⟩, by rintro ⟨⟩, by rintro ⟨⟩⟩
    have hx' : (k.tasks.modify tk Task.incRef).get g = some x := by
      rw [Heap.get_modify_ne (TaskInv.ne_of_fresh T hx hfr htk), hx]
    refine Or.inl (key rfl (Eq.le ?_))
    exact (sum_owing_modify hx' (Task.owing_congr rfl rfl (by rw [hpc]; rfl))).trans
      (sum_owing_modify hy rfl)
  | @gcFound g tk x hx hty hpc =>
    -- the user write takes over what the gc task owes
    obtain ⟨y, hy, hty', hl⟩ := V.cover.found g tk x hx hpc
    have hne : tk ≠ g := by
      rintro rfl
      cases hx.symm.trans hy
      exact hty' hty
    have howe : x.Owes := by
      obtain ⟨⟨v, hp⟩, hl'⟩ := (T.shape g x hx).gc hty
      refine ⟨hl', ?_, by rw [hpc]; rfl⟩
      cases hp <;> simp_all [TaskStatus.hasBlock]
    have h1 := sum_owing_le (f := fun x => { x with error := some .enoent, pc := .waiting tk })
      hx (Task.owing_quits rfl)
    have hy' : (k.tasks.modify g fun x =>
        { x with error := some .enoent, pc := .waiting tk }).get tk = some y := by
      rw [Heap.get_modify_ne hne, hy]
    refine Or.inl (key rfl ?_)
    change ((k.tasks.modify g _).modify tk _).sum Task.owing ≤ _
    rw [Heap.sum_modify hy', h1, Task.owing_eq_zero (x := y) fun h => h.1 hl, Task.owing, if_pos howe]
    have : Task.owing { y with link := .node g } ≤ 1 := by
      unfold Task.owing
      split_ifs <;> omega
    omega
  | _ => exact Or.inl (key (by simp [Lbz.gcAllocs, Obs.isGcAlloc]) le_rfl)

/-! ## The victim -/

section

variable {ph : ℕ → ℤ} (geo : Geom c) (B : Base c k) (V : VictimInv c ph k) (hf : l ≠ .fault)
  (hsel : l ≠ .select) (hst : l ≠ .stale) (hm : Move c k l k')

include geo B V hf hsel hst hm

/-- **What the scan has ahead after a move.** -/
theorem VictimInv.ahead : live c.zoneNrBlocks (k'.gcPc.ahead k'.zmd) ≤
      live c.zoneNrBlocks (k.gcPc.ahead k.zmd) ∧
    ∀ z iter b, k.gcPc = .scan z iter (some b) → iter < (k.zmd.zones z).wpBlock →
      k'.gcPc = .scan z (iter + 1) ((k.zmd.zones z).zrms (iter + 1)) →
      live c.zoneNrBlocks (k'.gcPc.ahead k'.zmd) + 1 ≤
        live c.zoneNrBlocks (k.gcPc.ahead k.zmd) := by
  have V' := V.move geo B hf hm hst
  -- the victim loses entries only
  have hzrms : ∀ {z iter pos}, k'.gcPc = .scan z iter pos → ∀ o,
      (k'.zmd.zones z).zrms o ≠ none → (k.zmd.zones z).zrms o ≠ none := by
    intro z iter pos hpc o ho
    obtain ⟨b, hb⟩ := Option.ne_none_iff_exists'.mp ho
    rw [(V.step geo B hf hsel hm (V'.guard.scan _ _ _ hpc)).zrms hb]
    rintro ⟨⟩
  -- the scan goes on by one place, past what it had fetched
  have hnext : ∀ {z iter pos}, k.gcPc = .scan z iter pos →
      k'.gcPc = .scan z (iter + 1) ((k.zmd.zones z).zrms (iter + 1)) → ∀ o,
      k'.gcPc.ahead k'.zmd o ≠ none → o ≠ iter ∧ k.gcPc.ahead k.zmd o ≠ none := by
    intro z iter pos hpc hpc' o ho
    simp only [hpc', GcPc.ahead] at ho
    simp only [hpc, GcPc.ahead]
    split_ifs at ho with h1 h2
    · subst h1
      rw [if_neg (by omega), if_pos (by omega)]
      exact ⟨by omega, ho⟩
    · rw [if_neg (by omega), if_pos (by omega)]
      exact ⟨by omega, hzrms hpc' o ho⟩
    · exact absurd rfl ho
  constructor
  · refine live_mono fun o ho => ?_
    cases hm.scanStep with
    | same h =>
      rw [h] at ho
      cases hpc : k.gcPc with
      | idle =>
        rw [hpc] at ho
        exact absurd rfl ho
      | scan z iter pos =>
        rw [hpc] at ho
        simp only [GcPc.ahead] at ho ⊢
        split_ifs at ho ⊢
        · exact ho
        · exact hzrms (h.trans hpc) o ho
        · exact absurd rfl ho
    | select h => exact absurd h hsel
    | free z iter hpc hpc' => exact (hnext hpc hpc' o ho).2
    | block z iter b hpc hi hpc' ht => exact (hnext hpc hpc' o ho).2
    | last z iter pos hpc hi hpc' =>
      rw [hpc'] at ho
      exact absurd rfl ho
  · intro z iter b hpc hi hpc'
    have hz := V.maps.scan _ _ _ hpc
    have hiN : iter < c.zoneNrBlocks := by
      have := (V.maps.inv.wp z hz.1).2
      omega
    have hself : k.gcPc.ahead k.zmd iter = some b := by simp only [hpc, GcPc.ahead, if_true]
    have hle : live c.zoneNrBlocks (k'.gcPc.ahead k'.zmd) ≤
        live c.zoneNrBlocks (Function.update (k.gcPc.ahead k.zmd) iter none) := by
      refine live_mono fun o ho => ?_
      obtain ⟨h1, h2⟩ := hnext hpc hpc' o ho
      rwa [Function.update_of_ne h1]
    have hone := live_update hiN (k.gcPc.ahead k.zmd) none
    rw [hself] at hone
    simp only [one, Option.isSome_some, Option.isSome_none, if_true, Bool.false_eq_true,
      if_false] at hone
    omega

/-- **What is needed after a move.** -/
theorem VictimInv.need : need c k' + gcAllocs k'.hist ≤ need c k + gcAllocs k.hist := by
  obtain ⟨h1, h2⟩ := V.ahead geo B hf hsel hst hm
  unfold Lbz.need
  rcases hm.owing B V hf with h | ⟨⟨z, iter, b, hpc, hi, hpc'⟩, h⟩
  · omega
  · have := h2 z iter b hpc hi hpc'
    omega

end

omit [Inhabited α] in
/-- Nothing is needed where there is no victim. -/
theorem VictimInv.need_idle {ph : ℕ → ℤ} (B : Base c k) (V : VictimInv c ph k)
    (hg : ∀ z, (k.zmd.zones z).flags .gc = false) : Lbz.need c k = 0 := by
  have hpc : k.gcPc = .idle := by
    cases hpc : k.gcPc with
    | idle => rfl
    | scan z iter pos =>
      have := V.guard.scan _ _ _ hpc
      rw [hg] at this
      cases this
  have hmv : ∀ t x, k.tasks.get t = some x → ¬ x.Moving := fun t x hx hmv => by
    obtain ⟨v, -, -, h⟩ := hmv.evacuates V hx
    rw [hg] at h
    cases h
  rw [Lbz.need, hpc, live_eq_zero (g := GcPc.ahead k.zmd .idle) fun _ _ => rfl,
    Heap.sum_eq_zero fun t x hx => ?_]
  · rfl
  refine Task.owing_eq_zero fun h => ?_
  by_cases hty : x.type = .gc
  · exact hmv t x hx ⟨hty, fun hd => by have := h.2.2; rw [hd] at this; cases this⟩
  · -- the partner of a write is a gc task that waits for it
    obtain ⟨-, -, hio⟩ := (B.tasks.shape t x hx).user hty
    cases hl : x.link with
    | null => exact h.1 hl
    | iosched => exact hio hl
    | node g =>
      obtain ⟨y, hy, hgc, hpc', -⟩ := B.tasks.link t x hx hty g hl
      exact hmv g y hy ⟨hgc, by rw [hpc']; rintro ⟨⟩⟩

omit [Inhabited α] in
/-- What a new victim needs is what it weighs. -/
theorem VictimInv.need_select (k' : Core α) (B : Base c k) (V : VictimInv c 0 k) {z : ℕ}
    {mod : VictimMod}
    (hbusy : ¬ k.Busy) (hz : victim c k.zmd mod = some z)
    (ht : k'.tasks = k.tasks) (hm : k'.zmd = takeVictim k.zmd z)
    (hpc : k'.gcPc = .scan z 0 ((k.zmd.zones z).zrms 0)) :
    Lbz.need c k' ≤ (k.zmd.zones z).weight ∧ (k.zmd.zones z).weight < c.zoneNrBlocks := by
  have hlt : z < c.nrZones := by
    obtain ⟨pl, P⟩ := B.places
    exact lt_of_place P (by rw [(P.full z).mp (victim_mem hz)]; rintro ⟨⟩)
  have hw := V.maps.inv.weight z hlt
  have hidle := V.need_idle B (not_gc_of_not_busy B hbusy)
  have hsum := sum_owing_nonneg k.tasks
  have hsum' : 0 ≤ k.tasks.sum (Task.unappliedIn z) := Heap.sum_nonneg _ fun x => by
    unfold Task.unappliedIn
    split_ifs <;> omega
  have hlive : live c.zoneNrBlocks (k'.gcPc.ahead k'.zmd) ≤
      live c.zoneNrBlocks (k.zmd.zones z).zrms := by
    refine live_mono fun o ho => ?_
    rw [hpc, hm] at ho
    simp only [GcPc.ahead, (SameMaps.takeVictim k.zmd z).zrms] at ho
    split_ifs at ho with h1 h2
    · rwa [h1]
    · exact ho
    · exact absurd rfl ho
  refine ⟨?_, victim_weight hz (V.maps.inv.weight_nonneg hlt)⟩
  rw [Lbz.need] at hidle ⊢
  rw [ht, hw]
  change _ ≤ _ + _ + (0 : ℤ)
  omega

/-! ## The cycles -/

def Obs.isSelect : Obs α → Bool
  | .select _ _ => true
  | _ => false

/-- What the blocks taken with `LBZ_ALLOC_FLAG_GC` have left of the weight of the last victim. -/
def quota : List (Obs α) → ℤ
  | [] => 0
  | .select _ w :: _ => w
  | .alloc _ .gc :: l => quota l - 1
  | _ :: l => quota l

omit [Inhabited α] in
theorem quota_append : ∀ (new l : List (Obs α)), new.countP Obs.isSelect = 0 →
    quota (new ++ l) = quota l - gcAllocs new
  | [], l, _ => by simp [gcAllocs]
  | ob :: new, l, h => by
    rw [List.countP_cons] at h
    have ih := quota_append new l (by omega)
    cases ob with
    | select z w => simp [Obs.isSelect] at h
    | alloc t flag =>
      cases flag with
      | gc =>
        change quota (new ++ l) - 1 = _
        rw [ih, gcAllocs, gcAllocs, List.countP_cons]
        simp only [Obs.isGcAlloc, if_true]
        push_cast
        ring
      | user =>
        change quota (new ++ l) = _
        simpa [gcAllocs, List.countP_cons, Obs.isGcAlloc] using ih
    | _ =>
      change quota (new ++ l) = _
      simpa [gcAllocs, List.countP_cons, Obs.isGcAlloc] using ih

omit [Inhabited α] in
/-- What is written down without the choice of a victim lowers the quota. -/
theorem quota_suffix {l l' : List (Obs α)} (h : l <:+ l')
    (hn : l'.countP Obs.isSelect = l.countP Obs.isSelect) :
    quota l' + gcAllocs l' = quota l + gcAllocs l := by
  obtain ⟨new, rfl⟩ := h
  rw [List.countP_append] at hn
  rw [quota_append _ _ (by omega), gcAllocs, gcAllocs, gcAllocs, List.countP_append]
  push_cast
  ring

theorem Move.selects (hsel : l ≠ .select) (hm : Move c k l k') :
    k'.hist.countP Obs.isSelect = k.hist.countP Obs.isSelect := by
  cases hm with
  | select => exact absurd rfl hsel
  | _ => simp [Obs.isSelect]

theorem Move.select_mem (hsel : l ≠ .select) (hm : Move c k l k') {z : ℕ} {w : ℤ}
    (hw : .select z w ∈ k'.hist) : .select z w ∈ k.hist := by
  cases hm with
  | select => exact absurd rfl hsel
  | _ => simpa using hw

structure CycleInv (c : Conf) (k : Core α) : Prop where
  need : need c k ≤ quota k.hist
  past : ∀ l, l <:+ k.hist → 0 ≤ quota l
  weights : ∀ (z : ℕ) (w : ℤ), .select z w ∈ k.hist → w < c.zoneNrBlocks

theorem CycleInv.move (geo : Geom c) (B : Base c k) (V : VictimInv c 0 k) (a : CycleInv c k)
    (hf : l ≠ .fault) (hst : l ≠ .stale) (hm : Move c k l k') : CycleInv c k' := by
  by_cases hsel : l = .select
  · subst hsel
    cases hm with
    | @select z mod hpc hbusy hz =>
      obtain ⟨h1, h2⟩ := V.need_select { k with
        zmd := takeVictim k.zmd z
        gcZone := some z
        gcPc := .scan z 0 ((k.zmd.zones z).zrms 0)
        hist := .select z (k.zmd.zones z).weight :: k.hist } B hbusy hz rfl rfl rfl
      refine ⟨h1, fun l hl => ?_, fun z' w hw => ?_⟩
      · rcases List.suffix_cons_iff.mp hl with rfl | hl
        · exact (need_nonneg _).trans h1
        · exact a.past l hl
      · rcases List.mem_cons.mp hw with hw | hw
        · obtain ⟨-, rfl⟩ := Obs.select.inj hw
          exact h2
        · exact a.weights z' w hw
  · have hn := V.need geo B hf hsel hst hm
    have hs := hm.selects hsel
    have hq := quota_suffix hm.hist_suffix hs
    have hneed : Lbz.need c k' ≤ quota k'.hist := by
      have := a.need
      omega
    refine ⟨hneed, fun l hl => ?_, fun z w hw => a.weights z w (hm.select_mem hsel hw)⟩
    rcases List.suffix_or_suffix_of_suffix hl hm.hist_suffix with h | h
    · exact a.past l h
    · -- the moment is between the two states
      have h1 : l.countP Obs.isSelect ≤ k'.hist.countP Obs.isSelect := hl.sublist.countP_le
      have h2 : k.hist.countP Obs.isSelect ≤ l.countP Obs.isSelect := h.sublist.countP_le
      have h3 := quota_suffix hl (by omega)
      have h4 : l.countP Obs.isGcAlloc ≤ k'.hist.countP Obs.isGcAlloc := hl.sublist.countP_le
      have h5 := need_nonneg (c := c) k'
      unfold gcAllocs at h3
      omega

variable {o : Options} {report : List BlkZone} {s₀ s : Sys α}

theorem cycle_run (he : EmptyReport o report) (h0 : initSys o report = some s₀)
    (hrun : Runs (stepRel (step (confOf o report))) (fun s e => e.NoError ∧ e.NoCarry s) s₀ s) :
    Sound (confOf o report) (fun k => VictimInv (confOf o report) 0 k ∧
      CycleInv (confOf o report) k) s := by
  have geo := geom_of_empty he (initSys_eq h0).1
  have V : VictimInv (confOf o report) 0 s₀.core := victim_start he h0
  refine Sound.uncarried geo (fun _ _ _ hB a hf hl hm =>
    ⟨a.1.move geo hB hf hm hl, a.2.move geo hB a.1 hf hl hm⟩) hrun (sound_of_empty he h0 ⟨V, ?_⟩)
  have B := base_of_empty he h0
  obtain ⟨-, m, -, rfl⟩ := initSys_eq h0
  refine ⟨(V.need_idle B (not_gc_of_not_busy B ?_)).le, fun l hl => ?_, by rintro z w ⟨⟩⟩
  · rintro ⟨z, ⟨⟩, -⟩
  · rw [List.suffix_nil.mp hl]
    exact le_rfl

/-- **Each cycle of garbage collection gains space**: from the choice of a victim to that of the
next one, no more blocks are taken with `LBZ_ALLOC_FLAG_GC`, by gc tasks and by user writes, than
the victim has valid blocks, and it has one less than it gives back; before the first choice none is
taken. -/
theorem cycle_gains (he : EmptyReport o report) (h0 : initSys o report = some s₀)
    (hrun : Runs (stepRel (step (confOf o report))) (fun s e => e.NoError ∧ e.NoCarry s) s₀ s)
    {later new old : List (Obs α)} (hno : ∀ ob ∈ new, ob.isSelect = false) :
    (∀ (z : ℕ) (w : ℤ), s.hist = later ++ new ++ .select z w :: old →
      gcAllocs new ≤ w ∧ w < (confOf o report).zoneNrBlocks) ∧
    (s.hist = later ++ new → gcAllocs new = 0) := by
  obtain ⟨-, d, -, -, -, a⟩ := cycle_run he h0 hrun
  have hcount : new.countP Obs.isSelect = 0 := List.countP_eq_zero.mpr fun ob hob => by
    rw [hno ob hob]
    rintro ⟨⟩
  refine ⟨fun z w hs => ⟨?_, a.weights z w ?_⟩, fun hs => ?_⟩
  · have h := a.past (new ++ .select z w :: old) ⟨later, by rw [← List.append_assoc]; exact hs.symm⟩
    rw [quota_append _ _ hcount] at h
    change 0 ≤ w - _ at h
    omega
  · change Obs.select z w ∈ s.hist
    rw [hs]
    exact List.mem_append_right _ List.mem_cons_self
  · have h := a.past (new ++ []) ⟨later, by rw [List.append_nil]; exact hs.symm⟩
    rw [quota_append _ _ hcount] at h
    change 0 ≤ 0 - _ at h
    omega

/-- Zone 0 is chosen with one valid block, for which one block is taken. -/
theorem cycle_gains_moved : ∃ (s : Sys ℕ) (new old : List (Obs ℕ)),
    s.hist = new ++ .select 0 1 :: old ∧ gcAllocs new = 1 ∧ gcAllocs new ≤ (1 : ℤ) ∧ (1 : ℤ) < 2 := by
  let conf := confOf smallOptions (emptyReport 4 16 16)
  let s₀ : Sys ℕ := (initSys smallOptions (emptyReport 4 16 16)).get (by decide +kernel)
  let n (s : Sys ℕ) := s.hist.findIdx Obs.isSelect
  obtain ⟨s, hrun, h⟩ := exists_run (step conf) (fun s e => e.NoError ∧ e.NoCarry s)
    (fun s => decide (s.hist = s.hist.take (n s) ++ .select 0 1 :: s.hist.drop (n s + 1) ∧
      (∀ ob ∈ s.hist.take (n s), ob.isSelect = false) ∧ gcAllocs (s.hist.take (n s)) = 1)) s₀ smallGc
    (by decide +kernel)
  obtain ⟨h1, h2, h3⟩ := of_decide_eq_true h
  have hs : s.hist = [] ++ s.hist.take (n s) ++ .select 0 1 :: s.hist.drop (n s + 1) := h1
  obtain ⟨h4, h5⟩ := (cycle_gains smallOptions_empty (Option.some_get _).symm hrun h2).1 0 1 hs
  exact ⟨s, _, _, h1, h3, h4, h5⟩

end

end Lbz
