import Lbz.Story
import Lbz.Frame
import Lbz.Start

/-!
# Writes that wait on a faulty device

* `Parked k`: a task that waits for the retry worker is in one of its queues;
* `Inflight k`: `user_write_inflight_io_cnt` is the number of writes not ended, with the completions
  of the others still to be made;
* `Drained s`: nothing is at the device, and no call works on a write;
* **`waiting_failed_iff`**: once the device is faulty, the writes in `lbz_user_pending` are ended
  exactly if there are none.
-/

namespace Lbz

variable {α : Type}

/-! ## Tasks that wait -/

/-- The tasks of `h` that wait are in `users` or in `gcs`. -/
def ParkedIn (h : Heap (Task α)) (users gcs : List ℕ) : Prop :=
  h.All fun t x => x.pc = .pending → t ∈ if x.type = .gc then gcs else users

def Parked (k : Core α) : Prop :=
  ParkedIn k.tasks (k.userPending ++ k.retry.usersLeft) (k.gcWrites ++ k.retry.gcsLeft)

namespace ParkedIn

variable {h : Heap (Task α)} {users gcs users' gcs' : List ℕ} {t : ℕ} {x : Task α}

/-- Nothing leaves the queues. -/
theorem mono (a : ParkedIn h users gcs) (hu : users ⊆ users') (hg : gcs ⊆ gcs') :
    ParkedIn h users' gcs' := by
  intro i y hy hpc
  have hi := a i y hy hpc
  split_ifs at hi ⊢
  · exact hg hi
  · exact hu hi

/-- A task that does not begin to wait changes. -/
theorem modify (a : ParkedIn h users gcs) {f : Task α → Task α}
    (hf : ∀ x, h.get t = some x → (f x).pc = .pending → x.pc = .pending ∧ (f x).type = x.type) :
    ParkedIn (h.modify t f) users gcs :=
  Heap.All.modify a fun y hy hp hpc => by
    obtain ⟨h1, h2⟩ := hf y hy hpc
    rw [h2]
    exact hp h1

/-- The task at `t` begins to wait. -/
theorem push (a : ParkedIn h users gcs) (hx : h.get t = some x) {f : Task α → Task α}
    (hu : users ⊆ users') (hg : gcs ⊆ gcs') (ht : t ∈ if (f x).type = .gc then gcs' else users') :
    ParkedIn (h.modify t f) users' gcs' :=
  Heap.All.modify_at (a.mono hu hg) hx fun _ _ => ht

/-- A task leaves its queue and goes on. -/
theorem pop (a : ParkedIn h users gcs) {f : Task α → Task α} (hf : ∀ x, (f x).pc ≠ .pending)
    (hu : ∀ i ∈ users, i = t ∨ i ∈ users') (hg : ∀ i ∈ gcs, i = t ∨ i ∈ gcs') :
    ParkedIn (h.modify t f) users' gcs' := by
  intro i y hy hpc
  by_cases e : i = t
  · subst e
    rw [Heap.get_modify, if_pos rfl] at hy
    obtain ⟨z, -, rfl⟩ := Option.map_eq_some_iff.mp hy
    exact absurd hpc (hf z)
  · rw [Heap.get_modify_ne e] at hy
    have hi := a i y hy hpc
    split_ifs at hi ⊢
    · exact (hg i hi).resolve_left e
    · exact (hu i hi).resolve_left e

end ParkedIn

section

variable [Inhabited α] {c : Conf} {k k' : Core α} {l : Label}

theorem Parked.move (T : Tasks k) (a : Parked k) (hm : Move c k l k') : Parked k' := by
  cases hm with
  | openZone | complete | putZone | readMiss | readHit | serve | endRead | select | scanFree
  | scanEnd | peek | wkStart | wkIdle | wkNext | wkFull | wkSticky | wkFree | wkClose | wkLink
  | wkEmpty | wkCarried | wkReset | wkPublish | discard | serveFail | wkFail => exact a
  | submitWrite | scanBlock => exact Heap.All.alloc a (by rintro ⟨⟩)
  | retryUsers hr =>
    refine ParkedIn.mono a ?_ ?_
    · simp [hr, RetryPc.usersLeft]
    · simp [hr, RetryPc.gcsLeft]
  | retryGcs hr =>
    refine ParkedIn.mono a ?_ ?_
    · simp [hr, RetryPc.usersLeft]
    · simp [hr, RetryPc.gcsLeft]
  | retryDone hr =>
    refine ParkedIn.mono a ?_ ?_
    · simp [hr, RetryPc.usersLeft]
    · simp [hr, RetryPc.gcsLeft]
  | @nextUser t l hr =>
    refine ParkedIn.pop a (fun _ => by rintro ⟨⟩) (fun i hi => ?_) (fun i hi => Or.inr ?_)
    · simp only [hr, RetryPc.usersLeft, List.mem_append, List.mem_cons] at hi ⊢
      tauto
    · simpa [hr, RetryPc.gcsLeft] using hi
  | @nextGc t l hr =>
    refine ParkedIn.pop a (fun _ => by rintro ⟨⟩) (fun i hi => Or.inr ?_) (fun i hi => ?_)
    · simpa [hr, RetryPc.usersLeft] using hi
    · simp only [hr, RetryPc.gcsLeft, List.mem_append, List.mem_cons] at hi ⊢
      tauto
  | @conflict t tk x y hx hty hst hpc htk hy hb =>
    have hu : k.userPending ++ k.retry.usersLeft ⊆ k.userPending ++ [t] ++ k.retry.usersLeft := by
      simp
    have a' : ParkedIn (k.tasks.modify tk Task.incRef) _ _ :=
      ParkedIn.modify a fun x _ hpc => ⟨hpc, rfl⟩
    intro i w hw hpc'
    by_cases e : i = t
    · subst e
      rw [Heap.get_modify, if_pos rfl] at hw
      obtain ⟨w', hw', rfl⟩ := Option.map_eq_some_iff.mp hw
      have hty' : w'.type ≠ .gc := by
        rw [Heap.get_modify] at hw'
        split_ifs at hw' with e
        · obtain ⟨v, hv, rfl⟩ := Option.map_eq_some_iff.mp hw'
          cases hx.symm.trans hv
          exact hty
        · cases hx.symm.trans hw'
          exact hty
      simp [hty']
    · rw [Heap.get_modify_ne e] at hw
      exact ParkedIn.mono a' hu (List.Subset.refl _) i w hw hpc'
  | @pend t x hx hty hst hpc =>
    refine ParkedIn.push a hx ?_ (List.Subset.refl _) ?_
    · simp
    · simp [hty]
  | @gcReadEnd g x hx hpc =>
    obtain ⟨hty, -⟩ := Tame.gcReadEnd (T.shape g x hx) hpc
    refine ParkedIn.push a hx (List.Subset.refl _) ?_ ?_
    · simp
    · simp [hty]
  | destroy => exact Heap.All.free a _
  | destroyCall => exact Heap.All.free (Heap.All.free a _) _
  | dropRef => exact ParkedIn.modify a fun _ _ hpc => ⟨hpc, rfl⟩
  | insert => exact ParkedIn.modify a fun _ _ hpc => ⟨hpc, rfl⟩
  | @gcFind g tk =>
    have a' : ParkedIn (k.tasks.modify tk Task.incRef) _ _ :=
      ParkedIn.modify a fun _ _ hpc => ⟨hpc, rfl⟩
    exact a'.modify fun _ _ => by rintro ⟨⟩
  | @gcFound g tk =>
    refine ParkedIn.modify (ParkedIn.modify a fun _ _ => ?_) fun _ _ hpc => ⟨hpc, rfl⟩
    exact (by rintro ⟨⟩)
  | fallback | dispatch | append | apply | untree | gcServe | gcInsert | gcSkip | gcPass | gcWritten
  | remap | skipEnd | dispatchFail | fallbackFail | allocFail | devFail | writeFail | gcServeFail
  | gcReadFail | gcWriteFail | release => exact ParkedIn.modify a fun _ _ => by rintro ⟨⟩

end

/-! ## Writes that have not ended -/

/-- A user task that some code still has to work on. -/
def Task.live (x : Task α) : ℤ := if x.type ≠ .gc ∧ x.pc ≠ .done then 1 else 0

/-- The releases of `l` that are made for `b`. -/
def putsBy (b : PutBy) (l : List (ℕ × PutBy)) : ℕ := l.countP fun p => decide (p.2 = b)

def Inflight (k : Core α) : Prop :=
  k.userWriteInflight = k.tasks.sum Task.live + k.completes.length + putsBy .write k.puts

/-- The number of writes not ended, where one task changes. -/
theorem sum_live_modify {h : Heap (Task α)} {t : ℕ} {x : Task α} (hx : h.get t = some x)
    {f : Task α → Task α} (hty : (f x).type = x.type) (hpc : (f x).pc = .done ↔ x.pc = .done) :
    (h.modify t f).sum Task.live = h.sum Task.live := by
  have hl : (f x).live = x.live := by simp only [Task.live, hty, ne_eq, hpc]
  rw [Heap.sum_modify hx, hl]
  ring

theorem sum_live_done {h : Heap (Task α)} {t : ℕ} {x : Task α} (hx : h.get t = some x)
    {f : Task α → Task α} (hty : x.type ≠ .gc) (hpc : x.pc ≠ .done) (hf : (f x).pc = .done) :
    (h.modify t f).sum Task.live = h.sum Task.live - 1 := by
  rw [Heap.sum_modify hx, Task.live, if_pos ⟨hty, hpc⟩, Task.live, if_neg fun h => h.2 hf]
  ring

theorem sum_live_gc {h : Heap (Task α)} {t : ℕ} {x : Task α} (hx : h.get t = some x)
    {f : Task α → Task α} (hty : x.type = .gc) (hf : (f x).type = .gc) :
    (h.modify t f).sum Task.live = h.sum Task.live := by
  rw [Heap.sum_modify hx, Task.live, if_neg fun h => h.1 hty, Task.live, if_neg fun h => h.1 hf]
  ring

theorem putsBy_cons (w : PutBy) (z : ℕ) (b : PutBy) (l : List (ℕ × PutBy)) :
    putsBy w ((z, b) :: l) = putsBy w l + if b = w then 1 else 0 := by
  simp [putsBy, List.countP_cons]

theorem putsBy_erase (w : PutBy) {z : ℕ} {b : PutBy} {l : List (ℕ × PutBy)} (h : (z, b) ∈ l) :
    (putsBy w (l.erase (z, b)) : ℤ) = putsBy w l - if b = w then 1 else 0 := by
  have hp := (List.perm_cons_erase h).countP_eq fun p => decide (p.2 = w)
  have hc := putsBy_cons w z b (l.erase (z, b))
  unfold putsBy at hc ⊢
  rw [hp, hc]
  split_ifs <;> simp

section

variable {c : Conf} {k k' : Core α} {l : Label}

theorem Inflight.keep (a : Inflight k) (hn : k'.userWriteInflight = k.userWriteInflight)
    (hs : k'.tasks.sum Task.live = k.tasks.sum Task.live) (hc : k'.completes = k.completes)
    (hp : putsBy .write k'.puts = putsBy .write k.puts) : Inflight k' := by
  rw [Inflight, hn, hs, hc, hp]
  exact a

variable [Inhabited α]

theorem Inflight.move (T : Tasks k) (Q : Queues k) (a : Inflight k) (hm : Move c k l k') :
    Inflight k' := by
  unfold Inflight at a
  cases hm with
  | openZone | readMiss | readHit | serve | select | scanFree
  | wkStart | wkIdle | wkNext | wkFull | wkSticky | wkFree | wkClose | wkLink
  | wkEmpty | wkCarried | wkReset | wkPublish | discard | serveFail | wkFail | retryUsers | retryGcs
  | retryDone => exact a
  | endRead | scanEnd | peek => exact Inflight.keep a rfl rfl rfl (putsBy_cons ..)
  | submitWrite b d more hty =>
    have hl : (Task.forWrite _ b d more).live = 1 := if_pos ⟨hty, by rintro ⟨⟩⟩
    simp only [Inflight, Heap.sum_alloc, hl, a]
    ring
  | scanBlock =>
    refine Inflight.keep a rfl ?_ rfl rfl
    rw [Heap.sum_alloc, Task.live, if_neg fun h => h.1 rfl, add_zero]
  | @complete z hz =>
    have hlen := List.length_erase_of_mem hz
    have hpos := List.length_pos_of_mem hz
    simp only [Inflight, putsBy_cons, hlen, a, if_true]
    omega
  | @putZone z b hz =>
    simp only [Inflight, putsBy_erase .write hz, a]
    split_ifs <;> ring
  | @untree t z x hx hpc hz =>
    obtain ⟨hty, -⟩ := (T.shape t x hx).ended hpc
    have hs := sum_live_done (f := fun x => { x with pc := .done, refcount := x.refcount - 1 }) hx hty
      (by rw [hpc]; rintro ⟨⟩) rfl
    simp only [Inflight, hs, List.length_cons, a]
    omega
  | @allocFail t x hx hty hst hpc =>
    have hd : x.pc ≠ .done := by rcases hpc with hpc | ⟨j, hpc⟩ <;> rw [hpc] <;> rintro ⟨⟩
    have hs := sum_live_done (f := fun x => { x with refcount := x.refcount - 1, pc := .done }) hx hty
      hd rfl
    simp only [Inflight, hs, a]
    ring
  | @nextUser t l hr hret =>
    obtain ⟨x, hx, -, hpc⟩ := Q.users.2 t (by simp [hr, RetryPc.usersLeft])
    exact Inflight.keep a rfl (sum_live_modify hx rfl (by simp [hpc])) rfl rfl
  | @nextGc t l hr hret =>
    obtain ⟨x, hx, hty, -⟩ := Q.gcs.2 t (by simp [hr, RetryPc.gcsLeft])
    exact Inflight.keep a rfl (sum_live_gc hx hty hty) rfl rfl
  | @conflict t tk x y hx hty hst hpc htk hy hb =>
    have hf : x.Fresh := by rw [Task.Fresh, if_neg hty]; exact hst
    have hx' : (k.tasks.modify tk Task.incRef).get t = some x := by
      rw [Heap.get_modify_ne (TaskInv.ne_of_fresh T hx hf htk), hx]
    refine Inflight.keep a rfl ?_ rfl rfl
    exact (sum_live_modify hx' rfl (by simp [hpc])).trans (sum_live_modify hy rfl Iff.rfl)
  | @gcFind g tk x y hx hty hst hpc htk hy hb =>
    have hf : x.Fresh := by
      rw [Task.Fresh, if_pos hty, hpc]
      exact ⟨hst, by rintro ⟨⟩, by rintro ⟨⟩, by rintro ⟨⟩⟩
    have hx' : (k.tasks.modify tk Task.incRef).get g = some x := by
      rw [Heap.get_modify_ne (TaskInv.ne_of_fresh T hx hf htk), hx]
    refine Inflight.keep a rfl ?_ rfl rfl
    exact (sum_live_gc hx' hty hty).trans (sum_live_modify hy rfl Iff.rfl)
  | @gcFound g tk x hx hty hpc =>
    obtain ⟨y, hy, -⟩ := T.found g x hx tk hpc
    have h1 := sum_live_gc (f := fun x => { x with error := some .enoent, pc := .waiting tk }) hx hty
      hty
    refine Inflight.keep a rfl (Eq.trans ?_ h1) rfl rfl
    by_cases e : tk = g
    · subst e
      exact sum_live_modify (Heap.get_modify_self hx _) rfl Iff.rfl
    · exact sum_live_modify (x := y) (by rw [Heap.get_modify_ne e, hy]) rfl Iff.rfl
  | fallback hx hst hpc | fallbackFail hx hst hpc | insert hx hty hst hpc | append hx hpc
  | apply hx hty hpc | devFail hx hpc | writeFail hx hty hpc | gcServe hx hpc | gcServeFail hx hpc
  | gcReadEnd hx hpc =>
    exact Inflight.keep a rfl (sum_live_modify hx rfl (by simp [hpc])) rfl rfl
  | pend hx hty hst hpc | dispatch hx hst hpc | dispatchFail hx hty hst hpc =>
    refine Inflight.keep a rfl (sum_live_modify hx rfl (iff_of_false (by rintro ⟨⟩) ?_)) rfl rfl
    rcases hpc with hpc | ⟨j, hpc⟩ <;> rw [hpc] <;> rintro ⟨⟩
  | gcInsert hx hty | gcSkip hx hty | gcPass hx hty | gcWritten hx hty | gcWriteFail hx hty =>
    exact Inflight.keep a rfl (sum_live_gc hx hty hty) rfl rfl
  | remap hx hty | release hx hty =>
    refine Inflight.keep a rfl (sum_live_gc hx hty hty) rfl ?_
    rw [putsBy_cons, putsBy_cons]
    rfl
  | skipEnd hx hty => exact Inflight.keep a rfl (sum_live_gc hx hty hty) rfl (putsBy_cons ..)
  | @gcReadFail g v x hx hpc hv =>
    have hty := (T.shape g x hx).read_type hpc
    exact Inflight.keep a rfl (sum_live_gc hx hty hty) rfl (putsBy_cons ..)
  | dropRef ht hx => exact Inflight.keep a rfl (sum_live_modify hx rfl Iff.rfl) rfl rfl
  | @destroy t x ht hx hr hl =>
    obtain ⟨hd, -⟩ := TaskInv.last T hx ht hr
    refine Inflight.keep a rfl ?_ rfl rfl
    rw [Heap.sum_free hx, Task.live, if_neg fun h => h.2 hd, sub_zero]
  | @destroyCall t g v x y ht hx hr hty hl hy hgc hpc hv =>
    obtain ⟨hd, -⟩ := TaskInv.last T hx ht hr
    have hx' : (k.tasks.free g).get t = some x := by
      rw [Heap.get_free, if_neg, hx]
      rintro rfl
      cases hx.symm.trans hy
      exact hty hgc
    refine Inflight.keep a rfl ?_ rfl (putsBy_cons ..)
    rw [Heap.sum_free hx', Heap.sum_free hy, Task.live, Task.live, if_neg fun h => h.1 hgc,
      if_neg fun h => h.2 hd, sub_zero, sub_zero]

end

/-! ## A device that has become faulty -/

/-- Nothing is at the device, and no call works on a write: each has ended, or waits. -/
structure Drained (s : Sys α) : Prop where
  tasks : s.tasks.All fun _ x => x.type ≠ .gc → x.pc = .pending ∨ x.pc = .done
  completes : s.completes = []
  puts : ∀ p ∈ s.puts, p.2 ≠ PutBy.write
  retry : s.retry = .idle

instance (s : Sys α) : Decidable (Drained s) :=
  decidable_of_iff ((s.tasks.All fun _ x => x.type ≠ .gc → x.pc = .pending ∨ x.pc = .done) ∧
    s.completes = [] ∧ (∀ p ∈ s.puts, p.2 ≠ PutBy.write) ∧ s.retry = .idle)
    ⟨fun h => ⟨h.1, h.2.1, h.2.2.1, h.2.2.2⟩, fun h => ⟨h.tasks, h.completes, h.puts, h.retry⟩⟩

section

variable [Inhabited α] {c : Conf} {s s' s'' : Sys α}

/-- No write leaves `lbz_user_pending` once the device is faulty. -/
theorem pending_prefix (hN : 0 < c.zoneNrBlocks) (a : Kept c (fun _ => True) s)
    (hf : s.faulty = true) (hrun : Runs (stepRel (step c)) (fun _ _ => True) s s')
    (hb : s'.bug = none) : s.userPending <+: s'.userPending ∧ s'.faulty = true := by
  have h : Kept c (fun _ => True) s' ∧
      (s'.bug = none → s.userPending <+: s'.userPending ∧ s'.faulty = true) := by
    refine Runs.inv (I := fun s' => Kept c (fun _ => True) s' ∧
      (s'.bug = none → s.userPending <+: s'.userPending ∧ s'.faulty = true))
      (fun s₁ e s₂ h _ hs => ?_) hrun ⟨a, fun _ => ⟨List.prefix_rfl, hf⟩⟩
    obtain ⟨h1, h2⟩ := h
    refine ⟨Kept.step hN (fun _ _ _ _ _ _ => trivial) hs h1, fun hb₂ => ?_⟩
    have hb₁ : s₁.bug = none := by
      rw [stepRel, step] at hs
      split_ifs at hs with h
      exact h.1
    obtain ⟨h3, h4⟩ := h2 hb₁
    obtain ⟨k, ⟨hB, -⟩, -, hk⟩ := h1
    cases hk hb₁
    rcases step_leaves hB hs with ⟨-, h5⟩ | ⟨-, ⟨-, -, h5, -⟩ | h5⟩
    · rw [hb₂] at h5
      cases h5
    · rw [h4] at h5
      cases h5
    · exact ⟨h3.trans h5.pending, h5.faulty h4⟩
  exact h.2 hb

omit [Inhabited α] in
theorem Task.live_nonneg (x : Task α) : 0 ≤ x.live := by
  unfold Task.live
  split_ifs <;> omega

omit [Inhabited α] in
/-- The counter of a device where writes only wait is zero if none does. -/
theorem Drained.inflight (hd : Drained s) (Q : Queues s.core) (P : Parked s.core)
    (a : Inflight s.core) : s.userWriteInflight = 0 ↔ s.userPending = [] := by
  have hc : s.core.completes = [] := hd.completes
  have hp : putsBy .write s.core.puts = 0 := by
    rw [putsBy, List.countP_eq_zero]
    intro p h hb
    exact hd.puts p h (of_decide_eq_true hb)
  have hu : s.core.retry.usersLeft = [] := by
    change s.retry.usersLeft = []
    rw [hd.retry]
    rfl
  rw [Inflight, hc, hp] at a
  change s.userWriteInflight = s.tasks.sum Task.live + 0 + 0 at a
  rw [a, add_zero, add_zero]
  constructor
  · intro h0
    by_contra hne
    obtain ⟨t, ht⟩ := List.exists_mem_of_ne_nil _ hne
    obtain ⟨x, hx, hty, hpc⟩ := Q.users.2 t (List.mem_append_left _ ht)
    have := Heap.eq_zero_of_sum_eq_zero Task.live_nonneg h0 hx
    rw [Task.live, if_pos ⟨hty, by rw [hpc]; nofun⟩] at this
    omega
  · intro h0
    refine Heap.sum_eq_zero fun t x hx => if_neg fun ⟨hty, hnd⟩ => ?_
    have hpc := (hd.tasks t x hx hty).resolve_right hnd
    have ht := P t x hx hpc
    rw [if_neg hty, hu, List.append_nil] at ht
    change t ∈ s.userPending at ht
    rw [h0] at ht
    cases ht

/-- What the writes of a device are counted and told by. -/
theorem base_waiting {o : Options} {report : List BlkZone} {cap : ℕ} {s₀ : Sys α}
    (hu : OneCapacity report cap) (h0 : initSys o report = some s₀)
    (hrun : Runs (stepRel (step (confOf o report))) (fun _ _ => True) s₀ s) (hb : s.bug = none) :
    Base (confOf o report) s.core ∧ Stories s.core ∧ Parked s.core ∧ Inflight s.core := by
  obtain ⟨hN, hB⟩ := base_of_capacity hu h0
  obtain ⟨-, m, -, rfl⟩ := initSys_eq h0
  have hI : Stories (freshSys m : Sys α).core ∧ Parked (freshSys m : Sys α).core ∧
      Inflight (freshSys m : Sys α).core :=
    ⟨StoryInv.empty, Heap.All.empty, by simp [Inflight, freshSys, Sys.core, putsBy]⟩
  obtain ⟨k, ⟨hB', h1⟩, -, hk⟩ := Kept.run (I := fun k => Stories k ∧ Parked k ∧ Inflight k) hN
    (fun k l k' B a hm => ⟨a.1.move B.tasks B.queues hm, a.2.1.move B.tasks hm,
      a.2.2.move B.tasks B.queues hm⟩) hrun ⟨_, ⟨hB, hI⟩, rfl, fun _ => rfl⟩
  cases hk hb
  exact ⟨hB', h1⟩

/-- **The writes that wait when the device has become faulty are ended**, and the counter of inflight
writes goes to zero, exactly if none waits. -/
theorem waiting_failed_iff {o : Options} {report : List BlkZone} {cap : ℕ} {s₀ : Sys α}
    (hu : OneCapacity report cap) (h0 : initSys o report = some s₀)
    (hrun : Runs (stepRel (step (confOf o report))) (fun _ _ => True) s₀ s) (hf : s.faulty = true)
    (hrun' : Runs (stepRel (step (confOf o report))) (fun _ _ => True) s s') (hd : Drained s')
    (hs : step (confOf o report) s' .retryWk = some s'') :
    ((∀ t ∈ s.userPending, Obs.endW t false ∈ s''.hist) ∧ s''.userWriteInflight = 0) ↔
      s'.userPending = [] := by
  have hb : s'.bug = none ∧ s'' = retryWkFn s' := by
    rw [step] at hs
    split_ifs at hs with h
    exact ⟨h.1, (Option.some.inj hs).symm⟩
  obtain ⟨hN, hB⟩ := base_of_capacity hu h0
  have ha : Kept (confOf o report) (fun _ => True) s :=
    Kept.run hN (fun _ _ _ _ _ _ => trivial) hrun ⟨_, ⟨hB, trivial⟩, rfl, fun _ => rfl⟩
  obtain ⟨hpre, hf'⟩ := pending_prefix hN ha hf hrun' hb.1
  obtain ⟨hB', hS, hP, hI⟩ := base_waiting hu h0 (hrun.trans hrun') hb.1
  -- `retry_wk_fn` returns at once
  have he : s'' = s' := by rw [hb.2, retryWkFn, hd.retry, if_pos (Or.inl hf')]
  have hzero := hd.inflight hB'.queues hP hI
  rw [he]
  constructor
  · exact fun h => hzero.mp h.2
  · intro h
    refine ⟨fun t ht => ?_, hzero.mpr h⟩
    have := hpre.subset ht
    rw [h] at this
    cases this

end

/-! ## Two runs -/

def strandConf : Conf := confOf ⟨true, true, true, 16, 8⟩ (emptyReport 3 16 16)

def strandStart : Sys ℕ :=
  (initSys ⟨true, true, true, 16, 8⟩ (emptyReport 3 16 16)).get (by decide)

/-- The append of a write of block 0 fails. -/
def failWrite : List (Event ℕ) :=
  [.submitWrite 0 7 false, .runWrite 0 true, .runWrite 0 true, .devFail 0, .writeEnd 0]

/-- The same, while a second write of block 0 waits for it. -/
def strandWrite : List (Event ℕ) :=
  [.submitWrite 0 7 false, .runWrite 0 true, .runWrite 0 true, .submitWrite 0 8 false,
    .runWrite 1 true, .devFail 0, .writeEnd 0, .putTask 0]

/-- What is left of the first write. -/
def drainWrite : List (Event ℕ) := [.writeUntree 0, .writeComplete 0, .putZone 0 .write]

theorem waiting_failed_none : ∃ s s' s'' : Sys ℕ, s.faulty = true ∧ s'.userPending = [] ∧
    (∀ t ∈ s.userPending, Obs.endW t false ∈ s''.hist) ∧ s''.userWriteInflight = 0 := by
  have hu : OneCapacity (emptyReport 3 16 16) 16 := ⟨by decide, by decide⟩
  obtain ⟨s, hrun, h⟩ := exists_run (step strandConf) (fun _ _ => True)
    (fun s => s.faulty && (exec (step strandConf) (fun _ _ => True) s drainWrite).any fun s' =>
      decide (Drained s') && decide (s'.userPending = []) && (step strandConf s' .retryWk).isSome)
    strandStart failWrite (by decide +kernel)
  rw [Bool.and_eq_true] at h
  obtain ⟨s', h2, h3⟩ := (Option.any_eq_true _ _).mp h.2
  rw [Bool.and_eq_true, Bool.and_eq_true] at h3
  obtain ⟨s'', h4⟩ := Option.isSome_iff_exists.mp h3.2
  have h5 := of_decide_eq_true h3.1.2
  exact ⟨s, s', s'', h.1, h5, (waiting_failed_iff hu (Option.some_get _).symm hrun h.1
    (runs_of_exec h2) (of_decide_eq_true h3.1.1) h4).mpr h5⟩

/-- The second write is never ended: `retry_wk_fn` does nothing on a faulty device. -/
theorem waiting_stranded : ¬ ∀ (o : Options) (report : List BlkZone) (s₀ s s' s'' : Sys ℕ),
    EmptyReport o report → initSys o report = some s₀ →
    Runs (stepRel (step (confOf o report))) (fun _ _ => True) s₀ s → s.faulty = true →
    Runs (stepRel (step (confOf o report))) (fun _ _ => True) s s' → Drained s' →
    step (confOf o report) s' .retryWk = some s'' →
    (∀ t ∈ s.userPending, Obs.endW t false ∈ s''.hist) ∧ s''.userWriteInflight = 0 := by
  intro h
  obtain ⟨s, hrun, h1⟩ := exists_run (step strandConf) (fun _ _ => True)
    (fun s => s.faulty && (exec (step strandConf) (fun _ _ => True) s drainWrite).any fun s' =>
      decide (Drained s') && (step strandConf s' .retryWk).any fun s'' : Sys ℕ =>
        decide (1 ∈ s.userPending ∧ Obs.endW 1 false ∉ s''.hist))
    strandStart strandWrite (by decide +kernel)
  rw [Bool.and_eq_true] at h1
  obtain ⟨s', h2, h3⟩ := (Option.any_eq_true _ _).mp h1.2
  rw [Bool.and_eq_true] at h3
  obtain ⟨s'', h4, h5⟩ := (Option.any_eq_true _ _).mp h3.2
  have he : EmptyReport ⟨true, true, true, 16, 8⟩ (emptyReport 3 16 16) :=
    emptyReport_ok _ 3 16 (by decide) (by decide) (by decide)
  obtain ⟨h6, h7⟩ := of_decide_eq_true h5
  exact h7 ((h _ _ strandStart s s' s'' he (Option.some_get _).symm hrun h1.1 (runs_of_exec h2)
    (of_decide_eq_true h3.1) h4).1 1 h6)

end Lbz
