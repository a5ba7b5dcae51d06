import Lbz.Tasks

/-!
# Every move keeps the invariant of the tasks

* `Tame.*`: the steps of one task that keep its place in the tree;
* `Waiting`, `Queues`: the tasks that wait for the retry worker are different and are pending;
* **`Tasks.move`**, **`Queues.move`**: every move keeps both.
-/

namespace Lbz

variable {α : Type}

/-! ## Steps of one task that keep its place in the tree -/

namespace Tame

variable {x : Task α}

theorem pendNew (hty : x.type ≠ .gc) (hst : x.status = .init) (hpc : x.pc = .submit) :
    Tame x { x with pc := .pending } := by
  refine ⟨fun hs => ?_, rfl, rfl, rfl, rfl, rfl, ?_, ?_, ?_, ?_, ?_⟩
  · obtain ⟨hz, hi⟩ := hs.init hty hst
    exact ⟨fun _ => ⟨.new hst (Or.inr rfl) hz hi, (hs.user hty).2⟩, fun h => absurd h hty⟩
  all_goals simp [Task.InTree, Task.Fresh, hst, hpc, hty]

theorem pend (hty : x.type ≠ .gc) (hst : x.status = .allocRes)
    (hpc : x.pc = .submit ∨ ∃ j, x.pc = .fallback j) : Tame x { x with pc := .pending } := by
  refine ⟨fun hs => ?_, rfl, rfl, rfl, rfl, rfl, ?_, ?_, ?_, ?_, ?_⟩
  · obtain ⟨hz, hi, -⟩ := hs.own hst
    exact ⟨fun _ => ⟨.own hst (Or.inr (Or.inl rfl)) hz hi, (hs.user hty).2⟩, fun h => absurd h hty⟩
  all_goals obtain hpc | ⟨j, hpc⟩ := hpc
  all_goals simp [Task.InTree, Task.Fresh, hst, hpc, hty]

theorem fallback (i : Fin 2) (hst : x.status = .allocRes) (hpc : x.pc = .submit) :
    Tame x { x with pc := .fallback i } := by
  refine ⟨fun hs => ?_, rfl, rfl, rfl, rfl, rfl, ?_, ?_, ?_, ?_, ?_⟩
  · obtain ⟨hz, hi, he⟩ := hs.own hst
    refine ⟨fun hty => ?_, fun hty => ?_⟩
    · exact ⟨.own hst (Or.inr (Or.inr ⟨i, rfl⟩)) hz hi, (hs.user hty).2⟩
    · obtain ⟨⟨v, hp⟩, hl⟩ := hs.gc hty
      refine ⟨⟨v, ?_⟩, hl⟩
      cases hp with
      | own h1 h2 h3 h4 h5 h6 => exact .own h1 (Or.inr ⟨i, rfl⟩) h3 h4 h5 h6
      | _ => simp_all
  all_goals simp [Task.InTree, Task.Fresh, hst, hpc]

theorem dispatch (z : ℕ) (log : DiskLog) (hst : x.status = .allocRes)
    (hpc : x.pc = .submit ∨ ∃ j, x.pc = .fallback j) :
    Tame x { x with zone := some z, status := .dispatch, pc := .device, integ := .buf log } := by
  refine ⟨fun hs => ?_, rfl, rfl, rfl, rfl, rfl, ?_, ?_, ?_, ?_, ?_⟩
  · refine ⟨fun hty => ?_, fun hty => ?_⟩
    · exact ⟨.write z log rfl (Or.inl rfl) rfl rfl, (hs.user hty).2⟩
    · obtain ⟨⟨v, hp⟩, hl⟩ := hs.gc hty
      refine ⟨⟨v, ?_⟩, hl⟩
      cases hp with
      | own h1 h2 h3 h4 h5 h6 => exact .write z log rfl (Or.inl rfl) rfl h4 h5 rfl
      | _ => simp_all
  all_goals obtain hpc | ⟨j, hpc⟩ := hpc
  all_goals simp [Task.InTree, Task.Fresh, hst, hpc]

theorem append (p : ℕ) (hs : x.Shape) (hpc : x.pc = .device) :
    Tame x { x with pc := .written p } := by
  obtain ⟨hst, -⟩ := hs.device hpc
  refine ⟨fun hs => ?_, rfl, rfl, rfl, rfl, rfl, ?_, ?_, ?_, ?_, ?_⟩
  · refine ⟨fun hty => ?_, fun hty => ?_⟩
    · obtain ⟨hp, hel⟩ := hs.user hty
      cases hp with
      | write z log h1 h2 h3 h4 => exact ⟨.write z log h1 (Or.inr (Or.inl ⟨p, rfl⟩)) h3 h4, hel⟩
      | _ => simp_all
    · obtain ⟨⟨v, hp⟩, hl⟩ := hs.gc hty
      cases hp with
      | write z log h1 h2 h3 h4 h5 h6 =>
        exact ⟨⟨v, .write z log h1 (Or.inr (Or.inl ⟨p, rfl⟩)) h3 h4 h5 h6⟩, hl⟩
      | _ => simp_all
  all_goals simp [Task.InTree, Task.Fresh, hst, hpc]

theorem apply {p : ℕ} (hs : x.Shape) (hty : x.type ≠ .gc) (hpc : x.pc = .written p) :
    Tame x { x with pc := .ended } := by
  obtain ⟨hst, -⟩ := hs.written hpc
  refine ⟨fun hs => ⟨fun hty => ?_, fun h => absurd h hty⟩, rfl, rfl, rfl, rfl, rfl, ?_, ?_, ?_, ?_,
    ?_⟩
  · obtain ⟨hp, hel⟩ := hs.user hty
    cases hp with
    | write z log h1 h2 h3 h4 =>
      exact ⟨.write z log h1 (Or.inr (Or.inr (Or.inr (Or.inl rfl)))) h3 h4, hel⟩
    | _ => simp_all
  all_goals simp [Task.InTree, Task.Fresh, hst, hpc, hty]

/-- A block is allocated for a write, and its record is not. -/
theorem dispatchFail (z : ℕ) (hty : x.type ≠ .gc) (hst : x.status = .allocRes)
    (hpc : x.pc = .submit ∨ ∃ j, x.pc = .fallback j) :
    Tame x { x with zone := some z, status := .ioWriting, pc := .failed, integ := .err } := by
  refine ⟨fun hs => ⟨fun _ => ?_, fun h => absurd h hty⟩, rfl, rfl, rfl, rfl, rfl, ?_, ?_, ?_, ?_,
    ?_⟩
  · exact ⟨.noInteg z rfl (Or.inl rfl) rfl rfl, (hs.user hty).2⟩
  all_goals obtain hpc | ⟨j, hpc⟩ := hpc
  all_goals simp [Task.InTree, Task.Fresh, hst, hpc, hty]

theorem devFail (hs : x.Shape) (hpc : x.pc = .device) : Tame x { x with pc := .failed } := by
  obtain ⟨hst, -⟩ := hs.device hpc
  refine ⟨fun hs => ?_, rfl, rfl, rfl, rfl, rfl, ?_, ?_, ?_, ?_, ?_⟩
  · refine ⟨fun hty => ?_, fun hty => ?_⟩
    · obtain ⟨hp, hel⟩ := hs.user hty
      cases hp with
      | write z log h1 h2 h3 h4 =>
        exact ⟨.write z log h1 (Or.inr (Or.inr (Or.inl rfl))) h3 h4, hel⟩
      | _ => simp_all
    · obtain ⟨⟨v, hp⟩, hl⟩ := hs.gc hty
      cases hp with
      | write z log h1 h2 h3 h4 h5 h6 =>
        exact ⟨⟨v, .write z log h1 (Or.inr (Or.inr (Or.inl rfl))) h3 h4 h5 h6⟩, hl⟩
      | _ => simp_all
  all_goals simp [Task.InTree, Task.Fresh, hst, hpc]

theorem writeFail (hs : x.Shape) (hty : x.type ≠ .gc) (hpc : x.pc = .failed) :
    Tame x { x with pc := .ended } := by
  have hst : x.status ≠ .init := by
    rcases (hs.failed hpc).1 with h | h
    · rw [h]
      nofun
    · rw [h.2]
      nofun
  refine ⟨fun hs => ⟨fun hty => ?_, fun h => absurd h hty⟩, rfl, rfl, rfl, rfl, rfl, ?_, ?_, ?_, ?_,
    ?_⟩
  · obtain ⟨hp, hel⟩ := hs.user hty
    cases hp with
    | write z log h1 h2 h3 h4 =>
      exact ⟨.write z log h1 (Or.inr (Or.inr (Or.inr (Or.inl rfl)))) h3 h4, hel⟩
    | noInteg z h1 h2 h3 h4 => exact ⟨.noInteg z h1 (Or.inr (Or.inl rfl)) h3 h4, hel⟩
    | _ => simp_all
  all_goals simp [Task.InTree, Task.Fresh, hst, hpc, hty]

theorem gcWriteFail (hs : x.Shape) (hty : x.type = .gc) (hpc : x.pc = .failed) :
    Tame x { x with pc := .callback none, error := some .eio } := by
  obtain ⟨⟨v, hp⟩, hl⟩ := hs.gc hty
  cases hp with
  | write z log hst h2 h3 h4 h5 h6 =>
    refine ⟨fun _ => ⟨fun h => absurd hty h,
      fun _ => ⟨⟨v, .noWrite z log hst (Or.inl rfl) h3 h4 rfl h6⟩, hl⟩⟩,
      rfl, rfl, rfl, rfl, rfl, ?_, ?_, ?_, ?_, ?_⟩
    all_goals simp [Task.InTree, Task.Fresh, hpc, hty, hst]
  | _ => simp_all

theorem nextUser (hs : x.Shape) (hty : x.type ≠ .gc) (hpc : x.pc = .pending) :
    Tame x { x with pc := .submit } := by
  obtain ⟨hp, hel⟩ := hs.user hty
  refine ⟨fun _ => ⟨fun _ => ⟨?_, hel⟩, fun h => absurd h hty⟩, rfl, rfl, rfl, rfl, rfl, ?_, ?_, ?_,
    ?_, ?_⟩
  · cases hp with
    | new h1 h2 h3 h4 => exact .new h1 (Or.inl rfl) h3 h4
    | own h1 h2 h3 h4 => exact .own h1 (Or.inl rfl) h3 h4
    | _ => simp_all
  all_goals simp [Task.InTree, Task.Fresh, hpc, hty]

theorem nextGc (hs : x.Shape) (hty : x.type = .gc) (hpc : x.pc = .pending) :
    Tame x { x with pc := .submit } := by
  obtain ⟨⟨v, hp⟩, hl⟩ := hs.gc hty
  cases hp with
  | wait hst h2 h3 h4 h5 h6 h7 =>
    refine ⟨fun _ => ⟨fun h => absurd hty h,
      fun _ => ⟨⟨v, .wait hst (Or.inr rfl) h3 h4 h5 h6 h7⟩, hl⟩⟩, rfl, rfl, rfl, rfl, rfl, ?_, ?_,
      ?_, ?_, ?_⟩
    all_goals simp [Task.InTree, Task.Fresh, hpc, hty, hst]
  | _ => simp_all

theorem gcServe (ok : Bool) (d : α) (hs : x.Shape) (hpc : x.pc = .reading) :
    x.type = .gc ∧ Tame x { x with pc := .read ok, data := d } := by
  have hty : x.type = .gc := by
    by_contra hty
    obtain ⟨hp, -⟩ := hs.user hty
    cases hp <;> simp_all
  obtain ⟨⟨v, hp⟩, hl⟩ := hs.gc hty
  cases hp with
  | read hst h2 h3 h4 h5 h6 h7 =>
    refine ⟨hty, fun _ => ⟨fun h => absurd hty h,
      fun _ => ⟨⟨v, .read hst (Or.inr ⟨ok, rfl⟩) h3 h4 h5 h6 h7⟩, hl⟩⟩, rfl, rfl, rfl, rfl, rfl, ?_, ?_,
      ?_, ?_, ?_⟩
    all_goals simp [Task.InTree, Task.Fresh, hpc, hty, hst]
  | _ => simp_all

theorem gcReadEnd (hs : x.Shape) (hpc : x.pc = .read true) :
    x.type = .gc ∧ Tame x { x with pc := .pending, readZone := none } := by
  have hty : x.type = .gc := by
    by_contra hty
    obtain ⟨hp, -⟩ := hs.user hty
    cases hp <;> simp_all
  obtain ⟨⟨v, hp⟩, hl⟩ := hs.gc hty
  cases hp with
  | read hst h2 h3 h4 h5 h6 h7 =>
    refine ⟨hty, fun _ => ⟨fun h => absurd hty h,
      fun _ => ⟨⟨v, .wait hst (Or.inl rfl) h3 rfl h5 h6 h7⟩, hl⟩⟩, rfl, rfl, rfl, rfl, rfl, ?_, ?_,
      ?_, ?_, ?_⟩
    all_goals simp [Task.InTree, Task.Fresh, hpc, hty, hst]
  | _ => simp_all

theorem gcWritten {p : ℕ} (hs : x.Shape) (hty : x.type = .gc) (hpc : x.pc = .written p) :
    Tame x { x with pc := .callback (some p) } := by
  obtain ⟨⟨v, hp⟩, hl⟩ := hs.gc hty
  cases hp with
  | write z log hst h2 h3 h4 h5 h6 =>
    refine ⟨fun _ => ⟨fun h => absurd hty h,
      fun _ => ⟨⟨v, .write z log hst (Or.inr (Or.inr (Or.inr (Or.inl ⟨p, rfl⟩)))) h3 h4 h5 h6⟩, hl⟩⟩,
      rfl, rfl, rfl, rfl, rfl, ?_, ?_, ?_, ?_, ?_⟩
    all_goals simp [Task.InTree, Task.Fresh, hpc, hty, hst]
  | _ => simp_all

theorem gcPass (hs : x.Shape) (hty : x.type = .gc) (hpc : x.pc = .check) :
    Tame x { x with status := .allocRes, pc := .submit } := by
  obtain ⟨⟨v, hp⟩, hl⟩ := hs.gc hty
  cases hp with
  | check hst h2 h3 h4 h5 h6 =>
    refine ⟨fun _ => ⟨fun h => absurd hty h,
      fun _ => ⟨⟨v, .own rfl (Or.inl rfl) h3 h4 h5 h6⟩, hl⟩⟩,
      rfl, rfl, rfl, rfl, rfl, ?_, ?_, ?_, ?_, ?_⟩
    all_goals simp [Task.InTree, Task.Fresh, hpc, hty]
  | _ => simp_all

end Tame

/-! ## The queues of the retry worker -/

/-- The user tasks the retry worker has still to call. -/
def RetryPc.usersLeft : RetryPc → List ℕ
  | .users l => l
  | _ => []

/-- The gc tasks the retry worker has still to call. -/
def RetryPc.gcsLeft : RetryPc → List ℕ
  | .gcs l => l
  | _ => []

/-- The tasks of `l` are different, wait for the retry worker and are of a type in `P`. -/
def Waiting (h : Heap (Task α)) (P : TaskType → Prop) (l : List ℕ) : Prop :=
  l.Nodup ∧ ∀ t ∈ l, ∃ x, h.get t = some x ∧ P x.type ∧ x.pc = .pending

/-- The tasks that wait for the retry worker. -/
structure Queues (k : Core α) : Prop where
  users : Waiting k.tasks (· ≠ .gc) (k.userPending ++ k.retry.usersLeft)
  gcs : Waiting k.tasks (· = .gc) (k.gcWrites ++ k.retry.gcsLeft)

namespace Waiting

variable {h : Heap (Task α)} {P : TaskType → Prop} {l l' : List ℕ}

theorem perm (a : Waiting h P l) (hp : l.Perm l') : Waiting h P l' :=
  ⟨hp.nodup_iff.mp a.1, fun t ht => a.2 t (hp.mem_iff.mpr ht)⟩

/-- The tasks of a queue are left alone. -/
theorem keep (a : Waiting h P l) {h' : Heap (Task α)}
    (hk : ∀ t ∈ l, ∀ x, h.get t = some x → x.pc = .pending →
      ∃ y, h'.get t = some y ∧ y.type = x.type ∧ y.pc = .pending) : Waiting h' P l := by
  refine ⟨a.1, fun t ht => ?_⟩
  obtain ⟨x, hx, hty, hpc⟩ := a.2 t ht
  obtain ⟨y, hy, hty', hpc'⟩ := hk t ht x hx hpc
  exact ⟨y, hy, hty' ▸ hty, hpc'⟩

theorem alloc (a : Waiting h P l) (x : Task α) : Waiting (h.alloc x) P l :=
  a.keep fun t _ y hy hpc => ⟨y, by rw [Heap.get_alloc, if_neg (Heap.lt_next_of_get hy).ne, hy],
    rfl, hpc⟩

theorem free (a : Waiting h P l) {t : ℕ} {x : Task α} (hx : h.get t = some x)
    (hpc : x.pc ≠ .pending) : Waiting (h.free t) P l := by
  refine a.keep fun i _ y hy hpc' => ⟨y, ?_, rfl, hpc'⟩
  have : i ≠ t := by
    rintro rfl
    cases hx.symm.trans hy
    exact hpc hpc'
  rw [Heap.get_free, if_neg this, hy]

/-- A task that is not in a queue changes, or the change leaves it there. -/
theorem modify (a : Waiting h P l) {t : ℕ} {x : Task α} (hx : h.get t = some x)
    {f : Task α → Task α} (hf : x.pc ≠ .pending ∨ t ∉ l ∨ (f x).type = x.type ∧ (f x).pc = x.pc) :
    Waiting (h.modify t f) P l := by
  refine a.keep fun i hi y hy hpc => ?_
  by_cases e : i = t
  · subst e
    cases hx.symm.trans hy
    rcases hf with hf | hf | ⟨h1, h2⟩
    · exact absurd hpc hf
    · exact absurd hi hf
    · exact ⟨f x, Heap.get_modify_self hx f, h1, h2.trans hpc⟩
  · exact ⟨y, by rw [Heap.get_modify_ne e, hy], rfl, hpc⟩

/-- A task joins the queue. -/
theorem push {l₁ l₂ : List ℕ} (a : Waiting h P (l₁ ++ l₂)) {t : ℕ} {x : Task α}
    (hx : h.get t = some x) {f : Task α → Task α} (hpc : x.pc ≠ .pending) (hty : P (f x).type)
    (hpc' : (f x).pc = .pending) : Waiting (h.modify t f) P (l₁ ++ [t] ++ l₂) := by
  have ht : t ∉ l₁ ++ l₂ := by
    intro ht
    obtain ⟨y, hy, -, h1⟩ := a.2 t ht
    cases hx.symm.trans hy
    exact hpc h1
  have hp : (t :: (l₁ ++ l₂)).Perm (l₁ ++ [t] ++ l₂) := by
    rw [List.append_assoc, List.singleton_append]
    exact List.perm_middle.symm
  refine perm ⟨List.nodup_cons.mpr ⟨ht, a.1⟩, fun i hi => ?_⟩ hp
  rcases List.mem_cons.mp hi with rfl | hi
  · exact ⟨f x, Heap.get_modify_self hx f, hty, hpc'⟩
  · exact (a.modify hx (Or.inl hpc)).2 i hi

/-- A task leaves the queue and goes on. -/
theorem pop {l₁ l₂ : List ℕ} {t : ℕ} (a : Waiting h P (l₁ ++ t :: l₂)) (f : Task α → Task α) :
    Waiting (h.modify t f) P (l₁ ++ l₂) := by
  have a' : Waiting h P (t :: (l₁ ++ l₂)) := a.perm List.perm_middle
  obtain ⟨ht, hnd⟩ := List.nodup_cons.mp a'.1
  obtain ⟨x, hx, -⟩ := a'.2 t List.mem_cons_self
  exact Waiting.modify ⟨hnd, fun i hi => a'.2 i (List.mem_cons_of_mem _ hi)⟩ hx (Or.inr (Or.inl ht))

end Waiting

theorem Queues.keep {k k' : Core α} (a : Queues k) (hu : k'.userPending = k.userPending)
    (hg : k'.gcWrites = k.gcWrites) (hr : k'.retry = k.retry)
    (hk : ∀ P l, Waiting k.tasks P l → Waiting k'.tasks P l) : Queues k' := by
  refine ⟨?_, ?_⟩
  · rw [hu, hr]
    exact hk _ _ a.users
  · rw [hg, hr]
    exact hk _ _ a.gcs

/-! ## Gc tasks that are called back -/

theorem Task.Shape.callback_inTree {x : Task α} (h : x.Shape) {o : Option ℕ}
    (hpc : x.pc = .callback o) : x.InTree := by
  obtain ⟨hty, hst, -⟩ := h.callback hpc
  simp [Task.InTree, hty, hst, hpc]

theorem Task.Shape.read_type {x : Task α} (h : x.Shape) {ok : Bool} (hpc : x.pc = .read ok) :
    x.type = .gc := by
  by_contra hty
  obtain ⟨hp, -⟩ := h.user hty
  cases hp <;> simp_all

namespace TaskInv

variable {h : Heap (Task α)} {tree puts : List ℕ} {m : ℕ → Option ℕ} {g : ℕ} {x : Task α}

/-- `__gc_task_callback` runs on a gc task that has been written. -/
theorem uncall (a : TaskInv h tree puts m) (hx : h.get g = some x) {o : Option ℕ}
    (hpc : x.pc = .callback o) :
    TaskInv (h.modify g fun x => { x with pc := .done, refcount := x.refcount - 1 })
      (tree.erase g) (g :: puts) m := by
  have hty := ((a.shape g x hx).callback hpc).1
  obtain ⟨⟨w, hp⟩, hli⟩ := (a.shape g x hx).gc hty
  refine a.leave hx (fun hs => ⟨fun h' => absurd hty h', fun _ => ?_⟩) rfl rfl
    ((a.shape g x hx).callback_inTree hpc) ?_ rfl ?_ nofun ?_ rfl (if_pos rfl).symm
  · cases hp with
    | write z log h1 h2 h3 h4 h5 h6 =>
      exact ⟨⟨w, .write z log h1 (Or.inr (Or.inr (Or.inr (Or.inr rfl)))) h3 h4 h5 h6⟩, hli⟩
    | noWrite z log h1 h2 h3 h4 h5 h6 =>
      exact ⟨⟨w, .noWrite z log h1 (Or.inr rfl) h3 h4 h5 h6⟩, hli⟩
    | _ => simp_all
  all_goals simp [Task.InTree, Task.Fresh, hty, hpc]

/-- `__gc_task_callback` runs on a gc task that is not in the tree. -/
theorem finish (a : TaskInv h tree puts m) (hx : h.get g = some x) (hty : x.type = .gc)
    (hst : x.status = .gcReading)
    (hpc : x.pc ≠ .done ∧ x.pc ≠ .check ∧ (∀ t, x.pc ≠ .found t) ∧ ∀ t, x.pc ≠ .waiting t)
    {f : Task α → Task α} {v : ℕ} (hp : (f x).GcPhase v) (hd : (f x).pc = .done)
    (hty' : (f x).type = x.type) (hb : (f x).blkid = x.blkid)
    (hr : (f x).refcount = x.refcount) (hl : (f x).link = x.link) :
    TaskInv (h.modify g f) tree (g :: puts) m := by
  have hin : ¬ (f x).InTree := by simp [Task.InTree, hty', hty, hd]
  have hix : ¬ x.InTree := by simp [Task.InTree, hty, hst, hpc.2.1]
  refine a.modify hx 1 (fun hs => ⟨fun h' => absurd (hty'.trans hty) h', fun _ => ⟨⟨v, hp⟩, ?_⟩⟩)
    hty' hb a.nodup (fun t' => ?_) (fun hi => absurd hi hin) ?_ (fun t' => ?_) (fun hf => ?_)
    (fun t' h' => ?_) (fun t' h' => by rw [hd] at h'; cases h')
    (fun t' h' => absurd h' (hpc.2.2.2 t')) (fun h' => absurd hty h')
    (fun h' => absurd hd h'.2.2)
  · rw [hl]
    exact (hs.gc hty).2
  · split_ifs with e
    · rw [e, a.mem_tree hx]
      exact iff_of_false hix hin
    · exact Iff.rfl
  · rw [Task.ownRefs, Task.ownRefs, if_neg hin, if_neg hix, if_pos hd, if_neg hpc.1, hr]
    ring
  · have hfo : (f x).pc ≠ .found t' := by rw [hd]; rintro ⟨⟩
    rw [TaskInv.count_cons_int, Task.foundRef, Task.foundRef, if_neg (hpc.2.2.1 t'), if_neg hfo]
    ring
  · rw [Task.Fresh, if_pos (hty'.trans hty)] at hf
    exact absurd hd hf.2.2.2
  · rcases List.mem_cons.mp h' with rfl | h'
    · exact Or.inr ⟨x, hx⟩
    · exact Or.inl h'

end TaskInv

/-! ## The moves -/

variable [Inhabited α] {c : Conf} {k k' : Core α} {l : Label}

/-- **Every move keeps the invariant of the tasks.** -/
theorem Tasks.move (a : Tasks k) (hq : Queues k) (hm : Move c k l k') : Tasks k' := by
  cases hm with
  | openZone | complete | putZone | readMiss | readHit | serve | endRead | retryUsers | retryGcs
  | retryDone | select | scanFree | scanEnd | peek | wkStart | wkIdle | wkNext | wkFull | wkSticky
  | wkFree | wkClose | wkLink | wkEmpty | wkCarried | wkReset | wkPublish | serveFail | wkFail =>
    exact a
  | submitWrite b d more hty =>
    refine TaskInv.alloc a ⟨fun _ => ⟨.new rfl (Or.inl rfl) rfl rfl, rfl, by rintro ⟨⟩⟩,
      fun h' => absurd h' hty⟩ ?_ rfl ⟨by rintro ⟨⟩, by rintro _ ⟨⟩⟩ (by rintro _ ⟨⟩)
    simp [Task.Fresh, Task.forWrite, hty]
  | scanBlock =>
    refine TaskInv.alloc a ⟨fun h' => absurd rfl h',
      fun _ => ⟨⟨_, .read rfl (Or.inl rfl) rfl rfl rfl rfl rfl⟩, by rintro ⟨⟩⟩⟩ ?_ rfl ⟨by rintro ⟨⟩, by rintro _ ⟨⟩⟩ (by rintro _ ⟨⟩)
    simp [Task.Fresh, Task.forGc]
  | @conflict t tk x y hx hty hst hpc htk hy hb =>
    have hf : x.Fresh := by rw [Task.Fresh, if_neg hty]; exact hst
    have hne := TaskInv.ne_of_fresh a hx hf htk
    exact (TaskInv.grab a hy htk).tame (by rw [Heap.get_modify_ne hne, hx])
      (.pendNew hty hst hpc) fun hp => absurd hp.1 hty
  | @insert t x hx hty hst hpc hfree =>
    have hf : x.Fresh := by rw [Task.Fresh, if_neg hty]; exact hst
    refine TaskInv.enter a hx hf (fun hs => ?_) rfl rfl ?_ rfl ?_ ?_ rfl (fun hp => absurd hp.1 hty)
      hfree
    · obtain ⟨hz, hi⟩ := hs.init hty hst
      exact ⟨fun _ => ⟨.own rfl (Or.inl hpc) hz hi, (hs.user hty).2⟩, fun h' => absurd h' hty⟩
    all_goals simp [Task.InTree, hty, hpc]
  | @dispatch t z i x log hx hst hpc ha hres =>
    refine TaskInv.tame a hx (.dispatch z log hst hpc) fun hp => ?_
    refine a.past t x hx ⟨hp.1, by rw [hst]; rintro ⟨⟩, ?_⟩
    rcases hpc with hpc | ⟨j, hpc⟩ <;> rw [hpc] <;> rintro ⟨⟩
  | @fallback t i x hx hst hpc | @fallbackFail t i x hx hst hpc =>
    exact TaskInv.tame a hx (.fallback i hst hpc) fun hp =>
      a.past t x hx ⟨hp.1, by rw [hst]; rintro ⟨⟩, by rw [hpc]; rintro ⟨⟩⟩
  | pend hx hty hst hpc =>
    exact TaskInv.tame a hx (.pend hty hst hpc) fun hp => absurd hp.1 hty
  | @append t z off x log hx hpc hz hoff hfree =>
    refine TaskInv.tame a hx (.append _ (a.shape t x hx) hpc) fun hp => ?_
    exact a.past t x hx ⟨hp.1, hp.2.1, by rw [hpc]; rintro ⟨⟩⟩
  | @apply t z p x hx hty hpc hz =>
    have hs := a.shape t x hx
    obtain ⟨hst, -⟩ := hs.written hpc
    have hi : x.InTree := by simp [Task.InTree, hty, hst, hpc]
    refine (TaskInv.setMapping a (fun i y hy hp hb => ?_) _).tame hx (.apply hs hty hpc)
      fun hp => absurd hp.1 hty
    cases TaskInv.eq_of_holder a hx hi hy hp.inTree hb
    cases hx.symm.trans hy
    exact hty hp.1
  | @untree t z x hx hpc hz =>
    have hs := a.shape t x hx
    obtain ⟨hty, hst, -⟩ := hs.ended hpc
    have hst : x.status ≠ .init := by rcases hst with h | h <;> rw [h] <;> rintro ⟨⟩
    refine TaskInv.leave a hx (fun hs => ⟨fun _ => ?_, fun h' => absurd h' hty⟩) rfl rfl ?_ ?_ rfl
      ?_ (by rintro _ ⟨⟩) ?_ rfl (if_pos rfl).symm
    · obtain ⟨hp, hel⟩ := hs.user hty
      cases hp with
      | write z log h1 h2 h3 h4 =>
        exact ⟨.write z log h1 (Or.inr (Or.inr (Or.inr (Or.inr rfl)))) h3 h4, hel⟩
      | noInteg z h1 h2 h3 h4 => exact ⟨.noInteg z h1 (Or.inr (Or.inr rfl)) h3 h4, hel⟩
      | _ => simp_all
    all_goals simp [Task.InTree, Task.Fresh, hty, hst, hpc]
  | @allocFail t x hx hty hst hpc =>
    refine TaskInv.leave a hx (fun hs => ⟨fun _ => ?_, fun h' => absurd h' hty⟩) rfl rfl ?_ ?_ rfl
      ?_ (by rintro _ ⟨⟩) ?_ rfl (if_pos rfl).symm
    · obtain ⟨hz, hi, -⟩ := hs.own hst
      exact ⟨.noBlock hst rfl hz hi, (hs.user hty).2⟩
    all_goals obtain hpc | ⟨j, hpc⟩ := hpc
    all_goals simp [Task.InTree, Task.Fresh, hty, hst, hpc]
  | @dispatchFail t z i x hx hty hst hpc ha =>
    exact TaskInv.tame a hx (.dispatchFail z hty hst hpc) fun hp => absurd hp.1 hty
  | @devFail t x hx hpc =>
    refine TaskInv.tame a hx (.devFail (a.shape t x hx) hpc) fun hp => ?_
    exact a.past t x hx ⟨hp.1, hp.2.1, by rw [hpc]; rintro ⟨⟩⟩
  | @writeFail t x hx hty hpc =>
    exact TaskInv.tame a hx (.writeFail (a.shape t x hx) hty hpc) fun hp => absurd hp.1 hty
  | @gcWriteFail g z x hx hty hpc hz =>
    refine TaskInv.tame a hx (.gcWriteFail (a.shape g x hx) hty hpc) fun hp => ?_
    exact a.past g x hx ⟨hp.1, hp.2.1, by rw [hpc]; rintro ⟨⟩⟩
  | @dropRef t x ht hx hr =>
    refine TaskInv.modify a hx (-1) (fun hs => hs.congr rfl rfl rfl rfl rfl rfl rfl rfl) rfl rfl
      a.nodup (fun t' => ?_) (fun hi => Or.inl hi) ?_ (fun t' => ?_) (fun hf => ?_)
      (fun t' ht' => Or.inl (List.mem_of_mem_erase ht')) (fun _ => Or.inl) (fun _ => id)
      (fun _ _ => Or.inl) (a.past t x hx)
    · split_ifs with e
      · have := TaskInv.mem_tree a hx
        rw [e]
        exact this
      · exact Iff.rfl
    · change x.refcount - 1 - x.ownRefs = _
      ring
    · rw [show Task.foundRef t' x.decRef = x.foundRef t' from rfl]
      split_ifs with e
      · have := List.count_pos_iff.mpr ht
        rw [e, List.count_erase_self]
        omega
      · rw [List.count_erase_of_ne e]
        ring
    · have : x.refcount = 1 := a.fresh t x hx hf
      omega
  | @destroy t x ht hx hr hl =>
    obtain ⟨hd, hin, hcnt, hfo⟩ := TaskInv.last a hx ht hr
    refine TaskInv.free a hx hin hfo (by rw [hd]; rintro _ ⟨⟩) ?_ (fun t' e => ?_) fun i y hi hy hty hli => ?_
    · rw [← List.count_eq_zero, List.count_erase_self, hcnt]
    · exact List.count_erase_of_ne e
    · obtain ⟨w, hw, -, hwp, -⟩ := a.link i y hy hty t hli
      cases hx.symm.trans hw
      rw [hd] at hwp
      cases hwp
  | @destroyCall t g v x y ht hx hr hty hl hy hgc hpc hv =>
    obtain ⟨hd, hin, hcnt, hfo⟩ := TaskInv.last a hx ht hr
    have hgt : g ≠ t := by
      rintro rfl
      cases hx.symm.trans hy
      exact hty hgc
    have hf : y.Fresh := by
      obtain ⟨⟨w, hp⟩, -⟩ := (a.shape g y hy).gc hgc
      rw [Task.Fresh, if_pos hgc]
      cases hp <;> simp_all
    obtain ⟨hg1, hg2⟩ := TaskInv.unseen a hy hf (by rw [hpc]; rintro ⟨⟩)
    have hy' : (k.tasks.free t).get g = some y := by rw [Heap.get_free, if_neg hgt, hy]
    have a' : TaskInv (k.tasks.free t) k.taskTree (k.taskPuts.erase t) k.mapping := by
      refine TaskInv.free a hx hin hfo (by rw [hd]; rintro _ ⟨⟩) ?_ (fun t' e => ?_)
        fun i w hi hw hty hli => ?_
      · rw [← List.count_eq_zero, List.count_erase_self, hcnt]
      · exact List.count_erase_of_ne e
      · obtain ⟨u, hu, -, hup, -⟩ := a.link i w hw hty t hli
        cases hx.symm.trans hu
        rw [hd] at hup
        cases hup
    change TaskInv ((k.tasks.free g).free t) _ _ _
    rw [Heap.free_free]
    refine TaskInv.free a' hy' (Task.not_inTree_of_fresh hf) (fun i w hw => ?_) (by rw [hpc]; rintro _ ⟨⟩)
      (fun h' => hg1 (List.mem_of_mem_erase h')) (fun _ _ => rfl) fun i w hi hw hwty hli => ?_
    · rw [Heap.get_free] at hw
      split_ifs at hw
      exact hg2 i w hw
    · rw [Heap.get_free] at hw
      split_ifs at hw with e
      obtain ⟨u, hu, -, hup, -⟩ := a.link i w hw hwty g hli
      cases hy.symm.trans hu
      rw [hpc] at hup
      cases hup
      exact e rfl
  | @nextUser t l hr hret =>
    obtain ⟨x, hx, hty, hpc⟩ := hq.users.2 t (by simp [hr, RetryPc.usersLeft])
    exact TaskInv.tame a hx (.nextUser (a.shape t x hx) hty hpc) fun hp => absurd hp.1 hty
  | @nextGc t l hr hret =>
    obtain ⟨x, hx, hty, hpc⟩ := hq.gcs.2 t (by simp [hr, RetryPc.gcsLeft])
    refine TaskInv.tame a hx (.nextGc (a.shape t x hx) hty hpc) fun hp => ?_
    exact a.past t x hx ⟨hty, hp.2.1, by rw [hpc]; rintro ⟨⟩⟩
  | @gcServe g x hx hpc =>
    obtain ⟨hty, ht⟩ := Tame.gcServe true _ (a.shape g x hx) hpc
    refine TaskInv.tame a hx ht fun hp => a.past g x hx ⟨hty, hp.2.1, by rw [hpc]; rintro ⟨⟩⟩
  | @gcServeFail g x hx hpc =>
    obtain ⟨hty, ht⟩ := Tame.gcServe false x.data (a.shape g x hx) hpc
    refine TaskInv.tame a hx ht fun hp => a.past g x hx ⟨hty, hp.2.1, by rw [hpc]; rintro ⟨⟩⟩
  | @gcReadEnd g x hx hpc =>
    obtain ⟨hty, ht⟩ := Tame.gcReadEnd (a.shape g x hx) hpc
    refine TaskInv.tame a hx ht fun hp => a.past g x hx ⟨hty, hp.2.1, by rw [hpc]; rintro ⟨⟩⟩
  | @gcFind g tk x y hx hty hst hpc htk hy hb =>
    have hf : x.Fresh := by
      rw [Task.Fresh, if_pos hty, hpc]
      exact ⟨hst, by rintro ⟨⟩, by rintro ⟨⟩, by rintro ⟨⟩⟩
    have hne := TaskInv.ne_of_fresh a hx hf htk
    have hyi := (TaskInv.mem_tree a hy).mp htk
    have hx' : (k.tasks.modify tk Task.incRef).get g = some x := by rw [Heap.get_modify_ne hne, hx]
    refine TaskInv.modify (TaskInv.grab a hy htk) hx' 0 (fun hs => ⟨fun h' => absurd hty h', ?_⟩)
      rfl rfl a.nodup (fun t' => ?_) (fun hi => ?_) ?_ (fun t' => ?_) (fun _ => ⟨hf, rfl⟩)
      (fun _ h' => Or.inl (List.mem_cons_of_mem _ h')) (fun t' h' => Or.inr ?_)
      (fun t' h' => by rw [hpc] at h'; cases h') (fun h' => absurd hty h')
      (fun h' => absurd hst h'.2.1)
    · intro _
      obtain ⟨⟨v, hp⟩, hl⟩ := (a.shape g x hx).gc hty
      cases hp with
      | wait h1 h2 h3 h4 h5 h6 h7 => exact ⟨⟨v, .found tk hst rfl rfl h3 h5 h6 h7⟩, hl⟩
      | _ => simp_all
    · split_ifs with e
      · rw [e, TaskInv.mem_tree a hx]
        simp [Task.InTree, hty, hst, hpc]
      · exact Iff.rfl
    · simp [Task.InTree, hty, hst] at hi
    · simp [Task.ownRefs, Task.InTree, hty, hst, hpc]
    · rw [TaskInv.count_cons_int]
      simp [Task.foundRef, hpc, eq_comm (a := tk)]
    · cases h'
      refine ⟨hne.symm, y.incRef, Heap.get_modify_self hy _, hb, fun h'' => ?_⟩
      exact Task.not_inTree_of_fresh (x := y) h'' hyi
  | @gcInsert g x hx hty hst hpc hfree =>
    have hf : x.Fresh := by
      rw [Task.Fresh, if_pos hty, hpc]
      exact ⟨hst, by rintro ⟨⟩, by rintro ⟨⟩, by rintro ⟨⟩⟩
    refine TaskInv.enter a hx hf (fun hs => ⟨fun h' => absurd hty h', fun _ => ?_⟩) rfl rfl ?_ rfl
      ?_ ?_ rfl (fun hp => absurd hst hp.2.1) hfree
    · obtain ⟨⟨v, hp⟩, hl⟩ := hs.gc hty
      cases hp with
      | wait h1 h2 h3 h4 h5 h6 h7 => exact ⟨⟨v, .check hst rfl rfl h3 h5 h7⟩, hl⟩
      | _ => simp_all
    all_goals simp [Task.InTree, hty, hpc]
  | @gcFound g tk x hx hty hpc =>
    obtain ⟨y, hy, hb, hyf⟩ := a.found g x hx tk hpc
    obtain ⟨⟨v, hp⟩, hl⟩ := (a.shape g x hx).gc hty
    have hst : x.status = .gcReading := by cases hp <;> simp_all
    have hf : x.Fresh := by
      rw [Task.Fresh, if_pos hty, hpc]
      exact ⟨hst, by rintro ⟨⟩, by rintro ⟨⟩, by rintro ⟨⟩⟩
    have hne : tk ≠ g := by
      rintro rfl
      cases hx.symm.trans hy
      exact hyf hf
    have a' : TaskInv (k.tasks.modify g fun x =>
        { x with error := some .enoent, pc := .waiting tk }) k.taskTree (tk :: k.taskPuts)
        k.mapping := by
      refine TaskInv.modify a hx 0 (fun _ => ⟨fun h' => absurd hty h', fun _ => ?_⟩)
        rfl rfl a.nodup (fun t' => ?_) (fun hi => ?_) ?_ (fun t' => ?_) (fun _ => ⟨hf, rfl⟩)
        (fun t' h' => ?_) (fun t' h' => absurd h' (by rintro ⟨⟩))
        (fun t' h' => by rw [hpc] at h'; cases h') (fun h' => absurd hty h')
        (fun h' => absurd hst h'.2.1)
      · cases hp with
        | found tk' h1 h2 h3 h4 h5 h6 h7 => exact ⟨⟨v, .handed tk hst rfl h3 h4 rfl h6 h7⟩, hl⟩
        | _ => simp_all
      · split_ifs with e
        · rw [e, TaskInv.mem_tree a hx]
          simp [Task.InTree, hty, hst, hpc]
        · exact Iff.rfl
      · simp [Task.InTree, hty, hst] at hi
      · simp [Task.ownRefs, Task.InTree, hty, hst, hpc]
      · rw [TaskInv.count_cons_int]
        simp [Task.foundRef, hpc, eq_comm (a := tk)]
      · rcases List.mem_cons.mp h' with rfl | h'
        · exact Or.inr ⟨y, hy⟩
        · exact Or.inl h'
    have hy' : (k.tasks.modify g fun x =>
        { x with error := some .enoent, pc := .waiting tk }).get tk = some y := by
      rw [Heap.get_modify_ne hne, hy]
    refine TaskInv.modify a' hy' 0 (fun hs => ?_) rfl rfl a'.nodup (fun t' => ?_) Or.inl ?_
      (fun t' => ?_) (fun h' => ⟨h', rfl⟩) (fun _ => Or.inl) (fun _ => Or.inl) (fun _ => id)
      (fun _ g' hg' => ?_) (a'.past tk y hy')
    · refine ⟨fun h' => ?_, fun h' => ?_⟩
      · obtain ⟨hp, he, -⟩ := hs.user h'
        refine ⟨?_, he, by rintro ⟨⟩⟩
        cases hp with
        | new h1 h2 h3 h4 => exact .new h1 h2 h3 h4
        | own h1 h2 h3 h4 => exact .own h1 h2 h3 h4
        | write z log h1 h2 h3 h4 => exact .write z log h1 h2 h3 h4
        | noInteg z h1 h2 h3 h4 => exact .noInteg z h1 h2 h3 h4
        | noBlock h1 h2 h3 h4 => exact .noBlock h1 h2 h3 h4
      · obtain ⟨⟨w, hp⟩, -⟩ := hs.gc h'
        rw [Task.Fresh, if_pos h'] at hyf
        refine ⟨⟨w, ?_⟩, by rintro ⟨⟩⟩
        cases hp with
        | check h1 h2 h3 h4 h5 h6 => exact .check h1 h2 h3 h4 h5 h6
        | skip h1 h2 h3 h4 h5 h6 => exact .skip h1 h2 h3 h4 h5 h6
        | own h1 h2 h3 h4 h5 h6 => exact .own h1 h2 h3 h4 h5 h6
        | write z log h1 h2 h3 h4 h5 h6 => exact .write z log h1 h2 h3 h4 h5 h6
        | noRead h1 h2 h3 h4 h5 h6 => exact .noRead h1 h2 h3 h4 h5 h6
        | noWrite z log h1 h2 h3 h4 h5 h6 => exact .noWrite z log h1 h2 h3 h4 h5 h6
        | read _ h2 => rcases h2 with h2 | ⟨ok, h2⟩ <;> simp_all
        | wait _ h2 => rcases h2 with h2 | h2 <;> simp_all
        | _ => simp_all
    · split_ifs with e
      · have := TaskInv.mem_tree a' hy'
        rw [e]
        exact this
      · exact Iff.rfl
    · simp [Task.ownRefs, Task.InTree]
    · simp [Task.foundRef]
    · cases hg'
      exact Or.inr ⟨hne.symm, _, Heap.get_modify_self hx _, hty, rfl, hb.symm⟩
  | @gcSkip g x hx hty hpc hm =>
    have hst : x.status = .gcReading := by
      obtain ⟨⟨v, hp⟩, hl⟩ := (a.shape g x hx).gc hty
      cases hp <;> simp_all
    refine TaskInv.leave a hx (fun hs => ⟨fun h' => absurd hty h', fun _ => ?_⟩) rfl rfl ?_ ?_ rfl
      ?_ (by rintro _ ⟨⟩) ?_ rfl (if_neg (by rintro ⟨⟩)).symm
    · obtain ⟨⟨v, hp⟩, hl⟩ := hs.gc hty
      cases hp with
      | check h1 h2 h3 h4 h5 h6 => exact ⟨⟨v, .skip hst (Or.inl rfl) h3 h4 rfl h6⟩, hl⟩
      | _ => simp_all
    all_goals simp [Task.InTree, Task.Fresh, hty, hst, hpc]
  | @gcPass g x hx hty hpc hm =>
    exact TaskInv.tame a hx (.gcPass (a.shape g x hx) hty hpc) fun _ => Or.inl hm
  | @gcWritten g z p x hx hty hpc hz =>
    refine TaskInv.tame a hx (.gcWritten (a.shape g x hx) hty hpc) fun hp => ?_
    exact a.past g x hx ⟨hty, hp.2.1, by rw [hpc]; rintro ⟨⟩⟩
  | @remap g z v p x hx hty hpc hl hz hv hm =>
    have hi := (a.shape g x hx).callback_inTree hpc
    refine TaskInv.setMapping (TaskInv.uncall a hx hpc) (fun i y hy hpast hb => ?_) _
    rw [Heap.get_modify] at hy
    split_ifs at hy with e
    · rw [e, hx] at hy
      cases hy
      exact hpast.2.2 rfl
    · exact e (TaskInv.eq_of_holder a hx hi hy hpast.inTree hb)
  | @release g z v o x hx hty hpc hl hz hv => exact TaskInv.uncall a hx hpc
  | @skipEnd g v x hx hty hpc hl hv =>
    obtain ⟨⟨w, hp⟩, hli⟩ := (a.shape g x hx).gc hty
    have hst : x.status = .gcReading := by cases hp <;> simp_all
    refine TaskInv.finish (v := w) a hx hty hst (by rw [hpc]; exact ⟨by rintro ⟨⟩, by rintro ⟨⟩, by rintro _ ⟨⟩, by rintro _ ⟨⟩⟩) ?_ rfl rfl
      rfl rfl rfl
    cases hp with
    | skip h1 h2 h3 h4 h5 h6 => exact .skip hst (Or.inr rfl) h3 h4 h5 h6
    | _ => simp_all
  | @gcReadFail g v x hx hpc hv =>
    have hty := (a.shape g x hx).read_type hpc
    obtain ⟨⟨w, hp⟩, hli⟩ := (a.shape g x hx).gc hty
    have hst : x.status = .gcReading := by cases hp <;> simp_all
    refine TaskInv.finish (v := w) a hx hty hst (by rw [hpc]; exact ⟨by rintro ⟨⟩, by rintro ⟨⟩, by rintro _ ⟨⟩, by rintro _ ⟨⟩⟩) ?_ rfl rfl
      rfl rfl rfl
    cases hp with
    | read h1 h2 h3 h4 h5 h6 h7 => exact .noRead hst rfl h3 h4 rfl h7
    | _ => simp_all
  | discard => exact TaskInv.discard a _


/-- Every move keeps the queues of the retry worker. -/
theorem Queues.move (a : Tasks k) (hq : Queues k) (hm : Move c k l k') : Queues k' := by
  cases hm with
  | openZone | complete | putZone | readMiss | readHit | serve | endRead | select | scanFree
  | scanEnd | peek | wkStart | wkIdle | wkNext | wkFull | wkSticky | wkFree | wkClose | wkLink
  | wkEmpty | wkCarried | wkReset | wkPublish | discard | serveFail | wkFail =>
    exact ⟨hq.users, hq.gcs⟩
  | submitWrite | scanBlock => exact ⟨hq.users.alloc _, hq.gcs.alloc _⟩
  | retryUsers hr =>
    have := hq.users
    rw [hr] at this
    refine ⟨this.perm ?_, ?_⟩
    · simp [RetryPc.usersLeft]
    · have := hq.gcs
      rwa [hr] at this
  | retryGcs hr hret =>
    have := hq.gcs
    rw [hr] at this
    refine ⟨?_, this.perm ?_⟩
    · have := hq.users
      rwa [hr] at this
    · simp [RetryPc.gcsLeft]
  | retryDone hr hret =>
    refine ⟨?_, ?_⟩
    · have := hq.users
      rwa [hr] at this
    · have := hq.gcs
      rwa [hr] at this
  | @nextUser t l hr hret =>
    have hu := hq.users
    have hg := hq.gcs
    rw [hr] at hu hg
    obtain ⟨x, hx, hty, -⟩ := hu.2 t (by simp [RetryPc.usersLeft])
    refine ⟨hu.pop _, hg.modify hx (Or.inr (Or.inl fun ht => ?_))⟩
    obtain ⟨y, hy, hty', -⟩ := hg.2 t ht
    cases hx.symm.trans hy
    exact hty hty'
  | @nextGc t l hr hret =>
    have hu := hq.users
    have hg := hq.gcs
    rw [hr] at hu hg
    obtain ⟨x, hx, hty, -⟩ := hg.2 t (by simp [RetryPc.gcsLeft])
    refine ⟨hu.modify hx (Or.inr (Or.inl fun ht => ?_)), hg.pop _⟩
    obtain ⟨y, hy, hty', -⟩ := hu.2 t ht
    cases hx.symm.trans hy
    exact hty' hty
  | @conflict t tk x y hx hty hst hpc htk hy hb =>
    have hf : x.Fresh := by rw [Task.Fresh, if_neg hty]; exact hst
    have hx' : (k.tasks.modify tk Task.incRef).get t = some x := by
      rw [Heap.get_modify_ne (TaskInv.ne_of_fresh a hx hf htk), hx]
    have hg : ∀ P l, Waiting k.tasks P l → Waiting (k.tasks.modify tk Task.incRef) P l :=
      fun P l hw => hw.modify hy (Or.inr (Or.inr ⟨rfl, rfl⟩))
    exact ⟨(hg _ _ hq.users).push hx' (by rw [hpc]; nofun) hty rfl,
      (hg _ _ hq.gcs).modify hx' (Or.inl (by rw [hpc]; nofun))⟩
  | @pend t x hx hty hst hpc =>
    have hne : x.pc ≠ .pending := by rcases hpc with hpc | ⟨j, hpc⟩ <;> rw [hpc] <;> nofun
    exact ⟨hq.users.push hx hne hty rfl, hq.gcs.modify hx (Or.inl hne)⟩
  | @gcReadEnd g x hx hpc =>
    have hne : x.pc ≠ .pending := by rw [hpc]; nofun
    obtain ⟨hty, -⟩ := Tame.gcReadEnd (a.shape g x hx) hpc
    exact ⟨hq.users.modify hx (Or.inl hne), hq.gcs.push hx hne hty rfl⟩
  | @dispatch t z i x log hx hst hpc | @dispatchFail t z i x hx hty hst hpc
  | @allocFail t x hx hty hst hpc =>
    have hne : x.pc ≠ .pending := by rcases hpc with hpc | ⟨j, hpc⟩ <;> rw [hpc] <;> nofun
    exact hq.keep rfl rfl rfl fun P l hw => hw.modify hx (Or.inl hne)
  | fallback hx _ hpc | fallbackFail hx _ hpc | insert hx _ _ hpc | append hx hpc | apply hx _ hpc
  | untree hx hpc
  | gcServe hx hpc | gcInsert hx _ _ hpc | gcSkip hx _ hpc | gcPass hx _ hpc | gcWritten hx _ hpc
  | remap hx _ hpc | skipEnd hx _ hpc | devFail hx hpc | writeFail hx _ hpc | gcServeFail hx hpc
  | gcReadFail hx hpc | gcWriteFail hx _ hpc | release hx _ hpc =>
    exact hq.keep rfl rfl rfl fun P l hw => hw.modify hx (Or.inl (by rw [hpc]; nofun))
  | dropRef _ hx => exact hq.keep rfl rfl rfl fun P l hw => hw.modify hx (Or.inr (Or.inr ⟨rfl, rfl⟩))
  | destroy ht hx hr =>
    obtain ⟨hd, -⟩ := TaskInv.last a hx ht hr
    exact hq.keep rfl rfl rfl fun P l hw => hw.free hx (by rw [hd]; nofun)
  | @destroyCall t g v x y ht hx hr hty hl hy hgc hpc hv =>
    obtain ⟨hd, -⟩ := TaskInv.last a hx ht hr
    refine hq.keep rfl rfl rfl fun P l hw => (hw.free hy (by rw [hpc]; nofun)).free (x := x) ?_
      (by rw [hd]; nofun)
    rw [Heap.get_free, if_neg, hx]
    rintro rfl
    cases hx.symm.trans hy
    exact hty hgc
  | @gcFind g tk x y hx hty hst hpc htk hy hb =>
    have hf : x.Fresh := by
      rw [Task.Fresh, if_pos hty, hpc]
      exact ⟨hst, nofun, nofun, nofun⟩
    refine hq.keep rfl rfl rfl fun P l hw => (hw.modify hy (Or.inr (Or.inr ⟨rfl, rfl⟩))).modify (x := x) ?_
      (Or.inl (by rw [hpc]; nofun))
    rw [Heap.get_modify_ne (TaskInv.ne_of_fresh a hx hf htk), hx]
  | @gcFound g tk x hx hty hpc =>
    obtain ⟨y, hy, -⟩ := a.found g x hx tk hpc
    refine hq.keep rfl rfl rfl fun P l hw => ?_
    have hw' := hw.modify (f := fun x => { x with error := some .enoent, pc := .waiting tk }) hx
      (Or.inl (by rw [hpc]; nofun))
    by_cases e : tk = g
    · subst e
      exact hw'.modify (Heap.get_modify_self hx _) (Or.inr (Or.inr ⟨rfl, rfl⟩))
    · exact hw'.modify (x := y) (by rw [Heap.get_modify_ne e, hy]) (Or.inr (Or.inr ⟨rfl, rfl⟩))

end Lbz
