import Lbz.Counts

/-!
# What a move does to one task

* `Later k k' l t x y`: what can become of the task `x` at `t` in a move from `k` to `k'`, without an
  error;
* `Made c k k' y`: the tasks that a move can make;
* **`Move.task`**: every task after a move was there, as one it is later of, or has been made;
* **`Move.gone`**: a task that is freed has ended, or has been called back by the write it waited for.
-/

namespace Lbz

variable {α : Type}

/-- The task at `t` was `x` in `k`, and is `y` in `k'`, after a move with label `l`. -/
structure Later (k k' : Core α) (l : Label) (t : ℕ) (x y : Task α) : Prop where
  type : y.type = x.type
  blkid : y.blkid = x.blkid
  pbid : y.pbid = x.pbid
  victim : x.type = .gc → y.victim = x.victim
  stays : x.pc = .done → y.pc = .done
  writes : ∀ z, y.Writes z → x.Writes z ∨ ∃ i, k.zmd.activeZone i = some z
  skip : y.pc = .skip → x.pc = .skip ∨ k.mapping x.blkid ≠ some x.pbid
  ended : y.pc = .ended → y.zone = x.zone ∧ (x.pc = .ended ∨ l = .stored t)
  found : ∀ i, y.pc = .found i → x.pc = .found i ∨ x.status = .gcReading ∧ x.pc = .submit ∧
    i ∈ k.taskTree ∧ ∃ w, k.tasks.get i = some w ∧ w.blkid = x.blkid
  waiting : ∀ i, y.pc = .waiting i → x.pc = .waiting i ∨ x.pc = .found i ∧
    ∃ w, k'.tasks.get i = some w ∧ w.link = .node t
  finish : y.pc = .done → x.pc = .done ∨ x.pc = .ended ∨ x.pc = .skip ∨ l = .moved t
  link : y.link = x.link ∨ ∃ g w w', y.link = .node g ∧ k.tasks.get g = some w ∧ w.pc = .found t ∧
    k'.tasks.get g = some w' ∧ w'.pc = .waiting t

/-- A task that a move makes. -/
inductive Made [Inhabited α] (c : Conf) (k k' : Core α) : Task α → Prop
  | write (ty : TaskType) (b : ℕ) (d : α) (more : List α) (hty : ty ≠ .gc) :
    Made c k k' (Task.forWrite ty b d more)
  | gc (z iter b : ℕ) (hpc : k.gcPc = .scan z iter (some b)) (hi : iter < (k.zmd.zones z).wpBlock)
      (hpc' : k'.gcPc = .scan z (iter + 1) ((k.zmd.zones z).zrms (iter + 1))) :
      Made c k k' (Task.forGc z (c.startBlk z + iter) b)

namespace Later

variable {k k' : Core α} {l : Label} {t : ℕ} {x y : Task α}

theorem refl (k k' : Core α) (l : Label) (t : ℕ) (x : Task α) : Later k k' l t x x where
  type := rfl
  blkid := rfl
  pbid := rfl
  victim _ := rfl
  stays := id
  writes _ := Or.inl
  skip := Or.inl
  ended h := ⟨rfl, Or.inl h⟩
  found _ := Or.inl
  waiting _ := Or.inl
  finish := Or.inl
  link := Or.inl rfl

/-- Only the number of references changes. -/
theorem refs (n : ℤ) : Later k k' l t x { x with refcount := n } := { refl k k' l t x with }

/-- A gc task that has found `x` becomes its partner. -/
theorem node {g : ℕ} {w w' : Task α} (hg : k.tasks.get g = some w) (hpc : w.pc = .found t)
    (hg' : k'.tasks.get g = some w') (hpc' : w'.pc = .waiting t) :
    Later k k' l t x { x with link := .node g } :=
  { refl k k' l t x with link := Or.inr ⟨g, w, w', rfl, hg, hpc, hg', hpc'⟩ }

/-- The task goes on, to a place that says nothing of the mapping or of another task. -/
theorem goes (hty : y.type = x.type) (hb : y.blkid = x.blkid) (hp : y.pbid = x.pbid)
    (hl : y.link = x.link) (hv : x.type = .gc → y.victim = x.victim) (hd : x.pc ≠ .done)
    (hw : ∀ z, y.Writes z → x.Writes z ∨ ∃ i, k.zmd.activeZone i = some z)
    (hpc : y.pc ≠ .skip ∧ y.pc ≠ .ended ∧ y.pc ≠ .done ∧ (∀ i, y.pc ≠ .found i) ∧
      ∀ i, y.pc ≠ .waiting i) : Later k k' l t x y where
  type := hty
  blkid := hb
  pbid := hp
  victim := hv
  stays h := absurd h hd
  writes := hw
  skip h := absurd h hpc.1
  ended h := absurd h hpc.2.1
  found i h := absurd h (hpc.2.2.2.1 i)
  waiting i h := absurd h (hpc.2.2.2.2 i)
  finish h := absurd h hpc.2.2.1
  link := Or.inl hl

/-- A task that has a block before exactly if it has one after. -/
theorem keeps {pc : TaskPc} (hd : x.pc ≠ .done) (z : ℕ) (h : Task.Writes z { x with pc }) :
    x.Writes z ∨ ∃ i, k.zmd.activeZone i = some z := Or.inl ⟨h.1, h.2.1, hd⟩

end Later

/-- One task changes. -/
theorem later_modify {k k' : Core α} {l : Label} {t i : ℕ} {x y : Task α} {f : Task α → Task α}
    (hx : k.tasks.get t = some x) (hy : (k.tasks.modify t f).get i = some y)
    (h : Later k k' l t x (f x)) : ∃ x, k.tasks.get i = some x ∧ Later k k' l i x y := by
  rw [Heap.get_modify] at hy
  split_ifs at hy with e
  · subst e
    rw [hx] at hy
    cases hy
    exact ⟨x, hx, h⟩
  · exact ⟨y, hy, .refl k k' l i y⟩

/-- Two tasks change. -/
theorem later_modify₂ {k k' : Core α} {l : Label} {t t' i : ℕ} {x x' y : Task α}
    {f f' : Task α → Task α} (hne : t' ≠ t) (hx : k.tasks.get t = some x)
    (hx' : k.tasks.get t' = some x') (hy : ((k.tasks.modify t f).modify t' f').get i = some y)
    (h : Later k k' l t x (f x)) (h' : Later k k' l t' x' (f' x')) : ∃ x, k.tasks.get i = some x ∧ Later k k' l i x y := by
  rw [Heap.get_modify] at hy
  split_ifs at hy with e
  · subst e
    rw [Heap.get_modify_ne hne, hx'] at hy
    cases hy
    exact ⟨x', hx', h'⟩
  · exact later_modify hx hy h

/-- A gc task that has not met the tree yet knows its victim by `zone`. -/
theorem Task.Shape.submit {x : Task α} (h : x.Shape) (hty : x.type = .gc)
    (hst : x.status = .gcReading) (hpc : x.pc = .submit) :
    ∃ v, x.zone = some v ∧ x.readZone = none := by
  obtain ⟨⟨v, hp⟩, -⟩ := h.gc hty
  refine ⟨v, ?_⟩
  cases hp <;> simp_all

/-- A gc task past its check knows its victim by `readZone`. -/
theorem Task.Shape.readZone {x : Task α} (h : x.Shape) (hty : x.type = .gc)
    (hst : x.status ≠ .gcReading) :
    ∃ v, x.readZone = some v := by
  obtain ⟨⟨v, hp⟩, -⟩ := h.gc hty
  refine ⟨v, ?_⟩
  cases hp <;> simp_all

section

variable [Inhabited α] {c : Conf} {k k' : Core α} {l : Label} {i : ℕ} {y : Task α}

/-- **Every task after a move was there, or has been made.** -/
theorem Move.task (B : Base c k) (hf : l ≠ .fault) (hm : Move c k l k')
    (hy : k'.tasks.get i = some y) :
    (∃ x, k.tasks.get i = some x ∧ Later k k' l i x y) ∨ i = k.tasks.next ∧ Made c k k' y := by
  have T := B.tasks
  have Q := B.queues
  -- a task that is made
  have halloc : ∀ {w : Task α}, (k.tasks.alloc w).get i = some y →
      Made c k k' w → (∃ x, k.tasks.get i = some x ∧ Later k k' l i x y) ∨
        i = k.tasks.next ∧ Made c k k' y := by
    intro w h hw
    rw [Heap.get_alloc] at h
    split_ifs at h with e
    · cases h
      exact Or.inr ⟨e, hw⟩
    · exact Or.inl ⟨y, h, .refl k k' l i y⟩
  cases hm with
  | dispatchFail | fallbackFail | allocFail | devFail | writeFail | serveFail | gcServeFail
  | gcReadFail | gcWriteFail | release | wkFail => exact absurd rfl hf
  | submitWrite b d more hty => exact halloc hy (.write _ b d more hty)
  | @scanBlock z iter b hpc hi => exact halloc hy (.gc z iter b hpc hi rfl)
  | @conflict t tk x w hx hty hst hpc htk hw hb =>
    have hfr : x.Fresh := by rw [Task.Fresh, if_neg hty]; exact hst
    refine Or.inl (later_modify₂ (TaskInv.ne_of_fresh T hx hfr htk) hw hx hy (.refs _) ?_)
    exact .goes rfl rfl rfl rfl (fun _ => rfl) (by rw [hpc]; rintro ⟨⟩) (Later.keeps (by rw [hpc]; rintro ⟨⟩))
      ⟨by rintro ⟨⟩, by rintro ⟨⟩, by rintro ⟨⟩, by rintro _ ⟨⟩, by rintro _ ⟨⟩⟩
  | @insert t x hx hty hst hpc hfree =>
    refine Or.inl (later_modify hx hy (.goes rfl rfl rfl rfl (fun _ => rfl) (by rw [hpc]; rintro ⟨⟩)
      (fun z h => ?_) (by rw [hpc]; exact ⟨by rintro ⟨⟩, by rintro ⟨⟩, by rintro ⟨⟩, by rintro _ ⟨⟩, by rintro _ ⟨⟩⟩)))
    cases h.2.1
  | @dispatch t z j x log hx hst hpc ha hres hlog =>
    refine Or.inl (later_modify hx hy (.goes rfl rfl rfl rfl (fun hty => ?_) ?_ (fun z' h => Or.inr ?_)
      ⟨by rintro ⟨⟩, by rintro ⟨⟩, by rintro ⟨⟩, by rintro _ ⟨⟩, by rintro _ ⟨⟩⟩))
    · obtain ⟨v, hv⟩ := (T.shape t x hx).readZone hty (by rw [hst]; rintro ⟨⟩)
      simp only [Task.victim, hv, Option.some_or]
    · rcases hpc with hpc | ⟨j, hpc⟩ <;> rw [hpc] <;> rintro ⟨⟩
    · cases h.1
      exact ⟨j, ha⟩
  | @fallback t j x hx hst hpc =>
    exact Or.inl (later_modify hx hy (.goes rfl rfl rfl rfl (fun _ => rfl) (by rw [hpc]; rintro ⟨⟩)
      (Later.keeps (by rw [hpc]; rintro ⟨⟩)) ⟨by rintro ⟨⟩, by rintro ⟨⟩, by rintro ⟨⟩, by rintro _ ⟨⟩, by rintro _ ⟨⟩⟩))
  | @pend t x hx hty hst hpc =>
    have hd : x.pc ≠ .done := by rcases hpc with hpc | ⟨j, hpc⟩ <;> rw [hpc] <;> rintro ⟨⟩
    exact Or.inl (later_modify hx hy (.goes rfl rfl rfl rfl (fun _ => rfl) hd (Later.keeps hd)
      ⟨by rintro ⟨⟩, by rintro ⟨⟩, by rintro ⟨⟩, by rintro _ ⟨⟩, by rintro _ ⟨⟩⟩))
  | @append t z off x log hx hpc =>
    exact Or.inl (later_modify hx hy (.goes rfl rfl rfl rfl (fun _ => rfl) (by rw [hpc]; rintro ⟨⟩)
      (Later.keeps (by rw [hpc]; rintro ⟨⟩)) ⟨by rintro ⟨⟩, by rintro ⟨⟩, by rintro ⟨⟩, by rintro _ ⟨⟩, by rintro _ ⟨⟩⟩))
  | @apply t z p x hx hty hpc hz =>
    refine Or.inl (later_modify hx hy { Later.refl k _ (.stored t) t x with
      stays := fun h => ?_, writes := Later.keeps ?_, skip := by rintro ⟨⟩,
      ended := fun _ => ⟨rfl, Or.inr rfl⟩,
      found := by rintro _ ⟨⟩, waiting := by rintro _ ⟨⟩, finish := by rintro ⟨⟩ })
    · rw [hpc] at h
      cases h
    · rw [hpc]
      rintro ⟨⟩
  | @untree t z x hx hpc hz =>
    exact Or.inl (later_modify hx hy { Later.refl k _ .plain t x with
      stays := fun _ => rfl, writes := fun z h => absurd rfl h.2.2, skip := by rintro ⟨⟩, ended := by rintro ⟨⟩
      found := by rintro _ ⟨⟩, waiting := by rintro _ ⟨⟩, finish := fun _ => Or.inr (Or.inl hpc) })
  | dropRef ht hx => exact Or.inl (later_modify hx hy (.refs _))
  | @destroy t x ht hx =>
    rw [Heap.get_free] at hy
    split_ifs at hy
    exact Or.inl ⟨y, hy, .refl k _ _ i y⟩
  | @destroyCall t g v x w ht hx =>
    rw [Heap.get_free, Heap.get_free] at hy
    split_ifs at hy
    exact Or.inl ⟨y, hy, .refl k _ _ i y⟩
  | @nextUser t l hr hret =>
    obtain ⟨x, hx, -, hpc⟩ := Q.users.2 t (by simp [hr, RetryPc.usersLeft])
    exact Or.inl (later_modify hx hy (.goes rfl rfl rfl rfl (fun _ => rfl) (by rw [hpc]; rintro ⟨⟩)
      (Later.keeps (by rw [hpc]; rintro ⟨⟩)) ⟨by rintro ⟨⟩, by rintro ⟨⟩, by rintro ⟨⟩, by rintro _ ⟨⟩, by rintro _ ⟨⟩⟩))
  | @nextGc t l hr hret =>
    obtain ⟨x, hx, -, hpc⟩ := Q.gcs.2 t (by simp [hr, RetryPc.gcsLeft])
    exact Or.inl (later_modify hx hy (.goes rfl rfl rfl rfl (fun _ => rfl) (by rw [hpc]; rintro ⟨⟩)
      (Later.keeps (by rw [hpc]; rintro ⟨⟩)) ⟨by rintro ⟨⟩, by rintro ⟨⟩, by rintro ⟨⟩, by rintro _ ⟨⟩, by rintro _ ⟨⟩⟩))
  | @gcServe g x hx hpc =>
    exact Or.inl (later_modify hx hy (.goes rfl rfl rfl rfl (fun _ => rfl) (by rw [hpc]; rintro ⟨⟩)
      (fun z h => Or.inl ⟨h.1, h.2.1, by rw [hpc]; rintro ⟨⟩⟩) ⟨by rintro ⟨⟩, by rintro ⟨⟩, by rintro ⟨⟩, by rintro _ ⟨⟩, by rintro _ ⟨⟩⟩))
  | @gcReadEnd g x hx hpc =>
    obtain ⟨hty, -⟩ := Tame.gcReadEnd (T.shape g x hx) hpc
    obtain ⟨⟨v, hp⟩, -⟩ := (T.shape g x hx).gc hty
    obtain ⟨hz, hv⟩ : x.zone = some v ∧ x.readZone = some v := by cases hp <;> simp_all
    refine Or.inl (later_modify hx hy (.goes rfl rfl rfl rfl (fun _ => ?_) (by rw [hpc]; rintro ⟨⟩)
      (fun z h => Or.inl ⟨h.1, h.2.1, by rw [hpc]; rintro ⟨⟩⟩) ⟨by rintro ⟨⟩, by rintro ⟨⟩, by rintro ⟨⟩, by rintro _ ⟨⟩, by rintro _ ⟨⟩⟩))
    simp only [Task.victim, hz, hv, Option.some_or, Option.none_or]
  | @gcFind g tk x w hx hty hst hpc htk hw hb =>
    have hfr : x.Fresh := by
      rw [Task.Fresh, if_pos hty, hpc]
      exact ⟨hst, by rintro ⟨⟩, by rintro ⟨⟩, by rintro ⟨⟩⟩
    obtain ⟨v, hz, hv⟩ := (T.shape g x hx).submit hty hst hpc
    refine Or.inl (later_modify₂ (TaskInv.ne_of_fresh T hx hfr htk) hw hx hy (.refs _)
      { Later.refl k _ .plain g x with
        victim := fun _ => ?_, stays := fun h => ?_, writes := fun z h => ?_, skip := by rintro ⟨⟩
        ended := by rintro ⟨⟩, found := fun i h => ?_, waiting := by rintro _ ⟨⟩, finish := by rintro ⟨⟩ })
    · simp only [Task.victim, hz, hv, Option.some_or, Option.none_or]
    · rw [hpc] at h
      cases h
    · cases h.1
    · cases h
      exact Or.inr ⟨hst, hpc, htk, w, hw, hb⟩
  | @gcInsert g x hx hty hst hpc hfree =>
    obtain ⟨v, hz, hv⟩ := (T.shape g x hx).submit hty hst hpc
    refine Or.inl (later_modify hx hy (.goes rfl rfl rfl rfl (fun _ => ?_) (by rw [hpc]; rintro ⟨⟩)
      (fun z h => ?_) ⟨by rintro ⟨⟩, by rintro ⟨⟩, by rintro ⟨⟩, by rintro _ ⟨⟩, by rintro _ ⟨⟩⟩))
    · simp only [Task.victim, hz, hv, Option.some_or, Option.none_or]
    · cases h.1
  | @gcFound g tk x hx hty hpc =>
    obtain ⟨w, hw, -, hnf⟩ := T.found g x hx tk hpc
    have hne : tk ≠ g := by
      rintro rfl
      cases hx.symm.trans hw
      obtain ⟨⟨v, hp⟩, -⟩ := (T.shape tk x hx).gc hty
      refine hnf ?_
      rw [Task.Fresh, if_pos hty, hpc]
      exact ⟨by cases hp <;> simp_all, by rintro ⟨⟩, by rintro ⟨⟩, by rintro ⟨⟩⟩
    have hx' := Heap.get_modify_self hx fun x : Task α =>
      { x with error := some .enoent, pc := .waiting tk }
    refine Or.inl (later_modify₂ hne hx hw hy { Later.refl k _ .plain g x with
        stays := fun h => ?_, writes := Later.keeps ?_, skip := by rintro ⟨⟩, ended := by rintro ⟨⟩, found := by rintro _ ⟨⟩
        waiting := fun i h => ?_, finish := by rintro ⟨⟩ }
      (.node hx hpc (by rw [Heap.get_modify_ne hne.symm]; exact hx') rfl))
    · rw [hpc] at h
      cases h
    · rw [hpc]
      rintro ⟨⟩
    · cases h
      exact Or.inr ⟨hpc, _, Heap.get_modify_self (by rw [Heap.get_modify_ne hne, hw]) _, rfl⟩
  | @gcSkip g x hx hty hpc hm =>
    refine Or.inl (later_modify hx hy { Later.refl k _ .plain g x with
      stays := fun h => ?_, writes := Later.keeps ?_, skip := fun _ => Or.inr hm, ended := by rintro ⟨⟩
      found := by rintro _ ⟨⟩, waiting := by rintro _ ⟨⟩, finish := by rintro ⟨⟩ })
    · rw [hpc] at h
      cases h
    · rw [hpc]
      rintro ⟨⟩
  | @gcPass g x hx hty hpc hm =>
    refine Or.inl (later_modify hx hy (.goes rfl rfl rfl rfl (fun _ => rfl) (by rw [hpc]; rintro ⟨⟩)
      (fun z h => ?_) ⟨by rintro ⟨⟩, by rintro ⟨⟩, by rintro ⟨⟩, by rintro _ ⟨⟩, by rintro _ ⟨⟩⟩))
    cases h.2.1
  | @gcWritten g z p x hx hty hpc hz =>
    exact Or.inl (later_modify hx hy (.goes rfl rfl rfl rfl (fun _ => rfl) (by rw [hpc]; rintro ⟨⟩)
      (fun z h => Or.inl ⟨h.1, h.2.1, by rw [hpc]; rintro ⟨⟩⟩) ⟨by rintro ⟨⟩, by rintro ⟨⟩, by rintro ⟨⟩, by rintro _ ⟨⟩, by rintro _ ⟨⟩⟩))
  | @remap g z v p x hx hty hpc =>
    exact Or.inl (later_modify hx hy { Later.refl k _ (.moved g) g x with
      stays := fun _ => rfl, writes := fun z h => absurd rfl h.2.2, skip := by rintro ⟨⟩, ended := by rintro ⟨⟩
      found := by rintro _ ⟨⟩, waiting := by rintro _ ⟨⟩, finish := fun _ => Or.inr (Or.inr (Or.inr rfl)) })
  | @skipEnd g v x hx hty hpc =>
    exact Or.inl (later_modify hx hy { Later.refl k _ .plain g x with
      stays := fun _ => rfl, writes := fun z h => absurd rfl h.2.2, skip := by rintro ⟨⟩, ended := by rintro ⟨⟩
      found := by rintro _ ⟨⟩, waiting := by rintro _ ⟨⟩, finish := fun _ => Or.inr (Or.inr (Or.inl hpc)) })
  | _ => exact Or.inl ⟨y, hy, .refl k _ _ i y⟩

/-- **A task that is freed has ended**, or has been called back by the write it waited for. -/
theorem Move.gone {x : Task α} (B : Base c k) (hm : Move c k l k') (hx : k.tasks.get i = some x)
    (hy : k'.tasks.get i = none) :
    x.pc = .done ∧ (x.type ≠ .gc → ∀ g, x.link = .node g → k'.tasks.get g = none) ∨
      x.type = .gc ∧ ∃ t w, x.pc = .waiting t ∧ k.tasks.get t = some w ∧ w.pc = .done := by
  have hno : ∀ {t : ℕ} {f : Task α → Task α}, (k.tasks.modify t f).get i = none → False := by
    intro t f h
    rw [Heap.get_modify] at h
    split_ifs at h with e
    · rw [hx] at h
      cases h
    · rw [hx] at h
      cases h
  have hno₂ : ∀ {t t' : ℕ} {f f' : Task α → Task α},
      ((k.tasks.modify t f).modify t' f').get i = none → False := by
    intro t t' f f' h
    rw [Heap.get_modify] at h
    split_ifs at h
    · exact hno (Option.map_eq_none_iff.mp h)
    · exact hno h
  cases hm with
  | submitWrite | scanBlock =>
    have hy : (k.tasks.alloc _).get i = none := hy
    rw [Heap.get_alloc, if_neg (Heap.lt_next_of_get hx).ne, hx] at hy
    cases hy
  | @destroy t x' ht hx' hr hl =>
    have hy : (k.tasks.free t).get i = none := hy
    rw [Heap.get_free] at hy
    split_ifs at hy with e
    · subst e
      cases hx.symm.trans hx'
      refine Or.inl ⟨(TaskInv.last B.tasks hx ht hr).1, fun hty g h => ?_⟩
      rw [hl hty] at h
      cases h
    · rw [hx] at hy
      cases hy
  | @destroyCall t g v x' w ht hx' hr hty hl hw hgc hpc =>
    have hy : ((k.tasks.free g).free t).get i = none := hy
    have hd := (TaskInv.last B.tasks hx' ht hr).1
    rw [Heap.get_free, Heap.get_free] at hy
    split_ifs at hy with e1 e2
    · subst e1
      cases hx.symm.trans hx'
      refine Or.inl ⟨hd, fun _ g' h => ?_⟩
      cases hl.symm.trans h
      change ((k.tasks.free g).free i).get g = none
      rw [Heap.get_free, Heap.get_free, if_pos rfl, ite_self]
    · subst e2
      cases hx.symm.trans hw
      exact Or.inr ⟨hgc, t, x', hpc, hx', hd⟩
    · rw [hx] at hy
      cases hy
  | conflict | gcFind | gcFound => exact (hno₂ hy).elim
  | insert | dispatch | fallback | pend | append | apply | untree | dropRef | nextUser | nextGc
  | gcServe | gcReadEnd | gcInsert | gcSkip | gcPass | gcWritten | remap | skipEnd | dispatchFail
  | fallbackFail | allocFail | devFail | writeFail | gcServeFail | gcReadFail | gcWriteFail
  | release => exact (hno hy).elim
  | _ =>
    rw [hx] at hy
    cases hy

end

end Lbz
