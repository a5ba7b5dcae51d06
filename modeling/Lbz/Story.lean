import Lbz.TaskMove

/-!
# What happens to a task

* `story t hist`: what is written down of task `t`; `Task.Told`: what it says of a task that is
  there; `Over`: what it says of one that has been destroyed;
* `Stories k`: every task has its story; **`Stories.move`**: every move keeps it, also the errors.

How often something has happened to a task is read off its story.
-/

namespace Lbz

variable {α : Type}

/-- The task that an observation is about. -/
def Obs.task : Obs α → Option ℕ
  | .submitW t _ _ _ | .stored t _ _ _ | .endW t _ | .gcCreate t | .insert t | .erase t
  | .callback t | .putVictim t | .freePage t | .bioPut t _ | .alloc t _ => some t
  | .submitR _ _ | .endR _ _ _ | .select _ _ | .reset _ => none

/-- What is written down of task `t`, newest first. -/
def story (t : ℕ) (hist : List (Obs α)) : List (Obs α) :=
  hist.filter fun o => decide (o.task = some t)

theorem story_append (t : ℕ) (l hist : List (Obs α)) :
    story t (l ++ hist) = story t l ++ story t hist := List.filter_append ..

theorem story_self {t : ℕ} {l : List (Obs α)} (h : ∀ o ∈ l, o.task = some t) : story t l = l :=
  List.filter_eq_self.mpr fun o ho => decide_eq_true (h o ho)

theorem story_other {t : ℕ} {l : List (Obs α)} (h : ∀ o ∈ l, o.task ≠ some t) : story t l = [] :=
  List.filter_eq_nil_iff.mpr fun o ho h' => h o ho (of_decide_eq_true h')

theorem count_story [DecidableEq α] {t : ℕ} {o : Obs α} (ho : o.task = some t)
    (hist : List (Obs α)) : (story t hist).count o = hist.count o :=
  List.count_filter (decide_eq_true ho)

theorem mem_story {t : ℕ} {o : Obs α} {hist : List (Obs α)} (ho : o.task = some t) :
    o ∈ hist ↔ o ∈ story t hist := by
  rw [story, List.mem_filter, and_iff_left (decide_eq_true ho)]

/-! ## The story of a task -/

/-- The story of a user write that has entered the tree and got a block. -/
def wroteStory (t b : ℕ) (d : α) (more : List α) (flag : AllocFlag) : List (Obs α) :=
  [.alloc t flag, .insert t, .submitW t b d more]

/-- The story of a user write that has ended to its user. -/
def EndedStory (t b : ℕ) (d : α) (more : List α) (l : List (Obs α)) : Prop := ∃ flag,
  (∃ p, l = .endW t true :: .stored t b p d :: wroteStory t b d more flag) ∨
    l = .endW t false :: wroteStory t b d more flag

def userTold (t b : ℕ) (d : α) (more : List α) (st : TaskStatus) (pc : TaskPc)
    (l : List (Obs α)) : Prop :=
  match st with
  | .init => l = [.submitW t b d more]
  | .allocRes =>
    if pc = .done then l = [.endW t false, .erase t, .insert t, .submitW t b d more]
    else l = [.insert t, .submitW t b d more]
  | _ =>
    if pc = .done then ∃ l', EndedStory t b d more l' ∧ l = .erase t :: l'
    else if pc = .ended then EndedStory t b d more l
    else ∃ flag, l = wroteStory t b d more flag

/-- The story of a gc task that has entered the tree. -/
def enteredStory (g : ℕ) : List (Obs α) := [.insert g, .bioPut g false, .gcCreate g]

/-- The story of a gc task that has been called back without an append, after `l`. -/
def calledStory (g : ℕ) (l : List (Obs α)) : List (Obs α) :=
  .putVictim g :: .freePage g :: .callback g :: l

/-- The story of a gc task that has been called back after its append. -/
def movedStory (g : ℕ) (flag : AllocFlag) : List (Obs α) :=
  [.bioPut g true, .putVictim g, .freePage g, .erase g, .callback g, .alloc g flag] ++ enteredStory g

def gcTold (g : ℕ) (st : TaskStatus) (pc : TaskPc) (l : List (Obs α)) : Prop :=
  match st with
  | .gcReading =>
    match pc with
    | .reading | .read _ => l = [.gcCreate g]
    | .check => l = enteredStory g
    | .skip => l = .erase g :: enteredStory g
    | .done => l = .bioPut g false :: calledStory g [.gcCreate g] ∨
        l = calledStory g (.erase g :: enteredStory g)
    | _ => l = [.bioPut g false, .gcCreate g]
  | .allocRes => l = enteredStory g
  | _ =>
    if pc = .done then ∃ flag, l = movedStory g flag else ∃ flag, l = .alloc g flag :: enteredStory g

/-- `l` is the story of the task `x` at `t`. -/
def Task.Told (t : ℕ) (x : Task α) (l : List (Obs α)) : Prop :=
  if x.type = .gc then gcTold t x.status x.pc l else userTold t x.blkid x.data x.more x.status x.pc l

theorem Task.told_gc {t : ℕ} {x : Task α} {l : List (Obs α)} (hty : x.type = .gc) :
    x.Told t l ↔ gcTold t x.status x.pc l := by rw [Told, if_pos hty]

theorem Task.told_user {t : ℕ} {x : Task α} {l : List (Obs α)} (hty : x.type ≠ .gc) :
    x.Told t l ↔ userTold t x.blkid x.data x.more x.status x.pc l := by rw [Told, if_neg hty]

/-- `l` is the story of a task that has been destroyed. -/
inductive Over (t : ℕ) : List (Obs α) → Prop
  | write {b : ℕ} {d : α} {more : List α} {l : List (Obs α)} (h : EndedStory t b d more l) :
    Over t (.erase t :: l)
  | refused {b : ℕ} {d : α} {more : List α} :
    Over t [.endW t false, .erase t, .insert t, .submitW t b d more]
  | moved {flag : AllocFlag} : Over t (movedStory t flag)
  | skipped : Over t (calledStory t (.erase t :: enteredStory t))
  | handed : Over t (calledStory t [.bioPut t false, .gcCreate t])
  | unread : Over t (.bioPut t false :: calledStory t [.gcCreate t])

theorem Task.Told.over {t : ℕ} {x : Task α} {l : List (Obs α)} (hs : x.Shape) (hpc : x.pc = .done)
    (h : x.Told t l) : Over t l := by
  unfold Task.Told at h
  split_ifs at h with hty
  · obtain ⟨⟨v, hp⟩, -⟩ := hs.gc hty
    have hst : x.status = .gcReading ∨ x.status = .dispatch := by cases hp <;> simp_all
    rcases hst with hst | hst
    · simp only [gcTold, hst, hpc] at h
      rcases h with rfl | rfl
      · exact .unread
      · exact .skipped
    · simp only [gcTold, hst, hpc, if_true] at h
      obtain ⟨flag, rfl⟩ := h
      exact .moved
  · obtain ⟨hp, -, -⟩ := hs.user hty
    have hst : x.status = .allocRes ∨ x.status = .dispatch ∨ x.status = .ioWriting := by
      cases hp <;> simp_all
    rcases hst with hst | hst | hst <;> simp only [userTold, hst, hpc, if_true] at h
    · rw [h]
      exact .refused
    · obtain ⟨l', h, rfl⟩ := h
      exact .write h
    · obtain ⟨l', h, rfl⟩ := h
      exact .write h

/-! ## The invariant -/

/-- The history tells of every task what has happened to it. -/
structure StoryInv (h : Heap (Task α)) (hist : List (Obs α)) : Prop where
  live : h.All fun t x => x.Told t (story t hist)
  gone : ∀ t < h.next, h.get t = none → Over t (story t hist)
  new : ∀ t, h.next ≤ t → story t hist = []

def Stories (k : Core α) : Prop := StoryInv k.tasks k.hist

namespace StoryInv

variable {h : Heap (Task α)} {hist l : List (Obs α)} {t : ℕ} {x : Task α}

theorem empty : StoryInv (Heap.empty : Heap (Task α)) [] :=
  ⟨Heap.All.empty, fun t ht => absurd ht (Nat.not_lt_zero t), fun _ _ => rfl⟩

/-- Nothing is written down about a task. -/
theorem other (a : StoryInv h hist) {o : Obs α} (ho : o.task = none) : StoryInv h (o :: hist) := by
  have hs : ∀ t, story t (o :: hist) = story t hist := fun t =>
    List.filter_cons_of_neg (by rw [ho]; simp)
  refine ⟨fun t x hx => ?_, fun t ht hx => ?_, fun t ht => ?_⟩
  · change x.Told t (story t (o :: hist))
    rw [hs]
    exact a.live t x hx
  · rw [hs]
    exact a.gone t ht hx
  · rw [hs]
    exact a.new t ht

/-- Task `t` changes, and `l` is written down about it. -/
theorem tell (a : StoryInv h hist) (hx : h.get t = some x) {f : Task α → Task α}
    (hl : ∀ o ∈ l, o.task = some t) (hf : ∀ l', x.Told t l' → (f x).Told t (l ++ l')) :
    StoryInv (h.modify t f) (l ++ hist) := by
  have hs : ∀ i ≠ t, story i (l ++ hist) = story i hist := fun i hi => by
    rw [story_append, story_other fun o ho => by rw [hl o ho]; exact fun h => hi (Option.some.inj h).symm]
    rfl
  refine ⟨fun i y hy => ?_, fun i hi hy => ?_, fun i hi => ?_⟩
  · by_cases e : i = t
    · subst e
      cases (Heap.get_modify_self hx f).symm.trans hy
      rw [story_append, story_self hl]
      exact hf _ (a.live i x hx)
    · rw [Heap.get_modify_ne e] at hy
      rw [hs i e]
      exact a.live i y hy
  · have e : i ≠ t := by
      rintro rfl
      rw [Heap.get_modify_self hx] at hy
      cases hy
    rw [Heap.get_modify_ne e] at hy
    rw [Heap.next_modify] at hi
    rw [hs i e]
    exact a.gone i hi hy
  · rw [Heap.next_modify] at hi
    have := Heap.lt_next_of_get hx
    rw [hs i (by omega)]
    exact a.new i hi

/-- Task `t` changes, and nothing is written down. -/
theorem quiet (a : StoryInv h hist) (hx : h.get t = some x) {f : Task α → Task α}
    (hf : ∀ l, x.Told t l → (f x).Told t l) : StoryInv (h.modify t f) hist :=
  a.tell (l := []) hx nofun hf

/-- A task is made. -/
theorem alloc (a : StoryInv h hist) {o : Obs α} (ho : o.task = some h.next)
    (hx : x.Told h.next [o]) : StoryInv (h.alloc x) (o :: hist) := by
  have hs : ∀ i ≠ h.next, story i (o :: hist) = story i hist := fun i hi =>
    List.filter_cons_of_neg (by simpa [ho] using Ne.symm hi)
  refine ⟨fun i y hy => ?_, fun i hi hy => ?_, fun i hi => ?_⟩
  · rw [Heap.get_alloc] at hy
    split_ifs at hy with e
    · cases hy
      have hself : story h.next (o :: hist) = [o] := by
        rw [← List.singleton_append, story_append, a.new _ le_rfl,
          story_self fun o' ho' => (List.mem_singleton.mp ho') ▸ ho]
        rfl
      rw [e, hself]
      exact hx
    · rw [hs i e]
      exact a.live i y hy
  · rw [Heap.get_alloc] at hy
    split_ifs at hy with e
    rw [Heap.next_alloc] at hi
    rw [hs i e]
    exact a.gone i (by omega) hy
  · rw [Heap.next_alloc] at hi
    rw [hs i (by omega)]
    exact a.new i (by omega)

/-- Task `t` is destroyed. -/
theorem free (a : StoryInv h hist) (hx : h.get t = some x) (hl : ∀ o ∈ l, o.task = some t)
    (hf : ∀ l', x.Told t l' → Over t (l ++ l')) : StoryInv (h.free t) (l ++ hist) := by
  have hs : ∀ i ≠ t, story i (l ++ hist) = story i hist := fun i hi => by
    rw [story_append, story_other fun o ho => by rw [hl o ho]; exact fun h => hi (Option.some.inj h).symm]
    rfl
  refine ⟨fun i y hy => ?_, fun i hi hy => ?_, fun i hi => ?_⟩
  · rw [Heap.get_free] at hy
    split_ifs at hy with e
    rw [hs i e]
    exact a.live i y hy
  · rw [Heap.next_free] at hi
    rw [Heap.get_free] at hy
    split_ifs at hy with e
    · rw [e, story_append, story_self hl]
      exact hf _ (a.live t x hx)
    · rw [hs i e]
      exact a.gone i hi hy
  · rw [Heap.next_free] at hi
    have := Heap.lt_next_of_get hx
    rw [hs i (by omega)]
    exact a.new i hi

end StoryInv

/-- A user task has been submitted. -/
theorem Stories.submitted {k : Core α} (a : Stories k) {t : ℕ} {x : Task α}
    (hx : k.tasks.get t = some x)
    (hty : x.type ≠ .gc) : .submitW t x.blkid x.data x.more ∈ k.hist := by
  refine (mem_story rfl).mpr ?_
  have ht : userTold t x.blkid x.data x.more x.status x.pc (story t k.hist) :=
    (Task.told_user hty).mp (a.live t x hx)
  unfold userTold at ht
  split at ht
  · rw [ht]
    exact List.mem_singleton_self _
  · split_ifs at ht <;> rw [ht] <;> simp
  · split_ifs at ht
    · obtain ⟨l, ⟨flag, ⟨p, rfl⟩ | rfl⟩, ht⟩ := ht <;> rw [ht] <;> simp [wroteStory]
    · obtain ⟨flag, ⟨p, ht⟩ | ht⟩ := ht <;> rw [ht] <;> simp [wroteStory]
    · obtain ⟨flag, ht⟩ := ht
      rw [ht]
      simp [wroteStory]

theorem Stories.not_mem_new {k : Core α} (a : Stories k) {t : ℕ} (ht : k.tasks.next ≤ t) {o : Obs α}
    (ho : o.task = some t) : o ∉ k.hist := fun h => by
  have := (mem_story ho).mp h
  rw [a.new t ht] at this
  cases this

/-! ## Every move -/

section

variable {c : Conf} {k k' : Core α} {l : Label}

variable [Inhabited α]

/-- **Every move writes down what it does to a task.** -/
theorem Stories.move (T : Tasks k) (Q : Queues k) (a : Stories k) (hm : Move c k l k') :
    Stories k' := by
  cases hm with
  | openZone | complete | putZone | serve | scanFree | scanEnd | peek | wkStart | wkIdle | wkNext
  | wkFull | wkSticky | wkFree | wkClose | wkLink | wkEmpty | wkCarried | wkPublish | discard
  | serveFail | wkFail | retryUsers | retryGcs | retryDone => exact a
  | readHit | endRead | select | wkReset => exact StoryInv.other a rfl
  | readMiss => exact (StoryInv.other a rfl).other rfl
  | submitWrite b d more hty =>
    exact StoryInv.alloc a rfl ((Task.told_user hty).mpr rfl)
  | scanBlock =>
    exact StoryInv.alloc a rfl ((Task.told_gc rfl).mpr rfl)
  | @conflict t tk x y hx hty hst hpc htk hy hb =>
    have hf : x.Fresh := by rw [Task.Fresh, if_neg hty]; exact hst
    have hne := TaskInv.ne_of_fresh T hx hf htk
    refine (StoryInv.quiet a hy fun _ h => h).quiet (x := x) ?_ fun l h => ?_
    · rw [Heap.get_modify_ne hne, hx]
    · simpa only [Task.Told, if_neg hty, userTold, hst] using h
  | @gcFind g tk x y hx hty hst hpc htk hy hb =>
    have hf : x.Fresh := by
      rw [Task.Fresh, if_pos hty, hpc]
      exact ⟨hst, by rintro ⟨⟩, by rintro ⟨⟩, by rintro ⟨⟩⟩
    have hne := TaskInv.ne_of_fresh T hx hf htk
    refine (StoryInv.quiet a hy fun _ h => h).quiet (x := x) ?_ fun l h => ?_
    · rw [Heap.get_modify_ne hne, hx]
    · simpa only [Task.Told, if_pos hty, gcTold, hst, hpc] using h
  | @insert t x hx hty hst hpc hfree =>
    refine StoryInv.tell (l := [.insert t]) a hx (by simp [Obs.task]) fun l h => ?_
    simp only [Task.Told, if_neg hty, userTold, hst] at h
    simp [Task.Told, hty, userTold, hpc, h]
  | @dispatch t z i x log hx hst hpc ha hres hlog =>
    refine StoryInv.tell (l := [.alloc t x.flag]) a hx (by simp [Obs.task]) fun l h => ?_
    have hd : x.pc ≠ .done := by rcases hpc with hpc | ⟨j, hpc⟩ <;> rw [hpc] <;> rintro ⟨⟩
    unfold Task.Told at h ⊢
    by_cases hty : x.type = .gc
    · simp only [if_pos hty, gcTold, hst] at h ⊢
      exact ⟨x.flag, by rw [h]; rfl⟩
    · simp only [if_neg hty, userTold, hst, if_neg hd] at h ⊢
      exact ⟨x.flag, by rw [h]; rfl⟩
  | @dispatchFail t z i x hx hty hst hpc ha =>
    refine StoryInv.tell (l := [.alloc t x.flag]) a hx (by simp [Obs.task]) fun l h => ?_
    have hd : x.pc ≠ .done := by rcases hpc with hpc | ⟨j, hpc⟩ <;> rw [hpc] <;> rintro ⟨⟩
    simp only [Task.Told, if_neg hty, userTold, hst, if_neg hd] at h ⊢
    exact ⟨x.flag, by rw [h]; rfl⟩
  | @fallback t i x hx hst hpc | @fallbackFail t i x hx hst hpc =>
    refine StoryInv.quiet a hx fun l h => ?_
    unfold Task.Told at h ⊢
    by_cases hty : x.type = .gc
    · simpa only [if_pos hty, gcTold, hst] using h
    · simpa [if_neg hty, userTold, hst, hpc] using h
  | @pend t x hx hty hst hpc =>
    refine StoryInv.quiet a hx fun l h => ?_
    have hd : x.pc ≠ .done := by rcases hpc with hpc | ⟨j, hpc⟩ <;> rw [hpc] <;> rintro ⟨⟩
    simpa [Task.Told, if_neg hty, userTold, hst, hd] using h
  | @append t z off x log hx hpc hz hi hoff hfree =>
    obtain ⟨hst, -⟩ := (T.shape t x hx).device hpc
    refine StoryInv.quiet a hx fun l h => ?_
    unfold Task.Told at h ⊢
    by_cases hty : x.type = .gc
    · simpa [if_pos hty, gcTold, hst, hpc] using h
    · simpa [if_neg hty, userTold, hst, hpc] using h
  | @devFail t x hx hpc =>
    obtain ⟨hst, -⟩ := (T.shape t x hx).device hpc
    refine StoryInv.quiet a hx fun l h => ?_
    unfold Task.Told at h ⊢
    by_cases hty : x.type = .gc
    · simpa [if_pos hty, gcTold, hst, hpc] using h
    · simpa [if_neg hty, userTold, hst, hpc] using h
  | @apply t z p x hx hty hpc hz =>
    obtain ⟨hst, -⟩ := (T.shape t x hx).written hpc
    refine StoryInv.tell (l := [.endW t true, .stored t x.blkid p x.data]) a hx
      (by simp [Obs.task]) fun l h => ?_
    simp only [Task.Told, if_neg hty, userTold, hst, hpc] at h ⊢
    obtain ⟨flag, rfl⟩ := h
    exact ⟨flag, Or.inl ⟨p, rfl⟩⟩
  | @writeFail t x hx hty hpc =>
    obtain ⟨hst, -⟩ := (T.shape t x hx).failed hpc
    refine StoryInv.tell (l := [.endW t false]) a hx (by simp [Obs.task]) fun l h => ?_
    rcases hst with hst | ⟨-, hst⟩ <;>
    · simp only [Task.Told, if_neg hty, userTold, hst, hpc] at h ⊢
      obtain ⟨flag, rfl⟩ := h
      exact ⟨flag, Or.inr rfl⟩
  | @untree t z x hx hpc hz =>
    obtain ⟨hty, hst, -⟩ := (T.shape t x hx).ended hpc
    refine StoryInv.tell (l := [.erase t]) a hx (by simp [Obs.task]) fun l h => ?_
    rcases hst with hst | hst <;>
    · simp only [Task.Told, if_neg hty, userTold, hst, hpc] at h ⊢
      exact ⟨l, h, rfl⟩
  | @allocFail t x hx hty hst hpc =>
    refine StoryInv.tell (l := [.endW t false, .erase t]) a hx (by simp [Obs.task]) fun l h => ?_
    have hd : x.pc ≠ .done := by rcases hpc with hpc | ⟨j, hpc⟩ <;> rw [hpc] <;> rintro ⟨⟩
    simp only [Task.Told, if_neg hty, userTold, hst, if_neg hd] at h
    simp [Task.Told, hty, userTold, hst, h]
  | dropRef ht hx hr => exact StoryInv.quiet a hx fun _ h => h
  | @destroy t x ht hx hr hl =>
    obtain ⟨hd, -⟩ := TaskInv.last T hx ht hr
    exact StoryInv.free (l := []) a hx (by rintro _ ⟨⟩) fun l h => h.over (T.shape t x hx) hd
  | @destroyCall t g v x y ht hx hr hty hl hy hgc hpc hv =>
    obtain ⟨hd, -⟩ := TaskInv.last T hx ht hr
    obtain ⟨⟨w, hp⟩, -⟩ := (T.shape g y hy).gc hgc
    have hst : y.status = .gcReading := by cases hp <;> simp_all
    have hgt : t ≠ g := by
      rintro rfl
      cases hx.symm.trans hy
      exact hty hgc
    refine (StoryInv.free (l := [.putVictim g, .freePage g, .callback g]) a hy
      (by simp [Obs.task]) fun l h => ?_).free (l := []) (x := x) ?_ (by rintro _ ⟨⟩)
      fun l h => h.over (T.shape t x hx) hd
    · simp only [Task.Told, if_pos hgc, gcTold, hst, hpc] at h
      rw [h]
      exact .handed
    · rw [Heap.get_free, if_neg hgt, hx]
  | @nextUser t l hr hret =>
    obtain ⟨x, hx, hty, hpc⟩ := Q.users.2 t (by simp [hr, RetryPc.usersLeft])
    have hst : x.status = .init ∨ x.status = .allocRes := by
      obtain ⟨hp, -, -⟩ := (T.shape t x hx).user hty
      cases hp <;> simp_all
    refine StoryInv.quiet a hx fun l h => ?_
    rcases hst with hst | hst <;> simpa [Task.Told, if_neg hty, userTold, hst, hpc] using h
  | @nextGc t l hr hret =>
    obtain ⟨x, hx, hty, hpc⟩ := Q.gcs.2 t (by simp [hr, RetryPc.gcsLeft])
    obtain ⟨⟨v, hp⟩, -⟩ := (T.shape t x hx).gc hty
    have hst : x.status = .gcReading := by cases hp <;> simp_all
    refine StoryInv.quiet a hx fun l h => ?_
    simpa [Task.Told, if_pos hty, gcTold, hst, hpc] using h
  | @gcServe g x hx hpc | @gcServeFail g x hx hpc =>
    obtain ⟨hty, -⟩ := Tame.gcServe true x.data (T.shape g x hx) hpc
    obtain ⟨⟨v, hp⟩, -⟩ := (T.shape g x hx).gc hty
    have hst : x.status = .gcReading := by cases hp <;> simp_all
    refine StoryInv.quiet a hx fun l h => ?_
    simpa only [Task.Told, if_pos hty, gcTold, hst, hpc] using h
  | @gcReadEnd g x hx hpc =>
    obtain ⟨hty, -⟩ := Tame.gcReadEnd (T.shape g x hx) hpc
    obtain ⟨⟨v, hp⟩, -⟩ := (T.shape g x hx).gc hty
    have hst : x.status = .gcReading := by cases hp <;> simp_all
    refine StoryInv.tell (l := [.bioPut g false]) a hx (by simp [Obs.task]) fun l h => ?_
    simp only [Task.Told, if_pos hty, gcTold, hst, hpc] at h ⊢
    rw [h]
    rfl
  | @gcInsert g x hx hty hst hpc hfree =>
    refine StoryInv.tell (l := [.insert g]) a hx (by simp [Obs.task]) fun l h => ?_
    simp only [Task.Told, if_pos hty, gcTold, hst, hpc] at h ⊢
    rw [h]
    rfl
  | @gcFound g tk x hx hty hpc =>
    obtain ⟨y, hy, -⟩ := T.found g x hx tk hpc
    obtain ⟨⟨v, hp⟩, -⟩ := (T.shape g x hx).gc hty
    have hst : x.status = .gcReading := by cases hp <;> simp_all
    have a' := StoryInv.quiet (f := fun x => { x with error := some .enoent, pc := .waiting tk }) a hx
      fun l h => by simpa only [Task.Told, if_pos hty, gcTold, hst, hpc] using h
    by_cases e : tk = g
    · subst e
      exact a'.quiet (Heap.get_modify_self hx _) fun _ h => h
    · exact a'.quiet (x := y) (by rw [Heap.get_modify_ne e, hy]) fun _ h => h
  | @gcSkip g x hx hty hpc hm =>
    obtain ⟨⟨v, hp⟩, -⟩ := (T.shape g x hx).gc hty
    have hst : x.status = .gcReading := by cases hp <;> simp_all
    refine StoryInv.tell (l := [.erase g]) a hx (by simp [Obs.task]) fun l h => ?_
    simp only [Task.Told, if_pos hty, gcTold, hst, hpc] at h ⊢
    rw [h]
    rfl
  | @gcPass g x hx hty hpc hm =>
    obtain ⟨⟨v, hp⟩, -⟩ := (T.shape g x hx).gc hty
    have hst : x.status = .gcReading := by cases hp <;> simp_all
    refine StoryInv.quiet a hx fun l h => ?_
    simpa only [Task.Told, if_pos hty, gcTold, hst, hpc] using h
  | @gcWritten g z p x hx hty hpc hz =>
    obtain ⟨hst, -⟩ := (T.shape g x hx).written hpc
    refine StoryInv.quiet a hx fun l h => ?_
    simpa [Task.Told, if_pos hty, gcTold, hst, hpc] using h
  | @gcWriteFail g z x hx hty hpc hz =>
    have hst : x.status = .dispatch :=
      (T.shape g x hx).failed hpc |>.1.resolve_right fun h => h.1 hty
    refine StoryInv.quiet a hx fun l h => ?_
    simpa [Task.Told, if_pos hty, gcTold, hst, hpc] using h
  | @remap g z v p x hx hty hpc hl hz hv hm | @release g z v p x hx hty hpc hl hz hv =>
    obtain ⟨-, hst, -⟩ := (T.shape g x hx).callback hpc
    refine StoryInv.tell (l := [.bioPut g true, .putVictim g, .freePage g, .erase g, .callback g]) a
      hx (by simp [Obs.task]) fun l h => ?_
    simp only [Task.Told, if_pos hty, gcTold, hst, hpc] at h ⊢
    obtain ⟨flag, rfl⟩ := h
    exact ⟨flag, rfl⟩
  | @skipEnd g v x hx hty hpc hl hv =>
    obtain ⟨⟨v, hp⟩, -⟩ := (T.shape g x hx).gc hty
    have hst : x.status = .gcReading := by cases hp <;> simp_all
    refine StoryInv.tell (l := [.putVictim g, .freePage g, .callback g]) a hx (by simp [Obs.task])
      fun l h => ?_
    simp only [Task.Told, if_pos hty, gcTold, hst, hpc] at h ⊢
    rw [h]
    exact Or.inr rfl
  | @gcReadFail g v x hx hpc hv =>
    have hty := (T.shape g x hx).read_type hpc
    obtain ⟨⟨v, hp⟩, -⟩ := (T.shape g x hx).gc hty
    have hst : x.status = .gcReading := by cases hp <;> simp_all
    refine StoryInv.tell (l := [.bioPut g false, .putVictim g, .freePage g, .callback g]) a hx
      (by simp [Obs.task]) fun l h => ?_
    simp only [Task.Told, if_pos hty, gcTold, hst, hpc] at h ⊢
    rw [h]
    exact Or.inl rfl

/-- What is written down stays. -/
theorem Move.hist_suffix (hm : Move c k l k') : k.hist <:+ k'.hist := by
  cases hm <;> first
    | exact List.suffix_rfl
    | exact List.suffix_cons _ _
    | exact ⟨[_, _], rfl⟩
    | exact ⟨[_, _, _], rfl⟩
    | exact ⟨[_, _, _, _], rfl⟩
    | exact ⟨[_, _, _, _, _], rfl⟩

end

end Lbz
