import Lbz.Counts
import Lbz.Discard
import Lbz.Stranded

/-!
# Garbage collection when the device fails

* `GcReleases g hist`: what `hist` says that the gc task `g` has released;
* `AtRest s`: no bio is at the device and no call works on a task;
* **`gc_survives`**: where no call of `__submit_gc_task` fails, its caller never reaches `BUG()`,
  every gc task releases what it holds once, and all of them are called back unless the faulty
  device keeps one waiting.
-/

namespace Lbz

variable {α : Type}

/-! ## The stories of gc tasks -/

/-- The stories of a gc task that has been called back. -/
inductive CalledStory (g : ℕ) : List (Obs α) → Prop
  | moved (flag : AllocFlag) : CalledStory g (movedStory g flag)
  | skipped : CalledStory g (calledStory g (.erase g :: enteredStory g))
  | handed : CalledStory g (calledStory g [.bioPut g false, .gcCreate g])
  | unread : CalledStory g (.bioPut g false :: calledStory g [.gcCreate g])

/-- The stories of a gc task that has not been called back. -/
inductive CallingStory (g : ℕ) : List (Obs α) → Prop
  | reading : CallingStory g [.gcCreate g]
  | read : CallingStory g [.bioPut g false, .gcCreate g]
  | entered : CallingStory g (enteredStory g)
  | skip : CallingStory g (.erase g :: enteredStory g)
  | writing (flag : AllocFlag) : CallingStory g (.alloc g flag :: enteredStory g)

theorem gcTold_cases {g : ℕ} {x : Task α} {l : List (Obs α)} (hs : x.Shape) (hty : x.type = .gc)
    (h : gcTold g x.status x.pc l) :
    x.pc = .done ∧ CalledStory g l ∨ x.pc ≠ .done ∧ CallingStory g l := by
  obtain ⟨⟨v, hp⟩, -⟩ := hs.gc hty
  cases hp with
  | read hst hpc =>
    rcases hpc with hpc | ⟨ok, hpc⟩ <;> rw [hst, hpc] at h <;> cases h <;>
      exact Or.inr ⟨by rw [hpc]; nofun, .reading⟩
  | wait hst hpc =>
    rcases hpc with hpc | hpc <;> rw [hst, hpc] at h <;> cases h <;>
      exact Or.inr ⟨by rw [hpc]; nofun, .read⟩
  | found tk hst hpc | handed tk hst hpc =>
    rw [hst, hpc] at h
    cases h
    exact Or.inr ⟨by rw [hpc]; nofun, .read⟩
  | check hst hpc =>
    rw [hst, hpc] at h
    cases h
    exact Or.inr ⟨by rw [hpc]; nofun, .entered⟩
  | skip hst hpc =>
    rcases hpc with hpc | hpc
    · rw [hst, hpc] at h
      cases h
      exact Or.inr ⟨by rw [hpc]; nofun, .skip⟩
    · rw [hst, hpc] at h
      refine Or.inl ⟨hpc, ?_⟩
      rcases h with rfl | rfl
      · exact .unread
      · exact .skipped
  | own hst hpc =>
    rw [hst] at h
    cases h
    exact Or.inr ⟨by rcases hpc with hpc | ⟨i, hpc⟩ <;> rw [hpc] <;> nofun, .entered⟩
  | noRead hst hpc =>
    rw [hst, hpc] at h
    refine Or.inl ⟨hpc, ?_⟩
    rcases h with rfl | rfl
    · exact .unread
    · exact .skipped
  | write z log hst | noWrite z log hst =>
    rw [hst] at h
    by_cases hd : x.pc = .done
    · obtain ⟨flag, rfl⟩ : ∃ flag, l = movedStory g flag := by simpa [gcTold, hd] using h
      exact Or.inl ⟨hd, .moved flag⟩
    · obtain ⟨flag, rfl⟩ : ∃ flag, l = .alloc g flag :: enteredStory g := by
        simpa [gcTold, hd] using h
      exact Or.inr ⟨hd, .writing flag⟩

theorem EndedStory.gcCreate {t b : ℕ} {d : α} {more : List α} {l : List (Obs α)}
    (h : EndedStory t b d more l) (g : ℕ) : .gcCreate g ∉ l := by
  obtain ⟨flag, ⟨p, rfl⟩ | rfl⟩ := h <;> simp [wroteStory]

theorem userTold_gcCreate {t b : ℕ} {d : α} {more : List α} {st : TaskStatus} {pc : TaskPc}
    {l : List (Obs α)} (h : userTold t b d more st pc l) (g : ℕ) : .gcCreate g ∉ l := by
  unfold userTold at h
  split at h
  · rw [h]
    simp
  · split_ifs at h <;> rw [h] <;> simp
  · split_ifs at h
    · obtain ⟨l', h, rfl⟩ := h
      simpa using h.gcCreate g
    · exact h.gcCreate g
    · obtain ⟨flag, rfl⟩ := h
      simp [wroteStory]

/-- A gc task that has been destroyed has been called back. -/
theorem Over.called {g : ℕ} {l : List (Obs α)} (h : Over g l) (hg : .gcCreate g ∈ l) :
    CalledStory g l := by
  cases h with
  | write h =>
    have := h.gcCreate g
    simp [this] at hg
  | refused => simp at hg
  | moved => exact .moved _
  | skipped => exact .skipped
  | handed => exact .handed
  | unread => exact .unread

theorem CalledStory.made {g : ℕ} {l : List (Obs α)} (h : CalledStory g l) : .gcCreate g ∈ l := by
  cases h <;> simp [movedStory, enteredStory, calledStory]

theorem CallingStory.made {g : ℕ} {l : List (Obs α)} (h : CallingStory g l) : .gcCreate g ∈ l := by
  cases h <;> simp [enteredStory]

/-- A gc task that is there has been made. -/
theorem Stories.gc_made {k : Core α} (a : Stories k) (T : Tasks k) {g : ℕ} {x : Task α}
    (hx : k.tasks.get g = some x) (hty : x.type = .gc) : .gcCreate g ∈ k.hist := by
  have ht := (Task.told_gc hty).mp (a.live g x hx)
  refine (mem_story rfl).mpr ?_
  rcases gcTold_cases (T.shape g x hx) hty ht with ⟨-, h⟩ | ⟨-, h⟩
  · exact h.made
  · exact h.made

/-- A gc task that has been made is there, and not called back, or has been called back. -/
theorem Stories.gc_cases {k : Core α} (a : Stories k) (T : Tasks k) {g : ℕ}
    (hg : .gcCreate g ∈ k.hist) :
    (∀ x, k.tasks.get g = some x → x.pc = .done) ∧ CalledStory g (story g k.hist) ∨
    (∃ x, k.tasks.get g = some x ∧ x.type = .gc ∧ x.pc ≠ .done) ∧
      CallingStory g (story g k.hist) := by
  have hs : .gcCreate g ∈ story g k.hist := List.mem_filter.mpr ⟨hg, decide_eq_true rfl⟩
  cases hx : k.tasks.get g with
  | none =>
    have hlt : g < k.tasks.next := by
      by_contra h
      rw [a.new g (not_lt.mp h)] at hs
      cases hs
    exact Or.inl ⟨fun y hy => (by cases hy), (a.gone g hlt hx).called hs⟩
  | some x =>
    have ht := a.live g x hx
    by_cases hty : x.type = .gc
    · rcases gcTold_cases (T.shape g x hx) hty ((Task.told_gc hty).mp ht) with ⟨hd, h⟩ | ⟨hd, h⟩
      · exact Or.inl ⟨fun y hy => Option.some.inj hy ▸ hd, h⟩
      · exact Or.inr ⟨⟨x, rfl, hty, hd⟩, h⟩
    · exact absurd hs (userTold_gcCreate ((Task.told_user hty).mp ht) g)

/-! ## What a gc task releases -/

section

variable [DecidableEq α]

/-- The gc task `g` releases everything it holds once, when it is called back. -/
structure GcReleases (g : ℕ) (hist : List (Obs α)) : Prop where
  callback : hist.count (.callback g) ≤ 1
  victim : hist.count (.putVictim g) = hist.count (.callback g)
  page : hist.count (.freePage g) = hist.count (.callback g)
  tree : hist.count (.insert g) ≤ 1 ∧ hist.count (.erase g) ≤ hist.count (.insert g) ∧
    (.callback g ∈ hist → hist.count (.erase g) = hist.count (.insert g))
  readBio : hist.count (.bioPut g false) ≤ 1 ∧
    (.callback g ∈ hist → hist.count (.bioPut g false) = 1)
  writeBio : hist.count (.bioPut g true) ≤ 1 ∧
    (.bioPut g true ∈ hist ↔ .callback g ∈ hist ∧ ∃ flag, .alloc g flag ∈ hist)

theorem GcReleases.of_story {g : ℕ} {hist : List (Obs α)}
    (h : GcReleases g (story g hist)) : GcReleases g hist := by
  have hm : ∀ o : Obs α, o.task = some g → (o ∈ story g hist ↔ o ∈ hist) := fun o ho =>
    List.mem_filter.trans (and_iff_left (decide_eq_true ho))
  obtain ⟨h1, h2, h3, h4, h5, h6⟩ := h
  simp only [count_story (t := g) (o := .callback g) rfl,
    count_story (t := g) (o := .putVictim g) rfl, count_story (t := g) (o := .freePage g) rfl,
    count_story (t := g) (o := .erase g) rfl, count_story (t := g) (o := .insert g) rfl,
    count_story (t := g) (o := .bioPut g false) rfl, count_story (t := g) (o := .bioPut g true) rfl,
    hm (.callback g) rfl, hm (.alloc g _) rfl, hm (.bioPut g true) rfl] at h1 h2 h3 h4 h5 h6
  exact ⟨h1, h2, h3, h4, h5, h6⟩

theorem CalledStory.releases {g : ℕ} {l : List (Obs α)} (h : CalledStory g l) :
    GcReleases g l ∧ .callback g ∈ l := by
  cases h <;> refine ⟨⟨?_, ?_, ?_, ?_, ?_, ?_⟩, ?_⟩ <;>
    simp [movedStory, enteredStory, calledStory]

theorem CallingStory.releases {g : ℕ} {l : List (Obs α)} (h : CallingStory g l) :
    GcReleases g l ∧ .callback g ∉ l := by
  cases h <;> refine ⟨⟨?_, ?_, ?_, ?_, ?_, ?_⟩, ?_⟩ <;> simp [enteredStory]

end

/-! ## Runs -/

/-- No bio is at the device, and no call works on a task. -/
structure AtRest (s : Sys α) : Prop where
  tasks : s.tasks.All fun _ x => x.pc = .pending ∨ (∃ t, x.pc = .waiting t) ∨ x.pc = .done
  retry : s.retry = .idle

/-- No gc task waits for the retry worker or for a write. -/
def NoneWaits (s : Sys α) : Prop :=
  s.gcWrites = [] ∧ s.tasks.All fun _ x => ∀ t, x.pc ≠ .waiting t

section

variable [DecidableEq α] [Inhabited α]

/-- Garbage collection has survived up to `s`. -/
structure GcSurvives (c : Conf) (s : Sys α) : Prop where
  /-- the `BUG()` of `__retry_submit_gc_task` has not been reached -/
  bug : s.bug ≠ some .gcReturn
  releases : s.bug = none → ∀ g, .gcCreate g ∈ s.hist → GcReleases g s.hist
  /-- every zone is referred to by those who use it, and by no gc task that has been called back -/
  zones : s.bug = none → Counts s.core
  /-- the `BUG()` is reached in the next step exactly if `__submit_gc_task` fails in it -/
  next : ∀ e s', step c s e = some s' → (s'.bug = some .gcReturn ↔ GcFails c s e)
  called : s.bug = none → AtRest s →
    ((∀ g, .gcCreate g ∈ s.hist → s.hist.count (.callback g) = 1) ↔ NoneWaits s)

omit [Inhabited α] in
theorem AtRest.called {s : Sys α} (hr : AtRest s) (T : Tasks s.core) (Q : Queues s.core)
    (P : Parked s.core) (S : Stories s.core) :
    (∀ g, .gcCreate g ∈ s.hist → s.hist.count (.callback g) = 1) ↔ NoneWaits s := by
  have hl : s.core.gcWrites ++ s.core.retry.gcsLeft = s.gcWrites := by
    change s.gcWrites ++ s.retry.gcsLeft = s.gcWrites
    rw [hr.retry]
    exact List.append_nil _
  have hcount : ∀ g, s.hist.count (.callback g) = 1 ↔ .callback g ∈ s.hist ∧
      s.hist.count (.callback g) ≤ 1 := fun g => by
    rw [← List.count_pos_iff]
    omega
  constructor
  · intro h
    -- a gc task that waits has been made, and not called back
    have hno : ∀ g x, s.tasks.get g = some x → x.type = .gc →
        ¬ (x.pc = .pending ∨ ∃ t, x.pc = .waiting t) := by
      intro g x hx hty hpc
      have ht := (Task.told_gc hty).mp (S.live g x hx)
      obtain ⟨⟨v, hp⟩, -⟩ := (T.shape g x hx).gc hty
      have hst : x.status = .gcReading := by
        rcases hpc with hpc | ⟨t, hpc⟩ <;> cases hp <;> simp_all
      have hstory : story g s.hist = [.bioPut g false, .gcCreate g] := by
        rcases hpc with hpc | ⟨t, hpc⟩ <;> rw [hst, hpc] at ht <;> exact ht
      have hg : .gcCreate g ∈ story g s.hist := by
        rw [hstory]
        exact List.mem_cons_of_mem _ List.mem_cons_self
      have h1 := h g (List.mem_filter.mp hg).1
      rw [← count_story (t := g) rfl, hstory] at h1
      simp at h1
    refine ⟨List.eq_nil_iff_forall_not_mem.mpr fun g hg => ?_, fun g x hx t hpc => ?_⟩
    · obtain ⟨x, hx, hty, hpc⟩ := Q.gcs.2 g (List.mem_append_left _ hg)
      exact hno g x hx hty (Or.inl hpc)
    · by_cases hty : x.type = .gc
      · exact hno g x hx hty (Or.inr ⟨t, hpc⟩)
      · obtain ⟨hp, -, -⟩ := (T.shape g x hx).user hty
        cases hp <;> simp_all
  · intro ⟨h1, h2⟩ g hg
    rcases S.gc_cases T hg with ⟨-, h⟩ | ⟨⟨x, hx, hty, hd⟩, -⟩
    · have := h.releases
      rw [hcount, ← count_story (t := g) rfl]
      exact ⟨(List.mem_filter.mp this.2).1, this.1.callback⟩
    · exfalso
      rcases hr.tasks g x hx with hpc | ⟨t, hpc⟩ | hpc
      · have := P g x hx hpc
        rw [if_pos hty, hl, h1] at this
        cases this
      · exact h2 g x hx t hpc
      · exact hd hpc

/-- **Garbage collection survives the failures of the device**, as long as no call of
`__submit_gc_task` fails. -/
theorem gc_survives {o : Options} {report : List BlkZone} {cap : ℕ} {s₀ s : Sys α}
    (hu : OneCapacity report cap) (h0 : initSys o report = some s₀)
    (hrun : Runs (stepRel (step (confOf o report))) (fun s e => ¬ GcFails (confOf o report) s e)
      s₀ s) : GcSurvives (confOf o report) s := by
  obtain ⟨hN, hB⟩ := base_of_capacity hu h0
  have hC : Counts s₀.core := Counts.start h0
  have hS : Stories s₀.core ∧ Parked s₀.core := by
    obtain ⟨-, m, -, rfl⟩ := initSys_eq h0
    exact ⟨StoryInv.empty, Heap.All.empty⟩
  let I : Core α → Prop := fun k => Counts k ∧ Stories k ∧ Parked k
  have hI : ∀ k l k', Base (confOf o report) k → I k → Move (confOf o report) k l k' → I k' :=
    fun k l k' B a hm => ⟨a.1.move B hm, a.2.1.move B.tasks B.queues hm, a.2.2.move B.tasks hm⟩
  have hstart : Kept (confOf o report) I s₀ := ⟨_, ⟨hB, hC, hS⟩, rfl, fun _ => rfl⟩
  have hnext : ∀ {s : Sys α}, Kept (confOf o report) I s → ∀ e s',
      step (confOf o report) s e = some s' →
      (s'.bug = some .gcReturn ↔ GcFails (confOf o report) s e) := by
    rintro s ⟨k, ⟨hB, -⟩, -, hk⟩ e s' hs
    have hb : s.bug = none := by
      rw [step] at hs
      split_ifs at hs with h
      exact h.1
    cases hk hb
    rcases step_leaves hB hs with ⟨h1, h2⟩ | ⟨h1, ⟨-, -, -, h2⟩ | h2⟩
    · exact iff_of_true h2 h1
    · exact iff_of_false (by rw [h2]; rintro ⟨⟩) h1
    · refine iff_of_false (fun h => ?_) h1
      have := h2.bug _ rfl h
      rw [hb] at this
      cases this
  have hbug : s.bug ≠ some .gcReturn := by
    refine (Runs.inv (I := fun s => Kept (confOf o report) I s ∧ s.bug ≠ some .gcReturn)
      (fun s e s' h he hs => ⟨Kept.step hN hI hs h.1, fun hb => he ((hnext h.1 e s' hs).mp hb)⟩) hrun
      ⟨hstart, ?_⟩).2
    obtain ⟨-, m, -, rfl⟩ := initSys_eq h0
    exact (by rintro ⟨⟩)
  have hks := Kept.run hN hI hrun hstart
  refine ⟨hbug, fun hb g hg => ?_, fun hb => ?_, hnext hks, fun hb hr => ?_⟩
  all_goals
    obtain ⟨k, ⟨hB, hC, hS, hP⟩, -, hk⟩ := hks
    cases hk hb
  · rcases hS.gc_cases hB.tasks hg with ⟨-, h⟩ | ⟨-, h⟩
    · exact h.releases.1.of_story
    · exact h.releases.1.of_story
  · exact hC
  · exact hr.called hB.tasks hB.queues hP hS

end

/-- The append of the gc task 8 fails, after its zone 3 has been taken. -/
theorem gc_survives_run : ∃ s : Sys ℕ, s.faulty = true ∧ s.hist.count (.callback 8) = 1 ∧
    GcSurvives pairConf s := by
  have hu : OneCapacity (emptyReport 4 16 16) 16 := ⟨by decide, by decide⟩
  obtain ⟨s, hrun, h⟩ := exists_run (step pairConf) (fun s e => ¬ GcFails pairConf s e)
    (fun s => decide (s.faulty = true ∧ s.hist.count (.callback 8) = 1)) pairStart
    (pairWrites ++ pairGc ++ [.devFail 8, .gcWriteEnd 8, .gcEnd 8]) (by decide +kernel)
  have h1 := of_decide_eq_true h
  exact ⟨s, h1.1, h1.2, gc_survives hu (Option.some_get _).symm hrun⟩

/-- A user read fails after `retry_wk_fn` has seen that the device is not faulty, and before
`__submit_gc_task` allocates a block for the gc task 8. -/
theorem gc_fault_bug : ¬ ∀ (o : Options) (report : List BlkZone) (s₀ s : Sys ℕ),
    EmptyReport o report → initSys o report = some s₀ →
    Runs (stepRel (step (confOf o report))) (fun _ _ => True) s₀ s → s.bug ≠ some .gcReturn := by
  intro h
  obtain ⟨s, hrun, h1⟩ := exists_run (step pairConf) (fun _ _ => True)
    (fun s => decide (s.bug = some .gcReturn)) pairStart
    (pairWrites ++ pairGc.dropLast ++ [.submitRead 5, .devRead 0 false, .readEnd 0, .runGc 8 true])
    (by decide +kernel)
  have he : EmptyReport pairOptions (emptyReport 4 16 16) :=
    emptyReport_ok pairOptions 4 16 (by decide) (by decide) (by decide)
  exact h pairOptions (emptyReport 4 16 16) pairStart s he (Option.some_get _).symm hrun
    (of_decide_eq_true h1)

end Lbz
