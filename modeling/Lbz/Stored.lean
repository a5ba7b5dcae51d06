import Lbz.Appends
import Lbz.GcSurvives
import Mathlib.Data.Set.Card

/-!
# What a write that has ended with success has stored

* `AckedStory`: what is written down of a write that has ended with success;
* `AppendOf`: the append of a task lands on the way from one state to another; `appendedBy`: the
  physical blocks that it fills;
* `EndedAt`: the task ends after the block has been mapped; `HasStored`: it does so after its append
  has landed;
* **`hasStored_iff`**, **`appendedBy_encard`**: a write that has ended with success has stored its
  bio, whatever has failed in the run.
-/

namespace Lbz

variable {α : Type}

def Obs.isAlloc : Obs α → Bool
  | .alloc _ _ => true
  | _ => false

/-- Task `t` has got a block. -/
def Allocated (t : ℕ) (hist : List (Obs α)) : Prop := ∃ flag, .alloc t flag ∈ hist

/-! ## The story of such a write -/

section

variable {t b p : ℕ} {d : α} {more : List α} {l : List (Obs α)}

/-- `l` is the story of a write of `d :: more` to block `b` that has ended with success; the block
has been mapped to `p`. -/
def AckedStory (t b p : ℕ) (d : α) (more : List α) (l : List (Obs α)) : Prop := ∃ flag,
  l = .endW t true :: .stored t b p d :: wroteStory t b d more flag ∨
    l = .erase t :: .endW t true :: .stored t b p d :: wroteStory t b d more flag

namespace AckedStory

theorem isAlloc (h : AckedStory t b p d more l) : l.countP Obs.isAlloc = 1 := by
  obtain ⟨flag, rfl | rfl⟩ := h <;> rfl

theorem allocated {hist : List (Obs α)} (h : AckedStory t b p d more (story t hist)) :
    Allocated t hist := by
  obtain ⟨flag, h | h⟩ := h <;> exact ⟨flag, (mem_story rfl).mpr (by simp [h, wroteStory])⟩

theorem submitW {b' : ℕ} {d' : α} {more' : List α} (h : AckedStory t b p d more l)
    (hs : .submitW t b' d' more' ∈ l) : b' = b ∧ d' = d ∧ more' = more := by
  obtain ⟨flag, rfl | rfl⟩ := h <;> simpa [wroteStory] using hs

theorem stored {b' p' : ℕ} {d' : α} (h : AckedStory t b p d more l)
    (hs : .stored t b' p' d' ∈ l) : b' = b ∧ p' = p ∧ d' = d := by
  obtain ⟨flag, rfl | rfl⟩ := h <;> simpa [wroteStory] using hs

theorem entry_unique {p' : ℕ} (h : AckedStory t b p d more l) (h' : AckedStory t b p' d more l) :
    p = p' := by
  have hs : .stored t b p d ∈ l := by obtain ⟨flag, rfl | rfl⟩ := h <;> simp
  exact (h'.stored hs).2.1

theorem not_gcCreate (h : AckedStory t b p d more l) (g : ℕ) : .gcCreate g ∉ l := by
  obtain ⟨flag, rfl | rfl⟩ := h <;> simp [wroteStory]

end AckedStory

theorem EndedStory.acked {b' : ℕ} {d' : α} {more' : List α} (h : EndedStory t b' d' more' l)
    (he : .endW t true ∈ l) (hs : .submitW t b d more ∈ l) : ∃ p flag,
      l = .endW t true :: .stored t b p d :: wroteStory t b d more flag := by
  obtain ⟨flag, ⟨p, rfl⟩ | rfl⟩ := h
  · obtain ⟨rfl, rfl, rfl⟩ : b = b' ∧ d = d' ∧ more = more' := by simpa [wroteStory] using hs
    exact ⟨p, flag, rfl⟩
  · simp [wroteStory] at he

theorem userTold_acked {b' : ℕ} {d' : α} {more' : List α} {st : TaskStatus} {pc : TaskPc}
    (h : userTold t b' d' more' st pc l) (he : .endW t true ∈ l) (hs : .submitW t b d more ∈ l) :
    ∃ p, AckedStory t b p d more l := by
  unfold userTold at h
  split at h
  · rw [h] at he
    simp at he
  · split_ifs at h <;> rw [h] at he <;> simp at he
  · split_ifs at h
    · obtain ⟨l', h, rfl⟩ := h
      obtain ⟨p, flag, rfl⟩ := h.acked (by simpa using he) (by simpa using hs)
      exact ⟨p, flag, Or.inr rfl⟩
    · obtain ⟨p, flag, h⟩ := h.acked he hs
      exact ⟨p, flag, Or.inl h⟩
    · obtain ⟨flag, rfl⟩ := h
      simp [wroteStory] at he

/-- A gc task is not submitted by a user. -/
theorem gcTold_submitW {x : Task α} (hs : x.Shape) (hty : x.type = .gc)
    (h : gcTold t x.status x.pc l) : .submitW t b d more ∉ l := by
  rcases gcTold_cases hs hty h with ⟨-, h⟩ | ⟨-, h⟩
  · cases h <;> simp [movedStory, calledStory, enteredStory]
  · cases h <;> simp [enteredStory]

theorem Over.acked (h : Over t l) (he : .endW t true ∈ l) (hs : .submitW t b d more ∈ l) :
    ∃ p, AckedStory t b p d more l := by
  cases h with
  | write h =>
    obtain ⟨p, flag, rfl⟩ := h.acked (by simpa using he) (by simpa using hs)
    exact ⟨p, flag, Or.inr rfl⟩
  | refused => simp at he
  | moved => simp [movedStory, enteredStory] at he
  | skipped | handed | unread => simp [calledStory, enteredStory] at he

theorem Stories.acked {k : Core α} (a : Stories k) (T : Tasks k) (hs : .submitW t b d more ∈ k.hist)
    (he : .endW t true ∈ k.hist) : ∃ p, AckedStory t b p d more (story t k.hist) := by
  have hs' : .submitW t b d more ∈ story t k.hist := (mem_story rfl).mp hs
  have he' : .endW t true ∈ story t k.hist := (mem_story rfl).mp he
  cases hx : k.tasks.get t with
  | none =>
    rcases lt_or_ge t k.tasks.next with ht | ht
    · exact (a.gone t ht hx).acked he' hs'
    · rw [a.new t ht] at he'
      cases he'
  | some x =>
    have htold := a.live t x hx
    by_cases hty : x.type = .gc
    · exact absurd hs' (gcTold_submitW (T.shape t x hx) hty ((Task.told_gc hty).mp htold))
    · exact userTold_acked ((Task.told_user hty).mp htold) he' hs'

/-- A task whose append has been issued has got a block, and has not ended. -/
theorem Stories.dispatched {k : Core α} (a : Stories k) {x : Task α} (hx : k.tasks.get t = some x)
    (hst : x.status = .dispatch) (hpc : x.pc.appends = true) :
    Allocated t k.hist ∧ .endW t true ∉ k.hist := by
  have ht : x.Told t (story t k.hist) := a.live t x hx
  have hne : x.pc ≠ .done ∧ x.pc ≠ .ended := by
    constructor <;> intro h <;> rw [h] at hpc <;> cases hpc
  rw [mem_story rfl]
  unfold Task.Told at ht
  split_ifs at ht <;> simp only [gcTold, userTold, hst, if_neg hne.1, if_neg hne.2] at ht
  · obtain ⟨flag, ht⟩ := ht
    exact ⟨⟨flag, (mem_story rfl).mpr (by simp [ht])⟩, by simp [ht, enteredStory]⟩
  · obtain ⟨flag, ht⟩ := ht
    exact ⟨⟨flag, (mem_story rfl).mpr (by simp [ht, wroteStory])⟩, by simp [ht, wroteStory]⟩

/-- A task that waits for a block has not got one. -/
theorem Stories.unallocated {k : Core α} (a : Stories k) {x : Task α}
    (hx : k.tasks.get t = some x) (hst : x.status = .allocRes) : ¬ Allocated t k.hist := by
  rintro ⟨flag, hf⟩
  have hm := (mem_story rfl).mp hf
  have ht : x.Told t (story t k.hist) := a.live t x hx
  unfold Task.Told at ht
  split_ifs at ht <;> simp only [gcTold, userTold, hst] at ht
  · rw [ht] at hm
    simp [enteredStory] at hm
  · split_ifs at ht <;> rw [ht] at hm <;> simp at hm

end

/-! ## The append of a task -/

variable [Inhabited α]

/-- On the way from `s` to `u`, the step from `v` to `w` lands the append of task `t`. -/
structure AppendOf (c : Conf) (s u : Sys α) (t : ℕ) (v w : Sys α) : Prop where
  before : Runs (stepRel (step c)) (fun _ _ => True) s v
  append : ∃ off, step c v (.devAppend t off) = some w
  after : Runs (stepRel (step c)) (fun _ _ => True) w u

/-- The physical blocks that the append of task `t` fills. -/
def appendedBy (c : Conf) (s u : Sys α) (t : ℕ) : Set ℕ :=
  {q | ∃ v w, AppendOf c s u t v w ∧ v.phys.content q = none ∧ w.phys.content q ≠ none}

/-- On the way from `s` to `u`, the append of task `t` has landed at a physical block `p`, where it
has left `d`; then `t` has ended with success, and block `b` has been mapped to `p`. -/
def HasStored (c : Conf) (s u : Sys α) (t b : ℕ) (d : Option α) : Prop :=
  ∃ v w m p e, AppendOf c s m t v w ∧ (w.tasks.At t fun x => x.pc = .written p) ∧
    w.phys.read p = d ∧ m.hist.take 2 = [.endW t true, .stored t b p e] ∧
    m.mapping b = some p ∧ Runs (stepRel (step c)) (fun _ _ => True) m u

/-- On the way from `s` to `u` task `t` has ended with success, and block `b` has been mapped to
`p`. -/
def EndedAt (c : Conf) (s u : Sys α) (t b p : ℕ) : Prop :=
  ∃ m e, Runs (stepRel (step c)) (fun _ _ => True) s m ∧
    m.hist.take 2 = [.endW t true, .stored t b p e] ∧ m.mapping b = some p ∧
    Runs (stepRel (step c)) (fun _ _ => True) m u

section

variable {c : Conf} {s s' u v w : Sys α} {t b p : ℕ} {d : α} {more : List α}

theorem EndedAt.trans (h : EndedAt c s u t b p)
    (h' : Runs (stepRel (step c)) (fun _ _ => True) u s') : EndedAt c s s' t b p := by
  obtain ⟨m, e, h1, h2, h3, h4⟩ := h
  exact ⟨m, e, h1, h2, h3, h4.trans h'⟩

theorem AppendOf.tail {e : Event α} (h : AppendOf c s u t v w) (hs : step c u e = some s') :
    AppendOf c s s' t v w := ⟨h.before, h.append, h.after.tail trivial hs⟩

theorem AppendOf.run (h : AppendOf c s u t v w) :
    Runs (stepRel (step c)) (fun _ _ => True) s w := by
  obtain ⟨off, hoff⟩ := h.append
  exact Runs.tail h.before (e := .devAppend t off) trivial hoff

theorem landed_of_step {off : ℕ} (hB : Base c s.core) (hs : step c s (.devAppend t off) = some s') :
    ∃ z x, Landed c s s' t z off x := by
  rw [step] at hs
  split_ifs at hs with h
  cases hs
  exact devAppend_landed hB h.2

omit [Inhabited α] in
theorem Task.Shape.appends_zone {x : Task α} (h : x.Shape) (hpc : x.pc.appends = true) :
    ∃ z, x.zone = some z := by
  unfold TaskPc.appends at hpc
  split at hpc
  · next h' => exact (h.device h').2.1
  · next h' => exact (h.written h').2.1
  · cases hpc

namespace Landed

variable {z off : ℕ} {x : Task α}

omit [Inhabited α]

theorem get (h : Landed c s s' t z off x) :
    s'.tasks.get t = some { x with pc := .written (c.startBlk z + off) } := by
  rw [h.tasks, Heap.get_modify_self h.here]

theorem read (h : Landed c s s' t z off x) : s'.phys.read (c.startBlk z + off) = some x.data := by
  obtain ⟨log, hp⟩ := h.phys
  rw [hp, Phys.read, Phys.put_cells]
  rfl

/-- The blocks that the append fills. -/
theorem filled (h : Landed c s s' t z off x) (q : ℕ) :
    (s.phys.content q = none ∧ s'.phys.content q ≠ none) ↔
      c.startBlk z + off ≤ q ∧ q < c.startBlk z + off + x.len := by
  have hfree : c.startBlk z + off ≤ q ∧ q < c.startBlk z + off + x.len →
      s.phys.content q = none := fun hq => by
    obtain ⟨i, rfl⟩ := Nat.exists_eq_add_of_le hq.1
    exact h.free i (by omega)
  rw [← Option.isSome_iff_ne_none, h.isSome_iff]
  constructor
  · rintro ⟨h1, h2 | h2⟩
    · rw [h1] at h2
      cases h2
    · exact h2
  · exact fun hq => ⟨hfree hq, Or.inr hq⟩

end Landed

/-! ## Runs -/

theorem step_alive {e : Event α} (hs : step c s e = some s') : s.bug = none := by
  rw [step] at hs
  split_ifs at hs with h
  exact h.1

theorem run_alive (h : Runs (stepRel (step c)) (fun _ _ => True) s u) (hu : u.bug = none) :
    s.bug = none := by
  induction h using Relation.ReflTransGen.head_induction_on with
  | refl => exact hu
  | head hs =>
    obtain ⟨e, -, hs⟩ := hs
    exact step_alive hs

omit [Inhabited α] in
theorem Kept.core {I : Core α → Prop} (a : Kept c I s) (hb : s.bug = none) :
    Base c s.core ∧ I s.core := by
  obtain ⟨k, hk, -, h⟩ := a
  cases h hb
  exact hk

variable (hN : 0 < c.zoneNrBlocks)

include hN

theorem kept_stories (K : Kept c Stories s) (h : Runs (stepRel (step c)) (fun _ _ => True) s u) :
    Kept c Stories u :=
  Kept.run hN (fun _ _ _ B a hm => Stories.move B.tasks B.queues a hm) h K

theorem hist_subset (K : Kept c Stories s) (h : Runs (stepRel (step c)) (fun _ _ => True) s u)
    (hu : u.bug = none) : s.hist ⊆ u.hist := by
  have hs := run_alive h hu
  have hk : Kept c (fun k => s.hist <:+ k.hist) u :=
    Kept.run hN (fun _ _ _ _ a hm => a.trans hm.hist_suffix) h
      ⟨_, ⟨(K.core hs).1, List.suffix_rfl⟩, rfl, fun _ => rfl⟩
  exact (hk.core hu).2.subset

/-- **A write that has ended with success** has had its append landed. -/
theorem exists_appendOf (K : Kept c Stories s) (ht : s.tasks.next ≤ t)
    (h : Runs (stepRel (step c)) (fun _ _ => True) s u) (hu : u.bug = none) :
    (∀ y p, u.tasks.get t = some y → y.pc = .written p → ∃ v w, AppendOf c s u t v w) ∧
      (.endW t true ∈ u.hist → ∃ v w, AppendOf c s u t v w) := by
  induction h with
  | refl =>
    refine ⟨fun y p hy => ?_, fun he => ?_⟩
    · exact absurd (Heap.lt_next_of_get hy) (not_lt.mpr ht)
    · exact absurd he ((K.core hu).2.not_mem_new ht rfl)
  | @tail m s' hrun hs ih =>
    obtain ⟨e, -, hs⟩ := hs
    have hm := step_alive hs
    obtain ⟨ih1, ih2⟩ := ih hm
    obtain ⟨hB, -⟩ := (kept_stories hN K hrun).core hm
    obtain ⟨hB', -⟩ := (kept_stories hN K (Runs.tail hrun (e := e) trivial hs)).core hu
    -- what has been there before is there after the step
    have hold : (∃ v w, AppendOf c s m t v w) → ∃ v w, AppendOf c s s' t v w :=
      fun ⟨v, w, h⟩ => ⟨v, w, h.tail hs⟩
    have hfrom : AppendsFrom m.tasks s'.tasks → ∀ y p, s'.tasks.get t = some y →
        y.pc = .written p → ∃ v w, AppendOf c s s' t v w := fun hf y p hy hp => by
      obtain ⟨-, ⟨z, hz⟩, -⟩ := (hB'.tasks.shape t y hy).written hp
      obtain ⟨x, hx, hpc, -⟩ := hf t y hy z (by rw [hp]; rfl) hz
      exact hold (ih1 x p hx (hpc.trans hp))
    rcases step_device hB hs with ⟨t', z, x, -, hi⟩ | ⟨-, ⟨t', z, off, x, rfl, hl⟩ | ⟨t', he⟩ |
      ⟨i, hw⟩ | ⟨b, d, flush, more, rfl, hn⟩ | hc⟩
    · refine ⟨fun y p hy hp => ?_, fun h => hold (ih2 (hi.news _ rfl h))⟩
      obtain ⟨f, ⟨hf, -⟩, -, htasks⟩ := hi.tasks
      rw [htasks, Heap.get_modify] at hy
      split_ifs at hy with e
      · rw [e, hi.here] at hy
        cases hy
        rw [hf] at hp
        cases hp
      · exact hold (ih1 y p hy hp)
    · refine ⟨fun y p hy hp => ?_, fun h => hold (ih2 (hl.news _ rfl h))⟩
      by_cases e : t = t'
      · subst e
        exact ⟨m, s', hrun, ⟨off, hs⟩, .refl⟩
      · rw [hl.tasks, Heap.get_modify_ne e] at hy
        exact hold (ih1 y p hy hp)
    · refine ⟨hfrom he.tasks, fun h => ?_⟩
      rcases he.news with ha | ⟨x, p, z, hx, hp, -, -, -, hh⟩
      · exact hold (ih2 (ha _ rfl h))
      · rw [hh] at h
        by_cases e : t = t'
        · subst e
          exact hold (ih1 x p hx hp)
        · exact hold (ih2 (by simpa [e] using h))
    · refine ⟨fun y p hy => hold ∘ ih1 y p (hw.tasks ▸ hy), fun h => hold (ih2 (hw.news _ rfl h))⟩
    · refine ⟨hfrom hn.tasks, fun h => hold (ih2 ?_)⟩
      rw [hn.hist] at h
      simpa using h
    · exact ⟨hfrom hc.tasks, fun h => hold (ih2 (hc.news _ rfl h))⟩

/-- A task whose append has landed at `p` ends with success only if a block has been mapped to `p`. -/
theorem entered_of_written {x : Task α} (K : Kept c Stories s) (hx : s.tasks.get t = some x)
    (hpc : x.pc = .written p) (h : Runs (stepRel (step c)) (fun _ _ => True) s u)
    (hu : u.bug = none) : Allocated t u.hist ∧
      (∀ y, u.tasks.get t = some y → y.pc.appends = true → y.pc = .written p) ∧
      (.endW t true ∈ u.hist → ∃ b, EndedAt c s u t b p) := by
  induction h with
  | refl =>
    obtain ⟨hB, hS⟩ := K.core hu
    obtain ⟨ha, hn⟩ := hS.dispatched hx ((hB.tasks.shape t x hx).written hpc).1 (by rw [hpc]; rfl)
    refine ⟨ha, fun y hy _ => ?_, fun h => absurd h hn⟩
    cases hx.symm.trans hy
    exact hpc
  | @tail m s' hrun hs ih =>
    obtain ⟨e, -, hs⟩ := hs
    have hm := step_alive hs
    obtain ⟨ih1, ih2, ih3⟩ := ih hm
    obtain ⟨hB, hS⟩ := (kept_stories hN K hrun).core hm
    have hstep : Runs (stepRel (step c)) (fun _ _ => True) m s' := Runs.one (e := e) trivial hs
    obtain ⟨hB', -⟩ := (kept_stories hN K (hrun.trans hstep)).core hu
    have hsub := hist_subset hN (kept_stories hN K hrun) hstep hu
    have hold : .endW t true ∈ m.hist → ∃ b, EndedAt c s s' t b p := fun h =>
      (ih3 h).imp fun b h => h.trans hstep
    have hfrom : AppendsFrom m.tasks s'.tasks → ∀ y, s'.tasks.get t = some y →
        y.pc.appends = true → y.pc = .written p := fun hf y hy hp => by
      obtain ⟨z, hz⟩ := (hB'.tasks.shape t y hy).appends_zone hp
      obtain ⟨x, hx, hpc, -⟩ := hf t y hy z hp hz
      exact hpc.symm.trans (ih2 x hx (hpc ▸ hp))
    refine ⟨ih1.imp fun flag h => hsub h, ?_⟩
    rcases step_device hB hs with ⟨t', z, x, -, hi⟩ | ⟨-, ⟨t', z, off, x, rfl, hl⟩ | ⟨t', he⟩ |
      ⟨i, hw⟩ | ⟨b, d, flush, more, rfl, hn⟩ | hc⟩
    · -- the task has got its block
      refine ⟨fun y hy => ?_, fun h => hold (hi.news _ rfl h)⟩
      obtain ⟨f, -, -, htasks⟩ := hi.tasks
      have hne : t ≠ t' := by
        rintro rfl
        exact hS.unallocated hi.here hi.status ih1
      rw [htasks, Heap.get_modify_ne hne] at hy
      exact ih2 y hy
    · -- its append has landed
      refine ⟨fun y hy => ?_, fun h => hold (hl.news _ rfl h)⟩
      have hne : t ≠ t' := by
        rintro rfl
        have := ih2 x hl.here (by rw [hl.flies.1]; rfl)
        rw [hl.flies.1] at this
        cases this
      rw [hl.tasks, Heap.get_modify_ne hne] at hy
      exact ih2 y hy
    · refine ⟨hfrom he.tasks, fun h => ?_⟩
      rcases he.news with ha | ⟨x, q, z, hx, hq, -, -, hmap, hh⟩
      · exact hold (ha _ rfl h)
      · rw [hh] at h
        by_cases e : t = t'
        · subst e
          have hqp := ih2 x hx (by rw [hq]; rfl)
          rw [hq] at hqp
          cases hqp
          exact ⟨x.blkid, s', x.data, hrun.trans hstep, by rw [hh]; rfl, hmap, .refl⟩
        · exact hold (by simpa [e] using h)
    · exact ⟨fun y hy => ih2 y (hw.tasks ▸ hy), fun h => hold (hw.news _ rfl h)⟩
    · refine ⟨hfrom hn.tasks, fun h => hold ?_⟩
      rw [hn.hist] at h
      simpa using h
    · exact ⟨hfrom hc.tasks, fun h => hold (hc.news _ rfl h)⟩

section

variable (K : Kept c Stories s) (hrun : Runs (stepRel (step c)) (fun _ _ => True) s u)
  (hu : u.bug = none) (hs : .submitW t b d more ∈ u.hist) (he : .endW t true ∈ u.hist)

include K hrun hu hs he

/-- **Where the append of a write has landed**, and that its block is then mapped to it. -/
theorem AppendOf.entered (h : AppendOf c s u t v w) : ∃ p x, AckedStory t b p d more (story t u.hist) ∧
    v.tasks.get t = some x ∧ x.data = d ∧ x.more = more ∧
    (w.tasks.At t fun x => x.pc = .written p) ∧ w.phys.read p = some d ∧
    (∀ q, (v.phys.content q = none ∧ w.phys.content q ≠ none) ↔ p ≤ q ∧ q < p + x.len) ∧
    EndedAt c w u t b p := by
  obtain ⟨off, hoff⟩ := h.append
  have hv := step_alive hoff
  have hvw : Runs (stepRel (step c)) (fun _ _ => True) v w :=
    Runs.one (e := .devAppend t off) trivial hoff
  have Kv := kept_stories hN K h.before
  have Kw := kept_stories hN Kv hvw
  obtain ⟨hBv, hSv⟩ := Kv.core hv
  obtain ⟨hBu, hSu⟩ := (kept_stories hN K hrun).core hu
  obtain ⟨p, hp⟩ := hSu.acked hBu.tasks hs he
  obtain ⟨z, x, hl⟩ := landed_of_step hBv hoff
  obtain ⟨-, -, hm⟩ := entered_of_written hN Kw hl.get rfl h.after hu
  obtain ⟨b', m, e, h1, h2, h3, h4⟩ := hm he
  -- what is written down is the same at the end
  have hmu := hist_subset hN (kept_stories hN Kw h1) h4 hu
  have hst : .stored t b' (c.startBlk z + off) e ∈ story t u.hist :=
    (mem_story rfl).mp (hmu (List.mem_of_mem_take (by rw [h2]; simp)))
  have hvu := hist_subset hN Kv (hvw.trans h.after) hu
  have hty : x.type ≠ .gc := fun hgc =>
    hp.not_gcCreate t ((mem_story rfl).mp (hvu (hSv.gc_made hBv.tasks hl.here hgc)))
  have hsub := (mem_story rfl).mp (hvu (hSv.submitted hl.here hty))
  obtain ⟨-, hd, hmore⟩ := hp.submitW hsub
  obtain ⟨rfl, rfl, rfl⟩ := hp.stored hst
  exact ⟨_, x, hp, hl.here, hd, hmore, ⟨_, hl.get, rfl⟩, hd ▸ hl.read, hl.filled, m, _, h1, h2,
    h3, h4⟩

variable (ht : s.tasks.next ≤ t)

include ht

/-- **A write that has ended with success** has stored the first block of its bio, and nothing
else. -/
theorem hasStored_iff {b' : ℕ} {d' : Option α} : HasStored c s u t b' d' ↔ b' = b ∧ d' = some d := by
  obtain ⟨v, w, h⟩ := (exists_appendOf hN K ht hrun hu).2 he
  constructor
  · rintro ⟨v', w', m, p, e, h', ⟨y, hy, hyp⟩, hd, hh, -, hmu⟩
    obtain ⟨p', x, hp, -, -, -, ⟨y', hy', hyp'⟩, hr, -⟩ :=
      AppendOf.entered hN K hrun hu hs he ⟨h'.before, h'.append, h'.after.trans hmu⟩
    cases hy.symm.trans hy'
    cases hyp.symm.trans hyp'
    have Km := kept_stories hN K ((AppendOf.run h').trans h'.after)
    have hst : .stored t b' p e ∈ m.hist := List.mem_of_mem_take (by rw [hh]; simp)
    obtain ⟨rfl, -, -⟩ := hp.stored ((mem_story rfl).mp (hist_subset hN Km hmu hu hst))
    exact ⟨rfl, hd.symm.trans hr⟩
  · rintro ⟨rfl, rfl⟩
    obtain ⟨p, x, -, -, -, -, hw, hr, -, m, e, hwm, hh, hmap, hmu⟩ :=
      AppendOf.entered hN K hrun hu hs he h
    exact ⟨v, w, m, p, e, ⟨h.before, h.append, hwm⟩, hw, hr, hh, hmap, hmu⟩

/-- It has filled as many physical blocks as its bio has. -/
theorem appendedBy_encard : (appendedBy c s u t).encard = more.length + 1 := by
  obtain ⟨v, w, h⟩ := (exists_appendOf hN K ht hrun hu).2 he
  obtain ⟨p, x, hp, -, -, hmore, -⟩ := AppendOf.entered hN K hrun hu hs he h
  have hset : appendedBy c s u t = Finset.Ico p (p + (more.length + 1)) := by
    ext q
    rw [Finset.coe_Ico, Set.mem_Ico]
    constructor
    · rintro ⟨v', w', h', hq⟩
      obtain ⟨p', x', hp', -, -, hmore', -, -, hfill, -⟩ := AppendOf.entered hN K hrun hu hs he h'
      obtain rfl := hp.entry_unique hp'
      rw [hfill, Task.len, hmore'] at hq
      exact hq
    · intro hq
      obtain ⟨p', x', hp', -, -, hmore', -, -, hfill, -⟩ := AppendOf.entered hN K hrun hu hs he h
      obtain rfl := hp.entry_unique hp'
      exact ⟨v, w, h, (hfill q).mpr (by rwa [Task.len, hmore'])⟩
  rw [hset, Set.encard_coe_eq_coe_finsetCard, Nat.card_Ico, Nat.add_sub_cancel_left]
  push_cast
  rfl

end

end

end Lbz
