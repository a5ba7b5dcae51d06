import Lbz.Leftovers
import Lbz.Phantom
import Lbz.WritePointer

/-!
# Gc tasks, and the writes that they wait for

* `uncalled s`: the gc tasks that have been made and not called back; `moving_iff`: these are the
  gc tasks that are there and go on;
* **`gc_tasks_matched`**: `gc_inflight_io_cnt` counts them, a gc task that finds its block in the
  tree finds a user write that has no gc task yet, and the gc tasks that wait and the writes that
  have one are matched one to one.
-/

namespace Lbz

variable {α : Type}

section

variable [DecidableEq α]

/-- Entries of the history are told apart by their equality. -/
instance : LawfulBEq (Obs α) := inferInstance

/-- The gc tasks that have been made and not called back. -/
def uncalled (s : Sys α) : Finset ℕ :=
  (Finset.range s.tasks.next).filter fun g => .gcCreate g ∈ s.hist ∧ .callback g ∉ s.hist

theorem moving_iff {s : Sys α} (a : Stories s.core) (T : Tasks s.core) (g : ℕ) :
    (∃ x, s.tasks.get g = some x ∧ x.type = .gc ∧ x.pc ≠ .done) ↔
      .gcCreate g ∈ s.hist ∧ .callback g ∉ s.hist := by
  constructor
  · rintro ⟨x, hx, hty, hpc⟩
    have hmade : .gcCreate g ∈ s.hist := a.gc_made T hx hty
    refine ⟨hmade, fun h => ?_⟩
    rcases a.gc_cases T hmade with ⟨h', -⟩ | ⟨-, h'⟩
    · exact hpc (h' x hx)
    · exact h'.releases.2 ((mem_story rfl).mp h)
  · rintro ⟨hmade, hno⟩
    rcases a.gc_cases T hmade with ⟨-, h⟩ | ⟨h, -⟩
    · exact absurd ((mem_story rfl).mpr h.releases.2) hno
    · exact h

theorem card_uncalled {s : Sys α} (a : Stories s.core) (T : Tasks s.core) :
    s.tasks.sum Task.moving = (uncalled s).card := by
  have hsame : ((Finset.range s.tasks.next).filter fun g => s.tasks.At g fun x =>
      x.type = .gc ∧ x.pc ≠ .done) = uncalled s :=
    Finset.filter_congr fun g _ => moving_iff a T g
  rw [← hsame]
  exact Heap.sum_ite_eq_card s.tasks

end

/-! ## Runs -/

/-- What is said of the gc tasks. -/
structure HandoverInv (c : Conf) (w : ℕ → ℤ) (k : Core α) : Prop where
  phantom : PhantomInv c w k
  stories : Stories k
  gcs : GcInflight k

/-- How gc tasks and the writes of their blocks are matched. -/
structure Matches (s : Sys α) : Prop where
  found : ∀ g t x, s.tasks.get g = some x → x.pc = .found t →
    ∃ y, s.tasks.get t = some y ∧ y.type ≠ .gc ∧ y.blkid = x.blkid ∧ y.link = .null
  waiting : ∀ g t, (∃ x, s.tasks.get g = some x ∧ x.pc = .waiting t) ↔
    ∃ y, s.tasks.get t = some y ∧ y.type ≠ .gc ∧ y.link = .node g
  block : ∀ g t x y, s.tasks.get g = some x → x.pc = .waiting t → s.tasks.get t = some y →
    y.blkid = x.blkid

variable [Inhabited α] {o : Options} {report : List BlkZone} {cap : ℕ} {s₀ s : Sys α}

theorem handover_run (hw : WrittenReport o report cap) (h0 : initSys o report = some s₀)
    (hrun : Runs (stepRel (step (confOf o report))) (fun s e => e.NoError ∧ e.NoCarry s) s₀ s) :
    Sound (confOf o report) (HandoverInv (confOf o report) (given report)) s := by
  have geo := hw.geom (initSys_eq h0).1
  refine Sound.uncarried geo (fun _ _ _ B a hf hl hm => ⟨a.phantom.move geo B hf hl hm,
    a.stories.move B.tasks B.queues hm, a.gcs.move B.tasks B.queues hm⟩) hrun ?_
  obtain ⟨hf, d, hd, hB, P⟩ := phantom_run hw h0 .refl
  obtain ⟨-, m, -, rfl⟩ := initSys_eq h0
  exact ⟨hf, d, hd, hB, P, StoryInv.empty, (Heap.sum_empty _).symm⟩

variable [DecidableEq α]

/-- **Gc tasks and the writes they wait for.** `gc_inflight_io_cnt` is the number of gc tasks that
have been made and not called back; a gc task that finds its block in the tree finds a user write
without a gc task; and the gc tasks that wait are matched with the writes that have one. -/
theorem gc_tasks_matched (hw : WrittenReport o report cap) (h0 : initSys o report = some s₀)
    (hrun : Runs (stepRel (step (confOf o report))) (fun s e => e.NoError ∧ e.NoCarry s) s₀ s)
    (hb : s.bug = none) : s.gcInflight = (uncalled s).card ∧ Matches s := by
  obtain ⟨B, -, a⟩ := (handover_run hw h0 hrun).base hb
  have T := B.tasks
  have C := a.phantom.victim.cover
  refine ⟨a.gcs.trans (card_uncalled a.stories T), fun g t x hx hpc => ?_, fun g t => ⟨?_, ?_⟩,
    fun g t x y hx hpc hy => ?_⟩
  · obtain ⟨y, hy, hty, hl⟩ := C.found g t x hx hpc
    obtain ⟨y', hy', hblk, -⟩ := T.found g x hx t hpc
    cases hy.symm.trans hy'
    exact ⟨y, hy, hty, hblk, hl⟩
  · rintro ⟨x, hx, hpc⟩
    exact C.waiting g t x hx hpc
  · rintro ⟨y, hy, hty, hl⟩
    obtain ⟨x, hx, -, hpc, -⟩ := T.link t y hy hty g hl
    exact ⟨x, hx, hpc⟩
  · obtain ⟨y', hy', hty, hl⟩ := C.waiting g t x hx hpc
    cases hy.symm.trans hy'
    obtain ⟨x', hx', -, -, hblk⟩ := T.link t y hy hty g hl
    cases hx.symm.trans hx'
    exact hblk.symm

theorem pairReport_ok : WrittenReport pairOptions (emptyReport 4 16 16) 16 :=
  (emptyReport_ok pairOptions 4 16 (by decide) (by decide) (by decide)).written (by decide)
    (by decide)

/-- While gc task 8 reads block 1536, the block is written by task 9. -/
def handed : List (Event ℕ) :=
  pairWrites ++ List.flatten [soleWrite 4 6 0 7, settleWrite 2, soleWrite 5 7 1 7, settleWrite 2,
    soleWrite 6 8 0 7, settleWrite 3,
    [.submitWrite 9 7 false, .runWrite 7 true, .runWrite 7 true, .wkStart, .wkStep true,
      .wkStep true, .wkStep true, .gcSelect false, .gcScan, .gcScan, .gcScan,
      .submitWrite 1536 9 false, .runWrite 9 true, .gcDevRead 8 true, .gcReadEnd 8, .retryWk,
      .retryWk, .runWrite 7 true, .retryWk, .retryWk, .runGc 8 true, .runGc 8 true]]

theorem gc_tasks_matched_handed : ∃ s : Sys ℕ, s.gcInflight = (uncalled s).card ∧
    uncalled s = {8} ∧ ∃ y, s.tasks.get 9 = some y ∧ y.type ≠ .gc ∧ y.link = .node 8 := by
  obtain ⟨s, hrun, h⟩ := exists_run (step pairConf) (fun s e => e.NoError ∧ e.NoCarry s)
    (fun s : Sys ℕ => decide (s.bug = none ∧ uncalled s = {8}) &&
      (s.tasks.get 8).any fun x : Task ℕ => decide (x.pc = .waiting 9)) pairStart handed
    (by decide +kernel)
  rw [Bool.and_eq_true] at h
  obtain ⟨hbug, hun⟩ := of_decide_eq_true h.1
  obtain ⟨x, hx, hpc⟩ := (Option.any_eq_true _ _).mp h.2
  obtain ⟨hcount, M⟩ := gc_tasks_matched pairReport_ok (Option.some_get _).symm hrun hbug
  exact ⟨s, hcount, hun, (M.waiting 8 9).mp ⟨x, hx, of_decide_eq_true hpc⟩⟩

end Lbz
