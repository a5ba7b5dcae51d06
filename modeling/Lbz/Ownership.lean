import Lbz.Discard
import Lbz.Frame

/-!
# Who may write to a block

* `Task.AtDevice`: an append of the task has been issued and not been taken notice of;
* `Owned s`: no block has two tasks in the tree, and an append is that of a task in the tree;
* `Event.Remaps`: what an event does to the mapping of a block;
* **`block_owned`**: in every run without an error the blocks are owned, the mapping of a block
  changes only at the hand of its owner or of a discard, and a gc task only replaces what it has
  read.
-/

namespace Lbz

variable {α : Type}

/-- An append of the task has been issued, and its completion has not run to the mapping. -/
def Task.AtDevice (x : Task α) : Prop :=
  x.pc = .device ∨ (∃ p, x.pc = .written p) ∨ ∃ o, x.pc = .callback o

theorem Task.AtDevice.inTree {x : Task α} (h : x.AtDevice) (hs : x.Shape) : x.InTree := by
  rcases h with hpc | ⟨p, hpc⟩ | ⟨o, hpc⟩
  · obtain ⟨hst, -⟩ := hs.device hpc
    unfold Task.InTree
    split_ifs <;> simp [hst, hpc]
  · obtain ⟨hst, -⟩ := hs.written hpc
    unfold Task.InTree
    split_ifs <;> simp [hst, hpc]
  · obtain ⟨hty, hst, -⟩ := hs.callback hpc
    simp [Task.InTree, hty, hst, hpc]

/-- Each block has one task in the tree at most, and only that one has appends. -/
structure Owned (s : Sys α) : Prop where
  nodup : s.taskTree.Nodup
  alone : ∀ t ∈ s.taskTree, ∀ t' ∈ s.taskTree, ∀ x x', s.tasks.get t = some x →
    s.tasks.get t' = some x' → x.blkid = x'.blkid → t = t'
  appends : s.tasks.All fun t x => x.AtDevice → t ∈ s.taskTree

theorem Tasks.owned {s : Sys α} (T : Tasks s.core) : Owned s where
  nodup := T.nodup
  alone := by
    intro t ht t' ht' x x' hx hx' hb
    exact (TaskInv.eq_of_holder T hx ((TaskInv.mem_tree T hx).mp ht) hx'
      ((TaskInv.mem_tree T hx').mp ht') hb.symm).symm
  appends := fun t x hx h => (TaskInv.mem_tree T hx).mpr (h.inTree (T.shape t x hx))

/-- The event `e` maps block `b` to `p`, at the hand of the task in the tree that has the block. A
gc task does so if the block is where it has read it, or nowhere. -/
inductive Event.Remaps (s : Sys α) (b : ℕ) : Event α → Option ℕ → Prop
  | write {t p : ℕ} {x : Task α} (hx : s.tasks.get t = some x) (ht : t ∈ s.taskTree)
      (hb : x.blkid = b) (hpc : x.pc = .written p) : Event.Remaps s b (.writeEnd t) (some p)
  | gc {g p : ℕ} {x : Task α} (hx : s.tasks.get g = some x) (ht : g ∈ s.taskTree)
      (hb : x.blkid = b) (hpc : x.pc = .callback (some p))
      (hold : s.mapping b = some x.pbid ∨ s.mapping b = none) : Event.Remaps s b (.gcEnd g) (some p)
  | discard (hb : b ∈ s.natSit.toFree) : Event.Remaps s b .txComplete none

variable [Inhabited α] {c : Conf} {o : Options} {report : List BlkZone} {s₀ s s' : Sys α}

/-- What the moves of an event have done to the mapping so far. -/
theorem remaps_path {e : Event α} (hB : Base c s.core) {k : Core α}
    (h : Path c (Allowed s e) s.core k) {b : ℕ} (hb : k.mapping b ≠ s.mapping b) :
    e.Remaps s b (k.mapping b) := by
  refine Runs.inv (I := fun k : Core α => k.mapping b ≠ s.mapping b → e.Remaps s b (k.mapping b))
    (fun k l k' hi ha hm hne => ?_) h (fun h => absurd rfl h) hb
  have hold : k.mapping b ≠ s.mapping b → k'.mapping b = k.mapping b →
      e.Remaps s b (k'.mapping b) := fun h1 h2 => by rw [h2]; exact hi h1
  have hsame : k'.mapping b = k.mapping b → e.Remaps s b (k'.mapping b) := fun h =>
    hold (by rw [← h]; exact hne) h
  -- the move maps the block of `x` to `p`
  have hupdate : ∀ {b' : ℕ} {v : Option ℕ}, k = s.core → k'.mapping = Function.update k.mapping b' v →
      (b' = b → e.Remaps s b v) → e.Remaps s b (k'.mapping b) := by
    rintro b' v rfl hk hv
    rw [hk, Function.update_apply] at hne ⊢
    split_ifs at hne ⊢ with h
    · exact hv h.symm
    · exact absurd rfl hne
  cases hm with
  | @apply t z p x hx hty hpc hz =>
    obtain ⟨hk, rfl⟩ := ha
    subst hk
    have hin := (show x.AtDevice from Or.inr (Or.inl ⟨p, hpc⟩)).inTree (hB.tasks.shape t x hx)
    exact hupdate rfl rfl fun hb' =>
      .write hx ((TaskInv.mem_tree hB.tasks hx).mpr hin) hb' hpc
  | @remap g z v p x hx hty hpc hl hz hv hm =>
    obtain ⟨hk, rfl⟩ := ha
    subst hk
    have hin := (show x.AtDevice from Or.inr (Or.inr ⟨_, hpc⟩)).inTree (hB.tasks.shape g x hx)
    exact hupdate rfl rfl fun hb' =>
      .gc hx ((TaskInv.mem_tree hB.tasks hx).mpr hin) hb' hpc (hb' ▸ hm)
  | @discard b' p hb' =>
    obtain ⟨rfl, hmem, -⟩ := ha
    have hk : Function.update k.mapping b' none b = if b = b' then none else k.mapping b :=
      Function.update_apply ..
    change Event.Remaps s b .txComplete (Function.update k.mapping b' none b)
    by_cases h : b = b'
    · rw [hk, if_pos h]
      exact .discard (h ▸ hmem)
    · exact hold (by change Function.update k.mapping b' none b ≠ _ at hne; rwa [hk, if_neg h] at hne)
        (hk.trans (if_neg h))
  | _ => exact hsame rfl

/-- What every run without an error keeps. -/
theorem sound_run {cap : ℕ} (hu : OneCapacity report cap) (h0 : initSys o report = some s₀)
    (hrun : Runs (stepRel (step (confOf o report))) (fun _ e => e.NoError) s₀ s) :
    Sound (confOf o report) (fun _ => True) s := by
  obtain ⟨hN, hB⟩ := base_of_capacity hu h0
  obtain ⟨-, m, -, rfl⟩ := initSys_eq h0
  exact Sound.run (fun _ _ => True) (fun _ _ => True) hN (fun _ _ _ _ _ _ _ _ => trivial)
    (fun _ _ _ _ _ _ _ _ => trivial) (hrun.mono fun _ _ h => ⟨h, trivial⟩)
    ⟨rfl, _, fun _ => rfl, ⟨hB, clean_freshSys⟩, trivial⟩

omit [Inhabited α] in
theorem Sound.base {I : Core α → Prop} (a : Sound c I s) (hb : s.bug = none) :
    Base c s.core ∧ Clean s.core ∧ I s.core := by
  obtain ⟨-, d, hd, ⟨hB, hC⟩, hI⟩ := a
  cases hd (by rw [hb]; rintro ⟨⟩)
  exact ⟨hB, hC, hI⟩

/-- A device that takes a step is not stopped. -/
theorem bug_of_step {e : Event α} (hs : step c s e = some s') : s.bug = none := by
  rw [step] at hs
  split_ifs at hs with h
  exact h.1

/-- **The owner of a block.** In a run without an error, the tree holds one task a block, which
alone has appends; a block is mapped somewhere else by its owner only, or discarded, and by a gc
task only if it is where the task has read it, or nowhere. -/
theorem block_owned {cap : ℕ} (hu : OneCapacity report cap) (h0 : initSys o report = some s₀)
    (hrun : Runs (stepRel (step (confOf o report))) (fun _ e => e.NoError) s₀ s) :
    (s.bug = none → Owned s) ∧ s.bug ≠ some .gcMapping ∧
      ∀ e s' b, e.NoError → step (confOf o report) s e = some s' → s'.mapping b ≠ s.mapping b →
        e.Remaps s b (s'.mapping b) := by
  refine ⟨fun hb => Tasks.owned ((sound_run hu h0 hrun).base hb).1.tasks, ?_, ?_⟩
  · cases hrun with
    | refl =>
      obtain ⟨-, m, -, rfl⟩ := initSys_eq h0
      rintro ⟨⟩
    | tail hrun hs =>
      obtain ⟨e, he, hs⟩ := hs
      exact step_remaps ((sound_run hu h0 hrun).base (bug_of_step hs)).1 hs
  · intro e s' b he hs hne
    have hsound := sound_run hu h0 hrun
    obtain ⟨hB, hC, -⟩ := hsound.base (bug_of_step hs)
    obtain ⟨-, hp | ⟨-, d, hd⟩⟩ := path_of_step hB hC hsound.1 he hs
    · exact remaps_path hB hp hne
    · exact absurd (congrFun (congrArg Core.mapping hd) b) hne

/-- The gc task 8 is about to map block 1536 to block 7. -/
theorem block_owned_gc : ∃ s s' : Sys ℕ, Owned s ∧
    Event.Remaps s 1536 (.gcEnd 8) (s'.mapping 1536) ∧ s'.mapping 1536 = some 7 := by
  have hu : OneCapacity (emptyReport 4 16 16) 16 := ⟨by decide, by decide⟩
  obtain ⟨s, hrun, h⟩ := exists_run (step pairConf) (fun _ e => e.NoError)
    (fun s => decide (s.bug = none) && (step pairConf s (.gcEnd 8)).any fun s' : Sys ℕ =>
      decide (s'.mapping 1536 ≠ s.mapping 1536 ∧ s'.mapping 1536 = some 7)) pairStart
    (pairWrites ++ pairGc ++ [.devAppend 8 1, .gcWriteEnd 8]) (by decide +kernel)
  rw [Bool.and_eq_true] at h
  obtain ⟨s', hs, h2⟩ := (Option.any_eq_true _ _).mp h.2
  obtain ⟨hne, hmap⟩ := of_decide_eq_true h2
  obtain ⟨h3, -, h4⟩ := block_owned hu (Option.some_get _).symm hrun
  exact ⟨s, s', h3 (of_decide_eq_true h.1), h4 _ _ _ trivial hs hne, hmap⟩

end Lbz
