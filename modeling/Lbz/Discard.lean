import Lbz.Geometry

/-!
# Discards and gc tasks

* `PastMapped`: the block of a gc task past its check is mapped, and where the task has read it;
* `FreesNoPast`: a `lbz_nat_sit_tx_complete` frees no block of such a task;
* **`discard_not_undone`**: with that, a block without a mapping gets one only at the end of a user
  write;
* `discard_undone`: without it, the callback of a gc task maps a discarded block again.
-/

namespace Lbz

variable {α : Type}

/-- The block of every gc task past its check is where the task has read it. -/
def PastMapped (k : Core α) : Prop :=
  k.tasks.All fun _ x => x.Past → k.mapping x.blkid = some x.pbid

/-- No block that the move frees is held by a gc task past its check. -/
def FreesNoPast (k : Core α) : Label → Prop
  | .discard b => k.tasks.All fun _ x => x.Past → x.blkid ≠ b
  | _ => True

namespace PastMapped

variable {k k' : Core α}

/-- A task changes, and is not past its check if it was not. -/
theorem keep {h : Heap (Task α)} {m : ℕ → Option ℕ} {t : ℕ} {x : Task α} {f : Task α → Task α}
    (a : h.All fun _ x => x.Past → m x.blkid = some x.pbid) (hx : h.get t = some x)
    (hb : (f x).blkid = x.blkid) (hp : (f x).pbid = x.pbid)
    (hpast : (f x).Past → x.Past ∨ m x.blkid = some x.pbid) :
    (h.modify t f).All fun _ x => x.Past → m x.blkid = some x.pbid :=
  a.modify_at hx fun hx' h' => by
    rw [hb, hp]
    exact (hpast h').elim hx' id

/-- The holder of a block is entered into the mapping. -/
theorem store (T : Tasks k) (a : PastMapped k) {t p : ℕ} {x : Task α}
    (hx : k.tasks.get t = some x) (hi : x.InTree) {f : Task α → Task α} (hf : ¬ (f x).Past) :
    (k.tasks.modify t f).All fun _ x' => x'.Past →
      Function.update k.mapping x.blkid (some p) x'.blkid = some x'.pbid := by
  intro i y hy hpast
  rw [Heap.get_modify] at hy
  split_ifs at hy with e
  · rw [e, hx] at hy
    cases hy
    exact absurd hpast hf
  · rw [Function.update_of_ne fun hb => e (TaskInv.eq_of_holder T hx hi hy hpast.inTree hb)]
    exact a i y hy hpast

variable [Inhabited α] {c : Conf} {l : Label}

theorem move (B : Base c k) (a : PastMapped k) (hf : l ≠ .fault) (hl : FreesNoPast k l)
    (hm : Move c k l k') : PastMapped k' := by
  have T := B.tasks
  have Q := B.queues
  cases hm with
  | dispatchFail | fallbackFail | allocFail | devFail | writeFail | serveFail | gcServeFail
  | gcReadFail | gcWriteFail | release | wkFail => exact absurd rfl hf
  | openZone | complete | putZone | readMiss | readHit | serve | endRead | retryUsers | retryGcs
  | retryDone | select | scanFree | scanEnd | peek | wkStart | wkIdle | wkNext | wkFull | wkSticky
  | wkFree | wkClose | wkLink | wkEmpty | wkCarried | wkReset | wkPublish => exact a
  | submitWrite b d more hty => exact Heap.All.alloc a fun h => absurd h.1 hty
  | scanBlock => exact Heap.All.alloc a fun h => absurd rfl h.2.1
  | @conflict t tk x y hx hty hst hpc htk hy hb =>
    have hf : x.Fresh := by rw [Task.Fresh, if_neg hty]; exact hst
    refine keep (x := x) (keep a hy rfl rfl Or.inl) ?_ rfl rfl fun h => absurd h.1 hty
    rw [Heap.get_modify_ne (TaskInv.ne_of_fresh T hx hf htk), hx]
  | insert hx hty | pend hx hty => exact keep a hx rfl rfl fun h => absurd h.1 hty
  | @dispatch t z i x log hx hst hpc =>
    refine keep a hx rfl rfl fun h => Or.inl ⟨h.1, by rw [hst]; rintro ⟨⟩, ?_⟩
    rcases hpc with hpc | ⟨j, hpc⟩ <;> rw [hpc] <;> rintro ⟨⟩
  | fallback hx hst hpc =>
    exact keep a hx rfl rfl fun h => Or.inl ⟨h.1, by rw [hst]; rintro ⟨⟩, by rw [hpc]; rintro ⟨⟩⟩
  | append hx hpc =>
    exact keep a hx rfl rfl fun h => Or.inl ⟨h.1, h.2.1, by rw [hpc]; rintro ⟨⟩⟩
  | @apply t z p x hx hty hpc hz =>
    obtain ⟨hst, -⟩ := (T.shape t x hx).written hpc
    exact store T a hx (by simp [Task.InTree, hty, hst, hpc]) fun h => hty h.1
  | untree hx hpc => exact keep a hx rfl rfl fun h => absurd rfl h.2.2
  | dropRef ht hx => exact keep a hx rfl rfl Or.inl
  | destroy => exact Heap.All.free a _
  | destroyCall => exact Heap.All.free (Heap.All.free a _) _
  | @nextUser t l hr hret =>
    obtain ⟨x, hx, hty, -⟩ := Q.users.2 t (by simp [hr, RetryPc.usersLeft])
    exact keep a hx rfl rfl fun h => absurd h.1 hty
  | @nextGc t l hr hret =>
    obtain ⟨x, hx, -, hpc⟩ := Q.gcs.2 t (by simp [hr, RetryPc.gcsLeft])
    exact keep a hx rfl rfl fun h => Or.inl ⟨h.1, h.2.1, by rw [hpc]; rintro ⟨⟩⟩
  | gcServe hx hpc => exact keep a hx rfl rfl fun h => Or.inl ⟨h.1, h.2.1, by rw [hpc]; rintro ⟨⟩⟩
  | gcReadEnd hx hpc => exact keep a hx rfl rfl fun h => Or.inl ⟨h.1, h.2.1, by rw [hpc]; rintro ⟨⟩⟩
  | @gcFind g tk x y hx hty hst hpc htk hy hb =>
    have hf : x.Fresh := by
      rw [Task.Fresh, if_pos hty, hpc]
      exact ⟨hst, by rintro ⟨⟩, by rintro ⟨⟩, by rintro ⟨⟩⟩
    refine keep (x := x) (keep a hy rfl rfl Or.inl) ?_ rfl rfl fun h => absurd hst h.2.1
    rw [Heap.get_modify_ne (TaskInv.ne_of_fresh T hx hf htk), hx]
  | gcInsert hx hty hst => exact keep a hx rfl rfl fun h => absurd hst h.2.1
  | @gcFound g tk x hx hty hpc =>
    obtain ⟨y, hy, -⟩ := T.found g x hx tk hpc
    have a' := keep (f := fun x => { x with error := some .enoent, pc := .waiting tk }) a hx rfl rfl
      fun h => Or.inl ⟨h.1, h.2.1, by rw [hpc]; rintro ⟨⟩⟩
    by_cases e : tk = g
    · subst e
      exact keep a' (Heap.get_modify_self hx _) rfl rfl Or.inl
    · exact keep (x := y) a' (by rw [Heap.get_modify_ne e, hy]) rfl rfl Or.inl
  | @gcSkip g x hx hty hpc =>
    obtain ⟨⟨v, hp⟩, -⟩ := (T.shape g x hx).gc hty
    have hst : x.status = .gcReading := by cases hp <;> simp_all
    exact keep a hx rfl rfl fun h => absurd hst h.2.1
  | gcPass hx hty hpc hm => exact keep a hx rfl rfl fun _ => Or.inr hm
  | gcWritten hx hty hpc =>
    exact keep a hx rfl rfl fun h => Or.inl ⟨h.1, h.2.1, by rw [hpc]; rintro ⟨⟩⟩
  | @remap g z v p x hx hty hpc hl hz hv hm =>
    obtain ⟨-, hst, -⟩ := (T.shape g x hx).callback hpc
    exact store T a hx (by simp [Task.InTree, hty, hst, hpc]) fun h => h.2.2 rfl
  | skipEnd hx => exact keep a hx rfl rfl fun h => absurd rfl h.2.2
  | @discard b p hb =>
    intro t x hx hpast
    change Function.update _ _ _ _ = _
    rw [Function.update_of_ne (hl t x hx hpast)]
    exact a t x hx hpast

end PastMapped

/-- `lbz_nat_sit_tx_complete` frees no block that a gc task holds between its check of the mapping
and its callback. -/
def Event.FreesNoPast (s : Sys α) : Event α → Prop
  | .txComplete => ∀ b ∈ s.natSit.toFree, s.tasks.All fun _ x => x.Past → x.blkid ≠ b
  | _ => True

/-- The event is the end of a user write of block `b`. -/
def Event.EndsWrite (s : Sys α) (b : ℕ) : Event α → Prop
  | .writeEnd t => s.tasks.At t fun x => x.type ≠ .gc ∧ x.blkid = b
  | _ => False

instance (s : Sys α) (e : Event α) : Decidable (e.FreesNoPast s) := by
  rcases e with _ | _ <;> dsimp only [Event.FreesNoPast] <;> infer_instance

instance (s : Sys α) (b : ℕ) (e : Event α) : Decidable (e.EndsWrite s b) := by
  rcases e with _ | _ <;> dsimp only [Event.EndsWrite] <;> infer_instance

variable [Inhabited α] {c : Conf}

omit [Inhabited α] in
theorem freesNoPast_of_event {s : Sys α} {e : Event α} {k : Core α} {l : Label}
    (he : e.FreesNoPast s) (ha : Allowed s e k l) : FreesNoPast k l := by
  cases l with
  | discard b =>
    obtain ⟨rfl, hb, hk⟩ := ha
    intro t x hx hpast
    exact he b hb t x (hk ▸ hx) hpast
  | _ => trivial

/-- A block without a mapping stays so, except at the end of a user write of it. -/
theorem unmapped_move {k k' : Core α} {l : Label} {b : ℕ} (B : Base c k) (a : PastMapped k)
    (hb : k.mapping b = none)
    (hl : ∀ t, l = .stored t → ∀ x, k.tasks.get t = some x → x.type ≠ .gc → x.blkid ≠ b)
    (hm : Move c k l k') : k'.mapping b = none := by
  cases hm with
  | @apply t z p x hx hty hpc hz =>
    change Function.update _ _ _ _ = _
    rw [Function.update_of_ne (hl t rfl x hx hty).symm, hb]
  | @remap g z v p x hx hty hpc hl hz hv hm =>
    obtain ⟨-, hst, -⟩ := (B.tasks.shape g x hx).callback hpc
    have hmap := a g x hx ⟨hty, by rw [hst]; nofun, by rw [hpc]; nofun⟩
    change Function.update _ _ _ _ = _
    rw [Function.update_of_ne, hb]
    rintro rfl
    rw [hb] at hmap
    cases hmap
  | @discard b' p hb' =>
    change Function.update _ _ _ _ = _
    rw [Function.update_apply]
    split_ifs
    · rfl
    · exact hb
  | _ => exact hb

variable {o : Options} {report : List BlkZone} {s₀ s s' : Sys α}

/-- **A discard is not undone.** Where no discard meets a gc task between its check and its
callback, a block without a mapping has none until a user write of it ends. -/
theorem discard_not_undone {cap b : ℕ} (hu : OneCapacity report cap) (h0 : initSys o report = some s₀)
    (hrun : Runs (stepRel (step (confOf o report))) (fun s e => e.NoError ∧ e.FreesNoPast s) s₀ s)
    (hb : s.mapping b = none)
    (hrun' : Runs (stepRel (step (confOf o report)))
      (fun s e => e.NoError ∧ e.FreesNoPast s ∧ ¬ e.EndsWrite s b) s s') : s'.mapping b = none := by
  obtain ⟨hN, hB⟩ := base_of_capacity hu h0
  obtain ⟨-, m, -, rfl⟩ := initSys_eq h0
  have h1 : Sound (confOf o report) PastMapped s :=
    Sound.run (fun s e => e.FreesNoPast s) FreesNoPast hN
      (fun _ _ _ hB a hf hl hm => a.move hB hf hl hm)
      (fun _ _ _ _ _ he ha _ => freesNoPast_of_event he ha) hrun
      ⟨rfl, _, fun _ => rfl, ⟨hB, clean_freshSys⟩, Heap.All.empty⟩
  obtain ⟨hf, d, hd, hB1, ha⟩ := h1
  have h2 : Sound (confOf o report) (fun k => PastMapped k ∧ k.mapping b = none) s' := by
    refine Sound.run (fun s e => e.FreesNoPast s ∧ ¬ e.EndsWrite s b)
      (fun k l => FreesNoPast k l ∧
        ∀ t, l = .stored t → ∀ x, k.tasks.get t = some x → x.type ≠ .gc → x.blkid ≠ b) hN
      (fun k l k' hB a hf hl hm => ⟨a.1.move hB hf hl.1 hm, unmapped_move hB a.1 a.2 hl.2 hm⟩)
      (fun s e k l k' he ha _ => ⟨freesNoPast_of_event he.1 ha, ?_⟩) hrun' ⟨hf, d, hd, hB1, ha, hb⟩
    rintro t rfl x hx hty hxb
    obtain ⟨rfl, rfl⟩ := ha
    exact he.2 ⟨x, hx, hty, hxb⟩
  obtain ⟨-, _, -, -, -, h3⟩ := h2
  exact h3

/-! ## Two runs -/

/-- Zones of two blocks, with a rule that pairs block 1024 with block 1536. -/
def pairOptions : Options := ⟨true, true, false, 16, 4096⟩

def pairConf : Conf := confOf pairOptions (emptyReport 4 16 16)

def pairStart : Sys ℕ := (initSys pairOptions (emptyReport 4 16 16)).get (by decide +kernel)

/-- Block 1536 is stored in zone 0, and block 1024, with which it becomes free. -/
def pairWrites : List (Event ℕ) :=
  List.flatten [[.addRule ⟨512, 1024, 2048, 1024⟩], soleWrite 0 1536 0 7, settleWrite 0,
    soleWrite 1 5 1 7, settleWrite 0, soleWrite 2 5 0 7, settleWrite 1, soleWrite 3 1024 1 7,
    settleWrite 1]

/-- The device runs full, zone 0 becomes the victim, and the gc task 8 of block 1536 is past its
check. -/
def pairGc : List (Event ℕ) :=
  List.flatten [soleWrite 4 6 0 7, settleWrite 2, soleWrite 5 7 1 7, settleWrite 2,
    soleWrite 6 8 0 7, settleWrite 3,
    [.submitWrite 9 7 false, .runWrite 7 true, .runWrite 7 true, .wkStart, .wkStep true,
      .wkStep true, .wkStep true, .gcSelect false, .gcScan, .gcScan, .gcScan, .gcDevRead 8 true,
      .gcReadEnd 8, .retryWk, .retryWk, .runWrite 7 true, .retryWk, .retryWk, .runGc 8 true,
      .runGc 8 true, .runGc 8 true]]

/-- `lbz_nat_sit_tx_complete` frees block 1536 while the gc task of it is at its check, which then
fails. -/
theorem discard_not_undone_run : ∃ s s' : Sys ℕ,
    (s.tasks.At 8 fun x => x.blkid = 1536 ∧ x.pc = .check) ∧ s.mapping 1536 = none ∧
      .callback 8 ∈ s'.hist ∧ s'.mapping 1536 = none := by
  have hu : OneCapacity (emptyReport 4 16 16) 16 := ⟨by decide, by decide⟩
  obtain ⟨s, hrun, h⟩ := exists_run (step pairConf) (fun s e => e.NoError ∧ e.FreesNoPast s)
    (fun s => decide ((s.tasks.At 8 fun x => x.blkid = 1536 ∧ x.pc = .check) ∧
      s.mapping 1536 = none) && (exec (step pairConf)
        (fun s e => e.NoError ∧ e.FreesNoPast s ∧ ¬ e.EndsWrite s 1536) s
        [.runGc 8 true, .gcEnd 8]).any fun s' => decide (.callback 8 ∈ s'.hist))
    pairStart (pairWrites ++ pairGc.dropLast.dropLast ++ [.txComplete]) (by decide +kernel)
  rw [Bool.and_eq_true] at h
  obtain ⟨h1, h2⟩ := of_decide_eq_true h.1
  obtain ⟨s', h3, h4⟩ := (Option.any_eq_true _ _).mp h.2
  exact ⟨s, s', h1, h2, of_decide_eq_true h4,
    discard_not_undone hu (Option.some_get _).symm hrun h2 (runs_of_exec h3)⟩

/-- `lbz_nat_sit_tx_complete` frees block 1536 while the gc task of it is past its check, and the
callback maps it again. -/
theorem discard_undone : ¬ ∀ (o : Options) (report : List BlkZone) (s₀ s₁ s s' : Sys ℕ) (b : ℕ),
    EmptyReport o report → o.freeSupport = true → initSys o report = some s₀ →
    Runs (stepRel (step (confOf o report))) (fun _ e => e.NoError) s₀ s₁ →
    s₁.mapping b ≠ none → step (confOf o report) s₁ .txComplete = some s → s.mapping b = none →
    Runs (stepRel (step (confOf o report))) (fun s e => e.NoError ∧ ¬ e.EndsWrite s b) s s' →
    s'.mapping b = none := by
  intro h
  obtain ⟨s₁, hrun, h2⟩ := exists_run (step pairConf) (fun _ e => e.NoError)
    (fun s₁ => decide (s₁.mapping 1536 ≠ none) && (step pairConf s₁ .txComplete).any fun s =>
      decide (s.mapping 1536 = none) && (exec (step pairConf)
        (fun s e => e.NoError ∧ ¬ e.EndsWrite s 1536) s
        [.devAppend 8 1, .gcWriteEnd 8, .gcEnd 8]).any fun s' =>
          decide (s'.mapping 1536 = some 7))
    pairStart (pairWrites ++ pairGc) (by decide +kernel)
  rw [Bool.and_eq_true] at h2
  have h1 := of_decide_eq_true h2.1
  obtain ⟨s, h3, h4⟩ := (Option.any_eq_true _ _).mp h2.2
  rw [Bool.and_eq_true] at h4
  obtain ⟨s', h5, h6⟩ := (Option.any_eq_true _ _).mp h4.2
  have he : EmptyReport pairOptions (emptyReport 4 16 16) :=
    emptyReport_ok pairOptions 4 16 (by decide) (by decide) (by decide)
  have := h pairOptions (emptyReport 4 16 16) pairStart s₁ s s' 1536 he rfl
    (Option.some_get _).symm hrun h1 h3 (of_decide_eq_true h4.1) (runs_of_exec h5)
  rw [of_decide_eq_true h6] at this
  cases this

end Lbz
