import Lbz.Contents
import Lbz.StaleRead
import Lbz.Transactions

/-!
# What a read returns

* `ReadsAs r v k`: the read `r` is to end with `v`; **`read_current`**: a read ends with what the
  device held for its block when it was submitted, however long it takes and whatever is moved or
  reset meanwhile;
* `storeTold hist`: the store as the ends of writes tell of it; `store_told`: without discards it
  is what the device holds;
* `UserStory`: the story of a write, and in which order the parts of two stories stand;
* **`read_your_write`**: a write that has ended is read, if no other write of the block was about.
-/

namespace Lbz

variable {α : Type} [Inhabited α] {c : Conf} {k k' : Core α} {l : Label} {o : Options}
  {report : List BlkZone} {s₀ s s₁ s' : Sys α}

/-! ## One read -/

/-- What a move tells of the ends of reads. -/
theorem Move.endR (hf : l ≠ .fault) (hm : Move c k l k') {r : ℕ} {v : Option α} {ok : Bool}
    (h : .endR r v ok ∈ k'.hist) : .endR r v ok ∈ k.hist ∨ r = k.reads.next ∨
      ∃ x, k.reads.get r = some x ∧ x.served = some v ∧ ok = v.isSome := by
  cases hm with
  | dispatchFail | fallbackFail | allocFail | devFail | writeFail | serveFail | gcServeFail
  | gcReadFail | gcWriteFail | release | wkFail => exact absurd rfl hf
  | readMiss =>
    have h : Obs.endR r v ok ∈ .endR k.reads.next none true :: .submitR k.reads.next _ :: k.hist := h
    rcases List.mem_cons.mp h with h | h
    · exact Or.inr (Or.inl (Obs.endR.inj h).1)
    · exact Or.inl (List.mem_of_ne_of_mem (by rintro ⟨⟩) h)
  | @endRead r' x v' hx hs =>
    have h : Obs.endR r v ok ∈ .endR r' v' v'.isSome :: k.hist := h
    rcases List.mem_cons.mp h with h | h
    · obtain ⟨rfl, rfl, rfl⟩ := Obs.endR.inj h
      exact Or.inr (Or.inr ⟨x, hx, hs, rfl⟩)
    · exact Or.inl h
  | _ => exact Or.inl (by simpa using h)

/-- The read `r` has been looked up, and is to end with `v`. -/
structure ReadsAs (r : ℕ) (v : Option α) (k : Core α) : Prop where
  made : r < k.reads.next
  hook : ∀ x, k.reads.get r = some x →
    k.phys.read x.pbid = v ∧ (x.served = none ∨ x.served = some v)
  ends : ∀ u ok, .endR r u ok ∈ k.hist → u = v ∧ ok = true

theorem ReadsAs.move (geo : Geom c) (B : Base c k) (V : VictimInv c 0 k) (P : Payload c k) {r : ℕ}
    {v : Option α} (a : ReadsAs r v k) (hf : l ≠ .fault) (hm : Move c k l k') : ReadsAs r v k' := by
  refine ⟨a.made.trans_le ?_, fun w hw => ?_, fun u ok hu => ?_⟩
  · cases hm with
    | readMiss | readHit => simp
    | serve | serveFail => simp
    | endRead => simp
    | _ => exact le_rfl
  · rcases hm.hook hf hw with ⟨x, hx, hp, -, hs⟩ | ⟨h, -⟩
    · obtain ⟨hv, hserved⟩ := a.hook x hx
      obtain ⟨hc, hne⟩ := P.reads r x hx
      have hkeep : k'.phys.read w.pbid = k.phys.read x.pbid := by
        rw [hp]
        exact congrArg (Option.map Prod.fst) (V.content geo B hm hc hne fun h =>
          absurd rfl (h.reads r x hx))
      refine ⟨hkeep.trans hv, ?_⟩
      rcases hs with hs | ⟨-, hs⟩
      · rwa [hs]
      · rw [hs, ← Phys.read_ne_none hne, hv]
        exact Or.inr rfl
    · exact absurd a.made (by omega)
  · rcases hm.endR hf hu with h | h | ⟨x, hx, hs, rfl⟩
    · exact a.ends u ok h
    · exact absurd a.made (by omega)
    · obtain ⟨hv, h | h⟩ := a.hook x hx
      · rw [hs] at h
        cases h
      · rw [hs] at h
        cases h
        refine ⟨rfl, ?_⟩
        rw [← hv, Phys.read_ne_none (P.reads r x hx).2 default]
        rfl

omit [Inhabited α] in
/-- The read that is submitted in `s`, right after it. -/
theorem ReadsAs.submit (a : ReadsKnown s.core) (b : ℕ) :
    ReadsAs s.reads.next (s.contents b) (submitReadIo c s b).core := by
  have hnew : ∀ {v ok}, .endR s.reads.next v ok ∉ s.hist := fun h => (a _ _ _ h).false
  unfold submitReadIo
  cases hb : s.mapping b with
  | none =>
    have hcont : s.contents b = none := by
      change (s.mapping b).bind s.phys.read = none
      rw [hb]
      rfl
    rw [hcont]
    refine ⟨?_, fun x hx => ?_, fun u ok h => ?_⟩
    · change s.reads.next < s.reads.burn.next
      rw [Heap.next_burn]
      exact Nat.lt_succ_self _
    · change s.reads.burn.get s.reads.next = some x at hx
      rw [Heap.get_burn, Heap.get_eq_none_of_next_le le_rfl] at hx
      cases hx
    · have h : Obs.endR s.reads.next u ok ∈ .endR s.reads.next none true ::
        .submitR s.reads.next b :: s.hist := h
      rcases List.mem_cons.mp h with h | h
      · exact (Obs.endR.inj h).2
      · exact absurd (List.mem_of_ne_of_mem (by rintro ⟨⟩) h) hnew
  | some p =>
    have hcont : s.contents b = s.phys.read p := by
      change (s.mapping b).bind s.phys.read = s.phys.read p
      rw [hb]
      rfl
    refine ⟨?_, fun x hx => ?_, fun u ok h => ?_⟩
    · change s.reads.next < (s.reads.alloc _).next
      rw [Heap.next_alloc]
      exact Nat.lt_succ_self _
    · change (s.reads.alloc _).get s.reads.next = some x at hx
      rw [Heap.get_alloc, if_pos rfl] at hx
      cases hx
      exact ⟨hcont.symm, Or.inl rfl⟩
    · have h : Obs.endR s.reads.next u ok ∈ .submitR s.reads.next b :: s.hist := h
      exact absurd (List.mem_of_ne_of_mem (by rintro ⟨⟩) h) hnew

/-- What the device holds for the reads, in a run. -/
theorem reads_run (he : EmptyReport o report) (h0 : initSys o report = some s₀)
    (hrun : Runs (stepRel (step (confOf o report))) (fun s e => e.NoError ∧ e.NoCarry s) s₀ s) :
    Sound (confOf o report) (fun k => (VictimInv (confOf o report) 0 k ∧
      Payload (confOf o report) k) ∧ ReadsKnown k) s := by
  have geo := geom_of_empty he (initSys_eq h0).1
  obtain ⟨⟨hf, d, hd, hB, hI⟩, -⟩ := storeInv_start he h0
  have hknown : ReadsKnown ({ s₀.core with phys := d } : Core α) := fun r v ok h => by
    obtain ⟨-, m, -, rfl⟩ := initSys_eq h0
    cases h
  exact Sound.uncarried geo
    (fun _ _ _ hB a hf hl hm => ⟨⟨a.1.1.move geo hB hf hm hl, a.1.2.move geo hB a.1.1 hf hm⟩,
      a.2.move hm⟩) hrun
    ⟨hf, d, hd, hB, ⟨hI.victim, hI.data⟩, hknown⟩

/-- **What a read returns** is what the device held for its block when it was submitted, whatever is
written, moved or reset before it ends. -/
theorem read_current {b : ℕ} (he : EmptyReport o report) (h0 : initSys o report = some s₀)
    (hrun : Runs (stepRel (step (confOf o report))) (fun s e => e.NoError ∧ e.NoCarry s) s₀ s)
    (hs : step (confOf o report) s (.submitRead b) = some s₁)
    (hrun' : Runs (stepRel (step (confOf o report))) (fun s e => e.NoError ∧ e.NoCarry s) s₁ s')
    {v : Option α} {ok : Bool} (hend : .endR s.reads.next v ok ∈ s'.hist) :
    v = s.contents b ∧ ok = true := by
  have geo := geom_of_empty he (initSys_eq h0).1
  obtain ⟨-, d, hd, -, -, hknown⟩ := reads_run he h0 hrun
  obtain ⟨hf, d₁, hd₁, hB₁, ⟨V, P⟩, -⟩ :=
    reads_run he h0 (hrun.tail (e := .submitRead b) ⟨trivial, trivial⟩ hs)
  have hb : s.bug = none ∧ s₁ = submitReadIo (confOf o report) s b := by
    rw [step] at hs
    split_ifs at hs with h
    exact ⟨h.1, (Option.some.inj hs).symm⟩
  have hb₁ : s₁.bug = none := by
    rw [hb.2, submitReadIo]
    split <;> exact hb.1
  cases hd (by rw [hb.1]; rintro ⟨⟩)
  cases hd₁ (by rw [hb₁]; rintro ⟨⟩)
  have hstart : ReadsAs s.reads.next (s.contents b) s₁.core := by
    rw [hb.2]
    exact .submit hknown b
  obtain ⟨-, d', -, -, -, h⟩ := Sound.uncarried (c := confOf o report)
    (I := fun k => (VictimInv (confOf o report) 0 k ∧ Payload (confOf o report) k) ∧
      ReadsAs s.reads.next (s.contents b) k) geo
    (fun _ _ _ hB a hf hl hm => ⟨⟨a.1.1.move geo hB hf hm hl, a.1.2.move geo hB a.1.1 hf hm⟩,
      a.2.move geo hB a.1.1 a.1.2 hf hm⟩) hrun' ⟨hf, _, fun _ => rfl, hB₁, ⟨V, P⟩, hstart⟩
  exact h.ends v ok hend

/-- Block 1536 is read at block 0 of the device, while a gc task moves it to block 7. -/
theorem read_current_moved : ∃ s s' : Sys ℕ, s.contents 1536 = some 7 ∧ s'.mapping 1536 = some 7 ∧
    (∃ v ok, .endR s.reads.next v ok ∈ s'.hist) ∧
    ∀ v ok, .endR s.reads.next v ok ∈ s'.hist → v = s.contents 1536 ∧ ok = true := by
  have he : EmptyReport pairOptions (emptyReport 4 16 16) :=
    emptyReport_ok pairOptions 4 16 (by decide) (by decide) (by decide)
  obtain ⟨s, hrun, h⟩ := exists_run (step pairConf) (fun s e => e.NoError ∧ e.NoCarry s)
    (fun s => decide (s.contents 1536 = some 7) && (step pairConf s (.submitRead 1536)).any fun s₁ =>
      (exec (step pairConf) (fun s e => e.NoError ∧ e.NoCarry s) s₁
        (pairGc ++ ([.devAppend 8 1, .gcWriteEnd 8, .gcEnd 8, .devRead 0 true, .readEnd 0] :
          List (Event ℕ)))).any fun s' : Sys ℕ => decide (s'.mapping 1536 = some 7 ∧
            .endR s.reads.next (some 7) true ∈ s'.hist))
    pairStart pairWrites (by decide +kernel)
  rw [Bool.and_eq_true] at h
  obtain ⟨s₁, hs, h2⟩ := (Option.any_eq_true _ _).mp h.2
  obtain ⟨s', hs', h3⟩ := (Option.any_eq_true _ _).mp h2
  obtain ⟨hmap, hend⟩ := of_decide_eq_true h3
  exact ⟨s, s', of_decide_eq_true h.1, hmap, ⟨_, _, hend⟩, fun v ok =>
    read_current he (Option.some_get _).symm hrun hs (runs_of_exec hs')⟩

/-! ## The store that the history tells of -/

/-- The end of a write puts its payload at its block. -/
def Obs.op : Obs α → Option (StoreOp ℕ α)
  | .stored _ b _ d => some (.put b d)
  | _ => none

/-- The store as the ends of writes tell of it. -/
def storeTold (hist : List (Obs α)) : ℕ → Option α := replay (hist.filterMap Obs.op) fun _ => none

theorem Move.told (hm : Move c k l k') (hl : ∀ b, l ≠ .discard b) :
    storeTold k'.hist = replay (k.ops l) (storeTold k.hist) := by
  cases hm with
  | apply hx =>
    rw [Core.ops, hx]
    rfl
  | discard => exact absurd rfl (hl _)
  | _ => rfl

/-- **Without discards the device holds what the ends of writes tell of.** -/
theorem store_told (he : EmptyReport o report) (h0 : initSys o report = some s₀)
    (hrun : Runs (stepRel (step (confOf o report)))
      (fun s e => e.NoError ∧ e.NoCarry s ∧ e.discards = false) s₀ s)
    (hb : s.bug = none) : s.contents = storeTold s.hist := by
  have geo := geom_of_empty he (initSys_eq h0).1
  obtain ⟨⟨hf, d, hd, hB, hI⟩, hempty⟩ := storeInv_start he h0
  have hstart : ({ s₀.core with phys := d } : Core α).contents = storeTold s₀.hist := by
    obtain ⟨-, m, -, rfl⟩ := initSys_eq h0
    rfl
  have hmove : ∀ (k : Core α) l k', Base (confOf o report) k →
      (StoreInv (confOf o report) k ∧ k.contents = storeTold k.hist) → l ≠ .fault → l ≠ .stale →
      (∀ b, l ≠ .discard b) → Move (confOf o report) k l k' →
      StoreInv (confOf o report) k' ∧ k'.contents = storeTold k'.hist := by
    intro k l k' hB a hf hst hl hm
    have hpast : FreesNoPast k l := by
      cases l with
      | discard b => exact absurd rfl (hl b)
      | _ => trivial
    refine ⟨a.1.move geo hB hf hst hpast hm, ?_⟩
    rw [a.1.data.contents_move geo hB a.1.victim hf hm a.1.past, a.2, hm.told hl]
  exact (Sound.base (Sound.undiscarded geo hmove hrun ⟨hf, d, hd, hB, hI, hstart⟩) hb).2.2.2

/-! ## The stories of writes -/

/-- The story of the write `t` of the payloads `d :: more` to block `b`. -/
inductive UserStory (t b : ℕ) (d : α) (more : List α) : List (Obs α) → Prop
  | new : UserStory t b d more [.submitW t b d more]
  | entered : UserStory t b d more [.insert t, .submitW t b d more]
  | refused : UserStory t b d more [.endW t false, .erase t, .insert t, .submitW t b d more]
  | wrote (flag : AllocFlag) : UserStory t b d more (wroteStory t b d more flag)
  | ended {l : List (Obs α)} (h : EndedStory t b d more l) : UserStory t b d more l
  | left {l : List (Obs α)} (h : EndedStory t b d more l) : UserStory t b d more (.erase t :: l)

/-- `o` is about the submission, the storing or the end of a write. -/
def Obs.ofWrite : Obs α → Bool
  | .submitW _ _ _ _ | .stored _ _ _ _ | .endW _ _ => true
  | _ => false

omit [Inhabited α] in
theorem Over.userStory {t : ℕ} {l : List (Obs α)} (h : Over t l) {ob : Obs α}
    (hw : ob.ofWrite = true) (hm : ob ∈ l) : ∃ b d more, UserStory t b d more l := by
  have hgc : (∀ o ∈ l, o.ofWrite = false) → ∃ b d more, UserStory t b d more l := fun h' => by
    rw [h' ob hm] at hw
    cases hw
  cases h with
  | write h => exact ⟨_, _, _, .left h⟩
  | refused => exact ⟨_, _, _, .refused⟩
  | moved | skipped | handed | unread =>
    exact hgc (by simp [movedStory, calledStory, enteredStory, Obs.ofWrite])

omit [Inhabited α] in
theorem gcTold_quiet {g : ℕ} {st : TaskStatus} {pc : TaskPc} {l : List (Obs α)}
    (h : gcTold g st pc l) : ∀ o ∈ l, o.ofWrite = false := by
  unfold gcTold at h
  split at h
  · split at h
    all_goals first | subst h | rcases h with rfl | rfl
    all_goals simp [calledStory, enteredStory, Obs.ofWrite]
  · subst h
    simp [enteredStory, Obs.ofWrite]
  · split_ifs at h <;> obtain ⟨flag, rfl⟩ := h <;> simp [movedStory, enteredStory, Obs.ofWrite]

omit [Inhabited α] in
theorem userTold_story {t b : ℕ} {d : α} {more : List α} {st : TaskStatus} {pc : TaskPc}
    {l : List (Obs α)} (h : userTold t b d more st pc l) : UserStory t b d more l := by
  unfold userTold at h
  split at h
  · rw [h]
    exact .new
  · split_ifs at h <;> rw [h]
    · exact .refused
    · exact .entered
  · split_ifs at h
    · obtain ⟨l', h, rfl⟩ := h
      exact .left h
    · exact .ended h
    · obtain ⟨flag, rfl⟩ := h
      exact .wrote flag

omit [Inhabited α] in
/-- What is written down of a write is its story. -/
theorem Stories.ofWrite (a : Stories k) {t : ℕ} {ob : Obs α} (hw : ob.ofWrite = true)
    (ht : ob.task = some t) (h : ob ∈ k.hist) :
    ∃ b d more, UserStory t b d more (story t k.hist) := by
  have hm := (mem_story ht).mp h
  cases hx : k.tasks.get t with
  | none =>
    rcases lt_or_ge t k.tasks.next with hlt | hge
    · exact (a.gone t hlt hx).userStory hw hm
    · rw [a.new t hge] at hm
      cases hm
  | some x =>
    have ht : x.Told t (story t k.hist) := a.live t x hx
    by_cases hty : x.type = .gc
    · rw [Task.told_gc hty] at ht
      rw [gcTold_quiet ht ob hm] at hw
      cases hw
    · exact ⟨_, _, _, userTold_story ((Task.told_user hty).mp ht)⟩

namespace UserStory

variable {t b : ℕ} {d : α} {more : List α} {l : List (Obs α)}

/-- What a story says of the write: its block and payload, and the order of its parts. -/
structure Facts (t b : ℕ) (d : α) (more : List α) (l : List (Obs α)) : Prop where
  submitted : ∀ b' d' more', .submitW t b' d' more' ∈ l → b' = b ∧ d' = d ∧ more' = more
  stored : ∀ b' p d', .stored t b' p d' ∈ l → b' = b ∧ d' = d
  entered : .submitW t b d more ∈ l
  ended : .endW t true ∈ l → ∃ p, .stored t b p d ∈ l
  /-- newest first -/
  order : l.Pairwise fun o o' => (o.ofWrite = true → ∀ ok, o' ≠ .endW t ok) ∧
    ((∃ b d more, o = .submitW t b d more) → ∀ b p d, o' ≠ .stored t b p d)

omit [Inhabited α] in
theorem facts (h : UserStory t b d more l) : Facts t b d more l := by
  cases h with
  | ended h =>
    obtain ⟨flag, ⟨p, rfl⟩ | rfl⟩ := h <;>
      constructor <;> simp +contextual [wroteStory, Obs.ofWrite]
  | left h =>
    obtain ⟨flag, ⟨p, rfl⟩ | rfl⟩ := h <;>
      constructor <;> simp +contextual [wroteStory, Obs.ofWrite]
  | _ => constructor <;> simp +contextual [wroteStory, Obs.ofWrite]

end UserStory

/-! ## A write that is read -/

/-- The write `w` of payload `d` to block `b` has been submitted, and no other write of the block
has been about since. -/
def SoleWriter (w b : ℕ) (d : α) (hist : List (Obs α)) : Prop :=
  ∃ new old more, hist = new ++ .submitW w b d more :: old ∧
    ∀ w' d' more', w' ≠ w → .submitW w' b d' more' ∈ hist → ∃ ok, .endW w' ok ∈ old

omit [Inhabited α] in
/-- What was put at `b` after the submission of a sole writer is what it has put. -/
theorem SoleWriter.stored {w b : ℕ} {d : α} (S : Stories k) {new old : List (Obs α)}
    {more : List α} (hk : k.hist = new ++ .submitW w b d more :: old)
    (hsole : ∀ w' d' more', w' ≠ w → .submitW w' b d' more' ∈ k.hist → ∃ ok, .endW w' ok ∈ old)
    {w' p : ℕ} {d' : α} (hput : .stored w' b p d' ∈ new) : d' = d := by
  have hput' : .stored w' b p d' ∈ k.hist := hk ▸ List.mem_append_left _ hput
  obtain ⟨b₁, d₁, more₁, h₁⟩ := S.ofWrite rfl rfl hput'
  have hf := h₁.facts
  obtain ⟨rfl, rfl⟩ := hf.stored _ _ _ ((mem_story rfl).mp hput')
  by_cases e : w' = w
  · subst e
    have hsub : .submitW w' b d more ∈ k.hist := by
      rw [hk]
      exact List.mem_append_right _ List.mem_cons_self
    exact (hf.submitted _ _ _ ((mem_story rfl).mp hsub)).2.1.symm
  · -- the other write had ended before, and is not stored after its end
    obtain ⟨ok, hend⟩ := hsole w' d' more₁ e ((mem_story rfl).mpr hf.entered)
    have horder := hf.order
    rw [hk, story_append] at horder
    have hpair := (List.pairwise_append.mp horder).2.2 _ ((mem_story rfl).mp hput) _
      ((mem_story rfl).mp (List.mem_cons_of_mem _ hend))
    exact absurd rfl (hpair.1 rfl ok)

omit [Inhabited α] in
/-- A write that has ended with success has been stored after its submission. -/
theorem Stories.stored_after (S : Stories k) {w b : ℕ} {d : α} {new old : List (Obs α)}
    {more : List α} (hk : k.hist = new ++ .submitW w b d more :: old)
    (hw : .endW w true ∈ k.hist) : ∃ p, .stored w b p d ∈ new := by
  have hsub : .submitW w b d more ∈ k.hist := by
    rw [hk]
    exact List.mem_append_right _ List.mem_cons_self
  obtain ⟨b₁, d₁, more₁, h₁⟩ := S.ofWrite rfl rfl hw
  have hf := h₁.facts
  obtain ⟨rfl, rfl, rfl⟩ := hf.submitted _ _ _ ((mem_story rfl).mp hsub)
  obtain ⟨p, hp⟩ := hf.ended ((mem_story rfl).mp hw)
  refine ⟨p, ?_⟩
  have hp' := (mem_story rfl).mpr hp
  rw [hk] at hp'
  rcases List.mem_append.mp hp' with h | h
  · exact h
  · have h := List.mem_of_ne_of_mem (by rintro ⟨⟩) h
    have horder := hf.order
    rw [hk, story_append] at horder
    have hpair := (List.pairwise_append.mp horder).2.1
    rw [story, List.filter_cons_of_pos (by simp [Obs.task])] at hpair
    exact absurd rfl
      ((List.pairwise_cons.mp hpair).1 _ ((mem_story rfl).mp h) |>.2 ⟨_, _, _, rfl⟩ _ _ _)

/-- **A write that has ended is read.** Where no other write of the block has been about between the
submission of the write and that of the read, and no block has been discarded, the read returns the
payload of the write, whatever is moved and reset meanwhile. -/
theorem read_your_write {w b : ℕ} {d : α} (he : EmptyReport o report)
    (h0 : initSys o report = some s₀)
    (hrun : Runs (stepRel (step (confOf o report)))
      (fun s e => e.NoError ∧ e.NoCarry s ∧ e.discards = false) s₀ s)
    (hw : .endW w true ∈ s.hist) (hsole : SoleWriter w b d s.hist)
    (hs : step (confOf o report) s (.submitRead b) = some s₁)
    (hrun' : Runs (stepRel (step (confOf o report))) (fun s e => e.NoError ∧ e.NoCarry s) s₁ s')
    {v : Option α} {ok : Bool} (hend : .endR s.reads.next v ok ∈ s'.hist) :
    v = some d ∧ ok = true := by
  have geo := geom_of_empty he (initSys_eq h0).1
  have hb : s.bug = none := bug_of_step hs
  have hS : Stories s.core := by
    have hstart : Sound (confOf o report) Stories s₀ := sound_of_empty he h0 (by
      obtain ⟨-, m, -, rfl⟩ := initSys_eq h0
      exact StoryInv.empty)
    obtain ⟨-, d', hd', -, h⟩ := Sound.run (fun _ _ => True) (fun _ _ => True) geo.pos
      (fun _ _ _ hB a _ _ hm => Stories.move hB.tasks hB.queues a hm) (fun _ _ _ _ _ _ _ _ => trivial)
      (hrun.mono fun _ _ h => ⟨h.1, trivial⟩) hstart
    exact h
  obtain ⟨hv, hok⟩ := read_current he h0 (hrun.mono fun _ _ h => ⟨h.1, h.2.1⟩) hs hrun' hend
  refine ⟨?_, hok⟩
  rw [hv, store_told he h0 hrun hb]
  obtain ⟨new, old, more, hk, hothers⟩ := hsole
  obtain ⟨p, hp⟩ := hS.stored_after hk hw
  rw [storeTold, hk, List.filterMap_append, replay_append]
  refine replay_of_forall (fun op hop hkey => ?_) ⟨.put b d, List.mem_filterMap.mpr ⟨_, hp, rfl⟩, rfl⟩
  obtain ⟨ob, hob, hput⟩ := List.mem_filterMap.mp hop
  cases ob with
  | stored w' b' p' d' =>
    cases hput
    cases hkey
    exact congrArg some (SoleWriter.stored hS hk hothers hob)
  | _ => cases hput

/-- Zone 0 holds nothing any more, and blocks 0 and 1 are in zone 1. -/
def emptiedDevice : Sys ℕ :=
  (exec (step (confOf smallOptions (emptyReport 4 16 16)))
    (fun s e => e.NoError ∧ e.NoCarry s ∧ e.discards = false)
    ((initSys smallOptions (emptyReport 4 16 16)).get (by decide +kernel)) emptiedZone).get
    (by decide +kernel)

/-- The write 2 of block 0, which the write 0 has written before it. -/
theorem emptiedDevice_sole : SoleWriter 2 0 8 emptiedDevice.hist := by
  let n := emptiedDevice.hist.findIdx (· == .submitW 2 0 8)
  have hold : emptiedDevice.hist.all (fun
      | .submitW w' 0 _ _ => w' == 2 || decide (.endW w' true ∈ emptiedDevice.hist.drop (n + 1))
      | _ => true) = true := by decide +kernel
  refine ⟨emptiedDevice.hist.take n, emptiedDevice.hist.drop (n + 1), [], by decide +kernel,
    fun w' d' more' hne h => ⟨true, ?_⟩⟩
  have := List.all_eq_true.mp hold _ h
  simpa [hne] using this

/-- Block 0 is read while zone 0 is reset. -/
theorem read_your_write_reset : ∃ s' : Sys ℕ, (∃ v ok, .endR 0 v ok ∈ s'.hist) ∧
    (s'.zmd.zones 0).flags .gc = false ∧
    ∀ v ok, .endR 0 v ok ∈ s'.hist → v = some 8 ∧ ok = true := by
  let conf := confOf smallOptions (emptyReport 4 16 16)
  let s₀ : Sys ℕ := (initSys smallOptions (emptyReport 4 16 16)).get (by decide +kernel)
  have hrun : Runs (stepRel (step conf)) (fun s e => e.NoError ∧ e.NoCarry s ∧ e.discards = false)
      s₀ emptiedDevice :=
    runs_of_exec (Option.some_get (by decide +kernel)).symm
  have hs : step conf emptiedDevice (.submitRead 0) =
      some (after conf emptiedDevice (.submitRead 0)) :=
    if_pos (by decide +kernel)
  obtain ⟨s', hrun', h⟩ := exists_run (step conf) (fun s e => e.NoError ∧ e.NoCarry s)
    (fun s => decide ((.endR 0 (some 8) true : Obs ℕ) ∈ s.hist ∧
      (s.zmd.zones 0).flags .gc = false))
    (after conf emptiedDevice (.submitRead 0)) [.wkStep true, .wkStep true, .devRead 0 true,
      .readEnd 0] (by decide +kernel)
  obtain ⟨hend, hgc⟩ := of_decide_eq_true h
  have hnext : emptiedDevice.reads.next = 0 := by decide +kernel
  refine ⟨s', ⟨_, _, hend⟩, hgc, fun v ok hv => ?_⟩
  rw [← hnext] at hv
  exact read_your_write smallOptions_empty (Option.some_get _).symm hrun (by decide +kernel)
    emptiedDevice_sole hs hrun' hv

end Lbz
