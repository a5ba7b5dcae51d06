import Lbz.Request
import Lbz.Stored

/-!
# The two ways of a write through `lbz_dev_submit_bio`

A bio has a list of payloads, one a block.

* `splitBio`: the loop that splits a bio; `splitBio_blocks`: these are the parts of `Request`;
* `devSubmitBio`: the bios that `lbz_dev_submit_bio` hands to the scheduler, on each of its ways, and
  whether it frees the queued blocks before the bio ends;
* `Served`: they have become tasks, each of these has ended with success, and then the bio;
  `effect`: what has been done by then, read off the device and the mapping;
* **`flush_agrees_iff`**: a flush of the checkpoint does what a plain write does, exactly if it is of
  one block, the device is ready, and the flush does not free that block itself.
-/

namespace Lbz

variable {β : Type}

/-- The loop of `lbz_dev_submit_bio`: as long as the bio is longer than a block, its first block is
split off. -/
def splitBio : ℕ → List β → List (ℕ × List β)
  | blkid, d :: e :: l => (blkid, [d]) :: splitBio (blkid + 1) (e :: l)
  | blkid, l => [(blkid, l)]

/-- What `lbz_dev_submit_bio` does with a bio: it hands `calls` to `lbz_submit_io_to_iosched`, one
after the other; if it `waits`, it calls `lbz_nat_sit_tx_complete` when they have ended with success,
and only then ends the bio (`__lbz_submit_flush_bio_wait`). -/
structure BioPath (β : Type) where
  calls : List (ℕ × List β)
  waits : Bool
deriving DecidableEq, Repr

/-- `lbz_dev_submit_bio` of a bio with the blocks `data` from `blkid` on; if it hands over nothing,
the bio ends at once, with success. -/
def devSubmitBio {α : Type} (c : Conf) (s : Sys α) (flush : Bool) (blkid : ℕ) (data : List β) :
    BioPath β :=
  if data = [] then ⟨[], false⟩
  else if Whole c s blkid flush then ⟨[(blkid, data)], c.freeSupport⟩
  else if s.faulty ∨ ¬ s.ready then ⟨[], false⟩
  else ⟨splitBio blkid data, false⟩

theorem splitBio_cons (blkid : ℕ) (d : β) {l : List β} (h : l ≠ []) :
    splitBio blkid (d :: l) = (blkid, [d]) :: splitBio (blkid + 1) l := by
  cases l with
  | nil => exact absurd rfl h
  | cons e l => rfl

theorem splitBio_length (blkid : ℕ) {data : List β} (h : data ≠ []) :
    (splitBio blkid data).length = data.length := by
  induction data generalizing blkid with
  | nil => exact absurd rfl h
  | cons d l ih =>
    by_cases hl : l = []
    · subst hl
      rfl
    · rw [splitBio_cons blkid d hl, List.length_cons, ih _ hl, List.length_cons]

/-- The parts of a bio on a device that is ready are those that its context counts. -/
theorem splitBio_blocks (blkid : ℕ) {data : List β} (h : data ≠ []) :
    (splitBio blkid data).map (fun p => (maxSectors * p.1, maxSectors * p.2.length)) =
      blocksFrom (maxSectors * blkid) data.length := by
  induction data generalizing blkid with
  | nil => exact absurd rfl h
  | cons d l ih =>
    by_cases hl : l = []
    · subst hl
      rfl
    · rw [splitBio_cons blkid d hl, List.map_cons, ih _ hl, blocksFrom, blocksFrom,
        show (d :: l).length = l.length + 1 from rfl, List.range_succ_eq_map, List.map_cons,
        List.map_map]
      refine congrArg₂ _ rfl (List.map_congr_left fun i _ => ?_)
      simp only [Function.comp_apply, Prod.mk.injEq, and_true, Nat.succ_eq_add_one]
      ring

/-! ## Both ways -/

variable [Inhabited β]

/-- The bio that takes `path`, submitted in `s`, has ended with success in `s'`: its calls have become
the tasks `ts`, which have all ended with success before `u`. -/
structure Served (c : Conf) (s : Sys β) (path : BioPath β) (ts : List ℕ) (u s' : Sys β) : Prop where
  run : Runs (stepRel (step c)) (fun _ _ => True) s u
  tasks : List.Forall₂ (fun call t => s.tasks.next ≤ t ∧ (∃ d more, call.2 = d :: more ∧
    .submitW t call.1 d more ∈ u.hist) ∧ .endW t true ∈ u.hist) path.calls ts
  ended : if path.waits then step c u .txComplete = some s' else s' = u
  alive : s'.bug = none

/-- What has been done for a bio when it ends. -/
structure Effect (β : Type) where
  /-- the blocks remapped, with what is read back from them -/
  remapped : Set (ℕ × Option β)
  /-- the blocks allocated in zones -/
  allocated : ℕ
  /-- the blocks appended by the device -/
  appended : ℕ∞

/-- The effect of the tasks `ts`, made since `s`, when they have ended in `u` and the bio ends in
`s'`. A block that is mapped in `u` and no longer in `s'` has been freed by the bio itself. -/
noncomputable def effect (c : Conf) (s u s' : Sys β) (ts : List ℕ) : Effect β :=
  { remapped := {q | (∃ t ∈ ts, HasStored c s u t q.1 q.2) ∧
      ¬ (u.mapping q.1 ≠ none ∧ s'.mapping q.1 = none)}
    allocated := (ts.map fun t => (story t u.hist).countP Obs.isAlloc).sum
    appended := (ts.map fun t => (appendedBy c s u t).encard).sum }

/-- The flush of the `n` blocks from `blkid` on has done what the plain write has. -/
structure PathsAgree (blkid n : ℕ) (flush plain : Effect β) : Prop where
  remapped : flush.remapped = plain.remapped
  allocated : flush.allocated = plain.allocated
  mapped : ∀ i < n, ∃ d, (blkid + i, d) ∈ flush.remapped
  appended : (flush.allocated : ℕ∞) = flush.appended

variable {o : Options} {report : List BlkZone} {cap : ℕ} {c : Conf} {s₀ s u s' : Sys β}
  {path : BioPath β} {ts : List ℕ}

/-- What the tasks do that have served `calls`. -/
theorem calls_effect {calls : List (ℕ × List β)} (h : List.Forall₂ (fun call t =>
      (∀ b d, HasStored c s u t b d ↔ (b, d) = (call.1, call.2.head?)) ∧
      (story t u.hist).countP Obs.isAlloc = 1 ∧ (appendedBy c s u t).encard = call.2.length)
      calls ts) :
    (∀ q : ℕ × Option β, (∃ t ∈ ts, HasStored c s u t q.1 q.2) ↔
      ∃ call ∈ calls, q = (call.1, call.2.head?)) ∧
    (ts.map fun t => (story t u.hist).countP Obs.isAlloc).sum = calls.length ∧
    (ts.map fun t => (appendedBy c s u t).encard).sum =
      ((calls.map fun call => call.2.length).sum : ℕ) := by
  induction h with
  | nil => simp
  | cons ht _ ih =>
    obtain ⟨ih1, ih2, ih3⟩ := ih
    refine ⟨fun q => ?_, ?_, ?_⟩
    · simp only [List.mem_cons, exists_eq_or_imp, ih1, ht.1]
    · rw [List.map_cons, List.sum_cons, ih2, ht.2.1, List.length_cons, Nat.add_comm]
    · rw [List.map_cons, List.sum_cons, ih3, ht.2.2, List.map_cons, List.sum_cons]
      push_cast
      rfl

/-- What the calls of a bio do, if all of them succeed and it ends from `u` on. -/
def pathEffect (path : BioPath β) (u : Sys β) : Effect β :=
  { remapped := {q | (∃ call ∈ path.calls, q = (call.1, call.2.head?)) ∧
      ¬ (path.waits ∧ u.mapping q.1 ≠ none ∧ q.1 ∈ u.natSit.toFree)}
    allocated := path.calls.length
    appended := ((path.calls.map fun call => call.2.length).sum : ℕ) }

omit [Inhabited β] in
theorem stories_initSys (h0 : initSys o report = some s₀) (hu : OneCapacity report cap) :
    Kept (confOf o report) Stories s₀ := by
  obtain ⟨-, hB⟩ := base_of_capacity hu h0
  refine ⟨_, ⟨hB, ?_⟩, rfl, fun _ => rfl⟩
  obtain ⟨-, m, -, rfl⟩ := initSys_eq h0
  exact StoryInv.empty

namespace Served

theorem before (h : Served c s path ts u s') : u.bug = none := by
  have he := h.ended
  split_ifs at he
  · exact step_alive he
  · exact he ▸ h.alive

/-- What the bio itself frees are the queued blocks. -/
theorem freed (h : Served c s path ts u s') (b : ℕ) : (u.mapping b ≠ none ∧ s'.mapping b = none) ↔
    path.waits = true ∧ u.mapping b ≠ none ∧ b ∈ u.natSit.toFree := by
  have he := h.ended
  split_ifs at he with hw
  · rw [hw, and_iff_right rfl]
    refine and_congr_right fun hm => ?_
    rw [step] at he
    split_ifs at he
    have hs' : natSitTxComplete c u = s' := Option.some.inj he
    rw [← hs', natSitTxComplete_mapping (by rw [hs']; exact h.alive)]
    split_ifs with hb
    · exact iff_of_true rfl hb
    · exact iff_of_false hm hb
  · rw [he]
    exact iff_of_false (fun h => h.1 h.2) fun h => hw h.1

/-- What the tasks of a bio that has ended with success have done. -/
theorem calls (hN : 0 < c.zoneNrBlocks) (K : Kept c Stories s) (h : Served c s path ts u s') :
    (∀ q : ℕ × Option β, (∃ t ∈ ts, HasStored c s u t q.1 q.2) ↔
      ∃ call ∈ path.calls, q = (call.1, call.2.head?)) ∧
    (ts.map fun t => (story t u.hist).countP Obs.isAlloc).sum = path.calls.length ∧
    (ts.map fun t => (appendedBy c s u t).encard).sum =
      ((path.calls.map fun call => call.2.length).sum : ℕ) := by
  have hb := h.before
  obtain ⟨hB, hS⟩ := (kept_stories hN K h.run).core hb
  refine calls_effect (h.tasks.imp fun call t ⟨ht, ⟨d, more, hcall, hs⟩, he⟩ => ?_)
  obtain ⟨p, hp⟩ := hS.acked hB.tasks hs he
  refine ⟨fun b' d' => ?_, hp.isAlloc, ?_⟩
  · rw [hasStored_iff hN K h.run hb hs he ht, hcall, List.head?_cons, Prod.mk.injEq]
  · rw [appendedBy_encard hN K h.run hb hs he ht, hcall, List.length_cons]
    push_cast
    rfl

/-- **What a bio that has ended with success has done** is what its calls ask for, less what it frees
itself. -/
theorem effect (hN : 0 < c.zoneNrBlocks) (K : Kept c Stories s) (h : Served c s path ts u s') :
    effect c s u s' ts = pathEffect path u := by
  obtain ⟨hr, ha, hl⟩ := h.calls hN K
  rw [Lbz.effect, pathEffect, ha, hl]
  simp only [hr, h.freed]

end Served

/-- **The flush path agrees with the plain path exactly for one block on a ready device**, unless the
flush frees this block itself when it calls `lbz_nat_sit_tx_complete`, in `u₁`. -/
theorem flush_agrees_iff {u₁ s₁ u₂ s₂ : Sys β} {blkid : ℕ} {data : List β} {ts₁ ts₂ : List ℕ}
    (hu : OneCapacity report cap) (hnat : o.natSit = true) (h0 : initSys o report = some s₀)
    (hrun : Runs (stepRel (step (confOf o report))) (fun _ _ => True) s₀ s)
    (hcp : s.natSit.isCpBlock blkid = true) (hdata : 1 ≤ data.length)
    (h₁ : Served (confOf o report) s (devSubmitBio (confOf o report) s true blkid data) ts₁ u₁ s₁)
    (h₂ : Served (confOf o report) s (devSubmitBio (confOf o report) s false blkid data) ts₂ u₂ s₂) :
    PathsAgree blkid data.length (effect (confOf o report) s u₁ s₁ ts₁)
        (effect (confOf o report) s u₂ s₂ ts₂) ↔
      data.length = 1 ∧ s.ready = true ∧ s.faulty = false ∧
        ¬ (o.freeSupport = true ∧ u₁.mapping blkid ≠ none ∧ blkid ∈ u₁.natSit.toFree) := by
  have hne : data ≠ [] := List.ne_nil_of_length_pos hdata
  obtain ⟨hN, -⟩ := base_of_capacity hu h0
  have K := kept_stories hN (stories_initSys h0 hu) hrun
  rw [h₁.effect hN K, h₂.effect hN K]
  have hflush :
      devSubmitBio (confOf o report) s true blkid data = ⟨[(blkid, data)], o.freeSupport⟩ := by
    rw [devSubmitBio, if_neg hne, if_pos ⟨rfl, hnat, hcp⟩]
    rfl
  have hplain : devSubmitBio (confOf o report) s false blkid data =
      if s.faulty ∨ ¬ s.ready then ⟨[], false⟩ else ⟨splitBio blkid data, false⟩ := by
    rw [devSubmitBio, if_neg hne, if_neg fun h => nomatch h.1]
  rw [hflush, hplain]
  constructor
  · intro h
    have hkept : ¬ (o.freeSupport = true ∧ u₁.mapping blkid ≠ none ∧ blkid ∈ u₁.natSit.toFree) := by
      obtain ⟨d, -, hd⟩ := h.mapped 0 hdata
      exact hd
    have ha := h.allocated
    split_ifs at ha with hdown
    · cases ha
    · push Not at hdown
      have hlen : 1 = (splitBio blkid data).length := ha
      rw [splitBio_length _ hne] at hlen
      exact ⟨hlen.symm, hdown.2, Bool.eq_false_of_not_eq_true hdown.1, hkept⟩
  · rintro ⟨hlen, hready, hfaulty, hkept⟩
    obtain ⟨d, rfl⟩ := List.length_eq_one_iff.mp hlen
    rw [if_neg (by rw [hready, hfaulty]; decide)]
    refine ⟨?_, rfl, fun i hi => ⟨some d, ⟨_, List.mem_singleton_self _, ?_⟩, ?_⟩, rfl⟩
    · ext q
      refine and_congr_right fun ⟨call, hcall, hq⟩ => iff_of_true ?_ fun h => Bool.false_ne_true h.1
      cases List.mem_singleton.mp hcall
      rw [hq]
      exact hkept
    · obtain rfl : i = 0 := Nat.lt_one_iff.mp hi
      rfl
    · obtain rfl : i = 0 := Nat.lt_one_iff.mp hi
      exact hkept

/-- Four empty zones of two blocks. -/
def flushOptions : Options := ⟨true, true, true, 16, 4096⟩

def flushConf : Conf := confOf flushOptions (emptyReport 4 16 16)

def flushStart : Sys ℕ := (initSys flushOptions (emptyReport 4 16 16)).get (by decide)

/-- The device has taken a rule that puts the checkpoint in the first 512 blocks. -/
def flushReady : Sys ℕ := installRule flushStart ⟨0, 512, 1024, 1⟩

/-- A write of `d :: more` to block `b`, the only one at a time, as task `t`. -/
def writeEvents {α : Type} (t b : ℕ) (d : α) (flush : Bool) (off : ℕ) (more : List α := []) :
    List (Event α) :=
  [.submitWrite b d flush more, .runWrite t true, .runWrite t true, .devAppend t off, .writeEnd t]

theorem flushStart_eq : initSys flushOptions (emptyReport 4 16 16) = some flushStart :=
  (Option.some_get _).symm

theorem flushStart_capacity : OneCapacity (emptyReport 4 16 16) 16 := ⟨by decide, by decide⟩

theorem flushReady_runs :
    Runs (stepRel (step flushConf)) (fun _ _ => True) flushStart flushReady :=
  Runs.one (e := Event.addRule ⟨0, 512, 1024, 1⟩) trivial rfl

/-- The write `t` of `d :: more` to block `b` has ended with success. -/
def WroteOk (s : Sys ℕ) (t b d : ℕ) (more : List ℕ := []) : Prop :=
  .submitW t b d more ∈ s.hist ∧ .endW t true ∈ s.hist

instance (s : Sys ℕ) (t b d : ℕ) (more : List ℕ) : Decidable (WroteOk s t b d more) := by
  unfold WroteOk
  infer_instance

/-- A bio that is one call, and ends after the events `es`. -/
theorem served_one {c : Conf} {s : Sys ℕ} (t b d : ℕ) (more : List ℕ) (waits : Bool)
    (P : Sys ℕ → Bool) (es : List (Event ℕ)) (ht : s.tasks.next ≤ t)
    (h : (exec (step c) (fun _ _ => True) s es).any (fun u => decide (WroteOk u t b d more) && P u &&
      (if waits then step c u .txComplete else some u).any fun s' => s'.bug.isNone) = true) :
    ∃ u s', Served c s ⟨[(b, d :: more)], waits⟩ [t] u s' ∧ P u = true := by
  obtain ⟨u, hrun, hu⟩ := exists_run (step c) (fun _ _ => True) _ s es h
  simp only [Bool.and_eq_true, decide_eq_true_eq] at hu
  obtain ⟨⟨⟨hs, he⟩, hP⟩, hu⟩ := hu
  obtain ⟨s', hs', hb⟩ := (Option.any_eq_true _ _).mp hu
  have hs'' : s'.bug = none := Option.isNone_iff_eq_none.mp hb
  refine ⟨u, s', ⟨hrun, .cons ⟨ht, ⟨d, more, rfl, hs⟩, he⟩ .nil, ?_, hs''⟩, hP⟩
  cases waits with
  | true => exact hs'
  | false => exact (Option.some.inj hs').symm

/-- A rule whose pairs reach into the checkpoint, and a write of block 1536, which queues block
1024. -/
def pairEvents : List (Event ℕ) := .addRule ⟨512, 1536, 2560, 1024⟩ :: writeEvents 0 1536 7 false 0

def pairReady : Sys ℕ :=
  (exec (step flushConf) (fun _ _ => True) flushStart pairEvents).get (by decide +kernel)

theorem pairReady_runs : Runs (stepRel (step flushConf)) (fun _ _ => True) flushStart pairReady :=
  runs_of_exec (Option.some_get (by decide +kernel)).symm

/-- The theorem on a flush of one block, and on one that frees its own block. -/
theorem flush_agrees_one :
    (∃ u₁ s₁ u₂ s₂ : Sys ℕ,
      Served flushConf flushReady (devSubmitBio flushConf flushReady true 0 [10]) [0] u₁ s₁ ∧
      Served flushConf flushReady (devSubmitBio flushConf flushReady false 0 [10]) [0] u₂ s₂ ∧
      PathsAgree 0 1 (effect flushConf flushReady u₁ s₁ [0])
        (effect flushConf flushReady u₂ s₂ [0])) ∧
    ∃ u₁ s₁ u₂ s₂ : Sys ℕ,
      Served flushConf pairReady (devSubmitBio flushConf pairReady true 1024 [10]) [1] u₁ s₁ ∧
      Served flushConf pairReady (devSubmitBio flushConf pairReady false 1024 [10]) [1] u₂ s₂ ∧
      ¬ PathsAgree 1024 1 (effect flushConf pairReady u₁ s₁ [1])
        (effect flushConf pairReady u₂ s₂ [1]) := by
  constructor
  · have hflush : devSubmitBio flushConf flushReady true 0 [10] = ⟨[(0, [10])], true⟩ := by decide
    have hplain : devSubmitBio flushConf flushReady false 0 [10] = ⟨[(0, [10])], false⟩ := by decide
    obtain ⟨u₁, s₁, h₁, hP⟩ := served_one (c := flushConf) (s := flushReady)
      0 0 10 [] true (fun u => decide (0 ∉ u.natSit.toFree))
      (writeEvents 0 0 10 true 0) (by decide) (by decide +kernel)
    obtain ⟨u₂, s₂, h₂, -⟩ := served_one (c := flushConf) (s := flushReady)
      0 0 10 [] false (fun _ => true) (writeEvents 0 0 10 false 0)
      (by decide) (by decide +kernel)
    rw [← hflush] at h₁
    rw [← hplain] at h₂
    exact ⟨u₁, s₁, u₂, s₂, h₁, h₂, (flush_agrees_iff flushStart_capacity rfl flushStart_eq
      flushReady_runs (by decide) (by decide) h₁ h₂).mpr
      ⟨rfl, by decide, by decide, fun h => of_decide_eq_true hP h.2.2⟩⟩
  · have hflush : devSubmitBio flushConf pairReady true 1024 [10] = ⟨[(1024, [10])], true⟩ := by
      decide +kernel
    have hplain : devSubmitBio flushConf pairReady false 1024 [10] = ⟨[(1024, [10])], false⟩ := by
      decide +kernel
    obtain ⟨u₁, s₁, h₁, hP⟩ := served_one (c := flushConf) (s := pairReady)
      1 1024 10 [] true
      (fun u => decide (u.mapping 1024 ≠ none ∧ 1024 ∈ u.natSit.toFree))
      (writeEvents 1 1024 10 true 1) (by decide +kernel) (by decide +kernel)
    obtain ⟨u₂, s₂, h₂, -⟩ := served_one (c := flushConf) (s := pairReady)
      1 1024 10 [] false (fun _ => true) (writeEvents 1 1024 10 false 1)
      (by decide +kernel) (by decide +kernel)
    rw [← hflush] at h₁
    rw [← hplain] at h₂
    refine ⟨u₁, s₁, u₂, s₂, h₁, h₂, fun hagree => ?_⟩
    exact ((flush_agrees_iff flushStart_capacity rfl flushStart_eq pairReady_runs
      (by decide +kernel) (by decide) h₁ h₂).mp hagree).2.2.2 ⟨rfl, of_decide_eq_true hP⟩

/-- A flush of two blocks gets one block of a zone, and maps the first of them only. -/
theorem flush_drops_block : ¬ ∀ (o : Options) (report : List BlkZone) (cap : ℕ)
    (s₀ s u₁ s₁ u₂ s₂ : Sys ℕ) (blkid : ℕ) (data ts₁ ts₂ : List ℕ),
    OneCapacity report cap → o.natSit = true → initSys o report = some s₀ →
    Runs (stepRel (step (confOf o report))) (fun _ _ => True) s₀ s →
    s.natSit.isCpBlock blkid = true → 1 ≤ data.length →
    Served (confOf o report) s (devSubmitBio (confOf o report) s true blkid data) ts₁ u₁ s₁ →
    Served (confOf o report) s (devSubmitBio (confOf o report) s false blkid data) ts₂ u₂ s₂ →
    PathsAgree blkid data.length (effect (confOf o report) s u₁ s₁ ts₁)
      (effect (confOf o report) s u₂ s₂ ts₂) := by
  intro h
  have hflush : devSubmitBio flushConf flushReady true 0 [10, 11] = ⟨[(0, [10, 11])], true⟩ := by
    decide
  have hplain : devSubmitBio flushConf flushReady false 0 [10, 11] =
      ⟨[(0, [10]), (1, [11])], false⟩ := by decide
  obtain ⟨u₁, s₁, h₁, -⟩ := served_one (c := flushConf) (s := flushReady)
    0 0 10 [11] true (fun _ => true) (writeEvents 0 0 10 true 0 [11])
    (by decide) (by decide +kernel)
  rw [← hflush] at h₁
  obtain ⟨u₂, hr₂, h₂⟩ := exists_run (step flushConf) (fun _ _ => True)
    (fun s => decide (s.bug = none ∧ WroteOk s 0 0 10 ∧ WroteOk s 1 1 11)) flushReady
    (writeEvents 0 0 10 false 0 ++ writeEvents 1 1 11 false 1) (by decide +kernel)
  obtain ⟨hb₂, ht₂, ht₂'⟩ := of_decide_eq_true h₂
  have h₂ : Served flushConf flushReady (devSubmitBio flushConf flushReady false 0 [10, 11]) [0, 1]
      u₂ u₂ := by
    rw [hplain]
    exact ⟨hr₂, .cons ⟨by decide, ⟨10, [], rfl, ht₂.1⟩, ht₂.2⟩
      (.cons ⟨by decide, ⟨11, [], rfl, ht₂'.1⟩, ht₂'.2⟩ .nil), rfl, hb₂⟩
  have hagree := h flushOptions (emptyReport 4 16 16) 16 flushStart flushReady u₁ s₁ u₂ u₂ 0
    [10, 11] [0] [0, 1] flushStart_capacity rfl flushStart_eq flushReady_runs (by decide) (by decide)
    h₁ h₂
  have hN : 0 < flushConf.zoneNrBlocks := (base_of_capacity flushStart_capacity flushStart_eq).1
  have K : Kept flushConf Stories flushReady :=
    kept_stories hN (stories_initSys flushStart_eq flushStart_capacity) flushReady_runs
  have halloc := hagree.allocated
  change (effect flushConf flushReady u₁ s₁ [0]).allocated =
    (effect flushConf flushReady u₂ u₂ [0, 1]).allocated at halloc
  rw [h₁.effect hN K, h₂.effect hN K, hflush, hplain] at halloc
  cases halloc

end Lbz
