import Lbz.SubmitBio

/-!
# What a read leaves in its pages

* `EndsWith r P k`: the read `r` has been looked up, and when it ends with success, the payload it
  has got is one of `P`;
* `ReadPart`: a part of a read bio, with the device at the time of its look-up;
* `pagesAfter hist rs before`: the pages after the reads `rs`, which held `before`;
* **`read_determined_iff`**: what the pages of a read hold after it does not depend on what they
  held before, exactly if the device is ready and all blocks are mapped.
-/

namespace Lbz

variable {α : Type}

/-- The payload that read `r` has ended with, `none` if it has got none. -/
def readValue (r : ℕ) (hist : List (Obs α)) : Option α :=
  (hist.findSome? fun
    | .endR r' v true => if r' = r then some v else none
    | _ => none).join

/-- The pages of a bio after its parts `rs` have ended with success. A page is written by the device
only. -/
def pagesAfter (hist : List (Obs α)) : List ℕ → List α → List α
  | r :: rs, d :: l => (readValue r hist).getD d :: pagesAfter hist rs l
  | _, l => l

theorem readValue_of_mem {r : ℕ} {hist : List (Obs α)} (h : ∃ v, .endR r v true ∈ hist) :
    .endR r (readValue r hist) true ∈ hist := by
  obtain ⟨v, hv⟩ := h
  rw [readValue]
  generalize hf : hist.findSome? (fun
    | .endR r' v true => if r' = r then some v else none
    | _ => none) = w
  cases w with
  | none =>
    have := List.findSome?_eq_none_iff.mp hf _ hv
    simp at this
  | some w =>
    obtain ⟨o, ho, hw⟩ := List.exists_of_findSome?_eq_some hf
    split at hw
    · split_ifs at hw with e
      cases hw
      rw [← e]
      exact ho
    · cases hw

/-! ## The moves -/

def Obs.isEndR : Obs α → Bool
  | .endR _ _ _ => true
  | _ => false

theorem mem_endR {r : ℕ} {v : Option α} {ok : Bool} {hist : List (Obs α)} :
    .endR r v ok ∈ hist ↔ .endR r v ok ∈ hist.filter Obs.isEndR := by
  rw [List.mem_filter]
  exact (and_iff_left rfl).symm

section

variable [Inhabited α] {c : Conf} {k k' : Core α} {l : Label}

/-- What a move does to the reads. -/
inductive ReadMove (k k' : Core α) : Prop
  | none (hr : k'.reads = k.reads) (hh : k'.hist.filter Obs.isEndR = k.hist.filter Obs.isEndR)
  | miss (hr : k'.reads = k.reads.burn)
      (hh : k'.hist.filter Obs.isEndR = .endR k.reads.next none true :: k.hist.filter Obs.isEndR)
  | hit (x : ReadHook α) (hr : k'.reads = k.reads.alloc x)
      (hh : k'.hist.filter Obs.isEndR = k.hist.filter Obs.isEndR)
  | serve (r : ℕ) (f : ReadHook α → ReadHook α) (hr : k'.reads = k.reads.modify r f)
      (hh : k'.hist.filter Obs.isEndR = k.hist.filter Obs.isEndR)
  | finish (r : ℕ) (x : ReadHook α) (v : Option α) (hx : k.reads.get r = some x)
      (hr : k'.reads = k.reads.free r)
      (hh : k'.hist.filter Obs.isEndR = .endR r v v.isSome :: k.hist.filter Obs.isEndR)

theorem Move.reads (hm : Move c k l k') : ReadMove k k' := by
  cases hm with
  | readMiss => exact .miss rfl rfl
  | readHit => exact .hit _ rfl rfl
  | serve | serveFail => exact .serve _ _ rfl rfl
  | endRead hx => exact .finish _ _ _ hx rfl rfl
  | _ => exact .none rfl rfl

/-- No read that has not been made has ended. -/
def ReadsKnown (k : Core α) : Prop := ∀ r v ok, .endR r v ok ∈ k.hist → r < k.reads.next

theorem ReadsKnown.move (a : ReadsKnown k)
    (hm : Move c k l k') : ReadsKnown k' := fun r v ok h => by
  rw [mem_endR] at h
  cases hm.reads with
  | none hr hh =>
    rw [hr]
    exact a r v ok (mem_endR.mpr (hh ▸ h))
  | miss hr hh =>
    rw [hr, Heap.next_burn]
    rcases List.mem_cons.mp (hh ▸ h) with h | h
    · cases h
      exact Nat.lt_succ_self _
    · exact (a r v ok (mem_endR.mpr h)).trans (Nat.lt_succ_self _)
  | hit x hr hh =>
    rw [hr, Heap.next_alloc]
    exact (a r v ok (mem_endR.mpr (hh ▸ h))).trans (Nat.lt_succ_self _)
  | serve r' f hr hh =>
    rw [hr, Heap.next_modify]
    exact a r v ok (mem_endR.mpr (hh ▸ h))
  | finish r' x v' hx hr hh =>
    rw [hr, Heap.next_free]
    rcases List.mem_cons.mp (hh ▸ h) with h | h
    · cases h
      exact Heap.lt_next_of_get hx
    · exact a r v ok (mem_endR.mpr h)

/-- The read `r` has been looked up, and ends with one of `P` if it ends with success. -/
structure EndsWith (r : ℕ) (P : Option α → Prop) (k : Core α) : Prop where
  made : r < k.reads.next
  hook : k.reads.get r = none ∨ ∀ d, P (some d)
  ends : ∀ v, .endR r v true ∈ k.hist → P v

theorem EndsWith.move {r : ℕ} {P : Option α → Prop} (a : EndsWith r P k) (hm : Move c k l k') :
    EndsWith r P k' := by
  cases hm.reads with
  | none hr hh =>
    exact ⟨hr ▸ a.made, hr ▸ a.hook, fun v h => a.ends v (mem_endR.mpr (hh ▸ mem_endR.mp h))⟩
  | miss hr hh =>
    refine ⟨?_, ?_, fun v h => ?_⟩
    · rw [hr, Heap.next_burn]
      exact a.made.trans (Nat.lt_succ_self _)
    · rw [hr, Heap.get_burn]
      exact a.hook
    · rw [mem_endR, hh] at h
      rcases List.mem_cons.mp h with h | h
      · cases h
        exact absurd a.made (lt_irrefl _)
      · exact a.ends v (mem_endR.mpr h)
  | hit x hr hh =>
    refine ⟨?_, ?_, fun v h => a.ends v (mem_endR.mpr (hh ▸ mem_endR.mp h))⟩
    · rw [hr, Heap.next_alloc]
      exact a.made.trans (Nat.lt_succ_self _)
    · rw [hr, Heap.get_alloc, if_neg a.made.ne]
      exact a.hook
  | serve r' f hr hh =>
    refine ⟨?_, ?_, fun v h => a.ends v (mem_endR.mpr (hh ▸ mem_endR.mp h))⟩
    · rw [hr, Heap.next_modify]
      exact a.made
    · refine a.hook.imp_left fun h => ?_
      rw [hr, Heap.get_modify]
      split_ifs
      · rw [h]
        rfl
      · exact h
  | finish r' x v' hx hr hh =>
    refine ⟨?_, ?_, fun v h => ?_⟩
    · rw [hr, Heap.next_free]
      exact a.made
    · refine a.hook.imp_left fun h => ?_
      rw [hr, Heap.get_free]
      split_ifs
      · rfl
      · exact h
    · rw [mem_endR, hh] at h
      rcases List.mem_cons.mp h with h | h
      · obtain ⟨rfl, rfl, hv⟩ : r = r' ∧ v = v' ∧ true = v'.isSome := by simpa using h
        obtain ⟨d, rfl⟩ := Option.isSome_iff_exists.mp hv.symm
        exact a.hook.resolve_left (by rw [hx]; nofun) d
      · exact a.ends v (mem_endR.mpr h)

end

/-! ## Runs -/

/-- A part of a read bio: its block, its number, and the device when it is looked up. -/
structure ReadPart (α : Type) where
  blkid : ℕ
  id : ℕ
  device : Sys α

/-- The part, submitted from `s` on, has ended with success before `s'`. -/
structure ReadPart.Served [Inhabited α] (c : Conf) (s s' : Sys α) (p : ReadPart α) : Prop where
  before : Runs (stepRel (step c)) (fun _ _ => True) s p.device
  after : ∃ s₁, step c p.device (.submitRead p.blkid) = some s₁ ∧
    Runs (stepRel (step c)) (fun _ _ => True) s₁ s'
  id : p.id = p.device.reads.next
  ended : ∃ v, .endR p.id v true ∈ s'.hist

/-- The parts of a read of the `n` blocks from `blkid` on, submitted in `s`, have all ended with
success before `s'`. -/
structure ReadServed [Inhabited α] (c : Conf) (s : Sys α) (blkid n : ℕ) (parts : List (ReadPart α))
    (s' : Sys α) : Prop where
  blocks : parts.map ReadPart.blkid =
    (devSubmitBio c s false blkid (List.replicate n ())).calls.map Prod.fst
  served : ∀ p ∈ parts, p.Served c s s'
  alive : s'.bug = none

section

variable [Inhabited α] {o : Options} {report : List BlkZone} {cap : ℕ} {s₀ s s' : Sys α}

/-- **A part that has ended with success has got a payload exactly if its block was mapped.** -/
theorem ReadPart.Served.value_eq_none {p : ReadPart α} (hu : OneCapacity report cap)
    (h0 : initSys o report = some s₀)
    (hrun : Runs (stepRel (step (confOf o report))) (fun _ _ => True) s₀ s)
    (h : p.Served (confOf o report) s s') (hb : s'.bug = none) :
    readValue p.id s'.hist = none ↔ p.device.mapping p.blkid = none := by
  obtain ⟨hN, hB⟩ := base_of_capacity hu h0
  have hstart : Kept (confOf o report) ReadsKnown s₀ := by
    refine ⟨_, ⟨hB, fun r v ok h => ?_⟩, rfl, fun _ => rfl⟩
    obtain ⟨-, m, -, rfl⟩ := initSys_eq h0
    cases h
  have hknown := Kept.run hN (fun k l k' _ a hm => ReadsKnown.move a hm) (hrun.trans h.before) hstart
  obtain ⟨s₁, hs, hrun₁⟩ := h.after
  obtain ⟨k₁, ⟨hB₁, -⟩, hz₁, hk₁⟩ := Kept.step hN (fun k l k' _ a hm => ReadsKnown.move a hm) hs hknown
  have hs₁ : s₁ = submitReadIo (confOf o report) p.device p.blkid ∧ p.device.bug = none := by
    rw [step] at hs
    split_ifs at hs with hr
    exact ⟨(Option.some.inj hs).symm, hr.1⟩
  have hold : ∀ v, .endR p.id v true ∉ p.device.hist := fun v hv => by
    obtain ⟨k, ⟨-, hk⟩, -, hkd⟩ := hknown
    cases hkd hs₁.2
    exact absurd (hk _ v true hv) (by rw [h.id]; exact lt_irrefl _)
  -- how the part ends is settled by the look-up
  have hend : EndsWith p.id (fun v => v = none ↔ p.device.mapping p.blkid = none) s₁.core := by
    rw [hs₁.1, submitReadIo]
    split
    · next hm =>
      refine ⟨?_, Or.inl ?_, fun v hv => ?_⟩
      · change p.id < p.device.reads.burn.next
        rw [Heap.next_burn, h.id]
        exact Nat.lt_succ_self _
      · change p.device.reads.burn.get p.id = none
        rw [Heap.get_burn, h.id]
        exact Heap.get_eq_none_of_next_le le_rfl
      · rcases List.mem_cons.mp hv with hv | hv
        · rw [(Obs.endR.inj hv).2.1]
          exact iff_of_true rfl hm
        · rcases List.mem_cons.mp hv with hv | hv
          · cases hv
          · exact absurd hv (hold v)
    · next pbid hm =>
      refine ⟨?_, Or.inr fun d => iff_of_false nofun (by rw [hm]; nofun), fun v hv => ?_⟩
      · change p.id < (p.device.reads.alloc _).next
        rw [Heap.next_alloc, h.id]
        exact Nat.lt_succ_self _
      · rcases List.mem_cons.mp hv with hv | hv
        · cases hv
        · exact absurd hv (hold v)
  have hs₁b : s₁.bug = none := by
    rw [hs₁.1, submitReadIo]
    split <;> exact hs₁.2
  cases hk₁ hs₁b
  obtain ⟨k, ⟨-, hk⟩, -, hkd⟩ := Kept.run hN (fun k l k' _ a hm => EndsWith.move a hm) hrun₁
    ⟨_, ⟨hB₁, hend⟩, rfl, fun _ => rfl⟩
  cases hkd hb
  exact hk.ends _ (readValue_of_mem h.ended)

end

theorem pagesAfter_replicate (hist : List (Obs α)) (rs : List ℕ) (d : α) :
    pagesAfter hist rs (List.replicate rs.length d) = rs.map fun r => (readValue r hist).getD d := by
  induction rs with
  | nil => rfl
  | cons r rs ih =>
    rw [List.length_cons, List.replicate_succ, pagesAfter, ih]
    rfl

theorem pagesAfter_of_some {hist : List (Obs α)} {rs : List ℕ} (d : α)
    (h : ∀ r ∈ rs, readValue r hist ≠ none) {before : List α} (hlen : before.length = rs.length) :
    pagesAfter hist rs before = rs.map fun r => (readValue r hist).getD d := by
  induction rs generalizing before with
  | nil => exact List.length_eq_zero_iff.mp hlen
  | cons r rs ih =>
    cases before with
    | nil => cases hlen
    | cons e before =>
      obtain ⟨v, hv⟩ := Option.ne_none_iff_exists'.mp (h r List.mem_cons_self)
      rw [pagesAfter, ih (fun r' hr => h r' (List.mem_cons_of_mem _ hr)) (Nat.succ.inj hlen), hv,
        List.map_cons, hv]
      rfl

/-- Pages can hold any two contents before. -/
theorem pagesAfter_eq_iff [Nontrivial α] {hist : List (Obs α)} {rs : List ℕ} {n : ℕ}
    (hlen : rs.length = n ∨ rs = []) :
    (∀ before before' : List α, before.length = n → before'.length = n →
      pagesAfter hist rs before = pagesAfter hist rs before') ↔
      n = 0 ∨ rs.length = n ∧ ∀ r ∈ rs, readValue r hist ≠ none := by
  obtain ⟨a, b, hab⟩ := exists_pair_ne α
  constructor
  · intro h
    have h' := h (List.replicate n a) (List.replicate n b) List.length_replicate
      List.length_replicate
    rcases hlen with rfl | rfl
    · refine Or.inr ⟨rfl, fun r hr hnone => hab ?_⟩
      rw [pagesAfter_replicate, pagesAfter_replicate] at h'
      have := List.map_inj_left.mp h' r hr
      rwa [hnone] at this
    · refine Or.inl ?_
      by_contra hn
      have : List.replicate n a = List.replicate n b := h'
      exact hab (List.replicate_right_injective hn this)
  · rintro (rfl | ⟨rfl, h⟩) before before' h1 h2
    · rw [List.length_eq_zero_iff.mp h1, List.length_eq_zero_iff.mp h2]
    · rw [pagesAfter_of_some a h h1, pagesAfter_of_some a h h2]

/-- **What a read leaves in its pages** does not depend on what they held, exactly if the device is
ready and not faulty when the bio is submitted, and every block is mapped when it is looked up. -/
theorem read_determined_iff [Inhabited α] [Nontrivial α] {o : Options} {report : List BlkZone}
    {cap : ℕ} {s₀ s s' : Sys α} {blkid n : ℕ} {parts : List (ReadPart α)}
    (hu : OneCapacity report cap) (h0 : initSys o report = some s₀)
    (hrun : Runs (stepRel (step (confOf o report))) (fun _ _ => True) s₀ s)
    (h : ReadServed (confOf o report) s blkid n parts s') :
    (∀ before before' : List α, before.length = n → before'.length = n →
      pagesAfter s'.hist (parts.map ReadPart.id) before =
        pagesAfter s'.hist (parts.map ReadPart.id) before') ↔
      n = 0 ∨ s.ready = true ∧ s.faulty = false ∧
        ∀ p ∈ parts, p.device.mapping p.blkid ≠ none := by
  have hvalue : ∀ p ∈ parts, (readValue p.id s'.hist = none ↔ p.device.mapping p.blkid = none) :=
    fun p hp => (h.served p hp).value_eq_none hu h0 hrun h.alive
  have hvalues : (∀ r ∈ parts.map ReadPart.id, readValue r s'.hist ≠ none) ↔
      ∀ p ∈ parts, p.device.mapping p.blkid ≠ none := by
    rw [List.forall_mem_map]
    exact forall₂_congr fun p hp => (hvalue p hp).not
  have hlen : parts.length = (devSubmitBio (confOf o report) s false blkid
      (List.replicate n ())).calls.length := by simpa using congrArg List.length h.blocks
  cases n with
  | zero => exact iff_of_true (fun before before' h1 h2 => by
      rw [List.length_eq_zero_iff.mp h1, List.length_eq_zero_iff.mp h2]) (Or.inl rfl)
  | succ n =>
    have hne : List.replicate (n + 1) () ≠ [] := List.cons_ne_nil _ _
    rw [devSubmitBio, if_neg hne, if_neg fun h => by cases h.1] at hlen
    split_ifs at hlen with hdown
    · -- the bio ends at once
      obtain rfl := List.length_eq_zero_iff.mp hlen
      rw [List.map_nil, pagesAfter_eq_iff (Or.inr rfl)]
      refine or_congr_right (iff_of_false (fun h => by cases h.1) fun h => ?_)
      rcases hdown with hd | hd
      · exact Bool.false_ne_true (h.2.1.symm.trans hd)
      · exact hd h.1
    · rw [splitBio_length _ hne, List.length_replicate] at hlen
      push Not at hdown
      rw [pagesAfter_eq_iff (Or.inl (by rw [List.length_map, hlen])), hvalues, List.length_map]
      refine or_congr_right ⟨fun h => ⟨hdown.2, ?_, h.2⟩, fun h => ⟨hlen, h.2.2⟩⟩
      exact Bool.eq_false_of_not_eq_true hdown.1

/-- Blocks 0 and 1 have been written. -/
def wroteStart : Sys ℕ :=
  (exec (step flushConf) (fun _ _ => True) flushStart
    (writeEvents 0 0 7 false 0 ++ writeEvents 1 1 8 false 1)).get (by decide +kernel)

/-- Then block 0 has been looked up, -/
def readFirst : Sys ℕ := after flushConf wroteStart (.submitRead 0)

/-- and block 1. -/
def readBoth : Sys ℕ := after flushConf readFirst (.submitRead 1)

theorem wroteStart_runs :
    Runs (stepRel (step flushConf)) (fun _ _ => True) flushStart wroteStart :=
  runs_of_exec (Option.some_get (by decide +kernel)).symm

theorem readFirst_step : step flushConf wroteStart (.submitRead 0) = some readFirst :=
  if_pos (by decide +kernel)

theorem readBoth_step : step flushConf readFirst (.submitRead 1) = some readBoth :=
  if_pos (by decide +kernel)

/-- The theorem on a read of two blocks that are mapped. -/
theorem read_determined_two : ∃ s' : Sys ℕ,
    ReadServed flushConf wroteStart 0 2 [⟨0, 0, wroteStart⟩, ⟨1, 1, readFirst⟩] s' ∧
    (.endR 0 (some 7) true : Obs ℕ) ∈ s'.hist ∧ (.endR 1 (some 8) true : Obs ℕ) ∈ s'.hist ∧
    ∀ before before' : List ℕ, before.length = 2 → before'.length = 2 →
      pagesAfter s'.hist [0, 1] before = pagesAfter s'.hist [0, 1] before' := by
  obtain ⟨s', hr, h⟩ := exists_run (step flushConf) (fun _ _ => True)
    (fun s => decide (s.bug = none ∧ (.endR 0 (some 7) true : Obs ℕ) ∈ s.hist ∧
      (.endR 1 (some 8) true : Obs ℕ) ∈ s.hist))
    readBoth [.devRead 0 true, .devRead 1 true, .readEnd 1, .readEnd 0] (by decide +kernel)
  obtain ⟨hb, h0, h1⟩ := of_decide_eq_true h
  have hfirst : Runs (stepRel (step flushConf)) (fun _ _ => True) wroteStart readFirst :=
    Runs.one (e := .submitRead 0) trivial readFirst_step
  have hboth : Runs (stepRel (step flushConf)) (fun _ _ => True) readFirst readBoth :=
    Runs.one (e := .submitRead 1) trivial readBoth_step
  have hserved : ReadServed flushConf wroteStart 0 2 [⟨0, 0, wroteStart⟩, ⟨1, 1, readFirst⟩] s' := by
    refine ⟨by decide +kernel, fun p hp => ?_, hb⟩
    rcases List.mem_pair.mp hp with rfl | rfl
    · exact ⟨.refl, ⟨_, readFirst_step, hboth.trans hr⟩, by decide +kernel, _, h0⟩
    · exact ⟨hfirst, ⟨_, readBoth_step, hr⟩, by decide +kernel, _, h1⟩
  refine ⟨s', hserved, h0, h1, ?_⟩
  refine (read_determined_iff flushStart_capacity flushStart_eq wroteStart_runs hserved).mpr
    (Or.inr ⟨by decide +kernel, by decide +kernel, fun p hp => ?_⟩)
  rcases List.mem_pair.mp hp with rfl | rfl <;> decide +kernel

/-- A block that was never written leaves the page as it is. -/
theorem read_exposes_page : ¬ ∀ (o : Options) (report : List BlkZone) (cap : ℕ) (s₀ s s' : Sys ℕ)
    (blkid n : ℕ) (parts : List (ReadPart ℕ)), OneCapacity report cap → initSys o report = some s₀ →
    Runs (stepRel (step (confOf o report))) (fun _ _ => True) s₀ s →
    ReadServed (confOf o report) s blkid n parts s' →
    ∀ before before' : List ℕ, before.length = n → before'.length = n →
      pagesAfter s'.hist (parts.map ReadPart.id) before =
        pagesAfter s'.hist (parts.map ReadPart.id) before' := by
  intro h
  let s' : Sys ℕ := after flushConf flushStart (.submitRead 0)
  have hs : step flushConf flushStart (.submitRead 0) = some s' := if_pos (by decide)
  have hserved : ReadServed flushConf flushStart 0 1 [⟨0, 0, flushStart⟩] s' :=
    ⟨by decide, List.forall_mem_singleton.mpr
      ⟨Runs.refl, ⟨_, hs, Runs.refl⟩, by decide, none, by decide⟩, by decide⟩
  have hpages := h flushOptions (emptyReport 4 16 16) 16 flushStart flushStart s' 0 1 _
    flushStart_capacity flushStart_eq Runs.refl hserved [5] [6] rfl rfl
  revert hpages
  decide

end Lbz
