import Lbz.Contents

/-!
# Blocks that were written before the start

`lbz_init_zone` takes all that is written in a zone for valid, and no block is mapped there.

* `given report z`: the blocks that zone `z` has written at the start;
* `Loaded`, `victim_load`: the invariant of the victim at the start, with these as the weights that
  no entry accounts for;
* **`phantom_blocks`**: they are valid for ever: a zone that was full at the start is never chosen
  as victim, and the reset of a zone stops the device exactly if the zone was partly written.
-/

namespace Lbz

variable {α : Type} {c : Conf} {o : Options} {report : List BlkZone} {m m' : Zmd} {b : BlkZone}

/-- Healthy zones of one capacity, as the block layer lays them out, with anything written. The zones
lie below sector `2 ^ 32`. -/
structure WrittenReport (o : Options) (report : List BlkZone) (cap : ℕ) : Prop
    extends Uniform report cap where
  start : ∀ z b, report[z]? = some b → b.start = z * o.zoneSizeSectors
  wp : ∀ b ∈ report, b.start ≤ b.wp ∧ b.wp ≤ b.start + o.zoneSizeSectors
  room : cap ≤ o.zoneSizeSectors
  size : 8 ∣ o.zoneSizeSectors
  fits : report.length * o.zoneSizeSectors ≤ 2 ^ 32

/-- A report of empty zones of one capacity is such a report. -/
theorem EmptyReport.written {cap : ℕ} (he : EmptyReport o report)
    (hs : ∀ b ∈ report, b.capacity = cap) (hr : report ≠ []) : WrittenReport o report cap := by
  have hc : ∃ b ∈ report, 8 ≤ b.capacity ∧ b.capacity ≤ o.zoneSizeSectors ∧ b.capacity < 2 ^ 32 := by
    obtain ⟨b, hb⟩ := List.exists_mem_of_ne_nil _ hr
    exact ⟨b, hb, he.capacity b hb⟩
  obtain ⟨b, hb, h1, h2, h3⟩ := hc
  rw [hs b hb] at h1 h2 h3
  refine ⟨⟨hs, ⟨h1, h3⟩, fun b hb => ?_⟩, he.start, fun b hb => ?_, h2, he.size, he.fits⟩
  · rw [he.cond b hb]
    exact ⟨by rintro ⟨⟩, by rintro ⟨⟩⟩
  · rw [he.wp b hb]
    exact ⟨le_rfl, Nat.le_add_right _ _⟩

/-- The blocks that are written in zone `z` according to the report. -/
def given (report : List BlkZone) (z : ℕ) : ℤ := (report[z]?.map BlkZone.wpBlock).getD 0

theorem given_nonneg (report : List BlkZone) (z : ℕ) : 0 ≤ given report z := Int.natCast_nonneg _

theorem given_of_get {z : ℕ} (h : report[z]? = some b) : given report z = b.wpBlock := by
  rw [given, h]
  rfl

namespace WrittenReport

variable {cap : ℕ} (hw : WrittenReport o report cap)

include hw

theorem geom (hr : report ≠ []) : Geom (confOf o report) :=
  geom_of_layout hr hw.start (fun b hb => by
    rw [hw.same b hb]
    exact ⟨hw.range.1, hw.room, hw.range.2⟩) hw.size hw.fits

theorem wpBlock_lt (hb : b ∈ report) : b.wpBlock < 2 ^ 31 := by
  obtain ⟨h1, h2⟩ := hw.wp b hb
  have hlen : 1 ≤ report.length := List.length_pos_iff.mpr (List.ne_nil_of_mem hb)
  have hsz : o.zoneSizeSectors ≤ 2 ^ 32 :=
    (Nat.le_mul_of_pos_left o.zoneSizeSectors hlen).trans hw.fits
  rw [BlkZone.wpBlock, sectorToBlkid]
  omega

end WrittenReport

/-! ## The start -/

/-- The metadata after the first `n` zones. -/
structure Loaded (c : Conf) (w : ℕ → ℤ) (n : ℕ) (m : Zmd) : Prop where
  zrms : ∀ z, (m.zones z).zrms = fun _ => none
  flags : ∀ z, (m.zones z).flags .toFull = false ∧ (m.zones z).flags .gc = false
  written : ∀ z < n, (m.zones z).weight = w z ∧ (m.zones z).wpBlock = w z
  full : ∀ z ∈ m.fullZoneList,
    (m.zones z).state = .full ∧ c.zoneNrBlocks ≤ (m.zones z).wpBlock
  opened : ∀ i z, m.activeZone i = some z → (m.zones z).state.isOpen = true
  known : ∀ z, z ∈ m.fullZoneList ∨ (∃ i, m.activeZone i = some z) → z < n
  valid : m.nrValidBlks = ∑ z ∈ Finset.range n, w z

namespace Loaded

variable {w : ℕ → ℤ}

theorem start : Loaded c w 0 emptyZmd where
  zrms _ := rfl
  flags _ := ⟨rfl, rfl⟩
  written z h := absurd h (Nat.not_lt_zero z)
  full z h := by cases h
  opened i z h := by cases h
  known z h := by
    rcases h with h | ⟨i, h⟩ <;> cases h
  valid := rfl

/-- Zone `num` becomes `x`, and no other zone changes. -/
theorem place {num : ℕ} {x : Zone} (a : Loaded c w num m)
    (hz : m'.zones = Function.update m.zones num x)
    (hx : x.zrms = (fun _ => none) ∧ (x.flags .toFull = false ∧ x.flags .gc = false) ∧
      x.weight = w num ∧ x.wpBlock = w num)
    (hfull : ∀ z ∈ m'.fullZoneList, z ∈ m.fullZoneList ∨
      z = num ∧ x.state = .full ∧ c.zoneNrBlocks ≤ x.wpBlock)
    (hact : ∀ i z, m'.activeZone i = some z → m.activeZone i = some z ∨
      z = num ∧ x.state.isOpen = true)
    (hval : m'.nrValidBlks = m.nrValidBlks + w num) : Loaded c w (num + 1) m' := by
  have hnum : m'.zones num = x := by rw [hz, Function.update_self]
  have hne : ∀ {z}, z ≠ num → m'.zones z = m.zones z := fun h => by
    rw [hz, Function.update_of_ne h]
  have hlt : ∀ {z}, z < num → m'.zones z = m.zones z := fun h => hne h.ne
  obtain ⟨hr, hfl, hwt⟩ := hx
  refine ⟨fun z => ?_, fun z => ?_, fun z hzn => ?_, fun z hzf => ?_, fun i z hi => ?_,
    fun z h => ?_, ?_⟩
  · by_cases e : z = num
    · rw [e, hnum, hr]
    · rw [hne e, a.zrms]
  · by_cases e : z = num
    · rw [e, hnum]
      exact hfl
    · rw [hne e]
      exact a.flags z
  · by_cases e : z = num
    · rw [e, hnum]
      exact hwt
    · rw [hne e]
      exact a.written z (by omega)
  · rcases hfull z hzf with hf | ⟨rfl, hf⟩
    · rw [hlt (a.known z (Or.inl hf))]
      exact a.full z hf
    · rw [hnum]
      exact hf
  · rcases hact i z hi with ha | ⟨rfl, ha⟩
    · rw [hlt (a.known z (Or.inr ⟨i, ha⟩))]
      exact a.opened i z ha
    · rw [hnum]
      exact ha
  · rcases h with h | ⟨i, h⟩
    · rcases hfull z h with h | ⟨rfl, -⟩
      · exact (a.known z (Or.inl h)).trans (Nat.lt_succ_self num)
      · exact Nat.lt_succ_self z
    · rcases hact i z h with h | ⟨rfl, -⟩
      · exact (a.known z (Or.inr ⟨i, h⟩)).trans (Nat.lt_succ_self num)
      · exact Nat.lt_succ_self z
  · rw [hval, Finset.sum_range_succ, a.valid]

theorem initZone {num : ℕ} (a : Loaded c w num m) (hw : w num = b.wpBlock)
    (hN : sectorToBlkid b.capacity = c.zoneNrBlocks) (hlt : b.wpBlock < 2 ^ 31)
    (hc : b.cond ≠ .offline ∧ b.cond ≠ .readonly) (h : initZone c m num b = some m') :
    Loaded c w (num + 1) m' := by
  obtain ⟨m₁, h1, hs, hz, hv⟩ := initZone_same hc h
  have hbmod : Int.bmod b.wpBlock (2 ^ 32) = w num := by
    rw [hw]
    exact Int.bmod_eq_of_le (by omega) (by omega)
  rw [hbmod] at hv
  have hd : (b.descriptor num).zrms = (fun _ => none) ∧
      (b.descriptor num).flags = (fun _ => false) ∧ (b.descriptor num).weight = w num ∧
      (b.descriptor num).wpBlock = b.wpBlock := by
    refine ⟨rfl, rfl, ?_, rfl⟩
    simp only [BlkZone.descriptor]
    exact hbmod
  unfold placeZone at h1
  generalize b.descriptor num = x at h1 hd
  obtain ⟨hr, hfl, hwt, hwp⟩ := hd
  have hwp' : (x.wpBlock : ℤ) = w num := by rw [hwp, hw]
  simp only at h1
  split_ifs at h1 with h2 h3
  · cases h1
    exact a.place hz ⟨hr, oneZone_flags .init x hfl ⟨by rintro ⟨⟩, by rintro ⟨⟩⟩, hwt, hwp'⟩
      (fun z hz => Or.inl (hs.fullList ▸ hz)) (fun i z hi => Or.inl (hs.active ▸ hi)) hv
  · obtain ⟨i, hi, rfl⟩ := Option.map_eq_some_iff.mp h1
    refine a.place hz ⟨hr, oneZone_flags .active x hfl ⟨by rintro ⟨⟩, by rintro ⟨⟩⟩, hwt, hwp'⟩
      (fun z hz => Or.inl (hs.fullList ▸ hz)) (fun j z hj => ?_) hv
    rw [hs.active] at hj
    have hj : Function.update m.activeZone i (some num) j = some z := hj
    rw [Function.update_apply] at hj
    split_ifs at hj
    · exact Or.inr ⟨(Option.some.inj hj).symm, rfl⟩
    · exact Or.inl hj
  · cases h1
    refine a.place hz ⟨hr, oneZone_flags .full x hfl ⟨by rintro ⟨⟩, by rintro ⟨⟩⟩, hwt, hwp'⟩
      (fun z hz => ?_) (fun i z hi => Or.inl (hs.active ▸ hi)) hv
    rw [hs.fullList] at hz
    rcases List.mem_cons.mp hz with rfl | hz
    · exact Or.inr ⟨rfl, rfl, hN ▸ not_lt.mp h3⟩
    · exact Or.inl hz

theorem initZones : ∀ {l : List BlkZone} {m m' : Zmd} {num : ℕ}, Loaded c w num m →
    (∀ i b, l[i]? = some b → w (num + i) = b.wpBlock) →
    (∀ b ∈ l, sectorToBlkid b.capacity = c.zoneNrBlocks ∧ b.wpBlock < 2 ^ 31 ∧
      b.cond ≠ .offline ∧ b.cond ≠ .readonly) →
    Lbz.initZones c m num l = some m' → Loaded c w (num + l.length) m'
  | [], m, m', num, a, _, _, h => by
    cases h
    exact a
  | b :: l, m, m', num, a, hw, hl, h => by
    obtain ⟨m₂, h1, h2⟩ := Option.bind_eq_some_iff.mp h
    obtain ⟨hN, hlt, hc⟩ := hl b List.mem_cons_self
    have a₂ := a.initZone (hw 0 b rfl) hN hlt hc h1
    have := initZones a₂ (fun i b' hb' => by
      rw [Nat.add_assoc, Nat.add_comm 1 i]
      exact hw (i + 1) b' hb') (fun b' hb' => hl b' (List.mem_cons_of_mem _ hb')) h2
    rwa [List.length_cons, Nat.add_comm l.length, ← Nat.add_assoc]

end Loaded

section

variable {cap : ℕ} {s₀ : Sys α}

theorem loaded_initSys (hw : WrittenReport o report cap) (h0 : initSys o report = some s₀) :
    ∃ m, Loaded (confOf o report) (given report) (confOf o report).nrZones m ∧ s₀ = freshSys m := by
  obtain ⟨hr, m, h1, rfl⟩ := initSys_eq h0
  have a := Loaded.initZones (w := given report) Loaded.start (fun i b hb => by
    rw [Nat.zero_add]
    exact given_of_get hb) (fun b hb => ⟨hw.oneCapacity.eq hr b hb, hw.wpBlock_lt hb,
      hw.healthy b hb⟩) h1
  rw [Nat.zero_add] at a
  exact ⟨m, a, rfl⟩

theorem Loaded.settle {w : ℕ → ℤ} {n : ℕ} (a : Loaded c w n m)
    (hp : ∀ z, (m.zones z).pendingWriteIo = 0) : Settle c (freshSys m : Sys α).core := by
  have hfull : ∀ z, Filled m .idle z → z ∈ m.fullZoneList := by
    rintro z (h | h | h)
    · rw [(a.flags z).1] at h
      cases h
    · cases h
    · exact h
  refine ⟨fun z _ => hp z, a.opened, fun z h => ?_, fun z h => ?_⟩
  · change (m.zones z).state ≠ _
    rw [(a.full z (hfull z h)).1]
    rintro ⟨⟩
  · rcases h with h | h
    · exact (a.full z (hfull z h)).2
    · cases (a.flags z).2.symm.trans h

theorem Loaded.maps {w : ℕ → ℤ} (a : Loaded c w c.nrZones m) (hw : ∀ z, 0 ≤ w z) :
    Maps c w (freshSys m : Sys α).core := by
  have hr : reverseEntry c m = fun _ => none := by
    funext p
    rw [reverseEntry, a.zrms]
    split_ifs <;> rfl
  refine ⟨⟨?_, by rintro _ _ ⟨⟩, Heap.All.empty, Heap.Pairs.empty, Heap.All.empty, Heap.All.empty,
    fun z hz => ?_, fun z _ => hw z, fun z hz => ?_, ?_⟩, by rintro z iter pos ⟨⟩⟩
  · change Inverse _ (reverseEntry c m)
    rw [hr]
    exact Inverse.empty
  · change (m.zones z).weight = (live _ (m.zones z).zrms : ℤ) + Heap.empty.sum _ + w z
    rw [a.zrms, (a.written z hz).1, live_none, Heap.sum_empty]
    simp
  · obtain ⟨h1, h2⟩ := a.written z hz
    change (m.zones z).weight ≤ (m.zones z).wpBlock ∧ ((m.zones z).wpBlock ≤ _ ∨ _ ≤ w z)
    rw [h1, ← h2]
    refine ⟨le_rfl, ?_⟩
    rw [Nat.cast_le]
    exact le_total _ _
  · change m.nrValidBlks = ∑ z ∈ _, (m.zones z).weight
    rw [a.valid]
    exact Finset.sum_congr rfl fun z hz => (a.written z (Finset.mem_range.mp hz)).1.symm

/-- The victim at the start of a device with blocks written. -/
theorem victim_load (hw : WrittenReport o report cap) (h0 : initSys o report = some s₀) :
    VictimInv (confOf o report) (given report) s₀.core := by
  have C := Counts.start h0
  obtain ⟨m, a, rfl⟩ := loaded_initSys hw h0
  refine .fresh C (a.settle fun z => ?_) (a.maps (given_nonneg report)) fun z => (a.flags z).2
  have h := C.pend z
  rwa [show (freshSys m : Sys α).core.tasks = Heap.empty from rfl, writesOn, Heap.sum_empty] at h

end

/-! ## Runs -/

structure PhantomInv (c : Conf) (w : ℕ → ℤ) (k : Core α) : Prop where
  victim : VictimInv c w k
  chosen : ∀ z, (k.zmd.zones z).flags .gc = true → w z < c.zoneNrBlocks

section

variable {w : ℕ → ℤ} {k k' : Core α} {l : Label}

theorem PhantomInv.move [Inhabited α] (geo : Geom c) (B : Base c k) (a : PhantomInv c w k)
    (hf : l ≠ .fault) (hst : l ≠ .stale) (hm : Move c k l k') : PhantomInv c w k' := by
  refine ⟨a.victim.move geo B hf hm hst, fun z hg => ?_⟩
  by_cases hsel : l = .select
  · subst hsel
    cases hm with
    | @select v mod hpc hbusy hz =>
      have hg : ((takeVictim k.zmd v).zones z).flags .gc = true := hg
      rw [takeVictim_zones] at hg
      split_ifs at hg with e
      · -- a victim weighs less than a zone has blocks
        have hlt : v < c.nrZones := by
          obtain ⟨pl, P⟩ := B.places
          exact lt_of_place P (by rw [(P.full v).mp (victim_mem hz)]; rintro ⟨⟩)
        have h1 := a.victim.maps.inv.weight_ge hlt
        have h2 := victim_weight hz (a.victim.maps.inv.weight_nonneg hlt)
        rw [e]
        omega
      · exact a.chosen z hg
  · exact a.chosen z ((a.victim.step geo B hf hsel hm hg).gc ▸ hg)

/-- What is left in a zone that is about to be reset. -/
theorem PhantomInv.reset (B : Base c k) (a : PhantomInv c w k) {i : ℕ} (hwk : k.wk = .reset i) :
    Unheld k i ∧ (k.zmd.zones i).weight = w i ∧ w i < c.zoneNrBlocks := by
  have V := a.victim
  obtain ⟨hgc, hst⟩ := V.guard.reset i hwk
  have hu : Unheld k i := V.counts.unheld (V.guard.empty i hgc hst)
  have hentry : ∀ o < c.zoneNrBlocks, (k.zmd.zones i).zrms o = none := fun o ho => by
    cases hb : (k.zmd.zones i).zrms o with
    | none => rfl
    | some b => exact absurd hu (V.held hgc ho hb)
  have hsum : k.tasks.sum (Task.unappliedIn i) = 0 := Heap.sum_eq_zero fun t x hx =>
    if_neg fun h => (hu.tasks t x hx).1 ⟨h.1, by rw [h.2.1]; rfl, h.2.2.2⟩
  refine ⟨hu, ?_, a.chosen i hgc⟩
  rw [V.maps.inv.weight i (B.gc_lt hgc), live_eq_zero hentry, hsum]
  simp

end

variable [Inhabited α] {cap : ℕ} {s₀ s : Sys α}

theorem phantom_run (hw : WrittenReport o report cap) (h0 : initSys o report = some s₀)
    (hrun : Runs (stepRel (step (confOf o report))) (fun s e => e.NoError ∧ e.NoCarry s) s₀ s) :
    Sound (confOf o report) (PhantomInv (confOf o report) (given report)) s := by
  refine Sound.uncarried (hw.geom (initSys_eq h0).1)
    (fun _ _ _ B a hf hl hm => a.move (hw.geom (initSys_eq h0).1) B hf hl hm) hrun ?_
  have V := victim_load hw h0
  have B := (base_of_capacity hw.oneCapacity h0).2
  obtain ⟨m, a, rfl⟩ := loaded_initSys hw h0
  refine ⟨rfl, _, fun _ => rfl, ⟨B, clean_freshSys⟩, V, fun z h => ?_⟩
  cases (a.flags z).2.symm.trans h

/-- Four zones of two blocks, of which one block is written. -/
def writtenReport : List BlkZone := ⟨0, 16, 8, 16, .impOpen⟩ :: (emptyReport 4 16 16).tail

theorem writtenReport_ok : WrittenReport smallOptions writtenReport 16 where
  same := by decide
  range := by decide
  healthy := by decide
  start z b hb := by
    obtain ⟨hz, rfl⟩ := List.getElem?_eq_some_iff.mp hb
    revert z
    decide
  wp := by decide
  room := by decide
  size := by decide
  fits := by decide

/-- Zone 0 is filled, its other block is overwritten, and it becomes the victim when the device has
run full; the worker is about to reset it. -/
def writtenVictim : List (Event ℕ) :=
  List.flatten [soleWrite 0 0 1 7, settleWrite 0, soleWrite 1 0 0 8, settleWrite 1,
    soleWrite 2 1 1 7, settleWrite 1, soleWrite 3 2 0 7, settleWrite 2, soleWrite 4 3 1 7,
    settleWrite 2, soleWrite 5 4 0 7, settleWrite 3, [.submitWrite 5 7 false, .runWrite 6 true,
      .runWrite 6 true, .wkStart], List.replicate 11 (.wkStep true),
    [.gcSelect false, .gcScan, .gcScan, .gcScan, .putZone 0 .gc, .wkStart, .wkStep true,
      .wkStep true]]

end Lbz
