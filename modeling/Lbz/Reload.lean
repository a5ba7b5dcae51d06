import Lbz.Appends
import Lbz.Carried
import Mathlib.Algebra.Order.BigOperators.Group.Finset

/-!
# Loading a device again

* `BlkZone.partly`: a zone that `lbz_init_zone` wants a stream for; **`initZones_isSome`**: there is
  one for each exactly if there are at most as many such zones as free streams;
* `written`, `flight`: the blocks of a zone on the device, and the appends on their way to it;
  `CanHave`: how many blocks the next load can find there; `Reported`: a zone report that it can see;
* `FoundPartly`: a zone that it can see partly written; `Fresh`: a zone that the next append to it
  makes so; `Event.Spread`: the step makes no third one;
* **`reload_exact`**: a device can be loaded again wherever a run stops, if no step makes a third
  zone partly written; a step that makes one then makes it fail.
-/

namespace Lbz

variable {α : Type}

/-! ## Which reports are accepted -/

/-- The branch of `lbz_init_zone` for a zone that is open and not full. -/
def BlkZone.partly (b : BlkZone) : Bool :=
  decide (b.wpBlock ≠ 0 ∧ b.wpBlock < sectorToBlkid b.capacity)

/-- The streams without an active zone. -/
def freeStreams (m : Zmd) : ℕ :=
  (if m.activeZone 0 = none then 1 else 0) + if m.activeZone 1 = none then 1 else 0

section

variable {c : Conf}

/-- A partly written zone takes a stream, and no other zone does. -/
theorem placeZone_streams (m : Zmd) (num : ℕ) (b : BlkZone) :
    (placeZone c m num b = none ∧ b.partly = true ∧ freeStreams m = 0) ∨
    ∃ m', placeZone c m num b = some m' ∧
      freeStreams m' + (if b.partly then 1 else 0) = freeStreams m := by
  unfold placeZone
  simp only
  have hwp : (b.descriptor num).wpBlock = b.wpBlock := rfl
  rw [hwp]
  by_cases h0 : b.wpBlock = 0
  · rw [if_pos h0]
    refine Or.inr ⟨_, rfl, ?_⟩
    simp [BlkZone.partly, h0, freeStreams]
  rw [if_neg h0]
  by_cases h1 : b.wpBlock < sectorToBlkid b.capacity
  · have hp : b.partly = true := decide_eq_true ⟨h0, h1⟩
    rw [if_pos h1, hp]
    unfold freeStream
    by_cases ha : m.activeZone 0 = none
    · rw [if_pos ha]
      refine Or.inr ⟨_, rfl, ?_⟩
      simp [freeStreams, ha]
      omega
    · by_cases hb : m.activeZone 1 = none
      · rw [if_neg ha, if_pos hb]
        refine Or.inr ⟨_, rfl, ?_⟩
        simp [freeStreams, ha, hb]
      · rw [if_neg ha, if_neg hb]
        exact Or.inl ⟨rfl, rfl, by simp [freeStreams, ha, hb]⟩
  · have hp : b.partly = false := decide_eq_false fun h => h1 h.2
    rw [if_neg h1, hp]
    exact Or.inr ⟨_, rfl, rfl⟩

/-- **A report is accepted** exactly if there is a stream for each partly written zone. -/
theorem initZones_isSome (l : List BlkZone) : ∀ (m : Zmd) (num : ℕ),
    (initZones c m num l).isSome ↔ l.countP BlkZone.partly ≤ freeStreams m := by
  induction l with
  | nil => exact fun m num => iff_of_true rfl (Nat.zero_le _)
  | cons b l ih =>
    intro m num
    rw [initZones, List.countP_cons]
    rcases placeZone_streams (c := c) m num b with ⟨h, hp, h0⟩ | ⟨m', h, hm⟩
    · rw [initZone, h, hp, h0]
      simp
    · rw [initZone, h]
      change (initZones c _ (num + 1) l).isSome ↔ _
      rw [ih]
      change l.countP _ ≤ freeStreams m' ↔ _
      rw [← hm]
      omega

end

/-- **A device is loaded** exactly if at most two zones are partly written. -/
theorem initSys_isSome (o : Options) {report : List BlkZone} (hr : report ≠ []) :
    (initSys o report : Option (Sys α)).isSome ↔ report.countP BlkZone.partly ≤ 2 := by
  rw [initSys, if_neg hr, Option.isSome_map, initZones_isSome]
  rfl

/-! ## What is on the device, and on its way -/

/-- The number of blocks of zone `z` that are on the device. -/
def written (c : Conf) (s : Sys α) (z : ℕ) : ℕ :=
  ((Finset.range c.zoneNrBlocks).filter fun o => (s.phys.content (c.startBlk z + o)).isSome).card

/-- The appends on their way to zone `z`. -/
def flight (s : Sys α) (z : ℕ) : Finset ℕ :=
  (Finset.range s.tasks.next).filter fun t => s.tasks.At t (Task.FliesTo z)

/-- The number of blocks of the bio of task `t`. -/
def appendLen (s : Sys α) (t : ℕ) : ℕ := (s.tasks.get t).elim 0 Task.len

/-- If the device stops, zone `z` can have `w` blocks: some of the appends on their way, which fit,
have reached it. -/
def CanHave (c : Conf) (s : Sys α) (z w : ℕ) : Prop :=
  ∃ S ⊆ flight s z, w = written c s z + ∑ t ∈ S, appendLen s t ∧ w ≤ c.zoneNrBlocks

/-- A zone report after a stop in `s`, of a device that was loaded with `report`. -/
structure Reported (c : Conf) (s : Sys α) (report report' : List BlkZone) : Prop where
  length : report'.length = report.length
  zone : ∀ z b b', report[z]? = some b → report'[z]? = some b' →
    b'.start = b.start ∧ b'.capacity = b.capacity ∧
      ∃ w, CanHave c s z w ∧ b'.wp = b.start + 8 * w

/-- After a stop in `s` a device that was loaded with `report` can be loaded again: no more than
`LBZ_ZONE_MAX_STREAM` zones are partly written, and `lbz_init_zone` does not reach its `BUG_ON`. -/
def Reloads (o : Options) (report : List BlkZone) (s : Sys α) : Prop :=
  ∀ report', Reported (confOf o report) s report report' →
    report'.countP BlkZone.partly ≤ 2 ∧ (initSys o report' : Option (Sys α)).isSome

/-- Zone `z` can be found partly written. -/
def FoundPartly (c : Conf) (s : Sys α) (z : ℕ) : Prop :=
  ∃ w, CanHave c s z w ∧ 0 < w ∧ w < c.zoneNrBlocks

theorem written_le (c : Conf) (s : Sys α) (z : ℕ) : written c s z ≤ c.zoneNrBlocks :=
  (Finset.card_filter_le _ _).trans (Finset.card_range _).le

theorem mem_flight {s : Sys α} {t z : ℕ} :
    t ∈ flight s z ↔ ∃ x, s.tasks.get t = some x ∧ x.FliesTo z := by
  rw [flight, Finset.mem_filter, Finset.mem_range]
  exact ⟨fun h => h.2, fun ⟨x, hx, h⟩ => ⟨Heap.lt_next_of_get hx, x, hx, h⟩⟩

theorem appendLen_pos {s : Sys α} {t z : ℕ} (h : t ∈ flight s z) : 0 < appendLen s t := by
  obtain ⟨x, hx, -⟩ := mem_flight.mp h
  rw [appendLen, hx]
  exact x.len_pos

/-- One append is enough to leave a zone partly written. -/
theorem foundPartly_iff {c : Conf} {s : Sys α} {z : ℕ} : FoundPartly c s z ↔
    0 < written c s z ∧ written c s z < c.zoneNrBlocks ∨
      written c s z = 0 ∧ ∃ t ∈ flight s z, appendLen s t < c.zoneNrBlocks := by
  constructor
  · rintro ⟨w, ⟨S, hS, hw, -⟩, h0, hlt⟩
    rcases Nat.eq_zero_or_pos (written c s z) with h | h
    · refine Or.inr ⟨h, ?_⟩
      obtain ⟨t, ht⟩ : S.Nonempty := by
        by_contra hne
        rw [Finset.not_nonempty_iff_eq_empty.mp hne, Finset.sum_empty] at hw
        omega
      have hle : appendLen s t ≤ ∑ t ∈ S, appendLen s t :=
        Finset.single_le_sum (fun _ _ => Nat.zero_le _) ht
      exact ⟨t, hS ht, by omega⟩
    · exact Or.inl ⟨h, by omega⟩
  · rintro (⟨h0, hlt⟩ | ⟨h, t, ht, hlt⟩)
    · exact ⟨_, ⟨∅, Finset.empty_subset _, rfl, hlt.le⟩, h0, hlt⟩
    · have hpos := appendLen_pos ht
      refine ⟨_, ⟨{t}, Finset.singleton_subset_iff.mpr ht, rfl, ?_⟩, ?_, ?_⟩ <;>
        rw [Finset.sum_singleton] <;> omega

instance (c : Conf) (s : Sys α) : DecidablePred (FoundPartly c s) :=
  fun _ => decidable_of_iff _ foundPartly_iff.symm

/-- The zones that can be found partly written. -/
def partZones (c : Conf) (s : Sys α) : Finset ℕ := (Finset.range c.nrZones).filter (FoundPartly c s)

section

variable {c : Conf} {s s' : Sys α} {t z off : ℕ}

theorem mem_partZones : z ∈ partZones c s ↔ z < c.nrZones ∧ FoundPartly c s z := by
  rw [partZones, Finset.mem_filter, Finset.mem_range]

/-! ## From reports to zones -/

theorem countP_eq_card (p : BlkZone → Bool) (l : List BlkZone) :
    l.countP p = ((Finset.range l.length).filter fun z => (l[z]?).any p).card := by
  induction l using List.reverseRecOn with
  | nil => rfl
  | append_singleton l b ih =>
    have hold : ((Finset.range l.length).filter fun z => ((l ++ [b])[z]?).any p) =
        (Finset.range l.length).filter fun z => (l[z]?).any p :=
      Finset.filter_congr fun z hz => by
        rw [List.getElem?_append_left (Finset.mem_range.mp hz)]
    have hlast : (l ++ [b])[l.length]? = some b := by simp
    rw [List.countP_append, List.length_append, List.length_singleton, Finset.range_add_one,
      Finset.filter_insert, hlast, hold, ih, List.countP_singleton, Option.any_some]
    split_ifs
    · rw [Finset.card_insert_of_notMem fun h => by simp at h]
    · rfl

/-- The blocks of a reported zone. -/
theorem wpBlock_eq {b : BlkZone} {w : ℕ} (hb : b.wp = b.start + 8 * w) (hw : w < 2 ^ 29) :
    b.wpBlock = w := by
  have h : (((b.wp : ℤ) - b.start) % 2 ^ 64).toNat = 8 * w := by
    rw [hb]
    omega
  rw [BlkZone.wpBlock, h, sectorToBlkid, Nat.mul_div_cancel_left _ (by norm_num),
    Nat.mod_eq_of_lt (by omega)]

variable {o : Options} {report : List BlkZone} {cap : ℕ}

theorem partly_iff (hu : OneCapacity report cap) {b b' : BlkZone} {w : ℕ} (hb : b ∈ report)
    (hs : b'.start = b.start) (hc : b'.capacity = b.capacity) (hwp : b'.wp = b.start + 8 * w)
    (hw : w ≤ (confOf o report).zoneNrBlocks) :
    b'.partly = true ↔ 0 < w ∧ w < (confOf o report).zoneNrBlocks := by
  have hN : (confOf o report).zoneNrBlocks = sectorToBlkid cap :=
    zoneNrBlocks_confOf (List.ne_nil_of_mem hb) hu.same hu.range.2
  have hlt := zoneNrBlocks_lt o report
  rw [BlkZone.partly, decide_eq_true_eq, wpBlock_eq (hwp.trans (by rw [hs])) (by omega), hc,
    hu.same b hb, ← hN, Nat.pos_iff_ne_zero]

/-- **A device can be loaded again** exactly if at most two zones can be found partly written. -/
theorem reloads_iff (hu : OneCapacity report cap) (hr : report ≠ []) (s : Sys α) :
    Reloads o report s ↔ (partZones (confOf o report) s).card ≤ 2 := by
  constructor
  · intro h
    -- the report that has as many partly written zones as there can be
    have hex : ∀ z, ∃ w, CanHave (confOf o report) s z w ∧
        (FoundPartly (confOf o report) s z → 0 < w ∧ w < (confOf o report).zoneNrBlocks) := by
      intro z
      by_cases hz : FoundPartly (confOf o report) s z
      · obtain ⟨w, hw, h0, hlt⟩ := hz
        exact ⟨w, hw, fun _ => ⟨h0, hlt⟩⟩
      · exact ⟨_, ⟨∅, Finset.empty_subset _, rfl, written_le ..⟩, fun h => absurd h hz⟩
    choose w hw hpart using hex
    let filled : ℕ → BlkZone → BlkZone := fun z b => { b with wp := b.start + 8 * w z }
    let report' := report.mapIdx filled
    have hget : ∀ z, report'[z]? = (report[z]?).map (filled z) := fun z => List.getElem?_mapIdx
    have hrep : Reported (confOf o report) s report report' := by
      refine ⟨List.length_mapIdx, fun z b b' hb hb' => ?_⟩
      rw [hget, hb] at hb'
      cases hb'
      exact ⟨rfl, rfl, w z, hw z, rfl⟩
    refine le_trans ?_ (h report' hrep).1
    rw [countP_eq_card]
    refine Finset.card_le_card fun z hz => ?_
    obtain ⟨hz, hfound⟩ := mem_partZones.mp hz
    have hb : report[z]? = some report[z] := List.getElem?_eq_getElem hz
    rw [Finset.mem_filter, Finset.mem_range, hrep.length, hget, hb]
    have hp : (filled z report[z]).partly = true := by
      obtain ⟨S, -, -, hle⟩ := hw z
      refine (partly_iff hu (List.getElem_mem hz) ?_ ?_ ?_ hle).mpr (hpart z hfound) <;> rfl
    exact ⟨hz, hp⟩
  · intro h report' hrep
    have hcount : report'.countP BlkZone.partly ≤ 2 := by
      refine le_trans ?_ h
      rw [countP_eq_card]
      refine Finset.card_le_card fun z hz => ?_
      rw [Finset.mem_filter, Finset.mem_range] at hz
      obtain ⟨hz, hp⟩ := hz
      rw [List.getElem?_eq_getElem hz] at hp
      have hz' : z < report.length := hrep.length ▸ hz
      obtain ⟨hs, hc, w, hw, hwp⟩ := hrep.zone z _ _ (List.getElem?_eq_getElem hz')
        (List.getElem?_eq_getElem hz)
      obtain ⟨S, -, -, hle⟩ := id hw
      obtain ⟨h0, hlt⟩ := (partly_iff hu (List.getElem_mem hz') hs hc hwp hle).mp hp
      exact mem_partZones.mpr ⟨hz', w, hw, h0, hlt⟩
    have hr' : report' ≠ [] := by
      rintro rfl
      exact hr (List.eq_nil_of_length_eq_zero hrep.length.symm)
    exact ⟨hcount, (initSys_isSome o hr').mpr hcount⟩

/-! ## What a step does to the zones that can be found partly written -/

/-- Fewer appends on their way, and the same blocks. -/
theorem FoundPartly.mono (h1 : written c s' z = written c s z) (h2 : flight s' z ⊆ flight s z)
    (h3 : ∀ t ∈ flight s' z, appendLen s' t = appendLen s t) (h : FoundPartly c s' z) :
    FoundPartly c s z := by
  rw [foundPartly_iff, h1] at h
  refine foundPartly_iff.mpr (h.imp_right fun ⟨h0, t, ht, hlt⟩ => ⟨h0, t, h2 ht, ?_⟩)
  rwa [← h3 t ht]

theorem written_congr (h : s'.phys = s.phys) (z : ℕ) : written c s' z = written c s z := by
  rw [written, written, h]

/-- **No append is issued**, and the device is the same. -/
theorem foundPartly_of_from (hp : s'.phys = s.phys) (ht : AppendsFrom s.tasks s'.tasks)
    (h : FoundPartly c s' z) : FoundPartly c s z := by
  have hsame : ∀ t ∈ flight s' z, ∃ x y, s.tasks.get t = some x ∧ x.FliesTo z ∧
      s'.tasks.get t = some y ∧ x.len = y.len := fun t hm => by
    obtain ⟨y, hy, hpc, hz⟩ := mem_flight.mp hm
    obtain ⟨x, hx, h1, h2, -, h4⟩ := ht t y hy z (by rw [hpc]; rfl) hz
    exact ⟨x, y, hx, ⟨h1.trans hpc, h2⟩, hy, by rw [Task.len, Task.len, h4]⟩
  refine h.mono (written_congr hp z) (fun t hm => ?_) fun t hm => ?_
  · obtain ⟨x, -, hx, hz, -⟩ := hsame t hm
    exact mem_flight.mpr ⟨x, hx, hz⟩
  · obtain ⟨x, y, hx, -, hy, hl⟩ := hsame t hm
    rw [appendLen, appendLen, hx, hy]
    exact hl.symm

namespace Issued

variable {x : Task α}

theorem flight (h : Issued s s' t z x) : flight s' z = insert t (flight s z) := by
  obtain ⟨f, hf, -, ht⟩ := h.tasks
  ext i
  rw [Finset.mem_insert, mem_flight, mem_flight, ht]
  by_cases hi : i = t
  · subst hi
    rw [Heap.get_modify_self h.here]
    exact iff_of_true ⟨f x, rfl, hf⟩ (Or.inl rfl)
  · rw [Heap.get_modify_ne hi, or_iff_right hi]

theorem flight_ne (h : Issued s s' t z x) {z' : ℕ} (hz : z' ≠ z) :
    Lbz.flight s' z' = Lbz.flight s z' := by
  obtain ⟨f, hf, -, ht⟩ := h.tasks
  ext i
  rw [mem_flight, mem_flight, ht]
  by_cases hi : i = t
  · subst hi
    rw [Heap.get_modify_self h.here, h.here]
    refine iff_of_false ?_ ?_
    · rintro ⟨y, hy, hy'⟩
      cases hy
      exact hz (Option.some.inj (hy'.2.symm.trans hf.2))
    · rintro ⟨y, hy, hy'⟩
      cases hy
      have hidle := h.idle
      rw [hy'.1] at hidle
      cases hidle
  · rw [Heap.get_modify_ne hi]

theorem appendLen (h : Issued s s' t z x) (i : ℕ) : appendLen s' i = appendLen s i := by
  obtain ⟨f, -, hl, ht⟩ := h.tasks
  rw [Lbz.appendLen, Lbz.appendLen, ht]
  by_cases hi : i = t
  · rw [hi, Heap.get_modify_self h.here, h.here]
    exact hl
  · rw [Heap.get_modify_ne hi]

/-- **An append makes no other zone partly written** than one of which nothing is on the device. -/
theorem foundPartly (h : Issued s s' t z x) {z' : ℕ} : FoundPartly c s' z' ↔
    FoundPartly c s z' ∨ z' = z ∧ written c s z = 0 ∧ x.len < c.zoneNrBlocks := by
  have hw := written_congr (c := c) h.phys
  have hx : Lbz.appendLen s t = x.len := by rw [Lbz.appendLen, h.here]; rfl
  simp only [foundPartly_iff, hw, h.appendLen]
  by_cases hz : z' = z
  · subst hz
    rw [h.flight]
    simp only [Finset.exists_mem_insert, hx, true_and, and_or_left, or_assoc]
    exact or_congr_right or_comm
  · have hn : ¬ (z' = z ∧ Lbz.written c s z = 0 ∧ x.len < c.zoneNrBlocks) := fun h => hz h.1
    rw [h.flight_ne hz, or_iff_left hn]

end Issued

namespace Landed

variable {x : Task α}

/-- The zone has as many blocks more as the bio has. -/
theorem written (h : Landed c s s' t z off x) :
    written c s' z = written c s z + x.len := by
  have hroom := h.room
  have hset : ((Finset.range c.zoneNrBlocks).filter fun o =>
      (s'.phys.content (c.startBlk z + o)).isSome) = ((Finset.range c.zoneNrBlocks).filter fun o =>
      (s.phys.content (c.startBlk z + o)).isSome) ∪ Finset.Ico off (off + x.len) := by
    ext o
    rw [Finset.mem_union, Finset.mem_filter, Finset.mem_filter, Finset.mem_range, Finset.mem_Ico,
      h.isSome_iff]
    constructor
    · rintro ⟨hlt, ho | ho⟩
      · exact Or.inl ⟨hlt, ho⟩
      · exact Or.inr (by omega)
    · rintro (⟨hlt, ho⟩ | ho)
      · exact ⟨hlt, Or.inl ho⟩
      · exact ⟨by omega, Or.inr (by omega)⟩
  rw [Lbz.written, hset, Finset.card_union_of_disjoint, Nat.card_Ico, Nat.add_sub_cancel_left]
  · rfl
  · rw [Finset.disjoint_left]
    intro o ho ho'
    obtain ⟨i, rfl⟩ := Nat.exists_eq_add_of_le (Finset.mem_Ico.mp ho').1
    have hfree := h.free i (by have := (Finset.mem_Ico.mp ho').2; omega)
    rw [Finset.mem_filter, ← Nat.add_assoc, hfree] at ho
    cases ho.2

/-- No other zone has. -/
theorem written_ne (g : Geom c) (h : Landed c s s' t z off x) (hz : z < c.nrZones) {z' : ℕ}
    (hz' : z' < c.nrZones) (hne : z' ≠ z) : Lbz.written c s' z' = Lbz.written c s z' := by
  have hroom := h.room
  rw [Lbz.written, Lbz.written]
  congr 1
  refine Finset.filter_congr fun o ho => ?_
  rw [h.isSome_iff, or_iff_left]
  intro hq
  obtain ⟨i, hi⟩ := Nat.exists_eq_add_of_le hq.1
  have h1 := contains_add hz' (Finset.mem_range.mp ho)
  rw [hi, Nat.add_assoc] at h1
  exact hne (g.unique h1 (contains_add hz (by omega)))

theorem flight_subset (h : Landed c s s' t z off x) (z' : ℕ) : flight s' z' ⊆ flight s z' :=
  fun i hi => by
    obtain ⟨y, hy, hz⟩ := mem_flight.mp hi
    rw [h.tasks] at hy
    obtain ⟨y', hy', hyz⟩ := NoLaunch.modify t (fun y z hf => by cases hf.1) i y hy z' hz
    exact mem_flight.mpr ⟨y', hy', hyz⟩

theorem appendLen (h : Landed c s s' t z off x) (i : ℕ) : appendLen s' i = appendLen s i := by
  rw [Lbz.appendLen, Lbz.appendLen, h.tasks, Heap.get_modify]
  split_ifs
  · cases s.tasks.get i <;> rfl
  · rfl

/-- **An append that lands makes no zone partly written** that could not be found so before. -/
theorem foundPartly (g : Geom c) (h : Landed c s s' t z off x) (hz : z < c.nrZones) {z' : ℕ}
    (hz' : z' < c.nrZones) (hp : FoundPartly c s' z') : FoundPartly c s z' := by
  by_cases hne : z' = z
  · subst hne
    have hlen := x.len_pos
    have hlt : Lbz.written c s z' + x.len < c.zoneNrBlocks := by
      rw [← h.written]
      rcases foundPartly_iff.mp hp with hp | hp
      · exact hp.2
      · rw [hp.1]
        obtain ⟨i, -, hi⟩ := hp.2
        omega
    rw [foundPartly_iff]
    rcases Nat.eq_zero_or_pos (Lbz.written c s z') with h0 | h0
    · refine Or.inr ⟨h0, t, mem_flight.mpr ⟨x, h.here, h.flies⟩, ?_⟩
      rw [Lbz.appendLen, h.here]
      change x.len < _
      omega
    · exact Or.inl ⟨h0, by omega⟩
  · exact hp.mono (h.written_ne g hz hz' hne) (h.flight_subset z') fun i _ => h.appendLen i

end Landed

/-- **A reset makes no zone partly written**, if no append is on its way to the zone. -/
theorem reset_foundPartly (g : Geom c) {i : ℕ} (hi : i < c.nrZones) (hflight : flight s i = ∅)
    (hphys : s'.phys = s.phys.resetZone c i) (htasks : s'.tasks = s.tasks) {z' : ℕ}
    (hz' : z' < c.nrZones) (hp : FoundPartly c s' z') : FoundPartly c s z' := by
  have hf : flight s' z' = flight s z' := by rw [flight, flight, htasks]
  have hcontent : ∀ o < c.zoneNrBlocks, s'.phys.content (c.startBlk z' + o) =
      if z' = i then none else s.phys.content (c.startBlk z' + o) := fun o ho => by
    rw [hphys]
    exact if_congr (g.reset_iff hi (contains_add hz' ho)) rfl rfl
  by_cases hne : z' = i
  · subst hne
    have hw : written c s' z' = 0 := by
      rw [written, Finset.card_eq_zero, Finset.filter_eq_empty_iff]
      intro o ho
      rw [hcontent o (Finset.mem_range.mp ho), if_pos rfl]
      nofun
    rw [foundPartly_iff, hw, hf, hflight] at hp
    rcases hp with h | ⟨-, t, ht, -⟩
    · exact absurd h.1 (lt_irrefl 0)
    · exact absurd ht (Finset.notMem_empty t)
  · refine hp.mono ?_ hf.subset fun t _ => by rw [appendLen, appendLen, htasks]
    rw [written, written]
    congr 1
    refine Finset.filter_congr fun o ho => ?_
    rw [hcontent o (Finset.mem_range.mp ho), if_neg hne]

variable [Inhabited α]

/-- A step that issues no append makes no zone partly written. -/
theorem step_foundPartly {e : Event α} (g : Geom c) (hB : Base c s.core) (L : Landing c s.core)
    (hs : step c s e = some s') :
    (∃ t z x, e.Issues c s z x.len ∧ Issued s s' t z x) ∨
    (∀ z n, ¬ e.Issues c s z n) ∧ ∀ z < c.nrZones, FoundPartly c s' z → FoundPartly c s z := by
  refine (step_device hB hs).imp_right fun ⟨hno, h⟩ => ⟨hno, fun z' hz' => ?_⟩
  rcases h with ⟨t, z, off, x, -, hl⟩ | ⟨t, he⟩ | ⟨i, hw⟩ | ⟨b, d, flush, more, -, hn⟩ | hc
  · exact hl.foundPartly g (L.zone t x hl.here z hl.flies) hz'
  · exact foundPartly_of_from he.phys he.tasks
  · obtain ⟨pl, P⟩ := hB.places
    have hi : pl i = .gc := P.reset i hw.worker
    have hflight : flight s i = ∅ := by
      rw [Finset.eq_empty_iff_forall_notMem]
      intro t ht
      obtain ⟨x, hx, hz⟩ := mem_flight.mp ht
      exact L.spent i (Or.inl hw.worker) (Or.inr ((P.gc i).mpr hi)) t x hx hz
    rcases hw.phys with hp | hp
    · exact foundPartly_of_from hp (hw.tasks ▸ .refl _)
    · exact reset_foundPartly g (lt_of_place P (by rw [hi]; nofun)) hflight hp hw.tasks hz'
  · exact foundPartly_of_from hn.phys hn.tasks
  · exact foundPartly_of_from hc.phys hc.tasks

end

/-! ## Which step makes a zone partly written -/

/-- Nothing of zone `z` is on the device, and no append to it that leaves it partly written is on its
way. -/
def Fresh (c : Conf) (s : Sys α) (z : ℕ) : Prop :=
  written c s z = 0 ∧ ∀ t ∈ flight s z, c.zoneNrBlocks ≤ appendLen s t

instance (c : Conf) (s : Sys α) (z : ℕ) : Decidable (Fresh c s z) :=
  inferInstanceAs (Decidable (_ ∧ _))

/-- No zone is started while two can be found partly written: the first append to a zone that is
shorter than the zone is issued where there is at most one. -/
def Event.Spread (c : Conf) (s : Sys α) (e : Event α) : Prop :=
  ∀ z < c.nrZones, ∀ n < c.zoneNrBlocks, e.Issues c s z n → Fresh c s z → (partZones c s).card ≤ 1

instance (c : Conf) (s : Sys α) (e : Event α) : Decidable (e.Spread c s) := by
  unfold Event.Spread
  infer_instance

theorem fresh_iff {c : Conf} {s : Sys α} {z : ℕ} (h0 : written c s z = 0) :
    Fresh c s z ↔ ¬ FoundPartly c s z := by
  rw [Fresh, foundPartly_iff, h0]
  simp

/-! ## Every run -/

section

variable {c : Conf} {s s' : Sys α} {t z : ℕ}

theorem partZones_subset (h : ∀ z < c.nrZones, FoundPartly c s' z → FoundPartly c s z) :
    partZones c s' ⊆ partZones c s := fun z hz => by
  obtain ⟨hlt, hp⟩ := mem_partZones.mp hz
  exact mem_partZones.mpr ⟨hlt, h z hlt hp⟩

/-- No more than two zones can be found partly written. -/
structure ReloadInv (c : Conf) (s : Sys α) : Prop where
  kept : Kept c (fun k => Counts k ∧ Landing c k) s
  part : (partZones c s).card ≤ 2

theorem ReloadInv.start {m : Zmd} (hB : Base c (freshSys m : Sys α).core)
    (hC : Counts (freshSys m : Sys α).core) : ReloadInv c (freshSys m : Sys α) := by
  have hL : Landing c (freshSys m : Sys α).core := by
    refine ⟨fun t x hx => ?_, fun i _ _ t x hx => ?_⟩ <;> exact nomatch hx
  refine ⟨⟨_, ⟨hB, hC, hL⟩, rfl, fun _ => rfl⟩, ?_⟩
  have h : partZones c (freshSys m : Sys α) = ∅ := by
    rw [Finset.eq_empty_iff_forall_notMem]
    intro z hz
    have h0 : written c (freshSys m : Sys α) z = 0 := by
      rw [written, Finset.card_eq_zero, Finset.filter_eq_empty_iff]
      exact fun o _ => nofun
    exact (fresh_iff h0).mp ⟨h0, fun t ht => absurd ht (Finset.notMem_empty t)⟩
      (mem_partZones.mp hz).2
  rw [h]
  exact Nat.zero_le 2

variable [Inhabited α]

/-- **One step**: two zones stay the bound exactly if the step starts no third one. -/
theorem partZones_step {e : Event α} (g : Geom c) (hB : Base c s.core) (L : Landing c s.core)
    (hs : step c s e = some s') (h2 : (partZones c s).card ≤ 2) :
    (partZones c s').card ≤ 2 ↔ e.Spread c s := by
  rcases step_foundPartly g hB L hs with ⟨t, z, x, hz, hissued⟩ | ⟨hno, hfound⟩
  · have hlt := hz.lt hB
    by_cases hnew : x.len < c.zoneNrBlocks ∧ Fresh c s z
    · -- the zone is started
      have hnot : z ∉ partZones c s := fun h =>
        (fresh_iff hnew.2.1).mp hnew.2 (mem_partZones.mp h).2
      have hpart : partZones c s' = insert z (partZones c s) := by
        ext z'
        rw [Finset.mem_insert, mem_partZones, mem_partZones, hissued.foundPartly]
        constructor
        · rintro ⟨h1, h | h⟩
          · exact Or.inr ⟨h1, h⟩
          · exact Or.inl h.1
        · rintro (rfl | h)
          · exact ⟨hlt, Or.inr ⟨rfl, hnew.2.1, hnew.1⟩⟩
          · exact ⟨h.1, Or.inl h.2⟩
      rw [hpart, Finset.card_insert_of_notMem hnot]
      constructor
      · exact fun h z' _ _ _ _ _ => by omega
      · intro h
        have := h z hlt _ hnew.1 hz hnew.2
        omega
    · have hpart : partZones c s' ⊆ partZones c s := partZones_subset fun z' _ hp => by
        refine (hissued.foundPartly.mp hp).elim id fun ⟨h1, h0, hl⟩ => ?_
        by_contra hn
        exact hnew ⟨hl, (fresh_iff h0).mpr (h1 ▸ hn)⟩
      refine iff_of_true ((Finset.card_le_card hpart).trans h2) fun z' _ n hn hz' hf => ?_
      obtain ⟨rfl, rfl⟩ := hz'.unique hz
      exact absurd ⟨hn, hf⟩ hnew
  · exact iff_of_true ((Finset.card_le_card (partZones_subset hfound)).trans h2)
      fun z _ n _ hz => absurd hz (hno z n)

theorem ReloadInv.step_iff {e : Event α} (g : Geom c) (a : ReloadInv c s)
    (hs : step c s e = some s') : (partZones c s').card ≤ 2 ↔ e.Spread c s := by
  obtain ⟨k, ⟨hB, -, L⟩, -, hk⟩ := a.kept
  have hb : s.bug = none := by
    rw [step] at hs
    split_ifs at hs with h
    exact h.1
  cases hk hb
  exact partZones_step g hB L hs a.part

theorem ReloadInv.step {e : Event α} (g : Geom c) (hN : 0 < c.zoneNrBlocks) (a : ReloadInv c s)
    (hok : e.Spread c s) (hs : Lbz.step c s e = some s') : ReloadInv c s' := by
  refine ⟨Kept.step hN (fun k l k' B h hm => ?_) hs a.kept, (a.step_iff g hs).mpr hok⟩
  exact ⟨h.1.move B hm, h.2.move B h.1 hm⟩

end

/-- **A device can be loaded again** wherever a run stops that starts no zone while two can be found
partly written, with any errors; the step that starts one then is the one that makes it fail. -/
theorem reload_exact [Inhabited α] {o : Options} {report : List BlkZone} {cap : ℕ} {s₀ s : Sys α}
    (he : EmptyReport o report) (hu : OneCapacity report cap) (h0 : initSys o report = some s₀)
    (hrun : Runs (stepRel (step (confOf o report))) (fun s e => e.Spread (confOf o report) s) s₀ s) :
    Reloads o report s ∧ ∀ e s', step (confOf o report) s e = some s' →
      (Reloads o report s' ↔ e.Spread (confOf o report) s) := by
  obtain ⟨hN, hB⟩ := base_of_capacity hu h0
  have hC := Counts.start h0
  obtain ⟨hr, m, -, rfl⟩ := initSys_eq h0
  have g := geom_of_empty he hr
  have a : ReloadInv (confOf o report) s :=
    Runs.inv (I := ReloadInv (confOf o report)) (fun s e s' a hok hs => a.step g hN hok hs) hrun
      (.start hB hC)
  refine ⟨(reloads_iff hu hr s).mpr a.part, fun e s' hs => ?_⟩
  rw [reloads_iff hu hr, a.step_iff g hs]

/-! ## Two runs -/

/-- Four zones of two blocks. -/
def pairZones : List BlkZone := emptyReport 4 16 16

/-- Write `t` is issued to block `t`. -/
def issueWrite (t : ℕ) : List (Event ℕ) :=
  [.submitWrite t 7 false, .runWrite t true, .runWrite t true]

/-- A stop where zones 0 and 1 have one block of two, the second append to zone 0 still on its way. -/
theorem reload_exact_two : ∃ s : Sys ℕ, partZones (confOf smallOptions pairZones) s = {0, 1} ∧
    Reloads smallOptions pairZones s := by
  let s₀ : Sys ℕ := (initSys smallOptions pairZones).get (by decide +kernel)
  obtain ⟨s, hrun, hs⟩ := exists_run (step (confOf smallOptions pairZones))
    (fun s e => e.Spread (confOf smallOptions pairZones) s)
    (fun s => decide (partZones (confOf smallOptions pairZones) s = {0, 1})) s₀
    (issueWrite 0 ++ issueWrite 1 ++ issueWrite 2 ++ [.devAppend 0 0, .devAppend 2 0])
    (by decide +kernel)
  exact ⟨s, of_decide_eq_true hs, (reload_exact smallOptions_empty
    (⟨by decide, by decide⟩ : OneCapacity pairZones 16) (Option.some_get _).symm hrun).1⟩

/-- Three zones are allocated in full, and the device has taken one append of two to each. -/
theorem reload_fails : ¬ ∀ (o : Options) (report : List BlkZone) (cap : ℕ) (s₀ s : Sys ℕ),
    EmptyReport o report → OneCapacity report cap → initSys o report = some s₀ →
    Runs (stepRel (step (confOf o report))) (fun _ _ => True) s₀ s → Reloads o report s := by
  intro h
  let s₀ : Sys ℕ := (initSys smallOptions pairZones).get (by decide +kernel)
  obtain ⟨s, hrun, hs⟩ := exists_run (step (confOf smallOptions pairZones)) (fun _ _ => True)
    (fun s => decide (partZones (confOf smallOptions pairZones) s = {0, 1, 2})) s₀
    ((List.range 6).flatMap issueWrite ++ [.devAppend 0 0, .devAppend 2 0, .devAppend 4 0])
    (by decide +kernel)
  have hu : OneCapacity pairZones 16 := ⟨by decide, by decide⟩
  have hle := (reloads_iff hu nofun s).mp
    (h smallOptions pairZones 16 s₀ s smallOptions_empty hu (Option.some_get _).symm hrun)
  rw [of_decide_eq_true hs] at hle
  exact absurd hle (by decide)

end Lbz
