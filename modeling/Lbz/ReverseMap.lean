import Lbz.Geometry

/-!
# The pages of a reverse map, and block addresses

The reverse map of a zone is an array of pages, `zone->zrms`; `Zone.zrms` is its flat view.

* `RevMap n`: the reverse map as `n` pages; `set?`: `lbz_zone_update_reverse_map`, which **refines**
  `updateReverseMap` (`RevMap.set?_flat`);
* `gcOneZone`: the loop of `__gc_one_zone`, `none` where `LBZ_REVERSE_MAP_FOR_EACH_ENTRY` reads
  behind the array;
* **`gcOneZone_iff`**: the loop visits the written blocks, unless the zone is full and its capacity
  is a multiple of a page;
* **`addressed_iff`**: a block address survives the conversions below sector `2 ^ 32`.
-/

namespace Lbz

/-- `LBZ_REVERSE_MAP_ENTRIES` -/
abbrev reverseMapEntries : ℕ := 1024

/-- `zmd->zone_nr_reverse_map_blocks`, as `__init_zmd_by_first_zone` computes it. -/
def Conf.nrReverseMapBlocks (c : Conf) : ℕ :=
  (c.zoneNrBlocks * 4 % 2 ^ 32 + 4096 - 1) % 2 ^ 32 / 4096

/-- `zone->zrms`: `n` pages of entries. -/
structure RevMap (n : ℕ) where
  pages : Fin n → Fin reverseMapEntries → Option ℕ

namespace RevMap

variable {n : ℕ} (m : RevMap n) {i j : ℕ}

/-- `zrms[iter1]->blks[iter2]`, `none` out of the array. -/
def get? (iter1 iter2 : ℕ) : Option (Option ℕ) :=
  if h : iter1 < n ∧ iter2 < reverseMapEntries then some (m.pages ⟨iter1, h.1⟩ ⟨iter2, h.2⟩)
  else none

/-- The entry with the index `i`, counted over all pages. -/
def entryAt (i : ℕ) : Option (Option ℕ) := m.get? (i / reverseMapEntries) (i % reverseMapEntries)

/-- The map without its pages. -/
def flat (i : ℕ) : Option ℕ := (m.entryAt i).join

/-- `lbz_zone_update_reverse_map`, for the block at distance `dis` from the start of the zone. -/
def set? (dis : ℕ) (blkid : Option ℕ) : Option (RevMap n) :=
  let index := dis / reverseMapEntries
  let offset := dis % reverseMapEntries
  if h : index < n ∧ offset < reverseMapEntries then
    some ⟨Function.update m.pages ⟨index, h.1⟩
      (Function.update (m.pages ⟨index, h.1⟩) ⟨offset, h.2⟩ blkid)⟩
  else none

theorem offset_lt (i : ℕ) : i % reverseMapEntries < reverseMapEntries := Nat.mod_lt _ (by norm_num)

theorem entryAt_of_lt (h : i / reverseMapEntries < n) : m.entryAt i = some (m.flat i) := by
  have : m.entryAt i = some (m.pages ⟨_, h⟩ ⟨_, offset_lt i⟩) := dif_pos ⟨h, offset_lt i⟩
  rw [flat, this, Option.join_some]

theorem entryAt_of_le (h : n ≤ i / reverseMapEntries) : m.entryAt i = none :=
  dif_neg fun h' => absurd h'.1 (not_lt.mpr h)

/-- **On the pages of the array the function updates the flat map.** -/
theorem set?_flat {dis : ℕ} (h : dis / reverseMapEntries < n) (blkid : Option ℕ) :
    ∃ m', m.set? dis blkid = some m' ∧ ∀ i, i / reverseMapEntries < n →
      m'.flat i = Function.update m.flat dis blkid i := by
  refine ⟨_, dif_pos ⟨h, offset_lt dis⟩, fun i hi => ?_⟩
  have hflat : ∀ m : RevMap n, m.flat i = m.pages ⟨_, hi⟩ ⟨_, offset_lt i⟩ := fun m => by
    rw [flat, show m.entryAt i = some (m.pages ⟨_, hi⟩ ⟨_, offset_lt i⟩) from
      dif_pos ⟨hi, offset_lt i⟩, Option.join_some]
  rw [hflat]
  by_cases hd : i = dis
  · subst hd
    simp only [Function.update_self]
  · rw [Function.update_of_ne hd, hflat]
    by_cases hp : i / reverseMapEntries = dis / reverseMapEntries
    · -- another entry of the same page
      have ho : i % reverseMapEntries ≠ dis % reverseMapEntries := fun ho =>
        hd (by rw [← Nat.div_add_mod i reverseMapEntries, hp, ho, Nat.div_add_mod])
      have hf : (⟨i / reverseMapEntries, hi⟩ : Fin n) = ⟨dis / reverseMapEntries, h⟩ := Fin.ext hp
      simp only [hf, Function.update_self]
      exact Function.update_of_ne (fun e => ho (congrArg Fin.val e)) ..
    · have hf : (⟨i / reverseMapEntries, hi⟩ : Fin n) ≠ ⟨dis / reverseMapEntries, h⟩ :=
        fun e => hp (congrArg Fin.val e)
      simp only [Function.update_of_ne hf]

end RevMap

/-! ## The loop of `__gc_one_zone` -/

/-- What the body of the loop sees: the running `pbid` and the entry `pos`. -/
structure Visit where
  pbid : ℕ
  pos : Option ℕ
deriving DecidableEq

/-- `LBZ_REVERSE_MAP_FOR_EACH_ENTRY` in `__gc_one_zone`, from the test of its condition on. Other
contexts write the map meanwhile: `mem i` is the map when the entry `i` is read. -/
def forEachEntry {n : ℕ} (wpBlock : ℕ) (mem : ℕ → RevMap n) (iter : ℕ) (pos : Option ℕ)
    (pbid : ℕ) : Option (List Visit) :=
  if iter < wpBlock then
    -- the step reads the next entry before the condition is tested again
    ((mem (iter + 1)).entryAt (iter + 1)).bind fun next =>
      (forEachEntry wpBlock mem (iter + 1) next ((pbid + 1) % 2 ^ 32)).map (⟨pbid, pos⟩ :: ·)
  else some []
termination_by wpBlock - iter

/-- `__gc_one_zone` on zone `z` with the write pointer `wpBlock`. -/
def gcOneZone (c : Conf) (z wpBlock : ℕ) (mem : ℕ → RevMap c.nrReverseMapBlocks) :
    Option (List Visit) :=
  ((mem 0).entryAt 0).bind fun pos => forEachEntry wpBlock mem 0 pos (c.startBlk z)

section

variable {n wpBlock iter pbid : ℕ} {mem : ℕ → RevMap n}

theorem forEachEntry_of_lt (h : wpBlock / reverseMapEntries < n) (hp : pbid + wpBlock ≤ 2 ^ 32)
    (hi : iter ≤ wpBlock) : forEachEntry wpBlock mem iter ((mem iter).flat iter) (pbid + iter) =
      some ((List.range' iter (wpBlock - iter)).map fun i => ⟨pbid + i, (mem i).flat i⟩) := by
  induction hk : wpBlock - iter generalizing iter with
  | zero =>
    rw [forEachEntry, if_neg (by omega)]
    rfl
  | succ k ih =>
    have hlt : iter < wpBlock := by omega
    have hpage : (iter + 1) / reverseMapEntries < n :=
      (Nat.div_le_div_right (by omega)).trans_lt h
    have hnext : forEachEntry wpBlock mem (iter + 1) ((mem (iter + 1)).flat (iter + 1))
        ((pbid + iter + 1) % 2 ^ 32) =
        some ((List.range' (iter + 1) k).map fun i => ⟨pbid + i, (mem i).flat i⟩) := by
      by_cases hlast : iter + 1 = wpBlock
      · rw [forEachEntry, if_neg (by omega), show k = 0 by omega]
        rfl
      · rw [Nat.mod_eq_of_lt (by omega), Nat.add_assoc]
        exact ih (by omega) (by omega)
    rw [forEachEntry, if_pos hlt, RevMap.entryAt_of_lt _ hpage, Option.bind_some, hnext,
      Option.map_some, List.range'_succ, List.map_cons]

theorem forEachEntry_of_le (h : n ≤ wpBlock / reverseMapEntries) (hi : iter < wpBlock)
    (pos : Option ℕ) : forEachEntry wpBlock mem iter pos pbid = none := by
  induction hk : wpBlock - iter generalizing iter pos pbid with
  | zero => omega
  | succ k ih =>
    rw [forEachEntry, if_pos hi]
    by_cases hlast : iter + 1 = wpBlock
    · -- the last step reads the entry `wpBlock`
      rw [hlast, RevMap.entryAt_of_le _ h, Option.bind_none]
    · cases (mem (iter + 1)).entryAt (iter + 1) with
      | none => rfl
      | some next => rw [Option.bind_some, ih (by omega) _ (by omega), Option.map_none]

end

theorem nrReverseMapBlocks_eq {c : Conf} (h : c.zoneNrBlocks < 2 ^ 29) :
    c.nrReverseMapBlocks = (c.zoneNrBlocks + 1023) / 1024 := by
  rw [Conf.nrReverseMapBlocks]
  omega

/-- The loop runs its body for each written block in order, with the address and the entry of the
block, and reads nothing behind the array. -/
def ScansWritten (c : Conf) (z wpBlock : ℕ) (mem : ℕ → RevMap c.nrReverseMapBlocks) : Prop :=
  gcOneZone c z wpBlock mem =
    some ((List.range wpBlock).map fun i => ⟨c.startBlk z + i, (mem i).flat i⟩)

/-- **The loop scans the written blocks** of every zone, but for a full zone with a capacity of whole
pages. -/
theorem gcOneZone_iff (o : Options) (report : List BlkZone) (z wpBlock : ℕ)
    (mem : ℕ → RevMap (confOf o report).nrReverseMapBlocks)
    (hN : 1 ≤ (confOf o report).zoneNrBlocks) (hw : wpBlock ≤ (confOf o report).zoneNrBlocks) :
    ScansWritten (confOf o report) z wpBlock mem ↔
      ¬ (wpBlock = (confOf o report).zoneNrBlocks ∧
        reverseMapEntries ∣ (confOf o report).zoneNrBlocks) := by
  have hlt := zoneNrBlocks_lt o report
  have hn := nrReverseMapBlocks_eq hlt
  have hst := startBlk_lt o report z
  have hpage : wpBlock / reverseMapEntries < (confOf o report).nrReverseMapBlocks ↔
      ¬ (wpBlock = (confOf o report).zoneNrBlocks ∧
        reverseMapEntries ∣ (confOf o report).zoneNrBlocks) := by
    rw [hn, reverseMapEntries]
    omega
  have h0 : 0 / reverseMapEntries < (confOf o report).nrReverseMapBlocks := by
    rw [hn, reverseMapEntries]
    omega
  rw [← hpage, ScansWritten, gcOneZone, RevMap.entryAt_of_lt _ h0, Option.bind_some]
  constructor
  · intro h
    by_contra hle
    have hpos : 0 < wpBlock := by
      by_contra hz
      rw [Nat.eq_zero_of_not_pos hz] at hle
      exact hle h0
    rw [forEachEntry_of_le (not_lt.mp hle) hpos] at h
    cases h
  · intro h
    have := @forEachEntry_of_lt _ _ 0 ((confOf o report).startBlk z) mem h (by omega)
      (Nat.zero_le wpBlock)
    rw [Nat.add_zero, Nat.sub_zero] at this
    rw [this, List.range_eq_range']

/-- The theorem on a zone of two blocks, both written. -/
theorem gcOneZone_iff_two : ScansWritten (confOf ⟨false, false, false, 16, 2⟩
      [⟨0, 16, 16, 16, .full⟩]) 0 2 (fun _ => ⟨fun _ _ => some 1⟩) ↔
    ¬ (2 = (confOf ⟨false, false, false, 16, 2⟩ [⟨0, 16, 16, 16, .full⟩]).zoneNrBlocks ∧
      reverseMapEntries ∣ (confOf ⟨false, false, false, 16, 2⟩
        [⟨0, 16, 16, 16, .full⟩]).zoneNrBlocks) :=
  gcOneZone_iff _ _ 0 2 _ (by decide) (by decide)

/-- A full zone of 1024 blocks: the last step reads the second page of one. -/
theorem gcOneZone_whole_page : ¬ ScansWritten (confOf ⟨false, false, false, 8192, 1024⟩
    [⟨0, 8192, 8192, 8192, .full⟩]) 0 1024 fun _ => ⟨fun _ _ => none⟩ := by
  rw [ScansWritten, gcOneZone, RevMap.entryAt_of_lt _ (by decide), Option.bind_some,
    forEachEntry_of_le (by decide) (by decide)]
  nofun

/-- A turn of `gcScan` is a turn of the loop, as long as the loop stays in the array. -/
theorem gcScan_turn {α : Type} [Inhabited α] {c : Conf} {s : Sys α} {z iter : ℕ} (pos : Option ℕ)
    (m : RevMap c.nrReverseMapBlocks) (hm : (s.zmd.zones z).zrms = m.flat)
    (hi : iter < (s.zmd.zones z).wpBlock)
    (hp : (iter + 1) / reverseMapEntries < c.nrReverseMapBlocks) :
    ∃ next, m.entryAt (iter + 1) = some next ∧
      (gcScan c s z iter pos).gc.pc = .scan z (iter + 1) next := by
  refine ⟨_, m.entryAt_of_lt hp, ?_⟩
  simp only [gcScan, if_pos hi]
  cases pos with
  | none => rw [← hm]
  | some b =>
    change GcPc.scan z (iter + 1) (((getZone s.zmd z).zones z).zrms (iter + 1)) = _
    rw [getZone, Zmd.modZone_zones, if_pos rfl, ← hm]

/-! ## Block addresses -/

/-- The report of a device with zones of one size, a power of two, and blocks that 32 bits can
number. The capacities are those of the zones. -/
structure ZonedReport (o : Options) (report : List BlkZone) : Prop where
  size : ∃ k, o.zoneSizeSectors = 2 ^ k
  start : ∀ z b, report[z]? = some b → b.start = z * o.zoneSizeSectors
  capacity : ∀ b ∈ report, b.capacity ≤ o.zoneSizeSectors
  sectors : report.length * o.zoneSizeSectors ≤ 2 ^ 32 * 8

/-- Block `p` is in the capacity of the zone `b`. -/
def BlkZone.Holds (b : BlkZone) (p : ℕ) : Prop :=
  b.start / 8 ≤ p ∧ p < b.start / 8 + b.capacity / 8

/-- The conversions lead from block `p` of zone `z`, which `b` reports, back to it, and to an entry of
the reverse map that belongs to no other block of the zone. -/
structure Addressed (c : Conf) (z : ℕ) (b : BlkZone) (p : ℕ) : Prop where
  sector : sectorToBlkid (blkidToSector p) = p
  zone : getZoneByPbid c p = z
  index : c.dis z p / reverseMapEntries < c.nrReverseMapBlocks
  offset : c.dis z p % reverseMapEntries < reverseMapEntries
  apart : ∀ q, b.Holds q → c.dis z q / reverseMapEntries = c.dis z p / reverseMapEntries →
    c.dis z q % reverseMapEntries = c.dis z p % reverseMapEntries → q = p

/-- **A block address survives** exactly below sector `2 ^ 32`, in the pages that the capacity of the
first zone gives. -/
theorem addressed_iff {o : Options} {report : List BlkZone} (hr : ZonedReport o report) {z p : ℕ}
    {b : BlkZone} (hz : report[z]? = some b) (hp : b.Holds p) :
    Addressed (confOf o report) z b p ↔ p < 2 ^ 29 ∧
      (p - b.start / 8) / reverseMapEntries < (confOf o report).nrReverseMapBlocks := by
  obtain ⟨k, hk⟩ := hr.size
  have hlen : z < report.length := (List.getElem?_eq_some_iff.mp hz).1
  have hcap := hr.capacity b (List.mem_of_getElem? hz)
  have hstart := hr.start z b hz
  have hbelow : (z + 1) * o.zoneSizeSectors ≤ 2 ^ 32 * 8 :=
    (Nat.mul_le_mul_right _ hlen).trans hr.sectors
  rw [Nat.add_mul, Nat.one_mul] at hbelow
  have hst : (confOf o report).startSector z = b.start % 2 ^ 32 := by
    change ((report[z]?).map fun b => b.start % 2 ^ 32).getD 0 = _
    rw [hz]
    rfl
  -- a zone with a block has whole blocks
  have h8 : 8 ∣ o.zoneSizeSectors := by
    rw [hk]
    have h3 : 3 ≤ k := by
      by_contra h
      have : 2 ^ k ≤ 2 ^ 2 := Nat.pow_le_pow_right (by norm_num) (by omega)
      have := hp.1.trans_lt hp.2
      omega
    exact pow_dvd_pow 2 h3
  obtain ⟨B, hB⟩ := h8
  have hdiv : b.start / 8 = z * B := by
    rw [hstart, hB, Nat.mul_left_comm, Nat.mul_div_cancel_left _ (by norm_num)]
  have hsec : sectorToBlkid (blkidToSector p) = p % 2 ^ 29 := by
    rw [sectorToBlkid, blkidToSector]
    omega
  constructor
  · intro h
    have hlt : p < 2 ^ 29 := by
      have := h.sector
      rw [hsec] at this
      omega
    refine ⟨hlt, ?_⟩
    have hdis : (confOf o report).dis z p = p - b.start / 8 := by
      rw [Conf.dis, Conf.startBlk, hst, u32, sectorToBlkid]
      have := hp.1
      omega
    rw [← hdis]
    exact h.index
  · rintro ⟨hlt, hpage⟩
    have hdis : ∀ q, b.Holds q → (confOf o report).dis z q = q - b.start / 8 := fun q hq => by
      rw [Conf.dis, Conf.startBlk, hst, u32, sectorToBlkid]
      have h1 := hp.1
      have h2 := hq.1
      have h3 := hq.2
      omega
    refine ⟨by rw [hsec]; omega, ?_, by rwa [hdis p hp], RevMap.offset_lt _, fun q hq h1 h2 => ?_⟩
    · change blkidToSector p / o.zoneSizeSectors = z
      have h1 := hp.1
      have h2 := hp.2
      rw [blkidToSector, Nat.mod_eq_of_lt (by omega), hB, Nat.mul_comm p,
        Nat.mul_div_mul_left _ _ (by norm_num)]
      rw [hdiv] at h1 h2
      rw [Nat.div_eq_iff (by omega)]
      omega
    · have hd : (confOf o report).dis z q = (confOf o report).dis z p := by
        rw [← Nat.div_add_mod ((confOf o report).dis z q) reverseMapEntries, h1, h2,
          Nat.div_add_mod]
      rw [hdis q hq, hdis p hp] at hd
      have h3 := hp.1
      have h4 := hq.1
      omega

/-- Two zones of four blocks. -/
theorem addressed_iff_four : Addressed (confOf ⟨false, false, false, 32, 8⟩ (emptyReport 2 32 32)) 1
      (emptyZone 32 32 1) 6 ↔ 6 < 2 ^ 29 ∧
    (6 - (emptyZone 32 32 1).start / 8) / reverseMapEntries <
      (confOf ⟨false, false, false, 32, 8⟩ (emptyReport 2 32 32)).nrReverseMapBlocks := by
  have hr : ZonedReport ⟨false, false, false, 32, 8⟩ (emptyReport 2 32 32) := by
    have he := emptyReport_ok ⟨false, false, false, 32, 8⟩ 2 32 (by decide) (by decide) (by decide)
    exact ⟨⟨5, rfl⟩, he.start, fun b hb => (he.capacity b hb).2.1, by decide⟩
  exact addressed_iff hr (z := 1) (p := 6) rfl ⟨by decide, by decide⟩

/-- The first block of a third zone of `2 ^ 31` sectors: its sector becomes sector 0. -/
theorem addressed_not_wide : (emptyZone (2 ^ 31) (2 ^ 31) 2).Holds (2 ^ 29) ∧
    ¬ Addressed (confOf ⟨false, false, false, 2 ^ 31, 8⟩ (emptyReport 3 (2 ^ 31) (2 ^ 31))) 2
      (emptyZone (2 ^ 31) (2 ^ 31) 2) (2 ^ 29) := by
  refine ⟨⟨by decide, by decide⟩, fun h => ?_⟩
  have := h.sector
  revert this
  decide

end Lbz
