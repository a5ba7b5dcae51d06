import Lbz.Start

/-!
# Where the blocks of a zone are

* `Geom c`: the zones of `c` follow each other, below sector `2 ^ 32`, and have room for a block;
* `c.Contains z p`: block `p` is in the capacity of zone `z`; there `getZoneByPbid` finds `z` and
  `dis` the place of `p` in it;
* `geom_of_empty`: a report with nothing written gives such a geometry.
-/

namespace Lbz

/-- The zones follow each other and their sector numbers fit an `unsigned int`. -/
structure Geom (c : Conf) : Prop where
  pos : 0 < c.zoneNrBlocks
  start : ∀ z < c.nrZones, c.startBlk z = z * (c.zoneSizeSectors / 8)
  room : c.zoneNrBlocks ≤ c.zoneSizeSectors / 8
  size : 8 ∣ c.zoneSizeSectors
  fits : c.nrZones * c.zoneSizeSectors ≤ 2 ^ 32

/-- Block `p` is in the capacity of zone `z`. -/
def Conf.Contains (c : Conf) (z p : ℕ) : Prop :=
  z < c.nrZones ∧ c.startBlk z ≤ p ∧ p < c.startBlk z + c.zoneNrBlocks

instance (c : Conf) (z p : ℕ) : Decidable (c.Contains z p) := by
  unfold Conf.Contains; infer_instance

variable {c : Conf} {z p : ℕ}

theorem contains_add {o : ℕ} (hz : z < c.nrZones) (ho : o < c.zoneNrBlocks) :
    c.Contains z (c.startBlk z + o) := ⟨hz, Nat.le_add_right _ _, Nat.add_lt_add_left ho _⟩

namespace Geom

/-- A block of a zone, in blocks of the zone size. -/
theorem eq_add (g : Geom c) (h : c.Contains z p) : ∃ o, p = z * (c.zoneSizeSectors / 8) + o ∧
    o < c.zoneSizeSectors / 8 ∧ o = p - c.startBlk z ∧ p * 8 < 2 ^ 32 := by
  obtain ⟨hz, h1, h2⟩ := h
  have hs := g.start z hz
  have hr := g.room
  have hf := g.fits
  obtain ⟨B, hB⟩ := g.size
  have hd : c.zoneSizeSectors / 8 = B := by omega
  rw [hs] at h1 h2
  rw [hd] at h1 h2 hr ⊢
  have hle : (z + 1) * B ≤ c.nrZones * B := Nat.mul_le_mul_right B hz
  rw [hB] at hf
  refine ⟨p - z * B, by omega, by omega, by rw [hs, hd], ?_⟩
  rw [Nat.add_mul, Nat.one_mul] at hle
  have : c.nrZones * (8 * B) = 8 * (c.nrZones * B) := by ring
  omega

theorem zone_eq (g : Geom c) (h : c.Contains z p) : getZoneByPbid c p = z := by
  obtain ⟨o, hp, ho, -, hlt⟩ := g.eq_add h
  obtain ⟨B, hB⟩ := g.size
  have hd : c.zoneSizeSectors / 8 = B := by omega
  rw [getZoneByPbid, blkidToSector, Nat.mod_eq_of_lt hlt, hB, Nat.mul_comm p,
    Nat.mul_div_mul_left _ _ (by norm_num : 0 < 8), hp, hd]
  rw [hd] at ho
  rw [Nat.mul_comm, Nat.mul_add_div (by omega), Nat.div_eq_of_lt ho, Nat.add_zero]

theorem dis_eq (g : Geom c) (h : c.Contains z p) : c.dis z p = p - c.startBlk z := by
  obtain ⟨o, hp, ho, heq, hlt⟩ := g.eq_add h
  have h1 := h.2.1
  rw [Conf.dis, u32, Int.emod_eq_of_lt] <;> omega

theorem dis_lt (g : Geom c) (h : c.Contains z p) : c.dis z p < c.zoneNrBlocks := by
  rw [g.dis_eq h]
  have := h.2
  omega

theorem dis_add (g : Geom c) {o : ℕ} (hz : z < c.nrZones) (ho : o < c.zoneNrBlocks) :
    c.dis z (c.startBlk z + o) = o := by
  rw [g.dis_eq (contains_add hz ho), Nat.add_sub_cancel_left]

/-- No block is in two zones. -/
theorem unique (g : Geom c) {z' : ℕ} (h : c.Contains z p) (h' : c.Contains z' p) : z = z' :=
  (g.zone_eq h).symm.trans (g.zone_eq h')

/-- A reset of zone `i` drops the blocks of zone `i` and of no other. -/
theorem reset_iff (g : Geom c) {i : ℕ} (hi : i < c.nrZones) (h : c.Contains z p) :
    (c.startBlk i ≤ p ∧ p < c.startBlk i + c.zoneSizeSectors / 8) ↔ z = i := by
  obtain ⟨o, hp, ho, -, -⟩ := g.eq_add h
  rw [g.start i hi]
  generalize c.zoneSizeSectors / 8 = B at hp ho ⊢
  constructor
  · rintro ⟨h1, h2⟩
    rw [hp] at h1 h2
    have h3 : i < z + 1 := by
      by_contra hlt
      have := Nat.mul_le_mul_right B (not_lt.mp hlt)
      rw [Nat.add_mul, Nat.one_mul] at this
      omega
    have h4 : z < i + 1 := by
      by_contra hlt
      have := Nat.mul_le_mul_right B (not_lt.mp hlt)
      rw [Nat.add_mul, Nat.one_mul] at this
      omega
    omega
  · rintro rfl
    omega

end Geom

variable {o : Options} {report : List BlkZone}

/-- The number of blocks is that of a capacity in an `unsigned int`. -/
theorem zoneNrBlocks_lt (o : Options) (report : List BlkZone) :
    (confOf o report).zoneNrBlocks < 2 ^ 29 := by
  cases report with
  | nil => norm_num [confOf]
  | cons b l =>
    change sectorToBlkid (b.capacity % 2 ^ 32) < 2 ^ 29
    rw [sectorToBlkid]
    omega

/-- So is the first block of a zone. -/
theorem startBlk_lt (o : Options) (report : List BlkZone) (z : ℕ) :
    (confOf o report).startBlk z < 2 ^ 29 := by
  change sectorToBlkid ((report[z]?.map fun b => b.start % 2 ^ 32).getD 0) < 2 ^ 29
  rw [sectorToBlkid]
  cases report[z]? with
  | none => norm_num
  | some b =>
    rw [Option.map_some, Option.getD_some]
    omega

/-- The layout of the zones that a report gives. -/
theorem geom_of_layout (hr : report ≠ [])
    (hstart : ∀ z b, report[z]? = some b → b.start = z * o.zoneSizeSectors)
    (hcap : ∀ b ∈ report, 8 ≤ b.capacity ∧ b.capacity ≤ o.zoneSizeSectors ∧ b.capacity < 2 ^ 32)
    (hsize : 8 ∣ o.zoneSizeSectors) (hfits : report.length * o.zoneSizeSectors ≤ 2 ^ 32) :
    Geom (confOf o report) := by
  obtain ⟨b, l, rfl⟩ := List.exists_cons_of_ne_nil hr
  obtain ⟨hc1, hc2, hc3⟩ := hcap b List.mem_cons_self
  have hN : (confOf o (b :: l)).zoneNrBlocks = b.capacity / 8 := by
    change sectorToBlkid (b.capacity % 2 ^ 32) = _
    rw [sectorToBlkid, Nat.mod_eq_of_lt hc3, Nat.mod_eq_of_lt (by omega)]
  refine ⟨by omega, fun z hz => ?_, ?_, hsize, hfits⟩
  · have hz' : z < (b :: l).length := hz
    have hget : (b :: l)[z]? = some (b :: l)[z] := List.getElem?_eq_getElem hz'
    have hst := hstart z _ hget
    have hlt : (b :: l)[z].start < 2 ^ 32 := by
      have h1 : (z + 1) * o.zoneSizeSectors ≤ (b :: l).length * o.zoneSizeSectors :=
        Nat.mul_le_mul_right _ hz'
      rw [Nat.add_mul, Nat.one_mul] at h1
      omega
    obtain ⟨B, hB⟩ := hsize
    change sectorToBlkid (((b :: l)[z]?.map fun b => b.start % 2 ^ 32).getD 0) =
      z * (o.zoneSizeSectors / 8)
    rw [hget, Option.map_some, Option.getD_some, Nat.mod_eq_of_lt hlt, sectorToBlkid,
      Nat.mod_eq_of_lt (by omega), hst, hB, Nat.mul_div_cancel_left B (by norm_num),
      Nat.mul_left_comm, Nat.mul_div_cancel_left _ (by norm_num)]
  · rw [hN]
    exact Nat.div_le_div_right hc2

/-- A report with nothing written. -/
theorem geom_of_empty (he : EmptyReport o report) (hr : report ≠ []) : Geom (confOf o report) :=
  geom_of_layout hr he.start he.capacity he.size he.fits

end Lbz
