import Lbz.Allocable
import Lbz.Geometry

/-!
# The watermark checks

`lbz_check_need_reclaim_low` and `lbz_check_need_reclaim_high` compare an `int` less an
`unsigned int` with an `unsigned int`.

* `BelowWm c m wm`: the comparison over the integers; `WmExact`: both checks compute it;
* **`wmExact_iff`**: they do as long as the reserve is there, and the product of the high watermark
  does not leave 32 bits;
* `wmExact_not_reserved`: a user write takes the block that makes the difference wrap.
-/

namespace Lbz

variable {c : Conf} {m m' : Zmd}

/-- Less than `wm` percent of all blocks can be allocated besides the reserve. -/
def BelowWm (c : Conf) (m : Zmd) (wm : ℤ) : Prop :=
  m.allocable - c.reservedBlksGc < c.nrTotalBlks * wm / 100

instance (c : Conf) (m : Zmd) (wm : ℤ) : Decidable (BelowWm c m wm) := by
  unfold BelowWm; infer_instance

/-- The checks compare as integers. -/
structure WmExact (c : Conf) (m : Zmd) : Prop where
  low : checkNeedReclaimLow c m = true ↔ BelowWm c m 2
  high : checkNeedReclaimHigh c m = true ↔ BelowWm c m 4

namespace WmExact

theorem high_of_low (a : WmExact c m) (ht : 0 ≤ c.nrTotalBlks)
    (h : checkNeedReclaimLow c m = true) : checkNeedReclaimHigh c m = true := by
  have h1 := a.low.mp h
  refine a.high.mpr ?_
  unfold BelowWm at h1 ⊢
  omega

/-- Less free space never turns an answer from true to false. -/
theorem antitone (a : WmExact c m) (a' : WmExact c m') (hle : m.allocable ≤ m'.allocable) :
    (checkNeedReclaimLow c m' = true → checkNeedReclaimLow c m = true) ∧
      (checkNeedReclaimHigh c m' = true → checkNeedReclaimHigh c m = true) := by
  have hmono : ∀ wm, BelowWm c m' wm → BelowWm c m wm := fun wm h =>
    (Int.sub_le_sub_right hle _).trans_lt h
  exact ⟨fun h => a.low.mpr (hmono 2 (a'.low.mp h)), fun h => a.high.mpr (hmono 4 (a'.high.mp h))⟩

end WmExact

/-- The reserve is there, and `nr_total_blks * reclaim_wm_gc_high` fits 32 bits, or what it loses does
not matter. -/
def WmFits (c : Conf) (m : Zmd) : Prop :=
  c.reservedBlksGc ≤ m.allocable ∧ (c.nrTotalBlks < 2 ^ 30 ∨
    m.allocable - c.reservedBlksGc < (c.nrTotalBlks * 4 - 2 ^ 32) / 100 ∨
    c.nrTotalBlks * 4 / 100 ≤ m.allocable - c.reservedBlksGc)

theorem u32_cast (x : ℤ) : (u32 x : ℤ) = x % 2 ^ 32 :=
  Int.toNat_of_nonneg (Int.emod_nonneg _ (by norm_num))

/-- The difference as the code computes it. -/
theorem u32_sub_reserved (m : Zmd) (r : ℕ) :
    (u32 (m.nrAllocableBlks - r) : ℤ) = (m.allocable - r) % 2 ^ 32 := by
  rw [u32_cast, Zmd.allocable, Int.sub_emod (Int.bmod _ _), Int.sub_emod m.nrAllocableBlks]
  congr 2
  exact Int.bmod_emod.symm

theorem allocable_range (m : Zmd) : -2 ^ 31 ≤ m.allocable ∧ m.allocable < 2 ^ 31 := by
  have h1 := Int.le_bmod (x := m.nrAllocableBlks) (m := 2 ^ 32) (by norm_num)
  have h2 := Int.bmod_lt (x := m.nrAllocableBlks) (m := 2 ^ 32) (by norm_num)
  rw [Zmd.allocable]
  norm_num at h1 h2 ⊢
  omega

theorem wmExact_iff_fits (o : Options) (report : List BlkZone) (m : Zmd)
    (ht : (confOf o report).nrTotalBlks < 2 ^ 31) :
    WmExact (confOf o report) m ↔ WmFits (confOf o report) m := by
  have hN := zoneNrBlocks_lt o report
  have h0 : 0 ≤ (confOf o report).nrTotalBlks :=
    mul_nonneg (Int.natCast_nonneg _) (Int.natCast_nonneg _)
  generalize confOf o report = c at hN h0 ht ⊢
  obtain ⟨h1, h2⟩ := allocable_range m
  have hr : (c.reservedBlksGc : ℤ) < 2 ^ 29 := by exact_mod_cast hN
  have hd := u32_sub_reserved m c.reservedBlksGc
  have hlow : checkNeedReclaimLow c m = true ↔
      (m.allocable - c.reservedBlksGc) % 2 ^ 32 < c.nrTotalBlks * 2 % 2 ^ 32 / 100 := by
    rw [checkNeedReclaimLow, decide_eq_true_iff, ← Int.ofNat_lt, Int.natCast_ediv, hd, u32_cast]
    rfl
  have hhigh : checkNeedReclaimHigh c m = true ↔
      (m.allocable - c.reservedBlksGc) % 2 ^ 32 < c.nrTotalBlks * 4 % 2 ^ 32 / 100 := by
    rw [checkNeedReclaimHigh, decide_eq_true_iff, ← Int.ofNat_lt, Int.natCast_ediv, hd, u32_cast]
    rfl
  constructor
  · rintro ⟨hl, hh⟩
    rw [hlow, BelowWm] at hl
    rw [hhigh, BelowWm] at hh
    unfold WmFits
    omega
  · rintro ⟨hres, hfit⟩
    refine ⟨?_, ?_⟩
    · rw [hlow, BelowWm]
      omega
    · rw [hhigh, BelowWm]
      omega

/-- **The checks compare as integers** exactly while the reserve is there and the high watermark
fits. Then low implies high, and less free space never turns an answer to false. -/
theorem wmExact_iff (o : Options) (report : List BlkZone) (m : Zmd)
    (ht : (confOf o report).nrTotalBlks < 2 ^ 31) :
    (WmExact (confOf o report) m ↔ WmFits (confOf o report) m) ∧
    (WmFits (confOf o report) m →
      (checkNeedReclaimLow (confOf o report) m = true →
        checkNeedReclaimHigh (confOf o report) m = true) ∧
      ∀ m', WmFits (confOf o report) m' → m.allocable ≤ m'.allocable →
        (checkNeedReclaimLow (confOf o report) m' = true →
          checkNeedReclaimLow (confOf o report) m = true) ∧
        (checkNeedReclaimHigh (confOf o report) m' = true →
          checkNeedReclaimHigh (confOf o report) m = true)) := by
  have h0 : 0 ≤ (confOf o report).nrTotalBlks :=
    mul_nonneg (Int.natCast_nonneg _) (Int.natCast_nonneg _)
  refine ⟨wmExact_iff_fits o report m ht, fun hf => ?_⟩
  have a := (wmExact_iff_fits o report m ht).mpr hf
  exact ⟨a.high_of_low h0, fun m' hf' hle =>
    a.antitone ((wmExact_iff_fits o report m' ht).mpr hf') hle⟩

/-- Three zones of 64 blocks: the first is full, and the second has one block left. -/
def writtenZones : List BlkZone :=
  [⟨0, 512, 512, 512, .full⟩, ⟨512, 512, 1016, 512, .closed⟩, emptyZone 512 512 2]

/-- One block besides the reserve, at watermarks of three and seven blocks. -/
theorem wmExact_iff_written : ∃ s : Sys ℕ,
    initSys ⟨false, false, false, 512, 8⟩ writtenZones = some s ∧ s.zmd.allocable = 65 ∧
      checkNeedReclaimLow (confOf ⟨false, false, false, 512, 8⟩ writtenZones) s.zmd = true ∧
      WmExact (confOf ⟨false, false, false, 512, 8⟩ writtenZones) s.zmd := by
  let o : Options := ⟨false, false, false, 512, 8⟩
  let s : Sys ℕ := (initSys o writtenZones).get (by decide +kernel)
  exact ⟨s, (Option.some_get _).symm, by decide +kernel, by decide +kernel,
    (wmExact_iff o writtenZones s.zmd (by decide)).1.mpr ⟨by decide +kernel, Or.inl (by decide)⟩⟩

/-- With three zones of two blocks the fifth write leaves one block: less than the reserve of two, and
the low check says that no space is needed. -/
theorem wmExact_not_reserved : ¬ ∀ (o : Options) (report : List BlkZone) (s₀ s : Sys ℕ),
    (confOf o report).nrTotalBlks < 2 ^ 31 → initSys o report = some s₀ →
    Runs (stepRel (step (confOf o report))) (fun _ e => e.NoError) s₀ s →
    WmExact (confOf o report) s.zmd := by
  intro h
  let o : Options := ⟨false, false, false, 16, 8⟩
  let s₀ : Sys ℕ := (initSys o (emptyReport 3 16 16)).get (by decide)
  let write : ℕ → List (Event ℕ) := fun t =>
    [.submitWrite t 7 false, .runWrite t true, .runWrite t true]
  obtain ⟨s, hrun, h1⟩ := exists_run (step (confOf o (emptyReport 3 16 16))) (fun _ e => e.NoError)
    (fun s => decide (BelowWm (confOf o (emptyReport 3 16 16)) s.zmd 2) &&
      !checkNeedReclaimLow (confOf o (emptyReport 3 16 16)) s.zmd) s₀
    (List.flatten ((List.range 5).map write)) (by decide +kernel)
  rw [Bool.and_eq_true, Bool.not_eq_true'] at h1
  have h2 := (h o _ s₀ s (by decide) (Option.some_get _).symm hrun).low.mpr (of_decide_eq_true h1.1)
  rw [h1.2] at h2
  cases h2

end Lbz
