import Lbz.Init
import Mathlib.Algebra.Order.Ring.Nat

/-!
# The partner of a NAT or SIT block

`lbz_nat_sit_to_free` pairs the segments `2 i` and `2 i + 1` of the device, wherever an area starts.

* `partner_eq`: the partner is the block one segment on, or one segment back;
* `PairsInArea`: the partner of `b` is another block of its area, whose partner is `b`;
* **`pairs_in_area_iff`**: for an accepted rule, a block pairs in its area unless an odd segment
  starts the area or an even one ends it; all of them do exactly if the areas begin and end at pairs;
* `partner_escapes`: behind a checkpoint of two segments that starts at the second segment, the first
  SIT block has a checkpoint block for its partner.
-/

namespace Lbz

namespace NatSit

variable (n : NatSit)

/-- The first block and the end of the area that block `b` lies in: SIT or NAT. -/
def area (b : ℕ) : ℕ × ℕ :=
  if b < n.natBlkaddr then (n.sitBlkaddr, n.natBlkaddr)
  else (n.natBlkaddr, n.natBlkaddr + n.natBlocks)

/-- The partner of `b` is another block of its area, and `b` is its partner. -/
structure PairsInArea (b : ℕ) : Prop where
  inArea : (n.area b).1 ≤ n.partner b ∧ n.partner b < (n.area b).2
  ne : n.partner b ≠ b
  twice : n.partner (n.partner b) = b

/-- Block `b` is in a first segment with an odd number, or in a last one with an even number. -/
def Unpaired (b : ℕ) : Prop :=
  (n.area b).1 / n.blocksPerSegment % 2 = 1 ∧ b < (n.area b).1 + n.blocksPerSegment ∨
  (n.area b).2 / n.blocksPerSegment % 2 = 1 ∧ (n.area b).2 ≤ b + n.blocksPerSegment

instance (b : ℕ) : Decidable (n.Unpaired b) := by unfold Unpaired; infer_instance

variable {n}

theorem partner_eq (hs : n.blocksPerSegment = 512) {b : ℕ} (hb : b < 2 ^ 32) :
    n.partner b = if b / 512 % 2 = 1 then b - 512 else b + 512 := by
  rw [partner, hs]
  split_ifs <;> omega

theorem partner_lt (hs : n.blocksPerSegment = 512) {b : ℕ} (hb : b < 2 ^ 32) :
    n.partner b < 2 ^ 32 := by
  rw [partner_eq hs hb]
  split_ifs <;> omega

theorem partner_ne (hs : n.blocksPerSegment = 512) {b : ℕ} (hb : b < 2 ^ 32) :
    n.partner b ≠ b := by
  rw [partner_eq hs hb]
  split_ifs <;> omega

theorem partner_partner (hs : n.blocksPerSegment = 512) {b : ℕ} (hb : b < 2 ^ 32) :
    n.partner (n.partner b) = b := by
  rw [partner_eq hs (partner_lt hs hb), partner_eq hs hb]
  split_ifs <;> omega

/-- One segment on, or back, leaves an area of whole segments just from an unpaired segment. -/
theorem partner_inArea_iff (hs : n.blocksPerSegment = 512) {b lo hi : ℕ} (hb : b < 2 ^ 32)
    (hlo : lo % 512 = 0) (hhi : hi % 512 = 0) (hmem : lo ≤ b ∧ b < hi) :
    (lo ≤ n.partner b ∧ n.partner b < hi) ↔
      ¬ (lo / 512 % 2 = 1 ∧ b < lo + 512 ∨ hi / 512 % 2 = 1 ∧ hi ≤ b + 512) := by
  rw [partner_eq hs hb]
  split_ifs with h
  · -- an odd segment: the block goes back, and the end of the area is not in question
    have h1 : ¬ (hi / 512 % 2 = 1 ∧ hi ≤ b + 512) := by omega
    rw [or_iff_left h1]
    omega
  · have h1 : ¬ (lo / 512 % 2 = 1 ∧ b < lo + 512) := by omega
    rw [or_iff_right h1]
    omega

/-- The rule is laid out in whole segments, in order, on a device of `size` blocks. -/
structure LaidOut (n : NatSit) (size : ℕ) : Prop where
  seg : n.blocksPerSegment = 512
  sit : n.sitBlkaddr % 512 = 0
  nat : n.natBlkaddr % 512 = 0
  blocks : n.natBlocks % 512 = 0
  order : n.cpBlkaddr < n.sitBlkaddr ∧ n.sitBlkaddr < n.natBlkaddr
  fits : n.natBlkaddr + n.natBlocks ≤ size
  size : size < 2 ^ 32

theorem lt_of_dup {b : ℕ} (hb : n.isDupBlock b = true) : b < 2 ^ 32 := by
  rw [isDupBlock, decide_eq_true_eq] at hb
  omega

namespace LaidOut

variable {size b : ℕ} (h : LaidOut n size)

include h

theorem mem_area (hb : n.isDupBlock b = true) : (n.area b).1 ≤ b ∧ b < (n.area b).2 := by
  have h1 := h.order
  have h2 := h.fits
  have h3 := h.size
  rw [isDupBlock, decide_eq_true_eq, Nat.mod_eq_of_lt (by omega)] at hb
  rw [area]
  split_ifs <;> simp only <;> omega

theorem area_segments (b : ℕ) : (n.area b).1 % 512 = 0 ∧ (n.area b).2 % 512 = 0 := by
  have h1 := h.sit
  have h2 := h.nat
  have h3 := h.blocks
  rw [area]
  split_ifs <;> simp only <;> omega

/-- A block pairs in its area exactly if its segment has the other one of its pair there. -/
theorem pairsInArea_iff (hb : n.isDupBlock b = true) : n.PairsInArea b ↔ ¬ n.Unpaired b := by
  have hlt := lt_of_dup hb
  obtain ⟨h1, h2⟩ := h.area_segments b
  rw [Unpaired, h.seg, ← partner_inArea_iff h.seg hlt h1 h2 (h.mem_area hb)]
  exact ⟨fun a => a.inArea, fun a => ⟨a, partner_ne h.seg hlt, partner_partner h.seg hlt⟩⟩

/-- Every block pairs in its area exactly if both areas are made of pairs. -/
theorem all_pairsInArea_iff : (∀ b, n.isDupBlock b = true → n.PairsInArea b) ↔
    n.sitBlkaddr % 1024 = 0 ∧ n.natBlkaddr % 1024 = 0 ∧ n.natBlocks % 1024 = 0 := by
  have h1 := h.sit
  have h2 := h.nat
  have h3 := h.blocks
  have h4 := h.order
  have h5 := h.fits
  have h6 := h.size
  have hdup : ∀ b, n.isDupBlock b = true ↔ n.sitBlkaddr ≤ b ∧ b < n.natBlkaddr + n.natBlocks :=
    fun b => by rw [isDupBlock, decide_eq_true_eq, Nat.mod_eq_of_lt (by omega)]
  have key : ∀ b, n.sitBlkaddr ≤ b ∧ b < n.natBlkaddr + n.natBlocks →
      (n.PairsInArea b ↔ ¬ n.Unpaired b) := fun b hb => h.pairsInArea_iff ((hdup b).mpr hb)
  simp only [Unpaired, area, h.seg] at key
  constructor
  · intro hall
    -- the first blocks of the two areas, and the last ones
    have ha : n.sitBlkaddr % 1024 = 0 := by
      have h7 := (key n.sitBlkaddr (by omega)).mp (hall _ ((hdup _).mpr (by omega)))
      rw [if_pos h4.2] at h7
      simp only at h7
      omega
    have hn : n.natBlkaddr % 1024 = 0 := by
      have h7 := (key (n.natBlkaddr - 1) (by omega)).mp (hall _ ((hdup _).mpr (by omega)))
      rw [if_pos (by omega)] at h7
      simp only at h7
      omega
    refine ⟨ha, hn, ?_⟩
    by_contra hne
    have h7 := (key (n.natBlkaddr + n.natBlocks - 1) (by omega)).mp
      (hall _ ((hdup _).mpr (by omega)))
    rw [if_neg (by omega)] at h7
    simp only at h7
    omega
  · rintro ⟨ha, hn, hb⟩ b hdb
    refine (key b ((hdup b).mp hdb)).mpr ?_
    split_ifs <;> simp only <;> omega

end LaidOut

end NatSit

/-- A rule that passes the checks of `lbz_nat_sit_add_rule`. -/
theorem installRule_accepted {α : Type} {s : Sys α} {a : NatSitArgs}
    (hb : (installRule s a).bug = none) : a.sitBlkaddr % 512 = 0 ∧ a.natBlkaddr % 512 = 0 ∧
      (installRule s a).natSit = NatSit.addRule a := by
  unfold installRule at hb ⊢
  split_ifs at hb ⊢ with h
  · cases hb
  · exact ⟨by omega, by omega, rfl⟩

/-- **Where the partner of a block stays in its area**: unless its segment is the odd one that
starts the area, or the even one that ends it. It does for every block of the rule exactly if the
areas begin and end at pairs of segments. -/
theorem pairs_in_area_iff {α : Type} {s : Sys α} {a : NatSitArgs} {n : ℕ}
    (hb : (installRule s a).bug = none) (hcp : a.cpBlkaddr < a.sitBlkaddr)
    (hsit : a.sitBlkaddr < a.natBlkaddr) (hfits : a.natBlkaddr + a.natBlocks ≤ n)
    (hn : n < 2 ^ 32) (hblocks : a.natBlocks % (installRule s a).natSit.blocksPerSegment = 0) :
    (∀ b, (installRule s a).natSit.isDupBlock b = true →
      ((installRule s a).natSit.PairsInArea b ↔ ¬ (installRule s a).natSit.Unpaired b)) ∧
    ((∀ b, (installRule s a).natSit.isDupBlock b = true →
        (installRule s a).natSit.PairsInArea b) ↔
      a.sitBlkaddr % 1024 = 0 ∧ a.natBlkaddr % 1024 = 0 ∧ a.natBlocks % 1024 = 0) := by
  obtain ⟨h1, h2, h3⟩ := installRule_accepted hb
  rw [h3] at hblocks ⊢
  have h : (NatSit.addRule a).LaidOut n := ⟨rfl, h1, h2, hblocks, ⟨hcp, hsit⟩, hfits, hn⟩
  exact ⟨fun b hdb => h.pairsInArea_iff hdb, h.all_pairsInArea_iff⟩

/-- A checkpoint of one segment, two SIT segments and one NAT segment: block 1100 pairs in its area,
and not all blocks do. -/
theorem pairs_in_area_three : (installRule (freshSys emptyZmd : Sys ℕ)
      ⟨512, 1024, 2048, 512⟩).natSit.PairsInArea 1100 ∧
    ¬ ∀ b, (installRule (freshSys emptyZmd : Sys ℕ) ⟨512, 1024, 2048, 512⟩).natSit.isDupBlock b =
      true → (installRule (freshSys emptyZmd : Sys ℕ) ⟨512, 1024, 2048, 512⟩).natSit.PairsInArea b := by
  obtain ⟨h1, h2⟩ := pairs_in_area_iff (s := (freshSys emptyZmd : Sys ℕ))
    (a := ⟨512, 1024, 2048, 512⟩) (n := 4096) (by decide) (by decide) (by decide) (by decide)
    (by decide) (by decide)
  exact ⟨(h1 1100 (by decide)).mpr (by decide), fun h => absurd (h2.mp h) (by decide)⟩

/-- Behind a checkpoint of two segments, which begins at the second segment of the device as F2FS
lays it out, the partner of the first SIT block is a checkpoint block. -/
theorem partner_escapes : ¬ ∀ (s : Sys ℕ) (a : NatSitArgs) (size : ℕ),
    (installRule s a).bug = none → a.cpBlkaddr < a.sitBlkaddr → a.sitBlkaddr < a.natBlkaddr →
    a.natBlkaddr + a.natBlocks ≤ size → size < 2 ^ 32 →
    a.natBlocks % (installRule s a).natSit.blocksPerSegment = 0 →
    ∀ b, (installRule s a).natSit.isDupBlock b = true →
      (installRule s a).natSit.PairsInArea b := by
  intro h
  have h1 := (h (freshSys emptyZmd) ⟨512, 1536, 2560, 1024⟩ 8192 (by decide) (by decide) (by decide)
    (by decide) (by decide) (by decide) 1536 (by decide)).inArea
  revert h1
  decide

end Lbz
