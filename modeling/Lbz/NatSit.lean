import Lbz.State

/-!
# The nat-sit rule

`lbz-nat-sit.[hc]`: which area of the file system a block lies in, the stream it is written to,
the partner block that becomes free with it, and the queue that `lbz_nat_sit_tx_complete` empties.
-/

namespace Lbz

/-- The arguments of the `s` command. -/
structure NatSitArgs where
  cpBlkaddr : ℕ
  sitBlkaddr : ℕ
  natBlkaddr : ℕ
  natBlocks : ℕ
deriving DecidableEq, Repr

namespace NatSit

variable (n : NatSit)

/-- `lbz_nat_sit_is_dup_block` -/
def isDupBlock (block : ℕ) : Bool :=
  decide (n.sitBlkaddr ≤ block ∧ block < (n.natBlkaddr + n.natBlocks) % 2 ^ 32)

/-- `lbz_nat_sit_is_cp_block` -/
def isCpBlock (block : ℕ) : Bool :=
  decide (n.cpBlkaddr ≤ block ∧ block < (n.cpBlkaddr + n.cpBlocks) % 2 ^ 32)

/-- `lbz_nat_sit_get_stream_id` -/
def getStreamId (c : Conf) (block : ℕ) : Fin 2 :=
  if c.streamSupport ∧ n.natBlkaddr ≠ 0 ∧ (n.natBlkaddr + n.natBlocks) % 2 ^ 32 ≤ block then 1
  else 0

/-- `lbz_nat_sit_to_free`: the same place in the other segment of the pair. -/
def partner (block : ℕ) : ℕ :=
  let segmentNo := block / n.blocksPerSegment
  let toFreeSeg := if segmentNo % 2 = 1 then segmentNo - 1 else segmentNo + 1
  (toFreeSeg * n.blocksPerSegment + block % n.blocksPerSegment) % 2 ^ 32

/-- `lbz_nat_sit_add_blkid` -/
def addBlkid (blkid : ℕ) : NatSit := { n with toFree := n.toFree ++ [blkid] }

/-- `lbz_nat_sit_add_write` -/
def addWrite : NatSit := { n with inflightWrites := n.inflightWrites + 1 }

/-- `lbz_nat_sit_complete_write` -/
def completeWrite : NatSit := { n with inflightWrites := n.inflightWrites - 1 }

/-- `lbz_nat_sit_add_rule`, past its two alignment checks. -/
def addRule (a : NatSitArgs) : NatSit :=
  { cpBlkaddr := a.cpBlkaddr
    sitBlkaddr := a.sitBlkaddr
    natBlkaddr := a.natBlkaddr
    natBlocks := a.natBlocks
    cpBlocks := u32 ((a.sitBlkaddr : ℤ) - a.cpBlkaddr)
    blocksPerSegment := 512
    inflightWrites := 0
    toFree := []
    totalFreedBlks := 0 }

/-- The rule of a new device: all arguments 0. -/
def initial : NatSit := addRule ⟨0, 0, 0, 0⟩

end NatSit

variable {α : Type}

/-- `lbz_nat_sit_add_rule` on a live device. -/
def installRule (s : Sys α) (a : NatSitArgs) : Sys α :=
  if a.sitBlkaddr % 512 ≠ 0 ∨ a.natBlkaddr % 512 ≠ 0 then s.halt .ruleAlign
  else { s with natSit := NatSit.addRule a }

/-- The body of the loop of `lbz_nat_sit_tx_complete`. -/
def freeBlkid (c : Conf) (s : Sys α) (blkid : ℕ) : Sys α :=
  if s.bug.isSome then s
  else if c.maxBlkid ≤ blkid then s.halt .blkidRange
  else
    match s.mapping blkid with
    | none => s
    | some oldPbid =>
      { s with
        mapping := Function.update s.mapping blkid none
        zmd := invalidateOld c s.zmd (some oldPbid)
        natSit := { s.natSit with totalFreedBlks := s.natSit.totalFreedBlks + 1 } }

/-- `lbz_nat_sit_tx_complete` -/
def natSitTxComplete (c : Conf) (s : Sys α) : Sys α :=
  let s := s.natSit.toFree.foldl (freeBlkid c) s
  { s with natSit := { s.natSit with toFree := [] } }

section

variable {α : Type} {c : Conf}

theorem freeBlkid_bug {s : Sys α} {b : ℕ} (h : (freeBlkid c s b).bug = none) : s.bug = none := by
  unfold freeBlkid at h
  split_ifs at h with h1 h2
  · exact h
  · cases h
  · exact Option.not_isSome_iff_eq_none.mp h1

/-- A device that has not stopped has unmapped the queued blocks. -/
theorem natSitTxComplete_mapping {s : Sys α} (h : (natSitTxComplete c s).bug = none) (b : ℕ) :
    (natSitTxComplete c s).mapping b = if b ∈ s.natSit.toFree then none else s.mapping b := by
  have key : ∀ (l : List ℕ) (s : Sys α), (l.foldl (freeBlkid c) s).bug = none → s.bug = none ∧
      (l.foldl (freeBlkid c) s).mapping b = if b ∈ l then none else s.mapping b := by
    intro l
    induction l with
    | nil => exact fun s h => ⟨h, rfl⟩
    | cons b' l ih =>
      intro s h
      obtain ⟨h1, h2⟩ := ih (freeBlkid c s b') h
      have hs := freeBlkid_bug h1
      refine ⟨hs, ?_⟩
      have hmap : (freeBlkid c s b').mapping b = if b = b' then none else s.mapping b := by
        have hr : ¬ c.maxBlkid ≤ b' := fun hr => by
          rw [freeBlkid, if_neg (by rw [hs]; nofun), if_pos hr] at h1
          cases h1
        rw [freeBlkid, if_neg (by rw [hs]; nofun), if_neg hr]
        cases hm : s.mapping b' with
        | none =>
          split_ifs with e
          · rw [e, hm]
          · rfl
        | some p => exact Function.update_apply ..
      rw [List.foldl_cons, h2, hmap]
      by_cases e : b = b' <;> simp [e]
  exact (key _ s h).2

end

end Lbz
