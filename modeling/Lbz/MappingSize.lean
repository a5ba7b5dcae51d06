import Lbz.Mapping
import Lbz.Zone

/-!
# The size of a new device

What `module_input` and `lbz_create_device` make of a size, and the C integers of `lbz_mapping_init`.

* `createSectors`: the `c` command's `dev_size << 21`, which is both `dev->dev_size` and the capacity
  of the disk;
* `MappingSizes`: the local variables of `lbz_mapping_init`, narrowed as they are; `lbzMappingInit`:
  the function on these, `none` where it leaves `mapping->root`;
* `lbzMappingInit_root`: where it does not, it has written indices below `MAX_INTERNAL_NODES` only;
* `RootFits`: the tree has room for its root, nothing overflows, and every sector has a block id;
* **`rootFits_iff`**: that is so up to the blocks that a full root indexes, which no code checks.
-/

namespace Lbz

/-! ## The constants of `lbz-mapping.h` -/

/-- `LBZ_INT_NODE_ENTRIES`: a header of 8 bytes, pointers of 8 bytes. -/
def intNodeEntries : ℕ := (4096 - 8) / 8

section

-- `sizeof(struct leaf_node_headr)`: an `unsigned int` behind a `rwlock_t`, whose size the kernel
-- configuration decides
variable (headr : ℕ)

/-- `LBZ_LEAF_NODE_ENTIRES` -/
def leafNodeEntries : ℕ := (4096 - headr) / 4

/-- `LBZ_INT_NODE_INDEXED_BLKS` -/
def intNodeIndexedBlks : ℕ := leafNodeEntries headr * intNodeEntries

/-- `LBZ_MAX_DEV_SIZE`, in GiB. -/
def lbzMaxDevSize : ℕ := 64

/-- `MAX_INTERNAL_NODES` -/
def maxInternalNodes : ℕ :=
  (lbzMaxDevSize * 2 ^ 18 + intNodeIndexedBlks headr - 1) / intNodeIndexedBlks headr

/-! ## The function -/

/-- `dev_size << 21` of a `long`, as a `sector_t`. -/
def createSectors (devSize : ℤ) : ℕ := (devSize * 2 ^ 21 % 2 ^ 64).toNat

/-- The local variables of `lbz_mapping_init`, and `mapping->max_blkid`. -/
structure MappingSizes where
  field : ℕ
  maxBlkid : ℤ
  nrInternalNode : ℤ
  nrLeafNode : ℤ
deriving DecidableEq, Repr

/-- `(max_blkid + entries - 1) / entries`, where `entries` is a `size_t`, stored in an `int`. -/
def ceilToInt (maxBlkid : ℤ) (entries : ℕ) : ℤ :=
  Int.bmod (((maxBlkid + entries - 1) % 2 ^ 64).toNat / entries : ℕ) (2 ^ 32)

/-- `dev->dev_size >> 3` goes to an `unsigned int`, and from there to an `int`. -/
def mappingSizes (devSize : ℕ) : MappingSizes :=
  let field : ℕ := devSize / 8 % 2 ^ 32
  let maxBlkid := Int.bmod field (2 ^ 32)
  { field
    maxBlkid
    nrInternalNode := ceilToInt maxBlkid (intNodeIndexedBlks headr)
    nrLeafNode := ceilToInt maxBlkid (leafNodeEntries headr) }

/-- `lbz_mapping_init` of a device of `devSize` sectors; the counters of its loops are not negative. -/
def lbzMappingInit (devSize : ℕ) :
    Option (Mapping (leafNodeEntries headr) intNodeEntries (maxInternalNodes headr)) :=
  let sizes := mappingSizes headr devSize
  (whileLoop (fun s => decide ((s.i : ℤ) < sizes.nrInternalNode))
    (initInternal sizes.nrLeafNode.toNat) sizes.nrInternalNode.toNat
    ⟨⟨fun _ => none, sizes.field, Heap.empty⟩, 0, 0, 0, 0⟩).map InitState.m

/-- The tree that a device of `devSize` sectors gets is as large as the device. -/
structure RootFits (devSize : ℕ) : Prop where
  root : (lbzMappingInit headr devSize).isSome
  maxBlkid : (mappingSizes headr devSize).maxBlkid = (devSize / 8 : ℕ)
  internal : (mappingSizes headr devSize).nrInternalNode =
    nrInternalNode (leafNodeEntries headr) intNodeEntries (devSize / 8)
  leaf : (mappingSizes headr devSize).nrLeafNode = nrLeafNode (leafNodeEntries headr) (devSize / 8)
  covers : ∀ sector < devSize, sectorToBlkid sector < (mappingSizes headr devSize).field

end

variable {L I M : ℕ}

/-! ## The indices of the root -/

theorem initLeaf_i {s s' : InitState L I M} (h : initLeaf s = some s') : s'.i = s.i := by
  obtain ⟨node, -, h⟩ := Option.bind_eq_some_iff.mp h
  obtain ⟨m, -, rfl⟩ := Option.map_eq_some_iff.mp h
  rfl

/-- A round of the outer loop writes a root entry that exists. -/
theorem initInternal_i {n : ℕ} {s s' : InitState L I M} (h : initInternal n s = some s') :
    s.i < M ∧ s'.i = s.i + 1 := by
  unfold initInternal at h
  split_ifs at h with hi
  obtain ⟨s₁, h1, rfl⟩ := Option.map_eq_some_iff.mp h
  have hinv := whileLoop_inv (P := fun x : InitState L I M => x.i = s.i)
    (fun x x' hx _ hs => (initLeaf_i hs).trans hx) (by rfl) h1
  exact ⟨hi, congrArg (· + 1) hinv.1⟩

/-- Where `lbz_mapping_init` stays in `mapping->root`, it has no index beyond it to write. -/
theorem lbzMappingInit_root {headr devSize : ℕ} (h : (lbzMappingInit headr devSize).isSome) :
    (mappingSizes headr devSize).nrInternalNode ≤ maxInternalNodes headr := by
  rw [lbzMappingInit, Option.isSome_map, Option.isSome_iff_exists] at h
  obtain ⟨s, h⟩ := h
  obtain ⟨h1, h2⟩ := whileLoop_inv (P := fun s : InitState (leafNodeEntries headr) intNodeEntries
    (maxInternalNodes headr) => s.i ≤ maxInternalNodes headr) (fun s s' _ _ hs => by
      obtain ⟨hi, he⟩ := initInternal_i hs
      omega) (Nat.zero_le _) h
  have h3 := of_decide_eq_false h2
  omega

/-! ## The sizes -/

section

variable {headr devSize : ℕ}

theorem leafNodeEntries_pos (hh : headr + 4 ≤ 4096) : 0 < leafNodeEntries headr := by
  unfold leafNodeEntries
  omega

theorem leafNodeEntries_le (headr : ℕ) : leafNodeEntries headr ≤ 1024 := by
  unfold leafNodeEntries
  omega

theorem intNodeIndexedBlks_pos (hh : headr + 4 ≤ 4096) : 0 < intNodeIndexedBlks headr :=
  Nat.mul_pos (leafNodeEntries_pos hh) (by decide)

theorem intNodeIndexedBlks_le (headr : ℕ) : intNodeIndexedBlks headr ≤ 1024 * 511 :=
  Nat.mul_le_mul_right _ (leafNodeEntries_le headr)

/-- A full root indexes less than twice the blocks of the largest device. -/
theorem rootBlks_le (headr : ℕ) :
    maxInternalNodes headr * intNodeIndexedBlks headr ≤ 64 * 2 ^ 18 + 1024 * 511 := by
  have h1 := intNodeIndexedBlks_le headr
  have h2 := Nat.div_mul_le_self (lbzMaxDevSize * 2 ^ 18 + intNodeIndexedBlks headr - 1)
    (intNodeIndexedBlks headr)
  change maxInternalNodes headr * intNodeIndexedBlks headr ≤ _ at h2
  unfold lbzMaxDevSize at h2
  omega

theorem bmod_small {n : ℕ} (h : n < 2 ^ 31) : Int.bmod n (2 ^ 32) = n :=
  Int.bmod_eq_of_le (by norm_num) (by norm_num; omega)

/-- A small number of blocks is divided as it should be. -/
theorem ceilToInt_eq {n e : ℕ} (hn : n < 2 ^ 30) (he : 0 < e) (hle : e ≤ 2 ^ 20) :
    ceilToInt n e = ((n + e - 1) / e : ℕ) := by
  have hsum : (((n : ℤ) + e - 1) % 2 ^ 64).toNat = n + e - 1 := by
    rw [Int.emod_eq_of_lt (by omega) (by omega)]
    omega
  have hlt : (n + e - 1) / e < 2 ^ 31 := (Nat.div_le_self _ _).trans_lt (by omega)
  exact (congrArg (fun k : ℕ => Int.bmod (k / e : ℕ) (2 ^ 32)) hsum).trans (bmod_small hlt)

theorem mappingSizes_eq (hh : headr + 4 ≤ 4096) (h : devSize / 8 < 2 ^ 30) :
    mappingSizes headr devSize =
      { field := devSize / 8
        maxBlkid := (devSize / 8 : ℕ)
        nrInternalNode := nrInternalNode (leafNodeEntries headr) intNodeEntries (devSize / 8)
        nrLeafNode := nrLeafNode (leafNodeEntries headr) (devSize / 8) } := by
  have hfield : devSize / 8 % 2 ^ 32 = devSize / 8 := Nat.mod_eq_of_lt (h.trans (by norm_num))
  have h1 := intNodeIndexedBlks_le headr
  have h2 := leafNodeEntries_le headr
  rw [mappingSizes, hfield]
  simp only [bmod_small (h.trans (by norm_num))]
  rw [ceilToInt_eq h (intNodeIndexedBlks_pos hh) (by omega),
    ceilToInt_eq h (leafNodeEntries_pos hh) (by omega)]
  rfl

/-- Without overflow, `lbz_mapping_init` is the function of the tree that is a finite map. -/
theorem lbzMappingInit_eq (hh : headr + 4 ≤ 4096) (h : devSize / 8 < 2 ^ 30) :
    lbzMappingInit headr devSize = mappingInit _ _ _ (devSize / 8) := by
  rw [lbzMappingInit, mappingSizes_eq hh h, mappingInit]
  simp only [Nat.cast_lt, Int.toNat_natCast]

/-- **The tree is as large as the device** just up to the blocks that a full root indexes. -/
theorem rootFits_iff (hh : headr + 4 ≤ 4096) (h8 : 8 ∣ devSize) :
    RootFits headr devSize ↔
      devSize ≤ 8 * (maxInternalNodes headr * intNodeIndexedBlks headr) := by
  have hpos := intNodeIndexedBlks_pos hh
  have hroom := rootBlks_le headr
  -- a root entry for each `intNodeIndexedBlks` blocks
  have hceil : nrInternalNode (leafNodeEntries headr) intNodeEntries (devSize / 8) ≤
      maxInternalNodes headr ↔
      devSize / 8 ≤ maxInternalNodes headr * intNodeIndexedBlks headr := by
    have h1 := lt_ceil_iff (n := devSize / 8) (k := maxInternalNodes headr) hpos
    exact not_lt.symm.trans ((not_congr h1).trans not_lt)
  constructor
  · intro a
    have h1 := lbzMappingInit_root a.root
    rw [a.internal, Nat.cast_le, hceil] at h1
    omega
  · intro h
    have hsmall : devSize / 8 < 2 ^ 30 := by omega
    have hsizes := mappingSizes_eq hh hsmall
    refine ⟨?_, by rw [hsizes], by rw [hsizes], by rw [hsizes], fun sector hs => ?_⟩
    · rw [lbzMappingInit_eq hh hsmall]
      obtain ⟨m, hm, -⟩ := mappingInit_spec (leafNodeEntries_pos hh) (by decide)
        (hceil.mpr (by omega))
      rw [hm]
      rfl
    · rw [hsizes]
      change sector / 8 % 2 ^ 32 < devSize / 8
      have h2 := Nat.mod_le (sector / 8) (2 ^ 32)
      omega

theorem eight_dvd_createSectors (devSize : ℤ) : 8 ∣ createSectors devSize := by
  unfold createSectors
  omega

/-- **The size of the `c` command.** Every `long` becomes a device; its mapping has the size of the
device just when a full root indexes that many blocks. -/
theorem create_fits_iff (hh : headr + 4 ≤ 4096) (devSize : ℤ) :
    RootFits headr (createSectors devSize) ↔
      createSectors devSize ≤ 8 * (maxInternalNodes headr * intNodeIndexedBlks headr) :=
  rootFits_iff hh (eight_dvd_createSectors devSize)

end

/-- With a header of 12 bytes, the last GiB that fits is the one past `LBZ_MAX_DEV_SIZE`; a larger
number can pass for a small one. -/
theorem createSectors_le_iff (devSize : ℤ) :
    createSectors devSize ≤ 8 * (maxInternalNodes 12 * intNodeIndexedBlks 12) ↔
      devSize % 2 ^ 43 ≤ 65 := by
  have h : 8 * (maxInternalNodes 12 * intNodeIndexedBlks 12) = 137736984 := by decide
  rw [h, createSectors]
  omega

theorem create_fits_iff_65 : RootFits 12 (createSectors 65) :=
  (create_fits_iff (by decide) 65).mpr (by decide)

/-- 66 GiB need 34 internal nodes, and the root has 33. -/
theorem create_66 : ¬ ∀ devSize : ℤ, -2 ^ 63 ≤ devSize → devSize < 2 ^ 63 →
    RootFits 12 (createSectors devSize) := by
  intro h
  have h1 := lbzMappingInit_root (h 66 (by decide) (by decide)).root
  revert h1
  decide

end Lbz
