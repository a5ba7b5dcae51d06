import Lbz.Lib.Run
import Mathlib.Algebra.Order.Ring.Nat
import Mathlib.Data.Finset.Basic
import Mathlib.Data.List.Nodup
import Std.Data.String.ToNat

/-!
# Device indices

`lbz-dev.c`: the ids of `lbz_device_idx` and the devices that hold them.

* `idaSimpleGet`, `idaSimpleRemove`: the kernel's `ida`;
* `Devices`: `lbz_device_idx` and the list `lbz_devices`; `deviceInit`, `deviceFree`, `createDevice`,
  `removeDevice`, with the places where a creation can fail;
* `IdsExact`: the ids that are held are those of the live devices;
* `DevEvent.KeepsIds`: no device but the one of id 0 is given back; `idsExact_step_iff`: just such
  steps keep `IdsExact`, since `lbz_device_free` releases the first minor in place of the id;
* **`device_idx_exact`**: in every run of such steps live devices have minors and names of their own,
  and `lbz_dev_find_by_minor` finds them.
-/

namespace Lbz

/-- `ida_simple_get`: the smallest id below `max` that is free. -/
def idaSimpleGet (held : Finset ℕ) (max : ℕ) : Option ℕ :=
  (List.range max).find? fun i => decide (i ∉ held)

/-- `ida_simple_remove`; an id that is not held stays so. -/
def idaSimpleRemove (held : Finset ℕ) (id : ℕ) : Finset ℕ := held.erase id

/-- `LBZ_MINORS` -/
def lbzMinors : ℕ := 128

/-- `LBZ_DEVICE_IDX_MAX`, with 20 for `MINORBITS`. -/
def lbzDeviceIdxMax : ℕ := 2 ^ 20 / lbzMinors

/-- `PAGE_SIZE` -/
def pageSize : ℕ := 4096

/-- `idx_to_first_minor` -/
def idxToFirstMinor (idx : ℕ) : ℕ := idx * lbzMinors

/-- `struct lbz_device` at the address `addr`, with what its gendisk says of it. -/
structure Device where
  addr : ℕ
  minor : ℕ
  devname : String
  firstMinor : ℕ
deriving DecidableEq, Repr

/-- `lbz_device_idx` and `lbz_devices`, newest first; `next` is the address of the next device. -/
structure Devices where
  deviceIdx : Finset ℕ
  devices : List Device
  next : ℕ
deriving DecidableEq

/-- Where `lbz_create_device` can fail. -/
inductive CreateFault
  /-- `-ENOMEM` for `struct lbz_device` -/
  | dev
  /-- `ida_simple_get` -/
  | idx
  /-- `blk_alloc_disk` -/
  | disk
  /-- `lbz_init_zone_metadata` -/
  | zone
  /-- `lbz_iosched_init` -/
  | iosched
  /-- `lbz_create_gc_thread` -/
  | gc
  /-- `lbz_dev_create_proc` -/
  | proc
  /-- `bioset_init` -/
  | bioset
deriving DecidableEq, Repr

/-- Past `lbz_device_init`: the labels from `bs_err` down to `zone_err` end in `lbz_device_free`. -/
def CreateFault.late : CreateFault → Bool
  | .dev | .idx | .disk => false
  | .zone | .iosched | .gc | .proc | .bioset => true

/-- The fields that `lbz_device_init` sets from the id. -/
def Device.ofIdx (addr idx : ℕ) : Device :=
  { addr, minor := idx, devname := "lbz" ++ toString idx, firstMinor := idxToFirstMinor idx }

/-- The id that `lbz_device_init` gets. -/
def Devices.getIdx (s : Devices) (fault : Option CreateFault) : Option ℕ :=
  if fault = some .dev ∨ fault = some .idx then none else idaSimpleGet s.deviceIdx lbzDeviceIdxMax

/-- `lbz_device_init` with the id it got: `none` for `-ENOMEM`. -/
def deviceInit (s : Devices) (blockSize : ℕ) (fault : Option CreateFault) (idx : ℕ) :
    Devices × Option Device :=
  let s := { s with deviceIdx := insert idx s.deviceIdx }
  -- `goto out`
  if blockSize > pageSize then (s, none)
  -- `goto out_ida_remove`
  else if fault = some .disk then
    ({ s with deviceIdx := idaSimpleRemove s.deviceIdx idx }, none)
  else ({ s with next := s.next + 1 }, some (.ofIdx s.next idx))

/-- `lbz_device_free` -/
def deviceFree (s : Devices) (d : Device) : Devices :=
  { s with deviceIdx := idaSimpleRemove s.deviceIdx d.firstMinor }

/-- `lbz_create_device`, failing at `fault` if it comes so far. -/
def createDevice (s : Devices) (blockSize : ℕ) (fault : Option CreateFault) : Devices :=
  match s.getIdx fault with
  | none => s
  | some idx =>
    match deviceInit s blockSize fault idx with
    | (s, none) => s
    | (s, some d) =>
      if fault.any CreateFault.late then deviceFree s d else { s with devices := d :: s.devices }

/-- `lbz_remove_device` -/
def removeDevice (s : Devices) (d : Device) : Devices :=
  { deviceFree s d with devices := s.devices.erase d }

/-- `lbz_dev_find_by_minor` -/
def devFindByMinor (s : Devices) (minor : ℕ) : Option Device :=
  s.devices.find? fun d => decide (d.minor = minor)

/-- Before the first device. -/
def Devices.empty : Devices := ⟨∅, [], 0⟩

inductive DevEvent
  | create (blockSize : ℕ) (fault : Option CreateFault)
  | remove (d : Device)
deriving DecidableEq, Repr

/-- A call; what is removed is a live device. -/
def devStep (s : Devices) : DevEvent → Option Devices
  | .create blockSize fault => some (createDevice s blockSize fault)
  | .remove d => if d ∈ s.devices then some (removeDevice s d) else none

/-- The call gives back no device whose first minor is not its id, and no id is left behind by the
test of the block size. -/
def DevEvent.KeepsIds (s : Devices) : DevEvent → Prop
  | .create blockSize fault => ∀ idx, s.getIdx fault = some idx →
      blockSize ≤ pageSize ∧ (fault.any CreateFault.late = true → idx = 0)
  | .remove d => d.minor = 0

instance (s : Devices) (e : DevEvent) : Decidable (e.KeepsIds s) :=
  match e with
  | .create blockSize fault => decidable_of_iff
      (∀ idx ∈ s.getIdx fault, blockSize ≤ pageSize ∧ (fault.any CreateFault.late = true → idx = 0))
      Iff.rfl
  | .remove d => inferInstanceAs (Decidable (d.minor = 0))

/-- The ids that are held are the minors of the live devices, one for each. -/
structure IdsExact (s : Devices) : Prop where
  held : ∀ i, i ∈ s.deviceIdx ↔ ∃ d ∈ s.devices, d.minor = i
  minors : (s.devices.map Device.minor).Nodup
  made : ∀ d ∈ s.devices, d = .ofIdx d.addr d.minor

/-! ## What the calls do -/

theorem idaSimpleGet_eq_some {held : Finset ℕ} {max i : ℕ} (h : idaSimpleGet held max = some i) :
    i < max ∧ i ∉ held ∧ ∀ j < i, j ∈ held := by
  obtain ⟨h1, h2, h3⟩ := List.find?_range_eq_some.mp h
  refine ⟨List.mem_range.mp h2, of_decide_eq_true h1, fun j hj => ?_⟩
  simpa using h3 j hj

theorem not_mem_of_getIdx {s : Devices} {fault : Option CreateFault} {idx : ℕ}
    (h : s.getIdx fault = some idx) : idx ∉ s.deviceIdx := by
  unfold Devices.getIdx at h
  split_ifs at h
  exact (idaSimpleGet_eq_some h).2.1

/-- The first minor is the id for id 0 only. -/
theorem idxToFirstMinor_eq_iff {idx : ℕ} : idxToFirstMinor idx = idx ↔ idx = 0 := by
  unfold idxToFirstMinor lbzMinors
  omega

namespace IdsExact

variable {s : Devices}

theorem empty : IdsExact Devices.empty := by
  refine ⟨fun i => ?_, List.nodup_nil, nofun⟩
  simp [Devices.empty]

/-- A device with a new id. -/
theorem add (a : IdsExact s) {idx : ℕ} (h : idx ∉ s.deviceIdx) :
    IdsExact ⟨insert idx s.deviceIdx, .ofIdx s.next idx :: s.devices, s.next + 1⟩ := by
  refine ⟨fun i => ?_, ?_, List.forall_mem_cons.mpr ⟨rfl, a.made⟩⟩
  · rw [Finset.mem_insert, List.exists_mem_cons_iff, a.held i]
    exact or_congr_left eq_comm
  · rw [List.map_cons, List.nodup_cons]
    refine ⟨fun hm => h ?_, a.minors⟩
    obtain ⟨d, hd, e⟩ := List.mem_map.mp hm
    exact (a.held idx).mpr ⟨d, hd, e⟩

/-- An id that no device has is left behind. -/
theorem not_of_left {s' : Devices} {i : ℕ} (hi : i ∈ s'.deviceIdx)
    (hd : ∀ d ∈ s'.devices, d.minor ≠ i) : ¬ IdsExact s' := fun a => by
  obtain ⟨d, hm, e⟩ := (a.held i).mp hi
  exact hd d hm e

/-- The device with a minor is the only one. -/
theorem eq_of_minor (a : IdsExact s) {d d' : Device} (hd : d ∈ s.devices) (hd' : d' ∈ s.devices)
    (e : d.minor = d'.minor) : d = d' := List.inj_on_of_nodup_map a.minors hd hd' e

/-- A late failure gives back id 0 only. -/
theorem give_back_iff (a : IdsExact s) {idx : ℕ} (h : idx ∉ s.deviceIdx) :
    IdsExact (deviceFree ⟨insert idx s.deviceIdx, s.devices, s.next + 1⟩ (.ofIdx s.next idx)) ↔
      idx = 0 := by
  constructor
  · intro a'
    by_contra h0
    refine absurd a' (not_of_left (i := idx) ?_ fun d hd e => h ((a.held idx).mpr ⟨d, hd, e⟩))
    exact Finset.mem_erase.mpr
      ⟨fun e => h0 (idxToFirstMinor_eq_iff.mp e.symm), Finset.mem_insert_self ..⟩
  · rintro rfl
    refine ⟨fun i => ?_, a.minors, a.made⟩
    change i ∈ (insert 0 s.deviceIdx).erase 0 ↔ _
    rw [Finset.erase_insert_eq_erase, Finset.erase_eq_of_notMem h]
    exact a.held i

theorem create_iff (a : IdsExact s) (blockSize : ℕ) (fault : Option CreateFault) :
    IdsExact (createDevice s blockSize fault) ↔ DevEvent.KeepsIds s (.create blockSize fault) := by
  rw [createDevice]
  change _ ↔ ∀ idx, s.getIdx fault = some idx → _
  cases hidx : s.getIdx fault with
  | none => exact ⟨fun _ => nofun, fun _ => a⟩
  | some idx =>
    have hnew := not_mem_of_getIdx hidx
    simp only [Option.some.injEq, forall_eq']
    by_cases hbs : blockSize > pageSize
    · -- the id is neither given back nor given to a device
      have hinit : deviceInit s blockSize fault idx =
        ({ s with deviceIdx := insert idx s.deviceIdx }, none) := if_pos hbs
      rw [hinit]
      refine ⟨fun a' => absurd a' ?_, fun h => absurd h.1 (not_le.mpr hbs)⟩
      exact not_of_left (i := idx) (Finset.mem_insert_self ..)
        fun d hd e => hnew ((a.held idx).mpr ⟨d, hd, e⟩)
    · by_cases hdisk : fault = some .disk
      · have hinit : deviceInit s blockSize fault idx =
            ({ s with deviceIdx := (insert idx s.deviceIdx).erase idx }, none) :=
          (if_neg hbs).trans (if_pos hdisk)
        rw [hinit, hdisk, Finset.erase_insert_eq_erase, Finset.erase_eq_of_notMem hnew]
        exact ⟨fun _ => ⟨not_lt.mp hbs, nofun⟩, fun _ => a⟩
      · have hinit : deviceInit s blockSize fault idx =
            (⟨insert idx s.deviceIdx, s.devices, s.next + 1⟩, some (.ofIdx s.next idx)) :=
          (if_neg hbs).trans (if_neg hdisk)
        rw [hinit]
        by_cases hlate : fault.any CreateFault.late = true
        · simp only [hlate, if_true, forall_const]
          exact (a.give_back_iff hnew).trans ⟨fun h => ⟨not_lt.mp hbs, h⟩, fun h => h.2⟩
        · simp only [hlate, if_false, Bool.false_eq_true, false_imp_iff, and_true]
          exact ⟨fun _ => not_lt.mp hbs, fun _ => a.add hnew⟩

theorem remove_iff (a : IdsExact s) {d : Device} (hd : d ∈ s.devices) :
    IdsExact (removeDevice s d) ↔ d.minor = 0 := by
  have hfirst : d.firstMinor = idxToFirstMinor d.minor := congrArg Device.firstMinor (a.made d hd)
  have hnodup : s.devices.Nodup := a.minors.of_map
  have hrest : ∀ d', d' ∈ s.devices.erase d ↔ d' ≠ d ∧ d' ∈ s.devices := fun d' =>
    hnodup.mem_erase_iff
  constructor
  · intro a'
    by_contra h0
    refine absurd a' (not_of_left (i := d.minor) ?_ fun d' hd' e => ?_)
    · change d.minor ∈ s.deviceIdx.erase d.firstMinor
      rw [hfirst]
      exact Finset.mem_erase.mpr
        ⟨fun e => h0 (idxToFirstMinor_eq_iff.mp e.symm), (a.held _).mpr ⟨d, hd, rfl⟩⟩
    · obtain ⟨hne, hd'⟩ := (hrest d').mp hd'
      exact hne (a.eq_of_minor hd' hd e)
  · intro h0
    rw [h0] at hfirst
    refine ⟨fun i => ?_, ?_, fun d' hd' => a.made d' (List.mem_of_mem_erase hd')⟩
    · change i ∈ s.deviceIdx.erase d.firstMinor ↔ ∃ d' ∈ s.devices.erase d, d'.minor = i
      rw [hfirst, Finset.mem_erase, a.held i]
      constructor
      · rintro ⟨hi, d', hd', rfl⟩
        exact ⟨d', (hrest d').mpr ⟨fun e => hi (by rw [e, h0]; rfl), hd'⟩, rfl⟩
      · rintro ⟨d', hd', rfl⟩
        obtain ⟨hne, hd'⟩ := (hrest d').mp hd'
        exact ⟨fun e => hne (a.eq_of_minor hd' hd (e.trans h0.symm)), d', hd', rfl⟩
    · exact a.minors.sublist ((List.erase_sublist).map _)

end IdsExact

/-- **Just the steps that keep the ids** lead from an exact state to an exact state. -/
theorem idsExact_step_iff {s s' : Devices} (a : IdsExact s) {e : DevEvent}
    (hs : devStep s e = some s') : IdsExact s' ↔ e.KeepsIds s := by
  cases e with
  | create blockSize fault =>
    cases hs
    exact a.create_iff blockSize fault
  | remove d =>
    simp only [devStep, Option.ite_none_right_eq_some, Option.some.injEq] at hs
    obtain ⟨hd, rfl⟩ := hs
    exact a.remove_iff hd

theorem devname_injective {i j : ℕ} (h : "lbz" ++ toString i = "lbz" ++ toString j) : i = j :=
  Nat.repr_injective ((String.append_right_inj _).mp h)

/-- **Ids are neither leaked nor reused** in a run that gives back no device but the one of id 0: the
ids that are held are those of the live devices, these have minors and names of their own, and each
is found by its minor. -/
theorem device_idx_exact {s : Devices}
    (h : Runs (stepRel devStep) (fun s e => e.KeepsIds s) Devices.empty s) :
    (∀ i, i ∈ s.deviceIdx ↔ ∃ d ∈ s.devices, d.minor = i) ∧
      (s.devices.map Device.minor).Nodup ∧ (s.devices.map Device.devname).Nodup ∧
      ∀ d ∈ s.devices, devFindByMinor s d.minor = some d := by
  have a : IdsExact s := by
    refine h.inv (I := IdsExact) (fun s e s' a he hs => ?_) .empty
    exact (idsExact_step_iff a hs).mpr he
  refine ⟨a.held, a.minors, ?_, fun d hd => ?_⟩
  · refine List.Nodup.map_on (fun d hd d' hd' e => a.eq_of_minor hd hd' ?_) a.minors.of_map
    rw [a.made d hd, a.made d' hd'] at e
    exact devname_injective e
  · cases hf : devFindByMinor s d.minor with
    | none => exact absurd (decide_eq_true rfl) (List.find?_eq_none.mp hf d hd)
    | some d' =>
      have e := List.find?_some hf
      rw [decide_eq_true_eq] at e
      exact congrArg some (a.eq_of_minor (List.mem_of_find?_eq_some hf) hd e)

/-- Two devices, the first of them removed, and a creation that fails late. -/
theorem device_idx_exact_two : ∃ s, Runs (stepRel devStep) (fun s e => e.KeepsIds s) Devices.empty s ∧
    s.deviceIdx = {1} ∧ (∀ i, i ∈ s.deviceIdx ↔ ∃ d ∈ s.devices, d.minor = i) ∧
    (s.devices.map Device.devname).Nodup := by
  obtain ⟨s, h1, h2⟩ := exists_run devStep (fun s e => e.KeepsIds s)
    (fun s : Devices => decide (s.deviceIdx = {1})) Devices.empty
    [.create 4096 none, .create 4096 none, .remove (.ofIdx 0 0), .create 4096 (some .gc),
      .create 4096 (some .disk)] (by decide +kernel)
  obtain ⟨h3, -, h4, -⟩ := device_idx_exact h1
  exact ⟨s, h1, of_decide_eq_true h2, h3, h4⟩

/-- The second of two devices is removed: `ida_simple_remove` gets 128, and id 1 stays held. -/
theorem device_idx_leak : ¬ ∀ s, Runs (stepRel devStep) (fun _ _ => True) Devices.empty s →
    ∀ i, i ∈ s.deviceIdx ↔ ∃ d ∈ s.devices, d.minor = i := by
  intro h
  obtain ⟨s, h1, h2⟩ := exists_run devStep (fun _ _ => True)
    (fun s : Devices => decide (1 ∈ s.deviceIdx ∧ ∀ d ∈ s.devices, d.minor ≠ 1)) Devices.empty
    [.create 4096 none, .create 4096 none, .remove (.ofIdx 1 1)] (by decide +kernel)
  obtain ⟨h3, h4⟩ := of_decide_eq_true h2
  obtain ⟨d, hd, e⟩ := (h s h1 1).mp h3
  exact h4 d hd e

end Lbz
