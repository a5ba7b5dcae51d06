import Mathlib.Logic.Function.Basic
import Mathlib.Data.Int.Basic
import Mathlib.Tactic.Ring

/-!
# Zones and the zone metadata

The data of `lbz-zone-metadata.[hc]` and the functions that run under one lock on it.

* `Conf`: the configuration options and the geometry that `lbz_init_zone_metadata` fixes;
* `sectorToBlkid`, `blkidToSector`, `getZoneByPbid`: the conversions, in the C types;
* `Zone`, `Zmd`: `struct lbz_zone` and `struct lbz_zone_metadata`;
* `getZone`, `putZone`, `completeWrite`, `releaseGlobalRes`, `updateReverseMap`;
* `zoneAllocRes`, `findVictimZone` and the watermark checks.
-/

namespace Lbz

/-- `enum blk_zone_cond`. -/
inductive BlkZoneCond
  | notWp | empty | impOpen | expOpen | closed | readonly | full | offline
deriving DecidableEq, Repr

/-- `enum lbz_zone_state`: the bits of `zone->flags`. -/
inductive ZoneState
  | offline | readOnly | init | empty | active | parital | toFull | full | gc | gcCompleted
deriving DecidableEq, Repr

/-- `enum lbz_victim_mod`. -/
inductive VictimMod
  | default | regular | emergency
deriving DecidableEq, Repr

/-- `enum lbz_alloc_flag`. -/
inductive AllocFlag
  | user | gc
deriving DecidableEq, Repr

/-- `LBZ_ZONE_MAX_STREAM` is 2: the streams are `0` and `1`. -/
instance neZero_streams : NeZero 2 := ⟨two_ne_zero⟩

/-- The build options and what the initialisation fixes for the life of a device. -/
structure Conf where
  /-- `CONFIG_LBZ_NAT_SIT_SUPPORT` -/
  natSit : Bool
  /-- `CONFIG_LBZ_NAT_SIT_FREE_SUPPORT` -/
  freeSupport : Bool
  /-- `CONFIG_LBZ_NAT_SIT_STREAM_SUPPORT` -/
  streamSupport : Bool
  nrZones : ℕ
  /-- the capacity of a zone, in blocks -/
  zoneNrBlocks : ℕ
  /-- the size of a zone, in sectors -/
  zoneSizeSectors : ℕ
  startSector : ℕ → ℕ
  nrTotalBlks : ℤ
  /-- `mapping->max_blkid` -/
  maxBlkid : ℕ

/-- `reserved_blks_gc`: one zone. -/
def Conf.reservedBlksGc (c : Conf) : ℕ := c.zoneNrBlocks

/-! ## Sectors and block numbers -/

/-- An `int` read as an `unsigned int`. -/
def u32 (x : ℤ) : ℕ := (x % 2 ^ 32).toNat

def sectorToBlkid (sector : ℕ) : ℕ := sector / 8 % 2 ^ 32

def blkidToSector (blkid : ℕ) : ℕ := blkid * 8 % 2 ^ 32

variable (c : Conf)

/-- The first block of zone `z`. -/
def Conf.startBlk (z : ℕ) : ℕ := sectorToBlkid (c.startSector z)

/-- `get_zone_by_pbid`; `blk_queue_zone_no` divides the sector by the zone size. -/
def getZoneByPbid (pbid : ℕ) : ℕ := blkidToSector pbid / c.zoneSizeSectors

/-! ## Zones -/

/-- `struct lbz_zone`; a reverse-map entry that is `LBZ_INVALID_PBID` is `none`. -/
structure Zone where
  state : BlkZoneCond
  flags : ZoneState → Bool
  refcount : ℤ
  stream : ℤ
  id : ℕ
  wpBlock : ℕ
  weight : ℤ
  pendingWriteIo : ℤ
  zrms : ℕ → Option ℕ

/-- `struct lbz_zone_metadata`, less what `Conf` fixes. -/
@[ext] structure Zmd where
  zones : ℕ → Zone
  emptyZoneList : List ℕ
  fullZoneList : List ℕ
  activeZone : Fin 2 → Option ℕ
  emptyZoneCount : ℤ
  fullZoneCount : ℤ
  activeZoneCount : ℤ
  nrAllocableBlks : ℤ
  nrValidBlks : ℤ

/-- The word `1 << st`. -/
def oneFlag (st : ZoneState) : ZoneState → Bool := fun f => decide (f = st)

def Zone.setZoneState (st : ZoneState) (x : Zone) : Zone :=
  { x with flags := Function.update x.flags st true }

def Zone.clearZoneState (st : ZoneState) (x : Zone) : Zone :=
  { x with flags := Function.update x.flags st false }

theorem Zone.setZoneState_flags (st f : ZoneState) (x : Zone) :
    (x.setZoneState st).flags f = if f = st then true else x.flags f :=
  Function.update_apply x.flags st true f

@[simp] theorem Zone.setZoneState_self (st : ZoneState) (x : Zone) :
    (x.setZoneState st).flags st = true := by
  rw [setZoneState_flags, if_pos rfl]

theorem Zone.setZoneState_of_ne {st f : ZoneState} (h : f ≠ st) (x : Zone) :
    (x.setZoneState st).flags f = x.flags f := by rw [setZoneState_flags, if_neg h]

theorem Zone.clearZoneState_of_ne {st f : ZoneState} (h : f ≠ st) (x : Zone) :
    (x.clearZoneState st).flags f = x.flags f :=
  (Function.update_apply x.flags st false f).trans (if_neg h)

/-- Change zone `z`. -/
def Zmd.modZone (m : Zmd) (z : ℕ) (f : Zone → Zone) : Zmd :=
  { m with zones := Function.update m.zones z (f (m.zones z)) }

theorem Zmd.modZone_zones (m : Zmd) (z : ℕ) (f : Zone → Zone) (z' : ℕ) :
    (m.modZone z f).zones z' = if z' = z then f (m.zones z') else m.zones z' := by
  simp only [modZone, Function.update_apply]
  split_ifs with h
  · rw [h]
  · rfl

/-- `lbz_get_zone` -/
def getZone (m : Zmd) (z : ℕ) : Zmd :=
  m.modZone z fun x => { x with refcount := x.refcount + 1 }

/-- What `lbz_put_zone` does to the zone it holds the lock of. -/
def Zone.put (x : Zone) : Zone :=
  if x.refcount - 1 = 0 ∧ x.flags .gc then
    { x with refcount := x.refcount - 1, state := .empty }
  else if x.flags .toFull ∧ x.pendingWriteIo = 0 then
    { x with refcount := x.refcount - 1, state := .full }
  else { x with refcount := x.refcount - 1 }

/-- `lbz_put_zone` -/
def putZone (m : Zmd) (z : ℕ) : Zmd := m.modZone z Zone.put

/-- `lbz_zone_complete_write` -/
def zoneCompleteWrite (m : Zmd) (z : ℕ) : Zmd :=
  m.modZone z fun x => { x with pendingWriteIo := x.pendingWriteIo - 1 }

/-- `lbz_zone_release_global_res` -/
def releaseGlobalRes (m : Zmd) (z : ℕ) : Zmd :=
  { m.modZone z fun x => { x with weight := x.weight - 1 } with
    nrValidBlks := m.nrValidBlks - 1 }

/-- The index of `pbid` in the reverse map of zone `z`. -/
def Conf.dis (z pbid : ℕ) : ℕ := u32 ((pbid : ℤ) - c.startBlk z)

/-- `lbz_zone_update_reverse_map` -/
def updateReverseMap (m : Zmd) (z pbid : ℕ) (blkid : Option ℕ) : Zmd :=
  m.modZone z fun x => { x with zrms := Function.update x.zrms (c.dis z pbid) blkid }

/-- A position is given up: its reverse-map entry and its share of the weight. -/
def invalidate (m : Zmd) (z pbid : ℕ) : Zmd :=
  releaseGlobalRes (updateReverseMap c m z pbid none) z

/-- `get_zone_by_pbid` and `invalidate` on what the mapping held before. -/
def invalidateOld (m : Zmd) (oldPbid : Option ℕ) : Zmd :=
  match oldPbid with
  | some p => invalidate c m (getZoneByPbid c p) p
  | none => m

/-! ## Allocation -/

/-- What `lbz_zone_alloc_res` returns: a zone, `-EIO`, or `-EAGAIN`, the last with the branch it
came from. -/
inductive AllocRet
  | ok (z : ℕ)
  | eio
  | reserved
  | noZone
deriving DecidableEq, Repr

/-- `__get_free_zone` -/
def getFreeZone (m : Zmd) : Zmd × Option ℕ :=
  match m.emptyZoneList with
  | [] => (m, none)
  | z :: l => ({ m with emptyZoneList := l, emptyZoneCount := m.emptyZoneCount - 1 }, some z)

/-- A zone of `empty_zone_list` becomes the active zone of stream `i`. -/
def openZone (m : Zmd) (i : Fin 2) (z : ℕ) : Zmd :=
  { m with activeZone := Function.update m.activeZone i (some z) }.modZone z fun x =>
    { (x.setZoneState .active) with
      stream := i.val, refcount := x.refcount + 1, state := .expOpen }

theorem openZone_zones (m : Zmd) (i : Fin 2) (z z' : ℕ) : (openZone m i z).zones z' =
    if z' = z then { ((m.zones z').setZoneState .active) with
      stream := i.val, refcount := (m.zones z').refcount + 1, state := .expOpen }
    else m.zones z' :=
  Zmd.modZone_zones { m with activeZone := Function.update m.activeZone i (some z) } z
    (fun x => { (x.setZoneState .active) with
      stream := i.val, refcount := x.refcount + 1, state := .expOpen }) z'

/-- One block of the active zone `z` of stream `i` for one write: `lbz_get_zone`, `__alloc_res`,
the counters and `__pending_write`. -/
def allocRes (m : Zmd) (z : ℕ) : Zmd :=
  { m.modZone z fun x =>
      { x with
        refcount := x.refcount + 1, wpBlock := x.wpBlock + 1, weight := x.weight + 1,
        pendingWriteIo := x.pendingWriteIo + 1 } with
    nrAllocableBlks := m.nrAllocableBlks - 1, nrValidBlks := m.nrValidBlks + 1 }

theorem allocRes_zones (m : Zmd) (z z' : ℕ) : (allocRes m z).zones z' =
    if z' = z then { m.zones z' with
      refcount := (m.zones z').refcount + 1, wpBlock := (m.zones z').wpBlock + 1
      weight := (m.zones z').weight + 1, pendingWriteIo := (m.zones z').pendingWriteIo + 1 }
    else m.zones z' :=
  Zmd.modZone_zones m z (fun x => { x with
    refcount := x.refcount + 1, wpBlock := x.wpBlock + 1, weight := x.weight + 1,
    pendingWriteIo := x.pendingWriteIo + 1 }) z'

/-- The active zone `z` of stream `i` has no block left: it leaves its slot. -/
def leaveActive (m : Zmd) (i : Fin 2) (z : ℕ) : Zmd :=
  { putZone (m.modZone z fun x => (x.clearZoneState .active).setZoneState .toFull) z with
    activeZone := Function.update m.activeZone i none }

theorem leaveActive_zones (m : Zmd) (i : Fin 2) (z z' : ℕ) : (leaveActive m i z).zones z' =
    if z' = z then (((m.zones z').clearZoneState .active).setZoneState .toFull).put
    else m.zones z' := by
  change (putZone (m.modZone z _) z).zones z' = _
  rw [putZone, Zmd.modZone_zones, Zmd.modZone_zones]
  split_ifs <;> rfl

/-- The end of `lbz_zone_alloc_res`, with zone `z` in the slot of stream `i`. -/
def takeBlock (m : Zmd) (i : Fin 2) (z : ℕ) : Zmd × AllocRet :=
  let m := allocRes m z
  if (m.zones z).wpBlock = c.zoneNrBlocks then (leaveActive m i z, .ok z) else (m, .ok z)

/-- The branch of `lbz_zone_alloc_res` that needs a new active zone. -/
def openAndTake (m : Zmd) (i : Fin 2) : Zmd × AllocRet :=
  let m := match m.activeZone i with
    | some z => putZone m z
    | none => m
  match getFreeZone m with
  | (m, none) => ({ m with activeZone := Function.update m.activeZone i none }, .noZone)
  | (m, some z) => takeBlock c (openZone m i z) i z

/-- `lbz_zone_alloc_res` -/
def zoneAllocRes (faulty : Bool) (m : Zmd) (mod : AllocFlag) (i : Fin 2) : Zmd × AllocRet :=
  if faulty then (m, .eio)
  else if mod = .user ∧ u32 m.nrAllocableBlks < c.reservedBlksGc then (m, .reserved)
  else
    match m.activeZone i with
    | none => openAndTake c m i
    | some z =>
      if (m.zones z).wpBlock = c.zoneNrBlocks then openAndTake c m i else takeBlock c m i z

/-! ## Watermarks and the choice of a victim -/

/-- `lbz_check_zone_low_wm`, with `zone_reclaim_wm` its default of 1. -/
def checkZoneLowWm (m : Zmd) (z : ℕ) : Bool :=
  decide (u32 (m.zones z).weight ≤ u32 (c.zoneNrBlocks * 1) / 100)

/-- `lbz_check_need_reclaim_low`, with `reclaim_wm_gc_low` its default of 2. -/
def checkNeedReclaimLow (m : Zmd) : Bool :=
  decide (u32 (m.nrAllocableBlks - c.reservedBlksGc) < u32 (c.nrTotalBlks * 2) / 100)

/-- `lbz_check_need_reclaim_high`, with `reclaim_wm_gc_high` its default of 4. -/
def checkNeedReclaimHigh (m : Zmd) : Bool :=
  decide (u32 (m.nrAllocableBlks - c.reservedBlksGc) < u32 (c.nrTotalBlks * 4) / 100)

/-- The loop of `lbz_find_victim_zone` over `full_zone_list`. -/
def minZone (m : Zmd) : List ℕ → ℤ → Option ℕ → ℤ × Option ℕ
  | [], minValid, z => (minValid, z)
  | pos :: l, minValid, z =>
    if (m.zones pos).weight < minValid then minZone m l (m.zones pos).weight (some pos)
    else minZone m l minValid z

/-- Zone `z` leaves `full_zone_list` for garbage collection. -/
def takeVictim (m : Zmd) (z : ℕ) : Zmd :=
  { m with
    fullZoneList := m.fullZoneList.erase z
    fullZoneCount := m.fullZoneCount - 1
    activeZoneCount := m.activeZoneCount + 1 }.modZone z fun x =>
      { (x.setZoneState .gc) with refcount := x.refcount + 1 }

theorem takeVictim_zones (m : Zmd) (z z' : ℕ) : (takeVictim m z).zones z' =
    if z' = z then { ((m.zones z').setZoneState .gc) with refcount := (m.zones z').refcount + 1 }
    else m.zones z' :=
  Zmd.modZone_zones _ z (fun x => { (x.setZoneState .gc) with refcount := x.refcount + 1 }) z'

/-- The zone that `lbz_find_victim_zone` decides on. -/
def victim (m : Zmd) (mod : VictimMod) : Option ℕ :=
  match minZone m m.fullZoneList (2 ^ 31 - 1) none with
  | (_, none) => none
  | (minValid, some z) =>
    if c.zoneNrBlocks ≤ u32 minValid then none
    else if mod = .regular ∧ ¬ checkZoneLowWm c m z then none
    else some z

/-- `lbz_find_victim_zone` -/
def findVictimZone (m : Zmd) (mod : VictimMod) : Zmd × Option ℕ :=
  match victim c m mod with
  | none => (m, none)
  | some z => (takeVictim m z, some z)

end Lbz
