import Lbz.Sched

/-!
# The gc thread and the zone-state worker

* `gcSelect`, `gcScan`: the steps of `lbz_gc_thread` and `__gc_one_zone`;
* `wkStart`, `wkStep`: `zone_state_wk_fn`, one decision, one zone command or one section under
  `zmd_lock` a step.
-/

namespace Lbz

variable {α : Type}

/-! ## `lbz_gc_thread` -/

/-- The mode of one round of `lbz_gc_thread`; `timeout` says whether
`LBZ_GC_RECLAIM_MIN_INTERVAL` has passed. -/
def victimMod (c : Conf) (s : Sys α) (timeout : Bool) : VictimMod :=
  if checkNeedReclaimLow c s.zmd ∨ s.gc.emergency then .emergency
  else if timeout ∨ s.gc.reclaiming then .regular
  else .default

/-- The last victim has not been reset yet. -/
def gcBusy (s : Sys α) : Bool :=
  match s.gc.gcZone with
  | some z => (s.zmd.zones z).flags .gc
  | none => false

/-- One round of `lbz_gc_thread`, up to the loop of `__gc_one_zone`. -/
def gcSelect (c : Conf) (s : Sys α) (timeout : Bool) : Sys α :=
  match findVictimZone c s.zmd (victimMod c s timeout) with
  | (_, none) => s
  | (m, some z) =>
    { s with
      zmd := m
      gc := { s.gc with gcZone := some z, pc := .scan z 0 ((m.zones z).zrms 0) }
      }.log (.select z (m.zones z).weight)

/-- One turn of `LBZ_REVERSE_MAP_FOR_EACH_ENTRY` in `__gc_one_zone`, or the end of it. -/
def gcScan [Inhabited α] (c : Conf) (s : Sys α) (z iter : ℕ) (pos : Option ℕ) : Sys α :=
  if iter < (s.zmd.zones z).wpBlock then
    let s := match pos with
      | some blkid => submitGcToIosched s z (c.startBlk z + iter) blkid
      | none => s
    { s with gc := { s.gc with pc := .scan z (iter + 1) ((s.zmd.zones z).zrms (iter + 1)) } }
  else
    { s with
      zmd := s.zmd.modZone z (Zone.setZoneState .gcCompleted)
      puts := (z, .gc) :: s.puts
      gc := { s.gc with pc := .idle, emergency := false } }

/-! ## `zone_state_wk_fn` -/

def wkStart (s : Sys α) : Sys α := { s with wk := .visit 0 false }

/-- The head of the loop, for zone `i`. -/
def wkVisit (c : Conf) (s : Sys α) (i : ℕ) (send : Bool) : Sys α :=
  if c.nrZones ≤ i then { s with wk := .idle }
  else if (s.zmd.zones i).flags .toFull then
    if (s.zmd.zones i).state = .full then
      { s with zmd := s.zmd.modZone i fun x => { x with state := .closed }, wk := .close i }
    else if send then { s with wk := .close i }
    else { s with wk := .visit (i + 1) send }
  else if (s.zmd.zones i).refcount ≠ 0 then { s with wk := .visit (i + 1) send }
  else { s with wk := .gcTest i send }

/-- `lbz_close_zone`, and `zone->flags` overwritten. -/
def wkClose (s : Sys α) (i : ℕ) : Sys α :=
  { s with
    zmd := s.zmd.modZone i fun x => { x with flags := oneFlag .full }
    wk := .link i }

/-- The closed zone goes to `full_zone_list`. -/
def wkLink (s : Sys α) (i : ℕ) : Sys α :=
  { s with
    zmd := { s.zmd with
      fullZoneList := s.zmd.fullZoneList ++ [i], fullZoneCount := s.zmd.fullZoneCount + 1 }
    wk := .visit (i + 1) true }

/-- `LBZ_ZONE_GC` and the state of zone `i`. -/
def wkGcTest (s : Sys α) (i : ℕ) (send : Bool) : Sys α :=
  if (s.zmd.zones i).flags .gc then
    if (s.zmd.zones i).state = .empty ∨ send then { s with wk := .reset i }
    else { s with gc := { s.gc with reclaiming := false }, wk := .visit (i + 1) send }
  else { s with wk := .visit (i + 1) send }

/-- `lbz_reset_zone` on the device: the blocks of the zone are gone. -/
def Phys.resetZone (c : Conf) (d : Phys α) (i : ℕ) : Phys α :=
  { content := fun p =>
      if c.startBlk i ≤ p ∧ p < c.startBlk i + c.zoneSizeSectors / 8 then none else d.content p }

/-- What `zone_state_wk_fn` makes of a zone it has reset. -/
def Zone.reset (x : Zone) : Zone :=
  { x with
    stream := -1, wpBlock := 0, state := .empty, flags := oneFlag .init, zrms := fun _ => none }

/-- `lbz_reset_zone`, the test of the weight, and the new content of the descriptor. -/
def wkReset (c : Conf) (s : Sys α) (i : ℕ) (ok : Bool) : Sys α :=
  if !ok then { s with faulty := true, wk := .idle }
  else if (s.zmd.zones i).weight ≠ 0 then
    { s with phys := s.phys.resetZone c i }.halt .resetValid
  else
    { s with
      phys := s.phys.resetZone c i
      zmd := s.zmd.modZone i Zone.reset
      wk := .publish i }.log (.reset i)

/-- The section under `zmd_lock` after a reset, and `lbz_complete_one_zone`. -/
def wkPublish (c : Conf) (s : Sys α) (i : ℕ) : Sys α :=
  { s with
    zmd := { s.zmd with
      emptyZoneList := s.zmd.emptyZoneList ++ [i]
      emptyZoneCount := s.zmd.emptyZoneCount + 1
      activeZoneCount := s.zmd.activeZoneCount - 1
      nrAllocableBlks := s.zmd.nrAllocableBlks + c.zoneNrBlocks }
    gc := { s.gc with reclaiming := false }
    wk := .visit (i + 1) true }

/-- One step of `zone_state_wk_fn`; `ok` is the answer of the device to a reset. -/
def wkStep (c : Conf) (s : Sys α) (ok : Bool) : Sys α :=
  match s.wk with
  | .idle => s
  | .visit i send => wkVisit c s i send
  | .close i => wkClose s i
  | .link i => wkLink s i
  | .gcTest i send => wkGcTest s i send
  | .reset i => wkReset c s i ok
  | .publish i => wkPublish c s i

end Lbz
