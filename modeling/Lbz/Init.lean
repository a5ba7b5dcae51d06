import Lbz.Step

/-!
# Starting a device

* `BlkZone`: one entry of the zone report; `initZone`: `lbz_init_zone`, `none` where it stops at
  `BUG_ON(i == LBZ_ZONE_MAX_STREAM)`;
* `confOf`, `initSys`: what `lbz_create_device` makes of a report;
* `EmptyReport`: the report of a device with nothing written, where the sector numbers fit the
  driver's `unsigned int`.
-/

namespace Lbz

/-- `struct blk_zone` -/
structure BlkZone where
  start : ℕ
  len : ℕ
  wp : ℕ
  capacity : ℕ
  cond : BlkZoneCond
deriving DecidableEq, Repr

/-- The build options, and the part of the geometry that is not in the zone report. -/
structure Options where
  natSit : Bool
  freeSupport : Bool
  streamSupport : Bool
  zoneSizeSectors : ℕ
  maxBlkid : ℕ
deriving DecidableEq, Repr

/-- What the zone report and the options fix; `__init_zmd_by_first_zone` takes the capacity of
all zones from the first one. -/
def confOf (o : Options) (report : List BlkZone) : Conf :=
  let zoneNrBlocks := (report.head?.map fun b => sectorToBlkid (b.capacity % 2 ^ 32)).getD 0
  { natSit := o.natSit
    freeSupport := o.freeSupport
    streamSupport := o.streamSupport
    nrZones := report.length
    zoneNrBlocks
    zoneSizeSectors := o.zoneSizeSectors
    startSector := fun z => ((report[z]?).map fun b => b.start % 2 ^ 32).getD 0
    nrTotalBlks := report.length * zoneNrBlocks
    maxBlkid := o.maxBlkid }

/-- The write pointer of a reported zone, in blocks. -/
def BlkZone.wpBlock (b : BlkZone) : ℕ := sectorToBlkid (((b.wp : ℤ) - b.start) % 2 ^ 64).toNat

/-- The descriptor of zone `num` before its state is set. -/
def BlkZone.descriptor (b : BlkZone) (num : ℕ) : Zone :=
  { state := .notWp
    flags := fun _ => false
    refcount := 0
    stream := -1
    id := num
    wpBlock := b.wpBlock
    weight := Int.bmod b.wpBlock (2 ^ 32)
    pendingWriteIo := 0
    zrms := fun _ => none }

/-- The first stream without an active zone. -/
def freeStream (m : Zmd) : Option (Fin 2) :=
  if m.activeZone 0 = none then some 0
  else if m.activeZone 1 = none then some 1
  else none

/-- The part of `lbz_init_zone` that places a zone by its write pointer. -/
def placeZone (c : Conf) (m : Zmd) (num : ℕ) (b : BlkZone) : Option Zmd :=
  let x := b.descriptor num
  if x.wpBlock = 0 then
    some { m with
      zones := Function.update m.zones num { (x.setZoneState .init) with state := .empty }
      nrAllocableBlks := m.nrAllocableBlks + c.zoneNrBlocks
      emptyZoneList := m.emptyZoneList ++ [num]
      emptyZoneCount := m.emptyZoneCount + 1 }
  else if x.wpBlock < sectorToBlkid b.capacity then
    (freeStream m).map fun i =>
      { m with
        zones := Function.update m.zones num
          { (x.setZoneState .active) with
            refcount := x.refcount + 1, state := .impOpen, stream := i.val }
        activeZone := Function.update m.activeZone i (some num)
        nrAllocableBlks :=
          m.nrAllocableBlks + Int.bmod ((c.zoneNrBlocks : ℤ) - x.wpBlock) (2 ^ 32) }
  else
    some { m with
      zones := Function.update m.zones num { (x.setZoneState .full) with state := .full }
      fullZoneList := num :: m.fullZoneList
      fullZoneCount := m.fullZoneCount + 1 }

/-- The part of `lbz_init_zone` for zones that are not healthy. -/
def BlkZone.setCond (b : BlkZone) (x : Zone) : Zone :=
  match b.cond with
  | .offline => { (x.setZoneState .offline) with state := .offline }
  | .readonly => { (x.setZoneState .readOnly) with state := .readonly }
  | _ => x

/-- `lbz_init_zone` -/
def initZone (c : Conf) (m : Zmd) (num : ℕ) (b : BlkZone) : Option Zmd :=
  (placeZone c m num b).map fun m =>
    { m with nrValidBlks := m.nrValidBlks + Int.bmod b.wpBlock (2 ^ 32) }.modZone num b.setCond

/-- The metadata before `lbz_init_zones`. -/
def emptyZmd : Zmd :=
  { zones := fun z => BlkZone.descriptor ⟨0, 0, 0, 0, .notWp⟩ z
    emptyZoneList := []
    fullZoneList := []
    activeZone := fun _ => none
    emptyZoneCount := 0
    fullZoneCount := 0
    activeZoneCount := 0
    nrAllocableBlks := 0
    nrValidBlks := 0 }

/-- `lbz_init_zones`: the zones of the report from number `num` on. -/
def initZones (c : Conf) : Zmd → ℕ → List BlkZone → Option Zmd
  | m, _, [] => some m
  | m, num, b :: l => (initZone c m num b).bind fun m => initZones c m (num + 1) l

variable {α : Type}

/-- A device with the metadata `m`, and nothing going on. -/
def freshSys (m : Zmd) : Sys α :=
  { zmd := m
    mapping := fun _ => none
    tasks := Heap.empty
    taskTree := []
    userPending := []
    gcWrites := []
    retry := .idle
    retryCur := none
    reads := Heap.empty
    gc := ⟨.idle, none, false, false⟩
    wk := .idle
    natSit := NatSit.initial
    phys := ⟨fun _ => none⟩
    ready := true
    faulty := false
    transactionId := 0
    timestamp := 0
    userWriteInflight := 0
    userReadInflight := 0
    gcInflight := 0
    completes := []
    puts := []
    taskPuts := []
    hist := []
    bug := none }

/-- `lbz_create_device` on a report, `none` if it is not accepted. -/
def initSys (o : Options) (report : List BlkZone) : Option (Sys α) :=
  if report = [] then none
  else (initZones (confOf o report) emptyZmd 0 report).map freshSys

/-- No zone has anything written, and each has room for a block; the block layer puts zone `z` at
`z` times the zone size. The zones lie below sector `2 ^ 32`. -/
structure EmptyReport (o : Options) (report : List BlkZone) : Prop where
  start : ∀ z b, report[z]? = some b → b.start = z * o.zoneSizeSectors
  wp : ∀ b ∈ report, b.wp = b.start
  cond : ∀ b ∈ report, b.cond = .empty
  capacity : ∀ b ∈ report, 8 ≤ b.capacity ∧ b.capacity ≤ o.zoneSizeSectors ∧ b.capacity < 2 ^ 32
  size : 8 ∣ o.zoneSizeSectors
  fits : report.length * o.zoneSizeSectors ≤ 2 ^ 32

/-- A zone with nothing written. -/
def emptyZone (size capacity num : ℕ) : BlkZone := ⟨num * size, size, num * size, capacity, .empty⟩

/-- The report of `n` zones with nothing written. -/
def emptyReport (n size capacity : ℕ) : List BlkZone :=
  (List.range n).map (emptyZone size capacity)

theorem emptyReport_ok (o : Options) (n capacity : ℕ) (h8 : 8 ∣ o.zoneSizeSectors)
    (hc : 8 ≤ capacity ∧ capacity ≤ o.zoneSizeSectors ∧ capacity < 2 ^ 32) (hn : n * o.zoneSizeSectors ≤ 2 ^ 32) :
    EmptyReport o (emptyReport n o.zoneSizeSectors capacity) := by
  have hmem : ∀ b ∈ emptyReport n o.zoneSizeSectors capacity,
      ∃ z, b = emptyZone o.zoneSizeSectors capacity z := fun b hb => by
    obtain ⟨z, -, rfl⟩ := List.mem_map.mp hb
    exact ⟨z, rfl⟩
  refine ⟨fun z b hb => ?_, fun b hb => ?_, fun b hb => ?_, fun b hb => ?_, h8, ?_⟩
  · simp only [emptyReport, List.getElem?_map, Option.map_eq_some_iff,
      List.getElem?_eq_some_iff, List.length_range, List.getElem_range] at hb
    obtain ⟨z', ⟨-, rfl⟩, rfl⟩ := hb
    rfl
  · obtain ⟨z, rfl⟩ := hmem b hb
    rfl
  · obtain ⟨z, rfl⟩ := hmem b hb
    rfl
  · obtain ⟨z, rfl⟩ := hmem b hb
    exact hc
  · simpa [emptyReport] using hn

end Lbz
