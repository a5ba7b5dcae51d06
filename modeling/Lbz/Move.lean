import Lbz.Init

/-!
# The moves of the shared data

The part of a state that the invariants speak about, and what an event can do to it.

* `Core`: the metadata, the mapping, the tasks, the reads, the places of the workers, the device;
* `Move c k l k'`: one change of it, with everything that guards it; `l` marks the moves that the
  conditions of later results are about;
* `Path`: several moves. Every event of the driver is a path (`path_of_step`), so that an invariant
  is proved once for each move.
-/

namespace Lbz

/-- What the invariants are about. -/
structure Core (α : Type) where
  zmd : Zmd
  mapping : ℕ → Option ℕ
  tasks : Heap (Task α)
  taskTree : List ℕ
  userPending : List ℕ
  gcWrites : List ℕ
  retry : RetryPc
  retryCur : Option ℕ
  reads : Heap (ReadHook α)
  gcPc : GcPc
  gcZone : Option ℕ
  wk : WkPc
  phys : Phys α
  completes : List ℕ
  puts : List (ℕ × PutBy)
  taskPuts : List ℕ
  gcInflight : ℤ
  userWriteInflight : ℤ
  userReadInflight : ℤ
  timestamp : ℕ
  hist : List (Obs α)

variable {α : Type}

def Sys.core (s : Sys α) : Core α :=
  { zmd := s.zmd, mapping := s.mapping, tasks := s.tasks, taskTree := s.taskTree,
    userPending := s.userPending, gcWrites := s.gcWrites, retry := s.retry, retryCur := s.retryCur,
    reads := s.reads, gcPc := s.gc.pc, gcZone := s.gc.gcZone, wk := s.wk, phys := s.phys,
    completes := s.completes, puts := s.puts, taskPuts := s.taskPuts, gcInflight := s.gcInflight,
    userWriteInflight := s.userWriteInflight, userReadInflight := s.userReadInflight,
    timestamp := s.timestamp, hist := s.hist }

/-- The last call on the task the retry worker took has returned. -/
def Core.Returned (k : Core α) : Prop :=
  ∀ t x, k.retryCur = some t → k.tasks.get t = some x → ¬ x.pc.running

/-- The last victim has not been reset yet. -/
def Core.Busy (k : Core α) : Prop := ∃ z, k.gcZone = some z ∧ (k.zmd.zones z).flags .gc = true

/-- What a move is, for the conditions of later results. -/
inductive Label
  | plain
  /-- the worker acts on a flag that it carries from an earlier zone -/
  | stale
  /-- a victim is chosen -/
  | select
  /-- block `b` is freed by `lbz_nat_sit_tx_complete` -/
  | discard (b : ℕ)
  /-- the user write `t` is entered into the mapping -/
  | stored (t : ℕ)
  /-- the gc task `g` is entered into the mapping -/
  | moved (g : ℕ)
  /-- an error of the device or of an allocation takes effect -/
  | fault
deriving DecidableEq

/-- The flag of `lbz_zone_alloc_res` for a block of `x`. -/
def Task.flag (x : Task α) : AllocFlag := if x.type ≠ .gc ∧ x.link = .null then .user else .gc

def Task.incRef (x : Task α) : Task α := { x with refcount := x.refcount + 1 }

def Task.decRef (x : Task α) : Task α := { x with refcount := x.refcount - 1 }

variable (c : Conf)

/-- One change of the shared data. -/
inductive Move [Inhabited α] : Core α → Label → Core α → Prop
  -- a user write
  | submitWrite {k : Core α} {ty : TaskType} (b : ℕ) (d : α) (more : List α) (hty : ty ≠ .gc) :
      Move k .plain { k with
        tasks := k.tasks.alloc (Task.forWrite ty b d more)
        userWriteInflight := k.userWriteInflight + 1
        hist := .submitW k.tasks.next b d more :: k.hist }
  | conflict {k : Core α} {t tk : ℕ} {x y : Task α} (hx : k.tasks.get t = some x)
      (hty : x.type ≠ .gc) (hst : x.status = .init) (hpc : x.pc = .submit)
      (htk : tk ∈ k.taskTree) (hy : k.tasks.get tk = some y) (hb : y.blkid = x.blkid) :
      Move k .plain { k with
        tasks := (k.tasks.modify tk Task.incRef).modify t fun x => { x with pc := .pending }
        taskPuts := tk :: k.taskPuts
        userPending := k.userPending ++ [t] }
  | insert {k : Core α} {t : ℕ} {x : Task α} (hx : k.tasks.get t = some x)
      (hty : x.type ≠ .gc) (hst : x.status = .init) (hpc : x.pc = .submit)
      (hfree : ∀ tk ∈ k.taskTree, ∀ y, k.tasks.get tk = some y → y.blkid ≠ x.blkid) :
      Move k .plain { k with
        tasks := k.tasks.modify t fun x =>
          { x with refcount := x.refcount + 1, status := .allocRes }
        taskTree := t :: k.taskTree
        hist := .insert t :: k.hist }
  | openZone {k : Core α} {i : Fin 2} {z : ℕ} {l : List ℕ} (ha : k.zmd.activeZone i = none)
      (he : k.zmd.emptyZoneList = z :: l) :
      Move k .plain { k with
        zmd := openZone { k.zmd with
          emptyZoneList := l, emptyZoneCount := k.zmd.emptyZoneCount - 1 } i z }
  | dispatch {k : Core α} {t z : ℕ} {i : Fin 2} {x : Task α} {log : DiskLog}
      (hx : k.tasks.get t = some x) (hst : x.status = .allocRes)
      (hpc : x.pc = .submit ∨ ∃ j, x.pc = .fallback j) (ha : k.zmd.activeZone i = some z)
      (hres : x.type ≠ .gc → x.link = .null → c.reservedBlksGc ≤ u32 k.zmd.nrAllocableBlks)
      (hlog : log.timestamp = k.timestamp + 1 ∧ log.blkid = x.blkid) :
      Move k .plain { k with
        zmd := (takeBlock c k.zmd i z).1
        tasks := k.tasks.modify t fun x =>
          { x with zone := some z, status := .dispatch, pc := .device, integ := .buf log }
        timestamp := k.timestamp + 1
        hist := .alloc t x.flag :: k.hist }
  | fallback {k : Core α} {t : ℕ} {i : Fin 2} {x : Task α}
      (hx : k.tasks.get t = some x) (hst : x.status = .allocRes) (hpc : x.pc = .submit)
      (hfull : x.type = .gc → k.zmd.activeZone i = none ∧ k.zmd.emptyZoneList = []) :
      Move k .plain { k with tasks := k.tasks.modify t fun x => { x with pc := .fallback i } }
  | pend {k : Core α} {t : ℕ} {x : Task α}
      (hx : k.tasks.get t = some x) (hty : x.type ≠ .gc) (hst : x.status = .allocRes)
      (hpc : x.pc = .submit ∨ ∃ j, x.pc = .fallback j) :
      Move k .plain { k with
        tasks := k.tasks.modify t fun x => { x with pc := .pending }
        userPending := k.userPending ++ [t] }
  | append {k : Core α} {t z off : ℕ} {x : Task α} {log : DiskLog}
      (hx : k.tasks.get t = some x) (hpc : x.pc = .device) (hz : x.zone = some z)
      (hi : x.integ = .buf log) (hoff : off + x.len ≤ c.zoneNrBlocks)
      (hfree : ∀ i < x.len, k.phys.content (c.startBlk z + off + i) = none) :
      Move k .plain { k with
        tasks := k.tasks.modify t fun x => { x with pc := .written (c.startBlk z + off) }
        phys := k.phys.put (c.startBlk z + off) (x.cells log) }
  | apply {k : Core α} {t z p : ℕ} {x : Task α}
      (hx : k.tasks.get t = some x) (hty : x.type ≠ .gc) (hpc : x.pc = .written p)
      (hz : x.zone = some z) :
      Move k (.stored t) { k with
        mapping := Function.update k.mapping x.blkid (some p)
        zmd := updateReverseMap c (invalidateOld c k.zmd (k.mapping x.blkid)) z p (some x.blkid)
        tasks := k.tasks.modify t fun x => { x with pc := .ended }
        hist := .endW t true :: .stored t x.blkid p x.data :: k.hist }
  | untree {k : Core α} {t z : ℕ} {x : Task α}
      (hx : k.tasks.get t = some x) (hpc : x.pc = .ended) (hz : x.zone = some z) :
      Move k .plain { k with
        completes := z :: k.completes
        taskTree := k.taskTree.erase t
        tasks := k.tasks.modify t fun x => { x with pc := .done, refcount := x.refcount - 1 }
        taskPuts := t :: k.taskPuts
        hist := .erase t :: k.hist }
  -- references on tasks and zones
  | dropRef {k : Core α} {t : ℕ} {x : Task α} (ht : t ∈ k.taskPuts)
      (hx : k.tasks.get t = some x) (hr : x.refcount - 1 ≠ 0) :
      Move k .plain { k with
        taskPuts := k.taskPuts.erase t, tasks := k.tasks.modify t Task.decRef }
  | destroy {k : Core α} {t : ℕ} {x : Task α} (ht : t ∈ k.taskPuts)
      (hx : k.tasks.get t = some x) (hr : x.refcount - 1 = 0)
      (hl : x.type ≠ .gc → x.link = .null) (hi : x.integ ≠ .err) :
      Move k .plain { k with taskPuts := k.taskPuts.erase t, tasks := k.tasks.free t }
  | destroyCall {k : Core α} {t g v : ℕ} {x y : Task α} (ht : t ∈ k.taskPuts)
      (hx : k.tasks.get t = some x) (hr : x.refcount - 1 = 0) (hty : x.type ≠ .gc)
      (hl : x.link = .node g) (hy : k.tasks.get g = some y) (hgc : y.type = .gc)
      (hpc : y.pc = .waiting t) (hv : y.readZone = some v) (hi : x.integ ≠ .err) :
      Move k .plain { k with
        taskPuts := k.taskPuts.erase t
        tasks := (k.tasks.free g).free t
        puts := (v, .gc) :: k.puts
        gcInflight := k.gcInflight - 1
        hist := .putVictim g :: .freePage g :: .callback g :: k.hist }
  | complete {k : Core α} {z : ℕ} (hz : z ∈ k.completes) :
      Move k .plain { k with
        completes := k.completes.erase z
        zmd := zoneCompleteWrite k.zmd z
        puts := (z, .write) :: k.puts }
  | putZone {k : Core α} {z : ℕ} {b : PutBy} (hz : (z, b) ∈ k.puts) :
      Move k .plain { k with
        puts := k.puts.erase (z, b), zmd := putZone k.zmd z
        userWriteInflight := if b = .write then k.userWriteInflight - 1 else k.userWriteInflight
        userReadInflight := if b = .read then k.userReadInflight - 1 else k.userReadInflight }
  -- a user read
  | readMiss {k : Core α} {b : ℕ} (hb : k.mapping b = none) :
      Move k .plain { k with
        reads := k.reads.burn
        hist := .endR k.reads.next none true :: .submitR k.reads.next b :: k.hist }
  | readHit {k : Core α} {b p : ℕ} (hb : k.mapping b = some p) :
      Move k .plain { k with
        reads := k.reads.alloc { blkid := b, pbid := p, zone := getZoneByPbid c p, served := none }
        zmd := getZone k.zmd (getZoneByPbid c p)
        userReadInflight := k.userReadInflight + 1
        hist := .submitR k.reads.next b :: k.hist }
  | serve {k : Core α} {r : ℕ} {x : ReadHook α} (hx : k.reads.get r = some x)
      (hs : x.served = none) :
      Move k .plain { k with
        reads := k.reads.modify r fun y =>
          { y with served := some (some ((k.phys.read x.pbid).getD default)) } }
  | endRead {k : Core α} {r : ℕ} {x : ReadHook α} {v : Option α} (hx : k.reads.get r = some x)
      (hs : x.served = some v) :
      Move k .plain { k with
        reads := k.reads.free r
        puts := (x.zone, .read) :: k.puts
        hist := .endR r v v.isSome :: k.hist }
  -- the retry worker
  | retryUsers {k : Core α} (hr : k.retry = .idle) :
      Move k .plain { k with retry := .users k.userPending, userPending := [] }
  | retryGcs {k : Core α} (hr : k.retry = .users []) (hret : k.Returned) :
      Move k .plain { k with retry := .gcs k.gcWrites, gcWrites := [] }
  | nextUser {k : Core α} {t : ℕ} {l : List ℕ} (hr : k.retry = .users (t :: l))
      (hret : k.Returned) :
      Move k .plain { k with
        retry := .users l, retryCur := some t
        tasks := k.tasks.modify t fun x => { x with pc := .submit } }
  | nextGc {k : Core α} {t : ℕ} {l : List ℕ} (hr : k.retry = .gcs (t :: l)) (hret : k.Returned) :
      Move k .plain { k with
        retry := .gcs l, retryCur := some t
        tasks := k.tasks.modify t fun x => { x with pc := .submit } }
  | retryDone {k : Core α} (hr : k.retry = .gcs []) (hret : k.Returned) :
      Move k .plain { k with retry := .idle, retryCur := none }
  -- garbage collection
  | select {k : Core α} {z : ℕ} {mod : VictimMod} (hpc : k.gcPc = .idle) (hbusy : ¬ k.Busy)
      (hz : victim c k.zmd mod = some z) :
      Move k .select { k with
        zmd := takeVictim k.zmd z
        gcZone := some z
        gcPc := .scan z 0 ((k.zmd.zones z).zrms 0)
        hist := .select z (k.zmd.zones z).weight :: k.hist }
  | scanFree {k : Core α} {z iter : ℕ} (hpc : k.gcPc = .scan z iter none)
      (hi : iter < (k.zmd.zones z).wpBlock) :
      Move k .plain { k with gcPc := .scan z (iter + 1) ((k.zmd.zones z).zrms (iter + 1)) }
  | scanBlock {k : Core α} {z iter b : ℕ} (hpc : k.gcPc = .scan z iter (some b))
      (hi : iter < (k.zmd.zones z).wpBlock) :
      Move k .plain { k with
        zmd := getZone k.zmd z
        gcInflight := k.gcInflight + 1
        tasks := k.tasks.alloc (Task.forGc z (c.startBlk z + iter) b)
        gcPc := .scan z (iter + 1) ((k.zmd.zones z).zrms (iter + 1))
        hist := .gcCreate k.tasks.next :: k.hist }
  | scanEnd {k : Core α} {z iter : ℕ} {pos : Option ℕ} (hpc : k.gcPc = .scan z iter pos)
      (hi : (k.zmd.zones z).wpBlock ≤ iter) :
      Move k .plain { k with
        zmd := k.zmd.modZone z (Zone.setZoneState .gcCompleted)
        puts := (z, .gc) :: k.puts
        gcPc := .idle }
  | gcServe {k : Core α} {g : ℕ} {x : Task α} (hx : k.tasks.get g = some x)
      (hpc : x.pc = .reading) :
      Move k .plain { k with
        tasks := k.tasks.modify g fun y =>
          { y with pc := .read true, data := (k.phys.read x.pbid).getD default } }
  | gcReadEnd {k : Core α} {g : ℕ} {x : Task α} (hx : k.tasks.get g = some x)
      (hpc : x.pc = .read true) :
      Move k .plain { k with
        tasks := k.tasks.modify g fun x => { x with pc := .pending, readZone := none }
        gcWrites := k.gcWrites ++ [g]
        hist := .bioPut g false :: k.hist }
  | gcFind {k : Core α} {g tk : ℕ} {x y : Task α} (hx : k.tasks.get g = some x)
      (hty : x.type = .gc) (hst : x.status = .gcReading) (hpc : x.pc = .submit)
      (htk : tk ∈ k.taskTree) (hy : k.tasks.get tk = some y) (hb : y.blkid = x.blkid) :
      Move k .plain { k with
        tasks := (k.tasks.modify tk Task.incRef).modify g fun x =>
          { x with readZone := x.zone, zone := none, pc := .found tk } }
  | gcInsert {k : Core α} {g : ℕ} {x : Task α} (hx : k.tasks.get g = some x)
      (hty : x.type = .gc) (hst : x.status = .gcReading) (hpc : x.pc = .submit)
      (hfree : ∀ tk ∈ k.taskTree, ∀ y, k.tasks.get tk = some y → y.blkid ≠ x.blkid) :
      Move k .plain { k with
        tasks := k.tasks.modify g fun x =>
          { x with readZone := x.zone, zone := none, pc := .check, refcount := x.refcount + 1 }
        taskTree := g :: k.taskTree
        hist := .insert g :: k.hist }
  | gcFound {k : Core α} {g tk : ℕ} {x : Task α} (hx : k.tasks.get g = some x)
      (hty : x.type = .gc) (hpc : x.pc = .found tk) :
      Move k .plain { k with
        tasks := (k.tasks.modify g fun x => { x with error := some .enoent, pc := .waiting tk }).modify
          tk fun y => { y with link := .node g }
        taskPuts := tk :: k.taskPuts }
  | peek {k : Core α} {b p : ℕ} (hb : k.mapping b = some p) :
      Move k .plain { k with
        zmd := getZone k.zmd (getZoneByPbid c p)
        puts := (getZoneByPbid c p, .gc) :: k.puts }
  | gcSkip {k : Core α} {g : ℕ} {x : Task α} (hx : k.tasks.get g = some x) (hty : x.type = .gc)
      (hpc : x.pc = .check) (hm : k.mapping x.blkid ≠ some x.pbid) :
      Move k .plain { k with
        taskTree := k.taskTree.erase g
        tasks := k.tasks.modify g fun x =>
          { x with refcount := x.refcount - 1, error := some .eexist, pc := .skip }
        hist := .erase g :: k.hist }
  | gcPass {k : Core α} {g : ℕ} {x : Task α} (hx : k.tasks.get g = some x) (hty : x.type = .gc)
      (hpc : x.pc = .check) (hm : k.mapping x.blkid = some x.pbid) :
      Move k .plain { k with
        tasks := k.tasks.modify g fun x => { x with status := .allocRes, pc := .submit } }
  | gcWritten {k : Core α} {g z p : ℕ} {x : Task α} (hx : k.tasks.get g = some x)
      (hty : x.type = .gc) (hpc : x.pc = .written p) (hz : x.zone = some z) :
      Move k .plain { k with
        zmd := zoneCompleteWrite k.zmd z
        tasks := k.tasks.modify g fun x => { x with pc := .callback (some p) } }
  | remap {k : Core α} {g z v p : ℕ} {x : Task α} (hx : k.tasks.get g = some x)
      (hty : x.type = .gc) (hpc : x.pc = .callback (some p)) (hl : x.link = .iosched)
      (hz : x.zone = some z) (hv : x.readZone = some v)
      (hm : k.mapping x.blkid = some x.pbid ∨ k.mapping x.blkid = none) :
      Move k (.moved g) { k with
        zmd :=
          if k.mapping x.blkid = none then updateReverseMap c k.zmd z p (some x.blkid)
          else invalidate c (updateReverseMap c k.zmd z p (some x.blkid)) v x.pbid
        mapping := Function.update k.mapping x.blkid (some p)
        puts := (v, .gc) :: (z, .gc) :: k.puts
        taskTree := k.taskTree.erase g
        tasks := k.tasks.modify g fun x => { x with pc := .done, refcount := x.refcount - 1 }
        taskPuts := g :: k.taskPuts
        gcInflight := k.gcInflight - 1
        hist := .bioPut g true :: .putVictim g :: .freePage g :: .erase g :: .callback g :: k.hist }
  | skipEnd {k : Core α} {g v : ℕ} {x : Task α} (hx : k.tasks.get g = some x) (hty : x.type = .gc)
      (hpc : x.pc = .skip) (hl : x.link = .iosched) (hv : x.readZone = some v) :
      Move k .plain { k with
        puts := (v, .gc) :: k.puts
        tasks := k.tasks.modify g fun x => { x with pc := .done }
        taskPuts := g :: k.taskPuts
        gcInflight := k.gcInflight - 1
        hist := .putVictim g :: .freePage g :: .callback g :: k.hist }
  -- the zone-state worker
  | wkStart {k : Core α} (hwk : k.wk = .idle) : Move k .plain { k with wk := .visit 0 false }
  | wkIdle {k : Core α} {i : ℕ} {b : Bool} (hwk : k.wk = .visit i b) (hi : c.nrZones ≤ i) :
      Move k .plain { k with wk := .idle }
  | wkNext {k : Core α} {i : ℕ} {b : Bool} (hwk : k.wk = .visit i b ∨ k.wk = .gcTest i b) :
      Move k .plain { k with wk := .visit (i + 1) b }
  | wkFull {k : Core α} {i : ℕ} {b : Bool} (hwk : k.wk = .visit i b)
      (hf : (k.zmd.zones i).flags .toFull = true) (hs : (k.zmd.zones i).state = .full) :
      Move k .plain { k with
        zmd := k.zmd.modZone i fun x => { x with state := .closed }, wk := .close i }
  | wkSticky {k : Core α} {i : ℕ} (hwk : k.wk = .visit i true)
      (hf : (k.zmd.zones i).flags .toFull = true) (hs : (k.zmd.zones i).state ≠ .full) :
      Move k .stale { k with wk := .close i }
  | wkFree {k : Core α} {i : ℕ} {b : Bool} (hwk : k.wk = .visit i b)
      (hr : (k.zmd.zones i).refcount = 0) :
      Move k .plain { k with wk := .gcTest i b }
  | wkClose {k : Core α} {i : ℕ} (hwk : k.wk = .close i) :
      Move k .plain { k with
        zmd := k.zmd.modZone i fun x => { x with flags := oneFlag .full }, wk := .link i }
  | wkLink {k : Core α} {i : ℕ} (hwk : k.wk = .link i) :
      Move k .plain { k with
        zmd := { k.zmd with
          fullZoneList := k.zmd.fullZoneList ++ [i], fullZoneCount := k.zmd.fullZoneCount + 1 }
        wk := .visit (i + 1) true }
  | wkEmpty {k : Core α} {i : ℕ} {b : Bool} (hwk : k.wk = .gcTest i b)
      (hf : (k.zmd.zones i).flags .gc = true) (hs : (k.zmd.zones i).state = .empty) :
      Move k .plain { k with wk := .reset i }
  | wkCarried {k : Core α} {i : ℕ} (hwk : k.wk = .gcTest i true)
      (hf : (k.zmd.zones i).flags .gc = true) (hs : (k.zmd.zones i).state ≠ .empty) :
      Move k .stale { k with wk := .reset i }
  | wkReset {k : Core α} {i : ℕ} (hwk : k.wk = .reset i) (hw : (k.zmd.zones i).weight = 0) :
      Move k .plain { k with
        phys := k.phys.resetZone c i, zmd := k.zmd.modZone i Zone.reset, wk := .publish i
        hist := .reset i :: k.hist }
  | wkPublish {k : Core α} {i : ℕ} (hwk : k.wk = .publish i) :
      Move k .plain { k with
        zmd := { k.zmd with
          emptyZoneList := k.zmd.emptyZoneList ++ [i]
          emptyZoneCount := k.zmd.emptyZoneCount + 1
          activeZoneCount := k.zmd.activeZoneCount - 1
          nrAllocableBlks := k.zmd.nrAllocableBlks + c.zoneNrBlocks }
        wk := .visit (i + 1) true }
  -- `lbz_nat_sit_tx_complete`
  | discard {k : Core α} {b p : ℕ} (hb : k.mapping b = some p) :
      Move k (.discard b) { k with
        mapping := Function.update k.mapping b none, zmd := invalidateOld c k.zmd (some p) }

  -- errors of the device and of allocations
  | dispatchFail {k : Core α} {t z : ℕ} {i : Fin 2} {x : Task α} (hx : k.tasks.get t = some x)
      (hty : x.type ≠ .gc) (hst : x.status = .allocRes)
      (hpc : x.pc = .submit ∨ ∃ j, x.pc = .fallback j) (ha : k.zmd.activeZone i = some z) :
      Move k .fault { k with
        zmd := (takeBlock c k.zmd i z).1
        tasks := k.tasks.modify t fun x =>
          { x with zone := some z, status := .ioWriting, pc := .failed, integ := .err }
        hist := .alloc t x.flag :: k.hist }
  | fallbackFail {k : Core α} {t : ℕ} {i : Fin 2} {x : Task α} (hx : k.tasks.get t = some x)
      (hst : x.status = .allocRes) (hpc : x.pc = .submit) :
      Move k .fault { k with tasks := k.tasks.modify t fun x => { x with pc := .fallback i } }
  | allocFail {k : Core α} {t : ℕ} {x : Task α} (hx : k.tasks.get t = some x)
      (hty : x.type ≠ .gc) (hst : x.status = .allocRes)
      (hpc : x.pc = .submit ∨ ∃ j, x.pc = .fallback j) :
      Move k .fault { k with
        taskTree := k.taskTree.erase t
        tasks := k.tasks.modify t fun x => { x with refcount := x.refcount - 1, pc := .done }
        taskPuts := t :: k.taskPuts
        userWriteInflight := k.userWriteInflight - 1
        hist := .endW t false :: .erase t :: k.hist }
  | devFail {k : Core α} {t : ℕ} {x : Task α} (hx : k.tasks.get t = some x) (hpc : x.pc = .device) :
      Move k .fault { k with tasks := k.tasks.modify t fun x => { x with pc := .failed } }
  | writeFail {k : Core α} {t : ℕ} {x : Task α} (hx : k.tasks.get t = some x)
      (hty : x.type ≠ .gc) (hpc : x.pc = .failed) :
      Move k .fault { k with
        tasks := k.tasks.modify t fun x => { x with pc := .ended }
        hist := .endW t false :: k.hist }
  | serveFail {k : Core α} {r : ℕ} {x : ReadHook α} (hx : k.reads.get r = some x)
      (hs : x.served = none) :
      Move k .fault { k with reads := k.reads.modify r fun y => { y with served := some none } }
  | gcServeFail {k : Core α} {g : ℕ} {x : Task α} (hx : k.tasks.get g = some x)
      (hpc : x.pc = .reading) :
      Move k .fault { k with tasks := k.tasks.modify g fun y => { y with pc := .read false } }
  | gcReadFail {k : Core α} {g v : ℕ} {x : Task α} (hx : k.tasks.get g = some x)
      (hpc : x.pc = .read false) (hv : x.readZone = some v) :
      Move k .fault { k with
        puts := (v, .gc) :: k.puts
        tasks := k.tasks.modify g fun x => { x with error := some .eio, pc := .done }
        taskPuts := g :: k.taskPuts
        gcInflight := k.gcInflight - 1
        hist := .bioPut g false :: .putVictim g :: .freePage g :: .callback g :: k.hist }
  | gcWriteFail {k : Core α} {g z : ℕ} {x : Task α} (hx : k.tasks.get g = some x)
      (hty : x.type = .gc) (hpc : x.pc = .failed) (hz : x.zone = some z) :
      Move k .fault { k with
        zmd := zoneCompleteWrite k.zmd z
        tasks := k.tasks.modify g fun x => { x with pc := .callback none, error := some .eio } }
  | release {k : Core α} {g z v : ℕ} {o : Option ℕ} {x : Task α} (hx : k.tasks.get g = some x)
      (hty : x.type = .gc) (hpc : x.pc = .callback o) (hl : x.link = .iosched)
      (hz : x.zone = some z) (hv : x.readZone = some v) :
      Move k .fault { k with
        puts := (v, .gc) :: (z, .gc) :: k.puts
        taskTree := k.taskTree.erase g
        tasks := k.tasks.modify g fun x => { x with pc := .done, refcount := x.refcount - 1 }
        taskPuts := g :: k.taskPuts
        gcInflight := k.gcInflight - 1
        hist := .bioPut g true :: .putVictim g :: .freePage g :: .erase g :: .callback g :: k.hist }
  | wkFail {k : Core α} {i : ℕ} (hwk : k.wk = .reset i) : Move k .fault { k with wk := .idle }

/-- Several moves, each of which meets `ok`. -/
abbrev Path [Inhabited α] (ok : Core α → Label → Prop) : Core α → Core α → Prop := Runs (Move c) ok

end Lbz
