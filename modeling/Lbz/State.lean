import Lbz.Lib.Heap
import Lbz.Zone

/-!
# The state of a running device

* `Task`, `ReadHook`: the objects of `lbz-io-scheduler.c`, with the place `TaskPc` where the code
  that works on a task stands between two steps;
* `NatSit`: `struct lbz_nat_sit_mgmt`;
* `RetryPc`, `WkPc`, `GcPc`: where the retry worker, the zone-state worker and the gc thread stand;
* `Phys`: the zoned device underneath, what each of its blocks holds;
* `Obs`: what is written down of a run;
* `Sys`: all of it, with the calls that a context has still to make.
-/

namespace Lbz

/-- Places where the kernel stops: a `BUG`, the panic, or a pointer that is not one. -/
inductive Bug
  /-- `BUG_ON(ret == -EAGAIN)` in `__submit_gc_task` (or `BUG_ON(mod == LBZ_ALLOC_FLAG_GC)`) -/
  | gcNoSpace
  /-- `BUG_ON(old_pbid != LBZ_INVALID_PBID)` in `__gc_task_callback` -/
  | gcMapping
  /-- `BUG()` in `__retry_submit_gc_task` -/
  | gcReturn
  /-- `panic("zone(%lx), reset encounter valid blocks!")` -/
  | resetValid
  /-- `BUG_ON(blkid >= mapping->max_blkid)` in `__find_specific_node` -/
  | blkidRange
  /-- `BUG_ON` in `lbz_nat_sit_add_rule` -/
  | ruleAlign
  /-- a freed or overwritten pointer is followed -/
  | wild
deriving DecidableEq, Repr

/-! ## Tasks -/

/-- `enum lbz_task_type` -/
inductive TaskType
  | userWrite | txFather | txChild | gc
deriving DecidableEq, Repr

/-- `enum lbz_task_status` -/
inductive TaskStatus
  | init | allocRes | gcReading | gcWriting | ioWriting | dispatch | retry
deriving DecidableEq, Repr

/-- `enum lbz_log_type` -/
inductive LogType
  | transactionChild | transactionFather | superblock | userWrite | gcWrite | discardIo
deriving DecidableEq, Repr

/-- `struct lbz_disk_log` -/
structure DiskLog where
  timestamp : ℕ
  txid : ℕ
  blkid : ℕ
  freeBlkid : ℕ
  logType : LogType
deriving DecidableEq, Repr

/-- `task->integrity_buf`: `NULL`, a record, or an error pointer. -/
inductive IntegBuf
  | null
  | buf (log : DiskLog)
  | err
deriving DecidableEq, Repr

/-- The union of `pending_gc_node` (a user task) and `iosched` (a gc task). -/
inductive Link
  | null
  | node (g : ℕ)
  | iosched
deriving DecidableEq, Repr

/-- Negative error numbers. -/
inductive Errno
  | eio | enoent | eexist
deriving DecidableEq, Repr

/-- Where the code that works on a task stands. -/
inductive TaskPc
  /-- `__submit_write_task` or `__submit_gc_task` runs on the task, from its status -/
  | submit
  /-- the preferred stream `i` had no block, the other one is tried next -/
  | fallback (i : Fin 2)
  /-- `insert_task_to_tree` has returned the task `t` -/
  | found (t : ℕ)
  /-- a gc task is in the tree, its mapping is looked up next -/
  | check
  /-- `__submit_gc_task` has returned `-EEXIST` -/
  | skip
  /-- in `lbz_user_pending`, in `lbz_gc_writes`, or in the list the retry worker took from them -/
  | pending
  /-- the gc read is at the device -/
  | reading
  /-- the gc read is done, its completion is not -/
  | read (ok : Bool)
  /-- the append is at the device -/
  | device
  /-- the append is done at `pbid`, its completion is not -/
  | written (pbid : ℕ)
  /-- the append failed, its completion is not done -/
  | failed
  /-- `lbz_write_io_endio` has ended the bio, the task is still in the tree -/
  | ended
  /-- `lbz_gc_write_endio` is about to call `__gc_task_callback` -/
  | callback (pbid : Option ℕ)
  /-- a gc task is the `pending_gc_node` of the task `t` -/
  | waiting (t : ℕ)
  /-- no code works on the task any more -/
  | done
deriving DecidableEq, Repr

/-- `__submit_write_task` or `__submit_gc_task` is at work on the task. -/
def TaskPc.running : TaskPc → Bool
  | .submit | .fallback _ | .found _ | .check | .skip => true
  | _ => false

/-- `struct lbz_io_task`. `data` is the payload of the bio, or the page of a gc task; a bio of several
blocks has the payloads `more` behind it. -/
structure Task (α : Type) where
  type : TaskType
  status : TaskStatus
  pc : TaskPc
  blkid : ℕ
  pbid : ℕ
  zone : Option ℕ
  readZone : Option ℕ
  refcount : ℤ
  error : Option Errno
  link : Link
  integ : IntegBuf
  data : α
  more : List α := []
deriving DecidableEq, Repr

/-- The blocks of the bio. -/
def Task.len {α : Type} (x : Task α) : ℕ := x.more.length + 1

theorem Task.len_pos {α : Type} (x : Task α) : 0 < x.len := Nat.succ_pos _

/-- The task that `lbz_submit_io_to_iosched` makes for a write. -/
def Task.forWrite {α : Type} (type : TaskType) (b : ℕ) (d : α) (more : List α := []) : Task α :=
  { type, status := .init, pc := .submit, blkid := b, pbid := 0, zone := none, readZone := none,
    refcount := 1, error := none, link := .null, integ := .null, data := d, more }

/-- The task that `lbz_submit_gc_to_iosched` makes for block `blkid` at `pbid` in zone `z`. -/
def Task.forGc {α : Type} [Inhabited α] (z pbid blkid : ℕ) : Task α :=
  { type := .gc, status := .gcReading, pc := .reading, blkid, pbid, zone := some z,
    readZone := some z, refcount := 1, error := none, link := .iosched, integ := .null,
    data := default }

/-- `struct lbz_io_hook` of a read, with what the device returned. -/
structure ReadHook (α : Type) where
  blkid : ℕ
  pbid : ℕ
  zone : ℕ
  served : Option (Option α)
deriving DecidableEq, Repr

/-! ## The other parties -/

/-- `struct lbz_nat_sit_mgmt`; `toFree` are the ids of the pages of `nat_sit_node`, in order. -/
structure NatSit where
  cpBlkaddr : ℕ
  sitBlkaddr : ℕ
  natBlkaddr : ℕ
  natBlocks : ℕ
  cpBlocks : ℕ
  blocksPerSegment : ℕ
  inflightWrites : ℤ
  toFree : List ℕ
  totalFreedBlks : ℕ
deriving DecidableEq, Repr

/-- `retry_wk_fn`: the list taken by `__retry_submit_io_task` or `__retry_submit_gc_task`. -/
inductive RetryPc
  | idle
  | users (todo : List ℕ)
  | gcs (todo : List ℕ)
deriving DecidableEq, Repr

/-- `zone_state_wk_fn`, with its index `i` and the local flag `send_zone_mgmgt`. -/
inductive WkPc
  | idle
  /-- at the head of the loop -/
  | visit (i : ℕ) (send : Bool)
  /-- the zone is closed next -/
  | close (i : ℕ)
  /-- the closed zone goes to `full_zone_list` next -/
  | link (i : ℕ)
  /-- the reference count was 0, `LBZ_ZONE_GC` is tested next -/
  | gcTest (i : ℕ) (send : Bool)
  /-- the zone is reset next -/
  | reset (i : ℕ)
  /-- the reset zone goes to `empty_zone_list` next -/
  | publish (i : ℕ)
deriving DecidableEq, Repr

/-- `lbz_gc_thread`: in `__gc_one_zone` with the loop variables `iter` and `pos`, or not. -/
inductive GcPc
  | idle
  | scan (z iter : ℕ) (pos : Option ℕ)
deriving DecidableEq, Repr

/-- `struct lbz_gc_context`. -/
structure GcCtx where
  pc : GcPc
  gcZone : Option ℕ
  reclaiming : Bool
  emergency : Bool
deriving DecidableEq, Repr

/-- The device underneath: the payload of each block written since the last reset of its zone, and the
record that the driver has attached to it, if it has. -/
structure Phys (α : Type) where
  content : ℕ → Option (α × Option DiskLog)

namespace Phys

variable {α : Type} {d : Phys α} {p q i : ℕ} {blocks : List (α × Option DiskLog)}

/-- What a read of block `p` returns. -/
def read (d : Phys α) (p : ℕ) : Option α := (d.content p).map Prod.fst

/-- `blocks` are stored from position `p` on. -/
def put (d : Phys α) (p : ℕ) (blocks : List (α × Option DiskLog)) : Phys α :=
  ⟨fun q => if p ≤ q ∧ q < p + blocks.length then blocks[q - p]? else d.content q⟩

theorem put_inside (hi : i < blocks.length) : (d.put p blocks).content (p + i) = blocks[i]? := by
  change (if _ then _ else _) = _
  rw [if_pos ⟨by omega, by omega⟩, Nat.add_sub_cancel_left]

theorem put_outside (h : ∀ i < blocks.length, q ≠ p + i) :
    (d.put p blocks).content q = d.content q :=
  if_neg fun hq => h (q - p) (by omega) (by omega)

/-- The first of the blocks is at `p`. -/
theorem put_head {b : α × Option DiskLog} : (d.put p (b :: blocks)).content p = some b :=
  put_inside (i := 0) (Nat.succ_pos _)

/-- What is stored at free positions leaves alone what is there. -/
theorem put_keeps (hfree : ∀ i < blocks.length, d.content (p + i) = none)
    (hq : d.content q ≠ none) : (d.put p blocks).content q = d.content q :=
  put_outside fun i hi h => hq (h ▸ hfree i hi)

end Phys

/-- What the append of `x` stores: `__add_integrity` attaches the record of one block. -/
def Task.cells {α : Type} (x : Task α) (log : DiskLog) : List (α × Option DiskLog) :=
  (x.data, some log) :: x.more.map fun d => (d, none)

@[simp] theorem Task.length_cells {α : Type} (x : Task α) (log : DiskLog) :
    (x.cells log).length = x.len := by
  rw [cells, List.length_cons, List.length_map, len]

namespace Phys

variable {α : Type} {d : Phys α} {p q : ℕ} {x : Task α} {log : DiskLog}

theorem put_cells (d : Phys α) (p : ℕ) (x : Task α) (log : DiskLog) :
    (d.put p (x.cells log)).content p = some (x.data, some log) := put_head

theorem put_cells_keeps (hfree : ∀ i < x.len, d.content (p + i) = none) (hq : d.content q ≠ none) :
    (d.put p (x.cells log)).content q = d.content q :=
  put_keeps (fun i hi => hfree i (x.length_cells log ▸ hi)) hq

theorem put_cells_outside (h : ∀ i < x.len, q ≠ p + i) :
    (d.put p (x.cells log)).content q = d.content q :=
  put_outside fun i hi => h i (x.length_cells log ▸ hi)

end Phys

/-- Who calls `lbz_put_zone`, and which counter of inflight I/O goes down after it. -/
inductive PutBy
  | gc | write | read
deriving DecidableEq, Repr

/-- What is written down of a run. -/
inductive Obs (α : Type)
  /-- a write of the payloads `d :: more` from block `b` on enters as task `t` -/
  | submitW (t b : ℕ) (d : α) (more : List α := [])
  /-- the mapping of `b` becomes `p`, where the write `t` stored `d` -/
  | stored (t b p : ℕ) (d : α)
  /-- the write `t` ends to its user -/
  | endW (t : ℕ) (ok : Bool)
  /-- a read of block `b` enters as `r` -/
  | submitR (r b : ℕ)
  /-- the read `r` ends to its user with the payload `v`, `none` if no block was read -/
  | endR (r : ℕ) (v : Option α) (ok : Bool)
  /-- `lbz_submit_gc_to_iosched` makes the gc task `g` -/
  | gcCreate (g : ℕ)
  /-- a task enters or leaves the task tree -/
  | insert (t : ℕ)
  | erase (t : ℕ)
  /-- `__gc_task_callback` runs on `g` -/
  | callback (g : ℕ)
  /-- `g` releases its reference on the zone it reads from -/
  | putVictim (g : ℕ)
  /-- the page of `g` is freed -/
  | freePage (g : ℕ)
  /-- `bio_put` on the read bio of `g`, or on its write bio -/
  | bioPut (g : ℕ) (write : Bool)
  /-- `lbz_zone_alloc_res` gives the task `t` a block -/
  | alloc (t : ℕ) (flag : AllocFlag)
  /-- zone `z`, of weight `w`, is chosen as victim -/
  | select (z : ℕ) (w : ℤ)
  /-- zone `z` is reset -/
  | reset (z : ℕ)
deriving DecidableEq, Repr

/-- The state of a device. -/
structure Sys (α : Type) where
  zmd : Zmd
  mapping : ℕ → Option ℕ
  tasks : Heap (Task α)
  taskTree : List ℕ
  userPending : List ℕ
  gcWrites : List ℕ
  retry : RetryPc
  /-- the task the retry worker took last -/
  retryCur : Option ℕ
  reads : Heap (ReadHook α)
  gc : GcCtx
  wk : WkPc
  natSit : NatSit
  phys : Phys α
  ready : Bool
  faulty : Bool
  transactionId : ℕ
  timestamp : ℕ
  userWriteInflight : ℤ
  userReadInflight : ℤ
  gcInflight : ℤ
  /-- calls of `lbz_zone_complete_write`, then `lbz_put_zone`, still to be made -/
  completes : List ℕ
  /-- calls of `lbz_put_zone` still to be made -/
  puts : List (ℕ × PutBy)
  /-- calls of `task_put` still to be made -/
  taskPuts : List ℕ
  /-- newest first -/
  hist : List (Obs α)
  bug : Option Bug

variable {α : Type}

def Sys.halt (s : Sys α) (b : Bug) : Sys α := { s with bug := some b }

/-- Change task `t`. -/
def Sys.modTask (s : Sys α) (t : ℕ) (f : Task α → Task α) : Sys α :=
  { s with tasks := s.tasks.modify t f }

def Sys.log (s : Sys α) (o : Obs α) : Sys α := { s with hist := o :: s.hist }

end Lbz
