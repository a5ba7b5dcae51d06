import Lbz.NatSit

/-!
# The io scheduler

`lbz-io-scheduler.c`, cut where another context may run in between: at the task-tree lock, at
`zmd_lock`, at the leaf lock of the mapping, and where a bio is at the device.

* `insertTaskToTree`, `taskPut`, `gcTaskCallback`: the task tree and the lives of tasks;
* `submitWrite`, `submitWriteTask`, `writeIoEndio`, `writeUntree`: a user write;
* `submitReadIo`, `readIoEndio`: a user read;
* `submitGcToIosched`, `submitGcTask`, `gcFound`, `gcReadEndio`, `gcWriteEndio`: a gc task;
* `retryWkFn`: the retry worker.
-/

namespace Lbz

variable {α : Type}

/-! ## The task tree and references on tasks -/

/-- The node that `insert_task_to_tree` meets for `blkid`. -/
def searchTree (s : Sys α) (blkid : ℕ) : Option ℕ :=
  s.taskTree.find? fun t => decide (s.tasks.At t fun x => x.blkid = blkid)

theorem searchTree_some {s : Sys α} {b tk : ℕ} (h : searchTree s b = some tk) :
    tk ∈ s.taskTree ∧ ∃ y, s.tasks.get tk = some y ∧ y.blkid = b := by
  refine ⟨List.mem_of_find?_eq_some h, ?_⟩
  have := List.find?_some h
  rwa [decide_eq_true_eq] at this

theorem searchTree_none {s : Sys α} {b : ℕ} (h : searchTree s b = none) :
    ∀ tk ∈ s.taskTree, ∀ y, s.tasks.get tk = some y → y.blkid ≠ b := by
  intro tk htk y hy hb
  have := List.find?_eq_none.mp h tk htk
  rw [decide_eq_true_eq] at this
  exact this ⟨y, hy, hb⟩

/-- `task_get` -/
def taskGet (s : Sys α) (t : ℕ) : Sys α :=
  s.modTask t fun x => { x with refcount := x.refcount + 1 }

/-- The branch of `insert_task_to_tree` that links a new node. -/
def linkTask (s : Sys α) (t : ℕ) : Sys α :=
  (taskGet { s with taskTree := t :: s.taskTree } t).log (.insert t)

/-- `del_task_from_tree` -/
def delTaskFromTree (s : Sys α) (t : ℕ) : Sys α :=
  { s with taskTree := s.taskTree.erase t }.log (.erase t)

/-- `task_destroy`; an error pointer in `integrity_buf` is freed like a buffer. -/
def taskDestroy (s : Sys α) (t : ℕ) (x : Task α) : Sys α :=
  if x.integ = .err then s.halt .wild else { s with tasks := s.tasks.free t }

/-- `task_put` of a gc task, which has nothing to call back. -/
def taskPutGc (s : Sys α) (t : ℕ) : Sys α :=
  match s.tasks.get t with
  | none => s.halt .wild
  | some x =>
    if x.refcount - 1 = 0 then taskDestroy s t x
    else s.modTask t fun x => { x with refcount := x.refcount - 1 }

/-- The part of `__gc_task_callback` that moves the block, from the position `x.pbid` read to the
position `pbid` written. -/
def gcRemap (c : Conf) (s : Sys α) (x : Task α) (pbid : Option ℕ) : Sys α :=
  match pbid, x.zone, x.readZone with
  | some p, some z, some v =>
    let oldPbid := s.mapping x.blkid
    let s := { s with
      zmd := updateReverseMap c s.zmd z p (some x.blkid)
      mapping := Function.update s.mapping x.blkid (some p) }
    if oldPbid = none then s
    else if oldPbid ≠ some x.pbid then s.halt .gcMapping
    else { s with zmd := invalidate c s.zmd v x.pbid }
  | _, _, _ => s.halt .wild

/-- A call of `lbz_put_zone` to be made. -/
def putLater (s : Sys α) (z : Option ℕ) : Sys α :=
  match z with
  | some z => { s with puts := (z, .gc) :: s.puts }
  | none => s.halt .wild

/-- The `switch` at the end of `__gc_task_callback`: what a gc task holds at each status. -/
def gcRelease (s : Sys α) (g : ℕ) (x : Task α) : Sys α :=
  let written := x.status = .dispatch ∨ x.status = .gcWriting
  let s := if written then putLater s x.zone else s
  let s := if written ∨ x.status = .allocRes then taskPutGc (delTaskFromTree s g) g else s
  let s := (putLater (s.log (.freePage g)) x.readZone).log (.putVictim g)
  taskPutGc (s.modTask g fun x => { x with pc := .done }) g

/-- `__gc_task_callback` and the `lbz_dec_gc_inflight` after it. -/
def gcTaskCallback (c : Conf) (s : Sys α) (g : ℕ) (pbid : Option ℕ) : Sys α :=
  match s.tasks.get g with
  | none => s.halt .wild
  | some x =>
    if x.link ≠ .iosched then s.halt .wild
    else
      let s := if !s.faulty ∧ x.error = none then gcRemap c s x pbid else s
      if s.bug.isSome then s
      else
        let s := gcRelease (s.log (.callback g)) g x
        { s with gcInflight := s.gcInflight - 1 }

/-- The last `task_put` of a task. -/
def taskFinal (c : Conf) (s : Sys α) (t : ℕ) (x : Task α) : Sys α :=
  match x.link with
  | .node g =>
    if x.type = .gc then taskDestroy s t x
    else
      let s := if x.error.isSome then s.modTask g fun y => { y with error := x.error } else s
      let s := gcTaskCallback c s g none
      if s.bug.isSome then s else taskDestroy s t x
  | _ => taskDestroy s t x

/-- `task_put` -/
def taskPut (c : Conf) (s : Sys α) (t : ℕ) : Sys α :=
  match s.tasks.get t with
  | none => s.halt .wild
  | some x =>
    if x.refcount - 1 = 0 then taskFinal c s t x
    else s.modTask t fun x => { x with refcount := x.refcount - 1 }

/-! ## Allocation and the metadata of a write -/

/-- One call of `lbz_zone_alloc_res`, with the reclaim it triggers without stream support. -/
def allocBlock (c : Conf) (s : Sys α) (mod : AllocFlag) (i : Fin 2) : Sys α × AllocRet :=
  let (m, ret) := zoneAllocRes c s.faulty s.zmd mod i
  let s := { s with zmd := m }
  if ret = .noZone ∧ !c.streamSupport then
    let s := { s with gc := { s.gc with reclaiming := true } }
    if mod = .gc then (s.halt .gcNoSpace, ret) else (s, ret)
  else (s, ret)

/-- `__add_integrity`, where its allocations succeed: the record and the counters it moves. -/
def addIntegrity (c : Conf) (s : Sys α) (x : Task α) (type : LogType) : Sys α × DiskLog :=
  let s := { s with timestamp := s.timestamp + 1 }
  if !c.natSit then (s, ⟨s.timestamp, 0, x.blkid, 0, type⟩)
  else
    match x.type with
    | .txFather =>
      let s := { s with transactionId := s.transactionId + 1 }
      (s, ⟨s.timestamp, s.transactionId, x.blkid, 0, .transactionFather⟩)
    | .txChild =>
      let free := s.natSit.partner x.blkid
      let s := if c.freeSupport then { s with natSit := s.natSit.addBlkid free } else s
      (s, ⟨s.timestamp, s.transactionId, x.blkid, free, .transactionChild⟩)
    | _ => (s, ⟨s.timestamp, 0, x.blkid, 0, type⟩)

/-- Task `t` gets block and record, and its append goes to the device. -/
def issueAppend (c : Conf) (s : Sys α) (t : ℕ) (x : Task α) (z : ℕ) (type : LogType) : Sys α :=
  let (s, log) := addIntegrity c s x type
  s.modTask t fun x =>
    { x with zone := some z, status := .dispatch, pc := .device, integ := .buf log }

/-- The stream a write of `blkid` prefers. -/
def preferredStream (c : Conf) (s : Sys α) (blkid : ℕ) : Fin 2 :=
  if c.natSit then s.natSit.getStreamId c blkid else 0

/-- Whether `ret < 0` is answered by the other stream. -/
def hasFallback (c : Conf) : Bool := c.natSit && c.streamSupport

/-! ## User writes -/

/-- The class of a write in `lbz_submit_io_to_iosched`. -/
def classify (c : Conf) (n : NatSit) (b : ℕ) (flush : Bool) : TaskType :=
  if !c.natSit then .userWrite
  else if n.isCpBlock b then (if flush then .txFather else .userWrite)
  else if n.isDupBlock b then .txChild
  else .userWrite

/-- The write branch of `lbz_submit_io_to_iosched`, up to `__submit_write_task`, for a bio with the
payloads `d :: more`. -/
def submitWrite (c : Conf) (s : Sys α) (b : ℕ) (d : α) (flush : Bool) (more : List α) : Sys α :=
  let type := classify c s.natSit b flush
  { s with
    tasks := s.tasks.alloc (Task.forWrite type b d more)
    userWriteInflight := s.userWriteInflight + 1
    natSit := if type = TaskType.userWrite then s.natSit else s.natSit.addWrite
    }.log (.submitW s.tasks.next b d more)

/-- `-EAGAIN`: the caller of `__submit_write_task` puts the task on `lbz_user_pending`. -/
def addTaskToRetry (s : Sys α) (t : ℕ) : Sys α :=
  { s.modTask t fun x => { x with pc := .pending } with userPending := s.userPending ++ [t] }

/-- The case `LBZ_TASK_INIT` of `__submit_write_task`. -/
def insertWrite (s : Sys α) (t : ℕ) (x : Task α) : Sys α :=
  match searchTree s x.blkid with
  | some tk => addTaskToRetry { taskGet s tk with taskPuts := tk :: s.taskPuts } t
  | none => (linkTask s t).modTask t fun x => { x with status := .allocRes }

/-- The cases `LBZ_TASK_ALLOC_RES`, once a block is allocated, and `LBZ_TASK_IO_WRITING`;
`integ` says whether `__add_integrity` succeeds. -/
def dispatchWrite (c : Conf) (s : Sys α) (t : ℕ) (x : Task α) (z : ℕ) (integ : Bool) : Sys α :=
  let s := if checkNeedReclaimHigh c s.zmd then { s with gc := { s.gc with reclaiming := true } }
    else s
  if integ then issueAppend c s t x z .userWrite
  else
    { s with faulty := true }.modTask t fun x =>
      { x with zone := some z, status := .ioWriting, pc := .failed, integ := .err }

/-- `ret < 0` after the last call of `lbz_zone_alloc_res`, and what the caller does then. -/
def writeAllocFailed (c : Conf) (s : Sys α) (t : ℕ) (x : Task α) (ret : AllocRet) : Sys α :=
  let s := { s with gc := { s.gc with emergency := true } }
  if ret ≠ .eio then addTaskToRetry s t
  else
    let s := delTaskFromTree s t
    let s := s.modTask t fun x => { x with refcount := x.refcount - 1, pc := .done }
    let s := { s.log (.endW t false) with
      natSit := if x.type = .userWrite then s.natSit else s.natSit.completeWrite
      userWriteInflight := s.userWriteInflight - 1 }
    taskPut c s t

/-- One call of `lbz_zone_alloc_res` has failed; `sid` is the preferred stream while the other one is
still to be tried. -/
def writeNoBlock (c : Conf) (s : Sys α) (t : ℕ) (x : Task α) (sid : Option (Fin 2))
    (ret : AllocRet) : Sys α :=
  if s.bug.isSome then s
  else match sid with
    | some sid => s.modTask t fun x => { x with pc := .fallback sid }
    | none => writeAllocFailed c s t x ret

/-- The case `LBZ_TASK_ALLOC_RES` of `__submit_write_task`: one call of `lbz_zone_alloc_res`, for
stream `i`. -/
def allocWrite (c : Conf) (s : Sys α) (t : ℕ) (x : Task α) (i : Fin 2) (sid : Option (Fin 2))
    (integ : Bool) : Sys α :=
  let flag := if x.link = .null then .user else .gc
  match allocBlock c s flag i with
  | (s, .ok z) => dispatchWrite c (s.log (.alloc t flag)) t x z integ
  | (s, ret) => writeNoBlock c s t x sid ret

/-- `__submit_write_task`, up to the next place where another context may run. -/
def submitWriteTask (c : Conf) (s : Sys α) (t : ℕ) (x : Task α) (integ : Bool) : Sys α :=
  match x.pc with
  | .fallback sid => allocWrite c s t x (1 - sid) none integ
  | _ =>
    if x.status = .init then insertWrite s t x
    else
      let sid := preferredStream c s x.blkid
      allocWrite c s t x sid (if hasFallback c then some sid else none) integ

/-- `lbz_write_io_endio`, the branch without an error. -/
def applyWrite (c : Conf) (s : Sys α) (t : ℕ) (x : Task α) (z pbid : ℕ) : Sys α :=
  { s with
    mapping := Function.update s.mapping x.blkid (some pbid)
    zmd := updateReverseMap c (invalidateOld c s.zmd (s.mapping x.blkid)) z pbid (some x.blkid)
    }.log (.stored t x.blkid pbid x.data)

/-- `lbz_write_io_endio`, up to `del_task_from_tree`. -/
def writeIoEndio (c : Conf) (s : Sys α) (t : ℕ) (x : Task α) : Sys α :=
  let (s, ok) := match x.pc, x.zone with
    | .written pbid, some z => (applyWrite c s t x z pbid, true)
    | _, _ => ({ s with faulty := true }, false)
  { (s.log (.endW t ok)).modTask t fun x => { x with pc := .ended } with
    natSit := if x.type = .userWrite then s.natSit else s.natSit.completeWrite }

/-- `lbz_write_io_endio`, `del_task_from_tree` and the two `task_put`. -/
def writeUntree (c : Conf) (s : Sys α) (t : ℕ) (x : Task α) : Sys α :=
  match x.zone with
  | none => s.halt .wild
  | some z =>
    let s := delTaskFromTree { s with completes := z :: s.completes } t
    taskPut c (s.modTask t fun x => { x with pc := .done, refcount := x.refcount - 1 }) t

/-- `lbz_write_io_endio`, `lbz_zone_complete_write`. -/
def writeComplete (s : Sys α) (z : ℕ) : Sys α :=
  { s with
    completes := s.completes.erase z
    zmd := zoneCompleteWrite s.zmd z
    puts := (z, .write) :: s.puts }

/-- `lbz_put_zone`, with the counter that goes down after it. -/
def callPutZone (s : Sys α) (z : ℕ) (by_ : PutBy) : Sys α :=
  { s with
    puts := s.puts.erase (z, by_)
    zmd := putZone s.zmd z
    userWriteInflight := if by_ = .write then s.userWriteInflight - 1 else s.userWriteInflight
    userReadInflight := if by_ = .read then s.userReadInflight - 1 else s.userReadInflight }

/-- A `task_put` after a conflict in the tree. -/
def callTaskPut (c : Conf) (s : Sys α) (t : ℕ) : Sys α :=
  taskPut c { s with taskPuts := s.taskPuts.erase t } t

/-! ## User reads -/

/-- `__submit_read_io` -/
def submitReadIo (c : Conf) (s : Sys α) (b : ℕ) : Sys α :=
  match s.mapping b with
  | none =>
    { (s.log (.submitR s.reads.next b)).log (.endR s.reads.next none true) with
      reads := s.reads.burn }
  | some pbid =>
    let zone := getZoneByPbid c pbid
    { s with
      reads := s.reads.alloc { blkid := b, pbid, zone, served := none }
      zmd := getZone s.zmd zone
      userReadInflight := s.userReadInflight + 1 }.log (.submitR s.reads.next b)

/-- `lbz_read_io_endio`; `v` is `none` if the device failed. -/
def readIoEndio (s : Sys α) (r : ℕ) (x : ReadHook α) (v : Option α) : Sys α :=
  { s with
    faulty := s.faulty || v.isNone
    reads := s.reads.free r
    puts := (x.zone, .read) :: s.puts }.log (.endR r v v.isSome)

/-! ## Gc tasks -/

/-- `lbz_submit_gc_to_iosched`, after the `lbz_get_zone` and `lbz_inc_gc_inflight` of
`__gc_one_zone`: the read is at the device. -/
def submitGcToIosched [Inhabited α] (s : Sys α) (z pbid blkid : ℕ) : Sys α :=
  { s with
    zmd := getZone s.zmd z
    gcInflight := s.gcInflight + 1
    tasks := s.tasks.alloc (Task.forGc z pbid blkid) }.log (.gcCreate s.tasks.next)

/-- `lbz_gc_read_endio` -/
def gcReadEndio (c : Conf) (s : Sys α) (g : ℕ) (ok : Bool) : Sys α :=
  if ok then
    -- the list node of the task shares its memory with `read_zone`
    { s.modTask g fun x => { x with pc := .pending, readZone := none } with
      gcWrites := s.gcWrites ++ [g] }.log (.bioPut g false)
  else
    let s := gcTaskCallback c (s.modTask g fun x => { x with error := some .eio }) g none
    if s.bug.isSome then s else { s.log (.bioPut g false) with faulty := true }

/-- The case `LBZ_TASK_GC_READING` of `__submit_gc_task`, up to the return of
`insert_task_to_tree`. -/
def insertGc (s : Sys α) (g : ℕ) (x : Task α) : Sys α :=
  let s := s.modTask g fun x => { x with readZone := x.zone, zone := none }
  match searchTree s x.blkid with
  | some tk => (taskGet s tk).modTask g fun x => { x with pc := .found tk }
  | none => (linkTask s g).modTask g fun x => { x with pc := .check }

/-- The block is found in the tree: the task `tk` there takes over. -/
def gcFound (s : Sys α) (g tk : ℕ) : Sys α :=
  let s := s.modTask g fun x => { x with error := some .enoent, pc := .waiting tk }
  { s.modTask tk fun y => { y with link := .node g } with taskPuts := tk :: s.taskPuts }

/-- The mapping is not the position read: `-EEXIST`. -/
def gcSkip (s : Sys α) (g : ℕ) : Sys α :=
  (taskPutGc (delTaskFromTree s g) g).modTask g fun x =>
    { x with error := some .eexist, pc := .skip }

/-- `lbz_mapping_lookup` in `__submit_gc_task` and the `lbz_put_zone` after it. -/
def gcCheck (c : Conf) (s : Sys α) (g : ℕ) (x : Task α) : Sys α :=
  match s.mapping x.blkid with
  | none => gcSkip s g
  | some originPbid =>
    let zone := getZoneByPbid c originPbid
    let s := { s with zmd := getZone s.zmd zone, puts := (zone, .gc) :: s.puts }
    if originPbid ≠ x.pbid then gcSkip s g
    else s.modTask g fun x => { x with status := .allocRes, pc := .submit }

/-- The cases `LBZ_TASK_ALLOC_RES`, once a block is allocated, and `LBZ_TASK_GC_WRITING`. -/
def dispatchGc (c : Conf) (s : Sys α) (g : ℕ) (x : Task α) (z : ℕ) (integ : Bool) : Sys α :=
  if integ then issueAppend c s g x z .gcWrite
  else (({ s with faulty := true }.log (.bioPut g true)).log (.bioPut g true)).halt .gcReturn

/-- One call of `lbz_zone_alloc_res` has failed; `sid` is the preferred stream while the other one is
still to be tried. -/
def gcNoBlock (s : Sys α) (g : ℕ) (sid : Option (Fin 2)) (ret : AllocRet) : Sys α :=
  if s.bug.isSome then s
  else match sid with
    | some sid => s.modTask g fun x => { x with pc := .fallback sid }
    | none => s.halt (if ret = .eio then .gcReturn else .gcNoSpace)

/-- The case `LBZ_TASK_ALLOC_RES` of `__submit_gc_task`: one call of `lbz_zone_alloc_res`, for
stream `i`. -/
def allocGc (c : Conf) (s : Sys α) (g : ℕ) (x : Task α) (i : Fin 2) (sid : Option (Fin 2))
    (integ : Bool) : Sys α :=
  match allocBlock c s .gc i with
  | (s, .ok z) => dispatchGc c (s.log (.alloc g .gc)) g x z integ
  | (s, ret) => gcNoBlock s g sid ret

/-- `__submit_gc_task`, up to the next place where another context may run. -/
def submitGcTask (c : Conf) (s : Sys α) (g : ℕ) (x : Task α) (integ : Bool) : Sys α :=
  match x.pc with
  | .found tk => gcFound s g tk
  | .check => gcCheck c s g x
  | .fallback sid => allocGc c s g x (1 - sid) none integ
  | _ =>
    if x.status = .gcReading then insertGc s g x
    else
      let sid := preferredStream c s x.blkid
      allocGc c s g x sid (if hasFallback c then some sid else none) integ

/-- `lbz_gc_write_endio`, up to `__gc_task_callback`. -/
def gcWriteEndio (s : Sys α) (g : ℕ) (x : Task α) : Sys α :=
  match x.link, x.zone with
  | .iosched, some z =>
    let s := { s with zmd := zoneCompleteWrite s.zmd z }
    match x.pc with
    | .written pbid => s.modTask g fun x => { x with pc := .callback (some pbid) }
    | _ => s.modTask g fun x => { x with pc := .callback none, error := some .eio }
  | _, _ => s.halt .wild

/-- `__gc_task_callback` called by `lbz_gc_write_endio`, or by `__retry_submit_gc_task` after
`-EEXIST`. -/
def gcEnd (c : Conf) (s : Sys α) (g : ℕ) (x : Task α) : Sys α :=
  match x.pc with
  | .callback none =>
    let s := gcTaskCallback c s g none
    if s.bug.isSome then s else { s.log (.bioPut g true) with faulty := true }
  | .callback (some pbid) =>
    let s := gcTaskCallback c s g (some pbid)
    if s.bug.isSome then s else s.log (.bioPut g true)
  | _ => gcTaskCallback c s g none

/-! ## The retry worker -/

/-- The call of `__submit_write_task` or `__submit_gc_task` on the last task has returned. -/
def retryReturned (s : Sys α) : Prop :=
  match s.retryCur with
  | none => True
  | some t => ¬ s.tasks.At t fun x => x.pc.running

instance (s : Sys α) : Decidable (retryReturned s) := by
  unfold retryReturned; split <;> infer_instance

/-- The next task of the list the retry worker took. -/
def retryTake (s : Sys α) (t : ℕ) : Sys α :=
  { s.modTask t fun x => { x with pc := .submit } with retryCur := some t }

/-- `retry_wk_fn` -/
def retryWkFn (s : Sys α) : Sys α :=
  match s.retry with
  | .idle =>
    if s.faulty ∨ !s.ready then s
    else { s with retry := .users s.userPending, userPending := [] }
  | .users [] => { s with retry := .gcs s.gcWrites, gcWrites := [] }
  | .users (t :: todo) => { retryTake s t with retry := .users todo }
  | .gcs [] => { s with retry := .idle, retryCur := none }
  | .gcs (t :: todo) => { retryTake s t with retry := .gcs todo }

end Lbz
