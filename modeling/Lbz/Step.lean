import Lbz.Gc
import Lbz.Lib.Run

/-!
# Events and steps

* `Event`: one step of one context, of the user or of the device;
* `Enabled c s e`: `e` can happen next; `run c s e`: the state after it; `step` puts them together;
* `Event.NoError`: `e` is not an error of the device or of a memory allocation.
-/

namespace Lbz

/-- One step of a run. -/
inductive Event (α : Type)
  /-- `lbz_submit_io_to_iosched` of a write of the payloads `d :: more` from block `b` on -/
  | submitWrite (b : ℕ) (d : α) (flush : Bool) (more : List α := [])
  /-- `__submit_write_task`, to its next interruption; `integ`: `__add_integrity` succeeds -/
  | runWrite (t : ℕ) (integ : Bool)
  /-- the device executes the append of task `t` at offset `off` of its zone -/
  | devAppend (t off : ℕ)
  | devFail (t : ℕ)
  /-- `lbz_write_io_endio`, in three parts -/
  | writeEnd (t : ℕ)
  | writeUntree (t : ℕ)
  | writeComplete (z : ℕ)
  | putZone (z : ℕ) (by_ : PutBy)
  | putTask (t : ℕ)
  /-- `lbz_submit_io_to_iosched` of a read of block `b` -/
  | submitRead (b : ℕ)
  /-- the device serves the read `r`, or fails it -/
  | devRead (r : ℕ) (ok : Bool)
  | readEnd (r : ℕ)
  | retryWk
  /-- a round of `lbz_gc_thread` -/
  | gcSelect (timeout : Bool)
  | gcScan
  /-- the device serves the read of gc task `g`, or fails it -/
  | gcDevRead (g : ℕ) (ok : Bool)
  | gcReadEnd (g : ℕ)
  /-- `__submit_gc_task`, to its next interruption -/
  | runGc (g : ℕ) (integ : Bool)
  | gcWriteEnd (g : ℕ)
  | gcEnd (g : ℕ)
  /-- a pass of `zone_state_wk_fn` begins -/
  | wkStart
  | wkStep (ok : Bool)
  | txComplete
  | addRule (a : NatSitArgs)
  | setReady (b : Bool)
deriving DecidableEq

variable {α : Type}

/-- `e` is not an error of the device or of an allocation. -/
def Event.NoError : Event α → Prop
  | .runWrite _ integ => integ = true
  | .runGc _ integ => integ = true
  | .devFail _ => False
  | .devRead _ ok => ok = true
  | .gcDevRead _ ok => ok = true
  | .wkStep ok => ok = true
  | _ => True

instance : DecidablePred (Event.NoError : Event α → Prop) := fun e => by
  unfold Event.NoError; split <;> infer_instance

/-- Where the append of `x` lands. -/
def appendPbid (c : Conf) (x : Task α) (off : ℕ) : ℕ := (x.zone.elim 0 c.startBlk) + off

/-- The device takes the append of `x` at offset `off`: in the capacity of the zone, at blocks
not written since the last reset. -/
def CanAppend (c : Conf) (s : Sys α) (off : ℕ) (x : Task α) : Prop :=
  x.pc = .device ∧ off + x.len ≤ c.zoneNrBlocks ∧
    ∀ i < x.len, s.phys.content (appendPbid c x off + i) = none

instance (c : Conf) (s : Sys α) (off : ℕ) : DecidablePred (CanAppend c s off : Task α → Prop) :=
  fun _ => by unfold CanAppend; infer_instance

/-- `lbz_dev_submit_bio` hands a bio on as it is if it is a flush of the checkpoint; any other bio of
several blocks is split. -/
def Whole (c : Conf) (s : Sys α) (b : ℕ) (flush : Bool) : Prop :=
  flush ∧ c.natSit ∧ s.natSit.isCpBlock b

instance (c : Conf) (s : Sys α) (b : ℕ) (flush : Bool) : Decidable (Whole c s b flush) := by
  unfold Whole
  infer_instance

/-- `e` can happen in `s`, which is not stopped. -/
def Ready (c : Conf) (s : Sys α) : Event α → Prop
  | .submitWrite b _ flush more => b + more.length < c.maxBlkid ∧ (more ≠ [] → Whole c s b flush)
  | .runWrite t _ => s.tasks.At t fun x =>
      x.type ≠ .gc ∧ (x.pc matches .submit | .fallback _)
  | .devAppend t off => s.tasks.At t (CanAppend c s off)
  | .devFail t => s.tasks.At t fun x => x.pc = .device
  | .writeEnd t => s.tasks.At t fun x => x.type ≠ .gc ∧ (x.pc matches .written _ | .failed)
  | .writeUntree t => s.tasks.At t fun x => x.pc = .ended
  | .writeComplete z => z ∈ s.completes
  | .putZone z b => (z, b) ∈ s.puts
  | .putTask t => t ∈ s.taskPuts
  | .submitRead b => b < c.maxBlkid
  | .devRead r _ => s.reads.At r fun x => x.served = none
  | .readEnd r => s.reads.At r fun x => x.served ≠ none
  | .retryWk => retryReturned s
  | .gcSelect timeout =>
      s.gc.pc = .idle ∧ !s.faulty ∧ s.ready ∧ victimMod c s timeout ≠ .default ∧ !gcBusy s
  | .gcScan => s.gc.pc ≠ .idle
  | .gcDevRead g _ => s.tasks.At g fun x => x.pc = .reading
  | .gcReadEnd g => s.tasks.At g fun x => (x.pc matches .read _)
  | .runGc g _ => s.tasks.At g fun x =>
      x.type = .gc ∧ (x.pc matches .submit | .fallback _ | .found _ | .check)
  | .gcWriteEnd g => s.tasks.At g fun x => x.type = .gc ∧ (x.pc matches .written _ | .failed)
  | .gcEnd g => s.tasks.At g fun x => (x.pc matches .callback _ | .skip)
  | .wkStart => s.wk = .idle ∧ !s.faulty ∧ s.ready
  | .wkStep _ => s.wk ≠ .idle
  | .txComplete => c.freeSupport
  | .addRule _ => c.natSit
  | .setReady _ => True

instance (c : Conf) (s : Sys α) (e : Event α) : Decidable (Ready c s e) := by
  unfold Ready; split <;> infer_instance

/-- `f` on the task at `t`. -/
def onTask (s : Sys α) (t : ℕ) (f : Task α → Sys α) : Sys α :=
  match s.tasks.get t with
  | some x => f x
  | none => s.halt .wild

/-- The device stores the blocks of `x` from `p` on, the first one with its record. -/
def devAppend (s : Sys α) (t : ℕ) (x : Task α) (p : ℕ) : Sys α :=
  match x.integ with
  | .buf log =>
    { s.modTask t fun x => { x with pc := .written p } with phys := s.phys.put p (x.cells log) }
  | _ => s.halt .wild

/-- The read of the gc task `x` is served into its page. -/
def gcServe [Inhabited α] (s : Sys α) (g : ℕ) (x : Task α) (ok : Bool) : Sys α :=
  s.modTask g fun y => { y with
    pc := .read ok, data := if ok then (s.phys.read x.pbid).getD default else y.data }

/-- The read `x` is served. -/
def readServe [Inhabited α] (s : Sys α) (r : ℕ) (x : ReadHook α) (ok : Bool) : Sys α :=
  { s with reads := s.reads.modify r fun y => { y with
      served := some (if ok then some ((s.phys.read x.pbid).getD default) else none) } }

/-- The state after `e`. -/
def after [Inhabited α] (c : Conf) (s : Sys α) : Event α → Sys α
  | .submitWrite b d flush more => submitWrite c s b d flush more
  | .runWrite t integ => onTask s t fun x => submitWriteTask c s t x integ
  | .devAppend t off => onTask s t fun x => devAppend s t x (appendPbid c x off)
  | .devFail t => s.modTask t fun x => { x with pc := .failed }
  | .writeEnd t => onTask s t fun x => writeIoEndio c s t x
  | .writeUntree t => onTask s t fun x => writeUntree c s t x
  | .writeComplete z => writeComplete s z
  | .putZone z b => callPutZone s z b
  | .putTask t => callTaskPut c s t
  | .submitRead b => submitReadIo c s b
  | .devRead r ok =>
    match s.reads.get r with
    | some x => readServe s r x ok
    | none => s
  | .readEnd r =>
    match s.reads.get r with
    | some x => readIoEndio s r x x.served.join
    | none => s
  | .retryWk => retryWkFn s
  | .gcSelect timeout => gcSelect c s timeout
  | .gcScan =>
    match s.gc.pc with
    | .scan z iter pos => gcScan c s z iter pos
    | .idle => s
  | .gcDevRead g ok => onTask s g fun x => gcServe s g x ok
  | .gcReadEnd g => onTask s g fun x => gcReadEndio c s g (x.pc = .read true)
  | .runGc g integ => onTask s g fun x => submitGcTask c s g x integ
  | .gcWriteEnd g => onTask s g fun x => gcWriteEndio s g x
  | .gcEnd g => onTask s g fun x => gcEnd c s g x
  | .wkStart => wkStart s
  | .wkStep ok => wkStep c s ok
  | .txComplete => natSitTxComplete c s
  | .addRule a => installRule s a
  | .setReady b => { s with ready := b }

/-- One step of a device that is not stopped. -/
def step [Inhabited α] (c : Conf) (s : Sys α) (e : Event α) : Option (Sys α) :=
  if s.bug = none ∧ Ready c s e then some (after c s e) else none

end Lbz
