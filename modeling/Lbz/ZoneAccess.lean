import Lbz.Counts
import Lbz.Lib.Run

/-!
# Zone functions, one access at a time

`lbz_zone_alloc_res`, `lbz_put_zone`, `lbz_find_victim_zone` and `zone_state_wk_fn` cut at each access
to what is not protected by a lock that they hold: the counters, the flags and the state of a zone.

* `PutPc`, `ZoneCtx`, `ZoneWk`: where a context stands in them;
* `ZoneSys`: the metadata, the holders of the locks, the contexts;
* `ctxStep`, `zoneWkStep`: one access; `ZoneSys.step`: one step of one context.
-/

namespace Lbz

/-! ## Contexts -/

/-- `lbz_put_zone`. -/
inductive PutPc
  /-- before `zone->lock` is taken -/
  | lock
  | dec
  /-- the count has become 0, `LBZ_ZONE_GC` is tested next -/
  | zero
  | setEmpty
  /-- `LBZ_ZONE_TO_FULL` is tested next -/
  | toFull
  /-- it was set, `pending_write_io` is read next -/
  | pending
  | setFull
  | unlock
deriving DecidableEq, Repr

/-- Where a context that works on zones stands. -/
inductive ZoneCtx
  /-- `lbz_zone_alloc_res` is called -/
  | alloc (mod : AllocFlag) (i : Fin 2)
  /-- it puts the zone `z` of the slot, which has no block left -/
  | slotPut (i : Fin 2) (z : ℕ) (pc : PutPc)
  /-- it takes a zone off `empty_zone_list` next -/
  | free (i : Fin 2)
  /-- the new zone of the slot is referenced, flagged and opened next -/
  | openGet (i : Fin 2) (z : ℕ)
  | openFlag (i : Fin 2) (z : ℕ)
  | openState (i : Fin 2) (z : ℕ)
  /-- the references and counters of the block, `__alloc_res` and `__pending_write` -/
  | get (i : Fin 2) (z : ℕ)
  | take (i : Fin 2) (z : ℕ)
  | pend (i : Fin 2) (z : ℕ)
  /-- the zone has no block left: its flags, its reference and its slot -/
  | clear (i : Fin 2) (z : ℕ)
  | setToFull (i : Fin 2) (z : ℕ)
  | fullPut (i : Fin 2) (z : ℕ) (pc : PutPc)
  | clearSlot (i : Fin 2) (z : ℕ)
  /-- a block of `z` is allocated, the write is not completed -/
  | writing (z : ℕ)
  /-- `lbz_find_victim_zone` is called -/
  | victim (mod : VictimMod)
  /-- the victim has left `full_zone_list` -/
  | victimGet (z : ℕ)
  | victimFlag (z : ℕ)
  /-- `__gc_one_zone` works on `z` -/
  | collecting (z : ℕ)
  /-- a zone is referenced next, to read from it -/
  | getting (z : ℕ) (by_ : PutBy)
  | holding (z : ℕ) (by_ : PutBy)
  /-- `lbz_put_zone` is called; a write has been completed -/
  | put (z : ℕ) (by_ : PutBy) (pc : PutPc)
  | done
deriving DecidableEq, Repr

/-- `zone_state_wk_fn`, with its index `i` and the local flag `send_zone_mgmgt`. -/
inductive ZoneWk
  | idle
  | visit (i : ℕ) (send : Bool)
  /-- `LBZ_ZONE_TO_FULL` was set, the state is tested next under `zone->lock` -/
  | testFull (i : ℕ) (send : Bool)
  | close (i : ℕ)
  | link (i : ℕ)
  | testRef (i : ℕ) (send : Bool)
  | gcTest (i : ℕ) (send : Bool)
  /-- `LBZ_ZONE_GC` was set, the state is tested next under `zone->lock` -/
  | testEmpty (i : ℕ) (send : Bool)
  | reset (i : ℕ)
  /-- the descriptor of the reset zone -/
  | resetWp (i : ℕ)
  | resetState (i : ℕ)
  | resetFlags (i : ℕ)
  | publish (i : ℕ)
  /-- the panic -/
  | panicked
deriving DecidableEq, Repr

/-- The metadata, the contexts that hold `zmd_lock` and the lock of each zone, and where the contexts
stand. -/
structure ZoneSys where
  zmd : Zmd
  zmdLock : Option ℕ
  zoneLock : ℕ → Option ℕ
  ctxs : Heap ZoneCtx
  wk : ZoneWk

namespace ZoneSys

variable (s : ZoneSys)

/-- Context `a` goes on at `x`. -/
def goto (a : ℕ) (x : ZoneCtx) : ZoneSys := { s with ctxs := s.ctxs.modify a fun _ => x }

/-- Change zone `z`. -/
def modZone (z : ℕ) (f : Zone → Zone) : ZoneSys := { s with zmd := s.zmd.modZone z f }

end ZoneSys

/-! ## One access -/

/-- An access of `lbz_put_zone` to the zone whose lock it holds, and where it goes on. -/
def PutPc.access (x : Zone) : PutPc → Zone × PutPc
  | .dec =>
    ({ x with refcount := x.refcount - 1 }, if x.refcount - 1 = 0 then .zero else .toFull)
  | .zero => (x, if x.flags .gc then .setEmpty else .toFull)
  | .setEmpty => ({ x with state := .empty }, .unlock)
  | .toFull => (x, if x.flags .toFull then .pending else .unlock)
  | .pending => (x, if x.pendingWriteIo = 0 then .setFull else .unlock)
  | .setFull => ({ x with state := .full }, .unlock)
  | pc => (x, pc)

/-- A step of `lbz_put_zone`, called by `a` on `z`. `k` are the places of the caller in it, `x` is the
one after it. -/
def putStep (s : ZoneSys) (a z : ℕ) (k : PutPc → ZoneCtx) (x : ZoneCtx) : PutPc → Option ZoneSys
  | .lock =>
    if s.zoneLock z = none then
      some { s.goto a (k .dec) with zoneLock := Function.update s.zoneLock z (some a) }
    else none
  | .unlock => some { s.goto a x with zoneLock := Function.update s.zoneLock z none }
  | pc =>
    some ((s.modZone z fun _ => (pc.access (s.zmd.zones z)).1).goto a
      (k (pc.access (s.zmd.zones z)).2))

variable (c : Conf)

/-- What `lbz_zone_alloc_res` does first under `zmd_lock`, on a device that is not faulty. -/
def allocStart (m : Zmd) (mod : AllocFlag) (i : Fin 2) : Option ZoneCtx :=
  if mod = .user ∧ u32 m.nrAllocableBlks < c.reservedBlksGc then none
  else
    match m.activeZone i with
    | none => some (.free i)
    | some z => some (if (m.zones z).wpBlock = c.zoneNrBlocks then .slotPut i z .lock else .get i z)

/-- One access of context `a`, which stands at `x`, or `none` while it waits for a lock. -/
def ctxStep (s : ZoneSys) (a : ℕ) : ZoneCtx → Option ZoneSys
  | .alloc mod i =>
    if s.zmdLock = none then
      match allocStart c s.zmd mod i with
      | none => some (s.goto a .done)
      | some x => some { s.goto a x with zmdLock := some a }
    else none
  | .slotPut i z pc => putStep s a z (.slotPut i z) (.free i) pc
  | .free i =>
    match getFreeZone s.zmd with
    | (m, none) =>
      some { s.goto a .done with
        zmd := { m with activeZone := Function.update m.activeZone i none }, zmdLock := none }
    | (m, some z) =>
      some { s.goto a (.openGet i z) with
        zmd := { m with activeZone := Function.update m.activeZone i (some z) }.modZone z fun x =>
          { x with stream := i.val } }
  | .openGet i z => some ((s.modZone z fun x => { x with refcount := x.refcount + 1 }).goto a
      (.openFlag i z))
  | .openFlag i z => some ((s.modZone z (Zone.setZoneState .active)).goto a (.openState i z))
  | .openState i z => some ((s.modZone z fun x => { x with state := .expOpen }).goto a (.get i z))
  | .get i z => some ((s.modZone z fun x => { x with refcount := x.refcount + 1 }).goto a (.take i z))
  | .take i z =>
    some { s.goto a (.pend i z) with
      zmd := { s.zmd.modZone z fun x =>
          { x with wpBlock := x.wpBlock + 1, weight := x.weight + 1 } with
        nrAllocableBlks := s.zmd.nrAllocableBlks - 1, nrValidBlks := s.zmd.nrValidBlks + 1 } }
  | .pend i z =>
    let s' := s.modZone z fun x => { x with pendingWriteIo := x.pendingWriteIo + 1 }
    if (s.zmd.zones z).wpBlock = c.zoneNrBlocks then some (s'.goto a (.clear i z))
    else some { s'.goto a (.writing z) with zmdLock := none }
  | .clear i z => some ((s.modZone z (Zone.clearZoneState .active)).goto a (.setToFull i z))
  | .setToFull i z => some ((s.modZone z (Zone.setZoneState .toFull)).goto a (.fullPut i z .lock))
  | .fullPut i z pc => putStep s a z (.fullPut i z) (.clearSlot i z) pc
  | .clearSlot i z =>
    some { s.goto a (.writing z) with
      zmd := { s.zmd with activeZone := Function.update s.zmd.activeZone i none }, zmdLock := none }
  | .writing z => some ((s.modZone z fun x => { x with pendingWriteIo := x.pendingWriteIo - 1 }).goto
      a (.put z .write .lock))
  | .victim mod =>
    if s.zmdLock = none then
      match victim c s.zmd mod with
      | none => some (s.goto a .done)
      | some z =>
        some { s.goto a (.victimGet z) with
          zmd := { s.zmd with fullZoneList := s.zmd.fullZoneList.erase z }, zmdLock := some a }
    else none
  | .victimGet z => some ((s.modZone z fun x => { x with refcount := x.refcount + 1 }).goto a
      (.victimFlag z))
  | .victimFlag z =>
    some { s.goto a (.collecting z) with
      zmd := { s.zmd.modZone z (Zone.setZoneState .gc) with
        fullZoneCount := s.zmd.fullZoneCount - 1
        activeZoneCount := s.zmd.activeZoneCount + 1 }
      zmdLock := none }
  | .collecting z => some ((s.modZone z (Zone.setZoneState .gcCompleted)).goto a (.put z .gc .lock))
  | .getting z by_ => some ((s.modZone z fun x => { x with refcount := x.refcount + 1 }).goto a
      (.holding z by_))
  | .holding z by_ => some (s.goto a (.put z by_ .lock))
  | .put z by_ pc => putStep s a z (.put z by_) .done pc
  | .done => none

/-- One access of the worker, or `none` while it waits for a lock. -/
def zoneWkStep (s : ZoneSys) : Option ZoneSys :=
  match s.wk with
  | .idle | .panicked => none
  | .visit i send =>
    if c.nrZones ≤ i then some { s with wk := .idle }
    else if (s.zmd.zones i).flags .toFull then some { s with wk := .testFull i send }
    else some { s with wk := .testRef i send }
  | .testFull i send =>
    if s.zoneLock i ≠ none then none
    else if (s.zmd.zones i).state = .full then
      some { s.modZone i fun x => { x with state := .closed } with wk := .close i }
    else some { s with wk := if send then .close i else .visit (i + 1) send }
  | .close i => some { s.modZone i fun x => { x with flags := oneFlag .full } with wk := .link i }
  | .link i =>
    if s.zmdLock ≠ none then none
    else
      some { s with
        zmd := { s.zmd with
          fullZoneList := s.zmd.fullZoneList ++ [i], fullZoneCount := s.zmd.fullZoneCount + 1 }
        wk := .visit (i + 1) true }
  | .testRef i send =>
    some { s with wk := if (s.zmd.zones i).refcount ≠ 0 then .visit (i + 1) send else .gcTest i send }
  | .gcTest i send =>
    some { s with wk := if (s.zmd.zones i).flags .gc then .testEmpty i send else .visit (i + 1) send }
  | .testEmpty i send =>
    if s.zoneLock i ≠ none then none
    else
      some { s with
        wk := if (s.zmd.zones i).state = .empty ∨ send then .reset i else .visit (i + 1) send }
  | .reset i =>
    some { s with wk := if (s.zmd.zones i).weight ≠ 0 then .panicked else .resetWp i }
  | .resetWp i =>
    some { s.modZone i fun x => { x with stream := -1, wpBlock := 0 } with wk := .resetState i }
  | .resetState i =>
    some { s.modZone i fun x => { x with state := .empty } with wk := .resetFlags i }
  | .resetFlags i =>
    some { s.modZone i fun x => { x with flags := oneFlag .init } with wk := .publish i }
  | .publish i =>
    if s.zmdLock ≠ none then none
    else
      some { s with
        zmd := { s.zmd with
          emptyZoneList := s.zmd.emptyZoneList ++ [i]
          emptyZoneCount := s.zmd.emptyZoneCount + 1
          activeZoneCount := s.zmd.activeZoneCount - 1
          nrAllocableBlks := s.zmd.nrAllocableBlks + c.zoneNrBlocks }
        wk := .visit (i + 1) true }

/-! ## Steps -/

/-- One step of one context. -/
inductive ZoneEvent
  | callAlloc (mod : AllocFlag) (i : Fin 2)
  | callVictim (mod : VictimMod)
  /-- some context is about to read from zone `z` -/
  | callGet (z : ℕ) (by_ : PutBy)
  | run (a : ℕ)
  /-- `lbz_zone_release_global_res` -/
  | release (z : ℕ)
  | wkStart
  | wkRun
deriving DecidableEq, Repr

/-- One step; after a panic there is none. -/
def ZoneSys.step (s : ZoneSys) (e : ZoneEvent) : Option ZoneSys :=
  if s.wk = .panicked then none
  else
    match e with
    | .callAlloc mod i => some { s with ctxs := s.ctxs.alloc (.alloc mod i) }
    | .callVictim mod => some { s with ctxs := s.ctxs.alloc (.victim mod) }
    | .callGet z by_ => some { s with ctxs := s.ctxs.alloc (.getting z by_) }
    | .run a => (s.ctxs.get a).bind (ctxStep c s a)
    | .release z => some { s with zmd := releaseGlobalRes s.zmd z }
    | .wkStart => if s.wk = .idle then some { s with wk := .visit 0 false } else none
    | .wkRun => zoneWkStep c s

/-- The zones `m`, and no context at work. -/
def ZoneSys.start (m : Zmd) : ZoneSys := ⟨m, none, fun _ => none, Heap.empty, .idle⟩

end Lbz
