import Lbz.ZoneAccess

/-!
# Where the zones are, between two accesses

* `ZoneCtx.InZmd`, `ZoneCtx.Locks`: the locks that a context holds; `ZoneCtx.refs`, `ZoneCtx.pends`:
  its share of the two counters of a zone;
* `Spots m slot pl`: the lists, the slots and the flags say that zone `z` is at `pl z`;
* `SpotInv`: so they do at every access, the locks are held by those that say so, and the counters
  are exact; **`SpotInv.step`**: every step keeps it.
-/

namespace Lbz

/-! ## What a context holds -/

/-- `zone->lock` is held. -/
def PutPc.Locked (pc : PutPc) : Prop := pc ≠ .lock

/-- The reference is not given up yet. -/
def PutPc.early : PutPc → Bool
  | .lock | .dec => true
  | _ => false

namespace ZoneCtx

/-- The zone of a call of `lbz_put_zone`. -/
def putAt : ZoneCtx → Option (ℕ × PutPc)
  | .slotPut _ z pc | .fullPut _ z pc | .put z _ pc => some (z, pc)
  | _ => none

/-- The context holds the lock of zone `z`. -/
def Locks (z : ℕ) (x : ZoneCtx) : Prop := ∃ pc, x.putAt = some (z, pc) ∧ pc.Locked

/-- The context holds `zmd_lock`. -/
def InZmd : ZoneCtx → Prop
  | .slotPut _ _ _ | .free _ | .openGet _ _ | .openFlag _ _ | .openState _ _ | .get _ _ | .take _ _
  | .pend _ _ | .clear _ _ | .setToFull _ _ | .fullPut _ _ _ | .clearSlot _ _ | .victimGet _
  | .victimFlag _ => True
  | _ => False

/-- The zone in which a block is allocated for a write that is not completed. -/
def blockIn : ZoneCtx → Option ℕ
  | .pend _ z | .clear _ z | .setToFull _ z | .fullPut _ z _ | .clearSlot _ z | .writing z => some z
  | _ => none

/-- The references on zone `z` that the context will give up or hand over. -/
def refs (z : ℕ) : ZoneCtx → ℤ
  | .openFlag _ z' | .openState _ z' | .take _ z' | .pend _ z' | .clear _ z' | .setToFull _ z'
  | .clearSlot _ z' | .writing z' | .victimFlag z' | .collecting z' | .holding z' _ => at1 z' z
  | .slotPut _ z' pc | .put z' _ pc => if pc.early then at1 z' z else 0
  | .fullPut _ z' pc => at1 z' z + if pc.early then at1 z' z else 0
  | _ => 0

/-- The pending write of the context in zone `z`. -/
def pends (z : ℕ) : ZoneCtx → ℤ
  | .clear _ z' | .setToFull _ z' | .fullPut _ z' _ | .clearSlot _ z' | .writing z' => at1 z' z
  | _ => 0

end ZoneCtx

/-! ## Spots -/

/-- Where a zone is. -/
inductive Spot
  | empty
  /-- off `empty_zone_list`, not open yet -/
  | opening
  | slot (i : Fin 2)
  | toFull
  | linking
  | full
  /-- off `full_zone_list`, without `LBZ_ZONE_GC` -/
  | taken
  | gc
  | publishing
  /-- nowhere -/
  | lost
deriving DecidableEq

/-- Lists, slots and flags tell that a zone is there. -/
def Spot.Shown : Spot → Prop
  | .empty | .slot _ | .toFull | .full | .gc => True
  | _ => False

/-- Zone `z` is shown at a spot; `slot` says which zones are active. -/
def Seen (m : Zmd) (slot : Fin 2 → Option ℕ) (z : ℕ) : Spot → Prop
  | .empty => z ∈ m.emptyZoneList
  | .slot i => slot i = some z
  | .toFull => (m.zones z).flags .toFull = true
  | .full => z ∈ m.fullZoneList
  | .gc => (m.zones z).flags .gc = true
  | _ => False

/-- Zone `z` is at `pl z`. -/
structure Spots (m : Zmd) (slot : Fin 2 → Option ℕ) (pl : ℕ → Spot) : Prop where
  seen : ∀ z q, q.Shown → (Seen m slot z q ↔ pl z = q)
  emptyNodup : m.emptyZoneList.Nodup
  fullNodup : m.fullZoneList.Nodup

namespace Spots

variable {m m' : Zmd} {slot slot' : Fin 2 → Option ℕ} {pl : ℕ → Spot} {z : ℕ} {q : Spot}

theorem at_of_seen (a : Spots m slot pl) (h : Seen m slot z q) (hq : q.Shown) : pl z = q :=
  (a.seen z q hq).mp h

theorem not_toFull (a : Spots m slot pl) (h : pl z ≠ .toFull) : (m.zones z).flags .toFull = false :=
  Bool.eq_false_of_not_eq_true fun hf => h ((a.seen z .toFull trivial).mp hf)

theorem not_gc (a : Spots m slot pl) (h : pl z ≠ .gc) : (m.zones z).flags .gc = false :=
  Bool.eq_false_of_not_eq_true fun hf => h ((a.seen z .gc trivial).mp hf)

/-- Nothing of it changes. -/
theorem same (a : Spots m slot pl) (he : m'.emptyZoneList = m.emptyZoneList)
    (hf : m'.fullZoneList = m.fullZoneList)
    (hz : ∀ z, (m'.zones z).flags .toFull = (m.zones z).flags .toFull ∧
      (m'.zones z).flags .gc = (m.zones z).flags .gc) : Spots m' slot pl := by
  refine ⟨fun z q hq => ?_, he ▸ a.emptyNodup, hf ▸ a.fullNodup⟩
  rw [← a.seen z q hq]
  cases q <;> simp only [Seen, he, hf, (hz z).1, (hz z).2]

/-- Only zone `z` moves. -/
theorem move (a : Spots m slot pl) (z : ℕ) (q : Spot)
    (hother : ∀ z' ≠ z, ∀ q, Seen m' slot' z' q ↔ Seen m slot z' q)
    (hself : ∀ q', q'.Shown → (Seen m' slot' z q' ↔ q' = q))
    (hnd : m'.emptyZoneList.Nodup ∧ m'.fullZoneList.Nodup) :
    Spots m' slot' (Function.update pl z q) := by
  refine ⟨fun z' q' hq => ?_, hnd.1, hnd.2⟩
  by_cases e : z' = z
  · rw [e, Function.update_self, hself q' hq, eq_comm]
  · rw [Function.update_of_ne e, hother z' e, a.seen z' q' hq]

/-- No zone is in two slots. -/
theorem slot_inj (a : Spots m slot pl) {i j : Fin 2} (hi : slot i = some z) (hj : slot j = some z) :
    j = i := by
  have := (a.at_of_seen (q := .slot j) hj trivial).symm.trans (a.at_of_seen (q := .slot i) hi trivial)
  cases this
  rfl

/-- The slot of stream `i` gives up zone `z`, which goes to `q`. -/
theorem leaveSlot (a : Spots m slot pl) {i : Fin 2} (hi : slot i = some z)
    (he : m'.emptyZoneList = m.emptyZoneList) (hf : m'.fullZoneList = m.fullZoneList)
    (hother : ∀ z' ≠ z, m'.zones z' = m.zones z')
    (hgc : (m'.zones z).flags .gc = (m.zones z).flags .gc)
    (hq : ∀ j, q ≠ .slot j) (hq' : q ≠ .empty ∧ q ≠ .full ∧ q ≠ .gc)
    (hto : (m'.zones z).flags .toFull = true ↔ q = .toFull) :
    Spots m' (Function.update slot i none) (Function.update pl z q) := by
  have hz : pl z = .slot i := a.at_of_seen (q := .slot i) hi trivial
  have hslot : ∀ j z', Function.update slot i none j = some z' ↔ j ≠ i ∧ slot j = some z' :=
    fun j z' => by
      rw [Function.update_apply]
      split_ifs with e
      · exact iff_of_false nofun fun h => h.1 e
      · exact (and_iff_right e).symm
  refine a.move z q (fun z' e q' => ?_) (fun q' hs => ?_) ⟨he ▸ a.emptyNodup, hf ▸ a.fullNodup⟩
  · cases q' with
    | slot j =>
      refine (hslot j z').trans (and_iff_right_of_imp fun hj => ?_)
      rintro rfl
      exact e (Option.some.inj (hj.symm.trans hi))
    | _ => simp only [Seen, he, hf, hother z' e]
  · have hseen := fun q' hs => a.seen z q' hs
    rw [hz] at hseen
    cases q' with
    | slot j =>
      refine iff_of_false (fun h => ?_) (hq j).symm
      obtain ⟨h1, h2⟩ := (hslot j z).mp h
      exact h1 (a.slot_inj hi h2)
    | toFull => exact hto.trans eq_comm
    | empty =>
      refine iff_of_false (fun h => ?_) hq'.1.symm
      rw [Seen, he] at h
      cases (hseen .empty trivial).mp h
    | full =>
      refine iff_of_false (fun h => ?_) hq'.2.1.symm
      rw [Seen, hf] at h
      cases (hseen .full trivial).mp h
    | gc =>
      refine iff_of_false (fun h => ?_) hq'.2.2.symm
      rw [Seen, hgc] at h
      cases (hseen .gc trivial).mp h
    | _ => exact absurd hs id

/-- The first zone of `empty_zone_list` leaves it. -/
theorem openZone (a : Spots m slot pl) (m' : Zmd) {l : List ℕ} (he : m.emptyZoneList = z :: l)
    (he' : m'.emptyZoneList = l) (hf : m'.fullZoneList = m.fullZoneList)
    (hz : ∀ z, (m'.zones z).flags .toFull = (m.zones z).flags .toFull ∧
      (m'.zones z).flags .gc = (m.zones z).flags .gc) :
    pl z = .empty ∧ Spots m' slot (Function.update pl z .opening) := by
  have hpl : pl z = .empty := (a.seen z .empty trivial).mp (by rw [Seen, he]; exact List.mem_cons_self)
  have hnd := a.emptyNodup
  rw [he, List.nodup_cons] at hnd
  refine ⟨hpl, a.move z .opening (fun z' e q => ?_) (fun q hq => ?_)
    ⟨he' ▸ hnd.2, hf ▸ a.fullNodup⟩⟩
  · cases q <;> simp [Seen, he, he', hf, hz, e]
  · have hseen := a.seen z q hq
    rw [hpl] at hseen
    cases q <;> simp_all [Seen, Spot.Shown]

/-- A zone leaves `full_zone_list`. -/
theorem takeZone (a : Spots m slot pl) (m' : Zmd) (hmem : z ∈ m.fullZoneList)
    (he : m'.emptyZoneList = m.emptyZoneList) (hf : m'.fullZoneList = m.fullZoneList.erase z)
    (hz : m'.zones = m.zones) :
    pl z = .full ∧ Spots m' slot (Function.update pl z .taken) := by
  have hpl : pl z = .full := (a.seen z .full trivial).mp hmem
  refine ⟨hpl, a.move z .taken (fun z' e q => ?_) (fun q hq => ?_)
    ⟨he ▸ a.emptyNodup, hf ▸ a.fullNodup.erase z⟩⟩
  · cases q <;> simp [Seen, he, hf, hz, e, a.fullNodup.mem_erase_iff]
  · have hseen := a.seen z q hq
    rw [hpl] at hseen
    cases q <;> simp_all [Seen, Spot.Shown, a.fullNodup.mem_erase_iff]

/-- A zone that was not shown enters the slot of stream `i`. -/
theorem enterSlot (a : Spots m slot pl) {i : Fin 2} (hz : ¬ (pl z).Shown) (hi : slot i = none)
    (he : m'.emptyZoneList = m.emptyZoneList) (hf : m'.fullZoneList = m.fullZoneList)
    (hzone : ∀ z, (m'.zones z).flags .toFull = (m.zones z).flags .toFull ∧
      (m'.zones z).flags .gc = (m.zones z).flags .gc) :
    Spots m' (Function.update slot i (some z)) (Function.update pl z (.slot i)) := by
  have hnot : ∀ q, q.Shown → ¬ Seen m slot z q := fun q hq h => hz ((a.seen z q hq).mp h ▸ hq)
  refine a.move z (.slot i) (fun z' e q => ?_) (fun q hq => ?_) ⟨he ▸ a.emptyNodup, hf ▸ a.fullNodup⟩
  · cases q with
    | slot j =>
      simp only [Seen, Function.update_apply]
      split_ifs with ej
      · rw [ej, hi]
        exact iff_of_false (fun h => e (Option.some.inj h).symm) nofun
      · exact Iff.rfl
    | _ => simp only [Seen, he, hf, hzone]
  · have h := hnot q hq
    cases q with
    | slot j =>
      simp only [Seen, Function.update_apply, Spot.slot.injEq] at h ⊢
      split_ifs with ej
      · exact iff_of_true rfl ej
      · exact iff_of_false h ej
    | _ => simp_all [Seen, Spot.Shown]

/-- `LBZ_ZONE_GC` is set for a zone that was not shown. -/
theorem setGc (a : Spots m slot pl) (hz : ¬ (pl z).Shown) (he : m'.emptyZoneList = m.emptyZoneList)
    (hf : m'.fullZoneList = m.fullZoneList)
    (hzone : ∀ z', (m'.zones z').flags .toFull = (m.zones z').flags .toFull ∧
      ((m'.zones z').flags .gc = if z' = z then true else (m.zones z').flags .gc)) :
    Spots m' slot (Function.update pl z .gc) := by
  have hnot : ∀ q, q.Shown → ¬ Seen m slot z q := fun q hq h => hz ((a.seen z q hq).mp h ▸ hq)
  refine a.move z .gc (fun z' e q => ?_) (fun q hq => ?_) ⟨he ▸ a.emptyNodup, hf ▸ a.fullNodup⟩
  · cases q <;> simp [Seen, he, hf, hzone, e]
  · have h := hnot q hq
    cases q <;> simp_all [Seen, Spot.Shown]

/-- The flags of zone `z` are cleared. -/
theorem hide (a : Spots m slot pl) (hz : pl z = .toFull ∨ pl z = .gc) (hq : ¬ q.Shown)
    (he : m'.emptyZoneList = m.emptyZoneList) (hf : m'.fullZoneList = m.fullZoneList)
    (hother : ∀ z' ≠ z, m'.zones z' = m.zones z')
    (hself : (m'.zones z).flags .toFull = false ∧ (m'.zones z).flags .gc = false) :
    Spots m' slot (Function.update pl z q) := by
  refine a.move z q (fun z' e q' => ?_) (fun q' hs => ?_) ⟨he ▸ a.emptyNodup, hf ▸ a.fullNodup⟩
  · cases q' <;> simp only [Seen, he, hf, hother z' e]
  · refine iff_of_false (fun h => ?_) fun h => hq (h ▸ hs)
    have hseen := fun h => (a.seen z q' hs).mp h
    cases q' with
    | toFull => exact Bool.false_ne_true (hself.1.symm.trans h)
    | gc => exact Bool.false_ne_true (hself.2.symm.trans h)
    | slot j => rcases hz with hz | hz <;> cases (hz.symm.trans (hseen h))
    | empty =>
      rw [Seen, he] at h
      rcases hz with hz | hz <;> cases (hz.symm.trans (hseen h))
    | full =>
      rw [Seen, hf] at h
      rcases hz with hz | hz <;> cases (hz.symm.trans (hseen h))
    | _ => exact absurd hs id

/-- A zone that was not shown enters one of the lists. -/
theorem enlist (a : Spots m slot pl) (hz : ¬ (pl z).Shown)
    (hzone : ∀ z, (m'.zones z).flags .toFull = (m.zones z).flags .toFull ∧
      (m'.zones z).flags .gc = (m.zones z).flags .gc)
    (hq : q = .full ∧ m'.emptyZoneList = m.emptyZoneList ∧
        m'.fullZoneList.Perm (z :: m.fullZoneList) ∨
      q = .empty ∧ m'.emptyZoneList.Perm (z :: m.emptyZoneList) ∧
        m'.fullZoneList = m.fullZoneList) : Spots m' slot (Function.update pl z q) := by
  have hnot : ∀ q, q.Shown → ¬ Seen m slot z q := fun q hq h => hz ((a.seen z q hq).mp h ▸ hq)
  obtain ⟨rfl, he, hf⟩ | ⟨rfl, he, hf⟩ := hq
  · refine a.move z _ (fun z' e q => ?_) (fun q hq => ?_)
      ⟨he ▸ a.emptyNodup, hf.nodup_iff.mpr (List.nodup_cons.mpr ⟨hnot .full trivial, a.fullNodup⟩)⟩
    · cases q <;> simp [Seen, he, hf.mem_iff, hzone, e]
    · have h := hnot q hq
      cases q <;> simp_all [Seen, Spot.Shown, hf.mem_iff]
  · refine a.move z _ (fun z' e q => ?_) (fun q hq => ?_)
      ⟨he.nodup_iff.mpr (List.nodup_cons.mpr ⟨hnot .empty trivial, a.emptyNodup⟩), hf ▸ a.fullNodup⟩
    · cases q <;> simp [Seen, he.mem_iff, hf, hzone, e]
    · have h := hnot q hq
      cases q <;> simp_all [Seen, Spot.Shown, he.mem_iff]

end Spots

/-! ## The invariant -/

/-- The context moves the slot of stream `i`. -/
def ZoneCtx.Works (i : Fin 2) : ZoneCtx → Prop
  | .slotPut j _ _ | .free j | .openGet j _ | .openFlag j _ | .openState j _ | .fullPut j _ _
  | .clearSlot j _ => j = i
  | _ => False

/-- What the holder of `zmd_lock` can rely on. -/
def ZoneCtx.Fact (act slot : Fin 2 → Option ℕ) (pl : ℕ → Spot) : ZoneCtx → Prop
  | .slotPut i _ _ | .free i | .fullPut i _ _ | .clearSlot i _ => slot i = none
  | .openGet i z | .openFlag i z | .openState i z =>
      act i = some z ∧ slot i = none ∧ pl z = .opening
  | .get i z | .take i z | .pend i z | .clear i z | .setToFull i z => slot i = some z
  | .victimGet z | .victimFlag z => pl z = .taken
  | _ => True

/-- Where the zone of the worker is. -/
def ZoneWk.Fact (pl : ℕ → Spot) : ZoneWk → Prop
  | .testFull i _ | .close i => pl i = .toFull
  | .link i => pl i = .linking
  | .testEmpty i _ | .reset i | .resetWp i | .resetState i | .resetFlags i => pl i = .gc
  | .publish i => pl i = .publishing
  | _ => True

/-- The worker works on a zone there. -/
def Spot.Worker : Spot → Prop
  | .toFull | .linking | .gc | .publishing => True
  | _ => False

/-- A zone moves that the worker is not at. -/
theorem ZoneWk.Fact.update {wk : ZoneWk} {pl : ℕ → Spot} {z : ℕ} {p q : Spot} (h : wk.Fact pl)
    (hz : pl z = p) (hp : ¬ p.Worker) : wk.Fact (Function.update pl z q) := by
  have hne : ∀ i r, pl i = r → r.Worker → Function.update pl z q i = r := fun i r hi hr => by
    rw [Function.update_of_ne, hi]
    rintro rfl
    exact hp (hz ▸ hi ▸ hr)
  cases wk <;> first | trivial | exact hne _ _ h trivial

/-- Zone `z` is at `pl z`, and the slot of stream `i` holds the zone `slot i`. -/
structure SpotInv (s : ZoneSys) (pl : ℕ → Spot) (slot : Fin 2 → Option ℕ) : Prop where
  spots : Spots s.zmd slot pl
  wk : s.wk.Fact pl
  lock : s.ctxs.All fun a x => x.InZmd → s.zmdLock = some a
  fact : s.ctxs.All fun _ x => x.Fact s.zmd.activeZone slot pl
  slots : ∀ i, s.zmd.activeZone i = slot i ∨ s.ctxs.Any (ZoneCtx.Works i)
  zoneLock : ∀ a z, s.zoneLock z = some a ↔ s.ctxs.At a (ZoneCtx.Locks z)
  refs : ∀ z, (s.zmd.zones z).refcount = slotRefs slot z + s.ctxs.sum (ZoneCtx.refs z)
  pends : ∀ z, (s.zmd.zones z).pendingWriteIo = s.ctxs.sum (ZoneCtx.pends z)

theorem ZoneCtx.Works.inZmd {i : Fin 2} {x : ZoneCtx} (h : x.Works i) : x.InZmd := by
  cases x <;> trivial

theorem ZoneCtx.fact_of_not_inZmd {x : ZoneCtx} (h : ¬ x.InZmd) (act slot : Fin 2 → Option ℕ)
    (pl : ℕ → Spot) : x.Fact act slot pl := by
  cases x <;> first | trivial | exact absurd trivial h

/-- How `zmd_lock` changes hands in a step of context `a`, which goes from `x` to `x'`. -/
inductive LockStep (a : ℕ) (x x' : ZoneCtx) : Option ℕ → Option ℕ → Prop
  | keep {l : Option ℕ} (h : x'.InZmd → x.InZmd) : LockStep a x x' l l
  | take : LockStep a x x' none (some a)
  | drop (h : ¬ x'.InZmd) : LockStep a x x' (some a) none

theorem LockStep.self {a : ℕ} {x x' : ZoneCtx} {l l' : Option ℕ} (h : LockStep a x x' l l')
    (hx : x.InZmd → l = some a) (hx' : x'.InZmd) : l' = some a := by
  cases h with
  | keep hk => exact hx (hk hx')
  | take => rfl
  | drop hn => exact absurd hx' hn

theorem LockStep.other {a b : ℕ} {x x' : ZoneCtx} {l l' : Option ℕ} (h : LockStep a x x' l l')
    (hb : b ≠ a) (hl : l = some b) : l' = some b := by
  cases h with
  | keep hk => exact hl
  | take => cases hl
  | drop hn => exact absurd (Option.some.inj hl).symm hb

namespace SpotInv

variable {s s' : ZoneSys} {pl pl' : ℕ → Spot} {slot slot' : Fin 2 → Option ℕ} {a : ℕ}
  {x x' : ZoneCtx}

theorem works_free (h : SpotInv s pl slot) (hl : s.zmdLock = none) (i : Fin 2) :
    s.zmd.activeZone i = slot i := by
  refine (h.slots i).resolve_right fun ⟨b, y, hy, hw⟩ => ?_
  have := h.lock b y hy hw.inZmd
  rw [hl] at this
  cases this

/-- **A step of a context.** -/
theorem ctx (h : SpotInv s pl slot) (x' : ZoneCtx) (hx : s.ctxs.get a = some x)
    (hc : s'.ctxs = s.ctxs.modify a fun _ => x') (hspots : Spots s'.zmd slot' pl')
    (hwk : s'.wk.Fact pl') (hlock : LockStep a x x' s.zmdLock s'.zmdLock)
    (hfact : x'.Fact s'.zmd.activeZone slot' pl')
    (hmine : x.InZmd ∨ s.zmdLock = none ∨
      s'.zmd.activeZone = s.zmd.activeZone ∧ slot' = slot ∧ pl' = pl)
    (hslots : ∀ i, s'.zmd.activeZone i = slot' i ∨ x'.Works i ∨
      ¬ x.Works i ∧ s'.zmd.activeZone i = s.zmd.activeZone i ∧ slot' i = slot i)
    (hzone : ∀ b z, s'.zoneLock z = some b ↔ s'.ctxs.At b (ZoneCtx.Locks z))
    (hrefs : ∀ z, (s'.zmd.zones z).refcount - slotRefs slot' z - x'.refs z =
      (s.zmd.zones z).refcount - slotRefs slot z - x.refs z)
    (hpends : ∀ z, (s'.zmd.zones z).pendingWriteIo - x'.pends z =
      (s.zmd.zones z).pendingWriteIo - x.pends z) : SpotInv s' pl' slot' := by
  -- no other context holds the lock
  have hothers : ∀ b y, b ≠ a → s.ctxs.get b = some y → x.InZmd ∨ s.zmdLock = none →
      ¬ y.InZmd := fun b y hb hy hl hi => by
    have h1 := h.lock b y hy hi
    rcases hl with hl | hl
    · exact hb (Option.some.inj (h1.symm.trans (h.lock a x hx hl)))
    · rw [hl] at h1
      cases h1
  refine ⟨hspots, hwk, ?_, ?_, fun i => ?_, hzone, fun z => ?_, fun z => ?_⟩
  · rw [hc]
    intro b y hy hi
    by_cases e : b = a
    · subst e
      cases (Heap.get_modify_self hx _).symm.trans hy
      exact hlock.self (h.lock b x hx) hi
    · rw [Heap.get_modify_ne e] at hy
      exact hlock.other e (h.lock b y hy hi)
  · rw [hc]
    intro b y hy
    by_cases e : b = a
    · subst e
      cases (Heap.get_modify_self hx _).symm.trans hy
      exact hfact
    · rw [Heap.get_modify_ne e] at hy
      rcases or_assoc.mpr hmine with hl | ⟨h1, h2, h3⟩
      · exact ZoneCtx.fact_of_not_inZmd (hothers b y e hy hl) ..
      · have := h.fact b y hy
        rwa [← h1, ← h2, ← h3] at this
  · rw [hc]
    rcases hslots i with h1 | h1 | ⟨h1, h2, h3⟩
    · exact Or.inl h1
    · exact Or.inr (.self hx h1)
    · rw [h2, h3]
      exact (h.slots i).imp_right fun hw => hw.modify hx fun hx => absurd hx h1
  · have := h.refs z
    have := hrefs z
    rw [hc, Heap.sum_modify hx]
    omega
  · have := h.pends z
    have := hpends z
    rw [hc, Heap.sum_modify hx]
    omega

/-- A step of a context that changes no zone. -/
theorem quiet (h : SpotInv s pl slot) (x' : ZoneCtx) (hx : s.ctxs.get a = some x)
    (hc : s'.ctxs = s.ctxs.modify a fun _ => x') (hm : s'.zmd = s.zmd) (hwk : s'.wk = s.wk)
    (hlock : LockStep a x x' s.zmdLock s'.zmdLock)
    (hfact : x'.Fact s.zmd.activeZone slot pl) (hworks : ∀ i, ¬ x.Works i)
    (hzone : ∀ b z, s'.zoneLock z = some b ↔ s'.ctxs.At b (ZoneCtx.Locks z))
    (hrefs : ∀ z, x'.refs z = x.refs z) (hpends : ∀ z, x'.pends z = x.pends z) :
    SpotInv s' pl slot := by
  refine h.ctx x' hx hc (by rw [hm]; exact h.spots) (hwk ▸ h.wk) hlock (by rw [hm]; exact hfact)
    (Or.inr (Or.inr ⟨by rw [hm], rfl, rfl⟩))
    (fun i => Or.inr (Or.inr ⟨hworks i, by rw [hm], rfl⟩)) hzone (fun z => ?_) fun z => ?_
  · rw [hm, hrefs]
  · rw [hm, hpends]

/-- The locks of zones, where the context keeps what it holds. -/
theorem zoneLock_keep (h : SpotInv s pl slot) (hx : s.ctxs.get a = some x)
    (hc : s'.ctxs = s.ctxs.modify a fun _ => x') (hl : s'.zoneLock = s.zoneLock)
    (hk : ∀ z, x'.Locks z ↔ x.Locks z) (b z : ℕ) :
    s'.zoneLock z = some b ↔ s'.ctxs.At b (ZoneCtx.Locks z) := by
  rw [hl, hc, h.zoneLock, Heap.at_modify hx (hk z)]

/-- A step of a context that moves no zone: the counters of zone `z` change by `dr` and `dp`. -/
theorem plain (h : SpotInv s pl slot) (x' : ZoneCtx) (z : ℕ) (f : Zone → Zone) (dr dp : ℤ)
    (hx : s.ctxs.get a = some x) (hc : s'.ctxs = s.ctxs.modify a fun _ => x')
    (hm : s'.zmd.zones = (s.zmd.modZone z f).zones)
    (hlists : s'.zmd.emptyZoneList = s.zmd.emptyZoneList ∧ s'.zmd.fullZoneList = s.zmd.fullZoneList ∧
      s'.zmd.activeZone = s.zmd.activeZone)
    (hf : ∀ y, y = s.zmd.zones z → (f y).flags .toFull = y.flags .toFull ∧
      (f y).flags .gc = y.flags .gc ∧ (f y).refcount = y.refcount + dr ∧
      (f y).pendingWriteIo = y.pendingWriteIo + dp)
    (hwk : s'.wk = s.wk) (hlock : LockStep a x x' s.zmdLock s'.zmdLock)
    (hfact : x.Fact s.zmd.activeZone slot pl → x'.Fact s.zmd.activeZone slot pl)
    (hworks : ∀ i, x.Works i → x'.Works i)
    (hzone : ∀ b z, s'.zoneLock z = some b ↔ s'.ctxs.At b (ZoneCtx.Locks z))
    (hrefs : ∀ z', x'.refs z' = x.refs z' + dr * at1 z z')
    (hpends : ∀ z', x'.pends z' = x.pends z' + dp * at1 z z') : SpotInv s' pl slot := by
  obtain ⟨h1, h2, h3⟩ := hlists
  refine h.ctx x' hx hc (h.spots.same h1 h2 fun z' => ?_) (hwk ▸ h.wk) hlock ?_ (Or.inr (Or.inr ⟨h3, rfl, rfl⟩))
    (fun i => ?_) hzone (fun z' => ?_) fun z' => ?_
  · rw [hm, Zmd.modZone_zones]
    split_ifs with e
    · have := hf (s.zmd.zones z') (by rw [e])
      exact ⟨this.1, this.2.1⟩
    · exact ⟨rfl, rfl⟩
  · rw [h3]
    exact hfact (h.fact a x hx)
  · by_cases hw : x.Works i
    · exact Or.inr (Or.inl (hworks i hw))
    · exact Or.inr (Or.inr ⟨hw, congrFun h3 i, rfl⟩)
  · rw [hm, Zmd.modZone_zones, hrefs, at1]
    split_ifs with e
    · rw [(hf (s.zmd.zones z') (by rw [e])).2.2.1]
      ring
    · ring
  · rw [hm, Zmd.modZone_zones, hpends, at1]
    split_ifs with e
    · rw [(hf (s.zmd.zones z') (by rw [e])).2.2.2]
      ring
    · ring

end SpotInv

/-! ## `lbz_put_zone` -/

/-- `k` are the places of a context in `lbz_put_zone` of `z`, and `y` the one after it. -/
structure PutFrame (z : ℕ) (k : PutPc → ZoneCtx) (y : ZoneCtx) : Prop where
  putAt : ∀ pc, (k pc).putAt = some (z, pc)
  out : y.putAt = none
  inZmd : ∀ pc, (k pc).InZmd ↔ y.InZmd
  fact : ∀ pc act slot pl, (k pc).Fact act slot pl ↔ y.Fact act slot pl
  works : ∀ pc i, (k pc).Works i ↔ y.Works i
  refs : ∀ pc z', (k pc).refs z' = y.refs z' + if pc.early then at1 z z' else 0
  pends : ∀ pc z', (k pc).pends z' = y.pends z'

theorem putFrame_slot (i : Fin 2) (z : ℕ) : PutFrame z (.slotPut i z) (.free i) :=
  ⟨fun _ => rfl, rfl, fun _ => Iff.rfl, fun _ _ _ _ => Iff.rfl, fun _ _ => Iff.rfl,
    fun _ _ => (zero_add _).symm, fun _ _ => rfl⟩

theorem putFrame_full (i : Fin 2) (z : ℕ) : PutFrame z (.fullPut i z) (.clearSlot i z) :=
  ⟨fun _ => rfl, rfl, fun _ => Iff.rfl, fun _ _ _ _ => Iff.rfl, fun _ _ => Iff.rfl,
    fun _ _ => rfl, fun _ _ => rfl⟩

theorem putFrame_put (z : ℕ) (by_ : PutBy) : PutFrame z (.put z by_) .done :=
  ⟨fun _ => rfl, rfl, fun _ => Iff.rfl, fun _ _ _ _ => Iff.rfl, fun _ _ => Iff.rfl,
    fun _ _ => (zero_add _).symm, fun _ _ => rfl⟩

namespace PutFrame

variable {z : ℕ} {k : PutPc → ZoneCtx} {y : ZoneCtx} {pc pc' : PutPc}

theorem locks_iff (F : PutFrame z k y) (z' : ℕ) : (k pc).Locks z' ↔ z' = z ∧ pc.Locked := by
  simp only [ZoneCtx.Locks, F.putAt, Option.some.injEq, Prod.mk.injEq]
  constructor
  · rintro ⟨pc', ⟨rfl, rfl⟩, h⟩
    exact ⟨rfl, h⟩
  · rintro ⟨rfl, h⟩
    exact ⟨pc, ⟨rfl, rfl⟩, h⟩

theorem not_locks (F : PutFrame z k y) (z' : ℕ) : ¬ y.Locks z' := fun ⟨pc, h, _⟩ => by
  rw [F.out] at h
  cases h

end PutFrame

/-- What an access leaves of the zone. -/
theorem PutPc.access_zone (x : Zone) (pc : PutPc) : (pc.access x).1.flags = x.flags ∧
    (pc.access x).1.refcount = x.refcount + (if pc = .dec then -1 else 0) ∧
    (pc.access x).1.pendingWriteIo = x.pendingWriteIo := by
  cases pc <;> simp [PutPc.access, sub_eq_add_neg]

theorem PutPc.access_pc (x : Zone) {pc : PutPc} (hl : pc ≠ .lock) :
    (pc.access x).2.Locked ∧ (pc.access x).2.early = false := by
  cases pc <;> simp only [PutPc.access, PutPc.Locked] <;> first
    | exact absurd rfl hl
    | split_ifs <;> exact ⟨nofun, rfl⟩
    | exact ⟨nofun, rfl⟩

namespace SpotInv

variable {s s' : ZoneSys} {pl : ℕ → Spot} {slot : Fin 2 → Option ℕ} {a z : ℕ}
  {k : PutPc → ZoneCtx} {y : ZoneCtx} {pc : PutPc}

/-- `zone->lock` is taken. -/
theorem putLock (h : SpotInv s pl slot) (F : PutFrame z k y) (hx : s.ctxs.get a = some (k .lock))
    (hl : s.zoneLock z = none) :
    SpotInv { s.goto a (k .dec) with zoneLock := Function.update s.zoneLock z (some a) } pl slot := by
  refine h.plain (k .dec) z id 0 0 hx rfl ?_ ⟨rfl, rfl, rfl⟩
    (fun y _ => ⟨rfl, rfl, (add_zero _).symm, (add_zero _).symm⟩) rfl
    (.keep fun hi => (F.inZmd _).mpr ((F.inZmd _).mp hi))
    (fun hf => (F.fact ..).mpr ((F.fact ..).mp hf)) (fun i hw => (F.works ..).mpr ((F.works ..).mp hw))
    (fun b z' => ?_) (fun z' => ?_) fun z' => ?_
  · exact (Function.update_eq_self z s.zmd.zones).symm
  · change Function.update s.zoneLock z (some a) z' = some b ↔
      (s.ctxs.modify a fun _ => k .dec).At b (ZoneCtx.Locks z')
    by_cases e : b = a
    · subst e
      have hself : (s.ctxs.modify b fun _ => k .dec).At b (ZoneCtx.Locks z') ↔ z' = z := by
        rw [Heap.At, Heap.get_modify_self hx]
        exact ⟨fun ⟨x, hx, hp⟩ => by cases hx; exact ((F.locks_iff z').mp hp).1,
          fun e => ⟨_, rfl, (F.locks_iff z').mpr ⟨e, nofun⟩⟩⟩
      rw [hself, Function.update_apply]
      split_ifs with e'
      · exact iff_of_true rfl e'
      · refine iff_of_false (fun hb => ?_) e'
        obtain ⟨x, hx', hp⟩ := (h.zoneLock b z').mp hb
        cases hx.symm.trans hx'
        exact ((F.locks_iff z').mp hp).2 rfl
    · have hother : (s.ctxs.modify a fun _ => k .dec).At b (ZoneCtx.Locks z') ↔
          s.ctxs.At b (ZoneCtx.Locks z') := by rw [Heap.At, Heap.get_modify_ne e, ← Heap.At]
      rw [hother, ← h.zoneLock, Function.update_apply]
      split_ifs with e'
      · rw [e', hl]
        exact iff_of_false (fun he => e (Option.some.inj he).symm) nofun
      · exact Iff.rfl
  · rw [F.refs, F.refs]
    simp [PutPc.early]
  · rw [F.pends, F.pends]
    ring

/-- `zone->lock` is released. -/
theorem putUnlock (h : SpotInv s pl slot) (F : PutFrame z k y) (hx : s.ctxs.get a = some (k .unlock)) :
    SpotInv { s.goto a y with zoneLock := Function.update s.zoneLock z none } pl slot := by
  have hmine : s.zoneLock z = some a :=
    (h.zoneLock a z).mpr ⟨_, hx, (F.locks_iff z).mpr ⟨rfl, nofun⟩⟩
  refine h.plain y z id 0 0 hx rfl ?_ ⟨rfl, rfl, rfl⟩
    (fun y _ => ⟨rfl, rfl, (add_zero _).symm, (add_zero _).symm⟩) rfl
    (.keep fun hi => (F.inZmd _).mpr hi) (fun hf => (F.fact ..).mp hf)
    (fun i hw => (F.works ..).mp hw) (fun b z' => ?_) (fun z' => ?_) fun z' => ?_
  · exact (Function.update_eq_self z s.zmd.zones).symm
  · change Function.update s.zoneLock z none z' = some b ↔
      (s.ctxs.modify a fun _ => y).At b (ZoneCtx.Locks z')
    by_cases e : b = a
    · subst e
      rw [Heap.At, Heap.get_modify_self hx, Function.update_apply]
      refine iff_of_false (fun hb => ?_) fun ⟨x, hx', hp⟩ => ?_
      · split_ifs at hb with e'
        obtain ⟨x, hx', hp⟩ := (h.zoneLock b z').mp hb
        cases hx.symm.trans hx'
        exact e' ((F.locks_iff z').mp hp).1
      · cases hx'
        exact F.not_locks z' hp
    · have hother : (s.ctxs.modify a fun _ => y).At b (ZoneCtx.Locks z') ↔
          s.ctxs.At b (ZoneCtx.Locks z') := by rw [Heap.At, Heap.get_modify_ne e, ← Heap.At]
      rw [hother, ← h.zoneLock, Function.update_apply]
      split_ifs with e'
      · rw [e', hmine]
        exact iff_of_false nofun fun he => e (Option.some.inj he).symm
      · exact Iff.rfl
  · rw [F.refs]
    simp [PutPc.early]
  · rw [F.pends]
    ring

/-- A zone whose lock is held is accessed. -/
theorem putAccess (h : SpotInv s pl slot) (F : PutFrame z k y) (hx : s.ctxs.get a = some (k pc))
    (hl : pc ≠ .lock) :
    SpotInv ((s.modZone z fun _ => (pc.access (s.zmd.zones z)).1).goto a
      (k (pc.access (s.zmd.zones z)).2)) pl slot := by
  obtain ⟨h1, h2, h3⟩ := pc.access_zone (s.zmd.zones z)
  obtain ⟨h4, h5⟩ := PutPc.access_pc (s.zmd.zones z) hl
  have hdec : (if pc = .dec then -1 else 0 : ℤ) = if pc.early then -1 else 0 := by
    cases pc <;> first | exact absurd rfl hl | rfl
  generalize pc.access (s.zmd.zones z) = r at *
  refine h.plain (k r.2) z (fun _ => r.1) (if pc.early then -1 else 0) 0 hx rfl rfl ⟨rfl, rfl, rfl⟩
    (fun y hy => by rw [hy, h1, h2, h3, hdec, add_zero]; exact ⟨rfl, rfl, rfl, rfl⟩) rfl
    (.keep fun hi => (F.inZmd _).mpr ((F.inZmd _).mp hi))
    (fun hf => (F.fact ..).mpr ((F.fact ..).mp hf)) (fun i hw => (F.works ..).mpr ((F.works ..).mp hw))
    (h.zoneLock_keep hx rfl rfl fun z' => ?_) (fun z' => ?_) fun z' => ?_
  · rw [F.locks_iff, F.locks_iff]
    exact and_congr_right fun _ => iff_of_true h4 hl
  · rw [F.refs, F.refs, h5, if_neg (show ¬ false = true from nofun)]
    split_ifs <;> ring
  · rw [F.pends, F.pends]
    ring

/-- **A step of `lbz_put_zone`.** -/
theorem put (h : SpotInv s pl slot) (F : PutFrame z k y) (hx : s.ctxs.get a = some (k pc))
    (hs : putStep s a z k y pc = some s') : SpotInv s' pl slot := by
  unfold putStep at hs
  split at hs
  · split_ifs at hs with hl
    cases hs
    exact h.putLock F hx hl
  · cases hs
    exact h.putUnlock F hx
  · next hl _ =>
    cases hs
    exact h.putAccess F hx hl

end SpotInv

/-! ## The other steps of a context -/

/-- A context that is not in `lbz_put_zone` holds the lock of no zone. -/
theorem ZoneCtx.not_locks {x : ZoneCtx} (h : x.putAt = none ∨ ∃ z, x.putAt = some (z, .lock)) (z : ℕ) :
    ¬ x.Locks z := by
  rintro ⟨pc, hp, hl⟩
  rcases h with h | ⟨z', h⟩ <;> rw [h] at hp <;> cases hp
  exact hl rfl

namespace SpotInv

variable {c : Conf} {s s' : ZoneSys} {pl : ℕ → Spot} {slot : Fin 2 → Option ℕ} {a : ℕ}
  {x x' : ZoneCtx}

theorem zoneLock_free (h : SpotInv s pl slot) (hx : s.ctxs.get a = some x)
    (hc : s'.ctxs = s.ctxs.modify a fun _ => x') (hl : s'.zoneLock = s.zoneLock)
    (h1 : x.putAt = none ∨ ∃ z, x.putAt = some (z, .lock))
    (h2 : x'.putAt = none ∨ ∃ z, x'.putAt = some (z, .lock)) (b z : ℕ) :
    s'.zoneLock z = some b ↔ s'.ctxs.At b (ZoneCtx.Locks z) :=
  h.zoneLock_keep hx hc hl (fun z => iff_of_false (ZoneCtx.not_locks h2 z) (ZoneCtx.not_locks h1 z)) b z

/-- `lbz_zone_alloc_res` begins. -/
theorem alloc (h : SpotInv s pl slot) {mod : AllocFlag} {i : Fin 2}
    (hx : s.ctxs.get a = some (.alloc mod i)) (hs : ctxStep c s a (.alloc mod i) = some s') :
    ∃ pl' slot', SpotInv s' pl' slot' := by
  simp only [ctxStep] at hs
  split_ifs at hs with hl
  have hact := h.works_free hl
  unfold allocStart at hs
  split_ifs at hs with hres
  · cases hs
    exact ⟨pl, slot, h.quiet .done hx rfl rfl rfl (.keep id) trivial (fun _ => id)
      (h.zoneLock_free hx rfl rfl (Or.inl rfl) (Or.inl rfl)) (fun _ => rfl) fun _ => rfl⟩
  · have htake : ∀ x', LockStep a (.alloc mod i) x' s.zmdLock (some a) := fun x' => by
      rw [hl]
      exact .take
    cases hi : s.zmd.activeZone i with
    | none =>
      rw [hi] at hs
      cases hs
      exact ⟨pl, slot, h.quiet (.free i) hx rfl rfl rfl (htake _) ((hact i).symm.trans hi)
        (fun _ => id) (h.zoneLock_free hx rfl rfl (Or.inl rfl) (Or.inl rfl)) (fun _ => rfl)
        fun _ => rfl⟩
    | some z =>
      rw [hi] at hs
      have hslot : slot i = some z := (hact i).symm.trans hi
      by_cases hwp : (s.zmd.zones z).wpBlock = c.zoneNrBlocks
      · -- the slot gives up the zone
        simp only [if_pos hwp] at hs
        cases hs
        have hz : pl z = .slot i := h.spots.at_of_seen (q := .slot i) hslot trivial
        refine ⟨Function.update pl z .lost, Function.update slot i none,
          h.ctx (.slotPut i z .lock) hx rfl ?_ ?_ (htake _) ?_ (Or.inr (Or.inl hl))
          (fun j => ?_) (h.zoneLock_free hx rfl rfl (Or.inl rfl) (Or.inr ⟨z, rfl⟩)) (fun z' => ?_)
          fun z' => rfl⟩
        · refine h.spots.leaveSlot hslot rfl rfl (fun _ _ => rfl) rfl nofun ⟨nofun, nofun, nofun⟩ ?_
          exact (h.spots.seen z .toFull trivial).trans (iff_of_false (by rw [hz]; nofun) nofun)
        · exact h.wk.update hz (by simp [Spot.Worker])
        · exact Function.update_self ..
        · by_cases e : j = i
          · exact Or.inr (Or.inl e.symm)
          · exact Or.inr (Or.inr ⟨id, rfl, Function.update_of_ne e ..⟩)
        · rw [slotRefs_update, hslot, some_eq_at1, if_neg nofun]
          change (s.zmd.zones z').refcount - _ - at1 z z' = (s.zmd.zones z').refcount - _ - 0
          ring
      · simp only [if_neg hwp] at hs
        cases hs
        exact ⟨pl, slot, h.quiet (.get i z) hx rfl rfl rfl (htake _) hslot
          (fun _ => id) (h.zoneLock_free hx rfl rfl (Or.inl rfl) (Or.inl rfl)) (fun _ => rfl)
          fun _ => rfl⟩

/-- What `f` does not change, in any zone. -/
theorem modZone_get {β : Type} (m : Zmd) (z : ℕ) (f : Zone → Zone) (g : Zone → β)
    (hg : ∀ x, g (f x) = g x) (z' : ℕ) : g ((m.modZone z f).zones z') = g (m.zones z') := by
  rw [Zmd.modZone_zones]
  split_ifs
  · exact hg _
  · rfl

/-- A zone is taken off `empty_zone_list`. -/
theorem free (h : SpotInv s pl slot) {i : Fin 2} (hx : s.ctxs.get a = some (.free i))
    (hs : ctxStep c s a (.free i) = some s') : ∃ pl' slot', SpotInv s' pl' slot' := by
  have hslot : slot i = none := h.fact a _ hx
  have hl : s.zmdLock = some a := h.lock a _ hx trivial
  simp only [ctxStep, getFreeZone] at hs
  cases he : s.zmd.emptyZoneList with
  | nil =>
    rw [he] at hs
    cases hs
    refine ⟨pl, slot, h.ctx .done hx rfl (h.spots.same rfl rfl fun _ => ⟨rfl, rfl⟩) h.wk ?_
      trivial (Or.inl trivial) (fun j => ?_) (h.zoneLock_free hx rfl rfl (Or.inl rfl) (Or.inl rfl))
      (fun _ => rfl) fun _ => rfl⟩
    · rw [hl]
      exact .drop id
    · by_cases e : j = i
      · rw [e, hslot]
        exact Or.inl (Function.update_self ..)
      · exact Or.inr (Or.inr ⟨fun e' => e e'.symm, Function.update_of_ne e .., rfl⟩)
  | cons z l =>
    rw [he] at hs
    cases hs
    have hget : ∀ {β : Type} (g : Zone → β), (∀ x : Zone, g { x with stream := i.val } = g x) →
        ∀ z', g ((s.zmd.modZone z fun x => { x with stream := i.val }).zones z') =
          g (s.zmd.zones z') := fun g hg => modZone_get s.zmd z _ g hg
    obtain ⟨hz, hsp⟩ := h.spots.openZone (({ s.zmd with
      emptyZoneList := l, emptyZoneCount := s.zmd.emptyZoneCount - 1
      activeZone := Function.update s.zmd.activeZone i (some z) }).modZone z fun x =>
        { x with stream := i.val }) he rfl rfl fun z' =>
          ⟨hget (fun x => x.flags .toFull) (fun _ => rfl) z', hget (fun x => x.flags .gc) (fun _ => rfl) z'⟩
    refine ⟨Function.update pl z .opening, slot, h.ctx (.openGet i z) hx rfl hsp
      (h.wk.update hz (by simp [Spot.Worker])) (.keep fun _ => trivial)
      ⟨Function.update_self .., hslot, Function.update_self ..⟩ (Or.inl trivial) (fun j => ?_)
      (h.zoneLock_free hx rfl rfl (Or.inl rfl) (Or.inl rfl)) (fun z' => ?_) fun z' => ?_⟩
    · by_cases e : j = i
      · exact Or.inr (Or.inl e.symm)
      · exact Or.inr (Or.inr ⟨fun e' => e e'.symm, Function.update_of_ne e .., rfl⟩)
    · exact congrArg (· - slotRefs slot z' - 0) (hget Zone.refcount (fun _ => rfl) z')
    · exact congrArg (· - (0 : ℤ)) (hget Zone.pendingWriteIo (fun _ => rfl) z')

/-- The new zone is open. -/
theorem openState (h : SpotInv s pl slot) {i : Fin 2} {z : ℕ}
    (hx : s.ctxs.get a = some (.openState i z)) :
    SpotInv ((s.modZone z fun x => { x with state := .expOpen }).goto a (.get i z))
      (Function.update pl z (.slot i)) (Function.update slot i (some z)) := by
  obtain ⟨hact, hi, hz⟩ := h.fact a _ hx
  have hget : ∀ {β : Type} (g : Zone → β), (∀ x : Zone, g { x with state := .expOpen } = g x) →
      ∀ z', g ((s.zmd.modZone z fun x => { x with state := .expOpen }).zones z') =
        g (s.zmd.zones z') := fun g hg => modZone_get s.zmd z _ g hg
  refine h.ctx (.get i z) hx rfl (h.spots.enterSlot (by rw [hz]; exact id) hi rfl rfl fun z' =>
      ⟨hget (fun x => x.flags .toFull) (fun _ => rfl) z', hget (fun x => x.flags .gc) (fun _ => rfl) z'⟩)
    (h.wk.update hz (by simp [Spot.Worker])) (.keep fun _ => trivial) (Function.update_self ..)
    (Or.inl trivial) (fun j => ?_) (h.zoneLock_free hx rfl rfl (Or.inl rfl) (Or.inl rfl))
    (fun z' => ?_) fun z' => ?_
  · by_cases e : j = i
    · rw [e, Function.update_self]
      exact Or.inl hact
    · exact Or.inr (Or.inr ⟨fun e' => e e'.symm, rfl, Function.update_of_ne e ..⟩)
  · rw [slotRefs_update, hi, if_neg nofun, some_eq_at1]
    have := hget Zone.refcount (fun _ => rfl) z'
    change ((s.zmd.modZone z fun x => { x with state := .expOpen }).zones z').refcount - _ - 0 =
      (s.zmd.zones z').refcount - _ - at1 z z'
    rw [this]
    ring
  · exact congrArg (· - (0 : ℤ)) (hget Zone.pendingWriteIo (fun _ => rfl) z')

/-- `LBZ_ZONE_TO_FULL` is set. -/
theorem setToFull (h : SpotInv s pl slot) {i : Fin 2} {z : ℕ}
    (hx : s.ctxs.get a = some (.setToFull i z)) :
    SpotInv ((s.modZone z (Zone.setZoneState .toFull)).goto a (.fullPut i z .lock))
      (Function.update pl z .toFull) (Function.update slot i none) := by
  have hi : slot i = some z := h.fact a _ hx
  have hz : pl z = .slot i := h.spots.at_of_seen (q := .slot i) hi trivial
  have hget : ∀ {β : Type} (g : Zone → β), (∀ x : Zone, g (x.setZoneState .toFull) = g x) →
      ∀ z', g ((s.zmd.modZone z (Zone.setZoneState .toFull)).zones z') = g (s.zmd.zones z') :=
    fun g hg => modZone_get s.zmd z _ g hg
  have hsp : Spots (s.zmd.modZone z (Zone.setZoneState .toFull)) (Function.update slot i none)
      (Function.update pl z .toFull) := by
    refine h.spots.leaveSlot hi rfl rfl (fun z' e => ?_) ?_ nofun ⟨nofun, nofun, nofun⟩ ?_
    · rw [Zmd.modZone_zones, if_neg e]
    · exact hget (fun x => x.flags .gc) (fun x => Zone.setZoneState_of_ne (show ZoneState.gc ≠ .toFull from nofun) x) z
    · rw [Zmd.modZone_zones, if_pos rfl]
      exact iff_of_true (Zone.setZoneState_self ..) rfl
  refine h.ctx (.fullPut i z .lock) hx rfl hsp (h.wk.update hz (by simp [Spot.Worker]))
    (.keep fun _ => trivial) (Function.update_self ..) (Or.inl trivial) (fun j => ?_)
    (h.zoneLock_free hx rfl rfl (Or.inl rfl) (Or.inr ⟨z, rfl⟩)) (fun z' => ?_) fun z' => ?_
  · by_cases e : j = i
    · exact Or.inr (Or.inl e.symm)
    · exact Or.inr (Or.inr ⟨id, rfl, Function.update_of_ne e ..⟩)
  · rw [slotRefs_update, hi, if_neg (show ¬ none = some z' from nofun), some_eq_at1]
    have := hget Zone.refcount (fun _ => rfl) z'
    change ((s.zmd.modZone z (Zone.setZoneState .toFull)).zones z').refcount - _ -
      (at1 z z' + at1 z z') = (s.zmd.zones z').refcount - _ - at1 z z'
    rw [this]
    ring
  · exact congrArg (· - at1 z z') (hget Zone.pendingWriteIo (fun _ => rfl) z')

/-- `lbz_find_victim_zone` begins. -/
theorem victim (h : SpotInv s pl slot) {mod : VictimMod} (hx : s.ctxs.get a = some (.victim mod))
    (hs : ctxStep c s a (.victim mod) = some s') : ∃ pl' slot', SpotInv s' pl' slot' := by
  simp only [ctxStep] at hs
  split_ifs at hs with hl
  cases hv : Lbz.victim c s.zmd mod with
  | none =>
    rw [hv] at hs
    cases hs
    exact ⟨pl, slot, h.quiet .done hx rfl rfl rfl (.keep id) trivial (fun _ => id)
      (h.zoneLock_free hx rfl rfl (Or.inl rfl) (Or.inl rfl)) (fun _ => rfl) fun _ => rfl⟩
  | some z =>
    rw [hv] at hs
    cases hs
    obtain ⟨hz, hsp⟩ := h.spots.takeZone
      { s.zmd with fullZoneList := s.zmd.fullZoneList.erase z } (victim_mem hv) rfl rfl rfl
    refine ⟨Function.update pl z .taken, slot, h.ctx (.victimGet z) hx rfl hsp
      (h.wk.update hz (by simp [Spot.Worker])) ?_ (Function.update_self ..) (Or.inr (Or.inl hl))
      (fun j => Or.inr (Or.inr ⟨id, rfl, rfl⟩))
      (h.zoneLock_free hx rfl rfl (Or.inl rfl) (Or.inl rfl)) (fun _ => rfl) fun _ => rfl⟩
    rw [hl]
    exact .take

/-- The victim gets `LBZ_ZONE_GC`. -/
theorem victimFlag (h : SpotInv s pl slot) {z : ℕ} (hx : s.ctxs.get a = some (.victimFlag z)) :
    SpotInv { s.goto a (.collecting z) with
        zmd := { s.zmd.modZone z (Zone.setZoneState .gc) with
          fullZoneCount := s.zmd.fullZoneCount - 1
          activeZoneCount := s.zmd.activeZoneCount + 1 }
        zmdLock := none }
      (Function.update pl z .gc) slot := by
  have hz : pl z = .taken := h.fact a _ hx
  have hl : s.zmdLock = some a := h.lock a _ hx trivial
  have hget : ∀ {β : Type} (g : Zone → β), (∀ x : Zone, g (x.setZoneState .gc) = g x) →
      ∀ z', g ((s.zmd.modZone z (Zone.setZoneState .gc)).zones z') = g (s.zmd.zones z') :=
    fun g hg => modZone_get s.zmd z _ g hg
  have hsp : Spots (s.zmd.modZone z (Zone.setZoneState .gc)) slot (Function.update pl z .gc) := by
    refine h.spots.setGc (by rw [hz]; exact id) rfl rfl fun z' => ⟨?_, ?_⟩
    · exact hget (fun x => x.flags .toFull)
        (fun x => Zone.setZoneState_of_ne (show ZoneState.toFull ≠ .gc from nofun) x) z'
    · rw [Zmd.modZone_zones]
      split_ifs
      · exact Zone.setZoneState_self ..
      · rfl
  refine h.ctx (.collecting z) hx rfl (hsp.same rfl rfl fun _ => ⟨rfl, rfl⟩)
    (h.wk.update hz (by simp [Spot.Worker])) ?_ trivial (Or.inl trivial)
    (fun j => Or.inr (Or.inr ⟨id, rfl, rfl⟩))
    (h.zoneLock_free hx rfl rfl (Or.inl rfl) (Or.inl rfl)) (fun z' => ?_) fun z' => ?_
  · rw [hl]
    exact .drop id
  · exact congrArg (· - slotRefs slot z' - at1 z z') (hget Zone.refcount (fun _ => rfl) z')
  · exact congrArg (· - (0 : ℤ)) (hget Zone.pendingWriteIo (fun _ => rfl) z')

/-- The slot is cleared. -/
theorem clearSlot (h : SpotInv s pl slot) {i : Fin 2} {z : ℕ}
    (hx : s.ctxs.get a = some (.clearSlot i z)) :
    SpotInv { s.goto a (.writing z) with
      zmd := { s.zmd with activeZone := Function.update s.zmd.activeZone i none }, zmdLock := none }
      pl slot := by
  have hi : slot i = none := h.fact a _ hx
  have hl : s.zmdLock = some a := h.lock a _ hx trivial
  refine h.ctx (.writing z) hx rfl (h.spots.same rfl rfl fun _ => ⟨rfl, rfl⟩) h.wk ?_ trivial
    (Or.inl trivial) (fun j => ?_) (h.zoneLock_free hx rfl rfl (Or.inl rfl) (Or.inl rfl))
    (fun _ => rfl) fun _ => rfl
  · rw [hl]
    exact .drop id
  · by_cases e : j = i
    · rw [e, hi]
      exact Or.inl (Function.update_self ..)
    · exact Or.inr (Or.inr ⟨fun e' => e e'.symm, Function.update_of_ne e .., rfl⟩)

/-- **A step of a context.** -/
theorem ctxStep (h : SpotInv s pl slot) (hx : s.ctxs.get a = some x)
    (hs : Lbz.ctxStep c s a x = some s') : ∃ pl' slot', SpotInv s' pl' slot' := by
  have hput : ∀ {z k y pc}, PutFrame z k y → s.ctxs.get a = some (k pc) →
      putStep s a z k y pc = some s' → ∃ pl' slot', SpotInv s' pl' slot' :=
    fun F hx hs => ⟨pl, slot, h.put F hx hs⟩
  have hzone : ∀ {x' : ZoneCtx}, s'.ctxs = s.ctxs.modify a (fun _ => x') →
      s'.zoneLock = s.zoneLock → x.putAt = none →
      (x'.putAt = none ∨ ∃ z, x'.putAt = some (z, .lock)) → ∀ b z,
      s'.zoneLock z = some b ↔ s'.ctxs.At b (ZoneCtx.Locks z) :=
    fun hc hl h1 h2 => h.zoneLock_free hx hc hl (Or.inl h1) h2
  cases x with
  | alloc mod i => exact h.alloc hx hs
  | slotPut i z pc => exact hput (putFrame_slot i z) hx hs
  | free i => exact h.free hx hs
  | openGet i z =>
    cases hs
    refine ⟨pl, slot, h.plain (.openFlag i z) _ _ 1 0 hx rfl rfl ⟨rfl, rfl, rfl⟩
      (fun _ _ => ⟨rfl, rfl, rfl, (add_zero _).symm⟩) rfl (.keep id) id (fun _ => id)
      (hzone rfl rfl rfl (Or.inl rfl)) (fun z' => ?_) fun z' => ?_⟩ <;>
    simp [ZoneCtx.refs, ZoneCtx.pends]
  | openFlag i z =>
    cases hs
    refine ⟨pl, slot, h.plain (.openState i z) _ _ 0 0 hx rfl rfl ⟨rfl, rfl, rfl⟩
      (fun y _ => ⟨?_, ?_, (add_zero _).symm, (add_zero _).symm⟩) rfl (.keep id) id (fun _ => id)
      (hzone rfl rfl rfl (Or.inl rfl)) (fun z' => ?_) fun z' => ?_⟩
    · exact Zone.setZoneState_of_ne (show ZoneState.toFull ≠ .active from nofun) y
    · exact Zone.setZoneState_of_ne (show ZoneState.gc ≠ .active from nofun) y
    · simp [ZoneCtx.refs]
    · simp [ZoneCtx.pends]
  | openState i z =>
    cases hs
    exact ⟨_, _, h.openState hx⟩
  | get i z =>
    cases hs
    refine ⟨pl, slot, h.plain (.take i z) _ _ 1 0 hx rfl rfl ⟨rfl, rfl, rfl⟩
      (fun _ _ => ⟨rfl, rfl, rfl, (add_zero _).symm⟩) rfl (.keep id) id (fun _ => id)
      (hzone rfl rfl rfl (Or.inl rfl)) (fun z' => ?_) fun z' => ?_⟩ <;>
    simp [ZoneCtx.refs, ZoneCtx.pends]
  | take i z =>
    cases hs
    refine ⟨pl, slot, h.plain (.pend i z) z (fun x => { x with wpBlock := x.wpBlock + 1, weight := x.weight + 1 }) 0 0
      hx rfl rfl ⟨rfl, rfl, rfl⟩ (fun _ _ => ⟨rfl, rfl, (add_zero _).symm, (add_zero _).symm⟩) rfl (.keep id) id (fun _ => id)
      (hzone rfl rfl rfl (Or.inl rfl)) (fun z' => ?_) fun z' => ?_⟩ <;>
    simp [ZoneCtx.refs, ZoneCtx.pends]
  | pend i z =>
    have hl : s.zmdLock = some a := h.lock a _ hx trivial
    simp only [Lbz.ctxStep] at hs
    split_ifs at hs
    · cases hs
      refine ⟨pl, slot, h.plain (.clear i z) _ _ 0 1 hx rfl rfl ⟨rfl, rfl, rfl⟩
        (fun _ _ => ⟨rfl, rfl, (add_zero _).symm, rfl⟩) rfl (.keep id) id (fun _ => id)
        (hzone rfl rfl rfl (Or.inl rfl)) (fun z' => ?_) fun z' => ?_⟩ <;>
      simp [ZoneCtx.refs, ZoneCtx.pends]
    · cases hs
      refine ⟨pl, slot, h.plain (.writing z) _ _ 0 1 hx rfl rfl ⟨rfl, rfl, rfl⟩
        (fun _ _ => ⟨rfl, rfl, (add_zero _).symm, rfl⟩) rfl (hl ▸ .drop id) (fun _ => trivial)
        (fun _ => id) (hzone rfl rfl rfl (Or.inl rfl)) (fun z' => ?_) fun z' => ?_⟩ <;>
      simp [ZoneCtx.refs, ZoneCtx.pends]
  | clear i z =>
    cases hs
    refine ⟨pl, slot, h.plain (.setToFull i z) _ _ 0 0 hx rfl rfl ⟨rfl, rfl, rfl⟩
      (fun y _ => ⟨?_, ?_, (add_zero _).symm, (add_zero _).symm⟩) rfl (.keep id) id (fun _ => id)
      (hzone rfl rfl rfl (Or.inl rfl)) (fun z' => ?_) fun z' => ?_⟩
    · exact Zone.clearZoneState_of_ne (show ZoneState.toFull ≠ .active from nofun) y
    · exact Zone.clearZoneState_of_ne (show ZoneState.gc ≠ .active from nofun) y
    · simp [ZoneCtx.refs]
    · simp [ZoneCtx.pends]
  | setToFull i z =>
    cases hs
    exact ⟨_, _, h.setToFull hx⟩
  | fullPut i z pc => exact hput (putFrame_full i z) hx hs
  | clearSlot i z =>
    cases hs
    exact ⟨_, _, h.clearSlot hx⟩
  | writing z =>
    cases hs
    refine ⟨pl, slot, h.plain (.put z .write .lock) _ _ 0 (-1) hx rfl rfl
      ⟨rfl, rfl, rfl⟩ (fun _ _ => ⟨rfl, rfl, (add_zero _).symm, sub_eq_add_neg ..⟩) rfl (.keep id) id
      (fun _ => id) (hzone rfl rfl rfl (Or.inr ⟨z, rfl⟩)) (fun z' => ?_) fun z' => ?_⟩ <;>
    simp [ZoneCtx.refs, ZoneCtx.pends, PutPc.early]
  | victim mod => exact h.victim hx hs
  | victimGet z =>
    cases hs
    refine ⟨pl, slot, h.plain (.victimFlag z) _ _ 1 0 hx rfl rfl ⟨rfl, rfl, rfl⟩
      (fun _ _ => ⟨rfl, rfl, rfl, (add_zero _).symm⟩) rfl (.keep id) id (fun _ => id)
      (hzone rfl rfl rfl (Or.inl rfl)) (fun z' => ?_) fun z' => ?_⟩ <;>
    simp [ZoneCtx.refs, ZoneCtx.pends]
  | victimFlag z =>
    cases hs
    exact ⟨_, _, h.victimFlag hx⟩
  | collecting z =>
    cases hs
    refine ⟨pl, slot, h.plain (.put z .gc .lock) _ _ 0 0 hx rfl rfl
      ⟨rfl, rfl, rfl⟩ (fun y _ => ⟨?_, ?_, (add_zero _).symm, (add_zero _).symm⟩) rfl (.keep id) id
      (fun _ => id) (hzone rfl rfl rfl (Or.inr ⟨z, rfl⟩)) (fun z' => ?_) fun z' => ?_⟩
    · exact Zone.setZoneState_of_ne (show ZoneState.toFull ≠ .gcCompleted from nofun) y
    · exact Zone.setZoneState_of_ne (show ZoneState.gc ≠ .gcCompleted from nofun) y
    · simp [ZoneCtx.refs, PutPc.early]
    · simp [ZoneCtx.pends]
  | getting z by_ =>
    cases hs
    refine ⟨pl, slot, h.plain (.holding z by_) _ _ 1 0 hx rfl rfl ⟨rfl, rfl, rfl⟩
      (fun _ _ => ⟨rfl, rfl, rfl, (add_zero _).symm⟩) rfl (.keep id) id (fun _ => id)
      (hzone rfl rfl rfl (Or.inl rfl)) (fun z' => ?_) fun z' => ?_⟩ <;>
    simp [ZoneCtx.refs, ZoneCtx.pends]
  | holding z by_ =>
    cases hs
    exact ⟨pl, slot, h.quiet (.put z by_ .lock) hx rfl rfl rfl (.keep id) trivial (fun _ => id)
      (hzone rfl rfl rfl (Or.inr ⟨z, rfl⟩))
      (fun _ => by simp [ZoneCtx.refs, PutPc.early]) fun _ => rfl⟩
  | put z by_ pc => exact hput (putFrame_put z by_) hx hs
  | done => cases hs

end SpotInv

/-- What the worker moves is not what the holder of `zmd_lock` relies on. -/
theorem ZoneCtx.Fact.update {x : ZoneCtx} {act slot : Fin 2 → Option ℕ} {pl : ℕ → Spot} {z : ℕ}
    {q : Spot} (h : x.Fact act slot pl) (hz : (pl z).Worker) :
    x.Fact act slot (Function.update pl z q) := by
  have hne : ∀ z' r, pl z' = r → ¬ r.Worker → Function.update pl z q z' = r := fun z' r hi hr => by
    rw [Function.update_of_ne, hi]
    rintro rfl
    exact hr (hi ▸ hz)
  cases x <;> first
    | exact h
    | exact ⟨h.1, h.2.1, hne _ _ h.2.2 id⟩
    | exact hne _ _ h id

namespace SpotInv

variable {c : Conf} {s s' : ZoneSys} {pl pl' : ℕ → Spot} {slot : Fin 2 → Option ℕ} {z : ℕ} {q : Spot}

/-! ## The worker -/

/-- A step that leaves the contexts and the counters alone. -/
theorem idle (h : SpotInv s pl slot) (hctx : s'.ctxs = s.ctxs) (hl : s'.zmdLock = s.zmdLock)
    (hzl : s'.zoneLock = s.zoneLock) (hact : s'.zmd.activeZone = s.zmd.activeZone)
    (hspots : Spots s'.zmd slot pl') (hwk : s'.wk.Fact pl')
    (hfact : ∀ x : ZoneCtx, x.Fact s.zmd.activeZone slot pl → x.Fact s.zmd.activeZone slot pl')
    (hcount : ∀ z, (s'.zmd.zones z).refcount = (s.zmd.zones z).refcount ∧
      (s'.zmd.zones z).pendingWriteIo = (s.zmd.zones z).pendingWriteIo) : SpotInv s' pl' slot := by
  refine ⟨hspots, hwk, ?_, ?_, fun i => ?_, fun a z => ?_, fun z => ?_, fun z => ?_⟩
  · rw [hctx, hl]
    exact h.lock
  · rw [hctx, hact]
    exact fun a x hx => hfact x (h.fact a x hx)
  · rw [hctx, hact]
    exact h.slots i
  · rw [hctx, hzl]
    exact h.zoneLock a z
  · rw [hctx, (hcount z).1]
    exact h.refs z
  · rw [hctx, (hcount z).2]
    exact h.pends z

/-- The worker goes on, no zone moves. -/
theorem wkQuiet (h : SpotInv s pl slot) {wk : ZoneWk} (hwk : wk.Fact pl) :
    SpotInv { s with wk := wk } pl slot :=
  h.idle rfl rfl rfl rfl h.spots hwk (fun _ => id) fun _ => ⟨rfl, rfl⟩

/-- The worker changes zone `z`, but neither its flags nor its counters. -/
theorem wkZone (h : SpotInv s pl slot) (wk : ZoneWk) (hwk : wk.Fact pl) (z : ℕ) (f : Zone → Zone)
    (hf : ∀ x, (f x).flags = x.flags ∧ (f x).refcount = x.refcount ∧
      (f x).pendingWriteIo = x.pendingWriteIo) : SpotInv { s.modZone z f with wk := wk } pl slot := by
  have hflag : ∀ z', ((s.zmd.modZone z f).zones z').flags = (s.zmd.zones z').flags :=
    modZone_get s.zmd z f Zone.flags fun x => (hf x).1
  refine h.idle rfl rfl rfl rfl (h.spots.same rfl rfl fun z' => ?_) hwk (fun _ => id) fun z' => ⟨?_, ?_⟩
  · exact ⟨congrFun (hflag z') _, congrFun (hflag z') _⟩
  · exact modZone_get s.zmd z f Zone.refcount (fun x => (hf x).2.1) z'
  · exact modZone_get s.zmd z f Zone.pendingWriteIo (fun x => (hf x).2.2) z'

/-- The worker clears the flags of zone `z`. -/
theorem wkFlags (h : SpotInv s pl slot) {wk : ZoneWk} {st : ZoneState}
    (hst : st ≠ .toFull ∧ st ≠ .gc) (hz : pl z = .toFull ∨ pl z = .gc) (hq : ¬ q.Shown)
    (hwk : wk.Fact (Function.update pl z q)) :
    SpotInv { s.modZone z fun x => { x with flags := oneFlag st } with wk := wk }
      (Function.update pl z q) slot := by
  have hsp : Spots (s.zmd.modZone z fun x => { x with flags := oneFlag st }) slot
      (Function.update pl z q) := by
    refine h.spots.hide hz hq rfl rfl (fun z' e => ?_) ⟨?_, ?_⟩
    · rw [Zmd.modZone_zones, if_neg e]
    · rw [Zmd.modZone_zones, if_pos rfl]
      exact decide_eq_false (Ne.symm hst.1)
    · rw [Zmd.modZone_zones, if_pos rfl]
      exact decide_eq_false (Ne.symm hst.2)
  refine h.idle rfl rfl rfl rfl hsp hwk (fun x hx => hx.update ?_) fun z' => ⟨?_, ?_⟩
  · rcases hz with hz | hz <;> rw [hz] <;> trivial
  · exact modZone_get s.zmd z (fun x => { x with flags := oneFlag st }) Zone.refcount (fun _ => rfl) z'
  · exact modZone_get s.zmd z (fun x => { x with flags := oneFlag st }) Zone.pendingWriteIo (fun _ => rfl) z'

/-- **A step of the worker.** -/
theorem zoneWkStep (h : SpotInv s pl slot) (hs : Lbz.zoneWkStep c s = some s') :
    ∃ pl' slot', SpotInv s' pl' slot' := by
  have hw := h.wk
  unfold Lbz.zoneWkStep at hs
  split at hs
  · cases hs
  · cases hs
  · next i send hwk =>
    split_ifs at hs with h1 h2 <;> cases hs
    · exact ⟨pl, slot, h.wkQuiet trivial⟩
    · exact ⟨pl, slot, h.wkQuiet (h.spots.at_of_seen (q := .toFull) h2 trivial)⟩
    · exact ⟨pl, slot, h.wkQuiet trivial⟩
  · next i send hwk =>
    rw [hwk] at hw
    split_ifs at hs with h1 h2 h3 <;> cases hs
    · exact ⟨pl, slot, h.wkZone (.close i) hw i (fun x => { x with state := .closed })
      fun _ => ⟨rfl, rfl, rfl⟩⟩
    · exact ⟨pl, slot, h.wkQuiet hw⟩
    · exact ⟨pl, slot, h.wkQuiet trivial⟩
  · next i hwk =>
    rw [hwk] at hw
    cases hs
    exact ⟨Function.update pl i .linking, slot,
      h.wkFlags ⟨nofun, nofun⟩ (Or.inl hw) id (Function.update_self ..)⟩
  · next i hwk =>
    rw [hwk] at hw
    split_ifs at hs with h1
    cases hs
    have hi : pl i = .linking := hw
    exact ⟨Function.update pl i .full, slot, h.idle rfl rfl rfl rfl
      (h.spots.enlist (by rw [hi]; exact id) (fun _ => ⟨rfl, rfl⟩)
        (Or.inl ⟨rfl, rfl, List.perm_append_singleton ..⟩)) trivial
      (fun x hx => hx.update (by rw [hi]; trivial)) fun _ => ⟨rfl, rfl⟩⟩
  · cases hs
    refine ⟨pl, slot, h.wkQuiet ?_⟩
    split_ifs <;> trivial
  · cases hs
    refine ⟨pl, slot, h.wkQuiet ?_⟩
    split_ifs with h1
    · exact h.spots.at_of_seen (q := .gc) h1 trivial
    · trivial
  · next i send hwk =>
    rw [hwk] at hw
    by_cases hl : s.zoneLock i = none
    · rw [if_neg (not_not_intro hl)] at hs
      cases hs
      refine ⟨pl, slot, h.wkQuiet ?_⟩
      split
      · exact hw
      · trivial
    · rw [if_pos hl] at hs
      cases hs
  · next i hwk =>
    rw [hwk] at hw
    cases hs
    refine ⟨pl, slot, h.wkQuiet ?_⟩
    split_ifs
    · trivial
    · exact hw
  · next i hwk =>
    rw [hwk] at hw
    cases hs
    exact ⟨pl, slot, h.wkZone (.resetState i) hw i (fun x => { x with stream := -1, wpBlock := 0 })
      fun _ => ⟨rfl, rfl, rfl⟩⟩
  · next i hwk =>
    rw [hwk] at hw
    cases hs
    exact ⟨pl, slot, h.wkZone (.resetFlags i) hw i (fun x => { x with state := .empty })
      fun _ => ⟨rfl, rfl, rfl⟩⟩
  · next i hwk =>
    rw [hwk] at hw
    cases hs
    exact ⟨Function.update pl i .publishing, slot,
      h.wkFlags ⟨nofun, nofun⟩ (Or.inr hw) id (Function.update_self ..)⟩
  · next i hwk =>
    rw [hwk] at hw
    split_ifs at hs with h1
    cases hs
    have hi : pl i = .publishing := hw
    exact ⟨Function.update pl i .empty, slot, h.idle rfl rfl rfl rfl
      (h.spots.enlist (by rw [hi]; exact id) (fun _ => ⟨rfl, rfl⟩)
        (Or.inr ⟨rfl, List.perm_append_singleton .., rfl⟩)) trivial
      (fun x hx => hx.update (by rw [hi]; trivial)) fun _ => ⟨rfl, rfl⟩⟩

/-! ## Steps -/

/-- A new context. -/
theorem callCtx (h : SpotInv s pl slot) {x : ZoneCtx} (hx : ¬ x.InZmd) (hp : x.putAt = none)
    (hr : ∀ z, x.refs z = 0) (hw : ∀ z, x.pends z = 0) :
    SpotInv { s with ctxs := s.ctxs.alloc x } pl slot := by
  have hlocks : ∀ z, ¬ x.Locks z := fun z => ZoneCtx.not_locks (Or.inl hp) z
  refine ⟨h.spots, h.wk, h.lock.alloc fun hi => absurd hi hx,
    h.fact.alloc (ZoneCtx.fact_of_not_inZmd hx ..), fun i => (h.slots i).imp_right fun hw => ?_,
    fun a z => ?_, fun z => ?_, fun z => ?_⟩
  · exact (Heap.any_alloc fun hw => hx hw.inZmd).mpr hw
  · rw [h.zoneLock]
    refine ⟨fun h => h.alloc x, fun ⟨y, hy, hl⟩ => ?_⟩
    rw [Heap.get_alloc] at hy
    split_ifs at hy
    · cases hy
      exact absurd hl (hlocks z)
    · exact ⟨y, hy, hl⟩
  · change _ = _ + (s.ctxs.alloc x).sum _
    rw [Heap.sum_alloc, hr, add_zero]
    exact h.refs z
  · change _ = (s.ctxs.alloc x).sum _
    rw [Heap.sum_alloc, hw, add_zero]
    exact h.pends z

/-- **Every step knows where the zones are.** -/
theorem step (h : SpotInv s pl slot) {e : ZoneEvent} (hs : ZoneSys.step c s e = some s') :
    ∃ pl' slot', SpotInv s' pl' slot' := by
  unfold ZoneSys.step at hs
  by_cases hp : s.wk = .panicked
  · rw [if_pos hp] at hs
    cases hs
  rw [if_neg hp] at hs
  cases e with
  | callAlloc mod i =>
    cases hs
    exact ⟨pl, slot, h.callCtx id rfl (fun _ => rfl) fun _ => rfl⟩
  | callVictim mod =>
    cases hs
    exact ⟨pl, slot, h.callCtx id rfl (fun _ => rfl) fun _ => rfl⟩
  | callGet z by_ =>
    cases hs
    exact ⟨pl, slot, h.callCtx id rfl (fun _ => rfl) fun _ => rfl⟩
  | run a =>
    obtain ⟨x, hx, hs⟩ := Option.bind_eq_some_iff.mp hs
    exact h.ctxStep hx hs
  | release z =>
    cases hs
    refine ⟨pl, slot, h.idle rfl rfl rfl rfl (h.spots.same rfl rfl fun z' => ⟨?_, ?_⟩) h.wk
      (fun _ => id) fun z' => ⟨?_, ?_⟩⟩
    · exact modZone_get s.zmd z (fun x => { x with weight := x.weight - 1 }) (fun x => x.flags .toFull) (fun _ => rfl) z'
    · exact modZone_get s.zmd z (fun x => { x with weight := x.weight - 1 }) (fun x => x.flags .gc) (fun _ => rfl) z'
    · exact modZone_get s.zmd z (fun x => { x with weight := x.weight - 1 }) Zone.refcount (fun _ => rfl) z'
    · exact modZone_get s.zmd z (fun x => { x with weight := x.weight - 1 }) Zone.pendingWriteIo (fun _ => rfl) z'
  | wkStart =>
    simp only at hs
    split_ifs at hs with hi
    cases hs
    exact ⟨pl, slot, h.wkQuiet trivial⟩
  | wkRun => exact h.zoneWkStep hs

end SpotInv

/-! ## The start -/

section

variable {c : Conf} {m m' : Zmd} {b : BlkZone} {num : ℕ} {pl : ℕ → Spot}

theorem Spots.initZone (a : Spots m m.activeZone pl) (hpl : ¬ (pl num).Shown)
    (h : initZone c m num b = some m') :
    ∃ q, (q ≠ .toFull ∧ q ≠ .gc) ∧ Spots m' m'.activeZone (Function.update pl num q) := by
  obtain ⟨m₁, h1, h2, -⟩ := initZone_places h
  have hlast : ∀ {q}, Spots m₁ m₁.activeZone (Function.update pl num q) →
      Spots m' m'.activeZone (Function.update pl num q) := fun h => by
    rw [h2.active]
    exact h.same h2.emptyList h2.fullList fun z => ⟨h2.toFull z, h2.gc z⟩
  have hflag : ∀ x : Zone, m₁.zones = Function.update m.zones num x →
      x.flags .toFull = false ∧ x.flags .gc = false → ∀ z,
      (m₁.zones z).flags .toFull = (m.zones z).flags .toFull ∧
        (m₁.zones z).flags .gc = (m.zones z).flags .gc := fun x hz hx z => by
    rw [hz, Function.update_apply]
    split_ifs with e
    · have h1 := a.not_toFull (z := num) fun e => hpl (by rw [e]; trivial)
      have h2 := a.not_gc (z := num) fun e => hpl (by rw [e]; trivial)
      rw [e, h1, h2]
      exact hx
    · exact ⟨rfl, rfl⟩
  unfold placeZone at h1
  simp only at h1
  split_ifs at h1
  · cases h1
    have hx := oneZone_flags .init (b.descriptor num) rfl ⟨nofun, nofun⟩
    exact ⟨.empty, ⟨nofun, nofun⟩, hlast (a.enlist hpl (hflag _ rfl hx)
      (Or.inr ⟨rfl, List.perm_append_singleton .., rfl⟩))⟩
  · obtain ⟨i, hi, rfl⟩ := Option.map_eq_some_iff.mp h1
    have hx := oneZone_flags .active (b.descriptor num) rfl ⟨nofun, nofun⟩
    exact ⟨.slot i, ⟨nofun, nofun⟩, hlast (a.enterSlot hpl (freeStream_eq hi) rfl rfl (hflag _ rfl hx))⟩
  · cases h1
    have hx := oneZone_flags .full (b.descriptor num) rfl ⟨nofun, nofun⟩
    exact ⟨.full, ⟨nofun, nofun⟩, hlast (a.enlist hpl (hflag _ rfl hx) (Or.inl ⟨rfl, rfl, List.Perm.refl _⟩))⟩

theorem Spots.initZones : ∀ {l : List BlkZone} {m m' : Zmd} {num : ℕ} {pl : ℕ → Spot},
    Spots m m.activeZone pl → (∀ z, num ≤ z → ¬ (pl z).Shown) →
    (∀ z, pl z ≠ .toFull ∧ pl z ≠ .gc) → initZones c m num l = some m' →
    ∃ pl', Spots m' m'.activeZone pl' ∧ ∀ z, pl' z ≠ .toFull ∧ pl' z ≠ .gc
  | [], m, m', num, pl, a, _, hf, h => by
    cases h
    exact ⟨pl, a, hf⟩
  | b :: l, m, m', num, pl, a, hpl, hf, h => by
    obtain ⟨m₁, h1, h2⟩ := Option.bind_eq_some_iff.mp h
    obtain ⟨q, hq, a₁⟩ := a.initZone (hpl num le_rfl) h1
    refine Spots.initZones a₁ (fun z hz => ?_) (fun z => ?_) h2
    · rw [Function.update_of_ne (Nat.lt_of_succ_le hz).ne']
      exact hpl z (Nat.le_of_succ_le hz)
    · rw [Function.update_apply]
      split_ifs
      · exact hq
      · exact hf z

end

/-- The zones of a device that has just been started. -/
theorem SpotInv.start {c : Conf} {report : List BlkZone} {m : Zmd}
    (h : initZones c emptyZmd 0 report = some m) :
    ∃ pl, SpotInv (ZoneSys.start m) pl m.activeZone ∧ ∀ z, pl z ≠ .toFull ∧ pl z ≠ .gc := by
  have h0 : Spots emptyZmd emptyZmd.activeZone fun _ => .lost :=
    ⟨fun z q hq => iff_of_false (by cases q <;> simp [Seen, emptyZmd, BlkZone.descriptor])
      fun e => (e ▸ hq : Spot.lost.Shown), List.nodup_nil, List.nodup_nil⟩
  obtain ⟨pl, hsp, hf⟩ := h0.initZones (fun _ _ => id) (fun _ => ⟨by rintro ⟨⟩, by rintro ⟨⟩⟩) h
  have hl : Laid (0 + report.length) m := Laid.start.initZones h
  refine ⟨pl, ⟨hsp, trivial, .empty, .empty, fun _ => Or.inl rfl, fun a z => ?_, fun z => ?_,
    fun z => ?_⟩, hf⟩
  · refine iff_of_false (by rintro ⟨⟩) ?_
    rintro ⟨x, hx, -⟩
    rw [ZoneSys.start, Heap.get_empty] at hx
    cases hx
  · rw [ZoneSys.start, Heap.sum_empty, add_zero]
    exact (hl.counts z).1
  · rw [ZoneSys.start, Heap.sum_empty]
    exact (hl.counts z).2

end Lbz
