import Lbz.ZoneAccess

/-!
# A context that is not interrupted

Cut at its accesses, a function of the zones does what it does in one piece if no other context comes
in between.

* `Alone c a s s'`: only context `a` makes a step between `s` and `s'`;
* **`put_alone`**, **`alloc_alone`**, **`victim_alone`**: `putZone`, `zoneAllocRes` and
  `findVictimZone`.
-/

namespace Lbz

/-- Two changes of one zone. -/
theorem Zmd.modZone_modZone (m : Zmd) (z : ℕ) (f g : Zone → Zone) :
    (m.modZone z f).modZone z g = m.modZone z fun x => g (f x) := by
  simp [Zmd.modZone]

namespace ZoneSys

variable {c : Conf} {s s' s'' : ZoneSys} {a z : ℕ} {x y : ZoneCtx} {m : Zmd} {l : Option ℕ}

/-- Context `a` alone goes from `s` to `s'`. -/
def Alone (c : Conf) (a : ℕ) : ZoneSys → ZoneSys → Prop :=
  Runs (stepRel (ZoneSys.step c)) fun _ e => e = .run a

/-- Context `a` stands at `x`, the zones are `m` and `l` holds `zmd_lock`. -/
def stand (s : ZoneSys) (a : ℕ) (x : ZoneCtx) (m : Zmd) (l : Option ℕ) : ZoneSys :=
  { s.goto a x with zmd := m, zmdLock := l }

theorem stand_get (hx : s.ctxs.get a = some x) : (s.stand a y m l).ctxs.get a = some y :=
  Heap.get_modify_self hx _

/-- One access. -/
theorem Alone.one (hwk : s.wk ≠ .panicked) (hx : s.ctxs.get a = some x)
    (hs : ctxStep c s a x = some s') : Alone c a s s' := by
  refine Runs.one rfl (show ZoneSys.step c s (.run a) = some s' from ?_)
  rw [ZoneSys.step, if_neg hwk]
  exact Option.bind_eq_some_iff.mpr ⟨x, hx, hs⟩

theorem stand_stand (s : ZoneSys) (x y : ZoneCtx) (m m' : Zmd) (l l' : Option ℕ) :
    (s.stand a x m l).stand a y m' l' = s.stand a y m' l' := by
  simp [stand, goto, Heap.modify_modify, Function.comp_def]

/-- One access of a context that has not changed anything but the zones. -/
theorem Alone.next (x' : ZoneCtx) (m' : Zmd) (l' : Option ℕ) (hwk : s.wk ≠ .panicked)
    (hx : s.ctxs.get a = some x)
    (h : ctxStep c (s.stand a y m l) a y = some ((s.stand a y m l).stand a x' m' l'))
    (h' : Alone c a (s.stand a x' m' l') s'') : Alone c a (s.stand a y m l) s'' := by
  rw [stand_stand] at h
  exact (Alone.one (s := s.stand a y m l) hwk (stand_get hx) h).trans h'

/-! ## `lbz_put_zone` -/

/-- Context `a` goes through `lbz_put_zone`. -/
def Puts (c : Conf) (z : ℕ) (k : PutPc → ZoneCtx) (y : ZoneCtx) : Prop :=
  ∀ (s : ZoneSys) (a : ℕ) (pc : PutPc), ctxStep c s a (k pc) = putStep s a z k y pc

/-- The lock of zone `z` is held by `a`, which stands at `x`; the zone is `v`. -/
def inPut (s : ZoneSys) (a z : ℕ) (x : ZoneCtx) (v : Zone) : ZoneSys :=
  { (s.modZone z fun _ => v).goto a x with zoneLock := Function.update s.zoneLock z (some a) }

variable {k : PutPc → ZoneCtx} {v : Zone} {pc : PutPc}

theorem Alone.access (hk : Puts c z k y) (hwk : s.wk ≠ .panicked) (hx : s.ctxs.get a = some x)
    (hpc : pc ≠ .lock ∧ pc ≠ .unlock) {v' : Zone} {pc' : PutPc} (hv : pc.access v = (v', pc'))
    (h : Alone c a (s.inPut a z (k pc') v') s') : Alone c a (s.inPut a z (k pc) v) s' := by
  refine Runs.trans (Alone.one (s := s.inPut a z (k pc) v) hwk (Heap.get_modify_self hx _) ?_) h
  have hzone : (s.inPut a z (k pc) v).zmd.zones z = v := by
    change (s.zmd.modZone z fun _ => v).zones z = v
    rw [Zmd.modZone_zones, if_pos rfl]
  rw [hk, putStep]
  · rw [hzone, hv]
    simp [inPut, modZone, goto, Zmd.modZone_modZone, Heap.modify_modify, Function.comp_def]
  · exact hpc.1
  · exact hpc.2

/-- **`lbz_put_zone` in one piece.** -/
theorem put_alone (hk : Puts c z k y) (hwk : s.wk ≠ .panicked) (hx : s.ctxs.get a = some (k .lock))
    (hz : s.zoneLock z = none) : Alone c a s (s.stand a y (putZone s.zmd z) s.zmdLock) := by
  have hunlock : ∀ v, (s.zmd.zones z).put = v →
      Alone c a (s.inPut a z (k .unlock) v) (s.stand a y (putZone s.zmd z) s.zmdLock) := by
    rintro v rfl
    refine Alone.one hwk (Heap.get_modify_self hx _) ?_
    rw [hk, putStep]
    have hfree : Function.update s.zoneLock z none = s.zoneLock :=
      Function.update_eq_self_iff.mpr hz.symm
    simp only [inPut, stand, goto, modZone, Heap.modify_modify, Function.comp_def,
      Function.update_idem, hfree]
    rfl
  let v : Zone := { s.zmd.zones z with refcount := (s.zmd.zones z).refcount - 1 }
  have htoFull : ¬ ((s.zmd.zones z).refcount - 1 = 0 ∧ (s.zmd.zones z).flags .gc = true) →
      Alone c a (s.inPut a z (k .toFull) v) (s.stand a y (putZone s.zmd z) s.zmdLock) := fun hn => by
    by_cases hf : (s.zmd.zones z).flags .toFull = true
    · refine Alone.access hk hwk hx ⟨nofun, nofun⟩ (congrArg (Prod.mk v) (if_pos hf)) ?_
      by_cases hp : (s.zmd.zones z).pendingWriteIo = 0
      · refine Alone.access hk hwk hx ⟨nofun, nofun⟩ (congrArg (Prod.mk v) (if_pos hp)) ?_
        refine Alone.access hk hwk hx ⟨nofun, nofun⟩ rfl (hunlock _ ?_)
        rw [Zone.put, if_neg hn, if_pos ⟨hf, hp⟩]
      · refine Alone.access hk hwk hx ⟨nofun, nofun⟩ (congrArg (Prod.mk v) (if_neg hp)) (hunlock _ ?_)
        rw [Zone.put, if_neg hn, if_neg fun h => hp h.2]
    · refine Alone.access hk hwk hx ⟨nofun, nofun⟩ (congrArg (Prod.mk v) (if_neg hf)) (hunlock _ ?_)
      rw [Zone.put, if_neg hn, if_neg fun h => hf h.1]
  have hdec : Alone c a (s.inPut a z (k .dec) (s.zmd.zones z))
      (s.stand a y (putZone s.zmd z) s.zmdLock) := by
    by_cases h0 : (s.zmd.zones z).refcount - 1 = 0
    · refine Alone.access hk hwk hx ⟨nofun, nofun⟩ (congrArg (Prod.mk v) (if_pos h0)) ?_
      by_cases hg : (s.zmd.zones z).flags .gc = true
      · refine Alone.access hk hwk hx ⟨nofun, nofun⟩ (congrArg (Prod.mk v) (if_pos hg)) ?_
        refine Alone.access hk hwk hx ⟨nofun, nofun⟩ rfl (hunlock _ ?_)
        rw [Zone.put, if_pos ⟨h0, hg⟩]
      · exact Alone.access hk hwk hx ⟨nofun, nofun⟩ (congrArg (Prod.mk v) (if_neg hg))
          (htoFull fun h => hg h.2)
    · exact Alone.access hk hwk hx ⟨nofun, nofun⟩ (congrArg (Prod.mk v) (if_neg h0))
        (htoFull fun h => h0 h.1)
  refine (Alone.one hwk hx ?_).trans hdec
  rw [hk, putStep, if_pos hz]
  simp only [inPut, goto, modZone, Zmd.modZone, Function.update_eq_self]

/-! ## `lbz_zone_alloc_res` and `lbz_find_victim_zone` -/

/-- The same, between other accesses. -/
theorem Alone.put (hk : Puts c z k y) (hwk : s.wk ≠ .panicked) (hx : s.ctxs.get a = some x)
    (hz : s.zoneLock z = none) (h : Alone c a (s.stand a y (putZone m z) l) s') :
    Alone c a (s.stand a (k .lock) m l) s' := by
  have := put_alone (s := s.stand a (k .lock) m l) hk hwk (stand_get hx) hz
  rw [stand_stand] at this
  exact this.trans h

/-- Where a context goes on after `lbz_zone_alloc_res`. -/
def allocEnd : AllocRet → ZoneCtx
  | .ok z => .writing z
  | _ => .done

theorem takeBlock_alone (hwk : s.wk ≠ .panicked) (hx : s.ctxs.get a = some x) (i : Fin 2)
    (hz : s.zoneLock z = none) : Alone c a (s.stand a (.get i z) m l)
      (s.stand a (allocEnd (takeBlock c m i z).2) (takeBlock c m i z).1 none) := by
  have hkput : Puts c z (.fullPut i z) (.clearSlot i z) := fun _ _ _ => rfl
  let m₁ : Zmd := m.modZone z fun x => { x with refcount := x.refcount + 1 }
  let m₂ : Zmd := { m₁.modZone z fun x => { x with wpBlock := x.wpBlock + 1, weight := x.weight + 1 } with
    nrAllocableBlks := m.nrAllocableBlks - 1, nrValidBlks := m.nrValidBlks + 1 }
  refine Alone.next (.take i z) m₁ l hwk hx rfl (Alone.next (.pend i z) m₂ l hwk hx rfl ?_)
  have hall : (m₂.modZone z fun x => { x with pendingWriteIo := x.pendingWriteIo + 1 }) =
      allocRes m z := by
    simp only [m₂, m₁, Zmd.modZone, allocRes, Function.update_idem, Function.update_self]
  have hwp : ((allocRes m z).zones z).wpBlock = (m₂.zones z).wpBlock := by
    rw [← hall]
    have := Zmd.modZone_zones m₂ z (fun x => { x with pendingWriteIo := x.pendingWriteIo + 1 }) z
    rw [this, if_pos rfl]
  rw [takeBlock]
  by_cases hfull : ((allocRes m z).zones z).wpBlock = c.zoneNrBlocks
  · simp only [if_pos hfull]
    let m₃ : Zmd := (allocRes m z).modZone z (Zone.clearZoneState .active)
    let m₄ : Zmd := m₃.modZone z (Zone.setZoneState .toFull)
    refine Alone.next (.clear i z) (allocRes m z) l hwk hx ?_ ?_
    · rw [← hall]
      exact if_pos (hwp.symm.trans hfull)
    refine Alone.next (.setToFull i z) m₃ l hwk hx rfl
      (Alone.next (.fullPut i z .lock) m₄ l hwk hx rfl (Alone.put hkput hwk hx hz ?_))
    have hm : m₄ = (allocRes m z).modZone z fun x => (x.clearZoneState .active).setZoneState .toFull :=
      Zmd.modZone_modZone ..
    rw [hm]
    exact Alone.next (.writing z) (leaveActive (allocRes m z) i z) none hwk hx rfl Runs.refl
  · simp only [if_neg hfull]
    refine Alone.next (.writing z) (allocRes m z) none hwk hx ?_ Runs.refl
    rw [← hall]
    exact if_neg fun h => hfull (hwp.trans h)

/-- `lbz_zone_alloc_res` from `__get_free_zone` on. -/
def openFree (c : Conf) (m : Zmd) (i : Fin 2) : Zmd × AllocRet :=
  match getFreeZone m with
  | (m, none) => ({ m with activeZone := Function.update m.activeZone i none }, .noZone)
  | (m, some z) => takeBlock c (openZone m i z) i z

theorem openFree_alone (hwk : s.wk ≠ .panicked) (hx : s.ctxs.get a = some x) (i : Fin 2)
    (hz : ∀ z, s.zoneLock z = none) : Alone c a (s.stand a (.free i) m l)
      (s.stand a (allocEnd (openFree c m i).2) (openFree c m i).1 none) := by
  rw [openFree, getFreeZone]
  cases he : m.emptyZoneList with
  | nil =>
    refine Alone.next .done _ none hwk hx ?_ Runs.refl
    simp only [ctxStep, getFreeZone, stand, he]
  | cons z e =>
    let m₀ : Zmd := { m with emptyZoneList := e, emptyZoneCount := m.emptyZoneCount - 1 }
    let m₁ : Zmd := { m₀ with activeZone := Function.update m.activeZone i (some z) }.modZone z
      fun x => { x with stream := i.val }
    let m₂ : Zmd := m₁.modZone z fun x => { x with refcount := x.refcount + 1 }
    let m₃ : Zmd := m₂.modZone z (Zone.setZoneState .active)
    refine Alone.next (.openGet i z) m₁ l hwk hx ?_ (Alone.next (.openFlag i z) m₂ l hwk hx rfl
      (Alone.next (.openState i z) m₃ l hwk hx rfl ?_))
    · simp only [ctxStep, getFreeZone, stand, he]
      rfl
    have hm₃ : (m₃.modZone z fun x => { x with state := .expOpen }) = openZone m₀ i z := by
      simp only [m₃, m₂, m₁, openZone, Zmd.modZone_modZone]
      rfl
    refine Alone.next (.get i z) (openZone m₀ i z) l hwk hx ?_ (takeBlock_alone hwk hx i (hz z))
    rw [← hm₃]
    rfl

/-- **`lbz_zone_alloc_res` in one piece.** -/
theorem alloc_alone {mod : AllocFlag} {i : Fin 2} (hwk : s.wk ≠ .panicked)
    (hx : s.ctxs.get a = some (.alloc mod i)) (hl : s.zmdLock = none)
    (hz : ∀ z, s.zoneLock z = none) :
    Alone c a s (s.stand a (allocEnd (zoneAllocRes c false s.zmd mod i).2)
      (zoneAllocRes c false s.zmd mod i).1 none) := by
  have hdone : s.goto a .done = s.stand a .done s.zmd none := by
    rw [stand, ← hl]
    rfl
  have hstep : ctxStep c s a (.alloc mod i) = (allocStart c s.zmd mod i).elim
      (some (s.stand a .done s.zmd none)) fun x => some (s.stand a x s.zmd (some a)) := by
    rw [ctxStep, if_pos hl]
    cases allocStart c s.zmd mod i with
    | none => exact congrArg some hdone
    | some x => rfl
  rw [zoneAllocRes, if_neg (show ¬ false = true from (by rintro ⟨⟩))]
  rw [allocStart] at hstep
  split_ifs at hstep with hres
  · rw [if_pos hres]
    exact Alone.one hwk hx hstep
  rw [if_neg hres]
  cases hi : s.zmd.activeZone i with
  | none =>
    rw [hi] at hstep
    have hopen : openAndTake c s.zmd i = openFree c s.zmd i := by
      rw [openAndTake, hi]
      rfl
    simp only [hopen]
    exact (Alone.one hwk hx hstep).trans (openFree_alone hwk hx i hz)
  | some z =>
    rw [hi] at hstep
    by_cases hwp : (s.zmd.zones z).wpBlock = c.zoneNrBlocks
    · simp only [if_pos hwp] at hstep ⊢
      have hk : Puts c z (.slotPut i z) (.free i) := fun _ _ _ => rfl
      have hopen : openAndTake c s.zmd i = openFree c (putZone s.zmd z) i := by
        rw [openAndTake, hi]
        rfl
      rw [hopen]
      exact (Alone.one hwk hx hstep).trans
        (Alone.put hk hwk hx (hz z) (openFree_alone hwk hx i hz))
    · simp only [if_neg hwp] at hstep ⊢
      exact (Alone.one hwk hx hstep).trans (takeBlock_alone hwk hx i (hz z))

/-- **`lbz_find_victim_zone` in one piece.** -/
theorem victim_alone {mod : VictimMod} (hwk : s.wk ≠ .panicked)
    (hx : s.ctxs.get a = some (.victim mod)) (hl : s.zmdLock = none) :
    Alone c a s (s.stand a ((findVictimZone c s.zmd mod).2.elim .done .collecting)
      (findVictimZone c s.zmd mod).1 none) := by
  have hstand : ∀ x', s.goto a x' = s.stand a x' s.zmd none := fun x' => by
    rw [stand, ← hl]
    rfl
  cases hv : victim c s.zmd mod with
  | none =>
    refine Alone.one hwk hx ?_
    rw [ctxStep, if_pos hl, hv, findVictimZone, hv, hstand]
    rfl
  | some z =>
    let m₁ : Zmd := { s.zmd with fullZoneList := s.zmd.fullZoneList.erase z }
    let m₂ : Zmd := m₁.modZone z fun x => { x with refcount := x.refcount + 1 }
    have hstart : ctxStep c s a (.victim mod) = some (s.stand a (.victimGet z) m₁ (some a)) := by
      rw [ctxStep, if_pos hl, hv]
      rfl
    refine (Alone.one hwk hx hstart).trans (Alone.next (.victimFlag z) m₂ (some a) hwk hx rfl ?_)
    have hres : findVictimZone c s.zmd mod = (takeVictim s.zmd z, some z) := by
      rw [findVictimZone, hv]
    have hm₂ : takeVictim s.zmd z = { m₂.modZone z (Zone.setZoneState .gc) with
        fullZoneCount := s.zmd.fullZoneCount - 1
        activeZoneCount := s.zmd.activeZoneCount + 1 } := by
      simp only [m₂, m₁, takeVictim, Zmd.modZone, Function.update_idem, Function.update_self]
      rfl
    rw [hres]
    refine Alone.next (.collecting z) (takeVictim s.zmd z) none hwk hx ?_ Runs.refl
    rw [hm₂]
    rfl

end ZoneSys

end Lbz
