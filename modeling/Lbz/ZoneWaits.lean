import Lbz.ZoneSpots

/-!
# No zone waits for a transition that does not come

* `ZoneCtx.write`: how far the write of a context has come; `Owes`, `Unput`, `Zeroes`, `Fulls`,
  `Empties`: what a context will still do to a zone;
* `Waits s z`: a zone with `LBZ_ZONE_TO_FULL` is full or some context will see to it, a zone with
  `LBZ_ZONE_GC` is empty, in use, or some context will see to it;
* **`no_lost_transition`**: in every run.
-/

namespace Lbz

/-! ## What a context will do -/

namespace ZoneCtx

/-- The zone of the write of the context, and how far `lbz_put_zone` has come after it. -/
def write : ZoneCtx → Option (ℕ × PutPc)
  | .pend _ z | .clear _ z | .setToFull _ z | .fullPut _ z _ | .clearSlot _ z | .writing z =>
      some (z, .lock)
  | .put z .write pc => some (z, pc)
  | _ => none

/-- The context will test `LBZ_ZONE_TO_FULL` and the pending writes of zone `z`. -/
def Owes (z : ℕ) (x : ZoneCtx) : Prop :=
  ∃ pc, x.write = some (z, pc) ∧ pc ≠ .setEmpty ∧ pc ≠ .unlock

/-- The context will take the lock of zone `z` after its write. -/
def Unput (z : ℕ) (x : ZoneCtx) : Prop := x.write = some (z, .lock)

/-- The context has seen that zone `z` is to be emptied. -/
def Empties (z : ℕ) (x : ZoneCtx) : Prop := x.putAt = some (z, .setEmpty)

/-- The context has given up the last reference to zone `z`. -/
def Zeroes (z : ℕ) (x : ZoneCtx) : Prop := x.putAt = some (z, .zero) ∨ x.Empties z

/-- The context has seen `LBZ_ZONE_TO_FULL` of zone `z`. -/
def Fulls (z : ℕ) (x : ZoneCtx) : Prop :=
  x.putAt = some (z, .pending) ∨ x.putAt = some (z, .setFull)

theorem Unput.owes {z : ℕ} {x : ZoneCtx} (h : x.Unput z) : x.Owes z := ⟨.lock, h, nofun, nofun⟩

theorem Empties.locks {z : ℕ} {x : ZoneCtx} (h : x.Empties z) : x.Locks z := ⟨_, h, nofun⟩

theorem Fulls.locks {z : ℕ} {x : ZoneCtx} (h : x.Fulls z) : x.Locks z :=
  h.elim (fun h => ⟨_, h, nofun⟩) fun h => ⟨_, h, nofun⟩

theorem write_of_pends {z : ℕ} {x : ZoneCtx} (h : x.pends z ≠ 0) : x.Unput z := by
  have hz : ∀ z', at1 z' z ≠ 0 → some (z', PutPc.lock) = some (z, .lock) := fun z' h => by
    rw [at1] at h
    split_ifs at h with e
    · rw [e]
    · exact absurd rfl h
  cases x <;> first | exact hz _ h | exact absurd rfl h

theorem refs_nonneg (z : ℕ) (x : ZoneCtx) : 0 ≤ x.refs z := by
  have h : ∀ z', 0 ≤ at1 z' z := fun z' => by
    rw [at1]
    split_ifs <;> decide
  cases x with
  | slotPut i z' pc | put z' b pc =>
    rw [refs]
    split_ifs
    · exact h z'
    · exact le_rfl
  | fullPut i z' pc =>
    rw [refs]
    split_ifs
    · exact add_nonneg (h z') (h z')
    · exact add_nonneg (h z') le_rfl
  | _ => first | exact h _ | exact le_rfl

/-- The context goes on from `x` to `x'`, and still does to zone `z` what it had to. -/
structure Goes (z : ℕ) (x x' : ZoneCtx) : Prop where
  owes : x.Owes z → x'.Owes z
  unput : x.Unput z → x'.Unput z
  zeroes : x.Zeroes z → x'.Zeroes z
  empties : x'.Empties z → x.Empties z
  fulls : x'.Fulls z → x.Fulls z

/-- It does so outside `lbz_put_zone`. -/
theorem Goes.outside (x x' : ZoneCtx) (hw : x.write = none ∨ x'.write = x.write)
    (hp : x.putAt = none) (hp' : x'.putAt = none ∨ ∃ z, x'.putAt = some (z, .lock)) (z : ℕ) :
    Goes z x x' := by
  have hnot : ∀ pc, pc ≠ .lock → x'.putAt ≠ some (z, pc) := fun pc hpc h => by
    rcases hp' with h' | ⟨z', h'⟩ <;> rw [h'] at h <;> cases h
    exact hpc rfl
  refine ⟨fun ⟨pc, h, h'⟩ => ?_, fun h => ?_, fun h => ?_, fun h => absurd h (hnot _ nofun), fun h => ?_⟩
  · rcases hw with hw | hw
    · cases hw.symm.trans h
    · exact ⟨pc, hw.trans h, h'⟩
  · rcases hw with hw | hw
    · cases hw.symm.trans h
    · exact hw.trans h
  · rcases h with h | h <;> cases hp.symm.trans h
  · exact h.elim (fun h => absurd h (hnot _ nofun)) fun h => absurd h (hnot _ nofun)

end ZoneCtx

/-- What will happen to zone `z`. -/
structure Waits (s : ZoneSys) (z : ℕ) : Prop where
  toFull : (s.zmd.zones z).flags .toFull = true → (s.zmd.zones z).state = .full ∨
    s.wk = .close z ∨ s.ctxs.Any (ZoneCtx.Owes z)
  unput : (s.zmd.zones z).flags .toFull = true → s.ctxs.Any (ZoneCtx.Empties z) →
    s.ctxs.Any (ZoneCtx.Unput z)
  gc : (s.zmd.zones z).flags .gc = true → (s.zmd.zones z).state = .empty ∨
    (s.zmd.zones z).refcount ≠ 0 ∨ s.ctxs.Any (ZoneCtx.Zeroes z)
  counted : (s.zmd.zones z).flags .gc = true → s.ctxs.Any (ZoneCtx.Fulls z) →
    (s.zmd.zones z).refcount ≠ 0

/-- A zone keeps its state, gets neither of the two flags and stays in use. -/
structure Zone.Keeps (x y : Zone) : Prop where
  toFull : y.flags .toFull = true → x.flags .toFull = true
  gc : y.flags .gc = true → x.flags .gc = true
  state : y.state = x.state
  refcount : x.refcount ≠ 0 → y.refcount ≠ 0

theorem Zone.Keeps.rfl {x : Zone} : x.Keeps x :=
  ⟨fun h => h, fun h => h, Eq.refl _, fun h => h⟩

theorem Zone.Keeps.modZone {m : Zmd} {z : ℕ} {f : Zone → Zone}
    (h : (m.zones z).Keeps (f (m.zones z))) (z' : ℕ) :
    (m.zones z').Keeps ((m.modZone z f).zones z') := by
  rw [Zmd.modZone_zones]
  split_ifs with e
  · rw [e]
    exact h
  · exact .rfl

namespace Waits

variable {s s' : ZoneSys} {z a : ℕ} {x x' : ZoneCtx}

/-- A context goes on. -/
theorem quiet (w : Waits s z) (hx : s.ctxs.get a = some x)
    (hc : s'.ctxs = s.ctxs.modify a fun _ => x') (hwk : s'.wk = s.wk) (g : ZoneCtx.Goes z x x')
    (hz : (s.zmd.zones z).Keeps (s'.zmd.zones z)) : Waits s' z := by
  refine ⟨fun h => ?_, fun h he => ?_, fun h => ?_, fun h hf => ?_⟩
  · rw [hz.state, hwk, hc]
    exact (w.toFull (hz.toFull h)).imp_right fun h => h.imp_right fun h => h.modify hx g.owes
  · rw [hc] at he ⊢
    exact (w.unput (hz.toFull h) (he.of_modify hx g.empties)).modify hx g.unput
  · rw [hz.state, hc]
    exact (w.gc (hz.gc h)).imp_right fun h => h.imp hz.refcount fun h => h.modify hx g.zeroes
  · rw [hc] at hf
    exact hz.refcount (w.counted (hz.gc h) (hf.of_modify hx g.fulls))

/-- The worker or another part of the driver goes on. -/
theorem idle (w : Waits s z) (hc : s'.ctxs = s.ctxs) (hwk : s.wk = .close z → s'.wk = .close z)
    (hz : (s.zmd.zones z).Keeps (s'.zmd.zones z)) : Waits s' z := by
  refine ⟨fun h => ?_, fun h he => ?_, fun h => ?_, fun h hf => ?_⟩
  · rw [hz.state, hc]
    exact (w.toFull (hz.toFull h)).imp_right fun h => h.imp_left hwk
  · rw [hc] at he ⊢
    exact w.unput (hz.toFull h) he
  · rw [hz.state, hc]
    exact (w.gc (hz.gc h)).imp_right fun h => h.imp_left hz.refcount
  · rw [hc] at hf
    exact hz.refcount (w.counted (hz.gc h) hf)

/-- A zone without the two flags. -/
theorem clear (h1 : (s.zmd.zones z).flags .toFull = false) (h2 : (s.zmd.zones z).flags .gc = false) :
    Waits s z :=
  ⟨fun h => absurd (h1.symm.trans h) nofun, fun h => absurd (h1.symm.trans h) nofun,
    fun h => absurd (h2.symm.trans h) nofun, fun h => absurd (h2.symm.trans h) nofun⟩

/-- A zone with `LBZ_ZONE_GC` alone. -/
theorem ofGc (h1 : (s.zmd.zones z).flags .toFull = false)
    (h2 : (s.zmd.zones z).state = .empty ∨ (s.zmd.zones z).refcount ≠ 0 ∨
      s.ctxs.Any (ZoneCtx.Zeroes z))
    (h3 : s.ctxs.Any (ZoneCtx.Fulls z) → (s.zmd.zones z).refcount ≠ 0) : Waits s z :=
  ⟨fun h => absurd (h1.symm.trans h) nofun, fun h => absurd (h1.symm.trans h) nofun,
    fun _ => h2, fun _ => h3⟩

/-- A zone with `LBZ_ZONE_TO_FULL` alone. -/
theorem ofToFull (h1 : (s.zmd.zones z).flags .gc = false)
    (h2 : (s.zmd.zones z).state = .full ∨ s.wk = .close z ∨ s.ctxs.Any (ZoneCtx.Owes z))
    (h3 : s.ctxs.Any (ZoneCtx.Empties z) → s.ctxs.Any (ZoneCtx.Unput z)) : Waits s z :=
  ⟨fun _ => h2, fun _ => h3, fun h => absurd (h1.symm.trans h) nofun,
    fun h => absurd (h1.symm.trans h) nofun⟩

end Waits

/-! ## `lbz_put_zone` -/

/-- How far the write of a context in `lbz_put_zone` of `z` has come. -/
def PutWrite (z : ℕ) (k : PutPc → ZoneCtx) (y : ZoneCtx) : Prop :=
  (∀ pc, (k pc).write = y.write) ∨ (∀ pc, (k pc).write = some (z, pc)) ∧ y.write = none

theorem putWrite_put (z : ℕ) (by_ : PutBy) : PutWrite z (.put z by_) .done := by
  cases by_ with
  | write => exact Or.inr ⟨fun _ => rfl, rfl⟩
  | _ => exact Or.inl fun _ => rfl

namespace PutWrite

variable {z z' : ℕ} {k : PutPc → ZoneCtx} {y : ZoneCtx} {pc pc' : PutPc}

theorem unput (W : PutWrite z k y) (hpc : pc ≠ .lock) (h : (k pc).Unput z') :
    (∀ pc', (k pc').Unput z') ∧ y.Unput z' := by
  rcases W with W | ⟨W, -⟩
  · have hy : y.Unput z' := (W pc).symm.trans h
    exact ⟨fun pc' => (W pc').trans hy, hy⟩
  · cases (W pc).symm.trans h
    exact absurd rfl hpc

theorem owes (W : PutWrite z k y) (hpc : pc' ≠ .setEmpty ∧ pc' ≠ .unlock)
    (h : (k pc).Owes z') : (k pc').Owes z' := by
  obtain ⟨pc₁, h1, h2⟩ := h
  rcases W with W | ⟨W, -⟩
  · exact ⟨pc₁, ((W pc').trans (W pc).symm).trans h1, h2⟩
  · cases (W pc).symm.trans h1
    exact ⟨pc', W pc', hpc⟩

/-- What the context does is not about other zones. -/
theorem goes_other (W : PutWrite z k y) (F : PutFrame z k y) (hz : z' ≠ z) {x : ZoneCtx}
    (hx : (∃ pc', x = k pc') ∨ x = y) : ZoneCtx.Goes z' (k pc) x := by
  have hput : ∀ pc₁, x.putAt ≠ some (z', pc₁) := fun pc₁ h => by
    rcases hx with ⟨pc', rfl⟩ | rfl
    · cases (F.putAt pc').symm.trans h
      exact hz rfl
    · cases F.out.symm.trans h
  have hput' : ∀ pc₁, (k pc).putAt ≠ some (z', pc₁) := fun pc₁ h => by
    cases (F.putAt pc).symm.trans h
    exact hz rfl
  have hwrite : ∀ pc₁, (k pc).write = some (z', pc₁) → x.write = some (z', pc₁) := fun pc₁ h => by
    rcases W with W | ⟨W, -⟩
    · rcases hx with ⟨pc', rfl⟩ | rfl
      · exact ((W pc').trans (W pc).symm).trans h
      · exact (W pc).symm.trans h
    · cases (W pc).symm.trans h
      exact absurd rfl hz
  refine ⟨fun ⟨pc₁, h, h'⟩ => ⟨pc₁, hwrite pc₁ h, h'⟩, hwrite _, fun h => ?_,
    fun h => absurd h (hput _), fun h => ?_⟩
  · exact h.elim (fun h => absurd h (hput' _)) fun h => absurd h (hput' _)
  · exact h.elim (fun h => absurd h (hput _)) fun h => absurd h (hput _)

end PutWrite

namespace PutFrame

variable {z : ℕ} {k : PutPc → ZoneCtx} {y : ZoneCtx} {pc : PutPc}

theorem empties_iff (F : PutFrame z k y) : (k pc).Empties z ↔ pc = .setEmpty := by
  simp [ZoneCtx.Empties, F.putAt]

theorem zeroes_iff (F : PutFrame z k y) : (k pc).Zeroes z ↔ pc = .zero ∨ pc = .setEmpty := by
  simp [ZoneCtx.Zeroes, ZoneCtx.Empties, F.putAt]

theorem fulls_iff (F : PutFrame z k y) : (k pc).Fulls z ↔ pc = .pending ∨ pc = .setFull := by
  simp [ZoneCtx.Fulls, F.putAt]

end PutFrame

namespace SpotInv

variable {s s' : ZoneSys} {pl : ℕ → Spot} {slot : Fin 2 → Option ℕ} {a z : ℕ} {x x' y : ZoneCtx}
  {k : PutPc → ZoneCtx} {pc : PutPc}

/-- Only the holder of the lock of a zone is in the middle of `lbz_put_zone` of it. -/
theorem only (h : SpotInv s pl slot) (hx : s.ctxs.get a = some x) (hl : x.Locks z)
    {P : ZoneCtx → Prop} (hP : ∀ x, P x → x.Locks z)
    (hany : (s.ctxs.modify a fun _ => x').Any P) : P x' := by
  obtain ⟨b, y, hy, hp⟩ := hany
  by_cases e : b = a
  · subst e
    cases (Heap.get_modify_self hx _).symm.trans hy
    exact hp
  · rw [Heap.get_modify_ne e] at hy
    have h1 := (h.zoneLock a z).mpr ⟨x, hx, hl⟩
    have h2 := (h.zoneLock b z).mpr ⟨y, hy, hP y hp⟩
    exact absurd (Option.some.inj (h2.symm.trans h1)) e

/-- A zone is not to be closed and to be reset. -/
theorem not_both (h : SpotInv s pl slot) (hf : (s.zmd.zones z).flags .toFull = true) :
    (s.zmd.zones z).flags .gc = false := by
  refine h.spots.not_gc fun e => ?_
  cases ((h.spots.seen z .toFull trivial).mp hf).symm.trans e

/-- The holder of the lock of zone `z` goes on. -/
theorem locked (h : SpotInv s pl slot) (hx : s.ctxs.get a = some x) (hl : x.Locks z)
    (hc : s'.ctxs = s.ctxs.modify a fun _ => x')
    (h1 : (s'.zmd.zones z).flags .toFull = true → ((s'.zmd.zones z).state = .full ∨
      s'.wk = .close z ∨ s'.ctxs.Any (ZoneCtx.Owes z)) ∧ ¬ x'.Empties z)
    (h2 : (s'.zmd.zones z).flags .gc = true → ((s'.zmd.zones z).state = .empty ∨
      (s'.zmd.zones z).refcount ≠ 0 ∨ s'.ctxs.Any (ZoneCtx.Zeroes z)) ∧
        (x'.Fulls z → (s'.zmd.zones z).refcount ≠ 0)) : Waits s' z := by
  refine ⟨fun hf => (h1 hf).1, fun hf he => ?_, fun hg => (h2 hg).1, fun hg hf => (h2 hg).2 ?_⟩
  · rw [hc] at he
    exact absurd (h.only hx hl (fun _ => ZoneCtx.Empties.locks) he) (h1 hf).2
  · rw [hc] at hf
    exact h.only hx hl (fun _ => ZoneCtx.Fulls.locks) hf

/-- A pending write is owed. -/
theorem owed (h : SpotInv s pl slot) (hp : (s.zmd.zones z).pendingWriteIo ≠ 0) :
    ∃ b y, s.ctxs.get b = some y ∧ y.pends z ≠ 0 := by
  by_contra hno
  refine hp ((h.pends z).trans (Heap.sum_eq_zero fun b y hy => ?_))
  by_contra hne
  exact hno ⟨b, y, hy, hne⟩

/-- An access of `lbz_put_zone` to zone `z`. -/
theorem waits_access (h : SpotInv s pl slot) (w : Waits s z) (F : PutFrame z k y)
    (W : PutWrite z k y) (hx : s.ctxs.get a = some (k pc)) (hpc : pc ≠ .lock ∧ pc ≠ .unlock) :
    Waits ((s.modZone z fun _ => (pc.access (s.zmd.zones z)).1).goto a
      (k (pc.access (s.zmd.zones z)).2)) z := by
  have hl : (k pc).Locks z := (F.locks_iff z).mpr ⟨rfl, hpc.1⟩
  have hz : ∀ x : Zone, ((s.zmd.modZone z fun _ => x).zones z) = x := fun x => by
    rw [Zmd.modZone_zones, if_pos rfl]
  have howes : ∀ pc', pc' ≠ .setEmpty ∧ pc' ≠ .unlock → s.ctxs.Any (ZoneCtx.Owes z) →
      (s.ctxs.modify a fun _ => k pc').Any (ZoneCtx.Owes z) :=
    fun pc' h ho => ho.modify hx (W.owes h)
  have hzeroes : ∀ pc', ¬ (k pc).Zeroes z → s.ctxs.Any (ZoneCtx.Zeroes z) →
      (s.ctxs.modify a fun _ => k pc').Any (ZoneCtx.Zeroes z) :=
    fun pc' h ho => ho.modify hx fun hz => absurd hz h
  have hself : ∀ pc', (k pc').Zeroes z → (s.ctxs.modify a fun _ => k pc').Any (ZoneCtx.Zeroes z) :=
    fun pc' => Heap.Any.self hx (f := fun _ => k pc')
  have hempties : ∀ pc', pc' ≠ .setEmpty → ¬ (k pc').Empties z := fun pc' h he => h (F.empties_iff.mp he)
  have hfulls : ∀ pc', pc' ≠ .pending ∧ pc' ≠ .setFull → ¬ (k pc').Fulls z := fun pc' h he =>
    (F.fulls_iff.mp he).elim h.1 h.2
  -- the zone and the place after the access
  have key : ∀ x pc', pc.access (s.zmd.zones z) = (x, pc') →
      (x.flags .toFull = true → (x.state = .full ∨ s.wk = .close z ∨
        (s.ctxs.modify a fun _ => k pc').Any (ZoneCtx.Owes z)) ∧ ¬ (k pc').Empties z) →
      (x.flags .gc = true → (x.state = .empty ∨ x.refcount ≠ 0 ∨
        (s.ctxs.modify a fun _ => k pc').Any (ZoneCtx.Zeroes z)) ∧
          ((k pc').Fulls z → x.refcount ≠ 0)) →
      Waits ((s.modZone z fun _ => (pc.access (s.zmd.zones z)).1).goto a
        (k (pc.access (s.zmd.zones z)).2)) z := fun x pc' he h1 h2 => by
    rw [he]
    have hxz : (((s.modZone z fun _ => x).goto a (k pc')).zmd.zones z) = x := hz x
    refine h.locked hx hl rfl (fun hf => ?_) fun hg => ?_
    · rw [hxz] at hf ⊢
      exact h1 hf
    · rw [hxz] at hg ⊢
      exact h2 hg
  cases pc with
  | lock => exact absurd rfl hpc.1
  | unlock => exact absurd rfl hpc.2
  | dec =>
    refine key _ _ rfl (fun hf => ⟨?_, ?_⟩) fun hg => ⟨?_, fun hf => ?_⟩
    · exact (w.toFull hf).imp_right fun h => h.imp_right (howes _ (by split_ifs <;> exact ⟨nofun, nofun⟩))
    · exact hempties _ (by split_ifs <;> exact nofun)
    · by_cases hr : (s.zmd.zones z).refcount - 1 = 0
      · exact Or.inr (Or.inr (hself _ (F.zeroes_iff.mpr (Or.inl (if_pos hr)))))
      · exact Or.inr (Or.inl hr)
    · exact absurd hf (hfulls _ (by split_ifs <;> exact ⟨nofun, nofun⟩))
  | zero =>
    refine key _ _ rfl (fun hf => ?_) fun hg => ?_
    · rw [if_neg (by rw [h.not_both hf]; nofun)]
      exact ⟨(w.toFull hf).imp_right fun h => h.imp_right (howes _ ⟨nofun, nofun⟩), hempties _ nofun⟩
    · rw [if_pos hg]
      exact ⟨Or.inr (Or.inr (hself _ (F.zeroes_iff.mpr (Or.inr rfl)))),
        fun hf => absurd hf (hfulls _ ⟨nofun, nofun⟩)⟩
  | setEmpty =>
    refine key _ _ rfl (fun hf => ⟨?_, hempties _ nofun⟩) fun hg =>
      ⟨Or.inl rfl, fun hf => absurd hf (hfulls _ ⟨nofun, nofun⟩)⟩
    -- a zone that is to be closed has a write that is not put yet
    have hu := w.unput hf ⟨a, _, hx, F.empties_iff.mpr rfl⟩
    have hu' : (s.ctxs.modify a fun _ => k .unlock).Any (ZoneCtx.Unput z) :=
      hu.modify hx fun h => (W.unput (show PutPc.setEmpty ≠ .lock from nofun) h).1 .unlock
    exact Or.inr (Or.inr (hu'.imp fun _ => ZoneCtx.Unput.owes))
  | toFull =>
    refine key _ _ rfl (fun hf => ?_) fun hg => ?_
    · rw [if_pos hf]
      exact ⟨(w.toFull hf).imp_right fun h => h.imp_right (howes _ ⟨nofun, nofun⟩), hempties _ nofun⟩
    · have hf : ¬ (s.zmd.zones z).flags .toFull = true := fun hf => by
        rw [h.not_both hf] at hg
        cases hg
      rw [if_neg hf]
      exact ⟨(w.gc hg).imp_right fun h => h.imp_right (hzeroes _ fun hz => nomatch F.zeroes_iff.mp hz),
        fun hf => absurd hf (hfulls _ ⟨nofun, nofun⟩)⟩
  | pending =>
    have hgc : (s.zmd.zones z).flags .gc = true → ∀ pc', (s.zmd.zones z).state = .empty ∨
        (s.zmd.zones z).refcount ≠ 0 ∨
        (s.ctxs.modify a fun _ => k pc').Any (ZoneCtx.Zeroes z) := fun hg pc' =>
      (w.gc hg).imp_right fun h => h.imp_right (hzeroes _ fun hz => nomatch F.zeroes_iff.mp hz)
    have hcount : (s.zmd.zones z).flags .gc = true → (s.zmd.zones z).refcount ≠ 0 := fun hg =>
      w.counted hg ⟨a, _, hx, F.fulls_iff.mpr (Or.inl rfl)⟩
    refine key _ _ rfl (fun hf => ?_) fun hg => ⟨hgc hg _, fun _ => hcount hg⟩
    split_ifs with hp
    · exact ⟨(w.toFull hf).imp_right fun h => h.imp_right (howes _ ⟨nofun, nofun⟩), hempties _ nofun⟩
    · -- some write is not completed
      refine ⟨Or.inr (Or.inr ?_), hempties _ nofun⟩
      obtain ⟨b, y', hy, hb⟩ := h.owed hp
      by_cases e : b = a
      · subst e
        cases hx.symm.trans hy
        rw [F.pends] at hb
        exact .self hx (ZoneCtx.write_of_pends (by rwa [F.pends])).owes
      · exact ⟨b, y', by rw [Heap.get_modify_ne e, hy], (ZoneCtx.write_of_pends hb).owes⟩
  | setFull =>
    have hcount : (s.zmd.zones z).flags .gc = true → (s.zmd.zones z).refcount ≠ 0 := fun hg =>
      w.counted hg ⟨a, _, hx, F.fulls_iff.mpr (Or.inr rfl)⟩
    exact key _ _ rfl (fun hf => ⟨Or.inl rfl, hempties _ nofun⟩) fun hg =>
      ⟨Or.inr (Or.inl (hcount hg)), fun _ => hcount hg⟩

/-- **A step of `lbz_put_zone`.** -/
theorem waits_put (h : SpotInv s pl slot) (w : ∀ z', Waits s z') (F : PutFrame z k y)
    (W : PutWrite z k y) (hx : s.ctxs.get a = some (k pc))
    (hs : putStep s a z k y pc = some s') (z' : ℕ) : Waits s' z' := by
  unfold putStep at hs
  split at hs
  · split_ifs at hs with hl
    cases hs
    by_cases e : z' = z
    · subst e
      -- nobody is in the middle of `lbz_put_zone`
      have hnone : ¬ (s.ctxs.modify a fun _ => k .dec).Any (ZoneCtx.Empties z') := fun he => by
        obtain ⟨b, y', hy, hp⟩ := he.of_modify hx fun he => nomatch F.empties_iff.mp he
        have := (h.zoneLock b z').mpr ⟨y', hy, hp.locks⟩
        rw [hl] at this
        cases this
      have hw := w z'
      exact ⟨fun hf => (hw.toFull hf).imp_right fun h => h.imp_right fun h =>
          h.modify hx (W.owes ⟨nofun, nofun⟩), fun _ he => absurd he hnone,
        fun hg => (hw.gc hg).imp_right fun h => h.imp_right fun h =>
          h.modify hx fun hz => (nomatch F.zeroes_iff.mp hz),
        fun hg hf => hw.counted hg (hf.of_modify hx fun hf => nomatch F.fulls_iff.mp hf)⟩
    · exact (w z').quiet hx rfl rfl (W.goes_other F e (Or.inl ⟨_, rfl⟩)) .rfl
  · cases hs
    by_cases e : z' = z
    · subst e
      refine (w z').quiet hx rfl rfl ⟨fun ho => ?_, fun hu => ?_,
        fun hz => (nomatch F.zeroes_iff.mp hz),
        fun he => ?_, fun hf => ?_⟩ .rfl
      · obtain ⟨pc₁, h1, h2⟩ := ho
        rcases W with W | ⟨W, -⟩
        · exact ⟨pc₁, (W .unlock).symm.trans h1, h2⟩
        · cases (W .unlock).symm.trans h1
          exact absurd rfl h2.2
      · exact (W.unput (show PutPc.unlock ≠ .lock from nofun) hu).2
      · cases F.out.symm.trans he
      · rcases hf with hf | hf <;> cases F.out.symm.trans hf
    · exact (w z').quiet hx rfl rfl (W.goes_other F e (Or.inr rfl)) .rfl
  · next h1 h2 =>
    cases hs
    by_cases e : z' = z
    · subst e
      exact h.waits_access (w z') F W hx ⟨h1, h2⟩
    · refine (w z').quiet hx rfl rfl (W.goes_other F e (Or.inl ⟨_, rfl⟩)) ?_
      change (s.zmd.zones z').Keeps ((s.zmd.modZone z fun _ => (pc.access (s.zmd.zones z)).1).zones z')
      rw [Zmd.modZone_zones, if_neg e]
      exact .rfl

/-! ## The other steps -/

variable {c : Conf}

/-- A step of a context outside `lbz_put_zone` that keeps every zone. -/
theorem waits_quiet (w : ∀ z', Waits s z') (hx : s.ctxs.get a = some x) (x' : ZoneCtx)
    (hc : s'.ctxs = s.ctxs.modify a fun _ => x') (hwk : s'.wk = s.wk)
    (hw : x.write = none ∨ x'.write = x.write) (hp : x.putAt = none)
    (hp' : x'.putAt = none ∨ ∃ z, x'.putAt = some (z, .lock))
    (hz : ∀ z', (s.zmd.zones z').Keeps (s'.zmd.zones z')) (z' : ℕ) : Waits s' z' :=
  (w z').quiet hx hc hwk (.outside x x' hw hp hp' z') (hz z')

/-- One more reference to zone `z`. -/
theorem keeps_get (h : SpotInv s pl slot) (z z' : ℕ) : (s.zmd.zones z').Keeps
    ((s.zmd.modZone z fun x => { x with refcount := x.refcount + 1 }).zones z') := by
  refine Zone.Keeps.modZone ⟨fun h => h, fun h => h, rfl, fun _ => ?_⟩ z'
  have h1 : 0 ≤ s.ctxs.sum (ZoneCtx.refs z) := Heap.sum_nonneg _ (ZoneCtx.refs_nonneg z)
  have h2 : 0 ≤ slotRefs slot z := by
    rw [slotRefs]
    split_ifs <;> decide
  have := h.refs z
  change (s.zmd.zones z).refcount + 1 ≠ 0
  omega

/-- `LBZ_ZONE_TO_FULL` is set by a context that has a write. -/
theorem waits_setToFull (h : SpotInv s pl slot) (w : ∀ z', Waits s z') {i : Fin 2}
    (hx : s.ctxs.get a = some (.setToFull i z)) (z' : ℕ) :
    Waits ((s.modZone z (Zone.setZoneState .toFull)).goto a (.fullPut i z .lock)) z' := by
  have hc : ((s.modZone z (Zone.setZoneState .toFull)).goto a (.fullPut i z .lock)).ctxs =
      s.ctxs.modify a fun _ => .fullPut i z .lock := rfl
  have hz : ((s.modZone z (Zone.setZoneState .toFull)).goto a (.fullPut i z .lock)).zmd.zones z' =
      if z' = z then (s.zmd.zones z').setZoneState .toFull else s.zmd.zones z' :=
    Zmd.modZone_zones s.zmd z (Zone.setZoneState .toFull) z'
  by_cases e : z' = z
  · subst e
    rw [if_pos rfl] at hz
    have hself : (s.ctxs.modify a fun _ => ZoneCtx.fullPut i z' .lock).Any (ZoneCtx.Unput z') :=
      .self hx rfl
    refine .ofToFull ?_ (Or.inr (Or.inr (hself.imp fun _ => ZoneCtx.Unput.owes))) fun _ => hself
    rw [hz, Zone.setZoneState_of_ne (show ZoneState.gc ≠ .toFull from nofun)]
    refine h.spots.not_gc fun e => ?_
    have hs : pl z' = .slot i := h.spots.at_of_seen (q := .slot i) (h.fact a _ hx) trivial
    cases hs.symm.trans e
  · rw [if_neg e] at hz
    have g : ZoneCtx.Goes z' (.setToFull i z) (.fullPut i z .lock) :=
      .outside (.setToFull i z) (.fullPut i z .lock) (Or.inr rfl) rfl (Or.inr ⟨z, rfl⟩) z'
    refine (w z').quiet hx hc rfl g ?_
    rw [hz]
    exact .rfl

/-- The victim is still in use when it gets `LBZ_ZONE_GC`. -/
theorem waits_victimFlag (h : SpotInv s pl slot) (w : ∀ z', Waits s z')
    (hx : s.ctxs.get a = some (.victimFlag z)) (hc : s'.ctxs = s.ctxs.modify a fun _ => .collecting z)
    (hwk : s'.wk = s.wk) (hm : s'.zmd.zones = (s.zmd.modZone z (Zone.setZoneState .gc)).zones)
    (z' : ℕ) : Waits s' z' := by
  have hz : s'.zmd.zones z' =
      if z' = z then (s.zmd.zones z').setZoneState .gc else s.zmd.zones z' := by
    rw [hm]
    exact Zmd.modZone_zones s.zmd z (Zone.setZoneState .gc) z'
  by_cases e : z' = z
  · subst e
    rw [if_pos rfl] at hz
    have hr : (s'.zmd.zones z').refcount ≠ 0 := by
      have h1 : (ZoneCtx.victimFlag z').refs z' ≤ s.ctxs.sum (ZoneCtx.refs z') :=
        Heap.le_sum (ZoneCtx.refs_nonneg z') hx
      have h2 : 0 ≤ slotRefs slot z' := by
        rw [slotRefs]
        split_ifs <;> decide
      have h3 := h.refs z'
      rw [ZoneCtx.refs, at1, if_pos rfl] at h1
      rw [hz]
      change (s.zmd.zones z').refcount ≠ 0
      omega
    refine .ofGc ?_ (Or.inr (Or.inl hr)) fun _ => hr
    rw [hz, Zone.setZoneState_of_ne (show ZoneState.toFull ≠ .gc from (by rintro ⟨⟩))]
    refine h.spots.not_toFull fun e => ?_
    have hs : pl z' = .taken := h.fact a _ hx
    cases hs.symm.trans e
  · rw [if_neg e] at hz
    refine (w z').quiet hx hc hwk (.outside _ _ (Or.inl rfl) rfl (Or.inl rfl) z') ?_
    rw [hz]
    exact .rfl

/-- A zone that is opened is neither to be closed nor to be reset. -/
theorem waits_openState (h : SpotInv s pl slot) (w : ∀ z', Waits s z') {i : Fin 2}
    (hx : s.ctxs.get a = some (.openState i z)) (z' : ℕ) :
    Waits ((s.modZone z fun x => { x with state := .expOpen }).goto a (.get i z)) z' := by
  have hz : ((s.modZone z fun x => { x with state := .expOpen }).goto a (.get i z)).zmd.zones z' =
      if z' = z then { s.zmd.zones z' with state := .expOpen } else s.zmd.zones z' :=
    Zmd.modZone_zones s.zmd z (fun x => { x with state := .expOpen }) z'
  by_cases e : z' = z
  · subst e
    rw [if_pos rfl] at hz
    have hs : pl z' = .opening := (h.fact a _ hx).2.2
    refine .clear ?_ ?_
    · rw [hz]
      exact h.spots.not_toFull (by rw [hs]; nofun)
    · rw [hz]
      exact h.spots.not_gc (by rw [hs]; nofun)
  · rw [if_neg e] at hz
    have g : ZoneCtx.Goes z' (.openState i z) (.get i z) :=
      .outside (.openState i z) _ (Or.inl rfl) rfl (Or.inl rfl) z'
    refine (w z').quiet hx rfl rfl g ?_
    rw [hz]
    exact .rfl

/-- **A step of a context.** -/
theorem waits_ctxStep (h : SpotInv s pl slot) (w : ∀ z', Waits s z') (hx : s.ctxs.get a = some x)
    (hs : Lbz.ctxStep c s a x = some s') : ∀ z', Waits s' z' := by
  have same : ∀ {m m' : Zmd}, m'.zones = m.zones → ∀ z', (m.zones z').Keeps (m'.zones z') :=
    fun e z' => by
      rw [e]
      exact .rfl
  have keep : ∀ (z : ℕ) (f : Zone → Zone), (∀ x : Zone, x.Keeps (f x)) → ∀ z',
      (s.zmd.zones z').Keeps ((s.zmd.modZone z f).zones z') := fun z f hf => Zone.Keeps.modZone (hf _)
  have flag : ∀ st, st ≠ .toFull ∧ st ≠ .gc → ∀ x : Zone, x.Keeps (x.setZoneState st) :=
    fun st h x => ⟨fun hf => (Zone.setZoneState_of_ne h.1.symm x).symm.trans hf,
      fun hf => (Zone.setZoneState_of_ne h.2.symm x).symm.trans hf, rfl, fun h => h⟩
  cases x with
  | alloc mod i =>
    simp only [Lbz.ctxStep] at hs
    split_ifs at hs with hl
    cases e : allocStart c s.zmd mod i with
    | none =>
      rw [e] at hs
      cases hs
      exact waits_quiet w hx .done rfl rfl (Or.inl rfl) rfl (Or.inl rfl) (same rfl)
    | some x =>
      rw [e] at hs
      cases hs
      refine waits_quiet w hx x rfl rfl (Or.inl rfl) rfl ?_ (same rfl)
      unfold allocStart at e
      split_ifs at e
      cases hi : s.zmd.activeZone i with
      | none =>
        rw [hi] at e
        cases e
        exact Or.inl rfl
      | some z =>
        rw [hi] at e
        cases e
        split_ifs
        · exact Or.inr ⟨z, rfl⟩
        · exact Or.inl rfl
  | slotPut i z pc => exact h.waits_put w (putFrame_slot i z) (Or.inl fun _ => rfl) hx hs
  | free i =>
    simp only [Lbz.ctxStep, getFreeZone] at hs
    cases he : s.zmd.emptyZoneList with
    | nil =>
      rw [he] at hs
      cases hs
      exact waits_quiet w hx .done rfl rfl (Or.inl rfl) rfl (Or.inl rfl) (same rfl)
    | cons z l =>
      rw [he] at hs
      cases hs
      exact waits_quiet w hx (.openGet i z) rfl rfl (Or.inl rfl) rfl (Or.inl rfl)
        (keep z (fun x => { x with stream := i.val }) fun x => ⟨fun h => h, fun h => h, rfl, fun h => h⟩)
  | openGet i z =>
    cases hs
    exact waits_quiet w hx (.openFlag i z) rfl rfl (Or.inl rfl) rfl (Or.inl rfl) (h.keeps_get z)
  | openFlag i z =>
    cases hs
    exact waits_quiet w hx (.openState i z) rfl rfl (Or.inl rfl) rfl (Or.inl rfl)
      (keep z _ (flag .active ⟨by rintro ⟨⟩, by rintro ⟨⟩⟩))
  | openState i z =>
    cases hs
    exact h.waits_openState w hx
  | get i z =>
    cases hs
    exact waits_quiet w hx (.take i z) rfl rfl (Or.inl rfl) rfl (Or.inl rfl) (h.keeps_get z)
  | take i z =>
    cases hs
    exact waits_quiet w hx (.pend i z) rfl rfl (Or.inl rfl) rfl (Or.inl rfl)
      (keep z (fun x => { x with wpBlock := x.wpBlock + 1, weight := x.weight + 1 })
        fun x => ⟨fun h => h, fun h => h, rfl, fun h => h⟩)
  | pend i z =>
    have hk := keep z (fun x => { x with pendingWriteIo := x.pendingWriteIo + 1 })
      fun x => ⟨fun h => h, fun h => h, rfl, fun h => h⟩
    simp only [Lbz.ctxStep] at hs
    split_ifs at hs
    · cases hs
      exact waits_quiet w hx (.clear i z) rfl rfl (Or.inr rfl) rfl (Or.inl rfl) hk
    · cases hs
      exact waits_quiet w hx (.writing z) rfl rfl (Or.inr rfl) rfl (Or.inl rfl) hk
  | clear i z =>
    cases hs
    refine waits_quiet w hx (.setToFull i z) rfl rfl (Or.inr rfl) rfl (Or.inl rfl)
      (keep z _ fun x => ⟨fun hf => ?_, fun hf => ?_, rfl, fun h => h⟩)
    · exact (Zone.clearZoneState_of_ne (show ZoneState.toFull ≠ .active from (by rintro ⟨⟩)) x).symm.trans hf
    · exact (Zone.clearZoneState_of_ne (show ZoneState.gc ≠ .active from (by rintro ⟨⟩)) x).symm.trans hf
  | setToFull i z =>
    cases hs
    exact h.waits_setToFull w hx
  | fullPut i z pc => exact h.waits_put w (putFrame_full i z) (Or.inl fun _ => rfl) hx hs
  | clearSlot i z =>
    cases hs
    exact waits_quiet w hx (.writing z) rfl rfl (Or.inr rfl) rfl (Or.inl rfl) (same rfl)
  | writing z =>
    cases hs
    exact waits_quiet w hx (.put z .write .lock) rfl rfl (Or.inr rfl) rfl (Or.inr ⟨z, rfl⟩)
      (keep z (fun x => { x with pendingWriteIo := x.pendingWriteIo - 1 })
        fun x => ⟨fun h => h, fun h => h, rfl, fun h => h⟩)
  | victim mod =>
    simp only [Lbz.ctxStep] at hs
    split_ifs at hs with hl
    cases hv : Lbz.victim c s.zmd mod with
    | none =>
      rw [hv] at hs
      cases hs
      exact waits_quiet w hx .done rfl rfl (Or.inl rfl) rfl (Or.inl rfl) (same rfl)
    | some z =>
      rw [hv] at hs
      cases hs
      exact waits_quiet w hx (.victimGet z) rfl rfl (Or.inl rfl) rfl (Or.inl rfl) (same rfl)
  | victimGet z =>
    cases hs
    exact waits_quiet w hx (.victimFlag z) rfl rfl (Or.inl rfl) rfl (Or.inl rfl) (h.keeps_get z)
  | victimFlag z =>
    cases hs
    exact h.waits_victimFlag w hx rfl rfl rfl
  | collecting z =>
    cases hs
    exact waits_quiet w hx (.put z .gc .lock) rfl rfl (Or.inl rfl) rfl (Or.inr ⟨z, rfl⟩)
      (keep z _ (flag .gcCompleted ⟨by rintro ⟨⟩, by rintro ⟨⟩⟩))
  | getting z by_ =>
    cases hs
    exact waits_quiet w hx (.holding z by_) rfl rfl (Or.inl rfl) rfl (Or.inl rfl) (h.keeps_get z)
  | holding z by_ =>
    cases hs
    exact waits_quiet w hx (.put z by_ .lock) rfl rfl (Or.inl rfl) rfl (Or.inr ⟨z, rfl⟩) (same rfl)
  | put z by_ pc => exact h.waits_put w (putFrame_put z by_) (putWrite_put z by_) hx hs
  | done => cases hs

/-- The worker changes zone `i`. -/
theorem waits_wkZone (w : ∀ z', Waits s z') {i : ℕ} {f : Zone → Zone} {wk : ZoneWk}
    (hwk : ∀ z' ≠ i, s.wk = .close z' → wk = .close z')
    (hi : Waits { s.modZone i f with wk := wk } i) (z' : ℕ) :
    Waits { s.modZone i f with wk := wk } z' := by
  by_cases e : z' = i
  · rw [e]
    exact hi
  · refine (w z').idle rfl (hwk z' e) ?_
    change (s.zmd.zones z').Keeps ((s.zmd.modZone i f).zones z')
    rw [Zmd.modZone_zones, if_neg e]
    exact .rfl

/-- **A step of the worker.** -/
theorem waits_zoneWkStep (h : SpotInv s pl slot) (w : ∀ z', Waits s z')
    (hs : Lbz.zoneWkStep c s = some s') : ∀ z', Waits s' z' := by
  have hw := h.wk
  have hz : ∀ i (f : Zone → Zone), (s.zmd.modZone i f).zones i = f (s.zmd.zones i) := fun i f => by
    rw [Zmd.modZone_zones, if_pos rfl]
  have quiet : ∀ {s' : ZoneSys}, s'.ctxs = s.ctxs → s'.zmd.zones = s.zmd.zones →
      (∀ i, s.wk ≠ .close i) → ∀ z', Waits s' z' := fun hc hm hn z' =>
    (w z').idle hc (fun e => absurd e (hn z')) (by rw [hm]; exact .rfl)
  unfold Lbz.zoneWkStep at hs
  split at hs
  · cases hs
  · cases hs
  · next i send hwk =>
    have hn : ∀ i, s.wk ≠ .close i := fun i e => nomatch hwk.symm.trans e
    split_ifs at hs <;> cases hs <;> exact quiet rfl rfl hn
  · next i send hwk =>
    have hn : ∀ i, s.wk ≠ .close i := fun i e => nomatch hwk.symm.trans e
    rw [hwk] at hw
    split_ifs at hs with h1 h2 h3 <;> cases hs
    · -- the zone is being closed from here on
      refine waits_wkZone w (fun z' _ e => absurd e (hn z')) (.ofToFull ?_ (Or.inr (Or.inl rfl)) ?_)
      · change ((s.zmd.modZone i fun x => { x with state := .closed }).zones i).flags .gc = false
        rw [hz]
        exact h.spots.not_gc (by rw [show pl i = .toFull from hw]; nofun)
      · exact (w i).unput ((h.spots.seen i .toFull trivial).mpr hw)
    · exact quiet rfl rfl hn
    · exact quiet rfl rfl hn
  · next i hwk =>
    rw [hwk] at hw
    cases hs
    refine waits_wkZone w (fun z' e h => absurd (hwk.symm.trans h) fun h => e ?_) (.clear ?_ ?_)
    · cases h
      rfl
    · change ((s.zmd.modZone i fun x => { x with flags := oneFlag .full }).zones i).flags .toFull = false
      rw [hz]
      rfl
    · change ((s.zmd.modZone i fun x => { x with flags := oneFlag .full }).zones i).flags .gc = false
      rw [hz]
      rfl
  · next i hwk =>
    split_ifs at hs
    cases hs
    exact quiet rfl rfl fun i e => nomatch hwk.symm.trans e
  · next i send hwk =>
    cases hs
    exact quiet rfl rfl fun i e => nomatch hwk.symm.trans e
  · next i send hwk =>
    cases hs
    exact quiet rfl rfl fun i e => nomatch hwk.symm.trans e
  · next i send hwk =>
    have hn : ∀ i, s.wk ≠ .close i := fun i e => nomatch hwk.symm.trans e
    split_ifs at hs <;> cases hs <;> exact quiet rfl rfl hn
  · next i hwk =>
    cases hs
    exact quiet rfl rfl fun i e => nomatch hwk.symm.trans e
  · next i hwk =>
    cases hs
    exact fun z' => (w z').idle rfl (fun e => nomatch hwk.symm.trans e)
      (Zone.Keeps.modZone (f := fun x => { x with stream := -1, wpBlock := 0 })
        ⟨fun h => h, fun h => h, rfl, fun h => h⟩ z')
  · next i hwk =>
    rw [hwk] at hw
    cases hs
    refine waits_wkZone w (fun z' _ e => nomatch hwk.symm.trans e) (.ofGc ?_ (Or.inl ?_) ?_)
    · change ((s.zmd.modZone i fun x => { x with state := .empty }).zones i).flags .toFull = false
      rw [hz]
      exact h.spots.not_toFull (by rw [show pl i = .gc from hw]; nofun)
    · change ((s.zmd.modZone i fun x => { x with state := .empty }).zones i).state = .empty
      rw [hz]
    · change _ → ((s.zmd.modZone i fun x => { x with state := .empty }).zones i).refcount ≠ 0
      rw [hz]
      exact (w i).counted ((h.spots.seen i .gc trivial).mpr hw)
  · next i hwk =>
    cases hs
    refine waits_wkZone w (fun z' _ e => nomatch hwk.symm.trans e) (.clear ?_ ?_)
    · change ((s.zmd.modZone i fun x => { x with flags := oneFlag .init }).zones i).flags .toFull = false
      rw [hz]
      rfl
    · change ((s.zmd.modZone i fun x => { x with flags := oneFlag .init }).zones i).flags .gc = false
      rw [hz]
      rfl
  · next i hwk =>
    split_ifs at hs
    cases hs
    exact quiet rfl rfl fun i e => nomatch hwk.symm.trans e

/-- A new context has done nothing yet. -/
theorem waits_call (w : ∀ z', Waits s z') (hp : x.putAt = none) (z' : ℕ) :
    Waits { s with ctxs := s.ctxs.alloc x } z' := by
  have hempties : ¬ x.Empties z' := fun h => nomatch hp.symm.trans h
  have hfulls : ¬ x.Fulls z' := fun h => by rcases h with h | h <;> cases hp.symm.trans h
  have hnew : ∀ {P : ZoneCtx → Prop}, s.ctxs.Any P → (s.ctxs.alloc x).Any P := fun ⟨b, y, hy, h⟩ =>
    ⟨b, y, by rw [Heap.get_alloc, if_neg (Heap.lt_next_of_get hy).ne, hy], h⟩
  exact ⟨fun hf => ((w z').toFull hf).imp_right fun h => h.imp_right hnew,
    fun hf he => hnew ((w z').unput hf ((Heap.any_alloc hempties).mp he)),
    fun hg => ((w z').gc hg).imp_right fun h => h.imp_right hnew,
    fun hg hf => (w z').counted hg ((Heap.any_alloc hfulls).mp hf)⟩

/-- **Every step.** -/
theorem waits_step (h : SpotInv s pl slot) (w : ∀ z', Waits s z') {e : ZoneEvent}
    (hs : ZoneSys.step c s e = some s') : ∀ z', Waits s' z' := by
  unfold ZoneSys.step at hs
  by_cases hp : s.wk = .panicked
  · rw [if_pos hp] at hs
    cases hs
  rw [if_neg hp] at hs
  cases e with
  | callAlloc mod i =>
    cases hs
    exact waits_call w rfl
  | callVictim mod =>
    cases hs
    exact waits_call w rfl
  | callGet z by_ =>
    cases hs
    exact waits_call w rfl
  | run a =>
    obtain ⟨x, hx, hs⟩ := Option.bind_eq_some_iff.mp hs
    exact h.waits_ctxStep w hx hs
  | release z =>
    cases hs
    exact fun z' => (w z').idle rfl id (Zone.Keeps.modZone (f := fun x => { x with weight := x.weight - 1 })
      ⟨fun h => h, fun h => h, rfl, fun h => h⟩ z')
  | wkStart =>
    simp only at hs
    split_ifs at hs with hi
    cases hs
    exact fun z' => (w z').idle rfl (fun e => nomatch hi.symm.trans e) .rfl
  | wkRun => exact h.waits_zoneWkStep w hs

end SpotInv

/-! ## Runs -/

section

variable {o : Options} {report : List BlkZone} {m : Zmd} {s : ZoneSys}

theorem waits_run (h0 : initZones (confOf o report) emptyZmd 0 report = some m)
    (hrun : Runs (stepRel (ZoneSys.step (confOf o report))) (fun _ _ => True) (ZoneSys.start m) s) :
    ∀ z, Waits s z := by
  obtain ⟨pl, hstart, hf⟩ := SpotInv.start h0
  have w0 : ∀ z, Waits (ZoneSys.start m) z := fun z =>
    .clear (hstart.spots.not_toFull (hf z).1) (hstart.spots.not_gc (hf z).2)
  exact (hrun.inv (I := fun s => (∃ pl slot, SpotInv s pl slot) ∧ ∀ z, Waits s z)
    (fun s e s' ⟨⟨pl, slot, h⟩, w⟩ _ hs => ⟨h.step hs, h.waits_step w hs⟩)
    ⟨⟨pl, _, hstart⟩, w0⟩).2

/-- **No zone waits for a transition that does not come.** A zone that is to be closed, whose writes
are completed and put, and that the worker is not closing, is full; a zone that is to be reset, with
no reference and no `lbz_put_zone` in progress, is empty. -/
theorem no_lost_transition (h0 : initZones (confOf o report) emptyZmd 0 report = some m)
    (hrun : Runs (stepRel (ZoneSys.step (confOf o report))) (fun _ _ => True) (ZoneSys.start m) s)
    (z : ℕ) :
    ((s.zmd.zones z).flags .toFull = true → (¬ s.ctxs.Any fun x => x.blockIn = some z) →
      (¬ s.ctxs.Any fun x => ∃ pc, x = .put z .write pc) → s.wk ≠ .close z →
      (s.zmd.zones z).state = .full) ∧
    ((s.zmd.zones z).flags .gc = true → (s.zmd.zones z).refcount = 0 →
      (¬ s.ctxs.Any fun x => ∃ pc, x.putAt = some (z, pc)) → (s.zmd.zones z).state = .empty) := by
  have w := waits_run h0 hrun z
  refine ⟨fun hf hb hp hwk => ?_, fun hg hr hp => ?_⟩
  · refine (w.toFull hf).resolve_right fun h => h.elim hwk fun ⟨a, x, hx, pc, h, _⟩ => ?_
    cases x with
    | pend i z' | clear i z' | setToFull i z' | fullPut i z' pc' | clearSlot i z' | writing z' =>
      cases h
      exact hb ⟨a, _, hx, rfl⟩
    | put z' by_ pc' =>
      cases by_ with
      | write =>
        cases h
        exact hp ⟨a, _, hx, pc, rfl⟩
      | _ => cases h
    | _ => cases h
  · refine (w.gc hg).resolve_right fun h => h.elim (fun h => h hr) fun ⟨a, x, hx, h⟩ => ?_
    exact hp ⟨a, x, hx, h.elim (fun h => ⟨_, h⟩) fun h => ⟨_, h⟩⟩

end

/-- Two zones of one block each. Both are written, and the first one has been collected. -/
def waitEvents : List ZoneEvent :=
  .callAlloc .gc 0 :: List.replicate 24 (.run 0) ++ .wkStart :: List.replicate 4 .wkRun ++
    .release 0 :: .callVictim .emergency :: List.replicate 9 (.run 1) ++
    .callAlloc .gc 0 :: List.replicate 24 (.run 2)

theorem no_lost_transition_pair : ∃ c m s,
    initZones c emptyZmd 0 (emptyReport 2 8 8) = some m ∧
    Runs (stepRel (ZoneSys.step c)) (fun _ _ => True) (ZoneSys.start m) s ∧
    ((s.zmd.zones 0).flags .gc = true ∧ (s.zmd.zones 0).state = .empty) ∧
    (s.zmd.zones 1).flags .toFull = true ∧ (s.zmd.zones 1).state = .full := by
  let c : Conf := confOf ⟨false, false, false, 8, 2⟩ (emptyReport 2 8 8)
  let m : Zmd := (initZones c emptyZmd 0 (emptyReport 2 8 8)).get (by decide +kernel)
  have h0 : initZones c emptyZmd 0 (emptyReport 2 8 8) = some m := (Option.some_get _).symm
  obtain ⟨s, hrun, h⟩ := exists_run (ZoneSys.step c) (fun _ _ => True)
    (fun s : ZoneSys => decide (s.ctxs = ⟨[some .done, some .done, some .done]⟩ ∧
      s.wk = .visit 1 true ∧ ((s.zmd.zones 0).flags .gc = true ∧ (s.zmd.zones 0).refcount = 0) ∧
      (s.zmd.zones 1).flags .toFull = true)) (ZoneSys.start m) waitEvents (by decide +kernel)
  obtain ⟨hctx, hwk, ⟨hg, hr⟩, hf⟩ := of_decide_eq_true h
  have hdone : ∀ {P : ZoneCtx → Prop}, ¬ P .done → ¬ s.ctxs.Any P := by
    rintro P hP ⟨a, x, hx, hp⟩
    rw [hctx] at hx
    rcases a with _ | _ | _ | a <;> cases hx <;> exact hP hp
  exact ⟨c, m, s, h0, hrun, ⟨hg, (no_lost_transition h0 hrun 0).2 hg hr (hdone nofun)⟩, hf,
    (no_lost_transition h0 hrun 1).1 hf (hdone nofun) (hdone nofun) (by rw [hwk]; nofun)⟩

end Lbz
