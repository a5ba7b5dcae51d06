import Lbz.Allocable
import Lbz.Budget

/-!
# The reserve of garbage collection is enough

* `RoomStep c k l k'`: what a move does to `nr_allocable_blks`, to the victim and to a zone
  between its reset and `empty_zone_list`;
* `ReserveInv c k`: what the victim needs is there, and fewer than `reserved_blks_gc` blocks;
  without a victim one less than that is there, with the zone that is about to be given back;
  **`ReserveInv.move`**: every move keeps it, if no victim is chosen before the last one is given
  back;
* **`gc_has_space`**: then `__submit_gc_task` never runs out of blocks;
* `gc_out_of_space`: else it can.
-/

namespace Lbz

variable {α : Type} {c : Conf}

/-- The blocks of the zone that has been reset and is not in `empty_zone_list` yet. -/
def WkPc.returns (c : Conf) : WkPc → ℤ
  | .publish _ => c.zoneNrBlocks
  | _ => 0

theorem WkPc.returns_nonneg (wk : WkPc) : 0 ≤ wk.returns c := by
  unfold WkPc.returns
  split
  · exact Int.natCast_nonneg _
  · exact le_rfl

section

variable [Inhabited α] {k k' : Core α} {l : Label}

inductive RoomStep (c : Conf) (k : Core α) (l : Label) (k' : Core α) : Prop
  | same (hn : k'.zmd.nrAllocableBlks = k.zmd.nrAllocableBlks)
      (hg : ∀ z, (k'.zmd.zones z).flags .gc = (k.zmd.zones z).flags .gc)
      (hw : k'.wk.returns c = k.wk.returns c)
  | take (t : ℕ) (x : Task α) (hx : k.tasks.get t = some x) (hst : x.status = .allocRes)
      (hres : x.flag = .user → c.reservedBlksGc ≤ u32 k.zmd.nrAllocableBlks)
      (hn : k'.zmd.nrAllocableBlks = k.zmd.nrAllocableBlks - 1)
      (hg : ∀ z, (k'.zmd.zones z).flags .gc = (k.zmd.zones z).flags .gc)
      (hw : k'.wk = k.wk) (hh : k'.hist = .alloc t x.flag :: k.hist)
  | select (hl : l = .select)
  | reset (i : ℕ) (hwk : k.wk = .reset i) (hwk' : k'.wk = .publish i)
      (hn : k'.zmd.nrAllocableBlks = k.zmd.nrAllocableBlks)
      (hg : ∀ z, (k'.zmd.zones z).flags .gc = true → z ≠ i ∧ (k.zmd.zones z).flags .gc = true)
  | publish (i : ℕ) (hwk : k.wk = .publish i) (hw : k'.wk.returns c = 0)
      (hn : k'.zmd.nrAllocableBlks = k.zmd.nrAllocableBlks + c.zoneNrBlocks)
      (hg : ∀ z, (k'.zmd.zones z).flags .gc = (k.zmd.zones z).flags .gc)

theorem Move.roomStep (B : Base c k) (hf : l ≠ .fault) (hm : Move c k l k') : RoomStep c k l k' := by
  obtain ⟨pl, P⟩ := B.places
  have same : SamePlaces k.zmd k'.zmd → k'.wk.returns c = k.wk.returns c → RoomStep c k l k' :=
    fun h hw => .same h.allocable h.gc hw
  cases hm with
  | dispatchFail | fallbackFail | allocFail | devFail | writeFail | serveFail | gcServeFail
  | gcReadFail | gcWriteFail | release | wkFail => exact absurd rfl hf
  | @openZone i z l ha he =>
    refine .same rfl (fun z' => ?_) rfl
    change ((Lbz.openZone { k.zmd with
      emptyZoneList := l, emptyZoneCount := k.zmd.emptyZoneCount - 1 } i z).zones z').flags .gc = _
    rw [openZone_zones]
    split_ifs
    · exact Zone.setZoneState_of_ne (show ZoneState.gc ≠ .active by rintro ⟨⟩) (k.zmd.zones z')
    · rfl
  | @dispatch t z i x log hx hst hpc ha hres =>
    refine .take t x hx hst (fun h => ?_) ?_ (fun z' => takeBlock_gc c k.zmd i z z') rfl rfl
    · unfold Task.flag at h
      split_ifs at h with h'
      exact hres h'.1 h'.2
    · change (takeBlock c k.zmd i z).1.nrAllocableBlks = _
      rw [Lbz.takeBlock]
      split_ifs <;> rfl
  | @apply t z p x =>
    exact same ((SamePlaces.invalidateOld c k.zmd (k.mapping x.blkid)).trans
      (.updateReverseMap c _ z p (some x.blkid))) rfl
  | complete | gcWritten => exact same (.completeWrite _ _) rfl
  | putZone => exact same (.putZone _ _) rfl
  | readHit | scanBlock | peek => exact same (.getZone _ _) rfl
  | select => exact .select rfl
  | scanEnd => exact same (.modZone _ _ fun x => ⟨rfl, rfl, rfl, rfl⟩) rfl
  | @remap g z v p x hx hty hpc hl hz hv hm =>
    refine same ?_ rfl
    change SamePlaces k.zmd (if _ then _ else _)
    split_ifs
    · exact .updateReverseMap c _ _ _ _
    · exact (SamePlaces.updateReverseMap c _ _ _ _).trans (.invalidate c _ _ _)
  | @discard b p hb => exact same (.invalidateOld c k.zmd (some p)) rfl
  | @wkFull i b hwk =>
    exact same (.modZone _ i (f := fun x => { x with state := .closed })
      fun x => ⟨rfl, rfl, rfl, rfl⟩) (by rw [hwk]; rfl)
  | @wkClose i hwk =>
    refine .same rfl (fun z => ?_) (by rw [hwk]; rfl)
    change ((k.zmd.modZone i fun x => { x with flags := oneFlag .full }).zones z).flags .gc = _
    rw [Zmd.modZone_zones]
    split_ifs with e
    · rw [P.not_gc (by rw [e, P.closing i hwk]; rintro ⟨⟩)]
      rfl
    · rfl
  | wkLink hwk => exact .same rfl (fun _ => rfl) (by rw [hwk]; rfl)
  | @wkReset i hwk =>
    refine .reset i hwk rfl rfl fun z hz => ?_
    change ((k.zmd.modZone i Zone.reset).zones z).flags .gc = true at hz
    rw [Zmd.modZone_zones] at hz
    split_ifs at hz with e
    · cases hz
    · exact ⟨e, hz⟩
  | @wkPublish i hwk => exact .publish i hwk rfl rfl fun _ => rfl
  | wkStart hwk | wkIdle hwk | wkSticky hwk | wkFree hwk | wkEmpty hwk | wkCarried hwk =>
    exact .same rfl (fun _ => rfl) (by rw [hwk]; rfl)
  | wkNext hwk =>
    exact .same rfl (fun _ => rfl) (by rcases hwk with hwk | hwk <;> rw [hwk] <;> rfl)
  | _ => exact .same rfl (fun _ => rfl) rfl

/-! ## Gc tasks that try the other stream -/

/-- The stream that a gc task has tried has no zone, and there is none to open. -/
def TriedIn (m : Zmd) (h : Heap (Task α)) : Prop := h.All fun _ x => x.type = .gc →
  ∀ i, x.pc = .fallback i → m.activeZone i = none ∧ m.emptyZoneList = []

def Tried (k : Core α) : Prop := TriedIn k.zmd k.tasks

namespace TriedIn

variable {m m' : Zmd} {h : Heap (Task α)} {t : ℕ} {f : Task α → Task α}

omit [Inhabited α]

theorem same (a : TriedIn m h) (hs : SamePlaces m m') : TriedIn m' h := by
  unfold TriedIn
  rw [hs.active, hs.emptyList]
  exact a

theorem keep (a : TriedIn m h) (hf : ∀ x, (f x).type = x.type ∧ (f x).pc = x.pc) :
    TriedIn m (h.modify t f) :=
  Heap.All.modify a fun x _ hx hty i hpc => hx ((hf x).1 ▸ hty) i ((hf x).2 ▸ hpc)

theorem goes (a : TriedIn m h) (hf : ∀ x i, (f x).pc ≠ .fallback i) : TriedIn m (h.modify t f) :=
  Heap.All.modify a fun x _ _ _ i hpc => absurd hpc (hf x i)

/-- A slot is given up at most. -/
theorem takeBlock (a : TriedIn m h) (j : Fin 2) (z : ℕ) : TriedIn (takeBlock c m j z).1 h := by
  intro t x hx hty i hpc
  obtain ⟨h1, h2⟩ := a t x hx hty i hpc
  rw [Lbz.takeBlock]
  split_ifs
  · refine ⟨?_, h2⟩
    change Function.update m.activeZone j none i = none
    rw [Function.update_apply]
    split_ifs
    · rfl
    · exact h1
  · exact ⟨h1, h2⟩

end TriedIn

theorem Tried.move (a : Tried k) (hf : l ≠ .fault)
    (hpub : ∀ t x i, k.tasks.get t = some x → x.type = .gc → x.pc = .fallback i →
      ∀ j, k.wk ≠ .publish j) (hm : Move c k l k') : Tried k' := by
  cases hm with
  | dispatchFail | fallbackFail | allocFail | devFail | writeFail | serveFail | gcServeFail
  | gcReadFail | gcWriteFail | release | wkFail => exact absurd rfl hf
  | submitWrite => exact Heap.All.alloc a (by rintro - i ⟨⟩)
  | scanBlock => exact Heap.All.alloc a (by rintro - i ⟨⟩)
  | openZone ha he =>
    intro t x hx hty i hpc
    have := (a t x hx hty i hpc).2
    rw [he] at this
    cases this
  | dispatch => exact (TriedIn.takeBlock a _ _).goes (by rintro x i ⟨⟩)
  | @fallback t i x hx hst hpc hfull =>
    refine Heap.All.modify_at a hx fun _ hty j hj => ?_
    cases hj
    exact hfull hty
  | wkPublish hwk =>
    intro t x hx hty i hpc
    exact absurd hwk (hpub t x i hx hty hpc _)
  | conflict | gcFind =>
    refine TriedIn.goes (TriedIn.keep (f := Task.incRef) a fun _ => ⟨rfl, rfl⟩) ?_
    rintro x i ⟨⟩
  | gcFound =>
    refine (TriedIn.goes a ?_).keep fun _ => ⟨rfl, rfl⟩
    rintro x i ⟨⟩
  | insert | dropRef => exact TriedIn.keep a fun _ => ⟨rfl, rfl⟩
  | pend | append | untree | nextUser | nextGc | gcServe | gcReadEnd | gcInsert | gcSkip | gcPass
  | gcWritten | skipEnd => exact TriedIn.goes a (by rintro x i ⟨⟩)
  | @apply t z p x =>
    refine (TriedIn.same a ?_).goes (by rintro x i ⟨⟩)
    exact (SamePlaces.invalidateOld c k.zmd (k.mapping x.blkid)).trans
      (.updateReverseMap c _ z p (some x.blkid))
  | @remap g z v p x hx hty hpc hl hz hv hm =>
    refine (TriedIn.same a ?_).goes (by rintro x i ⟨⟩)
    split_ifs
    · exact .updateReverseMap c _ _ _ _
    · exact (SamePlaces.updateReverseMap c _ _ _ _).trans (.invalidate c _ _ _)
  | destroy => exact Heap.All.free a _
  | destroyCall => exact Heap.All.free (Heap.All.free a _) _
  | @discard b p hb => exact TriedIn.same a (.invalidateOld c k.zmd (some p))
  | _ => exact a

/-! ## The invariant -/

structure ReserveInv (c : Conf) (k : Core α) : Prop where
  roomy : Roomy c k
  tried : Tried k
  idle : (∀ z, (k.zmd.zones z).flags .gc = false) →
    c.zoneNrBlocks - 1 ≤ k.zmd.nrAllocableBlks + k.wk.returns c
  busy : ∀ z, (k.zmd.zones z).flags .gc = true → need c k ≤ k.zmd.nrAllocableBlks ∧
    need c k ≤ c.zoneNrBlocks - 1 ∧ ∀ i, k.wk ≠ .publish i

omit [Inhabited α] in
theorem WkPc.returns_of_ne {wk : WkPc} (h : ∀ i, wk ≠ .publish i) : wk.returns c = 0 := by
  cases wk with
  | publish i => exact absurd rfl (h i)
  | _ => rfl

omit [Inhabited α] in
theorem u32_le {x : ℤ} (h : 0 ≤ x) : (u32 x : ℤ) ≤ x := by
  unfold u32
  omega

theorem ReserveInv.move (geo : Geom c) (B : Base c k) (V : VictimInv c 0 k) (a : ReserveInv c k)
    (hf : l ≠ .fault) (hst : l ≠ .stale) (hpub : l = .select → ∀ i, k.wk ≠ .publish i)
    (hm : Move c k l k') : ReserveInv c k' := by
  have R' := a.roomy.move B.places hm
  have hnr : 0 ≤ k.zmd.nrAllocableBlks := by
    obtain ⟨pl, P⟩ := B.places
    have h : k.zmd.nrAllocableBlks = room c k.zmd := a.roomy
    rw [h]
    exact P.room_nonneg
  have hnr' : 0 ≤ k'.zmd.nrAllocableBlks := by
    obtain ⟨pl, P⟩ := (B.move geo.pos hm).places
    have h : k'.zmd.nrAllocableBlks = room c k'.zmd := R'
    rw [h]
    exact P.room_nonneg
  have T' : Tried k' := a.tried.move hf (fun t x i hx hty hpc j => by
    obtain ⟨v, -, -, hg⟩ := Task.Moving.evacuates V hx ⟨hty, by rw [hpc]; rintro ⟨⟩⟩
    exact (a.busy v hg).2.2 j) hm
  have hidle : (∀ z, (k.zmd.zones z).flags .gc = false) → need c k = 0 := V.need_idle B
  by_cases hsel : l = .select
  · subst hsel
    have hwk := hpub rfl
    cases hm with
    | @select z mod hpc hbusy hz =>
      have hno := not_gc_of_not_busy B hbusy
      obtain ⟨h1, h2⟩ := V.need_select { k with
        zmd := takeVictim k.zmd z
        gcZone := some z
        gcPc := .scan z 0 ((k.zmd.zones z).zrms 0)
        hist := .select z (k.zmd.zones z).weight :: k.hist } B hbusy hz rfl rfl rfl
      have h3 := a.idle hno
      rw [WkPc.returns_of_ne hwk] at h3
      refine ⟨R', T', fun hg => ?_, fun z' hg => ⟨?_, ?_, hwk⟩⟩
      · have := hg z
        change ((takeVictim k.zmd z).zones z).flags .gc = false at this
        rw [takeVictim_zones, if_pos rfl] at this
        cases this
      · change _ ≤ k.zmd.nrAllocableBlks
        omega
      · omega
  · have hneed := V.need geo B hf hsel hst hm
    have hgc : gcAllocs k.hist ≤ gcAllocs k'.hist := hm.hist_suffix.sublist.countP_le
    have hpos := need_nonneg (c := c) k'
    cases hm.roomStep B hf with
    | same hn hg hw =>
      refine ⟨R', T', fun h => ?_, fun z h => ?_⟩
      · rw [hn, hw]
        exact a.idle fun z => (hg z).symm.trans (h z)
      · obtain ⟨h1, h2, h3⟩ := a.busy z ((hg z).symm.trans h)
        refine ⟨by omega, by omega, fun i hi => ?_⟩
        rw [hi, WkPc.returns_of_ne h3] at hw
        have : (c.zoneNrBlocks : ℤ) = 0 := hw
        have := geo.pos
        omega
    | take t x hx hst' hres hn hg hw hh =>
      have hcount : gcAllocs k'.hist = gcAllocs k.hist + if x.flag = .gc then 1 else 0 := by
        rw [hh, gcAllocs, List.countP_cons, ← gcAllocs]
        cases x.flag <;> simp [Obs.isGcAlloc]
      have huser : x.flag ≠ .gc → c.zoneNrBlocks ≤ k.zmd.nrAllocableBlks := fun h => by
        have h1 := hres (by cases h' : x.flag <;> simp_all)
        have h2 := u32_le hnr
        unfold Conf.reservedBlksGc at h1
        omega
      refine ⟨R', T', fun h => ?_, fun z h => ?_⟩
      · have h0 := hidle fun z => (hg z).symm.trans (h z)
        have := WkPc.returns_nonneg (c := c) k.wk
        rw [hn, hw]
        by_cases hfl : x.flag = .gc
        · rw [if_pos hfl] at hcount
          omega
        · have := huser hfl
          omega
      · obtain ⟨h1, h2, h3⟩ := a.busy z ((hg z).symm.trans h)
        rw [hw]
        by_cases hfl : x.flag = .gc
        · rw [if_pos hfl] at hcount
          exact ⟨by omega, by omega, h3⟩
        · have := huser hfl
          exact ⟨by omega, by omega, h3⟩
    | select h => exact absurd h hsel
    | reset i hwk hwk' hn hg =>
      have hi := (V.guard.reset i hwk).1
      refine ⟨R', T', fun h => ?_, fun z h => ?_⟩
      · rw [hwk']
        change _ ≤ _ + (c.zoneNrBlocks : ℤ)
        omega
      · exact absurd (B.gc_unique (hg z h).2 hi) (hg z h).1
    | publish i hwk hw hn hg =>
      refine ⟨R', T', fun h => ?_, fun z h => ?_⟩
      · have := a.idle fun z => (hg z).symm.trans (h z)
        rw [hwk] at this
        change _ ≤ _ + (c.zoneNrBlocks : ℤ) at this
        rw [hw, hn]
        omega
      · exact absurd hwk ((a.busy z ((hg z).symm.trans h)).2.2 i)

/-! ## Steps -/

variable {s s' : Sys α} {o : Options} {report : List BlkZone} {s₀ : Sys α}

omit [Inhabited α] in
/-- An allocation of a gc task that finds a block or tries the other stream. -/
theorem allocGc_spares (hss : c.streamSupport = true) (hf : s.faulty = false) (g : ℕ) (x : Task α)
    (i : Fin 2) (sid : Option (Fin 2)) (integ : Bool)
    (hok : sid = none → ∃ z, (zoneAllocRes c false s.zmd .gc i).2 = .ok z) :
    Leaves (· = .gcNoSpace) s (allocGc c s g x i sid integ) := by
  have hl := Leaves.of_still (Still.allocBlock (c := c) (s := s) (P := (· = .gcNoSpace))
    (fun _ => hss) .gc i)
  have hret := allocBlock_snd (c := c) (s := s) .gc i
  unfold allocGc
  rw [hf] at hret
  generalize allocBlock c s .gc i = r at hl hret ⊢
  obtain ⟨s₁, ret⟩ := r
  rw [← hret] at hok
  have hno : (∀ z, ret ≠ .ok z) → Leaves (· = .gcNoSpace) s (gcNoBlock s₁ g sid ret) := fun h => by
    refine hl.trans (.ite .refl ?_)
    cases sid with
    | some j => exact .modTask ..
    | none =>
      obtain ⟨z, hz⟩ := hok rfl
      exact absurd hz (h z)
  cases ret with
  | ok z =>
    have hlog : Leaves (· = .gcNoSpace) s (s₁.log (.alloc g .gc)) := hl.trans (.log _)
    cases integ with
    | true => exact hlog.trans (.issueAppend ..)
    | false => exact (Leaves.halt (by rintro ⟨⟩)).after (hlog.trans ⟨List.prefix_rfl, fun _ => rfl,
        fun _ _ h => h⟩)
  | eio | reserved | noZone => exact hno (by rintro z ⟨⟩)

omit [Inhabited α] in
/-- The other stream has a block for a gc task that has tried one. -/
theorem ReserveInv.fallback (geo : Geom c) (B : Base c s.core) (V : VictimInv c 0 s.core)
    (a : ReserveInv c s.core) {g : ℕ} {x : Task α} {j : Fin 2} (hx : s.tasks.get g = some x)
    (hty : x.type = .gc) (hpc : x.pc = .fallback j) :
    ∃ z, (zoneAllocRes c false s.zmd .gc (1 - j)).2 = .ok z := by
  obtain ⟨ha, he⟩ := a.tried g x hx hty j hpc
  obtain ⟨v, -, -, hg⟩ := Task.Moving.evacuates V hx ⟨hty, by rw [hpc]; rintro ⟨⟩⟩
  -- the task owes a block, so there is one left
  have howe : x.owing = 1 := by
    obtain ⟨⟨v, hp⟩, hl⟩ := (B.tasks.shape g x hx).gc hty
    refine if_pos ⟨hl, ?_, by rw [hpc]; rfl⟩
    cases hp <;> simp_all [TaskStatus.hasBlock]
  have hone : 1 ≤ need c s.core := by
    have h := Heap.le_sum (w := Task.owing) (fun x => x.owing_nonneg) hx
    have h' : (0 : ℤ) ≤ live c.zoneNrBlocks (s.core.gcPc.ahead s.zmd) := Int.natCast_nonneg _
    change 1 ≤ (live c.zoneNrBlocks (s.core.gcPc.ahead s.zmd) : ℤ) + s.tasks.sum Task.owing
    omega
  have hroom : 0 < room c s.zmd := by
    have h1 : need c s.core ≤ s.zmd.nrAllocableBlks := (a.busy v hg).1
    have h2 : s.zmd.nrAllocableBlks = room c s.zmd := a.roomy
    omega
  obtain ⟨pl, P⟩ := B.places
  rcases P.alloc_gc (1 - j) with ⟨h, -⟩ | ⟨-, ha', -⟩
  · exact h
  · -- neither stream has a zone, and none is empty
    rcases (P.room_pos_iff geo.pos).mp hroom with h | ⟨i, hi⟩
    · exact absurd he h
    · have hij : ∀ i j : Fin 2, i = j ∨ i = 1 - j := by decide
      rcases hij i j with rfl | rfl
      · exact absurd ha hi
      · exact absurd ha' hi

theorem ReserveInv.step (geo : Geom c) (B : Base c s.core) (V : VictimInv c 0 s.core)
    (a : ReserveInv c s.core) (hfb : hasFallback c = true) (hf : s.faulty = false) {e : Event α}
    (hs : Lbz.step c s e = some s') : s'.bug ≠ some .gcNoSpace := by
  have hss : c.streamSupport = true := by
    unfold hasFallback at hfb
    exact (Bool.and_eq_true_iff.mp hfb).2
  rw [Lbz.step] at hs
  split_ifs at hs with h
  obtain ⟨hbug, hready⟩ := h
  cases hs
  have hP : Watched (· = .gcNoSpace) := ⟨by rintro ⟨⟩, by rintro ⟨⟩, by rintro ⟨⟩⟩
  have key : ∀ {s' : Sys α}, Leaves (· = .gcNoSpace) s s' → s'.bug ≠ some .gcNoSpace := fun hl h => by
    have := hl.bug _ rfl h
    rw [hbug] at this
    cases this
  by_cases hrun : ∃ g integ, e = .runGc g integ
  · obtain ⟨g, integ, rfl⟩ := hrun
    obtain ⟨x, hx, hty, -⟩ := hready
    simp only [after, onTask, hx]
    unfold submitGcTask
    split
    · exact key (.of_eq rfl rfl rfl)
    · exact key (.of_still (.gcCheck hP ..))
    · next j hpc => exact key (allocGc_spares hss hf g x (1 - j) none integ
        fun _ => a.fallback geo B V hx hty hpc)
    · refine key (.ite (.of_still (.insertGc ..)) (allocGc_spares hss hf g x _ _ integ fun h => ?_))
      rw [if_pos hfb] at h
      cases h
  · by_cases he : e = .retryWk ∧ s.retry = .idle
    · obtain ⟨rfl, h1⟩ := he
      simp only [after, retryWkFn, h1]
      split_ifs <;> rw [hbug] <;> rintro ⟨⟩
    · exact key (after_leaves hP (fun _ => hss) (by rintro ⟨⟩) (by rintro ⟨⟩)
        (fun g integ h => hrun ⟨g, integ, h⟩) fun h1 h2 => absurd ⟨h1, h2⟩ he)

end

/-! ## Runs -/

/-- The zone that has been reset is still to go to `empty_zone_list`. -/
def WkPc.publishes : WkPc → Bool
  | .publish _ => true
  | _ => false

/-- A victim is chosen only when the one before has been given back. -/
def Event.InTurn (s : Sys α) : Event α → Prop
  | .gcSelect _ => s.wk.publishes = false
  | _ => True

instance (s : Sys α) (e : Event α) : Decidable (e.InTurn s) := by
  rcases e with _ | _ <;> dsimp only [Event.InTurn] <;> infer_instance

variable [Inhabited α] {o : Options} {report : List BlkZone} {s₀ s : Sys α}

omit [Inhabited α] in
theorem reserve_start (he : EmptyReport o report) (h0 : initSys o report = some s₀) :
    ReserveInv (confOf o report) s₀.core := by
  obtain ⟨m, hb, rfl⟩ := blank_initSys he h0
  have hflags : ∀ z, (m.zones z).flags .gc = false := fun z => by
    rw [hb.zones]
    split_ifs <;> rfl
  refine ⟨?_, Heap.All.empty, fun _ => ?_, fun z h => ?_⟩
  · change m.nrAllocableBlks = room _ m
    rw [room, Finset.sum_eq_zero fun i _ => slotRoom_none (hb.active i), hb.allocable, hb.emptyList,
      List.length_range]
    ring
  · change ((confOf o report).zoneNrBlocks : ℤ) - 1 ≤ m.nrAllocableBlks + 0
    have hpos : 0 < (confOf o report).nrZones := Nat.pos_of_ne_zero fun h => by
      obtain ⟨hr, -⟩ := initSys_eq h0
      exact absurd (List.length_eq_zero_iff.mp h) hr
    have hle := Nat.le_mul_of_pos_left (confOf o report).zoneNrBlocks hpos
    rw [hb.allocable, ← Nat.cast_mul]
    omega
  · cases (hflags z).symm.trans h

/-- **Garbage collection does not run out of blocks** if a write and a gc task can fall back to the
other stream, and no victim is chosen before the last one is back in `empty_zone_list`:
`reserved_blks_gc`, one zone, is enough. -/
theorem gc_has_space (he : EmptyReport o report) (hfb : hasFallback (confOf o report) = true)
    (h0 : initSys o report = some s₀)
    (hrun : Runs (stepRel (step (confOf o report)))
      (fun s e => e.NoError ∧ e.NoCarry s ∧ e.InTurn s) s₀ s) :
    s.bug ≠ some .gcNoSpace := by
  have geo := geom_of_empty he (initSys_eq h0).1
  have hsound : ∀ s, Runs (stepRel (step (confOf o report)))
      (fun s e => e.NoError ∧ e.NoCarry s ∧ e.InTurn s) s₀ s →
      Sound (confOf o report) (fun k => VictimInv (confOf o report) 0 k ∧
        ReserveInv (confOf o report) k) s := fun s hrun => by
    refine Sound.run (fun s e => e.NoCarry s ∧ e.InTurn s)
      (fun k l => l ≠ .stale ∧ (l = .select → ∀ i, k.wk ≠ .publish i)) geo.pos
      (fun k l k' B a hf hl hm => ⟨a.1.move geo B hf hm hl.1, a.2.move geo B a.1 hf hl.1 hl.2 hm⟩)
      (fun s e k l k' ho ha hm => ⟨not_stale ho.1 ha hm, ?_⟩) hrun
      (sound_of_empty he h0 ⟨victim_start he h0, reserve_start he h0⟩)
    rintro rfl i hwk
    obtain ⟨rfl, b, rfl⟩ := ha
    have h : s.wk.publishes = false := ho.2
    rw [show s.wk = .publish i from hwk] at h
    cases h
  cases hrun with
  | refl =>
    obtain ⟨-, m, -, rfl⟩ := initSys_eq h0
    rintro ⟨⟩
  | tail hrun hs =>
    obtain ⟨e, he', hs⟩ := hs
    have S := hsound _ hrun
    obtain ⟨B, -, V, R⟩ := S.base (bug_of_step hs)
    exact R.step geo B V hfb S.1 hs

/-! ## Two runs -/

/-- Zones of two blocks, and two streams. -/
def streamOptions : Options := ⟨true, false, true, 16, 4096⟩

def streamConf : Conf := confOf streamOptions (emptyReport 4 16 16)

def streamStart : Sys ℕ := (initSys streamOptions (emptyReport 4 16 16)).get (by decide +kernel)

theorem streamOptions_empty : EmptyReport streamOptions (emptyReport 4 16 16) :=
  emptyReport_ok streamOptions 4 16 (by decide) (by decide) (by decide)

/-- Zones 0 and 1 have one valid block each, zone 2 has two, and stream 1 has the last block of zone
3, which is too little for the write 7. -/
def streamWrites : List (Event ℕ) :=
  List.flatten [[.addRule ⟨512, 1024, 2048, 1024⟩], soleWrite 0 0 0 7, settleWrite 0,
    soleWrite 1 1 1 7, settleWrite 0, soleWrite 2 0 0 8, settleWrite 1, soleWrite 3 2 1 7,
    settleWrite 1, soleWrite 4 2 0 8, settleWrite 2, soleWrite 5 4 1 7, settleWrite 2,
    soleWrite 6 3200 0 7, settleWrite 3, [.submitWrite 6 7 false, .runWrite 7 true,
      .runWrite 7 true, .runWrite 7 true, .wkStart], List.replicate 11 (.wkStep true)]

/-- The zone with the valid block that task `g` has to move becomes the victim. -/
def victimScan (g : ℕ) : List (Event ℕ) :=
  [.gcSelect false, .gcScan, .gcScan, .gcScan, .gcDevRead g true, .gcReadEnd g, .retryWk, .retryWk,
    .runWrite 7 true, .runWrite 7 true, .retryWk, .retryWk, .runGc g true, .runGc g true,
    .runGc g true]

/-- The gc task 8 finds no block in stream 0, and takes the last one, of stream 1. -/
theorem gc_has_space_last : ∃ s : Sys ℕ, .alloc 8 .gc ∈ s.hist ∧ s.zmd.nrAllocableBlks = 0 ∧
    s.bug ≠ some .gcNoSpace := by
  obtain ⟨s, hrun, h⟩ := exists_run (step streamConf)
    (fun s e => e.NoError ∧ e.NoCarry s ∧ e.InTurn s)
    (fun s => decide (.alloc 8 .gc ∈ s.hist ∧ s.zmd.nrAllocableBlks = 0)) streamStart
    (streamWrites ++ victimScan 8 ++ [.runGc 8 true]) (by decide +kernel)
  obtain ⟨h1, h2⟩ := of_decide_eq_true h
  exact ⟨s, h1, h2, gc_has_space streamOptions_empty (by decide) (Option.some_get _).symm hrun⟩

/-- Zone 0 has been reset, and before `zone_state_wk_fn` adds its blocks to `nr_allocable_blks`,
zone 1 is chosen, for which there is no block left. -/
theorem gc_out_of_space : ¬ ∀ (o : Options) (report : List BlkZone) (s₀ s : Sys ℕ),
    EmptyReport o report → hasFallback (confOf o report) = true → initSys o report = some s₀ →
    Runs (stepRel (step (confOf o report))) (fun s e => e.NoError ∧ e.NoCarry s) s₀ s →
    s.bug ≠ some .gcNoSpace := by
  intro h
  obtain ⟨s, hrun, hb⟩ := exists_run (step streamConf) (fun s e => e.NoError ∧ e.NoCarry s)
    (fun s : Sys ℕ => decide (s.bug = some .gcNoSpace)) streamStart
    (streamWrites ++ victimScan 8 ++ [.runGc 8 true, .retryWk, .devAppend 8 1, .gcWriteEnd 8,
      .gcEnd 8, .putZone 0 .gc, .putZone 0 .gc, .putZone 0 .gc, .wkStart, .wkStep true, .wkStep true,
      .wkStep true] ++ victimScan 9 ++ [.runGc 9 true]) (by decide +kernel)
  exact h streamOptions (emptyReport 4 16 16) streamStart s streamOptions_empty (by decide)
    (Option.some_get _).symm hrun (of_decide_eq_true hb)

end Lbz
