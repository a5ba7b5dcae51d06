import Lbz.VictimMove

/-!
# The evacuation of a victim

* `CoverInv`: every valid entry of the victim is still ahead of the scan, or has a gc task that has
  not been called back; no block has two of them, and a gc task ends only when its block has left the
  position it was read from;
* `VictimInv c ph k`: this, with the invariants it rests on;
* **`VictimInv.move`**: every move but the stale ones and the errors keeps it;
* `VictimInv.evacuated`: what is reset holds no valid block.
-/

namespace Lbz

variable {α : Type} {c : Conf}

/-- The entry `b` at place `o` of zone `z` is still ahead of the scan. -/
def GcPc.Ahead (pc : GcPc) (z o b : ℕ) : Prop :=
  ∃ iter pos, pc = .scan z iter pos ∧ (iter < o ∨ iter = o ∧ pos = some b)

/-- A gc task that has not been called back. -/
def Task.Moving (x : Task α) : Prop := x.type = .gc ∧ x.pc ≠ .done

/-- The gc task `x` is to move block `b` away from place `o` of zone `z`. -/
def Task.Moves (c : Conf) (z o b : ℕ) (x : Task α) : Prop :=
  x.Evacuates z ∧ x.pbid = c.startBlk z + o ∧ x.blkid = b

structure CoverInv (c : Conf) (m : Zmd) (f : ℕ → Option ℕ) (h : Heap (Task α)) (pc : GcPc) :
    Prop where
  entries : ∀ z o b, (m.zones z).flags .gc = true → o < c.zoneNrBlocks →
    (m.zones z).zrms o = some b → pc.Ahead z o b ∨ ∃ g, h.At g (Task.Moves c z o b)
  known : h.All fun _ x => ∀ z o, x.Evacuates z → o < c.zoneNrBlocks →
    (m.zones z).zrms o = some x.blkid → x.pbid = c.startBlk z + o
  apart : h.Pairs fun x y => x.Moving → y.Moving → x.blkid ≠ y.blkid
  /-- the entry that the scan has fetched and not handled yet -/
  next : ∀ z iter b, pc = .scan z iter (some b) → iter < c.zoneNrBlocks →
    (∀ o < c.zoneNrBlocks, (m.zones z).zrms o = some b → o = iter) ∧
      h.All fun _ x => x.Moving → x.blkid ≠ b
  behind : ∀ z iter pos, pc = .scan z iter pos →
    h.All fun _ x => x.Moving → x.pbid < c.startBlk z + iter
  skipped : h.All fun _ x => x.pc = .skip → f x.blkid ≠ some x.pbid
  written : h.All fun _ x => x.pc = .ended → ∀ p, f x.blkid = some p →
    ∃ z, x.zone = some z ∧ c.Contains z p
  passed : ∀ g t x y, h.get g = some x → h.get t = some y →
    (x.pc = .found t ∨ x.pc = .waiting t) → y.pc = .done → f x.blkid ≠ some x.pbid
  /-- a gc task that finds its block in the tree finds a user write without a partner -/
  found : ∀ g t x, h.get g = some x → x.pc = .found t →
    h.At t fun y => y.type ≠ .gc ∧ y.link = .null
  waiting : ∀ g t x, h.get g = some x → x.pc = .waiting t →
    h.At t fun y => y.type ≠ .gc ∧ y.link = .node g

/-- The victim and what it rests on. -/
structure VictimInv (c : Conf) (ph : ℕ → ℤ) (k : Core α) : Prop where
  counts : Counts k
  settle : Settle c k
  maps : Maps c ph k
  guard : Guard k
  cover : CoverInv c k.zmd k.mapping k.tasks k.gcPc

/-! ## What the invariant says -/

section

variable {k : Core α} {ph : ℕ → ℤ} {z b p : ℕ} {t g : ℕ} {x y : Task α}

theorem Task.Moving.evacuates (V : VictimInv c ph k) (hx : k.tasks.get t = some x)
    (hm : x.Moving) : ∃ v, x.Evacuates v ∧ c.Contains v x.pbid ∧
      (k.zmd.zones v).flags .gc = true := by
  obtain ⟨v, hv, hc⟩ := V.maps.inv.gc t x hx hm.1
  exact ⟨v, ⟨hm.1, hv, hm.2⟩, hc, V.guard.victim t x hx v ⟨hm.1, hv, hm.2⟩⟩

/-- Only one zone is under garbage collection. -/
theorem Base.gc_unique (B : Base c k) {v : ℕ} (hz : (k.zmd.zones z).flags .gc = true)
    (hv : (k.zmd.zones v).flags .gc = true) : z = v := by
  obtain ⟨pl, P⟩ := B.places
  exact Option.some.inj ((P.victim z ((P.gc z).mp hz)).symm.trans (P.victim v ((P.gc v).mp hv)))

theorem Base.gc_lt (B : Base c k) (hz : (k.zmd.zones z).flags .gc = true) : z < c.nrZones := by
  obtain ⟨pl, P⟩ := B.places
  exact lt_of_place P (by rw [(P.gc z).mp hz]; nofun)

/-- The position of an entry is where its block is. -/
theorem Maps.entry (geo : Geom c) (M : Maps c ph k) {o : ℕ} (hz : z < c.nrZones)
    (ho : o < c.zoneNrBlocks) :
    (k.zmd.zones z).zrms o = some b ↔ k.mapping b = some (c.startBlk z + o) := by
  rw [M.inv.inverse b, reverseEntry_of geo (contains_add hz ho), geo.dis_add hz ho]

/-- The place of a mapped block in its zone. -/
theorem Maps.place (geo : Geom c) (M : Maps c ph k) (hb : k.mapping b = some p) :
    ∃ o < c.zoneNrBlocks, getZoneByPbid c p < c.nrZones ∧ p = c.startBlk (getZoneByPbid c p) + o ∧
      (k.zmd.zones (getZoneByPbid c p)).zrms o = some b := by
  have hr := (M.inv.inverse b p).mp hb
  have hc := contains_of_entry hr
  rw [reverseEntry_of geo hc] at hr
  refine ⟨_, geo.dis_lt hc, hc.1, ?_, hr⟩
  have := geo.dis_eq hc
  have := hc.2.1
  omega

/-- A valid entry of the victim keeps the victim held. -/
theorem VictimInv.held (V : VictimInv c ph k) {o : ℕ} (hz : (k.zmd.zones z).flags .gc = true)
    (ho : o < c.zoneNrBlocks) (hb : (k.zmd.zones z).zrms o = some b) : ¬ Unheld k z := by
  intro hu
  rcases V.cover.entries z o b hz ho hb with ⟨iter, pos, hpc, -⟩ | ⟨g, x, hx, he, -⟩
  · exact hu.scan _ _ hpc
  · exact (hu.tasks g x hx).2 he

theorem VictimInv.mapped_held (geo : Geom c) (V : VictimInv c ph k) (hb : k.mapping b = some p)
    (hz : (k.zmd.zones (getZoneByPbid c p)).flags .gc = true) :
    (k.zmd.zones (getZoneByPbid c p)).refcount ≠ 0 := by
  obtain ⟨o, ho, -, -, he⟩ := V.maps.place geo hb
  exact V.counts.held (V.held hz ho he)

/-- What is written outside the victim is not what a gc task has read. -/
theorem VictimInv.fresh_pbid (geo : Geom c) (V : VictimInv c ph k) (hx : k.tasks.get t = some x)
    (hw : x.Writes z) (hc : c.Contains z p) (hy : k.tasks.get g = some y) (hm : y.Moving) :
    y.pbid ≠ p := by
  rintro rfl
  obtain ⟨v, -, hv, hg⟩ := hm.evacuates V hy
  rw [← geo.unique hc hv, V.guard.quiet t x hx z hw] at hg
  cases hg

/-- A task that has entered the mapping, and is still in the tree, keeps every gc task of its block
from being where it was read. -/
theorem VictimInv.left_of_ended (geo : Geom c) (B : Base c k) (V : VictimInv c ph k)
    (hx : k.tasks.get g = some x) (hmv : x.Moving) (hy : k.tasks.get t = some y)
    (hpc : y.pc = .ended) (hb : y.blkid = x.blkid) : k.mapping x.blkid ≠ some x.pbid := by
  intro hmap
  obtain ⟨z, hz, hc⟩ := V.cover.written t y hy hpc x.pbid (hb ▸ hmap)
  obtain ⟨-, hst, -⟩ := (B.tasks.shape t y hy).ended hpc
  refine V.fresh_pbid geo hy ⟨hz, ?_, by rw [hpc]; nofun⟩ hc hx hmv rfl
  rcases hst with h | h <;> rw [h] <;> rfl

/-- What the scan fetches next is for no gc task yet. -/
theorem VictimInv.fetched (geo : Geom c) (B : Base c k) (V : VictimInv c ph k) {iter : ℕ}
    {pos : Option ℕ} (hpc : k.gcPc = .scan z iter pos)
    (hi : iter + 1 < c.zoneNrBlocks) (hb : (k.zmd.zones z).zrms (iter + 1) = some b) :
    (∀ o < c.zoneNrBlocks, (k.zmd.zones z).zrms o = some b → o = iter + 1) ∧
      k.tasks.All fun _ x => x.Moving → x.blkid ≠ b := by
  have hz := (V.maps.scan _ _ _ hpc).1
  refine ⟨fun o ho ho' => ?_, fun t x hx hmv hxb => ?_⟩
  · have h1 := (V.maps.entry geo hz hi).mp hb
    have h2 := (V.maps.entry geo hz ho).mp ho'
    have := Option.some.inj (h2.symm.trans h1)
    omega
  · obtain ⟨v, he, -, hg⟩ := hmv.evacuates V hx
    cases B.gc_unique (V.guard.scan _ _ _ hpc) hg
    have h1 := V.cover.known t x hx z (iter + 1) he hi (hxb ▸ hb)
    have h2 := V.cover.behind _ _ _ hpc t x hx hmv
    omega

/-- A gc task at one of these places has not been called back. -/
theorem Base.moving (B : Base c k) (hx : k.tasks.get t = some x)
    (hpc : x.pc = .skip ∨ (∃ i, x.pc = .found i) ∨ ∃ i, x.pc = .waiting i) : x.Moving := by
  refine ⟨?_, ?_⟩
  · by_contra hty
    obtain ⟨hp, -⟩ := (B.tasks.shape t x hx).user hty
    rcases hpc with hpc | ⟨i, hpc⟩ | ⟨i, hpc⟩ <;> cases hp <;> simp_all
  · rcases hpc with h | ⟨i, h⟩ | ⟨i, h⟩ <;> rw [h] <;> nofun

end

/-! ## Every move -/

section

variable [Inhabited α] {k k' : Core α} {l : Label} {ph : ℕ → ℤ}

/-- The task `x` at `t` is entered into the mapping, at position `p`. -/
structure Enters (c : Conf) (k : Core α) (l : Label) (b p t z : ℕ) (x : Task α) : Prop where
  get : k.tasks.get t = some x
  blkid : x.blkid = b
  inTree : x.InTree
  ended : x.pc ≠ .ended
  writes : x.Writes z
  place : c.Contains z p
  label : l = .stored t ∨ l = .moved t

/-- A mapping is an old one, or comes from a task that holds the block. -/
theorem Move.mapping (B : Base c k) (M : Maps c ph k) (hf : l ≠ .fault) (hm : Move c k l k')
    {b p : ℕ} (hb : k'.mapping b = some p) :
    (k.mapping b = some p ∧ ∀ t x, (l = .stored t ∨ l = .moved t) → k.tasks.get t = some x →
      x.blkid ≠ b) ∨ ∃ t z x, Enters c k l b p t z x := by
  cases hm with
  | @apply t z p' x hx hty hpc hz =>
    have hb : Function.update k.mapping x.blkid (some p') b = some p := hb
    rw [Function.update_apply] at hb
    split_ifs at hb with e
    · cases hb
      obtain ⟨hst, -⟩ := (B.tasks.shape t x hx).written hpc
      obtain ⟨⟨z', hu, hc⟩, -⟩ := M.inv.appended t x hx p (by simp only [Task.appended, hpc])
      cases hu.1.symm.trans hz
      exact Or.inr ⟨t, z, x, hx, e.symm, by simp [Task.InTree, hty, hst, hpc], by rw [hpc]; rintro ⟨⟩,
        ⟨hz, by rw [hst]; rfl, by rw [hpc]; rintro ⟨⟩⟩, hc, Or.inl rfl⟩
    · refine Or.inl ⟨hb, fun t' x' ht hx' => ?_⟩
      rcases ht with ht | ht <;> cases ht
      cases hx.symm.trans hx'
      exact fun h => e h.symm
  | @remap g z v p' x hx hty hpc hl hz hv hm =>
    have hb : Function.update k.mapping x.blkid (some p') b = some p := hb
    rw [Function.update_apply] at hb
    split_ifs at hb with e
    · cases hb
      obtain ⟨-, hst, -⟩ := (B.tasks.shape g x hx).callback hpc
      obtain ⟨⟨z', hu, hc⟩, -⟩ := M.inv.appended g x hx p (by simp only [Task.appended, hpc])
      cases hu.1.symm.trans hz
      exact Or.inr ⟨g, z, x, hx, e.symm, by simp [Task.InTree, hty, hst, hpc], by rw [hpc]; rintro ⟨⟩,
        ⟨hz, by rw [hst]; rfl, by rw [hpc]; rintro ⟨⟩⟩, hc, Or.inr rfl⟩
    · refine Or.inl ⟨hb, fun t' x' ht hx' => ?_⟩
      rcases ht with ht | ht <;> cases ht
      cases hx.symm.trans hx'
      exact fun h => e h.symm
  | @discard b' p' hb' =>
    have hb : Function.update k.mapping b' none b = some p := hb
    rw [Function.update_apply] at hb
    split_ifs at hb
    exact Or.inl ⟨hb, fun t x h => by rcases h with h | h <;> cases h⟩
  | dispatchFail | fallbackFail | allocFail | devFail | writeFail | serveFail | gcServeFail
  | gcReadFail | gcWriteFail | release | wkFail => exact absurd rfl hf
  | _ => exact Or.inl ⟨hb, fun t x h => by rcases h with h | h <;> cases h⟩

/-- What the scan does in a move. -/
inductive ScanStep (c : Conf) (k k' : Core α) (l : Label) : Prop
  | same (h : k'.gcPc = k.gcPc)
  | select (h : l = .select)
  | free (z iter : ℕ) (hpc : k.gcPc = .scan z iter none)
      (hpc' : k'.gcPc = .scan z (iter + 1) ((k.zmd.zones z).zrms (iter + 1)))
  | block (z iter b : ℕ) (hpc : k.gcPc = .scan z iter (some b)) (hi : iter < (k.zmd.zones z).wpBlock)
      (hpc' : k'.gcPc = .scan z (iter + 1) ((k.zmd.zones z).zrms (iter + 1)))
      (ht : k'.tasks = k.tasks.alloc (Task.forGc z (c.startBlk z + iter) b))
  | last (z iter : ℕ) (pos : Option ℕ) (hpc : k.gcPc = .scan z iter pos)
      (hi : (k.zmd.zones z).wpBlock ≤ iter) (hpc' : k'.gcPc = .idle)

theorem Move.scanStep (hm : Move c k l k') : ScanStep c k k' l := by
  cases hm with
  | select => exact .select rfl
  | @scanFree z iter hpc => exact .free z iter hpc rfl
  | @scanBlock z iter b hpc hi => exact .block z iter b hpc hi rfl rfl
  | @scanEnd z iter pos hpc hi => exact .last z iter pos hpc hi rfl
  | _ => exact .same rfl

variable (geo : Geom c) (B : Base c k) (V : VictimInv c ph k) (hf : l ≠ .fault)
  (hsel : l ≠ .select) (hm : Move c k l k') (M' : Maps c ph k') (G' : Guard k')

include geo B V hf hsel hm

theorem VictimInv.step {z : ℕ} (hz : (k'.zmd.zones z).flags .gc = true) :
    VictimStep (k.zmd.zones z) (k'.zmd.zones z) :=
  hm.victim B V.counts V.settle V.guard (fun _ _ hb => V.mapped_held geo hb) hf hsel z hz

omit hsel

/-- A gc task whose block has left the position it was read from stays so. -/
theorem VictimInv.left {g : ℕ} {x : Task α} (hx : k.tasks.get g = some x) (hmv : x.Moving)
    (h : k.mapping x.blkid ≠ some x.pbid) : k'.mapping x.blkid ≠ some x.pbid := by
  intro hb
  rcases hm.mapping B V.maps hf hb with ⟨h1, -⟩ | ⟨t, z, w, e⟩
  · exact h h1
  · exact V.fresh_pbid geo e.get e.writes e.place hx hmv rfl

/-! The fields, in a move that chooses no victim. -/

include hsel M'

theorem VictimInv.entries' {z o b : ℕ} (hg : (k'.zmd.zones z).flags .gc = true)
    (ho : o < c.zoneNrBlocks) (hb : (k'.zmd.zones z).zrms o = some b) :
    k'.gcPc.Ahead z o b ∨ ∃ g, k'.tasks.At g (Task.Moves c z o b) := by
  have hv := V.step geo B hf hsel hm hg
  have hgk : (k.zmd.zones z).flags .gc = true := hv.gc ▸ hg
  have hbk := hv.zrms hb
  have hmap : k'.mapping b = some (c.startBlk z + o) := (M'.entry geo (B.gc_lt hgk) ho).mp hb
  have hmapk : k.mapping b = some (c.startBlk z + o) := (V.maps.entry geo (B.gc_lt hgk) ho).mp hbk
  rcases V.cover.entries z o b hgk ho hbk with ⟨iter, pos, hpc, ha⟩ | ⟨g, x, hx, he, hp, hxb⟩
  · cases hm.scanStep with
    | same h => exact Or.inl ⟨iter, pos, h.trans hpc, ha⟩
    | select h => exact absurd h hsel
    | free z' iter' hpc₁ hpc₂ =>
      cases hpc.symm.trans hpc₁
      refine Or.inl ⟨_, _, hpc₂, ?_⟩
      rcases ha with ha | ⟨-, ha⟩
      · by_cases e : iter + 1 = o
        · exact Or.inr ⟨e, e ▸ hbk⟩
        · exact Or.inl (by omega)
      · cases ha
    | block z' iter' b' hpc₁ hi hpc₂ ht =>
      cases hpc.symm.trans hpc₁
      rcases ha with ha | ⟨e, ha⟩
      · refine Or.inl ⟨_, _, hpc₂, ?_⟩
        by_cases e : iter + 1 = o
        · exact Or.inr ⟨e, e ▸ hbk⟩
        · exact Or.inl (by omega)
      · cases ha
        refine Or.inr ⟨k.tasks.next, Task.forGc z (c.startBlk z + iter) b, ?_, ⟨rfl, rfl, nofun⟩,
          by rw [← e]; rfl, rfl⟩
        rw [ht, Heap.get_alloc, if_pos rfl]
    | last z' iter' pos' hpc₁ hi hpc₂ =>
      cases hpc.symm.trans hpc₁
      have hwp := V.settle.filled z (Or.inr hgk)
      omega
  · right
    -- the entry is there after the move, so that the task has not ended in it
    have hstill : k.mapping x.blkid = some x.pbid := by rw [hxb, hp, hmapk]
    cases hy : k'.tasks.get g with
    | none =>
      rcases hm.gone B hx hy with ⟨hd, -⟩ | ⟨-, t, w, hpc, hw, hd⟩
      · exact absurd hd he.2.2
      · exact absurd hstill (V.cover.passed g t x w hx hw (Or.inr hpc) hd)
    | some y =>
      rcases hm.task B hf hy with ⟨x', hx', hxy⟩ | ⟨e, -⟩
      · cases hx.symm.trans hx'
        refine ⟨g, y, hy, ⟨hxy.type.trans he.1, (hxy.victim he.1).trans he.2.1, fun hd => ?_⟩,
          hxy.pbid.trans hp, hxy.blkid.trans hxb⟩
        rcases hxy.finish hd with h | h | h | h
        · exact he.2.2 h
        · exact ((B.tasks.shape g x hx).ended h).1 he.1
        · exact V.cover.skipped g x hx h hstill
        · rcases hm.mapping B V.maps hf hmap with ⟨-, h1⟩ | ⟨t, z', w, e⟩
          · exact h1 g x (Or.inr h) hx hxb
          · exact V.fresh_pbid geo e.get e.writes e.place hx ⟨he.1, he.2.2⟩ hp
      · have := Heap.lt_next_of_get hx
        omega

omit M'

include G'

theorem VictimInv.known' : k'.tasks.All fun _ x => ∀ z o, x.Evacuates z → o < c.zoneNrBlocks →
    (k'.zmd.zones z).zrms o = some x.blkid → x.pbid = c.startBlk z + o := by
  intro i y hy z o he ho hb
  have hg := G'.victim i y hy z he
  have hbk := (V.step geo B hf hsel hm hg).zrms hb
  rcases hm.task B hf hy with ⟨x, hx, hxy⟩ | ⟨-, hmade⟩
  · have hty := hxy.type ▸ he.1
    rw [hxy.blkid] at hbk
    rw [hxy.pbid]
    exact V.cover.known i x hx z o ⟨hty, hxy.victim hty ▸ he.2.1, fun h => he.2.2 (hxy.stays h)⟩ ho
      hbk
  · cases hmade with
    | write ty b d more hty => exact absurd he.1 hty
    | gc z' iter b hpc hi =>
      cases he.2.1
      have hz := V.maps.scan _ _ _ hpc
      have hwp := (V.maps.inv.wp z hz.1).2
      have := (V.cover.next z iter b hpc (by omega)).1 o ho hbk
      rw [this]
      rfl

omit geo hsel G' in
theorem VictimInv.apart' : k'.tasks.Pairs fun x y => x.Moving → y.Moving → x.blkid ≠ y.blkid := by
  -- a new gc task is for a block that no other one is for
  have key : ∀ {i j : ℕ} {y w : Task α}, Made c k k' y → y.Moving → k'.tasks.get j = some w →
      w.Moving → i ≠ j → i = k.tasks.next → y.blkid ≠ w.blkid := by
    intro i j y w hmade hy hw hwm hij hi
    rcases hm.task B hf hw with ⟨x, hx, hxw⟩ | ⟨e, -⟩
    · cases hmade with
      | write ty b d more hty => exact absurd hy.1 hty
      | gc z iter b hpc hi' =>
        have hz := V.maps.scan _ _ _ hpc
        have hwp := (V.maps.inv.wp z hz.1).2
        have := (V.cover.next z iter b hpc (by omega)).2 j x hx
          ⟨hxw.type ▸ hwm.1, fun h => hwm.2 (hxw.stays h)⟩
        rw [hxw.blkid]
        exact this.symm
    · exact absurd (hi.trans e.symm) hij
  intro i j y w hij hy hw hym hwm
  rcases hm.task B hf hy with ⟨x, hx, hxy⟩ | ⟨e, hmade⟩
  · rcases hm.task B hf hw with ⟨x', hx', hxw⟩ | ⟨e, hmade⟩
    · rw [hxy.blkid, hxw.blkid]
      exact V.cover.apart i j x x' hij hx hx' ⟨hxy.type ▸ hym.1, fun h => hym.2 (hxy.stays h)⟩
        ⟨hxw.type ▸ hwm.1, fun h => hwm.2 (hxw.stays h)⟩
    · exact (key hmade hwm hy hym hij.symm e).symm
  · exact key hmade hym hw hwm hij e

theorem VictimInv.next' {z iter b : ℕ} (hpc : k'.gcPc = .scan z iter (some b))
    (hi : iter < c.zoneNrBlocks) :
    (∀ o < c.zoneNrBlocks, (k'.zmd.zones z).zrms o = some b → o = iter) ∧
      k'.tasks.All fun _ x => x.Moving → x.blkid ≠ b := by
  have hzrms : ∀ o, (k'.zmd.zones z).zrms o = some b → (k.zmd.zones z).zrms o = some b :=
    fun o => (V.step geo B hf hsel hm (G'.scan _ _ _ hpc)).zrms
  cases hm.scanStep with
  | same h =>
    rw [h] at hpc
    obtain ⟨h1, h2⟩ := V.cover.next z iter b hpc hi
    refine ⟨fun o ho hb => h1 o ho (hzrms o hb), fun t y hy hmv => ?_⟩
    rcases hm.task B hf hy with ⟨x, hx, hxy⟩ | ⟨-, hmade⟩
    · rw [hxy.blkid]
      exact h2 t x hx ⟨hxy.type ▸ hmv.1, fun h => hmv.2 (hxy.stays h)⟩
    · cases hmade with
      | write ty b d more hty => exact absurd hmv.1 hty
      | gc z' iter' b' hpc₁ hi hpc₂ =>
        rw [h, hpc₁] at hpc₂
        injection hpc₂ with _ h
        omega
  | select h => exact absurd h hsel
  | free z' iter' hpc₁ hpc₂ =>
    rw [hpc₂] at hpc
    injection hpc with h1 h2 h3
    subst h1 h2
    obtain ⟨h4, h5⟩ := V.fetched geo B hpc₁ hi h3
    refine ⟨fun o ho hb => h4 o ho (hzrms o hb), fun t y hy hmv => ?_⟩
    rcases hm.task B hf hy with ⟨x, hx, hxy⟩ | ⟨-, hmade⟩
    · rw [hxy.blkid]
      exact h5 t x hx ⟨hxy.type ▸ hmv.1, fun h => hmv.2 (hxy.stays h)⟩
    · cases hmade with
      | write ty b d more hty => exact absurd hmv.1 hty
      | gc z iter b hpc => cases hpc₁.symm.trans hpc
  | block z' iter' b' hpc₁ hi' hpc₂ ht =>
    rw [hpc₂] at hpc
    injection hpc with h1 h2 h3
    subst h1 h2
    obtain ⟨h4, h5⟩ := V.fetched geo B hpc₁ hi h3
    refine ⟨fun o ho hb => h4 o ho (hzrms o hb), fun t y hy hmv => ?_⟩
    rcases hm.task B hf hy with ⟨x, hx, hxy⟩ | ⟨-, hmade⟩
    · rw [hxy.blkid]
      exact h5 t x hx ⟨hxy.type ▸ hmv.1, fun h => hmv.2 (hxy.stays h)⟩
    · cases hmade with
      | write ty b d more hty => exact absurd hmv.1 hty
      | gc z iter b'' hpc =>
        cases hpc₁.symm.trans hpc
        -- the new task is for the entry before
        rintro rfl
        have := (V.cover.next _ _ _ hpc₁ (by omega)).1 (iter' + 1) hi h3
        omega
  | last z' iter' pos' hpc₁ hi' hpc₂ =>
    rw [hpc₂] at hpc
    cases hpc

omit geo hsel G' in
theorem VictimInv.behind' {z iter : ℕ} {pos : Option ℕ} (hsel : l ≠ .select)
    (hpc : k'.gcPc = .scan z iter pos) :
    k'.tasks.All fun _ x => x.Moving → x.pbid < c.startBlk z + iter := by
  intro t y hy hmv
  have hold : ∀ {z' iter' : ℕ} {pos' : Option ℕ}, k.gcPc = .scan z' iter' pos' →
      ∀ x, k.tasks.get t = some x → Later k k' l t x y → y.pbid < c.startBlk z' + iter' := by
    intro z' iter' pos' hpc' x hx hxy
    rw [hxy.pbid]
    exact V.cover.behind z' iter' pos' hpc' t x hx ⟨hxy.type ▸ hmv.1, fun h => hmv.2 (hxy.stays h)⟩
  cases hm.scanStep with
  | same h =>
    rcases hm.task B hf hy with ⟨x, hx, hxy⟩ | ⟨-, hmade⟩
    · exact hold (h ▸ hpc) x hx hxy
    · cases hmade with
      | write ty b d more hty => exact absurd hmv.1 hty
      | gc z' iter' b' hpc₁ hi hpc₂ =>
        rw [h, hpc₁] at hpc₂
        injection hpc₂ with _ h
        omega
  | select h => exact absurd h hsel
  | free z' iter' hpc₁ hpc₂ =>
    cases hpc.symm.trans hpc₂
    rcases hm.task B hf hy with ⟨x, hx, hxy⟩ | ⟨-, hmade⟩
    · have := hold hpc₁ x hx hxy
      omega
    · cases hmade with
      | write ty b d more hty => exact absurd hmv.1 hty
      | gc z iter b hpc => cases hpc₁.symm.trans hpc
  | block z' iter' b' hpc₁ hi' hpc₂ ht =>
    cases hpc.symm.trans hpc₂
    rcases hm.task B hf hy with ⟨x, hx, hxy⟩ | ⟨-, hmade⟩
    · have := hold hpc₁ x hx hxy
      omega
    · cases hmade with
      | write ty b d more hty => exact absurd hmv.1 hty
      | gc z iter b'' hpc =>
        cases hpc₁.symm.trans hpc
        exact Nat.add_lt_add_left (Nat.lt_succ_self _) _
  | last z' iter' pos' hpc₁ hi' hpc₂ => cases hpc.symm.trans hpc₂

omit hsel G' in
theorem VictimInv.skipped' (B' : Base c k') :
    k'.tasks.All fun _ x => x.pc = .skip → k'.mapping x.blkid ≠ some x.pbid := by
  intro t y hy hpc
  have hmv := B'.moving hy (Or.inl hpc)
  rcases hm.task B hf hy with ⟨x, hx, hxy⟩ | ⟨-, hmade⟩
  · rw [hxy.blkid, hxy.pbid]
    refine V.left geo B hf hm hx ⟨hxy.type ▸ hmv.1, fun h => hmv.2 (hxy.stays h)⟩ ?_
    exact (hxy.skip hpc).elim (V.cover.skipped t x hx) id
  · cases hmade <;> cases hpc

omit geo hsel G' in
theorem VictimInv.written' : k'.tasks.All fun _ x => x.pc = .ended →
    ∀ p, k'.mapping x.blkid = some p → ∃ z, x.zone = some z ∧ c.Contains z p := by
  intro t y hy hpc p hp
  rcases hm.task B hf hy with ⟨x, hx, hxy⟩ | ⟨-, hmade⟩
  · obtain ⟨hz, hx'⟩ := hxy.ended hpc
    rw [hxy.blkid] at hp
    rw [hz]
    rcases hm.mapping B V.maps hf hp with ⟨h1, h2⟩ | ⟨i, z, w, e⟩
    · refine hx'.elim (fun h => V.cover.written t x hx h p h1) fun h => ?_
      exact absurd rfl (h2 t x (Or.inl h) hx)
    · rcases hx' with h | h
      · have hi := (B.tasks.shape t x hx).ended h
        have hin : x.InTree := by
          rcases hi.2.1 with hst | hst <;> simp [Task.InTree, hi.1, hst, h]
        cases TaskInv.eq_of_holder B.tasks hx hin e.get e.inTree e.blkid
        cases hx.symm.trans e.get
        exact absurd h e.ended
      · have : i = t := by
          rcases e.label with h' | h'
          · rw [h] at h'
            injection h' with h'
            exact h'.symm
          · rw [h] at h'
            cases h'
        subst this
        cases hx.symm.trans e.get
        exact ⟨z, e.writes.1, e.place⟩
  · cases hmade <;> cases hpc

omit [Inhabited α] geo hf hsel hm G' in
/-- A gc task that has found or waits for `t` has done so before, or finds it now. -/
theorem VictimInv.looks {g t : ℕ} {x y : Task α} (hx : k.tasks.get g = some x)
    (hxy : Later k k' l g x y) (hpc : y.pc = .found t ∨ y.pc = .waiting t)
    (hmv : x.Moving) : ∃ w, k.tasks.get t = some w ∧ w.type ≠ .gc ∧ w.blkid = x.blkid ∧
      ((x.pc = .found t ∨ x.pc = .waiting t) ∨ w.InTree) := by
  have hfound : x.pc = .found t → ∃ w, k.tasks.get t = some w ∧ w.type ≠ .gc ∧
      w.blkid = x.blkid ∧ ((x.pc = .found t ∨ x.pc = .waiting t) ∨ w.InTree) := by
    intro h
    obtain ⟨w, hw, hb, -⟩ := B.tasks.found g x hx t h
    obtain ⟨w', hw', hty, -⟩ := V.cover.found g t x hx h
    cases hw.symm.trans hw'
    exact ⟨w, hw, hty, hb, Or.inl (Or.inl h)⟩
  rcases hpc with hpc | hpc
  · rcases hxy.found t hpc with h | ⟨hst, hpc, ht, w, hw, hb⟩
    · exact hfound h
    · have hin := (B.tasks.mem_tree hw).mp ht
      refine ⟨w, hw, fun hty => ?_, hb, Or.inr hin⟩
      have hne : t ≠ g := by
        rintro rfl
        cases hx.symm.trans hw
        simp [Task.InTree, hmv.1, hpc, hst] at hin
      refine V.cover.apart t g w x hne hw hx ⟨hty, fun h => ?_⟩ hmv hb
      simp [Task.InTree, hty, h] at hin
  · rcases hxy.waiting t hpc with h | ⟨h, -⟩
    · obtain ⟨w, hw, hty, hl⟩ := V.cover.waiting g t x hx h
      obtain ⟨x', hx', -, -, hb⟩ := B.tasks.link t w hw hty g hl
      cases hx.symm.trans hx'
      exact ⟨w, hw, hty, hb.symm, Or.inl (Or.inr h)⟩
    · exact hfound h

omit hsel G' in
theorem VictimInv.passed' (B' : Base c k') {g t : ℕ} {y w : Task α} (hy : k'.tasks.get g = some y)
    (hw : k'.tasks.get t = some w) (hpc : y.pc = .found t ∨ y.pc = .waiting t)
    (hd : w.pc = .done) : k'.mapping y.blkid ≠ some y.pbid := by
  have hmv' := B'.moving hy (Or.inr (hpc.imp (fun h => ⟨t, h⟩) fun h => ⟨t, h⟩))
  rcases hm.task B hf hy with ⟨x, hx, hxy⟩ | ⟨-, hmade⟩
  · have hmv : x.Moving := ⟨hxy.type ▸ hmv'.1, fun h => hmv'.2 (hxy.stays h)⟩
    obtain ⟨u, hu, hty, hb, hbefore⟩ := V.looks B hx hxy hpc hmv
    rw [hxy.blkid, hxy.pbid]
    refine V.left geo B hf hm hx hmv ?_
    rcases hm.task B hf hw with ⟨u', hu', huw⟩ | ⟨-, hmade⟩
    · cases hu.symm.trans hu'
      rcases huw.finish hd with h | h | h | h
      · rcases hbefore with h' | h'
        · exact V.cover.passed g t x u hx hu h' h
        · simp [Task.InTree, h] at h'
      · exact V.left_of_ended geo B hx hmv hu h hb
      · exact absurd (B.moving hu (Or.inl h)).1 hty
      · cases hm with
        | @remap g z v p x' hx' hgc => cases h; cases hu.symm.trans hx'; exact absurd hgc hty
        | _ => cases h
    · cases hmade <;> cases hd
  · cases hmade <;> rcases hpc with h | h <;> cases h

omit [Inhabited α] geo hf hsel hm G' in
/-- A task that a gc task looks at gets no other partner. -/
theorem VictimInv.same_link {g t : ℕ} {x u w : Task α} (hx : k.tasks.get g = some x)
    (hmv : x.Moving) (hu : k.tasks.get t = some u) (hb : u.blkid = x.blkid)
    (huw : Later k k' l t u w) : w.link = u.link ∨ w.link = .node g ∧ x.pc = .found t ∧
      ∃ y, k'.tasks.get g = some y ∧ y.pc = .waiting t := by
  rcases huw.link with h | ⟨g', x', y', h, hx', hpc, hy', hpc'⟩
  · exact Or.inl h
  · obtain ⟨u', hu', hb', -⟩ := B.tasks.found g' x' hx' t hpc
    cases hu.symm.trans hu'
    have : g' = g := by
      by_contra e
      exact V.cover.apart g' g x' x e hx' hx (B.moving hx' (Or.inr (Or.inl ⟨t, hpc⟩))) hmv
        (hb'.symm.trans hb)
    subst this
    cases hx.symm.trans hx'
    exact Or.inr ⟨h, hpc, y', hy', hpc'⟩

omit geo hsel G' in
theorem VictimInv.found' (B' : Base c k') {g t : ℕ} {y : Task α} (hy : k'.tasks.get g = some y)
    (hpc : y.pc = .found t) : k'.tasks.At t fun w => w.type ≠ .gc ∧ w.link = .null := by
  have hmv' := B'.moving hy (Or.inr (Or.inl ⟨t, hpc⟩))
  obtain ⟨w, hw, -⟩ := B'.tasks.found g y hy t hpc
  rcases hm.task B hf hy with ⟨x, hx, hxy⟩ | ⟨-, hmade⟩
  · have hmv : x.Moving := ⟨hxy.type ▸ hmv'.1, fun h => hmv'.2 (hxy.stays h)⟩
    obtain ⟨u, hu, hty, hb, -⟩ := V.looks B hx hxy (Or.inl hpc) hmv
    have hul : u.link = .null := by
      rcases hxy.found t hpc with h | ⟨-, hpc', -⟩
      · obtain ⟨u', hu', -, hl⟩ := V.cover.found g t x hx h
        cases hu.symm.trans hu'
        exact hl
      · -- a partner of `t` would be a second gc task of the block
        cases hl : u.link with
        | null => rfl
        | iosched => exact absurd hl ((B.tasks.shape t u hu).user hty).2.2
        | node g' =>
          obtain ⟨x', hx', -, hpc'', hb'⟩ := B.tasks.link t u hu hty g' hl
          have hne : g' ≠ g := by
            rintro rfl
            cases hx.symm.trans hx'
            rw [hpc'] at hpc''
            cases hpc''
          exact absurd (hb'.trans hb) (V.cover.apart g' g x' x hne hx' hx
            (B.moving hx' (Or.inr (Or.inr ⟨t, hpc''⟩))) hmv)
    rcases hm.task B hf hw with ⟨u', hu', huw⟩ | ⟨e, -⟩
    · cases hu.symm.trans hu'
      refine ⟨w, hw, fun h => hty (huw.type ▸ h), ?_⟩
      rcases V.same_link B hx hmv hu hb huw with h | ⟨-, -, y', hy', hpc'⟩
      · exact h.trans hul
      · cases hy.symm.trans hy'
        rw [hpc] at hpc'
        cases hpc'
    · have := Heap.lt_next_of_get hu
      omega
  · cases hmade <;> cases hpc

omit geo hsel G' in
theorem VictimInv.waiting' (B' : Base c k') {g t : ℕ} {y : Task α} (hy : k'.tasks.get g = some y)
    (hpc : y.pc = .waiting t) : k'.tasks.At t fun w => w.type ≠ .gc ∧ w.link = .node g := by
  have hmv' := B'.moving hy (Or.inr (Or.inr ⟨t, hpc⟩))
  rcases hm.task B hf hy with ⟨x, hx, hxy⟩ | ⟨-, hmade⟩
  · have hmv : x.Moving := ⟨hxy.type ▸ hmv'.1, fun h => hmv'.2 (hxy.stays h)⟩
    obtain ⟨u, hu, hty, hb, -⟩ := V.looks B hx hxy (Or.inr hpc) hmv
    rcases hxy.waiting t hpc with h | ⟨-, w, hw, hl⟩
    · obtain ⟨u', hu', -, hl⟩ := V.cover.waiting g t x hx h
      cases hu.symm.trans hu'
      cases hw : k'.tasks.get t with
      | none =>
        rcases hm.gone B hu hw with ⟨-, h'⟩ | ⟨h', -⟩
        · have := h' hty g hl
          rw [hy] at this
          cases this
        · exact absurd h' hty
      | some w =>
        rcases hm.task B hf hw with ⟨u', hu', huw⟩ | ⟨e, -⟩
        · cases hu.symm.trans hu'
          refine ⟨w, hw, fun h => hty (huw.type ▸ h), ?_⟩
          exact (V.same_link B hx hmv hu hb huw).elim (fun h => h.trans hl) And.left
        · have := Heap.lt_next_of_get hu
          omega
    · rcases hm.task B hf hw with ⟨u', hu', huw⟩ | ⟨e, -⟩
      · cases hu.symm.trans hu'
        exact ⟨w, hw, fun h => hty (huw.type ▸ h), hl⟩
      · have := Heap.lt_next_of_get hu
        omega
  · cases hmade <;> cases hpc

omit V hf hsel hm G' [Inhabited α] in
/-- The choice of a victim, of which nothing has been evacuated yet. -/
theorem VictimInv.chosen (V : VictimInv c ph k) {z : ℕ} {mod : VictimMod} (hb : ¬ k.Busy)
    (hz : Lbz.victim c k.zmd mod = some z) :
    CoverInv c (takeVictim k.zmd z) k.mapping k.tasks (.scan z 0 ((k.zmd.zones z).zrms 0)) := by
  have hng := not_gc_of_not_busy B hb
  have hidle : ∀ t x, k.tasks.get t = some x → ¬ x.Moving := fun t x hx hmv => by
    obtain ⟨v, -, -, hg⟩ := hmv.evacuates V hx
    rw [hng] at hg
    cases hg
  have hzrms := (SameMaps.takeVictim k.zmd z).zrms
  have hlt : z < c.nrZones := by
    obtain ⟨pl, P⟩ := B.places
    exact lt_of_place P (by rw [(P.full z).mp (victim_mem hz)]; nofun)
  refine { V.cover with entries := ?_, known := ?_, next := ?_, behind := ?_ }
  · intro z' o b hg ho hb
    rw [hzrms] at hb
    have e : z' = z := by
      by_contra e
      rw [takeVictim_zones, if_neg e, hng] at hg
      cases hg
    subst e
    refine Or.inl ⟨0, _, rfl, ?_⟩
    by_cases e : 0 = o
    · exact Or.inr ⟨e, e ▸ hb⟩
    · exact Or.inl (by omega)
  · exact fun t x hx z' o he => absurd ⟨he.1, he.2.2⟩ (hidle t x hx)
  · intro z' iter b hpc hi
    injection hpc with h1 h2 h3
    subst h1 h2
    refine ⟨fun o ho hb => ?_, fun t x hx hmv => absurd hmv (hidle t x hx)⟩
    rw [hzrms] at hb
    have h4 := (V.maps.entry geo hlt hi).mp h3
    have h5 := (V.maps.entry geo hlt ho).mp hb
    have := Option.some.inj (h5.symm.trans h4)
    omega
  · exact fun z' iter pos _ t x hx hmv => absurd hmv (hidle t x hx)

omit hsel G' in
/-- **The evacuation goes on.** -/
theorem VictimInv.move (hl : l ≠ .stale) : VictimInv c ph k' := by
  have B' := B.move geo.pos hm
  have M' := V.maps.move geo B hf hm
  have G' := V.guard.move B V.counts V.settle (fun _ _ hb => V.mapped_held geo hb) hf hl hm
  refine ⟨V.counts.move B hm, V.settle.move B V.counts hf hl hm, M', G', ?_⟩
  by_cases hsel : l = .select
  · subst hsel
    cases hm with
    | select hpc hb hz => exact V.chosen geo B hb hz
  · exact {
      entries := fun z o b hg ho hb => V.entries' geo B hf hsel hm M' hg ho hb
      known := V.known' geo B hf hsel hm G'
      apart := V.apart' B hf hm
      next := fun z iter b hpc hi => V.next' geo B hf hsel hm G' hpc hi
      behind := fun z iter pos hpc => V.behind' B hf hm hsel hpc
      skipped := V.skipped' geo B hf hm B'
      written := V.written' B hf hm
      passed := fun g t y w hy hw hpc hd => V.passed' geo B hf hm B' hy hw hpc hd
      found := fun g t y hy hpc => V.found' B hf hm B' hy hpc
      waiting := fun g t y hy hpc => V.waiting' B hf hm B' hy hpc }

end

/-- Before anything has been chosen. -/
theorem VictimInv.fresh {m : Zmd} {ph : ℕ → ℤ} (C : Counts (freshSys m : Sys α).core)
    (S : Settle c (freshSys m : Sys α).core) (M : Maps c ph (freshSys m : Sys α).core)
    (hg : ∀ z, (m.zones z).flags .gc = false) : VictimInv c ph (freshSys m : Sys α).core := by
  have hno : ∀ i (x : Task α), (freshSys m : Sys α).core.tasks.get i ≠ some x := fun i x h => by
    rw [show (freshSys m : Sys α).core.tasks = Heap.empty from rfl, Heap.get_empty] at h
    cases h
  have hg' : ∀ z, ((freshSys m : Sys α).core.zmd.zones z).flags .gc ≠ true := fun z h => by
    rw [show (freshSys m : Sys α).core.zmd = m from rfl, hg] at h
    cases h
  exact ⟨C, S, M, ⟨Heap.All.empty, Heap.All.empty, nofun, nofun, fun z h => absurd h (hg' z)⟩,
    { entries := fun z o b h => absurd h (hg' z)
      known := Heap.All.empty
      apart := Heap.Pairs.empty
      next := nofun
      behind := nofun
      skipped := Heap.All.empty
      written := Heap.All.empty
      passed := fun g t x y hx => absurd hx (hno g x)
      found := fun g t x hx => absurd hx (hno g x)
      waiting := fun g t x hx => absurd hx (hno g x) }⟩

end Lbz
