import Lbz.Path

/-!
# The states a device starts in

* `PlaceInv.addZone`: a zone read from the report joins its list or its slot;
* `base_initSys`: a device accepted on a report of healthy zones of one capacity starts in order;
* `Blank`, `blank_initSys`: the metadata after a report with nothing written.
-/

namespace Lbz

variable {α : Type} {c : Conf} {o : Options} {report : List BlkZone} {b : BlkZone} {m m' : Zmd}

/-- The same device with the zones from `n` on left out. -/
def Conf.upTo (c : Conf) (n : ℕ) : Conf := { c with nrZones := n }

/-- Zone `num` is read from the report, and goes to the place `P`. -/
theorem PlaceInv.addZone {pl : ℕ → Place} {num : ℕ} {x : Zone} {P : Place}
    (a : PlaceInv (c.upTo num) m .idle none pl)
    (hP : P = .empty ∨ (∃ i, P = .active i) ∨ P = .full)
    (hz : m'.zones = Function.update m.zones num x)
    (hfl : x.flags .toFull = false ∧ x.flags .gc = false)
    (he : m'.emptyZoneList = if P = .empty then m.emptyZoneList ++ [num] else m.emptyZoneList)
    (hfu : m'.fullZoneList = if P = .full then num :: m.fullZoneList else m.fullZoneList)
    (hac : ∀ i, m'.activeZone i = if P = .active i then some num else m.activeZone i)
    (hfree : ∀ i, P = .active i → m.activeZone i = none ∧ x.stream = i.val ∧
      x.wpBlock < c.zoneNrBlocks)
    (hwe : P = .empty → x.wpBlock = 0)
    (hec : m'.emptyZoneCount = if P = .empty then m.emptyZoneCount + 1 else m.emptyZoneCount)
    (hfc : m'.fullZoneCount = if P = .full then m.fullZoneCount + 1 else m.fullZoneCount)
    (hcc : m'.activeZoneCount = m.activeZoneCount) :
    PlaceInv (c.upTo (num + 1)) m' .idle none (Function.update pl num P) := by
  have hout : pl num = .outside := (a.outside num).mpr le_rfl
  have hzones : ∀ z, m'.zones z = if z = num then x else m.zones z := fun z => by
    rw [hz, Function.update_apply]
  have hpl : ∀ z, Function.update pl num P z = if z = num then P else pl z := fun z =>
    Function.update_apply pl num P z
  have hne : num ∉ m.emptyZoneList := by rw [a.empty, hout]; nofun
  have hnf : num ∉ m.fullZoneList := by rw [a.full, hout]; nofun
  have hna : ∀ i, m.activeZone i ≠ some num := fun i h => by
    rw [a.active, hout] at h
    cases h
  exact {
    outside := fun z => by
      have := a.outside z
      rw [hpl]
      change _ ↔ num + 1 ≤ z
      change _ ↔ num ≤ z at this
      split_ifs with e
      · rcases hP with rfl | ⟨i, rfl⟩ | rfl <;> exact iff_of_false nofun (by omega)
      · rw [this]
        omega
    empty := fun z => by
      have := a.empty z
      rw [hpl, he]
      by_cases e : z = num
      · subst e
        rw [if_pos rfl]
        split_ifs with hp
        · exact iff_of_true (List.mem_append_right _ List.mem_cons_self) hp
        · exact iff_of_false hne hp
      · rw [if_neg e, ← this]
        split_ifs
        · rw [List.mem_append, List.mem_singleton]
          exact or_iff_left e
        · exact Iff.rfl
    emptyNodup := by
      rw [he]
      split_ifs
      · exact nodup_concat a.emptyNodup hne
      · exact a.emptyNodup
    full := fun z => by
      have := a.full z
      rw [hpl, hfu]
      by_cases e : z = num
      · subst e
        rw [if_pos rfl]
        split_ifs with hp
        · exact iff_of_true List.mem_cons_self hp
        · exact iff_of_false hnf hp
      · rw [if_neg e, ← this]
        split_ifs
        · rw [List.mem_cons]
          exact or_iff_right e
        · exact Iff.rfl
    fullNodup := by
      rw [hfu]
      split_ifs
      · exact List.nodup_cons.mpr ⟨hnf, a.fullNodup⟩
      · exact a.fullNodup
    active := fun i z => by
      have := a.active i z
      rw [hpl, hac]
      by_cases e : z = num
      · subst e
        rw [if_pos rfl]
        split_ifs with hp
        · exact iff_of_true rfl hp
        · exact iff_of_false (hna i) hp
      · rw [if_neg e, ← this]
        split_ifs with hp
        · rw [(hfree i hp).1]
          exact iff_of_false (fun h => e (Option.some.inj h).symm) nofun
        · exact Iff.rfl
    toFull := fun z => by
      have := a.toFull z
      rw [hpl, hzones]
      split_ifs with e
      · rw [hfl.1]
        rcases hP with rfl | ⟨i, rfl⟩ | rfl <;> exact iff_of_false nofun nofun
      · exact this
    gc := fun z => by
      have := a.gc z
      rw [hpl, hzones]
      split_ifs with e
      · rw [hfl.2]
        rcases hP with rfl | ⟨i, rfl⟩ | rfl <;> exact iff_of_false nofun nofun
      · exact this
    linking := fun z => by
      rw [hpl]
      split_ifs
      · rcases hP with rfl | ⟨i, rfl⟩ | rfl <;> exact iff_of_false nofun nofun
      · exact (a.linking z).trans (iff_of_false nofun id)
    publishing := fun z => by
      rw [hpl]
      split_ifs
      · rcases hP with rfl | ⟨i, rfl⟩ | rfl <;> exact iff_of_false nofun nofun
      · exact (a.publishing z).trans (iff_of_false nofun id)
    closing := nofun
    reset := nofun
    victim := fun z h => by
      rw [hpl] at h
      split_ifs at h
      · rcases hP with rfl | ⟨i, rfl⟩ | rfl <;> cases h
      · exact a.victim z h
    stream := fun i z h => by
      rw [hpl] at h
      rw [hzones]
      split_ifs at h ⊢
      · exact (hfree i h).2.1
      · exact a.stream i z h
    wp := fun i z h => by
      rw [hpl] at h
      rw [hzones]
      split_ifs at h ⊢
      · exact (hfree i h).2.2
      · exact a.wp i z h
    wpEmpty := fun z h => by
      rw [hpl] at h
      rw [hzones]
      split_ifs at h ⊢
      · rcases h with h | h
        · exact hwe h
        · rcases hP with rfl | ⟨i, rfl⟩ | rfl <;> cases h
      · exact a.wpEmpty z h
    emptyCount := by
      rw [hec, he]
      split_ifs
      · rw [a.emptyCount, List.length_append]
        rfl
      · exact a.emptyCount
    fullCount := by
      rw [hfc, hfu]
      split_ifs
      · rw [a.fullCount, List.length_cons]
        rfl
      · exact a.fullCount
    activeCount := by rw [hcc, a.activeCount]; rfl }

theorem BlkZone.setCond_fields (b : BlkZone) (x : Zone) :
    (b.setCond x).flags .toFull = x.flags .toFull ∧ (b.setCond x).flags .gc = x.flags .gc ∧
      (b.setCond x).wpBlock = x.wpBlock ∧ (b.setCond x).stream = x.stream := by
  have hset : ∀ st, st ≠ .toFull ∧ st ≠ .gc → (x.setZoneState st).flags .toFull = x.flags .toFull ∧
      (x.setZoneState st).flags .gc = x.flags .gc := fun st h =>
    ⟨Zone.setZoneState_of_ne h.1.symm x, Zone.setZoneState_of_ne h.2.symm x⟩
  unfold BlkZone.setCond
  split
  · exact ⟨(hset .offline ⟨nofun, nofun⟩).1, (hset .offline ⟨nofun, nofun⟩).2, rfl, rfl⟩
  · exact ⟨(hset .readOnly ⟨nofun, nofun⟩).1, (hset .readOnly ⟨nofun, nofun⟩).2, rfl, rfl⟩
  · exact ⟨rfl, rfl, rfl, rfl⟩

/-- What `lbz_init_zone` does to a zone besides placing it. -/
theorem initZone_places {num : ℕ} (h : initZone c m num b = some m') :
    ∃ m₁, placeZone c m num b = some m₁ ∧ SamePlaces m₁ m' ∧
      (∀ z, m'.zones z = if z = num then b.setCond (m₁.zones z) else m₁.zones z) ∧
      m'.nrValidBlks = m₁.nrValidBlks + Int.bmod b.wpBlock (2 ^ 32) := by
  obtain ⟨m₁, h1, rfl⟩ := Option.map_eq_some_iff.mp h
  have hz := Zmd.modZone_zones { m₁ with
    nrValidBlks := m₁.nrValidBlks + Int.bmod b.wpBlock (2 ^ 32) } num b.setCond
  have key : ∀ {β : Type} (f : Zone → β), (∀ x, f (b.setCond x) = f x) → ∀ z,
      f ((Zmd.modZone { m₁ with
        nrValidBlks := m₁.nrValidBlks + Int.bmod b.wpBlock (2 ^ 32) } num b.setCond).zones z) =
      f (m₁.zones z) := fun f hf z => by
    rw [hz]
    split_ifs
    · exact hf _
    · rfl
  exact ⟨m₁, h1, ⟨rfl, rfl, rfl, rfl, rfl, rfl, rfl,
    key (fun x => x.flags .toFull) fun x => (b.setCond_fields x).1,
    key (fun x => x.flags .gc) fun x => (b.setCond_fields x).2.1,
    key Zone.wpBlock fun x => (b.setCond_fields x).2.2.1,
    key Zone.stream fun x => (b.setCond_fields x).2.2.2⟩, hz, rfl⟩

/-- What `lbz_init_zone` does to a healthy zone besides placing it. -/
theorem initZone_same {num : ℕ} (hc : b.cond ≠ .offline ∧ b.cond ≠ .readonly)
    (h : initZone c m num b = some m') : ∃ m₁, placeZone c m num b = some m₁ ∧ SamePlaces m₁ m' ∧
      m'.zones = m₁.zones ∧ m'.nrValidBlks = m₁.nrValidBlks + Int.bmod b.wpBlock (2 ^ 32) := by
  obtain ⟨m₁, h1, h2, h3, h4⟩ := initZone_places h
  have hid : ∀ x, b.setCond x = x := fun x => by
    unfold BlkZone.setCond
    split
    · next h => exact absurd h hc.1
    · next h => exact absurd h hc.2
    · rfl
  refine ⟨m₁, h1, h2, funext fun z => ?_, h4⟩
  rw [h3]
  split_ifs
  · exact hid _
  · rfl

theorem oneZone_flags (st : ZoneState) (x : Zone) (hx : x.flags = fun _ => false)
    (h : st ≠ .toFull ∧ st ≠ .gc) : (x.setZoneState st).flags .toFull = false ∧
      (x.setZoneState st).flags .gc = false := by
  rw [Zone.setZoneState_flags, Zone.setZoneState_flags, hx, if_neg h.1.symm, if_neg h.2.symm]
  exact ⟨rfl, rfl⟩

theorem freeStream_eq {i : Fin 2} (h : freeStream m = some i) : m.activeZone i = none := by
  unfold freeStream at h
  split_ifs at h with h1 h2
  · cases h
    exact h1
  · cases h
    exact h2

theorem PlaceInv.placeZone {pl : ℕ → Place} {num : ℕ} (a : PlaceInv (c.upTo num) m .idle none pl)
    (hcap : b.wpBlock = 0 ∨ sectorToBlkid b.capacity = c.zoneNrBlocks)
    (h : placeZone c m num b = some m') :
    ∃ pl', PlaceInv (c.upTo (num + 1)) m' .idle none pl' := by
  unfold Lbz.placeZone at h
  simp only at h
  split_ifs at h with h1 h2
  · cases h
    refine ⟨_, a.addZone (P := .empty) (Or.inl rfl) rfl ?_ rfl rfl (fun i => rfl) nofun
      (fun _ => h1) rfl rfl rfl⟩
    exact oneZone_flags .init (b.descriptor num) rfl ⟨nofun, nofun⟩
  · obtain ⟨i, hi, rfl⟩ := Option.map_eq_some_iff.mp h
    refine ⟨_, a.addZone (P := .active i) (Or.inr (Or.inl ⟨i, rfl⟩)) rfl ?_ rfl rfl (fun j => ?_)
      (fun j hj => ?_) nofun rfl rfl rfl⟩
    · exact oneZone_flags .active (b.descriptor num) rfl ⟨nofun, nofun⟩
    · change Function.update m.activeZone i (some num) j = _
      rw [Function.update_apply]
      exact if_congr ⟨fun h => h ▸ rfl, fun h => by cases h; rfl⟩ rfl rfl
    · cases hj
      exact ⟨freeStream_eq hi, rfl, hcap.resolve_left h1 ▸ h2⟩
  · cases h
    refine ⟨_, a.addZone (P := .full) (Or.inr (Or.inr rfl)) rfl ?_ rfl rfl (fun i => rfl) nofun
      nofun rfl rfl rfl⟩
    exact oneZone_flags .full (b.descriptor num) rfl ⟨nofun, nofun⟩

theorem PlaceInv.initZones : ∀ {l : List BlkZone} {m m' : Zmd} {num : ℕ} {pl : ℕ → Place},
    PlaceInv (c.upTo num) m .idle none pl →
    (∀ b ∈ l, b.wpBlock = 0 ∨ sectorToBlkid b.capacity = c.zoneNrBlocks) →
    initZones c m num l = some m' →
    ∃ pl', PlaceInv (c.upTo (num + l.length)) m' .idle none pl'
  | [], m, m', num, pl, a, _, h => by
    cases h
    exact ⟨pl, a⟩
  | b :: l, m, m', num, pl, a, hl, h => by
    obtain ⟨m₂, h1, h2⟩ := Option.bind_eq_some_iff.mp h
    obtain ⟨m₁, h3, h4, -⟩ := initZone_places h1
    obtain ⟨pl₁, a₁⟩ := a.placeZone (hl b List.mem_cons_self) h3
    obtain ⟨pl', a'⟩ := PlaceInv.initZones (a₁.same h4)
      (fun b' hb' => hl b' (List.mem_cons_of_mem _ hb')) h2
    refine ⟨pl', ?_⟩
    rwa [List.length_cons, Nat.add_comm l.length, ← Nat.add_assoc]

/-- The metadata before the first zone is read. -/
theorem PlaceInv.start : PlaceInv (c.upTo 0) emptyZmd .idle none fun _ => .outside where
  outside z := iff_of_true rfl (Nat.zero_le z)
  empty z := iff_of_false List.not_mem_nil nofun
  emptyNodup := List.nodup_nil
  full z := iff_of_false List.not_mem_nil nofun
  fullNodup := List.nodup_nil
  active i z := iff_of_false nofun nofun
  toFull z := iff_of_false nofun nofun
  gc z := iff_of_false nofun nofun
  linking z := iff_of_false nofun nofun
  publishing z := iff_of_false nofun nofun
  closing := nofun
  reset := nofun
  victim := nofun
  stream := nofun
  wp := nofun
  wpEmpty z h := by rcases h with h | h <;> cases h
  emptyCount := rfl
  fullCount := rfl
  activeCount := rfl

/-- A device with nothing going on is in order if each of its zones is in one place. -/
theorem base_freshSys {pl : ℕ → Place} (a : PlaceInv c m .idle none pl) :
    Base c (freshSys m : Sys α).core where
  tasks := {
    shape := Heap.All.empty
    nodup := List.nodup_nil
    tree := fun t => iff_of_false List.not_mem_nil fun ⟨x, hx, _⟩ => by
      rw [show (freshSys m : Sys α).core.tasks = Heap.empty from rfl, Heap.get_empty] at hx
      cases hx
    holder := Heap.Pairs.empty
    refs := Heap.All.empty
    fresh := Heap.All.empty
    puts := nofun
    found := Heap.All.empty
    link := Heap.All.empty
    past := Heap.All.empty }
  queues := ⟨⟨List.nodup_nil, nofun⟩, ⟨List.nodup_nil, nofun⟩⟩
  places := ⟨pl, a⟩

theorem clean_freshSys : Clean (freshSys m : Sys α).core := ⟨Heap.All.empty, Heap.All.empty⟩

/-- The zones of the report are of one capacity of at least a block. -/
structure OneCapacity (report : List BlkZone) (capacity : ℕ) : Prop where
  same : ∀ b ∈ report, b.capacity = capacity
  range : 8 ≤ capacity ∧ capacity < 2 ^ 32

/-- The zones of the report are healthy, and of one capacity of at least a block. -/
structure Uniform (report : List BlkZone) (capacity : ℕ) : Prop where
  same : ∀ b ∈ report, b.capacity = capacity
  range : 8 ≤ capacity ∧ capacity < 2 ^ 32
  healthy : ∀ b ∈ report, b.cond ≠ .offline ∧ b.cond ≠ .readonly

theorem initSys_eq {s : Sys α} (h : initSys o report = some s) :
    report ≠ [] ∧ ∃ m, initZones (confOf o report) emptyZmd 0 report = some m ∧ s = freshSys m := by
  unfold initSys at h
  split_ifs at h with h1
  obtain ⟨m, h2, rfl⟩ := Option.map_eq_some_iff.mp h
  exact ⟨h1, m, h2, rfl⟩

theorem zoneNrBlocks_confOf {cap : ℕ} (hr : report ≠ []) (hs : ∀ b ∈ report, b.capacity = cap)
    (hc : cap < 2 ^ 32) : (confOf o report).zoneNrBlocks = sectorToBlkid cap := by
  cases report with
  | nil => exact absurd rfl hr
  | cons b l =>
    change sectorToBlkid (b.capacity % 2 ^ 32) = _
    rw [hs b List.mem_cons_self, Nat.mod_eq_of_lt hc]

theorem OneCapacity.pos {cap : ℕ} (hu : OneCapacity report cap) (hr : report ≠ []) :
    0 < (confOf o report).zoneNrBlocks := by
  obtain ⟨h1, h2⟩ := hu.range
  rw [zoneNrBlocks_confOf hr hu.same h2, sectorToBlkid]
  omega

theorem OneCapacity.eq {cap : ℕ} (hu : OneCapacity report cap) (hr : report ≠ []) :
    ∀ b ∈ report, sectorToBlkid b.capacity = (confOf o report).zoneNrBlocks := fun b hb => by
  rw [zoneNrBlocks_confOf hr hu.same hu.range.2, hu.same b hb]

theorem base_of_capacity {cap : ℕ} {s : Sys α} (hu : OneCapacity report cap)
    (h : initSys o report = some s) :
    0 < (confOf o report).zoneNrBlocks ∧ Base (confOf o report) s.core := by
  obtain ⟨hr, m, h1, rfl⟩ := initSys_eq h
  obtain ⟨pl, a⟩ := PlaceInv.initZones PlaceInv.start (fun b hb => Or.inr (hu.eq hr b hb)) h1
  rw [Nat.zero_add] at a
  exact ⟨hu.pos hr, base_freshSys a⟩

theorem Uniform.oneCapacity {cap : ℕ} (hu : Uniform report cap) : OneCapacity report cap :=
  ⟨hu.same, hu.range⟩

theorem Uniform.pos {cap : ℕ} (hu : Uniform report cap) (hr : report ≠ []) :
    0 < (confOf o report).zoneNrBlocks := hu.oneCapacity.pos hr

theorem base_initSys {cap : ℕ} {s : Sys α} (hu : Uniform report cap)
    (h : initSys o report = some s) :
    0 < (confOf o report).zoneNrBlocks ∧ Base (confOf o report) s.core :=
  base_of_capacity hu.oneCapacity h

/-! ## A report with nothing written -/

/-- A zone with nothing written. -/
def blankZone (z : ℕ) : Zone :=
  { state := .empty
    flags := Function.update (fun _ => false) .init true
    refcount := 0
    stream := -1
    id := z
    wpBlock := 0
    weight := 0
    pendingWriteIo := 0
    zrms := fun _ => none }

/-- The metadata after the first `n` zones of such a report. -/
structure Blank (c : Conf) (n : ℕ) (m : Zmd) : Prop where
  zones : ∀ z, m.zones z = if z < n then blankZone z else emptyZmd.zones z
  emptyList : m.emptyZoneList = List.range n
  fullList : m.fullZoneList = []
  active : ∀ i, m.activeZone i = none
  allocable : m.nrAllocableBlks = n * c.zoneNrBlocks
  valid : m.nrValidBlks = 0

theorem Blank.initZone {num : ℕ} (a : Blank c num m) (hwp : b.wpBlock = 0) (hc : b.cond = .empty)
    (h : initZone c m num b = some m') : Blank c (num + 1) m' := by
  obtain ⟨m₁, h1, hsame, hz, hv⟩ := initZone_same (by rw [hc]; exact ⟨nofun, nofun⟩) h
  rw [placeZone, if_pos (show (b.descriptor num).wpBlock = 0 from hwp)] at h1
  cases h1
  refine ⟨fun z => ?_, ?_, hsame.fullList.trans a.fullList, fun i => ?_, ?_, ?_⟩
  · rw [hz]
    change Function.update m.zones num _ z = _
    rw [Function.update_apply]
    split_ifs with h1 h2 h2
    · rw [h1]
      simp only [BlkZone.descriptor, hwp]
      rfl
    · omega
    · rw [a.zones, if_pos (by omega)]
    · rw [a.zones, if_neg (by omega)]
  · rw [hsame.emptyList, List.range_succ, ← a.emptyList]
  · rw [hsame.active]
    exact a.active i
  · rw [hsame.allocable]
    change m.nrAllocableBlks + (c.zoneNrBlocks : ℤ) = _
    rw [a.allocable]
    push_cast
    ring
  · change _ = m.nrValidBlks + _ at hv
    rw [hv, hwp, a.valid]
    rfl

theorem Blank.initZones : ∀ {l : List BlkZone} {m m' : Zmd} {num : ℕ}, Blank c num m →
    (∀ b ∈ l, b.wpBlock = 0 ∧ b.cond = .empty) → initZones c m num l = some m' →
    Blank c (num + l.length) m'
  | [], m, m', num, a, _, h => by
    cases h
    exact a
  | b :: l, m, m', num, a, hl, h => by
    obtain ⟨m₁, h1, h2⟩ := Option.bind_eq_some_iff.mp h
    obtain ⟨hwp, hc⟩ := hl b List.mem_cons_self
    have := (a.initZone hwp hc h1).initZones (fun b' hb' => hl b' (List.mem_cons_of_mem _ hb')) h2
    rwa [List.length_cons, Nat.add_comm l.length, ← Nat.add_assoc]

theorem blank_initSys {s : Sys α} (he : EmptyReport o report) (h : initSys o report = some s) :
    ∃ m, Blank (confOf o report) (confOf o report).nrZones m ∧ s = freshSys m := by
  obtain ⟨-, m, h1, rfl⟩ := initSys_eq h
  have hb : Blank (confOf o report) 0 emptyZmd :=
    ⟨fun z => (if_neg (Nat.not_lt_zero z)).symm, rfl, rfl, fun _ => rfl, by simp [emptyZmd], rfl⟩
  have := hb.initZones (fun b hb => ⟨by simp [BlkZone.wpBlock, he.wp b hb, sectorToBlkid],
    he.cond b hb⟩) h1
  rw [Nat.zero_add] at this
  exact ⟨m, this, rfl⟩

theorem base_of_empty {s : Sys α} (he : EmptyReport o report) (h : initSys o report = some s) :
    Base (confOf o report) s.core := by
  obtain ⟨-, m, h1, rfl⟩ := initSys_eq h
  obtain ⟨pl, a⟩ := PlaceInv.initZones PlaceInv.start (fun b hb =>
    Or.inl (by simp [BlkZone.wpBlock, he.wp b hb, sectorToBlkid])) h1
  rw [Nat.zero_add] at a
  exact base_freshSys a

/-- A device that starts with nothing written is sound, for what holds at its start. -/
theorem sound_of_empty {s : Sys α} {I : Core α → Prop} (he : EmptyReport o report)
    (h : initSys o report = some s) (hI : I s.core) : Sound (confOf o report) I s := by
  have hB := base_of_empty he h
  obtain ⟨-, m, -, rfl⟩ := initSys_eq h
  exact ⟨rfl, _, fun _ => rfl, ⟨hB, clean_freshSys⟩, hI⟩

/-- The write `t`, of block `b`, goes through on its own: its block lands at `off` of its zone. -/
def soleWrite (t b off : ℕ) (d : α) : List (Event α) :=
  [.submitWrite b d false, .runWrite t true, .runWrite t true, .devAppend t off, .writeEnd t,
    .writeUntree t]

/-- What is left of a write into zone `z` after that. -/
def settleWrite (z : ℕ) : List (Event α) := [.writeComplete z, .putZone z .write]

end Lbz
