import Lbz.Allocable
import Lbz.Story

/-!
# Zones that cannot be written

* `Barred report hist z`: zone `z` was reported offline, read-only or full, and not reset since;
* `HasRoom`, `zoneRoom`: an empty zone or an active one, and the blocks it has left;
* `initZones_hasRoom`: `lbz_init_zones` looks at the write pointers alone;
* `Shut`: no barred zone has room, kept by every move;
* **`onlyWritable_iff`**: barred zones are neither allocated nor counted in every state of every run,
  exactly if the report puts their write pointers at the end.
-/

namespace Lbz

variable {α : Type} {c : Conf} {m m' : Zmd} {z : ℕ}

def BlkZone.Unwritable (b : BlkZone) : Prop :=
  b.cond = .offline ∨ b.cond = .readonly ∨ b.cond = .full

instance (b : BlkZone) : Decidable b.Unwritable :=
  inferInstanceAs (Decidable (b.cond = .offline ∨ b.cond = .readonly ∨ b.cond = .full))

/-- Zone `z` was reported as not writable, and has not been reset since. -/
def Barred (report : List BlkZone) (hist : List (Obs α)) (z : ℕ) : Prop :=
  (∃ b, report[z]? = some b ∧ b.Unwritable) ∧ Obs.reset z ∉ hist

/-- Zone `z` is empty or active. -/
def HasRoom (m : Zmd) (z : ℕ) : Prop := z ∈ m.emptyZoneList ∨ ∃ i, m.activeZone i = some z

/-- The allocable blocks of zone `z`. -/
def zoneRoom (c : Conf) (m : Zmd) (z : ℕ) : ℤ :=
  if z ∈ m.emptyZoneList then c.zoneNrBlocks
  else if ∃ i, m.activeZone i = some z then c.zoneNrBlocks - (m.zones z).wpBlock
  else 0

theorem zoneRoom_eq_zero (h : ¬ HasRoom m z) : zoneRoom c m z = 0 := by
  rw [zoneRoom, if_neg fun he => h (Or.inl he), if_neg fun ha => h (Or.inr ha)]

theorem HasRoom.same (h : SamePlaces m m') : HasRoom m' z ↔ HasRoom m z := by
  rw [HasRoom, HasRoom, h.emptyList, h.active]

namespace PlaceInv

variable {wk : WkPc} {gcZone : Option ℕ} {pl : ℕ → Place}

theorem zoneRoom_pos (a : PlaceInv c m wk gcZone pl) (hN : 0 < c.zoneNrBlocks)
    (h : HasRoom m z) : 0 < zoneRoom c m z := by
  rw [zoneRoom]
  split_ifs with he ha
  · exact_mod_cast hN
  · obtain ⟨i, hi⟩ := ha
    have := a.wp i z ((a.active i z).mp hi)
    omega
  · rcases h with h | h
    · exact absurd h he
    · exact absurd h ha

theorem zoneRoom_nonneg (a : PlaceInv c m wk gcZone pl) (hN : 0 < c.zoneNrBlocks) (z : ℕ) :
    0 ≤ zoneRoom c m z := by
  by_cases h : HasRoom m z
  · exact (a.zoneRoom_pos hN h).le
  · rw [zoneRoom_eq_zero h]

theorem hasRoom_lt (a : PlaceInv c m wk gcZone pl) (h : HasRoom m z) : z < c.nrZones := by
  by_contra hz
  have hout := (a.outside z).mpr (not_lt.mp hz)
  rcases h with h | ⟨i, h⟩
  · rw [a.empty, hout] at h
    cases h
  · rw [a.active, hout] at h
    cases h

/-- An empty zone is in no slot, and an active one is in one. -/
theorem zoneRoom_eq (a : PlaceInv c m wk gcZone pl) (z : ℕ) : zoneRoom c m z =
    (if z ∈ m.emptyZoneList then (c.zoneNrBlocks : ℤ) else 0) +
      ∑ i, if m.activeZone i = some z then (c.zoneNrBlocks : ℤ) - (m.zones z).wpBlock else 0 := by
  by_cases he : z ∈ m.emptyZoneList
  · have hno : ∀ i, m.activeZone i ≠ some z := fun i hi => by
      rw [a.active, (a.empty z).mp he] at hi
      cases hi
    rw [zoneRoom, if_pos he, if_pos he, Finset.sum_eq_zero fun i _ => if_neg (hno i), add_zero]
  · rw [zoneRoom, if_neg he, if_neg he, zero_add]
    split_ifs with ha
    · obtain ⟨i, hi⟩ := ha
      rw [Finset.sum_eq_single i (fun j _ hj => if_neg fun h => hj (a.slot_unique hi h))
        fun h => absurd (Finset.mem_univ i) h, if_pos hi]
    · exact (Finset.sum_eq_zero fun i _ => if_neg fun h => ha ⟨i, h⟩).symm

/-- The blocks with room, counted zone by zone. -/
theorem sum_zoneRoom (a : PlaceInv c m wk gcZone pl) :
    ∑ z ∈ Finset.range c.nrZones, zoneRoom c m z = room c m := by
  have hempty : ∑ z ∈ Finset.range c.nrZones,
      (if z ∈ m.emptyZoneList then (c.zoneNrBlocks : ℤ) else 0) =
        c.zoneNrBlocks * m.emptyZoneList.length := by
    have hset : (Finset.range c.nrZones).filter (· ∈ m.emptyZoneList) = m.emptyZoneList.toFinset := by
      ext z
      rw [Finset.mem_filter, List.mem_toFinset, Finset.mem_range]
      exact and_iff_right_of_imp fun h => a.hasRoom_lt (Or.inl h)
    rw [← Finset.sum_filter, hset, Finset.sum_const, List.toFinset_card_of_nodup a.emptyNodup,
      nsmul_eq_mul, mul_comm]
  have hslot : ∀ i, ∑ z ∈ Finset.range c.nrZones,
      (if m.activeZone i = some z then (c.zoneNrBlocks : ℤ) - (m.zones z).wpBlock else 0) =
        slotRoom c m i := fun i => by
    cases h : m.activeZone i with
    | none =>
      rw [slotRoom_none h]
      exact Finset.sum_eq_zero fun z _ => if_neg nofun
    | some z =>
      rw [slotRoom_some h, Finset.sum_eq_single z (fun z' _ hz => if_neg fun h => hz ?_) fun h' => ?_,
        if_pos rfl]
      · cases h
        rfl
      · exact absurd (Finset.mem_range.mpr (a.hasRoom_lt (Or.inr ⟨i, h⟩))) h'
  rw [Finset.sum_congr rfl fun z _ => a.zoneRoom_eq z, Finset.sum_add_distrib, hempty,
    Finset.sum_comm, Finset.sum_congr rfl fun i _ => hslot i, room]

end PlaceInv

/-! ## The start -/

theorem placeZone_hasRoom {num : ℕ} {b : BlkZone} (h : placeZone c m num b = some m')
    (hcap : 0 < sectorToBlkid b.capacity) (z : ℕ) :
    HasRoom m' z ↔ HasRoom m z ∨ z = num ∧ b.wpBlock < sectorToBlkid b.capacity := by
  unfold placeZone at h
  simp only at h
  split_ifs at h with h1 h2
  · cases h
    have hlt : b.wpBlock < sectorToBlkid b.capacity := (show b.wpBlock = 0 from h1) ▸ hcap
    rw [HasRoom, HasRoom, List.mem_append, List.mem_singleton, and_iff_left hlt]
    exact or_right_comm
  · obtain ⟨i, hi, rfl⟩ := Option.map_eq_some_iff.mp h
    have hlt : b.wpBlock < sectorToBlkid b.capacity := h2
    have hfree := freeStream_eq hi
    have hact : (∃ j, Function.update m.activeZone i (some num) j = some z) ↔
        (∃ j, m.activeZone j = some z) ∨ z = num := by
      constructor
      · rintro ⟨j, hj⟩
        rw [Function.update_apply] at hj
        split_ifs at hj with e
        · cases hj
          exact Or.inr rfl
        · exact Or.inl ⟨j, hj⟩
      · rintro (⟨j, hj⟩ | rfl)
        · have hne : j ≠ i := by
            rintro rfl
            rw [hfree] at hj
            cases hj
          exact ⟨j, (Function.update_of_ne hne _ _).trans hj⟩
        · exact ⟨i, Function.update_self ..⟩
    rw [HasRoom, HasRoom, and_iff_left hlt, or_assoc]
    exact or_congr_right hact
  · cases h
    have hle : ¬ b.wpBlock < sectorToBlkid b.capacity := h2
    exact (or_iff_left fun h => hle h.2).symm

/-- `lbz_init_zones` gives the zones room by their write pointers, whatever their conditions. -/
theorem initZones_hasRoom : ∀ {l : List BlkZone} {m m' : Zmd} {num : ℕ},
    initZones c m num l = some m' → (∀ b ∈ l, 0 < sectorToBlkid b.capacity) → ∀ z,
    (HasRoom m' z ↔ HasRoom m z ∨ num ≤ z ∧
      ∃ b, l[z - num]? = some b ∧ b.wpBlock < sectorToBlkid b.capacity)
  | [], m, m', num, h, _, z => by
    cases h
    refine (or_iff_left ?_).symm
    rintro ⟨-, b, hb, -⟩
    cases hb
  | b :: l, m, m', num, h, hl, z => by
    obtain ⟨m₂, h1, h2⟩ := Option.bind_eq_some_iff.mp h
    obtain ⟨m₁, h3, h4, -⟩ := initZone_places h1
    rw [initZones_hasRoom h2 (fun b' hb' => hl b' (List.mem_cons_of_mem _ hb')) z, HasRoom.same h4,
      placeZone_hasRoom h3 (hl b List.mem_cons_self), or_assoc]
    refine or_congr_right ?_
    rcases lt_trichotomy z num with hz | rfl | hz
    · exact iff_of_false (by omega) (by omega)
    · rw [Nat.sub_self]
      constructor
      · rintro (h | ⟨h, -⟩)
        · exact ⟨le_rfl, b, rfl, h.2⟩
        · omega
      · rintro ⟨-, b', hb, h⟩
        cases hb
        exact Or.inl ⟨rfl, h⟩
    · have hsub : z - num = z - (num + 1) + 1 := by omega
      rw [hsub, List.getElem?_cons_succ]
      constructor
      · rintro (h | ⟨-, h⟩)
        · omega
        · exact ⟨hz.le, h⟩
      · rintro ⟨-, h⟩
        exact Or.inr ⟨hz, h⟩

variable {o : Options} {report : List BlkZone} {cap : ℕ}

theorem initSys_hasRoom {s : Sys α} (hu : OneCapacity report cap) (h : initSys o report = some s)
    (z : ℕ) : HasRoom s.zmd z ↔
      ∃ b, report[z]? = some b ∧ b.wpBlock < sectorToBlkid b.capacity := by
  obtain ⟨hr, m, h1, rfl⟩ := initSys_eq h
  have hstart : ¬ HasRoom emptyZmd z := by
    rintro (h | ⟨i, h⟩)
    · cases h
    · cases h
  have hcap : ∀ b ∈ report, 0 < sectorToBlkid b.capacity := fun b hb => by
    rw [hu.eq (o := o) hr b hb]
    exact hu.pos hr
  have := initZones_hasRoom h1 hcap z
  rw [Nat.sub_zero, or_iff_right hstart, and_iff_right (Nat.zero_le z)] at this
  exact this

/-! ## The moves -/

section

variable [Inhabited α] {k k' : Core α} {l : Label}

/-- No zone of `P` has room, or is about to get it. -/
structure Shut (P : ℕ → Prop) (k : Core α) : Prop where
  room : ∀ z, P z → ¬ HasRoom k.zmd z
  publish : ∀ z, P z → k.wk ≠ .publish z

omit [Inhabited α] in
theorem Shut.same {P : ℕ → Prop} (a : Shut P k) (hz : SamePlaces k.zmd k'.zmd)
    (hwk : k'.wk = k.wk) : Shut P k' :=
  ⟨fun z h => (HasRoom.same hz).not.mpr (a.room z h), fun z h => hwk ▸ a.publish z h⟩

omit [Inhabited α] in
/-- The worker goes on to a place where it publishes no zone. -/
theorem Shut.wk {P : ℕ → Prop} (a : Shut P k) (he : k'.zmd.emptyZoneList = k.zmd.emptyZoneList)
    (ha : k'.zmd.activeZone = k.zmd.activeZone) (hwk : ∀ z, k'.wk ≠ .publish z) : Shut P k' :=
  ⟨fun z h => by rw [HasRoom, he, ha]; exact a.room z h, fun z _ => hwk z⟩

omit [Inhabited α] in
theorem Shut.takeBlock {P : ℕ → Prop} (a : Shut P k) {i : Fin 2} {z : ℕ}
    (hk : k'.zmd = (takeBlock c k.zmd i z).1) (hwk : k'.wk = k.wk) : Shut P k' := by
  refine ⟨fun z' h hr => a.room z' h ?_, fun z h => hwk ▸ a.publish z h⟩
  rw [hk, Lbz.takeBlock] at hr
  split_ifs at hr
  · rcases hr with hr | ⟨j, hr⟩
    · exact Or.inl hr
    · change Function.update k.zmd.activeZone i none j = some z' at hr
      rw [Function.update_apply] at hr
      split_ifs at hr
      exact Or.inr ⟨j, hr⟩
  · exact hr

/-- A zone gets room from the reset on only. -/
theorem Shut.move {P : ℕ → Prop} (a : Shut P k) (hP : ∀ z, P z → Obs.reset z ∉ k'.hist)
    (hm : Move c k l k') : Shut P k' := by
  cases hm with
  | submitWrite | conflict | insert | fallback | fallbackFail | pend | append | untree | dropRef
  | destroy | destroyCall | readMiss | serve | endRead | retryUsers | retryGcs | nextUser | nextGc
  | retryDone | scanFree | gcServe | gcReadEnd | gcFind | gcInsert | gcFound | gcSkip | gcPass
  | skipEnd | allocFail | devFail | writeFail | serveFail | gcServeFail | gcReadFail | release =>
    exact ⟨a.room, a.publish⟩
  | @openZone i z l ha he =>
    refine ⟨fun z' h hr => a.room z' h ?_, a.publish⟩
    rcases hr with hr | ⟨j, hr⟩
    · exact Or.inl (he ▸ List.mem_cons_of_mem _ hr)
    · change Function.update k.zmd.activeZone i (some z) j = some z' at hr
      rw [Function.update_apply] at hr
      split_ifs at hr
      · cases hr
        exact Or.inl (he ▸ List.mem_cons_self)
      · exact Or.inr ⟨j, hr⟩
  | dispatch | dispatchFail => exact a.takeBlock rfl rfl
  | @apply t z p x =>
    exact a.same ((SamePlaces.invalidateOld c k.zmd (k.mapping x.blkid)).trans
      (.updateReverseMap c _ z p (some x.blkid))) rfl
  | complete | gcWritten | gcWriteFail => exact a.same (.completeWrite _ _) rfl
  | putZone => exact a.same (.putZone _ _) rfl
  | readHit | scanBlock | peek => exact a.same (.getZone _ _) rfl
  | select => exact ⟨a.room, a.publish⟩
  | scanEnd => exact a.same (.modZone _ _ fun x => ⟨rfl, rfl, rfl, rfl⟩) rfl
  | @remap g z v p x =>
    refine a.same ?_ rfl
    change SamePlaces k.zmd (if _ then _ else _)
    split_ifs
    · exact .updateReverseMap c _ _ _ _
    · exact (SamePlaces.updateReverseMap c _ _ _ _).trans (.invalidate c _ _ _)
  | @discard b p => exact a.same (.invalidateOld c k.zmd (some p)) rfl
  | wkStart | wkIdle | wkNext | wkFull | wkSticky | wkFree | wkClose | wkLink | wkEmpty | wkCarried
  | wkFail => exact a.wk rfl rfl fun _ => nofun
  | @wkReset i =>
    refine ⟨a.room, fun z h hwk => hP z h ?_⟩
    cases hwk
    exact List.mem_cons_self
  | @wkPublish i hwk =>
    refine ⟨fun z h hr => ?_, fun _ _ => nofun⟩
    rcases hr with hr | hr
    · rcases List.mem_append.mp hr with hr | hr
      · exact a.room z h (Or.inl hr)
      · rw [List.mem_singleton.mp hr] at h
        exact a.publish i h hwk
    · exact a.room z h (Or.inr hr)

end

/-! ## Runs -/

open scoped Classical in
/-- Of the zones that cannot be written none is allocated, and none is counted. -/
structure OnlyWritable (c : Conf) (report : List BlkZone) (s : Sys α) : Prop where
  alloc : ∀ mod i z, (zoneAllocRes c s.faulty s.zmd mod i).2 = .ok z → ¬ Barred report s.hist z
  counted : s.zmd.nrAllocableBlks = ∑ z ∈ Finset.range c.nrZones,
    if Barred report s.hist z then 0 else zoneRoom c s.zmd z

/-- A zone that is allocated had room. -/
theorem PlaceInv.alloc_hasRoom {z : ℕ} {wk : WkPc} {gcZone : Option ℕ} {pl : ℕ → Place}
    (a : PlaceInv c m wk gcZone pl) {faulty : Bool} {mod : AllocFlag} {i : Fin 2}
    (h : (zoneAllocRes c faulty m mod i).2 = .ok z) : HasRoom m z := by
  cases faulty with
  | true => cases h
  | false =>
    rcases zoneAllocRes_cases (c := c) mod rfl
      (fun z h => a.wp i z ((a.active i z).mp h)) with ⟨h1, -⟩ | ⟨h1, -⟩ | ⟨z', m₁, h1, h2, -, h3⟩
    · rw [h1] at h
      cases h
    · rw [h1] at h
      cases h
    · rw [h1] at h
      cases h
      rcases h3 with rfl | ⟨l, -, h4, -⟩
      · exact Or.inr ⟨i, h2⟩
      · exact Or.inl (h4 ▸ List.mem_cons_self)

theorem kept_shut [Inhabited α] {s₀ s : Sys α} (hu : OneCapacity report cap)
    (hw : ∀ b ∈ report, b.Unwritable → sectorToBlkid b.capacity ≤ b.wpBlock)
    (h0 : initSys o report = some s₀)
    (hrun : Runs (stepRel (step (confOf o report))) (fun _ _ => True) s₀ s) :
    Kept (confOf o report) (fun k => Roomy (confOf o report) k ∧ Shut (Barred report k.hist) k) s := by
  obtain ⟨hN, hB⟩ := base_of_capacity hu h0
  have h1 := roomy_initSys hu h0
  refine Kept.run hN (fun k l k' hB a hm => ⟨a.1.move hB.places hm, ?_⟩) hrun
    ⟨_, ⟨hB, h1, fun z hz hr => ?_, fun z _ => ?_⟩, rfl, fun _ => rfl⟩
  · have hsub := hm.hist_suffix.subset
    have hold : Shut (Barred report k'.hist) k :=
      ⟨fun z h => a.2.room z ⟨h.1, fun hr => h.2 (hsub hr)⟩,
        fun z h => a.2.publish z ⟨h.1, fun hr => h.2 (hsub hr)⟩⟩
    exact hold.move (fun z h => h.2) hm
  · obtain ⟨b, hb, hlt⟩ := (initSys_hasRoom hu h0 z).mp hr
    obtain ⟨⟨b', hb', hu'⟩, -⟩ := hz
    cases hb.symm.trans hb'
    have := hw b (List.mem_of_getElem? hb) hu'
    omega
  · obtain ⟨-, m, -, rfl⟩ := initSys_eq h0
    nofun

/-- **Only writable zones are allocated and counted in every state of every run, exactly if the
report puts the write pointers of the others at the end.** A device that has stopped at a `BUG_ON`
allocates nothing more. -/
theorem onlyWritable_iff [Inhabited α] {s₀ : Sys α} (hu : OneCapacity report cap)
    (h0 : initSys o report = some s₀) :
    (∀ s, Runs (stepRel (step (confOf o report))) (fun _ _ => True) s₀ s → s.bug = none →
      OnlyWritable (confOf o report) report s) ↔
      ∀ b ∈ report, b.Unwritable → sectorToBlkid b.capacity ≤ b.wpBlock := by
  classical
  obtain ⟨hN, hB⟩ := base_of_capacity hu h0
  constructor
  · intro h b hb hw
    obtain ⟨z, hz⟩ := List.mem_iff_getElem?.mp hb
    obtain ⟨-, m, -, hs⟩ := initSys_eq h0
    have hbarred : Barred report s₀.hist z := ⟨⟨b, hz, hw⟩, by rw [hs]; nofun⟩
    have hc := (h s₀ Runs.refl (by rw [hs]; rfl)).counted
    obtain ⟨pl, P⟩ := hB.places
    have hsum := P.sum_zoneRoom
    have hroom : s₀.zmd.nrAllocableBlks = room (confOf o report) s₀.zmd := roomy_initSys hu h0
    by_contra hlt
    have hr : HasRoom s₀.zmd z := (initSys_hasRoom hu h0 z).mpr ⟨b, hz, not_le.mp hlt⟩
    -- what the barred zone has left is missing in the sum
    have hstrict : ∑ z ∈ Finset.range (confOf o report).nrZones,
        (if Barred report s₀.hist z then 0 else zoneRoom (confOf o report) s₀.zmd z) <
          ∑ z ∈ Finset.range (confOf o report).nrZones, zoneRoom (confOf o report) s₀.zmd z := by
      refine Finset.sum_lt_sum (fun z' _ => ?_) ⟨z, Finset.mem_range.mpr (P.hasRoom_lt hr), ?_⟩
      · split_ifs
        · exact P.zoneRoom_nonneg hN z'
        · exact le_rfl
      · rw [if_pos hbarred]
        exact P.zoneRoom_pos hN hr
    rw [← hc, hroom] at hstrict
    exact absurd hsum hstrict.ne'
  · intro hw s hrun hb
    obtain ⟨k, ⟨hB, hroom, hshut⟩, -, hk⟩ := kept_shut hu hw h0 hrun
    cases hk hb
    obtain ⟨pl, P⟩ := hB.places
    refine ⟨fun mod i z h hz => hshut.room z hz (P.alloc_hasRoom h), ?_⟩
    rw [show s.zmd.nrAllocableBlks = _ from hroom, ← P.sum_zoneRoom]
    refine Finset.sum_congr rfl fun z _ => ?_
    split_ifs with hz
    · exact zoneRoom_eq_zero (hshut.room z hz)
    · rfl

/-- The theorem on a full zone that can only be read, and an empty zone. -/
theorem onlyWritable_iff_full : ∃ s₀ : Sys ℕ,
    initSys ⟨true, true, true, 16, 8⟩ [⟨0, 16, 16, 16, .readonly⟩, ⟨16, 16, 16, 16, .empty⟩] = some s₀ ∧
    ∀ s, Runs (stepRel (step (confOf ⟨true, true, true, 16, 8⟩
        [⟨0, 16, 16, 16, .readonly⟩, ⟨16, 16, 16, 16, .empty⟩]))) (fun _ _ => True) s₀ s →
      s.bug = none → OnlyWritable (confOf ⟨true, true, true, 16, 8⟩
        [⟨0, 16, 16, 16, .readonly⟩, ⟨16, 16, 16, 16, .empty⟩])
        [⟨0, 16, 16, 16, .readonly⟩, ⟨16, 16, 16, 16, .empty⟩] s := by
  let o : Options := ⟨true, true, true, 16, 8⟩
  let report : List BlkZone := [⟨0, 16, 16, 16, .readonly⟩, ⟨16, 16, 16, 16, .empty⟩]
  have h0 : initSys o report = some ((initSys o report : Option (Sys ℕ)).get (by decide)) :=
    (Option.some_get _).symm
  have hu : OneCapacity report 16 := ⟨by decide, by decide⟩
  exact ⟨_, h0, (onlyWritable_iff hu h0).mpr (by decide)⟩

/-- The first of three zones can only be read, and nothing is written in it: it is the first to be
allocated. -/
theorem onlyWritable_not_readonly :
    ¬ ∀ (o : Options) (report : List BlkZone) (cap : ℕ) (s₀ s : Sys ℕ), OneCapacity report cap →
      initSys o report = some s₀ →
      Runs (stepRel (step (confOf o report))) (fun _ _ => True) s₀ s → s.bug = none →
      OnlyWritable (confOf o report) report s := by
  intro h
  let o : Options := ⟨true, true, true, 16, 8⟩
  let report : List BlkZone :=
    [⟨0, 16, 0, 16, .readonly⟩, ⟨16, 16, 16, 16, .empty⟩, ⟨32, 16, 32, 16, .empty⟩]
  let s₀ : Sys ℕ := (initSys o report).get (by decide)
  have h1 := (h o report 16 s₀ s₀ ⟨by decide, by decide⟩ (Option.some_get _).symm Runs.refl
    (by decide)).alloc .user 0 0 (by decide +kernel)
  exact h1 ⟨⟨_, rfl, by decide⟩, by decide⟩

end Lbz
