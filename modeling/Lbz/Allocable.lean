import Lbz.Faults
import Lbz.Start
import Mathlib.Algebra.BigOperators.Fin
import Mathlib.Algebra.Order.BigOperators.Group.Finset
import Mathlib.Algebra.Order.Ring.Int

/-!
# The counter of allocable blocks

* `room c m`: the blocks that the empty zones and the active zones have left;
* `Roomy`: `nr_allocable_blks` says just that, and every move keeps it so;
* `gcAllocRes`: the calls of `lbz_zone_alloc_res` that `__submit_gc_task` makes for one block;
* **`allocable_exact`**: in every state of every run, whatever fails in it, the counter is the room
  there is, and a gc allocation finds a block exactly if it is positive;
* `allocable_inexact`: zones of different capacities, or too many blocks for an `int`, break it.
-/

namespace Lbz

variable {α : Type} {c : Conf} {m m' : Zmd}

/-- The blocks left in the slot of stream `i`. -/
def slotRoom (c : Conf) (m : Zmd) (i : Fin 2) : ℤ :=
  match m.activeZone i with
  | none => 0
  | some z => c.zoneNrBlocks - (m.zones z).wpBlock

/-- The blocks left in the empty zones and in the slots. -/
def room (c : Conf) (m : Zmd) : ℤ :=
  c.zoneNrBlocks * m.emptyZoneList.length + ∑ i, slotRoom c m i

theorem slotRoom_none {i : Fin 2} (h : m.activeZone i = none) : slotRoom c m i = 0 := by
  rw [slotRoom, h]

theorem slotRoom_some {i : Fin 2} {z : ℕ} (h : m.activeZone i = some z) :
    slotRoom c m i = c.zoneNrBlocks - (m.zones z).wpBlock := by
  rw [slotRoom, h]

/-- A slot whose zone and write pointer are what they were. -/
theorem slotRoom_congr {i : Fin 2} (ha : m'.activeZone i = m.activeZone i)
    (hz : ∀ z, m.activeZone i = some z → (m'.zones z).wpBlock = (m.zones z).wpBlock) :
    slotRoom c m' i = slotRoom c m i := by
  cases h : m.activeZone i with
  | none => rw [slotRoom_none h, slotRoom_none (ha.trans h)]
  | some z => rw [slotRoom_some h, slotRoom_some (ha.trans h), hz z h]

theorem modZone_wpBlock (m : Zmd) (z : ℕ) {f : Zone → Zone} (hf : ∀ x, (f x).wpBlock = x.wpBlock)
    (z' : ℕ) : ((m.modZone z f).zones z').wpBlock = (m.zones z').wpBlock := by
  rw [Zmd.modZone_zones]
  split_ifs
  · exact hf _
  · rfl

theorem room_congr (he : m'.emptyZoneList = m.emptyZoneList) (ha : m'.activeZone = m.activeZone)
    (hz : ∀ i z, m.activeZone i = some z → (m'.zones z).wpBlock = (m.zones z).wpBlock) :
    room c m' = room c m := by
  rw [room, room, he]
  congr 1
  exact Finset.sum_congr rfl fun i _ => slotRoom_congr (congrFun ha i) (hz i)

/-- Only the slot of stream `i` changes. -/
theorem sum_slotRoom (i : Fin 2) (h : ∀ j ≠ i, slotRoom c m' j = slotRoom c m j) :
    ∑ j, slotRoom c m' j = ∑ j, slotRoom c m j - slotRoom c m i + slotRoom c m' i := by
  rw [← Finset.add_sum_erase _ _ (Finset.mem_univ i), ← Finset.add_sum_erase _ _ (Finset.mem_univ i),
    Finset.sum_congr rfl fun j hj => h j (Finset.ne_of_mem_erase hj)]
  ring

namespace PlaceInv

variable {wk : WkPc} {gcZone : Option ℕ} {pl : ℕ → Place} {i : Fin 2} {z : ℕ}

/-- No zone is in two slots. -/
theorem slot_unique (a : PlaceInv c m wk gcZone pl) {j : Fin 2} (hi : m.activeZone i = some z)
    (hj : m.activeZone j = some z) : j = i := by
  have := ((a.active j z).mp hj).symm.trans ((a.active i z).mp hi)
  cases this
  rfl

theorem slotRoom_nonneg (a : PlaceInv c m wk gcZone pl) (i : Fin 2) : 0 ≤ slotRoom c m i := by
  cases h : m.activeZone i with
  | none => rw [slotRoom_none h]
  | some z =>
    have := a.wp i z ((a.active i z).mp h)
    rw [slotRoom_some h]
    omega

theorem room_nonneg (a : PlaceInv c m wk gcZone pl) : 0 ≤ room c m :=
  add_nonneg (mul_nonneg (Int.natCast_nonneg _) (Int.natCast_nonneg _))
    (Finset.sum_nonneg fun i _ => a.slotRoom_nonneg i)

theorem room_openZone (a : PlaceInv c m wk gcZone pl) {l : List ℕ} (ha : m.activeZone i = none)
    (he : m.emptyZoneList = z :: l) :
    room c (Lbz.openZone { m with
      emptyZoneList := l, emptyZoneCount := m.emptyZoneCount - 1 } i z) = room c m := by
  have hz := (a.empty z).mp (by rw [he]; exact List.mem_cons_self)
  have hw := a.wpEmpty z (Or.inl hz)
  set m' := Lbz.openZone { m with
    emptyZoneList := l, emptyZoneCount := m.emptyZoneCount - 1 } i z with hm'
  have hact : ∀ j, m'.activeZone j = if j = i then some z else m.activeZone j := fun j =>
    Function.update_apply m.activeZone i (some z) j
  have hwp : ∀ z', (m'.zones z').wpBlock = (m.zones z').wpBlock := fun z' => by
    rw [hm', openZone_zones]
    split_ifs <;> rfl
  have hself : slotRoom c m' i = c.zoneNrBlocks := by
    rw [slotRoom_some (by rw [hact, if_pos rfl]), hwp, hw]
    simp
  have hlen : m.emptyZoneList.length = m'.emptyZoneList.length + 1 := by rw [he]; rfl
  rw [room, room, sum_slotRoom (m := m) i fun j hj => slotRoom_congr (by rw [hact, if_neg hj])
    fun z' _ => hwp z', hself, slotRoom_none ha, hlen]
  push_cast
  ring

theorem room_takeBlock (a : PlaceInv c m wk gcZone pl) (hi : m.activeZone i = some z) :
    room c (Lbz.takeBlock c m i z).1 = room c m - 1 := by
  have hother : ∀ (m' : Zmd), m'.emptyZoneList = m.emptyZoneList →
      (∀ j, j ≠ i → m'.activeZone j = m.activeZone j) →
      (∀ z', z' ≠ z → (m'.zones z').wpBlock = (m.zones z').wpBlock) →
      slotRoom c m' i = slotRoom c m i - 1 → room c m' = room c m - 1 := by
    intro m' h1 h2 h3 h4
    have hj : ∀ j ≠ i, slotRoom c m' j = slotRoom c m j := fun j hj =>
      slotRoom_congr (h2 j hj) fun z' h => h3 z' fun e => hj (a.slot_unique hi (e ▸ h))
    rw [room, room, h1, sum_slotRoom i hj, h4]
    ring
  have hwp : ∀ z', ((allocRes m z).zones z').wpBlock =
      if z' = z then (m.zones z').wpBlock + 1 else (m.zones z').wpBlock := fun z' => by
    rw [allocRes_zones]
    split_ifs <;> rfl
  rw [Lbz.takeBlock]
  split_ifs with hfull
  · refine hother _ rfl (fun j hj => Function.update_of_ne hj _ _) (fun z' e => ?_) ?_
    · rw [leaveActive_zones, if_neg e, hwp, if_neg e]
    · rw [hwp, if_pos rfl] at hfull
      rw [slotRoom_none (m := leaveActive _ i z) (Function.update_self ..), slotRoom_some hi]
      omega
  · refine hother _ rfl (fun _ _ => rfl) (fun z' e => ?_) ?_
    · rw [hwp, if_neg e]
    · rw [slotRoom_some (m := allocRes m z) hi, slotRoom_some hi, hwp, if_pos rfl]
      push_cast
      ring

/-- The zones with room are zones of the device, and no zone counts twice. -/
theorem room_le (a : PlaceInv c m wk gcZone pl) : room c m ≤ c.zoneNrBlocks * c.nrZones := by
  let l := (List.finRange 2).filterMap m.activeZone ++ m.emptyZoneList
  have hmem : ∀ z ∈ (List.finRange 2).filterMap m.activeZone, ∃ i, pl z = .active i := fun z h => by
    obtain ⟨i, -, hi⟩ := List.mem_filterMap.mp h
    exact ⟨i, (a.active i z).mp hi⟩
  have hnd : l.Nodup := by
    refine List.Nodup.append ?_ a.emptyNodup fun z h1 h2 => ?_
    · exact List.Nodup.filterMap (fun i j z hi hj => a.slot_unique hj hi) (List.nodup_finRange 2)
    · obtain ⟨i, hi⟩ := hmem z h1
      rw [a.empty, hi] at h2
      cases h2
  have hsub : l ⊆ List.range c.nrZones := fun z hz => by
    rw [List.mem_range]
    by_contra h
    have hout := (a.outside z).mpr (not_lt.mp h)
    rcases List.mem_append.mp hz with hz | hz
    · obtain ⟨i, hi⟩ := hmem z hz
      rw [hout] at hi
      cases hi
    · rw [a.empty, hout] at hz
      cases hz
  have hlen := (List.subperm_of_subset hnd hsub).length_le
  rw [List.length_range, List.length_append] at hlen
  have hslot : ∀ i, slotRoom c m i ≤ c.zoneNrBlocks * (m.activeZone i).toList.length := fun i => by
    cases h : m.activeZone i with
    | none => rw [slotRoom_none h]; simp
    | some z => rw [slotRoom_some h]; simp
  have hfm : ((List.finRange 2).filterMap m.activeZone).length =
      ∑ i, (m.activeZone i).toList.length := by
    rw [Fin.sum_univ_two]
    change ([0, 1].filterMap m.activeZone).length = _
    cases h0 : m.activeZone 0 <;> cases h1 : m.activeZone 1 <;> simp [h0, h1]
  calc room c m ≤ c.zoneNrBlocks * m.emptyZoneList.length +
        ∑ i, c.zoneNrBlocks * (m.activeZone i).toList.length :=
        Int.add_le_add_left (by exact_mod_cast Finset.sum_le_sum fun i _ => hslot i) _
    _ = c.zoneNrBlocks * ((l.length : ℕ) : ℤ) := by
        rw [List.length_append, hfm, ← Finset.mul_sum]
        push_cast
        ring
    _ ≤ c.zoneNrBlocks * c.nrZones :=
        mul_le_mul_of_nonneg_left (by rw [List.length_append]; exact_mod_cast hlen)
          (Int.natCast_nonneg _)

end PlaceInv

/-! ## The moves -/

section

variable [Inhabited α] {k k' : Core α} {l : Label}

/-- `nr_allocable_blks` is the room there is. -/
def Roomy (c : Conf) (k : Core α) : Prop := k.zmd.nrAllocableBlks = room c k.zmd

omit [Inhabited α] in
theorem Roomy.congr (a : Roomy c k) (hn : k'.zmd.nrAllocableBlks = k.zmd.nrAllocableBlks)
    (he : k'.zmd.emptyZoneList = k.zmd.emptyZoneList) (ha : k'.zmd.activeZone = k.zmd.activeZone)
    (hz : ∀ i z, k.zmd.activeZone i = some z →
      (k'.zmd.zones z).wpBlock = (k.zmd.zones z).wpBlock) : Roomy c k' := by
  rw [Roomy, hn, room_congr he ha hz]
  exact a

omit [Inhabited α] in
theorem Roomy.same (a : Roomy c k) (hz : SamePlaces k.zmd k'.zmd) : Roomy c k' :=
  a.congr hz.allocable hz.emptyList hz.active fun _ z _ => hz.wp z

omit [Inhabited α] in
theorem Roomy.takeBlock {wk : WkPc} {gcZone : Option ℕ} {pl : ℕ → Place} {i : Fin 2} {z : ℕ}
    (a : Roomy c k) (P : PlaceInv c k.zmd wk gcZone pl) (hi : k.zmd.activeZone i = some z)
    (hk : k'.zmd = (takeBlock c k.zmd i z).1) : Roomy c k' := by
  rw [Roomy, hk, P.room_takeBlock hi, ← show k.zmd.nrAllocableBlks = _ from a, Lbz.takeBlock]
  split_ifs <;> rfl

/-- **Every move keeps the counter exact.** -/
theorem Roomy.move (P : Places c k) (a : Roomy c k) (hm : Move c k l k') : Roomy c k' := by
  obtain ⟨pl, P⟩ := P
  cases hm with
  | submitWrite | conflict | insert | fallback | fallbackFail | pend | append | untree | dropRef
  | destroy | destroyCall | readMiss | serve | endRead | retryUsers | retryGcs | nextUser | nextGc
  | retryDone | scanFree | gcServe | gcReadEnd | gcFind | gcInsert | gcFound | gcSkip | gcPass
  | skipEnd | allocFail | devFail | writeFail | serveFail | gcServeFail | gcReadFail | release
  | wkStart | wkIdle | wkNext | wkSticky | wkFree | wkEmpty | wkCarried | wkFail => exact a
  | openZone ha he => exact (show k.zmd.nrAllocableBlks = _ from a).trans (P.room_openZone ha he).symm
  | dispatch _ _ _ ha | dispatchFail _ _ _ _ ha => exact a.takeBlock P ha rfl
  | @apply t z p x =>
    exact a.same ((SamePlaces.invalidateOld c k.zmd (k.mapping x.blkid)).trans
      (.updateReverseMap c _ z p (some x.blkid)))
  | complete | gcWritten | gcWriteFail => exact a.same (.completeWrite _ _)
  | putZone => exact a.same (.putZone _ _)
  | readHit | scanBlock | peek => exact a.same (.getZone _ _)
  | @select z mod hpc hbusy hz =>
    refine a.congr rfl rfl rfl fun _ z' _ => ?_
    change ((takeVictim k.zmd z).zones z').wpBlock = _
    rw [takeVictim_zones]
    split_ifs <;> rfl
  | scanEnd => exact a.same (.modZone _ _ fun x => ⟨rfl, rfl, rfl, rfl⟩)
  | @remap g z v p x hx hty hpc hl hz hv hm =>
    refine a.same ?_
    change SamePlaces k.zmd (if _ then _ else _)
    split_ifs
    · exact .updateReverseMap c _ _ _ _
    · exact (SamePlaces.updateReverseMap c _ _ _ _).trans (.invalidate c _ _ _)
  | @discard b p hb => exact a.same (.invalidateOld c k.zmd (some p))
  | @wkFull i =>
    exact a.same (.modZone _ i (f := fun x => { x with state := .closed })
      fun x => ⟨rfl, rfl, rfl, rfl⟩)
  | @wkClose i =>
    refine a.congr rfl rfl rfl fun _ z' _ => ?_
    exact modZone_wpBlock k.zmd i (f := fun x => { x with flags := oneFlag .full })
      (fun _ => rfl) z'
  | wkLink => exact a.congr rfl rfl rfl fun _ _ _ => rfl
  | @wkReset i hwk =>
    -- the victim is in no slot
    refine a.congr rfl rfl rfl fun j z hz => ?_
    have hne : z ≠ i := by
      rintro rfl
      have := (P.active j z).mp hz
      rw [P.reset z hwk] at this
      cases this
    change ((k.zmd.modZone i Zone.reset).zones z).wpBlock = _
    rw [Zmd.modZone_zones, if_neg hne]
  | @wkPublish i =>
    have h : k.zmd.nrAllocableBlks = room c k.zmd := a
    change k.zmd.nrAllocableBlks + c.zoneNrBlocks =
      c.zoneNrBlocks * ((k.zmd.emptyZoneList ++ [i]).length : ℕ) + ∑ j, slotRoom c k.zmd j
    rw [h, room, List.length_append, List.length_singleton]
    push_cast
    ring

end

/-! ## The start -/

theorem roomy_placeZone {b : BlkZone} {num : ℕ} {pl : ℕ → Place}
    (P : PlaceInv (c.upTo num) m .idle none pl) (hN : c.zoneNrBlocks < 2 ^ 31)
    (hcap : sectorToBlkid b.capacity = c.zoneNrBlocks) (a : m.nrAllocableBlks = room c m)
    (h : placeZone c m num b = some m') : m'.nrAllocableBlks = room c m' := by
  have hout : pl num = .outside := (P.outside num).mpr le_rfl
  have hslot : ∀ i, m.activeZone i ≠ some num := fun i h => by
    rw [P.active, hout] at h
    cases h
  have hwp : ∀ (x : Zone) j z, m.activeZone j = some z →
      (Function.update m.zones num x z).wpBlock = (m.zones z).wpBlock := fun x j z hz => by
    have hne : z ≠ num := by
      rintro rfl
      exact hslot j hz
    rw [Function.update_of_ne hne]
  unfold Lbz.placeZone at h
  simp only at h
  split_ifs at h with h1 h2
  · cases h
    have hs : ∀ j, slotRoom c { m with
        zones := Function.update m.zones num
          { ((b.descriptor num).setZoneState .init) with state := .empty }
        nrAllocableBlks := m.nrAllocableBlks + c.zoneNrBlocks
        emptyZoneList := m.emptyZoneList ++ [num]
        emptyZoneCount := m.emptyZoneCount + 1 } j = slotRoom c m j := fun j =>
      slotRoom_congr rfl (hwp _ j)
    rw [room, Finset.sum_congr rfl fun j _ => hs j]
    change m.nrAllocableBlks + (c.zoneNrBlocks : ℤ) =
      c.zoneNrBlocks * ((m.emptyZoneList ++ [num]).length : ℕ) + _
    rw [a, room, List.length_append, List.length_singleton]
    push_cast
    ring
  · obtain ⟨i, hi, rfl⟩ := Option.map_eq_some_iff.mp h
    have hlt : b.wpBlock < c.zoneNrBlocks := hcap ▸ h2
    have hmod : Int.bmod ((c.zoneNrBlocks : ℤ) - b.wpBlock) (2 ^ 32) =
        c.zoneNrBlocks - b.wpBlock := Int.bmod_eq_of_le (by omega) (by omega)
    rw [room, sum_slotRoom (m := m) i fun j hj => slotRoom_congr (Function.update_of_ne hj _ _)
      (hwp _ j), slotRoom_none (freeStream_eq hi), slotRoom_some (Function.update_self ..)]
    change m.nrAllocableBlks + Int.bmod ((c.zoneNrBlocks : ℤ) - b.wpBlock) (2 ^ 32) =
      c.zoneNrBlocks * m.emptyZoneList.length + _
    rw [hmod, a, room]
    simp only [Function.update_self]
    change _ = _ + (_ + ((c.zoneNrBlocks : ℤ) - b.wpBlock))
    ring
  · cases h
    refine a.trans (Eq.symm ?_)
    exact room_congr rfl rfl (hwp _)

theorem roomy_initZones : ∀ {l : List BlkZone} {m m' : Zmd} {num : ℕ} {pl : ℕ → Place},
    PlaceInv (c.upTo num) m .idle none pl → c.zoneNrBlocks < 2 ^ 31 →
    (∀ b ∈ l, sectorToBlkid b.capacity = c.zoneNrBlocks) →
    m.nrAllocableBlks = room c m → initZones c m num l = some m' → m'.nrAllocableBlks = room c m'
  | [], m, m', num, pl, P, _, _, a, h => by
    cases h
    exact a
  | b :: l, m, m', num, pl, P, hN, hl, a, h => by
    obtain ⟨m₂, h1, h2⟩ := Option.bind_eq_some_iff.mp h
    have hcap := hl b List.mem_cons_self
    obtain ⟨m₁, h3, h4, -⟩ := initZone_places h1
    obtain ⟨pl₁, P₁⟩ := P.placeZone (Or.inr hcap) h3
    have a₁ := roomy_placeZone P hN hcap a h3
    have a₂ : m₂.nrAllocableBlks = room c m₂ := by
      rw [h4.allocable, room_congr h4.emptyList h4.active fun _ z _ => h4.wp z, a₁]
    exact roomy_initZones (P₁.same h4) hN (fun b' hb' => hl b' (List.mem_cons_of_mem _ hb')) a₂ h2

/-! ## Allocation -/

/-- `lbz_zone_alloc_res` with `LBZ_ALLOC_FLAG_GC`, for the preferred stream `i` and then for the
other one. -/
def gcAllocRes (c : Conf) (faulty : Bool) (m : Zmd) (i : Fin 2) : Zmd × AllocRet :=
  match zoneAllocRes c faulty m .gc i with
  | (m, .ok z) => (m, .ok z)
  | (m, _) => zoneAllocRes c faulty m .gc (1 - i)

namespace PlaceInv

variable {wk : WkPc} {gcZone : Option ℕ} {pl : ℕ → Place}

/-- Stream `i` gives a block unless it has no zone and there is none to open. -/
theorem alloc_gc (a : PlaceInv c m wk gcZone pl) (i : Fin 2) :
    (∃ z, (zoneAllocRes c false m .gc i).2 = .ok z) ∧
        ¬ (m.activeZone i = none ∧ m.emptyZoneList = []) ∨
      zoneAllocRes c false m .gc i = (m, .noZone) ∧
        m.activeZone i = none ∧ m.emptyZoneList = [] := by
  rcases zoneAllocRes_cases (c := c) (m := m) .gc (i := i) rfl
    (fun z h => a.wp i z ((a.active i z).mp h)) with ⟨-, h⟩ | ⟨h1, h2⟩ | ⟨z, m₁, h1, h2, -, h3⟩
  · cases h
  · exact Or.inr ⟨h1, h2⟩
  · refine Or.inl ⟨⟨z, by rw [h1]⟩, fun ⟨h4, h5⟩ => ?_⟩
    rcases h3 with rfl | ⟨l, -, h6, -⟩
    · rw [h4] at h2
      cases h2
    · rw [h5] at h6
      cases h6

theorem room_pos_iff (a : PlaceInv c m wk gcZone pl) (hN : 0 < c.zoneNrBlocks) :
    0 < room c m ↔ m.emptyZoneList ≠ [] ∨ ∃ i, m.activeZone i ≠ none := by
  constructor
  · intro h
    by_contra hno
    push Not at hno
    obtain ⟨he, hs⟩ := hno
    rw [room, he, Finset.sum_eq_zero fun i _ => slotRoom_none (hs i)] at h
    simp at h
  · rintro (he | ⟨i, hi⟩)
    · have : 0 < m.emptyZoneList.length := List.length_pos_iff.mpr he
      refine add_pos_of_pos_of_nonneg (mul_pos (by exact_mod_cast hN) (by exact_mod_cast this))
        (Finset.sum_nonneg fun i _ => a.slotRoom_nonneg i)
    · obtain ⟨z, hz⟩ := Option.ne_none_iff_exists'.mp hi
      have hlt := a.wp i z ((a.active i z).mp hz)
      have hpos : 0 < slotRoom c m i := by
        rw [slotRoom_some hz]
        omega
      refine add_pos_of_nonneg_of_pos
        (mul_nonneg (Int.natCast_nonneg _) (Int.natCast_nonneg _)) (lt_of_lt_of_le hpos ?_)
      exact Finset.single_le_sum (f := slotRoom c m) (fun j _ => a.slotRoom_nonneg j)
        (Finset.mem_univ i)

/-- A gc allocation finds a block exactly if there is room for one. -/
theorem gcAllocRes_ok (a : PlaceInv c m wk gcZone pl) (hN : 0 < c.zoneNrBlocks) (i : Fin 2) :
    (∃ z, (gcAllocRes c false m i).2 = .ok z) ↔ 0 < room c m := by
  rw [a.room_pos_iff hN]
  have hall : ∀ j : Fin 2, j = i ∨ j = 1 - i := by
    revert i
    decide
  rcases a.alloc_gc i with ⟨⟨z, hz⟩, h1⟩ | ⟨h1, h2, h3⟩
  · refine iff_of_true ⟨z, ?_⟩ ?_
    · rw [gcAllocRes]
      rcases h : zoneAllocRes c false m .gc i with ⟨m', ret⟩
      rw [h] at hz
      cases hz
      rfl
    · by_contra hno
      push Not at hno
      exact h1 ⟨hno.2 i, hno.1⟩
  · rw [gcAllocRes, h1]
    simp only
    rcases a.alloc_gc (1 - i) with ⟨hz, h4⟩ | ⟨h4, h5, -⟩
    · refine iff_of_true hz (Or.inr ⟨1 - i, fun h => h4 ⟨h, h3⟩⟩)
    · rw [h4]
      refine iff_of_false (fun ⟨z, h⟩ => nomatch h) ?_
      rintro (h | ⟨j, hj⟩)
      · exact h h3
      · rcases hall j with rfl | rfl
        · exact hj h2
        · exact hj h5

end PlaceInv

/-! ## Runs -/

/-- `nr_allocable_blks` as the `int` of its `atomic_t`. -/
def Zmd.allocable (m : Zmd) : ℤ := Int.bmod m.nrAllocableBlks (2 ^ 32)

/-- The counter of allocable blocks tells the truth. -/
structure AllocableExact (c : Conf) (s : Sys α) : Prop where
  eq_room : s.zmd.allocable = room c s.zmd
  nonneg : 0 ≤ s.zmd.allocable
  gc : s.faulty = false →
    ∀ i, (∃ z, (gcAllocRes c s.faulty s.zmd i).2 = .ok z) ↔ 0 < s.zmd.allocable

variable {o : Options} {report : List BlkZone} {cap : ℕ}

theorem roomy_initSys {s₀ : Sys α} (hu : OneCapacity report cap) (h0 : initSys o report = some s₀) :
    Roomy (confOf o report) s₀.core := by
  obtain ⟨hr, m, h1, rfl⟩ := initSys_eq h0
  refine roomy_initZones PlaceInv.start ?_ (hu.eq hr) ?_ h1
  · have := hu.range
    rw [zoneNrBlocks_confOf hr hu.same hu.range.2, sectorToBlkid]
    omega
  · simp [room, emptyZmd, slotRoom]

theorem kept_roomy [Inhabited α] {s₀ s : Sys α} (hu : OneCapacity report cap)
    (h0 : initSys o report = some s₀)
    (hrun : Runs (stepRel (step (confOf o report))) (fun _ _ => True) s₀ s) :
    Kept (confOf o report) (Roomy (confOf o report)) s := by
  obtain ⟨hN, hB⟩ := base_of_capacity hu h0
  exact Kept.run hN (fun k l k' hB a hm => a.move hB.places hm) hrun
    ⟨_, ⟨hB, roomy_initSys hu h0⟩, rfl, fun _ => rfl⟩

/-- **In every state of every run the counter of allocable blocks is the room there is**, and a gc
allocation finds a block exactly if it is positive. -/
theorem allocable_exact [Inhabited α] {s₀ s : Sys α} (hu : Uniform report cap)
    (hsize : (confOf o report).nrTotalBlks < 2 ^ 31) (h0 : initSys o report = some s₀)
    (hrun : Runs (stepRel (step (confOf o report))) (fun _ _ => True) s₀ s) :
    AllocableExact (confOf o report) s := by
  have hN := hu.pos (o := o) (initSys_eq h0).1
  obtain ⟨k, ⟨hB, a⟩, hz, -⟩ := kept_roomy hu.oneCapacity h0 hrun
  obtain ⟨pl, P⟩ := hB.places
  rw [Roomy, hz] at a
  rw [hz] at P
  have hle := P.room_le
  have htotal : (confOf o report).nrTotalBlks =
      (confOf o report).zoneNrBlocks * (confOf o report).nrZones := mul_comm _ _
  have hint : s.zmd.allocable = room (confOf o report) s.zmd := by
    rw [Zmd.allocable, a]
    exact Int.bmod_eq_of_le (by have := P.room_nonneg; omega) (by omega)
  refine ⟨hint, hint ▸ P.room_nonneg, fun hf i => ?_⟩
  rw [hf, hint]
  exact P.gcAllocRes_ok hN i

/-- Three zones of two blocks, of which a write has taken one. -/
theorem allocable_exact_run : ∃ s : Sys ℕ, s.zmd.allocable = 5 ∧
    AllocableExact (confOf ⟨true, true, true, 16, 8⟩ (emptyReport 3 16 16)) s := by
  let o : Options := ⟨true, true, true, 16, 8⟩
  have hu : Uniform (emptyReport 3 16 16) 16 := ⟨by decide, by decide, by decide⟩
  let s₀ : Sys ℕ := (initSys o (emptyReport 3 16 16)).get (by decide)
  obtain ⟨s, hrun, h⟩ := exists_run (step (confOf o (emptyReport 3 16 16))) (fun _ _ => True)
    (fun s => decide (s.zmd.allocable = 5)) s₀
    [.submitWrite 0 7 false, .runWrite 0 true, .runWrite 0 true] (by decide +kernel)
  exact ⟨s, of_decide_eq_true h, allocable_exact hu (by decide) (Option.some_get _).symm hrun⟩

/-- Neither assumption can be left out. A full zone of one block comes first, so that an open zone
with two blocks written has one block less than none left; and five zones of nearly `2 ^ 29` blocks
are more than an `int` counts. -/
theorem allocable_inexact :
    (¬ ∀ (o : Options) (report : List BlkZone) (s₀ s : Sys ℕ), o.natSit = true →
      o.streamSupport = true → (∀ b ∈ report, b.cond ≠ .offline ∧ b.cond ≠ .readonly) →
      (confOf o report).nrTotalBlks < 2 ^ 31 → initSys o report = some s₀ →
      Runs (stepRel (step (confOf o report))) (fun _ _ => True) s₀ s →
      AllocableExact (confOf o report) s) ∧
    ¬ ∀ (o : Options) (report : List BlkZone) (cap : ℕ) (s₀ s : Sys ℕ), o.natSit = true →
      o.streamSupport = true → Uniform report cap → initSys o report = some s₀ →
      Runs (stepRel (step (confOf o report))) (fun _ _ => True) s₀ s →
      AllocableExact (confOf o report) s := by
  constructor
  · intro h
    let o : Options := ⟨true, true, true, 32, 8⟩
    let report : List BlkZone := [⟨0, 32, 8, 8, .full⟩, ⟨32, 32, 48, 24, .impOpen⟩]
    let s₀ : Sys ℕ := (initSys o report).get (by decide)
    have h1 := (h o report s₀ s₀ rfl rfl (by decide) (by decide) (Option.some_get _).symm
      Runs.refl).nonneg
    revert h1
    decide
  · intro h
    let o : Options := ⟨true, true, true, 2 ^ 32, 8⟩
    let report : List BlkZone := emptyReport 5 (2 ^ 32) (2 ^ 32 - 8)
    let s₀ : Sys ℕ := (initSys o report).get (by decide)
    have hu : Uniform report (2 ^ 32 - 8) := ⟨by decide, by decide, by decide⟩
    have h1 := (h o report _ s₀ s₀ rfl rfl hu (Option.some_get _).symm Runs.refl).nonneg
    revert h1
    decide

end Lbz
