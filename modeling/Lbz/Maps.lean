import Lbz.Lib.Inverse
import Lbz.Geometry

/-!
# The forward map, the reverse maps and the weights

* `reverseEntry c m p`: the reverse-map entry of block `p`, in the zone that contains it;
* `Task.Unapplied z`: the task has a block of zone `z`, and the maps do not know of it yet;
* `MapInv`: the two maps are inverse to each other, what an append has stored is not in them yet,
  and the weight of a zone counts its entries and its unapplied blocks;
* the rules of `MapInv`: a task that stays as it is for the maps (`Quiet`), a block taken, appended,
  stored, discarded, a zone reset.
-/

namespace Lbz

variable {α : Type} {c : Conf} {m m' : Zmd} {z p : ℕ}

/-- The reverse-map entry of block `p`, in the zone that contains it. -/
def reverseEntry (c : Conf) (m : Zmd) (p : ℕ) : Option ℕ :=
  if c.Contains (getZoneByPbid c p) p then
    (m.zones (getZoneByPbid c p)).zrms (c.dis (getZoneByPbid c p) p)
  else none

theorem reverseEntry_of (g : Geom c) (h : c.Contains z p) :
    reverseEntry c m p = (m.zones z).zrms (c.dis z p) := by
  rw [reverseEntry, g.zone_eq h, if_pos h]

theorem contains_of_entry {b : ℕ} (h : reverseEntry c m p = some b) :
    c.Contains (getZoneByPbid c p) p := by
  rw [reverseEntry] at h
  split_ifs at h with hc
  exact hc

theorem reverseEntry_congr (h : ∀ z < c.nrZones, (m'.zones z).zrms = (m.zones z).zrms) :
    reverseEntry c m' = reverseEntry c m := by
  funext p
  rw [reverseEntry, reverseEntry]
  split_ifs with hc
  · rw [h _ hc.1]
  · rfl

theorem updateReverseMap_zones (m : Zmd) (z p : ℕ) (v : Option ℕ) (z' : ℕ) :
    (updateReverseMap c m z p v).zones z' = if z' = z then
      { m.zones z' with zrms := Function.update (m.zones z').zrms (c.dis z p) v } else m.zones z' :=
  Zmd.modZone_zones m z (fun x => { x with zrms := Function.update x.zrms (c.dis z p) v }) z'

theorem invalidate_zones (m : Zmd) (z p z' : ℕ) : (invalidate c m z p).zones z' = if z' = z then
    { m.zones z' with
      zrms := Function.update (m.zones z').zrms (c.dis z p) none
      weight := (m.zones z').weight - 1 } else m.zones z' := by
  have h := Zmd.modZone_zones (updateReverseMap c m z p none) z
    (fun x => { x with weight := x.weight - 1 }) z'
  refine Eq.trans (show (invalidate c m z p).zones z' = _ from h) ?_
  rw [updateReverseMap_zones]
  split_ifs <;> rfl

theorem reverseEntry_update (g : Geom c) (h : c.Contains z p) {v : Option ℕ}
    (hz : ∀ z', (m'.zones z').zrms = if z' = z then
      Function.update (m.zones z').zrms (c.dis z p) v else (m.zones z').zrms) :
    reverseEntry c m' = Function.update (reverseEntry c m) p v := by
  funext q
  rw [Function.update_apply, reverseEntry, reverseEntry]
  by_cases hq : q = p
  · rw [if_pos hq, hq, g.zone_eq h, if_pos h, hz, if_pos rfl, Function.update_self]
  · rw [if_neg hq]
    split_ifs with hc
    · rw [hz]
      split_ifs with e
      · rw [Function.update_of_ne]
        rw [e] at hc ⊢
        rw [g.dis_eq h, g.dis_eq hc]
        have := h.2.1
        have := hc.2.1
        omega
      · rfl
    · rfl

/-- The two updates of a gc callback are about different entries. -/
theorem invalidate_comm (g : Geom c) {v q : ℕ} (hz : c.Contains z p) (hv : c.Contains v q)
    (hpq : p ≠ q) (m : Zmd) (b : Option ℕ) : invalidate c (updateReverseMap c m z p b) v q =
      updateReverseMap c (invalidate c m v q) z p b := by
  have hzones : (invalidate c (updateReverseMap c m z p b) v q).zones =
      (updateReverseMap c (invalidate c m v q) z p b).zones := by
    funext z'
    rw [invalidate_zones, updateReverseMap_zones, updateReverseMap_zones, invalidate_zones]
    by_cases h1 : z' = v <;> by_cases h2 : z' = z
    · rw [if_pos h1, if_pos h2, if_pos h2, if_pos h1]
      have hne : c.dis v q ≠ c.dis z p := by
        rw [g.dis_eq hv, g.dis_eq hz, ← h1, ← h2]
        rw [← h1] at hv
        rw [← h2] at hz
        have := hv.2.1
        have := hz.2.1
        omega
      rw [Function.update_comm hne]
    · rw [if_pos h1, if_neg h2, if_neg h2, if_pos h1]
    · rw [if_neg h1, if_pos h2, if_pos h2, if_neg h1]
    · rw [if_neg h1, if_neg h2, if_neg h2, if_neg h1]
  exact Zmd.ext hzones rfl rfl rfl rfl rfl rfl rfl rfl

/-- `m'` differs from `m` only in what the maps and the weights do not depend on. -/
structure SameMaps (m m' : Zmd) : Prop where
  zrms : ∀ z, (m'.zones z).zrms = (m.zones z).zrms
  weight : ∀ z, (m'.zones z).weight = (m.zones z).weight
  wp : ∀ z, (m'.zones z).wpBlock = (m.zones z).wpBlock
  valid : m'.nrValidBlks = m.nrValidBlks

namespace SameMaps

theorem trans {m'' : Zmd} (h : SameMaps m m') (h' : SameMaps m' m'') : SameMaps m m'' :=
  ⟨fun z => (h'.zrms z).trans (h.zrms z), fun z => (h'.weight z).trans (h.weight z),
    fun z => (h'.wp z).trans (h.wp z), h'.valid.trans h.valid⟩

theorem modZone (m : Zmd) (z : ℕ) {f : Zone → Zone}
    (hf : ∀ x, (f x).zrms = x.zrms ∧ (f x).weight = x.weight ∧ (f x).wpBlock = x.wpBlock) :
    SameMaps m (m.modZone z f) := by
  have key : ∀ {β : Type} (g : Zone → β), (∀ x, g (f x) = g x) →
      ∀ z', g ((m.modZone z f).zones z') = g (m.zones z') := by
    intro β g hg z'
    rw [Zmd.modZone_zones]
    split_ifs
    · exact hg _
    · rfl
  exact ⟨key (fun x => x.zrms) fun x => (hf x).1, key (fun x => x.weight) fun x => (hf x).2.1,
    key (fun x => x.wpBlock) fun x => (hf x).2.2, rfl⟩

theorem put (x : Zone) : x.put.zrms = x.zrms ∧ x.put.weight = x.weight ∧
    x.put.wpBlock = x.wpBlock := by
  unfold Zone.put
  split_ifs <;> exact ⟨rfl, rfl, rfl⟩

theorem putZone (m : Zmd) (z : ℕ) : SameMaps m (putZone m z) := modZone m z put

theorem getZone (m : Zmd) (z : ℕ) : SameMaps m (getZone m z) := modZone m z fun _ => ⟨rfl, rfl, rfl⟩

theorem completeWrite (m : Zmd) (z : ℕ) : SameMaps m (zoneCompleteWrite m z) :=
  modZone m z fun _ => ⟨rfl, rfl, rfl⟩

theorem openZone (m : Zmd) (i : Fin 2) (z : ℕ) : SameMaps m (openZone m i z) := by
  have h := modZone { m with activeZone := Function.update m.activeZone i (some z) } z
    (f := fun x => { (x.setZoneState .active) with
      stream := i.val, refcount := x.refcount + 1, state := .expOpen }) fun _ => ⟨rfl, rfl, rfl⟩
  exact ⟨h.zrms, h.weight, h.wp, h.valid⟩

theorem takeVictim (m : Zmd) (z : ℕ) : SameMaps m (takeVictim m z) := by
  have h := modZone { m with
      fullZoneList := m.fullZoneList.erase z
      fullZoneCount := m.fullZoneCount - 1
      activeZoneCount := m.activeZoneCount + 1 } z
    (f := fun x => { (x.setZoneState .gc) with refcount := x.refcount + 1 })
    fun _ => ⟨rfl, rfl, rfl⟩
  exact ⟨h.zrms, h.weight, h.wp, h.valid⟩

theorem leaveActive (m : Zmd) (i : Fin 2) (z : ℕ) : SameMaps m (leaveActive m i z) := by
  have h1 := modZone m z (f := fun x => (x.clearZoneState .active).setZoneState .toFull)
    fun _ => ⟨rfl, rfl, rfl⟩
  have h2 := h1.trans (putZone _ z)
  exact ⟨h2.zrms, h2.weight, h2.wp, h2.valid⟩

end SameMaps

/-! ## What a task means for the maps -/

/-- The task has a block of zone `z`, and the maps do not know of it yet. -/
def Task.Unapplied (z : ℕ) (x : Task α) : Prop :=
  x.zone = some z ∧ x.status = .dispatch ∧ x.pc ≠ .ended ∧ x.pc ≠ .done

instance (z : ℕ) (x : Task α) : Decidable (x.Unapplied z) := by
  unfold Task.Unapplied; infer_instance

def Task.unappliedIn (z : ℕ) (x : Task α) : ℤ := if x.Unapplied z then 1 else 0

/-- Where the append of the task has landed, while the maps do not know of it. -/
def Task.appended (x : Task α) : Option ℕ :=
  match x.pc with
  | .written p => some p
  | .callback o => o
  | _ => none

/-- The zone that a gc task reads from. -/
def Task.victim (x : Task α) : Option ℕ := x.readZone.or x.zone

theorem Task.Unapplied.unique {x : Task α} {z z' : ℕ} (h : x.Unapplied z) (h' : x.Unapplied z') :
    z = z' := Option.some.inj (h.1.symm.trans h'.1)

/-- `y` is a later state of `x`, and the same for the maps. -/
structure Quiet (x y : Task α) : Prop where
  type : y.type = x.type
  pbid : y.pbid = x.pbid
  victim : x.type = .gc → y.victim = x.victim
  appended : y.appended = x.appended
  unapplied : ∀ z, y.Unapplied z ↔ x.Unapplied z

/-- The invariant of the maps, with the mapping `f`, the tasks `h` and the device `d`; `ph z` is what
zone `z` had in its weight at the start. -/
structure MapInv (c : Conf) (ph : ℕ → ℤ) (m : Zmd) (f : ℕ → Option ℕ) (h : Heap (Task α))
    (d : Phys α) : Prop where
  inverse : Inverse f (reverseEntry c m)
  stored : ∀ b p, f b = some p → d.content p ≠ none
  appended : h.All fun _ x => ∀ p, x.appended = some p →
    (∃ z, x.Unapplied z ∧ c.Contains z p) ∧ reverseEntry c m p = none ∧ d.content p ≠ none
  apart : h.Pairs fun x y => ∀ p, x.appended = some p → y.appended ≠ some p
  zones : h.All fun _ x => ∀ z, x.Unapplied z → z < c.nrZones
  gc : h.All fun _ x => x.type = .gc → ∃ v, x.victim = some v ∧ c.Contains v x.pbid
  weight : ∀ z < c.nrZones, (m.zones z).weight =
    live c.zoneNrBlocks (m.zones z).zrms + h.sum (Task.unappliedIn z) + ph z
  phantom : ∀ z < c.nrZones, 0 ≤ ph z
  wp : ∀ z < c.nrZones, (m.zones z).weight ≤ (m.zones z).wpBlock ∧
    ((m.zones z).wpBlock ≤ c.zoneNrBlocks ∨ c.zoneNrBlocks ≤ ph z)
  valid : m.nrValidBlks = ∑ z ∈ Finset.range c.nrZones, (m.zones z).weight

namespace MapInv

variable {ph : ℕ → ℤ} {f : ℕ → Option ℕ} {h : Heap (Task α)} {d : Phys α} {t b : ℕ} {x : Task α}

theorem weight_ge (a : MapInv c ph m f h d) (hz : z < c.nrZones) : ph z ≤ (m.zones z).weight := by
  have := a.weight z hz
  have : 0 ≤ h.sum (Task.unappliedIn z) := h.sum_nonneg fun x => by
    unfold Task.unappliedIn; split_ifs <;> omega
  omega

theorem weight_nonneg (a : MapInv c ph m f h d) (hz : z < c.nrZones) : 0 ≤ (m.zones z).weight :=
  (a.phantom z hz).trans (a.weight_ge hz)

theorem same (a : MapInv c ph m f h d) (hs : SameMaps m m') : MapInv c ph m' f h d := by
  have hr : reverseEntry c m' = reverseEntry c m := reverseEntry_congr fun z _ => hs.zrms z
  refine ⟨hr ▸ a.inverse, a.stored, ?_, a.apart, a.zones, a.gc, ?_, a.phantom, ?_, ?_⟩
  · rw [hr]
    exact a.appended
  · intro z hz
    rw [hs.weight, hs.zrms]
    exact a.weight z hz
  · intro z hz
    rw [hs.weight, hs.wp]
    exact a.wp z hz
  · rw [hs.valid, a.valid]
    exact Finset.sum_congr rfl fun z _ => (hs.weight z).symm

/-- The weight of one zone changes by `w`. -/
theorem sum_weight {w : ℤ} (hz : z < c.nrZones) (hw : ∀ z', (m'.zones z').weight =
    (m.zones z').weight + if z' = z then w else 0) :
    ∑ z ∈ Finset.range c.nrZones, (m'.zones z).weight =
      ∑ z ∈ Finset.range c.nrZones, (m.zones z).weight + w := by
  rw [Finset.sum_congr rfl fun z' _ => hw z', Finset.sum_add_distrib,
    Finset.sum_ite_eq' _ z, if_pos (Finset.mem_range.mpr hz)]

theorem sum_unapplied_modify {F : Task α → Task α} (hx : h.get t = some x)
    (hu : ∀ z, (F x).Unapplied z ↔ x.Unapplied z) (z : ℕ) :
    (h.modify t F).sum (Task.unappliedIn z) = h.sum (Task.unappliedIn z) := by
  rw [Heap.sum_modify hx, Task.unappliedIn, Task.unappliedIn, if_congr (hu z) rfl rfl]
  ring

theorem quiet (a : MapInv c ph m f h d) (hx : h.get t = some x) {F : Task α → Task α}
    (hq : Quiet x (F x)) : MapInv c ph m f (h.modify t F) d := by
  refine ⟨a.inverse, a.stored, ?_, ?_, ?_, ?_, ?_, a.phantom, a.wp, a.valid⟩
  · refine a.appended.modify_at hx fun hp p he => ?_
    rw [hq.appended] at he
    obtain ⟨⟨z, h1, h2⟩, h3⟩ := hp p he
    exact ⟨⟨z, (hq.unapplied z).mpr h1, h2⟩, h3⟩
  · refine a.apart.modify_at hx fun j y _ _ => ?_
    rw [hq.appended]
    exact ⟨id, id⟩
  · exact a.zones.modify_at hx fun hp z hz => hp z ((hq.unapplied z).mp hz)
  · refine a.gc.modify_at hx fun hp hty => ?_
    rw [hq.type] at hty
    rw [hq.victim hty, hq.pbid]
    exact hp hty
  · intro z hz
    rw [sum_unapplied_modify hx hq.unapplied]
    exact a.weight z hz

theorem alloc (a : MapInv c ph m f h d) (happ : x.appended = none) (hu : ∀ z, ¬ x.Unapplied z)
    (hgc : x.type = .gc → ∃ v, x.victim = some v ∧ c.Contains v x.pbid) :
    MapInv c ph m f (h.alloc x) d := by
  refine ⟨a.inverse, a.stored, a.appended.alloc ?_, a.apart.alloc ?_, a.zones.alloc ?_,
    a.gc.alloc hgc, ?_, a.phantom, a.wp, a.valid⟩
  · intro p hp
    rw [happ] at hp
    cases hp
  · intro i y _
    rw [happ]
    exact ⟨nofun, fun _ _ => nofun⟩
  · exact fun z hz => absurd hz (hu z)
  · intro z hz
    rw [Heap.sum_alloc, Task.unappliedIn, if_neg (hu z), add_zero]
    exact a.weight z hz

theorem free (a : MapInv c ph m f h d) (hx : h.get t = some x) (hu : ∀ z, ¬ x.Unapplied z) :
    MapInv c ph m f (h.free t) d := by
  refine ⟨a.inverse, a.stored, a.appended.free t, a.apart.free t, a.zones.free t, a.gc.free t, ?_,
    a.phantom, a.wp, a.valid⟩
  intro z hz
  rw [Heap.sum_free hx, Task.unappliedIn, if_neg (hu z), sub_zero]
  exact a.weight z hz

/-- A block of zone `z` is taken for a task. -/
theorem take (a : MapInv c ph m f h d) (hx : h.get t = some x) {F : Task α → Task α}
    (hz : z < c.nrZones) (hwp : (m.zones z).wpBlock < c.zoneNrBlocks)
    (hu : ∀ z, ¬ x.Unapplied z) (hu' : (F x).Unapplied z) (happ : (F x).appended = none)
    (hty : (F x).type = x.type) (hpb : (F x).pbid = x.pbid)
    (hvi : x.type = .gc → (F x).victim = x.victim) :
    MapInv c ph (allocRes m z) f (h.modify t F) d := by
  have hzrms : ∀ z', ((allocRes m z).zones z').zrms = (m.zones z').zrms := fun z' => by
    rw [allocRes_zones]
    split_ifs <;> rfl
  have hr : reverseEntry c (allocRes m z) = reverseEntry c m := reverseEntry_congr fun z _ => hzrms z
  refine ⟨hr ▸ a.inverse, a.stored, ?_, ?_, ?_, ?_, ?_, a.phantom, ?_, ?_⟩
  · rw [hr]
    refine a.appended.modify_at hx fun _ p hp => ?_
    rw [happ] at hp
    cases hp
  · refine a.apart.modify_at hx fun j y _ _ => ?_
    rw [happ]
    exact ⟨fun _ _ => nofun, fun _ _ _ => nofun⟩
  · exact a.zones.modify_at hx fun _ z' hz' => hu'.unique hz' ▸ hz
  · refine a.gc.modify_at hx fun hp hty' => ?_
    rw [hty] at hty'
    rw [hvi hty', hpb]
    exact hp hty'
  · intro z' hz'
    rw [hzrms, Heap.sum_modify hx, Task.unappliedIn, Task.unappliedIn, if_neg (hu z')]
    have := a.weight z' hz'
    rw [allocRes_zones]
    by_cases e : z' = z
    · rw [if_pos e, if_pos (e ▸ hu')]
      change (m.zones z').weight + 1 = _
      omega
    · rw [if_neg e, if_neg fun h' => e (hu'.unique h').symm]
      omega
  · intro z' hz'
    have := a.wp z' hz'
    rw [allocRes_zones]
    split_ifs with e
    · subst e
      change (m.zones z').weight + 1 ≤ ((m.zones z').wpBlock + 1 : ℕ) ∧
        ((m.zones z').wpBlock + 1 ≤ _ ∨ _)
      omega
    · exact this
  · change m.nrValidBlks + 1 = _
    rw [a.valid]
    refine (sum_weight hz fun z' => ?_).symm
    rw [allocRes_zones]
    split_ifs
    · rfl
    · rw [add_zero]

/-- The device stores the block of a task at `p`, which was free, and loses nothing. -/
theorem append (a : MapInv c ph m f h d) (hx : h.get t = some x) {F : Task α → Task α}
    {d' : Phys α} (hu : x.Unapplied z) (happ : (F x).appended = some p) (hp : c.Contains z p)
    (hfree : d.content p = none) (hnew : d'.content p ≠ none)
    (hcont : ∀ q, d.content q ≠ none → d'.content q ≠ none)
    (hty : (F x).type = x.type) (hpb : (F x).pbid = x.pbid) (hvi : (F x).victim = x.victim)
    (hu' : ∀ z, (F x).Unapplied z ↔ x.Unapplied z) :
    MapInv c ph m f (h.modify t F) d' := by
  refine ⟨a.inverse, fun b q hq => hcont q (a.stored b q hq), ?_, ?_, ?_, ?_, ?_, a.phantom, a.wp, a.valid⟩
  · have : h.All fun _ x => ∀ q, x.appended = some q → (∃ z, x.Unapplied z ∧ c.Contains z q) ∧
        reverseEntry c m q = none ∧ d'.content q ≠ none :=
      a.appended.imp fun i y _ hy q hq => ⟨(hy q hq).1, (hy q hq).2.1, hcont q (hy q hq).2.2⟩
    refine this.modify_at hx fun _ q hq => ?_
    rw [happ] at hq
    cases hq
    refine ⟨⟨z, (hu' z).mpr hu, hp⟩, ?_, hnew⟩
    cases hre : reverseEntry c m p with
    | none => rfl
    | some b => exact absurd hfree (a.stored b p ((a.inverse b p).mpr hre))
  · refine a.apart.modify_at hx fun j y _ hy => ?_
    -- no other task has been stored at `p`
    have hne : y.appended ≠ some p := fun hq => (a.appended j y hy p hq).2.2 hfree
    rw [happ]
    exact ⟨fun _ q hq => by cases hq; exact hne, fun _ q hq he => by cases he; exact hne hq⟩
  · exact a.zones.modify_at hx fun hp' z' hz' => hp' z' ((hu' z').mp hz')
  · refine a.gc.modify_at hx fun hp' hty' => ?_
    rw [hty] at hty'
    rw [hvi, hpb]
    exact hp' hty'
  · intro z' hz'
    rw [sum_unapplied_modify hx hu']
    exact a.weight z' hz'

/-- Block `b` leaves its position. -/
theorem discard (g : Geom c) (a : MapInv c ph m f h d) (hb : f b = some p) :
    MapInv c ph (invalidateOld c m (some p)) (Function.update f b none) h d := by
  have hre := (a.inverse b p).mp hb
  have hc := contains_of_entry hre
  have hzones := invalidate_zones (c := c) m (getZoneByPbid c p) p
  change MapInv c ph (invalidate c m (getZoneByPbid c p) p) _ _ _
  generalize getZoneByPbid c p = z at hc hzones
  have hr : reverseEntry c (invalidate c m z p) = Function.update (reverseEntry c m) p none :=
    reverseEntry_update g hc fun z' => by
      rw [hzones]
      split_ifs <;> rfl
  have hold : (m.zones z).zrms (c.dis z p) = some b := by rw [← reverseEntry_of g hc, hre]
  refine ⟨hr ▸ a.inverse.erase hb, ?_, ?_, a.apart, a.zones, a.gc, ?_, a.phantom, ?_, ?_⟩
  · intro b' q hq
    rw [Function.update_apply] at hq
    split_ifs at hq
    exact a.stored b' q hq
  · refine a.appended.imp fun i y _ hy q hq => ⟨(hy q hq).1, ?_, (hy q hq).2.2⟩
    rw [hr, Function.update_apply]
    split_ifs
    · rfl
    · exact (hy q hq).2.1
  · intro z' hz'
    have := a.weight z' hz'
    rw [hzones]
    split_ifs with e
    · subst e
      change (m.zones z').weight - 1 = (live _ (Function.update _ _ _) : ℤ) + _ + _
      rw [live_update (g.dis_lt hc), hold]
      simp only [one, Option.isSome_some, Option.isSome_none, if_true, Bool.false_eq_true, if_false]
      omega
    · exact this
  · intro z' hz'
    have := a.wp z' hz'
    rw [hzones]
    split_ifs
    · change (m.zones z').weight - 1 ≤ (m.zones z').wpBlock ∧ _
      exact ⟨by omega, this.2⟩
    · exact this
  · change m.nrValidBlks - 1 = _
    rw [a.valid]
    refine (sum_weight (w := -1) hc.1 fun z' => ?_).symm
    rw [hzones]
    split_ifs
    · rfl
    · rw [add_zero]

/-- The maps take over the block of a task: it has landed at `p`, and its block had no position. -/
theorem store (g : Geom c) (a : MapInv c ph m f h d) (hx : h.get t = some x) {F : Task α → Task α}
    (hu : x.Unapplied z) (hp : x.appended = some p) (hf : f b = none)
    (hu' : ∀ z, ¬ (F x).Unapplied z) (happ : (F x).appended = none)
    (hgc : x.type = .gc → (F x).pbid = x.pbid ∧ (F x).victim = x.victim)
    (hty : (F x).type = x.type) :
    MapInv c ph (updateReverseMap c m z p (some b)) (Function.update f b (some p)) (h.modify t F)
      d := by
  obtain ⟨⟨z', h1, hc⟩, hnone, hcont⟩ := a.appended t x hx p hp
  cases h1.unique hu
  have hzones := updateReverseMap_zones (c := c) m z p (some b)
  have hr : reverseEntry c (updateReverseMap c m z p (some b)) =
      Function.update (reverseEntry c m) p (some b) :=
    reverseEntry_update g hc fun z' => by
      rw [hzones]
      split_ifs <;> rfl
  have hold : (m.zones z).zrms (c.dis z p) = none := by rw [← reverseEntry_of g hc, hnone]
  have hw : ∀ z', ((updateReverseMap c m z p (some b)).zones z').weight = (m.zones z').weight ∧
      ((updateReverseMap c m z p (some b)).zones z').wpBlock = (m.zones z').wpBlock := fun z' => by
    rw [hzones]
    split_ifs <;> exact ⟨rfl, rfl⟩
  refine ⟨hr ▸ a.inverse.insert hf hnone, ?_, ?_, ?_, ?_, ?_, ?_, a.phantom, ?_, ?_⟩
  · intro b' q hq
    rw [Function.update_apply] at hq
    split_ifs at hq
    · cases hq
      exact hcont
    · exact a.stored b' q hq
  · -- another task has landed elsewhere
    intro i y hy q hq
    rw [Heap.get_modify] at hy
    split_ifs at hy with e
    · rw [e, hx] at hy
      cases hy
      rw [happ] at hq
      cases hq
    · obtain ⟨h2, h3, h4⟩ := a.appended i y hy q hq
      refine ⟨h2, ?_, h4⟩
      rw [hr, Function.update_of_ne, h3]
      rintro rfl
      exact a.apart t i x y (Ne.symm e) hx hy q hp hq
  · refine a.apart.modify_at hx fun j y _ _ => ?_
    rw [happ]
    exact ⟨fun _ _ => nofun, fun _ _ _ => nofun⟩
  · exact a.zones.modify_at hx fun _ z' hz' => absurd hz' (hu' z')
  · refine a.gc.modify_at hx fun hp hty' => ?_
    rw [hty] at hty'
    rw [(hgc hty').1, (hgc hty').2]
    exact hp hty'
  · intro z' hz'
    have := a.weight z' hz'
    rw [(hw z').1, Heap.sum_modify hx, Task.unappliedIn, Task.unappliedIn, if_neg (hu' z'), hzones]
    by_cases e : z' = z
    · subst e
      rw [if_pos rfl, if_pos hu]
      change _ = (live _ (Function.update _ _ _) : ℤ) + _ + _
      rw [live_update (g.dis_lt hc), hold]
      simp only [one, Option.isSome_some, Option.isSome_none, if_true, Bool.false_eq_true, if_false]
      omega
    · rw [if_neg e, if_neg fun h' => e (hu.unique h').symm]
      omega
  · intro z' hz'
    rw [(hw z').1, (hw z').2]
    exact a.wp z' hz'
  · change m.nrValidBlks = _
    rw [a.valid]
    exact Finset.sum_congr rfl fun z' _ => (hw z').1.symm

/-- The maps take over the block of a task, in place of what they had for it. -/
theorem apply (g : Geom c) (a : MapInv c ph m f h d) (hx : h.get t = some x) {F : Task α → Task α}
    (hu : x.Unapplied z) (hp : x.appended = some p)
    (hu' : ∀ z, ¬ (F x).Unapplied z) (happ : (F x).appended = none)
    (hgc : x.type = .gc → (F x).pbid = x.pbid ∧ (F x).victim = x.victim)
    (hty : (F x).type = x.type) :
    MapInv c ph (updateReverseMap c (invalidateOld c m (f b)) z p (some b))
      (Function.update f b (some p)) (h.modify t F) d := by
  cases hb : f b with
  | none => exact a.store g hx hu hp hb hu' happ hgc hty
  | some q =>
    have := (a.discard g hb).store (b := b) g hx hu hp (Function.update_self _ _ _) hu' happ hgc hty
    rwa [Function.update_idem] at this

/-- What a gc callback does to the metadata is what a user write does. -/
theorem remap_zmd (g : Geom c) (a : MapInv c ph m f h d) (hx : h.get t = some x) (hty : x.type = .gc)
    (hu : x.Unapplied z) (hp : x.appended = some p) {v : ℕ} (hv : x.readZone = some v)
    (hm : f x.blkid = some x.pbid ∨ f x.blkid = none) :
    (if f x.blkid = none then updateReverseMap c m z p (some x.blkid)
      else invalidate c (updateReverseMap c m z p (some x.blkid)) v x.pbid) =
    updateReverseMap c (invalidateOld c m (f x.blkid)) z p (some x.blkid) := by
  rcases hm with hm | hm
  · obtain ⟨⟨z', h1, hc⟩, hnone, -⟩ := a.appended t x hx p hp
    cases h1.unique hu
    obtain ⟨v', hv', hcv⟩ := a.gc t x hx hty
    rw [Task.victim, hv, Option.some_or] at hv'
    cases hv'
    have hne : p ≠ x.pbid := by
      rintro rfl
      rw [(a.inverse _ _).mp hm] at hnone
      cases hnone
    rw [hm, if_neg nofun, invalidate_comm g hc hcv hne, invalidateOld, g.zone_eq hcv]
  · rw [hm, if_pos rfl, invalidateOld]

/-- A zone of weight 0 is reset. -/
theorem reset (g : Geom c) (a : MapInv c ph m f h d) {i : ℕ} (hi : i < c.nrZones)
    (hw : (m.zones i).weight = 0) : MapInv c ph (m.modZone i Zone.reset) f h (d.resetZone c i) := by
  have hwt := a.weight i hi
  have hph := a.phantom i hi
  have hnn : 0 ≤ h.sum (Task.unappliedIn i) := h.sum_nonneg fun x => by
    unfold Task.unappliedIn; split_ifs <;> omega
  have hlive : live c.zoneNrBlocks (m.zones i).zrms = 0 := by omega
  have hun : ∀ t x, h.get t = some x → ¬ x.Unapplied i := fun t x hx hu => by
    have h1 := Heap.eq_zero_of_sum_eq_zero (w := Task.unappliedIn i)
      (fun x => by unfold Task.unappliedIn; split_ifs <;> omega) (show h.sum _ = 0 by omega) hx
    rw [Task.unappliedIn, if_pos hu] at h1
    cases h1
  have hzones : ∀ z', (m.modZone i Zone.reset).zones z' =
      if z' = i then (m.zones z').reset else m.zones z' := fun z' => Zmd.modZone_zones m i _ z'
  have hr : reverseEntry c (m.modZone i Zone.reset) = reverseEntry c m := by
    funext p
    rw [reverseEntry, reverseEntry]
    split_ifs with hc
    · rw [hzones]
      split_ifs with e
      · rw [e, eq_none_of_live hlive (e ▸ g.dis_lt hc)]
        rfl
      · rfl
    · rfl
  have hne : ∀ p, reverseEntry c m p ≠ none → d.content p ≠ none →
      (d.resetZone c i).content p ≠ none := by
    intro p hp hcont
    change (if _ then none else _) ≠ _
    rw [if_neg]
    · exact hcont
    · intro hin
      cases hre : reverseEntry c m p with
      | none => exact hp hre
      | some b =>
        have hc := contains_of_entry hre
        have e := (g.reset_iff hi hc).mp hin
        rw [reverseEntry, if_pos hc, e, eq_none_of_live hlive (e ▸ g.dis_lt hc)] at hre
        cases hre
  refine ⟨hr ▸ a.inverse, ?_, ?_, a.apart, a.zones, a.gc, ?_, a.phantom, ?_, ?_⟩
  · intro b p hp
    refine hne p ?_ (a.stored b p hp)
    rw [(a.inverse b p).mp hp]
    nofun
  · rw [hr]
    intro t x hx p hp
    obtain ⟨⟨z, hu, hc⟩, h2, h3⟩ := a.appended t x hx p hp
    refine ⟨⟨z, hu, hc⟩, h2, ?_⟩
    change (if _ then none else _) ≠ _
    rw [if_neg]
    · exact h3
    · intro hin
      exact hun t x hx ((g.reset_iff hi hc).mp hin ▸ hu)
  · intro z hz
    rw [hzones]
    split_ifs with e
    · subst e
      change (m.zones z).weight = (live _ (fun _ => none) : ℤ) + _ + _
      rw [live_none, hwt, hlive]
    · exact a.weight z hz
  · intro z hz
    rw [hzones]
    split_ifs with e
    · subst e
      change (m.zones z).weight ≤ (0 : ℕ) ∧ (0 ≤ _ ∨ _)
      omega
    · exact a.wp z hz
  · change m.nrValidBlks = _
    rw [a.valid]
    refine Finset.sum_congr rfl fun z _ => ?_
    rw [hzones]
    split_ifs <;> rfl

end MapInv

end Lbz
