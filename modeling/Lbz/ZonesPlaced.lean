import Lbz.Start
import Mathlib.Data.List.Nodup

/-!
# No zone is lost or in two places

* `InPlace c m z p`: what the lists, the slots and the flags of `m` say of zone `z`;
* `ZonesPlaced`: every zone is in one place, the lists have no zone twice, the counters are exact;
* **`zones_placed`**: so it is in every state of every run of a device with zones of one capacity;
* `zones_placed_nonuniform`: with zones of different capacities it can fail at once.
-/

namespace Lbz

/-- Zone `z` is on no list and in no slot. -/
def OffLists (m : Zmd) (z : ℕ) : Prop :=
  z ∉ m.emptyZoneList ∧ z ∉ m.fullZoneList ∧ ∀ i, m.activeZone i ≠ some z

instance (m : Zmd) (z : ℕ) : Decidable (OffLists m z) := by unfold OffLists; infer_instance

/-- Zone `z` is in the place `p`. -/
def InPlace (c : Conf) (m : Zmd) (z : ℕ) : Place → Prop
  | .empty => z ∈ m.emptyZoneList
  | .active i =>
      m.activeZone i = some z ∧ (m.zones z).stream = i.val ∧ (m.zones z).wpBlock < c.zoneNrBlocks
  | .toFull => OffLists m z ∧ (m.zones z).flags .toFull = true
  | .full => z ∈ m.fullZoneList
  | .gc => OffLists m z ∧ (m.zones z).flags .gc = true
  | _ => False

instance (c : Conf) (m : Zmd) (z : ℕ) (p : Place) : Decidable (InPlace c m z p) := by
  cases p <;> unfold InPlace <;> infer_instance

/-- Each zone of the device is in one place, and the counters are exact. -/
structure ZonesPlaced (c : Conf) (m : Zmd) : Prop where
  place : ∀ z < c.nrZones, ∃! p, InPlace c m z p
  emptyOnce : m.emptyZoneList.Nodup
  fullOnce : m.fullZoneList.Nodup
  oneGc : ∀ z < c.nrZones, ∀ z' < c.nrZones, InPlace c m z .gc → InPlace c m z' .gc → z = z'
  emptyCount : m.emptyZoneCount = m.emptyZoneList.length
  fullCount : m.fullZoneCount = m.fullZoneList.length
  activeCount : m.activeZoneCount =
    ((List.range c.nrZones).countP fun z => (m.zones z).flags .gc : ℕ)

/-- The worker is between two sections that update one zone. -/
def WkPc.midZone : WkPc → Bool
  | .link _ | .publish _ => true
  | _ => false

namespace PlaceInv

variable {c : Conf} {m : Zmd} {wk : WkPc} {gcZone : Option ℕ} {pl : ℕ → Place}

theorem offLists (a : PlaceInv c m wk gcZone pl) {z : ℕ} : OffLists m z ↔
    pl z ≠ .empty ∧ pl z ≠ .full ∧ ∀ i, pl z ≠ .active i := by
  simp only [OffLists, a.empty, a.full, a.active, Ne]

/-- The place of a zone is the only one that it is seen in. -/
theorem inPlace_iff (a : PlaceInv c m wk gcZone pl) {z : ℕ} {p : Place} (h1 : pl z ≠ .linking)
    (h2 : pl z ≠ .publishing) (h3 : pl z ≠ .outside) : InPlace c m z p ↔ p = pl z := by
  cases p with
  | empty => exact (a.empty z).trans eq_comm
  | full => exact (a.full z).trans eq_comm
  | active i =>
    constructor
    · exact fun h => ((a.active i z).mp h.1).symm
    · exact fun h => ⟨(a.active i z).mpr h.symm, a.stream i z h.symm, a.wp i z h.symm⟩
  | toFull =>
    constructor
    · exact fun h => ((a.toFull z).mp h.2).symm
    · intro h
      refine ⟨a.offLists.mpr ?_, (a.toFull z).mpr h.symm⟩
      rw [← h]
      exact ⟨nofun, nofun, nofun⟩
  | gc =>
    constructor
    · exact fun h => ((a.gc z).mp h.2).symm
    · intro h
      refine ⟨a.offLists.mpr ?_, (a.gc z).mpr h.symm⟩
      rw [← h]
      exact ⟨nofun, nofun, nofun⟩
  | linking => exact iff_of_false id h1.symm
  | publishing => exact iff_of_false id h2.symm
  | outside => exact iff_of_false id h3.symm

/-- The zones with `LBZ_ZONE_GC` are the victim, if there is one. -/
theorem countP_gc (a : PlaceInv c m wk gcZone pl) :
    ((List.range c.nrZones).countP fun z => (m.zones z).flags .gc : ℕ) = gcCount gcZone pl := by
  have hgc : ∀ z, (m.zones z).flags .gc = true → gcZone = some z := fun z h =>
    a.victim z ((a.gc z).mp h)
  cases hz : gcZone with
  | none =>
    rw [gcCount, Nat.cast_eq_zero, List.countP_eq_zero]
    intro z _ h
    rw [hgc z h] at hz
    cases hz
  | some v =>
    rw [gcCount]
    split_ifs with hv
    · have hlt : v < c.nrZones := by
        by_contra h
        rw [(a.outside v).mpr (not_lt.mp h)] at hv
        cases hv
      have hcnt : ((List.range c.nrZones).countP fun z => (m.zones z).flags .gc) =
          (List.range c.nrZones).count v := by
        rw [List.count]
        refine List.countP_congr fun z _ => ?_
        rw [beq_iff_eq]
        constructor
        · intro h
          have := hgc z h
          rw [hz] at this
          exact (Option.some.inj this).symm
        · rintro rfl
          exact (a.gc z).mpr hv
      rw [hcnt, List.count_eq_one_of_mem List.nodup_range (List.mem_range.mpr hlt)]
      rfl
    · rw [Nat.cast_eq_zero, List.countP_eq_zero]
      intro z _ h
      have := hgc z h
      rw [hz] at this
      cases this
      exact hv ((a.gc v).mp h)

theorem zonesPlaced (a : PlaceInv c m wk gcZone pl) (hwk : wk.midZone = false) :
    ZonesPlaced c m := by
  have hl : ∀ z, pl z ≠ .linking := fun z h => by
    rw [a.linking] at h
    rw [h] at hwk
    cases hwk
  have hp : ∀ z, pl z ≠ .publishing := fun z h => by
    rw [a.publishing] at h
    rw [h] at hwk
    cases hwk
  have hiff : ∀ z < c.nrZones, ∀ p, InPlace c m z p ↔ p = pl z := fun z hz p =>
    a.inPlace_iff (hl z) (hp z) fun h => absurd ((a.outside z).mp h) (not_le.mpr hz)
  refine ⟨fun z hz => ⟨pl z, (hiff z hz _).mpr rfl, fun p h => (hiff z hz p).mp h⟩, a.emptyNodup,
    a.fullNodup, fun z hz z' hz' h h' => ?_, a.emptyCount, a.fullCount, ?_⟩
  · have h1 := a.victim z ((hiff z hz _).mp h).symm
    have h2 := a.victim z' ((hiff z' hz' _).mp h').symm
    exact Option.some.inj (h1.symm.trans h2)
  · rw [a.countP_gc, a.activeCount, publishCount_eq_zero, add_zero]
    intro z h
    exact hp z ((a.publishing z).mpr h)

end PlaceInv

variable {α : Type} [Inhabited α]

/-- **In every state of every run, each zone is in one place.** -/
theorem zones_placed {o : Options} {report : List BlkZone} {cap : ℕ} {s₀ s : Sys α}
    (hu : Uniform report cap) (h0 : initSys o report = some s₀)
    (hrun : Runs (stepRel (step (confOf o report))) (fun _ e => e.NoError) s₀ s)
    (hwk : s.wk.midZone = false) : ZonesPlaced (confOf o report) s.zmd := by
  obtain ⟨hN, hB⟩ := base_initSys hu h0
  obtain ⟨-, m, -, rfl⟩ := initSys_eq h0
  have h1 : Sound (confOf o report) (fun _ => True) s :=
    Sound.run (fun _ _ => True) (fun _ _ => True) hN
      (fun _ _ _ _ _ _ _ _ => trivial) (fun _ _ _ _ _ _ _ _ => trivial)
      (hrun.mono fun _ _ he => ⟨he, trivial⟩) ⟨rfl, _, fun _ => rfl, ⟨hB, clean_freshSys⟩, trivial⟩
  obtain ⟨-, d, -, ⟨hB', -⟩, -⟩ := h1
  obtain ⟨pl, a⟩ := hB'.places
  exact a.zonesPlaced hwk

/-- Three zones of two blocks: a write of block 0 fills half of the first one. -/
theorem zones_placed_run : ∃ s : Sys ℕ, s.zmd.activeZone 0 = some 0 ∧
    ZonesPlaced (confOf ⟨true, true, true, 16, 8⟩ (emptyReport 3 16 16)) s.zmd := by
  let o : Options := ⟨true, true, true, 16, 8⟩
  have hu : Uniform (emptyReport 3 16 16) 16 := ⟨by decide, by decide, by decide⟩
  let s₀ : Sys ℕ := (initSys o (emptyReport 3 16 16)).get (by decide)
  obtain ⟨s, hrun, h⟩ := exists_run (step (confOf o (emptyReport 3 16 16)))
    (fun _ e => e.NoError) (fun s => decide (s.zmd.activeZone 0 = some 0) && !s.wk.midZone) s₀
    [.submitWrite 0 7 false, .runWrite 0 true, .runWrite 0 true] (by decide +kernel)
  rw [Bool.and_eq_true, decide_eq_true_eq, Bool.not_eq_true'] at h
  obtain ⟨h1, h2⟩ := h
  exact ⟨s, h1, zones_placed hu (Option.some_get _).symm hrun h2⟩

/-- A second zone with room for two blocks is opened with one block written, which is all the
driver takes a zone to have. -/
theorem zones_placed_nonuniform : ¬ ∀ (o : Options) (report : List BlkZone) (s₀ s : Sys ℕ),
    (∀ b ∈ report, b.cond ≠ .offline ∧ b.cond ≠ .readonly) → initSys o report = some s₀ →
    Runs (stepRel (step (confOf o report))) (fun _ e => e.NoError) s₀ s →
    s.wk.midZone = false → ZonesPlaced (confOf o report) s.zmd := by
  intro h
  let o : Options := ⟨false, false, false, 16, 8⟩
  let report : List BlkZone := [⟨0, 16, 0, 8, .empty⟩, ⟨16, 16, 24, 16, .impOpen⟩]
  let s₀ : Sys ℕ := (initSys o report).get (by decide)
  obtain ⟨p, hp, -⟩ := (h o report s₀ s₀ (by decide) (Option.some_get _).symm Runs.refl
    (by decide)).place 1 (by decide)
  revert hp
  cases p with
  | active i => revert i; decide
  | _ => decide

end Lbz
