import Lbz.Move

/-!
# Where each zone is

* `Place`: an empty zone, an active one, a written one that waits to be closed, a full one, the
  victim, and the two places between two sections of the worker;
* `PlaceInv c m wk gcZone pl`: the lists, the slots and the flags all say that zone `z` is in
  `pl z`, so that no zone is lost or in two places;
* `PlaceInv.move`: every move keeps it, for some new `pl`.
-/

namespace Lbz

/-- Where a zone is. -/
inductive Place
  | empty
  | active (i : Fin 2)
  | toFull
  | full
  | gc
  /-- closed, not yet in `full_zone_list` -/
  | linking
  /-- reset, not yet in `empty_zone_list` -/
  | publishing
  /-- no zone of the device -/
  | outside
deriving DecidableEq

/-- The number of zones under garbage collection, with `gcZone` the last victim. -/
def gcCount (gcZone : Option ℕ) (pl : ℕ → Place) : ℤ :=
  match gcZone with
  | some z => if pl z = .gc then 1 else 0
  | none => 0

/-- The number of zones that are reset and not yet in `empty_zone_list`. -/
def publishCount : WkPc → ℤ
  | .publish _ => 1
  | _ => 0

theorem publishCount_eq_zero {wk : WkPc} (h : ∀ z, wk ≠ .publish z) : publishCount wk = 0 := by
  cases wk <;> first | rfl | exact absurd rfl (h _)

theorem gcCount_congr {gcZone : Option ℕ} {pl pl' : ℕ → Place}
    (h : ∀ z, pl' z = .gc ↔ pl z = .gc) : gcCount gcZone pl' = gcCount gcZone pl := by
  cases gcZone with
  | none => rfl
  | some z => exact if_congr (h z) rfl rfl

/-- Zone `z` is in the place `pl z`. -/
structure PlaceInv (c : Conf) (m : Zmd) (wk : WkPc) (gcZone : Option ℕ) (pl : ℕ → Place) :
    Prop where
  outside : ∀ z, pl z = .outside ↔ c.nrZones ≤ z
  empty : ∀ z, z ∈ m.emptyZoneList ↔ pl z = .empty
  emptyNodup : m.emptyZoneList.Nodup
  full : ∀ z, z ∈ m.fullZoneList ↔ pl z = .full
  fullNodup : m.fullZoneList.Nodup
  active : ∀ i z, m.activeZone i = some z ↔ pl z = .active i
  toFull : ∀ z, (m.zones z).flags .toFull = true ↔ pl z = .toFull
  gc : ∀ z, (m.zones z).flags .gc = true ↔ pl z = .gc
  linking : ∀ z, pl z = .linking ↔ wk = .link z
  publishing : ∀ z, pl z = .publishing ↔ wk = .publish z
  closing : ∀ z, wk = .close z → pl z = .toFull
  reset : ∀ z, wk = .reset z → pl z = .gc
  victim : ∀ z, pl z = .gc → gcZone = some z
  stream : ∀ i z, pl z = .active i → (m.zones z).stream = i.val
  wp : ∀ i z, pl z = .active i → (m.zones z).wpBlock < c.zoneNrBlocks
  wpEmpty : ∀ z, pl z = .empty ∨ pl z = .publishing → (m.zones z).wpBlock = 0
  emptyCount : m.emptyZoneCount = m.emptyZoneList.length
  fullCount : m.fullZoneCount = m.fullZoneList.length
  activeCount : m.activeZoneCount = gcCount gcZone pl + publishCount wk

/-- `m'` differs from `m` only in what says nothing of places. -/
structure SamePlaces (m m' : Zmd) : Prop where
  emptyList : m'.emptyZoneList = m.emptyZoneList
  fullList : m'.fullZoneList = m.fullZoneList
  active : m'.activeZone = m.activeZone
  emptyCount : m'.emptyZoneCount = m.emptyZoneCount
  fullCount : m'.fullZoneCount = m.fullZoneCount
  activeCount : m'.activeZoneCount = m.activeZoneCount
  allocable : m'.nrAllocableBlks = m.nrAllocableBlks
  toFull : ∀ z, (m'.zones z).flags .toFull = (m.zones z).flags .toFull
  gc : ∀ z, (m'.zones z).flags .gc = (m.zones z).flags .gc
  wp : ∀ z, (m'.zones z).wpBlock = (m.zones z).wpBlock
  stream : ∀ z, (m'.zones z).stream = (m.zones z).stream

namespace SamePlaces

variable {m m' m'' : Zmd}

theorem trans (h : SamePlaces m m') (h' : SamePlaces m' m'') : SamePlaces m m'' :=
  ⟨h'.emptyList.trans h.emptyList, h'.fullList.trans h.fullList, h'.active.trans h.active,
    h'.emptyCount.trans h.emptyCount, h'.fullCount.trans h.fullCount,
    h'.activeCount.trans h.activeCount, h'.allocable.trans h.allocable,
    fun z => (h'.toFull z).trans (h.toFull z), fun z => (h'.gc z).trans (h.gc z),
    fun z => (h'.wp z).trans (h.wp z), fun z => (h'.stream z).trans (h.stream z)⟩

theorem modZone (m : Zmd) (z : ℕ) {f : Zone → Zone}
    (hf : ∀ x, (f x).flags .toFull = x.flags .toFull ∧ (f x).flags .gc = x.flags .gc ∧
      (f x).wpBlock = x.wpBlock ∧ (f x).stream = x.stream) : SamePlaces m (m.modZone z f) := by
  have key : ∀ {β : Type} (g : Zone → β), (∀ x, g (f x) = g x) →
      ∀ z', g ((m.modZone z f).zones z') = g (m.zones z') := by
    intro β g hg z'
    rw [Zmd.modZone_zones]
    split_ifs
    · exact hg _
    · rfl
  exact ⟨rfl, rfl, rfl, rfl, rfl, rfl, rfl, key (fun x => x.flags .toFull) fun x => (hf x).1,
    key (fun x => x.flags .gc) fun x => (hf x).2.1, key (fun x => x.wpBlock) fun x => (hf x).2.2.1,
    key (fun x => x.stream) fun x => (hf x).2.2.2⟩

theorem getZone (m : Zmd) (z : ℕ) : SamePlaces m (getZone m z) :=
  modZone m z fun _ => ⟨rfl, rfl, rfl, rfl⟩

theorem put_flags (x : Zone) : x.put.flags = x.flags ∧ x.put.wpBlock = x.wpBlock ∧
    x.put.stream = x.stream := by
  unfold Zone.put
  split_ifs <;> exact ⟨rfl, rfl, rfl⟩

theorem putZone (m : Zmd) (z : ℕ) : SamePlaces m (putZone m z) :=
  modZone m z fun x => by
    obtain ⟨h1, h2, h3⟩ := put_flags x
    exact ⟨congrFun h1 _, congrFun h1 _, h2, h3⟩

theorem completeWrite (m : Zmd) (z : ℕ) : SamePlaces m (zoneCompleteWrite m z) :=
  modZone m z fun _ => ⟨rfl, rfl, rfl, rfl⟩

theorem updateReverseMap (c : Conf) (m : Zmd) (z p : ℕ) (v : Option ℕ) :
    SamePlaces m (updateReverseMap c m z p v) :=
  modZone m z fun _ => ⟨rfl, rfl, rfl, rfl⟩

theorem invalidate (c : Conf) (m : Zmd) (z p : ℕ) : SamePlaces m (invalidate c m z p) := by
  have h : SamePlaces (Lbz.updateReverseMap c m z p none) (Lbz.invalidate c m z p) := by
    have := modZone (Lbz.updateReverseMap c m z p none) z
      (f := fun x => { x with weight := x.weight - 1 }) fun _ => ⟨rfl, rfl, rfl, rfl⟩
    exact { this with }
  exact (updateReverseMap c m z p none).trans h

theorem invalidateOld (c : Conf) (m : Zmd) (o : Option ℕ) : SamePlaces m (invalidateOld c m o) := by
  cases o with
  | none => exact ⟨rfl, rfl, rfl, rfl, rfl, rfl, rfl, fun _ => rfl, fun _ => rfl, fun _ => rfl,
      fun _ => rfl⟩
  | some p => exact invalidate c m _ p

end SamePlaces

/-! ## The choice of a victim -/

theorem minZone_mem (m : Zmd) : ∀ (l : List ℕ) (v : ℤ) (o : Option ℕ) (z : ℕ),
    (minZone m l v o).2 = some z → z ∈ l ∨ o = some z
  | [], v, o, z, h => Or.inr h
  | pos :: l, v, o, z, h => by
    rw [minZone] at h
    split_ifs at h
    · rcases minZone_mem m l _ _ z h with h | h
      · exact Or.inl (List.mem_cons_of_mem _ h)
      · exact Or.inl (Option.some.inj h ▸ List.mem_cons_self)
    · rcases minZone_mem m l _ _ z h with h | h
      · exact Or.inl (List.mem_cons_of_mem _ h)
      · exact Or.inr h

/-- The choice comes with the weight of the chosen zone. -/
theorem minZone_weight (m : Zmd) : ∀ (l : List ℕ) (v : ℤ) (o : Option ℕ) (z : ℕ),
    (∀ z', o = some z' → (m.zones z').weight = v) → (minZone m l v o).2 = some z →
    (m.zones z).weight = (minZone m l v o).1 ∧ (minZone m l v o).1 ≤ v
  | [], v, o, z, ho, h => ⟨ho z h, le_rfl⟩
  | pos :: l, v, o, z, ho, h => by
    rw [minZone] at h ⊢
    split_ifs at h ⊢ with hlt
    · obtain ⟨h1, h2⟩ := minZone_weight m l _ _ z (fun z' e => by cases e; rfl) h
      exact ⟨h1, by omega⟩
    · exact minZone_weight m l _ _ z ho h

theorem victim_mem {c : Conf} {m : Zmd} {mod : VictimMod} {z : ℕ} (h : victim c m mod = some z) :
    z ∈ m.fullZoneList := by
  unfold victim at h
  have key := minZone_mem m m.fullZoneList (2 ^ 31 - 1) none
  rcases e : minZone m m.fullZoneList (2 ^ 31 - 1) none with ⟨v, o⟩
  rw [e] at h key
  cases o with
  | none => cases h
  | some z' =>
    simp only at h
    split_ifs at h
    cases h
    exact (key z rfl).resolve_right nofun

/-- A victim has less than a zone of blocks to be moved. -/
theorem victim_weight {c : Conf} {m : Zmd} {mod : VictimMod} {z : ℕ} (h : victim c m mod = some z)
    (h0 : 0 ≤ (m.zones z).weight) : (m.zones z).weight < c.zoneNrBlocks := by
  unfold victim at h
  have key := minZone_weight m m.fullZoneList (2 ^ 31 - 1) none
  rcases e : minZone m m.fullZoneList (2 ^ 31 - 1) none with ⟨v, o⟩
  rw [e] at h key
  cases o with
  | none => cases h
  | some z' =>
    simp only at h
    split_ifs at h with h1
    cases h
    obtain ⟨h2, h3⟩ := key z nofun rfl
    simp only at h2 h3
    rw [h2] at h0 ⊢
    rw [u32] at h1
    omega

theorem nodup_concat {l : List ℕ} {i : ℕ} (hl : l.Nodup) (hi : i ∉ l) : (l ++ [i]).Nodup :=
  (List.perm_append_singleton i l).nodup_iff.mpr (List.nodup_cons.mpr ⟨hi, hl⟩)

theorem update_eq_iff {pl : ℕ → Place} {z : ℕ} {P P' q : Place} (hz : pl z = P) (h1 : q ≠ P)
    (h2 : q ≠ P') (z' : ℕ) : Function.update pl z P' z' = q ↔ pl z' = q := by
  rw [Function.update_apply]
  split_ifs with e
  · rw [e, hz]
    exact iff_of_false h2.symm h1.symm
  · exact Iff.rfl

namespace PlaceInv

variable {c : Conf} {m m' : Zmd} {wk : WkPc} {gcZone : Option ℕ} {pl : ℕ → Place} {i : ℕ}

theorem same (a : PlaceInv c m wk gcZone pl) (h : SamePlaces m m') :
    PlaceInv c m' wk gcZone pl where
  outside := a.outside
  empty := by simpa only [h.emptyList] using a.empty
  emptyNodup := by simpa only [h.emptyList] using a.emptyNodup
  full := by simpa only [h.fullList] using a.full
  fullNodup := by simpa only [h.fullList] using a.fullNodup
  active := by simpa only [h.active] using a.active
  toFull := by simpa only [h.toFull] using a.toFull
  gc := by simpa only [h.gc] using a.gc
  linking := a.linking
  publishing := a.publishing
  closing := a.closing
  reset := a.reset
  victim := a.victim
  stream := by simpa only [h.stream] using a.stream
  wp := by simpa only [h.wp] using a.wp
  wpEmpty := by simpa only [h.wp] using a.wpEmpty
  emptyCount := by rw [h.emptyCount, h.emptyList, a.emptyCount]
  fullCount := by rw [h.fullCount, h.fullList, a.fullCount]
  activeCount := by rw [h.activeCount, a.activeCount]

/-- The worker goes to a place of its own that says nothing of a zone. -/
theorem worker (a : PlaceInv c m wk gcZone pl) {wk' : WkPc} (hl : ∀ z, wk ≠ .link z)
    (hp : ∀ z, wk ≠ .publish z) (hl' : ∀ z, wk' ≠ .link z) (hp' : ∀ z, wk' ≠ .publish z)
    (hc : ∀ z, wk' = .close z → pl z = .toFull) (hr : ∀ z, wk' = .reset z → pl z = .gc) :
    PlaceInv c m wk' gcZone pl :=
  { a with
    linking := fun z => by rw [a.linking]; exact iff_of_false (hl z) (hl' z)
    publishing := fun z => by rw [a.publishing]; exact iff_of_false (hp z) (hp' z)
    closing := hc
    reset := hr
    activeCount := by
      rw [a.activeCount, publishCount_eq_zero hp, publishCount_eq_zero hp'] }

theorem openZone (a : PlaceInv c m wk gcZone pl) (hN : 0 < c.zoneNrBlocks) {i : Fin 2} {z : ℕ}
    {l : List ℕ} (ha : m.activeZone i = none) (he : m.emptyZoneList = z :: l) :
    PlaceInv c (openZone { m with emptyZoneList := l, emptyZoneCount := m.emptyZoneCount - 1 } i z)
      wk gcZone (Function.update pl z (.active i)) := by
  have hz : pl z = .empty := (a.empty z).mp (by rw [he]; exact List.mem_cons_self)
  have hnd := a.emptyNodup
  rw [he, List.nodup_cons] at hnd
  have hw := a.wpEmpty z (Or.inl hz)
  have hpl : ∀ q, q ≠ .empty → q ≠ .active i → ∀ z',
      (Function.update pl z (.active i) z' = q ↔ pl z' = q) := fun q h1 h2 => update_eq_iff hz h1 h2
  have hfl : ∀ z' f, f ≠ .active → ((Lbz.openZone { m with
      emptyZoneList := l, emptyZoneCount := m.emptyZoneCount - 1 } i z).zones z').flags f =
        (m.zones z').flags f := by
    intro z' f hf
    rw [openZone_zones]
    split_ifs
    · exact Function.update_of_ne hf _ _
    · rfl
  have hwp : ∀ z', ((Lbz.openZone { m with
      emptyZoneList := l, emptyZoneCount := m.emptyZoneCount - 1 } i z).zones z').wpBlock =
        (m.zones z').wpBlock := by
    intro z'
    rw [openZone_zones]
    split_ifs <;> rfl
  exact {
    outside := fun z' => by rw [hpl .outside nofun nofun, a.outside]
    empty := fun z' => by
      have h1 := a.empty z'
      rw [he, List.mem_cons] at h1
      by_cases e : z' = z
      · rw [e, Function.update_self]
        exact iff_of_false hnd.1 nofun
      · rw [Function.update_of_ne e, ← h1]
        exact (or_iff_right e).symm
    emptyNodup := hnd.2
    full := fun z' => by rw [hpl .full nofun nofun]; exact a.full z'
    fullNodup := a.fullNodup
    active := fun j z' => by
      have h1 := a.active j z'
      have h2 := a.active j z
      change Function.update m.activeZone i (some z) j = some z' ↔ _
      rw [Function.update_apply, Function.update_apply]
      grind
    toFull := fun z' => by rw [hfl z' .toFull nofun, hpl .toFull nofun nofun, a.toFull]
    gc := fun z' => by rw [hfl z' .gc nofun, hpl .gc nofun nofun, a.gc]
    linking := fun z' => by rw [hpl .linking nofun nofun, a.linking]
    publishing := fun z' => by rw [hpl .publishing nofun nofun, a.publishing]
    closing := fun z' h => by exact (hpl .toFull nofun nofun z').mpr (a.closing z' h)
    reset := fun z' h => by exact (hpl .gc nofun nofun z').mpr (a.reset z' h)
    victim := fun z' h => a.victim z' ((hpl .gc nofun nofun z').mp h)
    stream := fun j z' h => by
      rw [Function.update_apply] at h
      rw [openZone_zones]
      split_ifs at h ⊢
      · cases h
        rfl
      · exact a.stream j z' h
    wp := fun j z' h => by
      rw [hwp]
      rw [Function.update_apply] at h
      split_ifs at h with e
      · rw [e, hw]
        exact hN
      · exact a.wp j z' h
    wpEmpty := fun z' h => by
      rw [hwp]
      rw [Function.update_apply] at h
      split_ifs at h with e
      · rw [e, hw]
      · exact a.wpEmpty z' h
    emptyCount := by
      have := a.emptyCount
      rw [he, List.length_cons] at this
      change m.emptyZoneCount - 1 = l.length
      omega
    fullCount := a.fullCount
    activeCount := by
      rw [gcCount_congr (hpl .gc nofun nofun)]
      exact a.activeCount }

/-- A block is taken from an active zone that has more. -/
theorem take (a : PlaceInv c m wk gcZone pl) {z : ℕ}
    (hlt : (m.zones z).wpBlock + 1 < c.zoneNrBlocks) (hz : pl z ≠ .empty ∧ pl z ≠ .publishing) :
    PlaceInv c (allocRes m z) wk gcZone pl := by
  have key : ∀ z', ((allocRes m z).zones z').flags = (m.zones z').flags ∧
      ((allocRes m z).zones z').stream = (m.zones z').stream := by
    intro z'
    rw [allocRes_zones]
    split_ifs <;> exact ⟨rfl, rfl⟩
  have hwp : ∀ z', z' ≠ z → ((allocRes m z).zones z').wpBlock = (m.zones z').wpBlock := by
    intro z' e
    rw [allocRes_zones, if_neg e]
  exact { a with
    toFull := fun z' => by rw [(key z').1, a.toFull]
    gc := fun z' => by rw [(key z').1, a.gc]
    stream := fun i z' h => by rw [(key z').2, a.stream i z' h]
    wp := fun i z' h => by
      by_cases e : z' = z
      · rw [e, allocRes_zones, if_pos rfl]
        exact hlt
      · rw [hwp z' e]
        exact a.wp i z' h
    wpEmpty := fun z' h => by
      have e : z' ≠ z := by
        rintro rfl
        exact h.elim hz.1 hz.2
      rw [hwp z' e]
      exact a.wpEmpty z' h }

/-- The last block of an active zone is taken, and the zone leaves its slot. -/
theorem fill (a : PlaceInv c m wk gcZone pl) {i : Fin 2} {z : ℕ} (hz : pl z = .active i) :
    PlaceInv c (leaveActive (allocRes m z) i z) wk gcZone (Function.update pl z .toFull) := by
  have hpl : ∀ q, q ≠ .active i → q ≠ .toFull → ∀ z',
      (Function.update pl z .toFull z' = q ↔ pl z' = q) := fun q h1 h2 => update_eq_iff hz h1 h2
  have hother : ∀ z', z' ≠ z → (leaveActive (allocRes m z) i z).zones z' = m.zones z' := by
    intro z' e
    rw [leaveActive_zones, if_neg e, allocRes_zones, if_neg e]
  have hfl : ∀ f, f ≠ .active → f ≠ .toFull →
      ((leaveActive (allocRes m z) i z).zones z).flags f = (m.zones z).flags f := by
    intro f h1 h2
    rw [leaveActive_zones, if_pos rfl, (SamePlaces.put_flags _).1, allocRes_zones, if_pos rfl]
    exact (Function.update_of_ne h2 _ _).trans (Function.update_of_ne h1 _ _)
  have hself : ((leaveActive (allocRes m z) i z).zones z).flags .toFull = true := by
    rw [leaveActive_zones, if_pos rfl, (SamePlaces.put_flags _).1]
    rw [Zone.setZoneState_flags, if_pos rfl]
  have hact : ∀ j z', Function.update m.activeZone i none j = some z' ↔
      Function.update pl z .toFull z' = .active j := by
    intro j z'
    have h1 := a.active j z'
    have h2 := a.active i z
    rw [Function.update_apply, Function.update_apply]
    grind
  exact {
    outside := fun z' => by rw [hpl .outside nofun nofun, a.outside]
    empty := fun z' => by rw [hpl .empty nofun nofun]; exact a.empty z'
    emptyNodup := a.emptyNodup
    full := fun z' => by rw [hpl .full nofun nofun]; exact a.full z'
    fullNodup := a.fullNodup
    active := hact
    toFull := fun z' => by
      by_cases e : z' = z
      · rw [e, hself, Function.update_self]
        exact iff_of_true rfl rfl
      · rw [hother z' e, Function.update_of_ne e, a.toFull]
    gc := fun z' => by
      rw [hpl .gc nofun nofun, ← a.gc]
      by_cases e : z' = z
      · rw [e, hfl .gc nofun nofun]
      · rw [hother z' e]
    linking := fun z' => by rw [hpl .linking nofun nofun, a.linking]
    publishing := fun z' => by rw [hpl .publishing nofun nofun, a.publishing]
    closing := fun z' h => by
      rw [Function.update_apply]
      split_ifs
      · rfl
      · exact a.closing z' h
    reset := fun z' h => (hpl .gc nofun nofun z').mpr (a.reset z' h)
    victim := fun z' h => a.victim z' ((hpl .gc nofun nofun z').mp h)
    stream := fun j z' h => by
      rw [Function.update_apply] at h
      split_ifs at h with e
      rw [hother z' e]
      exact a.stream j z' h
    wp := fun j z' h => by
      rw [Function.update_apply] at h
      split_ifs at h with e
      rw [hother z' e]
      exact a.wp j z' h
    wpEmpty := fun z' h => by
      rw [hpl .empty nofun nofun, hpl .publishing nofun nofun] at h
      have e : z' ≠ z := by
        rintro rfl
        rw [hz] at h
        exact h.elim nofun nofun
      rw [hother z' e]
      exact a.wpEmpty z' h
    emptyCount := a.emptyCount
    fullCount := a.fullCount
    activeCount := by
      rw [gcCount_congr (hpl .gc nofun nofun)]
      exact a.activeCount }

/-- The end of `lbz_zone_alloc_res`. -/
theorem takeBlock (a : PlaceInv c m wk gcZone pl) {i : Fin 2} {z : ℕ}
    (ha : m.activeZone i = some z) : ∃ pl, PlaceInv c (takeBlock c m i z).1 wk gcZone pl := by
  have hz := (a.active i z).mp ha
  have hlt := a.wp i z hz
  have hself : ((allocRes m z).zones z).wpBlock = (m.zones z).wpBlock + 1 := by
    rw [allocRes_zones, if_pos rfl]
  rw [Lbz.takeBlock]
  split_ifs with e
  · exact ⟨_, a.fill hz⟩
  · rw [hself] at e
    exact ⟨pl, a.take (by omega) (by rw [hz]; exact ⟨nofun, nofun⟩)⟩

theorem takeVictim (a : PlaceInv c m wk gcZone pl) {z : ℕ} (hz : pl z = .full)
    (hno : ∀ z', pl z' ≠ .gc) :
    PlaceInv c (takeVictim m z) wk (some z) (Function.update pl z .gc) := by
  have hpl : ∀ q, q ≠ .full → q ≠ .gc → ∀ z',
      (Function.update pl z .gc z' = q ↔ pl z' = q) := fun q h1 h2 => update_eq_iff hz h1 h2
  have hgc : ∀ z', Function.update pl z .gc z' = .gc ↔ z' = z := by
    intro z'
    rw [Function.update_apply]
    split_ifs with e
    · exact iff_of_true rfl e
    · exact iff_of_false (hno z') e
  have hfl : ∀ f, f ≠ .gc → ∀ z', ((Lbz.takeVictim m z).zones z').flags f = (m.zones z').flags f := by
    intro f hf z'
    rw [takeVictim_zones]
    split_ifs
    · exact Function.update_of_ne hf _ _
    · rfl
  have hwp : ∀ z', ((Lbz.takeVictim m z).zones z').wpBlock = (m.zones z').wpBlock ∧
      ((Lbz.takeVictim m z).zones z').stream = (m.zones z').stream := by
    intro z'
    rw [takeVictim_zones]
    split_ifs <;> exact ⟨rfl, rfl⟩
  have hmem : z ∈ m.fullZoneList := (a.full z).mpr hz
  exact {
    outside := fun z' => by rw [hpl .outside nofun nofun, a.outside]
    empty := fun z' => by rw [hpl .empty nofun nofun]; exact a.empty z'
    emptyNodup := a.emptyNodup
    full := fun z' => by
      change z' ∈ m.fullZoneList.erase z ↔ _
      rw [a.fullNodup.mem_erase_iff, a.full, Function.update_apply]
      split_ifs with e
      · exact iff_of_false (fun h => h.1 e) nofun
      · exact and_iff_right e
    fullNodup := a.fullNodup.erase z
    active := fun j z' => by rw [hpl (.active j) nofun nofun]; exact a.active j z'
    toFull := fun z' => by rw [hfl .toFull nofun, hpl .toFull nofun nofun, a.toFull]
    gc := fun z' => by
      rw [hgc, takeVictim_zones]
      split_ifs with e
      · refine iff_of_true ?_ e
        change ((m.zones z').setZoneState .gc).flags .gc = true
        rw [Zone.setZoneState_flags, if_pos rfl]
      · rw [a.gc]
        exact iff_of_false (hno z') e
    linking := fun z' => by rw [hpl .linking nofun nofun, a.linking]
    publishing := fun z' => by rw [hpl .publishing nofun nofun, a.publishing]
    closing := fun z' h => (hpl .toFull nofun nofun z').mpr (a.closing z' h)
    reset := fun z' h => absurd (a.reset z' h) (hno z')
    victim := fun z' h => by rw [(hgc z').mp h]
    stream := fun j z' h => by
      rw [(hwp z').2]
      exact a.stream j z' ((hpl (.active j) nofun nofun z').mp h)
    wp := fun j z' h => by
      rw [(hwp z').1]
      exact a.wp j z' ((hpl (.active j) nofun nofun z').mp h)
    wpEmpty := fun z' h => by
      rw [hpl .empty nofun nofun, hpl .publishing nofun nofun] at h
      rw [(hwp z').1]
      exact a.wpEmpty z' h
    emptyCount := a.emptyCount
    fullCount := by
      have h1 := a.fullCount
      have h2 := List.length_pos_of_mem hmem
      change m.fullZoneCount - 1 = (m.fullZoneList.erase z).length
      rw [List.length_erase_of_mem hmem]
      omega
    activeCount := by
      have h1 := a.activeCount
      have h2 : gcCount gcZone pl = 0 := by
        cases gcZone with
        | none => rfl
        | some z' => exact if_neg (hno z')
      change m.activeZoneCount + 1 = _
      rw [h1, h2, gcCount, if_pos ((hgc z).mpr rfl)]
      ring }

/-- The worker overwrites the flags of a zone that waits to be closed. -/
theorem close (a : PlaceInv c m (.close i) gcZone pl) :
    PlaceInv c (m.modZone i fun x => { x with flags := oneFlag .full }) (.link i) gcZone
      (Function.update pl i .linking) := by
  have hz := a.closing i rfl
  have hpl : ∀ q, q ≠ .toFull → q ≠ .linking → ∀ z',
      (Function.update pl i .linking z' = q ↔ pl z' = q) := fun q h1 h2 => update_eq_iff hz h1 h2
  have hzones : ∀ z', (m.modZone i fun x => { x with flags := oneFlag .full }).zones z' =
      if z' = i then { m.zones z' with flags := oneFlag .full } else m.zones z' :=
    fun z' => Zmd.modZone_zones m i (fun x => { x with flags := oneFlag .full }) z'
  have hwp : ∀ z', ((m.modZone i fun x => { x with flags := oneFlag .full }).zones z').wpBlock =
      (m.zones z').wpBlock ∧ ((m.modZone i fun x => { x with flags := oneFlag .full }).zones
        z').stream = (m.zones z').stream := by
    intro z'
    rw [hzones]
    split_ifs <;> exact ⟨rfl, rfl⟩
  exact {
    outside := fun z' => by rw [hpl .outside nofun nofun, a.outside]
    empty := fun z' => by rw [hpl .empty nofun nofun]; exact a.empty z'
    emptyNodup := a.emptyNodup
    full := fun z' => by rw [hpl .full nofun nofun]; exact a.full z'
    fullNodup := a.fullNodup
    active := fun j z' => by rw [hpl (.active j) nofun nofun]; exact a.active j z'
    toFull := fun z' => by
      rw [hzones, Function.update_apply]
      split_ifs
      · exact iff_of_false nofun nofun
      · exact a.toFull z'
    gc := fun z' => by
      rw [hpl .gc nofun nofun, hzones]
      split_ifs with e
      · rw [e, hz]
        exact iff_of_false nofun nofun
      · exact a.gc z'
    linking := fun z' => by
      rw [Function.update_apply]
      split_ifs with e
      · exact iff_of_true rfl (by rw [e])
      · rw [a.linking]
        exact iff_of_false nofun fun h => e (WkPc.link.inj h).symm
    publishing := fun z' => by
      rw [hpl .publishing nofun nofun, a.publishing]
      exact iff_of_false nofun nofun
    closing := nofun
    reset := nofun
    victim := fun z' h => a.victim z' ((hpl .gc nofun nofun z').mp h)
    stream := fun j z' h => by
      rw [(hwp z').2]
      exact a.stream j z' ((hpl (.active j) nofun nofun z').mp h)
    wp := fun j z' h => by
      rw [(hwp z').1]
      exact a.wp j z' ((hpl (.active j) nofun nofun z').mp h)
    wpEmpty := fun z' h => by
      rw [hpl .empty nofun nofun, hpl .publishing nofun nofun] at h
      rw [(hwp z').1]
      exact a.wpEmpty z' h
    emptyCount := a.emptyCount
    fullCount := a.fullCount
    activeCount := by
      rw [gcCount_congr (hpl .gc nofun nofun)]
      exact a.activeCount }

/-- The closed zone joins `full_zone_list`. -/
theorem link (a : PlaceInv c m (.link i) gcZone pl) {b : Bool} :
    PlaceInv c { m with
      fullZoneList := m.fullZoneList ++ [i], fullZoneCount := m.fullZoneCount + 1 }
      (.visit (i + 1) b) gcZone (Function.update pl i .full) := by
  have hz := (a.linking i).mpr rfl
  have hpl : ∀ q, q ≠ .linking → q ≠ .full → ∀ z',
      (Function.update pl i .full z' = q ↔ pl z' = q) := fun q h1 h2 => update_eq_iff hz h1 h2
  have hnot : i ∉ m.fullZoneList := by
    rw [a.full, hz]
    nofun
  exact {
    outside := fun z' => by rw [hpl .outside nofun nofun, a.outside]
    empty := fun z' => by rw [hpl .empty nofun nofun]; exact a.empty z'
    emptyNodup := a.emptyNodup
    full := fun z' => by
      rw [List.mem_append, List.mem_singleton, a.full, Function.update_apply]
      split_ifs with e
      · exact iff_of_true (Or.inr e) rfl
      · exact or_iff_left e
    fullNodup := nodup_concat a.fullNodup hnot
    active := fun j z' => by rw [hpl (.active j) nofun nofun]; exact a.active j z'
    toFull := fun z' => by rw [hpl .toFull nofun nofun]; exact a.toFull z'
    gc := fun z' => by rw [hpl .gc nofun nofun]; exact a.gc z'
    linking := fun z' => by
      rw [Function.update_apply]
      split_ifs with e
      · exact iff_of_false nofun nofun
      · rw [a.linking]
        exact iff_of_false (fun h => e (WkPc.link.inj h).symm) nofun
    publishing := fun z' => by
      rw [hpl .publishing nofun nofun, a.publishing]
      exact iff_of_false nofun nofun
    closing := nofun
    reset := nofun
    victim := fun z' h => a.victim z' ((hpl .gc nofun nofun z').mp h)
    stream := fun j z' h => a.stream j z' ((hpl (.active j) nofun nofun z').mp h)
    wp := fun j z' h => a.wp j z' ((hpl (.active j) nofun nofun z').mp h)
    wpEmpty := fun z' h => by
      rw [hpl .empty nofun nofun, hpl .publishing nofun nofun] at h
      exact a.wpEmpty z' h
    emptyCount := a.emptyCount
    fullCount := by
      have := a.fullCount
      change m.fullZoneCount + 1 = ((m.fullZoneList ++ [i]).length : ℤ)
      rw [this, List.length_append]
      rfl
    activeCount := by
      rw [gcCount_congr (hpl .gc nofun nofun)]
      exact a.activeCount }

/-- The victim is reset. -/
theorem resetZone (a : PlaceInv c m (.reset i) gcZone pl) :
    PlaceInv c (m.modZone i Zone.reset) (.publish i) gcZone (Function.update pl i .publishing) := by
  have hz := a.reset i rfl
  have hpl : ∀ q, q ≠ .gc → q ≠ .publishing → ∀ z',
      (Function.update pl i .publishing z' = q ↔ pl z' = q) := fun q h1 h2 => update_eq_iff hz h1 h2
  have hother : ∀ z', z' ≠ i → (m.modZone i Zone.reset).zones z' = m.zones z' := fun z' e => by
    rw [Zmd.modZone_zones, if_neg e]
  have hself : (m.modZone i Zone.reset).zones i = (m.zones i).reset := by
    rw [Zmd.modZone_zones, if_pos rfl]
  have hgc : ∀ z', Function.update pl i .publishing z' ≠ .gc := by
    intro z'
    rw [Function.update_apply]
    split_ifs with e
    · nofun
    · intro h
      exact e (Option.some.inj ((a.victim z' h).symm.trans (a.victim i hz)))
  exact {
    outside := fun z' => by rw [hpl .outside nofun nofun, a.outside]
    empty := fun z' => by rw [hpl .empty nofun nofun]; exact a.empty z'
    emptyNodup := a.emptyNodup
    full := fun z' => by rw [hpl .full nofun nofun]; exact a.full z'
    fullNodup := a.fullNodup
    active := fun j z' => by rw [hpl (.active j) nofun nofun]; exact a.active j z'
    toFull := fun z' => by
      rw [hpl .toFull nofun nofun]
      by_cases e : z' = i
      · rw [e, hself, hz]
        exact iff_of_false nofun nofun
      · rw [hother z' e, a.toFull]
    gc := fun z' => by
      by_cases e : z' = i
      · rw [e, hself]
        exact iff_of_false nofun (hgc i)
      · rw [hother z' e, a.gc, Function.update_of_ne e]
    linking := fun z' => by
      rw [hpl .linking nofun nofun, a.linking]
      exact iff_of_false nofun nofun
    publishing := fun z' => by
      rw [Function.update_apply]
      split_ifs with e
      · exact iff_of_true rfl (by rw [e])
      · rw [a.publishing]
        exact iff_of_false nofun fun h => e (WkPc.publish.inj h).symm
    closing := nofun
    reset := nofun
    victim := fun z' h => absurd h (hgc z')
    stream := fun j z' h => by
      rw [hpl (.active j) nofun nofun] at h
      have e : z' ≠ i := by
        rintro rfl
        rw [hz] at h
        cases h
      rw [hother z' e]
      exact a.stream j z' h
    wp := fun j z' h => by
      rw [hpl (.active j) nofun nofun] at h
      have e : z' ≠ i := by
        rintro rfl
        rw [hz] at h
        cases h
      rw [hother z' e]
      exact a.wp j z' h
    wpEmpty := fun z' h => by
      by_cases e : z' = i
      · rw [e, hself]
        rfl
      · rw [hother z' e]
        rw [Function.update_of_ne e] at h
        exact a.wpEmpty z' h
    emptyCount := a.emptyCount
    fullCount := a.fullCount
    activeCount := by
      have h1 := a.activeCount
      have h2 : gcCount gcZone (Function.update pl i .publishing) = 0 := by
        cases gcZone with
        | none => rfl
        | some z' => exact if_neg (hgc z')
      rw [h2]
      rw [a.victim i hz, gcCount, if_pos hz] at h1
      exact h1 }

/-- The reset zone joins `empty_zone_list`. -/
theorem publish (a : PlaceInv c m (.publish i) gcZone pl) {b : Bool} {n : ℤ} :
    PlaceInv c { m with
      emptyZoneList := m.emptyZoneList ++ [i]
      emptyZoneCount := m.emptyZoneCount + 1
      activeZoneCount := m.activeZoneCount - 1
      nrAllocableBlks := n } (.visit (i + 1) b) gcZone (Function.update pl i .empty) := by
  have hz := (a.publishing i).mpr rfl
  have hpl : ∀ q, q ≠ .publishing → q ≠ .empty → ∀ z',
      (Function.update pl i .empty z' = q ↔ pl z' = q) := fun q h1 h2 => update_eq_iff hz h1 h2
  have hnot : i ∉ m.emptyZoneList := by
    rw [a.empty, hz]
    nofun
  exact {
    outside := fun z' => by rw [hpl .outside nofun nofun, a.outside]
    empty := fun z' => by
      rw [List.mem_append, List.mem_singleton, a.empty, Function.update_apply]
      split_ifs with e
      · exact iff_of_true (Or.inr e) rfl
      · exact or_iff_left e
    emptyNodup := nodup_concat a.emptyNodup hnot
    full := fun z' => by rw [hpl .full nofun nofun]; exact a.full z'
    fullNodup := a.fullNodup
    active := fun j z' => by rw [hpl (.active j) nofun nofun]; exact a.active j z'
    toFull := fun z' => by rw [hpl .toFull nofun nofun]; exact a.toFull z'
    gc := fun z' => by rw [hpl .gc nofun nofun]; exact a.gc z'
    linking := fun z' => by
      rw [hpl .linking nofun nofun, a.linking]
      exact iff_of_false nofun nofun
    publishing := fun z' => by
      rw [Function.update_apply]
      split_ifs with e
      · exact iff_of_false nofun nofun
      · rw [a.publishing]
        exact iff_of_false (fun h => e (WkPc.publish.inj h).symm) nofun
    closing := nofun
    reset := nofun
    victim := fun z' h => a.victim z' ((hpl .gc nofun nofun z').mp h)
    stream := fun j z' h => a.stream j z' ((hpl (.active j) nofun nofun z').mp h)
    wp := fun j z' h => a.wp j z' ((hpl (.active j) nofun nofun z').mp h)
    wpEmpty := fun z' h => by
      rcases h with h | h
      · rw [Function.update_apply] at h
        split_ifs at h with e
        · exact a.wpEmpty z' (Or.inr (e ▸ hz))
        · exact a.wpEmpty z' (Or.inl h)
      · rw [Function.update_apply] at h
        split_ifs at h
        exact a.wpEmpty z' (Or.inr h)
    emptyCount := by
      have := a.emptyCount
      change m.emptyZoneCount + 1 = ((m.emptyZoneList ++ [i]).length : ℤ)
      rw [this, List.length_append]
      rfl
    fullCount := a.fullCount
    activeCount := by
      have h1 := a.activeCount
      rw [gcCount_congr (hpl .gc nofun nofun)]
      change m.activeZoneCount - 1 = _ + 0
      change m.activeZoneCount = _ + 1 at h1
      omega }

end PlaceInv

/-! ## The moves -/

variable {α : Type} [Inhabited α] {c : Conf} {k k' : Core α} {l : Label}

/-- Each zone of `k` is in one place. -/
def Places (c : Conf) (k : Core α) : Prop := ∃ pl, PlaceInv c k.zmd k.wk k.gcZone pl

/-- **Every move keeps each zone in one place.** -/
theorem Places.move (hN : 0 < c.zoneNrBlocks) (a : Places c k) (hm : Move c k l k') :
    Places c k' := by
  obtain ⟨pl, a⟩ := a
  cases hm with
  | submitWrite | conflict | insert | fallback | fallbackFail | pend | append | untree | dropRef | destroy
  | destroyCall | readMiss | serve | endRead | retryUsers | retryGcs | nextUser | nextGc
  | retryDone | scanFree | gcServe | gcReadEnd | gcFind | gcInsert | gcFound | gcSkip | gcPass
  | skipEnd | allocFail | devFail | writeFail | serveFail | gcServeFail | gcReadFail | release =>
    exact ⟨pl, a⟩
  | openZone ha he => exact ⟨_, a.openZone hN ha he⟩
  | dispatch _ _ _ ha | dispatchFail _ _ _ _ ha => exact a.takeBlock ha
  | @apply t z p x =>
    exact ⟨pl, (a.same (.invalidateOld c k.zmd (k.mapping x.blkid))).same
      (.updateReverseMap c _ z p (some x.blkid))⟩
  | complete => exact ⟨pl, a.same (.completeWrite _ _)⟩
  | putZone => exact ⟨pl, a.same (.putZone _ _)⟩
  | readHit => exact ⟨pl, a.same (.getZone _ _)⟩
  | @select z mod hpc hbusy hz =>
    refine ⟨_, a.takeVictim ((a.full z).mp (victim_mem hz)) fun z' h => hbusy ?_⟩
    exact ⟨z', a.victim z' h, (a.gc z').mpr h⟩
  | scanBlock => exact ⟨pl, a.same (.getZone _ _)⟩
  | scanEnd => exact ⟨pl, a.same (.modZone _ _ fun x => ⟨rfl, rfl, rfl, rfl⟩)⟩
  | peek => exact ⟨pl, a.same (.getZone _ _)⟩
  | gcWritten | gcWriteFail => exact ⟨pl, a.same (.completeWrite _ _)⟩
  | @remap g z v p x hx hty hpc hl hz hv hm =>
    refine ⟨pl, a.same ?_⟩
    change SamePlaces k.zmd (if _ then _ else _)
    split_ifs
    · exact .updateReverseMap c _ _ _ _
    · exact (SamePlaces.updateReverseMap c _ _ _ _).trans (.invalidate c _ _ _)
  | @discard b p hb => exact ⟨pl, a.same (.invalidateOld c k.zmd (some p))⟩
  | wkStart hwk =>
    rw [hwk] at a
    exact ⟨pl, a.worker nofun nofun nofun nofun nofun nofun⟩
  | wkIdle hwk =>
    rw [hwk] at a
    exact ⟨pl, a.worker nofun nofun nofun nofun nofun nofun⟩
  | wkNext hwk =>
    refine ⟨pl, a.worker ?_ ?_ nofun nofun nofun nofun⟩
    · rcases hwk with hwk | hwk <;> rw [hwk] <;> nofun
    · rcases hwk with hwk | hwk <;> rw [hwk] <;> nofun
  | @wkFull i b hwk hf hs =>
    rw [hwk] at a
    have hz := (a.toFull i).mp hf
    have a' := a.same (.modZone _ i (f := fun x => { x with state := .closed })
      fun x => ⟨rfl, rfl, rfl, rfl⟩)
    exact ⟨pl, a'.worker nofun nofun nofun nofun (fun z h => WkPc.close.inj h ▸ hz) nofun⟩
  | @wkSticky i hwk hf hs =>
    rw [hwk] at a
    have hz := (a.toFull i).mp hf
    exact ⟨pl, a.worker nofun nofun nofun nofun (fun z h => WkPc.close.inj h ▸ hz) nofun⟩
  | wkFree hwk =>
    rw [hwk] at a
    exact ⟨pl, a.worker nofun nofun nofun nofun nofun nofun⟩
  | wkClose hwk =>
    rw [hwk] at a
    exact ⟨_, a.close⟩
  | wkLink hwk =>
    rw [hwk] at a
    exact ⟨_, a.link⟩
  | @wkEmpty i b hwk hf hs =>
    rw [hwk] at a
    have hz := (a.gc i).mp hf
    exact ⟨pl, a.worker nofun nofun nofun nofun nofun fun z h => WkPc.reset.inj h ▸ hz⟩
  | @wkCarried i hwk hf hs =>
    rw [hwk] at a
    have hz := (a.gc i).mp hf
    exact ⟨pl, a.worker nofun nofun nofun nofun nofun fun z h => WkPc.reset.inj h ▸ hz⟩
  | wkReset hwk =>
    rw [hwk] at a
    exact ⟨_, a.resetZone⟩
  | wkFail hwk =>
    rw [hwk] at a
    exact ⟨pl, a.worker nofun nofun nofun nofun nofun nofun⟩
  | wkPublish hwk =>
    rw [hwk] at a
    exact ⟨_, a.publish⟩

end Lbz
