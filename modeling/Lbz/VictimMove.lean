import Lbz.Later
import Lbz.Settle

/-!
# What a move does to the victim

* `VictimStep x x'`: what a move can do to the zone under garbage collection;
* `GuardInv`: no task writes to the victim, every gc task reads from it, and it is given the state of
  an empty zone only when nobody holds it;
* **`Move.victim`**: every move but the stale ones and the errors leaves the victim alone, up to a
  `VictimStep`, or is the choice of it;
* **`Guard.move`**: such a move keeps `GuardInv`.
-/

namespace Lbz

variable {α : Type} {c : Conf}

/-- A later state of the zone under garbage collection. -/
inductive VictimStep (x : Zone) : Zone → Prop
  | same : VictimStep x x
  | get (h : x.refcount ≠ 0) : VictimStep x { x with refcount := x.refcount + 1 }
  | put (h : x.refcount ≠ 0) : VictimStep x x.put
  /-- the entry `o` is overwritten somewhere else -/
  | erase (o : ℕ) : VictimStep x
      { x with zrms := Function.update x.zrms o none, weight := x.weight - 1 }
  | completed : VictimStep x (x.setZoneState .gcCompleted)

namespace VictimStep

variable {x x' : Zone}

theorem zrms (h : VictimStep x x') {o b : ℕ} (hb : x'.zrms o = some b) : x.zrms o = some b := by
  cases h with
  | put => rwa [(SameMaps.put x).1] at hb
  | erase o' =>
    have hb : Function.update x.zrms o' none o = some b := hb
    rw [Function.update_apply] at hb
    split_ifs at hb
    exact hb
  | _ => exact hb

theorem gc (h : VictimStep x x') : x'.flags .gc = x.flags .gc := by
  cases h with
  | put => rw [(SamePlaces.put_flags x).1]
  | completed => exact Zone.setZoneState_of_ne (by decide) x
  | _ => rfl

theorem wpBlock (h : VictimStep x x') : x'.wpBlock = x.wpBlock := by
  cases h with
  | put => exact (SamePlaces.put_flags x).2.1
  | _ => rfl

/-- A zone that nobody holds keeps the state of an empty zone. -/
theorem stays (h : VictimStep x x') (ht : x.flags .toFull = false) (hs : x.state = .empty) :
    x'.state = .empty := by
  cases h with
  | put =>
    rcases put_state x with ⟨h1, -⟩ | ⟨-, h1, -⟩ | h1
    · exact h1
    · rw [ht] at h1
      cases h1
    · rw [h1, hs]
  | _ => exact hs

/-- A zone gets the state of an empty zone when its last reference goes. -/
theorem empty (h : VictimStep x x') (he : x.state = .empty → x.refcount = 0)
    (hs : x'.state = .empty) : x'.refcount = 0 := by
  cases h with
  | get h => exact absurd (he hs) h
  | put h =>
    rw [(put_counts x).1]
    rcases put_state x with ⟨-, h1, -⟩ | ⟨h1, -⟩ | h1
    · exact h1
    · rw [h1] at hs
      cases hs
    · exact absurd (he (h1 ▸ hs)) h
  | _ => exact he hs

end VictimStep

/-! ## Nobody holds a zone -/

section

variable {k : Core α}

theorem Task.zoneRefs_nonneg (z : ℕ) (x : Task α) : 0 ≤ x.zoneRefs z := by
  unfold Task.zoneRefs
  split_ifs <;> omega

theorem ReadHook.zoneRef_nonneg (z : ℕ) (x : ReadHook α) : 0 ≤ x.zoneRef z := by
  unfold ReadHook.zoneRef
  split_ifs <;> omega

theorem slotRefs_nonneg (a : Fin 2 → Option ℕ) (z : ℕ) : 0 ≤ slotRefs a z := by
  unfold slotRefs
  split_ifs <;> omega

theorem scanRef_nonneg (pc : GcPc) (z : ℕ) : 0 ≤ scanRef pc z := by
  cases pc with
  | idle => exact le_rfl
  | scan z' iter pos =>
    rw [scanRef]
    split_ifs <;> omega

/-- Nobody holds zone `z`. -/
structure Unheld (k : Core α) (z : ℕ) : Prop where
  tasks : k.tasks.All fun _ x => ¬ x.Writes z ∧ ¬ x.Evacuates z
  reads : k.reads.All fun _ x => x.zone ≠ z
  completes : z ∉ k.completes
  puts : ∀ b, (z, b) ∉ k.puts
  slots : ∀ i, k.zmd.activeZone i ≠ some z
  scan : ∀ iter pos, k.gcPc ≠ .scan z iter pos

theorem Counts.unheld (C : Counts k) {z : ℕ} (hz : (k.zmd.zones z).refcount = 0) : Unheld k z := by
  have h := C.refs z
  have h1 := k.tasks.sum_nonneg (Task.zoneRefs_nonneg z)
  have h2 := k.reads.sum_nonneg (ReadHook.zoneRef_nonneg z)
  have h3 := slotRefs_nonneg k.zmd.activeZone z
  have h4 := scanRef_nonneg k.gcPc z
  rw [hz, heldOn] at h
  refine ⟨fun t x hx => ?_, fun r x hx hxz => ?_, fun hm => ?_, fun b hm => ?_,
    Fin.forall_fin_two.mpr ⟨fun hi => ?_, fun hi => ?_⟩, fun iter pos hpc => ?_⟩
  · have := Heap.eq_zero_of_sum_eq_zero (Task.zoneRefs_nonneg z) (by omega) hx
    rw [Task.zoneRefs] at this
    split_ifs at this with h5 h6 h6
    · omega
    · omega
    · omega
    · exact ⟨h5, h6⟩
  · have := Heap.eq_zero_of_sum_eq_zero (ReadHook.zoneRef_nonneg z) (by omega) hx
    rw [ReadHook.zoneRef, if_pos hxz] at this
    omega
  · have : 0 < k.completes.count z := List.count_pos_iff.mpr hm
    omega
  · have : 0 < (k.puts.map Prod.fst).count z :=
      List.count_pos_iff.mpr (List.mem_map.mpr ⟨_, hm, rfl⟩)
    omega
  · rw [slotRefs, if_pos hi] at h h3
    split_ifs at h <;> omega
  · rw [slotRefs, if_pos hi] at h h3
    split_ifs at h <;> omega
  · have h5 : scanRef k.gcPc z = 0 := by omega
    rw [hpc, scanRef, if_pos rfl] at h5
    omega

theorem Counts.held (C : Counts k) {z : ℕ} (hz : ¬ Unheld k z) : (k.zmd.zones z).refcount ≠ 0 :=
  fun h => hz (C.unheld h)

end

/-! ## The guard -/

structure GuardInv (m : Zmd) (h : Heap (Task α)) (pc : GcPc) (wk : WkPc) : Prop where
  quiet : h.All fun _ x => ∀ z, x.Writes z → (m.zones z).flags .gc = false
  victim : h.All fun _ x => ∀ z, x.Evacuates z → (m.zones z).flags .gc = true
  scan : ∀ z iter pos, pc = .scan z iter pos → (m.zones z).flags .gc = true
  reset : ∀ i, wk = .reset i → (m.zones i).flags .gc = true ∧ (m.zones i).state = .empty
  empty : ∀ z, (m.zones z).flags .gc = true → (m.zones z).state = .empty → (m.zones z).refcount = 0

def Guard (k : Core α) : Prop := GuardInv k.zmd k.tasks k.gcPc k.wk

/-! ## Zones that change -/

section

variable (c) (m : Zmd) {z z' : ℕ}

theorem takeBlock_gc (i : Fin 2) (z z' : ℕ) :
    ((takeBlock c m i z).1.zones z').flags .gc = (m.zones z').flags .gc := by
  have h : ((allocRes m z).zones z').flags = (m.zones z').flags := by
    rw [allocRes_zones]
    split_ifs <;> rfl
  rw [takeBlock]
  split_ifs
  · change ((leaveActive _ i z).zones z').flags .gc = _
    rw [leaveActive_zones, ← h]
    split_ifs
    · rw [(SamePlaces.put_flags _).1, Zone.setZoneState_of_ne (by decide),
        Zone.clearZoneState_of_ne (by decide)]
    · rfl
  · exact congrFun h .gc

theorem takeBlock_other (i : Fin 2) (hz : z' ≠ z) :
    (takeBlock c m i z).1.zones z' = m.zones z' := by
  have h : (allocRes m z).zones z' = m.zones z' := by rw [allocRes_zones, if_neg hz]
  rw [takeBlock]
  split_ifs
  · change (leaveActive _ i z).zones z' = _
    rw [leaveActive_zones, if_neg hz, h]
  · exact h

theorem victimStep_invalidate (z p z' : ℕ) :
    VictimStep (m.zones z') ((invalidate c m z p).zones z') := by
  rw [invalidate_zones]
  split_ifs
  · exact .erase _
  · exact .same

theorem victimStep_invalidateOld (o : Option ℕ) (z' : ℕ) :
    VictimStep (m.zones z') ((invalidateOld c m o).zones z') := by
  cases o with
  | none => exact .same
  | some p => exact victimStep_invalidate c m _ p z'

/-- The maps of a zone that is not written to only lose entries. -/
theorem victimStep_store (o : Option ℕ) (p : ℕ) (b : Option ℕ) (hz : z' ≠ z) :
    VictimStep (m.zones z') ((updateReverseMap c (invalidateOld c m o) z p b).zones z') := by
  rw [updateReverseMap_zones, if_neg hz]
  exact victimStep_invalidateOld c m o z'

theorem victimStep_remap (v p q : ℕ) (b : Option ℕ) (P : Prop) [Decidable P] (hz : z' ≠ z) :
    VictimStep (m.zones z') ((if P then updateReverseMap c m z p b
      else invalidate c (updateReverseMap c m z p b) v q).zones z') := by
  have h : (updateReverseMap c m z p b).zones z' = m.zones z' := by
    rw [updateReverseMap_zones, if_neg hz]
  split_ifs
  · rw [h]
    exact .same
  · rw [← h]
    exact victimStep_invalidate c _ v q z'

end

/-! ## Every move -/

section

variable [Inhabited α] {k k' : Core α} {l : Label}

/-- **A move leaves the victim alone**, but for references, entries that are overwritten, and the
end of the scan. -/
theorem Move.victim (B : Base c k) (C : Counts k) (S : Settle c k) (G : Guard k)
    (hE : ∀ b p, k.mapping b = some p → (k.zmd.zones (getZoneByPbid c p)).flags .gc = true →
      (k.zmd.zones (getZoneByPbid c p)).refcount ≠ 0)
    (hf : l ≠ .fault) (hsel : l ≠ .select) (hm : Move c k l k') :
    ∀ z, (k'.zmd.zones z).flags .gc = true → VictimStep (k.zmd.zones z) (k'.zmd.zones z) := by
  obtain ⟨pl, P⟩ := B.places
  have hgc : ∀ {z}, pl z ≠ .gc → (k.zmd.zones z).flags .gc ≠ true := fun h => by
    rw [P.not_gc h]
    rintro ⟨⟩
  intro z hz
  cases hm with
  | dispatchFail | fallbackFail | allocFail | devFail | writeFail | serveFail | gcServeFail
  | gcReadFail | gcWriteFail | release | wkFail => exact absurd rfl hf
  | select => exact absurd rfl hsel
  | @openZone i z₀ l ha he =>
    have hpl : pl z₀ = .empty := (P.empty z₀).mp (by rw [he]; exact List.mem_cons_self)
    have hne : z ≠ z₀ := by
      rintro rfl
      rw [openZone_zones, if_pos rfl] at hz
      exact hgc (by rw [hpl]; rintro ⟨⟩)
        ((Zone.setZoneState_of_ne (show ZoneState.gc ≠ .active by decide) _).symm.trans hz)
    rw [openZone_zones, if_neg hne]
    exact .same
  | @dispatch t z₀ i x log hx hst hpc ha hres hlog =>
    have hpl := (P.active i z₀).mp ha
    have hne : z ≠ z₀ := by
      rintro rfl
      exact hgc (by rw [hpl]; rintro ⟨⟩) ((takeBlock_gc c k.zmd i z z).symm.trans hz)
    rw [takeBlock_other c k.zmd i hne]
    exact .same
  | @apply t z₀ p x hx hty hpc hz₀ =>
    obtain ⟨hst, -⟩ := (B.tasks.shape t x hx).written hpc
    have hng := G.quiet t x hx z₀ ⟨hz₀, by rw [hst]; rfl, by rw [hpc]; rintro ⟨⟩⟩
    refine victimStep_store c k.zmd _ p _ ?_
    rintro rfl
    have := ((SameSettle.invalidateOld c k.zmd (k.mapping x.blkid)).trans
      (.updateReverseMap c _ z p (some x.blkid))).zones z
    rw [this.2.1, hng] at hz
    cases hz
  | @remap g z₀ v p x hx hty hpc hl hz₀ hv hm =>
    obtain ⟨-, hst, -⟩ := (B.tasks.shape g x hx).callback hpc
    have hng := G.quiet g x hx z₀ ⟨hz₀, by rw [hst]; rfl, by rw [hpc]; rintro ⟨⟩⟩
    refine victimStep_remap c k.zmd v p _ _ _ ?_
    rintro rfl
    have := (SameSettle.remap c k.zmd z v p x.pbid (some x.blkid) (k.mapping x.blkid = none)).zones z
    rw [this.2.1, hng] at hz
    cases hz
  | @complete z₀ hz₀ =>
    have hne : z ≠ z₀ := by
      rintro rfl
      rw [zoneCompleteWrite, Zmd.modZone_zones, if_pos rfl] at hz
      have h1 : 0 < k.completes.count z := List.count_pos_iff.mpr hz₀
      have h2 := k.tasks.sum_nonneg (Task.pendingIn_nonneg z)
      have h3 := S.settled z (Or.inr (Or.inr (Or.inl hz)))
      rw [C.pend, writesOn] at h3
      omega
    rw [zoneCompleteWrite, Zmd.modZone_zones, if_neg hne]
    exact .same
  | @gcWritten g z₀ p x hx hty hpc hz₀ =>
    obtain ⟨hst, -⟩ := (B.tasks.shape g x hx).written hpc
    have hng := G.quiet g x hx z₀ ⟨hz₀, by rw [hst]; rfl, by rw [hpc]; rintro ⟨⟩⟩
    have hne : z ≠ z₀ := by
      rintro rfl
      rw [zoneCompleteWrite, Zmd.modZone_zones, if_pos rfl, hng] at hz
      cases hz
    rw [zoneCompleteWrite, Zmd.modZone_zones, if_neg hne]
    exact .same
  | @putZone z₀ b hz₀ =>
    change VictimStep _ ((Lbz.putZone k.zmd z₀).zones z)
    rw [Lbz.putZone, Zmd.modZone_zones]
    split_ifs with e
    · exact .put (C.held fun h => h.puts b (e ▸ hz₀))
    · exact .same
  | @readHit b p hb | @peek b p hb =>
    rw [getZone, Zmd.modZone_zones] at hz
    rw [getZone, Zmd.modZone_zones]
    split_ifs at hz ⊢ with e
    · subst e
      exact .get (hE b p hb hz)
    · exact .same
  | @scanBlock z₀ iter b hpc hi =>
    change VictimStep _ ((getZone k.zmd z₀).zones z)
    rw [getZone, Zmd.modZone_zones]
    split_ifs with e
    · exact .get (C.held fun h => h.scan _ _ (e ▸ hpc))
    · exact .same
  | @scanEnd z₀ iter pos hpc hi =>
    change VictimStep _ ((k.zmd.modZone z₀ _).zones z)
    rw [Zmd.modZone_zones]
    split_ifs
    · exact .completed
    · exact .same
  | @wkFull i b hwk hfl hs =>
    have hne : z ≠ i := by
      rintro rfl
      rw [Zmd.modZone_zones, if_pos rfl] at hz
      exact hgc (by rw [(P.toFull z).mp hfl]; rintro ⟨⟩) hz
    rw [Zmd.modZone_zones, if_neg hne]
    exact .same
  | @wkClose i | @wkReset i =>
    have hne : z ≠ i := by
      rintro rfl
      rw [Zmd.modZone_zones, if_pos rfl] at hz
      cases hz
    rw [Zmd.modZone_zones, if_neg hne]
    exact .same
  | @discard b p hb => exact victimStep_invalidateOld c k.zmd (some p) z
  | _ => exact .same

omit [Inhabited α] in
/-- Without a last victim, no zone is under garbage collection. -/
theorem not_gc_of_not_busy (B : Base c k) (hb : ¬ k.Busy) (z : ℕ) :
    (k.zmd.zones z).flags .gc = false := by
  obtain ⟨pl, P⟩ := B.places
  by_contra h
  have h : (k.zmd.zones z).flags .gc = true := Bool.eq_true_of_not_eq_false h
  exact hb ⟨z, P.victim z ((P.gc z).mp h), h⟩

omit [Inhabited α] in
/-- The zone chosen as victim is full, and nobody writes to it. -/
theorem select_quiet (B : Base c k) (C : Counts k) (S : Settle c k) (G : Guard k) (hb : ¬ k.Busy)
    {z : ℕ} {mod : VictimMod} (hz : Lbz.victim c k.zmd mod = some z) :
    (∀ t x, k.tasks.get t = some x → ¬ x.Writes z) ∧ (k.zmd.zones z).state ≠ .empty := by
  have hmem := victim_mem hz
  refine ⟨fun t x hx hw => ?_, S.closed z (Or.inr (Or.inr hmem))⟩
  by_cases hc : x.Completed
  · obtain ⟨o, hpc⟩ := hc
    obtain ⟨hty, hst, -⟩ := (B.tasks.shape t x hx).callback hpc
    obtain ⟨v, hv⟩ := (B.tasks.shape t x hx).readZone hty (by rw [hst]; rintro ⟨⟩)
    have := G.victim t x hx v ⟨hty, by rw [Task.victim, hv, Option.some_or], by rw [hpc]; rintro ⟨⟩⟩
    rw [not_gc_of_not_busy B hb] at this
    cases this
  · have h1 := C.pend_pos hx hw hc
    have h2 := S.settled z (Or.inr (Or.inl hmem))
    omega

/-- The victim stays the victim until it is reset. -/
theorem Move.gc_stays (B : Base c k) (hm : Move c k l k') {z : ℕ}
    (hz : (k.zmd.zones z).flags .gc = true) :
    (k'.zmd.zones z).flags .gc = true ∨ k.wk = .reset z ∧ k'.wk = .publish z := by
  obtain ⟨pl, P⟩ := B.places
  have hmod : ∀ {z' : ℕ} {f : Zone → Zone}, (∀ x, (f x).flags .gc = x.flags .gc) →
      ((k.zmd.modZone z' f).zones z).flags .gc = true := by
    intro z' f hf
    rw [Zmd.modZone_zones]
    split_ifs
    · rw [hf, hz]
    · exact hz
  cases hm with
  | @openZone i z₀ l ha he =>
    left
    rw [openZone_zones]
    split_ifs
    · exact (Zone.setZoneState_of_ne (show ZoneState.gc ≠ .active by decide) _).trans hz
    · exact hz
  | @dispatch t z₀ i | @dispatchFail t z₀ i => exact Or.inl ((takeBlock_gc c k.zmd i z₀ z).trans hz)
  | @apply t z₀ p x =>
    have := ((SameSettle.invalidateOld c k.zmd (k.mapping x.blkid)).trans
      (.updateReverseMap c _ z₀ p (some x.blkid))).zones z
    exact Or.inl (this.2.1.trans hz)
  | @remap g z₀ v p x =>
    have := (SameSettle.remap c k.zmd z₀ v p x.pbid (some x.blkid) (k.mapping x.blkid = none)).zones z
    exact Or.inl (this.2.1.trans hz)
  | @discard b p =>
    exact Or.inl (((SameSettle.invalidateOld c k.zmd (some p)).zones z).2.1.trans hz)
  | complete | gcWritten | gcWriteFail =>
    exact Or.inl (((SamePlaces.completeWrite k.zmd _).gc z).trans hz)
  | readHit | peek | scanBlock => exact Or.inl (((SamePlaces.getZone k.zmd _).gc z).trans hz)
  | putZone => exact Or.inl (((SamePlaces.putZone k.zmd _).gc z).trans hz)
  | scanEnd =>
    exact Or.inl (hmod (f := Zone.setZoneState .gcCompleted) fun x =>
      Zone.setZoneState_of_ne (by decide) x)
  | wkFull => exact Or.inl (hmod (f := fun x => { x with state := .closed }) fun _ => rfl)
  | @select z₀ mod hpc hb hsel =>
    rw [not_gc_of_not_busy B hb] at hz
    cases hz
  | @wkClose i hwk =>
    left
    rw [Zmd.modZone_zones, if_neg, hz]
    rintro rfl
    rw [P.not_gc (by rw [P.closing _ hwk]; nofun)] at hz
    cases hz
  | @wkReset i hwk hw =>
    by_cases e : z = i
    · subst e
      exact Or.inr ⟨hwk, rfl⟩
    · rw [Zmd.modZone_zones, if_neg e]
      exact Or.inl hz
  | _ => exact Or.inl hz

/-- **The guard is kept.** -/
theorem Guard.move (B : Base c k) (C : Counts k) (S : Settle c k) (G : Guard k)
    (hE : ∀ b p, k.mapping b = some p → (k.zmd.zones (getZoneByPbid c p)).flags .gc = true →
      (k.zmd.zones (getZoneByPbid c p)).refcount ≠ 0)
    (hf : l ≠ .fault) (hl : l ≠ .stale) (hm : Move c k l k') : Guard k' := by
  by_cases hsel : l = .select
  · subst hsel
    cases hm with
    | @select z mod hpc hb hz =>
    have hng := not_gc_of_not_busy B hb
    obtain ⟨hq, hs⟩ := select_quiet B C S G hb hz
    have hother : ∀ z', z' ≠ z → ((takeVictim k.zmd z).zones z').flags .gc = false := fun z' e => by
      rw [takeVictim_zones, if_neg e, hng]
    refine ⟨fun t x hx z' hw => ?_, fun t x hx z' he => ?_, fun z' iter pos h => ?_, fun i h => ?_,
      fun z' hg hst => ?_⟩
    · exact hother z' fun e => hq t x hx (e ▸ hw)
    · have := G.victim t x hx z' he
      rw [hng] at this
      cases this
    · cases h
      change ((takeVictim k.zmd z).zones z).flags .gc = true
      rw [takeVictim_zones, if_pos rfl]
      exact Zone.setZoneState_self .gc (k.zmd.zones z)
    · have := (G.reset i h).1
      rw [hng] at this
      cases this
    · have e : z' = z := by
        by_contra e
        have hg : ((takeVictim k.zmd z).zones z').flags .gc = true := hg
        rw [hother z' e] at hg
        cases hg
      subst e
      have hst : ((takeVictim k.zmd z').zones z').state = .empty := hst
      rw [takeVictim_zones, if_pos rfl] at hst
      exact absurd hst hs
  · obtain ⟨pl, P⟩ := B.places
    have hv := hm.victim B C S G hE hf hsel
    have hgc : ∀ z, (k'.zmd.zones z).flags .gc = true → (k.zmd.zones z).flags .gc = true :=
      fun z h => (hv z h).gc ▸ h
    -- a zone that is held is not reset
    have hstay : ∀ z, (k.zmd.zones z).flags .gc = true → ¬ Unheld k z →
        (k'.zmd.zones z).flags .gc = true := fun z h hu =>
      (hm.gc_stays B h).resolve_right fun h' =>
        C.held hu (G.empty z h (G.reset z h'.1).2)
    refine ⟨fun t y hy z hw => ?_, fun t y hy z he => ?_, fun z iter pos h => ?_, fun i h => ?_,
      fun z hg hst => (hv z hg).empty (G.empty z (hgc z hg)) hst⟩
    · by_contra hg
      have hg := hgc z (Bool.eq_true_of_not_eq_false hg)
      rcases hm.task B hf hy with ⟨x, hx, hxy⟩ | ⟨-, hmade⟩
      · rcases hxy.writes z hw with hw | ⟨i, ha⟩
        · rw [G.quiet t x hx z hw] at hg
          cases hg
        · rw [P.not_gc (by rw [(P.active i z).mp ha]; nofun)] at hg
          cases hg
      · cases hmade <;> cases hw.2.1
    · rcases hm.task B hf hy with ⟨x, hx, hxy⟩ | ⟨-, hmade⟩
      · have hty := hxy.type ▸ he.1
        have hxe : x.Evacuates z := ⟨hty, hxy.victim hty ▸ he.2.1, fun h => he.2.2 (hxy.stays h)⟩
        exact hstay z (G.victim t x hx z hxe) fun h => (h.tasks t x hx).2 hxe
      · cases hmade with
        | write ty b d more hty => exact absurd he.1 hty
        | gc z' iter b hpc =>
          cases he.2.1
          exact hstay z (G.scan _ _ _ hpc) fun h => h.scan _ _ hpc
    · have : ∃ iter pos, k.gcPc = .scan z iter pos := by
        cases hm with
        | select => exact absurd rfl hsel
        | scanFree hpc | scanBlock hpc =>
          cases h
          exact ⟨_, _, hpc⟩
        | scanEnd => cases h
        | _ => exact ⟨_, _, h⟩
      obtain ⟨iter', pos', hpc⟩ := this
      exact hstay z (G.scan z _ _ hpc) fun h => h.scan _ _ hpc
    · have : k.wk = .reset i ∧ k'.wk ≠ .publish i ∨ k'.zmd = k.zmd ∧
          (k.zmd.zones i).flags .gc = true ∧ (k.zmd.zones i).state = .empty := by
        cases hm with
        | @wkEmpty j b hwk hg hst =>
          cases h
          exact Or.inr ⟨rfl, hg, hst⟩
        | wkCarried => exact absurd rfl hl
        | wkStart | wkIdle | wkNext | wkFull | wkSticky | wkFree | wkClose | wkLink | wkReset
        | wkPublish | wkFail => cases h
        | _ => exact Or.inl ⟨h, by rw [h]; nofun⟩
      rcases this with ⟨hwk, hwk'⟩ | ⟨hz, hg⟩
      · obtain ⟨hg, hst⟩ := G.reset i hwk
        have hg' := (hm.gc_stays B hg).resolve_right fun h' => hwk' h'.2
        exact ⟨hg', (hv i hg').stays (P.not_toFull (by rw [(P.gc i).mp hg]; nofun)) hst⟩
      · rw [hz]
        exact hg

end

end Lbz
