import Lbz.Counts

/-!
# Zones between their last block and their reset

What holds of a zone that is written to its end, in a run in which the zone-state worker does not
act on the flag it carries.

* `Settled m wk z`: zone `z` is, or is about to be, closed, full or a victim;
* `SettleInv`: a settled zone has no pending write, and such a zone is written to its end and has
  not been given the state of an empty zone before its evacuation;
* **`Settle.move`**: every move but the stale ones keeps it.
-/

namespace Lbz

variable {α : Type} {c : Conf}

/-- Zone `z` is full, or the victim, or on its way to `full_zone_list`. -/
def Settled (m : Zmd) (wk : WkPc) (z : ℕ) : Prop :=
  wk = .link z ∨ z ∈ m.fullZoneList ∨ (m.zones z).flags .gc = true ∨
    (m.zones z).flags .toFull = true ∧ ((m.zones z).state = .full ∨ wk = .close z)

/-- Zone `z` has no block left, and is not the victim. -/
def Filled (m : Zmd) (wk : WkPc) (z : ℕ) : Prop :=
  (m.zones z).flags .toFull = true ∨ wk = .link z ∨ z ∈ m.fullZoneList

/-- The state of a zone that is open. -/
def BlkZoneCond.isOpen : BlkZoneCond → Bool
  | .impOpen | .expOpen => true
  | _ => false

structure SettleInv (c : Conf) (m : Zmd) (wk : WkPc) : Prop where
  settled : ∀ z, Settled m wk z → (m.zones z).pendingWriteIo = 0
  opened : ∀ i z, m.activeZone i = some z → (m.zones z).state.isOpen = true
  closed : ∀ z, Filled m wk z → (m.zones z).state ≠ .empty
  filled : ∀ z, Filled m wk z ∨ (m.zones z).flags .gc = true → c.zoneNrBlocks ≤ (m.zones z).wpBlock

def Settle (c : Conf) (k : Core α) : Prop := SettleInv c k.zmd k.wk

/-! ## What a place says of a zone -/

namespace PlaceInv

variable {m : Zmd} {wk : WkPc} {gcZone : Option ℕ} {pl : ℕ → Place} {z : ℕ}

/-- The zone is empty, active, or between its reset and `empty_zone_list`. -/
theorem not_filled (a : PlaceInv c m wk gcZone pl)
    (h : pl z ≠ .toFull ∧ pl z ≠ .linking ∧ pl z ≠ .full) : ¬ Filled m wk z := by
  rintro (h1 | h1 | h1)
  · exact h.1 ((a.toFull z).mp h1)
  · exact h.2.1 ((a.linking z).mpr h1)
  · exact h.2.2 ((a.full z).mp h1)

theorem not_settled (a : PlaceInv c m wk gcZone pl)
    (h : pl z ≠ .toFull ∧ pl z ≠ .linking ∧ pl z ≠ .full) (hg : pl z ≠ .gc) :
    ¬ Settled m wk z := by
  rintro (h1 | h1 | h1 | h1)
  · exact h.2.1 ((a.linking z).mpr h1)
  · exact h.2.2 ((a.full z).mp h1)
  · exact hg ((a.gc z).mp h1)
  · exact h.1 ((a.toFull z).mp h1.1)

theorem not_gc (a : PlaceInv c m wk gcZone pl) (h : pl z ≠ .gc) : (m.zones z).flags .gc = false := by
  rw [← Bool.not_eq_true, a.gc]
  exact h

theorem not_toFull (a : PlaceInv c m wk gcZone pl) (h : pl z ≠ .toFull) :
    (m.zones z).flags .toFull = false := by
  rw [← Bool.not_eq_true, a.toFull]
  exact h

end PlaceInv

/-- What `lbz_put_zone` does to the state of a zone. -/
theorem put_state (x : Zone) :
    x.put.state = .empty ∧ x.refcount - 1 = 0 ∧ x.flags .gc = true ∨
    x.put.state = .full ∧ x.flags .toFull = true ∧ x.pendingWriteIo = 0 ∨
    x.put.state = x.state := by
  unfold Zone.put
  split_ifs with h1 h2
  · exact Or.inl ⟨rfl, h1⟩
  · exact Or.inr (Or.inl ⟨rfl, h2⟩)
  · exact Or.inr (Or.inr rfl)

/-! ## The rules -/

/-- `m'` differs from `m` in nothing that settling depends on. -/
structure SameSettle (m m' : Zmd) : Prop where
  fullList : m'.fullZoneList = m.fullZoneList
  active : m'.activeZone = m.activeZone
  zones : ∀ z, (m'.zones z).flags .toFull = (m.zones z).flags .toFull ∧
    (m'.zones z).flags .gc = (m.zones z).flags .gc ∧ (m'.zones z).state = (m.zones z).state ∧
    (m'.zones z).pendingWriteIo = (m.zones z).pendingWriteIo ∧
    (m'.zones z).wpBlock = (m.zones z).wpBlock

namespace SameSettle

variable {m m' m'' : Zmd}

theorem trans (h : SameSettle m m') (h' : SameSettle m' m'') : SameSettle m m'' :=
  ⟨h'.fullList.trans h.fullList, h'.active.trans h.active, fun z =>
    ⟨(h'.zones z).1.trans (h.zones z).1, (h'.zones z).2.1.trans (h.zones z).2.1,
      (h'.zones z).2.2.1.trans (h.zones z).2.2.1, (h'.zones z).2.2.2.1.trans (h.zones z).2.2.2.1,
      (h'.zones z).2.2.2.2.trans (h.zones z).2.2.2.2⟩⟩

theorem modZone (m : Zmd) (z : ℕ) {f : Zone → Zone}
    (hf : ∀ x, (f x).flags .toFull = x.flags .toFull ∧ (f x).flags .gc = x.flags .gc ∧
      (f x).state = x.state ∧ (f x).pendingWriteIo = x.pendingWriteIo ∧
      (f x).wpBlock = x.wpBlock) : SameSettle m (m.modZone z f) := by
  refine ⟨rfl, rfl, fun z' => ?_⟩
  rw [Zmd.modZone_zones]
  split_ifs
  · exact hf _
  · exact ⟨rfl, rfl, rfl, rfl, rfl⟩

theorem getZone (m : Zmd) (z : ℕ) : SameSettle m (getZone m z) :=
  modZone m z fun _ => ⟨rfl, rfl, rfl, rfl, rfl⟩

theorem updateReverseMap (c : Conf) (m : Zmd) (z p : ℕ) (v : Option ℕ) :
    SameSettle m (updateReverseMap c m z p v) := modZone m z fun _ => ⟨rfl, rfl, rfl, rfl, rfl⟩

theorem invalidate (c : Conf) (m : Zmd) (z p : ℕ) : SameSettle m (invalidate c m z p) := by
  refine ⟨rfl, rfl, fun z' => ?_⟩
  rw [invalidate_zones]
  split_ifs <;> exact ⟨rfl, rfl, rfl, rfl, rfl⟩

theorem invalidateOld (c : Conf) (m : Zmd) (o : Option ℕ) :
    SameSettle m (invalidateOld c m o) := by
  cases o with
  | none => exact ⟨rfl, rfl, fun _ => ⟨rfl, rfl, rfl, rfl, rfl⟩⟩
  | some p => exact invalidate c m _ p

theorem remap (c : Conf) (m : Zmd) (z v p q : ℕ) (b : Option ℕ) (P : Prop) [Decidable P] :
    SameSettle m (if P then Lbz.updateReverseMap c m z p b
      else Lbz.invalidate c (Lbz.updateReverseMap c m z p b) v q) := by
  split_ifs
  · exact updateReverseMap c m z p b
  · exact (updateReverseMap c m z p b).trans (invalidate c _ v q)

theorem settled (h : SameSettle m m') {wk : WkPc} {z : ℕ} : Settled m' wk z ↔ Settled m wk z := by
  obtain ⟨h1, h2, h3, -⟩ := h.zones z
  rw [Settled, Settled, h.fullList, h1, h2, h3]

theorem filled (h : SameSettle m m') {wk : WkPc} {z : ℕ} : Filled m' wk z ↔ Filled m wk z := by
  rw [Filled, Filled, h.fullList, (h.zones z).1]

end SameSettle

namespace SettleInv

variable {m m' : Zmd} {wk : WkPc} {gcZone : Option ℕ} {pl : ℕ → Place} {z i : ℕ}

theorem same (a : SettleInv c m wk) (h : SameSettle m m') : SettleInv c m' wk := by
  refine ⟨fun z hz => ?_, fun i z hz => ?_, fun z hz => ?_, fun z hz => ?_⟩
  · rw [(h.zones z).2.2.2.1]
    exact a.settled z (h.settled.mp hz)
  · rw [h.active] at hz
    rw [(h.zones z).2.2.1]
    exact a.opened i z hz
  · rw [(h.zones z).2.2.1]
    exact a.closed z (h.filled.mp hz)
  · rw [h.filled, (h.zones z).2.1] at hz
    rw [(h.zones z).2.2.2.2]
    exact a.filled z hz

/-- The worker goes on to a place that is not about a zone to be closed. -/
theorem worker (a : SettleInv c m wk) (wk' : WkPc) (hl : ∀ z, wk' ≠ .link z)
    (hc : ∀ z, wk' ≠ .close z) : SettleInv c m wk' := by
  have hf : ∀ z, Filled m wk' z → Filled m wk z := fun z hz =>
    hz.imp_right (Or.imp_left fun h => absurd h (hl z))
  refine ⟨fun z hz => a.settled z ?_, a.opened, fun z hz => a.closed z (hf z hz),
    fun z hz => a.filled z (hz.imp_left (hf z))⟩
  rcases hz with h | h | h | ⟨h, h' | h'⟩
  · exact absurd h (hl z)
  · exact Or.inr (Or.inl h)
  · exact Or.inr (Or.inr (Or.inl h))
  · exact Or.inr (Or.inr (Or.inr ⟨h, Or.inl h'⟩))
  · exact absurd h' (hc z)

/-- Only zone `z` changes, and the lists do not: what has to be shown is about `z`. -/
theorem zone (a : SettleInv c m wk) (hl : m'.fullZoneList = m.fullZoneList)
    (ho : ∀ z', z' ≠ z → m'.zones z' = m.zones z')
    (hact : ∀ i z', m'.activeZone i = some z' → z' = z ∨ m.activeZone i = some z')
    (h1 : Settled m' wk z → (m'.zones z).pendingWriteIo = 0)
    (h2 : ∀ i, m'.activeZone i = some z → (m'.zones z).state.isOpen = true)
    (h3 : Filled m' wk z → (m'.zones z).state ≠ .empty)
    (h4 : Filled m' wk z ∨ (m'.zones z).flags .gc = true → c.zoneNrBlocks ≤ (m'.zones z).wpBlock) :
    SettleInv c m' wk := by
  refine ⟨fun z' hz => ?_, fun i z' hz => ?_, fun z' hz => ?_, fun z' hz => ?_⟩ <;>
    by_cases e : z' = z
  · subst e
    exact h1 hz
  · rw [Settled, hl, ho z' e] at hz
    rw [ho z' e]
    exact a.settled z' hz
  · subst e
    exact h2 i hz
  · rw [ho z' e]
    exact a.opened i z' ((hact i z' hz).resolve_left e)
  · subst e
    exact h3 hz
  · rw [Filled, hl, ho z' e] at hz
    rw [ho z' e]
    exact a.closed z' hz
  · subst e
    exact h4 hz
  · rw [Filled, hl, ho z' e] at hz
    rw [ho z' e]
    exact a.filled z' hz

theorem openZone (a : SettleInv c m wk) (P : PlaceInv c m wk gcZone pl) {i : Fin 2} {l : List ℕ}
    {n : ℤ} (hz : z ∈ m.emptyZoneList) : SettleInv c
      (Lbz.openZone { m with emptyZoneList := l, emptyZoneCount := n } i z) wk := by
  have hpl := (P.empty z).mp hz
  have hself := openZone_zones { m with emptyZoneList := l, emptyZoneCount := n } i z z
  rw [if_pos rfl] at hself
  have hfl : ∀ f, f ≠ .active →
      ((Lbz.openZone { m with emptyZoneList := l, emptyZoneCount := n } i z).zones z).flags f =
        (m.zones z).flags f := fun f hf => by
    rw [hself]
    exact Function.update_of_ne hf _ _
  have hnf : ¬ Filled (Lbz.openZone { m with emptyZoneList := l, emptyZoneCount := n } i z) wk z := by
    rw [Filled, hfl .toFull nofun]
    exact P.not_filled (by rw [hpl]; exact ⟨nofun, nofun, nofun⟩)
  refine a.zone (z := z) rfl (fun z' e => by rw [openZone_zones, if_neg e]) (fun j z' h => ?_) ?_ ?_ ?_
    ?_
  · have h : Function.update m.activeZone i (some z) j = some z' := h
    rw [Function.update_apply] at h
    split_ifs at h
    · exact Or.inl (Option.some.inj h).symm
    · exact Or.inr h
  · rintro (h | h | h | ⟨h, -⟩)
    · exact absurd (Or.inr (Or.inl h)) hnf
    · exact absurd (Or.inr (Or.inr h)) hnf
    · rw [hfl .gc nofun, P.not_gc (by rw [hpl]; nofun)] at h
      cases h
    · exact absurd (Or.inl h) hnf
  · intro _ _
    rw [hself]
    rfl
  · exact fun h => absurd h hnf
  · rintro (h | h)
    · exact absurd h hnf
    · rw [hfl .gc nofun, P.not_gc (by rw [hpl]; nofun)] at h
      cases h

/-- A block is taken from the zone of a slot, and the zone leaves the slot if it has no more. -/
theorem takeBlock (a : SettleInv c m wk) (P : PlaceInv c m wk gcZone pl) {i : Fin 2}
    (ha : m.activeZone i = some z) (hp : 0 ≤ (m.zones z).pendingWriteIo) :
    SettleInv c (takeBlock c m i z).1 wk := by
  have hpl := (P.active i z).mp ha
  have hst := a.opened i z ha
  have hnf := P.not_filled (z := z) (by rw [hpl]; exact ⟨nofun, nofun, nofun⟩)
  have hns := P.not_settled (z := z) (by rw [hpl]; exact ⟨nofun, nofun, nofun⟩) (by rw [hpl]; nofun)
  have hng := P.not_gc (z := z) (by rw [hpl]; nofun)
  have hself := allocRes_zones m z z
  rw [if_pos rfl] at hself
  have hother : ∀ z', z' ≠ z → (allocRes m z).zones z' = m.zones z' := fun z' e => by
    rw [allocRes_zones, if_neg e]
  rw [Lbz.takeBlock]
  split_ifs with hw
  · have hlz := leaveActive_zones (allocRes m z) i z z
    rw [if_pos rfl] at hlz
    set y := (((allocRes m z).zones z).clearZoneState .active).setZoneState .toFull
    have hy : y.flags .gc = false ∧ y.flags .toFull = true ∧ y.state.isOpen = true ∧
        y.wpBlock = c.zoneNrBlocks := by
      refine ⟨?_, Zone.setZoneState_self _ _, ?_, hw⟩
      · refine (Zone.setZoneState_of_ne (by decide) _).trans
          ((Zone.clearZoneState_of_ne (by decide) _).trans ?_)
        rw [hself]
        exact hng
      · refine Eq.trans (b := ((allocRes m z).zones z).state.isOpen) rfl ?_
        rw [hself]
        exact hst
    have hyp : y.pendingWriteIo ≠ 0 := by
      refine ne_of_eq_of_ne (b := ((allocRes m z).zones z).pendingWriteIo) rfl ?_
      rw [hself]
      change (m.zones z).pendingWriteIo + 1 ≠ 0
      omega
    have hps : y.put.state.isOpen = true := by
      rcases put_state y with ⟨-, -, h⟩ | ⟨-, -, h⟩ | h
      · rw [hy.1] at h
        cases h
      · exact absurd h hyp
      · rw [h]
        exact hy.2.2.1
    obtain ⟨hpf, hpw, -⟩ := SamePlaces.put_flags y
    refine a.zone (z := z) rfl (fun z' e => by rw [leaveActive_zones, if_neg e, hother z' e])
      (fun j z' h => Or.inr ?_) ?_ ?_ ?_ ?_
    · have h : Function.update m.activeZone i none j = some z' := h
      rw [Function.update_apply] at h
      split_ifs at h
      exact h
    · rintro (h | h | h | ⟨-, h | h⟩)
      · exact absurd (Or.inr (Or.inl h)) hnf
      · exact absurd (Or.inr (Or.inr h)) hnf
      · rw [hlz, hpf, hy.1] at h
        cases h
      · rw [hlz] at h
        rw [h] at hps
        cases hps
      · have := P.closing z h
        rw [hpl] at this
        cases this
    · intro _ _
      rw [hlz, hps]
    · intro _ h
      rw [hlz] at h
      rw [h] at hps
      cases hps
    · intro _
      rw [hlz, hpw, hy.2.2.2]
  · refine a.zone (z := z) rfl hother (fun j z' h => Or.inr h) (fun h => ?_) (fun j _ => ?_)
      (fun h => ?_) fun h => ?_
    · rw [Settled, hself] at h
      exact absurd h hns
    · rw [hself]
      exact hst
    · rw [Filled, hself] at h
      exact absurd h hnf
    · rw [Filled, hself] at h
      rcases h with h | h
      · exact absurd h hnf
      · rw [show (m.zones z).flags .gc = true from h] at hng
        cases hng

/-- A pending write of zone `z` completes. -/
theorem complete (a : SettleInv c m wk) (hp : 0 < (m.zones z).pendingWriteIo) :
    SettleInv c (zoneCompleteWrite m z) wk := by
  have hz : (zoneCompleteWrite m z).zones z =
      { m.zones z with pendingWriteIo := (m.zones z).pendingWriteIo - 1 } := by
    rw [zoneCompleteWrite, Zmd.modZone_zones, if_pos rfl]
  refine a.zone (z := z) rfl (fun z' e => by rw [zoneCompleteWrite, Zmd.modZone_zones, if_neg e])
    (fun i z' h => Or.inr h) (fun h => ?_) (fun i h => ?_) (fun h => ?_) fun h => ?_
  · rw [Settled, hz] at h
    have := a.settled z h
    omega
  · rw [hz]
    exact a.opened i z h
  · rw [Filled, hz] at h
    rw [hz]
    exact a.closed z h
  · rw [Filled, hz] at h
    rw [hz]
    exact a.filled z h

theorem putZone (a : SettleInv c m wk) (P : PlaceInv c m wk gcZone pl) :
    SettleInv c (putZone m z) wk := by
  have hz : (Lbz.putZone m z).zones z = (m.zones z).put := by
    rw [Lbz.putZone, Zmd.modZone_zones, if_pos rfl]
  obtain ⟨hf, hw, -⟩ := SamePlaces.put_flags (m.zones z)
  have hpw := (put_counts (m.zones z)).2
  have hs := put_state (m.zones z)
  have hfilled : Filled (Lbz.putZone m z) wk z ↔ Filled m wk z := by
    rw [Filled, hz, hf]
    exact Iff.rfl
  refine a.zone (z := z) rfl (fun z' e => by rw [Lbz.putZone, Zmd.modZone_zones, if_neg e])
    (fun i z' h => Or.inr h) (fun h => ?_) (fun i h => ?_) (fun h => ?_) fun h => ?_
  · rw [hz, hpw]
    rw [Settled, hz, hf] at h
    rcases h with h | h | h | ⟨h, h' | h'⟩
    · exact a.settled z (Or.inl h)
    · exact a.settled z (Or.inr (Or.inl h))
    · exact a.settled z (Or.inr (Or.inr (Or.inl h)))
    · rcases hs with ⟨he, -⟩ | ⟨-, -, he⟩ | he
      · rw [he] at h'
        cases h'
      · exact he
      · exact a.settled z (Or.inr (Or.inr (Or.inr ⟨h, Or.inl (he ▸ h')⟩)))
    · exact a.settled z (Or.inr (Or.inr (Or.inr ⟨h, Or.inr h'⟩)))
  · have hpl := (P.active i z).mp h
    rw [hz]
    rcases hs with ⟨-, -, he⟩ | ⟨-, he, -⟩ | he
    · rw [P.not_gc (by rw [hpl]; rintro ⟨⟩)] at he
      cases he
    · rw [P.not_toFull (by rw [hpl]; rintro ⟨⟩)] at he
      cases he
    · rw [he, a.opened i z h]
  · rw [hfilled] at h
    rw [hz]
    rcases hs with ⟨-, -, he⟩ | ⟨he, -⟩ | he
    · have hpl := (P.gc z).mp he
      exact absurd h (P.not_filled (by rw [hpl]; exact ⟨by rintro ⟨⟩, by rintro ⟨⟩, by rintro ⟨⟩⟩))
    · rw [he]
      rintro ⟨⟩
    · rw [he]
      exact a.closed z h
  · rw [hfilled, hz, hf] at h
    rw [hz, hw]
    exact a.filled z h

theorem takeVictim (a : SettleInv c m wk) (P : PlaceInv c m wk gcZone pl)
    (hz : z ∈ m.fullZoneList) : SettleInv c (takeVictim m z) wk := by
  have hpl := (P.full z).mp hz
  have hfilled : Filled m wk z := Or.inr (Or.inr hz)
  have hsame : ∀ z', ((Lbz.takeVictim m z).zones z').pendingWriteIo = (m.zones z').pendingWriteIo ∧
      ((Lbz.takeVictim m z).zones z').state = (m.zones z').state ∧
      ((Lbz.takeVictim m z).zones z').wpBlock = (m.zones z').wpBlock ∧
      ((Lbz.takeVictim m z).zones z').flags .toFull = (m.zones z').flags .toFull ∧
      (((Lbz.takeVictim m z).zones z').flags .gc = true → z' = z ∨
        (m.zones z').flags .gc = true) := fun z' => by
    rw [takeVictim_zones]
    split_ifs with e
    · refine ⟨rfl, rfl, rfl, ?_, fun _ => Or.inl e⟩
      rw [e]
      exact Zone.setZoneState_of_ne (by decide : ZoneState.toFull ≠ .gc) _
    · exact ⟨rfl, rfl, rfl, rfl, Or.inr⟩
  have hf : ∀ z', Filled (Lbz.takeVictim m z) wk z' → Filled m wk z' := fun z' h => by
    rw [Filled, (hsame z').2.2.2.1] at h
    exact h.imp_right (Or.imp_right List.mem_of_mem_erase)
  refine ⟨fun z' h => ?_, fun i z' h => ?_, fun z' h => ?_, fun z' h => ?_⟩
  · rw [(hsame z').1]
    rw [Settled, (hsame z').2.2.2.1, (hsame z').2.1] at h
    rcases h with h | h | h | h
    · exact a.settled z' (Or.inl h)
    · exact a.settled z' (Or.inr (Or.inl (List.mem_of_mem_erase h)))
    · rcases (hsame z').2.2.2.2 h with rfl | h
      · exact a.settled z' (Or.inr (Or.inl hz))
      · exact a.settled z' (Or.inr (Or.inr (Or.inl h)))
    · exact a.settled z' (Or.inr (Or.inr (Or.inr h)))
  · rw [(hsame z').2.1]
    exact a.opened i z' h
  · rw [(hsame z').2.1]
    exact a.closed z' (hf z' h)
  · rw [(hsame z').2.2.1]
    refine a.filled z' ?_
    rcases h with h | h
    · exact Or.inl (hf z' h)
    · rcases (hsame z').2.2.2.2 h with rfl | h
      · exact Or.inl hfilled
      · exact Or.inr h

/-- The worker is about to close zone `i`. -/
theorem close (a : SettleInv c m wk) (P : PlaceInv c m wk gcZone pl)
    (hf : (m.zones i).flags .toFull = true) (hs : (m.zones i).state = .full) :
    SettleInv c (m.modZone i fun x => { x with state := .closed }) (.close i) := by
  have hz := Zmd.modZone_zones m i (fun x => { x with state := .closed })
  have hpl := (P.toFull i).mp hf
  have hsame : ∀ z, ((m.modZone i fun x => { x with state := .closed }).zones z).flags =
      (m.zones z).flags ∧ ((m.modZone i fun x => { x with state := .closed }).zones z).wpBlock =
      (m.zones z).wpBlock ∧ ((m.modZone i fun x => { x with state := .closed }).zones z).pendingWriteIo =
      (m.zones z).pendingWriteIo := fun z => by
    rw [hz]
    split_ifs <;> exact ⟨rfl, rfl, rfl⟩
  have hfilled : ∀ z, Filled (m.modZone i fun x => { x with state := .closed }) (.close i) z →
      Filled m wk z := fun z h => by
    rw [Filled, (hsame z).1] at h
    exact h.imp_right (Or.imp_left fun h => nomatch h)
  refine ⟨fun z h => ?_, fun j z h => ?_, fun z h => ?_, fun z h => ?_⟩
  · rw [(hsame z).2.2]
    rw [Settled, (hsame z).1] at h
    by_cases e : z = i
    · subst e
      exact a.settled z (Or.inr (Or.inr (Or.inr ⟨hf, Or.inl hs⟩)))
    · rw [hz, if_neg e] at h
      rcases h with h | h | h | ⟨h, h' | h'⟩
      · cases h
      · exact a.settled z (Or.inr (Or.inl h))
      · exact a.settled z (Or.inr (Or.inr (Or.inl h)))
      · exact a.settled z (Or.inr (Or.inr (Or.inr ⟨h, Or.inl h'⟩)))
      · cases h'
        exact absurd rfl e
  · have e : z ≠ i := by
      rintro rfl
      have := (P.active j z).mp h
      rw [hpl] at this
      cases this
    rw [hz, if_neg e]
    exact a.opened j z h
  · rw [hz]
    split_ifs
    · nofun
    · exact a.closed z (hfilled z h)
  · rw [(hsame z).2.1]
    rw [(hsame z).1] at h
    exact a.filled z (h.imp_left (hfilled z))

/-- The flags of the closed zone `i` are overwritten. -/
theorem setFull (a : SettleInv c m (.close i)) (P : PlaceInv c m (.close i) gcZone pl) :
    SettleInv c (m.modZone i fun x => { x with flags := oneFlag .full }) (.link i) := by
  have hz := Zmd.modZone_zones m i (fun x => { x with flags := oneFlag .full })
  have hf := (P.toFull i).mpr (P.closing i rfl)
  have hsame : ∀ z, ((m.modZone i fun x => { x with flags := oneFlag .full }).zones z).state =
      (m.zones z).state ∧ ((m.modZone i fun x => { x with flags := oneFlag .full }).zones z).wpBlock =
      (m.zones z).wpBlock ∧
      ((m.modZone i fun x => { x with flags := oneFlag .full }).zones z).pendingWriteIo =
      (m.zones z).pendingWriteIo := fun z => by
    rw [hz]
    split_ifs <;> exact ⟨rfl, rfl, rfl⟩
  have hfilled : ∀ z, Filled (m.modZone i fun x => { x with flags := oneFlag .full }) (.link i) z →
      Filled m (.close i) z := fun z h => by
    by_cases e : z = i
    · subst e
      exact Or.inl hf
    · rw [Filled, hz, if_neg e] at h
      refine h.imp_right (Or.imp_left fun h => ?_)
      cases h
      exact absurd rfl e
  refine ⟨fun z h => ?_, fun j z h => ?_, fun z h => ?_, fun z h => ?_⟩
  · rw [(hsame z).2.2]
    by_cases e : z = i
    · subst e
      exact a.settled z (Or.inr (Or.inr (Or.inr ⟨hf, Or.inr rfl⟩)))
    · rw [Settled, hz, if_neg e] at h
      rcases h with h | h | h | ⟨h, h' | h'⟩
      · cases h
        exact absurd rfl e
      · exact a.settled z (Or.inr (Or.inl h))
      · exact a.settled z (Or.inr (Or.inr (Or.inl h)))
      · exact a.settled z (Or.inr (Or.inr (Or.inr ⟨h, Or.inl h'⟩)))
      · cases h'
  · rw [(hsame z).1]
    exact a.opened j z h
  · rw [(hsame z).1]
    exact a.closed z (hfilled z h)
  · rw [(hsame z).2.1]
    refine a.filled z ?_
    by_cases e : z = i
    · subst e
      exact Or.inl (Or.inl hf)
    · refine h.imp (hfilled z) fun h => ?_
      rw [hz, if_neg e] at h
      exact h

/-- The closed zone `i` goes to the list of full zones. -/
theorem link (a : SettleInv c m (.link i)) {b : Bool} {n : ℤ} :
    SettleInv c { m with fullZoneList := m.fullZoneList ++ [i], fullZoneCount := n }
      (.visit (i + 1) b) := by
  have hmem : ∀ z, z ∈ m.fullZoneList ++ [i] → (WkPc.link i = .link z) ∨ z ∈ m.fullZoneList :=
    fun z h => (List.mem_append.mp h).elim Or.inr fun h => Or.inl (by rw [List.mem_singleton.mp h])
  have hfilled : ∀ z, Filled { m with fullZoneList := m.fullZoneList ++ [i], fullZoneCount := n }
      (.visit (i + 1) b) z → Filled m (.link i) z := fun z h => by
    rcases h with h | h | h
    · exact Or.inl h
    · cases h
    · exact Or.inr (hmem z h)
  refine ⟨fun z h => a.settled z ?_, a.opened, fun z h => a.closed z (hfilled z h),
    fun z h => a.filled z (h.imp_left (hfilled z))⟩
  rcases h with h | h | h | ⟨h, h' | h'⟩
  · cases h
  · exact (hmem z h).imp_right Or.inl
  · exact Or.inr (Or.inr (Or.inl h))
  · exact Or.inr (Or.inr (Or.inr ⟨h, Or.inl h'⟩))
  · cases h'

theorem resetZone (a : SettleInv c m (.reset i)) (P : PlaceInv c m (.reset i) gcZone pl) :
    SettleInv c (m.modZone i Zone.reset) (.publish i) := by
  have hpl := P.reset i rfl
  have hz : (m.modZone i Zone.reset).zones i = (m.zones i).reset := by
    rw [Zmd.modZone_zones, if_pos rfl]
  have hnf : ¬ Filled (m.modZone i Zone.reset) (.publish i) i := by
    rintro (h | h | h)
    · rw [hz] at h
      cases h
    · cases h
    · have := (P.full i).mp h
      rw [hpl] at this
      cases this
  have hng : ((m.modZone i Zone.reset).zones i).flags .gc ≠ true := by
    rw [hz]
    nofun
  refine (a.worker (.publish i) nofun nofun).zone (z := i) rfl
    (fun z' e => by rw [Zmd.modZone_zones, if_neg e]) (fun j z' h => Or.inr h) ?_ (fun j h => ?_)
    (fun h => absurd h hnf) fun h => h.elim (fun h => absurd h hnf) fun h => absurd h hng
  · rintro (h | h | h | h)
    · cases h
    · exact absurd (Or.inr (Or.inr h)) hnf
    · exact absurd h hng
    · exact absurd (Or.inl h.1) hnf
  · have := (P.active j i).mp h
    rw [hpl] at this
    cases this

end SettleInv

/-! ## Every move -/

section

variable {k k' : Core α} {l : Label}

theorem Task.pendingIn_nonneg (z : ℕ) (x : Task α) : 0 ≤ x.pendingIn z := by
  unfold Task.pendingIn
  split_ifs <;> omega

theorem Counts.pend_nonneg (a : Counts k) (z : ℕ) : 0 ≤ (k.zmd.zones z).pendingWriteIo := by
  have := k.tasks.sum_nonneg (Task.pendingIn_nonneg z)
  rw [a.pend, writesOn]
  omega

/-- A task that writes to zone `z`, and has not completed there, is counted. -/
theorem Counts.pend_pos (a : Counts k) {t z : ℕ} {x : Task α} (hx : k.tasks.get t = some x)
    (hw : x.Writes z) (hc : ¬ x.Completed) : 0 < (k.zmd.zones z).pendingWriteIo := by
  have h := Heap.le_sum (Task.pendingIn_nonneg z) hx
  rw [Task.pendingIn, if_pos ⟨hw, hc⟩] at h
  rw [a.pend, writesOn]
  omega

variable [Inhabited α]

/-- **A settled zone stays so.** -/
theorem Settle.move (B : Base c k) (C : Counts k) (a : Settle c k) (hf : l ≠ .fault)
    (hl : l ≠ .stale) (hm : Move c k l k') : Settle c k' := by
  obtain ⟨pl, P⟩ := B.places
  cases hm with
  | wkSticky | wkCarried => exact absurd rfl hl
  | dispatchFail | fallbackFail | allocFail | devFail | writeFail | serveFail | gcServeFail
  | gcReadFail | gcWriteFail | release | wkFail => exact absurd rfl hf
  | openZone ha he => exact SettleInv.openZone a P (by rw [he]; exact List.mem_cons_self)
  | @dispatch t z i x log hx hst hpc ha hres => exact SettleInv.takeBlock a P ha (C.pend_nonneg z)
  | @apply t z p x hx hty hpc hz =>
    exact SettleInv.same a ((SameSettle.invalidateOld c k.zmd _).trans (.updateReverseMap c _ z p _))
  | @complete z hz =>
    refine SettleInv.complete a ?_
    have h1 : 0 < k.completes.count z := List.count_pos_iff.mpr hz
    have h2 := k.tasks.sum_nonneg (Task.pendingIn_nonneg z)
    rw [C.pend, writesOn]
    omega
  | putZone hz => exact SettleInv.putZone a P
  | @readHit b p hb => exact SettleInv.same a (.getZone k.zmd _)
  | @peek b p hb => exact SettleInv.same a (.getZone k.zmd _)
  | @scanBlock z iter b hpc hi => exact SettleInv.same a (.getZone k.zmd z)
  | @scanEnd z iter pos hpc hi =>
    exact SettleInv.same a (.modZone k.zmd z (f := Zone.setZoneState .gcCompleted) fun x =>
      ⟨Zone.setZoneState_of_ne (by decide) x, Zone.setZoneState_of_ne (by decide) x, rfl, rfl, rfl⟩)
  | @remap g z v p x hx hty hpc hl hz hv hm => exact SettleInv.same a (.remap c k.zmd z v p _ _ _)
  | @discard b p hb => exact SettleInv.same a (.invalidateOld c k.zmd (some p))
  | @gcWritten g z p x hx hty hpc hz =>
    obtain ⟨hst, -⟩ := (B.tasks.shape g x hx).written hpc
    refine SettleInv.complete a (C.pend_pos hx ⟨hz, by rw [hst]; rfl, by rw [hpc]; rintro ⟨⟩⟩ ?_)
    rintro ⟨o, h⟩
    rw [hpc] at h
    cases h
  | select hpc hbusy hz => exact SettleInv.takeVictim a P (victim_mem hz)
  | wkStart | wkIdle | wkNext | wkFree | wkEmpty =>
    refine SettleInv.worker a _ (fun z => ?_) fun z => ?_ <;> simp
  | @wkFull i b hwk hfl hs => exact SettleInv.close a P hfl hs
  | @wkClose i hwk =>
    unfold Settle at a
    rw [hwk] at P a
    exact a.setFull P
  | @wkLink i hwk =>
    unfold Settle at a
    rw [hwk] at a
    exact a.link
  | @wkReset i hwk hw =>
    unfold Settle at a
    rw [hwk] at P a
    exact a.resetZone P
  | @wkPublish i hwk =>
    have hs : SettleInv c { k.zmd with
        emptyZoneList := k.zmd.emptyZoneList ++ [i]
        emptyZoneCount := k.zmd.emptyZoneCount + 1
        activeZoneCount := k.zmd.activeZoneCount - 1
        nrAllocableBlks := k.zmd.nrAllocableBlks + c.zoneNrBlocks } k.wk :=
      SettleInv.same a ⟨rfl, rfl, fun _ => ⟨rfl, rfl, rfl, rfl, rfl⟩⟩
    exact hs.worker _ (by rintro _ ⟨⟩) (by rintro _ ⟨⟩)
  | _ => exact a

end

theorem Settle.fresh {n : ℕ} {m : Zmd} (b : Blank c n m) : Settle c (freshSys m : Sys α).core := by
  have hz : ∀ z f, f = .toFull ∨ f = .gc → (m.zones z).flags f = false := fun z f hf => by
    rw [b.zones]
    split_ifs
    · rcases hf with rfl | rfl <;> rfl
    · rfl
  have hnf : ∀ z, ¬ Filled m .idle z := by
    rintro z (h | h | h)
    · rw [hz z _ (Or.inl rfl)] at h
      cases h
    · cases h
    · rw [b.fullList] at h
      cases h
  have hng : ∀ z, (m.zones z).flags .gc ≠ true := fun z => by
    rw [hz z _ (Or.inr rfl)]
    nofun
  refine ⟨?_, fun i z h => ?_, fun z h => absurd h (hnf z),
    fun z h => h.elim (fun h => absurd h (hnf z)) fun h => absurd h (hng z)⟩
  · rintro z (h | h | h | h)
    · cases h
    · exact absurd (Or.inr (Or.inr h)) (hnf z)
    · exact absurd h (hng z)
    · exact absurd (Or.inl h.1) (hnf z)
  · have h : m.activeZone i = some z := h
    rw [b.active] at h
    cases h

end Lbz
