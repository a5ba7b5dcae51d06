import Lbz.Start

/-!
# One pass of the zone-state worker

`zone_state_wk_fn` with nothing else running, on zones with any flags and counters.

* `zoneStateWkFn`: the pass, to its end or to the panic of a reset; `wkRun_ends` says that it gets
  there;
* `PassExact c s`: the pass treats each zone by itself, closing those that are full and resetting
  those that are empty after garbage collection;
* **`passExact_iff`**: it does unless a zone that waits stands behind one that does not, since
  `send_zone_mgmgt` is never cleared.
-/

namespace Lbz

variable {α : Type} {c : Conf}

/-- Up to `n` steps of the worker, with no reset error. -/
def wkRun (c : Conf) : ℕ → Sys α → Sys α
  | 0, s => s
  | n + 1, s => if s.wk = .idle ∨ s.bug.isSome then s else wkRun c n (wkStep c s true)

/-- `zone_state_wk_fn` -/
def zoneStateWkFn (c : Conf) (s : Sys α) : Sys α :=
  if s.faulty ∨ !s.ready then s else wkRun c (4 * c.nrZones + 1) (wkStart s)

/-! ## The end of a pass -/

/-- A bound on the steps that are left. -/
def WkPc.left (c : Conf) : WkPc → ℕ
  | .idle => 0
  | .visit i _ => 4 * (c.nrZones - i) + 1
  | .gcTest i _ => 4 * (c.nrZones - (i + 1)) + 4
  | .close i | .reset i => 4 * (c.nrZones - (i + 1)) + 3
  | .link i | .publish i => 4 * (c.nrZones - (i + 1)) + 2

theorem wkStep_left {s : Sys α} (hw : s.wk ≠ .idle) (hb : (wkStep c s true).bug = none) :
    (wkStep c s true).wk.left c < s.wk.left c := by
  unfold wkStep at hb ⊢
  cases h : s.wk with
  | idle => exact absurd h hw
  | visit i send =>
    simp only [wkVisit]
    split_ifs <;> simp only [WkPc.left] <;> omega
  | close i | link i | publish i =>
    simp only [wkClose, wkLink, wkPublish, WkPc.left]
    omega
  | gcTest i send =>
    simp only [wkGcTest]
    split_ifs <;> simp only [WkPc.left] <;> omega
  | reset i =>
    rw [h] at hb
    simp only [wkReset, Bool.not_true, Bool.false_eq_true, if_false] at hb ⊢
    split_ifs at hb ⊢ with hw0
    · cases hb
    · simp only [WkPc.left, Sys.log]
      omega

/-- **A pass ends**, or the kernel stops. -/
theorem wkRun_ends {n : ℕ} {s : Sys α} (hn : s.wk.left c ≤ n) :
    (wkRun c n s).wk = .idle ∨ (wkRun c n s).bug.isSome := by
  induction n generalizing s with
  | zero =>
    refine Or.inl ?_
    rw [wkRun]
    cases h : s.wk <;> rw [h] at hn <;> simp only [WkPc.left] at hn <;> first | rfl | omega
  | succ n ih =>
    rw [wkRun]
    split_ifs with h
    · exact h
    · push Not at h
      by_cases hb : (wkStep c s true).bug = none
      · exact ih (by have := wkStep_left h.1 hb; omega)
      · refine Or.inr ?_
        have hs : (wkStep c s true).bug.isSome := Option.isSome_iff_ne_none.mpr hb
        cases n with
        | zero => exact hs
        | succ n => rwa [wkRun, if_pos (Or.inr hs)]

theorem wkRun_done {n : ℕ} {s : Sys α} (h : s.wk = .idle ∨ s.bug.isSome) : wkRun c n s = s := by
  cases n with
  | zero => rfl
  | succ n => rw [wkRun, if_pos h]

theorem wkRun_step {n : ℕ} {s : Sys α} (hw : s.wk ≠ .idle) (hb : s.bug = none) :
    wkRun c (n + 1) s = wkRun c n (wkStep c s true) := by
  rw [wkRun, if_neg]
  rintro (h | h)
  · exact hw h
  · rw [hb] at h
    cases h

/-! ## What the pass should do -/

/-- The zone is to be closed. -/
def Zone.Closes (x : Zone) : Prop := x.flags .toFull = true ∧ x.state = .full

instance (x : Zone) : Decidable x.Closes := by unfold Zone.Closes; infer_instance

/-- The zone is to be reset. -/
def Zone.Resets (x : Zone) : Prop := x.flags .gc = true ∧ x.refcount = 0 ∧ x.state = .empty

instance (x : Zone) : Decidable x.Resets := by unfold Zone.Resets; infer_instance

/-- The worker has to wait for the zone. -/
def Zone.Waits (x : Zone) : Prop :=
  if x.flags .toFull then x.state ≠ .full
  else x.flags .gc = true ∧ x.refcount = 0 ∧ x.state ≠ .empty

instance (x : Zone) : Decidable x.Waits := by unfold Zone.Waits; infer_instance

/-- What a closed zone becomes. -/
def Zone.close (x : Zone) : Zone :=
  { x with state := if x.state = .full then .closed else x.state, flags := oneFlag .full }

/-- What a pass makes of a zone. -/
def Zone.passed (x : Zone) : Zone :=
  if x.Closes then x.close else if x.Resets then x.reset else x

/-- What the pass should do to the zones from number `i` on. -/
structure PassFrom (c : Conf) (i : ℕ) (s s' : Sys α) : Prop where
  bug : s'.bug = none
  zones : ∀ j, s'.zmd.zones j =
    if i ≤ j ∧ j < c.nrZones then (s.zmd.zones j).passed else s.zmd.zones j
  full : s'.zmd.fullZoneList = s.zmd.fullZoneList ++
    (List.range' i (c.nrZones - i)).filter fun j => (s.zmd.zones j).Closes
  empty : s'.zmd.emptyZoneList = s.zmd.emptyZoneList ++
    (List.range' i (c.nrZones - i)).filter fun j => (s.zmd.zones j).Resets

/-- A zone on which the code does by itself what it should. -/
structure Zone.Fits (x : Zone) : Prop where
  gc : x.flags .toFull = true → ¬ x.Resets
  weight : x.Resets → x.weight = 0

/-- The zones from number `i` on are such, and those that wait come first. -/
structure FitsFrom (c : Conf) (i : ℕ) (send : Bool) (s : Sys α) : Prop where
  fits : ∀ j, i ≤ j → j < c.nrZones → (s.zmd.zones j).Fits
  waits : ∀ j, i ≤ j → j < c.nrZones → (s.zmd.zones j).Waits → send = false ∧
    ∀ k, i ≤ k → k < j → ¬ (s.zmd.zones k).Closes ∧ ¬ (s.zmd.zones k).Resets

/-! ## One zone -/

/-- What the loop does to zone `i`. -/
inductive Turn (c : Conf) (i : ℕ) (send : Bool) (s s' : Sys α) : Prop
  | skip (hc : ¬ (s.zmd.zones i).Closes)
      (hr : (s.zmd.zones i).flags .toFull = false → ¬ (s.zmd.zones i).Resets)
      (hw : (s.zmd.zones i).Waits → send = false) (zmd : s'.zmd = s.zmd) (bug : s'.bug = none)
      (wk : s'.wk = .visit (i + 1) send)
  | close (hf : (s.zmd.zones i).flags .toFull = true) (hs : (s.zmd.zones i).state = .full ∨ send)
      (zones : s'.zmd.zones = Function.update s.zmd.zones i (s.zmd.zones i).close)
      (full : s'.zmd.fullZoneList = s.zmd.fullZoneList ++ [i])
      (empty : s'.zmd.emptyZoneList = s.zmd.emptyZoneList) (bug : s'.bug = none)
      (wk : s'.wk = .visit (i + 1) true)
  | reset (hf : (s.zmd.zones i).flags .toFull = false) (hg : (s.zmd.zones i).flags .gc = true)
      (hr : (s.zmd.zones i).refcount = 0) (hs : (s.zmd.zones i).state = .empty ∨ send)
      (hw : (s.zmd.zones i).weight = 0)
      (zones : s'.zmd.zones = Function.update s.zmd.zones i (s.zmd.zones i).reset)
      (full : s'.zmd.fullZoneList = s.zmd.fullZoneList)
      (empty : s'.zmd.emptyZoneList = s.zmd.emptyZoneList ++ [i]) (bug : s'.bug = none)
      (wk : s'.wk = .visit (i + 1) true)
  | panic (hf : (s.zmd.zones i).flags .toFull = false) (hg : (s.zmd.zones i).flags .gc = true)
      (hr : (s.zmd.zones i).refcount = 0) (hs : (s.zmd.zones i).state = .empty ∨ send)
      (hw : (s.zmd.zones i).weight ≠ 0) (zmd : s'.zmd = s.zmd) (bug : s'.bug = some .resetValid)

theorem wkRun_turn {i n : ℕ} {send : Bool} {s : Sys α} (hb : s.bug = none)
    (hwk : s.wk = .visit i send) (hi : i < c.nrZones) (hn : s.wk.left c ≤ n) :
    ∃ m s', wkRun c n s = wkRun c m s' ∧ (s'.bug = none → s'.wk.left c ≤ m) ∧
      Turn c i send s s' := by
  rw [hwk, WkPc.left] at hn
  obtain ⟨m, rfl⟩ : ∃ m, n = m + 4 := ⟨n - 4, by omega⟩
  have hleft : ∀ b, (WkPc.visit (i + 1) b).left c ≤ m := fun b => by
    rw [WkPc.left]
    omega
  have hvisit : wkRun c (m + 4) s = wkRun c (m + 3) (wkVisit c s i send) := by
    rw [wkRun_step (by rw [hwk]; rintro ⟨⟩) hb, wkStep, hwk]
  have hclose : ∀ s₁ : Sys α, s₁.bug = none → s₁.wk = .close i →
      wkRun c (m + 3) s₁ = wkRun c (m + 1) (wkLink (wkClose s₁ i) i) := fun s₁ h1 h2 => by
    rw [wkRun_step (by rw [h2]; rintro ⟨⟩) h1, wkStep, h2]
    exact wkRun_step (s := wkClose s₁ i) (by rintro ⟨⟩) h1
  have hreset : ∀ s₁ : Sys α, s₁.bug = none → s₁.wk = .reset i →
      wkRun c (m + 2) s₁ = wkRun c (m + 1) (wkReset c s₁ i true) := fun s₁ h1 h2 => by
    rw [wkRun_step (by rw [h2]; rintro ⟨⟩) h1, wkStep, h2]
  rw [hvisit, wkVisit, if_neg (not_le.mpr hi)]
  by_cases hf : (s.zmd.zones i).flags .toFull = true
  · rw [if_pos hf]
    by_cases hs : (s.zmd.zones i).state = .full
    · rw [if_pos hs]
      refine ⟨m + 1, _, hclose _ hb rfl, fun _ => (hleft true).trans (Nat.le_succ m),
        .close hf (Or.inl hs) ?_ rfl rfl hb rfl⟩
      change Function.update (Function.update _ _ _) _ _ = _
      rw [Function.update_idem]
      simp only [Zmd.modZone, Function.update_self, Zone.close, if_pos hs]
    · rw [if_neg hs]
      cases send with
      | true =>
        rw [if_pos rfl]
        refine ⟨m + 1, _, hclose _ hb rfl, fun _ => (hleft true).trans (Nat.le_succ m),
          .close hf (Or.inr rfl) ?_ rfl rfl hb rfl⟩
        change Function.update _ _ _ = _
        simp only [Zone.close, if_neg hs]
      | false =>
        rw [if_neg (by rintro ⟨⟩)]
        exact ⟨m + 3, _, rfl, fun _ => (hleft false).trans (Nat.le_add_right m 3),
          .skip (fun h => hs h.2) (fun h => absurd hf (by rw [h]; rintro ⟨⟩)) (fun _ => rfl) rfl hb rfl⟩
  · have hf' : (s.zmd.zones i).flags .toFull = false := by simpa using hf
    have hskip : ∀ (s' : Sys α), ((s.zmd.zones i).Resets → False) →
        ((s.zmd.zones i).Waits → send = false) → s'.zmd = s.zmd → s'.bug = none →
        s'.wk = .visit (i + 1) send → Turn c i send s s' := fun s' h1 h2 h3 h4 h5 =>
      .skip (fun h => hf h.1) (fun _ => h1) h2 h3 h4 h5
    have hwait : (s.zmd.zones i).Waits ↔ (s.zmd.zones i).flags .gc = true ∧
        (s.zmd.zones i).refcount = 0 ∧ (s.zmd.zones i).state ≠ .empty := by
      rw [Zone.Waits, if_neg hf]
    rw [if_neg hf]
    by_cases hr : (s.zmd.zones i).refcount = 0
    · rw [if_neg (not_not.mpr hr), wkRun_step (s := { s with wk := .gcTest i send }) (by rintro ⟨⟩) hb]
      change ∃ m' s', wkRun c (m + 2) (wkGcTest _ i send) = _ ∧ _
      by_cases hg : (s.zmd.zones i).flags .gc = true
      · by_cases hs : (s.zmd.zones i).state = .empty ∨ send = true
        · have hto : wkGcTest { s with wk := .gcTest i send } i send = { s with wk := .reset i } := by
            rw [wkGcTest, if_pos hg, if_pos hs]
          rw [hto, hreset { s with wk := .reset i } hb rfl, wkReset, if_neg (by rintro ⟨⟩)]
          by_cases hw : (s.zmd.zones i).weight = 0
          · rw [if_neg (not_not.mpr hw)]
            refine ⟨m, _, wkRun_step (by rintro ⟨⟩) hb, fun _ => hleft true, .reset hf' hg hr hs hw rfl rfl rfl hb rfl⟩
          · rw [if_pos hw]
            exact ⟨m + 1, _, rfl, (by rintro ⟨⟩), .panic hf' hg hr hs hw rfl rfl⟩
        · rw [wkGcTest, if_pos hg, if_neg hs]
          push Not at hs
          exact ⟨m + 2, _, rfl, fun _ => (hleft send).trans (Nat.le_add_right m 2),
            hskip _ (fun h => hs.1 h.2.2) (fun _ => by simpa using hs.2) rfl hb rfl⟩
      · rw [wkGcTest, if_neg hg]
        exact ⟨m + 2, _, rfl, fun _ => (hleft send).trans (Nat.le_add_right m 2),
          hskip _ (fun h => hg h.1) (fun h => absurd (hwait.mp h).1 hg) rfl hb rfl⟩
    · rw [if_pos hr]
      exact ⟨m + 3, _, rfl, fun _ => (hleft send).trans (Nat.le_add_right m 3),
        hskip _ (fun h => hr h.2.1) (fun h => absurd (hwait.mp h).2.1 hr) rfl hb rfl⟩

/-! ## All zones -/

/-- The loop has done to zone `i` what it should. -/
structure TurnOk (c : Conf) (i : ℕ) (send : Bool) (s s' : Sys α) : Prop where
  fits : (s.zmd.zones i).Fits
  waits : (s.zmd.zones i).Waits → send = false
  zones : s'.zmd.zones = Function.update s.zmd.zones i (s.zmd.zones i).passed
  full : s'.zmd.fullZoneList =
    s.zmd.fullZoneList ++ if (s.zmd.zones i).Closes then [i] else []
  empty : s'.zmd.emptyZoneList =
    s.zmd.emptyZoneList ++ if (s.zmd.zones i).Resets then [i] else []
  bug : s'.bug = none
  wk : s'.wk = .visit (i + 1)
    (send || decide (s.zmd.zones i).Closes || decide (s.zmd.zones i).Resets)

section

variable {i : ℕ} {send : Bool} {s s' : Sys α}

theorem Zone.close_ne_reset (x : Zone) : x.close ≠ x.reset := fun h => by
  have := congrArg (fun y => y.flags .full) h
  cases this

theorem Zone.reset_ne {x : Zone} (h : x.flags .gc = true) : x.reset ≠ x := fun he => by
  have := congrArg (fun y => y.flags .gc) he
  rw [h] at this
  cases this

theorem Zone.close_ne {x : Zone} (h : x.flags .toFull = true) : x.close ≠ x := fun he => by
  have := congrArg (fun y => y.flags .toFull) he
  rw [h] at this
  cases this

theorem Zone.Closes.not_resets {x : Zone} (h : x.Closes) : ¬ x.Resets := fun hr => by
  have := h.2.symm.trans hr.2.2
  cases this

/-- A turn is what it should be exactly for a zone that fits and does not wait behind others. -/
theorem Turn.ok_or (h : Turn c i send s s') : TurnOk c i send s s' ∨
    ¬ (s'.bug = none ∧ s'.zmd.zones i = (s.zmd.zones i).passed) ∧
    ¬ ((s.zmd.zones i).Fits ∧ ((s.zmd.zones i).Waits → send = false)) := by
  generalize hx : s.zmd.zones i = x
  cases h with
  | skip hc hr hw zmd bug wk =>
    rw [hx] at hc hr hw
    by_cases hres : x.Resets
    · -- `LBZ_ZONE_TO_FULL` hides that the zone is to be reset
      have hf : x.flags .toFull = true := by
        by_contra h
        exact hr (by simpa using h) hres
      refine Or.inr ⟨fun h => ?_, fun h => h.1.gc hf hres⟩
      rw [zmd, hx, Zone.passed, if_neg hc, if_pos hres] at h
      exact Zone.reset_ne hres.1 h.2.symm
    · have hp : x.passed = x := by rw [Zone.passed, if_neg hc, if_neg hres]
      refine Or.inl ⟨?_, ?_, ?_, ?_, ?_, bug, ?_⟩
      · rw [hx]
        exact ⟨fun _ => hres, fun h => absurd h hres⟩
      · rwa [hx]
      · rw [zmd, hx, hp, ← hx, Function.update_eq_self]
      · rw [zmd, hx, if_neg hc, List.append_nil]
      · rw [zmd, hx, if_neg hres, List.append_nil]
      · rw [wk, hx, decide_eq_false hc, decide_eq_false hres, Bool.or_false, Bool.or_false]
  | close hf hs zones full empty bug wk =>
    rw [hx] at hf hs zones
    by_cases hst : x.state = .full
    · have hc : x.Closes := ⟨hf, hst⟩
      have hres := hc.not_resets
      refine Or.inl ⟨?_, ?_, ?_, ?_, ?_, bug, ?_⟩
      · rw [hx]
        exact ⟨fun _ => hres, fun h => absurd h hres⟩
      · rw [hx, Zone.Waits, if_pos hf]
        exact fun h => absurd hst h
      · rw [zones, hx, Zone.passed, if_pos hc]
      · rw [full, hx, if_pos hc]
      · rw [empty, hx, if_neg hres, List.append_nil]
      · rw [wk, hx, decide_eq_true hc, Bool.or_true, Bool.true_or]
    · have hsend := hs.resolve_left hst
      refine Or.inr ⟨fun h => ?_, fun h => ?_⟩
      · rw [zones, Function.update_self, Zone.passed, if_neg fun hc => hst hc.2] at h
        split_ifs at h
        · exact x.close_ne_reset h.2
        · exact Zone.close_ne hf h.2
      · have := h.2 (by rwa [Zone.Waits, if_pos hf])
        rw [hsend] at this
        cases this
  | reset hf hg hr hs hw zones full empty bug wk =>
    rw [hx] at hf hg hr hs hw zones
    have hc : ¬ x.Closes := fun h => by
      rw [Zone.Closes, hf] at h
      cases h.1
    by_cases hst : x.state = .empty
    · have hres : x.Resets := ⟨hg, hr, hst⟩
      refine Or.inl ⟨?_, ?_, ?_, ?_, ?_, bug, ?_⟩
      · rw [hx]
        exact ⟨fun h => absurd (hf.symm.trans h) nofun, fun _ => hw⟩
      · rw [hx, Zone.Waits, if_neg (by rw [hf]; nofun)]
        exact fun h => absurd hst h.2.2
      · rw [zones, hx, Zone.passed, if_neg hc, if_pos hres]
      · rw [full, hx, if_neg hc, List.append_nil]
      · rw [empty, hx, if_pos hres]
      · rw [wk, hx, decide_eq_true hres, Bool.or_true]
    · have hsend := hs.resolve_left hst
      refine Or.inr ⟨fun h => ?_, fun h => ?_⟩
      · rw [zones, Function.update_self, Zone.passed, if_neg hc,
          if_neg fun h' => hst h'.2.2] at h
        exact Zone.reset_ne hg h.2
      · have := h.2 (by rw [Zone.Waits, if_neg (by rw [hf]; nofun)]; exact ⟨hg, hr, hst⟩)
        rw [hsend] at this
        cases this
  | panic hf hg hr hs hw zmd bug =>
    rw [hx] at hf hg hr hs hw
    refine Or.inr ⟨fun h => ?_, fun h => ?_⟩
    · rw [bug] at h
      cases h.1
    · by_cases hst : x.state = .empty
      · exact hw (h.1.weight ⟨hg, hr, hst⟩)
      · have := h.2 (by rw [Zone.Waits, if_neg (by rw [hf]; nofun)]; exact ⟨hg, hr, hst⟩)
        rw [hs.resolve_left hst] at this
        cases this

/-- No turn touches the zones before it. -/
theorem Turn.zones_of_lt (h : Turn c i send s s') {j : ℕ} (hj : j < i) :
    s'.zmd.zones j = s.zmd.zones j := by
  cases h with
  | skip _ _ _ zmd | panic _ _ _ _ _ zmd => rw [zmd]
  | close _ _ zones | reset _ _ _ _ _ zones => rw [zones, Function.update_of_ne (by omega)]

theorem Turn.next (h : Turn c i send s s') (hb : s'.bug = none) :
    ∃ b, s'.wk = .visit (i + 1) b := by
  cases h with
  | skip _ _ _ _ _ wk => exact ⟨_, wk⟩
  | close _ _ _ _ _ _ wk => exact ⟨_, wk⟩
  | reset _ _ _ _ _ _ _ _ _ wk => exact ⟨_, wk⟩
  | panic _ _ _ _ _ _ bug =>
    rw [hb] at bug
    cases bug

theorem wkRun_zones_of_lt {n : ℕ} (hb : s.bug = none) (hwk : s.wk = .visit i send)
    (hn : s.wk.left c ≤ n) {j : ℕ} (hj : j < i) :
    (wkRun c n s).zmd.zones j = s.zmd.zones j := by
  induction hk : c.nrZones - i generalizing i send s n with
  | zero =>
    rw [hwk, WkPc.left] at hn
    obtain ⟨m, rfl⟩ : ∃ m, n = m + 1 := ⟨n - 1, by omega⟩
    rw [wkRun_step (by rw [hwk]; nofun) hb, wkStep, hwk, wkRun_done (Or.inl ?_)]
    all_goals simp only [wkVisit, if_pos (show c.nrZones ≤ i by omega)]
  | succ k ih =>
    obtain ⟨m, s', h1, h2, h3⟩ := wkRun_turn hb hwk (by omega) hn
    rw [h1, ← h3.zones_of_lt hj]
    by_cases hb' : s'.bug = none
    · obtain ⟨b, hwk'⟩ := h3.next hb'
      exact ih hb' hwk' (h2 hb') (by omega) (by omega)
    · rw [wkRun_done (Or.inr (Option.isSome_iff_ne_none.mpr hb'))]

namespace TurnOk

theorem zones_of_ne (h : TurnOk c i send s s') {j : ℕ} (hj : j ≠ i) :
    s'.zmd.zones j = s.zmd.zones j := by rw [h.zones, Function.update_of_ne hj]

/-- The zones that are left are to be closed or reset as before. -/
theorem filter_eq (h : TurnOk c i send s s') (P : Zone → Prop) [DecidablePred P]
    (hi : i < c.nrZones) :
    (List.range' i (c.nrZones - i)).filter (fun j => P (s.zmd.zones j)) =
      (if P (s.zmd.zones i) then [i] else []) ++
        (List.range' (i + 1) (c.nrZones - (i + 1))).filter fun j => P (s'.zmd.zones j) := by
  have hrest : (List.range' (i + 1) (c.nrZones - (i + 1))).filter (fun j => P (s.zmd.zones j)) =
      (List.range' (i + 1) (c.nrZones - (i + 1))).filter fun j => P (s'.zmd.zones j) :=
    List.filter_congr fun j hj => by
      have := (List.mem_range'_1.mp hj).1
      rw [h.zones_of_ne (by omega)]
  rw [show c.nrZones - i = c.nrZones - (i + 1) + 1 by omega, List.range'_succ, List.filter_cons,
    hrest]
  simp only [decide_eq_true_eq]
  split_ifs <;> rfl

theorem passFrom_iff (h : TurnOk c i send s s') (hi : i < c.nrZones) (t : Sys α)
    (ht : t.zmd.zones i = s'.zmd.zones i) : PassFrom c i s t ↔ PassFrom c (i + 1) s' t := by
  have hz : (∀ j, t.zmd.zones j =
        if i ≤ j ∧ j < c.nrZones then (s.zmd.zones j).passed else s.zmd.zones j) ↔
      ∀ j, t.zmd.zones j =
        if i + 1 ≤ j ∧ j < c.nrZones then (s'.zmd.zones j).passed else s'.zmd.zones j := by
    refine forall_congr' fun j => ?_
    by_cases hj : j = i
    · subst hj
      rw [ht, h.zones, Function.update_self, if_pos ⟨le_rfl, hi⟩, if_neg (by omega)]
    · rw [h.zones_of_ne hj, if_congr (show i ≤ j ∧ j < c.nrZones ↔ i + 1 ≤ j ∧ j < c.nrZones by
        omega) rfl rfl]
  have hf := h.filter_eq Zone.Closes hi
  have he := h.filter_eq Zone.Resets hi
  constructor
  · rintro ⟨h1, h2, h3, h4⟩
    refine ⟨h1, hz.mp h2, ?_, ?_⟩
    · rw [h3, h.full, hf, List.append_assoc]
    · rw [h4, h.empty, he, List.append_assoc]
  · rintro ⟨h1, h2, h3, h4⟩
    refine ⟨h1, hz.mpr h2, ?_, ?_⟩
    · rw [h3, h.full, hf, List.append_assoc]
    · rw [h4, h.empty, he, List.append_assoc]

theorem fitsFrom_iff (h : TurnOk c i send s s') :
    FitsFrom c i send s ↔ FitsFrom c (i + 1)
      (send || decide (s.zmd.zones i).Closes || decide (s.zmd.zones i).Resets) s' := by
  have hsend : (send || decide (s.zmd.zones i).Closes || decide (s.zmd.zones i).Resets) = false ↔
      send = false ∧ ¬ (s.zmd.zones i).Closes ∧ ¬ (s.zmd.zones i).Resets := by
    simp only [Bool.or_eq_false_iff, decide_eq_false_iff_not, and_assoc]
  constructor
  · rintro ⟨h1, h2⟩
    refine ⟨fun j hj hlt => ?_, fun j hj hlt hw => ?_⟩
    · rw [h.zones_of_ne (by omega)]
      exact h1 j (by omega) hlt
    · rw [h.zones_of_ne (by omega)] at hw
      obtain ⟨h3, h4⟩ := h2 j (by omega) hlt hw
      refine ⟨hsend.mpr ⟨h3, h4 i le_rfl hj⟩, fun k hk hkj => ?_⟩
      rw [h.zones_of_ne (by omega)]
      exact h4 k (by omega) hkj
  · rintro ⟨h1, h2⟩
    refine ⟨fun j hj hlt => ?_, fun j hj hlt hw => ?_⟩
    · by_cases hji : j = i
      · subst hji
        exact h.fits
      · rw [← h.zones_of_ne hji]
        exact h1 j (by omega) hlt
    · by_cases hji : j = i
      · subst hji
        exact ⟨h.waits hw, fun k hk hkj => by omega⟩
      · rw [← h.zones_of_ne hji] at hw
        obtain ⟨h3, h4⟩ := h2 j (by omega) hlt hw
        obtain ⟨h5, h6⟩ := hsend.mp h3
        refine ⟨h5, fun k hk hkj => ?_⟩
        by_cases hki : k = i
        · subst hki
          exact h6
        · rw [← h.zones_of_ne hki]
          exact h4 k (by omega) hkj

end TurnOk

/-- What the pass should do, it does exactly if the zones that are left fit. -/
theorem passFrom_iff {n : ℕ} (hb : s.bug = none) (hwk : s.wk = .visit i send)
    (hn : s.wk.left c ≤ n) : PassFrom c i s (wkRun c n s) ↔ FitsFrom c i send s := by
  induction hk : c.nrZones - i generalizing i send s n with
  | zero =>
    have hle : c.nrZones ≤ i := by omega
    have hend : wkRun c n s = { s with wk := .idle } := by
      rw [hwk, WkPc.left] at hn
      obtain ⟨m, rfl⟩ : ∃ m, n = m + 1 := ⟨n - 1, by omega⟩
      rw [wkRun_step (by rw [hwk]; nofun) hb, wkStep, hwk]
      simp only [wkVisit, if_pos hle]
      exact wkRun_done (Or.inl rfl)
    refine iff_of_true ?_ ⟨fun j _ _ => by omega, fun j _ _ => by omega⟩
    rw [hend]
    refine ⟨hb, fun j => (if_neg (by omega)).symm, ?_, ?_⟩
    all_goals
      rw [hk]
      exact (List.append_nil _).symm
  | succ k ih =>
    have hi : i < c.nrZones := by omega
    obtain ⟨m, s', h1, h2, h3⟩ := wkRun_turn hb hwk hi hn
    rw [h1]
    have hzone : (wkRun c m s').zmd.zones i = s'.zmd.zones i := by
      by_cases hb' : s'.bug = none
      · obtain ⟨b, hwk'⟩ := h3.next hb'
        exact wkRun_zones_of_lt hb' hwk' (h2 hb') (Nat.lt_succ_self i)
      · rw [wkRun_done (Or.inr (Option.isSome_iff_ne_none.mpr hb'))]
    rcases h3.ok_or with hok | ⟨hno, hbad⟩
    · rw [hok.passFrom_iff hi _ hzone, hok.fitsFrom_iff]
      exact ih hok.bug hok.wk (h2 hok.bug) (by omega)
    · refine iff_of_false (fun hp => hno ⟨?_, ?_⟩) fun hf => hbad ⟨hf.fits i le_rfl hi, fun hw =>
        (hf.waits i le_rfl hi hw).1⟩
      · by_contra hb'
        rw [wkRun_done (Or.inr (Option.isSome_iff_ne_none.mpr hb'))] at hp
        exact hb' hp.bug
      · rw [← hzone, hp.zones i, if_pos ⟨le_rfl, hi⟩]

end

/-! ## The pass -/

/-- The pass treats each zone by itself, and closes no zone with a write still to complete. -/
structure PassExact (c : Conf) (s : Sys α) : Prop where
  pass : PassFrom c 0 s (zoneStateWkFn c s)
  pending : ∀ z ∈ (zoneStateWkFn c s).zmd.fullZoneList.drop s.zmd.fullZoneList.length,
    ¬ 0 < (s.zmd.zones z).pendingWriteIo

/-- What the pass needs of the zones: no zone is both to be closed and to be reset, a zone to be reset
has no valid block, a zone in `BLK_ZONE_COND_FULL` has no write to complete, and no zone that has to
wait comes after one that has not. -/
structure PassFits (c : Conf) (m : Zmd) : Prop where
  fits : ∀ i < c.nrZones, (m.zones i).Fits
  pending : ∀ i < c.nrZones, (m.zones i).Closes → ¬ 0 < (m.zones i).pendingWriteIo
  order : ∀ i j, i < j → j < c.nrZones → (m.zones j).Waits →
    ¬ (m.zones i).Closes ∧ ¬ (m.zones i).Resets

/-- **A pass treats each zone by itself** exactly if no zone that has to wait comes after one that has
not. -/
theorem passExact_iff {s : Sys α} (hb : s.bug = none) (hf : s.faulty = false)
    (hr : s.ready = true) : PassExact c s ↔ PassFits c s.zmd := by
  have hrun : zoneStateWkFn c s = wkRun c (4 * c.nrZones + 1) (wkStart s) := by
    rw [zoneStateWkFn, if_neg]
    rw [hf, hr]
    nofun
  have hiff : PassFrom c 0 s (zoneStateWkFn c s) ↔ FitsFrom c 0 false s := by
    have h := passFrom_iff (c := c) (s := wkStart s) hb rfl (le_refl (4 * (c.nrZones - 0) + 1))
    rw [hrun]
    exact ⟨fun hp => have hf := h.mp ⟨hp.bug, hp.zones, hp.full, hp.empty⟩; ⟨hf.fits, hf.waits⟩,
      fun hf => have hp := h.mpr ⟨hf.fits, hf.waits⟩; ⟨hp.bug, hp.zones, hp.full, hp.empty⟩⟩
  have hdrop : PassFrom c 0 s (zoneStateWkFn c s) →
      ∀ z, z ∈ (zoneStateWkFn c s).zmd.fullZoneList.drop s.zmd.fullZoneList.length ↔
        z < c.nrZones ∧ (s.zmd.zones z).Closes := fun h z => by
    rw [h.full, List.drop_left, List.mem_filter, decide_eq_true_iff, List.mem_range'_1,
      show 0 ≤ z ∧ z < 0 + (c.nrZones - 0) ↔ z < c.nrZones by omega]
  constructor
  · rintro ⟨h1, h2⟩
    have hfit := hiff.mp h1
    exact ⟨fun i hi => hfit.fits i (Nat.zero_le i) hi,
      fun i hi hc => h2 i ((hdrop h1 i).mpr ⟨hi, hc⟩),
      fun i j hij hj hw => (hfit.waits j (Nat.zero_le j) hj hw).2 i (Nat.zero_le i) hij⟩
  · rintro ⟨h1, h2, h3⟩
    have hp := hiff.mpr ⟨fun j _ hj => h1 j hj, fun j _ hj hw => ⟨rfl, fun k _ hk => h3 k j hk hj hw⟩⟩
    refine ⟨hp, fun z hz => ?_⟩
    obtain ⟨hz1, hz2⟩ := (hdrop hp z).mp hz
    exact h2 z hz1 hz2

theorem wkRun_runs [Inhabited α] {n : ℕ} {s : Sys α} :
    Runs (stepRel (step c)) (fun _ e => e = .wkStep true) s (wkRun c n s) := by
  induction n generalizing s with
  | zero => exact Runs.refl
  | succ n ih =>
    rw [wkRun]
    split_ifs with h
    · exact Runs.refl
    · push Not at h
      have hb : s.bug = none := by simpa using h.2
      have hs : step c s (.wkStep true) = some (wkStep c s true) := if_pos ⟨hb, h.1⟩
      exact Relation.ReflTransGen.head ⟨_, rfl, hs⟩ ih

/-- A pass is a run of the device in which only the worker moves. -/
theorem zoneStateWkFn_runs [Inhabited α] {s : Sys α} (hb : s.bug = none) (hwk : s.wk = .idle) :
    Runs (stepRel (step c)) (fun _ e => e = .wkStart ∨ e = .wkStep true) s
      (zoneStateWkFn c s) := by
  rw [zoneStateWkFn]
  split_ifs with h
  · exact Runs.refl
  · have hready : Ready c s .wkStart := ⟨hwk, by simpa using h⟩
    have hs : step c s .wkStart = some (wkStart s) := if_pos ⟨hb, hready⟩
    exact Relation.ReflTransGen.head ⟨_, Or.inl rfl, hs⟩
      (Runs.mono (fun _ _ he => Or.inr he) wkRun_runs)

/-- Zones of two blocks: zone 0 is written, closed and overwritten, and is the victim; zone 1 is
written. -/
def passEvents : List (Event ℕ) :=
  List.flatten [soleWrite 0 0 0 7, settleWrite 0, soleWrite 1 1 1 7, settleWrite 0, soleWrite 2 0 0 7,
    settleWrite 1, [.wkStart], List.replicate 9 (.wkStep true), soleWrite 3 1 1 7, settleWrite 1,
    soleWrite 4 2 0 7, settleWrite 2, [.gcSelect true, .gcScan, .gcScan, .gcScan, .putZone 0 .gc]]

/-- A pass that resets zone 0 and closes zone 1. -/
theorem passExact_iff_two : ∃ s : Sys ℕ, s.wk = .idle ∧ (s.zmd.zones 0).Resets ∧
    (s.zmd.zones 1).Closes ∧
    PassExact (confOf ⟨false, false, false, 16, 8⟩ (emptyReport 4 16 16)) s := by
  let c := confOf ⟨false, false, false, 16, 8⟩ (emptyReport 4 16 16)
  let s₀ : Sys ℕ := (initSys ⟨false, false, false, 16, 8⟩ (emptyReport 4 16 16)).get (by decide)
  obtain ⟨s, -, h⟩ := exists_run (step c) (fun _ e => e.NoError)
    (fun s => decide ((s.bug = none ∧ s.faulty = false ∧ s.ready = true) ∧
      (s.wk = .idle ∧ (s.zmd.zones 0).Resets ∧ (s.zmd.zones 1).Closes) ∧
      (∀ i < c.nrZones, ((s.zmd.zones i).flags .toFull = true → ¬ (s.zmd.zones i).Resets) ∧
        ((s.zmd.zones i).Resets → (s.zmd.zones i).weight = 0) ∧
        ((s.zmd.zones i).Closes → ¬ 0 < (s.zmd.zones i).pendingWriteIo) ∧
        ¬ (s.zmd.zones i).Waits))) s₀ passEvents (by decide +kernel)
  obtain ⟨⟨hb, hf, hr⟩, ⟨hwk, h0, h1⟩, hfit⟩ := of_decide_eq_true h
  refine ⟨s, hwk, h0, h1, (passExact_iff hb hf hr).mpr ⟨fun i hi => ?_, fun i hi => ?_, ?_⟩⟩
  · exact ⟨(hfit i hi).1, (hfit i hi).2.1⟩
  · exact (hfit i hi).2.2.1
  · exact fun i j _ hj hw => absurd hw (hfit j hj).2.2.2

/-- Zone 0 is written and to be closed; zone 1 is filled, and its writes are still at the device. -/
theorem passExact_not_behind : ¬ ∀ (o : Options) (report : List BlkZone) (s₀ s : Sys ℕ),
    EmptyReport o report → initSys o report = some s₀ →
    Runs (stepRel (step (confOf o report))) (fun _ e => e.NoError) s₀ s →
    PassExact (confOf o report) s := by
  intro h
  let o : Options := ⟨false, false, false, 16, 8⟩
  let s₀ : Sys ℕ := (initSys o (emptyReport 4 16 16)).get (by decide)
  have he : EmptyReport o (emptyReport 4 16 16) := emptyReport_ok o 4 16 (by decide) (by decide)
    (by decide)
  obtain ⟨s, hrun, h1⟩ := exists_run (step (confOf o (emptyReport 4 16 16))) (fun _ e => e.NoError)
    (fun s => decide (1 ∈ (zoneStateWkFn (confOf o (emptyReport 4 16 16)) s).zmd.fullZoneList.drop
      s.zmd.fullZoneList.length ∧ 0 < (s.zmd.zones 1).pendingWriteIo)) s₀
    (soleWrite 0 0 0 7 ++ settleWrite 0 ++ soleWrite 1 1 1 7 ++ settleWrite 0 ++
      [.submitWrite 2 7 false, .runWrite 2 true, .runWrite 2 true, .submitWrite 3 7 false,
        .runWrite 3 true, .runWrite 3 true]) (by decide +kernel)
  have h2 := of_decide_eq_true h1
  exact (h o _ s₀ s he (Option.some_get _).symm hrun).pending 1 h2.1 h2.2

end Lbz
