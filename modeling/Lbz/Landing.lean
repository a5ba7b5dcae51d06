import Lbz.Quiet
import Lbz.VictimMove

/-!
# Where appends are on their way to

* `x.FliesTo z`: the append of task `x` is on its way to zone `z`; `NoLaunch h h'`: no append is issued
  from the tasks `h` to the tasks `h'`;
* `Landing c k`: appends are on their way to zones of the device, and none to a zone that the worker is
  about to reset, be it for the flag that it carries;
* **`Landing.move`**: every move keeps that, also the errors.
-/

namespace Lbz

variable {α : Type}

/-- The append of the task is on its way to zone `z`. -/
def Task.FliesTo (z : ℕ) (x : Task α) : Prop := x.pc = .device ∧ x.zone = some z

instance (z : ℕ) : DecidablePred (Task.FliesTo z : Task α → Prop) := fun x => by
  unfold Task.FliesTo
  infer_instance

theorem Task.FliesTo.writes {z : ℕ} {x : Task α} (h : x.FliesTo z) (hs : x.Shape) : x.Writes z := by
  obtain ⟨hst, -, -⟩ := hs.device h.1
  exact ⟨h.2, by rw [hst]; rfl, by rw [h.1]; nofun⟩

/-- An append that is on its way in `h'` has been so in `h`. -/
def NoLaunch (h h' : Heap (Task α)) : Prop :=
  ∀ t y, h'.get t = some y → ∀ z, y.FliesTo z → ∃ x, h.get t = some x ∧ x.FliesTo z

namespace NoLaunch

variable {h h' h'' : Heap (Task α)}

theorem refl (h : Heap (Task α)) : NoLaunch h h := fun _ y hy _ hz => ⟨y, hy, hz⟩

theorem trans (a : NoLaunch h h') (b : NoLaunch h' h'') : NoLaunch h h'' := fun t y hy z hz => by
  obtain ⟨x, hx, hxz⟩ := b t y hy z hz
  exact a t x hx z hxz

theorem modify (t : ℕ) {f : Task α → Task α} (hf : ∀ x z, (f x).FliesTo z → x.FliesTo z) :
    NoLaunch h (h.modify t f) := fun i y hy z hz => by
  rw [Heap.get_modify] at hy
  split_ifs at hy
  · obtain ⟨x, hx, rfl⟩ := Option.map_eq_some_iff.mp hy
    exact ⟨x, hx, hf x z hz⟩
  · exact ⟨y, hy, hz⟩

theorem free (t : ℕ) : NoLaunch h (h.free t) := fun i y hy z hz => by
  rw [Heap.get_free] at hy
  split_ifs at hy
  exact ⟨y, hy, hz⟩

theorem alloc {x : Task α} (hx : x.pc ≠ .device) : NoLaunch h (h.alloc x) := fun i y hy z hz => by
  rw [Heap.get_alloc] at hy
  split_ifs at hy
  · cases hy
    exact absurd hz.1 hx
  · exact ⟨y, hy, hz⟩

end NoLaunch

/-- The worker has found zone `i` without references, or is about to reset it. -/
def WkPc.aims (i : ℕ) (wk : WkPc) : Prop := wk = .reset i ∨ ∃ b, wk = .gcTest i b

/-- Zone `i` is full or the victim. -/
def Spent (m : Zmd) (i : ℕ) : Prop := i ∈ m.fullZoneList ∨ (m.zones i).flags .gc = true

structure Landing (c : Conf) (k : Core α) : Prop where
  zone : k.tasks.All fun _ x => ∀ z, x.FliesTo z → z < c.nrZones
  spent : ∀ i, k.wk.aims i → Spent k.zmd i → k.tasks.All fun _ x => ¬ x.FliesTo i

section

variable {c : Conf} {k k' : Core α} {l : Label} {m m' : Zmd}

theorem Spent.same (h : SamePlaces m m') (i : ℕ) (a : Spent m' i) : Spent m i := by
  rwa [Spent, h.fullList, h.gc] at a

theorem Landing.keep (a : Landing c k) (ht : NoLaunch k.tasks k'.tasks)
    (hm : ∀ i, k'.wk.aims i → Spent k'.zmd i → k.wk.aims i ∧ Spent k.zmd i) : Landing c k' := by
  refine ⟨fun t y hy z hz => ?_, fun i hi hs t y hy hz => ?_⟩
  · obtain ⟨x, hx, hxz⟩ := ht t y hy z hz
    exact a.zone t x hx z hxz
  · obtain ⟨x, hx, hxz⟩ := ht t y hy i hz
    obtain ⟨h1, h2⟩ := hm i hi hs
    exact a.spent i h1 h2 t x hx hxz

/-- Neither the worker nor a zone moves. -/
theorem Landing.tasks (a : Landing c k) (ht : NoLaunch k.tasks k'.tasks) (hwk : k'.wk = k.wk)
    (hm : SamePlaces k.zmd k'.zmd) : Landing c k' :=
  a.keep ht fun _ hi hs => ⟨hwk ▸ hi, hs.same hm⟩

/-- The worker turns to something else. -/
theorem Landing.worker (a : Landing c k) (ht : k'.tasks = k.tasks) (hwk : ∀ i, ¬ k'.wk.aims i) :
    Landing c k' := a.keep (ht ▸ .refl _) fun _ hi _ => absurd hi (hwk _)

theorem spent_takeBlock (i : Fin 2) (z j : ℕ) : Spent (takeBlock c m i z).1 j ↔ Spent m j := by
  have hl : (takeBlock c m i z).1.fullZoneList = m.fullZoneList := by
    rw [takeBlock]
    split_ifs <;> rfl
  rw [Spent, Spent, hl, takeBlock_gc]

theorem spent_openZone (i : Fin 2) (z j : ℕ) : Spent (openZone m i z) j ↔ Spent m j := by
  have hf : ((openZone m i z).zones j).flags .gc = (m.zones j).flags .gc := by
    rw [openZone_zones]
    split_ifs
    · exact Zone.setZoneState_of_ne (show ZoneState.gc ≠ .active from nofun) (m.zones j)
    · rfl
  rw [Spent, Spent, hf]
  rfl

theorem Spent.of_takeVictim {z j : ℕ} (hz : z ∈ m.fullZoneList) (h : Spent (takeVictim m z) j) :
    Spent m j := by
  rcases h with h | h
  · exact Or.inl (List.mem_of_mem_erase h)
  · rw [takeVictim_zones] at h
    split_ifs at h with e
    · exact Or.inl (e ▸ hz)
    · exact Or.inr h

theorem SamePlaces.refl (m : Zmd) : SamePlaces m m :=
  ⟨rfl, rfl, rfl, rfl, rfl, rfl, rfl, fun _ => rfl, fun _ => rfl, fun _ => rfl, fun _ => rfl⟩

/-- The append to an active zone. -/
theorem Landing.launch (P : Places c k) (a : Landing c k) {t z : ℕ} {i : Fin 2} {f : Task α → Task α}
    (ha : k.zmd.activeZone i = some z) (hf : ∀ x z', (f x).FliesTo z' → z' = z)
    (ht : k'.tasks = k.tasks.modify t f) (hwk : k'.wk = k.wk)
    (hm : k'.zmd = (takeBlock c k.zmd i z).1) : Landing c k' := by
  obtain ⟨pl, P⟩ := P
  have hz : pl z = .active i := (P.active i z).mp ha
  refine ⟨?_, fun j hj hs => ?_⟩
  · rw [ht]
    refine Heap.All.modify a.zone fun x _ _ z' hx => ?_
    rw [hf x z' hx]
    exact lt_of_place P (by rw [hz]; nofun)
  · rw [hm, spent_takeBlock] at hs
    rw [hwk] at hj
    rw [ht]
    refine Heap.All.modify (a.spent j hj hs) fun x _ _ hx => ?_
    rw [← hf x j hx] at hz
    rcases hs with h | h
    · cases hz.symm.trans ((P.full j).mp h)
    · cases hz.symm.trans ((P.gc j).mp h)

variable [Inhabited α]

/-- **Every move keeps it.** -/
theorem Landing.move (B : Base c k) (C : Counts k) (a : Landing c k) (hm : Move c k l k') :
    Landing c k' := by
  have same := SamePlaces.refl k.zmd
  cases hm with
  | readMiss | serve | endRead | retryUsers | retryGcs | retryDone | scanFree | serveFail =>
    exact ⟨a.zone, a.spent⟩
  | submitWrite => exact a.tasks (.alloc nofun) rfl same
  | scanBlock => exact a.tasks (.alloc nofun) rfl (.getZone _ _)
  | destroy => exact a.tasks (.free _) rfl same
  | destroyCall => exact a.tasks (.trans (.free _) (.free _)) rfl same
  | conflict | gcFind =>
    refine a.tasks (.trans (.modify _ ?_) (.modify _ ?_)) rfl same
    · exact fun _ _ h => h
    · exact fun _ _ h => nomatch h.1
  | gcFound =>
    refine a.tasks (.trans (.modify _ ?_) (.modify _ ?_)) rfl same
    · exact fun _ _ h => nomatch h.1
    · exact fun _ _ h => h
  | insert | dropRef => exact a.tasks (.modify _ fun _ _ h => h) rfl same
  | fallback | fallbackFail | pend | append | untree | nextUser | nextGc | gcServe | gcReadEnd
  | gcInsert | gcSkip | gcPass | skipEnd | allocFail | devFail | writeFail | gcServeFail | gcReadFail
  | release => exact a.tasks (.modify _ fun _ _ h => nomatch h.1) rfl same
  | openZone =>
    exact a.keep (.refl _) fun i hi hs => ⟨hi, (spent_openZone ..).mp hs⟩
  | dispatch hx hst hpc ha =>
    exact a.launch B.places ha (fun x z' h => (Option.some.inj h.2).symm) rfl rfl rfl
  | dispatchFail hx hty hst hpc ha =>
    refine a.launch B.places ha ?_ rfl rfl rfl
    exact fun x z' h => nomatch h.1
  | apply =>
    exact a.tasks (.modify _ fun _ _ h => nomatch h.1) rfl
      ((SamePlaces.invalidateOld ..).trans (.updateReverseMap ..))
  | complete => exact a.tasks (.refl _) rfl (.completeWrite _ _)
  | putZone => exact a.tasks (.refl _) rfl (.putZone _ _)
  | readHit | peek => exact a.tasks (.refl _) rfl (.getZone _ _)
  | select hpc hbusy hz =>
    exact a.keep (.refl _) fun i hi hs => ⟨hi, hs.of_takeVictim (victim_mem hz)⟩
  | scanEnd => exact a.tasks (.refl _) rfl (.modZone _ _ fun x => ⟨rfl, rfl, rfl, rfl⟩)
  | gcWritten | gcWriteFail =>
    exact a.tasks (.modify _ fun _ _ h => nomatch h.1) rfl (.completeWrite _ _)
  | remap =>
    refine a.tasks (.modify _ fun _ _ h => nomatch h.1) rfl ?_
    change SamePlaces k.zmd (if _ then _ else _)
    split_ifs
    · exact .updateReverseMap c _ _ _ _
    · exact (SamePlaces.updateReverseMap c _ _ _ _).trans (.invalidate c _ _ _)
  | @discard b p => exact a.tasks (.refl _) rfl (.invalidateOld c k.zmd (some p))
  | wkStart | wkIdle | wkNext | wkFull | wkSticky | wkClose | wkLink | wkReset | wkPublish | wkFail =>
    exact a.worker rfl fun i hi => by rcases hi with h | ⟨b, h⟩ <;> cases h
  | @wkFree i b hwk hr =>
    -- nobody holds the zone
    refine ⟨a.zone, fun j hj _ t x hx hz => ?_⟩
    rcases hj with h | ⟨b', h⟩ <;> cases h
    exact ((C.unheld hr).tasks t x hx).1 (hz.writes (B.tasks.shape t x hx))
  | wkEmpty hwk | wkCarried hwk =>
    refine a.keep (.refl _) fun j hj hs => ⟨?_, hs⟩
    rcases hj with h | ⟨b', h⟩ <;> cases h
    exact Or.inr ⟨_, hwk⟩

end

end Lbz
