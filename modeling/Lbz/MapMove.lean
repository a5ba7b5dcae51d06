import Lbz.Maps

/-!
# Every move keeps the maps

* `Quiet.*`: the changes of a task that the maps do not see;
* `Maps c k`: the invariant of the maps, with the zone of the scan one of the device;
* **`Maps.move`**: every move keeps it, whatever the worker does.
-/

namespace Lbz

variable {α : Type} {c : Conf}

namespace Quiet

variable {x y : Task α}

/-- The status says that no block is taken, before and after. -/
theorem of_status (hty : y.type = x.type) (hpb : y.pbid = x.pbid)
    (hv : x.type = .gc → y.victim = x.victim) (hst : x.status ≠ .dispatch)
    (hst' : y.status ≠ .dispatch) (happ : y.appended = x.appended) : Quiet x y :=
  ⟨hty, hpb, hv, happ, fun _ => iff_of_false (fun h => hst' h.2.1) fun h => hst h.2.1⟩

theorem refs (n : ℤ) (l : Link) : Quiet x { x with refcount := n, link := l } :=
  ⟨rfl, rfl, fun _ => rfl, rfl, fun _ => Iff.rfl⟩

theorem link (l : Link) : Quiet x { x with link := l } := refs x.refcount l

theorem incRef : Quiet x x.incRef := refs (x.refcount + 1) x.link

theorem decRef : Quiet x x.decRef := refs (x.refcount - 1) x.link

end Quiet

structure Maps (c : Conf) (ph : ℕ → ℤ) (k : Core α) : Prop where
  inv : MapInv c ph k.zmd k.mapping k.tasks k.phys
  scan : ∀ z iter pos, k.gcPc = .scan z iter pos → z < c.nrZones ∧ ph z < c.zoneNrBlocks

section

variable {k k' : Core α} {l : Label} {ph : ℕ → ℤ}

/-- The tasks change one after the other, and nothing else that the maps depend on does. -/
theorem Maps.tasks (a : Maps c ph k) (hi : MapInv c ph k'.zmd k'.mapping k'.tasks k'.phys)
    (hp : k'.gcPc = k.gcPc) : Maps c ph k' := ⟨hi, hp ▸ a.scan⟩

theorem lt_of_place {m : Zmd} {wk : WkPc} {gcZone : Option ℕ} {pl : ℕ → Place} {z : ℕ}
    (a : PlaceInv c m wk gcZone pl) (h : pl z ≠ .outside) : z < c.nrZones := by
  by_contra hz
  exact h ((a.outside z).mpr (not_lt.mp hz))

theorem takeBlock_same {m : Zmd} (i : Fin 2) (z : ℕ) :
    SameMaps (allocRes m z) (takeBlock c m i z).1 := by
  rw [takeBlock]
  split_ifs
  · exact SameMaps.leaveActive _ i z
  · exact ⟨fun _ => rfl, fun _ => rfl, fun _ => rfl, rfl⟩

theorem Task.UserPhase.pending {x : Task α} (hp : x.UserPhase) (hpc : x.pc = .pending) :
    x.status ≠ .dispatch := by
  cases hp <;> simp_all

theorem Task.GcPhase.pending {x : Task α} {v : ℕ} (hp : x.GcPhase v) (hpc : x.pc = .pending) :
    x.status = .gcReading := by
  cases hp <;> simp_all

variable [Inhabited α]

/-- **Every move keeps the maps.** -/
theorem Maps.move (g : Geom c) (B : Base c k) (a : Maps c ph k) (hl : l ≠ .fault)
    (hm : Move c k l k') : Maps c ph k' := by
  obtain ⟨pl, P⟩ := B.places
  have T := B.tasks
  have Q := B.queues
  cases hm with
  | dispatchFail | fallbackFail | allocFail | devFail | writeFail | serveFail | gcServeFail
  | gcReadFail | gcWriteFail | release | wkFail => exact absurd rfl hl
  | readMiss | serve | endRead | retryUsers | retryGcs | retryDone | wkStart | wkIdle | wkNext
  | wkSticky | wkFree | wkEmpty | wkCarried => exact ⟨a.inv, a.scan⟩
  | @openZone i z l ha he =>
    have h := SameMaps.openZone { k.zmd with
      emptyZoneList := l, emptyZoneCount := k.zmd.emptyZoneCount - 1 } i z
    exact ⟨a.inv.same ⟨h.zrms, h.weight, h.wp, h.valid⟩, a.scan⟩
  | complete => exact ⟨a.inv.same (.completeWrite _ _), a.scan⟩
  | putZone => exact ⟨a.inv.same (.putZone _ _), a.scan⟩
  | readHit => exact ⟨a.inv.same (.getZone _ _), a.scan⟩
  | peek => exact ⟨a.inv.same (.getZone _ _), a.scan⟩
  | @wkFull i =>
    exact ⟨a.inv.same (.modZone k.zmd i (f := fun x => { x with state := .closed })
      fun _ => ⟨rfl, rfl, rfl⟩), a.scan⟩
  | @wkClose i =>
    exact ⟨a.inv.same (.modZone k.zmd i (f := fun x => { x with flags := oneFlag .full })
      fun _ => ⟨rfl, rfl, rfl⟩), a.scan⟩
  | wkLink | wkPublish =>
    exact ⟨a.inv.same ⟨fun _ => rfl, fun _ => rfl, fun _ => rfl, rfl⟩, a.scan⟩
  | @select z mod hpc hbusy hz =>
    refine ⟨a.inv.same (.takeVictim _ _), fun z' iter pos h => ?_⟩
    cases h
    have hlt : z < c.nrZones := lt_of_place P (by rw [(P.full z).mp (victim_mem hz)]; rintro ⟨⟩)
    have := a.inv.weight_ge hlt
    have := victim_weight hz (a.inv.weight_nonneg hlt)
    exact ⟨hlt, by omega⟩
  | scanFree hpc => exact ⟨a.inv, fun z' iter pos h => by cases h; exact a.scan _ _ _ hpc⟩
  | @scanBlock z iter b hpc hi =>
    have hz := a.scan _ _ _ hpc
    have hwp := (a.inv.wp z hz.1).2
    refine ⟨(a.inv.same (.getZone _ _)).alloc rfl (fun z h => by cases h.2.1) fun _ => ?_,
      fun z' iter pos h => by cases h; exact hz⟩
    exact ⟨z, rfl, contains_add hz.1 (by omega)⟩
  | scanEnd hpc hi =>
    exact ⟨a.inv.same (.modZone _ _ fun _ => ⟨rfl, rfl, rfl⟩), by simp⟩
  | submitWrite b d more hty =>
    exact a.tasks (a.inv.alloc rfl (fun z h => by cases h.2.1) fun h => absurd h hty) rfl
  | @conflict t tk x y hx hty hst hpc htk hy hb =>
    have hf : x.Fresh := by rw [Task.Fresh, if_neg hty]; exact hst
    have hne := TaskInv.ne_of_fresh T hx hf htk
    refine a.tasks ((a.inv.quiet hy .incRef).quiet (x := x) ?_ (.of_status rfl rfl (fun _ => rfl)
      (by rw [hst]; rintro ⟨⟩) (by rw [hst]; rintro ⟨⟩) ?_)) rfl
    · rw [Heap.get_modify_ne hne, hx]
    · simp only [Task.appended, hpc]
  | @insert t x hx hty hst hpc hfree =>
    exact a.tasks (a.inv.quiet hx (.of_status rfl rfl (fun _ => rfl) (by rw [hst]; rintro ⟨⟩) (by rintro ⟨⟩)
      rfl)) rfl
  | @dispatch t z i x log hx hst hpc ha hres hlog =>
    have hz := (P.active i z).mp ha
    have hnu : ∀ z, ¬ x.Unapplied z := fun z h => by rw [h.2.1] at hst; cases hst
    refine a.tasks ((a.inv.take (F := fun x => { x with
        zone := some z, status := .dispatch, pc := .device, integ := .buf log }) hx
      (lt_of_place P (by rw [hz]; rintro ⟨⟩)) (P.wp i z hz) hnu ⟨rfl, rfl, by rintro ⟨⟩, by rintro ⟨⟩⟩ rfl rfl rfl
      fun hty => ?_).same (takeBlock_same i z)) rfl
    obtain ⟨⟨v, hp⟩, -⟩ := (T.shape t x hx).gc hty
    obtain ⟨-, hv⟩ : x.zone = none ∧ x.readZone = some v := by cases hp <;> simp_all
    simp only [Task.victim, hv, Option.some_or]
  | @fallback t i x hx hst hpc hfull =>
    refine a.tasks (a.inv.quiet hx (.of_status rfl rfl (fun _ => rfl) (by rw [hst]; rintro ⟨⟩)
      (by rw [hst]; rintro ⟨⟩) ?_)) rfl
    simp only [Task.appended, hpc]
  | @pend t x hx hty hst hpc =>
    refine a.tasks (a.inv.quiet hx (.of_status rfl rfl (fun _ => rfl) (by rw [hst]; rintro ⟨⟩)
      (by rw [hst]; rintro ⟨⟩) ?_)) rfl
    rcases hpc with hpc | ⟨j, hpc⟩ <;> simp only [Task.appended, hpc]
  | @append t z off x log hx hpc hz hi hoff hfree =>
    obtain ⟨hst, -⟩ := (T.shape t x hx).device hpc
    have hu : x.Unapplied z := ⟨hz, hst, by rw [hpc]; rintro ⟨⟩, by rw [hpc]; rintro ⟨⟩⟩
    have hlt : off < c.zoneNrBlocks := lt_of_lt_of_le (Nat.lt_add_of_pos_right x.len_pos) hoff
    refine a.tasks (a.inv.append hx hu rfl (contains_add (a.inv.zones t x hx z hu) hlt)
      (hfree 0 x.len_pos) ?_ (fun q hq => ?_) rfl rfl rfl fun z' => ?_) rfl
    · rw [Phys.put_cells]
      exact Option.some_ne_none _
    · rwa [Phys.put_cells_keeps hfree hq]
    · simp [Task.Unapplied, hpc]
  | @apply t z p x hx hty hpc hz =>
    obtain ⟨hst, -⟩ := (T.shape t x hx).written hpc
    refine a.tasks (a.inv.apply g hx ⟨hz, hst, by rw [hpc]; rintro ⟨⟩, by rw [hpc]; rintro ⟨⟩⟩
      (by simp only [Task.appended, hpc]) (fun z h => h.2.2.1 rfl) rfl (fun h => absurd h hty)
      rfl) rfl
  | @untree t z x hx hpc hz =>
    refine a.tasks (a.inv.quiet hx ⟨rfl, rfl, fun _ => rfl, ?_, fun z => ?_⟩) rfl
    · simp only [Task.appended, hpc]
    · exact iff_of_false (fun h => h.2.2.2 rfl) fun h => h.2.2.1 hpc
  | dropRef ht hx hr => exact a.tasks (a.inv.quiet hx .decRef) rfl
  | destroy ht hx hr =>
    obtain ⟨hd, -⟩ := TaskInv.last T hx ht hr
    exact a.tasks (a.inv.free hx fun z h => h.2.2.2 hd) rfl
  | @destroyCall t g v x y ht hx hr hty hl hy hgc hpc hv =>
    obtain ⟨hd, -⟩ := TaskInv.last T hx ht hr
    obtain ⟨⟨w, hp⟩, -⟩ := (T.shape g y hy).gc hgc
    have hst := (hp.waiting hpc).1
    refine a.tasks ((a.inv.free hy fun z h => by rw [h.2.1] at hst; cases hst).free (x := x) ?_
      fun z h => h.2.2.2 hd) rfl
    rw [Heap.get_free, if_neg, hx]
    rintro rfl
    cases hx.symm.trans hy
    exact hty hgc
  | @nextUser t l hr hret =>
    obtain ⟨x, hx, hty, hpc⟩ := Q.users.2 t (by simp [hr, RetryPc.usersLeft])
    have hst := ((T.shape t x hx).user hty).1.pending hpc
    refine a.tasks (a.inv.quiet hx (.of_status rfl rfl (fun _ => rfl) hst hst ?_)) rfl
    simp only [Task.appended, hpc]
  | @nextGc t l hr hret =>
    obtain ⟨x, hx, hty, hpc⟩ := Q.gcs.2 t (by simp [hr, RetryPc.gcsLeft])
    obtain ⟨⟨v, hp⟩, -⟩ := (T.shape t x hx).gc hty
    have hst : x.status ≠ .dispatch := by rw [hp.pending hpc]; rintro ⟨⟩
    refine a.tasks (a.inv.quiet hx (.of_status rfl rfl (fun _ => rfl) hst hst ?_)) rfl
    simp only [Task.appended, hpc]
  | @gcServe g x hx hpc =>
    obtain ⟨hty, -⟩ := Tame.gcServe true x.data (T.shape g x hx) hpc
    obtain ⟨⟨v, hp⟩, -⟩ := (T.shape g x hx).gc hty
    have hst : x.status ≠ .dispatch := by cases hp <;> simp_all
    refine a.tasks (a.inv.quiet hx (.of_status rfl rfl (fun _ => rfl) hst hst ?_)) rfl
    simp only [Task.appended, hpc]
  | @gcReadEnd g x hx hpc =>
    obtain ⟨hty, -⟩ := Tame.gcReadEnd (T.shape g x hx) hpc
    obtain ⟨⟨v, hp⟩, -⟩ := (T.shape g x hx).gc hty
    obtain ⟨hst, hz, hv⟩ : x.status ≠ .dispatch ∧ x.zone = some v ∧ x.readZone = some v := by
      cases hp <;> simp_all
    refine a.tasks (a.inv.quiet hx (.of_status rfl rfl (fun _ => ?_) hst hst ?_)) rfl
    · simp only [Task.victim, hz, hv, Option.some_or, Option.none_or]
    · simp only [Task.appended, hpc]
  | @gcFind g tk x y hx hty hst hpc htk hy hb =>
    have hf : x.Fresh := by
      rw [Task.Fresh, if_pos hty, hpc]
      exact ⟨hst, by rintro ⟨⟩, by rintro ⟨⟩, by rintro ⟨⟩⟩
    have hne := TaskInv.ne_of_fresh T hx hf htk
    obtain ⟨⟨v, hp⟩, -⟩ := (T.shape g x hx).gc hty
    obtain ⟨hz, hv⟩ : x.zone = some v ∧ x.readZone = none := by cases hp <;> simp_all
    refine a.tasks ((a.inv.quiet hy .incRef).quiet (x := x) ?_ (.of_status rfl rfl (fun _ => ?_)
      (by rw [hst]; rintro ⟨⟩) (by rw [hst]; rintro ⟨⟩) ?_)) rfl
    · rw [Heap.get_modify_ne hne, hx]
    · simp only [Task.victim, hz, hv, Option.some_or, Option.none_or]
    · simp only [Task.appended, hpc]
  | @gcInsert g x hx hty hst hpc hfree =>
    obtain ⟨⟨v, hp⟩, -⟩ := (T.shape g x hx).gc hty
    obtain ⟨hz, hv⟩ : x.zone = some v ∧ x.readZone = none := by cases hp <;> simp_all
    refine a.tasks (a.inv.quiet hx (.of_status rfl rfl (fun _ => ?_) (by rw [hst]; rintro ⟨⟩)
      (by rw [hst]; rintro ⟨⟩) ?_)) rfl
    · simp only [Task.victim, hz, hv, Option.some_or, Option.none_or]
    · simp only [Task.appended, hpc]
  | @gcFound g tk x hx hty hpc =>
    obtain ⟨y, hy, -⟩ := T.found g x hx tk hpc
    obtain ⟨⟨v, hp⟩, -⟩ := (T.shape g x hx).gc hty
    have hst : x.status ≠ .dispatch := by cases hp <;> simp_all
    have a' := a.inv.quiet (F := fun x => { x with error := some .enoent, pc := .waiting tk }) hx
      (.of_status rfl rfl (fun _ => rfl) hst hst (by simp only [Task.appended, hpc]))
    by_cases e : tk = g
    · subst e
      exact a.tasks (a'.quiet (Heap.get_modify_self hx _) (.link _)) rfl
    · exact a.tasks (a'.quiet (x := y) (by rw [Heap.get_modify_ne e, hy]) (.link _)) rfl
  | @gcSkip g x hx hty hpc hm =>
    obtain ⟨⟨v, hp⟩, -⟩ := (T.shape g x hx).gc hty
    have hst : x.status ≠ .dispatch := by cases hp <;> simp_all
    refine a.tasks (a.inv.quiet hx (.of_status rfl rfl (fun _ => rfl) hst hst ?_)) rfl
    simp only [Task.appended, hpc]
  | @gcPass g x hx hty hpc hm =>
    obtain ⟨⟨v, hp⟩, -⟩ := (T.shape g x hx).gc hty
    have hst : x.status ≠ .dispatch := by cases hp <;> simp_all
    refine a.tasks (a.inv.quiet hx (.of_status rfl rfl (fun _ => rfl) hst (by rintro ⟨⟩) ?_)) rfl
    simp only [Task.appended, hpc]
  | @gcWritten g z p x hx hty hpc hz =>
    refine a.tasks ((a.inv.same (.completeWrite _ _)).quiet hx ⟨rfl, rfl, fun _ => rfl, ?_,
      fun z => ?_⟩) rfl
    · simp only [Task.appended, hpc]
    · simp [Task.Unapplied, hpc]
  | @remap t z v p x hx hty hpc hl hz hv hm =>
    obtain ⟨-, hst, -⟩ := (T.shape t x hx).callback hpc
    have hu : x.Unapplied z := ⟨hz, hst, by rw [hpc]; rintro ⟨⟩, by rw [hpc]; rintro ⟨⟩⟩
    have happ : x.appended = some p := by simp only [Task.appended, hpc]
    have key := a.inv.apply (b := x.blkid) g hx (F := fun x =>
      { x with pc := .done, refcount := x.refcount - 1 }) hu happ (fun z h => h.2.2.2 rfl) rfl
      (fun _ => ⟨rfl, rfl⟩) rfl
    rw [← a.inv.remap_zmd g hx hty hu happ hv hm] at key
    exact a.tasks key rfl
  | @skipEnd g v x hx hty hpc hl hv =>
    obtain ⟨⟨v, hp⟩, -⟩ := (T.shape g x hx).gc hty
    have hst : x.status ≠ .dispatch := by cases hp <;> simp_all
    refine a.tasks (a.inv.quiet hx (.of_status rfl rfl (fun _ => rfl) hst hst ?_)) rfl
    simp only [Task.appended, hpc]
  | wkReset hwk hw =>
    refine ⟨a.inv.reset g (lt_of_place P ?_) hw, a.scan⟩
    rw [P.reset _ hwk]
    rintro ⟨⟩
  | discard hb => exact a.tasks (a.inv.discard g hb) rfl

end

end Lbz
