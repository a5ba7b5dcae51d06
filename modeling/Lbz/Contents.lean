import Lbz.Carried
import Lbz.Lib.Store
import Lbz.Ownership

/-!
# What a device holds for each block

* `Core.contents`: the payload that the device holds for a block, a store of blocks;
* `Payload`: what has been appended, what is to be moved and what is being read is on the device;
* **`Payload.move`**: every move but the stale ones and the errors keeps it;
* **`contents_move`**: the end of a write puts its payload into the store, a discard deletes a
  block, and nothing else changes the store.
-/

namespace Lbz

variable {α : Type} {c : Conf}

/-- What the device holds for block `b`. -/
def Core.contents (k : Core α) (b : ℕ) : Option α := (k.mapping b).bind k.phys.read

/-- What a move does to the store. -/
def Core.ops (k : Core α) : Label → List (StoreOp ℕ α)
  | .stored t => ((k.tasks.get t).map fun x => .put x.blkid x.data).toList
  | .discard b => [.del b]
  | _ => []

/-! ## What becomes of the data of a task -/

/-- An append has been issued, and is not in the mapping yet. -/
def TaskPc.flies : TaskPc → Bool
  | .device | .written _ | .callback (some _) => true
  | _ => false

theorem Task.appended_flies {x : Task α} {p : ℕ} (h : x.appended = some p) : x.pc.flies = true := by
  unfold Task.appended at h
  split at h
  · next hpc => rw [hpc]; rfl
  · next hpc => rw [hpc, h]; rfl
  · cases h

/-- The data of the task at `t`, which is `x` in `k` and `y` in `k'`. -/
structure DataLater [Inhabited α] (k k' : Core α) (x y : Task α) : Prop where
  reading : y.pc = .reading → x.pc = .reading
  data : x.pc ≠ .reading → y.data = x.data
  served : x.pc = .reading → y.pc ≠ .reading → y.data = (k.phys.read x.pbid).getD default
  landed : ∀ p, y.appended = some p → y.integ = x.integ ∧ (x.appended = some p ∨
    x.pc = .device ∧ ∃ log, x.integ = .buf log ∧ k'.phys.content p = some (x.data, some log))
  /-- a record is made at the dispatch, and kept -/
  record : y.pc.flies = true → x.pc.flies = true ∧ y.integ = x.integ ∨
    ∃ log, y.integ = .buf log ∧ log.timestamp = k.timestamp + 1 ∧ log.blkid = x.blkid ∧
      k'.timestamp = k.timestamp + 1 ∧ x.status = .allocRes

section

variable [Inhabited α] {k k' : Core α} {l : Label} {t i : ℕ} {x y : Task α}

namespace DataLater

theorem refl (k k' : Core α) (x : Task α) : DataLater k k' x x :=
  ⟨id, fun _ => rfl, fun h h' => absurd h h', fun _ hp => ⟨rfl, Or.inl hp⟩,
    fun h => Or.inl ⟨h, rfl⟩⟩

/-- The place of the task changes, and is not that of an append. -/
theorem goes (hd : y.data = x.data) (hx : x.pc ≠ .reading) (hy : y.pc ≠ .reading)
    (hp : y.pc.flies = false) : DataLater k k' x y where
  reading h := absurd h hy
  data _ := hd
  served h := absurd h hx
  landed p h := by rw [Task.appended_flies h] at hp; cases hp
  record h := by rw [h] at hp; cases hp

/-- The place of the task does not change. -/
theorem rest (hd : y.data = x.data) (hpc : y.pc = x.pc) (hi : y.integ = x.integ) :
    DataLater k k' x y := by
  refine ⟨fun h => hpc ▸ h, fun _ => hd, fun h h' => absurd (hpc.trans h) h', fun p hp => ?_,
    fun h => Or.inl ⟨hpc ▸ h, hi⟩⟩
  rw [Task.appended, hpc] at hp
  exact ⟨hi, Or.inl hp⟩

theorem modify {f : Task α → Task α} (hx : k.tasks.get t = some x)
    (h : DataLater k k' x (f x)) {x' : Task α} (hx' : k.tasks.get i = some x')
    (hy : (k.tasks.modify t f).get i = some y) : DataLater k k' x' y := by
  rw [Heap.get_modify] at hy
  split_ifs at hy with e
  · rw [e] at hx' hy
    rw [hx] at hx' hy
    cases hx'
    cases hy
    exact h
  · cases hx'.symm.trans hy
    exact .refl k k' _

theorem modify₂ {t' : ℕ} {w : Task α} {f f' : Task α → Task α} (hne : t' ≠ t)
    (hx : k.tasks.get t = some x) (hw : k.tasks.get t' = some w) (h : DataLater k k' x (f x))
    (h' : DataLater k k' w (f' w)) {x' : Task α} (hx' : k.tasks.get i = some x')
    (hy : ((k.tasks.modify t f).modify t' f').get i = some y) : DataLater k k' x' y := by
  rw [Heap.get_modify] at hy
  split_ifs at hy with e
  · rw [e, Heap.get_modify_ne hne, hw] at hy
    rw [e, hw] at hx'
    cases hx'
    cases hy
    exact h'
  · exact modify hx h hx' hy

end DataLater

/-- **The data of a task after a move.** -/
theorem Move.data (B : Base c k) (hf : l ≠ .fault) (hm : Move c k l k')
    (hx : k.tasks.get i = some x) (hy : k'.tasks.get i = some y) : DataLater k k' x y := by
  have T := B.tasks
  have Q := B.queues
  have halloc : ∀ {w : Task α}, (k.tasks.alloc w).get i = some y → DataLater k k' x y := by
    intro w h
    rw [Heap.get_alloc, if_neg (Heap.lt_next_of_get hx).ne, hx] at h
    cases h
    exact .refl k k' x
  have hfree : ∀ {h : Heap (Task α)} {j : ℕ}, (h.free j).get i = some y → h.get i = some y := by
    intro h j hj
    rw [Heap.get_free] at hj
    split_ifs at hj
    exact hj
  have hsame : k.tasks.get i = some y → DataLater k k' x y := fun h => by
    cases hx.symm.trans h
    exact .refl k k' x
  cases hm with
  | dispatchFail | fallbackFail | allocFail | devFail | writeFail | serveFail | gcServeFail
  | gcReadFail | gcWriteFail | release | wkFail => exact absurd rfl hf
  | submitWrite => exact halloc hy
  | scanBlock => exact halloc hy
  | @conflict t tk w v hw hty hst hpc htk hv hb =>
    have hfr : w.Fresh := by rw [Task.Fresh, if_neg hty]; exact hst
    exact .modify₂ (TaskInv.ne_of_fresh T hw hfr htk) hv hw (.rest rfl rfl rfl)
      (.goes rfl (by rw [hpc]; rintro ⟨⟩) (by rintro ⟨⟩) rfl) hx hy
  | insert hw hty hst hpc => exact .modify hw (.rest rfl rfl rfl) hx hy
  | @dispatch t z j w log hw hst hpc ha hres hlog =>
    have hr : w.pc ≠ .reading := by rcases hpc with hpc | ⟨j, hpc⟩ <;> rw [hpc] <;> rintro ⟨⟩
    exact .modify hw ⟨by rintro ⟨⟩, fun _ => rfl, fun h => absurd h hr, by rintro p ⟨⟩,
      fun _ => Or.inr ⟨log, rfl, hlog.1, hlog.2, rfl, hst⟩⟩ hx hy
  | fallback hw hst hpc =>
    exact .modify hw (.goes rfl (by rw [hpc]; rintro ⟨⟩) (by rintro ⟨⟩) rfl) hx hy
  | pend hw hty hst hpc =>
    refine .modify hw (.goes rfl ?_ (by rintro ⟨⟩) rfl) hx hy
    rcases hpc with hpc | ⟨j, hpc⟩ <;> rw [hpc] <;> rintro ⟨⟩
  | @append t z off w log hw hpc hz hi =>
    refine .modify hw ⟨by rintro ⟨⟩, fun _ => rfl, fun h => ?_, fun p hp => ⟨rfl, Or.inr ?_⟩,
      fun _ => Or.inl ⟨by rw [hpc]; rfl, rfl⟩⟩ hx hy
    · rw [hpc] at h
      cases h
    · cases hp
      exact ⟨hpc, log, hi, Phys.put_cells ..⟩
  | apply hw hty hpc =>
    exact .modify hw (.goes rfl (by rw [hpc]; rintro ⟨⟩) (by rintro ⟨⟩) rfl) hx hy
  | untree hw hpc =>
    exact .modify hw (.goes rfl (by rw [hpc]; rintro ⟨⟩) (by rintro ⟨⟩) rfl) hx hy
  | dropRef ht hw => exact .modify hw (.rest rfl rfl rfl) hx hy
  | destroy => exact hsame (hfree hy)
  | destroyCall => exact hsame (hfree (hfree hy))
  | @nextUser t l hr hret =>
    obtain ⟨w, hw, -, hpc⟩ := Q.users.2 t (by simp [hr, RetryPc.usersLeft])
    exact .modify hw (.goes rfl (by rw [hpc]; rintro ⟨⟩) (by rintro ⟨⟩) rfl) hx hy
  | @nextGc t l hr hret =>
    obtain ⟨w, hw, -, hpc⟩ := Q.gcs.2 t (by simp [hr, RetryPc.gcsLeft])
    exact .modify hw (.goes rfl (by rw [hpc]; rintro ⟨⟩) (by rintro ⟨⟩) rfl) hx hy
  | gcServe hw hpc =>
    exact .modify hw ⟨by rintro ⟨⟩, fun h => absurd hpc h, fun _ _ => rfl, by rintro _ ⟨⟩,
      by rintro ⟨⟩⟩ hx hy
  | gcReadEnd hw hpc =>
    exact .modify hw (.goes rfl (by rw [hpc]; rintro ⟨⟩) (by rintro ⟨⟩) rfl) hx hy
  | @gcFind g tk w v hw hty hst hpc htk hv hb =>
    have hfr : w.Fresh := by
      rw [Task.Fresh, if_pos hty, hpc]
      exact ⟨hst, by rintro ⟨⟩, by rintro ⟨⟩, by rintro ⟨⟩⟩
    exact .modify₂ (TaskInv.ne_of_fresh T hw hfr htk) hv hw (.rest rfl rfl rfl)
      (.goes rfl (by rw [hpc]; rintro ⟨⟩) (by rintro ⟨⟩) rfl) hx hy
  | gcInsert hw hty hst hpc =>
    exact .modify hw (.goes rfl (by rw [hpc]; rintro ⟨⟩) (by rintro ⟨⟩) rfl) hx hy
  | @gcFound g tk w hw hty hpc =>
    obtain ⟨v, hv, -, hnf⟩ := T.found g w hw tk hpc
    have hne : tk ≠ g := by
      rintro rfl
      cases hw.symm.trans hv
      obtain ⟨⟨z, hp⟩, -⟩ := (T.shape tk w hw).gc hty
      refine hnf ?_
      rw [Task.Fresh, if_pos hty, hpc]
      exact ⟨by cases hp <;> simp_all, by rintro ⟨⟩, by rintro ⟨⟩, by rintro ⟨⟩⟩
    exact .modify₂ hne hw hv (.goes rfl (by rw [hpc]; rintro ⟨⟩) (by rintro ⟨⟩) rfl)
      (.rest rfl rfl rfl) hx hy
  | gcSkip hw hty hpc =>
    exact .modify hw (.goes rfl (by rw [hpc]; rintro ⟨⟩) (by rintro ⟨⟩) rfl) hx hy
  | gcPass hw hty hpc =>
    exact .modify hw (.goes rfl (by rw [hpc]; rintro ⟨⟩) (by rintro ⟨⟩) rfl) hx hy
  | gcWritten hw hty hpc =>
    refine .modify hw ⟨by rintro ⟨⟩, fun _ => rfl, fun h => ?_, fun p hp => ⟨rfl, Or.inl ?_⟩,
      fun _ => Or.inl ⟨by rw [hpc]; rfl, rfl⟩⟩ hx hy
    · rw [hpc] at h
      cases h
    · rw [Task.appended, hpc]
      exact hp
  | remap hw hty hpc =>
    exact .modify hw (.goes rfl (by rw [hpc]; rintro ⟨⟩) (by rintro ⟨⟩) rfl) hx hy
  | skipEnd hw hty hpc =>
    exact .modify hw (.goes rfl (by rw [hpc]; rintro ⟨⟩) (by rintro ⟨⟩) rfl) hx hy
  | _ => exact hsame hy

/-! ## What becomes of a read -/

/-- A read after a move was there, or has just been looked up. -/
theorem Move.hook {r : ℕ} {w : ReadHook α} (hf : l ≠ .fault) (hm : Move c k l k')
    (hw : k'.reads.get r = some w) :
    (∃ v, k.reads.get r = some v ∧ w.pbid = v.pbid ∧ w.zone = v.zone ∧ (w.served = v.served ∨
      v.served = none ∧ w.served = some (some ((k.phys.read v.pbid).getD default)))) ∨
    r = k.reads.next ∧ w.served = none ∧ w.zone = getZoneByPbid c w.pbid ∧
      k.mapping w.blkid = some w.pbid ∧ k'.hist = .submitR r w.blkid :: k.hist := by
  cases hm with
  | dispatchFail | fallbackFail | allocFail | devFail | writeFail | serveFail | gcServeFail
  | gcReadFail | gcWriteFail | release | wkFail => exact absurd rfl hf
  | readMiss =>
    rw [Heap.get_burn] at hw
    exact Or.inl ⟨w, hw, rfl, rfl, Or.inl rfl⟩
  | readHit hb =>
    rw [Heap.get_alloc] at hw
    split_ifs at hw with e
    · cases hw
      exact Or.inr ⟨e, rfl, rfl, hb, by rw [e]⟩
    · exact Or.inl ⟨w, hw, rfl, rfl, Or.inl rfl⟩
  | @serve r' v hv hs =>
    rw [Heap.get_modify] at hw
    split_ifs at hw with e
    · rw [e, hv] at hw
      cases hw
      exact Or.inl ⟨v, e ▸ hv, rfl, rfl, Or.inr ⟨hs, rfl⟩⟩
    · exact Or.inl ⟨w, hw, rfl, rfl, Or.inl rfl⟩
  | endRead =>
    rw [Heap.get_free] at hw
    split_ifs at hw
    exact Or.inl ⟨w, hw, rfl, rfl, Or.inl rfl⟩
  | _ => exact Or.inl ⟨w, hw, rfl, rfl, Or.inl rfl⟩

/-! ## What stays on the device -/

/-- Only a reset takes a block from the device. -/
theorem Move.content (hm : Move c k l k') {p : ℕ} (hp : k.phys.content p ≠ none) :
    k'.phys.content p = k.phys.content p ∨
      ∃ i, k.wk = .reset i ∧ c.startBlk i ≤ p ∧ p < c.startBlk i + c.zoneSizeSectors / 8 := by
  cases hm with
  | append hx hpc hz hi hoff hfree =>
    exact Or.inl (Phys.put_cells_keeps hfree hp)
  | @wkReset i hwk hw =>
    change (if _ then none else k.phys.content p) = _ ∨ _
    split_ifs with h
    · exact Or.inr ⟨i, hwk, h⟩
    · exact Or.inl rfl
  | _ => exact Or.inl rfl

/-- What is in a zone that is held, or is mapped, stays on the device. -/
theorem VictimInv.content (geo : Geom c) (B : Base c k) (V : VictimInv c 0 k) (hm : Move c k l k')
    {z p : ℕ} (hc : c.Contains z p) (hp : k.phys.content p ≠ none)
    (hz : Unheld k z → ∃ b, k.mapping b = some p) : k'.phys.content p = k.phys.content p := by
  rcases hm.content hp with h | ⟨i, hwk, hi⟩
  · exact h
  · have ev := V.evacuated geo B hwk
    have hlt := B.gc_lt (V.guard.reset i hwk).1
    obtain rfl := (geo.reset_iff hlt hc).mp hi
    obtain ⟨b, hb⟩ := hz ev.unheld
    exact absurd hc (ev.unmapped b p hb)

theorem VictimInv.content_mapped (geo : Geom c) (B : Base c k) (V : VictimInv c 0 k)
    (hm : Move c k l k') {b p : ℕ} (hb : k.mapping b = some p) :
    k'.phys.content p = k.phys.content p :=
  V.content geo B hm (contains_of_entry ((V.maps.inv.inverse b p).mp hb)) (V.maps.inv.stored b p hb)
    fun _ => ⟨b, hb⟩

theorem VictimInv.content_landed (geo : Geom c) (B : Base c k) (V : VictimInv c 0 k)
    (hm : Move c k l k') {p : ℕ} (hx : k.tasks.get t = some x) (hp : x.appended = some p) :
    k'.phys.content p = k.phys.content p := by
  obtain ⟨⟨z, hu, hc⟩, -, hne⟩ := V.maps.inv.appended t x hx p hp
  refine V.content geo B hm hc hne fun h => absurd ?_ (h.tasks t x hx).1
  exact ⟨hu.1, by rw [hu.2.1]; rfl, hu.2.2.2⟩

theorem VictimInv.content_source (geo : Geom c) (B : Base c k) (V : VictimInv c 0 k)
    (hm : Move c k l k') (hx : k.tasks.get t = some x) (hmv : x.Moving)
    (hp : k.phys.content x.pbid ≠ none) : k'.phys.content x.pbid = k.phys.content x.pbid := by
  obtain ⟨v, he, hc, -⟩ := hmv.evacuates V hx
  exact V.content geo B hm hc hp fun h => absurd he (h.tasks t x hx).2

/-! ## The payloads -/

structure Payload (c : Conf) (k : Core α) : Prop where
  /-- an append that has landed has stored the data of its task, with its record -/
  landed : k.tasks.All fun _ x => ∀ p, x.appended = some p →
    ∃ log, x.integ = .buf log ∧ k.phys.content p = some (x.data, some log)
  /-- what a gc task moves is still where it is read from, and in its page once it is read -/
  source : k.tasks.All fun _ x => x.Moving → k.phys.content x.pbid ≠ none ∧
    (x.pc ≠ .reading → k.phys.read x.pbid = some x.data)
  /-- what the scan has fetched is still there -/
  fetched : ∀ z iter b, k.gcPc = .scan z iter (some b) → iter < c.zoneNrBlocks →
    k.phys.content (c.startBlk z + iter) ≠ none
  reads : k.reads.All fun _ x => c.Contains x.zone x.pbid ∧ k.phys.content x.pbid ≠ none

omit [Inhabited α] in
theorem Phys.read_ne_none {d : Phys α} {p : ℕ} (h : d.content p ≠ none) (v : α) :
    d.read p = some ((d.read p).getD v) := by
  obtain ⟨w, hw⟩ := Option.ne_none_iff_exists'.mp h
  rw [Phys.read, hw]
  rfl

namespace Payload

variable (geo : Geom c) (B : Base c k) (V : VictimInv c 0 k) (P : Payload c k)
  (hf : l ≠ .fault) (hm : Move c k l k')

include geo B V P hm

include hf

theorem landed' : k'.tasks.All fun _ x => ∀ p, x.appended = some p →
    ∃ log, x.integ = .buf log ∧ k'.phys.content p = some (x.data, some log) := by
  intro t y hy p hp
  rcases hm.task B hf hy with ⟨x, hx, -⟩ | ⟨-, hmade⟩
  · have hd := hm.data B hf hx hy
    obtain ⟨hi, hold | ⟨hpc, log, hlog, hc⟩⟩ := hd.landed p hp
    · obtain ⟨log, hlog, hc⟩ := P.landed t x hx p hold
      have hpc : x.pc ≠ .reading := fun h => by rw [Task.appended, h] at hold; cases hold
      exact ⟨log, hi.trans hlog, by rw [V.content_landed geo B hm hx hold, hc, hd.data hpc]⟩
    · exact ⟨log, hi.trans hlog, by rw [hc, hd.data (by rw [hpc]; rintro ⟨⟩)]⟩
  · cases hmade <;> cases hp

theorem source' : k'.tasks.All fun _ x => x.Moving → k'.phys.content x.pbid ≠ none ∧
    (x.pc ≠ .reading → k'.phys.read x.pbid = some x.data) := by
  intro t y hy hmv
  rcases hm.task B hf hy with ⟨x, hx, hxy⟩ | ⟨-, hmade⟩
  · have hd := hm.data B hf hx hy
    have hmx : x.Moving := ⟨hxy.type ▸ hmv.1, fun h => hmv.2 (hxy.stays h)⟩
    obtain ⟨hne, hpage⟩ := P.source t x hx hmx
    have hkeep := V.content_source geo B hm hx hmx hne
    have hread : k'.phys.read x.pbid = k.phys.read x.pbid := congrArg (Option.map Prod.fst) hkeep
    rw [hxy.pbid, hread, hkeep]
    refine ⟨hne, fun hy' => ?_⟩
    by_cases hpc : x.pc = .reading
    · rw [hd.served hpc hy']
      exact Phys.read_ne_none hne default
    · rw [hd.data hpc]
      exact hpage hpc
  · cases hmade with
    | write ty b d more hty => exact absurd hmv.1 hty
    | gc z iter b hpc hi =>
      -- the entry that the scan has fetched
      have hz := V.maps.scan _ _ _ hpc
      have hwp := (V.maps.inv.wp z hz.1).2
      have hlt : iter < c.zoneNrBlocks := by
        have : (0 : ℕ → ℤ) z < c.zoneNrBlocks := hz.2
        omega
      have hne := P.fetched z iter b hpc hlt
      refine ⟨?_, fun h => absurd rfl h⟩
      change k'.phys.content (c.startBlk z + iter) ≠ none
      rw [V.content geo B hm (contains_add hz.1 hlt) hne fun h => absurd hpc (h.scan _ _)]
      exact hne

theorem fetched' {z iter b : ℕ} (hpc : k'.gcPc = .scan z iter (some b))
    (hi : iter < c.zoneNrBlocks) : k'.phys.content (c.startBlk z + iter) ≠ none := by
  have hentry : ∀ {o : ℕ}, z < c.nrZones → o < c.zoneNrBlocks → (k.zmd.zones z).zrms o = some b →
      k'.phys.content (c.startBlk z + o) ≠ none := by
    intro o hz ho hb
    have hmap := (V.maps.entry geo hz ho).mp hb
    rw [V.content_mapped geo B hm hmap]
    exact V.maps.inv.stored b _ hmap
  cases hm.scanStep with
  | same h =>
    rw [h] at hpc
    have hne := P.fetched z iter b hpc hi
    have hz := (V.maps.scan _ _ _ hpc).1
    rwa [V.content geo B hm (contains_add hz hi) hne fun h => absurd hpc (h.scan _ _)]
  | select h =>
    subst h
    cases hm with
    | @select z' mod hidle hbusy hz =>
      injection hpc with h1 h2 h3
      subst h1 h2
      obtain ⟨pl, Pl⟩ := B.places
      refine hentry (lt_of_place Pl ?_) hi h3
      rw [(Pl.full _).mp (victim_mem hz)]
      rintro ⟨⟩
  | free z' iter' hpc₁ hpc₂ =>
    rw [hpc₂] at hpc
    injection hpc with h1 h2 h3
    subst h1 h2
    exact hentry (V.maps.scan _ _ _ hpc₁).1 hi h3
  | block z' iter' b' hpc₁ hi' hpc₂ ht =>
    rw [hpc₂] at hpc
    injection hpc with h1 h2 h3
    subst h1 h2
    exact hentry (V.maps.scan _ _ _ hpc₁).1 hi h3
  | last z' iter' pos' hpc₁ hi' hpc₂ =>
    rw [hpc₂] at hpc
    cases hpc

theorem reads' : k'.reads.All fun _ x => c.Contains x.zone x.pbid ∧
    k'.phys.content x.pbid ≠ none := by
  intro r w hw
  rcases hm.hook hf hw with ⟨v, hv, hp, hz, -⟩ | ⟨-, -, hz, hb, -⟩
  · obtain ⟨hc, hne⟩ := P.reads r v hv
    rw [hp, hz, V.content geo B hm hc hne fun h => absurd rfl (h.reads r v hv)]
    exact ⟨hc, hne⟩
  · rw [hz, V.content_mapped geo B hm hb]
    exact ⟨contains_of_entry ((V.maps.inv.inverse _ _).mp hb), V.maps.inv.stored _ _ hb⟩

/-- **What is on the device stays there.** -/
theorem move : Payload c k' :=
  ⟨P.landed' geo B V hf hm, P.source' geo B V hf hm,
    fun _ _ _ hpc hi => P.fetched' geo B V hf hm hpc hi, P.reads' geo B V hf hm⟩

/-- **The store after a move.** -/
theorem contents_move (a : PastMapped k) : k'.contents = replay (k.ops l) k.contents := by
  have hsame : k'.mapping = k.mapping → k'.contents = k.contents := fun h => by
    funext b
    rw [Core.contents, Core.contents, h]
    cases hb : k.mapping b with
    | none => rfl
    | some p => exact congrArg (Option.map Prod.fst) (V.content_mapped geo B hm hb)
  cases hm with
  | dispatchFail | fallbackFail | allocFail | devFail | writeFail | serveFail | gcServeFail
  | gcReadFail | gcWriteFail | release | wkFail => exact absurd rfl hf
  | @apply t z p x hx hty hpc hz =>
    obtain ⟨log, -, hc⟩ := P.landed t x hx p (by simp only [Task.appended, hpc])
    rw [Core.ops, hx]
    funext b
    change (Function.update k.mapping x.blkid (some p) b).bind k.phys.read =
      Function.update k.contents x.blkid (some x.data) b
    rw [Function.update_apply, Function.update_apply]
    split_ifs
    · change Option.map Prod.fst (k.phys.content p) = _
      rw [hc]
      rfl
    · rfl
  | @remap g z v p x hx hty hpc hl hz hv hm =>
    obtain ⟨-, hst, -⟩ := (B.tasks.shape g x hx).callback hpc
    obtain ⟨log, -, hc⟩ := P.landed g x hx p (by simp only [Task.appended, hpc])
    have hsrc := (P.source g x hx ⟨hty, by rw [hpc]; rintro ⟨⟩⟩).2 (by rw [hpc]; rintro ⟨⟩)
    have hmap := a g x hx ⟨hty, by rw [hst]; rintro ⟨⟩, by rw [hpc]; rintro ⟨⟩⟩
    funext b
    change (Function.update k.mapping x.blkid (some p) b).bind k.phys.read =
      (k.mapping b).bind k.phys.read
    rw [Function.update_apply]
    split_ifs with e
    · -- the copy has what the block had
      rw [e, hmap]
      change Option.map Prod.fst (k.phys.content p) = k.phys.read x.pbid
      rw [hc, hsrc]
      rfl
    · rfl
  | @discard b' p hb' =>
    funext b
    change (Function.update k.mapping b' none b).bind k.phys.read =
      Function.update k.contents b' none b
    rw [Function.update_apply, Function.update_apply]
    split_ifs <;> rfl
  | _ => exact hsame rfl

end Payload

end

/-! ## Events -/

/-- What the device holds for block `b`. -/
def Sys.contents (s : Sys α) (b : ℕ) : Option α := s.core.contents b

/-- What an event is to a user: the end of a write that has been stored puts its payload at its
block, `lbz_nat_sit_tx_complete` deletes the blocks it has been given. -/
def Event.ops (s : Sys α) : Event α → List (StoreOp ℕ α)
  | .writeEnd t =>
    match s.tasks.get t with
    | some x =>
      match x.pc with
      | .written _ => [.put x.blkid x.data]
      | _ => []
    | none => []
  | .txComplete => s.natSit.toFree.map .del
  | _ => []

/-- What the store rests on. -/
structure StoreInv (c : Conf) (k : Core α) : Prop where
  victim : VictimInv c 0 k
  past : PastMapped k
  data : Payload c k

/-- The events of the runs in which the device is a store: no error, no zone closed or reset for the
carried flag alone, and no discard of a block that a gc task is about to move. -/
def Event.Safe (s : Sys α) (e : Event α) : Prop := e.NoError ∧ e.NoCarry s ∧ e.FreesNoPast s

instance (s : Sys α) (e : Event α) : Decidable (e.Safe s) := by unfold Event.Safe; infer_instance

theorem freeBlkid_contents {s : Sys α} {b : ℕ} (h : (freeBlkid c s b).bug = none) :
    (freeBlkid c s b).contents = replay [.del b] s.contents := by
  have hdel : replay [.del b] s.contents = Function.update s.contents b none := rfl
  rw [hdel]
  unfold freeBlkid at h ⊢
  split_ifs at h ⊢ with h1 h2
  · rw [h] at h1
    cases h1
  · cases h
  · cases hm : s.mapping b with
    | none =>
      refine (Function.update_eq_self_iff.mpr ?_).symm
      change none = (s.mapping b).bind s.phys.read
      rw [hm]
      rfl
    | some p =>
      funext b'
      change (Function.update s.mapping b none b').bind s.phys.read = _
      rw [Function.update_apply, Function.update_apply]
      split_ifs <;> rfl

/-- `e` discards the queued blocks. -/
def Event.discards : Event α → Bool
  | .txComplete => true
  | _ => false

theorem foldl_freeBlkid_contents : ∀ (bs : List ℕ) (s : Sys α),
    (bs.foldl (freeBlkid c) s).bug = none →
      s.bug = none ∧ (bs.foldl (freeBlkid c) s).contents = replay (bs.map .del) s.contents
  | [], _, h => ⟨h, rfl⟩
  | b :: bs, s, h => by
    obtain ⟨h1, h2⟩ := foldl_freeBlkid_contents bs (freeBlkid c s b) h
    refine ⟨freeBlkid_bug h1, h2.trans ?_⟩
    rw [freeBlkid_contents h1]
    funext b'
    rw [replay_del, show replay [.del b] s.contents = replay ([b].map .del) s.contents from rfl,
      replay_del, replay_del]
    simp only [List.mem_cons, List.not_mem_nil, or_false]
    by_cases h1 : b' = b <;> by_cases h2 : b' ∈ bs <;> simp only [h1, h2, if_true, if_false, true_or,
      or_true, or_self, ite_self]

variable [Inhabited α] {o : Options} {report : List BlkZone} {s₀ s s' : Sys α}

/-- What the moves keep that are neither stale nor errors, a run without such steps keeps. -/
theorem Sound.uncarried {I : Core α → Prop} (geo : Geom c)
    (hI : ∀ k l k', Base c k → I k → l ≠ .fault → l ≠ .stale → Move c k l k' → I k')
    (hrun : Runs (stepRel (Lbz.step c)) (fun s e => e.NoError ∧ e.NoCarry s) s s')
    (a : Sound c I s) : Sound c I s' :=
  Sound.run (fun s e => e.NoCarry s) (fun _ l => l ≠ .stale) geo.pos hI
    (fun _ _ _ _ _ he ha hm => not_stale he ha hm) hrun a

/-- The same for a run without discards. -/
theorem Sound.undiscarded {I : Core α → Prop} (geo : Geom c)
    (hI : ∀ k l k', Base c k → I k → l ≠ .fault → l ≠ .stale → (∀ b, l ≠ .discard b) →
      Move c k l k' → I k')
    (hrun : Runs (stepRel (Lbz.step c)) (fun s e => e.NoError ∧ e.NoCarry s ∧ e.discards = false)
      s s')
    (a : Sound c I s) : Sound c I s' := by
  refine Sound.run (fun s e => e.NoCarry s ∧ e.discards = false)
    (fun _ l => l ≠ .stale ∧ ∀ b, l ≠ .discard b) geo.pos
    (fun k l k' hB a hf hl hm => hI k l k' hB a hf hl.1 hl.2 hm) ?_ hrun a
  refine fun s e k l k' he ha hm => ⟨not_stale he.1 ha hm, ?_⟩
  rintro b rfl
  have hd := he.2
  rw [ha.1] at hd
  cases hd

theorem StoreInv.move {k k' : Core α} {l : Label} (geo : Geom c) (B : Base c k) (a : StoreInv c k)
    (hf : l ≠ .fault) (hs : l ≠ .stale) (hl : FreesNoPast k l) (hm : Move c k l k') :
    StoreInv c k' :=
  ⟨a.victim.move geo B hf hm hs, a.past.move B hf hl hm, a.data.move geo B a.victim hf hm⟩

theorem StoreInv.step {e : Event α} (geo : Geom c) (a : Sound c (StoreInv c) s) (he : e.Safe s)
    (hs : step c s e = some s') : Sound c (StoreInv c) s' :=
  Sound.step geo.pos
    (fun k l _ hB a hf (hl : l ≠ .stale ∧ FreesNoPast k l) hm => a.move geo hB hf hl.1 hl.2 hm)
    (fun _ _ _ ha hm => ⟨not_stale he.2.1 ha hm, freesNoPast_of_event he.2.2 ha⟩) a he.1 hs

omit [Inhabited α] in
/-- Nothing has been written. -/
theorem storeInv_start (he : EmptyReport o report) (h0 : initSys o report = some s₀) :
    Sound (confOf o report) (StoreInv (confOf o report)) s₀ ∧ s₀.contents = fun _ => none := by
  have V := victim_start he h0
  obtain ⟨-, m, -, rfl⟩ := initSys_eq h0
  exact ⟨sound_of_empty he h0 ⟨V, Heap.All.empty, Heap.All.empty, Heap.All.empty,
    by rintro _ _ _ ⟨⟩, Heap.All.empty⟩, rfl⟩

/-- **A step does to the store what it is to a user.** -/
theorem step_contents {e : Event α} (geo : Geom c) (a : Sound c (StoreInv c) s) (he : e.Safe s)
    (hs : step c s e = some s') (hb : s'.bug = none) :
    s'.contents = replay (e.ops s) s.contents := by
  obtain ⟨hf, d, hd, ⟨hB, hC⟩, hI⟩ := a
  have hstep := hs
  rw [step] at hs
  split_ifs at hs with h
  cases hd (by rw [h.1]; rintro ⟨⟩)
  -- a path of moves that are no end of a write and no discard
  have hpath : (∀ t, e ≠ .writeEnd t) → e ≠ .txComplete → s'.contents = s.contents := by
    intro hw ht
    obtain ⟨-, hp | ⟨hb', -⟩⟩ := path_of_step hB hC hf he.1 hstep
    · have key : (Base c s'.core ∧ StoreInv c s'.core) ∧ s'.core.contents = s.core.contents := by
        refine Runs.inv (I := fun k : Core α => (Base c k ∧ StoreInv c k) ∧
          k.contents = s.core.contents) (fun k l k' hk ha hm => ?_) hp ⟨⟨hB, hI⟩, rfl⟩
        have hlf : l ≠ .fault := by
          rintro rfl
          exact ha
        have hl := freesNoPast_of_event he.2.2 ha
        refine ⟨⟨hk.1.1.move geo.pos hm,
          hk.1.2.move geo hk.1.1 hlf (not_stale he.2.1 ha hm) hl hm⟩, ?_⟩
        rw [hk.1.2.data.contents_move geo hk.1.1 hk.1.2.victim hlf hm hk.1.2.past, ← hk.2]
        cases l with
        | stored t => exact absurd ha.2 (hw t)
        | discard b => exact absurd ha.1 ht
        | _ => rfl
      exact key.2
    · rw [hb] at hb'
      cases hb'
  cases e with
  | writeEnd t =>
    obtain ⟨x, hx, hty, hpc⟩ := h.2
    cases hs
    obtain ⟨p, hpc⟩ : ∃ p, x.pc = .written p := by
      split at hpc
      · next p h => exact ⟨p, h⟩
      · next h => exact absurd h (hC.tasks t x hx).2.1
      · cases hpc
    obtain ⟨-, ⟨z, hz⟩, -⟩ := (hB.tasks.shape t x hx).written hpc
    have hm : Move c s.core (.stored t) (after c s (.writeEnd t)).core := by
      simp only [after, onTask, hx, writeIoEndio, hpc, hz]
      exact .apply (c := c) (k := s.core) hx hty hpc hz
    refine (hI.data.contents_move geo hB hI.victim (by rintro ⟨⟩) hm hI.past).trans ?_
    have hget : s.core.tasks.get t = some x := hx
    simp only [Core.ops, hget, Event.ops, hx, hpc]
    rfl
  | txComplete =>
    cases hs
    exact (foldl_freeBlkid_contents (c := c) s.natSit.toFree s hb).2
  | _ => exact hpath (by rintro _ ⟨⟩) (by rintro ⟨⟩)

/-- **The device is a store of blocks.** In a run whose events are safe it holds for each block what
the writes that have ended, and the discards, have left there. -/
theorem store_refined {l : List (StoreOp ℕ α)} (he : EmptyReport o report)
    (h0 : initSys o report = some s₀)
    (hrun : Logged (stepRel (step (confOf o report))) (fun s e => e.Safe s) (fun s e => e.ops s)
      s₀ l s)
    (hb : s.bug = none) : s.contents = replay l fun _ => none := by
  have geo := geom_of_empty he (initSys_eq h0).1
  obtain ⟨hstart, hempty⟩ := storeInv_start he h0
  rw [← hempty]
  exact Logged.refines (A := Sys.contents) (I := Sound _ (StoreInv _)) (Q := fun s => s.bug = none)
    (fun s e s' a he hs => StoreInv.step geo a he hs) (fun s e s' hs => bug_of_step hs)
    (fun s e s' a he hs hb => step_contents geo a he hs hb) hrun hstart hb

/-- Block 1536 has been moved from block 0 of the device to block 7. -/
theorem store_refined_moved : ∃ (s : Sys ℕ) (l : List (StoreOp ℕ ℕ)), s.mapping 1536 = some 7 ∧
    s.contents 1536 = some 7 ∧ s.contents = replay l fun _ => none := by
  have he : EmptyReport pairOptions (emptyReport 4 16 16) :=
    emptyReport_ok pairOptions 4 16 (by decide) (by decide) (by decide)
  obtain ⟨s, hrun, h⟩ := exists_run (step pairConf) (fun s e => e.Safe s)
    (fun s => decide (s.mapping 1536 = some 7 ∧ s.contents 1536 = some 7 ∧ s.bug = none)) pairStart
    (pairWrites ++ pairGc ++ [.devAppend 8 1, .gcWriteEnd 8, .gcEnd 8]) (by decide +kernel)
  obtain ⟨h1, h2, h3⟩ := of_decide_eq_true h
  obtain ⟨l, hl⟩ := Logged.exists_of_runs (fun s e => e.ops s) hrun
  exact ⟨s, l, h1, h2, store_refined he (Option.some_get _).symm hl h3⟩

/-- The device runs full, and block 1 is moved from block 1 of the device to block 7; the write 7
has to wait. -/
def smallGc : List (Event ℕ) :=
  List.flatten [soleWrite 0 0 0 7, settleWrite 0, soleWrite 1 1 1 7, settleWrite 0,
    soleWrite 2 0 0 8, settleWrite 1, soleWrite 3 2 1 7, settleWrite 1, soleWrite 4 3 0 7,
    settleWrite 2, soleWrite 5 4 1 7, settleWrite 2, soleWrite 6 5 0 7, settleWrite 3,
    [.submitWrite 6 7 false, .runWrite 7 true, .runWrite 7 true, .wkStart, .wkStep true,
      .wkStep true, .wkStep true, .gcSelect false, .gcScan, .gcScan, .gcScan, .gcDevRead 8 true,
      .gcReadEnd 8, .retryWk, .retryWk, .runWrite 7 true, .retryWk, .retryWk, .runGc 8 true,
      .runGc 8 true, .runGc 8 true, .devAppend 8 1, .gcWriteEnd 8, .gcEnd 8]]

end Lbz
