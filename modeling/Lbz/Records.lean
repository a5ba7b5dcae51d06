import Lbz.Lib.Newest
import Lbz.Ownership
import Lbz.Reads

/-!
# The log on the device

* `Core.records k`: the records of all appends whose completion has been processed, with their
  positions, as far as the zones have not been reset since;
* `LogStep c k l k'`: what a move does to them and to the mapping;
* `LogInv k`: the mapping is the index of the records, and the append of a task that is on its way
  has a newer timestamp than every record of its block; **`LogInv.move`**: every move but the stale
  ones, the discards and the errors keeps it;
* **`log_determines`**: the mapping is what the log on the device says.
-/

namespace Lbz

variable {α : Type} {c : Conf}

/-- No completion is still to be processed of an append at `p`. -/
def Processed (h : Heap (Task α)) (p : ℕ) : Prop := h.All fun _ x => x.appended ≠ some p

instance (h : Heap (Task α)) (p : ℕ) : Decidable (Processed h p) := by
  unfold Processed
  infer_instance

/-- The block and the timestamp of the record at `p`; a block that is not the first one of its append
has none. -/
def Core.records (k : Core α) (p : ℕ) : Option (ℕ × ℕ) :=
  if Processed k.tasks p then (k.phys.content p).bind fun r =>
    r.2.map fun log => (log.blkid, log.timestamp) else none

theorem records_eq_some {k : Core α} {p b n : ℕ} : k.records p = some (b, n) ↔
    Processed k.tasks p ∧ ∃ d log, k.phys.content p = some (d, some log) ∧ log.blkid = b ∧
      log.timestamp = n := by
  unfold Core.records
  split_ifs with h
  · rw [and_iff_right h, Option.bind_eq_some_iff]
    constructor
    · rintro ⟨⟨d, r⟩, hc, he⟩
      obtain ⟨log, rfl, hlog⟩ := Option.map_eq_some_iff.mp he
      exact ⟨d, log, hc, Prod.mk.inj hlog⟩
    · rintro ⟨d, log, hc, rfl, rfl⟩
      exact ⟨_, hc, rfl⟩
  · exact iff_of_false (by rintro ⟨⟩) fun h' => h h'.1

/-! ## Completions that are still to be processed -/

namespace Processed

variable {h : Heap (Task α)} {t p : ℕ} {x : Task α}

theorem modify {f : Task α → Task α} (hx : h.get t = some x) (hf : (f x).appended = x.appended) :
    Processed (h.modify t f) p ↔ Processed h p := by
  refine ⟨fun a i y hy hp => ?_, fun a => Heap.All.modify_at a hx fun _ => hf ▸ a t x hx⟩
  by_cases e : i = t
  · subst e
    cases hx.symm.trans hy
    exact a i (f x) (Heap.get_modify_self hx f) (hf.trans hp)
  · exact a i y (by rw [Heap.get_modify_ne e, hy]) hp

theorem alloc (hx : x.appended = none) : Processed (h.alloc x) p ↔ Processed h p := by
  refine ⟨fun a i y hy => a i y ?_, fun a => Heap.All.alloc a (by rw [hx]; rintro ⟨⟩)⟩
  rw [Heap.get_alloc, if_neg (Heap.lt_next_of_get hy).ne, hy]

theorem free (hx : h.get t = some x) (hn : x.appended = none) :
    Processed (h.free t) p ↔ Processed h p := by
  refine ⟨fun a i y hy hp => ?_, fun a => Heap.All.free a t⟩
  by_cases e : i = t
  · subst e
    cases hx.symm.trans hy
    rw [hn] at hp
    cases hp
  · exact a i y (by rw [Heap.get_free, if_neg e, hy]) hp

/-- The append of one task lands. -/
theorem lands {f : Task α → Task α} {q : ℕ} (hx : h.get t = some x) (hn : x.appended = none)
    (hf : (f x).appended = some p) : Processed (h.modify t f) q ↔ Processed h q ∧ q ≠ p := by
  refine ⟨fun a => ⟨fun i y hy hq => ?_, ?_⟩, fun a => Heap.All.modify_at a.1 hx fun _ => ?_⟩
  · by_cases e : i = t
    · subst e
      cases hx.symm.trans hy
      rw [hn] at hq
      cases hq
    · exact a i y (by rw [Heap.get_modify_ne e, hy]) hq
  · rintro rfl
    exact a t (f x) (Heap.get_modify_self hx f) hf
  · rw [hf]
    exact fun h => a.2 (Option.some.inj h).symm

/-- The completion of one task is processed. -/
theorem enters {f : Task α → Task α} {q : ℕ} (hx : h.get t = some x) (hp : x.appended = some p)
    (hn : (f x).appended = none)
    (hapart : h.Pairs fun x y => ∀ p, x.appended = some p → y.appended ≠ some p) :
    Processed (h.modify t f) q ↔ Processed h q ∨ q = p := by
  constructor
  · intro a
    by_cases hq : q = p
    · exact Or.inr hq
    · refine Or.inl fun i y hy hy' => ?_
      by_cases e : i = t
      · subst e
        cases hx.symm.trans hy
        exact hq (Option.some.inj (hy'.symm.trans hp))
      · exact a i y (by rw [Heap.get_modify_ne e, hy]) hy'
  · rintro (a | rfl) i y hy hy'
    all_goals
      rw [Heap.get_modify] at hy
      split_ifs at hy with e
    · rw [e, hx] at hy
      cases hy
      rw [hn] at hy'
      cases hy'
    · exact a i y hy hy'
    · rw [e, hx] at hy
      cases hy
      rw [hn] at hy'
      cases hy'
    · exact hapart i t y x e hy hx q hy' hp

end Processed

/-! ## What a move does to the log -/

section

variable [Inhabited α] {k k' : Core α} {l : Label} {t i : ℕ} {x y : Task α}

omit [Inhabited α] in
/-- The blocks of an append after the first have no record. -/
theorem Phys.put_cells_rest {d : Phys α} {p q : ℕ} {log : DiskLog}
    (hfree : ∀ i < x.len, d.content (p + i) = none) (hq : q ≠ p) :
    (d.put p (x.cells log)).content q = d.content q ∨
      d.content q = none ∧ ∃ v, (d.put p (x.cells log)).content q = some (v, none) := by
  by_cases h : ∃ i < x.len, q = p + i
  · obtain ⟨i, hi, rfl⟩ := h
    obtain ⟨i, rfl⟩ := Nat.exists_eq_succ_of_ne_zero (n := i) fun h => hq (by rw [h, Nat.add_zero])
    refine Or.inr ⟨hfree _ hi, x.more.get ⟨i, Nat.lt_of_succ_lt_succ hi⟩, ?_⟩
    rw [Phys.put_inside (by rwa [Task.length_cells]), Task.cells, List.getElem?_cons_succ,
      List.getElem?_map, List.getElem?_eq_getElem (Nat.lt_of_succ_lt_succ hi)]
    rfl
  · push Not at h
    exact Or.inl (Phys.put_cells_outside h)

inductive LogStep (c : Conf) (k : Core α) (l : Label) (k' : Core α) : Prop
  | same (hp : ∀ q, Processed k'.tasks q ↔ Processed k.tasks q) (hc : k'.phys = k.phys)
      (hm : k'.mapping = k.mapping)
  | lands (t p : ℕ) (x : Task α) (log : DiskLog) (hx : k.tasks.get t = some x)
      (hpc : x.pc = .device) (hi : x.integ = .buf log) (hfree : k.phys.content p = none)
      (hp : ∀ q, Processed k'.tasks q ↔ Processed k.tasks q ∧ q ≠ p)
      (hc : k'.phys.content p = some (x.data, some log))
      (hrest : ∀ q ≠ p, k'.phys.content q = k.phys.content q ∨
        k.phys.content q = none ∧ ∃ d, k'.phys.content q = some (d, none))
      (hm : k'.mapping = k.mapping)
  | enters (t p : ℕ) (x y : Task α) (hx : k.tasks.get t = some x) (happ : x.appended = some p)
      (hy : k'.tasks.get t = some y) (hend : y.pc.flies = false)
      (hp : ∀ q, Processed k'.tasks q ↔ Processed k.tasks q ∨ q = p) (hc : k'.phys = k.phys)
      (hm : k'.mapping = Function.update k.mapping x.blkid (some p))
  | resets (i : ℕ) (hwk : k.wk = .reset i) (hp : k'.tasks = k.tasks)
      (hc : k'.phys = k.phys.resetZone c i) (hm : k'.mapping = k.mapping)
  | discards (b : ℕ) (hl : l = .discard b)

theorem Move.logStep (B : Base c k) (M : Maps c 0 k) (hf : l ≠ .fault) (hm : Move c k l k') :
    LogStep c k l k' := by
  have T := B.tasks
  have Q := B.queues
  cases hm with
  | dispatchFail | fallbackFail | allocFail | devFail | writeFail | serveFail | gcServeFail
  | gcReadFail | gcWriteFail | release | wkFail => exact absurd rfl hf
  | submitWrite => exact .same (fun q => Processed.alloc rfl) rfl rfl
  | scanBlock => exact .same (fun q => Processed.alloc rfl) rfl rfl
  | @conflict t tk x y hx hty hst hpc htk hy hb =>
    have hf : x.Fresh := by rw [Task.Fresh, if_neg hty]; exact hst
    refine .same (fun q => ?_) rfl rfl
    refine (Processed.modify (x := x) ?_ ?_).trans (Processed.modify hy rfl)
    · rw [Heap.get_modify_ne (TaskInv.ne_of_fresh T hx hf htk), hx]
    · simp only [Task.appended, hpc]
  | insert hx => exact .same (fun q => Processed.modify hx rfl) rfl rfl
  | dispatch hx hst hpc | pend hx hty hst hpc =>
    refine .same (fun q => Processed.modify hx ?_) rfl rfl
    rcases hpc with hpc | ⟨j, hpc⟩ <;> simp only [Task.appended, hpc]
  | fallback hx hst hpc | gcServe hx hpc | gcReadEnd hx hpc =>
    exact .same (fun q => Processed.modify hx (by simp only [Task.appended, hpc])) rfl rfl
  | @append t z off x log hx hpc hz hi hoff hfree =>
    exact .lands t _ x log hx hpc hi (hfree 0 x.len_pos)
      (fun q => Processed.lands hx (by simp only [Task.appended, hpc]) rfl) (Phys.put_cells ..)
      (fun q hq => Phys.put_cells_rest hfree hq) rfl
  | @apply t z p x hx hty hpc hz =>
    have happ : x.appended = some p := by simp only [Task.appended, hpc]
    exact .enters t p x _ hx happ (Heap.get_modify_self hx _) rfl
      (fun q => Processed.enters hx happ rfl M.inv.apart) rfl rfl
  | untree hx hpc =>
    exact .same (fun q => Processed.modify hx (by simp only [Task.appended, hpc])) rfl rfl
  | dropRef ht hx => exact .same (fun q => Processed.modify hx rfl) rfl rfl
  | destroy ht hx hr =>
    obtain ⟨hd, -⟩ := TaskInv.last T hx ht hr
    exact .same (fun q => Processed.free hx (by simp only [Task.appended, hd])) rfl rfl
  | @destroyCall t g v x y ht hx hr hty hl hy hgc hpc hv =>
    obtain ⟨hd, -⟩ := TaskInv.last T hx ht hr
    have hx' : (k.tasks.free g).get t = some x := by
      rw [Heap.get_free, if_neg, hx]
      rintro rfl
      cases hx.symm.trans hy
      exact hty hgc
    exact .same (fun q => (Processed.free hx' (by simp only [Task.appended, hd])).trans
      (Processed.free hy (by simp only [Task.appended, hpc]))) rfl rfl
  | @nextUser t l hr hret =>
    obtain ⟨x, hx, -, hpc⟩ := Q.users.2 t (by simp [hr, RetryPc.usersLeft])
    exact .same (fun q => Processed.modify hx (by simp only [Task.appended, hpc])) rfl rfl
  | @nextGc t l hr hret =>
    obtain ⟨x, hx, -, hpc⟩ := Q.gcs.2 t (by simp [hr, RetryPc.gcsLeft])
    exact .same (fun q => Processed.modify hx (by simp only [Task.appended, hpc])) rfl rfl
  | @gcFind g tk x y hx hty hst hpc htk hy hb =>
    have hf : x.Fresh := by
      rw [Task.Fresh, if_pos hty, hpc]
      exact ⟨hst, by rintro ⟨⟩, by rintro ⟨⟩, by rintro ⟨⟩⟩
    refine .same (fun q => ?_) rfl rfl
    refine (Processed.modify (x := x) ?_ ?_).trans (Processed.modify hy rfl)
    · rw [Heap.get_modify_ne (TaskInv.ne_of_fresh T hx hf htk), hx]
    · simp only [Task.appended, hpc]
  | gcInsert hx hty hst hpc =>
    exact .same (fun q => Processed.modify hx (by simp only [Task.appended, hpc])) rfl rfl
  | @gcFound g tk x hx hty hpc =>
    obtain ⟨y, hy, -⟩ := T.found g x hx tk hpc
    have h1 : ∀ q, Processed (k.tasks.modify g fun x =>
        { x with error := some .enoent, pc := .waiting tk }) q ↔ Processed k.tasks q := fun q =>
      Processed.modify hx (by simp only [Task.appended, hpc])
    refine .same (fun q => Iff.trans ?_ (h1 q)) rfl rfl
    by_cases e : tk = g
    · subst e
      exact Processed.modify (Heap.get_modify_self hx _) rfl
    · exact Processed.modify (x := y) (by rw [Heap.get_modify_ne e, hy]) rfl
  | gcSkip hx hty hpc | gcPass hx hty hpc | skipEnd hx hty hpc =>
    exact .same (fun q => Processed.modify hx (by simp only [Task.appended, hpc])) rfl rfl
  | gcWritten hx hty hpc =>
    exact .same (fun q => Processed.modify hx (by simp only [Task.appended, hpc])) rfl rfl
  | @remap g z v p x hx hty hpc =>
    have happ : x.appended = some p := by simp only [Task.appended, hpc]
    exact .enters g p x _ hx happ (Heap.get_modify_self hx _) rfl
      (fun q => Processed.enters hx happ rfl M.inv.apart) rfl rfl
  | wkReset hwk => exact .resets _ hwk rfl rfl rfl
  | discard => exact .discards _ rfl
  | _ => exact .same (fun _ => Iff.rfl) rfl rfl

/-! ## The invariant -/

/-- The mapping is the index of the log. -/
structure LogInv (k : Core α) : Prop where
  indexed : Indexed k.records k.mapping
  /-- what has been stamped -/
  stamps : ∀ p d log, k.phys.content p = some (d, some log) → log.timestamp ≤ k.timestamp
  /-- what is on its way is newer than what is there -/
  flying : k.tasks.All fun _ x => x.pc.flies = true → ∃ log, x.integ = .buf log ∧
    log.blkid = x.blkid ∧ log.timestamp ≤ k.timestamp ∧
    ∀ p n, k.records p = some (x.blkid, n) → n < log.timestamp

omit [Inhabited α] in
theorem Task.inTree_of_flies (hs : x.Shape) (h : x.pc.flies = true) : x.InTree := by
  refine Task.AtDevice.inTree ?_ hs
  unfold TaskPc.flies at h
  split at h
  · next h' => exact Or.inl h'
  · next p h' => exact Or.inr (Or.inl ⟨p, h'⟩)
  · next p h' => exact Or.inr (Or.inr ⟨_, h'⟩)
  · cases h

theorem Move.timestamp_le (hm : Move c k l k') : k.timestamp ≤ k'.timestamp := by
  cases hm with
  | dispatch => exact Nat.le_succ _
  | _ => exact le_rfl

namespace LogInv

variable (geo : Geom c) (B : Base c k) (V : VictimInv c 0 k) (P : Payload c k) (a : LogInv k)
  (hf : l ≠ .fault) (hm : Move c k l k')

include P a

omit [Inhabited α] in
/-- What has landed is recorded with the timestamp it was sent with. -/
theorem records_enters {p : ℕ} (hx : k.tasks.get t = some x) (happ : x.appended = some p) :
    ∃ n, k.phys.content p = some (x.data, some n) ∧ n.blkid = x.blkid ∧
      ∀ q m, k.records q = some (x.blkid, m) → m < n.timestamp := by
  obtain ⟨log, hlog, hc⟩ := P.landed t x hx p happ
  obtain ⟨log', hlog', hb, -, hnew⟩ := a.flying t x hx (Task.appended_flies happ)
  cases hlog.symm.trans hlog'
  exact ⟨log, hc, hb, hnew⟩

include geo B V hf hm

/-- **The records after a move.** -/
theorem records_move (hl : ∀ b, l ≠ .discard b) :
    (k'.mapping = k.mapping ∧ (∀ p, k'.records p = k.records p ∨ k'.records p = none) ∧
      ∀ b p, k.mapping b = some p → k'.records p = k.records p) ∨
    ∃ t x y p log, k.tasks.get t = some x ∧ x.appended = some p ∧ k'.tasks.get t = some y ∧
      y.pc.flies = false ∧ k.phys.content p = some (x.data, some log) ∧ log.blkid = x.blkid ∧
      (∀ q m, k.records q = some (x.blkid, m) → m < log.timestamp) ∧
      k'.records = Function.update k.records p (some (x.blkid, log.timestamp)) ∧
      k'.mapping = Function.update k.mapping x.blkid (some p) := by
  cases hm.logStep B V.maps hf with
  | same hp hc hmap =>
    have h : ∀ p, k'.records p = k.records p := fun p => by simp only [Core.records, hp, hc]
    exact Or.inl ⟨hmap, fun p => Or.inl (h p), fun _ p _ => h p⟩
  | lands t p x log hx hpc hi hfree hp hc hrest hmap =>
    have h : ∀ q, k'.records q = k.records q := fun q => by
      by_cases e : q = p
      · rw [Core.records, if_neg fun h => ((hp q).mp h).2 e, Core.records, e, hfree]
        split_ifs <;> rfl
      · simp only [Core.records, hp, ne_eq, e, not_false_iff, and_true]
        rcases hrest q e with h | ⟨h, d, h'⟩
        · rw [h]
        · rw [h, h']
          rfl
    exact Or.inl ⟨hmap, fun q => Or.inl (h q), fun _ q _ => h q⟩
  | enters t p x y hx happ hy hend hp hc hmap =>
    obtain ⟨log, hlog, hb, hnew⟩ := a.records_enters P hx happ
    refine Or.inr ⟨t, x, y, p, log, hx, happ, hy, hend, hlog, hb, hnew, ?_, hmap⟩
    funext q
    rw [Function.update_apply]
    split_ifs with e
    · rw [Core.records, if_pos ((hp q).mpr (Or.inr e)), hc, e, hlog, Option.bind_some,
        Option.map_some, hb]
    · simp only [Core.records, hp, hc, e, or_false]
  | resets i hwk hp hc hmap =>
    refine Or.inl ⟨hmap, fun p => ?_, fun b p hb => ?_⟩
    · rw [Core.records, Core.records, hp, hc]
      simp only [Phys.resetZone]
      split_ifs <;> first | exact Or.inl rfl | exact Or.inr rfl
    · rw [Core.records, Core.records, hp, V.content_mapped geo B hm hb]
  | discards b h => exact absurd h (hl b)

/-- **The mapping stays the index of the log.** -/
theorem move (hl : ∀ b, l ≠ .discard b) : LogInv k' := by
  have hrec := a.records_move geo B V P hf hm hl
  -- a record is an old one, or of a task that has been on its way
  have hold : ∀ {q b n}, k'.records q = some (b, n) → k.records q = some (b, n) ∨
      ∃ t x y, k.tasks.get t = some x ∧ x.pc.flies = true ∧ x.blkid = b ∧
        k'.tasks.get t = some y ∧ y.pc.flies = false := by
    intro q b n hq
    rcases hrec with ⟨-, h, -⟩ | ⟨t, x, y, p, log, hx, happ, hy, hend, -, -, -, h, -⟩
    · rcases h q with h | h
      · exact Or.inl (h ▸ hq)
      · rw [h] at hq
        cases hq
    · rw [h, Function.update_apply] at hq
      split_ifs at hq
      · cases hq
        exact Or.inr ⟨t, x, y, hx, Task.appended_flies happ, rfl, hy, hend⟩
      · exact Or.inl hq
  have hstamp : ∀ {q b n}, k.records q = some (b, n) → n ≤ k.timestamp := fun {q b n} hq => by
    obtain ⟨-, d, log, hc, -, rfl⟩ := records_eq_some.mp hq
    exact a.stamps q d log hc
  refine ⟨?_, fun p d log hp => ?_, fun t y hy hfl => ?_⟩
  · rcases hrec with ⟨hmap, h, hkeep⟩ | ⟨t, x, y, p, log, hx, happ, -, -, -, -, hnew, h, hmap⟩
    · rw [hmap]
      exact a.indexed.drop h hkeep
    · rw [hmap, h]
      refine a.indexed.put ?_ hnew
      rw [Core.records, if_neg fun h => h t x hx happ]
  · refine le_trans ?_ hm.timestamp_le
    cases hm.logStep B V.maps hf with
    | same hq hc => exact a.stamps p d log (hc ▸ hp)
    | lands t q x log' hx hpc hi hfree hq hc hrest =>
      by_cases e : p = q
      · subst e
        cases hc.symm.trans hp
        obtain ⟨log₁, h1, -, h2, -⟩ := a.flying t x hx (by rw [hpc]; rfl)
        cases hi.symm.trans h1
        exact h2
      · rcases hrest p e with h | ⟨-, d', h⟩
        · exact a.stamps p d log (h ▸ hp)
        · rw [h] at hp
          cases hp
    | enters t q x y hx happ hy hend hq hc => exact a.stamps p d log (hc ▸ hp)
    | resets i hwk hq hc =>
      rw [hc] at hp
      simp only [Phys.resetZone] at hp
      split_ifs at hp
      exact a.stamps p d log hp
    | discards b h => exact absurd h (hl b)
  · rcases hm.task B hf hy with ⟨x, hx, hxy⟩ | ⟨-, hmade⟩
    · rw [hxy.blkid]
      -- no record of the block comes in while the task has the block
      have hnone : ∀ {q n}, x.InTree → k'.records q = some (x.blkid, n) →
          k.records q = some (x.blkid, n) := by
        intro q n hin hq
        rcases hold hq with h | ⟨t', x', y', hx', hfl', hb, hy', hend⟩
        · exact h
        · have hin' := Task.inTree_of_flies (B.tasks.shape t' x' hx') hfl'
          obtain rfl : t' = t := (TaskInv.eq_of_holder B.tasks hx' hin' hx hin hb.symm).symm
          rw [Option.some.inj (hy.symm.trans hy'), hend] at hfl
          cases hfl
      rcases (hm.data B hf hx hy).record hfl with ⟨hflx, hi⟩ | ⟨log, hi, hn, hb, hts, hst⟩
      · obtain ⟨log, hlog, hb, hle, hnew⟩ := a.flying t x hx hflx
        have hin := Task.inTree_of_flies (B.tasks.shape t x hx) hflx
        exact ⟨log, hi.trans hlog, hb, hle.trans hm.timestamp_le, fun q n hq =>
          hnew q n (hnone hin hq)⟩
      · refine ⟨log, hi, hb, by omega, fun q n hq => ?_⟩
        rcases hold hq with h | ⟨t', x', y', hx', hfl', hb', hy', hend⟩
        · have := hstamp h
          omega
        · have hin' := Task.inTree_of_flies (B.tasks.shape t' x' hx') hfl'
          have hd : x.pc ≠ .done := fun h => by rw [hxy.stays h] at hfl; cases hfl
          have hin : x.InTree := by
            unfold Task.InTree
            split_ifs
            · exact Or.inr ⟨by rw [hst]; rintro ⟨⟩, hd⟩
            · exact ⟨by rw [hst]; rintro ⟨⟩, hd⟩
          obtain rfl : t' = t := (TaskInv.eq_of_holder B.tasks hx' hin' hx hin hb'.symm).symm
          rw [Option.some.inj (hy.symm.trans hy'), hend] at hfl
          cases hfl
    · cases hmade <;> cases hfl

end LogInv

/-! ## Every run -/

/-- The block and the timestamp of the record at `p`, if its zone has not been reset since and the
completion of its append has been processed. -/
def Sys.records (s : Sys α) (p : ℕ) : Option (ℕ × ℕ) := s.core.records p

variable {o : Options} {report : List BlkZone} {s₀ s : Sys α}

/-- **The log on the device determines the mapping**: without discards, a block is mapped to the
position of its newest record, and to none if it has no record. -/
theorem log_determines (he : EmptyReport o report) (h0 : initSys o report = some s₀)
    (hrun : Runs (stepRel (step (confOf o report)))
      (fun s e => e.NoError ∧ e.NoCarry s ∧ e.discards = false) s₀ s)
    (hb : s.bug = none) (b : ℕ) :
    (∀ p, s.mapping b = some p ↔ Newest s.records b p) ∧
      (s.mapping b = none ↔ ∀ p n, s.records p ≠ some (b, n)) := by
  have geo := geom_of_empty he (initSys_eq h0).1
  obtain ⟨⟨hf, d, hd, hB, hI⟩, -⟩ := storeInv_start he h0
  have hstart : LogInv { s₀.core with phys := d } := by
    obtain ⟨-, m, -, rfl⟩ := initSys_eq h0
    cases hd (by rintro ⟨⟩)
    refine ⟨⟨by rintro b p ⟨⟩, fun p b n h => ?_⟩, by rintro p d log ⟨⟩, Heap.All.empty⟩
    obtain ⟨-, d, log, ⟨⟩, -⟩ := records_eq_some.mp h
  have hrun := Sound.undiscarded (I := fun k => (VictimInv (confOf o report) 0 k ∧
      Payload (confOf o report) k) ∧ LogInv k) geo
    (fun _ _ _ hB a hf hst hl hm => ⟨⟨a.1.1.move geo hB hf hm hst, a.1.2.move geo hB a.1.1 hf hm⟩,
      a.2.move geo hB a.1.1 a.1.2 hf hm hl⟩) hrun ⟨hf, d, hd, hB, ⟨hI.victim, hI.data⟩, hstart⟩
  have h := (Sound.base hrun hb).2.2.2.indexed
  exact ⟨fun p => h.eq_some, h.eq_none⟩

/-- Block 1 has a record at block 1 of the device, and a newer one at block 7. -/
theorem log_determines_moved : ∃ s : Sys ℕ, (s.records 1).map Prod.fst = some 1 ∧
    Newest s.records 1 7 ∧ ∀ p n, s.records p ≠ some (6, n) := by
  let s₀ : Sys ℕ := (initSys smallOptions (emptyReport 4 16 16)).get (by decide +kernel)
  obtain ⟨s, hrun, h⟩ := exists_run (step (confOf smallOptions (emptyReport 4 16 16)))
    (fun s e => e.NoError ∧ e.NoCarry s ∧ e.discards = false)
    (fun s => decide ((s.records 1).map Prod.fst = some 1 ∧ s.mapping 1 = some 7 ∧
      s.mapping 6 = none ∧ s.bug = none)) s₀ smallGc (by decide +kernel)
  obtain ⟨h1, h2, h3, h4⟩ := of_decide_eq_true h
  have hlog := log_determines smallOptions_empty (Option.some_get _).symm hrun h4
  exact ⟨s, h1, ((hlog 1).1 7).mp h2, (hlog 6).2.mp h3⟩

end

end Lbz
