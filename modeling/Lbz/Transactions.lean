import Lbz.SubmitBio
import Lbz.WriteFails

/-!
# The ids of checkpoint transactions

* `TxSys`: a device with a list of the transaction writes submitted to it and of the log records
  stamped for writes;
* `TxSys.InTurn`: the file system issues transactions one after another; `TxSys.step`: a step of a
  run in which it does;
* `Stamped`, `Unstamped`: what a step does to the counters of `__add_integrity`;
* `TxInv`: a child has the id that the father before it got;
* **`one_txid_iff`**: the records of each transaction have one id, that of no other transaction,
  exactly if no child has been stamped or no father has.
-/

namespace Lbz

variable {α : Type}

/-! ## Transactions -/

/-- Whether a write closes its transaction, for one that belongs to a transaction. -/
def TaskType.closes : TaskType → Option Bool
  | .txFather => some true
  | .txChild => some false
  | _ => none

theorem TaskType.closes_true {ty : TaskType} (h : ty.closes = some true) : ty = .txFather := by
  cases ty <;> first | rfl | cases h

theorem TaskType.closes_false {ty : TaskType} (h : ty.closes = some false) : ty = .txChild := by
  cases ty <;> first | rfl | cases h

/-- A write that belongs to transaction `tx`, submitted as task `task`: the father that closes it, or
a child. -/
structure TxWrite where
  task : ℕ
  tx : ℕ
  father : Bool
deriving DecidableEq, Repr

/-- The device, and what is written down of its transactions. -/
structure TxSys (α : Type) where
  sys : Sys α
  writes : List TxWrite
  records : List (ℕ × DiskLog)

namespace TxSys

/-- The number of the transaction at work: that of the fathers submitted before. -/
def current (p : TxSys α) : ℕ := p.writes.countP TxWrite.father

/-- `log` is a record of transaction `k`. -/
def Record (p : TxSys α) (k : ℕ) (log : DiskLog) : Prop :=
  ∃ w ∈ p.writes, w.tx = k ∧ (w.task, log) ∈ p.records

/-- A father has been stamped, or a child. -/
def HasStamped (p : TxSys α) (father : Bool) : Prop :=
  ∃ w ∈ p.writes, w.father = father ∧ ∃ log, (w.task, log) ∈ p.records

/-- The records of each transaction have one id, that of no other transaction. -/
structure OneTxid (p : TxSys α) : Prop where
  shared : ∀ k l f, p.Record k l → p.Record k f → l.logType = .transactionChild →
    f.logType = .transactionFather → l.txid = f.txid
  own : ∀ k k' l f, p.Record k l → p.Record k' f → k ≠ k' → f.logType = .transactionFather →
    l.txid ≠ f.txid

/-- The write `t` has ended to its user. -/
def Completed (s : Sys α) (t : ℕ) : Prop := .endW t true ∈ s.hist ∨ .endW t false ∈ s.hist

/-- The file system submits a father when all writes of transactions are completed, and a child when
all fathers are. -/
def InTurn (c : Conf) (p : TxSys α) : Event α → Prop
  | .submitWrite b _ flush _ => ∀ f ∈ (classify c p.sys.natSit b flush).closes,
      ∀ w ∈ p.writes, f = true ∨ w.father = true → Completed p.sys w.task
  | _ => True

instance [DecidableEq α] (c : Conf) (p : TxSys α) : DecidablePred (p.InTurn c) := by
  rintro (_ | _) <;> dsimp only [InTurn, Completed] <;> infer_instance

/-- The record that `__add_integrity` has stamped for task `t` between `s` and `s'`. -/
def stampedAt (s s' : Sys α) (t : ℕ) : List (ℕ × DiskLog) :=
  if s'.timestamp = s.timestamp then []
  else
    match (s'.tasks.get t).map Task.integ with
    | some (.buf log) => [(t, log)]
    | _ => []

/-- What is written down of `e`, which leads to `s'`. -/
def after (c : Conf) (p : TxSys α) (s' : Sys α) : Event α → TxSys α
  | .submitWrite b _ flush _ =>
    { p with
      sys := s'
      writes := ((classify c p.sys.natSit b flush).closes.map fun f =>
        ⟨p.sys.tasks.next, p.current, f⟩).toList ++ p.writes }
  | .runWrite t _ => { p with sys := s', records := stampedAt p.sys s' t ++ p.records }
  | _ => { p with sys := s' }

/-- One step, with what is written down of it. -/
def step [Inhabited α] (c : Conf) (p : TxSys α) (e : Event α) : Option (TxSys α) :=
  (Lbz.step c p.sys e).map fun s' => p.after c s' e

/-- Nothing has been written. -/
def start (s : Sys α) : TxSys α := ⟨s, [], []⟩

end TxSys

/-! ## What a step stamps -/

/-- Task `t`, which is `x`, gets a block and a record. -/
structure Stamped (s s' : Sys α) (t : ℕ) (x : Task α) : Prop where
  here : s.tasks.get t = some x
  status : x.status = .allocRes
  log : ∃ log, (s'.tasks.get t).map Task.integ = some (.buf log) ∧
    (x.type = .txFather → log.txid = s.transactionId + 1 ∧ log.logType = .transactionFather) ∧
    (x.type = .txChild → log.txid = s.transactionId ∧ log.logType = .transactionChild)
  txid : s'.transactionId = s.transactionId + if x.type = .txFather then 1 else 0
  timestamp : s'.timestamp = s.timestamp + 1
  marks : ∃ flag, s'.hist.filter Obs.marks = .alloc t flag :: s.hist.filter Obs.marks
  fine : s.faulty = false

/-- No record is stamped. If a block is allocated, or a write fails, the device is out of order. -/
structure Unstamped (s s' : Sys α) : Prop where
  txid : s'.transactionId = s.transactionId
  timestamp : s'.timestamp = s.timestamp
  faulty : s.faulty = true → s'.faulty = true
  marks : s'.bug ≠ none ∨ s'.faulty = true ∨
    s'.hist.filter Obs.marks = s.hist.filter Obs.marks

section

variable {c : Conf} {s s' s'' : Sys α} {t : ℕ} {x : Task α} {P : Bug → Prop}

theorem Unstamped.of_still (h : Still P s s') : Unstamped s s' :=
  ⟨h.txid, h.timestamp, h.faulty, Or.inr h.marks⟩

theorem Unstamped.after_still (h' : Unstamped s' s'') (h : Still P s s') : Unstamped s s'' := by
  refine ⟨h'.txid.trans h.txid, h'.timestamp.trans h.timestamp, fun hf => h'.faulty (h.faulty hf), ?_⟩
  rcases h.marks with hm | hm
  · exact Or.inr (Or.inl (h'.faulty hm))
  · rw [← hm]
    exact h'.marks

/-- The device becomes faulty. -/
theorem Unstamped.of_faulty (h1 : s'.transactionId = s.transactionId)
    (h2 : s'.timestamp = s.timestamp) (h3 : s'.faulty = true) : Unstamped s s' :=
  ⟨h1, h2, fun _ => h3, Or.inr (Or.inl h3)⟩

/-- The kernel stops. -/
theorem Unstamped.of_bug (h1 : s'.transactionId = s.transactionId)
    (h2 : s'.timestamp = s.timestamp) (h3 : s.faulty = true → s'.faulty = true)
    (h4 : s'.bug ≠ none) : Unstamped s s' :=
  ⟨h1, h2, h3, Or.inl h4⟩

/-- The counters that `__add_integrity` moves, and the record of a transaction write. -/
theorem addIntegrity_spec (hn : c.natSit = true) (s : Sys α) (x : Task α) (ty : LogType) :
    ∃ n id, (addIntegrity c s x ty).1 = { s with
        timestamp := s.timestamp + 1, transactionId := id, natSit := n } ∧
      id = s.transactionId + (if x.type = .txFather then 1 else 0) ∧
      (x.type = .txFather → (addIntegrity c s x ty).2.txid = s.transactionId + 1 ∧
        (addIntegrity c s x ty).2.logType = .transactionFather) ∧
      (x.type = .txChild → (addIntegrity c s x ty).2.txid = s.transactionId ∧
        (addIntegrity c s x ty).2.logType = .transactionChild) := by
  unfold addIntegrity
  rw [if_neg (by rw [hn]; nofun)]
  cases hty : x.type with
  | userWrite | gc => exact ⟨s.natSit, s.transactionId, rfl, rfl, nofun, nofun⟩
  | txFather => exact ⟨s.natSit, _, rfl, rfl, fun _ => ⟨rfl, rfl⟩, nofun⟩
  | txChild =>
    by_cases hfree : c.freeSupport = true
    · simp only [if_pos hfree]
      exact ⟨_, s.transactionId, rfl, rfl, nofun, fun _ => ⟨trivial, trivial⟩⟩
    · simp only [if_neg hfree]
      exact ⟨s.natSit, s.transactionId, rfl, rfl, nofun, fun _ => ⟨trivial, trivial⟩⟩

/-- A block has been allocated, and the append is issued. -/
theorem issueAppend_stamps (hn : c.natSit = true) (hx : s.tasks.get t = some x)
    (hst : x.status = .allocRes) (ht : s'.tasks = s.tasks) (hid : s'.transactionId = s.transactionId)
    (hts : s'.timestamp = s.timestamp) (hf : s.faulty = false) {flag : AllocFlag}
    (hh : s'.hist.filter Obs.marks = .alloc t flag :: s.hist.filter Obs.marks) (z : ℕ)
    (ty : LogType) : Stamped s (issueAppend c s' t x z ty) t x := by
  obtain ⟨n, id, h1, h2, h3, h4⟩ := addIntegrity_spec hn s' x ty
  rw [hid] at h2 h3 h4
  have he : issueAppend c s' t x z ty =
      ({ s' with timestamp := s'.timestamp + 1, transactionId := id, natSit := n } : Sys α).modTask t
        fun y => { y with
          zone := some z, status := .dispatch, pc := .device,
          integ := .buf (addIntegrity c s' x ty).2 } := by
    unfold issueAppend
    simp only
    rw [h1]
  rw [he]
  refine ⟨hx, hst, ⟨_, ?_, h3, h4⟩, h2, congrArg (· + 1) hts, ⟨flag, hh⟩, hf⟩
  change ((s'.tasks.modify t _).get t).map Task.integ = _
  rw [ht, Heap.get_modify_self hx]
  rfl

/-- None of the places where the kernel stops. -/
theorem watched_none : Watched fun _ => False := ⟨id, id, id⟩

theorem writeAllocFailed_unstamped (t : ℕ) (x : Task α) {ret : AllocRet}
    (hret : ret = .eio → s.faulty = true) : Unstamped s (writeAllocFailed c s t x ret) := by
  by_cases h : ret = .eio
  · -- the write fails on a device that is faulty
    have hput := fun s' : Sys α => Still.taskPut (c := c) (s := s') watched_none t
    simp only [writeAllocFailed, h, ne_eq, not_true_eq_false, if_false]
    exact .of_faulty (hput _).txid (hput _).timestamp ((hput _).faulty (hret h))
  · simp only [writeAllocFailed, ne_eq, h, not_false_eq_true, if_true]
    refine .of_still (P := fun _ => False) ?_
    exact (Still.addTaskToRetry t).after (.of_eq rfl rfl rfl rfl rfl rfl)

theorem fine_of_ok {flag : AllocFlag} {i : Fin 2} {z : ℕ}
    (h : (zoneAllocRes c s.faulty s.zmd flag i).2 = .ok z) : s.faulty = false := by
  by_contra hf
  rw [Bool.not_eq_false] at hf
  rw [hf, zoneAllocRes_faulty] at h
  cases h

theorem allocWrite_stamps (hn : c.natSit = true) (hx : s.tasks.get t = some x)
    (hst : x.status = .allocRes) (i : Fin 2) (sid : Option (Fin 2)) (integ : Bool) :
    Stamped s (allocWrite c s t x i sid integ) t x ∨
      Unstamped s (allocWrite c s t x i sid integ) := by
  unfold allocWrite
  simp only
  generalize (if x.link = .null then AllocFlag.user else .gc) = flag
  have hstill := Still.allocBlock (c := c) (s := s) (P := fun _ => False) nofun flag i
  have hsnd := allocBlock_snd (c := c) (s := s) flag i
  split
  · rename_i s₁ z heq
    rw [heq] at hsnd
    rw [allocBlock_ok hsnd.symm] at heq
    cases heq
    unfold dispatchWrite
    cases integ with
    | false =>
      refine Or.inr ?_
      simp only [Bool.false_eq_true, if_false]
      split_ifs <;> exact .of_faulty rfl rfl rfl
    | true =>
      refine Or.inl ?_
      simp only [if_true]
      split_ifs <;> apply issueAppend_stamps hn hx hst <;> first | rfl | exact fine_of_ok hsnd.symm
  · rename_i s₁ ret hne heq
    rw [heq] at hstill hsnd
    refine Or.inr ?_
    have heio : ret = .eio → s₁.faulty = true := fun h => by
      refine hstill.faulty ?_
      by_contra hf
      rw [Bool.not_eq_true] at hf
      rw [hf] at hsnd
      rcases zoneAllocRes_snd (c := c) s.zmd flag i with ⟨-, -, z, hz⟩ | hz | hz <;>
        cases (hsnd.trans hz).symm.trans h
    refine Unstamped.after_still ?_ hstill
    unfold writeNoBlock
    split_ifs
    · exact .of_still (P := fun _ => False) .refl
    · cases sid with
      | some j => exact .of_still (P := fun _ => False) (.modTask ..)
      | none => exact writeAllocFailed_unstamped t x heio

theorem allocGc_stamps (hn : c.natSit = true) (hx : s.tasks.get t = some x)
    (hst : x.status = .allocRes) (i : Fin 2) (sid : Option (Fin 2)) (integ : Bool) :
    Stamped s (allocGc c s t x i sid integ) t x ∨ Unstamped s (allocGc c s t x i sid integ) := by
  unfold allocGc
  have hstill := Still.allocBlock (c := c) (s := s) (P := fun _ => False) nofun .gc i
  have hsnd := allocBlock_snd (c := c) (s := s) .gc i
  split
  · rename_i s₁ z heq
    rw [heq] at hsnd
    rw [allocBlock_ok hsnd.symm] at heq
    cases heq
    unfold dispatchGc
    cases integ with
    | false =>
      rw [if_neg nofun]
      exact Or.inr (.of_bug rfl rfl (fun _ => rfl) nofun)
    | true =>
      rw [if_pos rfl]
      refine Or.inl ?_
      apply issueAppend_stamps hn hx hst <;> first | rfl | exact fine_of_ok hsnd.symm
  · rename_i s₁ ret hne heq
    rw [heq] at hstill
    refine Or.inr (.of_still (P := fun _ => False) (hstill.trans ?_))
    refine .ite .refl ?_
    cases sid with
    | some j => exact .modTask ..
    | none => exact .halt id

theorem submitWriteTask_stamps (hn : c.natSit = true) (hx : s.tasks.get t = some x)
    (hs : x.Shape) (hty : x.type ≠ .gc) (hpc : x.pc = .submit ∨ ∃ j, x.pc = .fallback j)
    (integ : Bool) :
    Stamped s (submitWriteTask c s t x integ) t x ∨ Unstamped s (submitWriteTask c s t x integ) := by
  obtain ⟨hp, -, -⟩ := hs.user hty
  rcases hpc with hpc | ⟨j, hpc⟩ <;> simp only [submitWriteTask, hpc]
  · by_cases hst : x.status = .init
    · rw [if_pos hst]
      exact Or.inr (.of_still (P := fun _ => False) (.insertWrite ..))
    · rw [if_neg hst]
      exact allocWrite_stamps hn hx (by cases hp <;> simp_all) _ _ integ
  · exact allocWrite_stamps hn hx (by cases hp <;> simp_all) _ _ integ

theorem submitGcTask_stamps (hn : c.natSit = true) (hx : s.tasks.get t = some x)
    (hs : x.Shape) (hty : x.type = .gc)
    (hpc : x.pc = .submit ∨ (∃ j, x.pc = .fallback j) ∨ (∃ tk, x.pc = .found tk) ∨ x.pc = .check)
    (integ : Bool) :
    Stamped s (submitGcTask c s t x integ) t x ∨ Unstamped s (submitGcTask c s t x integ) := by
  obtain ⟨⟨v, hp⟩, -⟩ := hs.gc hty
  rcases hpc with hpc | ⟨j, hpc⟩ | ⟨tk, hpc⟩ | hpc <;> simp only [submitGcTask, hpc]
  · by_cases hst : x.status = .gcReading
    · rw [if_pos hst]
      exact Or.inr (.of_still (P := fun _ => False) (.insertGc ..))
    · rw [if_neg hst]
      exact allocGc_stamps hn hx (by cases hp <;> simp_all) _ _ integ
  · exact allocGc_stamps hn hx (by cases hp <;> simp_all) _ _ integ
  · exact Or.inr (.of_still (P := fun _ => False) (.of_eq rfl rfl rfl rfl rfl rfl))
  · exact Or.inr (.of_still (.gcCheck watched_none ..))

/-- **What a step stamps**: at most a record for the task that is submitted. -/
theorem step_stamps [Inhabited α] {e : Event α} (hn : c.natSit = true) (hB : Base c s.core)
    (hs : step c s e = some s') :
    (∃ b d flush more, e = .submitWrite b d flush more) ∨
    (∃ t x, Stamped s s' t x ∧ (x.type ≠ .gc ∧ (∃ integ, e = .runWrite t integ) ∨
      x.type = .gc ∧ ∃ integ, e = .runGc t integ)) ∨ Unstamped s s' := by
  rw [step] at hs
  split_ifs at hs with h
  obtain ⟨hb, hr⟩ := h
  cases hs
  by_cases hsub : ∃ b d flush more, e = .submitWrite b d flush more
  · exact Or.inl hsub
  refine Or.inr ?_
  by_cases hwr : ∃ t integ, e = .runWrite t integ
  · obtain ⟨t, integ, rfl⟩ := hwr
    obtain ⟨x, hx, hty, hpc⟩ := hr
    simp only [after, onTask, hx]
    refine (submitWriteTask_stamps hn hx (hB.tasks.shape t x hx) hty ?_ integ).imp_left
      fun h => ⟨t, x, h, Or.inl ⟨hty, integ, rfl⟩⟩
    split at hpc
    · next h => exact Or.inl h
    · next j h => exact Or.inr ⟨j, h⟩
    · cases hpc
  by_cases hgc : ∃ g integ, e = .runGc g integ
  · obtain ⟨g, integ, rfl⟩ := hgc
    obtain ⟨x, hx, hty, hpc⟩ := hr
    simp only [after, onTask, hx]
    refine (submitGcTask_stamps hn hx (hB.tasks.shape g x hx) hty ?_ integ).imp_left
      fun h => ⟨g, x, h, Or.inr ⟨hty, integ, rfl⟩⟩
    split at hpc
    · next h => exact Or.inl h
    · next j h => exact Or.inr (Or.inl ⟨j, h⟩)
    · next tk h => exact Or.inr (Or.inr (Or.inl ⟨tk, h⟩))
    · next h => exact Or.inr (Or.inr (Or.inr h))
    · cases hpc
  refine Or.inr ?_
  by_cases hre : e = .retryWk ∧ s.retry = .idle
  · -- the writes of `lbz_user_pending` go to the list of the pass
    obtain ⟨rfl, hi⟩ := hre
    simp only [after, retryWkFn, hi]
    split_ifs <;> exact ⟨rfl, rfl, id, Or.inr (Or.inr rfl)⟩
  exact .of_still (after_still (P := fun _ => False) watched_none (by rintro ⟨⟩) (by rintro ⟨⟩)
    (fun b d flush more he => hsub ⟨b, d, flush, more, he⟩) (fun t integ he => hwr ⟨t, integ, he⟩)
    (fun g integ he => hgc ⟨g, integ, he⟩) fun h1 h2 => absurd ⟨h1, h2⟩ hre)

end

/-! ## Tasks keep their types and their stories -/

section

variable {c : Conf} {k k' : Core α} {l : Label} {t : ℕ} {hist : List (Obs α)}

/-- The tasks below `h.next` are of the types that they have in `h`. -/
structure TypesFrom (h : Heap (Task α)) (k : Core α) : Prop where
  next : h.next ≤ k.tasks.next
  type : k.tasks.All fun t y => t < h.next → ∃ x, h.get t = some x ∧ x.type = y.type

theorem TypesFrom.refl (k : Core α) : TypesFrom k.tasks k := ⟨le_rfl, fun _ y hy _ => ⟨y, hy, rfl⟩⟩

theorem TypesFrom.move [Inhabited α] {h : Heap (Task α)} (a : TypesFrom h k) (hm : Move c k l k') :
    TypesFrom h k' := by
  obtain ⟨hn, ht⟩ := a
  cases hm with
  | openZone | complete | putZone | readMiss | readHit | serve | endRead | select | scanFree
  | scanEnd | peek | wkStart | wkIdle | wkNext | wkFull | wkSticky | wkFree | wkClose | wkLink
  | wkEmpty | wkCarried | wkReset | wkPublish | discard | serveFail | wkFail | retryUsers | retryGcs
  | retryDone => exact ⟨hn, ht⟩
  | submitWrite | scanBlock =>
    refine ⟨hn.trans (by rw [Heap.next_alloc]; exact Nat.le_succ _), ht.alloc fun hlt => ?_⟩
    exact absurd hn (not_le.mpr hlt)
  | destroy => exact ⟨by rw [Heap.next_free]; exact hn, ht.free _⟩
  | destroyCall => exact ⟨by rw [Heap.next_free, Heap.next_free]; exact hn, (ht.free _).free _⟩
  | conflict | gcFind | gcFound =>
    refine ⟨by rw [Heap.next_modify, Heap.next_modify]; exact hn, ?_⟩
    refine Heap.All.modify (Heap.All.modify ht ?_) ?_ <;> exact fun _ _ h => h
  | _ => exact ⟨by rw [Heap.next_modify]; exact hn, Heap.All.modify ht fun _ _ h => h⟩

theorem mem_marks {o : Obs α} (ho : o.marks = true) :
    o ∈ hist ↔ o ∈ hist.filter Obs.marks := by
  rw [List.mem_filter, and_iff_left ho]

end

/-! ## Every run -/

/-- The write has no block yet. -/
def TxWrite.Open (w : TxWrite) (s : Sys α) : Prop := ¬ Allocated w.task s.hist

/-- The writes of transactions are those that have been submitted, and none has failed. -/
structure TxKnown (p : TxSys α) : Prop where
  told : ∀ t, .endW t false ∉ p.sys.hist
  entered : ∀ w ∈ p.writes, ∃ b d more, .submitW w.task b d more ∈ p.sys.hist
  type : p.sys.tasks.All fun t x => ∀ w ∈ p.writes, w.task = t → x.type.closes = some w.father
  known : p.sys.tasks.All fun t x => x.type.closes.isSome → ∃ w ∈ p.writes, w.task = t

/-- A father without a block is the only write without one, and the counter is then one behind. -/
structure TxTurn (p : TxSys α) : Prop where
  alone : ∀ w ∈ p.writes, w.father = true → w.Open p.sys →
    ∀ w' ∈ p.writes, w'.Open p.sys → w' = w
  number : ∀ w ∈ p.writes, w.Open p.sys → w.tx + w.father.toNat = p.current
  busy : ∀ w ∈ p.writes, w.father = true → w.Open p.sys → p.sys.transactionId + 1 = p.current
  free : (∀ w ∈ p.writes, w.father = true → ¬ w.Open p.sys) → p.sys.transactionId = p.current

/-- A child has the id that the father of the transaction before got, and a father the next one. -/
structure TxInv (c : Conf) (p : TxSys α) : Prop where
  kept : Kept c Stories p.sys
  stamp : ∀ w ∈ p.writes, ∀ log, (w.task, log) ∈ p.records →
    log.txid = w.tx + w.father.toNat ∧ w.tx + w.father.toNat ≤ p.sys.transactionId ∧
    log.logType = if w.father then .transactionFather else .transactionChild
  closed : ∀ j < p.sys.transactionId, ∃ w ∈ p.writes, w.father = true ∧ w.tx = j ∧
    ∃ log, (w.task, log) ∈ p.records
  made : p.sys.bug = none → ∀ r ∈ p.records, r.1 < p.sys.tasks.next
  known : p.sys.bug = none → p.sys.faulty = false → TxKnown p
  turn : p.sys.bug = none → p.sys.faulty = false → TxTurn p

section

variable {c : Conf} {p p' : TxSys α}

/-- Only blocks are allocated. -/
theorem TxKnown.step (a : TxKnown p) (hS : Stories p.sys.core) (hS' : Stories p'.sys.core)
    (hT : TypesFrom p.sys.tasks p'.sys.core) (hw : p'.writes = p.writes) {l : List (Obs α)}
    (hm : p'.sys.hist.filter Obs.marks = l ++ p.sys.hist.filter Obs.marks)
    (hl : ∀ o ∈ l, o.isAlloc = true) : TxKnown p' := by
  have hmem : ∀ o : Obs α, o.marks = true → o.isAlloc = false →
      (o ∈ p'.sys.hist ↔ o ∈ p.sys.hist) := fun o ho ha => by
    rw [mem_marks ho, hm, List.mem_append, (mem_marks ho : o ∈ p.sys.hist ↔ _)]
    exact or_iff_right fun h => Bool.false_ne_true (ha.symm.trans (hl o h))
  have hold : ∀ t x, p'.sys.tasks.get t = some x → t < p.sys.tasks.next → ∃ y,
      p.sys.tasks.get t = some y ∧ y.type = x.type := fun t x hx ht => hT.type t x hx ht
  refine ⟨fun t h => a.told t ((hmem _ rfl rfl).mp h), fun w hw' => ?_, fun t x hx w hw' ht => ?_,
    fun t x hx hc => ?_⟩
  · obtain ⟨b, d, more, h⟩ := a.entered w (hw ▸ hw')
    exact ⟨b, d, more, (hmem _ rfl rfl).mpr h⟩
  · obtain ⟨b, d, more, h⟩ := a.entered w (hw ▸ hw')
    obtain ⟨y, hy, he⟩ := hold t x hx (by
      by_contra hn
      exact hS.not_mem_new (o := .submitW w.task b d more) (not_lt.mp hn) (congrArg some ht) h)
    rw [← he]
    exact a.type t y hy w (hw ▸ hw') ht
  · rw [hw]
    -- a task that is new is one of gc
    obtain ⟨y, hy, he⟩ := hold t x hx (by
      by_contra hn
      have hty : x.type ≠ .gc := fun h => by rw [h] at hc; cases hc
      refine hS.not_mem_new (o := .submitW t x.blkid x.data x.more) (not_lt.mp hn) rfl ?_
      exact (hmem _ rfl rfl).mp (hS'.submitted hx hty))
    exact a.known t y hy (he ▸ hc)

/-- No write of a transaction gets a block. -/
theorem TxTurn.still (a : TxTurn p) (hw : p'.writes = p.writes)
    (hid : p'.sys.transactionId = p.sys.transactionId)
    (ho : ∀ w ∈ p.writes, w.Open p'.sys ↔ w.Open p.sys) : TxTurn p' := by
  have hc : p'.current = p.current := by rw [TxSys.current, hw]; rfl
  refine ⟨fun w hm hf h w' hm' h' => ?_, fun w hm h => ?_, fun w hm hf h => ?_, fun h => ?_⟩
  · rw [hw] at hm hm'
    exact a.alone w hm hf ((ho w hm).mp h) w' hm' ((ho w' hm').mp h')
  · rw [hw] at hm
    rw [hc]
    exact a.number w hm ((ho w hm).mp h)
  · rw [hw] at hm
    rw [hc, hid]
    exact a.busy w hm hf ((ho w hm).mp h)
  · rw [hc, hid]
    exact a.free fun w hm hf h' => h w (hw.symm ▸ hm) hf ((ho w hm).mpr h')

/-- Write `v` gets its block. -/
theorem TxTurn.allocated (a : TxTurn p) {v : TxWrite} (hv : v ∈ p.writes) (hopen : v.Open p.sys)
    (hw : p'.writes = p.writes)
    (hid : p'.sys.transactionId = p.sys.transactionId + v.father.toNat)
    (ho : ∀ w ∈ p.writes, w.Open p'.sys ↔ w.Open p.sys ∧ w.task ≠ v.task) : TxTurn p' := by
  have hc : p'.current = p.current := by rw [TxSys.current, hw]; rfl
  cases hfv : v.father with
  | true =>
    have hnone : ∀ w ∈ p.writes, ¬ w.Open p'.sys := fun w hm h => by
      obtain ⟨h, hne⟩ := (ho w hm).mp h
      exact hne (congrArg TxWrite.task (a.alone v hv hfv hopen w hm h))
    refine ⟨fun w hm _ h => absurd h (hnone w (hw ▸ hm)), fun w hm h => absurd h (hnone w (hw ▸ hm)),
      fun w hm _ h => absurd h (hnone w (hw ▸ hm)), fun _ => ?_⟩
    rw [hc, hid, hfv]
    exact a.busy v hv hfv hopen
  | false =>
    have hnone : ∀ w ∈ p.writes, w.father = true → ¬ w.Open p.sys := fun w hm hf h => by
      cases a.alone w hm hf h v hv hopen
      rw [hfv] at hf
      cases hf
    refine ⟨fun w hm hf h => ?_, fun w hm h => ?_, fun w hm hf h => ?_, fun _ => ?_⟩
    · rw [hw] at hm
      exact absurd ((ho w hm).mp h).1 (hnone w hm hf)
    · rw [hw] at hm
      rw [hc]
      exact a.number w hm ((ho w hm).mp h).1
    · rw [hw] at hm
      exact absurd ((ho w hm).mp h).1 (hnone w hm hf)
    · rw [hc, hid, hfv]
      exact a.free hnone

/-- A write of a transaction is submitted in its turn. -/
theorem TxTurn.submit (a : TxTurn p) {v : TxWrite} (hw : p'.writes = v :: p.writes)
    (htx : v.tx = p.current) (hv : v.Open p'.sys)
    (hid : p'.sys.transactionId = p.sys.transactionId)
    (ho : ∀ w ∈ p.writes, w.Open p'.sys ↔ w.Open p.sys)
    (hturn : ∀ w ∈ p.writes, v.father = true ∨ w.father = true → ¬ w.Open p.sys) : TxTurn p' := by
  have hc : p'.current = p.current + v.father.toNat := by
    rw [TxSys.current, hw, List.countP_cons]
    cases v.father <;> rfl
  have hfree : p.sys.transactionId = p.current := a.free fun w hm hf => hturn w hm (Or.inr hf)
  have hfather : ∀ w ∈ p'.writes, w.father = true → w.Open p'.sys → w = v := fun w hm hf h => by
    rw [hw] at hm
    rcases List.mem_cons.mp hm with rfl | hm
    · rfl
    · exact absurd ((ho w hm).mp h) (hturn w hm (Or.inr hf))
  refine ⟨fun w hm hf h w' hm' h' => ?_, fun w hm h => ?_, fun w hm hf h => ?_, fun h => ?_⟩
  · cases hfather w hm hf h
    rw [hw] at hm'
    rcases List.mem_cons.mp hm' with rfl | hm'
    · rfl
    · exact absurd ((ho w' hm').mp h') (hturn w' hm' (Or.inl hf))
  · rw [hw] at hm
    rcases List.mem_cons.mp hm with rfl | hm
    · rw [hc, htx]
    · have hopen := (ho w hm).mp h
      have hf : v.father = false := Bool.eq_false_of_not_eq_true fun hf => hturn w hm (Or.inl hf) hopen
      rw [hc, hf]
      exact a.number w hm hopen
  · cases hfather w hm hf h
    rw [hid, hc, hf, hfree]
    rfl
  · have hf : v.father = false := Bool.eq_false_of_not_eq_true fun hf =>
      h v (by rw [hw]; exact List.mem_cons_self) hf hv
    rw [hid, hc, hf, hfree]
    rfl

theorem TxSys.after_sys (s' : Sys α) (e : Event α) : (p.after c s' e).sys = s' := by
  cases e <;> rfl

theorem TxSys.after_writes {e : Event α} (hsub : ∀ b d flush more, e ≠ .submitWrite b d flush more)
    (s' : Sys α) : (p.after c s' e).writes = p.writes := by
  cases e with
  | submitWrite b d flush more => exact absurd rfl (hsub b d flush more)
  | _ => rfl

/-- A completed write of a transaction has got its block. -/
theorem TxKnown.allocated (a : TxKnown p) (hB : Base c p.sys.core) (hS : Stories p.sys.core)
    {w : TxWrite} (hw : w ∈ p.writes) (h : TxSys.Completed p.sys w.task) : ¬ w.Open p.sys := by
  obtain ⟨b, d, more, hsub⟩ := a.entered w hw
  have hend := h.resolve_right (a.told w.task)
  obtain ⟨p, hp⟩ := hS.acked hB.tasks hsub hend
  exact not_not_intro hp.allocated

theorem TxKnown.submit (a : TxKnown p) (hS : Stories p.sys.core) {ty : TaskType} {b tx : ℕ} {d : α}
    {more : List α} (hh : p'.sys.hist = .submitW p.sys.tasks.next b d more :: p.sys.hist)
    (ht : p'.sys.tasks = p.sys.tasks.alloc (Task.forWrite ty b d more))
    (hw : p'.writes = (ty.closes.map fun f => ⟨p.sys.tasks.next, tx, f⟩).toList ++ p.writes) :
    TxKnown p' := by
  have hmem : ∀ {w}, w ∈ p'.writes → (∃ f, ty.closes = some f ∧ w = ⟨p.sys.tasks.next, tx, f⟩) ∨
      w ∈ p.writes := fun {w} h => by
    rw [hw, List.mem_append, Option.mem_toList, Option.map_eq_some_iff] at h
    exact h.imp_left fun ⟨f, hf, h⟩ => ⟨f, hf, h.symm⟩
  have hold : ∀ {w}, w ∈ p.writes → w ∈ p'.writes := fun h => by
    rw [hw]
    exact List.mem_append_right _ h
  have hne : ∀ w ∈ p.writes, w.task ≠ p.sys.tasks.next := fun w hm h => by
    obtain ⟨b', d', more', hs⟩ := a.entered w hm
    exact hS.not_mem_new (o := .submitW w.task b' d' more') h.ge rfl hs
  refine ⟨fun t h => ?_, fun w h => ?_, ?_, ?_⟩
  · rw [hh] at h
    exact a.told t ((List.mem_cons.mp h).resolve_left nofun)
  · rw [hh]
    rcases hmem h with ⟨f, -, rfl⟩ | h
    · exact ⟨b, d, more, List.mem_cons_self⟩
    · obtain ⟨b', d', more', hs⟩ := a.entered w h
      exact ⟨b', d', more', List.mem_cons_of_mem _ hs⟩
  · rw [ht]
    refine Heap.All.alloc ?_ fun w h hwt => ?_
    · intro t x hx w h hwt
      rcases hmem h with ⟨f, -, rfl⟩ | h
      · exact absurd (Heap.lt_next_of_get hx) (not_lt.mpr hwt.le)
      · exact a.type t x hx w h hwt
    · rcases hmem h with ⟨f, hf, rfl⟩ | h
      · exact hf
      · exact absurd hwt (hne w h)
  · rw [ht]
    refine Heap.All.alloc ?_ fun hc => ?_
    · intro t x hx hc
      obtain ⟨w, h, hwt⟩ := a.known t x hx hc
      exact ⟨w, hold h, hwt⟩
    · obtain ⟨f, hf⟩ := Option.isSome_iff_exists.mp hc
      refine ⟨⟨p.sys.tasks.next, tx, f⟩, ?_, rfl⟩
      rw [hw, show ty.closes = some f from hf]
      exact List.mem_cons_self

/-- **A write is submitted.** -/
theorem TxInv.submit [Inhabited α] {b : ℕ} {d : α} {flush : Bool} {more : List α}
    (a : TxInv c p) (hB : Base c p.sys.core) (hS : Stories p.sys.core) (hb : p.sys.bug = none)
    (hok : p.InTurn c (.submitWrite b d flush more))
    (hk : Kept c Stories (submitWrite c p.sys b d flush more)) :
    TxInv c (p.after c (submitWrite c p.sys b d flush more) (.submitWrite b d flush more)) := by
  have hopen : ∀ w : TxWrite, w.Open (submitWrite c p.sys b d flush more) ↔ w.Open p.sys := fun w =>
    not_congr (exists_congr fun flag => List.mem_cons.trans (or_iff_right nofun))
  have hnew : ∀ w : TxWrite, w.task = p.sys.tasks.next → w.Open p.sys := by
    rintro w h ⟨flag, hm⟩
    exact hS.not_mem_new (o := .alloc w.task flag) h.ge rfl hm
  have hwr : (p.after c (submitWrite c p.sys b d flush more) (.submitWrite b d flush more)).writes =
      ((classify c p.sys.natSit b flush).closes.map fun f =>
        ⟨p.sys.tasks.next, p.current, f⟩).toList ++ p.writes := rfl
  have hold : p.writes ⊆
      (p.after c (submitWrite c p.sys b d flush more) (.submitWrite b d flush more)).writes :=
    List.subset_append_right ..
  refine ⟨hk, fun w hw l hl => ?_, fun j hj => ?_, fun _ r hr => ?_, fun _ hf => ?_, fun _ hf => ?_⟩
  · rw [hwr, List.mem_append, Option.mem_toList, Option.map_eq_some_iff] at hw
    rcases hw with ⟨f, -, rfl⟩ | hw
    · exact absurd (a.made hb _ hl) (lt_irrefl _)
    · exact a.stamp w hw l hl
  · obtain ⟨w, hw, h⟩ := a.closed j hj
    exact ⟨w, hold hw, h⟩
  · exact (a.made hb r hr).trans (by
      change p.sys.tasks.next < (p.sys.tasks.alloc _).next
      rw [Heap.next_alloc]
      exact Nat.lt_succ_self _)
  · exact (a.known hb hf).submit hS rfl rfl rfl
  · have U := a.turn hb hf
    cases hc : (classify c p.sys.natSit b flush).closes with
    | none =>
      rw [hc] at hwr
      exact U.still hwr rfl fun w _ => hopen w
    | some f =>
      rw [hc] at hwr
      exact U.submit (v := ⟨p.sys.tasks.next, p.current, f⟩) hwr rfl ((hopen _).mpr (hnew _ rfl)) rfl
        (fun w _ => hopen w) fun w hw h =>
          (a.known hb hf).allocated hB hS hw (hok f hc w hw h)

/-- **A task gets a block and a record.** -/
theorem TxInv.stamped [Inhabited α] {e : Event α} {s' : Sys α} {t : ℕ} {x : Task α} (a : TxInv c p)
    (hS : Stories p.sys.core) (hb : p.sys.bug = none) (h : Stamped p.sys s' t x)
    (he : x.type ≠ .gc ∧ (∃ integ, e = .runWrite t integ) ∨ x.type = .gc ∧ ∃ integ, e = .runGc t integ)
    (hk : Kept c Stories s') (hT : s'.bug = none → TypesFrom p.sys.tasks s'.core) :
    TxInv c (p.after c s' e) := by
  have K := a.known hb h.fine
  have U := a.turn hb h.fine
  obtain ⟨log, hlog, hfather, hchild⟩ := h.log
  obtain ⟨flag, hmarks⟩ := h.marks
  have hsys := TxSys.after_sys (p := p) (c := c) s' e
  have hwr : (p.after c s' e).writes = p.writes := TxSys.after_writes (by
    rcases he with ⟨-, integ, rfl⟩ | ⟨-, integ, rfl⟩ <;> nofun) s'
  have hat : TxSys.stampedAt p.sys s' t = [(t, log)] := by
    rw [TxSys.stampedAt, if_neg (by rw [h.timestamp]; exact Nat.succ_ne_self _), hlog]
  have hold : p.records ⊆ (p.after c s' e).records := by
    rcases he with ⟨-, integ, rfl⟩ | ⟨-, integ, rfl⟩
    · exact List.subset_append_right ..
    · exact List.Subset.refl _
  have hnew : x.type ≠ .gc → (t, log) ∈ (p.after c s' e).records := fun hty => by
    obtain ⟨-, integ, rfl⟩ := he.resolve_right fun h => hty h.1
    exact List.mem_append_left _ (by rw [hat]; exact List.mem_singleton_self _)
  have hrec : ∀ r ∈ (p.after c s' e).records, r = (t, log) ∨ r ∈ p.records := fun r hr => by
    rcases he with ⟨-, integ, rfl⟩ | ⟨-, integ, rfl⟩
    · rcases List.mem_append.mp hr with hr | hr
      · rw [hat] at hr
        exact Or.inl (List.mem_singleton.mp hr)
      · exact Or.inr hr
    · exact Or.inr hr
  -- the writes of transactions that are task `t`
  have hmine : ∀ w ∈ p.writes, w.task = t → x.type.closes = some w.father ∧ w.Open p.sys :=
    fun w hw ht => ⟨K.type t x h.here w hw ht, by
      rw [TxWrite.Open, ht]
      exact hS.unallocated h.here h.status⟩
  have htxid : ∀ w ∈ p.writes, w.task = t →
      s'.transactionId = p.sys.transactionId + w.father.toNat ∧
      w.tx + w.father.toNat = s'.transactionId ∧ log.txid = s'.transactionId ∧
      log.logType = if w.father then .transactionFather else .transactionChild := fun w hw ht => by
    obtain ⟨hc, ho⟩ := hmine w hw ht
    have hn := U.number w hw ho
    have hid := h.txid
    cases hf : w.father with
    | true =>
      have hty : x.type = .txFather := TaskType.closes_true (hc.trans (congrArg some hf))
      have hbusy := U.busy w hw hf ho
      obtain ⟨h1, h2⟩ := hfather hty
      rw [if_pos hty] at hid
      rw [hf] at hn
      exact ⟨hid, by rw [hid, hn, hbusy], by rw [h1, hid], h2⟩
    | false =>
      have hty : x.type = .txChild := TaskType.closes_false (hc.trans (congrArg some hf))
      have hfree := U.free fun v hv hfv hov => by
        cases U.alone v hv hfv hov w hw ho
        rw [hf] at hfv
        cases hfv
      obtain ⟨h1, h2⟩ := hchild hty
      rw [if_neg (by rw [hty]; nofun)] at hid
      rw [hf] at hn
      exact ⟨hid, by rw [hid, hn, ← hfree]; rfl, by rw [h1, hid]; rfl, h2⟩
  have hle : p.sys.transactionId ≤ s'.transactionId := by rw [h.txid]; exact Nat.le_add_right ..
  generalize p.after c s' e = p' at hsys hwr hold hnew hrec ⊢
  cases hsys
  refine ⟨hk, fun w hw l hl => ?_, fun j hj => ?_, fun hb' r hr => ?_, fun hb' hf' => ?_,
    fun hb' hf' => ?_⟩
  · rw [hwr] at hw
    rcases hrec _ hl with hr | hr
    · cases hr
      obtain ⟨-, h2, h3, h4⟩ := htxid w hw rfl
      exact ⟨h3.trans h2.symm, h2.le, h4⟩
    · obtain ⟨h1, h2, h3⟩ := a.stamp w hw l hr
      exact ⟨h1, h2.trans hle, h3⟩
  · rw [hwr]
    by_cases hlt : j < p.sys.transactionId
    · obtain ⟨w, hw, hf, htx, l, hl⟩ := a.closed j hlt
      exact ⟨w, hw, hf, htx, l, hold hl⟩
    · have hid := h.txid
      have hty : x.type = .txFather := by
        by_contra hty
        rw [if_neg hty] at hid
        omega
      obtain ⟨w, hw, ht⟩ := K.known t x h.here (by rw [hty]; rfl)
      have hf : w.father = true := by
        have hc := (hmine w hw ht).1
        rw [hty] at hc
        exact (Option.some.inj hc).symm
      obtain ⟨h1, h2, -, -⟩ := htxid w hw ht
      rw [hf, Bool.toNat_true] at h1 h2
      exact ⟨w, hw, hf, by omega, log, by rw [ht]; exact hnew (by rw [hty]; nofun)⟩
  · refine lt_of_lt_of_le ?_ (hT hb').next
    rcases hrec r hr with rfl | hr
    · exact Heap.lt_next_of_get h.here
    · exact a.made hb r hr
  · obtain ⟨k, ⟨-, hS'⟩, -, hk'⟩ := hk
    cases hk' hb'
    exact K.step hS hS' (hT hb') hwr (l := [.alloc t flag]) hmarks fun o ho => by
      rw [List.mem_singleton.mp ho]
      rfl
  · have halloc : ∀ w : TxWrite, w.Open p'.sys ↔ w.Open p.sys ∧ w.task ≠ t := fun w => by
      rw [TxWrite.Open, TxWrite.Open, ← not_or]
      refine not_congr ?_
      constructor
      · rintro ⟨flag', hm⟩
        rw [mem_marks rfl, hmarks, List.mem_cons] at hm
        rcases hm with hm | hm
        · cases hm
          exact Or.inr rfl
        · exact Or.inl ⟨flag', (mem_marks rfl).mpr hm⟩
      · rintro (⟨flag', hm⟩ | rfl)
        · exact ⟨flag', (mem_marks rfl).mpr (by
            rw [hmarks]
            exact List.mem_cons_of_mem _ ((mem_marks rfl).mp hm))⟩
        · exact ⟨flag, (mem_marks rfl).mpr (by rw [hmarks]; exact List.mem_cons_self)⟩
    by_cases hv : ∃ v ∈ p.writes, v.task = t
    · obtain ⟨v, hv, rfl⟩ := hv
      exact U.allocated hv (hmine v hv rfl).2 hwr (htxid v hv rfl).1 fun w _ => halloc w
    · refine U.still hwr ?_ fun w hw => ?_
      · have hty : x.type ≠ .txFather := fun hty => hv (K.known t x h.here (by rw [hty]; rfl))
        rw [h.txid, if_neg hty]
        rfl
      · rw [halloc]
        exact and_iff_left fun ht => hv ⟨w, hw, ht⟩

/-- **No record is stamped.** -/
theorem TxInv.unstamped [Inhabited α] {e : Event α} {s' : Sys α} (a : TxInv c p)
    (hsub : ∀ b d flush more, e ≠ .submitWrite b d flush more) (hS : Stories p.sys.core)
    (hb : p.sys.bug = none) (h : Unstamped p.sys s') (hk : Kept c Stories s')
    (hT : s'.bug = none → TypesFrom p.sys.tasks s'.core) : TxInv c (p.after c s' e) := by
  have hsys := TxSys.after_sys (p := p) (c := c) s' e
  have hwr := TxSys.after_writes (p := p) (c := c) hsub s'
  have hrec : (p.after c s' e).records = p.records := by
    cases e with
    | runWrite t integ =>
      change TxSys.stampedAt p.sys s' t ++ p.records = p.records
      rw [TxSys.stampedAt, if_pos h.timestamp]
      rfl
    | _ => rfl
  have hS' : s'.bug = none → Stories s'.core := fun hb' => by
    obtain ⟨k, ⟨-, hS'⟩, -, hk⟩ := hk
    cases hk hb'
    exact hS'
  have hmarks : s'.bug = none → s'.faulty = false → p.sys.faulty = false ∧
      s'.hist.filter Obs.marks = p.sys.hist.filter Obs.marks := fun hb' hf' => by
    refine ⟨?_, ?_⟩
    · by_contra hf
      rw [Bool.not_eq_false] at hf
      exact Bool.false_ne_true (hf'.symm.trans (h.faulty hf))
    · rcases h.marks with hm | hm | hm
      · exact absurd hb' hm
      · exact absurd (hf'.symm.trans hm) Bool.false_ne_true
      · exact hm
  generalize p.after c s' e = p' at hsys hwr hrec ⊢
  cases hsys
  refine ⟨hk, ?_, ?_, fun hb' r hr => ?_, fun hb' hf' => ?_, fun hb' hf' => ?_⟩
  · rw [hwr, hrec, h.txid]
    exact a.stamp
  · rw [hwr, hrec, h.txid]
    exact a.closed
  · rw [hrec] at hr
    exact (a.made hb r hr).trans_le (hT hb').next
  · obtain ⟨hf, hm⟩ := hmarks hb' hf'
    exact (a.known hb hf).step hS (hS' hb') (hT hb') hwr (l := []) hm nofun
  · obtain ⟨hf, hm⟩ := hmarks hb' hf'
    refine (a.turn hb hf).still hwr h.txid fun w _ => not_congr (exists_congr fun flag => ?_)
    exact (mem_marks rfl).trans (hm ▸ (mem_marks rfl).symm)

/-- **Every step keeps the ids.** -/
theorem TxInv.step [Inhabited α] {e : Event α} (hN : 0 < c.zoneNrBlocks) (hn : c.natSit = true)
    (a : TxInv c p) (hok : p.InTurn c e) (hs : p.step c e = some p') : TxInv c p' := by
  obtain ⟨s', hs', rfl⟩ := Option.map_eq_some_iff.mp hs
  have hb : p.sys.bug = none := by
    rw [Lbz.step] at hs'
    split_ifs at hs' with h
    exact h.1
  obtain ⟨k, ⟨hB, hS⟩, -, hk⟩ := a.kept
  cases hk hb
  have hkept := Kept.step hN (fun k l k' B a hm => Stories.move B.tasks B.queues a hm) hs' a.kept
  have hT : s'.bug = none → TypesFrom p.sys.tasks s'.core := fun hb' => by
    obtain ⟨k, ⟨-, hT⟩, -, hk⟩ := Kept.step (I := TypesFrom p.sys.tasks) hN
      (fun k l k' _ a hm => a.move hm) hs' ⟨p.sys.core, ⟨hB, TypesFrom.refl p.sys.core⟩, rfl, fun _ => rfl⟩
    cases hk hb'
    exact hT
  by_cases hsub : ∃ b d flush more, e = .submitWrite b d flush more
  · obtain ⟨b, d, flush, more, rfl⟩ := hsub
    rw [Lbz.step] at hs'
    split_ifs at hs'
    cases hs'
    exact a.submit hB hS hb hok hkept
  · rcases step_stamps hn hB hs' with h | ⟨t, x, h, he⟩ | h
    · exact absurd h hsub
    · exact a.stamped hS hb h he hkept hT
    · exact a.unstamped (fun b d flush more he => hsub ⟨b, d, flush, more, he⟩) hS hb h hkept hT

theorem TxInv.start {s : Sys α} (hk : Kept c Stories s) (ht : s.tasks = Heap.empty)
    (hh : s.hist = []) (hid : s.transactionId = 0) : TxInv c (TxSys.start s) := by
  refine ⟨hk, nofun, fun j hj => ?_, fun _ => nofun, fun _ _ => ?_, fun _ _ => ?_⟩
  · change j < s.transactionId at hj
    rw [hid] at hj
    cases hj
  · refine ⟨fun t h => ?_, nofun, ?_, ?_⟩
    · change _ ∈ s.hist at h
      rw [hh] at h
      cases h
    · change s.tasks.All _
      rw [ht]
      exact Heap.All.empty
    · change s.tasks.All _
      rw [ht]
      exact Heap.All.empty
  · exact ⟨nofun, nofun, nofun, fun _ => hid⟩

/-- **The records of a transaction share their id** exactly where there is nothing to share. -/
theorem TxInv.one_txid (a : TxInv c p) :
    p.OneTxid ↔ ¬ (p.HasStamped false ∧ p.HasStamped true) := by
  constructor
  · rintro h ⟨⟨v, hv, hvf, lv, hlv⟩, w, hw, hwf, lw, hlw⟩
    obtain ⟨hv1, hv2, hv3⟩ := a.stamp v hv lv hlv
    obtain ⟨-, hw2, -⟩ := a.stamp w hw lw hlw
    rw [hvf] at hv1 hv2 hv3
    rw [hwf] at hw2
    rcases lt_or_ge v.tx p.sys.transactionId with hlt | hge
    · -- the father of the same transaction has the next id
      obtain ⟨u, hu, huf, htx, lu, hlu⟩ := a.closed v.tx hlt
      obtain ⟨hu1, -, hu3⟩ := a.stamp u hu lu hlu
      rw [huf] at hu1 hu3
      have := h.shared v.tx lv lu ⟨v, hv, rfl, hlv⟩ ⟨u, hu, htx, hlu⟩ hv3 hu3
      rw [hv1, hu1, htx, Bool.toNat_true, Bool.toNat_false] at this
      omega
    · -- the father of the transaction before has this one
      rw [Bool.toNat_true] at hw2
      obtain ⟨u, hu, huf, htx, lu, hlu⟩ := a.closed (v.tx - 1) (by omega)
      obtain ⟨hu1, -, hu3⟩ := a.stamp u hu lu hlu
      rw [huf] at hu1 hu3
      refine h.own v.tx (v.tx - 1) lv lu ⟨v, hv, rfl, hlv⟩ ⟨u, hu, htx, hlu⟩ (by omega) hu3 ?_
      rw [hv1, hu1, htx, Bool.toNat_true, Bool.toNat_false]
      omega
  · intro h
    have hchild : ∀ k l, p.Record k l → l.logType ≠ .transactionFather → p.HasStamped false := by
      rintro k l ⟨w, hw, -, hl⟩ hne
      obtain ⟨-, -, h3⟩ := a.stamp w hw l hl
      cases hf : w.father with
      | true =>
        rw [hf] at h3
        exact absurd h3 hne
      | false => exact ⟨w, hw, hf, l, hl⟩
    have hfather : ∀ k l, p.Record k l → l.logType = .transactionFather →
        p.HasStamped true ∧ l.txid = k + 1 := by
      rintro k l ⟨w, hw, rfl, hl⟩ hty
      obtain ⟨h1, -, h3⟩ := a.stamp w hw l hl
      cases hf : w.father with
      | true =>
        rw [hf] at h1
        exact ⟨⟨w, hw, hf, l, hl⟩, h1⟩
      | false =>
        rw [hf, hty] at h3
        cases h3
    refine ⟨fun k l f hl hf htl htf => ?_, fun k k' l f hl hf hne htf he => ?_⟩
    · exact absurd ⟨hchild k l hl (by rw [htl]; nofun), (hfather k f hf htf).1⟩ h
    · obtain ⟨hs, hid⟩ := hfather k' f hf htf
      by_cases htl : l.logType = .transactionFather
      · have hid' := (hfather k l hl htl).2
        omega
      · exact h ⟨hchild k l hl htl, hs⟩

/-- **The records of one transaction share one id, and no other transaction has it**, exactly if no
child has been stamped or no father has. -/
theorem one_txid_iff [Inhabited α] {o : Options} {report : List BlkZone} {cap : ℕ} {s₀ : Sys α}
    {p : TxSys α} (hn : o.natSit = true) (hu : OneCapacity report cap)
    (h0 : initSys o report = some s₀)
    (hrun : Runs (stepRel (TxSys.step (confOf o report))) (TxSys.InTurn (confOf o report))
      (TxSys.start s₀) p) :
    p.OneTxid ↔ ¬ (p.HasStamped false ∧ p.HasStamped true) := by
  obtain ⟨hN, hB⟩ := base_of_capacity hu h0
  obtain ⟨-, m, -, rfl⟩ := initSys_eq h0
  have hstart : TxInv (confOf o report) (TxSys.start (freshSys m : Sys α)) :=
    .start ⟨_, ⟨hB, StoryInv.empty⟩, rfl, fun _ => rfl⟩ rfl rfl rfl
  exact TxInv.one_txid (Runs.inv (I := TxInv (confOf o report))
    (fun p e p' a hok hs => a.step hN hn hok hs) hrun hstart)

end

/-! ## One transaction -/

/-- Blocks 512 to 1535 are those of NAT and SIT. -/
def txRule : NatSitArgs := ⟨0, 512, 1024, 512⟩

def txOptions : Options := ⟨true, true, true, 16384, 4096⟩

def txConf : Conf := confOf txOptions (emptyReport 4 16384 16384)

/-- Four empty zones of 2048 blocks. -/
def txStart : Sys ℕ := (initSys txOptions (emptyReport 4 16384 16384)).get (by decide)

theorem txStart_eq : initSys txOptions (emptyReport 4 16384 16384) = some txStart :=
  (Option.some_get _).symm

theorem txStart_capacity : OneCapacity (emptyReport 4 16384 16384) 16384 := ⟨by decide, by decide⟩

/-- A child is written and ends. -/
def writeChild : List (Event ℕ) := .addRule txRule :: writeEvents 0 512 7 false 0

/-- The theorem on a transaction that has no father yet. -/
theorem one_txid_child : ∃ p : TxSys ℕ, p.HasStamped false ∧ p.OneTxid := by
  obtain ⟨p, hrun, h⟩ := exists_run (TxSys.step txConf) (TxSys.InTurn txConf)
    (fun p => decide (p.writes = [⟨0, 0, false⟩] ∧ p.records = [(0, ⟨1, 0, 512, 0, .transactionChild⟩)]))
    (TxSys.start txStart) writeChild (by decide +kernel)
  obtain ⟨hw, hr⟩ := of_decide_eq_true h
  have hstamped : p.HasStamped false :=
    ⟨⟨0, 0, false⟩, by rw [hw]; exact List.mem_cons_self, rfl, _, by rw [hr]; exact List.mem_cons_self⟩
  refine ⟨p, hstamped, (one_txid_iff rfl txStart_capacity txStart_eq hrun).mpr fun h => ?_⟩
  obtain ⟨w, hm, hf, -⟩ := h.2
  rw [hw] at hm
  cases List.mem_singleton.mp hm
  cases hf

/-- The father gets the id 1, its child has 0. -/
theorem txid_differs : ¬ ∀ (o : Options) (report : List BlkZone) (cap : ℕ) (s₀ : Sys ℕ) (p : TxSys ℕ),
    o.natSit = true → OneCapacity report cap → initSys o report = some s₀ →
    Runs (stepRel (TxSys.step (confOf o report))) (TxSys.InTurn (confOf o report))
      (TxSys.start s₀) p → p.OneTxid := by
  intro h
  obtain ⟨p, hrun, hp⟩ := exists_run (TxSys.step txConf) (TxSys.InTurn txConf)
    (fun p => decide (p.writes = [⟨1, 0, true⟩, ⟨0, 0, false⟩] ∧
      p.records = [(1, ⟨2, 1, 0, 0, .transactionFather⟩), (0, ⟨1, 0, 512, 0, .transactionChild⟩)]))
    (TxSys.start txStart) (writeChild ++ [.submitWrite 0 8 true, .runWrite 1 true, .runWrite 1 true])
    (by decide +kernel)
  obtain ⟨hw, hr⟩ := of_decide_eq_true hp
  have hchild : p.Record 0 ⟨1, 0, 512, 0, .transactionChild⟩ :=
    ⟨⟨0, 0, false⟩, by rw [hw]; simp, rfl, by rw [hr]; simp⟩
  have hfather : p.Record 0 ⟨2, 1, 0, 0, .transactionFather⟩ :=
    ⟨⟨1, 0, true⟩, by rw [hw]; simp, rfl, by rw [hr]; simp⟩
  have := (h txOptions _ 16384 txStart p rfl txStart_capacity txStart_eq hrun).shared 0 _ _ hchild
    hfather rfl rfl
  cases this

end Lbz
