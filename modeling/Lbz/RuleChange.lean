import Lbz.FreeQueue
import Lbz.Quiet
import Lbz.Transactions

/-!
# A new nat-sit rule on a live device

* `liveTx s`: the writes of transactions that are on their way; `RuleSys`: a device with the ids that
  have been queued to be freed since the queue was last emptied;
* `TxQuiet s s'`: no write is submitted or ends, and `nat_sit_mgmt` is left alone;
  `after_quiet`: so it is in all events but those of a submission or a completion;
* `liveTx_eq`: which of them are on their way is read off the history;
* `RuleInv`: `nat_sit_inflight_writes` counts them, and the queue has the ids; `ruleInv_addRule_iff`:
  a rule is installed without loss just when there is none of either, since
  `lbz_nat_sit_add_rule` starts both over;
* **`rule_change_exact`**: in every run where rules are installed so, nothing is lost.
-/

namespace Lbz

variable {α : Type}

/-- A write of a transaction that `lbz_nat_sit_complete_write` has not been called for. -/
def Task.InTx (x : Task α) : Prop :=
  (x.type = .txFather ∨ x.type = .txChild) ∧ x.pc ≠ .ended ∧ x.pc ≠ .done

instance : DecidablePred (Task.InTx : Task α → Prop) := fun x => by
  unfold Task.InTx
  infer_instance

/-- The writes of transactions in flight or waiting. -/
def liveTx (s : Sys α) : Finset ℕ :=
  (Finset.range s.tasks.next).filter fun t => s.tasks.At t Task.InTx

/-- The ids that are queued for the records `r`. -/
def queuedBy (c : Conf) (r : List (ℕ × DiskLog)) : List ℕ :=
  r.filterMap fun r =>
    if c.freeSupport ∧ r.2.logType = .transactionChild then some r.2.freeBlkid else none

/-- The device, and the ids that have been queued since `lbz_nat_sit_tx_complete`. -/
structure RuleSys (α : Type) where
  sys : Sys α
  queued : List ℕ

namespace RuleSys

/-- What is written down of `e`, which leads to `s'`. -/
def after (c : Conf) (p : RuleSys α) (s' : Sys α) : Event α → RuleSys α
  | .runWrite t _ => { sys := s', queued := p.queued ++ queuedBy c (TxSys.stampedAt p.sys s' t) }
  | .txComplete => { sys := s', queued := [] }
  | _ => { p with sys := s' }

/-- One step, with what is written down of it. -/
def step [Inhabited α] (c : Conf) (p : RuleSys α) (e : Event α) : Option (RuleSys α) :=
  (Lbz.step c p.sys e).map fun s' => p.after c s' e

/-- Nothing is queued. -/
def start (s : Sys α) : RuleSys α := ⟨s, []⟩

/-- The counter is that of the writes on their way, and the queue has what was queued. -/
structure Exact (p : RuleSys α) : Prop where
  inflight : p.sys.natSit.inflightWrites = (liveTx p.sys).card
  queue : p.sys.natSit.toFree = p.queued

/-- A rule is installed where no write of a transaction is on its way and nothing is queued. -/
def Idle (p : RuleSys α) : Event α → Prop
  | .addRule _ => liveTx p.sys = ∅ ∧ p.queued = []
  | _ => True

instance (p : RuleSys α) : DecidablePred (p.Idle) := by
  rintro (_ | _) <;> dsimp only [Idle] <;> infer_instance

end RuleSys

/-! ## What leaves transactions alone -/

/-- No write is submitted or ends from `s` to `s'`, and `nat_sit_mgmt` is the same. -/
structure TxQuiet (s s' : Sys α) : Prop where
  natSit : s'.natSit = s.natSit
  turns : s'.hist.filter Obs.turns = s.hist.filter Obs.turns

namespace TxQuiet

variable {s s' s'' : Sys α} {c : Conf}

theorem refl : TxQuiet s s := ⟨rfl, rfl⟩

theorem trans (h : TxQuiet s s') (h' : TxQuiet s' s'') : TxQuiet s s'' :=
  ⟨h'.natSit.trans h.natSit, h'.turns.trans h.turns⟩

theorem after (h' : TxQuiet s' s'') (h : TxQuiet s s') : TxQuiet s s'' := h.trans h'

theorem ite {Q : Prop} [Decidable Q] (h : TxQuiet s s') (h' : TxQuiet s s'') :
    TxQuiet s (if Q then s' else s'') := by
  split_ifs
  · exact h
  · exact h'

/-- A change of the other fields. -/
theorem of_eq (h1 : s'.natSit = s.natSit)
    (h2 : s'.hist.filter Obs.turns = s.hist.filter Obs.turns) : TxQuiet s s' := ⟨h1, h2⟩

theorem halt (b : Bug) : TxQuiet s (s.halt b) := of_eq rfl rfl

theorem modTask (t : ℕ) (f : Task α → Task α) : TxQuiet s (s.modTask t f) := of_eq rfl rfl

theorem log (o : Obs α) (ho : o.turns = false) : TxQuiet s (s.log o) :=
  ⟨rfl, List.filter_cons_of_neg (by rw [ho]; nofun)⟩

theorem steady : Steady (TxQuiet : Sys α → Sys α → Prop) where
  refl _ := refl
  trans := trans
  rest h1 _ _ h4 := of_eq h1 h4
  modTask t _ _ := modTask t _
  free _ := of_eq rfl rfl
  alloc _ := of_eq rfl rfl

/-! ### What is not steady in every sense -/

theorem devAppend (t : ℕ) (x : Task α) (p : ℕ) : TxQuiet s (devAppend s t x p) := by
  unfold Lbz.devAppend
  split
  · exact of_eq rfl rfl
  · exact halt _

/-- A task of gc queues no id. -/
theorem issueAppend_gc {t : ℕ} {x : Task α} (hty : x.type = .gc) (z : ℕ) (ty : LogType) :
    TxQuiet s (issueAppend c s t x z ty) := by
  have h : TxQuiet s (addIntegrity c s x ty).1 := by
    unfold addIntegrity
    rw [hty]
    simp only
    split_ifs <;> exact of_eq rfl rfl
  exact (modTask ..).after h

theorem allocGc {g : ℕ} {x : Task α} (hty : x.type = .gc) (i : Fin 2) (sid : Option (Fin 2))
    (integ : Bool) : TxQuiet s (allocGc c s g x i sid integ) := by
  have h := steady.allocBlock (c := c) (s := s) .gc i
  unfold Lbz.allocGc
  split <;> rename_i heq <;> rw [heq] at h
  · refine h.trans (trans (log (.alloc g .gc) rfl) ?_)
    cases integ with
    | true => exact issueAppend_gc hty _ _
    | false => exact steady.dispatchGc_fail _ _ _
  · refine h.trans (ite refl ?_)
    cases sid with
    | some j => exact modTask ..
    | none => exact halt _

theorem wkReset (i : ℕ) (ok : Bool) : TxQuiet s (wkReset c s i ok) := by
  unfold Lbz.wkReset
  split_ifs <;> exact of_eq rfl rfl

end TxQuiet

section

variable {c : Conf} {s s' : Sys α} {e : Event α}

/-- **Writes are submitted and end in four events**, and two more change `nat_sit_mgmt`. -/
theorem after_quiet [Inhabited α] (hr : Ready c s e)
    (hsub : ∀ b d flush more, e ≠ .submitWrite b d flush more)
    (hrun : ∀ t integ, e ≠ .runWrite t integ) (hend : ∀ t, e ≠ .writeEnd t)
    (htx : e ≠ .txComplete) (hrule : ∀ a, e ≠ .addRule a) : TxQuiet s (after c s e) := by
  have H : Steady (TxQuiet : Sys α → Sys α → Prop) := TxQuiet.steady
  by_cases hgc : ∃ g integ, e = .runGc g integ
  · obtain ⟨g, integ, rfl⟩ := hgc
    obtain ⟨x, hx, hty, -⟩ := hr
    refine H.onTask g fun y hy => H.submitGcTask fun i sid => .allocGc ?_ i sid integ
    cases hx.symm.trans hy
    exact hty
  by_cases happ : ∃ t off, e = .devAppend t off
  · obtain ⟨t, off, rfl⟩ := happ
    exact H.onTask t fun x _ => .devAppend ..
  by_cases hreset : ∃ ok i, e = .wkStep ok ∧ s.wk = .reset i
  · obtain ⟨ok, i, rfl, hi⟩ := hreset
    simp only [after, wkStep, hi]
    exact .wkReset i ok
  · exact H.after hsub hrun (fun g integ h => hgc ⟨g, integ, h⟩) (fun t off h => happ ⟨t, off, h⟩)
      hend htx hrule fun ok he i hi => hreset ⟨ok, i, he, hi⟩

/-! ## What ends a write -/

/-- Task `t`, which is `x`, ends to its user. -/
structure TxEnded (s s' : Sys α) (t : ℕ) (x : Task α) : Prop where
  here : s.tasks.get t = some x
  user : x.type ≠ .gc
  live : x.pc ≠ .ended ∧ x.pc ≠ .done
  natSit : s'.natSit = if x.type = .userWrite then s.natSit else s.natSit.completeWrite
  timestamp : s'.timestamp = s.timestamp
  turns : ∃ ok, s'.hist.filter Obs.turns = .endW t ok :: s.hist.filter Obs.turns

/-- If task `t` gets a record, then the id it has to be freed is queued. -/
structure TxStamped (c : Conf) (s s' : Sys α) (t : ℕ) : Prop where
  natSit : s'.natSit = { s.natSit with
    toFree := s.natSit.toFree ++ queuedBy c (TxSys.stampedAt s s' t) }
  turns : s'.hist.filter Obs.turns = s.hist.filter Obs.turns

variable {s₁ : Sys α} {t : ℕ} {x : Task α}

/-- No record is made. -/
theorem TxStamped.of_quiet (h : TxQuiet s s') (ht : s'.timestamp = s.timestamp) :
    TxStamped c s s' t := by
  refine ⟨?_, h.turns⟩
  have hq : queuedBy c (TxSys.stampedAt s s' t) = [] := by rw [TxSys.stampedAt, if_pos ht]; rfl
  rw [h.natSit, hq, List.append_nil]

theorem TxStamped.after (h : TxQuiet s s₁) (ht : s₁.timestamp = s.timestamp)
    (h' : TxStamped c s₁ s' t) : TxStamped c s s' t := by
  have hs : TxSys.stampedAt s s' t = TxSys.stampedAt s₁ s' t := by
    rw [TxSys.stampedAt, TxSys.stampedAt, ht]
  refine ⟨?_, h'.turns.trans h.turns⟩
  rw [hs, ← h.natSit]
  exact h'.natSit

theorem TxEnded.after (h' : TxEnded s₁ s' t x) (h : TxQuiet s s₁)
    (ht : s₁.timestamp = s.timestamp) (hx : s.tasks.get t = some x) : TxEnded s s' t x := by
  obtain ⟨ok, hok⟩ := h'.turns
  exact ⟨hx, h'.user, h'.live, by rw [← h.natSit]; exact h'.natSit, h'.timestamp.trans ht,
    ok, by rw [hok, h.turns]⟩

/-- The id that `__add_integrity` queues is that of its record. -/
theorem addIntegrity_queues (s : Sys α) (x : Task α) :
    (addIntegrity c s x .userWrite).1.natSit = { s.natSit with
      toFree := s.natSit.toFree ++ queuedBy c [(t, (addIntegrity c s x .userWrite).2)] } ∧
    (addIntegrity c s x .userWrite).1.hist = s.hist ∧
    (addIntegrity c s x .userWrite).1.tasks = s.tasks ∧
    (addIntegrity c s x .userWrite).1.timestamp = s.timestamp + 1 := by
  unfold addIntegrity
  by_cases hn : c.natSit = true
  · rw [if_neg (by rw [hn]; nofun)]
    cases x.type with
    | userWrite | gc | txFather =>
      refine ⟨?_, rfl, rfl, rfl⟩
      simp [queuedBy]
    | txChild =>
      by_cases hfree : c.freeSupport = true
      · simp [hfree, queuedBy, NatSit.addBlkid]
      · simp [hfree, queuedBy]
  · rw [if_pos (by simpa using hn)]
    refine ⟨?_, rfl, rfl, rfl⟩
    simp [queuedBy]

theorem issueAppend_queues {y : Task α} (hy : s.tasks.get t = some y) (x : Task α) (z : ℕ) :
    TxStamped c s (issueAppend c s t x z .userWrite) t := by
  obtain ⟨h1, h2, h3, h4⟩ := addIntegrity_queues (c := c) (t := t) s x
  have hat : TxSys.stampedAt s (issueAppend c s t x z .userWrite) t =
      [(t, (addIntegrity c s x .userWrite).2)] := by
    have hts : (issueAppend c s t x z .userWrite).timestamp ≠ s.timestamp := by
      change (addIntegrity c s x .userWrite).1.timestamp ≠ _
      rw [h4]
      exact Nat.succ_ne_self _
    have hget : (issueAppend c s t x z .userWrite).tasks.get t = some { y with
        zone := some z, status := .dispatch, pc := .device,
        integ := .buf (addIntegrity c s x .userWrite).2 } := by
      change ((addIntegrity c s x .userWrite).1.tasks.modify t _).get t = _
      rw [h3, Heap.get_modify_self hy]
      rfl
    rw [TxSys.stampedAt, if_neg hts, hget]
    rfl
  refine ⟨?_, congrArg _ h2⟩
  rw [hat]
  exact h1

theorem writeAllocFailed_turns (hx : s.tasks.get t = some x) (hty : x.type ≠ .gc)
    (hpc : x.pc ≠ .ended ∧ x.pc ≠ .done) (ret : AllocRet) :
    TxStamped c s (writeAllocFailed c s t x ret) t ∨ TxEnded s (writeAllocFailed c s t x ret) t x := by
  by_cases h : ret = .eio
  · refine Or.inr ?_
    simp only [writeAllocFailed, h, ne_eq, not_true_eq_false, if_false]
    have hq := fun s' : Sys α => TxQuiet.steady.taskPut (c := c) (s := s') t
    have hst := fun s' : Sys α => Still.taskPut (c := c) (s := s') watched_none t
    exact ⟨hx, hty, hpc, (hq _).natSit, (hst _).timestamp, false, (hq _).turns⟩
  · refine Or.inl (.of_quiet ?_ ?_) <;>
      simp only [writeAllocFailed, ne_eq, h, not_false_eq_true, if_true]
    · exact .of_eq rfl rfl
    · rfl

theorem allocWrite_turns (hx : s.tasks.get t = some x) (hty : x.type ≠ .gc)
    (hpc : x.pc ≠ .ended ∧ x.pc ≠ .done) (i : Fin 2) (sid : Option (Fin 2)) (integ : Bool) :
    TxStamped c s (allocWrite c s t x i sid integ) t ∨
      TxEnded s (allocWrite c s t x i sid integ) t x := by
  unfold allocWrite
  simp only
  generalize (if x.link = .null then AllocFlag.user else .gc) = flag
  have hq := TxQuiet.steady.allocBlock (c := c) (s := s) flag i
  have hts := (Still.allocBlock (c := c) (s := s) (P := fun _ => False) nofun flag i).timestamp
  have hx₁ : (allocBlock c s flag i).1.tasks.get t = some x := by rw [allocBlock_tasks, hx]
  split
  · rename_i s₁ z heq
    rw [heq] at hq hts hx₁
    have hlog : TxQuiet s (s₁.log (.alloc t flag)) := hq.trans (.log _ rfl)
    refine Or.inl (.after hlog hts ?_)
    unfold dispatchWrite
    cases integ with
    | false =>
      simp only [Bool.false_eq_true, if_false]
      split_ifs <;> exact .of_quiet (.of_eq rfl rfl) rfl
    | true =>
      simp only [if_true]
      refine .after ?_ ?_ (issueAppend_queues (y := x) ?_ x z) <;> split_ifs <;>
        first | exact hx₁ | exact .of_eq rfl rfl | rfl
  · rename_i s₁ ret hne heq
    rw [heq] at hq hts hx₁
    have h : TxStamped c s₁ (writeNoBlock c s₁ t x sid ret) t ∨
        TxEnded s₁ (writeNoBlock c s₁ t x sid ret) t x := by
      unfold writeNoBlock
      split_ifs
      · exact Or.inl (.of_quiet .refl rfl)
      · cases sid with
        | some j => exact Or.inl (.of_quiet (.modTask ..) rfl)
        | none => exact writeAllocFailed_turns hx₁ hty hpc ret
    exact h.imp (fun h => h.after hq hts) fun h => h.after hq hts hx

theorem submitWriteTask_turns (hx : s.tasks.get t = some x) (hty : x.type ≠ .gc)
    (hpc : x.pc = .submit ∨ ∃ j, x.pc = .fallback j) (integ : Bool) :
    TxStamped c s (submitWriteTask c s t x integ) t ∨
      TxEnded s (submitWriteTask c s t x integ) t x := by
  have hlive : x.pc ≠ .ended ∧ x.pc ≠ .done := by
    rcases hpc with h | ⟨j, h⟩ <;> rw [h] <;> exact ⟨nofun, nofun⟩
  rcases hpc with hpc | ⟨j, hpc⟩ <;> simp only [submitWriteTask, hpc]
  · split_ifs
    · exact Or.inl (.of_quiet (TxQuiet.steady.insertWrite ..)
        (Still.insertWrite (P := fun _ => False) t x).timestamp)
    · exact allocWrite_turns hx hty hlive ..
    · exact allocWrite_turns hx hty hlive ..
  · exact allocWrite_turns hx hty hlive ..

theorem writeIoEndio_ends (hx : s.tasks.get t = some x) (hty : x.type ≠ .gc)
    (hpc : x.pc ≠ .ended ∧ x.pc ≠ .done) : TxEnded s (writeIoEndio c s t x) t x := by
  unfold writeIoEndio
  split
  rename_i s' ok heq
  split at heq <;> cases heq
  · exact ⟨hx, hty, hpc, rfl, rfl, true, rfl⟩
  · exact ⟨hx, hty, hpc, rfl, rfl, false, rfl⟩

/-- The queue is emptied, and the counter stays. -/
theorem natSitTxComplete_turns (s : Sys α) :
    (natSitTxComplete c s).natSit.toFree = [] ∧
    (natSitTxComplete c s).natSit.inflightWrites = s.natSit.inflightWrites ∧
    (natSitTxComplete c s).hist = s.hist := by
  have h : ∀ (l : List ℕ) (s : Sys α),
      (l.foldl (freeBlkid c) s).natSit.inflightWrites = s.natSit.inflightWrites ∧
      (l.foldl (freeBlkid c) s).hist = s.hist := by
    intro l
    induction l with
    | nil => exact fun s => ⟨rfl, rfl⟩
    | cons b l ih =>
      intro s
      have hb : (freeBlkid c s b).natSit.inflightWrites = s.natSit.inflightWrites ∧
          (freeBlkid c s b).hist = s.hist := by
        unfold freeBlkid
        split_ifs
        · exact ⟨rfl, rfl⟩
        · exact ⟨rfl, rfl⟩
        · split <;> exact ⟨rfl, rfl⟩
      exact ⟨(ih _).1.trans hb.1, (ih _).2.trans hb.2⟩
  exact ⟨rfl, h _ s⟩

/-! ## Which writes are on their way -/

theorem EndedStory.ends {b : ℕ} {d : α} {more : List α} {l : List (Obs α)}
    (h : EndedStory t b d more l) :
    ∃ ok, .endW t ok ∈ l := by
  obtain ⟨flag, ⟨p, rfl⟩ | rfl⟩ := h <;> exact ⟨_, List.mem_cons_self⟩

/-- A user task has ended exactly if its history says so. -/
theorem Stories.ended_iff {k : Core α} (a : Stories k) (hx : k.tasks.get t = some x)
    (hs : x.Shape) (hty : x.type ≠ .gc) :
    (x.pc = .ended ∨ x.pc = .done) ↔ ∃ ok, .endW t ok ∈ k.hist := by
  have ht : userTold t x.blkid x.data x.more x.status x.pc (story t k.hist) :=
    (Task.told_user hty).mp (a.live t x hx)
  have hmem : (∃ ok, .endW t ok ∈ k.hist) ↔ ∃ ok, .endW t ok ∈ story t k.hist :=
    exists_congr fun ok => mem_story rfl
  rw [hmem]
  generalize story t k.hist = l at ht
  have hphase := (hs.user hty).1
  unfold userTold at ht
  constructor
  · intro hpc
    have hst : x.status ≠ .init := by rcases hpc with h | h <;> cases hphase <;> simp_all
    split at ht
    · rename_i h
      exact absurd h hst
    · split_ifs at ht with hd
      · exact ⟨false, by rw [ht]; exact List.mem_cons_self⟩
      · exfalso
        cases hphase <;> simp_all
    · split_ifs at ht with hd he
      · obtain ⟨l', h, rfl⟩ := ht
        obtain ⟨ok, ho⟩ := h.ends
        exact ⟨ok, List.mem_cons_of_mem _ ho⟩
      · exact ht.ends
      · exact absurd (hpc.resolve_right hd) he
  · rintro ⟨ok, ho⟩
    split at ht
    · rw [ht] at ho
      simp at ho
    · split_ifs at ht with hd
      · exact Or.inr hd
      · rw [ht] at ho
        simp at ho
    · split_ifs at ht with hd he
      · exact Or.inr hd
      · exact Or.inl he
      · obtain ⟨flag, rfl⟩ := ht
        simp [wroteStory] at ho

/-- A write that has been destroyed has ended. -/
theorem Over.ends {b : ℕ} {d : α} {more : List α} {l : List (Obs α)} (h : Over t l)
    (hs : .submitW t b d more ∈ l) : ∃ ok, .endW t ok ∈ l := by
  cases h with
  | write h =>
    obtain ⟨ok, ho⟩ := h.ends
    exact ⟨ok, List.mem_cons_of_mem _ ho⟩
  | refused => exact ⟨false, List.mem_cons_self⟩
  | moved => simp [movedStory, enteredStory] at hs
  | skipped | handed | unread => simp [calledStory, enteredStory] at hs

theorem mem_liveTx : t ∈ liveTx s ↔ ∃ x, s.tasks.get t = some x ∧ x.InTx := by
  rw [liveTx, Finset.mem_filter, Finset.mem_range]
  exact ⟨fun h => h.2, fun ⟨x, hx, h⟩ => ⟨Heap.lt_next_of_get hx, x, hx, h⟩⟩

theorem Task.InTx.user (h : x.InTx) : x.type ≠ .gc := by
  rcases h.1 with h | h <;> rw [h] <;> nofun

/-- Which writes are on their way is read off their types and the history. -/
theorem mem_liveTx_iff (hB : Base c s.core) (a : Stories s.core) : t ∈ liveTx s ↔
    ∃ x, s.tasks.get t = some x ∧ (x.type = .txFather ∨ x.type = .txChild) ∧
      ∀ ok, .endW t ok ∉ s.hist := by
  rw [mem_liveTx]
  refine exists_congr fun x => and_congr_right fun hx => and_congr_right fun hty => ?_
  have hgc : x.type ≠ .gc := by rcases hty with h | h <;> rw [h] <;> nofun
  rw [← not_or, a.ended_iff hx (hB.tasks.shape t x hx) hgc, not_exists]
  rfl

/-- **Between two states** the writes that have ended are no longer on their way, if none is
submitted. -/
theorem mem_liveTx_step (hB : Base c s.core) (a : Stories s.core) (hB' : Base c s'.core)
    (a' : Stories s'.core) (hT : TypesFrom s.tasks s'.core) {l : List (Obs α)}
    (hl : ∀ o ∈ l, ∃ t ok, o = .endW t ok)
    (hm : s'.hist.filter Obs.turns = l ++ s.hist.filter Obs.turns) :
    t ∈ liveTx s' ↔ t ∈ liveTx s ∧ ∀ ok, .endW t ok ∉ l := by
  have hend : ∀ ok, .endW t ok ∈ s'.hist ↔ .endW t ok ∈ l ∨ .endW t ok ∈ s.hist := fun ok => by
    rw [mem_turns rfl, hm, List.mem_append, (mem_turns rfl : .endW t ok ∈ s.hist ↔ _)]
  have hsub : ∀ b d more, .submitW t b d more ∈ s'.hist ↔ .submitW t b d more ∈ s.hist :=
      fun b d more => by
    rw [mem_turns rfl, hm, List.mem_append, (mem_turns rfl : .submitW t b d more ∈ s.hist ↔ _)]
    refine or_iff_right fun h => ?_
    obtain ⟨t', ok, ho⟩ := hl _ h
    cases ho
  rw [mem_liveTx_iff hB a, mem_liveTx_iff hB' a']
  constructor
  · rintro ⟨y, hy, hty, hno⟩
    have hgc : y.type ≠ .gc := by rcases hty with h | h <;> rw [h] <;> nofun
    have hlt : t < s.tasks.next := by
      by_contra hn
      exact a.not_mem_new (not_lt.mp hn) rfl ((hsub _ _ _).mp (a'.submitted hy hgc))
    obtain ⟨x, hx, he⟩ := hT.type t y hy hlt
    refine ⟨⟨x, hx, by rw [he]; exact hty, fun ok h => hno ok ((hend ok).mpr (Or.inr h))⟩,
      fun ok h => hno ok ((hend ok).mpr (Or.inl h))⟩
  · rintro ⟨⟨x, hx, hty, hno⟩, hnl⟩
    have hgc : x.type ≠ .gc := by rcases hty with h | h <;> rw [h] <;> nofun
    have hno' : ∀ ok, .endW t ok ∉ s'.hist := fun ok h => ((hend ok).mp h).elim (hnl ok) (hno ok)
    have hlt : t < s.tasks.next := Heap.lt_next_of_get hx
    cases hy : s'.tasks.get t with
    | none =>
      -- it would have ended before it was destroyed
      have hin : .submitW t x.blkid x.data x.more ∈ s'.hist := (hsub _ _ _).mpr (a.submitted hx hgc)
      obtain ⟨ok, ho⟩ := (a'.gone t (hlt.trans_le hT.next) hy).ends ((mem_story rfl).mp hin)
      exact absurd ((mem_story rfl).mpr ho) (hno' ok)
    | some y =>
      obtain ⟨x', hx', he⟩ := hT.type t y hy hlt
      cases hx.symm.trans hx'
      exact ⟨y, rfl, by rw [← he]; exact hty, hno'⟩

theorem liveTx_quiet (hB : Base c s.core) (a : Stories s.core) (hB' : Base c s'.core)
    (a' : Stories s'.core) (hT : TypesFrom s.tasks s'.core)
    (hm : s'.hist.filter Obs.turns = s.hist.filter Obs.turns) : liveTx s' = liveTx s := by
  ext t
  rw [mem_liveTx_step hB a hB' a' hT (l := []) nofun hm]
  exact and_iff_left fun _ => nofun

/-- The write that ends is no longer on its way. -/
theorem TxEnded.liveTx (h : TxEnded s s' t x) (hB : Base c s.core) (a : Stories s.core)
    (hB' : Base c s'.core) (a' : Stories s'.core) (hT : TypesFrom s.tasks s'.core) :
    liveTx s' = (liveTx s).erase t := by
  obtain ⟨ok, hok⟩ := h.turns
  ext i
  rw [mem_liveTx_step hB a hB' a' hT (l := [.endW t ok])
    (fun o ho => ⟨t, ok, List.mem_singleton.mp ho⟩) hok, Finset.mem_erase, and_comm]
  refine and_congr_left fun _ => ⟨fun hn he => ?_, fun hn ok' ho => ?_⟩
  · exact hn ok (by rw [he]; exact List.mem_singleton_self _)
  · cases List.mem_singleton.mp ho
    exact hn rfl

theorem TxEnded.mem_iff (h : TxEnded s s' t x) : t ∈ Lbz.liveTx s ↔ x.type ≠ .userWrite := by
  rw [mem_liveTx]
  constructor
  · rintro ⟨y, hy, hty, -⟩
    cases h.here.symm.trans hy
    rcases hty with h | h <;> rw [h] <;> nofun
  · intro hne
    refine ⟨x, h.here, ?_, h.live⟩
    have hgc := h.user
    cases hty : x.type with
    | txFather => exact Or.inl rfl
    | txChild => exact Or.inr rfl
    | userWrite => exact absurd hty hne
    | gc => exact absurd hty hgc

/-- The counter goes down with the write that ends. -/
theorem TxEnded.count (h : TxEnded s s' t x) (hB : Base c s.core) (a : Stories s.core)
    (hB' : Base c s'.core) (a' : Stories s'.core) (hT : TypesFrom s.tasks s'.core)
    (hc : s.natSit.inflightWrites = (Lbz.liveTx s).card) :
    s'.natSit.inflightWrites = (Lbz.liveTx s').card := by
  rw [h.liveTx hB a hB' a' hT, h.natSit]
  by_cases hty : x.type = .userWrite
  · rw [if_pos hty, hc, Finset.erase_eq_of_notMem fun hm => h.mem_iff.mp hm hty]
  · have hm := h.mem_iff.mpr hty
    have hpos : 0 < (Lbz.liveTx s).card := Finset.card_pos.mpr ⟨t, hm⟩
    rw [if_neg hty, Finset.card_erase_of_mem hm]
    change s.natSit.inflightWrites - 1 = _
    rw [hc]
    omega

theorem classify_cases (c : Conf) (n : NatSit) (b : ℕ) (flush : Bool) :
    classify c n b flush = .userWrite ∨ classify c n b flush = .txFather ∨
      classify c n b flush = .txChild := by
  unfold classify
  split_ifs <;> simp

/-- The counter goes up with the write that is submitted. -/
theorem submitWrite_count (b : ℕ) (d : α) (flush : Bool) (more : List α)
    (hc : s.natSit.inflightWrites = (liveTx s).card) :
    (submitWrite c s b d flush more).natSit.inflightWrites =
      (liveTx (submitWrite c s b d flush more)).card := by
  have hnew : s.tasks.next ∉ liveTx s := fun h => by
    obtain ⟨x, hx, -⟩ := mem_liveTx.mp h
    exact lt_irrefl _ (Heap.lt_next_of_get hx)
  have hother : ∀ t ≠ s.tasks.next, t ∈ liveTx (submitWrite c s b d flush more) ↔ t ∈ liveTx s := by
    intro t ht
    rw [mem_liveTx, mem_liveTx]
    refine exists_congr fun x => and_congr_left fun _ => ?_
    change (s.tasks.alloc _).get t = some x ↔ _
    rw [Heap.get_alloc, if_neg ht]
  have hself : s.tasks.next ∈ liveTx (submitWrite c s b d flush more) ↔
      classify c s.natSit b flush ≠ .userWrite := by
    rw [mem_liveTx]
    change (∃ x, (s.tasks.alloc
      (Task.forWrite (classify c s.natSit b flush) b d more)).get _ = some x ∧ _) ↔ _
    rw [Heap.get_alloc, if_pos rfl]
    rcases classify_cases c s.natSit b flush with h | h | h <;> rw [h] <;>
      simp [Task.InTx, Task.forWrite]
  by_cases hty : classify c s.natSit b flush = .userWrite
  · have hlive : liveTx (submitWrite c s b d flush more) = liveTx s := by
      ext t
      by_cases ht : t = s.tasks.next
      · rw [ht, hself, iff_false_right hnew]
        exact not_not_intro hty
      · exact hother t ht
    rw [hlive, ← hc]
    simp [submitWrite, hty, Sys.log]
  · have hlive : liveTx (submitWrite c s b d flush more) = insert s.tasks.next (liveTx s) := by
      ext t
      rw [Finset.mem_insert]
      by_cases ht : t = s.tasks.next
      · rw [ht, hself]
        exact iff_of_true hty (Or.inl rfl)
      · rw [hother t ht, or_iff_right ht]
    rw [hlive, Finset.card_insert_of_notMem hnew]
    simp [submitWrite, hty, Sys.log, NatSit.addWrite, hc]

/-! ## Every run -/

/-- The counter and the queue are exact as long as the kernel runs. -/
structure RuleInv (c : Conf) (p : RuleSys α) : Prop where
  kept : Kept c Stories p.sys
  exact : p.sys.bug = none → p.Exact

variable {p p' : RuleSys α}

theorem RuleSys.after_sys (s' : Sys α) (e : Event α) : (p.after c s' e).sys = s' := by
  cases e <;> rfl

theorem RuleSys.after_queued (hrun : ∀ t integ, e ≠ .runWrite t integ) (htx : e ≠ .txComplete)
    (s' : Sys α) : (p.after c s' e).queued = p.queued := by
  cases e with
  | runWrite t integ => exact absurd rfl (hrun t integ)
  | txComplete => exact absurd rfl htx
  | _ => rfl

/-- **A rule is installed without a loss** just when there is nothing to lose. -/
theorem ruleInv_addRule_iff {r : NatSitArgs}
    (hr : ¬ (r.sitBlkaddr % 512 ≠ 0 ∨ r.natBlkaddr % 512 ≠ 0)) :
    (p.after c (installRule p.sys r) (.addRule r)).Exact ↔ p.Idle (.addRule r) := by
  have he : installRule p.sys r = { p.sys with natSit := NatSit.addRule r } := by
    rw [installRule, if_neg hr]
  rw [he]
  constructor
  · intro h
    have hcount : (0 : ℤ) = ((liveTx p.sys).card : ℕ) := h.inflight
    exact ⟨Finset.card_eq_zero.mp (by exact_mod_cast hcount.symm), h.queue.symm⟩
  · rintro ⟨hl, hq⟩
    refine ⟨?_, hq.symm⟩
    change (0 : ℤ) = ((liveTx p.sys).card : ℕ)
    rw [hl]
    rfl

/-- **Every step keeps the counter and the queue.** -/
theorem RuleInv.step [Inhabited α] (hN : 0 < c.zoneNrBlocks) (a : RuleInv c p) (hok : p.Idle e)
    (hs : p.step c e = some p') : RuleInv c p' := by
  obtain ⟨s', hs', rfl⟩ := Option.map_eq_some_iff.mp hs
  have hkept := Kept.step hN (fun k l k' B a hm => Stories.move B.tasks B.queues a hm) hs' a.kept
  have hstep := hs'
  rw [Lbz.step] at hstep
  split_ifs at hstep with h
  obtain ⟨hb, hready⟩ := h
  cases hstep
  refine ⟨by rw [RuleSys.after_sys]; exact hkept, fun hb' => ?_⟩
  rw [RuleSys.after_sys] at hb'
  obtain ⟨hc, hq⟩ := a.exact hb
  obtain ⟨k, ⟨hB, hS⟩, -, hk⟩ := a.kept
  cases hk hb
  obtain ⟨k, ⟨hB', hS'⟩, -, hk⟩ := hkept
  cases hk hb'
  obtain ⟨k, ⟨-, hT⟩, -, hk⟩ := Kept.step (I := TypesFrom p.sys.tasks) hN
    (fun k l k' _ a hm => a.move hm) hs' ⟨p.sys.core, ⟨hB, TypesFrom.refl p.sys.core⟩, rfl, fun _ => rfl⟩
  cases hk hb'
  by_cases hsub : ∃ b d flush more, e = .submitWrite b d flush more
  · obtain ⟨b, d, flush, more, rfl⟩ := hsub
    refine ⟨submitWrite_count b d flush more hc, ?_⟩
    change (if _ then p.sys.natSit else p.sys.natSit.addWrite).toFree = p.queued
    split_ifs <;> exact hq
  by_cases hrun : ∃ t integ, e = .runWrite t integ
  · obtain ⟨t, integ, rfl⟩ := hrun
    obtain ⟨x, hx, hty, hpc⟩ := hready
    have hpc' : x.pc = .submit ∨ ∃ j, x.pc = .fallback j := by
      split at hpc
      · next h => exact Or.inl h
      · next j h => exact Or.inr ⟨j, h⟩
      · cases hpc
    have he : after c p.sys (.runWrite t integ) = submitWriteTask c p.sys t x integ := by
      simp only [after, onTask, hx]
    have h := submitWriteTask_turns (c := c) hx hty hpc' integ
    rw [← he] at h
    rcases h with h | h
    · refine ⟨?_, ?_⟩
      · change (after c p.sys _).natSit.inflightWrites = ((liveTx (after c p.sys _)).card : ℕ)
        rw [liveTx_quiet hB hS hB' hS' hT h.turns, h.natSit]
        exact hc
      · change (after c p.sys _).natSit.toFree = p.queued ++ _
        rw [h.natSit, ← hq]
    · refine ⟨h.count hB hS hB' hS' hT hc, ?_⟩
      change (after c p.sys _).natSit.toFree = p.queued ++ queuedBy c (TxSys.stampedAt p.sys _ t)
      have hnone : queuedBy c (TxSys.stampedAt p.sys (after c p.sys (.runWrite t integ)) t) = [] := by
        rw [TxSys.stampedAt, if_pos h.timestamp]
        rfl
      rw [hnone, List.append_nil, ← hq, h.natSit]
      split_ifs <;> rfl
  by_cases hend : ∃ t, e = .writeEnd t
  · obtain ⟨t, rfl⟩ := hend
    obtain ⟨x, hx, hty, hpc⟩ := hready
    have he : after c p.sys (.writeEnd t) = writeIoEndio c p.sys t x := by
      simp only [after, onTask, hx]
    have h := writeIoEndio_ends (c := c) hx hty (by split at hpc <;> simp_all)
    rw [← he] at h
    refine ⟨h.count hB hS hB' hS' hT hc, ?_⟩
    change (after c p.sys _).natSit.toFree = p.queued
    rw [← hq, h.natSit]
    split_ifs <;> rfl
  by_cases htx : e = .txComplete
  · subst htx
    obtain ⟨h1, h2, h3⟩ := natSitTxComplete_turns (c := c) p.sys
    refine ⟨?_, h1⟩
    refine (h2.trans hc).trans ?_
    exact congrArg (fun l => (l.card : ℤ)) (liveTx_quiet hB hS hB' hS' hT (congrArg _ h3)).symm
  by_cases hrule : ∃ r, e = .addRule r
  · obtain ⟨r, rfl⟩ := hrule
    refine (ruleInv_addRule_iff fun hr => ?_).mpr hok
    have : (installRule p.sys r).bug = none := hb'
    rw [installRule, if_pos hr] at this
    cases this
  · push Not at hsub hrun hend hrule
    have h : TxQuiet p.sys (after c p.sys e) := after_quiet hready hsub hrun hend htx hrule
    refine ⟨?_, ?_⟩
    · rw [RuleSys.after_sys, liveTx_quiet hB hS hB' hS' hT h.turns, h.natSit]
      exact hc
    · rw [RuleSys.after_sys, RuleSys.after_queued hrun htx, h.natSit]
      exact hq

theorem RuleInv.start {s : Sys α} (hk : Kept c Stories s) (ht : s.tasks = Heap.empty)
    (hn : s.natSit = .initial) : RuleInv c (RuleSys.start s) := by
  have hl : liveTx s = ∅ := by
    rw [liveTx, ht]
    rfl
  refine ⟨hk, fun _ => ⟨?_, congrArg NatSit.toFree hn⟩⟩
  change s.natSit.inflightWrites = ((liveTx s).card : ℕ)
  rw [hl, hn]
  rfl

/-- **Nothing is lost when rules are installed**, in every run that installs them where no write of a
transaction is on its way and nothing is queued. -/
theorem rule_change_exact [Inhabited α] {o : Options} {report : List BlkZone} {cap : ℕ} {s₀ : Sys α}
    {p : RuleSys α} (hu : OneCapacity report cap) (h0 : initSys o report = some s₀)
    (hrun : Runs (stepRel (RuleSys.step (confOf o report))) RuleSys.Idle (RuleSys.start s₀) p)
    (hb : p.sys.bug = none) : p.Exact := by
  obtain ⟨hN, hB⟩ := base_of_capacity hu h0
  obtain ⟨-, m, -, rfl⟩ := initSys_eq h0
  have hstart : RuleInv (confOf o report) (RuleSys.start (freshSys m : Sys α)) :=
    .start ⟨_, ⟨hB, StoryInv.empty⟩, rfl, fun _ => rfl⟩ rfl rfl
  exact (Runs.inv (I := RuleInv (confOf o report)) (fun p e p' a hok hs => a.step hN hok hs)
    hrun hstart).exact hb

end

/-- The theorem on a rule that is installed, a write of a transaction, and a second rule after
`lbz_nat_sit_tx_complete`. -/
theorem rule_change_exact_idle : ∃ p : RuleSys ℕ, p.sys.natSit.totalFreedBlks = 0 ∧ p.Exact := by
  obtain ⟨p, hrun, h⟩ := exists_run (RuleSys.step txConf) RuleSys.Idle
    (fun p => decide (p.sys.natSit.totalFreedBlks = 0 ∧ p.sys.bug = none)) (RuleSys.start txStart)
    (writeChild ++ [.txComplete, .addRule txRule]) (by decide +kernel)
  obtain ⟨h1, h2⟩ := of_decide_eq_true h
  exact ⟨p, h1, rule_change_exact txStart_capacity txStart_eq hrun h2⟩

/-- A rule is installed while a child is at the device: the counter falls to -1 when it ends, and the
id it had queued is gone. -/
theorem rule_change_loses : ¬ ∀ (o : Options) (report : List BlkZone) (cap : ℕ) (s₀ : Sys ℕ)
    (p : RuleSys ℕ), OneCapacity report cap → initSys o report = some s₀ →
    Runs (stepRel (RuleSys.step (confOf o report))) (fun _ _ => True) (RuleSys.start s₀) p →
    p.sys.bug = none → 0 ≤ p.sys.natSit.inflightWrites ∧ p.Exact := by
  intro h
  obtain ⟨p, hrun, hp⟩ := exists_run (RuleSys.step txConf) (fun _ _ => True)
    (fun p => decide (p.sys.bug = none ∧ p.sys.natSit.inflightWrites = -1 ∧
      p.sys.natSit.toFree = [] ∧ p.queued = [0]))
    (RuleSys.start txStart) [.addRule txRule, .submitWrite 512 7 false, .runWrite 0 true,
      .runWrite 0 true, .addRule txRule, .devAppend 0 0, .writeEnd 0] (by decide +kernel)
  obtain ⟨hb, hn, -⟩ := of_decide_eq_true hp
  have := (h txOptions _ 16384 txStart p txStart_capacity txStart_eq hrun hb).1
  rw [hn] at this
  exact absurd this (by decide)

end Lbz
