import Lbz.Faults

/-!
# What every step leaves alone

* `Still P s s'`: no write is submitted or gets a block, unless the device becomes faulty, and what
  `Leaves` says; **`after_still`**: so it is in every event but those of a submission;
* `Leaves P s s'`: no write leaves `lbz_user_pending`, a faulty device stays faulty, and no place of
  `P` is reached where the kernel stops;
* `GcFails c s e`: in `e`, `__submit_gc_task` returns an error that its caller has no case for;
* **`step_leaves`**: every event leaves that alone, but for a new pass of the retry worker and such a
  failure, which reaches the `BUG()`;
* `step_resets`, `step_remaps`: where the panic of a reset and the `BUG_ON` of a gc callback come from.
-/

namespace Lbz

variable {α : Type}

/-- A write is submitted, gets a block, or fails. -/
def Obs.marks : Obs α → Bool
  | .submitW _ _ _ _ | .alloc _ _ | .endW _ false => true
  | _ => false

/-- What does not change from `s` to `s'` where no write is submitted or gets a block, unless the
device is faulty then. -/
structure Still (P : Bug → Prop) (s s' : Sys α) : Prop where
  pending : s.userPending <+: s'.userPending
  faulty : s.faulty = true → s'.faulty = true
  txid : s'.transactionId = s.transactionId
  timestamp : s'.timestamp = s.timestamp
  marks : s'.faulty = true ∨ s'.hist.filter Obs.marks = s.hist.filter Obs.marks
  bug : ∀ b, P b → s'.bug = some b → s.bug = some b

/-- What does not change from `s` to `s'`. -/
structure Leaves (P : Bug → Prop) (s s' : Sys α) : Prop where
  pending : s.userPending <+: s'.userPending
  faulty : s.faulty = true → s'.faulty = true
  bug : ∀ b, P b → s'.bug = some b → s.bug = some b

/-- `P` is about the places that the claims of the driver are about. -/
structure Watched (P : Bug → Prop) : Prop where
  wild : ¬ P .wild
  ruleAlign : ¬ P .ruleAlign
  blkidRange : ¬ P .blkidRange

namespace Still

variable {s s' s'' : Sys α} {c : Conf} {P : Bug → Prop}

theorem refl : Still P s s := ⟨List.prefix_rfl, id, rfl, rfl, Or.inr rfl, fun _ _ => id⟩

theorem trans (h : Still P s s') (h' : Still P s' s'') : Still P s s'' :=
  ⟨h.pending.trans h'.pending, fun hf => h'.faulty (h.faulty hf), h'.txid.trans h.txid,
    h'.timestamp.trans h.timestamp, h'.marks.elim Or.inl fun he => h.marks.imp h'.faulty he.trans,
    fun b hp hb => h.bug b hp (h'.bug b hp hb)⟩

theorem after (h' : Still P s' s'') (h : Still P s s') : Still P s s'' := h.trans h'

theorem halt {b : Bug} (hb : ¬ P b) : Still P s (s.halt b) :=
  ⟨List.prefix_rfl, id, rfl, rfl, Or.inr rfl, fun _ hp h => absurd hp (Option.some.inj h ▸ hb)⟩

theorem ite {Q : Prop} [Decidable Q] (h : Still P s s') (h' : Still P s s'') :
    Still P s (if Q then s' else s'') := by
  split_ifs
  · exact h
  · exact h'

/-- A change of the other fields. -/
theorem of_eq (h1 : s'.userPending = s.userPending) (h2 : s'.faulty = s.faulty)
    (h3 : s'.transactionId = s.transactionId) (h4 : s'.timestamp = s.timestamp)
    (h5 : s'.hist.filter Obs.marks = s.hist.filter Obs.marks) (h6 : s'.bug = s.bug) : Still P s s' :=
  ⟨h1 ▸ List.prefix_rfl, fun h => h2.trans h, h3, h4, Or.inr h5, fun _ _ h => h6.symm.trans h⟩

/-- The device becomes faulty. -/
theorem of_faulty (h1 : s'.userPending = s.userPending) (h2 : s'.faulty = true)
    (h3 : s'.transactionId = s.transactionId) (h4 : s'.timestamp = s.timestamp)
    (h5 : s'.bug = s.bug) : Still P s s' :=
  ⟨h1 ▸ List.prefix_rfl, fun _ => h2, h3, h4, Or.inl h2, fun _ _ h => h5.symm.trans h⟩

theorem modTask (t : ℕ) (f : Task α → Task α) : Still P s (s.modTask t f) :=
  of_eq rfl rfl rfl rfl rfl rfl

theorem log (o : Obs α) (ho : o.marks = false) : Still P s (s.log o) :=
  of_eq rfl rfl rfl rfl (List.filter_cons_of_neg (by rw [ho]; nofun)) rfl

theorem delTaskFromTree (t : ℕ) : Still P s (delTaskFromTree s t) := of_eq rfl rfl rfl rfl rfl rfl

/-! ### Tasks -/

theorem taskDestroy (hP : Watched P) (t : ℕ) (x : Task α) : Still P s (taskDestroy s t x) :=
  ite (halt hP.wild) (of_eq rfl rfl rfl rfl rfl rfl)

theorem taskPutGc (hP : Watched P) (t : ℕ) : Still P s (taskPutGc s t) := by
  unfold Lbz.taskPutGc
  split
  · exact halt hP.wild
  · exact ite (taskDestroy hP ..) (modTask ..)

theorem putLater (hP : Watched P) (z : Option ℕ) : Still P s (putLater s z) := by
  unfold Lbz.putLater
  split
  · exact of_eq rfl rfl rfl rfl rfl rfl
  · exact halt hP.wild

theorem gcRemap (hP : Watched P) (x : Task α) (pbid : Option ℕ)
    (hm : P .gcMapping → pbid.isSome → s.mapping x.blkid = none ∨ s.mapping x.blkid = some x.pbid) :
    Still P s (gcRemap c s x pbid) := by
  unfold Lbz.gcRemap
  split
  · simp only
    split_ifs with h1 h2
    · exact of_eq rfl rfl rfl rfl rfl rfl
    · refine (halt (b := .gcMapping) fun hp => ?_).after (of_eq rfl rfl rfl rfl rfl rfl)
      exact (hm hp rfl).elim h1 h2
    · exact of_eq rfl rfl rfl rfl rfl rfl
  · exact halt hP.wild

theorem gcRelease (hP : Watched P) (g : ℕ) (x : Task α) : Still P s (gcRelease s g x) := by
  refine trans ?_ (taskPutGc hP g)
  refine trans ?_ (modTask g _)
  refine trans ?_ (log _ rfl)
  refine trans ?_ (putLater hP _)
  refine trans ?_ (log _ rfl)
  refine trans (ite (putLater hP _) refl) (ite (trans (delTaskFromTree g) (taskPutGc hP g)) refl)

theorem gcTaskCallback (hP : Watched P) (g : ℕ) (pbid : Option ℕ)
    (hm : P .gcMapping → pbid.isSome → ∀ x, s.tasks.get g = some x →
      s.mapping x.blkid = none ∨ s.mapping x.blkid = some x.pbid) :
    Still P s (gcTaskCallback c s g pbid) := by
  unfold Lbz.gcTaskCallback
  split
  · exact halt hP.wild
  · rename_i x hx
    refine ite (halt hP.wild) (trans (ite (gcRemap hP x pbid fun hp hs => hm hp hs x hx) refl)
      (ite refl ?_))
    exact trans (trans (log _ rfl) (gcRelease hP g _)) (of_eq rfl rfl rfl rfl rfl rfl)

theorem taskFinal (hP : Watched P) (t : ℕ) (x : Task α) : Still P s (taskFinal c s t x) := by
  unfold Lbz.taskFinal
  split
  · refine ite (taskDestroy hP ..) ?_
    exact trans (trans (ite (modTask ..) refl) (gcTaskCallback hP _ none nofun))
      (ite refl (taskDestroy hP ..))
  · exact taskDestroy hP ..

theorem taskPut (hP : Watched P) (t : ℕ) : Still P s (taskPut c s t) := by
  unfold Lbz.taskPut
  split
  · exact halt hP.wild
  · exact ite (taskFinal hP ..) (modTask ..)

/-! ### Writes -/

theorem allocBlock (hn : P .gcNoSpace → c.streamSupport = true) (mod : AllocFlag) (i : Fin 2) :
    Still P s (allocBlock c s mod i).1 := by
  unfold Lbz.allocBlock
  simp only
  split_ifs with h1
  · refine (halt (b := .gcNoSpace) fun hp => ?_).after (of_eq rfl rfl rfl rfl rfl rfl)
    rw [hn hp] at h1
    cases h1.2
  · exact of_eq rfl rfl rfl rfl rfl rfl
  · exact of_eq rfl rfl rfl rfl rfl rfl

theorem addTaskToRetry (t : ℕ) : Still P s (addTaskToRetry s t) :=
  ⟨List.prefix_append .., id, rfl, rfl, Or.inr rfl, fun _ _ => id⟩

theorem insertWrite (t : ℕ) (x : Task α) : Still P s (insertWrite s t x) := by
  unfold Lbz.insertWrite
  split
  · exact (addTaskToRetry t).after (of_eq rfl rfl rfl rfl rfl rfl)
  · exact of_eq rfl rfl rfl rfl rfl rfl

theorem writeIoEndio (t : ℕ) (x : Task α) : Still P s (writeIoEndio c s t x) := by
  unfold Lbz.writeIoEndio
  split
  rename_i s' ok heq
  split at heq <;> cases heq
  · exact of_eq rfl rfl rfl rfl rfl rfl
  · exact of_faulty rfl rfl rfl rfl rfl

theorem writeUntree (hP : Watched P) (t : ℕ) (x : Task α) : Still P s (writeUntree c s t x) := by
  unfold Lbz.writeUntree
  split
  · exact halt hP.wild
  · exact (taskPut hP t).after (of_eq rfl rfl rfl rfl rfl rfl)

theorem devAppend (hP : Watched P) (t p : ℕ) (x : Task α) : Still P s (devAppend s t x p) := by
  unfold Lbz.devAppend
  split
  · exact of_eq rfl rfl rfl rfl rfl rfl
  · exact halt hP.wild

theorem submitReadIo (b : ℕ) : Still P s (submitReadIo c s b) := by
  unfold Lbz.submitReadIo
  split <;> exact of_eq rfl rfl rfl rfl rfl rfl

theorem readIoEndio (r : ℕ) (x : ReadHook α) (v : Option α) : Still P s (readIoEndio s r x v) :=
  ⟨List.prefix_rfl, fun h => by simp [Lbz.readIoEndio, Sys.log, h], rfl, rfl,
    Or.inr rfl, fun _ _ => id⟩

/-! ### Gc tasks -/

theorem gcReadEndio (hP : Watched P) (g : ℕ) (ok : Bool) : Still P s (gcReadEndio c s g ok) := by
  refine ite (of_eq rfl rfl rfl rfl rfl rfl)
    (after (ite refl ?_) ((gcTaskCallback hP g none nofun).after (modTask g _)))
  exact ⟨List.prefix_rfl, fun _ => rfl, rfl, rfl, Or.inl rfl, fun _ _ => id⟩

theorem insertGc (g : ℕ) (x : Task α) : Still P s (insertGc s g x) := by
  unfold Lbz.insertGc
  simp only
  split <;> exact of_eq rfl rfl rfl rfl rfl rfl

theorem gcSkip (hP : Watched P) (g : ℕ) : Still P s (gcSkip s g) :=
  (modTask g _).after ((taskPutGc hP g).after (delTaskFromTree g))

theorem gcCheck (hP : Watched P) (g : ℕ) (x : Task α) : Still P s (gcCheck c s g x) := by
  unfold Lbz.gcCheck
  split
  · exact gcSkip hP g
  · exact after (ite (gcSkip hP g) (modTask g _)) (of_eq rfl rfl rfl rfl rfl rfl)

theorem gcWriteEndio (hP : Watched P) (g : ℕ) (x : Task α) : Still P s (gcWriteEndio s g x) := by
  unfold Lbz.gcWriteEndio
  split
  · simp only
    split <;> exact of_eq rfl rfl rfl rfl rfl rfl
  · exact halt hP.wild

theorem gcEnd (hP : Watched P) (g : ℕ) (x : Task α)
    (hm : P .gcMapping → (∃ p, x.pc = .callback (some p)) → ∀ x, s.tasks.get g = some x →
      s.mapping x.blkid = none ∨ s.mapping x.blkid = some x.pbid) : Still P s (gcEnd c s g x) := by
  unfold Lbz.gcEnd
  split
  · exact after (ite refl ⟨List.prefix_rfl, fun _ => rfl, rfl, rfl, Or.inl rfl, fun _ _ => id⟩)
      (gcTaskCallback hP g none nofun)
  · rename_i p hpc
    exact after (ite refl (log _ rfl)) (gcTaskCallback hP g _ fun hp _ => hm hp ⟨p, hpc⟩)
  · exact gcTaskCallback hP g none nofun

/-! ### Workers -/

theorem retryTake (t : ℕ) : Still P s (retryTake s t) := of_eq rfl rfl rfl rfl rfl rfl

/-- A pass of the retry worker goes on; on a faulty device none begins. -/
theorem retryWkFn (h : s.retry = .idle → s.faulty = true) : Still P s (retryWkFn s) := by
  unfold Lbz.retryWkFn
  split
  · rename_i hr
    rw [if_pos (Or.inl (h hr))]
    exact refl
  all_goals exact of_eq rfl rfl rfl rfl rfl rfl

theorem gcSelect (b : Bool) : Still P s (gcSelect c s b) := by
  unfold Lbz.gcSelect
  split <;> exact of_eq rfl rfl rfl rfl rfl rfl

theorem gcScan [Inhabited α] (z iter : ℕ) (pos : Option ℕ) : Still P s (gcScan c s z iter pos) := by
  unfold Lbz.gcScan
  split_ifs
  · cases pos <;> exact of_eq rfl rfl rfl rfl rfl rfl
  · exact of_eq rfl rfl rfl rfl rfl rfl

theorem wkStep (ok : Bool)
    (hr : P .resetValid → ∀ i, s.wk = .reset i → (s.zmd.zones i).weight = 0) :
    Still P s (wkStep c s ok) := by
  unfold Lbz.wkStep
  split
  · exact refl
  · unfold wkVisit
    split_ifs <;> exact of_eq rfl rfl rfl rfl rfl rfl
  · exact of_eq rfl rfl rfl rfl rfl rfl
  · exact of_eq rfl rfl rfl rfl rfl rfl
  · unfold wkGcTest
    split_ifs <;> exact of_eq rfl rfl rfl rfl rfl rfl
  · rename_i i hwk
    unfold wkReset
    split_ifs with h1 h2
    · exact ⟨List.prefix_rfl, fun _ => rfl, rfl, rfl, Or.inl rfl, fun _ _ => id⟩
    · exact (halt (b := .resetValid) fun hp => h2 (hr hp i hwk)).after (of_eq rfl rfl rfl rfl rfl rfl)
    · exact of_eq rfl rfl rfl rfl rfl rfl
  · exact of_eq rfl rfl rfl rfl rfl rfl

theorem natSitTxComplete (hP : Watched P) : Still P s (natSitTxComplete c s) := by
  have hfree : ∀ (s : Sys α) b, Still P s (freeBlkid c s b) := fun s b => by
    refine ite refl (ite (halt hP.blkidRange) ?_)
    split <;> exact of_eq rfl rfl rfl rfl rfl rfl
  have h : ∀ (l : List ℕ) (s : Sys α), Still P s (l.foldl (freeBlkid c) s) := fun l => by
    induction l with
    | nil => exact fun _ => refl
    | cons b l ih => exact fun s => (hfree s b).trans (ih _)
  exact (h s.natSit.toFree s).trans (of_eq rfl rfl rfl rfl rfl rfl)

theorem installRule (hP : Watched P) (a : NatSitArgs) : Still P s (installRule s a) :=
  ite (halt hP.ruleAlign) (of_eq rfl rfl rfl rfl rfl rfl)

theorem onTask (hP : Watched P) (t : ℕ) {f : Task α → Sys α}
    (h : ∀ x, s.tasks.get t = some x → Still P s (f x)) : Still P s (onTask s t f) := by
  unfold Lbz.onTask
  split
  · rename_i x hx
    exact h x hx
  · exact halt hP.wild

end Still

namespace Leaves

variable {s s' s'' : Sys α} {c : Conf} {P : Bug → Prop}

theorem refl : Leaves P s s := ⟨List.prefix_rfl, id, fun _ _ => id⟩

theorem trans (h : Leaves P s s') (h' : Leaves P s' s'') : Leaves P s s'' :=
  ⟨h.pending.trans h'.pending, fun hf => h'.faulty (h.faulty hf), fun b hp hb => h.bug b hp (h'.bug b hp hb)⟩

theorem after (h' : Leaves P s' s'') (h : Leaves P s s') : Leaves P s s'' := h.trans h'

theorem halt {b : Bug} (hb : ¬ P b) : Leaves P s (s.halt b) :=
  ⟨List.prefix_rfl, id, fun _ hp h => absurd hp (Option.some.inj h ▸ hb)⟩

theorem ite {Q : Prop} [Decidable Q] (h : Leaves P s s') (h' : Leaves P s s'') :
    Leaves P s (if Q then s' else s'') := by
  split_ifs
  · exact h
  · exact h'

theorem of_still (h : Still P s s') : Leaves P s s' := ⟨h.pending, h.faulty, h.bug⟩

/-- A change of the other fields. -/
theorem of_eq (h1 : s'.userPending = s.userPending) (h2 : s'.faulty = s.faulty)
    (h3 : s'.bug = s.bug) : Leaves P s s' :=
  ⟨h1 ▸ List.prefix_rfl, fun h => h2.trans h, fun _ _ h => h3.symm.trans h⟩

theorem modTask (t : ℕ) (f : Task α → Task α) : Leaves P s (s.modTask t f) := of_eq rfl rfl rfl

theorem log (o : Obs α) : Leaves P s (s.log o) := of_eq rfl rfl rfl

theorem issueAppend (t z : ℕ) (x : Task α) (ty : LogType) : Leaves P s (issueAppend c s t x z ty) := by
  have h : Leaves P s (addIntegrity c s x ty).1 := by
    unfold addIntegrity
    simp only
    split_ifs
    · exact of_eq rfl rfl rfl
    all_goals split <;> exact of_eq rfl rfl rfl
  exact (modTask ..).after h

theorem dispatchWrite (t z : ℕ) (x : Task α) (integ : Bool) :
    Leaves P s (dispatchWrite c s t x z integ) := by
  refine after (ite (issueAppend ..) ?_) (ite (of_eq rfl rfl rfl) refl)
  exact (modTask ..).after ⟨List.prefix_rfl, fun _ => rfl, fun _ _ => id⟩

theorem writeAllocFailed (hP : Watched P) (t : ℕ) (x : Task α) (ret : AllocRet) :
    Leaves P s (writeAllocFailed c s t x ret) := by
  refine after (ite (of_still (Still.addTaskToRetry t)) ((of_still (Still.taskPut hP t)).after ?_))
    (of_eq rfl rfl rfl)
  exact of_eq rfl rfl rfl

theorem writeNoBlock (hP : Watched P) (t : ℕ) (x : Task α) (sid : Option (Fin 2)) (ret : AllocRet) :
    Leaves P s (writeNoBlock c s t x sid ret) := by
  refine ite refl ?_
  split
  · exact modTask ..
  · exact writeAllocFailed hP ..

theorem allocWrite (hP : Watched P) (hn : P .gcNoSpace → c.streamSupport = true) (t : ℕ)
    (x : Task α) (i : Fin 2) (sid : Option (Fin 2)) (integ : Bool) :
    Leaves P s (allocWrite c s t x i sid integ) := by
  have h := of_still (Still.allocBlock (s := s) hn (if x.link = .null then .user else .gc) i)
  unfold Lbz.allocWrite
  simp only
  split <;> rename_i heq <;> rw [heq] at h
  · exact (h.trans (log _)).trans (dispatchWrite ..)
  · exact h.trans (writeNoBlock hP ..)

theorem submitWriteTask (hP : Watched P) (hn : P .gcNoSpace → c.streamSupport = true) (t : ℕ)
    (x : Task α) (integ : Bool) :
    Leaves P s (submitWriteTask c s t x integ) := by
  unfold Lbz.submitWriteTask
  split
  · exact allocWrite hP hn ..
  · exact ite (of_still (Still.insertWrite ..)) (allocWrite hP hn ..)

theorem onTask (hP : Watched P) (t : ℕ) {f : Task α → Sys α}
    (h : ∀ x, s.tasks.get t = some x → Leaves P s (f x)) : Leaves P s (onTask s t f) := by
  unfold Lbz.onTask
  split
  · rename_i x hx
    exact h x hx
  · exact halt hP.wild

end Leaves

theorem watched_gcReturn : Watched (· = .gcReturn) := ⟨nofun, nofun, nofun⟩

/-! ## Failures of `__submit_gc_task` -/

/-- Stream `i` has a block, or can get a zone. -/
def StreamHasBlock (c : Conf) (m : Zmd) (i : Fin 2) : Prop :=
  (∃ z, m.activeZone i = some z ∧ (m.zones z).wpBlock ≠ c.zoneNrBlocks) ∨ m.emptyZoneList ≠ []

/-- The stream of the next allocation for `x`. -/
def Task.stream (c : Conf) (s : Sys α) (x : Task α) : Fin 2 :=
  match x.pc with
  | .fallback sid => 1 - sid
  | _ => preferredStream c s x.blkid

/-- No other stream is tried after it. -/
def Task.LastTry (c : Conf) (x : Task α) : Prop :=
  match x.pc with
  | .fallback _ => True
  | _ => hasFallback c = false

/-- `__submit_gc_task` gets `-EIO` from its last allocation, or no record from `__add_integrity`. -/
def GcFails (c : Conf) (s : Sys α) : Event α → Prop
  | .runGc g integ => s.tasks.At g fun x => x.status = .allocRes ∧
      (x.pc = .submit ∨ ∃ j, x.pc = .fallback j) ∧
      if s.faulty then x.LastTry c else integ = false ∧ StreamHasBlock c s.zmd (x.stream c s)
  | _ => False

instance (c : Conf) (m : Zmd) (i : Fin 2) : Decidable (StreamHasBlock c m i) :=
  decidable_of_iff ((m.activeZone i).any (fun z => (m.zones z).wpBlock ≠ c.zoneNrBlocks) = true ∨
    m.emptyZoneList ≠ []) (by simp [StreamHasBlock, Option.any_eq_true])

instance (c : Conf) : DecidablePred (Task.LastTry c : Task α → Prop) := fun x => by
  unfold Task.LastTry
  split <;> infer_instance

instance (c : Conf) (s : Sys α) : DecidablePred (GcFails c s) := by
  rintro (_ | _) <;> dsimp only [GcFails] <;> infer_instance

section

variable {s s' : Sys α} {c : Conf} {m : Zmd} {i : Fin 2}

theorem zoneAllocRes_faulty (m : Zmd) (mod : AllocFlag) (i : Fin 2) :
    zoneAllocRes c true m mod i = (m, .eio) := by
  rw [zoneAllocRes, if_pos rfl]

/-- A new zone is there if `empty_zone_list` has one. -/
theorem emptyZoneList_put (m : Zmd) (a : Option ℕ) :
    Zmd.emptyZoneList (match a with
      | some z => putZone m z
      | none => m) = m.emptyZoneList := by
  cases a <;> rfl

theorem openAndTake_snd (m : Zmd) (i : Fin 2) :
    m.emptyZoneList = [] ∧ (openAndTake c m i).2 = .noZone ∨
    m.emptyZoneList ≠ [] ∧ ∃ z, (openAndTake c m i).2 = .ok z := by
  have hfree : ∀ m' : Zmd, m'.emptyZoneList = m.emptyZoneList →
      m.emptyZoneList = [] ∧ (getFreeZone m').2 = none ∨
      m.emptyZoneList ≠ [] ∧ ∃ z, (getFreeZone m').2 = some z := fun m' he => by
    unfold getFreeZone
    rw [he]
    cases m.emptyZoneList with
    | nil => exact Or.inl ⟨rfl, rfl⟩
    | cons z l => exact Or.inr ⟨by rintro ⟨⟩, z, rfl⟩
  have he := emptyZoneList_put m (m.activeZone i)
  unfold openAndTake
  simp only
  split
  · rename_i heq
    have h := congrArg Prod.snd heq
    refine Or.inl ⟨?_, rfl⟩
    rcases hfree _ he with h' | ⟨-, z, h'⟩
    · exact h'.1
    · cases h.symm.trans h'
  · rename_i z heq
    have h := congrArg Prod.snd heq
    refine Or.inr ⟨?_, z, takeBlock_snd ..⟩
    rcases hfree _ he with ⟨-, h'⟩ | h'
    · cases h.symm.trans h'
    · exact h'.1

/-- An allocation for garbage collection fails only where there is no block. -/
theorem zoneAllocRes_gc (m : Zmd) (i : Fin 2) :
    StreamHasBlock c m i ∧ (∃ z, (zoneAllocRes c false m .gc i).2 = .ok z) ∨
    ¬ StreamHasBlock c m i ∧ (zoneAllocRes c false m .gc i).2 = .noZone := by
  rw [zoneAllocRes, if_neg (show ¬ false = true from (by rintro ⟨⟩)),
    if_neg (show ¬ (AllocFlag.gc = .user ∧ _) from fun h => by cases h.1)]
  have hopen : (∀ z, m.activeZone i = some z → (m.zones z).wpBlock = c.zoneNrBlocks) →
      StreamHasBlock c m i ∧ (∃ z, (openAndTake c m i).2 = .ok z) ∨
      ¬ StreamHasBlock c m i ∧ (openAndTake c m i).2 = .noZone := fun hwp => by
    rcases openAndTake_snd (c := c) m i with ⟨he, h⟩ | ⟨he, h⟩
    · refine Or.inr ⟨?_, h⟩
      rintro (⟨z, hz, hn⟩ | hs)
      · exact hn (hwp z hz)
      · exact hs he
    · exact Or.inl ⟨Or.inr he, h⟩
  cases ha : m.activeZone i with
  | none => exact hopen fun z h => by rw [ha] at h; cases h
  | some z =>
    simp only
    split_ifs with hwp
    · exact hopen fun z' h => by rw [ha] at h; cases h; exact hwp
    · exact Or.inl ⟨Or.inl ⟨z, ha, hwp⟩, z, takeBlock_snd ..⟩

theorem allocBlock_snd (mod : AllocFlag) (i : Fin 2) :
    (allocBlock c s mod i).2 = (zoneAllocRes c s.faulty s.zmd mod i).2 := by
  unfold allocBlock
  simp only
  split_ifs <;> rfl

theorem allocBlock_tasks (mod : AllocFlag) (i : Fin 2) :
    (allocBlock c s mod i).1.tasks = s.tasks := by
  unfold allocBlock
  simp only
  split_ifs <;> rfl

/-- An allocation for a gc task, and what `__submit_gc_task` does then. -/
theorem allocGc_leaves (hb : s.bug = none) (g : ℕ) (x : Task α) (i : Fin 2) (sid : Option (Fin 2))
    (integ : Bool) :
    ((if s.faulty then sid = none else integ = false ∧ StreamHasBlock c s.zmd i) ∧
      (allocGc c s g x i sid integ).bug = some .gcReturn) ∨
    ¬ (if s.faulty then sid = none else integ = false ∧ StreamHasBlock c s.zmd i) ∧
      Leaves (· = .gcReturn) s (allocGc c s g x i sid integ) := by
  have hl := Leaves.of_still (Still.allocBlock (c := c) (s := s) (P := (· = .gcReturn)) (by rintro ⟨⟩) .gc i)
  have hret := allocBlock_snd (c := c) (s := s) .gc i
  unfold allocGc
  cases hf : s.faulty with
  | true =>
    rw [if_pos rfl]
    rw [allocBlock_faulty hf]
    simp only [gcNoBlock, hb, Option.isSome_none, Bool.false_eq_true, if_false]
    cases sid with
    | none => exact Or.inl ⟨rfl, rfl⟩
    | some j => exact Or.inr ⟨by rintro ⟨⟩, .modTask ..⟩
  | false =>
    rw [if_neg (show ¬ false = true from (by rintro ⟨⟩))]
    rw [hf] at hret
    generalize allocBlock c s .gc i = r at hl hret ⊢
    obtain ⟨s₁, ret⟩ := r
    rcases zoneAllocRes_gc (c := c) s.zmd i with ⟨hs, z, hz⟩ | ⟨hs, hz⟩
    · cases hret.trans hz
      cases integ with
      | true =>
        refine Or.inr ⟨(fun h => by cases h.1), (Leaves.issueAppend g z x .gcWrite).after ?_⟩
        exact hl.trans (.log _)
      | false => exact Or.inl ⟨⟨rfl, hs⟩, rfl⟩
    · cases hret.trans hz
      refine Or.inr ⟨fun h => hs h.2, hl.trans (.ite .refl ?_)⟩
      cases sid with
      | none => exact .halt (by rintro ⟨⟩)
      | some j => exact .modTask ..

/-- `__submit_gc_task` reaches the `BUG()` of its caller exactly if it fails. -/
theorem submitGcTask_leaves (hb : s.bug = none) {g : ℕ} {x : Task α} (hx : s.tasks.get g = some x)
    (hst : x.status = .gcReading ∨ x.status = .allocRes)
    (hpc : x.pc = .submit ∨ (∃ j, x.pc = .fallback j) ∨ (∃ tk, x.pc = .found tk) ∨ x.pc = .check)
    (hstf : ∀ j, x.pc = .fallback j → x.status = .allocRes) (integ : Bool) :
    (GcFails c s (.runGc g integ) ∧ (submitGcTask c s g x integ).bug = some .gcReturn) ∨
    ¬ GcFails c s (.runGc g integ) ∧ Leaves (· = .gcReturn) s (submitGcTask c s g x integ) := by
  have hat : GcFails c s (.runGc g integ) ↔ x.status = .allocRes ∧
      (x.pc = .submit ∨ ∃ j, x.pc = .fallback j) ∧
      if s.faulty then x.LastTry c else integ = false ∧ StreamHasBlock c s.zmd (x.stream c s) :=
    ⟨fun h => by obtain ⟨y, hy, h⟩ := h; cases hx.symm.trans hy; exact h, fun h => ⟨x, hx, h⟩⟩
  rw [hat]
  rcases hpc with hpc | ⟨j, hpc⟩ | ⟨tk, hpc⟩ | hpc
  · rcases hst with hst | hst
    · refine Or.inr ⟨fun h => ?_, ?_⟩
      · rw [hst] at h
        cases h.1
      · simp only [submitGcTask, hpc, if_pos hst]
        exact .of_still (.insertGc ..)
    · have h := allocGc_leaves (c := c) hb g x (preferredStream c s x.blkid)
        (if hasFallback c then some (preferredStream c s x.blkid) else none) integ
      have hlast : (if hasFallback c then some (preferredStream c s x.blkid) else none) = none ↔
          x.LastTry c := by
        simp only [Task.LastTry, hpc]
        cases hasFallback c <;> simp
      rw [hlast] at h
      have hne : ¬ x.status = .gcReading := by rw [hst]; rintro ⟨⟩
      simp only [submitGcTask, hpc, if_neg hne, Task.stream] at h ⊢
      simpa [hst, Task.LastTry, hpc] using h
  · have hst := hstf j hpc
    have h := allocGc_leaves (c := c) hb g x (1 - j) none integ
    simp only [submitGcTask, hpc, Task.stream, Task.LastTry] at h ⊢
    simpa [hst] using h
  · refine Or.inr ⟨fun h => ?_, ?_⟩
    · rcases h.2.1 with h | ⟨j, h⟩ <;> rw [hpc] at h <;> cases h
    · simp only [submitGcTask, hpc]
      exact .of_eq rfl rfl rfl
  · refine Or.inr ⟨fun h => ?_, ?_⟩
    · rcases h.2.1 with h | ⟨j, h⟩ <;> rw [hpc] at h <;> cases h
    · simp only [submitGcTask, hpc]
      exact .of_still (.gcCheck watched_gcReturn ..)

/-- `__submit_gc_task` reaches no other place where the kernel stops. -/
theorem submitGcTask_spares {P : Bug → Prop} (hP : Watched P)
    (hn : ¬ P .gcNoSpace ∧ ¬ P .gcReturn) (g : ℕ) (x : Task α) (integ : Bool) :
    Leaves P s (submitGcTask c s g x integ) := by
  have halloc : ∀ i sid, Leaves P s (allocGc c s g x i sid integ) := fun i sid => by
    have hl := Leaves.of_still (Still.allocBlock (c := c) (s := s) (P := P) (fun h => absurd h hn.1)
      .gc i)
    unfold allocGc
    generalize allocBlock c s .gc i = r at hl ⊢
    obtain ⟨s₁, ret⟩ := r
    have hno : Leaves P s (gcNoBlock s₁ g sid ret) := by
      refine hl.trans (.ite .refl ?_)
      cases sid with
      | none =>
        refine .halt ?_
        split_ifs
        · exact hn.2
        · exact hn.1
      | some j => exact .modTask ..
    cases ret with
    | ok z =>
      have hlog : Leaves P s (s₁.log (.alloc g .gc)) := hl.trans (.log _)
      cases integ with
      | true => exact hlog.trans (.issueAppend ..)
      | false => exact (Leaves.halt hn.2).after (hlog.trans ⟨List.prefix_rfl, fun _ => rfl, fun _ _ h => h⟩)
    | eio | reserved | noZone => exact hno
  unfold submitGcTask
  split
  · exact .of_eq rfl rfl rfl
  · exact .of_still (.gcCheck hP ..)
  · exact halloc ..
  · exact .ite (.of_still (.insertGc ..)) (halloc ..)

variable [Inhabited α] {e : Event α}

/-- Every event but those of a submission leaves alone what `P` watches. -/
theorem after_still {P : Bug → Prop} (hP : Watched P)
    (hm : P .gcMapping → ∀ g x, s.tasks.get g = some x → (∃ p, x.pc = .callback (some p)) →
      s.mapping x.blkid = none ∨ s.mapping x.blkid = some x.pbid)
    (hr : P .resetValid → ∀ i, s.wk = .reset i → (s.zmd.zones i).weight = 0)
    (hsub : ∀ b d flush more, e ≠ .submitWrite b d flush more)
    (hwr : ∀ t integ, e ≠ .runWrite t integ)
    (he : ∀ g integ, e ≠ .runGc g integ) (hw : e = .retryWk → s.retry = .idle → s.faulty = true) :
    Still P s (after c s e) := by
  cases e with
  | submitWrite b d flush more => exact absurd rfl (hsub b d flush more)
  | runWrite t integ => exact absurd rfl (hwr t integ)
  | runGc g integ => exact absurd rfl (he g integ)
  | retryWk => exact .retryWkFn (hw rfl)
  | devFail | writeComplete | putZone | wkStart | setReady => exact .of_eq rfl rfl rfl rfl rfl rfl
  | devAppend t off => exact .onTask hP t fun x _ => .devAppend hP ..
  | writeEnd t => exact .onTask hP t fun x _ => .writeIoEndio ..
  | writeUntree t => exact .onTask hP t fun x _ => .writeUntree hP ..
  | putTask t => exact (Still.taskPut hP t).after (.of_eq rfl rfl rfl rfl rfl rfl)
  | submitRead b => exact .submitReadIo b
  | devRead r ok =>
    simp only [after]
    split
    · exact .of_eq rfl rfl rfl rfl rfl rfl
    · exact .refl
  | readEnd r =>
    simp only [after]
    split
    · exact .readIoEndio ..
    · exact .refl
  | gcSelect b => exact .gcSelect b
  | gcScan =>
    simp only [after]
    split
    · exact .gcScan ..
    · exact .refl
  | gcDevRead g ok => exact .onTask hP g fun x _ => .modTask ..
  | gcReadEnd g => exact .onTask hP g fun x _ => .gcReadEndio hP ..
  | gcWriteEnd g => exact .onTask hP g fun x _ => .gcWriteEndio hP ..
  | gcEnd g =>
    refine .onTask hP g fun x hx => .gcEnd hP g x fun hp hpc y hy => ?_
    cases hx.symm.trans hy
    exact hm hp g x hx hpc
  | wkStep ok => exact .wkStep ok hr
  | txComplete => exact .natSitTxComplete hP
  | addRule a => exact .installRule hP a

/-- Every event but those of `__submit_gc_task` leaves alone what `P` watches. -/
theorem after_leaves {P : Bug → Prop} (hP : Watched P)
    (hn : P .gcNoSpace → c.streamSupport = true)
    (hm : P .gcMapping → ∀ g x, s.tasks.get g = some x → (∃ p, x.pc = .callback (some p)) →
      s.mapping x.blkid = none ∨ s.mapping x.blkid = some x.pbid)
    (hr : P .resetValid → ∀ i, s.wk = .reset i → (s.zmd.zones i).weight = 0)
    (he : ∀ g integ, e ≠ .runGc g integ) (hw : e = .retryWk → s.retry = .idle → s.faulty = true) :
    Leaves P s (after c s e) := by
  by_cases hsub : ∃ b d flush more, e = .submitWrite b d flush more
  · obtain ⟨b, d, flush, more, rfl⟩ := hsub
    exact .of_eq rfl rfl rfl
  by_cases hwr : ∃ t integ, e = .runWrite t integ
  · obtain ⟨t, integ, rfl⟩ := hwr
    exact .onTask hP t fun x _ => .submitWriteTask hP hn ..
  exact .of_still (after_still hP hm hr (fun b d flush more h => hsub ⟨b, d, flush, more, h⟩)
    (fun t integ h => hwr ⟨t, integ, h⟩) he hw)

/-- **Every step leaves alone** the writes of `lbz_user_pending`, that the device is faulty, and the
`BUG()`; a failure of `__submit_gc_task` reaches it. -/
theorem step_leaves (hB : Base c s.core) (hs : step c s e = some s') :
    (GcFails c s e ∧ s'.bug = some .gcReturn) ∨
    ¬ GcFails c s e ∧ ((e = .retryWk ∧ s.retry = .idle ∧ s.faulty = false ∧ s'.bug = none) ∨
      Leaves (· = .gcReturn) s s') := by
  rw [step] at hs
  split_ifs at hs with h
  obtain ⟨hb, hr⟩ := h
  cases hs
  by_cases hrun : ∃ g integ, e = .runGc g integ
  · obtain ⟨g, integ, rfl⟩ := hrun
    obtain ⟨x, hx, hty, hpc⟩ := hr
    obtain ⟨⟨v, hp⟩, -⟩ := (hB.tasks.shape g x hx).gc hty
    have hpc' : x.pc = .submit ∨ (∃ j, x.pc = .fallback j) ∨ (∃ tk, x.pc = .found tk) ∨
        x.pc = .check := by
      split at hpc
      · next h => exact Or.inl h
      · next j h => exact Or.inr (Or.inl ⟨j, h⟩)
      · next tk h => exact Or.inr (Or.inr (Or.inl ⟨tk, h⟩))
      · next h => exact Or.inr (Or.inr (Or.inr h))
      · cases hpc
    have hst : (x.status = .gcReading ∨ x.status = .allocRes) ∧
        ∀ j, x.pc = .fallback j → x.status = .allocRes := by
      clear hpc
      rcases hpc' with h | ⟨j, h⟩ | ⟨tk, h⟩ | h <;> cases hp <;> simp_all
    simp only [after, onTask, hx]
    exact (submitGcTask_leaves hb hx hst.1 hpc' hst.2 integ).imp_right fun h => ⟨h.1, Or.inr h.2⟩
  · have hno : ¬ GcFails c s e := fun hf => by
      unfold GcFails at hf
      split at hf
      · exact hrun ⟨_, _, rfl⟩
      · exact hf
    refine Or.inr ⟨hno, ?_⟩
    by_cases h : e = .retryWk ∧ s.retry = .idle ∧ s.faulty = false
    · obtain ⟨rfl, h1, h2⟩ := h
      refine Or.inl ⟨rfl, h1, h2, ?_⟩
      simp only [after, retryWkFn, h1]
      split_ifs <;> exact hb
    · refine Or.inr (after_leaves watched_gcReturn (by rintro ⟨⟩) (by rintro ⟨⟩) (by rintro ⟨⟩)
        (fun g integ he => hrun ⟨g, integ, he⟩) fun he hi => ?_)
      by_contra hf
      exact h ⟨he, hi, by simpa using hf⟩

/-- A step reaches no place that `P` watches, but those that a look at the state before rules out. -/
theorem step_spares {P : Bug → Prop} (hP : Watched P) (hn : ¬ P .gcNoSpace ∧ ¬ P .gcReturn)
    (hm : P .gcMapping → ∀ g x, s.tasks.get g = some x → (∃ p, x.pc = .callback (some p)) →
      s.mapping x.blkid = none ∨ s.mapping x.blkid = some x.pbid)
    (hr : P .resetValid → ∀ i, s.wk = .reset i → (s.zmd.zones i).weight = 0)
    (hs : step c s e = some s') {b : Bug} (hb : P b) : s'.bug ≠ some b := by
  rw [step] at hs
  split_ifs at hs with h
  obtain ⟨hbug, -⟩ := h
  cases hs
  have key : ∀ {s' : Sys α}, Leaves P s s' → s'.bug ≠ some b := fun hl h => by
    have := hl.bug b hb h
    rw [hbug] at this
    cases this
  by_cases hrun : ∃ g integ, e = .runGc g integ
  · obtain ⟨g, integ, rfl⟩ := hrun
    exact key (.onTask hP g fun x _ => submitGcTask_spares hP hn g x integ)
  · by_cases he : e = .retryWk ∧ s.retry = .idle ∧ ¬ s.faulty = true
    · obtain ⟨rfl, h1, h2⟩ := he
      simp only [after, retryWkFn, h1]
      split_ifs <;> rw [hbug] <;> rintro ⟨⟩
    · refine key (after_leaves hP (fun h => absurd h hn.1) hm hr
        (fun g integ he => hrun ⟨g, integ, he⟩) fun h1 h2 => ?_)
      by_contra hf
      exact he ⟨h1, h2, hf⟩

/-- The panic comes from the reset of a zone that has a weight. -/
theorem step_resets (hs : step c s e = some s')
    (hr : ∀ i, s.wk = .reset i → (s.zmd.zones i).weight = 0) : s'.bug ≠ some .resetValid :=
  step_spares (P := (· = .resetValid)) ⟨nofun, nofun, nofun⟩ ⟨nofun, nofun⟩ nofun (fun _ => hr) hs rfl

/-- The `BUG_ON` of a gc callback comes from a block that is mapped somewhere else. -/
theorem step_remaps (hB : Base c s.core) (hs : step c s e = some s') : s'.bug ≠ some .gcMapping := by
  refine step_spares (P := (· = .gcMapping)) ⟨nofun, nofun, nofun⟩ ⟨nofun, nofun⟩
    (fun _ g x hx ⟨p, hpc⟩ => ?_) nofun hs rfl
  obtain ⟨hty, hst, -⟩ := (hB.tasks.shape g x hx).callback hpc
  exact (hB.tasks.past g x hx ⟨hty, by rw [hst]; nofun, by rw [hpc]; nofun⟩).symm

end

end Lbz
