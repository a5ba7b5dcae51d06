import Lbz.Lib.Heap
import Lbz.Lib.Run

/-!
# Bios of several blocks

`lbz_dev_submit_bio` past its early exits, and what happens to the parts of a bio until the user has
it back: the context that counts the parts, the hook that the scheduler puts on each of them, and the
end handlers, interleaved in any order.

* `Bio`, `LongContext`, `Request`: the user's bio is bio 0, the parts split off it follow;
* `ReqEvent`, `Request.step`: one step of the submitter, of the scheduler, of the device or of an end
  handler; `devStatus` is what the block layer makes of `bi_status` when the device has finished;
* `LongInv`: where each part is, how many the context counts and what the statuses say;
* **`split_exact`**: in every run the parts cover the bio in order, and the user gets it back once,
  after all of them, with an error exactly if one of them had one.
-/

namespace Lbz

/-- `bi_private` -/
inductive BiPrivate (U : Type)
  | user (u : U)
  | ctx
  | hook
deriving DecidableEq, Repr

/-- `bi_end_io`: the user's, `lbz_long_bio_endio`, or the one of the scheduler's hook. -/
inductive BiEndIo (E : Type)
  | user (e : E)
  | long
  | io
deriving DecidableEq, Repr

/-- Where a bio is. -/
inductive BioPc
  /-- in `lbz_dev_submit_bio` -/
  | owned
  /-- given to `lbz_submit_io_to_iosched` -/
  | sched
  /-- hooked, at the device -/
  | device
  /-- ended by the device, the handler of the hook is next -/
  | completed
  /-- `lbz_long_bio_endio` has passed the status on, the count is next -/
  | merged
  /-- it has counted down to 0 -/
  | last
  /-- the user's bio, counted, while other parts are not -/
  | waiting
deriving DecidableEq, Repr

/-- `struct bio`, with what `struct lbz_io_hook` keeps for it. A status of 0 is `BLK_STS_OK`. -/
structure Bio (U E : Type) where
  biSector : ℕ
  sectors : ℕ
  biStatus : ℕ
  biPrivate : BiPrivate U
  biEndIo : BiEndIo E
  hook : Option (BiPrivate U × BiEndIo E)
  pc : BioPc
deriving DecidableEq, Repr

/-- `struct lbz_long_context`; `user_bio_long` is bio 0. -/
structure LongContext (U E : Type) where
  userPrivateLong : BiPrivate U
  userEndioLong : BiEndIo E
  remaining : ℤ
deriving DecidableEq, Repr

/-- What is written down of a request. -/
inductive ReqObs (U E : Type)
  /-- a bio of `sectors` sectors from `sector` on goes to `lbz_submit_io_to_iosched` -/
  | handed (sector sectors : ℕ)
  /-- the scheduler or the device reports an error of part `i` -/
  | fail (i : ℕ)
  /-- part `i` ends with the status `st` -/
  | partEnd (i st : ℕ)
  /-- the user's `bi_end_io` `e` is called, with `bi_private` `u` and the status `st` -/
  | userEnd (u : U) (e : E) (st : ℕ)
  | freeCtx
deriving DecidableEq, Repr

/-- A bio given to `lbz_dev_submit_bio`. -/
structure Request (U E : Type) where
  bios : Heap (Bio U E)
  ctx : Option (LongContext U E)
  /-- the bio has more than one block -/
  long : Bool
  /-- newest first -/
  hist : List (ReqObs U E)
  /-- a freed bio or context is used -/
  wild : Bool

variable {U E : Type}

/-- `max_sectors` -/
def maxSectors : ℕ := 8

/-- What `bio_split` makes of the first block of `x`, with the handler of the context. -/
def Bio.splitOff (x : Bio U E) : Bio U E :=
  { biSector := x.biSector, sectors := maxSectors, biStatus := 0, biPrivate := .ctx
    biEndIo := .long, hook := none, pc := .sched }

namespace Request

/-- `lbz_dev_submit_bio` of `sectors` sectors from `sector` on, before its loop. -/
def start (sector sectors : ℕ) (u : U) (e : E) : Request U E :=
  { bios := Heap.empty.alloc
      { biSector := sector, sectors, biStatus := 0, biPrivate := .user u, biEndIo := .user e
        hook := none, pc := .owned }
    ctx := if maxSectors < sectors then
        some { userPrivateLong := .user u, userEndioLong := .user e, remaining := 1 }
      else none
    long := maxSectors < sectors
    hist := []
    wild := false }

def fault (r : Request U E) : Request U E := { r with wild := true }

/-- One round of the loop: a block is split off and handed to the scheduler. -/
def split (r : Request U E) (x : Bio U E) : Request U E :=
  match r.ctx with
  | none => r.fault
  | some ctx =>
    { r with
      ctx := some { ctx with remaining := ctx.remaining + 1 }
      bios := (r.bios.modify 0 fun x =>
          { x with biSector := x.biSector + maxSectors, sectors := x.sectors - maxSectors }).alloc
        x.splitOff
      hist := .handed x.biSector maxSectors :: r.hist }

/-- The end of `lbz_dev_submit_bio`: the user's bio goes to the scheduler. -/
def submitLast (r : Request U E) (x : Bio U E) : Request U E :=
  { r with
    bios := r.bios.modify 0 fun x =>
      if r.long then { x with biPrivate := .ctx, biEndIo := .long, pc := .sched }
      else { x with pc := .sched }
    hist := .handed x.biSector x.sectors :: r.hist }

/-- `__hook_io` -/
def hookIo (r : Request U E) (i : ℕ) : Request U E :=
  { r with bios := r.bios.modify i fun x =>
      { x with hook := some (x.biPrivate, x.biEndIo), biPrivate := .hook, biEndIo := .io
               pc := .device } }

/-- `lbz_long_bio_endio`, up to `atomic_dec_and_test`. -/
def longMerge (r : Request U E) (i : ℕ) (x : Bio U E) : Request U E :=
  match x.biPrivate, r.ctx, r.bios.get 0 with
  | .ctx, some _, some user =>
    { r with
      bios := (r.bios.modify i fun x => { x with pc := .merged }).modify 0 fun y =>
        if x.biStatus ≠ 0 ∧ user.biStatus = 0 then { y with biStatus := x.biStatus } else y
      hist := .partEnd i x.biStatus :: r.hist }
  | _, _, _ => r.fault

/-- `bio_endio`, for a bio without a hook. -/
def bioEndio (r : Request U E) (i : ℕ) (x : Bio U E) : Request U E :=
  match x.biEndIo with
  | .long => r.longMerge i x
  | .user e =>
    match x.biPrivate with
    | .user u => { r with
        bios := r.bios.free i
        hist := .userEnd u e x.biStatus :: .partEnd i x.biStatus :: r.hist }
    | _ => r.fault
  | .io => r.fault

/-- The scheduler ends a bio that it has not hooked; `st` is the error it sets, or 0. -/
def endEarly (r : Request U E) (i : ℕ) (x : Bio U E) (st : ℕ) : Request U E :=
  if st = 0 then r.bioEndio i x
  else
    bioEndio { r with
      bios := r.bios.modify i fun x => { x with biStatus := st }
      hist := .fail i :: r.hist } i { x with biStatus := st }

/-- The device, or a failure on the way to it, ends a bio; `st` is the error, or 0. -/
def devEnd (devStatus : ℕ → ℕ → ℕ) (r : Request U E) (i st : ℕ) : Request U E :=
  { r with
    bios := r.bios.modify i fun x =>
      { x with biStatus := devStatus x.biStatus st, pc := .completed }
    hist := if st = 0 then r.hist else .fail i :: r.hist }

/-- `__unhook_io` -/
def unhookIo (r : Request U E) (i : ℕ) (x : Bio U E) : Request U E :=
  match x.hook with
  | none => r.fault
  | some (p, e) =>
    bioEndio { r with bios := r.bios.modify i fun x =>
        { x with biPrivate := p, biEndIo := e, hook := none } } i
      { x with biPrivate := p, biEndIo := e, hook := none }

/-- `atomic_dec_and_test` in `lbz_long_bio_endio`, and the `bio_put` of a part that is not the
last one. -/
def longDec (r : Request U E) (i : ℕ) : Request U E :=
  match r.ctx with
  | none => r.fault
  | some ctx =>
    let ctx := { ctx with remaining := ctx.remaining - 1 }
    { r with
      ctx := some ctx
      bios :=
        if ctx.remaining = 0 then r.bios.modify i fun x => { x with pc := .last }
        else if i = 0 then r.bios.modify 0 fun x => { x with pc := .waiting }
        else r.bios.free i }

/-- `lbz_long_bio_endio` of the last part: the user's bio ends, the context is freed. -/
def longFinish (r : Request U E) (i : ℕ) : Request U E :=
  match r.ctx, r.bios.get 0 with
  | some { userPrivateLong := .user u, userEndioLong := .user e, .. }, some user =>
    { r with
      ctx := none
      bios := (r.bios.free 0).free i
      hist := .freeCtx :: .userEnd u e user.biStatus :: r.hist }
  | _, _ => r.fault

end Request

/-- One step of the submitter, the scheduler, the device or an end handler. -/
inductive ReqEvent
  | split
  | submitLast
  | hook (i : ℕ)
  | endEarly (i st : ℕ)
  | devEnd (i st : ℕ)
  | unhook (i : ℕ)
  | dec (i : ℕ)
  | finish (i : ℕ)
deriving DecidableEq

namespace Request

/-- Continue with bio `i`, if it is at `pc` and meets `P`. -/
def onBio (r : Request U E) (i : ℕ) (P : Bio U E → Prop) [DecidablePred P]
    (f : Bio U E → Request U E) : Option (Request U E) :=
  (r.bios.get i).bind fun x => if P x then some (f x) else none

/-- The state after an event, `none` if it cannot happen. -/
def step (devStatus : ℕ → ℕ → ℕ) (r : Request U E) : ReqEvent → Option (Request U E)
  | .split => r.onBio 0 (fun x => x.pc = .owned ∧ maxSectors < x.sectors) fun x => r.split x
  | .submitLast => r.onBio 0 (fun x => x.pc = .owned ∧ x.sectors ≤ maxSectors) fun x => r.submitLast x
  | .hook i => r.onBio i (fun x => x.pc = .sched) fun _ => r.hookIo i
  | .endEarly i st => r.onBio i (fun x => x.pc = .sched) fun x => r.endEarly i x st
  | .devEnd i st => r.onBio i (fun x => x.pc = .device) fun _ => r.devEnd devStatus i st
  | .unhook i => r.onBio i (fun x => x.pc = .completed) fun x => r.unhookIo i x
  | .dec i => r.onBio i (fun x => x.pc = .merged) fun _ => r.longDec i
  | .finish i => r.onBio i (fun x => x.pc = .last) fun _ => r.longFinish i

theorem onBio_eq_some {r r' : Request U E} {i : ℕ} {P : Bio U E → Prop} [DecidablePred P]
    {f : Bio U E → Request U E} :
    r.onBio i P f = some r' ↔ ∃ x, r.bios.get i = some x ∧ P x ∧ f x = r' := by
  simp [onBio, Option.bind_eq_some_iff]

end Request

/-! ## What the history says -/

namespace ReqObs

def isPartEnd (i : ℕ) : ReqObs U E → Bool
  | .partEnd j _ => decide (j = i)
  | _ => false

def isUserEnd : ReqObs U E → Bool
  | .userEnd _ _ _ => true
  | _ => false

def isFreeCtx : ReqObs U E → Bool
  | .freeCtx => true
  | _ => false

/-- The first sector and the length of a bio handed to the scheduler. -/
def part : ReqObs U E → Option (ℕ × ℕ)
  | .handed sector sectors => some (sector, sectors)
  | _ => none

end ReqObs

/-- The bios handed to the scheduler, oldest first. -/
def handedParts (hist : List (ReqObs U E)) : List (ℕ × ℕ) := (hist.filterMap ReqObs.part).reverse

/-- The first `k` blocks from sector `s` on. -/
def blocksFrom (s k : ℕ) : List (ℕ × ℕ) := (List.range k).map fun i => (s + maxSectors * i, maxSectors)

theorem blocksFrom_succ (s k : ℕ) :
    blocksFrom s (k + 1) = blocksFrom s k ++ [(s + maxSectors * k, maxSectors)] := by
  rw [blocksFrom, List.range_succ, List.map_append]
  rfl

theorem handedParts_cons (o : ReqObs U E) (hist : List (ReqObs U E)) :
    handedParts (o :: hist) = handedParts hist ++ o.part.toList := by
  rw [handedParts, List.filterMap_cons, handedParts]
  cases o.part <;> simp

/-- How often part `i` has ended. -/
def partEnds (i : ℕ) (hist : List (ReqObs U E)) : ℕ := hist.countP (ReqObs.isPartEnd i)

theorem partEnds_cons (i : ℕ) (o : ReqObs U E) (hist : List (ReqObs U E)) :
    partEnds i (o :: hist) = partEnds i hist + if o.isPartEnd i then 1 else 0 := List.countP_cons

/-- Part `i` has not ended yet. -/
def BioPc.isOpen : BioPc → Bool
  | .owned | .sched | .device | .completed => true
  | _ => false

/-- What a bio counts for in `remaining`. -/
def Bio.counted (x : Bio U E) : ℤ :=
  match x.pc with
  | .waiting | .last => 0
  | _ => 1

def Bio.countsLast (x : Bio U E) : ℤ := if x.pc = .last then 1 else 0

theorem Bio.counted_nonneg (x : Bio U E) : 0 ≤ x.counted := by unfold counted; split <;> decide

theorem Bio.countsLast_nonneg (x : Bio U E) : 0 ≤ x.countsLast := by unfold countsLast; split_ifs <;> decide

theorem Bio.open_of_pc {x : Bio U E} (hp : x.pc = .sched ∨ x.pc = .device ∨ x.pc = .completed) :
    x.pc.isOpen = true ∧ x.pc ≠ .owned := by
  rcases hp with hp | hp | hp <;> rw [hp] <;> exact ⟨rfl, nofun⟩

/-- Where the pointers of part `i` of a long bio lead. -/
def Bio.LongShape (u : U) (e : E) (i : ℕ) (x : Bio U E) : Prop :=
  match x.pc with
  | .owned => i = 0 ∧ x.biPrivate = .user u ∧ x.biEndIo = .user e
  | .sched => x.biPrivate = .ctx ∧ x.biEndIo = .long
  | .device | .completed => x.hook = some (.ctx, .long)
  | .waiting => i = 0
  | .merged | .last => True

/-- A bio of `n` blocks from sector `s` on, while the context lives. -/
structure LongInv (s n : ℕ) (u : U) (e : E) (r : Request U E) (x₀ : Bio U E) : Prop where
  user : r.bios.get 0 = some x₀
  ctx : r.ctx = some { userPrivateLong := .user u, userEndioLong := .user e
                       remaining := r.bios.sum Bio.counted }
  last : r.bios.sum Bio.countsLast = if r.bios.sum Bio.counted = 0 then 1 else 0
  shape : r.bios.All (Bio.LongShape u e)
  parts : x₀.pc = .owned ∧ r.bios.next ≤ n ∧ x₀.biSector = s + maxSectors * (r.bios.next - 1) ∧
      x₀.sectors = maxSectors * (n + 1 - r.bios.next) ∧
      handedParts r.hist = blocksFrom s (r.bios.next - 1) ∨
    x₀.pc ≠ .owned ∧ r.bios.next = n ∧ handedParts r.hist = blocksFrom s n
  ends : ∀ i, partEnds i r.hist =
    if i < r.bios.next ∧ ¬ r.bios.At i (fun x => x.pc.isOpen = true) then 1 else 0
  noEnd : ∀ o ∈ r.hist, o.isUserEnd = false ∧ o.isFreeCtx = false
  failed : ∀ i, .fail i ∈ r.hist → r.bios.At i (fun x => x.pc.isOpen = true ∧ x.biStatus ≠ 0) ∨
    ∃ st, st ≠ 0 ∧ .partEnd i st ∈ r.hist
  passed : ∀ i st, .partEnd i st ∈ r.hist → st ≠ 0 → x₀.biStatus ≠ 0
  status : r.bios.All fun _ x => x.biStatus ≠ 0 → ∃ i, .fail i ∈ r.hist
  long : r.long = true
  safe : r.wild = false

/-- The user has the bio back. -/
structure Done (s n : ℕ) (u : U) (e : E) (r : Request U E) : Prop where
  gone : ∀ i, r.bios.get i = none
  hist : ∃ l st h, r.hist = l ++ .userEnd u e st :: h ∧ l = (if 1 < n then [.freeCtx] else []) ∧
    handedParts h = blocksFrom s n ∧ (∀ i < n, partEnds i h = 1) ∧
    (st ≠ 0 ↔ ∃ i st', st' ≠ 0 ∧ .partEnd i st' ∈ h) ∧ (st ≠ 0 ↔ ∃ i, .fail i ∈ h) ∧
    ∀ o ∈ h, o.isUserEnd = false ∧ o.isFreeCtx = false
  safe : r.wild = false

namespace LongInv

variable {s n : ℕ} {u : U} {e : E} {r : Request U E} {x₀ : Bio U E}

theorem start (hn : 1 < n) : ∃ x₀, LongInv s n u e (Request.start s (maxSectors * n) u e) x₀ := by
  have hlong : maxSectors < maxSectors * n := by unfold maxSectors; omega
  refine ⟨_, rfl, ?_, ?_, ?_, Or.inl ⟨rfl, hn.le, rfl, rfl, rfl⟩, fun i => ?_, nofun, nofun, nofun,
    ?_, decide_eq_true hlong, rfl⟩
  · simp [Request.start, hlong, Bio.counted]
  · simp [Request.start, Bio.counted, Bio.countsLast]
  · exact Heap.All.alloc Heap.All.empty ⟨rfl, rfl, rfl⟩
  · rw [if_neg]
    · rfl
    · rintro ⟨h1, h2⟩
      obtain rfl : i = 0 := Nat.lt_one_iff.mp h1
      exact h2 ⟨_, rfl, rfl⟩
  · exact Heap.All.alloc Heap.All.empty fun h => absurd rfl h

/-- A part that has not ended goes on, with the status it had, or with an error. -/
theorem touch (a : LongInv s n u e r x₀) {i : ℕ} {x : Bio U E} (hx : r.bios.get i = some x)
    (ho : x.pc.isOpen = true ∧ x.pc ≠ .owned) {f : Bio U E → Bio U E}
    (hf : (f x).pc.isOpen = true ∧ (f x).pc ≠ .owned) (hshape : (f x).LongShape u e i)
    {l : List (ReqObs U E)} (hh : l = r.hist ∧ (f x).biStatus = x.biStatus ∨
      l = .fail i :: r.hist ∧ (f x).biStatus ≠ 0) :
    ∃ x₀, LongInv s n u e { r with bios := r.bios.modify i f, hist := l } x₀ := by
  have hcount : ∀ y : Bio U E, y.pc.isOpen = true → y.counted = 1 ∧ y.countsLast = 0 := fun y h => by
    unfold Bio.counted Bio.countsLast
    cases hy : y.pc <;> rw [hy] at h <;> first | exact ⟨rfl, rfl⟩ | cases h
  have hsum : (r.bios.modify i f).sum Bio.counted = r.bios.sum Bio.counted := by
    rw [Heap.sum_modify hx, (hcount x ho.1).1, (hcount _ hf.1).1]
    ring
  have hlast : (r.bios.modify i f).sum Bio.countsLast = r.bios.sum Bio.countsLast := by
    rw [Heap.sum_modify hx, (hcount x ho.1).2, (hcount _ hf.1).2]
    ring
  have hopen : ∀ j, (r.bios.modify i f).At j (fun x => x.pc.isOpen = true) ↔
      r.bios.At j (fun x => x.pc.isOpen = true) := Heap.at_modify hx (iff_of_true hf.1 ho.1)
  have hmem : ∀ o ∈ l, o ∈ r.hist ∨ o = .fail i := fun o h => by
    rcases hh with ⟨rfl, -⟩ | ⟨rfl, -⟩
    · exact Or.inl h
    · exact (List.mem_cons.mp h).symm
  have hsub : ∀ o ∈ r.hist, o ∈ l := fun o h => by
    rcases hh with ⟨rfl, -⟩ | ⟨rfl, -⟩
    · exact h
    · exact List.mem_cons_of_mem _ h
  have hparts : handedParts l = handedParts r.hist := by
    rcases hh with ⟨rfl, -⟩ | ⟨rfl, -⟩
    · rfl
    · rw [handedParts_cons]
      exact List.append_nil _
  have hends : ∀ j, partEnds j l = partEnds j r.hist := fun j => by
    rcases hh with ⟨rfl, -⟩ | ⟨rfl, -⟩
    · rfl
    · rw [partEnds_cons]
      rfl
  -- an error of part `i` shows in its status
  have hbad : (f x).biStatus ≠ 0 → (∃ j, .fail j ∈ l) ∧ (l = r.hist → x.biStatus ≠ 0) := fun h => by
    rcases hh with ⟨rfl, he⟩ | ⟨rfl, -⟩
    · rw [he] at h
      exact ⟨a.status i x hx h, fun _ => h⟩
    · exact ⟨⟨i, List.mem_cons_self⟩, fun he => absurd (congrArg List.length he) (by simp)⟩
  have hkeep : x.biStatus ≠ 0 → (f x).biStatus ≠ 0 := fun h => by
    rcases hh with ⟨-, he⟩ | ⟨-, he⟩
    · rwa [he]
    · exact he
  have huser : ∃ y₀, (r.bios.modify i f).get 0 = some y₀ ∧ (y₀.pc = .owned ↔ x₀.pc = .owned) ∧
      (x₀.pc = .owned → y₀ = x₀) ∧ (x₀.biStatus ≠ 0 → y₀.biStatus ≠ 0) := by
    rw [Heap.get_modify]
    split_ifs with e
    · rw [← e, a.user] at hx
      cases hx
      exact ⟨f x₀, by rw [a.user]; rfl, iff_of_false hf.2 ho.2, fun h => absurd h ho.2, hkeep⟩
    · exact ⟨x₀, a.user, Iff.rfl, fun _ => rfl, id⟩
  obtain ⟨y₀, hy₀, hown, heq, hstat⟩ := huser
  refine ⟨y₀, hy₀, ?_, ?_, a.shape.modify_at hx fun _ => hshape, ?_, fun j => ?_, fun o ho => ?_,
    fun j hj => ?_, fun j st hj hst => ?_, ?_, a.long, a.safe⟩
  · rw [hsum]
    exact a.ctx
  · rw [hsum, hlast]
    exact a.last
  · rw [hparts, Heap.next_modify]
    refine a.parts.imp (fun ⟨h1, h2⟩ => ?_) fun ⟨h1, h2⟩ => ⟨fun h => h1 (hown.mp h), h2⟩
    rw [heq h1]
    exact ⟨h1, h2⟩
  · rw [hends, a.ends]
    exact if_congr (and_congr (by rw [Heap.next_modify]) (not_congr (hopen j).symm)) rfl rfl
  · rcases hmem o ho with h | rfl
    · exact a.noEnd o h
    · exact ⟨rfl, rfl⟩
  · by_cases e : j = i
    · subst e
      by_cases hs : (f x).biStatus ≠ 0
      · exact Or.inl ⟨f x, Heap.get_modify_self hx f, hf.1, hs⟩
      · rcases hh with ⟨rfl, he⟩ | ⟨-, he⟩
        · refine (a.failed j hj).imp_left fun ⟨y, hy, h⟩ => ?_
          cases hx.symm.trans hy
          exact absurd (he ▸ h.2) hs
        · exact absurd he hs
    · have hj' : .fail j ∈ r.hist := (hmem _ hj).resolve_right fun h => e (ReqObs.fail.inj h)
      refine (a.failed j hj').imp (fun ⟨y, hy, h⟩ => ⟨y, ?_, h⟩) fun ⟨st, hst, h⟩ =>
        ⟨st, hst, hsub _ h⟩
      rw [Heap.get_modify_ne e]
      exact hy
  · exact hstat (a.passed j st ((hmem _ hj).resolve_right nofun) hst)
  · have hst : r.bios.All fun _ x => x.biStatus ≠ 0 → ∃ i, .fail i ∈ l := fun j y hy h =>
      (a.status j y hy h).imp fun _ h => hsub _ h
    exact hst.modify_at hx fun _ h => (hbad h).1

/-- An error of a part goes to the user's bio. -/
theorem raise (a : LongInv s n u e r x₀) {st : ℕ} (hst : st ≠ 0) (hbad : ∃ j, .fail j ∈ r.hist) :
    LongInv s n u e { r with bios := r.bios.modify 0 fun y => { y with biStatus := st } }
      { x₀ with biStatus := st } := by
  have hsum : ∀ w : Bio U E → ℤ, (∀ y, w { y with biStatus := st } = w y) →
      (r.bios.modify 0 fun y => { y with biStatus := st }).sum w = r.bios.sum w := fun w hw => by
    rw [Heap.sum_modify a.user, hw]
    ring
  have hopen : ∀ j, (r.bios.modify 0 fun y => { y with biStatus := st }).At j
      (fun x => x.pc.isOpen = true) ↔ r.bios.At j (fun x => x.pc.isOpen = true) :=
    Heap.at_modify a.user Iff.rfl
  refine ⟨Heap.get_modify_self a.user _, ?_, ?_, a.shape.modify fun _ _ h => h, ?_, fun j => ?_,
    a.noEnd, fun j hj => ?_, fun _ _ _ _ => hst, a.status.modify fun _ _ _ _ => hbad, a.long,
    a.safe⟩
  · rw [hsum _ fun _ => rfl]
    exact a.ctx
  · rw [hsum _ fun _ => rfl, hsum _ fun _ => rfl]
    exact a.last
  · rw [Heap.next_modify]
    exact a.parts
  · rw [a.ends]
    exact if_congr (and_congr (by rw [Heap.next_modify]) (not_congr (hopen j).symm)) rfl rfl
  · refine (a.failed j hj).imp_left fun ⟨y, hy, h1, h2⟩ => ?_
    by_cases e : j = 0
    · subst e
      cases a.user.symm.trans hy
      exact ⟨_, Heap.get_modify_self a.user _, h1, hst⟩
    · exact ⟨y, by rw [Heap.get_modify_ne e]; exact hy, h1, h2⟩

/-- A part ends, with the status that the user's bio has taken over. -/
theorem close (a : LongInv s n u e r x₀) {i : ℕ} {x : Bio U E} (hx : r.bios.get i = some x)
    (ho : x.pc.isOpen = true ∧ x.pc ≠ .owned) (hst : x.biStatus ≠ 0 → x₀.biStatus ≠ 0) :
    ∃ x₀, LongInv s n u e { r with
      bios := r.bios.modify i fun x => { x with pc := .merged }
      hist := .partEnd i x.biStatus :: r.hist } x₀ := by
  have hcount : x.counted = 1 ∧ x.countsLast = 0 := by
    obtain ⟨ho, -⟩ := ho
    unfold Bio.counted Bio.countsLast
    cases hp : x.pc <;> rw [hp] at ho <;> first | exact ⟨rfl, rfl⟩ | cases ho
  have hsum : (r.bios.modify i fun x => { x with pc := .merged }).sum Bio.counted =
      r.bios.sum Bio.counted := by
    rw [Heap.sum_modify hx, hcount.1]
    exact Int.sub_add_cancel _ 1
  have hlast : (r.bios.modify i fun x => { x with pc := .merged }).sum Bio.countsLast =
      r.bios.sum Bio.countsLast := by
    rw [Heap.sum_modify hx, hcount.2, Int.sub_zero]
    exact Int.add_zero _
  have hlt := Heap.lt_next_of_get hx
  have huser : ∃ y₀, (r.bios.modify i fun x => { x with pc := .merged }).get 0 = some y₀ ∧
      (y₀.pc = .owned ↔ x₀.pc = .owned) ∧ (x₀.pc = .owned → y₀ = x₀) ∧
      y₀.biStatus = x₀.biStatus := by
    rw [Heap.get_modify]
    split_ifs with e
    · rw [← e, a.user] at hx
      cases hx
      exact ⟨{ x₀ with pc := .merged }, by rw [a.user]; rfl,
        iff_of_false (fun h => nomatch h) ho.2, fun h => absurd h ho.2, rfl⟩
    · exact ⟨x₀, a.user, Iff.rfl, fun _ => rfl, rfl⟩
  obtain ⟨y₀, hy₀, hown, heq, hstat⟩ := huser
  refine ⟨y₀, hy₀, ?_, ?_, a.shape.modify_at hx fun _ => trivial, ?_, fun j => ?_, fun o ho => ?_,
    fun j hj => ?_, fun j st hj hne => ?_, ?_, a.long, a.safe⟩
  · rw [hsum]
    exact a.ctx
  · rw [hsum, hlast]
    exact a.last
  · rw [handedParts_cons, Heap.next_modify]
    change _ ∧ _ ∧ _ ∧ _ ∧ handedParts r.hist ++ [] = _ ∨ _ ∧ _ ∧ handedParts r.hist ++ [] = _
    rw [List.append_nil]
    refine a.parts.imp (fun ⟨h1, h2⟩ => ?_) fun ⟨h1, h2⟩ => ⟨fun h => h1 (hown.mp h), h2⟩
    rw [heq h1]
    exact ⟨h1, h2⟩
  · rw [partEnds_cons, a.ends]
    have hother : j ≠ i → ((r.bios.modify i fun x => { x with pc := .merged }).At j
        (fun x => x.pc.isOpen = true) ↔ r.bios.At j fun x => x.pc.isOpen = true) := fun e => by
      unfold Heap.At
      rw [Heap.get_modify_ne e]
    by_cases e : j = i
    · subst e
      rw [if_neg fun h => h.2 ⟨x, hx, ho.1⟩, if_pos (by exact decide_eq_true rfl), if_pos]
      refine ⟨by rw [Heap.next_modify]; exact hlt, fun ⟨y, hy, h⟩ => ?_⟩
      cases (Heap.get_modify_self hx _).symm.trans hy
      cases h
    · rw [if_neg (show ¬ (ReqObs.partEnd i x.biStatus : ReqObs U E).isPartEnd j = true from
        fun h => e (of_decide_eq_true h).symm)]
      exact if_congr (and_congr (by rw [Heap.next_modify]) (not_congr (hother e).symm)) rfl rfl
  · rcases List.mem_cons.mp ho with rfl | ho
    · exact ⟨rfl, rfl⟩
    · exact a.noEnd o ho
  · have hj' : .fail j ∈ r.hist := (List.mem_cons.mp hj).resolve_left nofun
    rcases a.failed j hj' with ⟨y, hy, h1, h2⟩ | ⟨st, hst, h⟩
    · by_cases e : j = i
      · subst e
        cases hx.symm.trans hy
        exact Or.inr ⟨_, h2, List.mem_cons_self⟩
      · exact Or.inl ⟨y, by rw [Heap.get_modify_ne e]; exact hy, h1, h2⟩
    · exact Or.inr ⟨st, hst, List.mem_cons_of_mem _ h⟩
  · rw [hstat]
    rcases List.mem_cons.mp hj with h | h
    · cases h
      exact hst hne
    · exact a.passed j st h hne
  · have hall : r.bios.All fun _ y => y.biStatus ≠ 0 →
        ∃ j, .fail j ∈ (.partEnd i x.biStatus :: r.hist : List (ReqObs U E)) := fun j y hy h =>
      (a.status j y hy h).imp fun _ h => List.mem_cons_of_mem _ h
    exact hall.modify fun _ _ h => h

/-- `bio_endio` of a part whose handler is `lbz_long_bio_endio`. -/
theorem merge (a : LongInv s n u e r x₀) {i : ℕ} {x : Bio U E} (hx : r.bios.get i = some x)
    (ho : x.pc.isOpen = true ∧ x.pc ≠ .owned) (hp : x.biPrivate = .ctx) (he : x.biEndIo = .long) :
    ∃ x₀, LongInv s n u e (r.bioEndio i x) x₀ := by
  have heq : r.bioEndio i x = { r with
      bios := (r.bios.modify i fun x => { x with pc := .merged }).modify 0 fun y =>
        if x.biStatus ≠ 0 ∧ x₀.biStatus = 0 then { y with biStatus := x.biStatus } else y
      hist := .partEnd i x.biStatus :: r.hist } := by
    simp only [Request.bioEndio, he, Request.longMerge, hp, a.ctx, a.user]
  rw [heq]
  by_cases hraise : x.biStatus ≠ 0 ∧ x₀.biStatus = 0
  · have hi : i ≠ 0 := by
      rintro rfl
      cases a.user.symm.trans hx
      exact hraise.1 hraise.2
    have a' := a.raise hraise.1 (a.status i x hx hraise.1)
    have hx' : (r.bios.modify 0 fun y => { y with biStatus := x.biStatus }).get i = some x := by
      rw [Heap.get_modify_ne hi]
      exact hx
    obtain ⟨y₀, b⟩ := a'.close hx' ho fun h => h
    simp only [if_pos hraise]
    rw [Heap.modify_comm hi]
    exact ⟨y₀, b⟩
  · have hid : (r.bios.modify i fun x => { x with pc := .merged }).modify 0 (fun y =>
        if x.biStatus ≠ 0 ∧ x₀.biStatus = 0 then { y with biStatus := x.biStatus } else y) =
        r.bios.modify i fun x => { x with pc := .merged } := by
      simp only [if_neg hraise]
      exact Heap.modify_id _ _
    rw [hid]
    exact a.close hx ho fun h h0 => hraise ⟨h, h0⟩

/-- A block is split off. -/
theorem split (a : LongInv s n u e r x₀) (hown : x₀.pc = .owned)
    (hlt : maxSectors < x₀.sectors) : ∃ x₀', LongInv s n u e (r.split x₀) x₀' := by
  obtain ⟨-, h1, h2, h3, h4⟩ := a.parts.resolve_right fun h => h.1 hown
  have hpos : 1 ≤ r.bios.next := Heap.lt_next_of_get a.user
  have hne : (0 : ℕ) ≠ r.bios.next := by omega
  have hn : r.bios.next < n := by
    unfold maxSectors at hlt h3
    omega
  have hc : x₀.counted = 1 ∧ x₀.countsLast = 0 := by
    unfold Bio.counted Bio.countsLast
    rw [hown]
    exact ⟨rfl, rfl⟩
  have hshape := a.shape 0 x₀ a.user
  rw [Request.split, a.ctx]
  simp only
  set f : Bio U E → Bio U E := fun x =>
    { x with biSector := x.biSector + maxSectors, sectors := x.sectors - maxSectors } with hf
  have hself : (r.bios.modify 0 f).get 0 = some (f x₀) := Heap.get_modify_self a.user f
  have hnext : (r.bios.modify 0 f).next = r.bios.next := Heap.next_modify ..
  have hsum : (r.bios.modify 0 f).sum Bio.counted = r.bios.sum Bio.counted := by
    rw [Heap.sum_modify a.user]
    exact Int.sub_add_cancel _ _
  have hlast : (r.bios.modify 0 f).sum Bio.countsLast = r.bios.sum Bio.countsLast := by
    rw [Heap.sum_modify a.user]
    exact Int.sub_add_cancel _ _
  have hrem : 0 < r.bios.sum Bio.counted := by
    have := Heap.le_sum Bio.counted_nonneg a.user
    rw [hc.1] at this
    omega
  refine ⟨f x₀, ?_, ?_, ?_, ?_, Or.inl ⟨hown, ?_, ?_, ?_, ?_⟩, fun j => ?_, fun o ho => ?_,
    fun j hj => ?_, fun j st hj => ?_, ?_, a.long, a.safe⟩
  · rw [Heap.get_alloc, hnext, if_neg hne]
    exact hself
  · rw [Heap.sum_alloc, hsum]
    rfl
  · rw [Heap.sum_alloc, Heap.sum_alloc, hsum, hlast, a.last, if_neg hrem.ne']
    exact (if_neg (show r.bios.sum Bio.counted + 1 ≠ 0 by omega)).symm
  · exact Heap.All.alloc (Heap.All.modify (f := f) a.shape fun _ _ h => h) ⟨rfl, rfl⟩
  · rw [Heap.next_alloc, hnext]
    omega
  · rw [Heap.next_alloc, hnext]
    change x₀.biSector + maxSectors = _
    rw [h2]
    unfold maxSectors
    omega
  · rw [Heap.next_alloc, hnext]
    change x₀.sectors - maxSectors = _
    rw [h3]
    unfold maxSectors
    omega
  · rw [Heap.next_alloc, hnext, handedParts_cons, h4, h2]
    rw [show r.bios.next + 1 - 1 = r.bios.next - 1 + 1 by omega, blocksFrom_succ]
    rfl
  · rw [partEnds_cons]
    refine (Nat.add_zero _).trans ((a.ends j).trans (if_congr ?_ rfl rfl))
    rw [Heap.next_alloc, hnext]
    by_cases e1 : j = r.bios.next
    · subst e1
      refine iff_of_false (fun h => lt_irrefl _ h.1) fun h => h.2 ⟨x₀.splitOff, ?_, rfl⟩
      rw [Heap.get_alloc, hnext, if_pos rfl]
    · have hat : ((r.bios.modify 0 f).alloc x₀.splitOff).At j (fun x => x.pc.isOpen = true) ↔
          r.bios.At j fun x => x.pc.isOpen = true :=
        (Heap.at_alloc (by rw [hnext]; exact e1)).trans (Heap.at_modify a.user Iff.rfl j)
      exact and_congr (by omega) (not_congr hat.symm)
  · rcases List.mem_cons.mp ho with rfl | ho
    · exact ⟨rfl, rfl⟩
    · exact a.noEnd o ho
  · rcases a.failed j ((List.mem_cons.mp hj).resolve_left nofun) with ⟨y, hy, h⟩ | ⟨st, hst, h⟩
    · left
      have hj' := (Heap.lt_next_of_get hy).ne
      by_cases e0 : j = 0
      · subst e0
        cases a.user.symm.trans hy
        exact ⟨f x₀, by rw [Heap.get_alloc, hnext, if_neg hne]; exact hself, h⟩
      · refine ⟨y, ?_, h⟩
        rw [Heap.get_alloc, hnext, if_neg hj', Heap.get_modify_ne e0]
        exact hy
    · exact Or.inr ⟨st, hst, List.mem_cons_of_mem _ h⟩
  · exact a.passed j st ((List.mem_cons.mp hj).resolve_left nofun)
  · have hall : r.bios.All fun _ y => y.biStatus ≠ 0 →
        ∃ j, .fail j ∈ (.handed x₀.biSector maxSectors :: r.hist : List (ReqObs U E)) :=
      fun j y hy h => (a.status j y hy h).imp fun _ h => List.mem_cons_of_mem _ h
    exact Heap.All.alloc (Heap.All.modify (f := f) hall fun _ _ h => h) fun h => absurd rfl h

/-- The user's bio goes to the scheduler. -/
theorem submitLast (a : LongInv s n u e r x₀) (hown : x₀.pc = .owned)
    (hle : x₀.sectors ≤ maxSectors) : ∃ x₀', LongInv s n u e (r.submitLast x₀) x₀' := by
  obtain ⟨-, h1, h2, h3, h4⟩ := a.parts.resolve_right fun h => h.1 hown
  have hpos : 1 ≤ r.bios.next := Heap.lt_next_of_get a.user
  have hn : r.bios.next = n := by
    unfold maxSectors at hle h3
    omega
  have heq : r.submitLast x₀ = { r with
      bios := r.bios.modify 0 fun x => { x with biPrivate := .ctx, biEndIo := .long, pc := .sched }
      hist := .handed x₀.biSector x₀.sectors :: r.hist } := by
    simp only [Request.submitLast, a.long, if_true]
  rw [heq]
  set f : Bio U E → Bio U E := fun x =>
    { x with biPrivate := .ctx, biEndIo := .long, pc := .sched } with hf
  have hself : (r.bios.modify 0 f).get 0 = some (f x₀) := Heap.get_modify_self a.user f
  have hc : x₀.counted = 1 ∧ x₀.countsLast = 0 := by
    unfold Bio.counted Bio.countsLast
    rw [hown]
    exact ⟨rfl, rfl⟩
  have hsum : (r.bios.modify 0 f).sum Bio.counted = r.bios.sum Bio.counted := by
    rw [Heap.sum_modify a.user, hc.1]
    exact Int.sub_add_cancel _ _
  have hlast : (r.bios.modify 0 f).sum Bio.countsLast = r.bios.sum Bio.countsLast := by
    rw [Heap.sum_modify a.user, hc.2]
    exact Int.sub_add_cancel _ _
  refine ⟨f x₀, hself, ?_, ?_, a.shape.modify_at a.user fun _ => ⟨rfl, rfl⟩,
    Or.inr ⟨nofun, ?_, ?_⟩, fun j => ?_, fun o ho => ?_, fun j hj => ?_, fun j st hj => ?_, ?_,
    a.long, a.safe⟩
  · rw [hsum]
    exact a.ctx
  · rw [hsum, hlast]
    exact a.last
  · rw [Heap.next_modify]
    exact hn
  · have hs : x₀.sectors = maxSectors := by
      rw [h3, hn]
      unfold maxSectors
      omega
    rw [handedParts_cons, h4, h2, hs, hn]
    conv_rhs => rw [show n = n - 1 + 1 by omega, blocksFrom_succ]
    rfl
  · rw [partEnds_cons]
    refine (Nat.add_zero _).trans ((a.ends j).trans (if_congr ?_ rfl rfl))
    rw [Heap.next_modify]
    refine and_congr Iff.rfl (not_congr (Heap.at_modify a.user ?_ j).symm)
    exact iff_of_true rfl (congrArg BioPc.isOpen hown)
  · rcases List.mem_cons.mp ho with rfl | ho
    · exact ⟨rfl, rfl⟩
    · exact a.noEnd o ho
  · rcases a.failed j ((List.mem_cons.mp hj).resolve_left nofun) with ⟨y, hy, h⟩ | ⟨st, hst, h⟩
    · left
      by_cases e0 : j = 0
      · subst e0
        cases a.user.symm.trans hy
        exact ⟨f x₀, hself, rfl, h.2⟩
      · exact ⟨y, by rw [Heap.get_modify_ne e0]; exact hy, h⟩
    · exact Or.inr ⟨st, hst, List.mem_cons_of_mem _ h⟩
  · exact a.passed j st ((List.mem_cons.mp hj).resolve_left nofun)
  · have hall : r.bios.All fun _ y => y.biStatus ≠ 0 →
        ∃ j, .fail j ∈ (.handed x₀.biSector x₀.sectors :: r.hist : List (ReqObs U E)) :=
      fun j y hy h => (a.status j y hy h).imp fun _ h => List.mem_cons_of_mem _ h
    exact hall.modify fun _ _ h => h

/-- Part `i` has been counted down. -/
theorem retire (a : LongInv s n u e r x₀) {i : ℕ} {x : Bio U E} (hx : r.bios.get i = some x)
    (hm : x.pc = .merged) {h : Heap (Bio U E)} (hnext : h.next = r.bios.next)
    (hother : ∀ j ≠ i, h.get j = r.bios.get j)
    (hself : ∀ y, h.get i = some y → y.biStatus = x.biStatus ∧ (y.pc = .last ∨ y.pc = .waiting ∧ i = 0))
    (h0 : i = 0 → ∃ y, h.get 0 = some y)
    (hlast : h.sum Bio.countsLast = if h.sum Bio.counted = 0 then 1 else 0) :
    ∃ x₀, LongInv s n u e { r with
      ctx := some { userPrivateLong := .user u, userEndioLong := .user e
                    remaining := h.sum Bio.counted }
      bios := h } x₀ := by
  have hclosed : ∀ y, h.get i = some y → y.pc.isOpen = false ∧ y.pc ≠ .owned := fun y hy => by
    rcases (hself y hy).2 with hp | ⟨hp, -⟩ <;> rw [hp] <;> exact ⟨rfl, nofun⟩
  have hall : ∀ Φ : ℕ → Bio U E → Prop, r.bios.All Φ → (∀ y, h.get i = some y → Φ i y) → h.All Φ :=
    fun Φ hΦ hi j y hy => by
      by_cases e : j = i
      · subst e
        exact hi y hy
      · exact hΦ j y (by rw [← hother j e]; exact hy)
  have hopen : ∀ j, h.At j (fun x => x.pc.isOpen = true) ↔ r.bios.At j fun x => x.pc.isOpen = true :=
    fun j => by
      by_cases e : j = i
      · subst e
        refine iff_of_false (fun ⟨y, hy, ho⟩ => ?_) fun ⟨y, hy, ho⟩ => ?_
        · exact absurd ((hclosed y hy).1.symm.trans ho) Bool.false_ne_true
        · cases hx.symm.trans hy
          have ho : x.pc.isOpen = true := ho
          rw [hm] at ho
          cases ho
      · unfold Heap.At
        rw [hother j e]
  have huser : ∃ y₀, h.get 0 = some y₀ ∧ (x₀.pc = .owned → y₀ = x₀) ∧
      (x₀.pc ≠ .owned → y₀.pc ≠ .owned) ∧ y₀.biStatus = x₀.biStatus := by
    by_cases e : i = 0
    · obtain ⟨y, hy⟩ := h0 e
      subst e
      cases a.user.symm.trans hx
      exact ⟨y, hy, fun h => (by rw [hm] at h; cases h), fun _ => (hclosed y hy).2, (hself y hy).1⟩
    · exact ⟨x₀, by rw [hother 0 (Ne.symm e)]; exact a.user, fun _ => rfl, id, rfl⟩
  obtain ⟨y₀, hy₀, heq, hne, hstat⟩ := huser
  refine ⟨y₀, hy₀, rfl, hlast, hall _ a.shape fun y hy => ?_, ?_, fun j => ?_, a.noEnd,
    fun j hj => ?_, fun j st hj hst => ?_, hall _ a.status fun y hy h => ?_, a.long, a.safe⟩
  · unfold Bio.LongShape
    rcases (hself y hy).2 with hp | ⟨hp, hi⟩ <;> rw [hp]
    · trivial
    · exact hi
  · rw [hnext]
    refine a.parts.imp (fun ⟨h1, h2⟩ => ?_) fun ⟨h1, h2⟩ => ⟨hne h1, h2⟩
    rw [heq h1]
    exact ⟨h1, h2⟩
  · rw [a.ends]
    exact if_congr (and_congr (by rw [hnext]) (not_congr (hopen j).symm)) rfl rfl
  · refine (a.failed j hj).imp_left fun ⟨y, hy, h1, h2⟩ => ⟨y, ?_, h1, h2⟩
    rw [hother j]
    · exact hy
    · rintro rfl
      cases hx.symm.trans hy
      rw [hm] at h1
      cases h1
  · rw [hstat]
    exact a.passed j st hj hst
  · rw [(hself y hy).1] at h
    exact a.status i x hx h

theorem longDec (a : LongInv s n u e r x₀) {i : ℕ} {x : Bio U E} (hx : r.bios.get i = some x)
    (hm : x.pc = .merged) : ∃ x₀, LongInv s n u e (r.longDec i) x₀ := by
  have hc : x.counted = 1 ∧ x.countsLast = 0 := by
    unfold Bio.counted Bio.countsLast
    rw [hm]
    exact ⟨rfl, rfl⟩
  have hpos : 0 < r.bios.sum Bio.counted := by
    have := Heap.le_sum Bio.counted_nonneg hx
    omega
  have hlast : r.bios.sum Bio.countsLast = 0 := by rw [a.last, if_neg hpos.ne']
  -- whatever is left of the bio, it is counted no more
  have key : ∀ h : Heap (Bio U E), h.next = r.bios.next → (∀ j ≠ i, h.get j = r.bios.get j) →
      (∀ y, h.get i = some y → y.biStatus = x.biStatus ∧ (y.pc = .last ∨ y.pc = .waiting ∧ i = 0)) →
      (i = 0 → ∃ y, h.get 0 = some y) → h.sum Bio.counted = r.bios.sum Bio.counted - 1 →
      (h.sum Bio.countsLast = if r.bios.sum Bio.counted - 1 = 0 then 1 else 0) →
      ∃ x₀, LongInv s n u e { r with
        ctx := some { userPrivateLong := .user u, userEndioLong := .user e
                      remaining := r.bios.sum Bio.counted - 1 }
        bios := h } x₀ := fun h h1 h2 h3 h4 h5 h6 => by
    rw [← h5] at h6 ⊢
    exact a.retire hx hm h1 h2 h3 h4 h6
  rw [Request.longDec, a.ctx]
  simp only
  by_cases hz : r.bios.sum Bio.counted - 1 = 0
  · rw [if_pos hz]
    have hself := Heap.get_modify_self hx fun x => { x with pc := .last }
    refine key _ (Heap.next_modify ..) (fun j hj => Heap.get_modify_ne hj _) (fun y hy => ?_)
      (fun hi => by subst hi; exact ⟨_, hself⟩) ?_ ?_
    · cases hself.symm.trans hy
      exact ⟨rfl, Or.inl rfl⟩
    · rw [Heap.sum_modify hx, hc.1]
      exact Int.add_zero _
    · rw [Heap.sum_modify hx, hc.2, hlast, if_pos hz]
      rfl
  · rw [if_neg hz]
    by_cases hi : i = 0
    · subst hi
      rw [if_pos rfl]
      have hself := Heap.get_modify_self hx fun x => { x with pc := .waiting }
      refine key _ (Heap.next_modify ..) (fun j hj => Heap.get_modify_ne hj _) (fun y hy => ?_)
        (fun _ => ⟨_, hself⟩) ?_ ?_
      · cases hself.symm.trans hy
        exact ⟨rfl, Or.inr ⟨rfl, rfl⟩⟩
      · rw [Heap.sum_modify hx, hc.1]
        exact Int.add_zero _
      · rw [Heap.sum_modify hx, hc.2, hlast, if_neg hz]
        rfl
    · rw [if_neg hi]
      have hself : (r.bios.free i).get i = none := by rw [Heap.get_free, if_pos rfl]
      refine key _ (Heap.next_free ..) (fun j hj => by rw [Heap.get_free, if_neg hj])
        (fun y hy => ?_) (fun h => absurd h hi) ?_ ?_
      · rw [hself] at hy
        cases hy
      · rw [Heap.sum_free hx, hc.1]
      · rw [Heap.sum_free hx, hc.2, hlast, if_neg hz]
        rfl

/-- The last part has been counted: no other bio is left than it and the user's. -/
theorem longFinish (a : LongInv s n u e r x₀) (hn : 1 < n) {i : ℕ} {x : Bio U E}
    (hx : r.bios.get i = some x) (hl : x.pc = .last) : Done s n u e (r.longFinish i) := by
  have hone : 1 ≤ r.bios.sum Bio.countsLast := by
    have := Heap.le_sum Bio.countsLast_nonneg hx
    rw [Bio.countsLast, if_pos hl] at this
    exact this
  have hrem : r.bios.sum Bio.counted = 0 := by
    by_contra h
    rw [a.last, if_neg h] at hone
    omega
  have hpc : ∀ j y, r.bios.get j = some y → y.pc = .waiting ∧ j = 0 ∨ y.pc = .last := fun j y hy => by
    have h1 := Heap.eq_zero_of_sum_eq_zero Bio.counted_nonneg hrem hy
    have h2 := a.shape j y hy
    unfold Bio.counted at h1
    unfold Bio.LongShape at h2
    cases hp : y.pc <;> rw [hp] at h1 h2 <;> first
      | exact Or.inl ⟨rfl, h2⟩
      | exact Or.inr rfl
      | exact absurd h1 one_ne_zero
  have honly : ∀ j y, r.bios.get j = some y → j ≠ 0 → j = i := fun j y hy hj => by
    have hjl := (hpc j y hy).resolve_left fun h => hj h.2
    by_contra hne
    have := Heap.le_sum_add Bio.countsLast_nonneg hx hy (Ne.symm hne)
    rw [Bio.countsLast, Bio.countsLast, if_pos hl, if_pos hjl, a.last, if_pos hrem] at this
    omega
  have hclosed : ∀ j, ¬ r.bios.At j fun x => x.pc.isOpen = true := fun j ⟨y, hy, ho⟩ => by
    have ho : y.pc.isOpen = true := ho
    rcases hpc j y hy with ⟨h, -⟩ | h <;> rw [h] at ho <;> cases ho
  have hown : x₀.pc ≠ .owned := fun h => by
    rcases hpc 0 x₀ a.user with ⟨h', -⟩ | h' <;> rw [h] at h' <;> cases h'
  obtain ⟨-, hnext, hparts⟩ := a.parts.resolve_left fun h => hown h.1
  have hfail : ∀ j, .fail j ∈ r.hist → ∃ j st, st ≠ 0 ∧ .partEnd j st ∈ r.hist := fun j hj =>
    ⟨j, (a.failed j hj).resolve_left fun ⟨y, hy, h⟩ => hclosed j ⟨y, hy, h.1⟩⟩
  have hbad : x₀.biStatus ≠ 0 → ∃ j, .fail j ∈ r.hist := a.status 0 x₀ a.user
  have heq : r.longFinish i = { r with
      ctx := none
      bios := (r.bios.free 0).free i
      hist := .freeCtx :: .userEnd u e x₀.biStatus :: r.hist } := by
    simp only [Request.longFinish, a.ctx, a.user]
  rw [heq]
  refine ⟨fun j => ?_, ⟨[.freeCtx], x₀.biStatus, r.hist, rfl, (if_pos hn).symm, hparts, fun j hj => ?_,
    ⟨fun h => ?_, fun ⟨j, st, hst, h⟩ => a.passed j st h hst⟩,
    ⟨hbad, fun ⟨j, hj⟩ => ?_⟩, a.noEnd⟩, a.safe⟩
  · simp only [Heap.get_free]
    split_ifs with h1 h2
    · rfl
    · rfl
    · cases hg : r.bios.get j with
      | none => rfl
      | some y => exact absurd (honly j y hg h2) h1
  · rw [a.ends, if_pos ⟨hnext.symm ▸ hj, hclosed j⟩]
  · obtain ⟨j, hj⟩ := hbad h
    exact hfail j hj
  · obtain ⟨j', st, hst, h⟩ := hfail j hj
    exact a.passed j' st h hst

/-- A step of the scheduler or of the device. -/
theorem hookIo (a : LongInv s n u e r x₀) {i : ℕ} {x : Bio U E} (hx : r.bios.get i = some x)
    (hp : x.pc = .sched) : ∃ x₀, LongInv s n u e (r.hookIo i) x₀ := by
  have hs := a.shape i x hx
  simp only [Bio.LongShape, hp] at hs
  refine a.touch (f := fun x => { x with
      hook := some (x.biPrivate, x.biEndIo), biPrivate := .hook, biEndIo := .io, pc := .device })
    (l := r.hist) hx (Bio.open_of_pc (.inl hp)) ⟨rfl, nofun⟩ ?_ (Or.inl ⟨rfl, rfl⟩)
  exact congrArg some (Prod.ext hs.1 hs.2)

theorem endEarly (a : LongInv s n u e r x₀) {i : ℕ} {x : Bio U E} (hx : r.bios.get i = some x)
    (hp : x.pc = .sched) (st : ℕ) : ∃ x₀, LongInv s n u e (r.endEarly i x st) x₀ := by
  have hs := a.shape i x hx
  simp only [Bio.LongShape, hp] at hs
  have ho := Bio.open_of_pc (.inl hp)
  by_cases hst : st = 0
  · rw [Request.endEarly, if_pos hst]
    exact a.merge hx ho hs.1 hs.2
  · rw [Request.endEarly, if_neg hst]
    have hshape : Bio.LongShape u e i { x with biStatus := st } := by
      simp only [Bio.LongShape, hp]
      exact hs
    obtain ⟨y₀, b⟩ := a.touch (f := fun x => { x with biStatus := st }) hx ho ho hshape
      (Or.inr ⟨rfl, hst⟩)
    exact b.merge (Heap.get_modify_self hx _) ho hs.1 hs.2

theorem devEnd (a : LongInv s n u e r x₀) {devStatus : ℕ → ℕ → ℕ}
    (hok : ∀ st, devStatus st 0 = st) (herr : ∀ st er, er ≠ 0 → devStatus st er ≠ 0)
    {i : ℕ} {x : Bio U E} (hx : r.bios.get i = some x) (hp : x.pc = .device) (st : ℕ) :
    ∃ x₀, LongInv s n u e (r.devEnd devStatus i st) x₀ := by
  have hs := a.shape i x hx
  simp only [Bio.LongShape, hp] at hs
  refine a.touch (f := fun x => { x with biStatus := devStatus x.biStatus st, pc := .completed }) hx
    (Bio.open_of_pc (.inr (.inl hp))) ⟨rfl, nofun⟩ hs ?_
  by_cases hst : st = 0
  · subst hst
    exact Or.inl ⟨rfl, hok _⟩
  · exact Or.inr ⟨if_neg hst, herr _ _ hst⟩

theorem unhookIo (a : LongInv s n u e r x₀) {i : ℕ} {x : Bio U E} (hx : r.bios.get i = some x)
    (hp : x.pc = .completed) : ∃ x₀, LongInv s n u e (r.unhookIo i x) x₀ := by
  have hs := a.shape i x hx
  simp only [Bio.LongShape, hp] at hs
  -- once its pointers are back, the bio stands where one stands that was never hooked
  obtain ⟨y₀, b⟩ := a.touch (f := fun x => { x with
      biPrivate := .ctx, biEndIo := .long, hook := none, pc := .sched }) (l := r.hist) hx
    (Bio.open_of_pc (.inr (.inr hp))) ⟨rfl, nofun⟩ ⟨rfl, rfl⟩ (Or.inl ⟨rfl, rfl⟩)
  obtain ⟨z₀, c⟩ := b.merge (Heap.get_modify_self hx _) ⟨rfl, nofun⟩ rfl rfl
  refine ⟨z₀, ?_⟩
  have heq : r.unhookIo i x = ({ r with bios := r.bios.modify i fun x => { x with
        biPrivate := .ctx, biEndIo := .long, hook := none, pc := .sched } } : Request U E).bioEndio i
      { x with biPrivate := .ctx, biEndIo := .long, hook := none, pc := .sched } := by
    simp only [Request.unhookIo, hs, Request.bioEndio, Request.longMerge, a.ctx]
    by_cases hi : i = 0
    · subst hi
      cases a.user.symm.trans hx
      rw [Heap.get_modify_self hx, Heap.get_modify_self hx]
      simp only [Heap.modify_modify]
      rfl
    · rw [Heap.get_modify_ne (Ne.symm hi), Heap.get_modify_ne (Ne.symm hi), a.user]
      simp only [Heap.modify_modify]
      rfl
  rw [heq]
  exact c

/-- No step leads out of what is known of a long bio, except the one that gives it back. -/
theorem step (a : LongInv s n u e r x₀) (hn : 1 < n) {devStatus : ℕ → ℕ → ℕ}
    (hok : ∀ st, devStatus st 0 = st) (herr : ∀ st er, er ≠ 0 → devStatus st er ≠ 0)
    {ev : ReqEvent} {r' : Request U E} (hs : r.step devStatus ev = some r') :
    (∃ x₀, LongInv s n u e r' x₀) ∨ Done s n u e r' := by
  cases ev with
  | split =>
    obtain ⟨x, hx, ⟨hp, hlt⟩, rfl⟩ := Request.onBio_eq_some.mp hs
    cases a.user.symm.trans hx
    exact Or.inl (a.split hp hlt)
  | submitLast =>
    obtain ⟨x, hx, ⟨hp, hle⟩, rfl⟩ := Request.onBio_eq_some.mp hs
    cases a.user.symm.trans hx
    exact Or.inl (a.submitLast hp hle)
  | hook i =>
    obtain ⟨x, hx, hp, rfl⟩ := Request.onBio_eq_some.mp hs
    exact Or.inl (a.hookIo hx hp)
  | endEarly i st =>
    obtain ⟨x, hx, hp, rfl⟩ := Request.onBio_eq_some.mp hs
    exact Or.inl (a.endEarly hx hp st)
  | devEnd i st =>
    obtain ⟨x, hx, hp, rfl⟩ := Request.onBio_eq_some.mp hs
    exact Or.inl (a.devEnd hok herr hx hp st)
  | unhook i =>
    obtain ⟨x, hx, hp, rfl⟩ := Request.onBio_eq_some.mp hs
    exact Or.inl (a.unhookIo hx hp)
  | dec i =>
    obtain ⟨x, hx, hp, rfl⟩ := Request.onBio_eq_some.mp hs
    exact Or.inl (a.longDec hx hp)
  | finish i =>
    obtain ⟨x, hx, hp, rfl⟩ := Request.onBio_eq_some.mp hs
    exact Or.inr (a.longFinish hn hx hp)

/-- While the context lives, there is a step to make. -/
theorem enabled (a : LongInv s n u e r x₀) (devStatus : ℕ → ℕ → ℕ) :
    ∃ ev r', r.step devStatus ev = some r' := by
  have key : ∃ i x, r.bios.get i = some x ∧ x.pc ≠ .waiting ∧ (x.pc = .owned → i = 0) := by
    have hshape : ∀ i x, r.bios.get i = some x → x.pc = .owned → i = 0 := fun i x hx hp => by
      have := a.shape i x hx
      simp only [Bio.LongShape, hp] at this
      exact this.1
    by_contra hno
    have hwait : ∀ i x, r.bios.get i = some x → x.pc = .waiting := fun i x hx => by
      by_contra hp
      exact hno ⟨i, x, hx, hp, hshape i x hx⟩
    have h1 : r.bios.sum Bio.counted = 0 := Heap.sum_eq_zero fun i x hx => by
      rw [Bio.counted, hwait i x hx]
    have h2 : r.bios.sum Bio.countsLast = 0 := Heap.sum_eq_zero fun i x hx => by
      rw [Bio.countsLast, hwait i x hx]
      rfl
    have := a.last
    rw [h2, if_pos h1] at this
    exact zero_ne_one this
  obtain ⟨i, x, hx, hw, hown⟩ := key
  cases hp : x.pc with
  | owned =>
    obtain rfl := hown hp
    by_cases hlt : maxSectors < x.sectors
    · exact ⟨.split, _, Request.onBio_eq_some.mpr ⟨x, hx, ⟨hp, hlt⟩, rfl⟩⟩
    · exact ⟨.submitLast, _, Request.onBio_eq_some.mpr ⟨x, hx, ⟨hp, not_lt.mp hlt⟩, rfl⟩⟩
  | sched => exact ⟨.hook i, _, Request.onBio_eq_some.mpr ⟨x, hx, hp, rfl⟩⟩
  | device => exact ⟨.devEnd i 0, _, Request.onBio_eq_some.mpr ⟨x, hx, hp, rfl⟩⟩
  | completed => exact ⟨.unhook i, _, Request.onBio_eq_some.mpr ⟨x, hx, hp, rfl⟩⟩
  | merged => exact ⟨.dec i, _, Request.onBio_eq_some.mpr ⟨x, hx, hp, rfl⟩⟩
  | last => exact ⟨.finish i, _, Request.onBio_eq_some.mpr ⟨x, hx, hp, rfl⟩⟩
  | waiting => exact absurd hp hw

end LongInv

/-! ## A bio of one block -/

/-- Where the pointers of a bio of one block lead. -/
def Bio.SoleShape (u : U) (e : E) (x : Bio U E) : Prop :=
  match x.pc with
  | .owned | .sched => x.biPrivate = .user u ∧ x.biEndIo = .user e
  | .device | .completed => x.hook = some (.user u, .user e)
  | _ => False

/-- A bio of one block, until the user has it back. -/
structure SoleInv (s : ℕ) (u : U) (e : E) (r : Request U E) (x₀ : Bio U E) : Prop where
  user : r.bios.get 0 = some x₀
  only : ∀ i ≠ 0, r.bios.get i = none
  shape : x₀.SoleShape u e
  parts : x₀.pc = .owned ∧ x₀.biSector = s ∧ x₀.sectors = maxSectors ∧ handedParts r.hist = [] ∨
    x₀.pc ≠ .owned ∧ handedParts r.hist = blocksFrom s 1
  noEnd : ∀ o ∈ r.hist, o.isUserEnd = false ∧ o.isFreeCtx = false ∧ ∀ i, o.isPartEnd i = false
  status : x₀.biStatus ≠ 0 ↔ ∃ i, .fail i ∈ r.hist
  long : r.long = false
  safe : r.wild = false

namespace SoleInv

variable {s : ℕ} {u : U} {e : E} {r : Request U E} {x₀ : Bio U E}

theorem start : ∃ x₀, SoleInv s u e (Request.start s maxSectors u e) x₀ := by
  refine ⟨_, rfl, fun i hi => ?_, ⟨rfl, rfl⟩, Or.inl ⟨rfl, rfl, rfl, rfl⟩, nofun,
    iff_of_false (fun h => h rfl) nofun, rfl, rfl⟩
  rw [Request.start, Heap.get_alloc]
  exact (if_neg hi).trans (Heap.get_empty i)

/-- The bio goes on. -/
theorem touch (a : SoleInv s u e r x₀) {f : Bio U E → Bio U E} {l : List (ReqObs U E)}
    (hshape : (f x₀).SoleShape u e) (ho : (f x₀).pc ≠ .owned)
    (hparts : handedParts l = blocksFrom s 1)
    (hmem : ∀ o ∈ l, o ∈ r.hist ∨ o.isUserEnd = false ∧ o.isFreeCtx = false ∧
      ∀ i, o.isPartEnd i = false)
    (hst : (f x₀).biStatus ≠ 0 ↔ ∃ i, .fail i ∈ l) :
    SoleInv s u e { r with bios := r.bios.modify 0 f, hist := l } (f x₀) := by
  refine ⟨Heap.get_modify_self a.user f, fun i hi => ?_, hshape, Or.inr ⟨ho, hparts⟩,
    fun o h => (hmem o h).elim (a.noEnd o) id, hst, a.long, a.safe⟩
  rw [Heap.get_modify_ne hi]
  exact a.only i hi

theorem handed (a : SoleInv s u e r x₀) (ho : x₀.pc ≠ .owned) :
    handedParts r.hist = blocksFrom s 1 := (a.parts.resolve_left fun h => ho h.1).2

/-- `bio_endio` gives the bio back. -/
theorem bioEndio (a : SoleInv s u e r x₀) (ho : x₀.pc ≠ .owned) (hp : x₀.biPrivate = .user u)
    (he : x₀.biEndIo = .user e) : Done s 1 u e (r.bioEndio 0 x₀) := by
  have heq : r.bioEndio 0 x₀ = { r with
      bios := r.bios.free 0
      hist := .userEnd u e x₀.biStatus :: .partEnd 0 x₀.biStatus :: r.hist } := by
    simp only [Request.bioEndio, he, hp]
  have hend : ∀ i st, .partEnd i st ∉ r.hist := fun i st h =>
    absurd ((a.noEnd _ h).2.2 i) (by simp [ReqObs.isPartEnd])
  have hnone : partEnds 0 r.hist = 0 := List.countP_eq_zero.mpr fun o h => by
    rw [(a.noEnd o h).2.2 0]
    exact Bool.false_ne_true
  rw [heq]
  refine ⟨fun i => ?_, ⟨[], x₀.biStatus, .partEnd 0 x₀.biStatus :: r.hist, rfl,
    (if_neg (lt_irrefl 1)).symm, ?_, fun i hi => ?_, ⟨fun h => ⟨0, _, h, List.mem_cons_self⟩, ?_⟩,
    a.status.trans ⟨fun ⟨i, h⟩ => ⟨i, List.mem_cons_of_mem _ h⟩, ?_⟩, fun o h => ?_⟩, a.safe⟩
  · rw [Heap.get_free]
    split_ifs with hi
    · rfl
    · exact a.only i hi
  · rw [handedParts_cons, a.handed ho]
    rfl
  · obtain rfl := Nat.lt_one_iff.mp hi
    rw [partEnds_cons, hnone, ReqObs.isPartEnd, decide_eq_true rfl]
    rfl
  · rintro ⟨i, st, hst, h⟩
    rcases List.mem_cons.mp h with h | h
    · cases h
      exact hst
    · exact absurd h (hend i st)
  · exact fun ⟨i, h⟩ => ⟨i, (List.mem_cons.mp h).resolve_left nofun⟩
  · rcases List.mem_cons.mp h with rfl | h
    · exact ⟨rfl, rfl⟩
    · exact ⟨(a.noEnd o h).1, (a.noEnd o h).2.1⟩

theorem step (a : SoleInv s u e r x₀) {devStatus : ℕ → ℕ → ℕ}
    (hok : ∀ st, devStatus st 0 = st) (herr : ∀ st er, er ≠ 0 → devStatus st er ≠ 0)
    {ev : ReqEvent} {r' : Request U E} (hs : r.step devStatus ev = some r') :
    (∃ x₀, SoleInv s u e r' x₀) ∨ Done s 1 u e r' := by
  have hzero : ∀ i x, r.bios.get i = some x → i = 0 ∧ x = x₀ := fun i x hx => by
    by_cases hi : i = 0
    · subst hi
      exact ⟨rfl, Option.some.inj (hx.symm.trans a.user)⟩
    · exact absurd ((a.only i hi).symm.trans hx) nofun
  have hfail : ∀ o ∈ .fail 0 :: r.hist, o ∈ r.hist ∨ o.isUserEnd = false ∧ o.isFreeCtx = false ∧
      ∀ i, o.isPartEnd i = false := fun o h => by
    rcases List.mem_cons.mp h with rfl | h
    · exact Or.inr ⟨rfl, rfl, fun _ => rfl⟩
    · exact Or.inl h
  have hshape := a.shape
  unfold Bio.SoleShape at hshape
  cases ev with
  | split =>
    obtain ⟨x, hx, ⟨hp, hlt⟩, rfl⟩ := Request.onBio_eq_some.mp hs
    cases a.user.symm.trans hx
    obtain ⟨-, -, hsec, -⟩ := a.parts.resolve_right fun h => h.1 hp
    exact absurd hlt hsec.not_gt
  | submitLast =>
    obtain ⟨x, hx, ⟨hp, -⟩, rfl⟩ := Request.onBio_eq_some.mp hs
    cases a.user.symm.trans hx
    rw [hp] at hshape
    obtain ⟨-, h1, h2, h3⟩ := a.parts.resolve_right fun h => h.1 hp
    have heq : r.submitLast x₀ = { r with
        bios := r.bios.modify 0 fun x => { x with pc := .sched }
        hist := .handed x₀.biSector x₀.sectors :: r.hist } := by
      rw [Request.submitLast, a.long]
      rfl
    rw [heq]
    refine Or.inl ⟨_, a.touch hshape nofun ?_ (fun o h => ?_)
      (a.status.trans ⟨fun ⟨i, h⟩ => ⟨i, List.mem_cons_of_mem _ h⟩, fun ⟨i, h⟩ => ⟨i, ?_⟩⟩)⟩
    · rw [handedParts_cons, h1, h2, h3]
      rfl
    · rcases List.mem_cons.mp h with rfl | h
      · exact Or.inr ⟨rfl, rfl, fun _ => rfl⟩
      · exact Or.inl h
    · exact (List.mem_cons.mp h).resolve_left nofun
  | hook i =>
    obtain ⟨x, hx, hp, rfl⟩ := Request.onBio_eq_some.mp hs
    obtain ⟨rfl, rfl⟩ := hzero i x hx
    rw [hp] at hshape
    refine Or.inl ⟨_, a.touch (l := r.hist) ?_ nofun (a.handed (by rw [hp]; nofun))
      (fun o => Or.inl) a.status⟩
    exact congrArg some (Prod.ext hshape.1 hshape.2)
  | endEarly i st =>
    obtain ⟨x, hx, hp, rfl⟩ := Request.onBio_eq_some.mp hs
    obtain ⟨rfl, rfl⟩ := hzero i x hx
    rw [hp] at hshape
    have ho : x.pc ≠ .owned := by rw [hp]; nofun
    right
    by_cases hst : st = 0
    · rw [Request.endEarly, if_pos hst]
      exact a.bioEndio ho hshape.1 hshape.2
    · rw [Request.endEarly, if_neg hst]
      have b := a.touch (f := fun x => { x with biStatus := st }) (l := .fail 0 :: r.hist)
        (by unfold Bio.SoleShape; rw [hp]; exact hshape) ho
        (by rw [handedParts_cons, a.handed ho]; rfl)
        hfail
        (iff_of_true hst ⟨0, List.mem_cons_self⟩)
      exact b.bioEndio ho hshape.1 hshape.2
  | devEnd i st =>
    obtain ⟨x, hx, hp, rfl⟩ := Request.onBio_eq_some.mp hs
    obtain ⟨rfl, rfl⟩ := hzero i x hx
    rw [hp] at hshape
    have ho : x.pc ≠ .owned := by rw [hp]; nofun
    left
    by_cases hst : st = 0
    · subst hst
      exact ⟨_, a.touch (f := fun x => { x with
        biStatus := devStatus x.biStatus 0, pc := .completed }) (l := r.hist) hshape nofun
        (a.handed ho) (fun o => Or.inl) (by rw [← a.status, hok])⟩
    · rw [Request.devEnd, if_neg hst]
      exact ⟨_, a.touch hshape nofun (by rw [handedParts_cons, a.handed ho]; rfl)
        hfail
        (iff_of_true (herr _ _ hst) ⟨0, List.mem_cons_self⟩)⟩
  | unhook i =>
    obtain ⟨x, hx, hp, rfl⟩ := Request.onBio_eq_some.mp hs
    obtain ⟨rfl, rfl⟩ := hzero i x hx
    rw [hp] at hshape
    have b := a.touch (f := fun x => { x with
        biPrivate := .user u, biEndIo := .user e, hook := none, pc := .sched }) (l := r.hist)
      ⟨rfl, rfl⟩ nofun (a.handed (by rw [hp]; nofun)) (fun o => Or.inl) a.status
    have c := b.bioEndio nofun rfl rfl
    right
    simp only [Request.bioEndio, Heap.free_modify] at c
    simp only [Request.unhookIo, hshape, Request.bioEndio, Heap.free_modify]
    exact c
  | dec i =>
    obtain ⟨x, hx, hp, -⟩ := Request.onBio_eq_some.mp hs
    obtain ⟨rfl, rfl⟩ := hzero i x hx
    rw [hp] at hshape
    exact hshape.elim
  | finish i =>
    obtain ⟨x, hx, hp, -⟩ := Request.onBio_eq_some.mp hs
    obtain ⟨rfl, rfl⟩ := hzero i x hx
    rw [hp] at hshape
    exact hshape.elim

theorem enabled (a : SoleInv s u e r x₀) (devStatus : ℕ → ℕ → ℕ) :
    ∃ ev r', r.step devStatus ev = some r' := by
  have hshape := a.shape
  unfold Bio.SoleShape at hshape
  cases hp : x₀.pc with
  | owned =>
    obtain ⟨-, -, hsec, -⟩ := a.parts.resolve_right fun h => h.1 hp
    exact ⟨.submitLast, _, Request.onBio_eq_some.mpr ⟨x₀, a.user, ⟨hp, hsec.le⟩, rfl⟩⟩
  | sched => exact ⟨.hook 0, _, Request.onBio_eq_some.mpr ⟨x₀, a.user, hp, rfl⟩⟩
  | device => exact ⟨.devEnd 0 0, _, Request.onBio_eq_some.mpr ⟨x₀, a.user, hp, rfl⟩⟩
  | completed => exact ⟨.unhook 0, _, Request.onBio_eq_some.mpr ⟨x₀, a.user, hp, rfl⟩⟩
  | merged | last | waiting => rw [hp] at hshape; exact hshape.elim

end SoleInv

/-! ## Every run ends -/

/-- How many steps a bio has before it, at most. -/
def Bio.todo (x : Bio U E) : ℤ :=
  match x.pc with
  | .owned => x.sectors + 6
  | .sched => 5
  | .device => 4
  | .completed => 3
  | .merged => 2
  | .last => 1
  | .waiting => 0

theorem Bio.todo_nonneg (x : Bio U E) : 0 ≤ x.todo := by
  unfold todo
  split <;> omega

namespace Request

variable {r : Request U E} {i : ℕ} {x : Bio U E}

theorem todo_modify (hx : r.bios.get i = some x) {f : Bio U E → Bio U E}
    (hf : (f x).todo < x.todo) : (r.bios.modify i f).sum Bio.todo < r.bios.sum Bio.todo := by
  rw [Heap.sum_modify hx]
  omega

theorem todo_free {h : Heap (Bio U E)} (hx : h.get i = some x) :
    (h.free i).sum Bio.todo ≤ h.sum Bio.todo := by
  rw [Heap.sum_free hx]
  have := x.todo_nonneg
  omega

theorem todo_longMerge (hx : r.bios.get i = some x) (ho : 3 ≤ x.todo) {y : Bio U E}
    (hsafe : (r.longMerge i y).wild = false) :
    (r.longMerge i y).bios.sum Bio.todo < r.bios.sum Bio.todo := by
  revert hsafe
  unfold longMerge
  split
  · rename_i z _ _ hz
    intro _
    have h1 : (r.bios.modify i fun x => { x with pc := .merged }).sum Bio.todo
        < r.bios.sum Bio.todo := todo_modify hx (show (2 : ℤ) < x.todo by omega)
    obtain ⟨z', hz'⟩ : ∃ z', (r.bios.modify i fun x => { x with pc := .merged }).get 0 = some z' := by
      by_cases hi : i = 0
      · subst hi
        exact ⟨_, Heap.get_modify_self hx _⟩
      · exact ⟨z, by rw [Heap.get_modify_ne (Ne.symm hi)]; exact hz⟩
    refine lt_of_eq_of_lt ?_ h1
    rw [Heap.sum_modify hz']
    split_ifs <;> exact Int.sub_add_cancel _ _
  · exact nofun

/-- The end handlers bring a bio that has not ended closer to its end. -/
theorem todo_bioEndio (hx : r.bios.get i = some x) (ho : 3 ≤ x.todo) {y : Bio U E}
    (hsafe : (r.bioEndio i y).wild = false) :
    (r.bioEndio i y).bios.sum Bio.todo < r.bios.sum Bio.todo := by
  revert hsafe
  unfold bioEndio
  split
  · exact todo_longMerge hx ho
  · split
    · intro _
      rw [Heap.sum_free hx]
      omega
    · exact nofun
  · exact nofun

/-- What is left to do shrinks with every step that does not fault. -/
theorem todo_step {devStatus : ℕ → ℕ → ℕ} {ev : ReqEvent} {r' : Request U E}
    (hs : r.step devStatus ev = some r') (hsafe : r'.wild = false) :
    r'.bios.sum Bio.todo < r.bios.sum Bio.todo := by
  cases ev with
  | split =>
    obtain ⟨x, hx, ⟨hp, hlt⟩, rfl⟩ := onBio_eq_some.mp hs
    revert hsafe
    unfold Request.split
    split
    · exact nofun
    · intro _
      rw [Heap.sum_alloc, Heap.sum_modify hx]
      simp only [Bio.todo, hp, Bio.splitOff]
      unfold maxSectors at *
      omega
  | submitLast =>
    obtain ⟨x, hx, ⟨hp, -⟩, rfl⟩ := onBio_eq_some.mp hs
    refine todo_modify hx ?_
    split_ifs <;> simp only [Bio.todo, hp] <;> omega
  | hook i =>
    obtain ⟨x, hx, hp, rfl⟩ := onBio_eq_some.mp hs
    refine todo_modify hx ?_
    simp only [Bio.todo, hp]
    decide
  | endEarly i st =>
    obtain ⟨x, hx, hp, rfl⟩ := onBio_eq_some.mp hs
    have ho : 3 ≤ x.todo := by simp only [Bio.todo, hp]; decide
    revert hsafe
    unfold endEarly
    split_ifs
    · exact todo_bioEndio hx ho
    · refine fun hsafe => lt_of_lt_of_eq (todo_bioEndio (Heap.get_modify_self hx _) ?_ hsafe) ?_
      · exact ho
      · exact (Heap.sum_modify hx ..).trans (Int.sub_add_cancel _ _)
  | devEnd i st =>
    obtain ⟨x, hx, hp, rfl⟩ := onBio_eq_some.mp hs
    refine todo_modify hx ?_
    simp only [Bio.todo, hp]
    decide
  | unhook i =>
    obtain ⟨x, hx, hp, rfl⟩ := onBio_eq_some.mp hs
    have ho : 3 ≤ x.todo := by simp only [Bio.todo, hp]; decide
    revert hsafe
    unfold unhookIo
    split
    · exact nofun
    · refine fun hsafe => lt_of_lt_of_eq (todo_bioEndio (Heap.get_modify_self hx _) ?_ hsafe) ?_
      · exact ho
      · exact (Heap.sum_modify hx ..).trans (Int.sub_add_cancel _ _)
  | dec i =>
    obtain ⟨x, hx, hp, rfl⟩ := onBio_eq_some.mp hs
    have htodo : x.todo = 2 := by simp only [Bio.todo, hp]
    revert hsafe
    unfold longDec
    split
    · exact nofun
    · intro _
      simp only
      split_ifs with _ hi
      · exact todo_modify hx (by rw [htodo]; exact one_lt_two)
      · subst hi
        exact todo_modify hx (by rw [htodo]; exact two_pos)
      · rw [Heap.sum_free hx, htodo]
        omega
  | finish i =>
    obtain ⟨x, hx, hp, rfl⟩ := onBio_eq_some.mp hs
    have htodo : x.todo = 1 := by simp only [Bio.todo, hp]
    revert hsafe
    unfold longFinish
    split
    · rename_i z _ hz
      intro _
      simp only
      have hfree : (r.bios.free i).sum Bio.todo < r.bios.sum Bio.todo := by
        rw [Heap.sum_free hx]
        omega
      rw [Heap.free_free]
      by_cases hi : i = 0
      · subst hi
        rw [Heap.free_self]
        exact hfree
      · refine lt_of_le_of_lt (todo_free (x := z) ?_) hfree
        rw [Heap.get_free, if_neg (Ne.symm hi), hz]
    · exact nofun

end Request

/-! ## Runs -/

/-- What holds of a bio of `n` blocks from sector `s` on at any time. -/
def ReqInv (s n : ℕ) (u : U) (e : E) (r : Request U E) : Prop :=
  1 < n ∧ (∃ x₀, LongInv s n u e r x₀) ∨ n = 1 ∧ (∃ x₀, SoleInv s u e r x₀) ∨ Done s n u e r

/-- The parts cover the bio, and the user gets it back once, after all of them. -/
structure SplitExact (devStatus : ℕ → ℕ → ℕ) (s n : ℕ) (u : U) (e : E) (r : Request U E) :
    Prop where
  parts : ∃ k ≤ n, handedParts r.hist = blocksFrom s k
  ended : ∀ l u' e' st h, r.hist = l ++ .userEnd u' e' st :: h → u' = u ∧ e' = e ∧
    handedParts h = blocksFrom s n ∧ (∀ i < n, partEnds i h = 1) ∧
    (st ≠ 0 ↔ ∃ i st', st' ≠ 0 ∧ .partEnd i st' ∈ h) ∧ (st ≠ 0 ↔ ∃ i, .fail i ∈ h)
  once : r.hist.countP ReqObs.isUserEnd ≤ 1 ∧ r.hist.countP ReqObs.isFreeCtx ≤ 1
  /-- no run goes on for ever -/
  stops : Acc (fun r' r => ∃ ev, r.step devStatus ev = some r') r
  last : (∀ ev, r.step devStatus ev = none) → r.hist.countP ReqObs.isUserEnd = 1 ∧
    r.hist.countP ReqObs.isFreeCtx = if 1 < n then 1 else 0
  safe : r.wild = false

section

variable {devStatus : ℕ → ℕ → ℕ} {s n : ℕ} {u : U} {e : E} {r r' : Request U E}

theorem Done.step_eq_none (a : Done s n u e r) (ev : ReqEvent) : r.step devStatus ev = none := by
  have hnone : ∀ i (P : Bio U E → Prop) [DecidablePred P] (f : Bio U E → Request U E),
      r.onBio i P f = none := fun i P _ f => by
    rw [Request.onBio, a.gone]
    rfl
  cases ev <;> exact hnone ..

/-- Before its end the history has no end. -/
theorem ReqObs.no_end {hist : List (ReqObs U E)}
    (h : ∀ o ∈ hist, o.isUserEnd = false ∧ o.isFreeCtx = false) :
    hist.countP ReqObs.isUserEnd = 0 ∧ hist.countP ReqObs.isFreeCtx = 0 :=
  ⟨List.countP_eq_zero.mpr fun o ho => by rw [(h o ho).1]; exact Bool.false_ne_true,
    List.countP_eq_zero.mpr fun o ho => by rw [(h o ho).2]; exact Bool.false_ne_true⟩

/-- The end of the user's bio is at one place of the history. -/
theorem userEnd_unique {l l' h h' : List (ReqObs U E)} {o o' : ReqObs U E}
    (hl : ∀ o ∈ l, o.isUserEnd = false) (hh : ∀ o ∈ h, o.isUserEnd = false)
    (ho : o'.isUserEnd = true) (heq : l ++ o :: h = l' ++ o' :: h') : o = o' ∧ h = h' := by
  induction l generalizing l' with
  | nil =>
    cases l' with
    | nil => exact List.cons.inj heq
    | cons b l' =>
      have hmem : o' ∈ h := (List.cons.inj heq).2 ▸ List.mem_append_right _ List.mem_cons_self
      exact absurd ((hh o' hmem).symm.trans ho) Bool.false_ne_true
  | cons b l ih =>
    cases l' with
    | nil =>
      obtain ⟨rfl, -⟩ := List.cons.inj heq
      exact absurd ((hl b List.mem_cons_self).symm.trans ho) Bool.false_ne_true
    | cons c l' =>
      exact ih (fun o h => hl o (List.mem_cons_of_mem _ h)) (List.cons.inj heq).2

theorem Done.exact (a : Done s n u e r)
    (hacc : Acc (fun r' r => ∃ ev, r.step devStatus ev = some r') r) :
    SplitExact devStatus s n u e r := by
  obtain ⟨l, st, h, heq, hl, hp, hends, hst, hfail, hno⟩ := a.hist
  obtain ⟨h1, h2⟩ := ReqObs.no_end hno
  have hlend : ∀ o ∈ l, o.isUserEnd = false ∧ o.part = none := fun o ho => by
    rw [hl] at ho
    split_ifs at ho
    · obtain rfl := List.mem_singleton.mp ho
      exact ⟨rfl, rfl⟩
    · cases ho
  have hcount : r.hist.countP ReqObs.isUserEnd = 1 ∧
      r.hist.countP ReqObs.isFreeCtx = if 1 < n then 1 else 0 := by
    rw [heq, hl]
    by_cases hn : 1 < n <;> simp [hn, h1, h2, List.countP_cons, ReqObs.isUserEnd, ReqObs.isFreeCtx]
  refine ⟨⟨n, le_rfl, ?_⟩, fun l' u' e' st' h' heq' => ?_, ⟨hcount.1.le, ?_⟩, hacc,
    fun _ => hcount, a.safe⟩
  · have hnil : l.filterMap ReqObs.part = [] :=
      List.filterMap_eq_nil_iff.mpr fun o ho => (hlend o ho).2
    rw [← hp, heq, handedParts, List.filterMap_append, hnil]
    rfl
  · obtain ⟨ho, rfl⟩ := userEnd_unique (fun o h => (hlend o h).1) (fun o h => (hno o h).1) rfl
      (heq.symm.trans heq')
    cases ho
    exact ⟨rfl, rfl, hp, hends, hst, hfail⟩
  · rw [hcount.2]
    split_ifs <;> decide

namespace ReqInv

theorem start (hn : 1 ≤ n) : ReqInv s n u e (Request.start s (maxSectors * n) u e) := by
  rcases hn.lt_or_eq with hn | rfl
  · exact Or.inl ⟨hn, LongInv.start hn⟩
  · exact Or.inr (Or.inl ⟨rfl, SoleInv.start⟩)

theorem step (a : ReqInv s n u e r) (hok : ∀ st, devStatus st 0 = st)
    (herr : ∀ st er, er ≠ 0 → devStatus st er ≠ 0) {ev : ReqEvent}
    (hs : r.step devStatus ev = some r') : ReqInv s n u e r' := by
  rcases a with ⟨hn, x₀, a⟩ | ⟨rfl, x₀, a⟩ | a
  · exact (a.step hn hok herr hs).imp (fun h => ⟨hn, h⟩) Or.inr
  · exact Or.inr ((a.step hok herr hs).imp (fun h => ⟨rfl, h⟩) id)
  · rw [a.step_eq_none] at hs
    cases hs

theorem safe (a : ReqInv s n u e r) : r.wild = false := by
  rcases a with ⟨-, x₀, a⟩ | ⟨-, x₀, a⟩ | a <;> exact a.safe

theorem stops (hok : ∀ st, devStatus st 0 = st) (herr : ∀ st er, er ≠ 0 → devStatus st er ≠ 0) :
    ∀ r, ReqInv s n u e r → Acc (fun r' r => ∃ ev, r.step devStatus ev = some r') r := by
  suffices h : ∀ k : ℕ, ∀ r : Request U E, r.bios.sum Bio.todo < k → ReqInv s n u e r →
      Acc (fun r' r => ∃ ev, r.step devStatus ev = some r') r by
    intro r a
    refine h ((r.bios.sum Bio.todo).toNat + 1) r ?_ a
    omega
  intro k
  induction k with
  | zero =>
    intro r hlt
    exact absurd hlt (not_lt.mpr (Heap.sum_nonneg _ Bio.todo_nonneg))
  | succ k ih =>
    intro r hlt a
    refine Acc.intro r fun r' ⟨ev, hs⟩ => ?_
    have a' := a.step hok herr hs
    have := Request.todo_step hs a'.safe
    exact ih r' (by omega) a'

/-- A bio that the user does not have back. -/
theorem exact_of_open {k : ℕ} (hk : k ≤ n) (hparts : handedParts r.hist = blocksFrom s k)
    (hno : ∀ o ∈ r.hist, o.isUserEnd = false ∧ o.isFreeCtx = false)
    (hstep : ∃ ev r', r.step devStatus ev = some r')
    (hacc : Acc (fun r' r => ∃ ev, r.step devStatus ev = some r') r) (hsafe : r.wild = false) :
    SplitExact devStatus s n u e r := by
  obtain ⟨h1, h2⟩ := ReqObs.no_end hno
  refine ⟨⟨k, hk, hparts⟩, fun l u' e' st h heq => ?_, ⟨h1.trans_le zero_le_one,
    h2.trans_le zero_le_one⟩, hacc, fun hnone => ?_, hsafe⟩
  · have hmem : .userEnd u' e' st ∈ r.hist := heq ▸ List.mem_append_right _ List.mem_cons_self
    exact absurd (hno _ hmem).1 nofun
  · obtain ⟨ev, r', hs⟩ := hstep
    rw [hnone ev] at hs
    cases hs

theorem exact (a : ReqInv s n u e r) (hn : 1 ≤ n) (hok : ∀ st, devStatus st 0 = st)
    (herr : ∀ st er, er ≠ 0 → devStatus st er ≠ 0) : SplitExact devStatus s n u e r := by
  have hacc := stops hok herr r a
  rcases a with ⟨hn, x₀, a⟩ | ⟨rfl, x₀, a⟩ | a
  · rcases a.parts with ⟨-, hle, -, -, hp⟩ | ⟨-, -, hp⟩
    · exact exact_of_open (by omega) hp a.noEnd (a.enabled devStatus) hacc a.safe
    · exact exact_of_open le_rfl hp a.noEnd (a.enabled devStatus) hacc a.safe
  · have hno : ∀ o ∈ r.hist, o.isUserEnd = false ∧ o.isFreeCtx = false := fun o ho =>
      ⟨(a.noEnd o ho).1, (a.noEnd o ho).2.1⟩
    rcases a.parts with ⟨-, -, -, hp⟩ | ⟨-, hp⟩
    · exact exact_of_open zero_le_one hp hno (a.enabled devStatus) hacc a.safe
    · exact exact_of_open le_rfl hp hno (a.enabled devStatus) hacc a.safe
  · exact a.exact hacc

end ReqInv

end

/-- **Splitting and completing.** Of a bio of `n` blocks on a ready device, the parts handed to the
scheduler cover the blocks in order; the user's `bi_end_io` is called once, after all of them have
ended, with an error exactly if one of them had one; the context is freed once. -/
theorem split_exact {devStatus : ℕ → ℕ → ℕ} (hok : ∀ st, devStatus st 0 = st)
    (herr : ∀ st er, er ≠ 0 → devStatus st er ≠ 0) {s n : ℕ} (hn : 1 ≤ n) {u : U} {e : E}
    {r : Request U E}
    (hrun : Runs (stepRel (Request.step devStatus)) (fun _ _ => True)
      (Request.start s (maxSectors * n) u e) r) :
    SplitExact devStatus s n u e r := by
  have a : ReqInv s n u e r :=
    hrun.inv (fun _ _ _ a _ hs => a.step hok herr hs) (ReqInv.start hn)
  exact a.exact hn hok herr

/-- `bi_status` after the device has finished, when only an error is written to it. -/
def statusOnError (st er : ℕ) : ℕ := if er = 0 then st else er

/-- Two blocks: the first part fails before it reaches the device, inside the loop, the second one
ends well. -/
theorem split_exact_two : ∃ r : Request ℕ ℕ,
    r.hist.head? = some .freeCtx ∧ SplitExact statusOnError 64 2 7 8 r := by
  have hrun := exists_run (Request.step statusOnError) (fun _ _ => True)
    (fun r => decide (r.hist.head? = some .freeCtx))
    (Request.start 64 (maxSectors * 2) 7 8 : Request ℕ ℕ)
    [.split, .endEarly 1 10, .dec 1, .submitLast, .hook 0, .devEnd 0 0, .unhook 0, .dec 0, .finish 0]
    (by decide +kernel)
  obtain ⟨r, hr, hend⟩ := hrun
  refine ⟨r, of_decide_eq_true hend, split_exact (fun _ => rfl) (fun st er her => ?_) ?_ hr⟩
  · rw [statusOnError, if_neg her]
    exact her
  · exact one_le_two

end Lbz
