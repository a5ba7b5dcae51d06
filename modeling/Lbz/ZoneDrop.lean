import Lbz.ReverseMap

/-!
# The memory of the zone descriptors

What `lbz_init_zones` allocates and `lbz_drop_zones` frees, with the accounting of
`LBZ_ALLOC_MEM` and `LBZ_FREE_MEM`.

* `ZmdMem`: the array `zmd->zones`, the descriptors, and the sizes that the first zone sets;
* `zoneInsert`, `initZoneMem`, `reportZones`, `initZonesMem`: the way up, with the two ways to stop;
* `zoneDestroy`, `dropZones`: the way down; `.error s` stops in `s` at a pointer that is none;
* `Upto s k j`: the zones below `k` were initialised, those below `j` are destroyed again;
* `initZoneMetadata_drop`: where every zone was initialised, each is destroyed once and the bytes are
  given back;
* **`initZoneMetadata_not_clean`**: a failed initialisation leaves zones out, and is never undone:
  `lbz_drop_zones` goes through the whole array and follows the first entry that was not set.
-/

namespace Lbz

/-- A `struct lbz_zone`, with the pages it points to. -/
structure ZoneMem where
  id : ℕ
  bitmapPages : ℕ
  zrmPages : ℕ
deriving DecidableEq, Repr

/-- What `lbz_init_zone_metadata` allocates; an entry of `zones` that is not set is `NULL`. -/
structure ZmdMem where
  memBytes : ℤ
  pages : ℤ
  nrZones : ℕ
  bitmapBlocks : ℕ
  reverseMapBlocks : ℕ
  zones : ℕ → Option ℕ
  descrs : Heap ZoneMem
  /-- zones destroyed, newest first -/
  destroyed : List ℕ
  /-- how often the array was freed -/
  arrayFrees : ℕ

/-- Why `lbz_init_zone_metadata` fails. -/
inductive ZoneErrno
  | enxio | enomem | report
deriving DecidableEq, Repr

/-- What stops `blkdev_report_zones` at a zone: an error of its own before it calls `lbz_init_zone`, or
`-ENOMEM` from `lbz_zone_insert`. -/
inductive ReportStop
  | report | noMem
deriving DecidableEq, Repr

/-- Before the call, with `memBytes` in `lbz_mem_bytes`: `zmd` is zeroed memory. -/
def ZmdMem.start (memBytes pages : ℤ) (nrZones : ℕ) : ZmdMem :=
  { memBytes, pages, nrZones, bitmapBlocks := 0, reverseMapBlocks := 0, zones := fun _ => none,
    descrs := Heap.empty, destroyed := [], arrayFrees := 0 }

/-- `zone_nr_bitmap_blocks`, for a zone of `nrBlocks` blocks. -/
def nrBitmapBlocks (nrBlocks : ℕ) : ℕ := ((nrBlocks + 7) / 8 + 4096 - 1) / 4096

section

variable (zoneBytes : ℕ)

/-- `__init_zmd_by_first_zone` -/
def initZmdByFirstZone (s : ZmdMem) (b : BlkZone) : ZmdMem :=
  let nrBlocks := sectorToBlkid (b.capacity % 2 ^ 32)
  { s with
    bitmapBlocks := nrBitmapBlocks nrBlocks
    reverseMapBlocks := (nrBlocks * 4 % 2 ^ 32 + 4096 - 1) % 2 ^ 32 / 4096 }

/-- `lbz_zone_insert`, and the store to `zmd->zones` at the end of `lbz_init_zone`; `zoneBytes` is
`sizeof(struct lbz_zone)`. -/
def zoneInsert (s : ZmdMem) (num : ℕ) : ZmdMem :=
  { s with
    memBytes := s.memBytes + zoneBytes + s.bitmapBlocks * 8 + s.reverseMapBlocks * 8
    pages := s.pages + s.bitmapBlocks + s.reverseMapBlocks
    zones := Function.update s.zones num (some s.descrs.next)
    descrs := s.descrs.alloc ⟨num, s.bitmapBlocks, s.reverseMapBlocks⟩ }

/-- The allocations of `lbz_init_zone`. -/
def initZoneMem (s : ZmdMem) (num : ℕ) (b : BlkZone) (noMem : Bool) : ZmdMem × Option ZoneErrno :=
  let s := if num = 0 then initZmdByFirstZone s b else s
  if noMem then (s, some .enomem) else (zoneInsert zoneBytes s num, none)

/-- `blkdev_report_zones` from zone `num` on, stopping where `stop` says. -/
def reportZones (stop : Option (ℕ × ReportStop)) :
    ZmdMem → ℕ → List BlkZone → ZmdMem × Option ZoneErrno
  | s, _, [] => (s, none)
  | s, num, b :: l =>
    if stop = some (num, .report) then (s, some .report)
    else
      match initZoneMem zoneBytes s num b (decide (stop = some (num, .noMem))) with
      | (s, some e) => (s, some e)
      | (s, none) => reportZones stop s (num + 1) l

/-- `lbz_zone_destroy`, of the descriptor at `p`; the loops over the pages end at the sizes in `zmd`. -/
def freeDescr (s : ZmdMem) (p : ℕ) (z : ZoneMem) : ZmdMem :=
  { s with
    memBytes := s.memBytes - s.bitmapBlocks * 8 - s.reverseMapBlocks * 8 - zoneBytes
    pages := s.pages - (min s.bitmapBlocks z.bitmapPages : ℕ) -
      (min s.reverseMapBlocks z.zrmPages : ℕ)
    descrs := s.descrs.free p
    destroyed := z.id :: s.destroyed }

/-- `lbz_zone_destroy`, which reads `zone->zone_valid_bitmap` before it tests `zone`. -/
def zoneDestroy (s : ZmdMem) (zone : Option ℕ) : Except ZmdMem ZmdMem :=
  match zone with
  | none => .error s
  | some p =>
    match s.descrs.get p with
    | none => .error s
    | some z => .ok (freeDescr zoneBytes s p z)

/-- The loop of `lbz_drop_zones`, up to entry `n`. -/
def dropLoop (s : ZmdMem) (n : ℕ) : Except ZmdMem ZmdMem :=
  (List.range n).foldlM (fun s i => zoneDestroy zoneBytes s (s.zones i)) s

/-- `lbz_drop_zones` -/
def dropZones (s : ZmdMem) : Except ZmdMem ZmdMem :=
  (dropLoop zoneBytes s s.nrZones).map fun s =>
    { s with memBytes := s.memBytes - s.nrZones * 8, arrayFrees := s.arrayFrees + 1 }

/-- `lbz_init_zones` -/
def initZonesMem (s : ZmdMem) (report : List BlkZone) (stop : Option (ℕ × ReportStop)) :
    Except ZmdMem (ZmdMem × Option ZoneErrno) :=
  if s.nrZones = 0 then .ok (s, some .enxio)
  else
    match reportZones zoneBytes stop { s with memBytes := s.memBytes + s.nrZones * 8 } 0 report with
    | (s, some e) => (dropZones zoneBytes s).map fun s => (s, some e)
    | (s, none) => .ok (s, none)

/-- `lbz_init_zone_metadata`, which hands on what `lbz_init_zones` returns. -/
def initZoneMetadata (memBytes pages : ℤ) (report : List BlkZone) (stop : Option (ℕ × ReportStop)) :
    Except ZmdMem (ZmdMem × Option ZoneErrno) :=
  initZonesMem zoneBytes (ZmdMem.start memBytes pages report.length) report stop

/-- The call fails at zone `k` and is undone: it returns an error, never having followed an entry that
was not set, each zone before `k` is destroyed once and the array too, and no byte is left. -/
def FailsCleanly (memBytes : ℤ) (k : ℕ) (r : Except ZmdMem (ZmdMem × Option ZoneErrno)) : Prop :=
  ∃ s e, r = .ok (s, some e) ∧ s.destroyed.Perm (List.range k) ∧ s.arrayFrees = 1 ∧
    s.memBytes = memBytes

/-! ## Zones up to one -/

/-- The zones below `k` were initialised, each with `B` and `R` pages; those below `j` are destroyed
again. `m` and `p` count what was there before the first zone. -/
structure Upto (m p : ℤ) (B R k j : ℕ) (s : ZmdMem) : Prop where
  zones : ∀ i, s.zones i = if i < k then some i else none
  descrs : ∀ i, s.descrs.get i = if j ≤ i ∧ i < k then some ⟨i, B, R⟩ else none
  next : s.descrs.next = k
  sizes : s.bitmapBlocks = B ∧ s.reverseMapBlocks = R
  memBytes : s.memBytes = m + (k - j) * (zoneBytes + B * 8 + R * 8)
  pages : s.pages = p + (k - j) * (B + R)
  destroyed : s.destroyed = (List.range j).reverse
  array : s.arrayFrees = 0

end

variable {zoneBytes : ℕ} {m p : ℤ} {B R k j : ℕ} {s : ZmdMem}

theorem dropLoop_succ (s : ZmdMem) (n : ℕ) : dropLoop zoneBytes s (n + 1) =
    dropLoop zoneBytes s n >>= fun s => zoneDestroy zoneBytes s (s.zones n) := by
  rw [dropLoop, List.range_succ, List.foldlM_append]
  refine congrArg (dropLoop zoneBytes s n >>= ·) (funext fun s => ?_)
  exact bind_pure _

/-- A loop that has stopped stays so. -/
theorem dropLoop_of_error {s s' : ZmdMem} {n n' : ℕ} (hn : n ≤ n')
    (h : dropLoop zoneBytes s n = .error s') : dropLoop zoneBytes s n' = .error s' := by
  induction n', hn using Nat.le_induction with
  | base => exact h
  | succ n' _ ih =>
    rw [dropLoop_succ, ih]
    rfl

namespace Upto

theorem insert (a : Upto zoneBytes m p B R k 0 s) :
    Upto zoneBytes m p B R (k + 1) 0 (zoneInsert zoneBytes s k) := by
  obtain ⟨rfl, rfl⟩ := a.sizes
  refine ⟨fun i => ?_, fun i => ?_, ?_, ⟨rfl, rfl⟩, ?_, ?_, a.destroyed, a.array⟩
  · change Function.update s.zones k (some s.descrs.next) i = _
    rw [Function.update_apply, a.next, a.zones i]
    split_ifs with h1 h2 h3 h4 h5
    · rw [h1]
    · omega
    · rfl
    · omega
    · omega
    · rfl
  · change (s.descrs.alloc _).get i = _
    rw [Heap.get_alloc, a.next, a.descrs i]
    split_ifs with h1 h2 h3 h4 h5
    · rw [h1]
    · omega
    · rfl
    · omega
    · omega
    · rfl
  · change (s.descrs.alloc _).next = _
    rw [Heap.next_alloc, a.next]
  · change s.memBytes + zoneBytes + s.bitmapBlocks * 8 + s.reverseMapBlocks * 8 = _
    rw [a.memBytes]
    push_cast
    ring
  · change s.pages + s.bitmapBlocks + s.reverseMapBlocks = _
    rw [a.pages]
    push_cast
    ring

theorem destroy (a : Upto zoneBytes m p B R k j s) (hj : j < k) :
    ∃ s', zoneDestroy zoneBytes s (s.zones j) = .ok s' ∧ Upto zoneBytes m p B R k (j + 1) s' ∧
      s'.nrZones = s.nrZones := by
  obtain ⟨rfl, rfl⟩ := a.sizes
  have hz : s.zones j = some j := by rw [a.zones j, if_pos hj]
  have hx : s.descrs.get j = some ⟨j, s.bitmapBlocks, s.reverseMapBlocks⟩ := by
    rw [a.descrs j, if_pos ⟨le_rfl, hj⟩]
  refine ⟨freeDescr zoneBytes s j ⟨j, s.bitmapBlocks, s.reverseMapBlocks⟩,
    by simp only [zoneDestroy, hz, hx], ⟨a.zones, fun i => ?_, ?_, ⟨rfl, rfl⟩, ?_, ?_, ?_,
    a.array⟩, rfl⟩
  · change (s.descrs.free j).get i = _
    rw [Heap.get_free, a.descrs i]
    split_ifs with h1 h2 h3 h4 h5
    · omega
    · rfl
    · rfl
    · omega
    · omega
    · rfl
  · change (s.descrs.free j).next = k
    rw [Heap.next_free, a.next]
  · change s.memBytes - _ - _ - _ = _
    rw [a.memBytes]
    push_cast
    ring
  · change s.pages - ((min s.bitmapBlocks s.bitmapBlocks : ℕ) : ℤ) -
      ((min s.reverseMapBlocks s.reverseMapBlocks : ℕ) : ℤ) = _
    rw [min_self, min_self, a.pages]
    push_cast
    ring
  · change j :: s.destroyed = _
    rw [a.destroyed, List.range_succ, List.reverse_append]
    rfl

/-- The loop goes through the zones that were initialised. -/
theorem dropLoop (a : Upto zoneBytes m p B R k 0 s) : ∀ j ≤ k,
    ∃ s', dropLoop zoneBytes s j = .ok s' ∧ Upto zoneBytes m p B R k j s' ∧ s'.nrZones = s.nrZones
  | 0, _ => ⟨s, rfl, a, rfl⟩
  | j + 1, hj => by
    obtain ⟨s₁, h1, h2, h3⟩ := dropLoop a j (by omega)
    obtain ⟨s₂, h4, h5, h6⟩ := h2.destroy (by omega)
    refine ⟨s₂, ?_, h5, h6.trans h3⟩
    rw [dropLoop_succ, h1]
    exact h4

end Upto

/-- **A clean drop**: with each zone initialised, each is destroyed once, and what was allocated is
given back. -/
theorem dropZones_full (a : Upto zoneBytes m p B R k 0 s) (hn : s.nrZones = k) :
    ∃ s', dropZones zoneBytes s = .ok s' ∧ s'.destroyed.Perm (List.range k) ∧ s'.arrayFrees = 1 ∧
      s'.memBytes = m - k * 8 ∧ s'.pages = p ∧ ∀ i, s'.descrs.get i = none := by
  obtain ⟨s₁, h1, h2, h3⟩ := a.dropLoop k le_rfl
  refine ⟨{ s₁ with memBytes := s₁.memBytes - s₁.nrZones * 8, arrayFrees := s₁.arrayFrees + 1 },
    ?_, ?_, ?_, ?_, ?_, fun i => ?_⟩
  · rw [dropZones, hn, h1]
    rfl
  · change s₁.destroyed.Perm _
    rw [h2.destroyed]
    exact List.reverse_perm _
  · change s₁.arrayFrees + 1 = 1
    rw [h2.array]
  · change s₁.memBytes - s₁.nrZones * 8 = _
    rw [h2.memBytes, h3, hn]
    ring
  · change s₁.pages = p
    rw [h2.pages]
    ring
  · change s₁.descrs.get i = none
    rw [h2.descrs i, if_neg (by omega)]

/-- With a zone left out, the drop stops there. -/
theorem dropZones_stops (a : Upto zoneBytes m p B R k 0 s) (hn : k < s.nrZones) :
    ∃ s', dropZones zoneBytes s = .error s' ∧ s'.zones k = none ∧ s'.arrayFrees = 0 ∧
      s'.destroyed.Perm (List.range k) ∧ s'.memBytes = m ∧ s'.pages = p := by
  obtain ⟨s₁, h1, h2, h3⟩ := a.dropLoop k le_rfl
  have hnone : s₁.zones k = none := by rw [h2.zones, if_neg (lt_irrefl k)]
  refine ⟨s₁, ?_, hnone, h2.array, ?_, ?_, ?_⟩
  · rw [dropZones, dropLoop_of_error (show k + 1 ≤ s.nrZones from hn)]
    · rfl
    · rw [dropLoop_succ, h1]
      change zoneDestroy zoneBytes s₁ (s₁.zones k) = _
      rw [hnone]
      rfl
  · rw [h2.destroyed]
    exact List.reverse_perm _
  · rw [h2.memBytes]
    ring
  · rw [h2.pages]
    ring

/-! ## The way up -/

/-- The error that is returned for a stop. -/
def ReportStop.errno : ReportStop → ZoneErrno
  | .report => .report
  | .noMem => .enomem

theorem Upto.first (a : Upto zoneBytes m p B R 0 0 s) (b : BlkZone) :
    ∃ B' R', Upto zoneBytes m p B' R' 0 0 (initZmdByFirstZone s b) := by
  refine ⟨_, _, a.zones, fun i => ?_, a.next, ⟨rfl, rfl⟩, ?_, ?_, a.destroyed, a.array⟩
  · change s.descrs.get i = _
    rw [a.descrs i, if_neg (by omega), if_neg (by omega)]
  · exact a.memBytes.trans (by ring)
  · exact a.pages.trans (by ring)

/-- The sizes are those of the first zone when zone `k` is inserted. -/
theorem Upto.sized (a : Upto zoneBytes m p B R k 0 s) (b : BlkZone) :
    ∃ B' R', Upto zoneBytes m p B' R' k 0 (if k = 0 then initZmdByFirstZone s b else s) := by
  split_ifs with h
  · subst h
    exact a.first b
  · exact ⟨B, R, a⟩

theorem nrZones_sized (b : BlkZone) :
    (if k = 0 then initZmdByFirstZone s b else s).nrZones = s.nrZones := by
  split_ifs <;> rfl

/-- The zones before the one that stops the report are initialised, and no other. -/
theorem reportZones_stop (r : ReportStop) : ∀ {l : List BlkZone} {num : ℕ} {B R : ℕ} {s : ZmdMem},
    Upto zoneBytes m p B R num 0 s → num ≤ k → k < num + l.length → ∃ B' R' s',
      reportZones zoneBytes (some (k, r)) s num l = (s', some r.errno) ∧
        Upto zoneBytes m p B' R' k 0 s' ∧ s'.nrZones = s.nrZones
  | [], num, B, R, s, a, h1, h2 => by
    rw [List.length_nil] at h2
    omega
  | b :: l, num, B, R, s, a, h1, h2 => by
    obtain ⟨B', R', a'⟩ := a.sized b
    by_cases hk : k = num
    · subst hk
      cases r with
      | report => exact ⟨B, R, s, if_pos rfl, a, rfl⟩
      | noMem =>
        refine ⟨B', R', _, ?_, a', nrZones_sized b⟩
        rw [reportZones, if_neg (by simp), initZoneMem, if_pos (decide_eq_true rfl)]
        rfl
    · have hne : ∀ r', some (k, r) ≠ some (num, r') := fun r' h =>
        hk (Prod.mk.inj (Option.some.inj h)).1
      obtain ⟨B'', R'', s', h3, h4, h5⟩ := reportZones_stop r (l := l) a'.insert (by omega)
        (by rw [List.length_cons] at h2; omega)
      refine ⟨B'', R'', s', ?_, h4, h5.trans (nrZones_sized b)⟩
      rw [reportZones, if_neg (hne .report), initZoneMem,
        if_neg (by simpa using hne .noMem)]
      exact h3

/-- Without a stop, all are. -/
theorem reportZones_full : ∀ {l : List BlkZone} {num : ℕ} {B R : ℕ} {s : ZmdMem},
    Upto zoneBytes m p B R num 0 s → ∃ B' R' s', reportZones zoneBytes none s num l = (s', none) ∧
      Upto zoneBytes m p B' R' (num + l.length) 0 s' ∧ s'.nrZones = s.nrZones
  | [], num, B, R, s, a => ⟨B, R, s, rfl, a, rfl⟩
  | b :: l, num, B, R, s, a => by
    obtain ⟨B', R', a'⟩ := a.sized b
    obtain ⟨B'', R'', s', h1, h2, h3⟩ := reportZones_full (l := l) a'.insert
    refine ⟨B'', R'', s', ?_, ?_, h3.trans (nrZones_sized b)⟩
    · rw [reportZones, if_neg nofun, initZoneMem, if_neg (by simp)]
      exact h1
    · rw [List.length_cons, Nat.add_comm l.length, ← Nat.add_assoc]
      exact h2

/-- After the array, before the first zone. -/
theorem upto_start (zoneBytes : ℕ) (mem pages : ℤ) (n : ℕ) :
    Upto zoneBytes (mem + n * 8) pages 0 0 0 0
      { ZmdMem.start mem pages n with memBytes := mem + n * 8 } := by
  refine ⟨fun i => ?_, fun i => ?_, rfl, ⟨rfl, rfl⟩, ?_, ?_, rfl, rfl⟩
  · rw [if_neg (Nat.not_lt_zero i)]
    rfl
  · rw [if_neg fun h => Nat.not_lt_zero i h.2]
    exact Heap.get_empty i
  · change mem + n * 8 = _
    push_cast
    ring
  · change pages = _
    push_cast
    ring

theorem initZoneMetadata_eq (mem pages : ℤ) {report : List BlkZone} (h : report ≠ [])
    (stop : Option (ℕ × ReportStop)) : initZoneMetadata zoneBytes mem pages report stop =
      match reportZones zoneBytes stop
          { ZmdMem.start mem pages report.length with memBytes := mem + report.length * 8 } 0 report with
      | (s, some e) => (dropZones zoneBytes s).map fun s => (s, some e)
      | (s, none) => .ok (s, none) :=
  if_neg fun e => h (List.length_eq_zero_iff.mp e)

/-- What is allocated for a report that has no fault is given back when the device goes. -/
theorem initZoneMetadata_drop (mem pages : ℤ) {report : List BlkZone} (h : report ≠ []) :
    ∃ s s', initZoneMetadata zoneBytes mem pages report none = .ok (s, none) ∧
      dropZones zoneBytes s = .ok s' ∧ s'.destroyed.Perm (List.range report.length) ∧
      s'.arrayFrees = 1 ∧ s'.memBytes = mem ∧ s'.pages = pages := by
  obtain ⟨B, R, s, h1, h2, h3⟩ :=
    reportZones_full (l := report) (upto_start zoneBytes mem pages report.length)
  rw [Nat.zero_add] at h2
  obtain ⟨s', h4, h5, h6, h7, h8, -⟩ := dropZones_full h2 h3
  refine ⟨s, s', ?_, h4, h5, h6, by rw [h7]; ring, h8⟩
  rw [initZoneMetadata_eq mem pages h, h1]

/-- Wherever it fails, `lbz_drop_zones` destroys the zones before that place, and then follows the entry
there, which was never set. -/
theorem initZoneMetadata_stops (zoneBytes : ℕ) (mem pages : ℤ) {report : List BlkZone}
    (hk : k < report.length) (r : ReportStop) :
    ∃ s, initZoneMetadata zoneBytes mem pages report (some (k, r)) = .error s ∧ s.zones k = none ∧
      s.destroyed.Perm (List.range k) ∧ s.arrayFrees = 0 ∧
      s.memBytes = mem + report.length * 8 ∧ s.pages = pages := by
  obtain ⟨B, R, s, h1, h2, h3⟩ := reportZones_stop r (l := report)
    (upto_start zoneBytes mem pages report.length) (Nat.zero_le k) (by omega)
  obtain ⟨s', h4, h5, h6, h7, h8, h9⟩ := dropZones_stops h2 (hk.trans_eq h3.symm)
  refine ⟨s', ?_, h5, h7, h6, h8, h9⟩
  rw [initZoneMetadata_eq mem pages (List.ne_nil_of_length_pos (by omega)), h1]
  change (dropZones zoneBytes s).map _ = _
  rw [h4]
  rfl

/-- **A failed initialisation is never undone cleanly**, at no zone of any report, and for neither
reason. -/
theorem initZoneMetadata_not_clean (zoneBytes : ℕ) (mem pages : ℤ) {report : List BlkZone}
    (hk : k < report.length) (r : ReportStop) :
    ¬ FailsCleanly mem k (initZoneMetadata zoneBytes mem pages report (some (k, r))) := by
  rintro ⟨s, e, h, -⟩
  obtain ⟨s', h', -⟩ := initZoneMetadata_stops zoneBytes mem pages hk r
  rw [h'] at h
  cases h

theorem initZoneMetadata_not_clean_second : ¬ FailsCleanly 0 1
    (initZoneMetadata 128 0 0 (emptyReport 3 16 16) (some (1, .noMem))) :=
  initZoneMetadata_not_clean 128 0 0 (by decide) .noMem

/-- The report of a device with one zone fails before its first zone. -/
theorem failed_init_first : ¬ ∀ (zoneBytes : ℕ) (mem pages : ℤ) (report : List BlkZone) (k : ℕ)
    (r : ReportStop), k < report.length →
      FailsCleanly mem k (initZoneMetadata zoneBytes mem pages report (some (k, r))) := by
  intro h
  obtain ⟨s, e, h1, -⟩ := h 128 0 0 (emptyReport 1 16 16) 0 .report (by decide)
  obtain ⟨s', h2, -⟩ := initZoneMetadata_stops 128 0 0
    (show 0 < (emptyReport 1 16 16).length by decide) .report
  rw [h2] at h1
  cases h1

end Lbz
