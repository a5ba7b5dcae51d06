import Lbz.SubmitBio

/-!
# What a bio that has ended with success has stored

* `AllStored`: every block of the bio has been appended and mapped by a task of it, before this
  task ended;
* `Accepted`: the device takes all blocks of a bio; **`acknowledged_iff`**: this is exactly when
  every block of a bio that has ended with success is stored.
-/

namespace Lbz

variable {β : Type}

/-- The device takes every block of a bio: a flush of the checkpoint has one block; any other bio
finds the device ready. -/
def Accepted {α : Type} (c : Conf) (s : Sys α) (flush : Bool) (blkid : ℕ) (data : List β) : Prop :=
  if Whole c s blkid flush then data.length = 1 else s.ready = true ∧ s.faulty = false

instance {α : Type} (c : Conf) (s : Sys α) (flush : Bool) (blkid : ℕ) (data : List β) :
    Decidable (Accepted c s flush blkid data) := by
  unfold Accepted
  infer_instance

/-- Every block of the bio has been stored by one of the tasks `ts`, on the way from `s` to `u`: the
device has appended it, its logical block has then been mapped to that place, and then the task has
ended. -/
def AllStored [Inhabited β] (c : Conf) (s u : Sys β) (ts : List ℕ) (blkid : ℕ) (data : List β) :
    Prop :=
  ∀ i d, data[i]? = some d → ∃ t ∈ ts, HasStored c s u t (blkid + i) (some d)

theorem mem_splitBio {i : ℕ} {d : β} : ∀ {blkid : ℕ} {data : List β}, data[i]? = some d →
    (blkid + i, [d]) ∈ splitBio blkid data := by
  induction i with
  | zero =>
    rintro blkid (_ | ⟨e, l⟩) h
    · cases h
    · cases h
      by_cases hl : l = []
      · rw [hl]
        exact List.mem_singleton_self _
      · rw [splitBio_cons _ _ hl]
        exact List.mem_cons_self
  | succ i ih =>
    rintro blkid (_ | ⟨e, l⟩) h
    · cases h
    · have hl : l ≠ [] := by
        rintro rfl
        cases h
      rw [splitBio_cons _ _ hl, Nat.add_comm i 1, ← Nat.add_assoc]
      exact List.mem_cons_of_mem _ (ih h)

/-- **What an acknowledged bio has stored**: all of its blocks, before its end, exactly if the device
has accepted it. -/
theorem acknowledged_iff [Inhabited β] {o : Options} {report : List BlkZone} {cap : ℕ}
    {s₀ s u s' : Sys β} {flush : Bool} {blkid : ℕ} {data : List β} {ts : List ℕ}
    (hu : OneCapacity report cap) (h0 : initSys o report = some s₀)
    (hrun : Runs (stepRel (step (confOf o report))) (fun _ _ => True) s₀ s) (hdata : data ≠ [])
    (h : Served (confOf o report) s (devSubmitBio (confOf o report) s flush blkid data) ts u s') :
    AllStored (confOf o report) s u ts blkid data ↔
      Accepted (confOf o report) s flush blkid data := by
  obtain ⟨hN, -⟩ := base_of_capacity hu h0
  have K := kept_stories hN (stories_initSys h0 hu) hrun
  have hcalls : AllStored (confOf o report) s u ts blkid data ↔ ∀ i d, data[i]? = some d →
      ∃ call ∈ (devSubmitBio (confOf o report) s flush blkid data).calls,
        (blkid + i, some d) = (call.1, call.2.head?) :=
    forall₃_congr fun i d _ => (h.calls hN K).1 (blkid + i, some d)
  rw [hcalls, devSubmitBio, Accepted, if_neg hdata]
  split_ifs with hflush hdown
  · -- the whole bio is one task, which is mapped at its first block
    constructor
    · intro h
      by_contra hlen
      have hlt : 1 < data.length := by
        have := List.length_pos_iff.mpr hdata
        omega
      obtain ⟨call, hcall, hw⟩ := h 1 _ (List.getElem?_eq_getElem hlt)
      cases List.mem_singleton.mp hcall
      simpa using (Prod.ext_iff.mp hw).1
    · intro hlen i d hd
      obtain ⟨e, rfl⟩ := List.length_eq_one_iff.mp hlen
      obtain ⟨hi, rfl⟩ := List.getElem?_eq_some_iff.mp hd
      obtain rfl : i = 0 := Nat.lt_one_iff.mp hi
      exact ⟨_, List.mem_singleton_self _, rfl⟩
  · -- the bio ends at once
    constructor
    · intro h
      obtain ⟨call, hcall, -⟩ := h 0 _ (List.getElem?_eq_getElem (List.length_pos_iff.mpr hdata))
      cases hcall
    · rintro ⟨hready, hfaulty⟩
      rw [hready, hfaulty] at hdown
      simp at hdown
  · push Not at hdown
    exact ⟨fun _ => ⟨hdown.2, Bool.eq_false_of_not_eq_true hdown.1⟩,
      fun _ i d hd => ⟨_, mem_splitBio hd, rfl⟩⟩

/-- A bio of two blocks is stored; when an append has failed, a bio ends with success and is not. -/
theorem acknowledged_two :
    (∃ u : Sys ℕ, AllStored flushConf flushReady u [0, 1] 0 [10, 11]) ∧
    ∃ s : Sys ℕ, s.faulty = true ∧ devSubmitBio flushConf s false 0 [10] = ⟨[], false⟩ ∧
      ¬ AllStored flushConf s s [] 0 [10] := by
  constructor
  · obtain ⟨u, hrun, h⟩ := exists_run (step flushConf) (fun _ _ => True)
      (fun s => decide (s.bug = none ∧ WroteOk s 0 0 10 ∧ WroteOk s 1 1 11)) flushReady
      (writeEvents 0 0 10 false 0 ++ writeEvents 1 1 11 false 1) (by decide +kernel)
    obtain ⟨hbug, h0, h1⟩ := of_decide_eq_true h
    have hs : Served flushConf flushReady (devSubmitBio flushConf flushReady false 0 [10, 11])
        [0, 1] u u := ⟨hrun, .cons ⟨by decide, ⟨10, [], rfl, h0.1⟩, h0.2⟩
          (.cons ⟨by decide, ⟨11, [], rfl, h1.1⟩, h1.2⟩ .nil), rfl, hbug⟩
    exact ⟨u, (acknowledged_iff flushStart_capacity flushStart_eq flushReady_runs (by decide)
      hs).mpr (by decide)⟩
  · obtain ⟨s, hrun, h⟩ := exists_run (step flushConf) (fun _ _ => True)
      (fun s => decide (s.bug = none ∧ s.faulty = true ∧
        devSubmitBio flushConf s false 0 [10] = ⟨[], false⟩))
      flushStart [.submitWrite 0 10 false, .runWrite 0 true, .runWrite 0 true, .devFail 0,
        .writeEnd 0] (by decide +kernel)
    obtain ⟨hbug, hf, hd⟩ := of_decide_eq_true h
    have hs : Served flushConf s (devSubmitBio flushConf s false 0 [10]) [] s s := by
      rw [hd]
      exact ⟨.refl, .nil, rfl, hbug⟩
    refine ⟨s, hf, hd, fun hall => ?_⟩
    have hacc := (acknowledged_iff flushStart_capacity flushStart_eq hrun (by decide) hs).mp hall
    rw [Accepted, if_neg (by rintro ⟨⟨⟩, -⟩), hf] at hacc
    cases hacc.2

end Lbz
