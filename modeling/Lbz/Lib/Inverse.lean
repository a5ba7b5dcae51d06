import Mathlib.Algebra.BigOperators.Ring.Finset
import Mathlib.Data.Finset.Card
import Mathlib.Data.Int.Basic
import Mathlib.Logic.Function.Basic
import Mathlib.Tactic.Ring

/-!
# Two partial maps that are inverse to each other

* `Inverse f g`: `f` sends `a` to `b` exactly if `g` sends `b` to `a`, with the rules for maps that
  are kept side by side and changed one entry at a time: `erase`, `insert`;
* `live n g`: how many of the first `n` arguments `g` has a value for; `live_update` says how one
  changed entry moves the number, a case of `sum_range_update`.
-/

variable {A B : Type*}

/-- The partial maps `f` and `g` are inverse to each other. -/
def Inverse (f : A → Option B) (g : B → Option A) : Prop := ∀ a b, f a = some b ↔ g b = some a

namespace Inverse

variable {f : A → Option B} {g : B → Option A} {a a' : A} {b b' : B}

theorem empty : Inverse (fun _ : A => (none : Option B)) fun _ => none :=
  fun _ _ => iff_of_false nofun nofun

theorem inj (h : Inverse f g) (h1 : f a = some b) (h2 : f a' = some b) : a = a' :=
  Option.some.inj (((h a b).mp h1).symm.trans ((h a' b).mp h2))

theorem eq_none (h : Inverse f g) (hb : g b = none) : f a ≠ some b := fun ha => by
  rw [(h a b).mp ha] at hb
  cases hb

variable [DecidableEq A] [DecidableEq B]

theorem erase (h : Inverse f g) (hab : f a = some b) :
    Inverse (Function.update f a none) (Function.update g b none) := by
  intro x y
  rw [Function.update_apply, Function.update_apply]
  split_ifs with hx hy hy
  · exact iff_of_false nofun nofun
  · refine iff_of_false nofun fun hg => hy ?_
    have := (h x y).mpr hg
    rw [hx, hab] at this
    exact (Option.some.inj this).symm
  · refine iff_of_false (fun hf => hx ?_) nofun
    exact h.inj hf (hy ▸ hab)
  · exact h x y

theorem insert (h : Inverse f g) (ha : f a = none) (hb : g b = none) :
    Inverse (Function.update f a (some b)) (Function.update g b (some a)) := by
  intro x y
  rw [Function.update_apply, Function.update_apply]
  split_ifs with hx hy hy
  · exact iff_of_true (by rw [hy]) (by rw [hx])
  · refine iff_of_false (fun hf => hy (Option.some.inj hf).symm) fun hg => ?_
    have := (h x y).mpr hg
    rw [hx, ha] at this
    cases this
  · refine iff_of_false (fun hf => ?_) fun hg => hx (Option.some.inj hg).symm
    rw [hy] at hf
    exact h.eq_none hb hf
  · exact h x y

end Inverse

/-! ## Totals over the first `n` arguments -/

/-- One changed entry moves a total by the difference of its weights. -/
theorem sum_range_update {β : Type*} {n o : ℕ} (ho : o < n) (f : ℕ → β) (w : β → ℤ) (v : β) :
    ∑ x ∈ Finset.range n, w (Function.update f o v x) =
      ∑ x ∈ Finset.range n, w (f x) - w (f o) + w v := by
  have hmem : o ∈ Finset.range n := Finset.mem_range.mpr ho
  have hrest : ∑ x ∈ (Finset.range n).erase o, w (Function.update f o v x) =
      ∑ x ∈ (Finset.range n).erase o, w (f x) :=
    Finset.sum_congr rfl fun x hx => by rw [Function.update_of_ne (Finset.ne_of_mem_erase hx)]
  rw [← Finset.add_sum_erase _ _ hmem, ← Finset.add_sum_erase _ _ hmem, Function.update_self, hrest]
  ring

/-- The number of arguments below `n` that `g` has a value for. -/
def live (n : ℕ) (g : ℕ → Option A) : ℕ := ((Finset.range n).filter fun o => (g o).isSome).card

/-- The part that a value has in `live`. -/
def one (v : Option A) : ℤ := if v.isSome then 1 else 0

theorem live_update {n o : ℕ} (ho : o < n) (g : ℕ → Option A) (v : Option A) :
    (live n (Function.update g o v) : ℤ) = live n g - one (g o) + one v := by
  have hsum : ∀ g : ℕ → Option A, (live n g : ℤ) = ∑ o ∈ Finset.range n, one (g o) := fun g => by
    simp only [live, one, Finset.natCast_card_filter]
  rw [hsum, hsum, sum_range_update ho]

theorem eq_none_of_live {n o : ℕ} {g : ℕ → Option A} (h : live n g = 0) (ho : o < n) :
    g o = none := by
  have := Finset.card_eq_zero.mp h
  by_contra hne
  have hmem : o ∈ (Finset.range n).filter fun o => (g o).isSome :=
    Finset.mem_filter.mpr ⟨Finset.mem_range.mpr ho, Option.isSome_iff_ne_none.mpr hne⟩
  rw [this] at hmem
  cases hmem

theorem live_eq_zero {n : ℕ} {g : ℕ → Option A} (h : ∀ o < n, g o = none) : live n g = 0 := by
  rw [live, Finset.card_eq_zero, Finset.filter_eq_empty_iff]
  intro o ho
  rw [h o (Finset.mem_range.mp ho)]
  nofun

theorem live_none (n : ℕ) : live n (fun _ => (none : Option A)) = 0 := by simp [live]
