import Mathlib.Logic.Function.Basic
import Mathlib.Order.Basic
import Mathlib.Data.Set.Basic

/-!
# A log of stamped records and its index

A log has at some positions a record, of a key and a stamp. A map of keys to positions is its
index if it finds for each key the newest record.

* `Newest r a p`: the record at `p` is of key `a`, and newer than every other of that key;
* `Indexed r f`: `f` finds the newest record of every key that has one;
  **`Indexed.eq_some`**, **`Indexed.eq_none`**: so it is determined by the log;
* `Indexed.put`: a newer record comes in; `Indexed.drop`: records that are not found go.
-/

namespace Lbz

variable {P K T : Type*} [LT T]

/-- The record at `p` is of key `a`, and newer than every other of that key. -/
def Newest (r : P → Option (K × T)) (a : K) (p : P) : Prop :=
  ∃ n, r p = some (a, n) ∧ ∀ q m, r q = some (a, m) → q ≠ p → m < n

structure Indexed (r : P → Option (K × T)) (f : K → Option P) : Prop where
  sound : ∀ a p, f a = some p → Newest r a p
  found : ∀ q a m, r q = some (a, m) → f a ≠ none

namespace Indexed

variable {r r' : P → Option (K × T)} {f : K → Option P} {a : K} {p : P}

/-- A key without a record is not found. -/
theorem eq_none (h : Indexed r f) : f a = none ↔ ∀ p n, r p ≠ some (a, n) := by
  refine ⟨fun hf p n hp => h.found p a n hp hf, fun hr => ?_⟩
  by_contra hf
  obtain ⟨p, hp⟩ := Option.ne_none_iff_exists'.mp hf
  obtain ⟨n, hn, -⟩ := h.sound a p hp
  exact hr p n hn

/-- Records that are not found go. -/
theorem drop (h : Indexed r f) (hr : ∀ p, r' p = r p ∨ r' p = none)
    (hf : ∀ a p, f a = some p → r' p = r p) : Indexed r' f := by
  have hold : ∀ {q : P} {v : K × T}, r' q = some v → r q = some v := fun {q v} hq => by
    rcases hr q with e | e
    · exact e ▸ hq
    · rw [e] at hq
      cases hq
  refine ⟨fun a p hp => ?_, fun q a m hq => h.found q a m (hold hq)⟩
  obtain ⟨n, hn, hnew⟩ := h.sound a p hp
  exact ⟨n, (hf a p hp).trans hn, fun q m hq => hnew q m (hold hq)⟩

end Indexed

section

variable {T : Type*} [Preorder T] {r : P → Option (K × T)} {f : K → Option P} {a : K} {p : P}

/-- There is only one newest record of a key. -/
theorem Newest.unique {q : P} (hp : Newest r a p) (hq : Newest r a q) : p = q := by
  obtain ⟨n, hn, hnp⟩ := hp
  obtain ⟨m, hm, hmq⟩ := hq
  by_contra e
  exact lt_asymm (hmq p n hn e) (hnp q m hm fun h => e h.symm)

namespace Indexed

/-- **The log determines its index.** -/
theorem eq_some (h : Indexed r f) : f a = some p ↔ Newest r a p := by
  refine ⟨h.sound a p, fun hp => ?_⟩
  obtain ⟨n, hn, -⟩ := id hp
  obtain ⟨q, hq⟩ := Option.ne_none_iff_exists'.mp (h.found p a n hn)
  rw [hq, (h.sound a q hq).unique hp]

/-- A record comes in that is newer than those of its key. -/
theorem put [DecidableEq P] [DecidableEq K] (h : Indexed r f) {n : T} (hp : r p = none)
    (hn : ∀ q m, r q = some (a, m) → m < n) :
    Indexed (Function.update r p (some (a, n))) (Function.update f a (some p)) := by
  refine ⟨fun b q hq => ?_, fun q b m hq => ?_⟩
  · rw [Function.update_apply] at hq
    split_ifs at hq with e
    · cases hq
      subst e
      refine ⟨n, Function.update_self .., fun q m hq hne => ?_⟩
      rw [Function.update_of_ne hne] at hq
      exact hn q m hq
    · obtain ⟨m, hm, hnew⟩ := h.sound b q hq
      have hqp : q ≠ p := by
        rintro rfl
        rw [hp] at hm
        cases hm
      refine ⟨m, (Function.update_of_ne hqp ..).trans hm, fun q' m' hq' hne => ?_⟩
      rw [Function.update_apply] at hq'
      split_ifs at hq' with e'
      · cases hq'
        exact absurd rfl e
      · exact hnew q' m' hq' hne
  · rw [Function.update_apply]
    split_ifs with e
    · rintro ⟨⟩
    · rw [Function.update_apply] at hq
      split_ifs at hq with e'
      · cases hq
        exact absurd rfl e
      · exact h.found q b m hq

end Indexed

end

end Lbz
