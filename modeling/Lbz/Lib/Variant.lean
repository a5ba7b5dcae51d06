import Lbz.Lib.Run
import Mathlib.Data.Nat.Basic

/-!
# Runs that come to an end

* `Variant step ok I Stop μ`: `μ` is a variant of the permitted steps; from a state with `I` each
  of them leaves less of it, or leads to a state with `Stop`, where nothing can happen;
* **`Variant.length_le`**: so a run cannot go on for more than `μ` steps and a last one;
* **`Variant.exists_final`**: and if it can go on from every state that is not final, it can be
  brought to a final one.
-/

variable {S E : Type*}

/-- What a variant does in a step. -/
structure Variant (step : S → E → Option S) (ok : S → E → Prop) (I Stop : S → Prop) (μ : S → ℕ) :
    Prop where
  keep : ∀ s e s', I s → ok s e → step s e = some s' → I s'
  less : ∀ s e s', I s → ok s e → step s e = some s' → Stop s' ∨ μ s' < μ s
  stop : ∀ s e, Stop s → step s e = none

namespace Variant

variable {step : S → E → Option S} {ok ok' : S → E → Prop} {I Stop Final : S → Prop} {μ : S → ℕ}
  {s s' : S}

/-- **A run ends.** -/
theorem length_le [∀ s e, Decidable (ok s e)] (V : Variant step ok I Stop μ) :
    ∀ {es : List E} {s s' : S}, I s → exec step ok s es = some s' → es.length ≤ μ s + 1
  | [], _, _, _, _ => Nat.zero_le _
  | e :: es, s, s', hI, h => by
    rw [exec] at h
    split_ifs at h with he
    obtain ⟨s₁, h1, h2⟩ := Option.bind_eq_some_iff.mp h
    rw [List.length_cons]
    rcases V.less s e s₁ hI he h1 with hs | hlt
    · -- nothing follows
      cases es with
      | nil => exact Nat.le_add_left _ _
      | cons e' es =>
        rw [exec, V.stop s₁ e' hs] at h2
        split_ifs at h2
        cases h2
    · have := V.length_le (V.keep s e s₁ hI he h1) h2
      omega

/-- Fewer steps are permitted. -/
theorem mono (V : Variant step ok I Stop μ) (hok : ∀ s e, ok' s e → ok s e) :
    Variant step ok' I Stop μ :=
  ⟨fun s e s' hI he => V.keep s e s' hI (hok s e he),
    fun s e s' hI he => V.less s e s' hI (hok s e he), V.stop⟩

/-- **A run can be brought to its end.** -/
theorem exists_final (V : Variant step ok I Stop μ)
    (hgo : ∀ s, I s → Stop s ∨ Final s ∨ ∃ e s', ok s e ∧ step s e = some s') (hI : I s) :
    ∃ s', Runs (stepRel step) ok s s' ∧ (Stop s' ∨ Final s') := by
  induction hn : μ s using Nat.strong_induction_on generalizing s with
  | _ n ih =>
    rcases hgo s hI with h | h | ⟨e, s₁, he, hs⟩
    · exact ⟨s, Runs.refl, Or.inl h⟩
    · exact ⟨s, Runs.refl, Or.inr h⟩
    · rcases V.less s e s₁ hI he hs with h | hlt
      · exact ⟨s₁, Runs.one he hs, Or.inl h⟩
      · obtain ⟨s', hrun, h⟩ := ih (μ s₁) (hn ▸ hlt) (V.keep s e s₁ hI he hs) rfl
        exact ⟨s', (Runs.one he hs).trans hrun, h⟩

end Variant
