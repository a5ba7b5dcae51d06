import Mathlib.Data.Nat.Basic

/-!
# While loops that may fail

`whileLoop b f n s` runs `while (b s) s = f s` for at most `n` rounds; it is `none` if a round fails,
or if `n` rounds do not end it. `whileLoop_spec` is the rule of total correctness, with an
invariant and a bound on the rounds that are left; `whileLoop_inv` is the rule of partial correctness.
-/

variable {σ : Type*}

/-- `while (b s) s = f s`, in at most `n` rounds. -/
def whileLoop (b : σ → Bool) (f : σ → Option σ) : ℕ → σ → Option σ
  | 0, s => if b s then none else some s
  | n + 1, s => if b s then (f s).bind (whileLoop b f n) else some s

/-- **The rule for a loop**: a round keeps `P` and leaves fewer rounds `μ`. -/
theorem whileLoop_spec {b : σ → Bool} {f : σ → Option σ} {P : σ → Prop} (μ : σ → ℕ)
    (hf : ∀ s, P s → b s = true → ∃ s', f s = some s' ∧ P s' ∧ μ s' < μ s) :
    ∀ {n : ℕ} {s : σ}, P s → μ s ≤ n → ∃ s', whileLoop b f n s = some s' ∧ P s' ∧ b s' = false
  | 0, s, hs, hn => by
    have hb : b s = false := by
      by_contra hb
      obtain ⟨s', -, -, hlt⟩ := hf s hs (by simpa using hb)
      omega
    exact ⟨s, by rw [whileLoop, hb]; rfl, hs, hb⟩
  | n + 1, s, hs, hn => by
    by_cases hb : b s = true
    · obtain ⟨s₁, h1, h2, h3⟩ := hf s hs hb
      obtain ⟨s', h4, h5⟩ := whileLoop_spec μ hf h2 (n := n) (by omega)
      exact ⟨s', by rw [whileLoop, if_pos hb, h1, Option.bind_some, h4], h5⟩
    · exact ⟨s, by rw [whileLoop, if_neg hb], hs, by simpa using hb⟩

/-- The rule for a loop that has ended: a round keeps `P`. -/
theorem whileLoop_inv {b : σ → Bool} {f : σ → Option σ} {P : σ → Prop}
    (hf : ∀ s s', P s → b s = true → f s = some s' → P s') :
    ∀ {n : ℕ} {s s' : σ}, P s → whileLoop b f n s = some s' → P s' ∧ b s' = false
  | 0, s, s', hs, h => by
    rw [whileLoop] at h
    by_cases hb : b s = true
    · rw [if_pos hb] at h
      cases h
    · rw [if_neg hb] at h
      cases h
      exact ⟨hs, by simpa using hb⟩
  | n + 1, s, s', hs, h => by
    rw [whileLoop] at h
    by_cases hb : b s = true
    · rw [if_pos hb] at h
      obtain ⟨s₁, h1, h2⟩ := Option.bind_eq_some_iff.mp h
      exact whileLoop_inv hf (hf s s₁ hs hb h1) h2
    · rw [if_neg hb] at h
      cases h
      exact ⟨hs, by simpa using hb⟩
