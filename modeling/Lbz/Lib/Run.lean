import Mathlib.Logic.Relation
import Mathlib.Tactic.SplitIfs

/-!
# Runs of a guarded transition relation

`R s e s'` says that `e` leads from `s` to `s'`.

* `Runs R ok`: the states joined by a run whose every step meets `ok`, a condition on the label and
  the state before it; `Runs.inv` is the invariant rule, `Runs.mono` changes the condition;
* `stepRel step`: the relation of a partial transition function;
* `exec step ok`: a run on a given list of labels, and `exists_run`, which makes an executed list a
  run.
-/

variable {S E : Type*}

/-- `s'` is reached from `s` by labels that each met `ok` when they happened. -/
def Runs (R : S → E → S → Prop) (ok : S → E → Prop) : S → S → Prop :=
  Relation.ReflTransGen fun s s' => ∃ e, ok s e ∧ R s e s'

namespace Runs

variable {R : S → E → S → Prop} {ok ok' : S → E → Prop} {s s' s'' : S}

theorem refl : Runs R ok s s := Relation.ReflTransGen.refl

theorem one {e : E} (he : ok s e) (hs : R s e s') : Runs R ok s s' :=
  Relation.ReflTransGen.single ⟨e, he, hs⟩

theorem tail (h : Runs R ok s s') {e : E} (he : ok s' e) (hs : R s' e s'') : Runs R ok s s'' :=
  Relation.ReflTransGen.tail h ⟨e, he, hs⟩

theorem trans (h : Runs R ok s s') (h' : Runs R ok s' s'') : Runs R ok s s'' :=
  Relation.ReflTransGen.trans h h'

/-- **The invariant rule.** What every permitted step preserves, every run preserves. -/
theorem inv {I : S → Prop} (hI : ∀ s e s', I s → ok s e → R s e s' → I s')
    (h : Runs R ok s s') (h0 : I s) : I s' := by
  induction h with
  | refl => exact h0
  | tail _ hs ih =>
    obtain ⟨e, he, hs⟩ := hs
    exact hI _ e _ ih he hs

theorem mono (hok : ∀ s e, ok s e → ok' s e) (h : Runs R ok s s') : Runs R ok' s s' :=
  Relation.ReflTransGen.mono (fun _ _ ⟨e, he, hs⟩ => ⟨e, hok _ e he, hs⟩) _ _ h

end Runs

/-- The transition relation of a partial function, `none` where the label cannot happen. -/
def stepRel (step : S → E → Option S) (s : S) (e : E) (s' : S) : Prop := step s e = some s'

/-- The run on a given list of labels, each of which has to meet `ok`. -/
def exec (step : S → E → Option S) (ok : S → E → Prop) [∀ s e, Decidable (ok s e)] :
    S → List E → Option S
  | s, [] => some s
  | s, e :: es => if ok s e then (step s e).bind fun s' => exec step ok s' es else none

theorem runs_of_exec {step : S → E → Option S} {ok : S → E → Prop} [∀ s e, Decidable (ok s e)]
    {s' : S} : ∀ {s : S} {es : List E}, exec step ok s es = some s' → Runs (stepRel step) ok s s'
  | s, [], h => by
    simp only [exec, Option.some.injEq] at h
    exact h ▸ Runs.refl
  | s, e :: es, h => by
    rw [exec] at h
    split_ifs at h with he
    obtain ⟨s₁, h1, h2⟩ := Option.bind_eq_some_iff.mp h
    exact (Runs.one he h1).trans (runs_of_exec h2)

/-- An execution to a state that passes `P` is a run to one. -/
theorem exists_run (step : S → E → Option S) (ok : S → E → Prop) [∀ s e, Decidable (ok s e)]
    (P : S → Bool) (s : S) (es : List E) (h : (exec step ok s es).any P = true) :
    ∃ s', Runs (stepRel step) ok s s' ∧ P s' = true := by
  obtain ⟨s', h1, h2⟩ := (Option.any_eq_true _ _).mp h
  exact ⟨s', runs_of_exec h1, h2⟩
