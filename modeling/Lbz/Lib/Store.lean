import Lbz.Lib.Run
import Mathlib.Logic.Function.Basic

/-!
# A store, its operations and its log

* `StoreOp K V`: a value is put at a key, or what is there is deleted; `replay l f`: the store `f`
  after the operations `l`, newest first;
* `replay_of_forall`: what is read at a key on which all operations agree;
* `Logged R ok emit`: a run, with what its steps have logged; **`Logged.refines`**: if every step
  does to an abstraction of the state what it logs, the abstraction is the replayed log.
-/

/-- One operation on a store with keys `K` and values `V`. -/
inductive StoreOp (K V : Type*)
  | put (k : K) (v : V)
  | del (k : K)
deriving DecidableEq

variable {K V S E O : Type*}

namespace StoreOp

def key : StoreOp K V → K
  | .put k _ | .del k => k

def value : StoreOp K V → Option V
  | .put _ v => some v
  | .del _ => none

/-- The store after one operation. -/
def apply [DecidableEq K] (o : StoreOp K V) (f : K → Option V) : K → Option V :=
  Function.update f o.key o.value

end StoreOp

section

variable [DecidableEq K] {f : K → Option V} {k : K} {l l' : List (StoreOp K V)}

/-- The store after the operations `l`, newest first. -/
def replay (l : List (StoreOp K V)) (f : K → Option V) : K → Option V := l.foldr StoreOp.apply f

@[simp] theorem replay_nil (f : K → Option V) : replay [] f = f := rfl

@[simp] theorem replay_cons (o : StoreOp K V) (l : List (StoreOp K V)) (f : K → Option V) :
    replay (o :: l) f = o.apply (replay l f) := rfl

theorem replay_append (l l' : List (StoreOp K V)) (f : K → Option V) :
    replay (l ++ l') f = replay l (replay l' f) := List.foldr_append

/-- All operations of the key leave `o` there, and there is one. -/
theorem replay_of_forall {o : Option V} (h : ∀ p ∈ l, p.key = k → p.value = o)
    (hex : ∃ p ∈ l, p.key = k) : replay l f k = o := by
  induction l with
  | nil =>
    obtain ⟨p, hp, -⟩ := hex
    cases hp
  | cons p l ih =>
    rw [replay_cons, StoreOp.apply, Function.update_apply]
    split_ifs with e
    · exact h p List.mem_cons_self e.symm
    · refine ih (fun q hq => h q (List.mem_cons_of_mem p hq)) ?_
      obtain ⟨q, hq, hk⟩ := hex
      rcases List.mem_cons.mp hq with rfl | hq
      · exact absurd hk.symm e
      · exact ⟨q, hq, hk⟩

/-- The keys `ks` are deleted. -/
theorem replay_del (ks : List K) (f : K → Option V) (k : K) :
    replay (ks.map .del) f k = if k ∈ ks then none else f k := by
  induction ks with
  | nil => rfl
  | cons k' ks ih =>
    rw [List.map_cons, replay_cons, StoreOp.apply, Function.update_apply, ih]
    by_cases h : k = k'
    · rw [if_pos (show k = StoreOp.key (.del k' : StoreOp K V) from h),
        if_pos (List.mem_cons.mpr (Or.inl h))]
      rfl
    · rw [if_neg (show ¬ k = StoreOp.key (.del k' : StoreOp K V) from h)]
      simp only [List.mem_cons, h, false_or]

end

/-- `s'` is reached from `s`, and the steps have logged `l`, newest first. -/
inductive Logged (R : S → E → S → Prop) (ok : S → E → Prop) (emit : S → E → List O) (s : S) :
    List O → S → Prop
  | refl : Logged R ok emit s [] s
  | tail {l : List O} {s' s'' : S} {e : E} (h : Logged R ok emit s l s') (he : ok s' e)
      (hs : R s' e s'') : Logged R ok emit s (emit s' e ++ l) s''

namespace Logged

variable {R : S → E → S → Prop} {ok : S → E → Prop} {s s' : S}

theorem runs {emit : S → E → List O} {l : List O} (h : Logged R ok emit s l s') : Runs R ok s s' := by
  induction h with
  | refl => exact Runs.refl
  | tail _ he hs ih => exact ih.tail he hs

theorem exists_of_runs (emit : S → E → List O) (h : Runs R ok s s') :
    ∃ l, Logged R ok emit s l s' := by
  induction h with
  | refl => exact ⟨[], .refl⟩
  | tail _ hs ih =>
    obtain ⟨l, hl⟩ := ih
    obtain ⟨e, he, hs⟩ := hs
    exact ⟨_, hl.tail he hs⟩

/-- **The refinement rule.** A step that keeps `I`, to a state that `Q` holds of, does to the store
`A s` what it logs. -/
theorem refines [DecidableEq K] {emit : S → E → List (StoreOp K V)} {A : S → K → Option V}
    {I Q : S → Prop} (hI : ∀ s e s', I s → ok s e → R s e s' → I s')
    (hQ : ∀ s e s', R s e s' → Q s)
    (hstep : ∀ s e s', I s → ok s e → R s e s' → Q s' → A s' = replay (emit s e) (A s))
    {l : List (StoreOp K V)} (h : Logged R ok emit s l s') (h0 : I s) (hq : Q s') :
    A s' = replay l (A s) := by
  induction h with
  | refl => rfl
  | tail h he hs ih =>
    rw [hstep _ _ _ (h.runs.inv hI h0) he hs hq, ih (hQ _ _ _ hs), replay_append]

end Logged
