import Mathlib.Algebra.BigOperators.Group.List.Basic
import Mathlib.Algebra.Order.BigOperators.Group.List
import Mathlib.Data.Int.Basic
import Mathlib.Tactic.Ring

/-!
# A heap of cells addressed by number

A `Heap β` hands out the addresses `0, 1, 2, …` and never reuses one, so an address names one
object for the whole life of the heap.

* `get`, `alloc`, `burn`, `modify`, `free`, with the value each of them leaves at every address;
* `sum w`: the weights of all live objects added up; `sum_modify` and its companions say how one
  operation moves the total, which is what a reference count is compared with;
* `At h i P`: the object at `i` is live and satisfies `P`, a decidable guard;
* `Any`, `All`, `Pairs`: what holds of some live object, of every one and of every two, with their
  rules.
-/

/-- Cells in the order of their addresses; a freed cell is `none`. -/
structure Heap (β : Type) where
  cells : List (Option β)
deriving DecidableEq, Repr

namespace Heap

variable {β : Type}

/-- The heap with no address handed out. -/
def empty : Heap β := ⟨[]⟩

/-- The object at `i`, if it is live. -/
def get (h : Heap β) (i : ℕ) : Option β := h.cells.getD i none

/-- The next address `alloc` hands out. -/
def next (h : Heap β) : ℕ := h.cells.length

/-- A new object at address `next`. -/
def alloc (h : Heap β) (x : β) : Heap β := ⟨h.cells ++ [some x]⟩

/-- Hand out an address without storing an object. -/
def burn (h : Heap β) : Heap β := ⟨h.cells ++ [none]⟩

/-- Change the object at `i` in place. -/
def modify (h : Heap β) (i : ℕ) (f : β → β) : Heap β := ⟨h.cells.modify i (Option.map f)⟩

/-- Destroy the object at `i`. -/
def free (h : Heap β) (i : ℕ) : Heap β := ⟨h.cells.set i none⟩

/-- The total weight of the live objects. -/
def sum (h : Heap β) (w : β → ℤ) : ℤ := (h.cells.map fun o => o.elim 0 w).sum

/-- The object at `i` is live and satisfies `P`. -/
def At (h : Heap β) (i : ℕ) (P : β → Prop) : Prop := ∃ x, h.get i = some x ∧ P x

instance (h : Heap β) (i : ℕ) (P : β → Prop) [DecidablePred P] : Decidable (h.At i P) :=
  match e : h.get i with
  | none => isFalse fun ⟨x, hx, _⟩ => by rw [e] at hx; cases hx
  | some x => decidable_of_iff (P x) ⟨fun p => ⟨x, e, p⟩, fun ⟨y, hy, p⟩ => by
      rw [e] at hy; cases hy; exact p⟩

/-! ## What each operation leaves at an address -/

@[simp] theorem get_empty (i : ℕ) : (empty : Heap β).get i = none := by simp [get, empty]

theorem get_alloc (h : Heap β) (x : β) (i : ℕ) :
    (h.alloc x).get i = if i = h.next then some x else h.get i := by
  simp only [get, alloc, next, List.getD_eq_getElem?_getD, List.getElem?_append]
  split_ifs with h1 h2 h2
  · omega
  · rfl
  · simp [h2]
  · rw [List.getElem?_eq_none (l := h.cells) (by omega), List.getElem?_eq_none (by simp; omega)]

theorem get_burn (h : Heap β) (i : ℕ) : h.burn.get i = h.get i := by
  simp only [get, burn, List.getD_eq_getElem?_getD, List.getElem?_append]
  split_ifs with h1
  · rfl
  · rw [List.getElem?_eq_none (l := h.cells) (by omega)]
    cases hi : ([none] : List (Option β))[i - h.cells.length]? with
    | none => rfl
    | some o =>
      have := List.mem_of_getElem? hi
      simp only [List.mem_singleton] at this
      rw [this]; rfl

theorem get_modify (h : Heap β) (i j : ℕ) (f : β → β) :
    (h.modify i f).get j = if j = i then (h.get j).map f else h.get j := by
  simp only [get, modify, List.getD_eq_getElem?_getD, List.getElem?_modify]
  by_cases e : j = i
  · subst e
    cases h.cells[j]? <;> simp
  · rw [if_neg e]
    cases h.cells[j]? <;> simp [Ne.symm e]

theorem get_free (h : Heap β) (i j : ℕ) :
    (h.free i).get j = if j = i then none else h.get j := by
  simp only [get, free, List.getD_eq_getElem?_getD, List.getElem?_set]
  split_ifs with h1 h2 h3 <;> simp_all

theorem get_modify_self {h : Heap β} {i : ℕ} {x : β} (hx : h.get i = some x) (f : β → β) :
    (h.modify i f).get i = some (f x) := by
  rw [get_modify, if_pos rfl, hx]; rfl

theorem get_modify_ne {h : Heap β} {i j : ℕ} (hj : j ≠ i) (f : β → β) :
    (h.modify i f).get j = h.get j := by
  rw [get_modify, if_neg hj]

theorem get_eq_none_of_next_le {h : Heap β} {i : ℕ} (hi : h.next ≤ i) : h.get i = none := by
  rw [get, List.getD_eq_getElem?_getD, List.getElem?_eq_none hi]; rfl

theorem lt_next_of_get {h : Heap β} {i : ℕ} {x : β} (hx : h.get i = some x) : i < h.next := by
  by_contra hi
  rw [get_eq_none_of_next_le (not_lt.mp hi)] at hx
  cases hx

@[simp] theorem next_alloc (h : Heap β) (x : β) : (h.alloc x).next = h.next + 1 := by
  simp [next, alloc]

@[simp] theorem next_burn (h : Heap β) : h.burn.next = h.next + 1 := by simp [next, burn]

@[simp] theorem next_modify (h : Heap β) (i : ℕ) (f : β → β) : (h.modify i f).next = h.next := by
  simp [next, modify]

@[simp] theorem next_free (h : Heap β) (i : ℕ) : (h.free i).next = h.next := by simp [next, free]

theorem modify_modify (h : Heap β) (i : ℕ) (f g : β → β) :
    (h.modify i f).modify i g = h.modify i (g ∘ f) := by
  simp [modify, List.modify_modify_eq]

theorem modify_id (h : Heap β) (i : ℕ) : (h.modify i fun x => x) = h := by
  have : (Option.map fun x : β => x) = id := Option.map_id
  rw [modify, this, List.modify_id]

theorem modify_comm {h : Heap β} {i j : ℕ} (hij : i ≠ j) (f g : β → β) :
    (h.modify i f).modify j g = (h.modify j g).modify i f := by
  simp only [modify, mk.injEq]
  exact List.modify_modify_ne _ _ h.cells hij

theorem free_modify (h : Heap β) (i : ℕ) (f : β → β) : (h.modify i f).free i = h.free i := by
  simp only [free, modify, mk.injEq]
  refine List.ext_getElem? fun j => ?_
  by_cases e : i = j
  · subst e
    simp [List.getElem?_set]
  · simp [e]

theorem free_self (h : Heap β) (i : ℕ) : (h.free i).free i = h.free i := by simp [free]

theorem free_free (h : Heap β) (i j : ℕ) : (h.free i).free j = (h.free j).free i := by
  by_cases e : i = j
  · rw [e]
  · simp only [free, mk.injEq]
    exact List.set_comm none none e

theorem at_modify {h : Heap β} {i : ℕ} {x : β} (hx : h.get i = some x) {f : β → β} {P : β → Prop}
    (hP : P (f x) ↔ P x) (j : ℕ) : (h.modify i f).At j P ↔ h.At j P := by
  unfold At
  rw [get_modify]
  split_ifs with e
  · rw [e, hx]
    exact ⟨fun ⟨y, hy, p⟩ => ⟨x, rfl, hP.mp (Option.some.inj hy ▸ p)⟩,
      fun ⟨y, hy, p⟩ => ⟨f x, rfl, hP.mpr (Option.some.inj hy ▸ p)⟩⟩
  · exact Iff.rfl

/-- What a change keeps of an object. -/
theorem At.modify {h : Heap β} {i j : ℕ} {f : β → β} {P : β → Prop} (a : h.At j P)
    (hf : ∀ x, h.get i = some x → P x → P (f x)) : (h.modify i f).At j P := by
  obtain ⟨x, hx, hp⟩ := a
  by_cases e : j = i
  · subst e
    exact ⟨f x, get_modify_self hx f, hf x hx hp⟩
  · exact ⟨x, by rw [get_modify_ne e, hx], hp⟩

/-- Another object is freed. -/
theorem At.free {h : Heap β} {i j : ℕ} {P : β → Prop} (a : h.At j P) (hj : j ≠ i) :
    (h.free i).At j P := by
  obtain ⟨x, hx, hp⟩ := a
  exact ⟨x, by rw [get_free, if_neg hj, hx], hp⟩

theorem At.alloc {h : Heap β} {j : ℕ} {P : β → Prop} (a : h.At j P) (y : β) :
    (h.alloc y).At j P := by
  obtain ⟨x, hx, hp⟩ := a
  exact ⟨x, by rw [get_alloc, if_neg (lt_next_of_get hx).ne, hx], hp⟩

theorem at_alloc {h : Heap β} {x : β} {P : β → Prop} {j : ℕ} (hj : j ≠ h.next) :
    (h.alloc x).At j P ↔ h.At j P := by
  unfold At
  rw [get_alloc, if_neg hj]

/-! ## Some object -/

/-- Some live object satisfies `P`. -/
def Any (h : Heap β) (P : β → Prop) : Prop := ∃ i x, h.get i = some x ∧ P x

namespace Any

variable {h : Heap β} {P Q : β → Prop} {i : ℕ} {x : β}

theorem imp (a : h.Any P) (hi : ∀ x, P x → Q x) : h.Any Q :=
  let ⟨i, x, hx, hp⟩ := a; ⟨i, x, hx, hi x hp⟩

theorem modify (a : h.Any P) (hx : h.get i = some x) {f : β → β} (hf : P x → P (f x)) :
    (h.modify i f).Any P := by
  obtain ⟨j, y, hy, hp⟩ := a
  by_cases e : j = i
  · subst e
    cases hx.symm.trans hy
    exact ⟨j, f x, get_modify_self hx f, hf hp⟩
  · exact ⟨j, y, by rw [get_modify_ne e, hy], hp⟩

theorem of_modify {f : β → β} (a : (h.modify i f).Any P) (hx : h.get i = some x)
    (hf : P (f x) → P x) : h.Any P := by
  obtain ⟨j, y, hy, hp⟩ := a
  by_cases e : j = i
  · subst e
    cases (get_modify_self hx f).symm.trans hy
    exact ⟨j, x, hx, hf hp⟩
  · exact ⟨j, y, by rw [← get_modify_ne (f := f) e, hy], hp⟩

theorem self (hx : h.get i = some x) {f : β → β} (hp : P (f x)) : (h.modify i f).Any P :=
  ⟨i, f x, get_modify_self hx f, hp⟩

end Any

theorem any_alloc {h : Heap β} {P : β → Prop} {x : β} (hx : ¬ P x) :
    (h.alloc x).Any P ↔ h.Any P := by
  constructor
  · rintro ⟨i, y, hy, hp⟩
    rw [get_alloc] at hy
    split_ifs at hy with e
    · cases hy
      exact absurd hp hx
    · exact ⟨i, y, hy, hp⟩
  · rintro ⟨i, y, hy, hp⟩
    exact ⟨i, y, by rw [get_alloc, if_neg (lt_next_of_get hy).ne, hy], hp⟩

/-! ## Every object -/

/-- Every live object satisfies `Φ`. -/
def All (h : Heap β) (Φ : ℕ → β → Prop) : Prop := ∀ i x, h.get i = some x → Φ i x

instance (h : Heap β) (Φ : ℕ → β → Prop) [∀ i x, Decidable (Φ i x)] : Decidable (h.All Φ) :=
  decidable_of_iff (∀ i < h.next, ∀ x ∈ h.get i, Φ i x)
    ⟨fun a i x hx => a i (lt_next_of_get hx) x hx, fun a i _ x hx => a i x hx⟩

/-- Every two live objects satisfy `Ψ`. -/
def Pairs (h : Heap β) (Ψ : β → β → Prop) : Prop :=
  ∀ i j x y, i ≠ j → h.get i = some x → h.get j = some y → Ψ x y

namespace All

variable {h : Heap β} {Φ Φ' : ℕ → β → Prop}

theorem imp (a : h.All Φ) (hi : ∀ i x, h.get i = some x → Φ i x → Φ' i x) : h.All Φ' :=
  fun i x hx => hi i x hx (a i x hx)

theorem empty : (Heap.empty : Heap β).All Φ := fun i x hx => by rw [get_empty] at hx; cases hx

theorem alloc (a : h.All Φ) {x : β} (hx : Φ h.next x) : (h.alloc x).All Φ := by
  intro i y hy
  rw [get_alloc] at hy
  split_ifs at hy with e
  · cases hy
    exact e ▸ hx
  · exact a i y hy

theorem burn (a : h.All Φ) : h.burn.All Φ := fun i x hx => a i x (by rwa [get_burn] at hx)

theorem modify (a : h.All Φ) {i : ℕ} {f : β → β} (hf : ∀ x, h.get i = some x → Φ i x → Φ i (f x)) :
    (h.modify i f).All Φ := by
  intro j y hy
  rw [get_modify] at hy
  split_ifs at hy with e
  · subst e
    obtain ⟨x, hx, rfl⟩ := Option.map_eq_some_iff.mp hy
    exact hf x hx (a j x hx)
  · exact a j y hy

/-- The rule for a change of a known object. -/
theorem modify_at (a : h.All Φ) {i : ℕ} {x : β} (hx : h.get i = some x) {f : β → β}
    (hf : Φ i x → Φ i (f x)) : (h.modify i f).All Φ :=
  a.modify fun y hy => by rw [hx] at hy; cases hy; exact hf

theorem free (a : h.All Φ) (i : ℕ) : (h.free i).All Φ := by
  intro j y hy
  rw [get_free] at hy
  split_ifs at hy
  exact a j y hy

end All

namespace Pairs

variable {h : Heap β} {Ψ : β → β → Prop}

theorem empty : (Heap.empty : Heap β).Pairs Ψ := fun i _ x _ _ hx _ => by
  rw [get_empty] at hx; cases hx

theorem alloc (a : h.Pairs Ψ) {x : β} (hx : h.All fun _ y => Ψ x y ∧ Ψ y x) :
    (h.alloc x).Pairs Ψ := by
  intro i j y z hij hy hz
  rw [get_alloc] at hy hz
  split_ifs at hy hz with e1 e2 e2
  · exact absurd (e1.trans e2.symm) hij
  · cases hy
    exact (hx j z hz).1
  · cases hz
    exact (hx i y hy).2
  · exact a i j y z hij hy hz

theorem modify (a : h.Pairs Ψ) {i : ℕ} {f : β → β}
    (hf : ∀ x, h.get i = some x → ∀ j y, j ≠ i → h.get j = some y →
      (Ψ x y → Ψ (f x) y) ∧ (Ψ y x → Ψ y (f x))) : (h.modify i f).Pairs Ψ := by
  intro j k y z hjk hy hz
  rw [get_modify] at hy hz
  split_ifs at hy hz with e1 e2 e2
  · exact absurd (e1.trans e2.symm) hjk
  · subst e1
    obtain ⟨x, hx, rfl⟩ := Option.map_eq_some_iff.mp hy
    exact (hf x hx k z e2 hz).1 (a j k x z hjk hx hz)
  · subst e2
    obtain ⟨x, hx, rfl⟩ := Option.map_eq_some_iff.mp hz
    exact (hf x hx j y e1 hy).2 (a j k y x hjk hy hx)
  · exact a j k y z hjk hy hz

theorem modify_at (a : h.Pairs Ψ) {i : ℕ} {x : β} (hx : h.get i = some x) {f : β → β}
    (hf : ∀ j y, j ≠ i → h.get j = some y → (Ψ x y → Ψ (f x) y) ∧ (Ψ y x → Ψ y (f x))) :
    (h.modify i f).Pairs Ψ :=
  a.modify fun y hy => by rw [hx] at hy; cases hy; exact hf

theorem free (a : h.Pairs Ψ) (i : ℕ) : (h.free i).Pairs Ψ := by
  intro j k y z hjk hy hz
  rw [get_free] at hy hz
  split_ifs at hy hz
  exact a j k y z hjk hy hz

end Pairs

/-! ## Totals -/

@[simp] theorem sum_empty (w : β → ℤ) : (empty : Heap β).sum w = 0 := by simp [sum, empty]

@[simp] theorem sum_alloc (h : Heap β) (x : β) (w : β → ℤ) : (h.alloc x).sum w = h.sum w + w x := by
  simp [sum, alloc]

@[simp] theorem sum_burn (h : Heap β) (w : β → ℤ) : h.burn.sum w = h.sum w := by simp [sum, burn]

theorem sum_set_aux (w : β → ℤ) (o' : Option β) :
    ∀ (l : List (Option β)) (i : ℕ) (x : β), l.getD i none = some x →
      ((l.set i o').map fun o => o.elim 0 w).sum =
        (l.map fun o => o.elim 0 w).sum - w x + o'.elim 0 w
  | [], i, x, h => by simp at h
  | o :: l, 0, x, h => by
    simp only [List.getD_cons_zero] at h
    subst h
    simp only [List.set_cons_zero, List.map_cons, List.sum_cons, Option.elim]
    ring
  | o :: l, i + 1, x, h => by
    simp only [List.getD_cons_succ] at h
    simp only [List.set_cons_succ, List.map_cons, List.sum_cons, sum_set_aux w o' l i x h]
    ring

theorem sum_modify {h : Heap β} {i : ℕ} {x : β} (hx : h.get i = some x) (f : β → β) (w : β → ℤ) :
    (h.modify i f).sum w = h.sum w - w x + w (f x) := by
  have hi : h.cells[i]? = some (some x) := by
    rw [get, List.getD_eq_getElem?_getD] at hx
    cases e : h.cells[i]? with
    | none => rw [e] at hx; cases hx
    | some o => rw [e] at hx; exact congrArg some hx
  have hm : h.cells.modify i (Option.map f) = h.cells.set i (some (f x)) := by
    rw [List.modify_eq_set, hi]; rfl
  rw [sum, modify, hm]
  exact sum_set_aux w (some (f x)) h.cells i x hx

theorem sum_free {h : Heap β} {i : ℕ} {x : β} (hx : h.get i = some x) (w : β → ℤ) :
    (h.free i).sum w = h.sum w - w x := by
  have e := sum_set_aux w none h.cells i x hx
  rw [Option.elim_none, add_zero] at e
  exact e

theorem sum_nonneg (h : Heap β) {w : β → ℤ} (hw : ∀ x, 0 ≤ w x) : 0 ≤ h.sum w := by
  refine List.sum_nonneg fun a ha => ?_
  obtain ⟨o, -, rfl⟩ := List.mem_map.mp ha
  cases o with
  | none => exact le_rfl
  | some x => exact hw x

theorem le_sum {h : Heap β} {w : β → ℤ} (hw : ∀ x, 0 ≤ w x) {i : ℕ} {x : β}
    (hx : h.get i = some x) : w x ≤ h.sum w := by
  have h0 := sum_free hx w
  have h1 := sum_nonneg (h.free i) hw
  omega

theorem le_sum_add {h : Heap β} {w : β → ℤ} (hw : ∀ x, 0 ≤ w x) {i j : ℕ} {x y : β}
    (hx : h.get i = some x) (hy : h.get j = some y) (hij : i ≠ j) : w x + w y ≤ h.sum w := by
  have h0 := sum_free hx w
  have hy' : (h.free i).get j = some y := by rw [get_free, if_neg (Ne.symm hij), hy]
  have h1 := le_sum hw hy'
  omega

theorem eq_zero_of_sum_eq_zero {h : Heap β} {w : β → ℤ} (hw : ∀ x, 0 ≤ w x) (hs : h.sum w = 0)
    {i : ℕ} {x : β} (hx : h.get i = some x) : w x = 0 :=
  le_antisymm (hs ▸ le_sum hw hx) (hw x)

theorem sum_eq_zero {h : Heap β} {w : β → ℤ} (hw : ∀ i x, h.get i = some x → w x = 0) :
    h.sum w = 0 := by
  refine List.sum_eq_zero fun a ha => ?_
  obtain ⟨o, ho, rfl⟩ := List.mem_map.mp ha
  cases o with
  | none => rfl
  | some x =>
    obtain ⟨i, hi⟩ := List.mem_iff_getElem?.mp ho
    exact hw i x (by rw [get, List.getD_eq_getElem?_getD, hi]; rfl)

end Heap
