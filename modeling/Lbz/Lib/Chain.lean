import Lbz.Lib.Heap

/-!
# Chains of cells in a heap

Cells that point to each other by a field `next`, the last one to nothing.

* `Chain next h o l`: from the pointer `o` one passes the cells `l`, in order;
* `Chain.congr`, `Chain.link`: a change that keeps the pointers keeps the chain, and a cell hung on
  the last one makes it longer by that;
* `contents f h l`: what the cells hold, one after the other.
-/

namespace Heap

variable {β γ : Type} {next : β → Option ℕ} {h h' : Heap β} {o : Option ℕ} {l : List ℕ}

/-- From `o`, the pointers `next` lead through the cells `l`, and end there. -/
def Chain (next : β → Option ℕ) (h : Heap β) : Option ℕ → List ℕ → Prop
  | o, [] => o = none
  | o, i :: l => o = some i ∧ ∃ x, h.get i = some x ∧ Chain next h (next x) l

theorem Chain.live : ∀ {l : List ℕ} {o : Option ℕ}, Chain next h o l → ∀ i ∈ l, ∃ x, h.get i = some x
  | [], _, _, _, hi => nomatch hi
  | j :: l, o, ⟨_, x, hx, hl⟩, i, hi => by
    rcases List.mem_cons.mp hi with rfl | hi
    · exact ⟨x, hx⟩
    · exact hl.live i hi

/-- The cells of the chain point where they did. -/
theorem Chain.congr : ∀ {l : List ℕ} {o : Option ℕ}, Chain next h o l →
    (∀ i ∈ l, (h'.get i).map next = (h.get i).map next) → Chain next h' o l
  | [], _, hl, _ => hl
  | i :: l, o, ⟨ho, x, hx, hl⟩, hn => by
    have hi := hn i List.mem_cons_self
    rw [hx, Option.map_some, Option.map_eq_some_iff] at hi
    obtain ⟨y, hy, he⟩ := hi
    refine ⟨ho, y, hy, ?_⟩
    rw [he]
    exact hl.congr fun j hj => hn j (List.mem_cons_of_mem _ hj)

/-- The cell `j` is hung on the last cell `i` of the chain. -/
theorem Chain.link {i j : ℕ} {x y : β} : ∀ {l : List ℕ} {o : Option ℕ}, Chain next h o (l ++ [i]) →
    i ∉ l → (∀ k ∈ l, (h'.get k).map next = (h.get k).map next) → h'.get i = some x →
    next x = some j → h'.get j = some y → next y = none → Chain next h' o (l ++ [i, j])
  | [], o, ⟨ho, _, _, _⟩, _, _, hx, hxn, hy, hyn => ⟨ho, x, hx, hxn, y, hy, hyn⟩
  | k :: l, o, ⟨ho, z, hz, hl⟩, hi, hn, hx, hxn, hy, hyn => by
    have hk := hn k List.mem_cons_self
    rw [hz, Option.map_some, Option.map_eq_some_iff] at hk
    obtain ⟨z', hz', he⟩ := hk
    refine ⟨ho, z', hz', ?_⟩
    rw [he]
    exact Chain.link hl (fun h => hi (List.mem_cons_of_mem _ h))
      (fun k hk => hn k (List.mem_cons_of_mem _ hk)) hx hxn hy hyn

/-- What the cells `l` hold. -/
def contents (f : β → List γ) (h : Heap β) (l : List ℕ) : List γ :=
  l.flatMap fun i => (h.get i).elim [] f

theorem contents_congr {f : β → List γ} (hn : ∀ i ∈ l, (h'.get i).map f = (h.get i).map f) :
    contents f h' l = contents f h l := by
  refine List.flatMap_congr fun i hi => ?_
  have := hn i hi
  cases hx : h.get i <;> cases hy : h'.get i <;> simp_all

theorem contents_concat (f : β → List γ) (h : Heap β) (l : List ℕ) {i : ℕ} {x : β}
    (hx : h.get i = some x) : contents f h (l ++ [i]) = contents f h l ++ f x := by
  rw [contents, List.flatMap_append, List.flatMap_singleton, hx]
  rfl

theorem contents_cons (f : β → List γ) (h : Heap β) (l : List ℕ) {i : ℕ} {x : β}
    (hx : h.get i = some x) : contents f h (i :: l) = f x ++ contents f h l := by
  rw [contents, List.flatMap_cons, hx]
  rfl

end Heap
