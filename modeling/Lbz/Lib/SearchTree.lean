import Mathlib.Data.Tree.Basic
import Mathlib.Data.List.Nodup
import Mathlib.Order.Compare
import Mathlib.Order.Lattice

/-!
# Binary search trees as a loop sees them

* `inorder`: the values of a tree from left to right; `Sorted key`: their keys ascend;
* `descend dir`: the value where a descent ends that goes where `dir` says at each node;
  `link dir v`: the tree with `v` put where such a descent ends below a leaf;
* **`descend_compare`**: in a sorted tree the descent that compares keys finds the value with the key;
  `inorder_link`, `Sorted.link`: where it ends otherwise is the place of the key;
* **`descend_swap`**: the descent with the comparison turned round finds a value at the root only.
-/

namespace BinaryTree

variable {β κ : Type*}

/-- The values from left to right. -/
def inorder : BinaryTree β → List β
  | nil => []
  | node x l r => l.inorder ++ x :: r.inorder

/-- `.lt` goes left, `.gt` goes right, `.eq` stops. -/
def descend (dir : β → Ordering) : BinaryTree β → Option β
  | nil => none
  | node x l r =>
    match dir x with
    | .lt => l.descend dir
    | .gt => r.descend dir
    | .eq => some x

/-- Hang `v` where the descent leaves the tree. -/
def link (dir : β → Ordering) (v : β) : BinaryTree β → BinaryTree β
  | nil => node v nil nil
  | node x l r =>
    match dir x with
    | .lt => node x (l.link dir v) r
    | .gt => node x l (r.link dir v)
    | .eq => node x l r

theorem mem_inorder_node {x y : β} {l r : BinaryTree β} :
    y ∈ (node x l r).inorder ↔ y ∈ l.inorder ∨ y = x ∨ y ∈ r.inorder := by
  simp only [inorder, List.mem_append, List.mem_cons]

/-- Wherever a descent stops, it stops at a value of the tree. -/
theorem mem_of_descend {dir : β → Ordering} {x : β} :
    ∀ {t : BinaryTree β}, t.descend dir = some x → x ∈ t.inorder ∧ dir x = .eq
  | nil, h => by cases h
  | node y l r, h => by
    rw [descend] at h
    rw [mem_inorder_node]
    cases hd : dir y with
    | lt =>
      rw [hd] at h
      exact (mem_of_descend h).imp_left Or.inl
    | gt =>
      rw [hd] at h
      exact (mem_of_descend h).imp_left fun h => Or.inr (Or.inr h)
    | eq =>
      rw [hd] at h
      cases h
      exact ⟨Or.inr (Or.inl rfl), hd⟩

variable [LinearOrder κ]

/-- The keys ascend from left to right. -/
def Sorted (key : β → κ) (t : BinaryTree β) : Prop := (t.inorder.map key).Pairwise (· < ·)

section

variable {key : β → κ} {x : β} {l r t : BinaryTree β} {k : κ}

theorem sorted_node : Sorted key (node x l r) ↔ (Sorted key l ∧ Sorted key r) ∧
    (∀ y ∈ l.inorder, key y < key x) ∧ ∀ y ∈ r.inorder, key x < key y := by
  simp only [Sorted, inorder, List.map_append, List.map_cons, List.pairwise_append,
    List.pairwise_cons, List.mem_map, List.mem_cons, forall_exists_index, and_imp,
    forall_apply_eq_imp_iff₂]
  constructor
  · rintro ⟨hl, ⟨hx, hr⟩, hlr⟩
    exact ⟨⟨hl, hr⟩, fun y hy => hlr y hy _ (Or.inl rfl), hx⟩
  · rintro ⟨⟨hl, hr⟩, hlx, hxr⟩
    refine ⟨hl, ⟨hxr, hr⟩, fun y hy b hb => ?_⟩
    rcases hb with rfl | ⟨z, hz, rfl⟩
    · exact hlx y hy
    · exact (hlx y hy).trans (hxr z hz)

/-- Two values of a sorted tree with one key are one. -/
theorem Sorted.key_inj (h : Sorted key t) {x y : β} (hx : x ∈ t.inorder) (hy : y ∈ t.inorder)
    (e : key x = key y) : x = y :=
  List.inj_on_of_nodup_map (h.imp ne_of_lt) hx hy e

/-- **The descent that compares keys** finds the value with the key. -/
theorem descend_compare :
    ∀ {t : BinaryTree β}, Sorted key t →
      (t.descend (fun x => compare k (key x)) = some x ↔ x ∈ t.inorder ∧ key x = k)
  | nil, _ => by simp [descend, inorder]
  | node y l r, h => by
    obtain ⟨⟨hl, hr⟩, hly, hyr⟩ := sorted_node.mp h
    rw [descend, mem_inorder_node]
    rcases lt_trichotomy k (key y) with hk | hk | hk
    · -- the value is not at the root, and not on the right
      rw [compare_lt_iff_lt.mpr hk]
      refine (descend_compare hl).trans ⟨fun ⟨hx, e⟩ => ⟨Or.inl hx, e⟩, fun ⟨hx, e⟩ => ⟨?_, e⟩⟩
      rcases hx with hx | rfl | hx
      · exact hx
      · exact absurd e hk.ne'
      · exact absurd (e ▸ hyr x hx) hk.not_gt
    · rw [compare_eq_iff_eq.mpr hk]
      refine ⟨fun e => ?_, fun ⟨hx, e⟩ => ?_⟩
      · cases e
        exact ⟨Or.inr (Or.inl rfl), hk.symm⟩
      · exact congrArg some (h.key_inj (mem_inorder_node.mpr (Or.inr (Or.inl rfl)))
          (mem_inorder_node.mpr hx) (hk.symm.trans e.symm))
    · rw [compare_gt_iff_gt.mpr hk]
      refine (descend_compare hr).trans
        ⟨fun ⟨hx, e⟩ => ⟨Or.inr (Or.inr hx), e⟩, fun ⟨hx, e⟩ => ⟨?_, e⟩⟩
      rcases hx with hx | rfl | hx
      · exact absurd (e ▸ hly x hx) hk.not_gt
      · exact absurd e hk.ne
      · exact hx

/-- A value with a new key is linked between the smaller ones and the larger ones. -/
theorem inorder_link {v : β} : ∀ {t : BinaryTree β}, Sorted key t →
    t.descend (fun x => compare (key v) (key x)) = none → ∃ l₁ l₂, t.inorder = l₁ ++ l₂ ∧
      (t.link (fun x => compare (key v) (key x)) v).inorder = l₁ ++ v :: l₂ ∧
      (∀ y ∈ l₁, key y < key v) ∧ ∀ y ∈ l₂, key v < key y
  | nil, _, _ => ⟨[], [], rfl, rfl, nofun, nofun⟩
  | node y l r, h, hd => by
    obtain ⟨⟨hl, hr⟩, hly, hyr⟩ := sorted_node.mp h
    rw [descend] at hd
    rw [link]
    rcases lt_trichotomy (key v) (key y) with hk | hk | hk
    · rw [compare_lt_iff_lt.mpr hk] at hd ⊢
      obtain ⟨l₁, l₂, h1, h2, h3, h4⟩ := inorder_link hl hd
      refine ⟨l₁, l₂ ++ y :: r.inorder, ?_, ?_, h3, fun z hz => ?_⟩
      · rw [inorder, h1, List.append_assoc]
      · rw [inorder, h2, List.append_assoc, List.cons_append]
      · rcases List.mem_append.mp hz with hz | hz
        · exact h4 z hz
        · rcases List.mem_cons.mp hz with rfl | hz
          · exact hk
          · exact hk.trans (hyr z hz)
    · rw [compare_eq_iff_eq.mpr hk] at hd
      cases hd
    · rw [compare_gt_iff_gt.mpr hk] at hd ⊢
      obtain ⟨l₁, l₂, h1, h2, h3, h4⟩ := inorder_link hr hd
      refine ⟨l.inorder ++ y :: l₁, l₂, ?_, ?_, fun z hz => ?_, h4⟩
      · rw [inorder, h1, List.append_assoc, List.cons_append]
      · rw [inorder, h2, List.append_assoc, List.cons_append]
      · rcases List.mem_append.mp hz with hz | hz
        · exact (hly z hz).trans hk
        · rcases List.mem_cons.mp hz with rfl | hz
          · exact hk
          · exact h3 z hz

/-- **The descent with the comparison turned round** finds a value at the root only. -/
theorem descend_swap (h : Sorted key t) :
    t.descend (fun x => (compare k (key x)).swap) = some x ↔
      key x = k ∧ ∃ l r, t = node x l r := by
  cases t with
  | nil => simp [descend]
  | node y l r =>
    obtain ⟨⟨hl, hr⟩, hly, hyr⟩ := sorted_node.mp h
    rw [descend]
    rcases lt_trichotomy k (key y) with hk | hk | hk
    · -- every key on the right is larger still
      rw [compare_lt_iff_lt.mpr hk]
      refine ⟨fun e => ?_, fun ⟨e, l', r', ht⟩ => ?_⟩
      · obtain ⟨hx, he⟩ := mem_of_descend e
        rw [Ordering.swap_eq_eq, compare_eq_iff_eq] at he
        exact absurd (he ▸ hyr x hx) hk.not_gt
      · cases ht
        exact absurd e hk.ne'
    · rw [compare_eq_iff_eq.mpr hk]
      refine ⟨fun e => ?_, fun ⟨e, l', r', ht⟩ => ?_⟩
      · cases e
        exact ⟨hk.symm, l, r, rfl⟩
      · cases ht
        rfl
    · rw [compare_gt_iff_gt.mpr hk]
      refine ⟨fun e => ?_, fun ⟨e, l', r', ht⟩ => ?_⟩
      · obtain ⟨hx, he⟩ := mem_of_descend e
        rw [Ordering.swap_eq_eq, compare_eq_iff_eq] at he
        exact absurd (he ▸ hly x hx) hk.not_gt
      · cases ht
        exact absurd e hk.ne

end

end BinaryTree
