import Mathlib.Data.List.Find
import Mathlib.Data.List.Sort

/-!
# Stable sorting by keys and by comparers

`orderBy key` is the stable sort of a list by a key in a linear order, smallest key first, and
`sortBy cmp` the one by a comparer, which may compare several keys one after the other. The head
of a sorted list is the first element of the list that nothing comes before.
-/

namespace StableOrder

section Head

variable {α : Type*} (r : α → α → Prop) [DecidableRel r]

def least (l : List α) (a : α) : Bool := l.all (fun b => r a b)

theorem least_iff {l : List α} {a : α} : least r l a ↔ ∀ b ∈ l, r a b := by simp [least]

variable [Std.Total r] [IsTrans α r]

/-- Stability at the head: of the elements that nothing comes before, the sorted list starts with
the one that stood first. -/
theorem head?_insertionSort (l : List α) : (l.insertionSort r).head? = l.find? (least r l) := by
  have hrefl (a : α) : r a a := (Std.Total.total (r := r) a a).elim id id
  induction l with
  | nil => rfl
  | cons a l ih =>
    by_cases hmin : ∀ b ∈ l, r a b
    · have hfind : least r (a :: l) a := by simpa [least_iff, hrefl a] using hmin
      rw [List.insertionSort_cons_of_forall_rel _ hmin, List.find?_cons_of_pos hfind]
      rfl
    · obtain ⟨c, hc, hac⟩ : ∃ c ∈ l, ¬ r a c := by simpa using hmin
      obtain ⟨b, l', hsort⟩ : ∃ b l', l.insertionSort r = b :: l' := by
        have hmem : c ∈ l.insertionSort r := (List.mem_insertionSort r).mpr hc
        exact List.exists_cons_of_ne_nil (List.ne_nil_of_mem hmem)
      have hb : b ∈ l := (List.mem_insertionSort r).mp (by simp [hsort])
      rw [hsort, List.head?_cons] at ih
      have hleast : ∀ d ∈ l, r b d := (least_iff r).mp (List.find?_some ih.symm)
      have hab : ¬ r a b := fun h => hac (IsTrans.trans a b c h (hleast c hc))
      have hba : r b a := (Std.Total.total (r := r) b a).resolve_right hab
      have hhead : ¬ least r (a :: l) a := by
        rw [least_iff]
        exact fun h => hac (h c (List.mem_cons_of_mem a hc))
      -- the head of `l` comes before `a`, so in `l` the two tests say the same
      have hsame : ∀ d ∈ l, least r l d = least r (a :: l) d := by
        intro d _
        rw [Bool.eq_iff_iff, least_iff, least_iff, List.forall_mem_cons]
        exact ⟨fun hd => ⟨IsTrans.trans d b a (hd b hb) hba, hd⟩, fun hd => hd.2⟩
      rw [List.insertionSort_cons, hsort, List.orderedInsert_of_not_le _ _ hab, List.head?_cons, ih,
        List.find?_cons_of_neg hhead]
      exact List.find?_congr hsame

end Head

section Key

variable {α κ : Type*} [LE κ] [DecidableLE κ] (key : α → κ)

/-- Sort by a key, elements with equal keys staying in their order. -/
def orderBy (l : List α) : List α := l.insertionSort (fun a b => key a ≤ key b)

theorem orderBy_perm (l : List α) : (orderBy key l).Perm l := List.perm_insertionSort _ l

theorem head?_orderBy_isSome {l : List α} (h : l ≠ []) : ∃ a, (orderBy key l).head? = some a := by
  cases hs : orderBy key l with
  | nil =>
    have hp := orderBy_perm key l
    rw [hs] at hp
    exact absurd hp.symm.eq_nil h
  | cons a l' => exact ⟨a, rfl⟩

variable [Std.IsLinearPreorder κ]

/-- The first element of a sorted list is the first of the list with the smallest key. -/
theorem head?_orderBy_eq (l : List α) :
    (orderBy key l).head? = l.find? (least (fun a b => key a ≤ key b) l) := by
  have : Std.Total (fun a b : α => key a ≤ key b) := ⟨fun _ _ => Std.le_total⟩
  have : IsTrans α (fun a b => key a ≤ key b) := ⟨fun _ _ _ => Std.le_trans⟩
  exact head?_insertionSort _ l

theorem head?_orderBy {l : List α} {a : α} (h : (orderBy key l).head? = some a) :
    a ∈ l ∧ ∀ b ∈ l, key a ≤ key b := by
  rw [head?_orderBy_eq] at h
  exact ⟨List.mem_of_find?_eq_some h, (least_iff _).mp (List.find?_some h)⟩

end Key

section Comparer

variable {α κ : Type*}

def descendingOn [Ord κ] (key : α → κ) (a b : α) : Ordering := compareOn key b a

instance [Ord κ] [Std.TransOrd κ] (key : α → κ) : Std.TransCmp (descendingOn key) :=
  inferInstanceAs (Std.TransCmp (fun a b => compareOn key b a))

section

variable [Ord κ] [LE κ] [Std.LawfulOrderOrd κ] {key : α → κ} {a b : α}

theorem isLE_compareOn : (compareOn key a b).isLE ↔ key a ≤ key b := Std.isLE_compare

theorem isLE_descendingOn : (descendingOn key a b).isLE ↔ key b ≤ key a := Std.isLE_compare

end

theorem isLE_compareLex {c d : α → α → Ordering} [Std.OrientedCmp c] {a b : α} :
    (compareLex c d a b).isLE ↔ (c a b).isLE ∧ ((c b a).isLE → (d a b).isLE) := by
  have hswap : c b a = (c a b).swap := Std.OrientedCmp.eq_swap
  rw [compareLex, Ordering.isLE_then_iff_and, hswap]
  cases c a b <;> simp

variable (cmp : α → α → Ordering)

/-- Sort by a comparer, elements that compare equal staying in their order. -/
def sortBy (l : List α) : List α := l.insertionSort (fun a b => (cmp a b).isLE)

theorem sortBy_perm (l : List α) : (sortBy cmp l).Perm l := List.perm_insertionSort _ l

variable [Std.TransCmp cmp]

instance total_isLE : Std.Total (fun a b => ((cmp a b).isLE : Prop)) where
  total a b := by
    have hswap : cmp b a = (cmp a b).swap := Std.OrientedCmp.eq_swap
    rw [hswap]
    cases cmp a b <;> simp

instance isTrans_isLE : IsTrans α (fun a b => ((cmp a b).isLE : Prop)) where
  trans _ _ _ := Std.TransCmp.isLE_trans

theorem sortBy_pairwise (l : List α) : (sortBy cmp l).Pairwise (fun a b => (cmp a b).isLE) :=
  List.pairwise_insertionSort _ l

theorem head?_sortBy (l : List α) :
    (sortBy cmp l).head? = l.find? (least (fun a b => (cmp a b).isLE) l) :=
  head?_insertionSort _ l

end Comparer

end StableOrder
