import Mathlib.Data.List.Basic
import Mathlib.Tactic.Linarith

/-!
# Counting towards a goal along a list

Observations arrive one by one, some of them hits. `through n` is the part of a list that a
counter with goal `n` looks at, `position n` is where its hit number `n` (from zero) stands,
and `Progress` is the counter itself: it adds up the weights of everything it sees and stops
at the goal. `progress_eq` is its closed form.
-/

namespace Milestone

variable {α M : Type*} (hit : α → Bool)

/-- The prefix up to and including hit number `n`, the whole list when it has fewer hits. -/
def through : ℕ → List α → List α
  | 0, _ => []
  | _ + 1, [] => []
  | n + 1, a :: l => a :: through (if hit a then n else n + 1) l

@[simp] theorem through_zero (l : List α) : through hit 0 l = [] := by cases l <;> rfl

@[simp] theorem through_nil (n : ℕ) : through hit n [] = [] := by cases n <;> rfl

theorem through_succ_cons (n : ℕ) (a : α) (l : List α) :
    through hit (n + 1) (a :: l) = a :: through hit (if hit a then n else n + 1) l := rfl

theorem through_eq_self {n : ℕ} {l : List α} (h : l.countP hit < n) : through hit n l = l := by
  induction l generalizing n with
  | nil => simp
  | cons a l ih =>
    obtain ⟨m, rfl⟩ : ∃ m, n = m + 1 := ⟨n - 1, by omega⟩
    rw [through_succ_cons]
    by_cases ha : hit a
    · rw [List.countP_cons_of_pos ha] at h
      rw [if_pos ha, ih (by omega)]
    · rw [List.countP_cons_of_neg ha] at h
      rw [if_neg ha, ih h]

/-- The index of hit number `n`, counted from zero. -/
def position : ℕ → List α → Option ℕ
  | _, [] => none
  | 0, a :: l => if hit a then some 0 else (position 0 l).map (· + 1)
  | n + 1, a :: l => (position (if hit a then n else n + 1) l).map (· + 1)

theorem position_eq_some_iff {n k : ℕ} {l : List α} :
    position hit n l = some k ↔ (∃ a, l[k]? = some a ∧ hit a) ∧ (l.take k).countP hit = n := by
  induction l generalizing n k with
  | nil => simp [position]
  | cons a l ih =>
    cases n with
    | zero =>
      by_cases ha : hit a
      · cases k with
        | zero => simp [position, ha]
        | succ k => simp [position, ha]
      · cases k with
        | zero => simp [position, ha]
        | succ k => simp [position, ha, ih]
    | succ n =>
      by_cases ha : hit a
      · cases k with
        | zero => simp [position, ha]
        | succ k => simp [position, ha, ih]
      · cases k with
        | zero => simp [position, ha]
        | succ k => simp [position, ha, ih]

theorem position_isSome_iff {n : ℕ} {l : List α} :
    (position hit n l).isSome ↔ n < l.countP hit := by
  induction l generalizing n with
  | nil => simp [position]
  | cons a l ih =>
    cases n with
    | zero =>
      by_cases ha : hit a
      · simp [position, ha]
      · simp only [position, ha, Bool.false_eq_true, if_false, Option.isSome_map, ih,
          List.countP_cons_of_neg, not_false_eq_true]
    | succ n =>
      by_cases ha : hit a
      · simp [position, ha, ih]
      · simp [position, ha, ih]

theorem position_lt_length {n k : ℕ} {l : List α} (h : position hit n l = some k) :
    k < l.length := by
  obtain ⟨⟨a, ha, -⟩, -⟩ := (position_eq_some_iff hit).mp h
  exact (List.getElem?_eq_some_iff.mp ha).1

theorem length_le_of_position_append {n k : ℕ} {l m : List α} (hl : position hit n l = none)
    (h : position hit n (l ++ m) = some k) : l.length ≤ k := by
  by_contra hlt
  obtain ⟨⟨a, ha, hhit⟩, htake⟩ := (position_eq_some_iff hit).mp h
  rw [List.getElem?_append_left (by omega)] at ha
  rw [List.take_append_of_le_length (by omega)] at htake
  have hk := (position_eq_some_iff hit).mpr ⟨⟨a, ha, hhit⟩, htake⟩
  rw [hl] at hk
  cases hk

theorem position_map {β : Type*} (f : β → α) (n : ℕ) (l : List β) :
    position hit n (l.map f) = position (fun b => hit (f b)) n l := by
  induction l generalizing n with
  | nil => rfl
  | cons b l ih => cases n <;> simp [position, ih]

theorem length_filterMap_eq_countP_range {β : Type*} {f : α → Option β} {q : ℕ → Bool} {l : List α}
    (h : ∀ i a, l[i]? = some a → (f a).isSome = q i) :
    (l.filterMap f).length = (List.range l.length).countP q := by
  induction l generalizing q with
  | nil => rfl
  | cons a l ih =>
    have hhead : (f a).isSome = q 0 := h 0 a rfl
    have htail := ih (q := fun i => q (i + 1)) (by
      intro i b hb
      exact h (i + 1) b (by simpa using hb))
    rw [List.length_cons, List.range_succ_eq_map, List.countP_cons, List.countP_map]
    change _ = (List.range l.length).countP (fun i => q (i + 1)) + _
    rw [← htail, ← hhead]
    cases hf : f a <;> simp [hf]

/-- A test that holds less often but is counted as often is the same test. -/
theorem imp_of_countP_eq {p q : α → Bool} {l : List α} (hpq : ∀ a ∈ l, p a → q a)
    (h : l.countP p = l.countP q) : ∀ a ∈ l, q a → p a := by
  induction l with
  | nil => simp
  | cons b l ih =>
    have hpq' : ∀ a ∈ l, p a → q a := fun a ha => hpq a (List.mem_cons_of_mem b ha)
    have hle : l.countP p ≤ l.countP q := List.countP_mono_left hpq'
    have hb : (if p b then 1 else 0) ≤ (if q b then 1 else 0) := by
      by_cases hpb : p b
      · simp [hpb, hpq b List.mem_cons_self hpb]
      · simp [hpb]
    rw [List.countP_cons, List.countP_cons] at h
    intro a ha hqa
    rcases List.mem_cons.mp ha with rfl | ha
    · by_contra hpa
      simp only [hqa, hpa, if_true, if_false] at h
      omega
    · have hl : l.countP p = l.countP q := by omega
      exact ih hpq' hl a ha hqa

/-- A counter on its way to a goal: the hits seen so far and the total weight, or the total at
the moment the goal was reached. -/
inductive Progress (M : Type*) where
  | running (hits : ℕ) (total : M)
  | done (total : M)
  deriving DecidableEq, Repr

def Progress.total : Progress M → M
  | .running _ total => total
  | .done total => total

variable [Add M] (goal : ℕ) (weight : α → M)

/-- One observation. A counter that is done looks at nothing more. -/
def Progress.step : Progress M → α → Progress M
  | .done total, _ => .done total
  | .running hits total, a =>
    if hit a then
      if hits + 1 = goal then .done (total + weight a) else .running (hits + 1) (total + weight a)
    else .running hits (total + weight a)

theorem Progress.total_step (hits : ℕ) (total : M) (a : α) :
    (Progress.step hit goal weight (.running hits total) a).total = total + weight a := by
  simp only [Progress.step]
  split
  · split <;> rfl
  · rfl

def progress [Zero M] (l : List α) : Progress M :=
  l.foldl (Progress.step hit goal weight) (.running 0 0)

@[simp] theorem foldl_step_done (total : M) (l : List α) :
    l.foldl (Progress.step hit goal weight) (.done total) = .done total := by
  induction l with
  | nil => rfl
  | cons a l ih => simpa [Progress.step] using ih

def Progress.Open : Progress M → Prop
  | .running hits _ => hits < goal
  | .done _ => True

omit [Add M] in
theorem Progress.open_start [Zero M] (hgoal : 0 < goal) :
    (Progress.running 0 (0 : M)).Open goal := hgoal

theorem Progress.Open.step {p : Progress M} (hp : p.Open goal) (a : α) :
    (p.step hit goal weight a).Open goal := by
  cases p with
  | done total => trivial
  | running hits total =>
    have hlt : hits < goal := hp
    by_cases ha : hit a
    · by_cases hg : hits + 1 = goal
      · simp [Progress.step, Progress.Open, ha, hg]
      · simp only [Progress.step, Progress.Open, ha, hg, if_true, if_false]
        omega
    · simpa [Progress.step, Progress.Open, ha] using hlt

theorem Progress.Open.foldl {p : Progress M} (hp : p.Open goal) (l : List α) :
    (l.foldl (Progress.step hit goal weight) p).Open goal := by
  induction l generalizing p with
  | nil => exact hp
  | cons a l ih => exact ih (hp.step hit goal weight a)

/-- `Counts p n` says that a counter has seen `n` hits, as far as it looked. -/
def Progress.Counts : Progress M → ℕ → Prop
  | .running hits _, n => hits = n
  | .done _, n => goal ≤ n

theorem Progress.Counts.step {p : Progress M} {n : ℕ} (hp : p.Counts goal n) (a : α) :
    (p.step hit goal weight a).Counts goal (n + if hit a then 1 else 0) := by
  cases p with
  | done total => exact Nat.le_add_right_of_le hp
  | running hits total =>
    obtain rfl : hits = n := hp
    by_cases ha : hit a
    · by_cases hg : hits + 1 = goal
      · simp [Progress.step, Progress.Counts, ha, hg]
      · simp [Progress.step, Progress.Counts, ha, hg]
    · simp [Progress.step, Progress.Counts, ha]

theorem progress_append [Zero M] (l : List α) (a : α) :
    progress hit goal weight (l ++ [a]) = (progress hit goal weight l).step hit goal weight a := by
  simp [progress]

theorem progress_map {β : Type*} [Zero M] (f : β → α) (l : List β) :
    progress hit goal weight (l.map f) =
      progress (fun b => hit (f b)) goal (fun b => weight (f b)) l := by
  have hstep (p : Progress M) (b : β) : Progress.step hit goal weight p (f b) =
      Progress.step (fun b => hit (f b)) goal (fun b => weight (f b)) p b := by cases p <;> rfl
  simp only [progress, List.foldl_map, hstep]

section ClosedForm

variable [Zero M] [Std.Associative (α := M) (· + ·)] [Std.LawfulIdentity (α := M) (· + ·) 0]

private theorem foldl_step_running {hits : ℕ} (hlt : hits < goal) (total : M) (l : List α) :
    l.foldl (Progress.step hit goal weight) (.running hits total) =
      if goal ≤ hits + l.countP hit
      then .done (total + ((through hit (goal - hits) l).map weight).sum)
      else .running (hits + l.countP hit) (total + (l.map weight).sum) := by
  have hassoc : ∀ x y z : M, x + y + z = x + (y + z) := Std.Associative.assoc
  induction l generalizing hits total with
  | nil =>
    have hzero : total + 0 = total := Std.LawfulRightIdentity.right_id total
    simp [Nat.not_le.mpr hlt, hzero]
  | cons a l ih =>
    obtain ⟨m, hm⟩ : ∃ m, goal - hits = m + 1 := ⟨goal - hits - 1, by omega⟩
    rw [List.foldl_cons, hm, through_succ_cons]
    by_cases ha : hit a
    · rw [List.countP_cons_of_pos ha]
      by_cases hg : hits + 1 = goal
      · have hzero : weight a + 0 = weight a := Std.LawfulRightIdentity.right_id _
        have hm0 : m = 0 := by omega
        have hle : goal ≤ hits + (l.countP hit + 1) := by omega
        simp [Progress.step, ha, hg, hm0, hle, hzero]
      · have hm' : goal - (hits + 1) = m := by omega
        simp only [Progress.step, ha, hg, if_true, if_false]
        rw [ih (by omega), hm']
        simp only [List.map_cons, List.sum_cons, hassoc, Nat.add_assoc, Nat.add_comm 1]
    · rw [List.countP_cons_of_neg ha]
      simp only [Progress.step, ha, Bool.false_eq_true, if_false]
      rw [ih hlt, hm]
      simp only [List.map_cons, List.sum_cons, hassoc]

/-- The counter reports the hits and the full weight until the goal is reached, and from then
on the weight up to and including the hit that reached it. -/
theorem progress_eq (hgoal : 0 < goal) (l : List α) :
    progress hit goal weight l =
      if goal ≤ l.countP hit then .done ((through hit goal l).map weight).sum
      else .running (l.countP hit) (l.map weight).sum := by
  have hzero : ∀ x : M, 0 + x = x := Std.LawfulLeftIdentity.left_id
  rw [progress, foldl_step_running hit goal weight hgoal]
  simp only [Nat.zero_add, Nat.sub_zero, hzero]

theorem total_progress (hgoal : 0 < goal) (l : List α) :
    (progress hit goal weight l).total = ((through hit goal l).map weight).sum := by
  rw [progress_eq hit goal weight hgoal]
  split
  · rfl
  · rw [through_eq_self hit (by omega)]
    rfl

end ClosedForm

section Bounded

/-- The additions of a counter on its way along a list. -/
def Progress.additions : Progress M → List α → List (M × M)
  | _, [] => []
  | .done _, _ :: _ => []
  | .running hits total, a :: l =>
    (total, weight a) ::
      Progress.additions (Progress.step hit goal weight (.running hits total) a) l

def Progress.map {N : Type*} (f : M → N) : Progress M → Progress N
  | .running hits total => .running hits (f total)
  | .done total => .done (f total)

omit [Add M] in
@[simp] theorem Progress.total_map {N : Type*} (f : M → N) (p : Progress M) :
    (p.map f).total = f p.total := by cases p <;> rfl

theorem Progress.map_step {N : Type*} [Add N] {f : M → N} {hits : ℕ} {total : M} {a : α}
    (h : f (total + weight a) = f total + f (weight a)) :
    (Progress.step hit goal weight (.running hits total) a).map f =
      Progress.step hit goal (fun a => f (weight a)) (.running hits (f total)) a := by
  by_cases ha : hit a
  · by_cases hg : hits + 1 = goal
    · simp [Progress.step, Progress.map, ha, hg, h]
    · simp [Progress.step, Progress.map, ha, hg, h]
  · simp [Progress.step, Progress.map, ha, h]

theorem Progress.map_foldl {N : Type*} [Add N] {f : M → N} {p : Progress M} {l : List α}
    (h : ∀ x ∈ p.additions hit goal weight l, f (x.1 + x.2) = f x.1 + f x.2) :
    (l.foldl (Progress.step hit goal weight) p).map f =
      l.foldl (Progress.step hit goal (fun a => f (weight a))) (p.map f) := by
  induction l generalizing p with
  | nil => rfl
  | cons a l ih =>
    cases p with
    | done total => rw [foldl_step_done, Progress.map, foldl_step_done]
    | running hits total =>
      have hfirst : f (total + weight a) = f total + f (weight a) :=
        h (total, weight a) List.mem_cons_self
      rw [List.foldl_cons, List.foldl_cons, Progress.map, ← Progress.map_step _ _ _ hfirst]
      exact ih (fun x hx => h x (List.mem_cons_of_mem _ hx))

theorem Progress.total_le_foldl {weight : α → ℤ} (hw : ∀ a, 0 ≤ weight a) (p : Progress ℤ)
    (l : List α) : p.total ≤ (l.foldl (Progress.step hit goal weight) p).total := by
  induction l generalizing p with
  | nil => exact Int.le_refl _
  | cons a l ih =>
    have hstep : p.total ≤ (Progress.step hit goal weight p a).total := by
      cases p with
      | done total => exact Int.le_refl _
      | running hits total =>
        rw [Progress.total_step, Progress.total]
        linarith [hw a]
    exact hstep.trans (ih _)

/-- With weights that are not negative, in numbers where an addition is exact up to a bound, all
additions are exact as soon as the last total is within the bound. -/
theorem Progress.additions_exact_iff {f : M → ℤ} {bound : ℤ} (hf : ∀ x, f x ≤ bound)
    (hadd : ∀ x y, 0 ≤ f x → 0 ≤ f y → (f (x + y) = f x + f y ↔ f x + f y ≤ bound))
    (hw : ∀ a, 0 ≤ f (weight a)) {p : Progress M} (hp : 0 ≤ f p.total) (l : List α) :
    (∀ x ∈ p.additions hit goal weight l, f (x.1 + x.2) = f x.1 + f x.2) ↔
      (l.foldl (Progress.step hit goal (fun a => f (weight a))) (p.map f)).total ≤ bound := by
  induction l generalizing p with
  | nil => simpa [Progress.additions] using hf p.total
  | cons a l ih =>
    cases p with
    | done total =>
      rw [Progress.map, foldl_step_done]
      simpa [Progress.additions, Progress.total] using hf total
    | running hits total =>
      have htotal : 0 ≤ f total := hp
      have hnext (h : f (total + weight a) = f total + f (weight a)) :
          0 ≤ f (Progress.step hit goal weight (.running hits total) a).total := by
        rw [Progress.total_step]
        linarith [hw a]
      rw [Progress.additions, List.forall_mem_cons, List.foldl_cons, Progress.map]
      constructor
      · rintro ⟨hfirst, hrest⟩
        rw [← Progress.map_step hit goal weight hfirst]
        exact (ih (hnext hfirst)).mp hrest
      · intro hbound
        have hle := Progress.total_le_foldl hit goal hw
          (Progress.step hit goal (fun a => f (weight a)) (.running hits (f total)) a) l
        rw [Progress.total_step] at hle
        have hfirst : f (total + weight a) = f total + f (weight a) :=
          (hadd _ _ htotal (hw a)).mpr (by linarith)
        refine ⟨hfirst, (ih (hnext hfirst)).mpr ?_⟩
        rwa [Progress.map_step hit goal weight hfirst]

end Bounded

end Milestone
