import Mathlib.Data.List.Basic
import Mathlib.Data.List.Nodup

/-!
# Lists read through a key

`lookup key k l` is the first element of `l` whose key is `k`, and `modifyFirst` rewrites that
element in place. Elements behind it with the same key are never seen by either, which is what
the lemmas here keep track of.
-/

namespace KeyedList

variable {α β κ : Type*} [DecidableEq κ] (key : α → κ)

def lookup (k : κ) (l : List α) : Option α := l.find? (fun a => key a = k)

@[simp] theorem lookup_nil (k : κ) : lookup key k [] = none := rfl

theorem lookup_cons (k : κ) (a : α) (l : List α) :
    lookup key k (a :: l) = if key a = k then some a else lookup key k l := by
  by_cases h : key a = k <;> simp [lookup, h]

theorem lookup_map (key' : β → κ) (f : α → β) (hf : ∀ a, key' (f a) = key a) (k : κ)
    (l : List α) :
    lookup key' k (l.map f) = (lookup key k l).map f := by
  simp only [lookup, List.find?_map, Function.comp_def, hf]

theorem lookup_map_keys {f : κ → α} (hf : ∀ k, key (f k) = k) (k : κ) (ks : List κ) :
    lookup key k (ks.map f) = if k ∈ ks then some (f k) else none := by
  induction ks with
  | nil => rfl
  | cons j ks ih =>
    rw [List.map_cons, lookup_cons, hf, ih]
    by_cases h : j = k
    · simp [h]
    · simp [h, Ne.symm h]

/-- The element at an index is the one looked up when its key stands at no earlier index. -/
theorem lookup_eq_getElem? {l : List α} {i : ℕ} {a : α} (ha : l[i]? = some a)
    (hfirst : ∀ j < i, ∀ b, l[j]? = some b → key b ≠ key a) : lookup key (key a) l = some a := by
  obtain ⟨hi, rfl⟩ := List.getElem?_eq_some_iff.mp ha
  refine List.find?_eq_some_iff_getElem.mpr ⟨by simp, i, hi, rfl, ?_⟩
  intro j hj
  have hget : l[j]? = some l[j] := List.getElem?_eq_getElem (Nat.lt_trans hj hi)
  simpa using hfirst j hj _ hget

/-- Looking up depends on the list of keys only through the index it finds: two lists with the
same keys are read at the same index. -/
theorem lookup_eq_some_at {key' : β → κ} {l : List α} {m : List β}
    (hkeys : l.map key = m.map key') {i : ℕ} {a : α} {b : β} (ha : l[i]? = some a)
    (hb : m[i]? = some b) (hfirst : ∀ j < i, ∀ c, l[j]? = some c → key c ≠ key a) :
    lookup key' (key a) m = some b := by
  have hkey (j : ℕ) : (l[j]?).map key = (m[j]?).map key' := by
    rw [← List.getElem?_map, ← List.getElem?_map, hkeys]
  have hab : key' b = key a := by simpa [ha, hb] using (hkey i).symm
  rw [← hab]
  apply lookup_eq_getElem? key' hb
  intro j hj c hc
  obtain ⟨d, hd, hdc⟩ : ∃ d, l[j]? = some d ∧ key d = key' c := by
    simpa [hc, Option.map_eq_some_iff] using hkey j
  rw [← hdc, hab]
  exact hfirst j hj d hd

omit [DecidableEq κ] in
theorem first_of_nodup {l : List α} (h : (l.map key).Nodup) {i : ℕ} {a : α} (ha : l[i]? = some a) :
    ∀ j < i, ∀ b, l[j]? = some b → key b ≠ key a := by
  intro j hj b hb hkey
  obtain ⟨hi, -⟩ := List.getElem?_eq_some_iff.mp ha
  have hlt : i < (l.map key).length := by simpa using hi
  refine List.nodup_iff_getElem?_ne_getElem?.mp h j i hj hlt ?_
  rw [List.getElem?_map, List.getElem?_map, ha, hb]
  exact congrArg some hkey

theorem lookup_of_nodup {l : List α} (h : (l.map key).Nodup) {a : α} (ha : a ∈ l) :
    lookup key (key a) l = some a := by
  obtain ⟨i, hi⟩ := List.mem_iff_getElem?.mp ha
  have hfirst := first_of_nodup key h hi
  exact lookup_eq_getElem? key hi hfirst

theorem lookup_eq_some_iff_of_nodup {l : List α} (h : (l.map key).Nodup) {k : κ} {a : α} :
    lookup key k l = some a ↔ a ∈ l ∧ key a = k := by
  constructor
  · intro hlook
    exact ⟨List.mem_of_find?_eq_some hlook, by simpa using List.find?_some hlook⟩
  · rintro ⟨ha, rfl⟩
    exact lookup_of_nodup key h ha

theorem lookup_perm {l l' : List α} (hp : l.Perm l') (h : (l.map key).Nodup) (k : κ) :
    lookup key k l = lookup key k l' := by
  have h' : (l'.map key).Nodup := (hp.map key).nodup h
  apply Option.ext
  intro a
  rw [lookup_eq_some_iff_of_nodup key h, lookup_eq_some_iff_of_nodup key h', hp.mem_iff]

omit [DecidableEq κ] in
theorem map_set_of_eq {l : List α} {i : ℕ} {a b : α} (ha : l[i]? = some a) (hkey : key b = key a) :
    (l.set i b).map key = l.map key := by
  induction l generalizing i with
  | nil => rfl
  | cons c l ih =>
    cases i with
    | zero =>
      obtain rfl : c = a := by simpa using ha
      simp [hkey]
    | succ i => simpa using ih (i := i) (by simpa using ha)

/-- Rewrite the first element that satisfies a test. -/
def modifyFirst (p : α → Bool) (f : α → α) : List α → List α
  | [] => []
  | a :: l => if p a then f a :: l else a :: modifyFirst p f l

/-- Rewriting by index at the place found is rewriting the first element found. -/
theorem set_findIdx? {p : α → Bool} {f : α → α} {l : List α} {i : ℕ} (h : l.findIdx? p = some i) :
    ∃ a, l[i]? = some a ∧ l.find? p = some a ∧ l.set i (f a) = modifyFirst p f l := by
  induction l generalizing i with
  | nil => simp at h
  | cons b l ih =>
    by_cases hb : p b
    · obtain rfl : i = 0 := by simpa [List.findIdx?_cons, hb] using h.symm
      exact ⟨b, by simp [hb, modifyFirst]⟩
    · obtain ⟨j, hj, rfl⟩ : ∃ j, l.findIdx? p = some j ∧ j + 1 = i := by
        simpa [List.findIdx?_cons, hb] using h
      obtain ⟨a, hget, hfind, hset⟩ := ih hj
      refine ⟨a, by simpa using hget, by simpa [hb] using hfind, ?_⟩
      simp [modifyFirst, hb, hset]

theorem modifyFirst_of_find?_none {p : α → Bool} {f : α → α} {l : List α}
    (h : l.find? p = none) : modifyFirst p f l = l := by
  induction l with
  | nil => rfl
  | cons a l ih =>
    by_cases ha : p a
    · simp [ha] at h
    · simp only [modifyFirst, ha, Bool.false_eq_true, if_false]
      rw [ih (by simpa [ha] using h)]

theorem map_modifyFirst {p : α → Bool} {f : α → α} {g : α → β} (hg : ∀ a, g (f a) = g a)
    (l : List α) : (modifyFirst p f l).map g = l.map g := by
  induction l with
  | nil => rfl
  | cons a l ih => by_cases h : p a <;> simp [modifyFirst, h, hg, ih]

/-- An element is out of reach of the rewriting when one before it satisfies the test too. -/
theorem getElem?_modifyFirst {p : α → Bool} {f : α → α} {l : List α} {i : ℕ}
    (h : ∀ a, l[i]? = some a → p a → ∃ j < i, ∃ b, l[j]? = some b ∧ p b) :
    (modifyFirst p f l)[i]? = l[i]? := by
  induction l generalizing i with
  | nil => rfl
  | cons c l ih =>
    cases i with
    | zero =>
      have hc : ¬ p c := by
        intro hc
        obtain ⟨j, hj, -⟩ := h c rfl hc
        omega
      simp [modifyFirst, hc]
    | succ i =>
      by_cases hc : p c
      · simp [modifyFirst, hc]
      · have htail : (modifyFirst p f l)[i]? = l[i]? := by
          apply ih
          intro a ha hpa
          obtain ⟨j, hj, b, hb, hpb⟩ := h a (by simpa using ha) hpa
          cases j with
          | zero =>
            obtain rfl : c = b := by simpa using hb
            exact absurd hpb hc
          | succ j => exact ⟨j, by omega, b, by simpa using hb, hpb⟩
        simpa [modifyFirst, hc] using htail

/-- The key at an index stands before it as well. -/
def Repeats (keys : List κ) (i : ℕ) : Prop :=
  ∃ j < i, ∃ k, keys[j]? = some k ∧ keys[i]? = some k

theorem getElem?_modifyFirst_of_repeats {f : α → α} {l : List α} {i : ℕ}
    (h : Repeats (l.map key) i) (k : κ) :
    (modifyFirst (fun a => key a = k) f l)[i]? = l[i]? := by
  obtain ⟨j, hj, k', hkj, hki⟩ := h
  refine getElem?_modifyFirst ?_
  intro a ha hak
  obtain ⟨b, hb, hbk⟩ : ∃ b, l[j]? = some b ∧ key b = k' := by
    simpa [Option.map_eq_some_iff] using hkj
  have hka : key a = k' := by simpa [ha] using hki
  have hkk : key a = k := by simpa using hak
  exact ⟨j, hj, b, hb, by simp [hbk, ← hka, hkk]⟩

theorem lookup_modifyFirst {f : α → α} (hf : ∀ a, key (f a) = key a) (k m : κ) (l : List α) :
    lookup key m (modifyFirst (fun a => key a = k) f l) =
      if m = k then (lookup key m l).map f else lookup key m l := by
  induction l with
  | nil => simp [modifyFirst]
  | cons a l ih =>
    by_cases hk : key a = k
    · by_cases hm : m = k
      · simp [modifyFirst, lookup_cons, hk, hf, hm]
      · simp [modifyFirst, lookup_cons, hk, hf, hm, Ne.symm hm]
    · by_cases hm : key a = m
      · have hmk : m ≠ k := fun h => hk (hm.trans h)
        simp [modifyFirst, lookup_cons, hm, hmk]
      · simp [modifyFirst, lookup_cons, hk, hm, ih]

end KeyedList
