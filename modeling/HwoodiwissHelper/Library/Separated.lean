import Mathlib.Data.List.Basic

/-!
# Texts with separators

A text that joins parts with a separator can be read back as far as the parts have no separators
in them. `fields_inj` is about parts that are pairs of a key and a value, with another sign between
the two, and something behind the last pair that cannot be the next one. `intercalate_eq_iff` is
about parts that may have separators in them: what is left of them are the pieces.
-/

namespace Separated

variable {α : Type*}

theorem append_cons_inj {a b : α} {x y u v : List α} (hx : b ∉ x) (hy : a ∉ y)
    (h : x ++ a :: u = y ++ b :: v) : x = y ∧ a = b ∧ u = v := by
  induction x generalizing y with
  | nil =>
    cases y with
    | nil => simpa using h
    | cons c y =>
      obtain ⟨rfl, -⟩ := List.cons.inj h
      exact absurd List.mem_cons_self hy
  | cons c x ih =>
    cases y with
    | nil =>
      obtain ⟨rfl, -⟩ := List.cons.inj h
      exact absurd List.mem_cons_self hx
    | cons d y =>
      obtain ⟨rfl, hrest⟩ := List.cons.inj h
      obtain ⟨rfl, hab, huv⟩ := ih (fun hmem => hx (List.mem_cons_of_mem c hmem))
        (fun hmem => hy (List.mem_cons_of_mem c hmem)) hrest
      exact ⟨rfl, hab, huv⟩

variable (sep mark : α)

/-- Nothing, or a text that the separator opens. -/
inductive Opened : List α → Prop where
  | nil : Opened []
  | cons (l : List α) : Opened (sep :: l)

variable {sep mark}

theorem append_inj_of_opened {x y u v : List α} (hx : sep ∉ x) (hy : sep ∉ y) (hu : Opened sep u)
    (hv : Opened sep v) (h : x ++ u = y ++ v) : x = y ∧ u = v := by
  cases hu with
  | nil =>
    cases hv with
    | nil => exact ⟨by simpa using h, rfl⟩
    | cons v =>
      rw [List.append_nil] at h
      exact absurd (h ▸ List.mem_append_right y List.mem_cons_self) hx
  | cons u =>
    cases hv with
    | nil =>
      rw [List.append_nil] at h
      exact absurd (h ▸ List.mem_append_right x List.mem_cons_self) hy
    | cons v =>
      obtain ⟨hxy, -, rfl⟩ := append_cons_inj hx hy h
      exact ⟨hxy, rfl⟩

variable (sep mark)

/-- A pair that has none of the signs in it, but for the value, which may have a mark. -/
structure Plain (field : List α × List α) : Prop where
  sep_key : sep ∉ field.1
  mark_key : mark ∉ field.1
  sep_value : sep ∉ field.2

def fieldText (field : List α × List α) : List α := field.1 ++ mark :: field.2

def fields (pairs : List (List α × List α)) (rest : List α) : List α :=
  [sep].intercalate (pairs.map (fieldText mark)) ++ rest

/-- Nothing, or a text that the separator opens and that has another separator before a mark. -/
inductive Foreign : List α → Prop where
  | nil : Foreign []
  | cons (w l : List α) (hmark : mark ∉ w) : Foreign (sep :: (w ++ sep :: l))

/-- Pairs each of which a separator opens, and what follows. -/
def chain (pairs : List (List α × List α)) (rest : List α) : List α :=
  pairs.foldr (fun field l => sep :: (fieldText mark field ++ l)) rest

variable {sep mark}

theorem Foreign.opened {rest : List α} (h : Foreign sep mark rest) : Opened sep rest := by
  cases h with
  | nil => exact .nil
  | cons w l => exact .cons _

theorem opened_chain {rest : List α} (h : Opened sep rest) (pairs : List (List α × List α)) :
    Opened sep (chain sep mark pairs rest) := by
  cases pairs with
  | nil => exact h
  | cons field pairs => exact .cons _

theorem fields_cons (field : List α × List α) (pairs : List (List α × List α)) (rest : List α) :
    fields sep mark (field :: pairs) rest = fieldText mark field ++ chain sep mark pairs rest := by
  induction pairs generalizing field with
  | nil => simp [fields, chain]
  | cons next pairs ih =>
    have hnext := ih next
    simp only [fields, List.map_cons] at hnext ⊢
    rw [List.intercalate_cons_cons, List.append_assoc, List.append_assoc, hnext]
    rfl

theorem Foreign.ne_pair (hne : sep ≠ mark) {rest l : List α} (h : Foreign sep mark rest)
    {field : List α × List α} (hfield : Plain sep mark field) :
    rest ≠ sep :: (fieldText mark field ++ l) := by
  intro heq
  cases h with
  | nil => cases heq
  | cons w t hmark =>
    have htext : w ++ sep :: t = field.1 ++ mark :: (field.2 ++ l) := by
      simpa [fieldText] using heq
    exact hne (append_cons_inj hmark hfield.sep_key htext).2.1

theorem chain_inj (hne : sep ≠ mark) {pairs pairs' : List (List α × List α)} {rest rest' : List α}
    (hpairs : ∀ field ∈ pairs, Plain sep mark field)
    (hpairs' : ∀ field ∈ pairs', Plain sep mark field) (hrest : Foreign sep mark rest)
    (hrest' : Foreign sep mark rest')
    (h : chain sep mark pairs rest = chain sep mark pairs' rest') :
    pairs = pairs' ∧ rest = rest' := by
  induction pairs generalizing pairs' with
  | nil =>
    cases pairs' with
    | nil => exact ⟨rfl, h⟩
    | cons field' pairs' => exact absurd h (hrest.ne_pair hne (hpairs' _ List.mem_cons_self))
  | cons field pairs ih =>
    have hfield := hpairs _ List.mem_cons_self
    cases pairs' with
    | nil => exact absurd h.symm (hrest'.ne_pair hne hfield)
    | cons field' pairs' =>
      have hfield' := hpairs' _ List.mem_cons_self
      have htext : field.1 ++ mark :: (field.2 ++ chain sep mark pairs rest) =
          field'.1 ++ mark :: (field'.2 ++ chain sep mark pairs' rest') := by
        simpa [chain, fieldText] using h
      obtain ⟨hkey, -, hbehind⟩ := append_cons_inj hfield.mark_key hfield'.mark_key htext
      obtain ⟨hvalue, hchain⟩ := append_inj_of_opened hfield.sep_value hfield'.sep_value
        (opened_chain hrest.opened pairs) (opened_chain hrest'.opened pairs') hbehind
      obtain ⟨rfl, rfl⟩ := ih (fun f hf => hpairs f (List.mem_cons_of_mem _ hf))
        (fun f hf => hpairs' f (List.mem_cons_of_mem _ hf)) hchain
      exact ⟨by rw [Prod.ext hkey hvalue], rfl⟩

theorem Foreign.ne_fieldText (hne : sep ≠ mark) {rest l : List α} (h : Foreign sep mark rest)
    {field : List α × List α} (hfield : Plain sep mark field) :
    rest ≠ fieldText mark field ++ l := by
  intro heq
  cases h with
  | nil => simp [fieldText] at heq
  | cons w t hmark =>
    have htext : [] ++ sep :: (w ++ sep :: t) = field.1 ++ mark :: (field.2 ++ l) := by
      simpa [fieldText] using heq
    exact hne (append_cons_inj List.not_mem_nil hfield.sep_key htext).2.1

theorem fields_inj (hne : sep ≠ mark) {pairs pairs' : List (List α × List α)} {rest rest' : List α}
    (hpairs : ∀ field ∈ pairs, Plain sep mark field)
    (hpairs' : ∀ field ∈ pairs', Plain sep mark field) (hrest : Foreign sep mark rest)
    (hrest' : Foreign sep mark rest')
    (h : fields sep mark pairs rest = fields sep mark pairs' rest') :
    pairs = pairs' ∧ rest = rest' := by
  cases pairs with
  | nil =>
    cases pairs' with
    | nil => exact ⟨rfl, h⟩
    | cons field' pairs' =>
      rw [fields_cons] at h
      exact absurd h (hrest.ne_fieldText hne (hpairs' _ List.mem_cons_self))
  | cons field pairs =>
    cases pairs' with
    | nil =>
      rw [fields_cons] at h
      exact absurd h.symm (hrest'.ne_fieldText hne (hpairs _ List.mem_cons_self))
    | cons field' pairs' =>
      apply chain_inj hne hpairs hpairs' hrest hrest'
      rw [fields_cons, fields_cons] at h
      exact congrArg (sep :: ·) h

variable [DecidableEq α]

/-- What is left of the parts when every separator cuts. No part leaves an empty piece. -/
def pieces (sep : α) : List (List α) → List (List α)
  | [] => [[]]
  | parts => parts.flatMap (·.splitOn sep)

theorem splitOn_intercalate (sep : α) (parts : List (List α)) :
    ([sep].intercalate parts).splitOn sep = pieces sep parts := by
  induction parts with
  | nil => rfl
  | cons part parts ih =>
    cases parts with
    | nil => simp [pieces]
    | cons next parts =>
      rw [List.intercalate_cons_cons, List.append_assoc, List.singleton_append,
        List.splitOn_append_cons_self, ih]
      rfl

/-- Parts are joined to the same text exactly when they have the same pieces. -/
theorem intercalate_eq_iff (sep : α) (parts parts' : List (List α)) :
    [sep].intercalate parts = [sep].intercalate parts' ↔ pieces sep parts = pieces sep parts' := by
  rw [← splitOn_intercalate, ← splitOn_intercalate]
  constructor
  · exact congrArg (List.splitOn sep)
  · intro h
    calc [sep].intercalate parts
        = [sep].intercalate (([sep].intercalate parts).splitOn sep) :=
          (List.intercalate_splitOn sep).symm
      _ = [sep].intercalate (([sep].intercalate parts').splitOn sep) := by rw [h]
      _ = [sep].intercalate parts' := List.intercalate_splitOn sep

end Separated
