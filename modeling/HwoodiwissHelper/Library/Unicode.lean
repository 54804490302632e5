import Mathlib.Data.List.Basic

/-!
# Unicode text as code units

UTF-16 and UTF-8. The readers accept every list of units: where it is ill-formed they read a
replacement character, in UTF-8 one for each maximal part of a character. What the writers write is
read back as it was.
-/

namespace Unicode

def replacement : Char := Char.ofNat 0xFFFD

theorem toNat_range (c : Char) : c.toNat < 0xD800 ∨ 0xDFFF < c.toNat ∧ c.toNat < 0x110000 :=
  c.valid

def utf16Char (c : Char) : List UInt16 :=
  if c.toNat < 0x10000 then
    [UInt16.ofNat c.toNat]
  else
    [UInt16.ofNat (0xD800 + (c.toNat - 0x10000) / 0x400),
      UInt16.ofNat (0xDC00 + (c.toNat - 0x10000) % 0x400)]

def utf16 (text : List Char) : List UInt16 := text.flatMap utf16Char

def IsHigh (u : UInt16) : Prop := 0xD800 ≤ u.toNat ∧ u.toNat < 0xDC00

def IsLow (u : UInt16) : Prop := 0xDC00 ≤ u.toNat ∧ u.toNat < 0xE000

instance (u : UInt16) : Decidable (IsHigh u) := inferInstanceAs (Decidable (_ ∧ _))

instance (u : UInt16) : Decidable (IsLow u) := inferInstanceAs (Decidable (_ ∧ _))

/-- A surrogate without its other half is replaced. -/
def ofUtf16 : List UInt16 → List Char
  | [] => []
  | [u] => [if IsHigh u ∨ IsLow u then replacement else Char.ofNat u.toNat]
  | u :: v :: units =>
    if IsHigh u ∧ IsLow v then
      Char.ofNat (0x10000 + (u.toNat - 0xD800) * 0x400 + (v.toNat - 0xDC00)) :: ofUtf16 units
    else
      (if IsHigh u ∨ IsLow u then replacement else Char.ofNat u.toNat) :: ofUtf16 (v :: units)

theorem ofUtf16_utf16Char (c : Char) (units : List UInt16) :
    ofUtf16 (utf16Char c ++ units) = c :: ofUtf16 units := by
  have hrange := toNat_range c
  unfold utf16Char
  split
  next hsmall =>
    have hunit : (UInt16.ofNat c.toNat).toNat = c.toNat :=
      UInt16.toNat_ofNat_of_lt' (by simp only [UInt16.size]; omega)
    have hhigh : ¬ IsHigh (UInt16.ofNat c.toNat) := by
      rw [IsHigh, hunit]
      omega
    have hlow : ¬ IsLow (UInt16.ofNat c.toNat) := by
      rw [IsLow, hunit]
      omega
    cases units <;> simp [ofUtf16, hhigh, hlow, hunit]
  next hlarge =>
    have hfirst : (UInt16.ofNat (0xD800 + (c.toNat - 0x10000) / 0x400)).toNat =
        0xD800 + (c.toNat - 0x10000) / 0x400 :=
      UInt16.toNat_ofNat_of_lt' (by simp only [UInt16.size]; omega)
    have hsecond : (UInt16.ofNat (0xDC00 + (c.toNat - 0x10000) % 0x400)).toNat =
        0xDC00 + (c.toNat - 0x10000) % 0x400 :=
      UInt16.toNat_ofNat_of_lt' (by simp only [UInt16.size]; omega)
    rw [List.cons_append, List.cons_append, List.nil_append, ofUtf16, if_pos]
    · rw [hfirst, hsecond]
      have hnumber : 0x10000 + (0xD800 + (c.toNat - 0x10000) / 0x400 - 0xD800) * 0x400 +
          (0xDC00 + (c.toNat - 0x10000) % 0x400 - 0xDC00) = c.toNat := by omega
      rw [hnumber, Char.ofNat_toNat]
    · rw [IsHigh, IsLow, hfirst, hsecond]
      omega

theorem ofUtf16_utf16 (text : List Char) : ofUtf16 (utf16 text) = text := by
  induction text with
  | nil => rfl
  | cons c text ih =>
    rw [utf16, List.flatMap_cons, ofUtf16_utf16Char]
    exact congrArg (c :: ·) ih

def utf8 (text : List Char) : List UInt8 := text.flatMap String.utf8EncodeChar

/-- A character that has begun: the number it has so far, how many bytes are missing, and which
bytes may come next. -/
structure Begun where
  value : ℕ
  missing : ℕ
  low : ℕ := 0x80
  high : ℕ := 0xBF

/-- The first byte of a character. The next one is restricted where the number would be too large
or a surrogate, or fit into fewer bytes. -/
def beginWith (b : ℕ) : List Char × Option Begun :=
  if b < 0x80 then ([Char.ofNat b], none)
  else if 0xC2 ≤ b ∧ b ≤ 0xDF then ([], some ⟨b - 0xC0, 1, 0x80, 0xBF⟩)
  else if b = 0xE0 then ([], some ⟨0, 2, 0xA0, 0xBF⟩)
  else if b = 0xED then ([], some ⟨13, 2, 0x80, 0x9F⟩)
  else if 0xE1 ≤ b ∧ b ≤ 0xEF then ([], some ⟨b - 0xE0, 2, 0x80, 0xBF⟩)
  else if b = 0xF0 then ([], some ⟨0, 3, 0x90, 0xBF⟩)
  else if b = 0xF4 then ([], some ⟨4, 3, 0x80, 0x8F⟩)
  else if 0xF1 ≤ b ∧ b ≤ 0xF3 then ([], some ⟨b - 0xF0, 3, 0x80, 0xBF⟩)
  else ([replacement], none)

/-- A byte that may not come next replaces the character, and begins the next one. -/
def goOn (s : Begun) (b : ℕ) : List Char × Option Begun :=
  if s.low ≤ b ∧ b ≤ s.high then
    if s.missing = 1 then
      ([Char.ofNat (s.value * 64 + (b - 0x80))], none)
    else
      ([], some { value := s.value * 64 + (b - 0x80), missing := s.missing - 1 })
  else
    (replacement :: (beginWith b).1, (beginWith b).2)

def read : Option Begun → List UInt8 → List Char
  | none, [] => []
  | some _, [] => [replacement]
  | none, b :: bytes => (beginWith b.toNat).1 ++ read (beginWith b.toNat).2 bytes
  | some s, b :: bytes => (goOn s b.toNat).1 ++ read (goOn s b.toNat).2 bytes

def ofUtf8 (bytes : List UInt8) : List Char := read none bytes

theorem beginWith_two {b : ℕ} (h : 0xC2 ≤ b ∧ b ≤ 0xDF) :
    beginWith b = ([], some ⟨b - 0xC0, 1, 0x80, 0xBF⟩) := by
  rw [beginWith, if_neg (by omega), if_pos h]

theorem beginWith_three {b : ℕ} (h : 0xE0 ≤ b ∧ b ≤ 0xEF) :
    beginWith b = ([], some ⟨b - 0xE0, 2, if b = 0xE0 then 0xA0 else 0x80,
      if b = 0xED then 0x9F else 0xBF⟩) := by
  rw [beginWith, if_neg (by omega), if_neg (by omega)]
  split
  next hfirst => simp [hfirst]
  next hfirst =>
    split
    next hsurrogates => simp [hsurrogates]
    next => rw [if_pos (by omega)]

theorem beginWith_four {b : ℕ} (h : 0xF0 ≤ b ∧ b ≤ 0xF4) :
    beginWith b = ([], some ⟨b - 0xF0, 3, if b = 0xF0 then 0x90 else 0x80,
      if b = 0xF4 then 0x8F else 0xBF⟩) := by
  rw [beginWith, if_neg (by omega), if_neg (by omega), if_neg (by omega), if_neg (by omega),
    if_neg (by omega)]
  split
  next hfirst => simp [hfirst]
  next hfirst =>
    split
    next hlast => simp [hlast]
    next => rw [if_pos (by omega)]

theorem read_first {n : ℕ} (hn : n < 256) (bytes : List UInt8) :
    read none (UInt8.ofNat n :: bytes) = (beginWith n).1 ++ read (beginWith n).2 bytes := by
  rw [read, UInt8.toNat_ofNat_of_lt' hn]

theorem read_next {s : Begun} {n : ℕ} (h : s.low ≤ n ∧ n ≤ s.high) (hn : n < 256)
    (hmissing : s.missing ≠ 1) (bytes : List UInt8) :
    read (some s) (UInt8.ofNat n :: bytes) =
      read (some { value := s.value * 64 + (n - 0x80), missing := s.missing - 1 }) bytes := by
  rw [read, UInt8.toNat_ofNat_of_lt' hn, goOn, if_pos h, if_neg hmissing, List.nil_append]

theorem read_last {s : Begun} {n : ℕ} (h : s.low ≤ n ∧ n ≤ s.high) (hn : n < 256)
    (hmissing : s.missing = 1) (bytes : List UInt8) :
    read (some s) (UInt8.ofNat n :: bytes) =
      Char.ofNat (s.value * 64 + (n - 0x80)) :: read none bytes := by
  rw [read, UInt8.toNat_ofNat_of_lt' hn, goOn, if_pos h, if_pos hmissing, List.singleton_append]

theorem read_utf8EncodeChar (c : Char) (bytes : List UInt8) :
    read none (String.utf8EncodeChar c ++ bytes) = c :: read none bytes := by
  have hrange : c.val.toNat < 0xD800 ∨ 0xDFFF < c.val.toNat ∧ c.val.toNat < 0x110000 := c.valid
  have hchar : Char.ofNat c.val.toNat = c := Char.ofNat_toNat c
  generalize hv : c.val.toNat = v at hrange hchar
  simp only [String.utf8EncodeChar, hv]
  split
  next hone =>
    rw [List.singleton_append, read_first (by omega), beginWith, if_pos (by omega), hchar]
    rfl
  next hone =>
    split
    next htwo =>
      rw [List.cons_append, read_first (by omega), beginWith_two (by omega), List.nil_append,
        List.singleton_append, read_last (by simp only; omega) (by omega) rfl]
      have hnumber : (v / 64 % 32 + 192 - 192) * 64 + (v % 64 + 128 - 128) = v := by omega
      simp only [hnumber, hchar]
    next htwo =>
      split
      next hthree =>
        rw [List.cons_append, read_first (by omega), beginWith_three (by omega), List.nil_append,
          List.cons_append, read_next (by constructor <;> simp only <;> split <;> omega)
            (by omega) (by simp),
          List.singleton_append, read_last (by simp only; omega) (by omega) rfl]
        have hnumber : ((v / 4096 % 16 + 224 - 224) * 64 + (v / 64 % 64 + 128 - 128)) * 64 +
            (v % 64 + 128 - 128) = v := by omega
        simp only [hnumber, hchar]
      next hthree =>
        rw [List.cons_append, read_first (by omega), beginWith_four (by omega), List.nil_append,
          List.cons_append, read_next (by constructor <;> simp only <;> split <;> omega)
            (by omega) (by simp),
          List.cons_append, read_next (by simp only; omega) (by omega) (by simp),
          List.singleton_append, read_last (by simp only; omega) (by omega) rfl]
        have hnumber : (((v / 262144 % 8 + 240 - 240) * 64 + (v / 4096 % 64 + 128 - 128)) * 64 +
            (v / 64 % 64 + 128 - 128)) * 64 + (v % 64 + 128 - 128) = v := by omega
        simp only [hnumber, hchar]

theorem ofUtf8_utf8 (text : List Char) : ofUtf8 (utf8 text) = text := by
  induction text with
  | nil => rfl
  | cons c text ih =>
    rw [ofUtf8, utf8, List.flatMap_cons, read_utf8EncodeChar]
    exact congrArg (c :: ·) ih

theorem length_utf16Char_le (c : Char) : (utf16Char c).length ≤ 2 := by
  unfold utf16Char
  split <;> simp

theorem length_beginWith (b : ℕ) :
    (utf16 (beginWith b).1).length + (beginWith b).2.toList.length = 1 := by
  have hascii : ∀ n < 0x80, (utf16 [Char.ofNat n]).length = 1 := by decide
  unfold beginWith
  split_ifs with hone
  · exact hascii b hone
  all_goals rfl

theorem length_goOn_le (s : Begun) (b : ℕ) :
    (utf16 (goOn s b).1).length + (goOn s b).2.toList.length ≤ 2 := by
  unfold goOn
  split_ifs
  · simpa [utf16] using length_utf16Char_le _
  · simp [utf16]
  · have hnext := length_beginWith b
    have hreplacement : (utf16Char replacement).length = 1 := rfl
    simp only [utf16, List.flatMap_cons, List.length_append] at hnext ⊢
    omega

theorem length_read_le (s : Option Begun) (bytes : List UInt8) :
    (utf16 (read s bytes)).length ≤ s.toList.length + bytes.length := by
  induction bytes generalizing s with
  | nil =>
    cases s with
    | none => exact Nat.le_refl 0
    | some s => exact Nat.le_refl 1
  | cons b bytes ih =>
    cases s with
    | none =>
      have hfirst := length_beginWith b.toNat
      have hrest := ih (beginWith b.toNat).2
      simp only [read, utf16, List.flatMap_append, List.length_append, List.length_cons,
        Option.toList_none, List.length_nil] at hfirst hrest ⊢
      omega
    | some s =>
      have hfirst := length_goOn_le s b.toNat
      have hrest := ih (goOn s b.toNat).2
      simp only [read, utf16, List.flatMap_append, List.length_append, List.length_cons,
        Option.toList_some, List.length_nil] at hfirst hrest ⊢
      omega

theorem length_utf16_ofUtf8_le (bytes : List UInt8) :
    (utf16 (ofUtf8 bytes)).length ≤ bytes.length := by
  have hread := length_read_le none bytes
  rwa [Option.toList_none, List.length_nil, Nat.zero_add] at hread

end Unicode
