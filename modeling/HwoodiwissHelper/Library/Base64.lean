import Mathlib.Data.List.DropRight
import Mathlib.Data.Fin.Basic
import Mathlib.Data.List.FinRange

/-!
# Base64

Bytes as digits of six bits, and digits as symbols. An alphabet has a symbol for each digit, one for
padding, and white space that a reader ignores. `decode_eq_some` says which texts are read, and
what they hold: digits, as many as there may be, and the padding that completes them.
-/

namespace Base64

def sextet (n : ℕ) : Fin 64 := Fin.ofNat 64 n

/-- The digits of bytes. What is left of the last digit is zero. -/
def sextets : List UInt8 → List (Fin 64)
  | [] => []
  | [a] => [sextet (a.toNat / 4), sextet (a.toNat % 4 * 16)]
  | [a, b] =>
    [sextet (a.toNat / 4), sextet (a.toNat % 4 * 16 + b.toNat / 16), sextet (b.toNat % 16 * 4)]
  | a :: b :: c :: bytes =>
    sextet (a.toNat / 4) :: sextet (a.toNat % 4 * 16 + b.toNat / 16) ::
      sextet (b.toNat % 16 * 4 + c.toNat / 64) :: sextet (c.toNat % 64) :: sextets bytes

/-- The bytes that digits hold. What is left of the last digit is ignored. -/
def octets : List (Fin 64) → List UInt8
  | [] => []
  | [_] => []
  | [w, x] => [UInt8.ofNat (w * 4 + x / 16)]
  | [w, x, y] => [UInt8.ofNat (w * 4 + x / 16), UInt8.ofNat (x % 16 * 16 + y / 4)]
  | w :: x :: y :: z :: digits =>
    UInt8.ofNat (w * 4 + x / 16) :: UInt8.ofNat (x % 16 * 16 + y / 4) ::
      UInt8.ofNat (y % 4 * 64 + z) :: octets digits

/-- The padding that completes a number of digits. -/
def padding (n : ℕ) : ℕ := (4 - n % 4) % 4

theorem add_padding_mod (n : ℕ) : (n + padding n) % 4 = 0 := by
  unfold padding
  omega

theorem padding_le_two_iff (n : ℕ) : padding n ≤ 2 ↔ n % 4 ≠ 1 := by
  unfold padding
  omega

theorem eq_padding {n k : ℕ} (h : (n + k) % 4 = 0) (hk : k ≤ 2) : k = padding n := by
  unfold padding
  omega

theorem length_octets (digits : List (Fin 64)) :
    (octets digits).length = digits.length * 3 / 4 := by
  fun_induction octets digits with
  | case1 => rfl
  | case2 => simp
  | case3 => simp
  | case4 => simp
  | case5 w x y z digits ih =>
    simp only [List.length_cons, ih]
    omega

theorem length_sextets_mod (bytes : List UInt8) : (sextets bytes).length % 4 ≠ 1 := by
  fun_induction sextets bytes with
  | case1 => simp
  | case2 => simp
  | case3 => simp
  | case4 a b c bytes ih =>
    simp only [List.length_cons]
    omega

theorem val_sextet {n : ℕ} (h : n < 64) : (sextet n : ℕ) = n := Nat.mod_eq_of_lt h

theorem ofNat_eq_of_toNat {a : UInt8} {n : ℕ} (h : n = a.toNat) : UInt8.ofNat n = a := by
  rw [h, UInt8.ofNat_toNat]

/-! Each byte is spread over two digits, whatever its neighbours put next to its bits. -/

theorem first_octet (a : UInt8) {n : ℕ} (hn : n < 16) :
    UInt8.ofNat (sextet (a.toNat / 4) * 4 + sextet (a.toNat % 4 * 16 + n) / 16) = a := by
  have ha := a.toNat_lt
  rw [val_sextet (by omega), val_sextet (by omega)]
  exact ofNat_eq_of_toNat (by omega)

theorem second_octet (b : UInt8) {m n : ℕ} (hm : m < 4) (hn : n < 4) :
    UInt8.ofNat (sextet (m * 16 + b.toNat / 16) % 16 * 16 + sextet (b.toNat % 16 * 4 + n) / 4) =
      b := by
  have hb := b.toNat_lt
  rw [val_sextet (by omega), val_sextet (by omega)]
  exact ofNat_eq_of_toNat (by omega)

theorem third_octet (c : UInt8) {m : ℕ} (hm : m < 16) :
    UInt8.ofNat (sextet (m * 4 + c.toNat / 64) % 4 * 64 + sextet (c.toNat % 64)) = c := by
  have hc := c.toNat_lt
  rw [val_sextet (by omega), val_sextet (by omega)]
  exact ofNat_eq_of_toNat (by omega)

theorem octets_sextets (bytes : List UInt8) : octets (sextets bytes) = bytes := by
  fun_induction sextets bytes with
  | case1 => rfl
  | case2 a =>
    have ha := first_octet a (show 0 < 16 by decide)
    simp only [octets, Nat.add_zero] at ha ⊢
    rw [ha]
  | case3 a b =>
    have ha := first_octet a (show b.toNat / 16 < 16 by have hb := b.toNat_lt; omega)
    have hb := second_octet b (show a.toNat % 4 < 4 by omega) (show 0 < 4 by decide)
    simp only [octets, Nat.add_zero] at hb ⊢
    rw [ha, hb]
  | case4 a b c bytes ih =>
    have ha := first_octet a (show b.toNat / 16 < 16 by have hb := b.toNat_lt; omega)
    have hb := second_octet b (show a.toNat % 4 < 4 by omega)
      (show c.toNat / 64 < 4 by have hc := c.toNat_lt; omega)
    have hc := third_octet c (show b.toNat % 16 < 16 by omega)
    simp only [octets]
    rw [ha, hb, hc, ih]

structure Alphabet (σ : Type) where
  digit : Fin 64 → σ
  pad : σ
  space : List σ
  digit_injective : Function.Injective digit
  digit_ne_pad : ∀ n, digit n ≠ pad
  not_space : ∀ c ∈ space, c ≠ pad ∧ ∀ n, digit n ≠ c

namespace Alphabet

variable {σ : Type} (A : Alphabet σ)

/-- Digits with the padding that completes them. -/
def complete (digits : List (Fin 64)) : List σ :=
  digits.map A.digit ++ List.replicate (padding digits.length) A.pad

def encode (bytes : List UInt8) : List σ := A.complete (sextets bytes)

theorem length_complete (digits : List (Fin 64)) :
    (A.complete digits).length = digits.length + padding digits.length := by
  simp [complete]

variable [DecidableEq σ]

def value (c : σ) : Option (Fin 64) := (List.finRange 64).find? fun n => A.digit n = c

def decode (text : List σ) : Option (List UInt8) :=
  let digits := text.takeWhile (· ≠ A.pad)
  let pads := text.dropWhile (· ≠ A.pad)
  if text.length % 4 = 0 ∧ pads.length ≤ 2 ∧ ∀ c ∈ pads, c = A.pad then
    (digits.mapM A.value).map octets
  else
    none

/-- The bytes of a text, if there is room for them. -/
def tryDecode (room : ℕ) (text : List σ) : Option (List UInt8) :=
  (A.decode (text.filter (· ∉ A.space))).filter (·.length ≤ room)

theorem value_eq_some {c : σ} {n : Fin 64} : A.value c = some n ↔ c = A.digit n := by
  constructor
  · intro h
    simpa [eq_comm] using List.find?_some h
  · rintro rfl
    have hfound : (A.value (A.digit n)).isSome :=
      List.find?_isSome.mpr ⟨n, List.mem_finRange n, by simp⟩
    obtain ⟨m, hm⟩ := Option.isSome_iff_exists.mp hfound
    have hdigit : A.digit m = A.digit n := by simpa using List.find?_some hm
    rw [hm, A.digit_injective hdigit]

theorem mapM_value_eq_some {text : List σ} {digits : List (Fin 64)} :
    text.mapM A.value = some digits ↔ text = digits.map A.digit := by
  induction text generalizing digits with
  | nil => cases digits <;> simp
  | cons c text ih =>
    cases digits with
    | nil => simp [Option.bind_eq_some_iff]
    | cons n digits => simp [Option.bind_eq_some_iff, value_eq_some, ih]

theorem takeWhile_complete (digits : List (Fin 64)) :
    (A.complete digits).takeWhile (· ≠ A.pad) = digits.map A.digit := by
  rw [complete, List.takeWhile_append_of_pos (by simp [A.digit_ne_pad])]
  simp

theorem dropWhile_complete (digits : List (Fin 64)) :
    (A.complete digits).dropWhile (· ≠ A.pad) =
      List.replicate (padding digits.length) A.pad := by
  rw [complete, List.dropWhile_append_of_pos (by simp [A.digit_ne_pad])]
  simp

theorem decode_eq_some {text : List σ} {bytes : List UInt8} :
    A.decode text = some bytes ↔
      ∃ digits, digits.length % 4 ≠ 1 ∧ text = A.complete digits ∧ octets digits = bytes := by
  simp only [decode]
  constructor
  · intro h
    split at h
    next hshape =>
      obtain ⟨hlength, hpads, hall⟩ := hshape
      obtain ⟨digits, hdigits, hbytes⟩ := Option.map_eq_some_iff.mp h
      have htake := A.mapM_value_eq_some.mp hdigits
      have hdrop := List.eq_replicate_iff.mpr ⟨rfl, hall⟩
      have htext := List.takeWhile_append_dropWhile (p := (· ≠ A.pad)) (l := text)
      have hsum : (digits.length + (text.dropWhile (· ≠ A.pad)).length) % 4 = 0 := by
        have hdigitsLength := congrArg List.length htake
        have htextLength := congrArg List.length htext
        rw [List.length_map] at hdigitsLength
        rw [List.length_append] at htextLength
        omega
      have hk := eq_padding hsum hpads
      refine ⟨digits, (padding_le_two_iff _).mp (hk ▸ hpads), ?_, hbytes⟩
      rw [complete, ← hk, ← hdrop, ← htake, htext]
    next => cases h
  · rintro ⟨digits, hdigits, rfl, rfl⟩
    rw [A.takeWhile_complete, A.dropWhile_complete, A.length_complete, if_pos]
    · rw [A.mapM_value_eq_some.mpr rfl]
      rfl
    · exact ⟨add_padding_mod _, by simpa using (padding_le_two_iff _).mpr hdigits, by simp⟩

theorem decode_complete {digits : List (Fin 64)} (h : digits.length % 4 ≠ 1) :
    A.decode (A.complete digits) = some (octets digits) :=
  A.decode_eq_some.mpr ⟨digits, h, rfl, rfl⟩

theorem length_of_decode {text : List σ} {bytes : List UInt8} (h : A.decode text = some bytes) :
    bytes.length ≤ text.length / 4 * 3 := by
  obtain ⟨digits, -, rfl, rfl⟩ := A.decode_eq_some.mp h
  rw [length_octets, length_complete, padding]
  omega

theorem tryDecode_eq_decode {room : ℕ} {text : List σ} (h : text.length / 4 * 3 ≤ room) :
    A.tryDecode room text = A.decode (text.filter (· ∉ A.space)) := by
  have hfilter : (text.filter (· ∉ A.space)).length ≤ text.length := List.length_filter_le _ _
  cases hbytes : A.decode (text.filter (· ∉ A.space)) with
  | none => rw [tryDecode, hbytes, Option.filter_none]
  | some bytes =>
    have hlength := A.length_of_decode hbytes
    have hroom : bytes.length ≤ room := by omega
    rw [tryDecode, hbytes, Option.filter_some_pos (by simpa using hroom)]

theorem filter_complete (digits : List (Fin 64)) :
    (A.complete digits).filter (· ∉ A.space) = A.complete digits := by
  apply List.filter_eq_self.mpr
  intro c hc
  simp only [complete, List.mem_append, List.mem_map, List.mem_replicate] at hc
  simp only [decide_eq_true_eq]
  intro hspace
  obtain ⟨hpad, hdigit⟩ := A.not_space c hspace
  rcases hc with ⟨n, -, hn⟩ | ⟨-, hc⟩
  · exact hdigit n hn
  · exact hpad hc

theorem tryDecode_complete {digits : List (Fin 64)} (h : digits.length % 4 ≠ 1) :
    A.tryDecode ((A.complete digits).length / 4 * 3) (A.complete digits) =
      some (octets digits) := by
  rw [A.tryDecode_eq_decode le_rfl, A.filter_complete, A.decode_complete h]

theorem rdropWhile_complete (digits : List (Fin 64)) :
    (A.complete digits).rdropWhile (· = A.pad) = digits.map A.digit := by
  rw [complete]
  induction padding digits.length with
  | zero =>
    simp only [List.replicate_zero, List.append_nil, List.rdropWhile_eq_self_iff]
    intro hne
    obtain ⟨n, -, hn⟩ := List.mem_map.mp (List.getLast_mem hne)
    simp [← hn, A.digit_ne_pad]
  | succ k ih =>
    rw [List.replicate_succ', ← List.append_assoc, List.rdropWhile_concat_pos _ _ _ (by simp), ih]

end Alphabet

end Base64
