import HwoodiwissHelper.Library.Base64
import HwoodiwissHelper.Library.Unicode

/-!
# Strings and bytes

Strings of UTF-16 code units, the bytes that they are in UTF-8, and `Convert`, which reads bytes
from Base64 into a buffer. The buffers are sized by the length of the string.
-/

namespace HwoodiwissHelper.Encoding

open Base64 Unicode

abbrev Text := List UInt16

def text (s : String) : Text := utf16 s.toList

def unit (c : Char) : UInt16 := UInt16.ofNat c.toNat

/-- `Encoding.UTF8.GetBytes`. -/
def getBytes (s : Text) : List UInt8 := Unicode.utf8 (ofUtf16 s)

/-- `Encoding.UTF8.GetString`. -/
def getString (bytes : List UInt8) : Text := utf16 (ofUtf8 bytes)

def digitUnit (plus slash : Char) (n : Fin 64) : UInt16 :=
  if n.val < 26 then UInt16.ofNat (65 + n.val)
  else if n.val < 52 then UInt16.ofNat (71 + n.val)
  else if n.val < 62 then UInt16.ofNat (n.val - 4)
  else if n.val = 62 then unit plus
  else unit slash

def whiteSpace : List UInt16 := [unit ' ', unit '\t', unit '\n', unit '\r']

theorem forall_mem_whiteSpace {P : UInt16 → Prop}
    (h : P (unit ' ') ∧ P (unit '\t') ∧ P (unit '\n') ∧ P (unit '\r')) :
    ∀ c ∈ whiteSpace, P c := by
  simpa [whiteSpace] using h

def standard : Alphabet UInt16 where
  digit := digitUnit '+' '/'
  pad := unit '='
  space := whiteSpace
  digit_injective m n := by
    revert m n
    decide +kernel
  digit_ne_pad := by decide +kernel
  not_space := forall_mem_whiteSpace (by decide +kernel)

def urlSafe : Alphabet UInt16 where
  digit := digitUnit '-' '_'
  pad := unit '='
  space := whiteSpace
  digit_injective m n := by
    revert m n
    decide +kernel
  digit_ne_pad := by decide +kernel
  not_space := forall_mem_whiteSpace (by decide +kernel)

def toBase64String (bytes : List UInt8) : Text := standard.encode bytes

/-- `Convert.TryFromBase64String`, into a buffer of a length. -/
def tryFromBase64String (s : Text) (length : ℕ) : Option (List UInt8) :=
  standard.tryDecode length s

def approxDecodedLength (s : Text) : ℕ := s.length / 4 * 3

end HwoodiwissHelper.Encoding
