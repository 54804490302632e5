import HwoodiwissHelper.Pages.Encoding
import HwoodiwissHelper.Result

/-!
# Buffers for decoded Base64

Three places decode Base64 into a buffer of `Length / 4 * 3` bytes: two fields of the encoding page,
and the configuration of the app's private key. `TryFromBase64String` returns false for a buffer
that is too small as for a text that is not Base64. The first never happens, whatever white space
the text has.
-/

namespace HwoodiwissHelper.Encoding

open Base64 Unicode

def decodedPrivateKey (appPrivateKey : Text) : Option Text :=
  (tryFromBase64String appPrivateKey (approxDecodedLength appPrivateKey)).map getString

/-- `PostConfigure<GitHubConfiguration>`, on the member that it reads and writes. A section without
it leaves it null. -/
def postConfigure : Option Text → Except Exception Text
  | none => .error { typeName := "NullReferenceException" }
  | some appPrivateKey => .ok ((decodedPrivateKey appPrivateKey).getD appPrivateKey)

/-- A text that is decoded, into a buffer that has room. -/
def IsBase64 (s : Text) (bytes : List UInt8) : Prop :=
  ∃ length, tryFromBase64String s length = some bytes

/-- The buffer that is sized by the length has room for what any text holds. -/
structure BufferSuffices (s : Text) : Prop where
  fits : ∀ bytes, IsBase64 s bytes → bytes.length ≤ approxDecodedLength s
  decoded_iff : ∀ bytes,
    tryFromBase64String s (approxDecodedLength s) = some bytes ↔ IsBase64 s bytes
  refused_iff : tryFromBase64String s (approxDecodedLength s) = none ↔ ∀ bytes, ¬ IsBase64 s bytes

theorem decode_of_isBase64 {s : Text} {bytes : List UInt8} (h : IsBase64 s bytes) :
    standard.decode (s.filter (· ∉ whiteSpace)) = some bytes := by
  obtain ⟨length, hlength⟩ := h
  exact (Option.filter_eq_some_iff.mp hlength).1

/-- Base64 is digits with the padding that completes them, and white space anywhere. -/
theorem isBase64_iff {s : Text} {bytes : List UInt8} :
    IsBase64 s bytes ↔ ∃ digits, digits.length % 4 ≠ 1 ∧
      s.filter (· ∉ whiteSpace) = standard.complete digits ∧ octets digits = bytes := by
  rw [← standard.decode_eq_some]
  constructor
  · exact decode_of_isBase64
  · intro h
    exact ⟨approxDecodedLength s, (standard.tryDecode_eq_decode le_rfl).trans h⟩

theorem bufferSuffices (s : Text) : BufferSuffices s := by
  have hdecode : tryFromBase64String s (approxDecodedLength s) =
      standard.decode (s.filter (· ∉ whiteSpace)) := standard.tryDecode_eq_decode le_rfl
  have hiff (bytes : List UInt8) :
      tryFromBase64String s (approxDecodedLength s) = some bytes ↔ IsBase64 s bytes := by
    constructor
    · exact fun h => ⟨_, h⟩
    · intro h
      rw [hdecode, decode_of_isBase64 h]
  refine ⟨?_, hiff, ?_⟩
  · intro bytes h
    have hlength := standard.length_of_decode (decode_of_isBase64 h)
    have hfilter : (s.filter (· ∉ whiteSpace)).length ≤ s.length := List.length_filter_le _ _
    rw [approxDecodedLength]
    omega
  · rw [Option.eq_none_iff_forall_ne_some]
    exact forall_congr' fun bytes => not_congr (hiff bytes)

def IsSymbol (c : UInt16) : Prop := c ∉ whiteSpace ∧ c ≠ unit '='

instance (c : UInt16) : Decidable (IsSymbol c) := inferInstanceAs (Decidable (_ ∧ _))

theorem isSymbol_replaceUnit {oldChar newChar : Char} (hold : IsSymbol (unit oldChar))
    (hnew : IsSymbol (unit newChar)) (c : UInt16) :
    IsSymbol (replaceUnit oldChar newChar c) ↔ IsSymbol c := by
  unfold replaceUnit
  split
  next h => rw [h, iff_true_intro hold, iff_true_intro hnew]
  next => rfl

theorem countP_toUrlEncoded (value : Text) :
    (toUrlEncoded value).countP IsSymbol = value.countP IsSymbol := by
  have hreplace : (replace '/' '_' (replace '+' '-' value)).countP IsSymbol =
      value.countP IsSymbol := by
    rw [replace, replace, List.map_map, List.countP_map]
    apply List.countP_congr
    intro c _
    rw [Function.comp_apply, Function.comp_apply, decide_eq_true_eq, decide_eq_true_eq,
      isSymbol_replaceUnit (by decide) (by decide), isSymbol_replaceUnit (by decide) (by decide)]
  have htrim (s : Text) : (trimEnd '=' s).countP IsSymbol = s.countP IsSymbol := by
    have hsplit := List.rdropWhile_append_rtakeWhile (p := (· = unit '=')) (l := s)
    have htail : (s.rtakeWhile (· = unit '=')).countP IsSymbol = 0 := by
      apply List.countP_eq_zero.mpr
      intro c hc
      have hpad : c = unit '=' := by simpa using List.mem_rtakeWhile_imp hc
      simp [IsSymbol, hpad]
    rw [trimEnd, ← congrArg (List.countP (IsSymbol ·)) hsplit, List.countP_append, htail,
      Nat.add_zero]
  rw [toUrlEncoded, htrim, hreplace]

theorem countP_of_isBase64 {s : Text} {bytes : List UInt8} (h : IsBase64 s bytes) :
    s.countP IsSymbol % 4 ≠ 1 := by
  obtain ⟨digits, hdigits, hfilter, -⟩ := isBase64_iff.mp h
  have hcount : s.countP IsSymbol = (standard.complete digits).countP (· ≠ unit '=') := by
    rw [← hfilter, List.countP_filter]
    apply List.countP_congr
    intro c _
    rw [decide_eq_true_eq]
    simp [IsSymbol, and_comm]
  have hpad (n : ℕ) : (List.replicate n (unit '=')).countP (· ≠ unit '=') = 0 := by
    simp
  have hdigit : (digits.map standard.digit).countP (· ≠ unit '=') = digits.length := by
    rw [List.countP_map]
    exact List.countP_eq_length.mpr fun n _ => decide_eq_true (standard.digit_ne_pad n)
  rw [hcount, Alphabet.complete, List.countP_append, hdigit]
  rwa [show standard.pad = unit '=' from rfl, hpad]

theorem onBase64EncodedInputChanged_refuses_iff (fields : Fields) (value : Text) :
    onBase64EncodedInputChanged fields (some value) = { fields with
        base64Cleartext := text "Invalid Base 64"
        base64UrlEncoded := text "Invalid Base 64" } ↔
      ∀ bytes, ¬ IsBase64 value bytes := by
  constructor
  · intro h bytes hbytes
    rw [onBase64EncodedInputChanged_of_accepts fields
      (((bufferSuffices value).decoded_iff bytes).mpr hbytes)] at h
    have hurl : toUrlEncoded value = text "Invalid Base 64" := congrArg Fields.base64UrlEncoded h
    have hcount := countP_of_isBase64 hbytes
    rw [← countP_toUrlEncoded, hurl] at hcount
    exact hcount (by decide +kernel)
  · intro h
    simp only [onBase64EncodedInputChanged, (bufferSuffices value).refused_iff.mpr h]

theorem length_fromUrlEncoded (value : Text) : (fromUrlEncoded value).length % 4 = 0 := by
  have hpadding := add_padding_mod value.length
  simp only [fromUrlEncoded, padRight, replace, List.length_append, List.length_replicate,
    List.length_map, Nat.add_sub_cancel_left]
  exact hpadding

theorem onBase64UrlEncodedInputChanged_refuses_iff (fields : Fields) (value : Text) :
    onBase64UrlEncodedInputChanged fields (some value) = { fields with
        base64Cleartext := text "Invalid URL Encoded Base 64"
        base64Encoded := text "Invalid URL Encoded Base 64" } ↔
      ∀ bytes, ¬ IsBase64 (fromUrlEncoded value) bytes := by
  constructor
  · intro h bytes hbytes
    rw [onBase64UrlEncodedInputChanged_of_accepts fields
      (((bufferSuffices (fromUrlEncoded value)).decoded_iff bytes).mpr hbytes)] at h
    have hencoded : fromUrlEncoded value = text "Invalid URL Encoded Base 64" :=
      congrArg Fields.base64Encoded h
    have hlength := length_fromUrlEncoded value
    rw [hencoded] at hlength
    exact absurd hlength (by decide)
  · intro h
    simp only [onBase64UrlEncodedInputChanged,
      (bufferSuffices (fromUrlEncoded value)).refused_iff.mpr h]

theorem decodedPrivateKey_eq_none_iff (appPrivateKey : Text) :
    decodedPrivateKey appPrivateKey = none ↔ ∀ bytes, ¬ IsBase64 appPrivateKey bytes := by
  rw [decodedPrivateKey, Option.map_eq_none_iff, (bufferSuffices appPrivateKey).refused_iff]

theorem postConfigure_of_isBase64 {appPrivateKey : Text} {bytes : List UInt8}
    (h : IsBase64 appPrivateKey bytes) :
    postConfigure (some appPrivateKey) = .ok (getString bytes) := by
  rw [postConfigure, decodedPrivateKey, ((bufferSuffices appPrivateKey).decoded_iff bytes).mpr h]
  rfl

theorem postConfigure_of_not_isBase64 {appPrivateKey : Text}
    (h : ∀ bytes, ¬ IsBase64 appPrivateKey bytes) :
    postConfigure (some appPrivateKey) = .ok appPrivateKey := by
  rw [postConfigure, (decodedPrivateKey_eq_none_iff appPrivateKey).mpr h]
  rfl

/-- The text of a decoded key is shorter than the key, unless both are empty: so a key that is the
same afterwards was not decoded. -/
theorem postConfigure_eq_self_iff (appPrivateKey : Text) :
    postConfigure (some appPrivateKey) = .ok appPrivateKey ↔
      appPrivateKey = [] ∨ ∀ bytes, ¬ IsBase64 appPrivateKey bytes := by
  rw [← decodedPrivateKey_eq_none_iff, postConfigure, Except.ok.injEq]
  cases hdecoded : decodedPrivateKey appPrivateKey with
  | none => simp
  | some key =>
    obtain ⟨bytes, hbytes, rfl⟩ := Option.map_eq_some_iff.mp hdecoded
    have hfits := (bufferSuffices appPrivateKey).fits bytes ⟨_, hbytes⟩
    have hlength : (getString bytes).length ≤ bytes.length := length_utf16_ofUtf8_le bytes
    rw [approxDecodedLength] at hfits
    rw [Option.getD_some, or_iff_left (by simp)]
    constructor
    · intro hsame
      rw [hsame] at hlength
      exact List.eq_nil_of_length_eq_zero (by omega)
    · rintro rfl
      exact List.eq_nil_of_length_eq_zero (by rw [List.length_nil] at hfits; omega)

/-- None of the three places fails for lack of room: each refuses a value exactly when it is not
Base64 in any buffer, which is digits with the padding that completes them, and white space
anywhere. -/
theorem decode_buffers_suffice (fields : Fields) (value : Text) :
    (∀ bytes, IsBase64 value bytes ↔ ∃ digits, digits.length % 4 ≠ 1 ∧
      value.filter (· ∉ whiteSpace) = standard.complete digits ∧ octets digits = bytes) ∧
    (BufferSuffices value ∧
      (onBase64EncodedInputChanged fields (some value) = { fields with
          base64Cleartext := text "Invalid Base 64"
          base64UrlEncoded := text "Invalid Base 64" } ↔
        ∀ bytes, ¬ IsBase64 value bytes)) ∧
    ((fromUrlEncoded value).length % 4 = 0 ∧ BufferSuffices (fromUrlEncoded value) ∧
      (onBase64UrlEncodedInputChanged fields (some value) = { fields with
          base64Cleartext := text "Invalid URL Encoded Base 64"
          base64Encoded := text "Invalid URL Encoded Base 64" } ↔
        ∀ bytes, ¬ IsBase64 (fromUrlEncoded value) bytes)) ∧
    (decodedPrivateKey value = none ↔ ∀ bytes, ¬ IsBase64 value bytes) ∧
    (∀ bytes, IsBase64 value bytes → postConfigure (some value) = .ok (getString bytes)) ∧
    ((∀ bytes, ¬ IsBase64 value bytes) → postConfigure (some value) = .ok value) :=
  ⟨fun _ => isBase64_iff, ⟨bufferSuffices value, onBase64EncodedInputChanged_refuses_iff fields value⟩,
    ⟨length_fromUrlEncoded value, bufferSuffices (fromUrlEncoded value),
      onBase64UrlEncodedInputChanged_refuses_iff fields value⟩,
    decodedPrivateKey_eq_none_iff value, fun _ => postConfigure_of_isBase64,
    postConfigure_of_not_isBase64⟩

example : tryFromBase64String (text " QU\r\nI=\t") 6 = some [65, 66] := by decide +kernel

end HwoodiwissHelper.Encoding
