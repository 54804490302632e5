import HwoodiwissHelper.Convert

/-!
# The encoding page

Three fields show one text: as it is, in Base64, and in Base64 for URLs. An edit of one field writes
the others. Each edit decodes into a buffer whose size is computed from the length.
-/

namespace HwoodiwissHelper.Encoding

open Base64 Unicode

def replaceUnit (oldChar newChar : Char) (c : UInt16) : UInt16 :=
  if c = unit oldChar then unit newChar else c

def replace (oldChar newChar : Char) (s : Text) : Text := s.map (replaceUnit oldChar newChar)

def trimEnd (trimChar : Char) (s : Text) : Text := s.rdropWhile (· = unit trimChar)

def padRight (totalWidth : ℕ) (paddingChar : Char) (s : Text) : Text :=
  s ++ List.replicate (totalWidth - s.length) (unit paddingChar)

structure Fields where
  base64Cleartext : Text := []
  base64Encoded : Text := []
  base64UrlEncoded : Text := []
  deriving DecidableEq, Repr

def toUrlEncoded (s : Text) : Text := trimEnd '=' (replace '/' '_' (replace '+' '-' s))

def fromUrlEncoded (value : Text) : Text :=
  padRight (value.length + (4 - value.length % 4) % 4) '=' (replace '_' '/' (replace '-' '+' value))

/-- An event may come without a string. -/
def onBase64CleartextInputChanged (fields : Fields) : Option Text → Fields
  | none => fields
  | some value =>
    let base64Encoded := toBase64String (getBytes value)
    { fields with
      base64Encoded
      base64UrlEncoded := toUrlEncoded base64Encoded }

def onBase64EncodedInputChanged (fields : Fields) : Option Text → Fields
  | none => fields
  | some value =>
    match tryFromBase64String value (approxDecodedLength value) with
    | some bytes =>
      { fields with
        base64Cleartext := getString bytes
        base64UrlEncoded := toUrlEncoded value }
    | none =>
      { fields with
        base64Cleartext := text "Invalid Base 64"
        base64UrlEncoded := text "Invalid Base 64" }

def onBase64UrlEncodedInputChanged (fields : Fields) : Option Text → Fields
  | none => fields
  | some value =>
    let b64 := fromUrlEncoded value
    match tryFromBase64String b64 (approxDecodedLength b64) with
    | some bytes =>
      { fields with
        base64Cleartext := getString bytes
        base64Encoded := b64 }
    | none =>
      { fields with
        base64Cleartext := text "Invalid URL Encoded Base 64"
        base64Encoded := text "Invalid URL Encoded Base 64" }

def base64Bytes (value : Text) : Option (List UInt8) :=
  tryFromBase64String value (approxDecodedLength value)

def base64UrlBytes (value : Text) : Option (List UInt8) := base64Bytes (fromUrlEncoded value)

theorem onBase64EncodedInputChanged_of_accepts (fields : Fields) {value : Text}
    {bytes : List UInt8} (h : base64Bytes value = some bytes) :
    onBase64EncodedInputChanged fields (some value) =
      { fields with
        base64Cleartext := getString bytes
        base64UrlEncoded := toUrlEncoded value } := by
  rw [base64Bytes] at h
  simp only [onBase64EncodedInputChanged, h]

theorem onBase64UrlEncodedInputChanged_of_accepts (fields : Fields) {value : Text}
    {bytes : List UInt8} (h : base64UrlBytes value = some bytes) :
    onBase64UrlEncodedInputChanged fields (some value) =
      { fields with
        base64Cleartext := getString bytes
        base64Encoded := fromUrlEncoded value } := by
  rw [base64UrlBytes, base64Bytes] at h
  simp only [onBase64UrlEncodedInputChanged, h]

/-- The buffer is never too small: a value is accepted when it is Base64 but for white space. -/
theorem base64Bytes_eq_decode (value : Text) :
    base64Bytes value = standard.decode (value.filter (· ∉ whiteSpace)) :=
  standard.tryDecode_eq_decode (Nat.le_refl _)

theorem base64Bytes_complete {digits : List (Fin 64)} (h : digits.length % 4 ≠ 1) :
    base64Bytes (standard.complete digits) = some (octets digits) :=
  standard.tryDecode_complete h

theorem replace_standard (digits : List (Fin 64)) :
    replace '/' '_' (replace '+' '-' (standard.complete digits)) = urlSafe.complete digits := by
  have hdigit : ∀ n, replaceUnit '/' '_' (replaceUnit '+' '-' (standard.digit n)) =
      urlSafe.digit n := by decide +kernel
  have hpad : replaceUnit '/' '_' (replaceUnit '+' '-' standard.pad) = urlSafe.pad := by
    decide +kernel
  simp only [replace, Alphabet.complete, List.map_append, List.map_map, List.map_replicate,
    Function.comp_def, hdigit, hpad]

theorem replace_urlSafe (digits : List (Fin 64)) :
    replace '_' '/' (replace '-' '+' (digits.map urlSafe.digit)) =
      digits.map standard.digit := by
  have hdigit : ∀ n, replaceUnit '_' '/' (replaceUnit '-' '+' (urlSafe.digit n)) =
      standard.digit n := by decide +kernel
  simp only [replace, List.map_map, Function.comp_def, hdigit]

theorem toUrlEncoded_complete (digits : List (Fin 64)) :
    toUrlEncoded (standard.complete digits) = digits.map urlSafe.digit := by
  rw [toUrlEncoded, replace_standard]
  exact urlSafe.rdropWhile_complete digits

theorem fromUrlEncoded_digits (digits : List (Fin 64)) :
    fromUrlEncoded (digits.map urlSafe.digit) = standard.complete digits := by
  rw [fromUrlEncoded, replace_urlSafe, padRight, List.length_map, List.length_map,
    Nat.add_sub_cancel_left]
  rfl

theorem base64UrlBytes_digits {digits : List (Fin 64)} (h : digits.length % 4 ≠ 1) :
    base64UrlBytes (digits.map urlSafe.digit) = some (octets digits) := by
  rw [base64UrlBytes, fromUrlEncoded_digits, base64Bytes_complete h]

theorem getBytes_utf16 (s : List Char) : getBytes (utf16 s) = Unicode.utf8 s := by
  rw [getBytes, ofUtf16_utf16]

theorem getString_utf8 (s : List Char) : getString (Unicode.utf8 s) = utf16 s := by
  rw [getString, ofUtf8_utf8]

/-- Both texts of some bytes are accepted, and each one leads to the other and to the text that the
bytes are in UTF-8. -/
structure RoundTrips (fields : Fields) (bytes : List UInt8) (e u : Text) : Prop where
  accepted : base64Bytes e = some bytes
  encoded : onBase64EncodedInputChanged fields (some e) =
    { fields with base64Cleartext := getString bytes, base64UrlEncoded := u }
  urlAccepted : base64UrlBytes u = some bytes
  urlEncoded : onBase64UrlEncodedInputChanged fields (some u) =
    { fields with base64Cleartext := getString bytes, base64Encoded := e }

theorem roundTrips (fields : Fields) (bytes : List UInt8) :
    RoundTrips fields bytes (toBase64String bytes) (toUrlEncoded (toBase64String bytes)) := by
  have hmod := length_sextets_mod bytes
  have hu : toUrlEncoded (toBase64String bytes) = (sextets bytes).map urlSafe.digit :=
    toUrlEncoded_complete (sextets bytes)
  have he : fromUrlEncoded (toUrlEncoded (toBase64String bytes)) = toBase64String bytes := by
    rw [hu, fromUrlEncoded_digits]
    rfl
  have haccepted : base64Bytes (toBase64String bytes) = some bytes := by
    rw [toBase64String, Alphabet.encode, base64Bytes_complete hmod, octets_sextets]
  have hurl : base64UrlBytes (toUrlEncoded (toBase64String bytes)) = some bytes := by
    rw [base64UrlBytes, he, haccepted]
  refine ⟨haccepted, onBase64EncodedInputChanged_of_accepts fields haccepted, hurl, ?_⟩
  rw [onBase64UrlEncodedInputChanged_of_accepts fields hurl, he]

/-- All bytes, and all texts without a lone surrogate, are read back from either encoded field. -/
theorem fields_round_trip (fields : Fields) :
    (∀ bytes, ∃ e u, RoundTrips fields bytes e u ∧ e = toBase64String bytes ∧
      u = trimEnd '=' (replace '/' '_' (replace '+' '-' e))) ∧
    ∀ s : List Char, ∃ e u, RoundTrips fields (Unicode.utf8 s) e u ∧
      e = toBase64String (Unicode.utf8 s) ∧
      u = trimEnd '=' (replace '/' '_' (replace '+' '-' e)) ∧
      onBase64CleartextInputChanged fields (some (utf16 s)) =
        { fields with base64Encoded := e, base64UrlEncoded := u } ∧
      (onBase64EncodedInputChanged fields (some e)).base64Cleartext = utf16 s ∧
      (onBase64UrlEncodedInputChanged fields (some u)).base64Cleartext = utf16 s := by
  refine ⟨fun bytes => ⟨_, _, roundTrips fields bytes, rfl, rfl⟩, fun s => ?_⟩
  have h := roundTrips fields (Unicode.utf8 s)
  refine ⟨_, _, h, rfl, rfl, ?_, ?_, ?_⟩
  · simp only [onBase64CleartextInputChanged, getBytes_utf16]
  · rw [h.encoded, getString_utf8]
  · rw [h.urlEncoded, getString_utf8]

/-- A unit that needs no escape in a URL: a letter, a figure, `-` or `_`. -/
def UrlSafe (c : UInt16) : Prop :=
  unit 'A' ≤ c ∧ c ≤ unit 'Z' ∨ unit 'a' ≤ c ∧ c ≤ unit 'z' ∨ unit '0' ≤ c ∧ c ≤ unit '9' ∨
    c = unit '-' ∨ c = unit '_'

instance (c : UInt16) : Decidable (UrlSafe c) :=
  inferInstanceAs (Decidable (_ ∧ _ ∨ _ ∧ _ ∨ _ ∧ _ ∨ _ ∨ _))

/-- What an accepted value makes the page write into the other encoded field holds the same
bytes, and is safe in a URL where it should be. -/
structure InSync (value : Text) : Prop where
  encoded : ∀ bytes, base64Bytes value = some bytes → ∀ fields,
    (∀ c ∈ (onBase64EncodedInputChanged fields (some value)).base64UrlEncoded, UrlSafe c) ∧
      base64UrlBytes (onBase64EncodedInputChanged fields (some value)).base64UrlEncoded =
        some bytes
  urlEncoded : ∀ bytes, base64UrlBytes value = some bytes → ∀ fields,
    base64Bytes (onBase64UrlEncodedInputChanged fields (some value)).base64Encoded = some bytes

theorem urlSafe_digit : ∀ n, UrlSafe (urlSafe.digit n) := by decide +kernel

theorem not_urlSafe_of_whiteSpace : ∀ c ∈ whiteSpace, ¬ UrlSafe c :=
  forall_mem_whiteSpace (by decide +kernel)

theorem mem_toUrlEncoded {value : Text} {c : UInt16} (hc : c ∈ value) (hspace : c ∈ whiteSpace) :
    c ∈ toUrlEncoded value := by
  have hkept : ∀ c ∈ whiteSpace, replaceUnit '/' '_' (replaceUnit '+' '-' c) = c ∧
      c ≠ unit '=' := forall_mem_whiteSpace (by decide +kernel)
  obtain ⟨hreplace, hpad⟩ := hkept c hspace
  have hmem : c ∈ replace '/' '_' (replace '+' '-' value) := by
    rw [replace, replace, List.map_map]
    exact List.mem_map.mpr ⟨c, hc, hreplace⟩
  have hsplit := List.rdropWhile_append_rtakeWhile (p := (· = unit '='))
    (l := replace '/' '_' (replace '+' '-' value))
  rw [← hsplit] at hmem
  rcases List.mem_append.mp hmem with hmem | hmem
  · exact hmem
  · exact absurd (by simpa using List.mem_rtakeWhile_imp hmem) hpad

/-- The fields are in sync exactly when an accepted value has no white space. -/
theorem in_sync_iff (value : Text) :
    InSync value ↔ ∀ bytes, base64Bytes value = some bytes → ∀ c ∈ value, c ∉ whiteSpace := by
  constructor
  · intro h bytes hbytes c hc hspace
    have hurl := onBase64EncodedInputChanged_of_accepts {} hbytes
    have hsafe := (h.encoded bytes hbytes {}).1 c
    rw [hurl] at hsafe
    exact not_urlSafe_of_whiteSpace c hspace (hsafe (mem_toUrlEncoded hc hspace))
  · intro h
    refine ⟨fun bytes hbytes fields => ?_, fun bytes hbytes fields => ?_⟩
    · have hfilter : value.filter (· ∉ whiteSpace) = value :=
        List.filter_eq_self.mpr fun c hc => by simpa using h bytes hbytes c hc
      have hdecode := hbytes
      rw [base64Bytes_eq_decode, hfilter, standard.decode_eq_some] at hdecode
      obtain ⟨digits, hmod, rfl, rfl⟩ := hdecode
      rw [onBase64EncodedInputChanged_of_accepts fields hbytes, toUrlEncoded_complete]
      refine ⟨fun c hc => ?_, base64UrlBytes_digits hmod⟩
      obtain ⟨n, -, rfl⟩ := List.mem_map.mp hc
      exact urlSafe_digit n
    · rw [onBase64UrlEncodedInputChanged_of_accepts fields hbytes]
      exact hbytes

/-- A line break at the end is accepted, and goes into the URL field. -/
theorem line_break_out_of_sync : base64Bytes (text "QUJD\n") = some [65, 66, 67] ∧
    (onBase64EncodedInputChanged {} (some (text "QUJD\n"))).base64UrlEncoded = text "QUJD\n" ∧
    ¬ InSync (text "QUJD\n") := by
  have haccepted : base64Bytes (text "QUJD\n") = some [65, 66, 67] := by decide +kernel
  refine ⟨haccepted, by decide +kernel, fun h => ?_⟩
  have hsafe : UrlSafe (unit '\n') := (h.encoded _ haccepted {}).1 _ (by decide +kernel)
  exact absurd hsafe (by decide)

end HwoodiwissHelper.Encoding
