import HwoodiwissHelper.Pages.Encoding

/-!
# Runs of the encoding page

While a text is typed into a field, each value of it goes to the handler of the field, and the
binding writes the last one when the field is left. The three fields show one content then, which
the last edit alone decides.
-/

namespace HwoodiwissHelper.Encoding

open Base64 Unicode

inductive Input
  | base64Cleartext
  | base64Encoded
  | base64UrlEncoded
  deriving DecidableEq, Repr

def Fields.bound (fields : Fields) : Input → Text
  | .base64Cleartext => fields.base64Cleartext
  | .base64Encoded => fields.base64Encoded
  | .base64UrlEncoded => fields.base64UrlEncoded

/-- `@bind`, when an input is left. -/
def onChange (fields : Fields) : Input → Text → Fields
  | .base64Cleartext, value => { fields with base64Cleartext := value }
  | .base64Encoded, value => { fields with base64Encoded := value }
  | .base64UrlEncoded, value => { fields with base64UrlEncoded := value }

/-- `@oninput`. -/
def onInput (fields : Fields) : Input → Option Text → Fields
  | .base64Cleartext, value => onBase64CleartextInputChanged fields value
  | .base64Encoded, value => onBase64EncodedInputChanged fields value
  | .base64UrlEncoded, value => onBase64UrlEncodedInputChanged fields value

/-- The values that are typed into an input one after another, up to one that stays. -/
structure Edit where
  input : Input
  drafts : List (Option Text)
  value : Text
  deriving DecidableEq, Repr

def Edit.type (fields : Fields) (e : Edit) : Fields :=
  onInput (e.drafts.foldl (onInput · e.input) fields) e.input (some e.value)

def Edit.apply (fields : Fields) (e : Edit) : Fields :=
  onChange (e.type fields) e.input e.value

inductive Action
  | edit (e : Edit)
  /-- Drafts, and then what the input showed before: leaving it is no change. -/
  | takeBack (input : Input) (drafts : List (Option Text))
  deriving DecidableEq, Repr

def act (fields : Fields) : Action → Fields
  | .edit e => e.apply fields
  | .takeBack input drafts => Edit.type fields ⟨input, drafts, fields.bound input⟩

def page (fields : Fields) (actions : List Action) : Fields := actions.foldl act fields

/-- What three fields in sync show: digits that end where bytes end, with any bits left over. -/
@[ext] structure Content where
  digits : List (Fin 64)
  length_mod : digits.length % 4 ≠ 1
  deriving DecidableEq

namespace Content

def bytes (c : Content) : List UInt8 := octets c.digits

def ofText (s : List Char) : Content := ⟨sextets (Unicode.utf8 s), length_sextets_mod _⟩

def asText (c : Content) : Content := ofText (ofUtf8 c.bytes)

/-- A draft of the cleartext that is taken back leaves the text, not the bytes. -/
def takenBack (c : Content) : Input → Content
  | .base64Cleartext => c.asText
  | .base64Encoded => c
  | .base64UrlEncoded => c

def fields (c : Content) : Fields where
  base64Cleartext := getString c.bytes
  base64Encoded := standard.complete c.digits
  base64UrlEncoded := c.digits.map urlSafe.digit

end Content

/-- The content that an edit is about: the text in UTF-8, or the digits that were typed. -/
def Edit.Means (e : Edit) (c : Content) : Prop :=
  match e.input with
  | .base64Cleartext => ∃ s, e.value = utf16 s ∧ c = Content.ofText s
  | .base64Encoded => e.value = standard.complete c.digits
  | .base64UrlEncoded => e.value = c.digits.map urlSafe.digit

def Content.After (c : Content) : Action → Content → Prop
  | .edit e, c' => e.Means c'
  | .takeBack input _, c' => c' = c.takenBack input

@[simp] theorem bound_onInput (fields : Fields) (input : Input) (value : Option Text) :
    (onInput fields input value).bound input = fields.bound input := by
  cases value with
  | none => cases input <;> rfl
  | some value =>
    cases input with
    | base64Cleartext => rfl
    | base64Encoded =>
      simp only [onInput, onBase64EncodedInputChanged, Fields.bound]
      split <;> rfl
    | base64UrlEncoded =>
      simp only [onInput, onBase64UrlEncodedInputChanged, Fields.bound]
      split <;> rfl

@[simp] theorem bound_drafts (fields : Fields) (input : Input) (drafts : List (Option Text)) :
    (drafts.foldl (onInput · input) fields).bound input = fields.bound input := by
  induction drafts generalizing fields with
  | nil => rfl
  | cons value drafts ih => rw [List.foldl_cons, ih, bound_onInput]

theorem onChange_bound (fields : Fields) (input : Input) :
    onChange fields input (fields.bound input) = fields := by
  cases input <;> rfl

/-- The handler and the binding together write all three fields. -/
theorem onChange_onInput (fields fields' : Fields) (input : Input) (value : Text) :
    onChange (onInput fields input (some value)) input value =
      onChange (onInput fields' input (some value)) input value := by
  cases input with
  | base64Cleartext => rfl
  | base64Encoded =>
    simp only [onInput, onBase64EncodedInputChanged]
    split <;> rfl
  | base64UrlEncoded =>
    simp only [onInput, onBase64UrlEncodedInputChanged]
    split <;> rfl

/-- So neither the drafts nor the fields before have any effect. -/
theorem Edit.apply_eq (fields fields' : Fields) (e : Edit) :
    e.apply fields = onChange (onInput fields' e.input (some e.value)) e.input e.value :=
  onChange_onInput _ fields' e.input e.value

theorem Edit.type_eq_apply {fields : Fields} {e : Edit} (h : e.value = fields.bound e.input) :
    e.type fields = e.apply fields := by
  have hbound : (e.type fields).bound e.input = e.value := by
    rw [Edit.type, bound_onInput, bound_drafts, h]
  rw [Edit.apply, ← hbound, onChange_bound]

theorem complete_injective {digits digits' : List (Fin 64)}
    (h : standard.complete digits = standard.complete digits') : digits = digits' := by
  have hdigits := congrArg (List.takeWhile (· ≠ standard.pad)) h
  rw [standard.takeWhile_complete, standard.takeWhile_complete] at hdigits
  exact standard.digit_injective.list_map hdigits

namespace Content

theorem fields_injective {c c' : Content} (h : c.fields = c'.fields) : c = c' := by
  have hencoded : standard.complete c.digits = standard.complete c'.digits :=
    congrArg Fields.base64Encoded h
  exact Content.ext (complete_injective hencoded)

theorem bytes_ofText (s : List Char) : (ofText s).bytes = Unicode.utf8 s :=
  octets_sextets (Unicode.utf8 s)

theorem fields_ofText (s : List Char) : (ofText s).fields = {
    base64Cleartext := utf16 s
    base64Encoded := toBase64String (Unicode.utf8 s)
    base64UrlEncoded := toUrlEncoded (toBase64String (Unicode.utf8 s)) } := by
  have hurl : toUrlEncoded (toBase64String (Unicode.utf8 s)) =
      (ofText s).digits.map urlSafe.digit := toUrlEncoded_complete (sextets (Unicode.utf8 s))
  rw [fields, bytes_ofText, getString_utf8, hurl]
  rfl

theorem fields_blank : (ofText []).fields = {} := rfl

theorem base64Bytes_complete (c : Content) :
    base64Bytes (standard.complete c.digits) = some c.bytes :=
  Encoding.base64Bytes_complete c.length_mod

theorem base64UrlBytes_digits (c : Content) :
    base64UrlBytes (c.digits.map urlSafe.digit) = some c.bytes :=
  Encoding.base64UrlBytes_digits c.length_mod

end Content

theorem apply_cleartext (fields : Fields) (drafts : List (Option Text)) (value : Text) :
    Edit.apply fields ⟨.base64Cleartext, drafts, value⟩ = {
      base64Cleartext := value
      base64Encoded := toBase64String (getBytes value)
      base64UrlEncoded := toUrlEncoded (toBase64String (getBytes value)) } :=
  Edit.apply_eq fields {} _

theorem apply_encoded (fields : Fields) (drafts : List (Option Text)) (c : Content) :
    Edit.apply fields ⟨.base64Encoded, drafts, standard.complete c.digits⟩ = c.fields := by
  rw [Edit.apply_eq fields {}]
  simp only [onInput]
  rw [onBase64EncodedInputChanged_of_accepts {} c.base64Bytes_complete, toUrlEncoded_complete]
  rfl

theorem apply_urlEncoded (fields : Fields) (drafts : List (Option Text)) (c : Content) :
    Edit.apply fields ⟨.base64UrlEncoded, drafts, c.digits.map urlSafe.digit⟩ = c.fields := by
  rw [Edit.apply_eq fields {}]
  simp only [onInput]
  rw [onBase64UrlEncodedInputChanged_of_accepts {} c.base64UrlBytes_digits, fromUrlEncoded_digits]
  rfl

/-- After an edit that stays the fields are in sync exactly when its value is text, digits with
their padding, or digits of the URL alphabet, according to the field. -/
theorem Edit.apply_eq_fields_iff (fields : Fields) (e : Edit) (c : Content) :
    e.apply fields = c.fields ↔ e.Means c := by
  obtain ⟨input, drafts, value⟩ := e
  cases input with
  | base64Cleartext =>
    rw [apply_cleartext]
    constructor
    · intro h
      have hclear : value = utf16 (ofUtf8 c.bytes) := congrArg Fields.base64Cleartext h
      have hencoded : standard.complete (sextets (getBytes value)) = standard.complete c.digits :=
        congrArg Fields.base64Encoded h
      rw [hclear, getBytes_utf16] at hencoded
      exact ⟨_, hclear, Content.ext (complete_injective hencoded).symm⟩
    · rintro ⟨s, rfl, rfl⟩
      rw [getBytes_utf16, Content.fields_ofText]
  | base64Encoded =>
    constructor
    · intro h
      exact congrArg Fields.base64Encoded h
    · rintro rfl
      exact apply_encoded fields drafts c
  | base64UrlEncoded =>
    constructor
    · intro h
      exact congrArg Fields.base64UrlEncoded h
    · rintro rfl
      exact apply_urlEncoded fields drafts c

@[simp] theorem page_nil (fields : Fields) : page fields [] = fields := rfl

@[simp] theorem page_cons (fields : Fields) (a : Action) (actions : List Action) :
    page fields (a :: actions) = page (act fields a) actions := rfl

theorem page_append (fields : Fields) (actions actions' : List Action) :
    page fields (actions ++ actions') = page (page fields actions) actions' :=
  List.foldl_append

theorem act_takeBack (c : Content) (input : Input) (drafts : List (Option Text)) :
    act c.fields (.takeBack input drafts) = (c.takenBack input).fields := by
  rw [act, Edit.type_eq_apply rfl]
  cases input with
  | base64Cleartext => exact (Edit.apply_eq_fields_iff _ _ _).mpr ⟨ofUtf8 c.bytes, rfl, rfl⟩
  | base64Encoded => exact apply_encoded c.fields drafts c
  | base64UrlEncoded => exact apply_urlEncoded c.fields drafts c

theorem act_eq_fields_iff (c c' : Content) (a : Action) :
    act c.fields a = c'.fields ↔ c.After a c' := by
  cases a with
  | edit e => exact e.apply_eq_fields_iff c.fields c'
  | takeBack input drafts =>
    rw [act_takeBack, Content.After]
    constructor
    · exact fun h => (Content.fields_injective h).symm
    · exact fun h => congrArg Content.fields h.symm

def Meaningful (run : List Action) : Prop := ∀ e, .edit e ∈ run → ∃ c, e.Means c

/-- The fields show some content after each action of a run. -/
def InSyncThroughout (fields : Fields) (run : List Action) : Prop :=
  ∀ before, before <+: run → ∃ c : Content, page fields before = c.fields

theorem inSyncThroughout_cons (c : Content) (a : Action) (run : List Action) :
    InSyncThroughout c.fields (a :: run) ↔
      ∃ c', c.After a c' ∧ InSyncThroughout c'.fields run := by
  constructor
  · intro h
    obtain ⟨c', hc'⟩ := h [a] ⟨run, rfl⟩
    refine ⟨c', (act_eq_fields_iff c c' a).mp hc', ?_⟩
    intro before hbefore
    obtain ⟨d, hd⟩ := h (a :: before) (List.prefix_cons_inj a |>.mpr hbefore)
    rw [page_cons, show act c.fields a = c'.fields from hc'] at hd
    exact ⟨d, hd⟩
  · rintro ⟨c', hafter, h⟩ before hbefore
    cases before with
    | nil => exact ⟨c, rfl⟩
    | cons b before =>
      obtain ⟨rfl, hprefix⟩ := List.cons_prefix_cons.mp hbefore
      rw [page_cons, (act_eq_fields_iff c c' b).mpr hafter]
      exact h before hprefix

/-- One edit about no content is enough to break the page, and nothing else does. -/
theorem inSyncThroughout_iff (c : Content) (run : List Action) :
    InSyncThroughout c.fields run ↔ Meaningful run := by
  induction run generalizing c with
  | nil =>
    constructor
    · intro _ e he
      cases he
    · intro _ before hbefore
      exact ⟨c, by rw [List.prefix_nil.mp hbefore, page_nil]⟩
  | cons a run ih =>
    have hstep : (∃ c', c.After a c' ∧ InSyncThroughout c'.fields run) ↔
        (∃ c', c.After a c') ∧ Meaningful run := by
      constructor
      · rintro ⟨c', hafter, h⟩
        exact ⟨⟨c', hafter⟩, (ih c').mp h⟩
      · rintro ⟨⟨c', hafter⟩, h⟩
        exact ⟨c', hafter, (ih c').mpr h⟩
    rw [inSyncThroughout_cons, hstep, Meaningful, Meaningful]
    cases a with
    | edit e => simp [Content.After]
    | takeBack input drafts => simp [Content.After]

theorem page_takenBack (c : Content) (backs : List (Input × List (Option Text))) :
    page c.fields (backs.map fun b => .takeBack b.1 b.2) =
      (if .base64Cleartext ∈ backs.map Prod.fst then c.asText else c).fields := by
  have hasText (c : Content) : c.asText.asText = c.asText := by
    rw [Content.asText, Content.asText, Content.bytes_ofText, ofUtf8_utf8]
  induction backs generalizing c with
  | nil => rfl
  | cons b backs ih =>
    obtain ⟨input, drafts⟩ := b
    rw [List.map_cons, page_cons, act_takeBack, ih]
    cases input with
    | base64Cleartext => simp [Content.takenBack, hasText]
    | base64Encoded =>
      simp only [Content.takenBack, List.map_cons, List.mem_cons, reduceCtorEq, false_or]
    | base64UrlEncoded =>
      simp only [Content.takenBack, List.map_cons, List.mem_cons, reduceCtorEq, false_or]

/-- From a page in sync, the fields stay in sync all the time exactly when each edit is about some
content. The last edit decides which one, whatever was shown before, and drafts that are taken back
change no more than bytes that are not text. -/
theorem fields_stay_in_sync (c : Content) (run : List Action) :
    (InSyncThroughout c.fields run ↔ Meaningful run) ∧
    ∀ fields e (backs : List (Input × List (Option Text))) d, e.Means d →
      page fields (run ++ .edit e :: backs.map fun b => .takeBack b.1 b.2) =
        (if .base64Cleartext ∈ backs.map Prod.fst then d.asText else d).fields := by
  refine ⟨inSyncThroughout_iff c run, ?_⟩
  intro fields e backs d hmeans
  have hedit : act (page fields run) (.edit e) = d.fields :=
    (e.apply_eq_fields_iff _ d).mpr hmeans
  rw [page_append, page_cons, hedit, page_takenBack]

/-- A byte that no text has, typed digit by digit. -/
def typedByte : Edit := ⟨.base64UrlEncoded, [some (text "_")], text "_w"⟩

def wrappedLine : Edit := ⟨.base64Encoded, [], text "QUJD\n"⟩

theorem not_means_wrappedLine (c : Content) : ¬ wrappedLine.Means c := by
  intro h
  have hmem : unit '\n' ∈ standard.complete c.digits := by
    rw [← h]
    decide
  rw [← standard.filter_complete] at hmem
  have hspace := (List.mem_filter.mp hmem).2
  exact absurd hspace (by decide)

theorem fields_stay_in_sync_byte :
    ¬ InSyncThroughout {} [.edit typedByte, .edit wrappedLine] ∧
    page {} [.edit wrappedLine, .edit typedByte, .takeBack .base64Encoded [none],
      .takeBack .base64Cleartext [some (text "x")]] = (Content.ofText [replacement]).fields := by
  have h := fields_stay_in_sync (Content.ofText [])
  constructor
  · rw [← Content.fields_blank, (h _).1]
    intro hmeaningful
    obtain ⟨c, hc⟩ := hmeaningful wrappedLine (by decide)
    exact not_means_wrappedLine c hc
  · have htyped : typedByte.Means ⟨[63, 48], by decide⟩ :=
      (by decide +kernel : text "_w" = [63, 48].map urlSafe.digit)
    have htext : ofUtf8 (octets [63, 48]) = [replacement] := by decide +kernel
    rw [← htext]
    exact (h [.edit wrappedLine]).2 {} typedByte
      [(.base64Encoded, [none]), (.base64Cleartext, [some (text "x")])] _ htyped

end HwoodiwissHelper.Encoding
