import HwoodiwissHelper.GitHub.WebhookSpecs

/-!
# What the signature filter accepts

The documented header is `sha256=` and the 64 hex digits of the HMAC of the body under the current
key. The filter cuts off seven code units whatever they are, and the validator compares the rest:
so a header with another beginning passes, and one that is too short makes the filter throw.
-/

namespace HwoodiwissHelper.GitHub

open Throwing

namespace Server

/-- The key that is configured; a configuration without one leaves the validator the key it has. -/
def webhookKey (s : Server) : Option (List UInt8) :=
  match s.configuration with
  | .ok { webhookKey := some webhookKey, .. } => some (utf8 webhookKey)
  | _ => s.keyBytes

def KeyCurrent (s : Server) : Prop := s.keyBytes = none ∨ s.keyBytes = s.webhookKey

inductive Reachable (p : Platform) : Server → Prop where
  | start (configuration : Except Exception GitHubConfiguration) :
      Reachable p ⟨configuration, none, none⟩
  | reload {s : Server} (h : Reachable p s)
      (configuration : Except Exception GitHubConfiguration) : Reachable p (s.reload configuration)
  | post {s : Server} (h : Reachable p s) (env : Environment) (request : WebhookRequest) :
      Reachable p (s.post p env request).2

theorem keyCurrent_reload (s : Server) (configuration : Except Exception GitHubConfiguration) :
    (s.reload configuration).KeyCurrent := by
  rcases configuration with ex | ⟨_ | webhookKey, logging, allowedBots⟩ <;>
    cases hkey : s.keyBytes <;> simp [KeyCurrent, reload, Server.webhookKey, hkey]

end Server

/-! Handling makes the validator's key at most, and the key it makes is the current one. -/

section Keeps

variable (p : Platform) (env : Environment)

def Context.KeyCurrent (c : Context) : Prop := c.server.KeyCurrent

theorem keeps_signatureValidator : Keeps Context.KeyCurrent signatureValidator := by
  intro c hc
  simp only [signatureValidator, wp_bind, wp_get, then_ok]
  cases hkey : c.server.keyBytes with
  | some keyBytes => exact hc
  | none =>
    simp only [wp_bind, wp_ofExcept]
    rcases hconfiguration : c.server.configuration with
      ex | ⟨_ | webhookKey, logging, allowedBots⟩
    · exact hc
    · exact hc
    · simp only [then_ok, wp_bind, wp_modify, wp_pure]
      exact .inr (by simp [Server.webhookKey, hconfiguration])

theorem keeps_emit (effect : Effect) : Keeps Context.KeyCurrent (emit effect) :=
  keeps_modify fun _ hc => hc

theorem keeps_onBody {α : Type} (m : BodyStream → Except Exception α × BodyStream) :
    Keeps Context.KeyCurrent (onBody m) := fun _ hc => hc

theorem silent_ofExcept {α : Type} (r : Except Exception α) :
    Silent (ofExcept r : Handling α) := fun c => (wp_ofExcept r _ c).mpr rfl

theorem keeps_githubOptionsValue : Keeps Context.KeyCurrent githubOptionsValue := by
  intro c hc
  simp only [githubOptionsValue, wp_bind, wp_get, then_ok, wp_ofExcept]
  cases c.server.githubOptions with
  | error ex => exact hc
  | ok configuration => exact hc

theorem keeps_getRequestBodyText : Keeps Context.KeyCurrent getRequestBodyText :=
  (keeps_onBody _).bind fun _ => keeps_onBody _

theorem keeps_deserializeAsync {α : Type}
    (deserialize : List UInt8 → Except Exception (Option α)) :
    Keeps Context.KeyCurrent (deserializeAsync deserialize) :=
  (keeps_onBody _).bind fun _ => (keeps_emit _).bind fun _ => (silent_ofExcept _).keeps

theorem keeps_logUnread (ex : Exception) : Keeps Context.KeyCurrent (logUnread ex) := by
  unfold logUnread
  split
  · exact keeps_getRequestBodyText.bind fun _ => (keeps_emit _).bind fun _ =>
      (silent_pure _).keeps
  · exact (silent_throw _).keeps

theorem keeps_getGithubEvent (githubEvent : String) :
    Keeps Context.KeyCurrent (getGithubEvent p githubEvent) := by
  refine Keeps.tryCatch ?_ keeps_logUnread
  split
  · exact (keeps_deserializeAsync _).bind fun _ => (silent_pure _).keeps
  · split
    · exact (keeps_deserializeAsync _).bind fun _ => (silent_pure _).keeps
    · exact (silent_pure _).keeps

theorem keeps_approveAllowedBot (data : PullRequestData) (pullRequest : PullRequestInfo) :
    Keeps Context.KeyCurrent (approveAllowedBot p env data pullRequest) := by
  apply (silent_deref _).keeps.bind
  intro user
  split
  · apply keeps_githubOptionsValue.bind
    intro configuration
    split
    · refine (silent_deref _).keeps.bind fun _ => (silent_deref _).keeps.bind fun _ =>
        (silent_deref _).keeps.bind fun _ => Keeps.tryCatch ?_ fun _ => (silent_pure _).keeps
      exact (keeps_emit _).bind fun _ => (silent_ofExcept _).keeps.bind fun _ =>
        (silent_pure _).keeps
    · exact (silent_pure _).keeps
  · exact (silent_pure _).keeps

theorem keeps_handlePullRequest {tagOwner : Repository → Handling Unit}
    (htag : ∀ repository, Silent (tagOwner repository)) (data : PullRequestData) :
    Keeps Context.KeyCurrent (handlePullRequest p env tagOwner data) :=
  (silent_deref _).keeps.bind fun _ => (silent_tagActivity env htag data _).keeps.bind fun _ =>
    (keeps_approveAllowedBot p env data _).bind fun _ => (silent_pure _).keeps

theorem keeps_handleAsync (handler : RequestHandler) (event : GitHubWebhookEvent) :
    Keeps Context.KeyCurrent (handleAsync p env handler event) := by
  apply (silent_tagEvent env event).keeps.bind
  intro _
  split
  · exact (silent_pure _).keeps
  · exact keeps_handlePullRequest p env
      (fun _ => (silent_deref _).bind fun _ => silent_pure _) _
  · exact keeps_handlePullRequest p env (fun _ => silent_pure _) _
  · exact (silent_throw _).keeps

theorem keeps_webhook (githubEvent : String) :
    Keeps Context.KeyCurrent (webhook p env githubEvent) := by
  refine Keeps.bind (fun _ hc => hc) fun _ => (silent_ofExcept _).keeps.bind fun configuration => ?_
  refine Keeps.bind ?_ fun _ => (keeps_getGithubEvent p githubEvent).bind fun event => ?_
  · unfold logRequest
    split
    · exact keeps_getRequestBodyText.bind fun _ => (keeps_emit _).bind fun _ => keeps_onBody _
    · exact (silent_pure _).keeps
  · simp only [dispatch]
    split
    · exact keeps_handleAsync p env _ _
    · exact (silent_pure _).keeps

theorem keeps_handleRequest (request : WebhookRequest) :
    Keeps Context.KeyCurrent (handleRequest p env request) := by
  apply keeps_signatureValidator.bind
  intro keyBytes
  split
  · refine (silent_sliceFrom7 _).keeps.bind fun signature => Keeps.bind ?_ fun valid => ?_
    · exact (keeps_onBody _).bind fun _ => (keeps_emit _).bind fun _ => (silent_pure _).keeps
    · split
      · split
        · exact keeps_webhook p env _
        · exact (silent_pure _).keeps
      · exact (silent_pure _).keeps
  · exact (silent_pure _).keeps

end Keeps

/-- In every run the validator works with the key that is configured. -/
theorem Server.Reachable.keyCurrent {p : Platform} {s : Server} (h : s.Reachable p) :
    s.KeyCurrent := by
  induction h with
  | start configuration => exact .inl rfl
  | reload _ configuration => exact Server.keyCurrent_reload _ configuration
  | post _ env request ih =>
    exact keeps_handleRequest p env request (Server.receive _ env request) ih

theorem eval_signatureValidator {c : Context} {key : List UInt8} (hc : c.server.KeyCurrent)
    (hkey : c.server.webhookKey = some key) :
    eval signatureValidator c =
      (.ok key, { c with server := { c.server with keyBytes := some key } }) := by
  obtain ⟨⟨configuration, keyBytes, options⟩, body, effects⟩ := c
  cases keyBytes with
  | some keyBytes =>
    have hcurrent : keyBytes = key := by
      rcases hc with hc | hc
      · cases hc
      · exact Option.some.inj (hc.trans hkey)
    subst hcurrent
    rfl
  | none =>
    simp only [Server.webhookKey] at hkey
    split at hkey
    next webhookKey logging allowedBots =>
      obtain rfl := Option.some.inj hkey
      rfl
    next => cases hkey

def hexValue (c : UInt16) : Option ℕ :=
  if 48 ≤ c.toNat ∧ c.toNat ≤ 57 then some (c.toNat - 48)
  else if 65 ≤ c.toNat ∧ c.toNat ≤ 70 then some (c.toNat - 55)
  else if 97 ≤ c.toNat ∧ c.toNat ≤ 102 then some (c.toNat - 87)
  else none

def fromHexDigits : List UInt16 → Option (List UInt8)
  | [] => some []
  | [_] => none
  | high :: low :: digits => do
    let h ← hexValue high
    let l ← hexValue low
    let bytes ← fromHexDigits digits
    return UInt8.ofNat (16 * h + l) :: bytes

def upperAscii (c : UInt16) : UInt16 := if 97 ≤ c ∧ c ≤ 122 then c - 32 else c

def hexUnit (n : ℕ) : UInt16 := UInt16.ofNat (hexDigit n).toNat

theorem toNat_upperAscii (c : UInt16) :
    (upperAscii c).toNat = if 97 ≤ c.toNat ∧ c.toNat ≤ 122 then c.toNat - 32 else c.toNat := by
  have hletter : 97 ≤ c ∧ c ≤ 122 ↔ 97 ≤ c.toNat ∧ c.toNat ≤ 122 := by
    simp [UInt16.le_iff_toNat_le]
  unfold upperAscii
  simp only [hletter]
  split
  next h =>
    have hle : (32 : UInt16) ≤ c := UInt16.le_iff_toNat_le.mpr (Nat.le_trans (by decide) h.1)
    exact UInt16.toNat_sub_of_le c 32 hle
  next => rfl

theorem toNat_hexDigit {n : ℕ} (hn : n < 16) :
    (hexDigit n).toNat = if n < 10 then 48 + n else 55 + n := by
  have hdigits : ∀ n < 16, (hexDigit n).toNat = if n < 10 then 48 + n else 55 + n := by decide
  exact hdigits n hn

theorem toNat_hexUnit {n : ℕ} (hn : n < 16) :
    (hexUnit n).toNat = if n < 10 then 48 + n else 55 + n := by
  rw [hexUnit, toNat_hexDigit hn]
  exact UInt16.toNat_ofNat_of_lt' (by simp only [UInt16.size]; split <;> omega)

theorem utf16Char_hexDigit {n : ℕ} (hn : n < 16) :
    Unicode.utf16Char (hexDigit n) = [hexUnit n] := by
  apply if_pos
  rw [toNat_hexDigit hn]
  split <;> omega

theorem hexDigits_lt (b : UInt8) : b.toNat / 16 < 16 ∧ b.toNat % 16 < 16 := by
  have hb := b.toNat_lt
  omega

theorem asMemory_toHexString (bytes : List UInt8) :
    asMemory (toHexString bytes) =
      bytes.flatMap fun b => [hexUnit (b.toNat / 16), hexUnit (b.toNat % 16)] := by
  rw [asMemory, Unicode.utf16, toHexString, String.toList_ofList, List.flatMap_assoc]
  congr 1
  funext b
  obtain ⟨hhigh, hlow⟩ := hexDigits_lt b
  simp [utf16Char_hexDigit hhigh, utf16Char_hexDigit hlow]

theorem hexValue_eq_some {c : UInt16} {n : ℕ} :
    hexValue c = some n ↔ n < 16 ∧ upperAscii c = hexUnit n := by
  have hdigit : n < 16 → (upperAscii c = hexUnit n ↔
      (upperAscii c).toNat = if n < 10 then 48 + n else 55 + n) := by
    intro hn
    rw [← UInt16.toNat_inj, toNat_hexUnit hn]
  rw [and_congr_right hdigit, toNat_upperAscii, hexValue]
  grind

theorem fromHexDigits_eq_some {digits : List UInt16} {bytes : List UInt8} :
    fromHexDigits digits = some bytes ↔
      digits.map upperAscii = asMemory (toHexString bytes) := by
  rw [asMemory_toHexString]
  fun_induction fromHexDigits digits generalizing bytes with
  | case1 => cases bytes <;> simp
  | case2 c => cases bytes <;> simp
  | case3 high low digits ih =>
    cases bytes with
    | nil => simp [Option.bind_eq_some_iff]
    | cons b bytes =>
      obtain ⟨hhigh, hlow⟩ := hexDigits_lt b
      simp only [Option.bind_eq_bind, Option.bind_eq_some_iff, hexValue_eq_some, Option.pure_def,
        Option.some.injEq, List.cons.injEq, List.map_cons, List.flatMap_cons, List.cons_append,
        List.nil_append]
      constructor
      · rintro ⟨h, ⟨hh, hhigh⟩, l, ⟨hl, hlow⟩, rest, hrest, rfl, rfl⟩
        have hbyte : (UInt8.ofNat (16 * h + l)).toNat = 16 * h + l :=
          UInt8.toNat_ofNat_of_lt' (by simp only [UInt8.size]; omega)
        have hdiv : (16 * h + l) / 16 = h := by omega
        have hmod : (16 * h + l) % 16 = l := by omega
        rw [hbyte, hdiv, hmod]
        exact ⟨‹_›, ‹_›, ih.mp hrest⟩
      · rintro ⟨hhighUnit, hlowUnit, hrest⟩
        have hbyte : 16 * (b.toNat / 16) + b.toNat % 16 = b.toNat := Nat.div_add_mod b.toNat 16
        refine ⟨_, ⟨hhigh, hhighUnit⟩, _, ⟨hlow, hlowUnit⟩, bytes, ih.mpr hrest, ?_, rfl⟩
        rw [hbyte, UInt8.ofNat_toNat]

/-- The documented behaviour of HMAC-SHA256, and of a comparison of digits that ignores case. -/
structure Platform.AsDocumented (p : Platform) : Prop where
  digest_length : ∀ key message, (p.hmacSha256 key message).length = 32
  equalsIgnoreCase_digits : ∀ signature bytes,
    p.equalsIgnoreCase signature (asMemory (toHexString bytes)) = true ↔
      signature.map upperAscii = (asMemory (toHexString bytes)).map upperAscii

/-- `sha256=` and the hex digits of the HMAC of the body. -/
def DocumentedSignature (p : Platform) (key body : List UInt8) (value : String) : Prop :=
  ∃ digits, asMemory value = asMemory "sha256=" ++ digits ∧ digits.length = 64 ∧
    fromHexDigits digits = some (p.hmacSha256 key body)

section Filter

variable {p : Platform} {buffer : RentedBuffer} {c : Context} {key bytes : List UInt8}

def Context.withKey (c : Context) (key : List UInt8) : Context :=
  { c with server := { c.server with keyBytes := some key } }

theorem eval_filter (hcurrent : c.server.KeyCurrent) (hkey : c.server.webhookKey = some key)
    (signature : List String) (next : Handling Response) :
    eval (validateGithubSecret p buffer signature next) c =
      eval (match signature with
        | [value] => do
          let signature ← sliceFrom7 (asMemory value)
          if ← validateSignatureAsync p key buffer signature then
            next
          else
            return .badRequest
        | _ => return .badRequest) (c.withKey key) := by
  rw [validateGithubSecret, eval_bind_ok (eval_signatureValidator hcurrent hkey)]
  rfl

theorem filter_refuses (hcurrent : c.server.KeyCurrent) (hkey : c.server.webhookKey = some key)
    {signature : List String} (h : ∀ value, signature ≠ [value]) (next : Handling Response) :
    eval (validateGithubSecret p buffer signature next) c = (.ok .badRequest, c.withKey key) := by
  rw [eval_filter hcurrent hkey]
  match signature with
  | [] => rfl
  | [value] => exact absurd rfl (h value)
  | _ :: _ :: _ => rfl

theorem filter_throws (p : Platform) (buffer : RentedBuffer) (hcurrent : c.server.KeyCurrent)
    (hkey : c.server.webhookKey = some key)
    {value : String} (h : ¬ 7 ≤ (asMemory value).length) :
    ∃ ex, ∀ next, eval (validateGithubSecret p buffer [value] next) c =
      (.error ex, c.withKey key) := by
  refine ⟨⟨"ArgumentOutOfRangeException", ["ArgumentException"]⟩, fun next => ?_⟩
  simp only [eval_filter hcurrent hkey, sliceFrom7, if_neg h]
  rfl

/-- What a header of seven code units or more leads to: its rest is compared, if the body can be
read. -/
theorem filter_compares (p : Platform) (buffer : RentedBuffer) (hc : c.Rewound bytes)
    (hcurrent : c.server.KeyCurrent) (hkey : c.server.webhookKey = some key) {value : String}
    (h : 7 ≤ (asMemory value).length) :
    (BodyStream.Readable buffer.bytes.length c.body.arrivals bytes.length ∧
      ∃ c', c'.server = (c.withKey key).server ∧ c'.Rewound bytes ∧
        ∀ next, eval (validateGithubSecret p buffer [value] next) c =
          if p.equalsIgnoreCase ((asMemory value).drop 7)
              (asMemory (toHexString (p.hmacSha256 key bytes))) then
            eval next c'
          else
            (.ok .badRequest, c')) ∨
    (¬ BodyStream.Readable buffer.bytes.length c.body.arrivals bytes.length ∧
      ∃ ex c', ∀ next, eval (validateGithubSecret p buffer [value] next) c = (.error ex, c')) := by
  have hc₁ : (c.withKey key).Rewound bytes := ⟨hc.1, hc.2, hc.3⟩
  have hslice : eval (sliceFrom7 (asMemory value)) (c.withKey key) =
      (.ok ((asMemory value).drop 7), c.withKey key) := by
    rw [sliceFrom7, if_pos h]
    rfl
  have hfilter (next : Handling Response) :
      eval (validateGithubSecret p buffer [value] next) c =
        eval (do
          if ← validateSignatureAsync p key buffer ((asMemory value).drop 7) then
            next
          else
            return .badRequest) (c.withKey key) := by
    simp only [eval_filter hcurrent hkey]
    exact eval_bind_ok hslice _
  rcases heval : eval (validateSignatureAsync p key buffer ((asMemory value).drop 7))
    (c.withKey key) with ⟨r, c'⟩
  have hspec := (wp_of_eval heval _).mp (validateSignatureAsync_spec p key buffer _ hc₁)
  have hok := (wp_of_eval heval _).mp (validateSignatureAsync_ok_iff p key buffer _ hc₁)
  obtain ⟨hserver, hc', ⟨⟨ex, rfl⟩, -⟩ | ⟨result, rfl, hresult, -⟩⟩ := hspec
  · refine .inr ⟨mt hok.mpr (by simp), ex, c', fun next => ?_⟩
    rw [hfilter]
    exact eval_bind_error heval _
  · refine .inl ⟨hok.mp ⟨result, rfl⟩, c', hserver, hc', fun next => ?_⟩
    rw [hfilter, eval_bind_ok heval, ← hresult]
    cases result <;> rfl

theorem upperAscii_hexUnit {n : ℕ} (hn : n < 16) : upperAscii (hexUnit n) = hexUnit n := by
  rw [← UInt16.toNat_inj, toNat_upperAscii, toNat_hexUnit hn]
  grind

theorem map_upperAscii_toHexString (bytes : List UInt8) :
    (asMemory (toHexString bytes)).map upperAscii = asMemory (toHexString bytes) := by
  rw [asMemory_toHexString, List.map_flatMap]
  congr 1
  funext b
  obtain ⟨hhigh, hlow⟩ := hexDigits_lt b
  simp [upperAscii_hexUnit hhigh, upperAscii_hexUnit hlow]

theorem length_of_fromHexDigits {digits : List UInt16}
    (h : fromHexDigits digits = some bytes) : digits.length = 2 * bytes.length := by
  have hdigits := congrArg List.length (fromHexDigits_eq_some.mp h)
  rw [List.length_map, asMemory_toHexString] at hdigits
  simpa [Nat.mul_comm] using hdigits

/-- The comparison reads the digest from the rest, in either case. -/
theorem Platform.AsDocumented.equalsIgnoreCase_iff (hp : p.AsDocumented)
    (signature : List UInt16) :
    p.equalsIgnoreCase signature (asMemory (toHexString bytes)) = true ↔
      fromHexDigits signature = some bytes := by
  rw [hp.equalsIgnoreCase_digits, map_upperAscii_toHexString, fromHexDigits_eq_some]

/-- A header is as documented when its first seven code units are, and its rest is the digest. -/
theorem documentedSignature_iff (hp : p.AsDocumented) (value : String) :
    DocumentedSignature p key bytes value ↔
      (asMemory value).take 7 = asMemory "sha256=" ∧
        fromHexDigits ((asMemory value).drop 7) = some (p.hmacSha256 key bytes) := by
  constructor
  · rintro ⟨digits, hvalue, -, hdigits⟩
    rw [hvalue]
    exact ⟨rfl, hdigits⟩
  · rintro ⟨htake, hdrop⟩
    refine ⟨(asMemory value).drop 7, ?_, ?_, hdrop⟩
    · rw [← htake, List.take_append_drop]
    · rw [length_of_fromHexDigits hdrop, hp.digest_length]

end Filter

/-- The filter calls its continuation for the documented header, and answers every other one by
itself. -/
structure AcceptsDocumented (p : Platform) (buffer : RentedBuffer) (key : List UInt8)
    (request : WebhookRequest) (c : Context) : Prop where
  accepts : ∀ value, request.signature = [value] →
    DocumentedSignature p key request.body value →
      ∃ c', ∀ next, eval (validateGithubSecret p buffer request.signature next) c = eval next c'
  rejects : (∀ value, request.signature = [value] →
      ¬ DocumentedSignature p key request.body value) →
    ∃ c', ∀ next, eval (validateGithubSecret p buffer request.signature next) c =
      (.ok .badRequest, c')

/-- A single header can be cut, has the documented beginning if its rest is the digest, and comes
with a body that can be read. -/
def CutsSafely (p : Platform) (env : Environment) (key : List UInt8) (request : WebhookRequest) :
    Prop :=
  ∀ value, request.signature = [value] →
    7 ≤ (asMemory value).length ∧
    ((asMemory value).take 7 = asMemory "sha256=" ∨
      fromHexDigits ((asMemory value).drop 7) ≠ some (p.hmacSha256 key request.body)) ∧
    BodyStream.Readable env.buffer.bytes.length env.arrivals request.body.length

section Accepts

variable {p : Platform} {env : Environment} {key : List UInt8} {request : WebhookRequest}
  {c : Context} {value : String}

theorem AcceptsDocumented.returns {buffer : RentedBuffer}
    (h : AcceptsDocumented p buffer key request c) :
    ∃ response c', eval (validateGithubSecret p buffer request.signature (pure .noContent)) c =
      (.ok response, c') := by
  by_cases hdocumented : ∃ value, request.signature = [value] ∧
      DocumentedSignature p key request.body value
  · obtain ⟨value, hvalue, hdocumented⟩ := hdocumented
    obtain ⟨c', hnext⟩ := h.accepts value hvalue hdocumented
    exact ⟨.noContent, c', hnext _⟩
  · obtain ⟨c', hrejects⟩ := h.rejects fun value hvalue h' => hdocumented ⟨value, hvalue, h'⟩
    exact ⟨.badRequest, c', hrejects _⟩

theorem acceptsDocumented_of_not_single (hcurrent : c.server.KeyCurrent)
    (hkey : c.server.webhookKey = some key) (h : ∀ value, request.signature ≠ [value]) :
    AcceptsDocumented p env.buffer key request c where
  accepts value hvalue := absurd hvalue (h value)
  rejects _ := ⟨c.withKey key, filter_refuses hcurrent hkey h⟩

theorem not_acceptsDocumented_of_short (hcurrent : c.server.KeyCurrent)
    (hkey : c.server.webhookKey = some key) (hvalue : request.signature = [value])
    (hshort : ¬ 7 ≤ (asMemory value).length) : ¬ AcceptsDocumented p env.buffer key request c := by
  intro h
  obtain ⟨response, c', hreturns⟩ := h.returns
  obtain ⟨ex, hthrows⟩ := filter_throws p env.buffer hcurrent hkey hshort
  rw [hvalue, hthrows] at hreturns
  cases hreturns

/-- A header of seven code units or more is treated as documented exactly when its beginning is
documented, or its rest is refused, and the body can be read. -/
theorem acceptsDocumented_single_iff (hp : p.AsDocumented) (hc : c.Rewound request.body)
    (hcurrent : c.server.KeyCurrent) (hkey : c.server.webhookKey = some key)
    (hvalue : request.signature = [value]) (hlong : 7 ≤ (asMemory value).length) :
    AcceptsDocumented p env.buffer key request c ↔
      ((asMemory value).take 7 = asMemory "sha256=" ∨
        fromHexDigits ((asMemory value).drop 7) ≠ some (p.hmacSha256 key request.body)) ∧
      BodyStream.Readable env.buffer.bytes.length c.body.arrivals request.body.length := by
  rcases filter_compares p env.buffer hc hcurrent hkey hlong with
    ⟨hreadable, c', -, -, hfilter⟩ | ⟨hunreadable, ex, c', hfilter⟩
  · rw [and_iff_left hreadable]
    simp only [hp.equalsIgnoreCase_iff, ← hvalue] at hfilter
    by_cases hdigest : fromHexDigits ((asMemory value).drop 7) =
      some (p.hmacSha256 key request.body)
    · have hiff : DocumentedSignature p key request.body value ↔
          (asMemory value).take 7 = asMemory "sha256=" := by
        rw [documentedSignature_iff hp, and_iff_left hdigest]
      simp only [hdigest, if_true] at hfilter
      rw [or_iff_left (by simp [hdigest]), ← hiff]
      constructor
      · intro h
        by_contra hdocumented
        obtain ⟨c'', hrejects⟩ := h.rejects (by simpa [hvalue] using hdocumented)
        have hnext : eval (pure Response.noContent : Handling Response) c' =
            (.ok .badRequest, c'') := (hfilter _).symm.trans (hrejects _)
        cases hnext
      · intro hdocumented
        refine ⟨fun _ _ _ => ⟨c', hfilter⟩, fun h => absurd hdocumented (h value hvalue)⟩
    · have hdocumented : ¬ DocumentedSignature p key request.body value := by
        rw [documentedSignature_iff hp]
        exact fun h => hdigest h.2
      simp only [hdigest, if_false] at hfilter
      refine iff_of_true ⟨?_, fun _ => ⟨c', hfilter⟩⟩ (.inr hdigest)
      intro value' hvalue'
      obtain rfl : value = value' := List.singleton_inj.mp (hvalue.symm.trans hvalue')
      exact fun h => absurd h hdocumented
  · refine iff_of_false ?_ fun h => hunreadable h.2
    intro h
    obtain ⟨response, c'', hreturns⟩ := h.returns
    rw [hvalue, hfilter] at hreturns
    cases hreturns

end Accepts

/-- The filter lets the documented signature through and answers every other one by itself, exactly
as far as headers are cut safely. -/
theorem accepts_documented_iff {p : Platform} (hp : p.AsDocumented) {s : Server}
    (hs : s.Reachable p) {key : List UInt8} (hkey : s.webhookKey = some key) (env : Environment)
    (request : WebhookRequest) :
    AcceptsDocumented p env.buffer key request (s.receive env request) ↔
      CutsSafely p env key request := by
  have hc : (s.receive env request).Rewound request.body := ⟨rfl, rfl, rfl⟩
  have hcurrent : (s.receive env request).server.KeyCurrent := hs.keyCurrent
  by_cases hsingle : ∃ value, request.signature = [value]
  · obtain ⟨value, hvalue⟩ := hsingle
    have hsafe : CutsSafely p env key request ↔ 7 ≤ (asMemory value).length ∧
        ((asMemory value).take 7 = asMemory "sha256=" ∨
          fromHexDigits ((asMemory value).drop 7) ≠ some (p.hmacSha256 key request.body)) ∧
        BodyStream.Readable env.buffer.bytes.length env.arrivals request.body.length := by
      simp [CutsSafely, hvalue]
    rw [hsafe]
    by_cases hlong : 7 ≤ (asMemory value).length
    · rw [and_iff_right hlong]
      exact acceptsDocumented_single_iff hp hc hcurrent hkey hvalue hlong
    · exact iff_of_false (not_acceptsDocumented_of_short hcurrent hkey hvalue hlong)
        fun h => hlong h.1
  · have hmany : ∀ value, request.signature ≠ [value] := fun value h => hsingle ⟨value, h⟩
    exact iff_of_true (acceptsDocumented_of_not_single hcurrent hkey hmany)
      fun value h => absurd h (hmany value)

/-- The platform, as far as this delivery asks it. -/
def helloPlatform : Platform where
  hmacSha256 key message :=
    if key = utf8 "It's a Secret to Everybody" ∧ message = utf8 "Hello, World!" then
      [117, 113, 7, 234, 14, 178, 80, 159, 194, 17, 34, 28, 206, 152, 75, 138, 55, 87, 11, 109,
        117, 134, 194, 44, 70, 244, 55, 156, 139, 4, 62, 23]
    else
      List.replicate 32 0
  ordinalUpper := List.map upperAscii
  deserializeWorkflowRun _ := .error ⟨"JsonException", []⟩
  deserializePullRequest _ := .error ⟨"JsonException", []⟩

def helloServer : Server where
  configuration := .ok ⟨some "It's a Secret to Everybody", false, some []⟩
  keyBytes := none
  options := none

def helloEnvironment : Environment where
  arrivals := [.upTo 4]
  buffer := ⟨List.replicate 4096 0, Nat.le_of_eq List.length_replicate.symm⟩
  startActivity := fun _ => false
  createPullRequestReview := fun _ => .ok (.success ())

def helloRequest (signature : List String) : WebhookRequest where
  githubEvent := ["ping"]
  signature := signature
  body := utf8 "Hello, World!"

theorem helloPlatform_asDocumented : helloPlatform.AsDocumented where
  digest_length key message := by
    unfold helloPlatform
    simp only
    split <;> rfl
  equalsIgnoreCase_digits signature bytes := beq_iff_eq

theorem helloServer_webhookKey :
    helloServer.webhookKey = some (utf8 "It's a Secret to Everybody") := rfl

theorem accepts_documented_hello :
    AcceptsDocumented helloPlatform helloEnvironment.buffer (utf8 "It's a Secret to Everybody")
      (helloRequest ["sha256=757107ea0eb2509fc211221cce984b8a37570b6d7586c22c46f4379c8b043e17"])
      (helloServer.receive helloEnvironment (helloRequest
        ["sha256=757107ea0eb2509fc211221cce984b8a37570b6d7586c22c46f4379c8b043e17"])) := by
  refine (accepts_documented_iff helloPlatform_asDocumented (.start _) helloServer_webhookKey
    helloEnvironment _).mpr ?_
  intro value hvalue
  obtain rfl := List.singleton_inj.mp hvalue
  exact ⟨by decide, .inl (by decide), .inr trivial⟩

/-- A header that is too short makes the filter throw, and one for another hash is accepted. -/
theorem short_signature_throws :
    ¬ AcceptsDocumented helloPlatform helloEnvironment.buffer (utf8 "It's a Secret to Everybody")
        (helloRequest ["sha1=0"]) (helloServer.receive helloEnvironment (helloRequest ["sha1=0"])) ∧
      ¬ AcceptsDocumented helloPlatform helloEnvironment.buffer (utf8 "It's a Secret to Everybody")
        (helloRequest ["sha512=757107ea0eb2509fc211221cce984b8a37570b6d7586c22c46f4379c8b043e17"])
        (helloServer.receive helloEnvironment (helloRequest
          ["sha512=757107ea0eb2509fc211221cce984b8a37570b6d7586c22c46f4379c8b043e17"])) := by
  constructor
  · exact not_acceptsDocumented_of_short (.inl rfl) helloServer_webhookKey rfl (by decide)
  · rw [acceptsDocumented_single_iff helloPlatform_asDocumented ⟨rfl, rfl, rfl⟩ (.inl rfl)
      helloServer_webhookKey rfl (by decide)]
    exact fun h => absurd h.1 (by decide)

end HwoodiwissHelper.GitHub
