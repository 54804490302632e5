import HwoodiwissHelper.GitHub.GitHubAppAuthProvider
import HwoodiwissHelper.Infrastructure.TokenRace

/-!
# Concurrent requests for the JWT

One provider serves the whole application, and nothing keeps two calls of `GetGithubJwt` apart.
A token that is late to its field may replace a newer one and be taken for as long as that one
lives; it is late by no more than the call that made it was.
-/

namespace HwoodiwissHelper.GitHub

open Infrastructure Threads Transition

structure JwtAdvance where
  utcNow : ℤ
  currentValue : Except Exception AppConfiguration

section Provider

variable {ι Rsa Token : Type} [DecidableEq ι] (m : IdentityModel Rsa Token) (localOffset : ℤ)

def JwtAdvance.generated (e : JwtAdvance) : Except Exception Token :=
  generateJwt m ⟨e.utcNow, e.utcNow, e.currentValue⟩

/-- `GenerateJwt` has no state of its own, so it is one action. -/
def JwtAdvance.toAdvance (e : JwtAdvance) : Advance Token := ⟨e.utcNow, e.generated m⟩

def advanceJwt (e : JwtAdvance) : SharedToken Token → GetOrRenew Token →
    Option (SharedToken Token × GetOrRenew Token) :=
  GetOrRenew.advance localOffset (jwtExpiration m) (e.toAdvance m)

variable (ι Token) in
def jwtProvider (utcNow : ℤ) : Config ι (SharedToken Token) (GetOrRenew Token) :=
  ⟨⟨{}, utcNow⟩, fun _ => .called⟩

/-- The clock does not go back, and a token is assigned soon after its second reading. -/
structure Punctual (delay : ℤ) (e : JwtAdvance) (s : SharedToken Token)
    (call : GetOrRenew Token) : Prop where
  clock : s.utcNow ≤ e.utcNow
  assigned : ∀ issuedAt ∈ call.unassigned, e.utcNow ≤ issuedAt + delay

instance (delay : ℤ) (e : JwtAdvance) (s : SharedToken Token) (call : GetOrRenew Token) :
    Decidable (Punctual delay e s call) :=
  decidable_of_iff
    (s.utcNow ≤ e.utcNow ∧ ∀ issuedAt ∈ call.unassigned, e.utcNow ≤ issuedAt + delay)
    ⟨fun h => ⟨h.1, h.2⟩, fun h => ⟨h.clock, h.assigned⟩⟩

theorem second_nonneg : 0 ≤ second := by decide

theorem second_le_lifetime {localOffset : ℤ} (hoffset : localOffset ≤ 8) :
    second ≤ (9 - localOffset) * minute - 30 * second := by
  simp only [minute, second]
  omega

def jwtSource {localOffset delay : ℤ} (hoffset : localOffset ≤ 8) (hdelay : 0 ≤ delay)
    (events : List (ι × JwtAdvance)) : TokenSource Token where
  localOffset := localOffset
  expirationFactory := jwtExpiration m
  lifetime := (9 - localOffset) * minute - 30 * second
  slack := second
  delay := delay
  slack_nonneg := second_nonneg
  slack_le_lifetime := second_le_lifetime hoffset
  delay_nonneg := hdelay
  Made token := ∃ e ∈ events, e.2.generated m = .ok token
  Thrown ex := ∃ e ∈ events, e.2.generated m = .error ex

variable {m localOffset} {delay : ℤ} {hoffset : localOffset ≤ 8} {hdelay : 0 ≤ delay}

omit [DecidableEq ι] in
theorem jwtSource_expiry (hm : m.AsDocumented localOffset) (events : List (ι × JwtAdvance))
    (token : Token) :
    (jwtSource m hoffset hdelay events).expiry token = m.expires token - 30 * second := by
  change (jwtExpiration m token).toDateTimeOffset localOffset = _
  rw [jwtExpiration, hm.validTo_eq]
  simp only [DateTime.addSeconds, DateTime.toDateTimeOffset, second]
  omega

omit [DecidableEq ι] in
theorem Punctual.timely (hm : m.AsDocumented localOffset) {events : List (ι × JwtAdvance)}
    {e : ι × JwtAdvance} (hmem : e ∈ events) {s : SharedToken Token} {call : GetOrRenew Token}
    (h : Punctual delay e.2 s call) :
    (jwtSource m hoffset hdelay events).Timely (e.2.toAdvance m) s call where
  clock := h.clock
  made token htoken := by
    have hexpires := expires_of_generateJwt hm htoken
    refine ⟨⟨e, hmem, htoken⟩, ?_⟩
    rw [jwtSource_expiry hm, hexpires]
    simp only [jwtSource, JwtAdvance.toAdvance, unixEpoch, minute, second]
    omega
  thrown ex hex := ⟨e, hmem, hex⟩
  assigned := h.assigned

/-- A returned token was made by one of the calls, and lives for nearly 30 seconds from the
reading of the clock that the call answers for; what escapes was thrown by the factory. -/
theorem concurrent_jwt_lives (hm : m.AsDocumented localOffset) (hoffset : localOffset ≤ 8)
    (hdelay : 0 ≤ delay) {utcNow : ℤ} (hstart : 0 ≤ utcNow) {events : List (ι × JwtAdvance)}
    (hpunctual : AlongThreads (advanceJwt m localOffset) (Punctual delay)
      (jwtProvider ι Token utcNow) events)
    {c : Config ι (SharedToken Token) (GetOrRenew Token)}
    (hr : run (step (advanceJwt m localOffset)) (jwtProvider ι Token utcNow) events = .ok c)
    (i : ι) :
    (∀ token readAt, c.threads i = .returned token readAt → ∃ t, token = some t ∧
      (∃ e ∈ events, e.2.generated m = .ok t) ∧ readAt + 29 * second ≤ m.expires t + delay) ∧
    ∀ ex, c.threads i = .threw ex →
      (∃ e ∈ events, e.2.generated m = .error ex) ∨ 0 < localOffset := by
  let source := jwtSource m hoffset hdelay events
  have houtline : Outline (advanceJwt m localOffset)
      (fun e => source.Timely (e.toAdvance m)) source.Fits (fun _ : ι => source.Stands) :=
    (source.outline ι).comap (JwtAdvance.toAdvance m)
  have htimely : AlongThreads (advanceJwt m localOffset)
      (fun e => source.Timely (e.toAdvance m)) (jwtProvider ι Token utcNow) events := by
    apply hpunctual.mem.imp (I := fun _ => True) (fun _ _ _ _ _ _ => trivial) _ trivial
    intro c e _ hpunctual
    exact hpunctual.1.timely hm hpunctual.2
  have hmin : -(localOffset * minute) ≤ utcNow + ((9 - localOffset) * minute - 30 * second) := by
    simp only [minute, second]
    omega
  have hstands : source.Stands c.shared (c.threads i) :=
    (houtline.run (TokenSource.holds_start hstart hmin) htimely hr).thread i
  constructor
  · intro token readAt hreturned
    rw [hreturned] at hstands
    obtain ⟨t, htoken, hmade, hlives⟩ := hstands
    refine ⟨t, htoken, hmade, ?_⟩
    rw [jwtSource_expiry hm] at hlives
    change readAt ≤ m.expires t - 30 * second + second + delay at hlives
    simp only [second] at hlives ⊢
    omega
  · intro ex hthrew
    rw [hthrew] at hstands
    exact hstands

end Provider

def tenSecondsModel : IdentityModel Unit ℤ where
  importFromPem _ := .ok ()
  createToken tokenDesc :=
    if tokenDesc.expires = ⟨newYear + 9 * minute, .unspecified⟩ then
      .ok "eyJhbGciOiJSUzI1NiJ9.1735690140.c2lnbmF0dXJl"
    else if tokenDesc.expires = ⟨newYear + 10 * second + 9 * minute, .unspecified⟩ then
      .ok "eyJhbGciOiJSUzI1NiJ9.1735690150.c2lnbmF0dXJl"
    else
      .error ⟨"SecurityTokenException", []⟩
  jsonWebToken jwtText :=
    if jwtText = "eyJhbGciOiJSUzI1NiJ9.1735690140.c2lnbmF0dXJl" then
      .ok 1735690140
    else if jwtText = "eyJhbGciOiJSUzI1NiJ9.1735690150.c2lnbmF0dXJl" then
      .ok 1735690150
    else
      .error ⟨"SecurityTokenMalformedException", []⟩
  encodedToken token := s!"eyJhbGciOiJSUzI1NiJ9.{token}.c2lnbmF0dXJl"
  exp token := token
  validTo token := ⟨unixEpoch + token * second, .utc⟩

theorem tenSecondsModel_asDocumented : tenSecondsModel.AsDocumented 0 where
  exp_eq tokenDesc jwtText token hcreate hparse := by
    simp only [tenSecondsModel] at hcreate hparse
    split at hcreate
    next hexpires =>
      cases hcreate
      cases hparse
      rw [hexpires]
      decide
    next =>
      split at hcreate
      next hexpires =>
        cases hcreate
        cases hparse
        rw [hexpires]
        decide
      next => cases hcreate
  validTo_eq _ := rfl

def lateAdvance (seconds ticks : ℤ) : JwtAdvance :=
  ⟨newYear + seconds * second + ticks, .ok ⟨some "7", some "-----BEGIN"⟩⟩

/-- Two calls find no token. The second one has stored its token, made ten seconds later, when
the first one stores its own; a third call then finds the older token beside the later time. -/
def lateAdvances : List (ℕ × JwtAdvance) :=
  [(0, lateAdvance 0 0), (1, lateAdvance 0 0), (0, lateAdvance 0 0), (1, lateAdvance 10 0),
    (1, lateAdvance 10 0), (1, lateAdvance 10 0), (1, lateAdvance 10 0), (0, lateAdvance 10 0),
    (2, lateAdvance 10 0), (2, lateAdvance 520 (-1)), (2, lateAdvance 520 (-1)),
    (2, lateAdvance 520 (-1))]

/-- The token is handed out 20 seconds before it expires, and the bound leaves it 19. -/
theorem late_jwt_lives : ∃ c,
    run (step (advanceJwt tenSecondsModel 0)) (jwtProvider ℕ ℤ newYear) lateAdvances = .ok c ∧
      c.threads 2 = .returned (some 1735690140) (newYear + 520 * second - 1) ∧
      newYear + 520 * second - 1 + 29 * second ≤
        tenSecondsModel.expires 1735690140 + 10 * second := by
  have hpunctual : AlongThreads (advanceJwt tenSecondsModel 0) (Punctual (10 * second))
      (jwtProvider ℕ ℤ newYear) lateAdvances := by decide
  obtain ⟨c, hr, hthread⟩ := run_of_eval (step (advanceJwt tenSecondsModel 0))
    (jwtProvider ℕ ℤ newYear) lateAdvances
    (fun c => c.threads 2 = .returned (some 1735690140) (newYear + 520 * second - 1)) (by decide)
  have hreturned := of_decide_eq_true hthread
  obtain ⟨t, htoken, -, hlives⟩ := (concurrent_jwt_lives tenSecondsModel_asDocumented (by decide)
    (by decide) (by decide) hpunctual hr 2).1 _ _ hreturned
  obtain rfl := Option.some.inj htoken
  exact ⟨c, hr, hreturned, hlives⟩

end HwoodiwissHelper.GitHub
