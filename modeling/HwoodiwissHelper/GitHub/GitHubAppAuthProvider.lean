import HwoodiwissHelper.Infrastructure.TokenWithExpiration
import HwoodiwissHelper.Library.Transition

/-!
# The JWT of the app

`GitHubAppAuthProvider` signs a token that expires in nine minutes, and hands it out until 30
seconds before. The expiration is passed on as a `DateTime` of no kind, which the token library
takes for a time of the host: so the token lives as long as it should only on a host whose clock
is set to UTC, or a few minutes ahead.
-/

namespace HwoodiwissHelper.GitHub

open Infrastructure Transition

structure SecurityTokenDescriptor (Rsa : Type) where
  issuer : Option String
  expires : DateTime
  signingKey : Rsa

/-- What is used of `Microsoft.IdentityModel` and of RSA keys. -/
structure IdentityModel (Rsa Token : Type) where
  importFromPem : Option String → Except Exception Rsa
  createToken : SecurityTokenDescriptor Rsa → Except Exception String
  jsonWebToken : String → Except Exception Token
  encodedToken : Token → String
  /-- The claim `exp`, a number of seconds since 1970 began. -/
  exp : Token → ℤ
  validTo : Token → DateTime

def unixEpoch : ℤ := 621355968000000000

def IdentityModel.expires {Rsa Token : Type} (m : IdentityModel Rsa Token) (token : Token) : ℤ :=
  unixEpoch + m.exp token * second

/-- The claim `exp` is the second of the expiration in UTC, and `ValidTo` reads it back. -/
structure IdentityModel.AsDocumented {Rsa Token : Type} (m : IdentityModel Rsa Token)
    (localOffset : ℤ) : Prop where
  exp_eq : ∀ tokenDesc jwtText token, m.createToken tokenDesc = .ok jwtText →
    m.jsonWebToken jwtText = .ok token →
      m.exp token = ((tokenDesc.expires.toUniversalTime localOffset).ticks - unixEpoch) / second
  validTo_eq : ∀ token, m.validTo token = ⟨m.expires token, .utc⟩

structure AppConfiguration where
  appId : Option String
  appPrivateKey : Option String
  deriving DecidableEq, Repr

/-- A call: the two readings of the clock, of which the second is made for a new token only, and
the configuration. -/
structure JwtCall where
  utcNow : ℤ
  issuedAt : ℤ
  currentValue : Except Exception AppConfiguration

section Provider

variable {Rsa Token : Type} (m : IdentityModel Rsa Token) (localOffset : ℤ)

/-- `DateTimeOffset.DateTime` of a reading, whose offset is zero, has no kind. -/
def generateJwt (call : JwtCall) : Except Exception Token := do
  let githubConfiguration ← call.currentValue
  let rsa ← m.importFromPem githubConfiguration.appPrivateKey
  let jwtText ← m.createToken {
    issuer := githubConfiguration.appId
    expires := ⟨call.issuedAt + 9 * minute, .unspecified⟩
    signingKey := rsa }
  m.jsonWebToken jwtText

def jwtExpiration (token : Token) : DateTime := (m.validTo token).addSeconds (-30)

def getGithubJwt (githubJwt : TokenWithExpiration Token) (call : JwtCall) :
    Except Exception String × TokenWithExpiration Token :=
  let (token, githubJwt) :=
    githubJwt.getOrRenew localOffset (jwtExpiration m) call.utcNow (generateJwt m call)
  (m.encodedToken <$> token, githubJwt)

/-- A call that throws is an answer like the others, and the provider lives on. -/
def jwtStep (githubJwt : TokenWithExpiration Token) (call : JwtCall) :
    Except Exception (TokenWithExpiration Token) :=
  .ok (getGithubJwt m localOffset githubJwt call).2

/-- There is no token, or its last 30 seconds have begun. -/
def Due (githubJwt : TokenWithExpiration Token) (utcNow : ℤ) : Prop :=
  ∀ token, githubJwt.token = some token → m.expires token - 30 * second ≤ utcNow

/-- A token is handed out again while it is valid for more than 30 seconds. When one is due it is
made and kept for the calls to come, and a factory that throws leaves everything as it was; each
token expires within nine minutes. -/
structure Usable (githubJwt : TokenWithExpiration Token) (call : JwtCall) : Prop where
  reuse : ∀ token, githubJwt.token = some token →
    call.utcNow < m.expires token - 30 * second →
      getGithubJwt m localOffset githubJwt call = (.ok (m.encodedToken token), githubJwt) ∧
        m.expires token ≤ call.utcNow + 9 * minute
  renewal : Due m githubJwt call.utcNow → ∀ token, generateJwt m call = .ok token →
    (getGithubJwt m localOffset githubJwt call).1 = .ok (m.encodedToken token) ∧
      (getGithubJwt m localOffset githubJwt call).2.token = some token ∧
        call.issuedAt + 30 * second < m.expires token ∧
          m.expires token ≤ call.issuedAt + 9 * minute
  failure : Due m githubJwt call.utcNow → ∀ ex, generateJwt m call = .error ex →
    getGithubJwt m localOffset githubJwt call = (.error ex, githubJwt)

/-- The configuration can be read, its key imported, and a token made for it that expires nine
minutes after `issuedAt` by a clock of no kind. -/
def JwtCall.Signable (call : JwtCall) : Prop :=
  ∃ githubConfiguration, call.currentValue = .ok githubConfiguration ∧
    ∃ rsa, m.importFromPem githubConfiguration.appPrivateKey = .ok rsa ∧
      ∃ jwtText, m.createToken ⟨githubConfiguration.appId,
          ⟨call.issuedAt + 9 * minute, .unspecified⟩, rsa⟩ = .ok jwtText ∧
        ∃ token, m.jsonWebToken jwtText = .ok token

def NonDecreasing (calls : List JwtCall) : Prop :=
  (∀ call ∈ calls, call.utcNow ≤ call.issuedAt) ∧
    calls.Pairwise fun call next => call.issuedAt ≤ next.utcNow

variable {m localOffset}

theorem expires_of_generateJwt (hm : m.AsDocumented localOffset) {call : JwtCall} {token : Token}
    (h : generateJwt m call = .ok token) :
    m.expires token = unixEpoch +
      (call.issuedAt + 9 * minute - localOffset * minute - unixEpoch) / second * second := by
  obtain ⟨githubConfiguration, -, h⟩ := bind_eq_ok.mp h
  obtain ⟨rsa, -, h⟩ := bind_eq_ok.mp h
  obtain ⟨jwtText, hcreate, h⟩ := bind_eq_ok.mp h
  rw [IdentityModel.expires, hm.exp_eq _ _ _ hcreate h]
  rfl

theorem signable_iff {call : JwtCall} :
    call.Signable m ↔ ∃ token, generateJwt m call = .ok token := by
  constructor
  · rintro ⟨githubConfiguration, hvalue, rsa, hrsa, jwtText, hcreate, token, htoken⟩
    refine ⟨token, ?_⟩
    exact bind_eq_ok.mpr ⟨_, hvalue, bind_eq_ok.mpr ⟨_, hrsa, bind_eq_ok.mpr ⟨_, hcreate, htoken⟩⟩⟩
  · rintro ⟨token, h⟩
    obtain ⟨githubConfiguration, hvalue, h⟩ := bind_eq_ok.mp h
    obtain ⟨rsa, hrsa, h⟩ := bind_eq_ok.mp h
    obtain ⟨jwtText, hcreate, htoken⟩ := bind_eq_ok.mp h
    exact ⟨githubConfiguration, hvalue, rsa, hrsa, jwtText, hcreate, token, htoken⟩

theorem lifetime_iff (hm : m.AsDocumented localOffset) {call : JwtCall} {token : Token}
    (h : generateJwt m call = .ok token) :
    (call.issuedAt + 30 * second < m.expires token ∧
      m.expires token ≤ call.issuedAt + 9 * minute) ↔ 0 ≤ localOffset ∧ localOffset ≤ 8 := by
  rw [expires_of_generateJwt hm h]
  simp only [unixEpoch, second, minute]
  omega

theorem renews_iff (hm : m.AsDocumented localOffset) {githubJwt : TokenWithExpiration Token}
    (hs : githubJwt.Consistent (jwtExpiration m)) (utcNow : ℤ) :
    githubJwt.Renews localOffset utcNow ↔ Due m githubJwt utcNow := by
  unfold TokenWithExpiration.Renews Due
  cases htoken : githubJwt.token with
  | none => simp
  | some token =>
    have hexpiresAt : githubJwt.expiresAt.toDateTimeOffset localOffset =
        m.expires token - 30 * second := by
      rw [hs token htoken, jwtExpiration, hm.validTo_eq]
      simp only [DateTime.addSeconds, DateTime.toDateTimeOffset, second]
      omega
    simp [hexpiresAt]

theorem getGithubJwt_of_renews {githubJwt : TokenWithExpiration Token} {call : JwtCall}
    (h : githubJwt.Renews localOffset call.utcNow) :
    getGithubJwt m localOffset githubJwt call =
      (m.encodedToken <$> generateJwt m call,
        (githubJwt.renew (jwtExpiration m) (generateJwt m call)).2) := by
  simp only [getGithubJwt, TokenWithExpiration.getOrRenew_of_renews _ h]
  cases generateJwt m call <;> rfl

theorem getGithubJwt_of_not_renews {githubJwt : TokenWithExpiration Token} {call : JwtCall}
    (h : ¬ githubJwt.Renews localOffset call.utcNow) :
    ∃ token, githubJwt.token = some token ∧
      getGithubJwt m localOffset githubJwt call = (.ok (m.encodedToken token), githubJwt) := by
  obtain ⟨token, htoken, hcached⟩ :=
    TokenWithExpiration.getOrRenew_of_not_renews (jwtExpiration m) h (generateJwt m call)
  refine ⟨token, htoken, ?_⟩
  simp only [getGithubJwt, hcached]
  rfl

/-- What the cache does is right on every host; the times are not. -/
theorem usable_iff (hm : m.AsDocumented localOffset) {githubJwt : TokenWithExpiration Token}
    (hs : githubJwt.Consistent (jwtExpiration m)) (call : JwtCall) :
    Usable m localOffset githubJwt call ↔
      (∀ token, githubJwt.token = some token → call.utcNow < m.expires token - 30 * second →
        m.expires token ≤ call.utcNow + 9 * minute) ∧
      (githubJwt.Renews localOffset call.utcNow → ∀ token, generateJwt m call = .ok token →
        0 ≤ localOffset ∧ localOffset ≤ 8) := by
  have hdue := renews_iff hm hs call.utcNow
  constructor
  · intro h
    refine ⟨fun token htoken hlive => (h.reuse token htoken hlive).2, fun hrenews token hnew => ?_⟩
    exact (lifetime_iff hm hnew).mp (h.renewal (hdue.mp hrenews) token hnew).2.2
  · rintro ⟨hreuse, hrenewal⟩
    refine ⟨fun token htoken hlive => ⟨?_, hreuse token htoken hlive⟩, ?_, ?_⟩
    · have hcached : ¬ githubJwt.Renews localOffset call.utcNow := by
        intro hrenews
        have hreached := hdue.mp hrenews token htoken
        omega
      obtain ⟨token', htoken', heq⟩ := getGithubJwt_of_not_renews (m := m) hcached
      obtain rfl : token = token' := Option.some.inj (htoken.symm.trans htoken')
      exact heq
    · intro hall token hnew
      have hrenews := hdue.mpr hall
      rw [getGithubJwt_of_renews hrenews, hnew]
      exact ⟨rfl, rfl, (lifetime_iff hm hnew).mpr (hrenewal hrenews token hnew)⟩
    · intro hall ex hfails
      rw [getGithubJwt_of_renews (hdue.mpr hall), hfails]
      rfl

theorem along_cons {P : TokenWithExpiration Token → JwtCall → Prop}
    {githubJwt : TokenWithExpiration Token} {call : JwtCall} {calls : List JwtCall} :
    Along (jwtStep m localOffset) P githubJwt (call :: calls) ↔
      P githubJwt call ∧
        Along (jwtStep m localOffset) P (getGithubJwt m localOffset githubJwt call).2 calls := by
  constructor
  · exact fun h => h _ rfl
  · rintro h _ ⟨⟩
    exact h

theorem expires_le_of_offset (hm : m.AsDocumented localOffset)
    (hoffset : 0 ≤ localOffset ∧ localOffset ≤ 8) {githubJwt : TokenWithExpiration Token}
    {call : JwtCall} {last : ℤ} (hlast : last ≤ call.issuedAt)
    (hbound : ∀ token, githubJwt.token = some token → m.expires token ≤ last + 9 * minute)
    {token : Token} (htoken : (getGithubJwt m localOffset githubJwt call).2.token = some token) :
    m.expires token ≤ call.issuedAt + 9 * minute := by
  have hkept (hcached : githubJwt.token = some token) :
      m.expires token ≤ call.issuedAt + 9 * minute := by
    have hexpires := hbound token hcached
    omega
  by_cases hrenews : githubJwt.Renews localOffset call.utcNow
  · rw [getGithubJwt_of_renews hrenews] at htoken
    cases hnew : generateJwt m call with
    | error ex =>
      rw [hnew] at htoken
      exact hkept htoken
    | ok token' =>
      rw [hnew] at htoken
      obtain rfl : token' = token := Option.some.inj htoken
      exact ((lifetime_iff hm hnew).mpr hoffset).2
  · obtain ⟨_, -, hcached⟩ := getGithubJwt_of_not_renews (m := m) hrenews
    rw [hcached] at htoken
    exact hkept htoken

theorem along_usable_of_offset (hm : m.AsDocumented localOffset)
    (hoffset : 0 ≤ localOffset ∧ localOffset ≤ 8) {calls : List JwtCall}
    (hcalls : NonDecreasing calls) {githubJwt : TokenWithExpiration Token} {last : ℤ}
    (hs : githubJwt.Consistent (jwtExpiration m))
    (hlast : ∀ call ∈ calls, last ≤ call.utcNow)
    (hbound : ∀ token, githubJwt.token = some token → m.expires token ≤ last + 9 * minute) :
    Along (jwtStep m localOffset) (Usable m localOffset) githubJwt calls := by
  induction calls generalizing githubJwt last with
  | nil => trivial
  | cons call calls ih =>
    obtain ⟨hwithin, hnext⟩ := hcalls
    obtain ⟨hnow, hwithin⟩ := List.forall_mem_cons.mp hwithin
    obtain ⟨hafter, hnext⟩ := List.pairwise_cons.mp hnext
    have hfirst : last ≤ call.utcNow := hlast call List.mem_cons_self
    refine along_cons.mpr ⟨?_, ?_⟩
    · rw [usable_iff hm hs]
      refine ⟨fun token htoken _ => ?_, fun _ _ _ => hoffset⟩
      have hexpires := hbound token htoken
      omega
    · have hconsistent : (getGithubJwt m localOffset githubJwt call).2.Consistent
          (jwtExpiration m) := TokenWithExpiration.consistent_getOrRenew hs _
      apply ih ⟨hwithin, hnext⟩ hconsistent hafter
      intro token htoken
      exact expires_le_of_offset hm hoffset (Int.le_trans hfirst hnow) hbound htoken

theorem along_usable_of_none (hm : m.AsDocumented localOffset) {calls : List JwtCall}
    (hcalls : NonDecreasing calls) {githubJwt : TokenWithExpiration Token}
    (hs : githubJwt.token = none) :
    Along (jwtStep m localOffset) (Usable m localOffset) githubJwt calls ↔
      (0 ≤ localOffset ∧ localOffset ≤ 8) ∨ ∀ call ∈ calls, ¬ call.Signable m := by
  have hconsistent : githubJwt.Consistent (jwtExpiration m) := by
    intro token htoken
    simp [hs] at htoken
  induction calls with
  | nil => simp [Along]
  | cons call calls ih =>
    have hrenews : githubJwt.Renews localOffset call.utcNow := .inl hs
    have husable : Usable m localOffset githubJwt call ↔ ∀ token, generateJwt m call = .ok token →
        0 ≤ localOffset ∧ localOffset ≤ 8 := by
      simp [usable_iff hm hconsistent, hs, hrenews]
    rw [List.forall_mem_cons]
    cases hnew : generateJwt m call with
    | error ex =>
      have hstate : (getGithubJwt m localOffset githubJwt call).2 = githubJwt := by
        rw [getGithubJwt_of_renews hrenews, hnew]
        rfl
      have hrest : NonDecreasing calls :=
        ⟨(List.forall_mem_cons.mp hcalls.1).2, (List.pairwise_cons.mp hcalls.2).2⟩
      rw [along_cons, hstate]
      exact (and_congr husable (ih hrest)).trans (by simp [signable_iff, hnew])
    | ok token =>
      constructor
      · intro h
        exact .inl (husable.mp (along_cons.mp h).1 token hnew)
      · rintro (hoffset | ⟨hfails, -⟩)
        · have hlast : ∀ next ∈ call :: calls, call.utcNow ≤ next.utcNow := by
            refine List.forall_mem_cons.mpr ⟨Int.le_refl _, fun next hnext => ?_⟩
            have hnow := hcalls.1 call List.mem_cons_self
            have hafter := (List.pairwise_cons.mp hcalls.2).1 next hnext
            omega
          exact along_usable_of_offset hm hoffset hcalls hconsistent hlast (by simp [hs])
        · exact absurd (signable_iff.mpr ⟨token, hnew⟩) hfails

/-- The tokens of a run are usable exactly on a host whose clock is set to UTC or at most eight
minutes ahead, unless no call of it can sign a token. -/
theorem jwt_usable_iff (hm : m.AsDocumented localOffset) {calls : List JwtCall}
    (hcalls : NonDecreasing calls) :
    Along (jwtStep m localOffset) (Usable m localOffset) {} calls ↔
      (0 ≤ localOffset ∧ localOffset ≤ 8) ∨ ∀ call ∈ calls, ¬ call.Signable m :=
  along_usable_of_none hm hcalls rfl

end Provider

def newYear : ℤ := unixEpoch + 1735689600 * second

/-- The token library, as far as the provider asks it at new year: the second that it writes
depends on the zone of the host. -/
def newYearModel (exp : ℤ) : IdentityModel Unit String where
  importFromPem _ := .ok ()
  createToken tokenDesc :=
    if tokenDesc.expires = ⟨newYear + 9 * minute, .unspecified⟩ then
      .ok s!"eyJhbGciOiJSUzI1NiJ9.{exp}.c2lnbmF0dXJl"
    else
      .error ⟨"SecurityTokenException", []⟩
  jsonWebToken jwtText := .ok jwtText
  encodedToken token := token
  exp _ := exp
  validTo _ := ⟨unixEpoch + exp * second, .utc⟩

def newYearCall (utcNow : ℤ) : JwtCall := ⟨utcNow, utcNow, .ok ⟨some "7", some "-----BEGIN"⟩⟩

theorem newYearModel_asDocumented {exp localOffset : ℤ}
    (h : exp = (newYear + 9 * minute - localOffset * minute - unixEpoch) / second) :
    (newYearModel exp).AsDocumented localOffset where
  exp_eq tokenDesc jwtText token hcreate _ := by
    simp only [newYearModel] at hcreate
    split at hcreate
    next hexpires =>
      rw [hexpires]
      exact h
    next => cases hcreate
  validTo_eq _ := rfl

/-- On a host in UTC the first call makes a token, and a call five minutes later, which could not
make one, returns the same. -/
theorem jwt_usable_utc :
    Along (jwtStep (newYearModel 1735690140) 0) (Usable (newYearModel 1735690140) 0) {}
        [newYearCall newYear, newYearCall (newYear + 5 * minute)] ∧
      ∃ githubJwt,
        getGithubJwt (newYearModel 1735690140) 0 {} (newYearCall newYear) =
          (.ok "eyJhbGciOiJSUzI1NiJ9.1735690140.c2lnbmF0dXJl", githubJwt) ∧
        getGithubJwt (newYearModel 1735690140) 0 githubJwt (newYearCall (newYear + 5 * minute)) =
          (.ok "eyJhbGciOiJSUzI1NiJ9.1735690140.c2lnbmF0dXJl", githubJwt) := by
  have hcalls : NonDecreasing [newYearCall newYear, newYearCall (newYear + 5 * minute)] := by
    simp only [NonDecreasing, newYearCall, List.pairwise_pair, List.forall_mem_cons, minute, second]
    exact ⟨⟨Int.le_refl _, Int.le_refl _, nofun⟩, by omega⟩
  have hm : (newYearModel 1735690140).AsDocumented 0 := newYearModel_asDocumented (by decide)
  have hmade : getGithubJwt (newYearModel 1735690140) 0 {} (newYearCall newYear) =
      (.ok "eyJhbGciOiJSUzI1NiJ9.1735690140.c2lnbmF0dXJl",
        ⟨⟨unixEpoch + 1735690110 * second, .utc⟩,
          some "eyJhbGciOiJSUzI1NiJ9.1735690140.c2lnbmF0dXJl"⟩) := by decide +kernel
  exact ⟨(jwt_usable_iff hm hcalls).mpr (.inl (by decide)), _, hmade, by decide +kernel⟩

/-- One hour ahead of UTC, the token has expired before it is made. -/
theorem jwt_expired_hour_ahead :
    (newYearModel 1735686540).AsDocumented 60 ∧ NonDecreasing [newYearCall newYear] ∧
      ¬ Along (jwtStep (newYearModel 1735686540) 60) (Usable (newYearModel 1735686540) 60) {}
        [newYearCall newYear] := by
  have hm : (newYearModel 1735686540).AsDocumented 60 := newYearModel_asDocumented (by decide)
  have hcalls : NonDecreasing [newYearCall newYear] := by
    simp [NonDecreasing, newYearCall]
  refine ⟨hm, hcalls, ?_⟩
  rw [along_usable_of_none hm hcalls rfl]
  rintro (hoffset | hfails)
  · exact absurd hoffset (by decide)
  · exact hfails _ List.mem_cons_self ⟨_, rfl, _, rfl, _, rfl, _, rfl⟩

end HwoodiwissHelper.GitHub
