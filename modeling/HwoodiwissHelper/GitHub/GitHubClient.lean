import HwoodiwissHelper.Library.ExpiringCache
import HwoodiwissHelper.Result

/-!
# Installation tokens

`GitHubClient.GetInstallationToken`: a token is requested through the memory cache, under a key
of the installation, the permissions and the repositories. A token lives until five minutes before
it expires. A request that fails leaves an empty text in the cache, and that never expires.
-/

namespace HwoodiwissHelper.GitHub

open ExpiringCache Transition

def maxTicks : Int := 3155378975999999999

structure DateTimeOffset where
  clockTicks : Int
  offsetTicks : Int
  clock_range : 0 ≤ clockTicks ∧ clockTicks ≤ maxTicks
  utc_range : 0 ≤ clockTicks - offsetTicks ∧ clockTicks - offsetTicks ≤ maxTicks
  deriving DecidableEq

namespace DateTimeOffset

def utcTicks (d : DateTimeOffset) : Int := d.clockTicks - d.offsetTicks

/-- `d - TimeSpan`: both the clock time and the UTC time have to stay dates. -/
def sub (d : DateTimeOffset) (ticks : Int) : Except Exception DateTimeOffset :=
  if h : (0 ≤ d.clockTicks - ticks ∧ d.clockTicks - ticks ≤ maxTicks) ∧
      (0 ≤ d.clockTicks - ticks - d.offsetTicks ∧
        d.clockTicks - ticks - d.offsetTicks ≤ maxTicks) then
    .ok ⟨d.clockTicks - ticks, d.offsetTicks, h.1, h.2⟩
  else
    .error { typeName := "ArgumentOutOfRangeException", bases := ["ArgumentException"] }

theorem utcTicks_of_sub {d t : DateTimeOffset} {ticks : Int} (h : d.sub ticks = .ok t) :
    t.utcTicks = d.utcTicks - ticks := by
  unfold sub at h
  split at h
  · cases h
    simp only [utcTicks]
    omega
  · cases h

end DateTimeOffset

inductive InstallationScope where
  | pullRequests
  /-- A number without a name, which a cast may give. -/
  | undefined (value : Int32) (h : value ≠ 0)
  deriving DecidableEq, Repr

instance : ToString InstallationScope where
  toString
    | .pullRequests => "PullRequests"
    | .undefined value _ => toString value

inductive InstallationOperation where
  | write
  | undefined (value : Int32) (h : value ≠ 0)
  deriving DecidableEq, Repr

instance : ToString InstallationOperation where
  toString
    | .write => "Write"
    | .undefined value _ => toString value

/-- A `Dictionary` with its pairs in the order of enumeration. -/
structure Permissions where
  pairs : List (InstallationScope × InstallationOperation)
  nodup : (pairs.map Prod.fst).Nodup
  deriving DecidableEq

/-- `string[]?`, where a name may be null as well. -/
abbrev Repositories := Option (List (Option String))

structure InstallationTokenRequest where
  repositories : Repositories
  permissions : Permissions
  deriving DecidableEq

/-- An explicit null is read into the required token too. -/
structure InstallationTokenResponse where
  token : Option String
  expiresAt : DateTimeOffset
  deriving DecidableEq

structure HttpRequest (α : Type) where
  uri : String
  bearer : String
  accept : String := "application/vnd.github+json"
  apiVersion : String := "2022-11-28"
  content : α

structure HttpResponse (α : Type) where
  statusCode : Int
  readAsString : Except Exception String
  readFromJson : Except Exception (Option α)

structure TokenEndpoint where
  getGithubJwt : Except Exception String
  sendAsync : HttpRequest InstallationTokenRequest →
    Except Exception (HttpResponse InstallationTokenResponse)

def created : Int := 201

def requestBody (installationId : Int) (permissions : Permissions)
    (repositories : Repositories) (endpoint : TokenEndpoint) :
    Except Exception (Result InstallationTokenResponse) := do
  let jwt ← endpoint.getGithubJwt
  let response ← endpoint.sendAsync {
    uri := s!"/app/installations/{installationId}/access_tokens"
    bearer := jwt
    content := { repositories, permissions } }
  if response.statusCode ≠ created then
    -- the text is read for the log
    let _ ← response.readAsString
    return .failure (.reason "Failed to create installation token.")
  match ← response.readFromJson with
  | none =>
    return .failure (.reason
      "Installation token request succeeded but the response was null or could not be deserialized.")
  | some result => return .success result

/-- No exception leaves the request: it is a problem like the others. -/
def requestInstallationAccessToken (installationId : Int) (permissions : Permissions)
    (repositories : Repositories) (endpoint : TokenEndpoint) :
    Result InstallationTokenResponse :=
  match requestBody installationId permissions repositories endpoint with
  | .ok result => result
  | .error ex => .failure (.exceptional ex)

/-- `string.Join` writes a name that is null like an empty one. -/
def createCacheKey (installationId : Int) (permissions : Permissions)
    (repositories : Repositories) : String :=
  let permissionsString :=
    "_".intercalate (permissions.pairs.map fun (scope, operation) => s!"{scope}:{operation}")
  let repositoriesString :=
    match repositories with
    | some repositories => "_for_" ++ "_".intercalate (repositories.map (Option.getD · ""))
    | none => ""
  s!"installation_token_{installationId}_with_{permissionsString}{repositoriesString}"

def fiveMinutes : Int := 3000000000

abbrev TokenCache := Cache String (Option String) Int

/-- The factory. A new entry has no value, so that a failed request makes an empty text, and only
a token that was received gets an expiration. -/
def createToken : Result InstallationTokenResponse → Except Exception (Entry (Option String) Int)
  | .failure _ => .ok { value := "" }
  | .success tokenResponse => do
    let absoluteExpiration ← tokenResponse.expiresAt.sub fiveMinutes
    return { value := tokenResponse.token, expiration := absoluteExpiration.utcTicks }

def getInstallationToken (cache : TokenCache) (now : Int) (installationId : Int)
    (permissions : Permissions) (repositories : Repositories) (endpoint : TokenEndpoint) :
    Answer String (Option String) String Int Exception :=
  (getOrCreate cache now (createCacheKey installationId permissions repositories)
    (createToken
      (requestInstallationAccessToken installationId permissions repositories endpoint))).map
    (·.getD "")

theorem createToken_eq_ok {result : Result InstallationTokenResponse}
    {e : Entry (Option String) Int} (h : createToken result = .ok e) :
    ((∃ problem, result = .failure problem) ∧ e = ⟨some "", none⟩) ∨
    ∃ r t, result = .success r ∧ r.expiresAt.sub fiveMinutes = .ok t ∧
      e = ⟨r.token, some t.utcTicks⟩ := by
  cases result with
  | failure problem =>
    cases h
    exact .inl ⟨⟨problem, rfl⟩, rfl⟩
  | success r =>
    obtain ⟨t, ht, he⟩ := bind_eq_ok.mp h
    cases he
    exact .inr ⟨r, t, rfl, ht, rfl⟩

theorem createToken_eq_error {result : Result InstallationTokenResponse} {ex : Exception}
    (h : createToken result = .error ex) :
    ∃ r, result = .success r ∧ r.expiresAt.sub fiveMinutes = .error ex := by
  cases result with
  | failure problem => cases h
  | success r =>
    refine ⟨r, rfl, ?_⟩
    cases hsub : r.expiresAt.sub fiveMinutes with
    | error ex' => simpa [createToken, hsub, bind, Except.bind] using h
    | ok t => simp [createToken, hsub, bind, Except.bind, pure, Except.pure] at h

end HwoodiwissHelper.GitHub
