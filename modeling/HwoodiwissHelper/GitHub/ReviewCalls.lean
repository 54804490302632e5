import HwoodiwissHelper.GitHub.CacheKeys
import HwoodiwissHelper.GitHub.Handling
import HwoodiwissHelper.Library.Threads

/-!
# Reviews that are submitted

`GitHubClient.CreatePullRequestReview` posts a review with a token for its installation and its
repository. Reviews are submitted while others are: all of them look into one memory cache, and
nothing keeps two of them from asking for a token at the same time.
-/

namespace HwoodiwissHelper.GitHub

open ExpiringCache Threads Transition

structure SubmitReviewRequest where
  body : String
  event : SubmitReviewEvent
  deriving DecidableEq, Repr

def Review.arguments (review : Review) : TokenArguments where
  installationId := review.installationId
  permissions := pullRequestsWrite
  repositories := some [review.repoName]

/-- Reviews in one repository of one installation. A name that is null counts as an empty one: their
keys are the same, although what they ask GitHub for is not. -/
structure Review.Alike (review review' : Review) : Prop where
  installationId : review.installationId = review'.installationId
  repoName : review.repoName.getD "" = review'.repoName.getD ""

theorem cacheKey_eq_iff_alike {review review' : Review} :
    review.arguments.cacheKey = review'.arguments.cacheKey ↔ review.Alike review' := by
  constructor
  · intro h
    obtain ⟨hid, -, hname⟩ := (cacheKey_singleton_iff rfl rfl).mp h
    exact ⟨hid, hname⟩
  · rintro ⟨hid, hname⟩
    exact (cacheKey_singleton_iff rfl rfl).mpr ⟨hid, rfl, hname⟩

def tokenRequest (arguments : TokenArguments) (jwt : String) :
    HttpRequest InstallationTokenRequest where
  uri := s!"/app/installations/{arguments.installationId}/access_tokens"
  bearer := jwt
  content := { repositories := arguments.repositories, permissions := arguments.permissions }

def reviewRequest (review : Review) (installationToken : String) :
    HttpRequest SubmitReviewRequest :=
  let repoOwner := review.repoOwner.getD ""
  let repoName := review.repoName.getD ""
  { uri := s!"/repos/{repoOwner}/{repoName}/pulls/{review.pullRequestNumber}/reviews"
    bearer := installationToken
    content := { body := review.body, event := review.event } }

def TokenArguments.request (arguments : TokenArguments) (endpoint : TokenEndpoint) :
    Result InstallationTokenResponse :=
  requestInstallationAccessToken arguments.installationId arguments.permissions
    arguments.repositories endpoint

/-- The endpoint is asked for nothing but this request. -/
theorem requestBody_congr {arguments : TokenArguments} {endpoint endpoint' : TokenEndpoint}
    (hjwt : endpoint.getGithubJwt = endpoint'.getGithubJwt)
    (hsend : ∀ jwt, endpoint.getGithubJwt = .ok jwt →
      endpoint.sendAsync (tokenRequest arguments jwt) =
        endpoint'.sendAsync (tokenRequest arguments jwt)) :
    requestBody arguments.installationId arguments.permissions arguments.repositories endpoint =
      requestBody arguments.installationId arguments.permissions arguments.repositories
        endpoint' := by
  unfold requestBody
  rw [← hjwt]
  cases hgithubJwt : endpoint.getGithubJwt with
  | error ex => rfl
  | ok jwt =>
    change endpoint.sendAsync (tokenRequest arguments jwt) >>= _ =
      endpoint'.sendAsync (tokenRequest arguments jwt) >>= _
    rw [hsend jwt hgithubJwt]

/-- `AuthenticationHeaderValue`: the parameter holds no line break. -/
def authenticationHeaderValue (parameter : String) : Except Exception String :=
  if '\r' ∈ parameter.toList ∨ '\n' ∈ parameter.toList then
    .error { typeName := "FormatException" }
  else
    .ok parameter

def isSuccessStatusCode (statusCode : Int) : Bool := 200 ≤ statusCode ∧ statusCode ≤ 299

abbrev ReviewEndpoint := HttpRequest SubmitReviewRequest → Except Exception Int

def submitReview (review : Review) (sendAsync : ReviewEndpoint) (installationToken : String) :
    Except Exception (Result Unit) := do
  let bearer ← authenticationHeaderValue installationToken
  let statusCode ← sendAsync (reviewRequest review bearer)
  if isSuccessStatusCode statusCode then
    return .success ()
  else
    return .failure (.reason "Failed to approve pull request")

/-- `CreatePullRequestReview`, with the cache that it leaves. -/
def createPullRequestReview (cache : TokenCache) (now : Int) (review : Review)
    (endpoint : TokenEndpoint) (sendAsync : ReviewEndpoint) :
    Except Exception (Result Unit) × TokenCache :=
  let installationToken := getInstallationToken cache now review.installationId pullRequestsWrite
    (some [review.repoName]) endpoint
  (installationToken.result >>= submitReview review sendAsync, installationToken.cache)

inductive Outgoing where
  | accessToken (request : HttpRequest InstallationTokenRequest)
  | review (request : HttpRequest SubmitReviewRequest)

structure TokenAnswer where
  arguments : TokenArguments
  result : Result InstallationTokenResponse

/-- What all calls share: the memory cache, and the answers so far, the latest first. -/
structure Gateway where
  cache : TokenCache
  answers : List TokenAnswer

inductive ReviewStage where
  | looking
  | requesting
  | answered (result : Result InstallationTokenResponse)
  | authorized (installationToken : String)
  | finished (result : Except Exception (Result Unit))

structure ReviewCall where
  review : Review
  stage : ReviewStage := .looking
  /-- When the cache answered the call. -/
  hitAt : Option Int := none
  sent : List Outgoing := []

/-- A call goes on: the clock, and what it meets if it sends a request. -/
structure ReviewAdvance where
  now : Int
  endpoint : TokenEndpoint
  sendAsync : ReviewEndpoint

def accessTokenRequests (arguments : TokenArguments) (endpoint : TokenEndpoint) : List Outgoing :=
  match endpoint.getGithubJwt with
  | .error _ => []
  | .ok jwt => [.accessToken (tokenRequest arguments jwt)]

def reviewRequests (review : Review) (installationToken : String) : List Outgoing :=
  match authenticationHeaderValue installationToken with
  | .error _ => []
  | .ok bearer => [.review (reviewRequest review bearer)]

namespace ReviewCall

/-- `GetOrCreateAsync` waits for the factory between its look into the cache and its new entry. -/
def advance (e : ReviewAdvance) (g : Gateway) (call : ReviewCall) : Option (Gateway × ReviewCall) :=
  let arguments := call.review.arguments
  match call.stage with
  | .looking =>
    match g.cache.liveEntry e.now arguments.cacheKey with
    | some entry =>
      some (g, { call with stage := .authorized (entry.value.getD ""), hitAt := some e.now })
    | none => some (g, { call with stage := .requesting })
  | .requesting =>
    let result := arguments.request e.endpoint
    some ({ g with answers := ⟨arguments, result⟩ :: g.answers }, { call with
      stage := .answered result
      sent := call.sent ++ accessTokenRequests arguments e.endpoint })
  | .answered result =>
    match createToken result with
    | .error ex => some (g, { call with stage := .finished (.error ex) })
    | .ok entry =>
      some ({ g with cache := Function.update g.cache arguments.cacheKey (some entry) },
        { call with stage := .authorized (entry.value.getD "") })
  | .authorized installationToken =>
    some (g, { call with
      stage := .finished (submitReview call.review e.sendAsync installationToken)
      sent := call.sent ++ reviewRequests call.review installationToken })
  | .finished _ => none

end ReviewCall

/-- Why a review carries a text as its token. GitHub gave the token out for the same repository, and
it has more than five minutes to live if the cache returned it; or the text is empty, because GitHub
refused to give a token out, or answered with a null for one. -/
inductive Authorizes (answers : List TokenAnswer) (review : Review) (hitAt : Option Int) :
    String → Prop where
  | received (asked : Review) (r : InstallationTokenResponse) (token : String)
      (hasked : asked.Alike review) (hr : ⟨asked.arguments, .success r⟩ ∈ answers)
      (htoken : r.token = some token)
      (hlive : ∀ now ∈ hitAt, now < r.expiresAt.utcTicks - fiveMinutes) :
      Authorizes answers review hitAt token
  | tokenless (asked : Review) (r : InstallationTokenResponse) (hasked : asked.Alike review)
      (hr : ⟨asked.arguments, .success r⟩ ∈ answers) (htoken : r.token = none)
      (hlive : ∀ now ∈ hitAt, now < r.expiresAt.utcTicks - fiveMinutes) :
      Authorizes answers review hitAt ""
  | refused (asked : Review) (problem : Problem) (hasked : asked.Alike review)
      (hproblem : ⟨asked.arguments, .failure problem⟩ ∈ answers) :
      Authorizes answers review hitAt ""

/-- One request for a token at most, and none of a call that the cache answered. -/
structure Asked (call : ReviewCall) (asked : List Outgoing) : Prop where
  request : asked = [] ∨ ∃ jwt, asked = [.accessToken (tokenRequest call.review.arguments jwt)]
  unasked : call.hitAt ≠ none → asked = []

structure Posted (answers : List TokenAnswer) (call : ReviewCall) (posted : List Outgoing) :
    Prop where
  review : posted = [] ∨ ∃ installationToken,
    Authorizes answers call.review call.hitAt installationToken ∧
      posted = [.review (reviewRequest call.review installationToken)]
  finished : ∀ result, call.stage = .finished (.ok result) → posted ≠ []

def Lawful (answers : List TokenAnswer) (call : ReviewCall) : Prop :=
  ∃ asked posted, call.sent = asked ++ posted ∧ Asked call asked ∧ Posted answers call posted

namespace ReviewCall

/-- What holds of a call, wherever the others stand. -/
def Stands (g : Gateway) (call : ReviewCall) : Prop :=
  match call.stage with
  | .looking => call.sent = [] ∧ call.hitAt = none
  | .requesting => call.sent = [] ∧ call.hitAt = none
  | .answered result => Asked call call.sent ∧ call.hitAt = none ∧
      ⟨call.review.arguments, result⟩ ∈ g.answers
  | .authorized installationToken => Asked call call.sent ∧
      Authorizes g.answers call.review call.hitAt installationToken
  | .finished _ => Lawful g.answers call

end ReviewCall

structure Gateway.Sourced (g : Gateway) : Prop where
  answers : ∀ answer ∈ g.answers, ∃ review : Review, answer.arguments = review.arguments
  stored : ∀ k e, g.cache k = some e → ∃ answer ∈ g.answers,
    answer.arguments.cacheKey = k ∧ createToken answer.result = .ok e

theorem Gateway.sourced_start : Gateway.Sourced ⟨fun _ => none, []⟩ where
  answers answer hanswer := by cases hanswer
  stored k e he := by cases he

theorem Gateway.Sourced.answer {g : Gateway} (hg : g.Sourced) (review : Review)
    (result : Result InstallationTokenResponse) :
    Gateway.Sourced { g with answers := ⟨review.arguments, result⟩ :: g.answers } where
  answers answer hanswer := by
    rcases List.mem_cons.mp hanswer with rfl | hanswer
    · exact ⟨review, rfl⟩
    · exact hg.answers answer hanswer
  stored k e he := by
    obtain ⟨answer, hanswer, hmade⟩ := hg.stored k e he
    exact ⟨answer, List.mem_cons_of_mem _ hanswer, hmade⟩

theorem Gateway.Sourced.store {g : Gateway} (hg : g.Sourced) {answer : TokenAnswer}
    (hanswer : answer ∈ g.answers) {e : Entry (Option String) Int}
    (hmake : createToken answer.result = .ok e) :
    Gateway.Sourced { g with
      cache := Function.update g.cache answer.arguments.cacheKey (some e) } where
  answers := hg.answers
  stored k e' he' := by
    change Function.update g.cache answer.arguments.cacheKey (some e) k = some e' at he'
    by_cases hk : k = answer.arguments.cacheKey
    · rw [hk, Function.update_self] at he'
      obtain rfl := Option.some.inj he'
      exact ⟨answer, hanswer, hk.symm, hmake⟩
    · rw [Function.update_of_ne hk] at he'
      exact hg.stored k e' he'

theorem Authorizes.of_entry {answers : List TokenAnswer} {asked review : Review}
    {result : Result InstallationTokenResponse} {e : Entry (Option String) Int}
    {hitAt : Option Int} (hasked : asked.Alike review) (hmem : ⟨asked.arguments, result⟩ ∈ answers)
    (he : createToken result = .ok e) (hlive : ∀ now ∈ hitAt, e.live now = true) :
    Authorizes answers review hitAt (e.value.getD "") := by
  rcases createToken_eq_ok he with ⟨⟨problem, rfl⟩, rfl⟩ | ⟨r, t, rfl, ht, rfl⟩
  · exact .refused asked problem hasked hmem
  · have hlives : ∀ now ∈ hitAt, now < r.expiresAt.utcTicks - fiveMinutes := by
      intro now hnow
      have hbefore : now < t.utcTicks := (Entry.live_until _ _ _).mp (hlive now hnow)
      rwa [DateTimeOffset.utcTicks_of_sub ht] at hbefore
    cases htoken : r.token with
    | none => exact .tokenless asked r hasked hmem htoken hlives
    | some token => exact .received asked r token hasked hmem htoken hlives

section Answers

variable {answers answers' : List TokenAnswer} (h : answers ⊆ answers')

include h

theorem Authorizes.mono {review : Review} {hitAt : Option Int} {token : String}
    (ha : Authorizes answers review hitAt token) : Authorizes answers' review hitAt token := by
  cases ha with
  | received asked r token hasked hr htoken hlive =>
    exact .received asked r token hasked (h hr) htoken hlive
  | tokenless asked r hasked hr htoken hlive =>
    exact .tokenless asked r hasked (h hr) htoken hlive
  | refused asked problem hasked hproblem => exact .refused asked problem hasked (h hproblem)

theorem Lawful.mono {call : ReviewCall} (hc : Lawful answers call) : Lawful answers' call := by
  obtain ⟨asked, posted, hsent, hasked, hposted, hfinished⟩ := hc
  refine ⟨asked, posted, hsent, hasked, ?_, hfinished⟩
  rcases hposted with hnone | ⟨token, hauthorizes, heq⟩
  · exact .inl hnone
  · exact .inr ⟨token, hauthorizes.mono h, heq⟩

theorem ReviewCall.Stands.mono {cache cache' : TokenCache} {call : ReviewCall}
    (hc : call.Stands ⟨cache, answers⟩) : call.Stands ⟨cache', answers'⟩ := by
  unfold Stands at hc ⊢
  split at hc
  · exact hc
  · exact hc
  · exact ⟨hc.1, hc.2.1, h hc.2.2⟩
  · exact ⟨hc.1, hc.2.mono h⟩
  · exact Lawful.mono h hc

end Answers

theorem Asked.nil (call : ReviewCall) : Asked call [] := ⟨.inl rfl, fun _ => rfl⟩

/-- Wherever a call stands, what it sent so far is lawful. -/
theorem ReviewCall.Stands.lawful {g : Gateway} {call : ReviewCall} (h : call.Stands g) :
    Lawful g.answers call := by
  have hposted {stage : ReviewStage} (hstage : call.stage = stage)
      (hstage' : ∀ result, stage ≠ .finished result) : Posted g.answers call [] := by
    refine ⟨.inl rfl, ?_⟩
    intro result hfinished
    exact absurd (hstage.symm.trans hfinished) (hstage' _)
  unfold Stands at h
  split at h
  next hstage => exact ⟨[], [], h.1, .nil call, hposted hstage nofun⟩
  next hstage => exact ⟨[], [], h.1, .nil call, hposted hstage nofun⟩
  next hstage => exact ⟨call.sent, [], (List.append_nil _).symm, h.1, hposted hstage nofun⟩
  next hstage => exact ⟨call.sent, [], (List.append_nil _).symm, h.1, hposted hstage nofun⟩
  next => exact h

theorem Asked.accessTokenRequests {call : ReviewCall} (hit : call.hitAt = none)
    (endpoint : TokenEndpoint) :
    Asked call (accessTokenRequests call.review.arguments endpoint) := by
  refine ⟨?_, fun hasked => absurd hit hasked⟩
  unfold GitHub.accessTokenRequests
  split
  · exact .inl rfl
  · exact .inr ⟨_, rfl⟩

theorem posted_reviewRequests {answers : List TokenAnswer} {call : ReviewCall} {token : String}
    (h : Authorizes answers call.review call.hitAt token) (sendAsync : ReviewEndpoint)
    (hstage : call.stage = .finished (submitReview call.review sendAsync token)) :
    Posted answers call (reviewRequests call.review token) := by
  unfold reviewRequests
  cases hbearer : authenticationHeaderValue token with
  | error ex =>
    refine ⟨.inl rfl, ?_⟩
    intro result hfinished
    simp [hstage, submitReview, hbearer, bind, Except.bind] at hfinished
  | ok bearer =>
    obtain rfl : token = bearer := by
      unfold authenticationHeaderValue at hbearer
      split at hbearer
      · cases hbearer
      · exact Except.ok.inj hbearer
    exact ⟨.inr ⟨token, h, rfl⟩, fun _ _ => List.cons_ne_nil _ _⟩

namespace ReviewCall

/-- An action keeps what holds of the gateway and of its call, and adds to the answers only. -/
theorem advance_spec {e : ReviewAdvance} {g g' : Gateway} {call call' : ReviewCall}
    (hg : g.Sourced) (hcall : call.Stands g) (h : call.advance e g = some (g', call')) :
    g'.Sourced ∧ call'.Stands g' ∧ g.answers ⊆ g'.answers ∧ call'.review = call.review := by
  obtain ⟨review, stage, hitAt, sent⟩ := call
  cases stage with
  | looking =>
    obtain ⟨hsent, hit⟩ := hcall
    simp only [advance] at h
    split at h
    next entry hentry =>
      obtain ⟨rfl, rfl⟩ := Prod.mk.inj (Option.some.inj h)
      obtain ⟨hstored, hlive⟩ := Option.filter_eq_some_iff.mp hentry
      obtain ⟨⟨arguments, result⟩, hanswer, hkey, hmake⟩ := hg.stored _ _ hstored
      obtain ⟨asked, rfl⟩ := hg.answers _ hanswer
      have hlive' : ∀ now ∈ some e.now, entry.live now = true := by
        rintro now ⟨⟩
        exact hlive
      have hauthorizes :=
        Authorizes.of_entry (cacheKey_eq_iff_alike.mp hkey) hanswer hmake hlive'
      refine ⟨hg, ⟨?_, hauthorizes⟩, List.Subset.refl _, rfl⟩
      dsimp only at hsent
      rw [hsent]
      exact .nil _
    next =>
      obtain ⟨rfl, rfl⟩ := Prod.mk.inj (Option.some.inj h)
      exact ⟨hg, ⟨hsent, hit⟩, List.Subset.refl _, rfl⟩
  | requesting =>
    obtain ⟨hsent, hit⟩ := hcall
    obtain ⟨rfl, rfl⟩ := Prod.mk.inj (Option.some.inj h)
    dsimp only at hsent hit
    subst hsent hit
    exact ⟨hg.answer review _, ⟨.accessTokenRequests rfl e.endpoint, rfl, List.mem_cons_self⟩,
      List.subset_cons_self _ _, rfl⟩
  | answered result =>
    obtain ⟨hasked, hit, hanswer⟩ := hcall
    simp only [advance] at h
    split at h
    next ex =>
      obtain ⟨rfl, rfl⟩ := Prod.mk.inj (Option.some.inj h)
      exact ⟨hg, ⟨sent, [], (List.append_nil _).symm, ⟨hasked.request, hasked.unasked⟩,
        .inl rfl, nofun⟩, List.Subset.refl _, rfl⟩
    next entry hmake =>
      obtain ⟨rfl, rfl⟩ := Prod.mk.inj (Option.some.inj h)
      dsimp only at hit
      subst hit
      exact ⟨hg.store hanswer hmake, ⟨⟨hasked.request, hasked.unasked⟩,
        .of_entry ⟨rfl, rfl⟩ hanswer hmake nofun⟩, List.Subset.refl _, rfl⟩
  | authorized token =>
    obtain ⟨hasked, hauthorizes⟩ := hcall
    obtain ⟨rfl, rfl⟩ := Prod.mk.inj (Option.some.inj h)
    refine ⟨hg, ⟨sent, reviewRequests review token, rfl, ⟨hasked.request, hasked.unasked⟩, ?_⟩,
      List.Subset.refl _, rfl⟩
    exact posted_reviewRequests hauthorizes e.sendAsync rfl
  | finished result => cases h

end ReviewCall

/-- It does what `createPullRequestReview` does. -/
theorem runThread_looking (g : Gateway) (review : Review) (e : ReviewAdvance) : ∃ n next,
    let answered := createPullRequestReview g.cache e.now review e.endpoint e.sendAsync
    runThread ReviewCall.advance g { review } (List.replicate n e) = some next ∧
      next.2.review = review ∧ next.2.stage = .finished answered.1 ∧
        next.1.cache = answered.2 := by
  have hanswered : createPullRequestReview g.cache e.now review e.endpoint e.sendAsync =
      let answer := getOrCreate g.cache e.now review.arguments.cacheKey
        (createToken (review.arguments.request e.endpoint))
      (((·.getD "") <$> answer.result) >>= submitReview review e.sendAsync, answer.cache) := rfl
  rw [hanswered]
  cases hentry : g.cache.liveEntry e.now review.arguments.cacheKey with
  | some entry =>
    refine ⟨2, ?_⟩
    simp [List.replicate_succ, runThread, ReviewCall.advance, getOrCreate, hentry, Functor.map,
      Except.map]
  | none =>
    cases hmake : createToken (review.arguments.request e.endpoint) with
    | error ex =>
      refine ⟨3, ?_⟩
      simp [List.replicate_succ, runThread, ReviewCall.advance, getOrCreate, hentry, hmake,
        Functor.map, Except.map, bind, Except.bind]
    | ok entry =>
      refine ⟨4, ?_⟩
      simp [List.replicate_succ, runThread, ReviewCall.advance, getOrCreate, hentry, hmake,
        Functor.map, Except.map]

def Gateway.Refusing (g : Gateway) (review : Review) : Prop :=
  g.cache review.arguments.cacheKey = some ⟨some "", none⟩

def ReviewStage.waiting : ReviewStage → Bool
  | .requesting => true
  | .answered _ => true
  | _ => false

namespace ReviewCall

def Clear (review : Review) (call : ReviewCall) : Prop :=
  call.review.Alike review → call.stage.waiting = false

/-- A call for another repository, or one that sends nothing but a review without a token. -/
def Powerless (review : Review) (call : ReviewCall) : Prop :=
  call.review.Alike review →
    match call.stage with
    | .looking => call.sent = []
    | .requesting => False
    | .answered _ => False
    | .authorized installationToken => installationToken = "" ∧ call.sent = []
    | .finished _ => call.sent = [.review (reviewRequest call.review "")]

/-- No call makes good what a refusal left behind. -/
theorem advance_refusing {refused : Review} {e : ReviewAdvance} {g g' : Gateway}
    {call call' : ReviewCall} (hg : g.Refusing refused) (hcall : call.Clear refused)
    (h : call.advance e g = some (g', call')) :
    g'.Refusing refused ∧ call'.Clear refused ∧
      (call.Powerless refused → call'.Powerless refused) := by
  obtain ⟨review, stage, hitAt, sent⟩ := call
  cases stage with
  | looking =>
    simp only [advance] at h
    split at h
    next entry hentry =>
      obtain ⟨rfl, rfl⟩ := Prod.mk.inj (Option.some.inj h)
      refine ⟨hg, fun _ => rfl, ?_⟩
      intro hpowerless hsame
      obtain ⟨hstored, -⟩ := Option.filter_eq_some_iff.mp hentry
      have hentry' : entry = ⟨some "", none⟩ := by
        rw [cacheKey_eq_iff_alike.mpr hsame, hg] at hstored
        exact (Option.some.inj hstored).symm
      exact ⟨by rw [hentry']; rfl, hpowerless hsame⟩
    next hdead =>
      obtain ⟨rfl, rfl⟩ := Prod.mk.inj (Option.some.inj h)
      have hother : ¬ review.Alike refused := by
        intro hsame
        rw [Cache.liveEntry, cacheKey_eq_iff_alike.mpr hsame, hg] at hdead
        cases hdead
      exact ⟨hg, fun hsame => absurd hsame hother, fun _ hsame => absurd hsame hother⟩
  | requesting =>
    obtain ⟨rfl, rfl⟩ := Prod.mk.inj (Option.some.inj h)
    have hother : ¬ review.Alike refused := fun hsame => Bool.noConfusion (hcall hsame)
    exact ⟨hg, fun hsame => absurd hsame hother, fun _ hsame => absurd hsame hother⟩
  | answered result =>
    have hother : ¬ review.Alike refused := fun hsame => Bool.noConfusion (hcall hsame)
    simp only [advance] at h
    split at h
    next ex =>
      obtain ⟨rfl, rfl⟩ := Prod.mk.inj (Option.some.inj h)
      exact ⟨hg, fun hsame => absurd hsame hother, fun _ hsame => absurd hsame hother⟩
    next entry hmake =>
      obtain ⟨rfl, rfl⟩ := Prod.mk.inj (Option.some.inj h)
      refine ⟨?_, fun hsame => absurd hsame hother, fun _ hsame => absurd hsame hother⟩
      have hkey : refused.arguments.cacheKey ≠ review.arguments.cacheKey :=
        fun hkey => hother (cacheKey_eq_iff_alike.mp hkey.symm)
      change Function.update g.cache review.arguments.cacheKey (some entry) _ = _
      rw [Function.update_of_ne hkey]
      exact hg
  | authorized token =>
    obtain ⟨rfl, rfl⟩ := Prod.mk.inj (Option.some.inj h)
    refine ⟨hg, fun _ => rfl, ?_⟩
    intro hpowerless hsame
    obtain ⟨htoken, hsent⟩ := hpowerless hsame
    change sent ++ reviewRequests review token = _
    dsimp only at hsent
    rw [hsent, htoken]
    rfl
  | finished result => cases h

end ReviewCall

end HwoodiwissHelper.GitHub
