import HwoodiwissHelper.GitHub.WebhookSpecs

/-!
# Automatic approval is safe

A review is requested only in a request whose complete body was validated before it was parsed, for
the pull request of a bot that is allowed, and it is requested once.
-/

namespace HwoodiwissHelper.GitHub

open Throwing

variable (p : Platform)

def reviews (effects : List Effect) : List Review :=
  effects.filterMap fun
    | .reviewed review => some review
    | _ => none

/-- A request that asks for a review, by all the conditions. -/
structure Approvable (p : Platform) (x : Exchange) (data : PullRequestData) : Prop where
  validated : .validated x.request.body true ∈ x.effects
  event : bindHeader x.request.githubEvent = some "pull_request"
  parses : Parses p x.request.body data
  bot : FromAllowedBot p x.server.githubOptions data

structure AutoApprovalSafe (p : Platform) (x : Exchange) : Prop where
  /-- A review is requested only for the payload of an approvable request. -/
  only_if : ∀ review, .reviewed review ∈ x.effects →
    ∃ data, Approvable p x data ∧ ReviewOf data review
  /-- The body is validated before it is parsed, and both see all of its bytes. -/
  in_order : ∀ review, .reviewed review ∈ x.effects →
    ∃ logs, (∀ effect ∈ logs, effect = Effect.logged x.request.body) ∧
      x.effects = .validated x.request.body true ::
        (logs ++ [.parsed x.request.body, .reviewed review])
  at_most_one : (reviews x.effects).length ≤ 1
  /-- An approvable request that ends without an exception requests its review. -/
  exactly_one : ∀ data, Approvable p x data → ∀ response, x.result = .ok response →
    ∃ review, reviews x.effects = [review] ∧ ReviewOf data review

theorem reviews_eq_nil {effects : List Effect} (h : ∀ review, .reviewed review ∉ effects) :
    reviews effects = [] := by
  apply List.filterMap_eq_nil_iff.mpr
  intro effect heffect
  cases effect with
  | reviewed review => exact absurd heffect (h review)
  | validated | logged | parsed => rfl

theorem AutoApprovalSafe.of_quiet {p : Platform} {x : Exchange}
    (hquiet : ∀ review, .reviewed review ∉ x.effects)
    (hmissed : ∀ data, Approvable p x data → ∃ ex, x.result = .error ex) :
    AutoApprovalSafe p x where
  only_if review h := absurd h (hquiet review)
  in_order review h := absurd h (hquiet review)
  at_most_one := by simp [reviews_eq_nil hquiet]
  exactly_one data h response hresult := by
    obtain ⟨ex, hex⟩ := hmissed data h
    simp [hex] at hresult

theorem AutoApprovalSafe.of_answered {p : Platform} {request : WebhookRequest} {server : Server}
    {result : Except Exception Response} {effects : List Effect}
    (h : Answered p server.githubOptions request result effects) :
    AutoApprovalSafe p ⟨request, server, result, effects⟩ := by
  cases h with
  | refused _ _ heffects =>
    refine .of_quiet (by rcases heffects with rfl | rfl <;> simp) ?_
    intro data h
    have hvalidated := h.validated
    rcases heffects with rfl | rfl <;> simp at hvalidated
  | unbound hevent =>
    refine .of_quiet (by simp) ?_
    intro data h
    have hbound := h.event
    simp [hevent] at hbound
  | served githubEvent _ added hevent hserved =>
    cases hserved with
    | quiet _ _ hquiet hmissed =>
      refine .of_quiet (by simpa using hquiet) ?_
      intro data h
      have hpull : githubEvent = "pull_request" := Option.some.inj (hevent.symm.trans h.event)
      exact hmissed data hpull h.parses h.bot
    | reviewed data logs review hpull hparses hbot hreview hlogs =>
      have happrovable : Approvable p ⟨request, server, .ok .noContent,
          .validated request.body true :: (logs ++ [.parsed request.body, .reviewed review])⟩ data :=
        ⟨by simp, hpull ▸ hevent, hparses, hbot⟩
      have hlogged (r : Review) : .reviewed r ∉ logs := by
        intro h
        cases hlogs _ h
      have hmem (r : Review) (h : .reviewed r ∈ Effect.validated request.body true ::
          (logs ++ [.parsed request.body, .reviewed review])) : r = review := by
        simpa [hlogged r] using h
      have hreviews : reviews (.validated request.body true ::
          (logs ++ [.parsed request.body, .reviewed review])) = [review] := by
        have hnil := reviews_eq_nil hlogged
        simp only [reviews] at hnil
        simp [reviews, hnil]
      refine ⟨?_, ?_, by simp [hreviews], ?_⟩
      · intro r hr
        obtain rfl := hmem r hr
        exact ⟨data, happrovable, hreview⟩
      · intro r hr
        obtain rfl := hmem r hr
        exact ⟨logs, hlogs, rfl⟩
      · intro data' h _ _
        obtain rfl : data = data' := parses_unique hparses h.parses
        exact ⟨review, hreviews, hreview⟩

theorem answered_post (s : Server) (env : Environment) (request : WebhookRequest) :
    ∃ result effects, (s.post p env request).1 = ⟨request, s, result, effects⟩ ∧
      Answered p s.githubOptions request result effects := by
  have hc : (s.receive env request).Rewound request.body := ⟨rfl, rfl, rfl⟩
  obtain ⟨added, heffects, h⟩ := handleRequest_spec p env request hc
  refine ⟨_, added, ?_, h⟩
  simp only [Server.post, heffects]
  rfl

/-- Every request of every run is safe, whatever the configuration is and becomes. -/
theorem autoApproval_safe (s : Server) (events : List ServerEvent) :
    ∀ x ∈ s.serve p events, AutoApprovalSafe p x := by
  induction events generalizing s with
  | nil => simp [Server.serve]
  | cons event events ih =>
    cases event with
    | reload configuration => exact ih (s.reload configuration)
    | post env request =>
      intro x hx
      rcases List.mem_cons.mp hx with rfl | hx
      · obtain ⟨result, effects, hpost, h⟩ := answered_post p s env request
        change AutoApprovalSafe p (s.post p env request).1
        rw [hpost]
        exact .of_answered h
      · exact ih _ x hx

def renovateText : String :=
  "\x7b\"action\":\"opened\",\"number\":7,\"pull_request\":\x7b\"number\":7,\"user\":" ++
  "\x7b\"login\":\"renovate[bot]\",\"type\":\"Bot\"\x7d\x7d,\"repository\":\x7b" ++
  "\"name\":\"HwoodiwissHelper\",\"owner\":\x7b\"login\":\"hwoodiwiss\"," ++
  "\"type\":\"User\"\x7d\x7d,\"sender\":\x7b\"login\":\"renovate[bot]\"," ++
  "\"type\":\"Bot\"\x7d,\"installation\":\x7b\"id\":5\x7d\x7d"

def renovateBody : List UInt8 := renovateText.toUTF8.data.toList

def renovateData : PullRequestData where
  sender := some ⟨some "renovate[bot]", none, .bot⟩
  installation := some ⟨5⟩
  number := 7
  pullRequest := some ⟨7, some ⟨some "renovate[bot]", none, .bot⟩⟩
  repository := some ⟨some "HwoodiwissHelper", some ⟨some "hwoodiwiss", none, .user⟩⟩

def renovatePlatform : Platform where
  hmacSha256 key message :=
    if key = utf8 "It's a Secret to Everybody" ∧ message = renovateBody then
      [15, 143, 178, 188, 197, 63, 109, 66, 53, 13, 109, 217, 31, 75, 115, 108, 33, 161, 26, 76,
        223, 129, 154, 128, 249, 24, 16, 40, 199, 119, 92, 179]
    else
      []
  ordinalUpper := List.map fun c => if 97 ≤ c ∧ c ≤ 122 then c - 32 else c
  deserializeWorkflowRun _ := .error ⟨"JsonException", []⟩
  deserializePullRequest bytes :=
    if bytes = renovateBody then
      .ok (some (.opened renovateData))
    else
      .error ⟨"JsonException", []⟩

def renovateRequest : WebhookRequest where
  githubEvent := ["pull_request"]
  signature := ["sha256=0f8fb2bcc53f6d42350d6dd91f4b736c21a11a4cdf819a80f9181028c7775cb3"]
  body := renovateBody

/-- The body arrives in three pieces, and somebody listens to activities. -/
def renovateEnvironment : Environment where
  arrivals := [.upTo 99, .upTo 49]
  buffer := ⟨List.replicate 4096 255, Nat.le_of_eq List.length_replicate.symm⟩
  startActivity := fun _ => true
  createPullRequestReview := fun _ => .ok (.success ())

def renovateServer : Server where
  configuration := .ok ⟨some "It's a Secret to Everybody", true, some [some "Renovate[bot]"]⟩
  keyBytes := none
  options := none

theorem autoApproval_safe_renovate :
    ∃ x ∈ renovateServer.serve renovatePlatform [.post renovateEnvironment renovateRequest],
      AutoApprovalSafe renovatePlatform x ∧
        reviews x.effects = [⟨some "hwoodiwiss", some "HwoodiwissHelper", 7, 5,
          "Automatically approving pull request", .approve⟩] := by
  have hx : (renovateServer.post renovatePlatform renovateEnvironment renovateRequest).1 ∈
      renovateServer.serve renovatePlatform [.post renovateEnvironment renovateRequest] := by
    simp only [Server.serve, List.mem_singleton]
  exact ⟨_, hx, autoApproval_safe _ _ _ _ hx, by decide +kernel⟩

end HwoodiwissHelper.GitHub
