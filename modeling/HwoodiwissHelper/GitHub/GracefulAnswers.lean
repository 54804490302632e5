import HwoodiwissHelper.GitHub.SignatureFilter

/-!
# How signed requests are answered

Whatever a body holds, the endpoint parses it without an exception: it catches what the
deserialiser throws. The handlers are outside of that `try`, and a member that is explicitly null
makes them throw. A request is answered exactly when the members that its handler reads are there.
-/

namespace HwoodiwissHelper.GitHub

open Throwing

/-- What `JsonSerializer` throws. -/
structure Platform.RefusesAsDocumented (p : Platform) : Prop where
  workflowRun : ∀ bytes ex, p.deserializeWorkflowRun bytes = .error ex →
    (ex.is "JsonException" || ex.is "NotSupportedException") = true
  pullRequest : ∀ bytes ex, p.deserializePullRequest bytes = .error ex →
    (ex.is "JsonException" || ex.is "NotSupportedException") = true

def readEvent (p : Platform) (githubEvent : String) (bytes : List UInt8) :
    Option GitHubWebhookEvent :=
  if githubEvent = "workflow_run" then
    (p.deserializeWorkflowRun bytes).toOption.join.map .workflowRun
  else if githubEvent = "pull_request" then
    (p.deserializePullRequest bytes).toOption.join.map .pullRequest
  else
    none

variable {p : Platform} {env : Environment}

theorem logUnread_returns {ex : Exception}
    (hex : (ex.is "JsonException" || ex.is "NotSupportedException") = true) {c : Context}
    (hseek : c.body.canSeek = true) :
    wp (logUnread ex) (fun r c' => r = .ok none ∧ c'.server = c.server) c := by
  rw [logUnread, if_pos hex, wp_bind, wp_getRequestBodyText hseek]
  simp only [then_ok, wp_bind, wp_emit, wp_pure]
  exact ⟨trivial, trivial⟩

theorem parsed_returns {α : Type} {deserialize : List UInt8 → Except Exception (Option α)}
    (toEvent : α → GitHubWebhookEvent) {c : Context} {bytes : List UInt8} (hc : c.Rewound bytes)
    (hrefuses : ∀ ex, deserialize bytes = .error ex →
      (ex.is "JsonException" || ex.is "NotSupportedException") = true) :
    wp (do
        let event ← deserializeAsync deserialize
        return event.map toEvent)
      (Caught logUnread fun r c' =>
        r = .ok ((deserialize bytes).toOption.join.map toEvent) ∧ c'.server = c.server) c := by
  rw [wp_bind, wp_deserializeAsync _ hc]
  cases hevent : deserialize bytes with
  | ok event => exact ⟨rfl, rfl⟩
  | error ex =>
    rw [then_error, caught_error]
    exact logUnread_returns (hrefuses ex hevent) hc.canSeek

theorem getGithubEvent_returns (hp : p.RefusesAsDocumented) (githubEvent : String) {c : Context}
    {bytes : List UInt8} (hc : c.Rewound bytes) :
    wp (getGithubEvent p githubEvent)
      (fun r c' => r = .ok (readEvent p githubEvent bytes) ∧ c'.server = c.server) c := by
  rw [getGithubEvent, wp_tryCatch, readEvent]
  split
  · exact parsed_returns .workflowRun hc (hp.workflowRun bytes)
  · split
    · exact parsed_returns .pullRequest hc (hp.pullRequest bytes)
    · exact ⟨rfl, rfl⟩

theorem returnsIff_deref_bind {α β : Type} {a : Option α} {k : α → Handling β} {c : Context}
    {b : β} {P : α → Prop} (hk : ∀ x, ReturnsIff (k x) c b (P x)) :
    ReturnsIff (deref a >>= k) c b (∃ x, a = some x ∧ P x) := by
  cases a with
  | none => exact (returnsIff_throw _ _ _).congr (by simp)
  | some x => exact (hk x).congr (by simp)

def TagsPresent (env : Environment) (readsOwner : Prop) (data : PullRequestData)
    (pullRequest : PullRequestInfo) : Prop :=
  env.startActivity "Handling Pull Request Opened Event" = true →
    ∃ repository, data.repository = some repository ∧
      (readsOwner → ∃ owner, repository.owner = some owner) ∧ ∃ user, pullRequest.user = some user

theorem tagActivity_returns {tagOwner : Repository → Handling Unit} {readsOwner : Prop}
    {c : Context} (htag : ∀ repository, Silent (tagOwner repository) ∧
      ReturnsIff (tagOwner repository) c () (readsOwner → ∃ owner, repository.owner = some owner))
    (data : PullRequestData) (pullRequest : PullRequestInfo) :
    ReturnsIff (tagActivity env tagOwner data pullRequest) c ()
      (TagsPresent env readsOwner data pullRequest) := by
  unfold tagActivity TagsPresent
  split
  next hlistens =>
    simp only [hlistens, true_imp_iff]
    apply returnsIff_deref_bind
    intro repository
    refine .bind (htag repository).1 (htag repository).2 ?_
    exact (returnsIff_deref_bind fun user => returnsIff_pure () c).congr (by simp)
  next hlistens => exact (returnsIff_pure () c).congr (by simp [hlistens])

def ReviewPresent (data : PullRequestData) : Prop :=
  ∃ repository, data.repository = some repository ∧ (∃ owner, repository.owner = some owner) ∧
    ∃ installation, data.installation = some installation

theorem approvePullRequestAsync_returns (repoOwner repoName : Option String)
    (pullRequestNumber installationId : Int) (c : Context) :
    ReturnsIff (approvePullRequestAsync env repoOwner repoName pullRequestNumber installationId) c
      () True := by
  apply wp_mono (approvePullRequestAsync_spec env _ _ _ _ c)
  rintro r c' ⟨rfl, -⟩
  exact iff_of_true rfl trivial

theorem approveAllowedBot_returns {configuration : GitHubConfiguration} {c : Context}
    (hoptions : c.server.githubOptions = .ok configuration) (data : PullRequestData)
    (pullRequest : PullRequestInfo) :
    ReturnsIff (approveAllowedBot p env data pullRequest) c ()
      (∃ user, pullRequest.user = some user ∧
        (user.type = .bot → allowsBot p configuration user.login = true → ReviewPresent data)) := by
  apply returnsIff_deref_bind
  intro user
  split
  next hbot =>
    have hvalue : eval githubOptionsValue c = (.ok configuration,
        { c with server := { c.server with options := some configuration } }) := by
      simp only [githubOptionsValue, eval_get_bind, hoptions]
      rfl
    apply returnsIff_bind_of_eval hvalue
    simp only [hbot, true_imp_iff]
    split
    next hallows =>
      simp only [hallows, true_imp_iff]
      apply returnsIff_deref_bind
      intro repository
      exact (returnsIff_deref_bind fun owner => returnsIff_deref_bind fun installation =>
        approvePullRequestAsync_returns _ _ _ _ _).congr (by simp)
    next hallows => exact (returnsIff_pure () _).congr (by simp [hallows])
  next hbot => exact (returnsIff_pure () c).congr (by simp [hbot])

def PullRequestPresent (p : Platform) (env : Environment)
    (options : Except Exception GitHubConfiguration) (readsOwner : Prop)
    (data : PullRequestData) : Prop :=
  ∃ pullRequest, data.pullRequest = some pullRequest ∧
    (∃ user, pullRequest.user = some user) ∧ TagsPresent env readsOwner data pullRequest ∧
    (FromAllowedBot p options data → ReviewPresent data)

theorem handlePullRequest_returns {tagOwner : Repository → Handling Unit} {readsOwner : Prop}
    {configuration : GitHubConfiguration} {c : Context}
    (hoptions : c.server.githubOptions = .ok configuration)
    (htag : ∀ repository, Silent (tagOwner repository) ∧
      ReturnsIff (tagOwner repository) c () (readsOwner → ∃ owner, repository.owner = some owner))
    (data : PullRequestData) :
    ReturnsIff (handlePullRequest p env tagOwner data) c .noContent
      (PullRequestPresent p env c.server.githubOptions readsOwner data) := by
  refine (returnsIff_deref_bind fun pullRequest =>
    .bind (silent_tagActivity env (fun repository => (htag repository).1) data pullRequest)
      (tagActivity_returns htag data pullRequest)
      ((approveAllowedBot_returns hoptions data pullRequest).andThen _)).congr ?_
  refine exists_congr fun pullRequest => and_congr_right fun hpullRequest => ?_
  cases huser : pullRequest.user with
  | none => simp
  | some user =>
    have hbot : FromAllowedBot p c.server.githubOptions data ↔
        user.type = .bot ∧ allowsBot p configuration user.login = true := by
      simp [fromAllowedBot_iff p _ hpullRequest huser, hoptions]
    simp [hbot]

theorem pullRequestOpenedHandler_returns {configuration : GitHubConfiguration} {c : Context}
    (hoptions : c.server.githubOptions = .ok configuration) (data : PullRequestData) :
    ReturnsIff (pullRequestOpenedHandler p env data) c .noContent
      (PullRequestPresent p env c.server.githubOptions True data) := by
  refine handlePullRequest_returns hoptions (fun repository => ⟨?_, ?_⟩) data
  · exact (silent_deref _).bind fun _ => silent_pure _
  · exact (returnsIff_deref_bind fun _ => returnsIff_pure () c).congr (by simp)

theorem pullRequestSynchronizeHandler_returns {configuration : GitHubConfiguration} {c : Context}
    (hoptions : c.server.githubOptions = .ok configuration) (data : PullRequestData) :
    ReturnsIff (pullRequestSynchronizeHandler p env data) c .noContent
      (PullRequestPresent p env c.server.githubOptions False data) := by
  refine handlePullRequest_returns hoptions (fun repository => ⟨silent_pure _, ?_⟩) data
  exact (returnsIff_pure () c).congr (by simp)

def EventTagsPresent (env : Environment) (event : GitHubWebhookEvent) : Prop :=
  env.startActivity "Handling Github Webhook Event" = true →
    (∃ sender, event.sender = some sender) ∧ ∃ installation, event.installation = some installation

theorem tagEvent_returns (event : GitHubWebhookEvent) (c : Context) :
    ReturnsIff (tagEvent env event) c () (EventTagsPresent env event) := by
  unfold tagEvent EventTagsPresent
  split
  next hlistens =>
    exact (returnsIff_deref_bind fun _ => returnsIff_deref_bind fun _ =>
      returnsIff_pure () c).congr (by simp [hlistens])
  next hlistens => exact (returnsIff_pure () c).congr (by simp [hlistens])

/-- The members that are read of an event: none, when no handler is registered for it. -/
def MembersPresent (p : Platform) (env : Environment)
    (options : Except Exception GitHubConfiguration) (event : GitHubWebhookEvent) : Prop :=
  match event with
  | .pullRequest (.opened data) =>
    EventTagsPresent env event ∧ PullRequestPresent p env options True data
  | .pullRequest (.synchronize data) =>
    EventTagsPresent env event ∧ PullRequestPresent p env options False data
  | .workflowRun (.completed _) => EventTagsPresent env event
  | .workflowRun (.inProgress _) => True
  | .workflowRun (.requested _) => True

theorem dispatch_returns {configuration : GitHubConfiguration} {c : Context}
    (hoptions : c.server.githubOptions = .ok configuration) (event : Option GitHubWebhookEvent) :
    ReturnsIff (dispatch p env event) c .noContent
      (∀ event', event = some event' → MembersPresent p env c.server.githubOptions event') := by
  have hhandled {m : Handling Response} {event' : GitHubWebhookEvent} {P : Prop}
      (hm : ReturnsIff m c .noContent P) :
      ReturnsIff (tagEvent env event' >>= fun _ => m) c .noContent
        (EventTagsPresent env event' ∧ P) :=
    .bind (silent_tagEvent env event') (tagEvent_returns event' c) hm
  rcases event with _ | (⟨data⟩ | ⟨data⟩) | (⟨data⟩ | ⟨data⟩ | ⟨data⟩)
  · exact (returnsIff_pure _ c).congr (by simp)
  · exact (hhandled (pullRequestOpenedHandler_returns hoptions data)).congr
      (by simp [MembersPresent])
  · exact (hhandled (pullRequestSynchronizeHandler_returns hoptions data)).congr
      (by simp [MembersPresent])
  · exact (hhandled (returnsIff_pure _ c)).congr (by simp [MembersPresent])
  · exact (returnsIff_pure _ c).congr (by simp [MembersPresent])
  · exact (returnsIff_pure _ c).congr (by simp [MembersPresent])

theorem githubOptions_of_configuration {s : Server} {configuration : GitHubConfiguration}
    (h : s.configuration = .ok configuration) : ∃ options, s.githubOptions = .ok options := by
  unfold Server.githubOptions
  cases s.options with
  | none => exact ⟨configuration, h⟩
  | some options => exact ⟨options, rfl⟩

theorem webhook_returns (hp : p.RefusesAsDocumented) (githubEvent : String) {c : Context}
    {bytes : List UInt8} (hc : c.Rewound bytes) :
    ReturnsIff (webhook p env githubEvent) c .noContent
      ((∃ configuration, c.server.configuration = .ok configuration) ∧
        ∀ event, readEvent p githubEvent bytes = some event →
          MembersPresent p env c.server.githubOptions event) := by
  simp only [ReturnsIff, webhook, wp_bind, wp_get, then_ok, wp_ofExcept]
  cases hconfiguration : c.server.configuration with
  | error ex => exact iff_of_false (by simp) (by simp)
  | ok configuration =>
    obtain ⟨options, hoptions⟩ := githubOptions_of_configuration hconfiguration
    rw [then_ok, wp_bind, and_iff_right ⟨configuration, rfl⟩]
    apply wp_mono (logRequest_spec configuration hc)
    rintro _ c₁ ⟨rfl, hserver, hc₁, -⟩
    rw [then_ok, wp_bind]
    apply wp_mono (getGithubEvent_returns hp githubEvent hc₁)
    rintro _ c₂ ⟨rfl, hserver₂⟩
    rw [then_ok, ← hserver, ← hserver₂]
    rw [← hserver, ← hserver₂] at hoptions
    exact dispatch_returns hoptions (readEvent p githubEvent bytes)

/-- The options can be made, the body can be read, and no member is null that the handler of its
event reads. -/
structure GracefullyAnswerable (p : Platform) (env : Environment) (s : Server)
    (request : WebhookRequest) (githubEvent : String) : Prop where
  configured : ∃ configuration, s.configuration = .ok configuration
  readable : BodyStream.Readable env.buffer.bytes.length env.arrivals request.body.length
  present : ∀ event, readEvent p githubEvent request.body = some event →
    MembersPresent p env s.githubOptions event

/-- A signed request with an event header is answered with 204 exactly when everything is there that
its handling reads. -/
theorem answers_gracefully_iff (hp : p.AsDocumented) (hrefuses : p.RefusesAsDocumented)
    {s : Server} (hs : s.Reachable p) {key : List UInt8} (hkey : s.webhookKey = some key)
    (env : Environment) {request : WebhookRequest} {value githubEvent : String}
    (hvalue : request.signature = [value])
    (hsigned : DocumentedSignature p key request.body value)
    (hevent : bindHeader request.githubEvent = some githubEvent) :
    (s.post p env request).1.result = .ok .noContent ↔
      GracefullyAnswerable p env s request githubEvent := by
  change (eval (handleRequest p env request) (s.receive env request)).1 = .ok .noContent ↔ _
  obtain ⟨htake, hdigest⟩ := (documentedSignature_iff hp value).mp hsigned
  have hlong : 7 ≤ (asMemory value).length := by
    have hlength := congrArg List.length htake
    rw [List.length_take] at hlength
    change min 7 (asMemory value).length = 7 at hlength
    omega
  have hc : (s.receive env request).Rewound request.body := ⟨rfl, rfl, rfl⟩
  rw [handleRequest, hvalue, hevent]
  rcases filter_compares p env.buffer hc hs.keyCurrent hkey hlong with
    ⟨hreadable, c', hserver, hc', hfilter⟩ | ⟨hunreadable, ex, c', hfilter⟩
  · rw [hfilter, if_pos (hp.equalsIgnoreCase_iff _ |>.mpr hdigest)]
    apply (webhook_returns hrefuses githubEvent hc').trans
    rw [hserver]
    exact ⟨fun h => ⟨h.1, hreadable, h.2⟩, fun h => ⟨h.1, h.3⟩⟩
  · rw [hfilter]
    exact iff_of_false (by simp) fun h => hunreadable h.readable

def openedText (user sender : String) : String :=
  "\x7b\"action\":\"opened\",\"number\":7,\"pull_request\":\x7b\"number\":7,\"user\":" ++
  user ++ "\x7d,\"repository\":\x7b\"name\":\"HwoodiwissHelper\",\"owner\":" ++
  "\x7b\"login\":\"hwoodiwiss\",\"type\":\"User\"\x7d\x7d,\"sender\":" ++ sender ++
  ",\"installation\":\x7b\"id\":5\x7d\x7d"

def hwoodiwiss : String := "\x7b\"login\":\"hwoodiwiss\",\"type\":\"User\"\x7d"

def ghostBody : List UInt8 := (openedText "null" hwoodiwiss).toUTF8.data.toList

def senderlessBody : List UInt8 := (openedText hwoodiwiss "null").toUTF8.data.toList

def openedData (user sender : Option Actor) : PullRequestData where
  sender := sender
  installation := some ⟨5⟩
  number := 7
  pullRequest := some ⟨7, user⟩
  repository := some ⟨some "HwoodiwissHelper", some ⟨some "hwoodiwiss", none, .user⟩⟩

def openedPlatform : Platform where
  hmacSha256 key message :=
    if key = utf8 "It's a Secret to Everybody" ∧ message = ghostBody then
      [14, 248, 46, 170, 10, 175, 228, 14, 174, 59, 185, 189, 147, 225, 161, 246, 206, 238, 222,
        248, 68, 80, 137, 30, 67, 100, 105, 170, 130, 234, 124, 160]
    else if key = utf8 "It's a Secret to Everybody" ∧ message = senderlessBody then
      [105, 253, 18, 230, 74, 179, 76, 220, 93, 49, 128, 170, 99, 123, 105, 178, 159, 120, 136,
        217, 227, 161, 15, 246, 246, 121, 29, 235, 252, 96, 195, 69]
    else
      List.replicate 32 0
  ordinalUpper := List.map upperAscii
  deserializeWorkflowRun _ := .error ⟨"JsonException", []⟩
  deserializePullRequest bytes :=
    if bytes = ghostBody then
      .ok (some (.opened (openedData none (some ⟨some "hwoodiwiss", none, .user⟩))))
    else if bytes = senderlessBody then
      .ok (some (.opened (openedData (some ⟨some "hwoodiwiss", none, .user⟩) none)))
    else
      .error ⟨"JsonException", []⟩

def ghostRequest : WebhookRequest where
  githubEvent := ["pull_request"]
  signature := ["sha256=0ef82eaa0aafe40eae3bb9bd93e1a1f6ceeedef84450891e436469aa82ea7ca0"]
  body := ghostBody

def senderlessRequest : WebhookRequest where
  githubEvent := ["pull_request"]
  signature := ["sha256=69fd12e64ab34cdc5d3180aa637b69b29f7888d9e3a10ff6f6791debfc60c345"]
  body := senderlessBody

theorem openedPlatform_asDocumented : openedPlatform.AsDocumented where
  digest_length key message := by
    simp only [openedPlatform]
    split
    · rfl
    · split <;> rfl
  equalsIgnoreCase_digits signature bytes := beq_iff_eq

theorem openedPlatform_refusesAsDocumented : openedPlatform.RefusesAsDocumented where
  workflowRun bytes ex h := by
    cases h
    rfl
  pullRequest bytes ex h := by
    simp only [openedPlatform] at h
    split at h
    · cases h
    · split at h
      · cases h
      · cases h
        rfl

/-- Nobody listens, so that the sender is not read. -/
theorem answers_gracefully_senderless :
    (helloServer.post openedPlatform helloEnvironment senderlessRequest).1.result =
      .ok .noContent := by
  have hvalue : senderlessRequest.signature =
      ["sha256=69fd12e64ab34cdc5d3180aa637b69b29f7888d9e3a10ff6f6791debfc60c345"] := rfl
  have hsigned : DocumentedSignature openedPlatform (utf8 "It's a Secret to Everybody")
      senderlessRequest.body
      "sha256=69fd12e64ab34cdc5d3180aa637b69b29f7888d9e3a10ff6f6791debfc60c345" := by
    rw [documentedSignature_iff openedPlatform_asDocumented]
    decide +kernel
  have hbound : bindHeader senderlessRequest.githubEvent = some "pull_request" := rfl
  have hreachable : helloServer.Reachable openedPlatform := .start _
  have hgraceful := answers_gracefully_iff openedPlatform_asDocumented
    openedPlatform_refusesAsDocumented hreachable helloServer_webhookKey helloEnvironment hvalue
    hsigned hbound
  refine hgraceful.mpr ⟨⟨_, rfl⟩, .inr trivial, ?_⟩
  have hread : readEvent openedPlatform "pull_request" senderlessRequest.body =
      some (.pullRequest (.opened (openedData (some ⟨some "hwoodiwiss", none, .user⟩) none))) := by
    decide +kernel
  rintro event hevent
  obtain rfl := Option.some.inj (hread.symm.trans hevent)
  refine ⟨nofun, _, rfl, ⟨_, rfl⟩, nofun, ?_⟩
  rintro ⟨pullRequest, user, configuration, hpullRequest, huser, hbot, -⟩
  cases hpullRequest
  cases huser
  cases hbot

/-- The user of the pull request was deleted, and its payload has a null in their place. -/
theorem null_user_throws :
    DocumentedSignature openedPlatform (utf8 "It's a Secret to Everybody") ghostRequest.body
        "sha256=0ef82eaa0aafe40eae3bb9bd93e1a1f6ceeedef84450891e436469aa82ea7ca0" ∧
      (helloServer.post openedPlatform helloEnvironment ghostRequest).1.result =
        .error ⟨"NullReferenceException", []⟩ := by
  rw [documentedSignature_iff openedPlatform_asDocumented]
  decide +kernel

end HwoodiwissHelper.GitHub
