import HwoodiwissHelper.GitHub.HandlerSpecs
import HwoodiwissHelper.GitHub.Webhook

/-!
# What the endpoint and its filter do

The specifications follow a request through the parts that share its body. Each part finds the body
rewound, and leaves it so to the next reader.
-/

namespace HwoodiwissHelper.GitHub

open Throwing

variable (p : Platform) (env : Environment)

/-- A body that is read as an opened or a synchronized pull request. -/
def Parses (p : Platform) (bytes : List UInt8) (data : PullRequestData) : Prop :=
  p.deserializePullRequest bytes = .ok (some (.opened data)) ∨
  p.deserializePullRequest bytes = .ok (some (.synchronize data))

/-- What the endpoint reads of a body, with the effects. -/
inductive EventRead (p : Platform) (bytes : List UInt8) (githubEvent : String) :
    Except Exception (Option GitHubWebhookEvent) → List Effect → Prop where
  | pullRequest (event : Option PullRequest) (hevent : githubEvent = "pull_request")
      (hparse : p.deserializePullRequest bytes = .ok event) :
      EventRead p bytes githubEvent (.ok (event.map .pullRequest)) [.parsed bytes]
  | workflowRun (event : Option WorkflowRun) (hevent : githubEvent = "workflow_run") :
      EventRead p bytes githubEvent (.ok (event.map .workflowRun)) [.parsed bytes]
  | unknown (hevent : githubEvent ≠ "pull_request") : EventRead p bytes githubEvent (.ok none) []
  | unread (r : Except Exception (Option GitHubWebhookEvent)) (logs : List Effect)
      (hr : ∀ event, r ≠ .ok (some event))
      (hparse : githubEvent = "pull_request" → ∀ event, p.deserializePullRequest bytes ≠ .ok event)
      (hlogs : ∀ effect ∈ logs, effect = .logged bytes) :
      EventRead p bytes githubEvent r (.parsed bytes :: logs)

theorem wp_getRequestBodyText {c : Context} (hseek : c.body.canSeek = true)
    (Q : Except Exception (List UInt8) → Context → Prop) :
    wp getRequestBodyText Q c ↔
      Q (.ok c.body.bytes) { c with body := { c.body with position := c.body.bytes.length } } := by
  simp [getRequestBodyText, BodyStream.seek, BodyStream.remaining, hseek]

theorem wp_deserializeAsync {α : Type} (deserialize : List UInt8 → Except Exception (Option α))
    {c : Context} {bytes : List UInt8} (hc : c.Rewound bytes)
    (Q : Except Exception (Option α) → Context → Prop) :
    wp (deserializeAsync deserialize) Q c ↔
      Q (deserialize bytes) { c with
        body := { c.body with position := c.body.bytes.length }
        effects := c.effects ++ [.parsed bytes] } := by
  simp [deserializeAsync, hc.remaining]

theorem logRequest_spec (configuration : GitHubConfiguration) {c : Context} {bytes : List UInt8}
    (hc : c.Rewound bytes) :
    wp (logRequest configuration)
      (fun r c' => r = .ok () ∧ c'.server = c.server ∧ c'.Rewound bytes ∧
        ∃ logs, (∀ effect ∈ logs, effect = Effect.logged bytes) ∧
          c'.effects = c.effects ++ logs) c := by
  unfold logRequest
  split
  · rw [wp_bind, wp_getRequestBodyText hc.canSeek]
    simp only [then_ok, wp_bind, wp_emit, wp_onBody, BodyStream.seek, hc.canSeek, if_true]
    exact ⟨trivial, trivial, ⟨hc.bytes_eq, rfl, rfl⟩, [.logged bytes], by simp,
      by rw [hc.bytes_eq]⟩
  · exact ⟨rfl, rfl, hc, [], by simp, (List.append_nil _).symm⟩

theorem logUnread_spec (ex : Exception) {c : Context} (hseek : c.body.canSeek = true) :
    wp (logUnread ex)
      (fun r c' => c'.server = c.server ∧ (∀ event, r ≠ .ok (some event)) ∧
        ∃ logs, (∀ effect ∈ logs, effect = Effect.logged c.body.bytes) ∧
          c'.effects = c.effects ++ logs) c := by
  unfold logUnread
  split
  · rw [wp_bind, wp_getRequestBodyText hseek]
    simp only [then_ok, wp_bind, wp_emit, wp_pure]
    exact ⟨trivial, by simp, [.logged c.body.bytes], by simp, rfl⟩
  · rw [wp_throw]
    exact ⟨rfl, by simp, [], by simp, (List.append_nil _).symm⟩

/-- What a body that was parsed leads to: an event, or a caught exception. -/
theorem parsed_spec {α : Type} (deserialize : List UInt8 → Except Exception (Option α))
    (toEvent : α → GitHubWebhookEvent) {githubEvent : String} {c : Context} {bytes : List UInt8}
    (hc : c.Rewound bytes)
    (hread : ∀ event, deserialize bytes = .ok event →
      EventRead p bytes githubEvent (.ok (event.map toEvent)) [.parsed bytes])
    (hunread : ∀ ex, deserialize bytes = .error ex → githubEvent = "pull_request" →
      ∀ event, p.deserializePullRequest bytes ≠ .ok event) :
    wp (do
        let event ← deserializeAsync deserialize
        return event.map toEvent)
      (Caught logUnread fun r c' =>
        c'.server = c.server ∧ Adding c (EventRead p bytes githubEvent) r c') c := by
  rw [wp_bind, wp_deserializeAsync _ hc]
  cases hevent : deserialize bytes with
  | ok event => exact ⟨rfl, _, rfl, hread event hevent⟩
  | error ex =>
    rw [then_error, caught_error]
    refine wp_mono (logUnread_spec ex hc.canSeek) ?_
    rintro r c' ⟨hserver, hr, logs, hlogs, heffects⟩
    rw [hc.bytes_eq] at hlogs
    refine ⟨hserver, .parsed bytes :: logs, by simp [heffects], ?_⟩
    exact .unread r logs hr (hunread ex hevent) hlogs

theorem getGithubEvent_spec (githubEvent : String) {c : Context} {bytes : List UInt8}
    (hc : c.Rewound bytes) :
    wp (getGithubEvent p githubEvent)
      (fun r c' => c'.server = c.server ∧ Adding c (EventRead p bytes githubEvent) r c') c := by
  rw [getGithubEvent, wp_tryCatch]
  split
  next hevent =>
    exact parsed_spec p p.deserializeWorkflowRun .workflowRun hc
      (fun event _ => .workflowRun event hevent) (fun _ _ h => by simp [hevent] at h)
  next =>
    split
    next hevent =>
      exact parsed_spec p p.deserializePullRequest .pullRequest hc
        (fun event hparse => .pullRequest event hevent hparse)
        (fun ex hparse _ event h => by simp [hparse] at h)
    next hevent => exact ⟨rfl, [], (List.append_nil _).symm, .unknown hevent⟩

/-- How the endpoint answers a validated request, with the effects it adds. -/
inductive Served (p : Platform) (options : Except Exception GitHubConfiguration)
    (bytes : List UInt8) (githubEvent : String) :
    Except Exception Response → List Effect → Prop where
  | quiet (r : Except Exception Response) (added : List Effect)
      (hquiet : ∀ review, .reviewed review ∉ added)
      (hmissed : ∀ data, githubEvent = "pull_request" → Parses p bytes data →
        FromAllowedBot p options data → ∃ ex, r = .error ex) :
      Served p options bytes githubEvent r added
  | reviewed (data : PullRequestData) (logs : List Effect) (review : Review)
      (hevent : githubEvent = "pull_request") (hparses : Parses p bytes data)
      (hbot : FromAllowedBot p options data) (hreview : ReviewOf data review)
      (hlogs : ∀ effect ∈ logs, effect = .logged bytes) :
      Served p options bytes githubEvent (.ok .noContent)
        (logs ++ [.parsed bytes, .reviewed review])

theorem parses_iff {p : Platform} {bytes : List UInt8} {event : Option PullRequest}
    (h : p.deserializePullRequest bytes = .ok event) (data : PullRequestData) :
    Parses p bytes data ↔ event = some (.opened data) ∨ event = some (.synchronize data) := by
  simp [Parses, h]

theorem data_of_parses {p : Platform} {bytes : List UInt8} {event : PullRequest}
    {data : PullRequestData} (h : p.deserializePullRequest bytes = .ok (some event))
    (hparses : Parses p bytes data) : event.data = data := by
  rcases (parses_iff h data).mp hparses with h | h <;> cases h <;> rfl

theorem parses_data {p : Platform} {bytes : List UInt8} {event : PullRequest}
    (h : p.deserializePullRequest bytes = .ok (some event)) : Parses p bytes event.data := by
  cases event with
  | opened data => exact .inl h
  | synchronize data => exact .inr h

theorem parses_unique {p : Platform} {bytes : List UInt8} {data data' : PullRequestData}
    (h : Parses p bytes data) (h' : Parses p bytes data') : data = data' := by
  rcases h with h | h
  · exact data_of_parses h h'
  · exact data_of_parses h h'

theorem EventRead.quiet {p : Platform} {bytes : List UInt8} {githubEvent : String}
    {r : Except Exception (Option GitHubWebhookEvent)} {added : List Effect}
    (h : EventRead p bytes githubEvent r added) (review : Review) : .reviewed review ∉ added := by
  cases h with
  | pullRequest | workflowRun | unknown => simp
  | unread _ logs _ _ hlogs =>
    intro hmem
    rcases List.mem_cons.mp hmem with h | h
    · cases h
    · cases hlogs _ h

theorem getKeyedService_pullRequest (event : PullRequest) :
    ∃ handler, getKeyedService (some (GitHubWebhookEvent.pullRequest event).getType) =
      some handler := by
  cases event with
  | opened => exact ⟨.pullRequestOpened, rfl⟩
  | synchronize => exact ⟨.pullRequestSynchronize, rfl⟩

theorem silent_dispatch_workflowRun (event : Option WorkflowRun) :
    Silent (dispatch p env (event.map .workflowRun)) := by
  cases event with
  | none => exact silent_pure _
  | some event =>
    simp only [dispatch, Option.map_some]
    cases getKeyedService (some (GitHubWebhookEvent.workflowRun event).getType) with
    | none => exact silent_pure _
    | some handler => exact silent_handleAsync_workflowRun p env event handler

theorem served_of_handled {bytes : List UInt8} {githubEvent : String} {event : PullRequest}
    {options : Except Exception GitHubConfiguration} {logs more : List Effect}
    {r : Except Exception Response} (hevent : githubEvent = "pull_request")
    (hparse : p.deserializePullRequest bytes = .ok (some event))
    (hlogs : ∀ effect ∈ logs, effect = .logged bytes)
    (hquiet : ∀ review, .reviewed review ∉ logs ++ [.parsed bytes] ++ [])
    (h : Handled p options event.data r more) :
    Served p options bytes githubEvent r (logs ++ [.parsed bytes] ++ more) := by
  cases h with
  | threw ex => exact .quiet _ _ hquiet fun _ _ _ _ => ⟨ex, rfl⟩
  | ignored hbot =>
    refine .quiet _ _ hquiet ?_
    intro data _ hparses h
    rw [← data_of_parses hparse hparses] at h
    exact absurd h hbot
  | approved review hbot hreview =>
    rw [List.append_assoc]
    exact .reviewed event.data logs review hevent (parses_data hparse) hbot hreview hlogs

/-- An event that was read is dispatched to its handler, and everything else is acknowledged. -/
theorem dispatch_spec {bytes : List UInt8} {githubEvent : String}
    {githubEventBase : Option GitHubWebhookEvent} {logs added : List Effect}
    (hlogs : ∀ effect ∈ logs, effect = .logged bytes)
    (hread : EventRead p bytes githubEvent (.ok githubEventBase) added) (c : Context) :
    wp (dispatch p env githubEventBase)
      (Adding c fun r more =>
        Served p c.server.githubOptions bytes githubEvent r (logs ++ added ++ more)) c := by
  have hquiet (review : Review) : .reviewed review ∉ logs ++ added ++ [] := by
    intro hmem
    rw [List.append_nil] at hmem
    rcases List.mem_append.mp hmem with hmem | hmem
    · cases hlogs _ hmem
    · exact hread.quiet review hmem
  generalize hr : Except.ok githubEventBase = r at hread
  cases hread with
  | pullRequest event hevent hparse =>
    obtain rfl := Except.ok.inj hr
    cases event with
    | none =>
      refine ⟨[], (List.append_nil _).symm, .quiet _ _ hquiet ?_⟩
      intro data _ hparses
      simp [parses_iff hparse] at hparses
    | some event =>
      obtain ⟨handler, hhandler⟩ := getKeyedService_pullRequest event
      have hdispatch : dispatch p env (Option.map .pullRequest (some event)) =
          handleAsync p env handler (.pullRequest event) := by
        simp [dispatch, hhandler]
      rw [hdispatch]
      apply wp_mono (handleAsync_pullRequest_spec p env hhandler c)
      rintro r c' ⟨more, hmore, hhandled⟩
      exact ⟨more, hmore, served_of_handled p hevent hparse hlogs hquiet hhandled⟩
  | workflowRun event hevent =>
    obtain rfl := Except.ok.inj hr
    refine wp_mono (silent_dispatch_workflowRun p env event c) fun r c' hc =>
      ⟨[], by simp [hc], .quiet _ _ hquiet ?_⟩
    intro data h
    simp [hevent] at h
  | unknown hevent =>
    obtain rfl := Except.ok.inj hr
    exact ⟨[], (List.append_nil _).symm, .quiet _ _ hquiet fun _ h => absurd h hevent⟩
  | unread r logs' hnone hparse _ =>
    cases githubEventBase with
    | some event => exact absurd hr.symm (hnone event)
    | none =>
      refine ⟨[], (List.append_nil _).symm, .quiet _ _ hquiet ?_⟩
      intro data h hparses
      rcases hparses with hparses | hparses
      · exact absurd hparses (hparse h _)
      · exact absurd hparses (hparse h _)

theorem webhook_spec (githubEvent : String) {c : Context} {bytes : List UInt8}
    (hc : c.Rewound bytes) :
    wp (webhook p env githubEvent)
      (Adding c (Served p c.server.githubOptions bytes githubEvent)) c := by
  have hthrow (ex : Exception) (c' : Context) (added : List Effect)
      (heffects : c'.effects = c.effects ++ added) (hquiet : ∀ review, .reviewed review ∉ added) :
      Adding c (Served p c.server.githubOptions bytes githubEvent) (.error ex) c' :=
    ⟨added, heffects, .quiet _ _ hquiet fun _ _ _ _ => ⟨ex, rfl⟩⟩
  simp only [webhook, wp_bind, wp_get, then_ok, wp_ofExcept]
  cases c.server.configuration with
  | error ex => exact hthrow ex c [] (by simp) (by simp)
  | ok configuration =>
    rw [then_ok, wp_bind]
    apply wp_mono (logRequest_spec configuration hc)
    rintro _ c₁ ⟨rfl, hserver, hc₁, logs, hlogs, heffects⟩
    rw [then_ok, wp_bind]
    apply wp_mono (getGithubEvent_spec p githubEvent hc₁)
    rintro (ex | event) c₂ ⟨hserver₂, added, heffects₂, hread⟩
    · apply hthrow ex c₂ (logs ++ added) (by simp [heffects₂, heffects])
      intro review hmem
      rcases List.mem_append.mp hmem with hmem | hmem
      · cases hlogs _ hmem
      · exact hread.quiet review hmem
    · rw [then_ok]
      apply wp_mono (dispatch_spec p env hlogs hread c₂)
      rintro r c₃ ⟨more, heffects₃, hserved⟩
      refine ⟨logs ++ added ++ more, by simp [heffects₃, heffects₂, heffects], ?_⟩
      rwa [← hserver, ← hserver₂]

theorem signatureValidator_spec (c : Context) :
    wp signatureValidator
      (fun _ c' => c'.body = c.body ∧ c'.effects = c.effects ∧
        c'.server.githubOptions = c.server.githubOptions) c := by
  simp only [signatureValidator, wp_bind, wp_get, then_ok]
  cases c.server.keyBytes with
  | some keyBytes => exact ⟨rfl, rfl, rfl⟩
  | none =>
    simp only [wp_bind, wp_ofExcept]
    cases c.server.configuration with
    | error ex => exact ⟨rfl, rfl, rfl⟩
    | ok configuration =>
      rw [then_ok]
      cases configuration.webhookKey <;> exact ⟨rfl, rfl, rfl⟩

theorem silent_sliceFrom7 (memory : List UInt16) : Silent (sliceFrom7 memory) := by
  unfold sliceFrom7
  split <;> exact fun _ => rfl

inductive Answered (p : Platform) (options : Except Exception GitHubConfiguration)
    (request : WebhookRequest) : Except Exception Response → List Effect → Prop where
  | refused (r : Except Exception Response) (effects : List Effect)
      (h : effects = [] ∨ effects = [.validated request.body false]) :
      Answered p options request r effects
  | unbound (hevent : bindHeader request.githubEvent = none) :
      Answered p options request (.ok .unbound) [.validated request.body true]
  | served (githubEvent : String) (r : Except Exception Response) (added : List Effect)
      (hevent : bindHeader request.githubEvent = some githubEvent)
      (h : Served p options request.body githubEvent r added) :
      Answered p options request r (.validated request.body true :: added)

theorem handleRequest_spec (request : WebhookRequest) {c : Context} (hc : c.Rewound request.body) :
    wp (handleRequest p env request)
      (Adding c (Answered p c.server.githubOptions request)) c := by
  rw [handleRequest, validateGithubSecret, wp_bind]
  apply wp_mono (signatureValidator_spec c)
  rintro (ex | keyBytes) c₁ ⟨hbody, heffects, hoptions⟩
  · exact ⟨[], by simp [heffects], .refused _ _ (.inl rfl)⟩
  have hc₁ : c₁.Rewound request.body :=
    ⟨hbody ▸ hc.bytes_eq, hbody ▸ hc.position_eq, hbody ▸ hc.canSeek⟩
  rw [then_ok]
  split
  next value =>
    refine (silent_sliceFrom7 _).wp_bind
      (fun ex => ⟨[], by simp [heffects], .refused _ _ (.inl rfl)⟩) fun signature => ?_
    rw [wp_bind]
    apply wp_mono (validateSignatureAsync_spec p keyBytes env.buffer signature hc₁)
    rintro r c₂ ⟨hserver, hc₂, ⟨⟨ex, rfl⟩, heffects₂⟩ | ⟨result, rfl, -, heffects₂⟩⟩
    · exact ⟨[], by simp [heffects₂, heffects], .refused _ _ (.inl rfl)⟩
    rw [then_ok]
    have hvalidated : c₂.effects = c.effects ++ [.validated request.body result] := by
      rw [heffects₂, heffects]
    cases result with
    | false => exact ⟨_, hvalidated, .refused _ _ (.inr rfl)⟩
    | true =>
      cases hevent : bindHeader request.githubEvent with
      | none => exact ⟨_, hvalidated, .unbound hevent⟩
      | some githubEvent =>
        apply wp_mono (webhook_spec p env githubEvent hc₂)
        rintro r c₃ ⟨added, heffects₃, hserved⟩
        refine ⟨.validated request.body true :: added, by simp [heffects₃, hvalidated], ?_⟩
        rw [hserver, hoptions] at hserved
        exact .served githubEvent r added hevent hserved
  next => exact ⟨[], heffects.trans (List.append_nil _).symm, .refused _ _ (.inl rfl)⟩

end HwoodiwissHelper.GitHub
