import HwoodiwissHelper.GitHub.AutoApproval
import HwoodiwissHelper.GitHub.ReviewCalls

/-!
# The service between GitHub's webhooks and GitHub's API

Webhooks come in one after another, and the reviews that they ask for are submitted while others
come in. What a review meets on its way is told to nobody: the answer to a webhook is the same. So
a delivery is one action up to its review, and the review takes its actions among those of others.
-/

namespace HwoodiwissHelper.GitHub

open ExpiringCache Threads Throwing Transition

section Unheard

variable (p : Platform) (env : Environment)
  (createPullRequestReview : Review → Except Exception (Result Unit))

theorem approvePullRequestAsync_eq_emit (repoOwner repoName : Option String)
    (pullRequestNumber installationId : Int) :
    approvePullRequestAsync env repoOwner repoName pullRequestNumber installationId =
      emit (.reviewed ⟨repoOwner, repoName, pullRequestNumber, installationId,
        "Automatically approving pull request", .approve⟩) := by
  unfold approvePullRequestAsync
  dsimp only
  cases env.createPullRequestReview _ with
  | error ex => rfl
  | ok result => rfl

theorem handleAsync_unheard (handler : RequestHandler) (event : GitHubWebhookEvent) :
    handleAsync p { env with createPullRequestReview := createPullRequestReview } handler event =
      handleAsync p env handler event := by
  have happrove : approveAllowedBot p
      { env with createPullRequestReview := createPullRequestReview } =
        approveAllowedBot p env := by
    funext request pullRequest
    simp only [approveAllowedBot, approvePullRequestAsync_eq_emit]
  have hhandle : handlePullRequest p
      { env with createPullRequestReview := createPullRequestReview } =
        handlePullRequest p env := by
    funext tagOwner request
    simp only [handlePullRequest, happrove]
    rfl
  simp only [handleAsync, pullRequestOpenedHandler, pullRequestSynchronizeHandler, hhandle]
  rfl

/-- The client is called last of all, and what it throws is caught: so a webhook can be answered
before its review is submitted. -/
theorem post_unheard (s : Server) (request : WebhookRequest) :
    s.post p { env with createPullRequestReview := createPullRequestReview } request =
      s.post p env request := by
  have hdispatch (event : Option GitHubWebhookEvent) :
      dispatch p { env with createPullRequestReview := createPullRequestReview } event =
        dispatch p env event := by
    simp only [dispatch, handleAsync_unheard]
  have hhandle : handleRequest p
      { env with createPullRequestReview := createPullRequestReview } request =
        handleRequest p env request := by
    simp only [handleRequest, webhook, hdispatch]
  simp only [Server.post, Server.receive, hhandle]

end Unheard

structure Deployment where
  server : Server
  gateway : Gateway

/-- A webhook, from before it comes in to after its review was submitted. -/
inductive Delivery where
  | expected
  | handled (exchange : Exchange) (call : Option ReviewCall)

inductive DeploymentEvent where
  | reload (configuration : Except Exception GitHubConfiguration)
  | post (env : Environment) (request : WebhookRequest)
  | review (e : ReviewAdvance)

def Exchange.deliver (exchange : Exchange) : Delivery :=
  .handled exchange ((reviews exchange.effects).head?.map fun review => { review })

def Delivery.advance (p : Platform) (e : DeploymentEvent) (s : Deployment) (delivery : Delivery) :
    Option (Deployment × Delivery) :=
  match e, delivery with
  | .reload configuration, _ => some ({ s with server := s.server.reload configuration }, delivery)
  | .post env request, .expected =>
    let posted := s.server.post p env request
    some ({ s with server := posted.2 }, posted.1.deliver)
  | .review e, .handled exchange (some call) =>
    (call.advance e s.gateway).map fun next =>
      ({ s with gateway := next.1 }, .handled exchange (some next.2))
  | _, _ => none

def Deployment.start (ι : Type) (server : Server) : Config ι Deployment Delivery :=
  ⟨⟨server, ⟨fun _ => none, []⟩⟩, fun _ => .expected⟩

inductive Advances (p : Platform) (s : Deployment) :
    Delivery → Deployment → Delivery → Prop where
  | reload (configuration : Except Exception GitHubConfiguration) (delivery : Delivery) :
      Advances p s delivery { s with server := s.server.reload configuration } delivery
  | post (env : Environment) (request : WebhookRequest) :
      Advances p s .expected { s with server := (s.server.post p env request).2 }
        (s.server.post p env request).1.deliver
  | review (e : ReviewAdvance) (exchange : Exchange) (call : ReviewCall) (gateway : Gateway)
      (call' : ReviewCall) (h : call.advance e s.gateway = some (gateway, call')) :
      Advances p s (.handled exchange (some call)) { s with gateway }
        (.handled exchange (some call'))

theorem advances_of_advance {p : Platform} {e : DeploymentEvent} {s s' : Deployment}
    {delivery delivery' : Delivery} (h : delivery.advance p e s = some (s', delivery')) :
    Advances p s delivery s' delivery' := by
  cases e with
  | reload configuration =>
    obtain ⟨rfl, rfl⟩ := Prod.mk.inj (Option.some.inj h)
    exact .reload configuration delivery
  | post env request =>
    cases delivery with
    | expected =>
      obtain ⟨rfl, rfl⟩ := Prod.mk.inj (Option.some.inj h)
      exact .post env request
    | handled exchange call => cases h
  | review e =>
    cases delivery with
    | expected => cases h
    | handled exchange call =>
      cases call with
      | none => cases h
      | some call =>
        obtain ⟨⟨gateway, call'⟩, hcall, heq⟩ := Option.map_eq_some_iff.mp h
        obtain ⟨rfl, rfl⟩ := Prod.mk.inj heq
        exact .review e exchange call gateway call' hcall

theorem runThread_review {p : Platform} {exchange : Exchange} {e : ReviewAdvance} {s : Deployment}
    {call : ReviewCall} {n : ℕ} {next : Gateway × ReviewCall}
    (h : runThread ReviewCall.advance s.gateway call (List.replicate n e) = some next) :
    runThread (Delivery.advance p) s (.handled exchange (some call))
      (List.replicate n (.review e)) =
        some ({ s with gateway := next.1 }, .handled exchange (some next.2)) := by
  induction n generalizing s call with
  | zero =>
    obtain rfl := Option.some.inj h
    rfl
  | succ n ih =>
    obtain ⟨first, hfirst, hrest⟩ := Option.bind_eq_some_iff.mp h
    have hdelivery : Delivery.advance p (.review e) s (.handled exchange (some call)) =
        some ({ s with gateway := first.1 }, .handled exchange (some first.2)) := by
      simp [Delivery.advance, hfirst]
    rw [List.replicate_succ, runThread, hdelivery]
    exact ih hrest

/-- It is the code from top to bottom, where the client is called while the webhook is handled. -/
theorem runThread_expected (p : Platform) (s : Deployment) (env : Environment)
    (request : WebhookRequest) (e : ReviewAdvance) : ∃ n next call,
    let client review := createPullRequestReview s.gateway.cache e.now review e.endpoint e.sendAsync
    let posted := s.server.post p
      { env with createPullRequestReview := fun review => (client review).1 } request
    runThread (Delivery.advance p) s .expected (.post env request :: List.replicate n (.review e)) =
        some (next, .handled posted.1 call) ∧ next.server = posted.2 ∧
      call.map (·.review) = (reviews posted.1.effects).head? ∧
      (call = none → next.gateway = s.gateway) ∧
      ∀ c ∈ call, c.stage = .finished (client c.review).1 ∧
        next.gateway.cache = (client c.review).2 := by
  dsimp only
  rw [post_unheard]
  cases hreview : (reviews (s.server.post p env request).1.effects).head? with
  | none =>
    refine ⟨0, { s with server := (s.server.post p env request).2 }, none, ?_⟩
    simp [runThread, Delivery.advance, Exchange.deliver, hreview]
  | some review =>
    obtain ⟨n, ⟨gateway, call⟩, hrun, rfl, hstage, hcache⟩ :=
      runThread_looking s.gateway review e
    refine ⟨n, ⟨(s.server.post p env request).2, gateway⟩, some call, ?_, rfl, rfl, by simp, ?_⟩
    · have hdelivered : Delivery.advance p (.post env request) s .expected =
          some (⟨(s.server.post p env request).2, s.gateway⟩,
            .handled (s.server.post p env request).1 (some { review := call.review })) := by
        simp [Delivery.advance, Exchange.deliver, hreview]
      rw [runThread, hdelivered]
      exact runThread_review (s := ⟨(s.server.post p env request).2, s.gateway⟩) hrun
    · intro c hc
      obtain rfl : call = c := Option.some.inj hc
      exact ⟨hstage, hcache⟩

/-- A call is made for a webhook that may ask for it, is made if the webhook is answered, and
sends what is lawful. -/
structure LawfulDelivery (p : Platform) (answers : List TokenAnswer) (exchange : Exchange)
    (call : Option ReviewCall) : Prop where
  only_if : ∀ c ∈ call, ∃ data, Approvable p exchange data ∧ ReviewOf data c.review
  if_answered : ∀ data, Approvable p exchange data → ∀ response, exchange.result = .ok response →
    ∃ c ∈ call, ReviewOf data c.review
  lawful : ∀ c ∈ call, Lawful answers c

/-- The call is about the review that the webhook asked for. -/
def Delivery.Stands (p : Platform) (s : Deployment) : Delivery → Prop
  | .expected => True
  | .handled exchange call => AutoApprovalSafe p exchange ∧
      call.map (·.review) = (reviews exchange.effects).head? ∧
        ∀ c ∈ call, c.Stands s.gateway

theorem stands_deliver (p : Platform) {server : Server} (s : Deployment) (env : Environment)
    (request : WebhookRequest) : (server.post p env request).1.deliver.Stands p s := by
  obtain ⟨result, effects, hpost, h⟩ := answered_post p server env request
  refine ⟨?_, ?_, ?_⟩
  · rw [hpost]
    exact .of_answered h
  · rw [Option.map_map]
    exact Option.map_id'
  · intro c hc
    obtain ⟨review, -, rfl⟩ := Option.map_eq_some_iff.mp hc
    exact ⟨rfl, rfl⟩

theorem reviewed_of_mem_reviews {effects : List Effect} {review : Review}
    (h : review ∈ reviews effects) : .reviewed review ∈ effects := by
  obtain ⟨effect, heffect, heq⟩ := List.mem_filterMap.mp h
  cases effect with
  | reviewed review' =>
    obtain rfl := Option.some.inj heq
    exact heffect
  | validated | logged | parsed => cases heq

theorem Delivery.Stands.lawful {p : Platform} {s : Deployment} {exchange : Exchange}
    {call : Option ReviewCall} (h : Delivery.Stands p s (.handled exchange call)) :
    LawfulDelivery p s.gateway.answers exchange call := by
  obtain ⟨hsafe, hreview, hcalls⟩ := h
  constructor
  · rintro c rfl
    have hhead : (reviews exchange.effects).head? = some c.review := hreview.symm
    exact hsafe.only_if c.review (reviewed_of_mem_reviews (List.mem_of_mem_head? hhead))
  · intro data happrovable response hresult
    obtain ⟨review, hreviews, hof⟩ := hsafe.exactly_one data happrovable response hresult
    rw [hreviews] at hreview
    obtain ⟨c, hc, rfl⟩ := Option.map_eq_some_iff.mp hreview
    exact ⟨c, hc, hof⟩
  · intro c hc
    exact (hcalls c hc).lawful

section Outline

variable {p : Platform} {s s' : Deployment} {delivery delivery' : Delivery}

theorem Delivery.Stands.mono (h : delivery.Stands p s)
    (hanswers : s.gateway.answers ⊆ s'.gateway.answers) : delivery.Stands p s' := by
  cases delivery with
  | expected => trivial
  | handled exchange call =>
    refine ⟨h.1, h.2.1, ?_⟩
    intro c hc
    exact ReviewCall.Stands.mono hanswers (h.2.2 c hc)

/-- An action keeps what holds of the gateway and of its delivery, and loses no answer. -/
theorem Advances.spec (h : Advances p s delivery s' delivery') (hs : s.gateway.Sourced)
    (hd : delivery.Stands p s) :
    s'.gateway.Sourced ∧ delivery'.Stands p s' ∧ s.gateway.answers ⊆ s'.gateway.answers := by
  cases h with
  | reload configuration => exact ⟨hs, hd.mono (List.Subset.refl _), List.Subset.refl _⟩
  | post env request => exact ⟨hs, stands_deliver p _ env request, List.Subset.refl _⟩
  | review e exchange call gateway call' hcall =>
    obtain ⟨hsafe, hreviewed, hcalls⟩ := hd
    obtain ⟨hsourced, hstands, hanswers, hreview⟩ :=
      ReviewCall.advance_spec hs (hcalls call rfl) hcall
    refine ⟨hsourced, ⟨hsafe, ?_, ?_⟩, hanswers⟩
    · rw [← hreviewed, Option.map_some, Option.map_some, hreview]
    · intro c hc
      obtain rfl : call' = c := Option.some.inj hc
      exact hstands

theorem deployment_outline (p : Platform) (ι : Type) :
    Outline (Delivery.advance p) (fun _ _ _ => True) (fun s => s.gateway.Sourced)
      fun _ : ι => Delivery.Stands p where
  own _ hs hd h := by
    obtain ⟨hsourced, hstands, -⟩ := (advances_of_advance h).spec hs hd
    exact ⟨hsourced, hstands⟩
  other _ hs hd hother h := hother.mono ((advances_of_advance h).spec hs hd).2.2

end Outline

variable {ι : Type} [DecidableEq ι]

theorem deployment_holds {p : Platform} {server : Server} {events : List (ι × DeploymentEvent)}
    {c : Config ι Deployment Delivery}
    (hr : run (step (Delivery.advance p)) (Deployment.start ι server) events = .ok c) :
    c.Holds (fun s => s.gateway.Sourced) fun _ => Delivery.Stands p := by
  apply (deployment_outline p ι).run _ _ hr
  · exact ⟨Gateway.sourced_start, fun _ => trivial⟩
  · exact alongThreads_of_mem fun _ _ _ _ => trivial

/-- Whatever webhooks come in, and in whichever order their reviews are submitted among reloads:
a review is submitted for a webhook that was validated as a whole and is about the pull request of
an allowed bot. For it the client asks for one token at most, of that pull request's installation
and repository, and posts one review at most, of that pull request, with a token that was given
out for them. -/
theorem deliveries_lawful (p : Platform) {server : Server} {events : List (ι × DeploymentEvent)}
    {c : Config ι Deployment Delivery}
    (hr : run (step (Delivery.advance p)) (Deployment.start ι server) events = .ok c) {i : ι}
    {exchange : Exchange} {call : Option ReviewCall} (hi : c.threads i = .handled exchange call) :
    LawfulDelivery p c.shared.gateway.answers exchange call := by
  have hstands : (c.threads i).Stands p c.shared := (deployment_holds hr).thread i
  rw [hi] at hstands
  exact hstands.lawful

def Delivery.sent : Delivery → List (String × String)
  | .handled _ (some call) => call.sent.map fun
    | .accessToken request => (request.uri, request.bearer)
    | .review request => (request.uri, request.bearer)
  | _ => []

def postRenovate : DeploymentEvent := .post renovateEnvironment renovateRequest

def reviewAt (now statusCode : Int) : DeploymentEvent :=
  .review ⟨now, endpointWithStatus statusCode
    (some ⟨some "ghs", ⟨72000000000, 0, by decide, by decide⟩⟩), fun _ => .ok 200⟩

/-- The same webhook three times. The first two calls find no token and ask for one, and the second
of them is refused; the third finds the token of the first. -/
def renovateDeliveries : List (ℕ × DeploymentEvent) :=
  [(0, postRenovate), (1, postRenovate), (0, reviewAt 0 201), (1, reviewAt 0 201),
    (0, reviewAt 1 201), (1, reviewAt 1 500), (1, reviewAt 2 201), (0, reviewAt 3 201),
    (2, postRenovate), (2, reviewAt 4 201), (2, reviewAt 5 201), (1, reviewAt 6 201)]

theorem deliveries_lawful_renovate : ∃ c exchange call,
    run (step (Delivery.advance renovatePlatform)) (Deployment.start ℕ renovateServer)
      renovateDeliveries = .ok c ∧ c.threads 2 = .handled exchange (some call) ∧
      (c.threads 1).sent = [("/app/installations/5/access_tokens", "jwt"),
        ("/repos/hwoodiwiss/HwoodiwissHelper/pulls/7/reviews", "")] ∧
      (c.threads 2).sent = [("/repos/hwoodiwiss/HwoodiwissHelper/pulls/7/reviews", "ghs")] ∧
      LawfulDelivery renovatePlatform c.shared.gateway.answers exchange (some call) := by
  obtain ⟨c, hr, hsent⟩ := run_of_eval (step (Delivery.advance renovatePlatform))
    (Deployment.start ℕ renovateServer) renovateDeliveries
    (fun c => (c.threads 1).sent = [("/app/installations/5/access_tokens", "jwt"),
        ("/repos/hwoodiwiss/HwoodiwissHelper/pulls/7/reviews", "")] ∧
      (c.threads 2).sent = [("/repos/hwoodiwiss/HwoodiwissHelper/pulls/7/reviews", "ghs")])
    (by decide +kernel)
  obtain ⟨hfirst, hthird⟩ := of_decide_eq_true hsent
  have hhandled : ∃ exchange call, c.threads 2 = .handled exchange (some call) := by
    cases hi : c.threads 2 with
    | expected => simp [hi, Delivery.sent] at hthird
    | handled exchange call =>
      cases call with
      | none => simp [hi, Delivery.sent] at hthird
      | some call => exact ⟨exchange, call, rfl⟩
  obtain ⟨exchange, call, hi⟩ := hhandled
  exact ⟨c, exchange, call, hr, hi, hfirst, hthird, deliveries_lawful renovatePlatform hr hi⟩

def Delivery.Calls (P : ReviewCall → Prop) : Delivery → Prop
  | .expected => True
  | .handled _ call => ∀ c ∈ call, P c

instance (review review' : Review) : Decidable (review.Alike review') :=
  decidable_of_iff (review.installationId = review'.installationId ∧
      review.repoName.getD "" = review'.repoName.getD "")
    ⟨fun h => ⟨h.1, h.2⟩, fun h => ⟨h.installationId, h.repoName⟩⟩

instance (review : Review) :
    (delivery : Delivery) → Decidable (delivery.Calls (ReviewCall.Clear review))
  | .expected => isTrue trivial
  | .handled _ call => inferInstanceAs <| Decidable <| ∀ c ∈ call,
    c.review.Alike review → c.stage.waiting = false

omit [DecidableEq ι] in
theorem Advances.refusing {p : Platform} {review : Review} {s s' : Deployment}
    {delivery delivery' : Delivery} (h : Advances p s delivery s' delivery')
    (hs : s.gateway.Refusing review)
    (hd : delivery.Calls (ReviewCall.Clear review)) :
    s'.gateway.Refusing review ∧ delivery'.Calls (ReviewCall.Clear review) ∧
      (delivery.Calls (ReviewCall.Powerless review) →
        delivery'.Calls (ReviewCall.Powerless review)) := by
  cases h with
  | reload configuration => exact ⟨hs, hd, id⟩
  | post env request =>
    refine ⟨hs, ?_, fun _ => ?_⟩
    · intro c hc
      obtain ⟨review', -, rfl⟩ := Option.map_eq_some_iff.mp hc
      exact fun _ => rfl
    · intro c hc
      obtain ⟨review', -, rfl⟩ := Option.map_eq_some_iff.mp hc
      exact fun _ => rfl
  | review e exchange call gateway call' hcall =>
    obtain ⟨hrefusing, hclear, hpowerless⟩ :=
      ReviewCall.advance_refusing hs (hd call rfl) hcall
    refine ⟨hrefusing, ?_, fun h => ?_⟩
    · intro c hc
      obtain rfl : call' = c := Option.some.inj hc
      exact hclear
    · intro c hc
      obtain rfl : call' = c := Option.some.inj hc
      exact hpowerless (h call rfl)

/-- Once the empty text of a failed request is in the cache, and no other call for the same
installation and repository waits for its answer, every webhook that comes in later for them has
its review submitted without a token, and asks for none. -/
theorem refused_for_ever (p : Platform) (review : Review) {c c' : Config ι Deployment Delivery}
    (hrefusing : c.shared.gateway.Refusing review)
    (hclear : ∀ i, (c.threads i).Calls (ReviewCall.Clear review))
    {events : List (ι × DeploymentEvent)}
    (hr : run (step (Delivery.advance p)) c events = .ok c') {i : ι}
    (hi : c.threads i = .expected) {exchange : Exchange} {call : ReviewCall}
    (hcall : c'.threads i = .handled exchange (some call))
    (hsame : call.review.Alike review) :
    call.sent = [] ∨ call.sent = [.review (reviewRequest call.review "")] := by
  have houtline : Outline (Delivery.advance p) (fun _ _ _ => True)
      (fun s => s.gateway.Refusing review) fun (j : ι) _ delivery =>
        delivery.Calls (ReviewCall.Clear review) ∧
          (j = i → delivery.Calls (ReviewCall.Powerless review)) :=
    { own := fun _ hs hd h => by
        obtain ⟨hrefusing, hclear, hpowerless⟩ := (advances_of_advance h).refusing hs hd.1
        exact ⟨hrefusing, hclear, fun hj => hpowerless (hd.2 hj)⟩
      other := fun _ _ _ hother _ => hother }
  have hstart : c.Holds (fun s => s.gateway.Refusing review) fun j _ delivery =>
      delivery.Calls (ReviewCall.Clear review) ∧
        (j = i → delivery.Calls (ReviewCall.Powerless review)) := by
    refine ⟨hrefusing, fun j => ⟨hclear j, ?_⟩⟩
    rintro rfl
    rw [hi]
    trivial
  have hholds := houtline.run hstart (alongThreads_of_mem fun _ _ _ _ => trivial) hr
  have hpowerless := (hholds.thread i).2 rfl
  rw [hcall] at hpowerless
  have hstage := hpowerless call rfl hsame
  split at hstage
  · exact .inl hstage
  · exact hstage.elim
  · exact hstage.elim
  · exact .inl hstage.2
  · exact .inr hstage

def renovateReview : Review :=
  ⟨some "hwoodiwiss", some "HwoodiwissHelper", 7, 5, "Automatically approving pull request",
    .approve⟩

/-- The review of the delivery was posted without a token, and nothing else was sent. -/
def Delivery.tokenless : Delivery → Bool
  | .handled exchange (some call) => call.review.Alike renovateReview ∧
      Delivery.sent (.handled exchange (some call)) =
        [("/repos/hwoodiwiss/HwoodiwissHelper/pulls/7/reviews", "")]
  | _ => false

def refusedDelivery : List (Fin 2 × DeploymentEvent) :=
  [(0, postRenovate), (0, reviewAt 0 500), (0, reviewAt 0 500), (0, reviewAt 0 500)]

def redelivery : List (Fin 2 × DeploymentEvent) :=
  [(1, postRenovate), (1, reviewAt 60 201), (1, reviewAt 60 201)]

def Delivery.isExpected : Delivery → Bool
  | .expected => true
  | .handled _ _ => false

/-- GitHub would give out a token by now. -/
theorem refused_for_ever_renovate : ∃ c c' exchange call,
    run (step (Delivery.advance renovatePlatform)) (Deployment.start (Fin 2) renovateServer)
      refusedDelivery = .ok c ∧
    run (step (Delivery.advance renovatePlatform)) c redelivery = .ok c' ∧
      c'.threads 1 = .handled exchange (some call) ∧
      (c'.threads 1).sent = [("/repos/hwoodiwiss/HwoodiwissHelper/pulls/7/reviews", "")] ∧
      (call.sent = [] ∨ call.sent = [.review (reviewRequest call.review "")]) := by
  obtain ⟨c, hr, hc⟩ := run_of_eval (step (Delivery.advance renovatePlatform))
    (Deployment.start (Fin 2) renovateServer) refusedDelivery
    (fun c => c.shared.gateway.cache renovateReview.arguments.cacheKey = some ⟨some "", none⟩ ∧
      (∀ i, (c.threads i).Calls (ReviewCall.Clear renovateReview)) ∧
      (c.threads 1).isExpected ∧
      (run (step (Delivery.advance renovatePlatform)) c redelivery).toOption.map
        (fun c' => (c'.threads 1).tokenless) = some true)
    (by decide +kernel)
  obtain ⟨hrefusing, hclear, hexpected, hanswered⟩ := of_decide_eq_true hc
  obtain ⟨c', hr', hc'⟩ :=
    run_of_eval _ c redelivery (fun c' => (c'.threads 1).tokenless) hanswered
  have hi : c.threads 1 = .expected := by
    cases hdelivery : c.threads 1 with
    | expected => rfl
    | handled exchange call =>
      rw [hdelivery] at hexpected
      cases hexpected
  cases hcall : c'.threads 1 with
  | expected => simp [hcall, Delivery.tokenless] at hc'
  | handled exchange call =>
    cases call with
    | none => simp [hcall, Delivery.tokenless] at hc'
    | some call =>
      rw [hcall] at hc'
      obtain ⟨hsame, hsent⟩ := of_decide_eq_true hc'
      exact ⟨c, c', exchange, call, hr, hr', hcall, hcall ▸ hsent,
        refused_for_ever renovatePlatform renovateReview hrefusing hclear hr' hi hcall hsame⟩

end HwoodiwissHelper.GitHub
