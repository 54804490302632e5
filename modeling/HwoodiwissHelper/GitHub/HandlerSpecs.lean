import HwoodiwissHelper.GitHub.Handlers

/-!
# What the handlers do

A handler throws, or acknowledges its event, or requests one review: the review of the pull request
in the payload, when its user is a bot that is allowed.
-/

namespace HwoodiwissHelper.GitHub

open Throwing

/-- Texts whose letters are the same but for their case; null equals null only. -/
inductive EqualIgnoringCase (p : Platform) : Option String → Option String → Prop where
  | null : EqualIgnoringCase p none none
  | text (s t : String) (h : p.ordinalUpper (asMemory s) = p.ordinalUpper (asMemory t)) :
    EqualIgnoringCase p (some s) (some t)

def AllowedLogin (p : Platform) (configuration : GitHubConfiguration) (login : Option String) :
    Prop :=
  ∃ bots, configuration.allowedBots = some bots ∧ ∃ bot ∈ bots, EqualIgnoringCase p bot login

/-- The user of the pull request is a bot with a login in `AllowedBots`, as the options have
them. -/
def FromAllowedBot (p : Platform) (options : Except Exception GitHubConfiguration)
    (data : PullRequestData) : Prop :=
  ∃ pullRequest user configuration, data.pullRequest = some pullRequest ∧
    pullRequest.user = some user ∧ user.type = .bot ∧ options = .ok configuration ∧
    AllowedLogin p configuration user.login

def ReviewOf (data : PullRequestData) (review : Review) : Prop :=
  ∃ pullRequest repository owner installation, data.pullRequest = some pullRequest ∧
    data.repository = some repository ∧ repository.owner = some owner ∧
    data.installation = some installation ∧
    review = ⟨owner.login, repository.name, pullRequest.number, installation.id,
      "Automatically approving pull request", .approve⟩

/-- The effects that a part of the handling adds, with the result it ends in. -/
def Adding {α : Type} (c : Context) (P : Except Exception α → List Effect → Prop)
    (r : Except Exception α) (c' : Context) : Prop :=
  ∃ added, c'.effects = c.effects ++ added ∧ P r added

inductive Handled (p : Platform) (options : Except Exception GitHubConfiguration)
    (data : PullRequestData) : Except Exception Response → List Effect → Prop where
  | threw (ex : Exception) : Handled p options data (.error ex) []
  | ignored (h : ¬ FromAllowedBot p options data) : Handled p options data (.ok .noContent) []
  | approved (review : Review) (h : FromAllowedBot p options data)
      (hreview : ReviewOf data review) :
    Handled p options data (.ok .noContent) [.reviewed review]

variable (p : Platform) (env : Environment)

theorem comparesEqual_iff {s t : Option String} :
    p.comparesEqual s t = true ↔ EqualIgnoringCase p s t := by
  constructor
  · intro h
    cases s with
    | none =>
      cases t with
      | none => exact .null
      | some t => cases h
    | some s =>
      cases t with
      | none => cases h
      | some t => exact .text s t (beq_iff_eq.mp h)
  · rintro (_ | ⟨s, t, h⟩)
    · rfl
    · exact beq_iff_eq.mpr h

theorem allowsBot_iff {configuration : GitHubConfiguration} {login : Option String} :
    allowsBot p configuration login = true ↔ AllowedLogin p configuration login := by
  unfold allowsBot AllowedLogin
  cases configuration.allowedBots with
  | none => simp
  | some bots => simp [comparesEqual_iff]

theorem approvePullRequestAsync_spec (repoOwner repoName : Option String)
    (pullRequestNumber installationId : Int) (c : Context) :
    wp (approvePullRequestAsync env repoOwner repoName pullRequestNumber installationId)
      (fun r c' => r = .ok () ∧ c'.effects = c.effects ++
        [.reviewed ⟨repoOwner, repoName, pullRequestNumber, installationId,
          "Automatically approving pull request", .approve⟩]) c := by
  simp only [approvePullRequestAsync, wp_tryCatch, wp_bind, wp_emit, wp_ofExcept, then_ok]
  cases env.createPullRequestReview _ <;> simp

theorem silent_deref {α : Type} (a : Option α) : Silent (deref a) := by
  cases a with
  | none => exact silent_throw _
  | some a => exact silent_pure _

theorem silent_tagActivity {tagOwner : Repository → Handling Unit}
    (htag : ∀ repository, Silent (tagOwner repository)) (data : PullRequestData)
    (pullRequest : PullRequestInfo) : Silent (tagActivity env tagOwner data pullRequest) := by
  unfold tagActivity
  split
  · exact (silent_deref _).bind fun repository => (htag repository).bind fun _ =>
      (silent_deref _).bind fun _ => silent_pure _
  · exact silent_pure _

theorem fromAllowedBot_iff (options : Except Exception GitHubConfiguration)
    {data : PullRequestData} {pullRequest : PullRequestInfo} {user : Actor}
    (hpullRequest : data.pullRequest = some pullRequest) (huser : pullRequest.user = some user) :
    FromAllowedBot p options data ↔
      user.type = .bot ∧ ∃ configuration, options = .ok configuration ∧
        allowsBot p configuration user.login = true := by
  simp [FromAllowedBot, hpullRequest, huser, allowsBot_iff]

theorem wp_githubOptionsValue_bind {β : Type} {k : GitHubConfiguration → Handling β}
    {Q : Except Exception β → Context → Prop} {c : Context} (hthrow : ∀ ex, Q (.error ex) c)
    (hk : ∀ configuration c', c.server.githubOptions = .ok configuration →
      c'.effects = c.effects → wp (k configuration) Q c') :
    wp (githubOptionsValue >>= k) Q c := by
  simp only [githubOptionsValue, bind_assoc, wp_bind, wp_get, then_ok, wp_ofExcept]
  cases hoptions : c.server.githubOptions with
  | error ex => exact hthrow ex
  | ok configuration => exact hk configuration _ hoptions rfl

theorem approveAllowedBot_spec {data : PullRequestData} {pullRequest : PullRequestInfo}
    (hpullRequest : data.pullRequest = some pullRequest) (c : Context) :
    wp (approveAllowedBot p env data pullRequest)
      (Adding c fun r added => Handled p c.server.githubOptions data
        ((fun _ => Response.noContent) <$> r) added) c := by
  have hthrow (c' : Context) (hc : c'.effects = c.effects) (ex : Exception) :
      Adding c (fun r added => Handled p c.server.githubOptions data
        ((fun _ : Unit => Response.noContent) <$> r) added) (.error ex) c' :=
    ⟨[], by simp [hc], .threw ex⟩
  have hignored (c' : Context) (hc : c'.effects = c.effects)
      (h : ¬ FromAllowedBot p c.server.githubOptions data) :
      Adding c (fun r added => Handled p c.server.githubOptions data
        ((fun _ : Unit => Response.noContent) <$> r) added) (.ok ()) c' :=
    ⟨[], by simp [hc], .ignored h⟩
  apply wp_deref_bind (hthrow c rfl)
  intro user huser
  have hiff := fromAllowedBot_iff p c.server.githubOptions hpullRequest huser
  split
  next hbot =>
    refine wp_githubOptionsValue_bind (hthrow c rfl) fun configuration c' hoptions hc => ?_
    split
    next hallows =>
      apply wp_deref_bind (hthrow c' hc)
      intro repository hrepository
      apply wp_deref_bind (hthrow c' hc)
      intro owner howner
      apply wp_deref_bind (hthrow c' hc)
      intro installation hinstallation
      have hallowed : FromAllowedBot p c.server.githubOptions data :=
        hiff.mpr ⟨hbot, configuration, hoptions, hallows⟩
      have hreview : ReviewOf data ⟨owner.login, repository.name, pullRequest.number,
          installation.id, "Automatically approving pull request", .approve⟩ :=
        ⟨pullRequest, repository, owner, installation, hpullRequest, hrepository, howner,
          hinstallation, rfl⟩
      apply wp_mono (approvePullRequestAsync_spec env _ _ _ _ c')
      rintro r c'' ⟨rfl, heffects⟩
      exact ⟨_, hc ▸ heffects, .approved _ hallowed hreview⟩
    next hallows =>
      apply hignored c' hc
      rw [hiff]
      simp [hoptions, hallows]
  next hbot => exact hignored c rfl (by simp [hiff, hbot])

theorem handlePullRequest_spec {tagOwner : Repository → Handling Unit}
    (htag : ∀ repository, Silent (tagOwner repository)) (data : PullRequestData) (c : Context) :
    wp (handlePullRequest p env tagOwner data)
      (Adding c (Handled p c.server.githubOptions data)) c := by
  have hthrow (ex : Exception) : Adding c (Handled p c.server.githubOptions data) (.error ex) c :=
    ⟨[], by simp, .threw ex⟩
  apply wp_deref_bind hthrow
  intro pullRequest hpullRequest
  apply (silent_tagActivity env htag data pullRequest).wp_bind hthrow
  intro _
  rw [wp_bind]
  apply wp_mono (approveAllowedBot_spec p env hpullRequest c)
  rintro (ex | _) c' ⟨added, hadded, h⟩
  · exact ⟨added, hadded, h⟩
  · exact ⟨added, hadded, h⟩

theorem silent_tagEvent (event : GitHubWebhookEvent) : Silent (tagEvent env event) := by
  unfold tagEvent
  split
  · exact (silent_deref _).bind fun _ => (silent_deref _).bind fun _ => silent_pure _
  · exact silent_pure _

theorem handleAsync_pullRequest_spec {event : PullRequest} {handler : RequestHandler}
    (hhandler : getKeyedService (some (GitHubWebhookEvent.pullRequest event).getType) =
      some handler) (c : Context) :
    wp (handleAsync p env handler (.pullRequest event))
      (Adding c (Handled p c.server.githubOptions event.data)) c := by
  apply (silent_tagEvent env _).wp_bind (fun ex => ⟨[], by simp, .threw ex⟩)
  intro _
  cases event with
  | opened data =>
    obtain rfl : RequestHandler.pullRequestOpened = handler := Option.some.inj hhandler
    exact handlePullRequest_spec p env (fun repository => (silent_deref _).bind fun _ =>
      silent_pure _) data c
  | synchronize data =>
    obtain rfl : RequestHandler.pullRequestSynchronize = handler := Option.some.inj hhandler
    exact handlePullRequest_spec p env (fun _ => silent_pure _) data c

theorem silent_handleAsync_workflowRun (event : WorkflowRun) (handler : RequestHandler) :
    Silent (handleAsync p env handler (.workflowRun event)) := by
  apply (silent_tagEvent env _).bind
  intro _
  cases handler <;> cases event <;> exact fun _ => rfl

end HwoodiwissHelper.GitHub
