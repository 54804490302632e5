import HwoodiwissHelper.GitHub.SignatureValidator

/-!
# The handlers of events

An event is handled by the handler that is registered for its runtime type. The two handlers of pull
requests approve one whose user is a bot with a login in `AllowedBots`; they differ in what they tag
their activity with, and a tag is read only when somebody listens.
-/

namespace HwoodiwissHelper.GitHub

open Throwing

inductive Response where
  | noContent
  | badRequest
  /-- A required header is missing, and the endpoint is not called. -/
  | unbound
  deriving DecidableEq, Repr

structure Environment where
  arrivals : List Arrival
  buffer : RentedBuffer
  startActivity : String → Bool
  createPullRequestReview : Review → Except Exception (Result Unit)

section Handlers

variable (p : Platform) (env : Environment)

/-- `GitHubService`: whatever the client throws is caught. The error that is logged for it, and the
tags of the activity, are left out. -/
def approvePullRequestAsync (repoOwner repoName : Option String)
    (pullRequestNumber installationId : Int) : Handling Unit :=
  let review : Review := {
    repoOwner, repoName, pullRequestNumber, installationId
    body := "Automatically approving pull request"
    event := .approve }
  tryCatch
    (do
      emit (.reviewed review)
      let _ ← ofExcept (env.createPullRequestReview review))
    (fun _ => pure ())

/-- `AllowedBots.Contains`, over a span, which is empty for null. -/
def allowsBot (configuration : GitHubConfiguration) (login : Option String) : Bool :=
  (configuration.allowedBots.getD []).any (p.comparesEqual · login)

/-- The tags of the activity, by what the owner's tag reads of the repository. -/
def tagActivity (tagOwner : Repository → Handling Unit) (request : PullRequestData)
    (pullRequest : PullRequestInfo) : Handling Unit := do
  if env.startActivity "Handling Pull Request Opened Event" then
    let repository ← deref request.repository
    tagOwner repository
    let _ ← deref pullRequest.user

def approveAllowedBot (request : PullRequestData) (pullRequest : PullRequestInfo) :
    Handling Unit := do
  let user ← deref pullRequest.user
  if user.type = .bot then
    let configuration ← githubOptionsValue
    if allowsBot p configuration user.login then
      let repository ← deref request.repository
      let owner ← deref repository.owner
      let installation ← deref request.installation
      approvePullRequestAsync env owner.login repository.name pullRequest.number installation.id

def handlePullRequest (tagOwner : Repository → Handling Unit) (request : PullRequestData) :
    Handling Response := do
  let pullRequest ← deref request.pullRequest
  tagActivity env tagOwner request pullRequest
  approveAllowedBot p env request pullRequest
  return .noContent

def pullRequestOpenedHandler : PullRequestData → Handling Response :=
  handlePullRequest p env fun repository => do
    let _ ← deref repository.owner

def pullRequestSynchronizeHandler : PullRequestData → Handling Response :=
  handlePullRequest p env fun _ => pure ()

def workflowCompleteHandler (_ : WorkflowRunData) : Handling Response := return .noContent

end Handlers

inductive RequestHandler where
  | workflowComplete
  | pullRequestOpened
  | pullRequestSynchronize
  deriving DecidableEq, Repr

def webhookHandlers : List (EventType × RequestHandler) :=
  [(.workflowRunCompleted, .workflowComplete),
    (.pullRequestOpened, .pullRequestOpened),
    (.pullRequestSynchronize, .pullRequestSynchronize)]

/-- `GetKeyedService`: nothing is registered without a key. -/
def getKeyedService (key : Option EventType) : Option RequestHandler :=
  key.bind (webhookHandlers.lookup ·)

def tagEvent (env : Environment) (request : GitHubWebhookEvent) : Handling Unit := do
  if env.startActivity "Handling Github Webhook Event" then
    let _ ← deref request.sender
    let _ ← deref request.installation

def handleAsync (p : Platform) (env : Environment) (handler : RequestHandler)
    (request : GitHubWebhookEvent) : Handling Response := do
  tagEvent env request
  match handler, request with
  | .workflowComplete, .workflowRun (.completed data) => workflowCompleteHandler data
  | .pullRequestOpened, .pullRequest (.opened data) => pullRequestOpenedHandler p env data
  | .pullRequestSynchronize, .pullRequest (.synchronize data) =>
    pullRequestSynchronizeHandler p env data
  | _, _ => throw { typeName := "InvalidOperationException" }

end HwoodiwissHelper.GitHub
