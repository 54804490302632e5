import Mathlib.Data.List.Basic

/-!
# Webhook events

The events as the deserialiser returns them. It accepts an explicit null for every member of a
reference type, so that those members are options.
-/

namespace HwoodiwissHelper.GitHub

inductive ActorType where
  | bot
  | user
  | organization
  deriving DecidableEq, Repr

structure Actor where
  login : Option String
  name : Option String
  type : ActorType
  deriving DecidableEq, Repr

structure Installation where
  id : Int
  deriving DecidableEq, Repr

structure Repository where
  name : Option String
  owner : Option Actor
  deriving DecidableEq, Repr

structure PullRequestInfo where
  number : Int
  user : Option Actor
  deriving DecidableEq, Repr

structure PullRequestData where
  sender : Option Actor
  installation : Option Installation
  number : Int
  pullRequest : Option PullRequestInfo
  repository : Option Repository
  deriving DecidableEq, Repr

inductive PullRequest where
  | opened (data : PullRequestData)
  | synchronize (data : PullRequestData)
  deriving DecidableEq, Repr

def PullRequest.data : PullRequest → PullRequestData
  | opened data => data
  | synchronize data => data

structure WorkflowRunData where
  sender : Option Actor
  installation : Option Installation
  deriving DecidableEq, Repr

inductive WorkflowRun where
  | completed (data : WorkflowRunData)
  | inProgress (data : WorkflowRunData)
  | requested (data : WorkflowRunData)
  deriving DecidableEq, Repr

def WorkflowRun.data : WorkflowRun → WorkflowRunData
  | completed data => data
  | inProgress data => data
  | requested data => data

inductive GitHubWebhookEvent where
  | pullRequest (event : PullRequest)
  | workflowRun (event : WorkflowRun)
  deriving DecidableEq, Repr

/-- The sealed records, which are the runtime types of events. -/
inductive EventType where
  | pullRequestOpened
  | pullRequestSynchronize
  | workflowRunCompleted
  | workflowRunInProgress
  | workflowRunRequested
  deriving DecidableEq, Repr

namespace GitHubWebhookEvent

def sender : GitHubWebhookEvent → Option Actor
  | pullRequest event => event.data.sender
  | workflowRun event => event.data.sender

def installation : GitHubWebhookEvent → Option Installation
  | pullRequest event => event.data.installation
  | workflowRun event => event.data.installation

def getType : GitHubWebhookEvent → EventType
  | pullRequest (.opened _) => .pullRequestOpened
  | pullRequest (.synchronize _) => .pullRequestSynchronize
  | workflowRun (.completed _) => .workflowRunCompleted
  | workflowRun (.inProgress _) => .workflowRunInProgress
  | workflowRun (.requested _) => .workflowRunRequested

end GitHubWebhookEvent

end HwoodiwissHelper.GitHub
