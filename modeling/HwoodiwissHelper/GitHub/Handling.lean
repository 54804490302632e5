import HwoodiwissHelper.GitHub.BodyStream
import HwoodiwissHelper.GitHub.Events
import HwoodiwissHelper.Library.Throwing
import HwoodiwissHelper.Library.Unicode

/-!
# Handling a request

What a request finds: the configuration and the singletons of the server, the functions of the
platform, the stream of its body. Handling is code that may throw; it leaves a list of effects,
which tells what was hashed, logged, parsed and sent, in this order.
-/

namespace HwoodiwissHelper.GitHub

open Throwing

def utf8 (s : String) : List UInt8 := Unicode.utf8 s.toList

def asMemory (s : String) : List UInt16 := Unicode.utf16 s.toList

structure Platform where
  hmacSha256 : (key message : List UInt8) → List UInt8
  /-- The letters as an ordinal comparison that ignores case sees them. -/
  ordinalUpper : List UInt16 → List UInt16
  deserializeWorkflowRun : List UInt8 → Except Exception (Option WorkflowRun)
  deserializePullRequest : List UInt8 → Except Exception (Option PullRequest)

def Platform.equalsIgnoreCase (p : Platform) (s t : List UInt16) : Bool :=
  p.ordinalUpper s == p.ordinalUpper t

/-- `StringComparer.OrdinalIgnoreCase`, where null equals null only. -/
def Platform.comparesEqual (p : Platform) : Option String → Option String → Bool
  | some s, some t => p.equalsIgnoreCase (asMemory s) (asMemory t)
  | none, none => true
  | _, _ => false

/-- A section that is missing leaves its member null. -/
structure GitHubConfiguration where
  webhookKey : Option String
  enableRequestLogging : Bool
  allowedBots : Option (List (Option String))
  deriving DecidableEq, Repr

structure Server where
  /-- What the options are now, or why they cannot be made. -/
  configuration : Except Exception GitHubConfiguration
  /-- The key of the signature validator, once it was asked for. -/
  keyBytes : Option (List UInt8)
  options : Option GitHubConfiguration

def Server.githubOptions (s : Server) : Except Exception GitHubConfiguration :=
  match s.options with
  | some configuration => .ok configuration
  | none => s.configuration

inductive SubmitReviewEvent where
  | comment
  | requestChanges
  | approve
  deriving DecidableEq, Repr

/-- The arguments of `IGitHubClient.CreatePullRequestReview`. -/
structure Review where
  repoOwner : Option String
  repoName : Option String
  pullRequestNumber : Int
  installationId : Int
  body : String
  event : SubmitReviewEvent
  deriving DecidableEq, Repr

inductive Effect where
  /-- `ValidateSignatureAsync` returned a result for the bytes it hashed. -/
  | validated (message : List UInt8) (result : Bool)
  /-- The text of some bytes went to the log. -/
  | logged (bytes : List UInt8)
  | parsed (bytes : List UInt8)
  | reviewed (review : Review)
  deriving DecidableEq, Repr

structure Context where
  server : Server
  body : BodyStream
  effects : List Effect

structure Context.Rewound (c : Context) (bytes : List UInt8) : Prop where
  bytes_eq : c.body.bytes = bytes
  position_eq : c.body.position = 0
  canSeek : c.body.canSeek = true

theorem Context.Rewound.remaining {c : Context} {bytes : List UInt8} (h : c.Rewound bytes) :
    c.body.remaining = bytes := by
  simp [BodyStream.remaining, h.bytes_eq, h.position_eq]

abbrev Handling := Code Context Exception

def onBody {α : Type} (m : BodyStream → Except Exception α × BodyStream) : Handling α :=
  onPart Context.body (fun body c => { c with body }) m

def emit (effect : Effect) : Handling Unit :=
  modify fun c => { c with effects := c.effects ++ [effect] }

@[simp] theorem wp_emit (effect : Effect) (Q : Except Exception Unit → Context → Prop)
    (c : Context) : wp (emit effect) Q c ↔ Q (.ok ()) { c with effects := c.effects ++ [effect] } :=
  wp_modify _ Q c

@[simp] theorem wp_onBody {α : Type} (m : BodyStream → Except Exception α × BodyStream)
    (Q : Except Exception α → Context → Prop) (c : Context) :
    wp (onBody m) Q c ↔ Q (m c.body).1 { c with body := (m c.body).2 } :=
  wp_onPart _ _ m Q c

/-- A member of a reference. -/
def deref {α : Type} : Option α → Handling α
  | some a => pure a
  | none => throw { typeName := "NullReferenceException" }

/-- Code that goes on with a member: it throws on null. -/
theorem wp_deref_bind {α β : Type} {a : Option α} {k : α → Handling β}
    {Q : Except Exception β → Context → Prop} {c : Context} (hthrow : ∀ ex, Q (.error ex) c)
    (hk : ∀ x, a = some x → wp (k x) Q c) : wp (deref a >>= k) Q c := by
  cases a with
  | none => exact hthrow _
  | some x => exact hk x rfl

/-- `IOptions.Value`: the first time, the options are made and kept. -/
def githubOptionsValue : Handling GitHubConfiguration := do
  let c ← get
  let configuration ← ofExcept c.server.githubOptions
  modify fun c => { c with server := { c.server with options := some configuration } }
  return configuration

end HwoodiwissHelper.GitHub
