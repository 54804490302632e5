import HwoodiwissHelper.GitHub.Handlers

/-!
# The webhook endpoint

`POST /github/webhook`: the filter validates the signature, and the endpoint logs the body if it is
told to, parses it and passes the event on to its handler. All of them read one stream, which each
reader rewinds for the next one.
-/

namespace HwoodiwissHelper.GitHub

open Throwing

structure WebhookRequest where
  githubEvent : List String
  /-- The values of `X-Hub-Signature-256`. -/
  signature : List String
  body : List UInt8
  deriving DecidableEq, Repr

/-- A header as one string: values are joined, and empty ones skipped. -/
def bindHeader : List String → Option String
  | [] => none
  | [value] => some value
  | values => some (",".intercalate (values.filter (· ≠ "")))

def getRequestBodyText : Handling (List UInt8) := do
  onBody BodyStream.seek
  onBody fun body => (.ok body.remaining, { body with position := body.bytes.length })

/-- `JsonSerializer.DeserializeAsync`: a function of the bytes that are left. -/
def deserializeAsync {α : Type} (deserialize : List UInt8 → Except Exception (Option α)) :
    Handling (Option α) := do
  let bytes ← onBody fun body => (.ok body.remaining, { body with position := body.bytes.length })
  emit (.parsed bytes)
  ofExcept (deserialize bytes)

/-- The two exceptions that are caught. -/
def logUnread (ex : Exception) : Handling (Option GitHubWebhookEvent) :=
  if ex.is "JsonException" || ex.is "NotSupportedException" then do
    let githubEventBody ← getRequestBodyText
    emit (.logged githubEventBody)
    return none
  else
    throw ex

def getGithubEvent (p : Platform) (githubEvent : String) : Handling (Option GitHubWebhookEvent) :=
  tryCatch
    (if githubEvent = "workflow_run" then do
      let event ← deserializeAsync p.deserializeWorkflowRun
      return event.map .workflowRun
    else if githubEvent = "pull_request" then do
      let event ← deserializeAsync p.deserializePullRequest
      return event.map .pullRequest
    else
      return none)
    logUnread

def logRequest (githubConfiguration : GitHubConfiguration) : Handling Unit := do
  if githubConfiguration.enableRequestLogging then
    let githubEventBody ← getRequestBodyText
    emit (.logged githubEventBody)
    onBody BodyStream.seek

def dispatch (p : Platform) (env : Environment) (githubEventBase : Option GitHubWebhookEvent) :
    Handling Response :=
  let requestHandler := getKeyedService (githubEventBase.map (·.getType))
  match githubEventBase, requestHandler with
  | some event, some handler => handleAsync p env handler event
  | _, _ => return .noContent

def webhook (p : Platform) (env : Environment) (githubEvent : String) : Handling Response := do
  let c ← get
  let githubConfiguration ← ofExcept c.server.configuration
  logRequest githubConfiguration
  let githubEventBase ← getGithubEvent p githubEvent
  dispatch p env githubEventBase

def signatureValidator : Handling (List UInt8) := do
  let c ← get
  match c.server.keyBytes with
  | some keyBytes => return keyBytes
  | none =>
    let configuration ← ofExcept c.server.configuration
    match configuration.webhookKey with
    | none => throw { typeName := "ArgumentNullException", bases := ["ArgumentException"] }
    | some webhookKey =>
      modify fun c => { c with server := { c.server with keyBytes := some (utf8 webhookKey) } }
      return utf8 webhookKey

/-- `memory[7..]`. -/
def sliceFrom7 (memory : List UInt16) : Handling (List UInt16) :=
  if 7 ≤ memory.length then
    return memory.drop 7
  else
    throw { typeName := "ArgumentOutOfRangeException", bases := ["ArgumentException"] }

def validateGithubSecret (p : Platform) (buffer : RentedBuffer) (signature : List String)
    (next : Handling Response) : Handling Response := do
  let keyBytes ← signatureValidator
  match signature with
  | [value] =>
    let signature ← sliceFrom7 (asMemory value)
    if ← validateSignatureAsync p keyBytes buffer signature then
      next
    else
      return .badRequest
  | _ => return .badRequest

def handleRequest (p : Platform) (env : Environment) (request : WebhookRequest) :
    Handling Response :=
  validateGithubSecret p env.buffer request.signature
    (match bindHeader request.githubEvent with
    | some githubEvent => webhook p env githubEvent
    | none => return .unbound)

/-- A request that was handled: by which server, how it ended, and what was done. -/
structure Exchange where
  request : WebhookRequest
  server : Server
  result : Except Exception Response
  effects : List Effect

/-- `WithBufferedRequest` makes the body seekable. -/
def Server.receive (s : Server) (env : Environment) (request : WebhookRequest) : Context where
  server := s
  body := { bytes := request.body, position := 0, canSeek := true, arrivals := env.arrivals }
  effects := []

def Server.post (s : Server) (p : Platform) (env : Environment) (request : WebhookRequest) :
    Exchange × Server :=
  let (result, c) := eval (handleRequest p env request) (s.receive env request)
  (⟨request, s, result, c.effects⟩, c.server)

def Server.reload (s : Server) (configuration : Except Exception GitHubConfiguration) : Server where
  configuration := configuration
  keyBytes :=
    match s.keyBytes, configuration with
    | some _, .ok { webhookKey := some webhookKey, .. } => some (utf8 webhookKey)
    | keyBytes, _ => keyBytes
  options := s.options

inductive ServerEvent where
  | reload (configuration : Except Exception GitHubConfiguration)
  | post (env : Environment) (request : WebhookRequest)

/-- The requests of a run, as they were handled. -/
def Server.serve (p : Platform) : Server → List ServerEvent → List Exchange
  | _, [] => []
  | s, .reload configuration :: events => (s.reload configuration).serve p events
  | s, .post env request :: events =>
    let (exchange, s) := s.post p env request
    exchange :: s.serve p events

end HwoodiwissHelper.GitHub
