import MarketSignals.Json.Bytes
import MarketSignals.Remote.Reply
import MarketSignals.Remote.Status
import MarketSignals.Remote.Target

/-!
# The remote decision service

The requests that are sent to the service over HTTP, and what each way an exchange can end means
for the caller.
-/

namespace MarketSignals

/-- The body of a reply. -/
inductive HttpBody where
  /-- All bytes arrived. -/
  | complete (bytes : ByteArray)
  /-- The time was up before the end. -/
  | unfinished

/-- How an HTTP exchange ended. -/
inductive HttpOutcome where
  /-- There was no reply, for a reason. -/
  | failed (reason : String)
  /-- The time was up before a reply. -/
  | timedOut
  /-- There was a reply. -/
  | replied (status : HttpStatus) (body : HttpBody)

/-- How an exchange ended whose only reply has a status; without a final reply it fails. -/
def HttpOutcome.ofReply (reason : String) (status : HttpStatus) (body : HttpBody) : HttpOutcome :=
  if status.isFinal then .replied status body else .failed reason

/-- A request over HTTP. -/
structure HttpRequest where
  /-- The method. -/
  method : String
  /-- The address. -/
  url : String
  /-- The type of the body, if there is one. -/
  contentType : Option String
  /-- The body, if there is one. -/
  body : Option Json

/-- How many characters an address may have. -/
def HttpRequest.maxLength : Nat :=
  Nat.pow 2 16 - 2

/-- What a request asks of the server at an address; none if it does not lead to that server, or if
its own address is too long. -/
def HttpRequest.target? (request : HttpRequest) (server : String) : Option String :=
  if server.toList.isPrefixOf request.url.toList then
    match Target.target? (request.url.toList.drop server.length) with
    | some target =>
      if server.length + target.length ≤ maxLength then some (String.ofList target) else none
    | none => none
  else none

/-- A decision service. -/
structure RemoteService where
  /-- The address that all addresses of the service start with. -/
  baseUrl : String
  /-- How long an exchange may take. -/
  timeout : Span
deriving DecidableEq

namespace RemoteService

/-- How long an exchange may take where nothing else is said. -/
def defaultTimeout : Span :=
  .ofSeconds 30

/-- The service at an address, slashes at its end left out. -/
def ofUrl (url : String) (timeout : Span) : RemoteService :=
  ⟨String.ofList (url.toList.reverse.dropWhile (· == '/')).reverse, timeout⟩

/-- The request that asks whether the service is well. -/
def healthRequest (service : RemoteService) : HttpRequest :=
  ⟨"GET", service.baseUrl ++ "/health", none, none⟩

/-- The document that a decision request is sent as: its readings are one object of names and
numbers. -/
def payload (request : DecisionRequest) : Json :=
  .ofFields [("symbol", .ofText request.symbol), ("market", .ofText request.market),
    ("price", request.price.toJson), ("indicators", request.indicators.readings.flatJson),
    ("metadata", metadataJson request.metadata)]

/-- The request that asks for a decision. -/
def decisionRequest (service : RemoteService) (request : DecisionRequest) : HttpRequest :=
  ⟨"POST", service.baseUrl ++ "/api/v1/decision", some "application/json", some (payload request)⟩

/-- Whether the service is well, by how the exchange ended. -/
def health (service : RemoteService) : HttpOutcome → Except DecisionError Unit
  | .failed reason => .error (.unavailable reason)
  | .timedOut => .error (.timeout service.timeout)
  | .replied status _ =>
    if status.isSuccess then .ok ()
    else .error (.unavailable ("health check failed with status " ++ status.text))

/-- The bytes of a reply's body. -/
def bodyBytes (status : HttpStatus) (bytes : ByteArray) : ByteArray :=
  if status.hasNoBody then ByteArray.empty else bytes

/-- The decision on a request, by how the exchange ended. The reason for a body that cannot be read
is the reader's own and is given by the caller. -/
def decision (service : RemoteService) (unreadable : String) (request : DecisionRequest)
    (now : Timestamp) : HttpOutcome → Except DecisionError Decision
  | .failed reason => .error (.unavailable reason)
  | .timedOut => .error (.timeout service.timeout)
  | .replied status body =>
    if !status.isSuccess then
      .error (.unavailable ("decision service returned status " ++ status.text))
    else
      match body with
      | .unfinished => .error (.timeout service.timeout)
      | .complete bytes =>
        match (Json.readBytes? (bodyBytes status bytes)).bind ServiceReply.ofJson? with
        | some reply => reply.decide request now
        | none => .error (.invalidResponse ("failed to decode response: " ++ unreadable))

/-- The service as a source of decisions: the exchange for a request ends as given, by what was
asked before, and takes some seconds. -/
def source (service : RemoteService) (unreadable : String)
    (exchange : List DecisionRequest → DecisionRequest → HttpOutcome × Float) : DecisionSource where
  origin := .remote
  answer asked now request :=
    let (outcome, seconds) := exchange asked request
    ⟨service.decision unreadable request now outcome, seconds⟩

end RemoteService

end MarketSignals
