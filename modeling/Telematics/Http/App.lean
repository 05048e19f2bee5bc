import Telematics.Http.Query
import Telematics.Metrics
import Telematics.Time.Timeout

/-!
# The service over HTTP

Three paths can be asked for: the health of the service, segments, and metrics. `App.handle` answers
one request and gives the state in which the next one is answered; only the metrics change, by what
the call of the service reports. An error has the status of its kind: 400 for a request that cannot
be served, 502 for a source that fails, 504 for one that does not answer in time.

The time is looked at only while a call waits for its source. A call that computes for ever never
waits again, so it is not given up either, and its request has no answer at all.
-/

set_option autoImplicit false

namespace Telematics.Http

/-- A request. -/
structure HttpRequest where
  method : String
  /-- The path, with a query after a question mark. -/
  target : String

/-- The part of a target before a fragment. -/
def withoutFragment (target : String) : List Char := target.toList.takeWhile fun c => c != '#'

/-- The path of a request. -/
def HttpRequest.path (r : HttpRequest) : String :=
  String.ofList ((withoutFragment r.target).takeWhile fun c => c != '?')

/-- The query of a request; empty if there is none. -/
def HttpRequest.query (r : HttpRequest) : String :=
  String.ofList (((withoutFragment r.target).dropWhile fun c => c != '?').drop 1)

/-- What there is at a path. -/
inductive Route where
  | health
  | segments
  | metrics
deriving DecidableEq

/-- What there is at a path; nothing at any other. -/
def Route.ofPath? : String → Option Route
  | "/api/v1/health" => some health
  | "/api/v1/segments" => some segments
  | "/metrics" => some metrics
  | _ => none

/-- The segments of a request and what they answer. -/
structure Page where
  data : List Segment
  mechanism : Mechanism
  request : Request

/-- The version that the service states. -/
def version : String := "0.1.0"

/-- The body of a response. -/
inductive Body where
  | empty
  /-- The service is well; its version and mechanisms. -/
  | health
  /-- Lines of metrics. -/
  | metrics (lines : List String)
  | page (page : Page)
  /-- The words of an error. -/
  | error (text : String)

/-- A response. -/
structure Response where
  status : Nat
  body : Body

/-- The head of a response, without a body. -/
def Response.head (r : Response) : Response := ⟨r.status, .empty⟩

@[simp] theorem Response.status_head (r : Response) : r.head.status = r.status := rfl

/-- Why there are no segments. -/
inductive ApiError where
  /-- The query cannot be read. -/
  | badQuery (fault : QueryFault)
  /-- The service has an error. -/
  | detection (error : DetectionError)
  /-- The service did not answer in time. -/
  | timedOut (limit : Timeout)

namespace ApiError

/-- The status of an error. -/
def status : ApiError → Nat
  | badQuery _ => 400
  | detection e => if e.isValidation then 400 else 502
  | timedOut _ => 504

/-- The words of an error. -/
def message : ApiError → String
  | badQuery fault => "Failed to deserialize query string: " ++ fault.message
  | detection e => e.message
  | timedOut limit => "detection timed out after " ++ limit.render

/-- The response to an error. -/
def response (e : ApiError) : Response := ⟨e.status, .error e.message⟩

end ApiError

/-- The state of the service between requests. -/
structure App where
  service : Service
  /-- How long a detection may take. -/
  timeout : Timeout
  /-- Metrics are shown. -/
  showsMetrics : Bool
  metrics : Metrics

namespace App

/-- The page of a call of the service, or why there is none; nothing if the call computes for
ever. -/
def pageOf (app : App) (m : Mechanism) (r : Request) (call : Call) :
    Option (Except ApiError Page) :=
  match call.outcome with
  | .answer segments => some (.ok ⟨segments, m, r⟩)
  | .failure e => some (.error (.detection e))
  | .never => some (.error (.timedOut app.timeout))
  | .stuck => none

/-- The segments that a query asks for, and the reports of the call of the service. -/
def detect (app : App) (query : String) : Option (Except ApiError Page) × List Report :=
  match SegmentQuery.parse query with
  | .error fault => (some (.error (.badQuery fault)), [])
  | .ok q =>
    match Mechanism.ofName? q.mechanism with
    | none => (some (.error (.detection (.rejected (.unknownMechanism q.mechanism)))), [])
    | some m =>
      let call := app.service.getSegments m q.request
      (app.pageOf m q.request call, call.reports)

/-- The response to a page or to an error. -/
def pageResponse : Except ApiError Page → Response
  | .ok page => ⟨200, .page page⟩
  | .error e => e.response

/-- The response at a route, if there is one, and the reports of the call it made. -/
def respond (app : App) (query : String) : Route → Option Response × List Report
  | .health => (some ⟨200, .health⟩, [])
  | .metrics => (some ⟨200, .metrics (if app.showsMetrics then app.metrics.lines else [])⟩, [])
  | .segments =>
    match app.detect query with
    | (page, reports) => (page.map pageResponse, reports)

/-- Answers one request, if it has an answer. Asking for the head alone does all that asking for the
whole does, and leaves the body out. -/
def handle (app : App) (r : HttpRequest) : Option Response × App :=
  match Route.ofPath? r.path with
  | none => (some ⟨404, .empty⟩, app)
  | some route =>
    if r.method = "GET" ∨ r.method = "HEAD" then
      match app.respond r.query route with
      | (response, reports) =>
        (if r.method = "HEAD" then response.map Response.head else response,
          { app with metrics := app.metrics.record reports })
    else (some ⟨405, .empty⟩, app)

/-- Answers requests one after the other. A request without an answer keeps no later one from its
own. -/
def handleAll (app : App) : List HttpRequest → List (Option Response) × App
  | [] => ([], app)
  | r :: requests =>
    match app.handle r with
    | (response, next) =>
      match next.handleAll requests with
      | (responses, last) => (response :: responses, last)

end App

end Telematics.Http
