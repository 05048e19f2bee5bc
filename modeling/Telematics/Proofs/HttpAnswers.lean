import Telematics.Http.Render
import Telematics.Proofs.DefaultTunables
import Telematics.Proofs.GatedCalls
import Telematics.Proofs.WrittenQueries

/-!
# Answers over HTTP

What a client is told of a request for segments, by what the service does with the query. A query is
refused if it cannot be read, names no mechanism, or is rejected; otherwise the service admits it,
and its call ends with segments, with a read that fails, or not at all. `App.Refines` says which
status and which document each of these ends in, and `App.refines` that a request for segments is so
answered. The first failure counts (`App.Fails`): a name that no mechanism has is told before
anything that is wrong with the values.

A source has no clock here. One that does not reply within the timeout is one that never replies,
so that the timeout has no other part than to be named in the answer. It ends only calls that wait
for a reply: a call that computes for ever leaves its request without an answer (`App.Hangs`,
`App.not_tellsTimeouts_overflowApp`).
-/

set_option autoImplicit false

namespace Telematics.Http

/-- The document of an error. -/
def errorDocument (text : String) : Document := .object [("error", .text text)]

/-- The document of a segment, with null for the stop of one that goes on. -/
def segmentDocument (s : Segment) : Document :=
  .object
    [("start", .text s.start.render),
      ("end", match s.stop with
        | some stop => .text stop.render
        | none => .null),
      ("durationSeconds", .whole s.durationSeconds), ("isOngoing", .bool s.isOngoing),
      ("startedBeforeRange", .bool s.startedBefore)]

/-- The document of segments that answer a request by a mechanism: the segments, how many they are,
and what was asked. -/
def segmentsDocument (m : Mechanism) (r : Request) (segments : List Segment) : Document :=
  .object
    [("data", .list (segments.map segmentDocument)),
      ("meta", .object
        [("count", .whole segments.length), ("tokenId", .whole r.token.toNat),
          ("mechanism", .text m.name), ("from", .text r.asked.start.render),
          ("to", .text r.asked.stop.render)])]

/-- A segment is written with these fields. -/
theorem toDocument_eq_segmentDocument (s : Segment) : s.toDocument = segmentDocument s := by
  obtain ⟨start, stop, duration, isOngoing, startedBefore⟩ := s
  cases stop with
  | none => rfl
  | some stop => rfl

/-- A page is written with its segments and with what was asked. -/
theorem Page.toDocument_eq (p : Page) :
    p.toDocument = segmentsDocument p.mechanism p.request p.data := by
  have hsegments : Segment.toDocument = segmentDocument := funext toDocument_eq_segmentDocument
  rw [toDocument, hsegments]
  rfl

namespace App

/-- A query is read, names a mechanism, and is not rejected. -/
structure Admits (app : App) (query : String) (q : SegmentQuery) (m : Mechanism) : Prop where
  read : SegmentQuery.parse query = .ok q
  known : Mechanism.ofName? q.mechanism = some m
  accepted : q.request.rejection app.service.now = none

/-- A query cannot be read, names no mechanism, or is rejected. -/
def Refuses (app : App) (query : String) : Prop :=
  (∀ q, SegmentQuery.parse query ≠ .ok q) ∨
    ∃ q, SegmentQuery.parse query = .ok q ∧
      (Mechanism.ofName? q.mechanism = none ∨ ∃ why, q.request.rejection app.service.now = some why)

/-- The first failure of a query, with its status and its words. -/
inductive Fails (app : App) (query : String) : Nat → String → Prop where
  /-- The query cannot be read. -/
  | unread {fault : QueryFault} (h : SegmentQuery.parse query = .error fault) :
      Fails app query 400 ("Failed to deserialize query string: " ++ fault.message)
  /-- No mechanism has the name. -/
  | unknown {q : SegmentQuery} (h : SegmentQuery.parse query = .ok q)
      (hname : Mechanism.ofName? q.mechanism = none) :
      Fails app query 400 ("unknown detection mechanism: " ++ q.mechanism)
  /-- The request is rejected. -/
  | rejected {q : SegmentQuery} {m : Mechanism} {why : Rejection}
      (h : SegmentQuery.parse query = .ok q) (hname : Mechanism.ofName? q.mechanism = some m)
      (hwhy : q.request.rejection app.service.now = some why) : Fails app query 400 why.message
  /-- The call waits for a reply that never comes. -/
  | silent {q : SegmentQuery} {m : Mechanism} (h : app.Admits query q m)
      (hnever : (app.service.getSegments m q.request).outcome = .never) :
      Fails app query 504 ("detection timed out after " ++ app.timeout.render)
  /-- A read of the call fails. -/
  | unreadable {q : SegmentQuery} {m : Mechanism} {f : ReadFailure} (h : app.Admits query q m)
      (hread : f.read ∈ (app.service.getSegments m q.request).reads)
      (hreply : app.service.source.reply f.read = .failure f.failure) :
      Fails app query 502 f.message

/-- A query is admitted that asks for recharges among values that cannot be compared. -/
def Hangs (app : App) (query : String) : Prop :=
  ∃ q, app.Admits query q .recharge ∧ Recharge.Endless app.service.source q.request

/-- The answer to a query, if there is one, tells what the service does with it. -/
structure Refines (app : App) (query : String) (response : Option Response) : Prop where
  /-- The query is refused. -/
  refused : response.map Response.status = some 400 ↔ app.Refuses query
  /-- A read of the call has no reply. -/
  timed_out : response.map Response.status = some 504 ↔ ∃ q m, app.Admits query q m ∧
    ∃ read ∈ (app.service.getSegments m q.request).reads,
      app.service.source.reply read = .never
  /-- A read of the call fails. -/
  unreadable : response.map Response.status = some 502 ↔ ∃ q m, app.Admits query q m ∧
    ∃ read ∈ (app.service.getSegments m q.request).reads,
      ∃ e, app.service.source.reply read = .failure e
  /-- The call ends with segments. -/
  found : response.map Response.status = some 200 ↔ ∃ q m segments, app.Admits query q m ∧
    (app.service.getSegments m q.request).outcome = .answer segments
  /-- There is no answer where the call computes for ever, and nowhere else. -/
  unanswered : response = none ↔ app.Hangs query
  /-- The segments of the call are given, with what was asked. -/
  segments : ∀ q m segments, app.Admits query q m →
    (app.service.getSegments m q.request).outcome = .answer segments →
      response.bind (fun r => r.body.toDocument?) = some (segmentsDocument m q.request segments)
  /-- Without segments the words of the first failure are given. -/
  error : ∀ status, response.map Response.status = some status → status ≠ 200 →
    ∃ text, app.Fails query status text ∧
      response.bind (fun r => r.body.toDocument?) = some (errorDocument text)
  /-- What is asked of the service is what the query writes. -/
  written : ∀ q, SegmentQuery.parse query = .ok q ↔ q.WrittenBy (fieldsOf query)
  /-- What the query leaves out means the defaults of the mechanism. -/
  defaults : ∀ q m, app.Admits query q m →
    app.service.getSegments m q.request = app.service.getSegments m (q.request.filled m)

/-- The answer to a query, if there is one. -/
def answerTo (app : App) (query : String) : Option Response := (app.detect query).1.map pageResponse

variable {app : App} {query : String} {q : SegmentQuery} {m : Mechanism}

/-! ## Ends of a query -/

/-- The call of an admitted query is a run of the mechanism. -/
theorem Admits.getSegments_eq (h : app.Admits query q m) :
    app.service.getSegments m q.request =
      Call.ofRun m (m.detect app.service.source app.service.now q.request) := by
  rw [Service.getSegments, h.accepted]

/-- What an admitted query is served with. -/
theorem Admits.serves (h : app.Admits query q m) :
    app.service.Serves m q.request (app.service.getSegments m q.request) := by
  rw [h.getSegments_eq]
  exact app.service.serves_ofRun m h.accepted

/-- An admitted query is answered by how its call ended, and reported as its call is. -/
theorem Admits.detect_eq (h : app.Admits query q m) :
    app.detect query = (app.pageOf m q.request (app.service.getSegments m q.request),
      (app.service.getSegments m q.request).reports) := by
  rw [detect, h.read]
  dsimp only
  rw [h.known]

/-- A failure is answered with its status and its words, and only that of a read is reported. -/
theorem Fails.answerTo_eq {status : Nat} {text : String} (h : app.Fails query status text) :
    app.answerTo query = some ⟨status, .error text⟩ ∧
      (status ≠ 502 → (app.detect query).2 = []) := by
  cases h with
  | unread h =>
      rw [answerTo, detect, h]
      exact ⟨rfl, fun _ => rfl⟩
  | unknown h hname =>
      rw [answerTo, detect, h]
      dsimp only
      rw [hname]
      exact ⟨rfl, fun _ => rfl⟩
  | rejected h hname hwhy =>
      rw [answerTo, detect, h]
      dsimp only
      rw [hname]
      dsimp only
      rw [Service.getSegments, hwhy]
      exact ⟨rfl, fun _ => rfl⟩
  | silent h hnever =>
      rw [answerTo, h.detect_eq, pageOf, hnever]
      exact ⟨rfl, fun _ => h.serves.unheard (Or.inl hnever)⟩
  | unreadable h hread hreply =>
      rw [answerTo, h.detect_eq, pageOf, h.serves.fails _ hread hreply]
      exact ⟨rfl, fun hstatus => absurd rfl hstatus⟩

/-- A call that ends with segments is answered with them. -/
theorem answerTo_of_answer {segments : List Segment} (h : app.Admits query q m)
    (hanswer : (app.service.getSegments m q.request).outcome = .answer segments) :
    app.answerTo query = some ⟨200, .page ⟨segments, m, q.request⟩⟩ := by
  rw [answerTo, h.detect_eq, pageOf, hanswer]
  rfl

/-- A call that computes for ever is neither answered nor reported. -/
theorem Hangs.detect_eq (h : app.Hangs query) : app.detect query = (none, []) := by
  obtain ⟨q, hadmits, hendless⟩ := h
  have hstuck := hadmits.serves.computes.2 ⟨rfl, hendless⟩
  rw [hadmits.detect_eq, pageOf, hstuck, hadmits.serves.unheard (Or.inr hstuck)]

/-- Every query fails, is answered with segments, or hangs. -/
theorem fails_or_answer_or_hangs (app : App) (query : String) :
    (∃ status text, app.Fails query status text) ∨
      (∃ q m segments, app.Admits query q m ∧
        (app.service.getSegments m q.request).outcome = .answer segments) ∨
      app.Hangs query := by
  -- what may go wrong is looked at in the order in which it is told
  cases hread : SegmentQuery.parse query with
  | error fault => exact Or.inl ⟨_, _, .unread hread⟩
  | ok q =>
      cases hname : Mechanism.ofName? q.mechanism with
      | none => exact Or.inl ⟨_, _, .unknown hread hname⟩
      | some m =>
          cases hwhy : q.request.rejection app.service.now with
          | some why => exact Or.inl ⟨_, _, .rejected hread hname hwhy⟩
          | none =>
              have hadmits : app.Admits query q m := ⟨hread, hname, hwhy⟩
              cases houtcome : (app.service.getSegments m q.request).outcome with
              | answer segments => exact Or.inr (Or.inl ⟨q, m, segments, hadmits, houtcome⟩)
              | never => exact Or.inl ⟨_, _, .silent hadmits houtcome⟩
              | failure e =>
                  obtain ⟨f, -, hf, hreply⟩ := (hadmits.serves.failed e houtcome).1
                  exact Or.inl ⟨_, _, .unreadable hadmits hf hreply⟩
              | stuck =>
                  obtain ⟨rfl, hendless⟩ := hadmits.serves.computes.1 houtcome
                  exact Or.inr (Or.inr ⟨q, hadmits, hendless⟩)

/-- A failure never has the status of an answer. -/
theorem Fails.ne_200 {status : Nat} {text : String} (h : app.Fails query status text) :
    status ≠ 200 := by
  cases h <;> decide

/-- A status other than 200 is that of a failure. -/
theorem status_eq_iff {status : Nat} (hstatus : status ≠ 200) :
    (app.answerTo query).map Response.status = some status ↔
      ∃ text, app.Fails query status text := by
  constructor
  · intro h
    rcases app.fails_or_answer_or_hangs query with
      ⟨status', text, hfails⟩ | ⟨q, m, segments, hadmits, hanswer⟩ | hhangs
    · rw [hfails.answerTo_eq.1] at h
      obtain rfl : status' = status := Option.some.inj h
      exact ⟨text, hfails⟩
    · rw [answerTo_of_answer hadmits hanswer] at h
      exact absurd (Option.some.inj h).symm hstatus
    · rw [answerTo, hhangs.detect_eq] at h
      exact absurd h (by simp)
  · rintro ⟨text, hfails⟩
    rw [hfails.answerTo_eq.1]
    rfl

/-- The status 200 is that of segments. -/
theorem status_eq_200_iff :
    (app.answerTo query).map Response.status = some 200 ↔
      ∃ q m segments, app.Admits query q m ∧
        (app.service.getSegments m q.request).outcome = .answer segments := by
  constructor
  · intro h
    rcases app.fails_or_answer_or_hangs query with ⟨status, text, hfails⟩ | hanswer | hhangs
    · rw [hfails.answerTo_eq.1] at h
      exact absurd (Option.some.inj h) hfails.ne_200
    · exact hanswer
    · rw [answerTo, hhangs.detect_eq] at h
      exact absurd h (by simp)
  · rintro ⟨q, m, segments, hadmits, hanswer⟩
    rw [answerTo_of_answer hadmits hanswer]
    rfl

/-- There is no answer where the call computes for ever. -/
theorem answerTo_eq_none_iff : app.answerTo query = none ↔ app.Hangs query := by
  constructor
  · intro h
    rcases app.fails_or_answer_or_hangs query with
      ⟨status, text, hfails⟩ | ⟨q, m, segments, hadmits, hanswer⟩ | hhangs
    · rw [hfails.answerTo_eq.1] at h
      exact absurd h (by simp)
    · rw [answerTo_of_answer hadmits hanswer] at h
      exact absurd h (by simp)
    · exact hhangs
  · intro hhangs
    rw [answerTo, hhangs.detect_eq]
    rfl

/-- A query that is refused fails as a bad request, and nothing else does. -/
theorem fails_400_iff : (∃ text, app.Fails query 400 text) ↔ app.Refuses query := by
  constructor
  · rintro ⟨text, hfails⟩
    cases hfails with
    | unread h => exact Or.inl fun q hq => absurd (h.symm.trans hq) (by simp)
    | unknown h hname => exact Or.inr ⟨_, h, Or.inl hname⟩
    | rejected h hname hwhy => exact Or.inr ⟨_, h, Or.inr ⟨_, hwhy⟩⟩
  · rintro (hunread | ⟨q, hread, hrefused⟩)
    · cases hread : SegmentQuery.parse query with
      | ok q => exact absurd hread (hunread q)
      | error fault => exact ⟨_, .unread hread⟩
    · cases hname : Mechanism.ofName? q.mechanism with
      | none => exact ⟨_, .unknown hread hname⟩
      | some m =>
          rcases hrefused with hunknown | ⟨why, hwhy⟩
          · rw [hname] at hunknown
            exact absurd hunknown (by simp)
          · exact ⟨_, .rejected hread hname hwhy⟩

/-- A read without a reply fails as a gateway that does not answer in time. -/
theorem fails_504_iff : (∃ text, app.Fails query 504 text) ↔
    ∃ q m, app.Admits query q m ∧ ∃ read ∈ (app.service.getSegments m q.request).reads,
      app.service.source.reply read = .never := by
  constructor
  · rintro ⟨text, hfails⟩
    cases hfails with
    | silent h hnever => exact ⟨_, _, h, h.serves.waits.1 hnever⟩
  · rintro ⟨q, m, h, hnever⟩
    exact ⟨_, .silent h (h.serves.waits.2 hnever)⟩

/-- A read that fails fails as a bad gateway. -/
theorem fails_502_iff : (∃ text, app.Fails query 502 text) ↔
    ∃ q m, app.Admits query q m ∧ ∃ read ∈ (app.service.getSegments m q.request).reads,
      ∃ e, app.service.source.reply read = .failure e := by
  constructor
  · rintro ⟨text, hfails⟩
    cases hfails with
    | unreadable h hread hreply => exact ⟨_, _, h, _, hread, _, hreply⟩
  · rintro ⟨q, m, h, read, hread, e, hreply⟩
    have hf : (⟨read, e⟩ : ReadFailure).read ∈ (app.service.getSegments m q.request).reads := hread
    exact ⟨_, .unreadable h hf hreply⟩

/-! ## The answer -/

/-- A request for segments, whole or only the head, calls the service for its query. -/
theorem handle_segments {r : HttpRequest} (hpath : r.path = "/api/v1/segments")
    (hmethod : r.method = "GET" ∨ r.method = "HEAD") :
    app.handle r =
      (if r.method = "HEAD" then (app.answerTo r.query).map Response.head
        else app.answerTo r.query,
        { app with metrics := app.metrics.record (app.detect r.query).2 }) := by
  have hroute : Route.ofPath? r.path = some .segments := by rw [hpath]; rfl
  rw [handle, hroute]
  dsimp only
  rw [if_pos hmethod]
  rfl

/-- A request for the whole is answered with the whole. -/
theorem handle_get {r : HttpRequest} (hmethod : r.method = "GET")
    (hpath : r.path = "/api/v1/segments") : (app.handle r).1 = app.answerTo r.query := by
  rw [handle_segments hpath (Or.inl hmethod), if_neg (by rw [hmethod]; decide)]

/-- A request for segments is answered by what the service does with its query. -/
theorem refines (app : App) (r : HttpRequest) (hmethod : r.method = "GET")
    (hpath : r.path = "/api/v1/segments") : app.Refines r.query (app.handle r).1 := by
  rw [handle_get hmethod hpath]
  constructor
  case refused => rw [status_eq_iff (by decide), fails_400_iff]
  case timed_out => rw [status_eq_iff (by decide), fails_504_iff]
  case unreadable => rw [status_eq_iff (by decide), fails_502_iff]
  case found => exact status_eq_200_iff
  case unanswered => exact answerTo_eq_none_iff
  case segments =>
    intro q m segments hadmits hanswer
    rw [answerTo_of_answer hadmits hanswer]
    exact congrArg some (Page.toDocument_eq _)
  case error =>
    intro status hanswered hstatus
    obtain ⟨text, hfails⟩ := (status_eq_iff hstatus).1 hanswered
    refine ⟨text, hfails, ?_⟩
    rw [hfails.answerTo_eq.1]
    rfl
  case written => exact fun q => SegmentQuery.parse_eq_ok_iff
  case defaults => exact fun q m _ => (app.service.getSegments_filled m q.request).symm

/-- A service over a source that has six samples of an idling engine, fails to give changes of state
and never answers a question for windows. -/
def idleApp : App where
  service :=
    { source.reply := fun
        | .levels _ _ _ =>
          .answer ((List.range 6).map fun k => ⟨Instant.ofSeconds (1709280600 + 60 * k), 800.0⟩)
        | .windows _ _ => .never
        | .changes _ _ _ => .failure (.queryFailed "connection refused")
      now := Instant.ofSeconds 1709337600 }
  timeout := ⟨5000⟩
  showsMetrics := true
  metrics := .empty

/-- A request for the segments of an hour by a mechanism. -/
def hourRequest (method mechanism : String) : HttpRequest :=
  ⟨method, "/api/v1/segments?tokenId=42&from=2024-03-01T08:00:00Z&to=2024-03-01T09:00:00Z" ++
    "&mechanism=" ++ mechanism⟩

/-- The segment of the idling engine is found and told. -/
theorem refines_idleApp :
    (idleApp.handle (hourRequest "GET" "idling")).1.map Response.status = some 200 ∧
      idleApp.Refines (hourRequest "GET" "idling").query
        (idleApp.handle (hourRequest "GET" "idling")).1 :=
  ⟨by decide +kernel, refines idleApp (hourRequest "GET" "idling") rfl (by decide +kernel)⟩

/-- What a client relies on: it is told of a timeout exactly if the call for its query has neither
segments nor an error. -/
def TellsTimeouts (app : App) (query : String) (response : Option Response) : Prop :=
  response.map Response.status = some 504 ↔ ∃ q m, app.Admits query q m ∧
    (∀ segments, (app.service.getSegments m q.request).outcome ≠ .answer segments) ∧
      ∀ e, (app.service.getSegments m q.request).outcome ≠ .failure e

/-- A service over a state of charge whose running sums overflow. -/
def overflowApp : App where
  service := ⟨Service.overflowLog.source, Instant.ofSeconds 7200⟩
  timeout := ⟨1000⟩
  showsMetrics := true
  metrics := .empty

/-- A request for the recharges of the first two hours after the epoch. -/
def rechargeRequest : HttpRequest :=
  ⟨"GET", "/api/v1/segments?tokenId=42&from=1970-01-01T00:00:00Z&to=1970-01-01T02:00:00Z" ++
    "&mechanism=recharge"⟩

/-- The request is admitted and its call has no end, yet no timeout is told: there is no answer. -/
theorem not_tellsTimeouts_overflowApp :
    (overflowApp.handle rechargeRequest).1 = none ∧
      ¬ overflowApp.TellsTimeouts rechargeRequest.query (overflowApp.handle rechargeRequest).1 := by
  have hadmits : overflowApp.Admits rechargeRequest.query
      ⟨"recharge", Ignition.twoHours⟩ .recharge :=
    ⟨by decide +kernel, by decide +kernel, by decide⟩
  have hendless := Service.endless_overflowLog
  have hnone : (overflowApp.handle rechargeRequest).1 = none :=
    (handle_get rfl (by decide +kernel)).trans (answerTo_eq_none_iff.2 ⟨_, hadmits, hendless⟩)
  have hstuck := hadmits.serves.computes.2 ⟨rfl, hendless⟩
  refine ⟨hnone, fun h => ?_⟩
  rw [hnone] at h
  have htold := h.2 ⟨_, _, hadmits, by simp [hstuck], by simp [hstuck]⟩
  exact absurd htold (by simp)

end App

end Telematics.Http
