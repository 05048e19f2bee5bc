import Telematics.Proofs.HttpAnswers

/-!
# Requests and what is counted of them

The counters of a service are an exact account of the requests it served. A history is a list of
visits, each a request and the service as the request finds it; `App.exchanges` are its requests
with the states in which they are answered, and `App.after` is the state that they leave.
`Exchange.exists_reports` says what one request adds to the metrics, told by its status alone, and
`App.counters_exact` what a whole history adds to each counter. A request without an answer adds
nothing.

A request for the head of a page is counted as one for the whole. Its own answer has no segments;
those that it found are the ones that the same request for the whole is answered with
(`Exchange.segments`).
-/

set_option autoImplicit false

namespace Telematics

namespace Metrics

variable {metrics : Metrics} {m : Mechanism}

theorem record_nil : metrics.record [] = metrics := by
  rw [record, List.append_nil]

/-- Segments of more reports add up. -/
theorem segments_record (reports : List Report) :
    (metrics.record reports).segments m = metrics.segments m + (Metrics.mk reports).segments m := by
  simp only [segments, record, List.filterMap_append, List.foldr_append]
  induction metrics.reports.filterMap (Report.segmentsOf m) with
  | nil => simp
  | cons n counts ih => simp only [List.foldr_cons, ih, Nat.add_assoc]

/-- Errors of more reports add up. -/
theorem errors_record (reports : List Report) :
    (metrics.record reports).errors m = metrics.errors m + (Metrics.mk reports).errors m := by
  rw [errors, errors, errors, record, List.countP_append]

theorem segments_completed (m' : Mechanism) (n : Nat) :
    (Metrics.mk [.completed m' n]).segments m = if m' = m then n else 0 := by
  by_cases h : m' = m <;> simp [segments, Report.segmentsOf, h]

theorem segments_failed (m' : Mechanism) : (Metrics.mk [.failed m']).segments m = 0 := rfl

theorem errors_completed (m' : Mechanism) (n : Nat) :
    (Metrics.mk [.completed m' n]).errors m = 0 := rfl

theorem errors_failed (m' : Mechanism) :
    (Metrics.mk [.failed m']).errors m = if m' = m then 1 else 0 := by
  simp [errors, List.countP_singleton]

end Metrics

namespace Http

/-- A request asks for segments, whole or only for the head of the page. -/
def HttpRequest.ForSegments (r : HttpRequest) : Prop :=
  r.path = "/api/v1/segments" ∧ (r.method = "GET" ∨ r.method = "HEAD")

instance (r : HttpRequest) : Decidable r.ForSegments :=
  inferInstanceAs (Decidable (_ ∧ _))

/-- The mechanism that a request asks for segments by; none if it asks for something else, or names
no mechanism. -/
def HttpRequest.mechanism? (r : HttpRequest) : Option Mechanism :=
  if r.ForSegments then
    match SegmentQuery.parse r.query with
    | .ok q => Mechanism.ofName? q.mechanism
    | .error _ => none
  else none

theorem HttpRequest.forSegments_of_mechanism?_eq {r : HttpRequest} {m : Mechanism}
    (h : r.mechanism? = some m) : r.ForSegments := by
  by_contra hfor
  rw [mechanism?, if_neg hfor] at h
  exact absurd h (by simp)

/-- A request, and the service as the request finds it: its source may hold more by then, and time
has passed. -/
structure Visit where
  service : Service
  request : HttpRequest

/-- A request in the state in which it is answered. -/
structure Exchange where
  app : App
  request : HttpRequest

namespace Exchange

/-- The answer to the request, if there is one. -/
def response (e : Exchange) : Option Response := (e.app.handle e.request).1

/-- The status of the answer to the request, if there is one. -/
def status? (e : Exchange) : Option Nat := e.response.map Response.status

/-- The state that the request leaves. -/
def after (e : Exchange) : App := (e.app.handle e.request).2

/-- The segments that were found: those in the answer to the request for the whole. -/
def segments (e : Exchange) : List Segment :=
  match (e.app.handle { e.request with method := "GET" }).1 with
  | some ⟨_, .page page⟩ => page.data
  | _ => []

/-- The request asks for segments by a mechanism, and is answered with a status. -/
def answered (m : Mechanism) (status : Nat) (e : Exchange) : Bool :=
  e.request.mechanism? == some m && e.status? == some status

end Exchange

namespace App

/-- The request of a visit, in the state in which it is answered. -/
def exchange (app : App) (v : Visit) : Exchange :=
  ⟨{ app with service := v.service }, v.request⟩

/-- The requests of a history, each in the state in which it is answered. -/
def exchanges (app : App) : List Visit → List Exchange
  | [] => []
  | v :: visits => app.exchange v :: (app.exchange v).after.exchanges visits

/-- The state that a history leaves. -/
def after (app : App) : List Visit → App
  | [] => app
  | v :: visits => (app.exchange v).after.after visits

end App

/-! ## One request -/

/-- Segments are at one path only. -/
theorem Route.path_eq_of_segments {path : String} (h : ofPath? path = some segments) :
    path = "/api/v1/segments" := by
  unfold ofPath? at h
  split at h
  case h_2 => rfl
  all_goals exact absurd h (by simp)

namespace Exchange

variable {e : Exchange} {m : Mechanism}

/-- What a request adds to the metrics, told by its status. -/
inductive Adds (e : Exchange) : List Report → Prop where
  /-- Segments were found. -/
  | completed {m : Mechanism} (hm : e.request.mechanism? = some m)
      (hstatus : e.status? = some 200) : Adds e [.completed m e.segments.length]
  /-- A read failed. -/
  | failed {m : Mechanism} (hm : e.request.mechanism? = some m)
      (hstatus : e.status? = some 502) : Adds e [.failed m]
  /-- Nothing was found, and no read failed. -/
  | nothing (hok : e.status? = some 200 → ¬ e.request.ForSegments)
      (hfailed : e.status? ≠ some 502) : Adds e []

theorem answered_iff {status : Nat} :
    e.answered m status = true ↔
      e.request.mechanism? = some m ∧ e.status? = some status := by
  rw [answered, Bool.and_eq_true, beq_iff_eq, beq_iff_eq]

/-- A request for segments is answered by what the service does with its query, with the same status
for the head as for the whole. -/
theorem status_eq (h : e.request.ForSegments) :
    e.status? = (e.app.answerTo e.request.query).map Response.status := by
  rw [status?, response, App.handle_segments h.1 h.2]
  dsimp only
  split
  · rw [Option.map_map]
    rfl
  · rfl

/-- A request for segments leaves what its call reports. -/
theorem after_eq (h : e.request.ForSegments) :
    e.after = { e.app with
      metrics := e.app.metrics.record (e.app.detect e.request.query).2 } := by
  rw [after, App.handle_segments h.1 h.2]

/-- A request that does not ask for segments leaves everything as it was. -/
theorem after_eq_app (h : ¬ e.request.ForSegments) :
    e.after = e.app ∧ e.status? ≠ some 502 := by
  have hrecord : { e.app with metrics := e.app.metrics.record [] } = e.app := by
    rw [Metrics.record_nil]
  rw [after, status?, response, App.handle]
  cases hroute : Route.ofPath? e.request.path with
  | none => simp
  | some route =>
      dsimp only
      split
      · rename_i hmethod
        cases route with
        | health =>
            refine ⟨hrecord, ?_⟩
            dsimp only [App.respond]
            split <;> simp
        | metrics =>
            refine ⟨hrecord, ?_⟩
            dsimp only [App.respond]
            split <;> simp
        | segments => exact absurd ⟨Route.path_eq_of_segments hroute, hmethod⟩ h
      · simp

/-- An admitted query names the mechanism that the request asks for. -/
theorem mechanism?_eq {q : SegmentQuery} (hfor : e.request.ForSegments)
    (h : e.app.Admits e.request.query q m) : e.request.mechanism? = some m := by
  rw [HttpRequest.mechanism?, if_pos hfor, h.read]
  exact h.known

/-- The segments that were found are those of the call. -/
theorem segments_eq {q : SegmentQuery} {segments : List Segment} (hfor : e.request.ForSegments)
    (h : e.app.Admits e.request.query q m)
    (hanswer : (e.app.service.getSegments m q.request).outcome = .answer segments) :
    e.segments = segments := by
  have hwhole : (e.app.handle { e.request with method := "GET" }).1 =
      e.app.answerTo e.request.query := App.handle_get rfl hfor.1
  rw [App.answerTo_of_answer h hanswer] at hwhole
  rw [Exchange.segments, hwhole]

/-- The reports of the call for a request are told by the status of its answer. -/
theorem adds_detect (hfor : e.request.ForSegments) :
    e.Adds (e.app.detect e.request.query).2 := by
  have hstatus := status_eq hfor
  rcases e.app.fails_or_answer_or_hangs e.request.query with
    ⟨status, text, hfails⟩ | ⟨q, m, segments, hadmits, hanswer⟩ | hhangs
  · obtain ⟨hanswer, hreports⟩ := hfails.answerTo_eq
    rw [hanswer, Option.map_some] at hstatus
    -- of all failures only that of a read is reported, and only it has this status
    by_cases h502 : status = 502
    · subst h502
      cases hfails with
      | unreadable h hread hreply =>
          rw [h.detect_eq, (h.serves.failed _ (h.serves.fails _ hread hreply)).2]
          exact .failed (mechanism?_eq hfor h) hstatus
    · rw [hreports h502]
      refine .nothing (fun hok => ?_) fun hfailed => ?_
      · exact absurd (Option.some.inj (hstatus.symm.trans hok)) hfails.ne_200
      · exact h502 (Option.some.inj (hstatus.symm.trans hfailed))
  · rw [App.answerTo_of_answer hadmits hanswer] at hstatus
    rw [hadmits.detect_eq, (hadmits.serves.completed segments hanswer).2,
      ← segments_eq hfor hadmits hanswer]
    exact .completed (mechanism?_eq hfor hadmits) hstatus
  · rw [App.answerTo_eq_none_iff.2 hhangs, Option.map_none] at hstatus
    rw [hhangs.detect_eq]
    exact .nothing (by simp [hstatus]) (by simp [hstatus])

/-- What a request adds to the metrics. -/
theorem exists_reports (e : Exchange) :
    ∃ reports, e.after = { e.app with metrics := e.app.metrics.record reports } ∧
      e.Adds reports := by
  by_cases hfor : e.request.ForSegments
  · exact ⟨_, after_eq hfor, adds_detect hfor⟩
  · obtain ⟨hafter, hstatus⟩ := after_eq_app hfor
    refine ⟨[], ?_, .nothing (fun _ => hfor) hstatus⟩
    rw [hafter, Metrics.record_nil]

/-- What a request adds to the counters of a mechanism. -/
theorem counters_after (e : Exchange) (m : Mechanism) :
    e.after.metrics.segments m =
        e.app.metrics.segments m + (if e.answered m 200 then e.segments.length else 0) ∧
      e.after.metrics.errors m =
        e.app.metrics.errors m + (if e.answered m 502 then 1 else 0) := by
  obtain ⟨reports, hafter, hadds⟩ := e.exists_reports
  rw [hafter]
  dsimp only
  rw [Metrics.segments_record, Metrics.errors_record]
  cases hadds with
  | completed hm hstatus =>
      rw [Metrics.segments_completed, Metrics.errors_completed]
      simp [answered_iff, hm, hstatus]
  | failed hm hstatus =>
      rw [Metrics.segments_failed, Metrics.errors_failed]
      simp [answered_iff, hm, hstatus]
  | nothing hok hfailed =>
      -- a request that names a mechanism asks for segments, so that it is not well answered here
      have h200 : e.answered m 200 = false := by
        rw [Bool.eq_false_iff]
        intro h
        obtain ⟨hm, hstatus⟩ := answered_iff.1 h
        exact hok hstatus (HttpRequest.forSegments_of_mechanism?_eq hm)
      have h502 : e.answered m 502 = false := by
        rw [Bool.eq_false_iff]
        intro h
        exact hfailed (answered_iff.1 h).2
      rw [h200, h502]
      exact ⟨rfl, rfl⟩

/-- A request that is not for segments, is refused, is not answered in time or not at all changes
nothing. -/
theorem after_eq_app_of_uncounted (e : Exchange)
    (h : ¬ e.request.ForSegments ∨ e.status? = some 400 ∨ e.status? = some 504 ∨
      e.status? = none) : e.after = e.app := by
  obtain ⟨reports, hafter, hadds⟩ := e.exists_reports
  -- the statuses that are counted are none of these
  have hcounted {m : Mechanism} {status : Nat} (hm : e.request.mechanism? = some m)
      (hstatus : e.status? = some status) : status = 400 ∨ status = 504 := by
    rw [hstatus] at h
    simpa [HttpRequest.forSegments_of_mechanism?_eq hm] using h
  cases hadds with
  | completed hm hstatus => exact absurd (hcounted hm hstatus) (by decide)
  | failed hm hstatus => exact absurd (hcounted hm hstatus) (by decide)
  | nothing hok hfailed => rw [hafter, Metrics.record_nil]

end Exchange

namespace App

/-- What a history adds to the counters of a mechanism. -/
theorem counters_after (app : App) (visits : List Visit) (m : Mechanism) :
    (app.after visits).metrics.segments m = app.metrics.segments m +
        (((app.exchanges visits).filter (Exchange.answered m 200)).map
          fun e => e.segments.length).foldr (· + ·) 0 ∧
      (app.after visits).metrics.errors m =
        app.metrics.errors m + (app.exchanges visits).countP (Exchange.answered m 502) := by
  induction visits generalizing app with
  | nil => exact ⟨rfl, rfl⟩
  | cons v visits ih =>
      obtain ⟨hsegments, herrors⟩ := (app.exchange v).counters_after m
      obtain ⟨hlater, hlaterErrors⟩ := ih (app.exchange v).after
      have hbefore : (app.exchange v).app.metrics = app.metrics := rfl
      rw [after, exchanges, hlater, hlaterErrors, hsegments, herrors, hbefore, List.filter_cons,
        List.countP_cons]
      constructor
      · split
        · rw [List.map_cons, List.foldr_cons, Nat.add_assoc]
        · rw [Nat.add_zero]
      · rw [Nat.add_assoc, Nat.add_comm (List.countP _ _)]

/-- A history on a service that stays as it is is answered request by request. -/
theorem handleAll_eq (app : App) (requests : List HttpRequest) :
    app.handleAll requests =
      ((app.exchanges (requests.map (Visit.mk app.service))).map Exchange.response,
        app.after (requests.map (Visit.mk app.service))) := by
  induction requests generalizing app with
  | nil => rfl
  | cons r requests ih =>
      -- a request changes the metrics only, so that the next one finds the same service
      have hservice : (app.exchange ⟨app.service, r⟩).after.service = app.service := by
        obtain ⟨reports, hafter, -⟩ := (app.exchange ⟨app.service, r⟩).exists_reports
        rw [hafter]
        rfl
      have hnext := ih (app.exchange ⟨app.service, r⟩).after
      rw [hservice] at hnext
      have hstep : app.handle r = ((app.exchange ⟨app.service, r⟩).response,
          (app.exchange ⟨app.service, r⟩).after) := rfl
      rw [handleAll, hstep]
      dsimp only
      rw [hnext]
      rfl

/-- The counters are an exact account: the segments of a mechanism are those of the requests that it
answered, its errors are the requests whose reads failed, and no other request changes anything. -/
theorem counters_exact (app : App) (visits : List Visit) :
    (∀ m, (app.after visits).metrics.segments m = app.metrics.segments m +
        (((app.exchanges visits).filter (Exchange.answered m 200)).map
          fun e => e.segments.length).foldr (· + ·) 0) ∧
      (∀ m, (app.after visits).metrics.errors m =
        app.metrics.errors m + (app.exchanges visits).countP (Exchange.answered m 502)) ∧
      (∀ e ∈ app.exchanges visits,
        ¬ e.request.ForSegments ∨ e.status? = some 400 ∨ e.status? = some 504 ∨
          e.status? = none → e.after = e.app) ∧
      ∀ requests, app.handleAll requests =
        ((app.exchanges (requests.map (Visit.mk app.service))).map Exchange.response,
          app.after (requests.map (Visit.mk app.service))) :=
  ⟨fun m => (app.counters_after visits m).1, fun m => (app.counters_after visits m).2,
    fun e _ => e.after_eq_app_of_uncounted, app.handleAll_eq⟩

/-- The idling engine is found for a request for the head, then changes of state cannot be read. -/
def idleHistory : List Visit :=
  [hourRequest "HEAD" "idling", hourRequest "GET" "ignition"].map (Visit.mk idleApp.service)

/-- What was found for the head is counted, and so is the read that failed; a request that is not
answered in time changes nothing. -/
theorem counters_exact_idleHistory :
    (idleApp.after idleHistory).metrics.segments .idling = 1 ∧
      (idleApp.after idleHistory).metrics.errors .ignition = 1 ∧
      (idleApp.exchange ⟨idleApp.service, hourRequest "GET" "staticRpm"⟩).after = idleApp := by
  obtain ⟨hsegments, herrors, -, -⟩ := counters_exact idleApp idleHistory
  obtain ⟨-, -, huncounted, -⟩ :=
    counters_exact idleApp [⟨idleApp.service, hourRequest "GET" "staticRpm"⟩]
  rw [hsegments, herrors]
  exact ⟨by decide +kernel, by decide +kernel,
    huncounted _ (List.mem_singleton_self _) (Or.inr (Or.inr (Or.inl (by decide +kernel))))⟩

end App

end Http

end Telematics
