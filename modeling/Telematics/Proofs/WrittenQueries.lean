import Mathlib.Tactic.MkIffOfInductiveProp
import Telematics.Http.Query

/-!
# What a query writes

The fields of a query are read one after the other into what was given so far. Here a query is told
by its fields as a whole: a value that no field writes is left out, a value that one field writes is
what that field's text reads as, and none may be written by two (`Written`). A query is read as
exactly the segment query of which all ten values are written so (`SegmentQuery.parse_eq_ok_iff`):
no value is changed on the way, and none is made up.
-/

set_option autoImplicit false

namespace Telematics.Http

/-- The texts that are given for a name, in order. -/
def textsOf (name : String) (fields : List Field) : List String :=
  (fields.filter fun f => f.name == name).map Field.value

/-- The text of one field is given for its name only. -/
theorem textsOf_singleton {name : String} {f : Field} :
    textsOf name [f] = if f.name = name then [f.value] else [] := by
  rw [textsOf, List.filter_cons]
  split <;> rename_i h
  · rw [if_pos (by simpa using h)]
    rfl
  · rw [if_neg (by simpa using h)]
    rfl

theorem textsOf_append {name : String} {fields later : List Field} :
    textsOf name (fields ++ later) = textsOf name fields ++ textsOf name later := by
  rw [textsOf, List.filter_append, List.map_append]
  rfl

variable {α : Type} {read : String → Except QueryFault α}

/-- A value as the texts given for it write it. -/
inductive Written (read : String → Except QueryFault α) : List String → Option α → Prop where
  /-- It is left out. -/
  | absent : Written read [] none
  /-- It is given once. -/
  | given {text : String} {value : α} (h : read text = .ok value) :
      Written read [text] (some value)

/-- The values of a segment query are written by some fields. -/
structure SegmentQuery.WrittenBy (q : SegmentQuery) (fields : List Field) : Prop where
  token : Written Given.vehicle (textsOf "tokenId" fields) (some q.request.token)
  start : Written Given.instant (textsOf "from" fields) (some q.request.asked.start)
  stop : Written Given.instant (textsOf "to" fields) (some q.request.asked.stop)
  mechanism : Written Except.ok (textsOf "mechanism" fields) (some q.mechanism)
  minIdle : Written Given.int64 (textsOf "minIdleSeconds" fields) q.request.tuning.minIdleSeconds
  minSegment : Written Given.int64 (textsOf "minSegmentDurationSeconds" fields)
    q.request.tuning.minSegmentSeconds
  signalCount : Written Given.nat64 (textsOf "signalCountThreshold" fields)
    q.request.tuning.signalCountThreshold
  maxGap : Written Given.int64 (textsOf "maxGapSeconds" fields) q.request.tuning.maxGapSeconds
  maxIdleRpm : Written Given.number (textsOf "maxIdleRpm" fields) q.request.tuning.maxIdleRpm
  minIncrease : Written Given.number (textsOf "minIncreasePercent" fields)
    q.request.tuning.minIncreasePercent

/-! ## One value, text by text -/

/-- What the texts for a value make of what was given before. -/
def Feeds (read : String → Except QueryFault α) : Option α → List String → Option α → Prop
  | before, [], after => before = after
  | before, text :: texts, after =>
    before = none ∧ ∃ value, read text = .ok value ∧ Feeds read (some value) texts after

theorem feeds_nil_iff {before after : Option α} : Feeds read before [] after ↔ before = after :=
  Iff.rfl

theorem feeds_append_iff {before after : Option α} {texts later : List String} :
    Feeds read before (texts ++ later) after ↔
      ∃ between, Feeds read before texts between ∧ Feeds read between later after := by
  induction texts generalizing before with
  | nil => simp [Feeds]
  | cons text texts ih =>
      simp only [List.cons_append, Feeds, ih]
      constructor
      · rintro ⟨hbefore, value, hvalue, between, hbetween, hafter⟩
        exact ⟨between, ⟨hbefore, value, hvalue, hbetween⟩, hafter⟩
      · rintro ⟨between, ⟨hbefore, value, hvalue, hbetween⟩, hafter⟩
        exact ⟨hbefore, value, hvalue, between, hbetween, hafter⟩

/-- Where nothing was given before, the value is the one that the texts write. -/
theorem feeds_none_iff {texts : List String} {after : Option α} :
    Feeds read none texts after ↔ Written read texts after := by
  constructor
  · intro h
    match texts, h with
    | [], h =>
        obtain rfl : none = after := h
        exact .absent
    | [text], ⟨_, value, hvalue, h⟩ =>
        obtain rfl : some value = after := h
        exact .given hvalue
    | _ :: _ :: _, ⟨_, value, _, hgiven, _⟩ => exact absurd hgiven (by simp)
  · intro h
    cases h with
    | absent => rfl
    | given hvalue => exact ⟨rfl, _, hvalue, rfl⟩

/-- A value that may be given once. -/
theorem once_eq_ok_iff {f : Field} {before after : Option α} :
    Given.once f before (read f.value) = .ok after ↔ Feeds read before [f.value] after := by
  cases before with
  | some value => simp [Given.once, Feeds]
  | none =>
      cases hvalue : read f.value with
      | error fault => simp [Given.once, Feeds, Except.map, hvalue]
      | ok value => simp [Given.once, Feeds, Except.map, hvalue]

/-! ## All values, field by field -/

theorem bind_eq_ok_iff {β : Type} {x : Except QueryFault α} {next : α → Except QueryFault β}
    {b : β} : (x >>= next) = .ok b ↔ ∃ a, x = .ok a ∧ next a = .ok b := by
  cases x with
  | error fault => simp [bind, Except.bind]
  | ok a => simp [bind, Except.bind]

namespace Given

variable {g g' : Given} {f : Field} {fields : List Field}

/-- What some fields make of what was given before. -/
@[mk_iff]
structure Takes (g : Given) (fields : List Field) (g' : Given) : Prop where
  token : Feeds vehicle g.token (textsOf "tokenId" fields) g'.token
  start : Feeds instant g.start (textsOf "from" fields) g'.start
  stop : Feeds instant g.stop (textsOf "to" fields) g'.stop
  mechanism : Feeds Except.ok g.mechanism (textsOf "mechanism" fields) g'.mechanism
  minIdle : Feeds int64 g.tuning.minIdleSeconds (textsOf "minIdleSeconds" fields)
    g'.tuning.minIdleSeconds
  minSegment : Feeds int64 g.tuning.minSegmentSeconds (textsOf "minSegmentDurationSeconds" fields)
    g'.tuning.minSegmentSeconds
  signalCount : Feeds nat64 g.tuning.signalCountThreshold (textsOf "signalCountThreshold" fields)
    g'.tuning.signalCountThreshold
  maxGap : Feeds int64 g.tuning.maxGapSeconds (textsOf "maxGapSeconds" fields)
    g'.tuning.maxGapSeconds
  maxIdleRpm : Feeds number g.tuning.maxIdleRpm (textsOf "maxIdleRpm" fields) g'.tuning.maxIdleRpm
  minIncrease : Feeds number g.tuning.minIncreasePercent (textsOf "minIncreasePercent" fields)
    g'.tuning.minIncreasePercent

/-- One more field gives its value, and nothing else. -/
theorem add_eq_ok_iff : g.add f = .ok g' ↔ g.Takes [f] g' := by
  obtain ⟨name, text⟩ := f
  obtain ⟨token, start, stop, mechanism, tuning⟩ := g
  obtain ⟨token', start', stop', mechanism', tuning'⟩ := g'
  obtain ⟨minIdle, minSegment, signalCount, maxGap, maxIdleRpm, minIncrease⟩ := tuning
  obtain ⟨minIdle', minSegment', signalCount', maxGap', maxIdleRpm', minIncrease'⟩ := tuning'
  rw [takes_iff]
  unfold add
  split
  case h_11 =>
    -- a name that means nothing is none of the ten
    simp_all [pure, Except.pure, textsOf_singleton, feeds_nil_iff]
  -- each of the ten names has a value of its own, and the texts for the other nine are none
  all_goals
    rename_i hname
    obtain rfl : name = _ := hname
    simp only [bind_eq_ok_iff, once_eq_ok_iff, pure, Except.pure, Except.ok.injEq, mk.injEq,
      Tuning.mk.injEq, textsOf_singleton, String.reduceEq, ↓reduceIte, feeds_nil_iff]
    grind

/-- No fields give nothing. -/
theorem takes_nil_iff : g.Takes [] g' ↔ g = g' := by
  obtain ⟨token, start, stop, mechanism, tuning⟩ := g
  obtain ⟨token', start', stop', mechanism', tuning'⟩ := g'
  obtain ⟨minIdle, minSegment, signalCount, maxGap, maxIdleRpm, minIncrease⟩ := tuning
  obtain ⟨minIdle', minSegment', signalCount', maxGap', maxIdleRpm', minIncrease'⟩ := tuning'
  simp [takes_iff, textsOf, feeds_nil_iff]

/-- What comes later is given to what came before. -/
theorem takes_append_iff {later : List Field} :
    g.Takes (fields ++ later) g' ↔
      ∃ between : Given, g.Takes fields between ∧ between.Takes later g' := by
  simp only [takes_iff, textsOf_append, feeds_append_iff]
  constructor
  · rintro ⟨⟨token, htoken, htoken'⟩, ⟨start, hstart, hstart'⟩, ⟨stop, hstop, hstop'⟩,
      ⟨mechanism, hmechanism, hmechanism'⟩, ⟨minIdle, hminIdle, hminIdle'⟩,
      ⟨minSegment, hminSegment, hminSegment'⟩, ⟨signalCount, hsignalCount, hsignalCount'⟩,
      ⟨maxGap, hmaxGap, hmaxGap'⟩, ⟨maxIdleRpm, hmaxIdleRpm, hmaxIdleRpm'⟩,
      ⟨minIncrease, hminIncrease, hminIncrease'⟩⟩
    exact ⟨⟨token, start, stop, mechanism,
        minIdle, minSegment, signalCount, maxGap, maxIdleRpm, minIncrease⟩,
      ⟨htoken, hstart, hstop, hmechanism, hminIdle, hminSegment, hsignalCount, hmaxGap,
        hmaxIdleRpm, hminIncrease⟩,
      ⟨htoken', hstart', hstop', hmechanism', hminIdle', hminSegment', hsignalCount', hmaxGap',
        hmaxIdleRpm', hminIncrease'⟩⟩
  · rintro ⟨between, ⟨htoken, hstart, hstop, hmechanism, hminIdle, hminSegment, hsignalCount,
      hmaxGap, hmaxIdleRpm, hminIncrease⟩, ⟨htoken', hstart', hstop', hmechanism', hminIdle',
      hminSegment', hsignalCount', hmaxGap', hmaxIdleRpm', hminIncrease'⟩⟩
    exact ⟨⟨_, htoken, htoken'⟩, ⟨_, hstart, hstart'⟩, ⟨_, hstop, hstop'⟩,
      ⟨_, hmechanism, hmechanism'⟩, ⟨_, hminIdle, hminIdle'⟩, ⟨_, hminSegment, hminSegment'⟩,
      ⟨_, hsignalCount, hsignalCount'⟩, ⟨_, hmaxGap, hmaxGap'⟩, ⟨_, hmaxIdleRpm, hmaxIdleRpm'⟩,
      ⟨_, hminIncrease, hminIncrease'⟩⟩

/-- All fields give their values, and nothing else. -/
theorem addAll_eq_ok_iff : g.addAll fields = .ok g' ↔ g.Takes fields g' := by
  induction fields generalizing g with
  | nil => rw [takes_nil_iff, addAll, Except.ok.injEq]
  | cons f fields ih =>
      rw [addAll, bind_eq_ok_iff, ← List.singleton_append, takes_append_iff]
      simp only [add_eq_ok_iff, ih]

end Given

/-- A value that must be there. -/
theorem required_eq_ok_iff {name : String} {value : Option α} {a : α} :
    required name value = .ok a ↔ value = some a := by
  cases value with
  | none => simp [required]
  | some b => simp [required]

/-- A query is read as the segment query whose values it writes. -/
theorem SegmentQuery.parse_eq_ok_iff {query : String} {q : SegmentQuery} :
    parse query = .ok q ↔ q.WrittenBy (fieldsOf query) := by
  obtain ⟨mechanism, token, ⟨start, stop⟩, tuning⟩ := q
  simp only [parse, bind_eq_ok_iff, Given.addAll_eq_ok_iff, required_eq_ok_iff, pure,
    Except.pure, Except.ok.injEq, mk.injEq, Request.mk.injEq, Range.mk.injEq]
  constructor
  · rintro ⟨g, hg, _, htoken, _, hstart, _, hstop, _, hmechanism, rfl, rfl, ⟨rfl, rfl⟩, rfl⟩
    exact ⟨feeds_none_iff.1 (htoken ▸ hg.token), feeds_none_iff.1 (hstart ▸ hg.start),
      feeds_none_iff.1 (hstop ▸ hg.stop), feeds_none_iff.1 (hmechanism ▸ hg.mechanism),
      feeds_none_iff.1 hg.minIdle, feeds_none_iff.1 hg.minSegment,
      feeds_none_iff.1 hg.signalCount, feeds_none_iff.1 hg.maxGap,
      feeds_none_iff.1 hg.maxIdleRpm, feeds_none_iff.1 hg.minIncrease⟩
  · intro h
    refine ⟨⟨some token, some start, some stop, some mechanism, tuning⟩, ?_,
      token, rfl, start, rfl, stop, rfl, mechanism, rfl, rfl, rfl, ⟨rfl, rfl⟩, rfl⟩
    exact ⟨feeds_none_iff.2 h.token, feeds_none_iff.2 h.start, feeds_none_iff.2 h.stop,
      feeds_none_iff.2 h.mechanism, feeds_none_iff.2 h.minIdle, feeds_none_iff.2 h.minSegment,
      feeds_none_iff.2 h.signalCount, feeds_none_iff.2 h.maxGap, feeds_none_iff.2 h.maxIdleRpm,
      feeds_none_iff.2 h.minIncrease⟩

end Telematics.Http
