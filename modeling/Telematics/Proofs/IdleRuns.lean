import Mathlib.Data.List.SplitBy
import Telematics.Detection.Idling
import Telematics.Proofs.SampleOrder

/-!
# Runs of idle samples

`Idling.runs` walks over the samples with the growing run in hand. Here a run is found without a
walk: `Idling.blocks` cuts the samples wherever two neighbours are not both idle or too far apart,
and keeps the pieces of idle samples. `runs_eq_blocks` says that the runs are the spans of these
blocks, in order; so runs of ascending samples are in order (`pairwise_runs`).
-/

set_option autoImplicit false

namespace Telematics.Idling

variable {ceiling : Float} {gap : Span}

/-- Two neighbouring samples are both idle and not too far apart. -/
def together (ceiling : Float) (gap : Span) (a b : Sample Float) : Bool :=
  isIdle ceiling a.value && isIdle ceiling b.value && decide (b.time - a.time ≤ gap)

/-- All samples of a piece are idle. -/
def allIdle (ceiling : Float) (piece : List (Sample Float)) : Bool :=
  piece.all fun s => isIdle ceiling s.value

/-- The longest pieces of idle samples whose neighbours are not too far apart. -/
def blocks (ceiling : Float) (gap : Span) (samples : List (Sample Float)) :
    List (List (Sample Float)) :=
  (samples.splitBy (together ceiling gap)).filter (allIdle ceiling)

/-- The range from the first to the last sample of a piece. -/
def span? : List (Sample Float) → Option Range
  | [] => none
  | s :: later => some ⟨s.time, ((s :: later).getLast (List.cons_ne_nil _ _)).time⟩

theorem together_eq_true_iff {a b : Sample Float} :
    together ceiling gap a b = true ↔
      isIdle ceiling a.value = true ∧ isIdle ceiling b.value = true ∧ b.time - a.time ≤ gap := by
  rw [together, Bool.and_eq_true, Bool.and_eq_true, decide_eq_true_eq, and_assoc]

/-! ## The walk over one piece -/

/-- A run that has reached a sample grows over the samples that follow together. -/
theorem growRuns_append {s : Sample Float} {later rest : List (Sample Float)} {start : Instant}
    (hchain : (s :: later).IsChain fun a b => together ceiling gap a b = true) :
    growRuns ceiling gap (some ⟨start, s.time⟩) (later ++ rest) =
      growRuns ceiling gap
        (some ⟨start, ((s :: later).getLast (List.cons_ne_nil _ _)).time⟩) rest := by
  induction later generalizing s with
  | nil => rfl
  | cons next later ih =>
      obtain ⟨hnext, htail⟩ := List.isChain_cons_cons.1 hchain
      obtain ⟨-, hidle, hgap⟩ := together_eq_true_iff.1 hnext
      rw [List.cons_append, growRuns, if_pos hidle]
      simp only [if_pos hgap]
      rw [ih htail, List.getLast_cons_cons]

/-- A run is over when the sample after it does not follow together. -/
theorem growRuns_some_of_not_together {start : Instant} {s : Sample Float}
    {rest : List (Sample Float)} (hidle : isIdle ceiling s.value = true)
    (hrest : ∀ y ∈ rest.head?, together ceiling gap s y = false) :
    growRuns ceiling gap (some ⟨start, s.time⟩) rest =
      ⟨start, s.time⟩ :: growRuns ceiling gap none rest := by
  cases rest with
  | nil => rfl
  | cons y later =>
      have hy : together ceiling gap s y = false := hrest y rfl
      rw [growRuns, growRuns]
      cases hyidle : isIdle ceiling y.value with
      | false => rfl
      | true =>
          have hgap : ¬ y.time - s.time ≤ gap := by
            intro hle
            rw [together_eq_true_iff.2 ⟨hidle, hyidle, hle⟩] at hy
            exact Bool.noConfusion hy
          simp only [if_true, if_neg hgap]

/-- A piece of samples that belong together is idle if its first sample is, and is that one sample
if it is not. -/
theorem allIdle_or_eq_singleton {s : Sample Float} {later : List (Sample Float)}
    (hchain : (s :: later).IsChain fun a b => together ceiling gap a b = true) :
    (isIdle ceiling s.value = true ∧ allIdle ceiling (s :: later) = true) ∨
      (isIdle ceiling s.value = false ∧ later = []) := by
  induction later generalizing s with
  | nil =>
      cases h : isIdle ceiling s.value with
      | true => exact Or.inl ⟨rfl, by simp [allIdle, h]⟩
      | false => exact Or.inr ⟨rfl, rfl⟩
  | cons next later ih =>
      obtain ⟨hnext, htail⟩ := List.isChain_cons_cons.1 hchain
      obtain ⟨hs, hidle, -⟩ := together_eq_true_iff.1 hnext
      rcases ih htail with ⟨-, hall⟩ | ⟨hnot, -⟩
      · refine Or.inl ⟨hs, ?_⟩
        rw [allIdle, List.all_cons, hs, Bool.true_and]
        exact hall
      · rw [hidle] at hnot
        exact Bool.noConfusion hnot

/-! ## The walk over all pieces -/

/-- The walk over pieces that belong together, cut where they do not, finds the spans of the idle
pieces. -/
theorem growRuns_flatten {pieces : List (List (Sample Float))} (hne : [] ∉ pieces)
    (hchain : ∀ piece ∈ pieces, piece.IsChain fun a b => together ceiling gap a b = true)
    (hcut : pieces.IsChain fun a b =>
      ∃ ha hb, together ceiling gap (a.getLast ha) (b.head hb) = false) :
    growRuns ceiling gap none pieces.flatten =
      (pieces.filter (allIdle ceiling)).filterMap span? := by
  induction pieces with
  | nil => rfl
  | cons piece pieces ih =>
      have hne' : [] ∉ pieces := fun h => hne (List.mem_cons_of_mem _ h)
      have htail := ih hne' (fun p hp => hchain p (List.mem_cons_of_mem _ hp)) hcut.tail
      cases piece with
      | nil => exact absurd List.mem_cons_self hne
      | cons s later =>
          -- a piece gives one run, or it is a sample that is not idle and gives none
          have hpiece := hchain (s :: later) List.mem_cons_self
          rw [List.flatten_cons, List.filter_cons]
          rcases allIdle_or_eq_singleton hpiece with ⟨hs, hall⟩ | ⟨hs, rfl⟩
          · -- the run of the piece ends where the next piece begins
            have hlast :
                isIdle ceiling ((s :: later).getLast (List.cons_ne_nil _ _)).value = true :=
              List.all_eq_true.1 hall _ (List.getLast_mem _)
            have hrest : ∀ y ∈ pieces.flatten.head?,
                together ceiling gap ((s :: later).getLast (List.cons_ne_nil _ _)) y = false := by
              intro y hy
              cases pieces with
              | nil => exact absurd hy (by simp)
              | cons next pieces =>
                  obtain ⟨_, hb, hfalse⟩ := (List.isChain_cons_cons.1 hcut).1
                  rw [List.flatten_cons, List.head?_append_of_ne_nil _ hb,
                    List.head?_eq_some_head hb, Option.mem_some_iff] at hy
                  rw [← hy]
                  exact hfalse
            rw [if_pos hall, List.filterMap_cons, span?, ← htail, List.cons_append, growRuns,
              if_pos hs]
            simp only
            rw [growRuns_append hpiece, growRuns_some_of_not_together hlast hrest]
          · have hnot : allIdle ceiling [s] = false := by simp [allIdle, hs]
            rw [hnot, if_neg Bool.false_ne_true, ← htail, List.singleton_append, growRuns, hs]
            rfl

/-- The runs are the spans of the blocks, in order. -/
theorem runs_eq_blocks (ceiling : Float) (gap : Span) (samples : List (Sample Float)) :
    runs ceiling gap samples = (blocks ceiling gap samples).filterMap span? := by
  have h := growRuns_flatten (List.nil_notMem_splitBy (together ceiling gap) samples)
    (fun _ hpiece => List.isChain_of_mem_splitBy hpiece)
    (List.isChain_getLast_head_splitBy (together ceiling gap) samples)
  rw [List.flatten_splitBy] at h
  exact h

/-- The span of a piece reaches from one of its samples to one of its samples. -/
theorem exists_mem_of_span? {piece : List (Sample Float)} {r : Range} (h : span? piece = some r) :
    (∃ s ∈ piece, s.time = r.start) ∧ ∃ s ∈ piece, s.time = r.stop := by
  cases piece with
  | nil => exact absurd h (by simp [span?])
  | cons s later =>
      obtain rfl := Option.some.inj h
      exact ⟨⟨s, List.mem_cons_self, rfl⟩, ⟨_, List.getLast_mem _, rfl⟩⟩

/-- Runs of ascending samples are in order. -/
theorem pairwise_runs {samples : List (Sample Float)} (hsorted : Series.Ascending samples) :
    (runs ceiling gap samples).Pairwise fun a b => a.stop ≤ b.start := by
  rw [← List.flatten_splitBy (together ceiling gap) samples, Series.Ascending,
    List.pairwise_flatten] at hsorted
  rw [runs_eq_blocks, List.pairwise_filterMap]
  apply (hsorted.2.sublist List.filter_sublist).imp
  intro a b hab r hr r' hr'
  obtain ⟨-, x, hx, hxr⟩ := exists_mem_of_span? hr
  obtain ⟨⟨y, hy, hyr⟩, -⟩ := exists_mem_of_span? hr'
  rw [← hxr, ← hyr]
  exact hab x hx y hy

end Telematics.Idling
