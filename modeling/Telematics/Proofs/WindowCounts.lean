import Mathlib.Algebra.Order.Ring.Nat
import Mathlib.Data.Finset.Card
import Mathlib.Data.List.Nodup
import Mathlib.Data.List.Perm.Subperm
import Mathlib.Data.List.Sort
import Telematics.Proofs.LogReads

/-!
# Counts of windows are exact

A log answers a question for windows by sorting the rows that count by bucket and gathering
neighbours. Here the windows are found from the log itself: `bucketRows` are the rows of a bucket
that count for a question, `mem_windows_iff` says that the windows are those of the buckets whose
rows qualify, and `sum_signalCount_windows_le` that no row counts twice.

For questions that ask for counts alone, `exists_mem_windows_counting_iff` says which windows there
are, and where a bucket lies in the asked range its rows are those that arrived in it
(`length_bucketRows_eq_arrivals`). More rows only make counts larger
(`exists_mem_windows_of_subperm`).
-/

set_option autoImplicit false

namespace Telematics

/-- Whole seconds after the epoch are different instants. -/
theorem Instant.ofSeconds_inj {a b : Int} : Instant.ofSeconds a = .ofSeconds b ↔ a = b := by
  simp only [Instant.ofSeconds, Instant.mk.injEq, Span.seconds]
  omega

theorem Instant.nanos_ofSeconds (n : Int) : (Instant.ofSeconds n).nanos = n * 1000000000 := rfl

namespace Log

variable {token : TokenId} {query : WindowQuery}

/-! ## Rows that arrived -/

/-- The number of rows of a vehicle that arrived in a range of time. -/
def arrivals (log : Log) (token : TokenId) (within : Range) : Nat :=
  log.records.countP fun r => r.token == token && decide (r.time ∈ within)

/-- What arrived in a range is what arrived in its two parts: no row is lost between them, and none
counts twice. -/
theorem arrivals_add (log : Log) (token : TokenId) {a b c : Instant} (hab : a ≤ b) (hbc : b ≤ c) :
    log.arrivals token ⟨a, b⟩ + log.arrivals token ⟨b, c⟩ = log.arrivals token ⟨a, c⟩ := by
  simp only [arrivals]
  rw [List.countP_eq_countP_filter_add log.records
    (fun r => r.token == token && decide (r.time ∈ (⟨a, c⟩ : Range)))
    (fun r => decide (r.time < b)), List.countP_filter, List.countP_filter]
  rw [Instant.le_iff] at hab hbc
  congr 1
  · apply List.countP_congr
    intro r _
    simp only [Bool.and_eq_true, decide_eq_true_eq, Range.mem_iff, Instant.le_iff, Instant.lt_iff]
    grind
  · apply List.countP_congr
    intro r _
    simp only [Bool.and_eq_true, Bool.not_eq_true', decide_eq_true_eq, decide_eq_false_iff_not,
      Range.mem_iff, Instant.le_iff, Instant.lt_iff]
    grind

/-! ## Gathered rows -/

/-- Gathering neither loses nor doubles a row, and keeps their order. -/
theorem flatMap_gather (n : Int) (rows : List Record) :
    (gather n rows).flatMap Prod.snd = rows := by
  induction rows with
  | nil => rfl
  | cons r rest ih =>
      rw [gather]
      split
      · rename_i hnil
        rw [hnil] at ih
        simp [← ih]
      · rename_i b group groups hcons
        rw [hcons] at ih
        split
        · simp [← ih]
        · simp [← ih]

/-- Rows in the order of their buckets give one group for each bucket, in order. -/
theorem pairwise_gather {n : Int} {rows : List Record}
    (hsorted : rows.Pairwise fun a b => bucket n a.time ≤ bucket n b.time) :
    (gather n rows).Pairwise fun a b => a.1 < b.1 := by
  induction rows with
  | nil => exact List.Pairwise.nil
  | cons r rest ih =>
      obtain ⟨hr, hrest⟩ := List.pairwise_cons.1 hsorted
      have ih := ih hrest
      rw [gather]
      split
      · exact List.pairwise_singleton _ _
      · rename_i b group groups hcons
        have hle : bucket n r.time ≤ b := by
          obtain ⟨hne, hall⟩ := mem_gather (hcons ▸ List.mem_cons_self)
          obtain ⟨x, later, rfl⟩ := List.exists_cons_of_ne_nil hne
          obtain ⟨hx, hxb⟩ := hall x List.mem_cons_self
          rw [← hxb]
          exact hr x hx
        rw [hcons] at ih
        obtain ⟨hfirst, hlater⟩ := List.pairwise_cons.1 ih
        split
        · exact List.pairwise_cons.2 ⟨hfirst, hlater⟩
        · rename_i hb
          refine List.pairwise_cons.2 ⟨fun g hg => ?_, ih⟩
          have hlt : bucket n r.time < b := by omega
          rcases List.mem_cons.1 hg with rfl | hg
          · exact hlt
          · exact Int.lt_trans hlt (hfirst g hg)

/-- The group of a bucket is all its rows. -/
theorem eq_filter_of_mem_gather {n b : Int} {rows group : List Record}
    (hsorted : rows.Pairwise fun a b => bucket n a.time ≤ bucket n b.time)
    (h : (b, group) ∈ gather n rows) :
    group = rows.filter fun r => decide (bucket n r.time = b) := by
  obtain ⟨before, after, hsplit⟩ := List.append_of_mem h
  have hkeys := pairwise_gather hsorted
  have hrows := flatMap_gather n rows
  rw [hsplit] at hkeys hrows
  obtain ⟨-, hlater, hearlier⟩ := List.pairwise_append.1 hkeys
  -- rows of other groups have other buckets
  have hother : ∀ groups : List (Int × List Record), groups ⊆ gather n rows →
      (∀ g ∈ groups, g.1 ≠ b) →
        (groups.flatMap Prod.snd).filter (fun r => decide (bucket n r.time = b)) = [] := by
    intro groups hsub hne
    apply List.filter_eq_nil_iff.2
    intro r hr
    obtain ⟨g, hg, hrg⟩ := List.mem_flatMap.1 hr
    rw [decide_eq_true_eq, ((mem_gather (hsub hg)).2 r hrg).2]
    exact hne g hg
  rw [hsplit] at hother
  have hbefore := hother before (List.subset_append_left _ _) fun g hg =>
    Int.ne_of_lt (hearlier g hg (b, group) List.mem_cons_self)
  have hafter := hother after
    (List.subset_append_of_subset_right _ (List.subset_cons_self _ _)) fun g hg =>
      Int.ne_of_gt ((List.pairwise_cons.1 hlater).1 g hg)
  have hgroup : group.filter (fun r => decide (bucket n r.time = b)) = group := by
    apply List.filter_eq_self.2
    intro r hr
    exact decide_eq_true ((mem_gather h).2 r hr).2
  rw [← hrows, List.flatMap_append, List.flatMap_cons, List.filter_append, List.filter_append,
    hbefore, hafter, hgroup, List.nil_append, List.append_nil]

/-- There is a group for the bucket of every row. -/
theorem exists_mem_gather {n : Int} {rows : List Record} {r : Record} (hr : r ∈ rows) :
    ∃ group, (bucket n r.time, group) ∈ gather n rows := by
  rw [← flatMap_gather n rows] at hr
  obtain ⟨⟨b, group⟩, hg, hrg⟩ := List.mem_flatMap.1 hr
  rw [((mem_gather hg).2 r hrg).2]
  exact ⟨group, hg⟩

/-! ## Names -/

/-- Each name is kept once. -/
theorem nodup_eraseDups (names : List String) : names.eraseDups.Nodup := by
  induction hn : names.length using Nat.strong_induction_on generalizing names with
  | _ n ih =>
      cases names with
      | nil => exact List.nodup_nil
      | cons name later =>
          rw [List.eraseDups_cons, List.nodup_cons]
          have hlt : (later.filter fun x => !x == name).length < n := by
            rw [← hn, List.length_cons]
            exact Nat.lt_succ_of_le (List.length_filter_le _ _)
          exact ⟨by simp [List.mem_eraseDups], ih _ hlt _ rfl⟩

/-- So there are as many as there are different ones. -/
theorem length_eraseDups (names : List String) : names.eraseDups.length = names.toFinset.card := by
  rw [← List.toFinset_card_of_nodup (nodup_eraseDups names)]
  congr 1
  ext name
  rw [List.mem_toFinset, List.mem_toFinset, List.mem_eraseDups]

/-- How many different names there are does not depend on their order. -/
theorem length_eraseDups_of_perm {names others : List String} (h : names.Perm others) :
    names.eraseDups.length = others.eraseDups.length := by
  rw [length_eraseDups, length_eraseDups, List.toFinset_eq_of_perm _ _ h]

/-! ## Windows of a question -/

/-- The rows that count for a question, in the order of their buckets. -/
def bucketed (log : Log) (token : TokenId) (query : WindowQuery) : List Record :=
  (log.records.filter (counts token query)).mergeSort fun a b =>
    decide (bucket query.windowSeconds a.time ≤ bucket query.windowSeconds b.time)

/-- The rows of a bucket that count for a question. -/
def bucketRows (log : Log) (token : TokenId) (query : WindowQuery) (b : Int) : List Record :=
  (log.bucketed token query).filter fun r => decide (bucket query.windowSeconds r.time = b)

theorem pairwise_bucketed (log : Log) (token : TokenId) (query : WindowQuery) :
    (log.bucketed token query).Pairwise fun a b =>
      bucket query.windowSeconds a.time ≤ bucket query.windowSeconds b.time := by
  have hsorted : (log.bucketed token query).Pairwise fun a b =>
      decide (bucket query.windowSeconds a.time ≤ bucket query.windowSeconds b.time) = true := by
    refine List.pairwise_mergeSort ?_ ?_ _
    · intro a b c hab hbc
      rw [decide_eq_true_eq] at hab hbc ⊢
      exact Int.le_trans hab hbc
    · intro a b
      rw [Bool.or_eq_true, decide_eq_true_eq, decide_eq_true_eq]
      exact Int.le_total _ _
  exact hsorted.imp of_decide_eq_true

/-- Rows that arrived in order are in the order of their buckets. -/
theorem bucketed_of_pairwise {log : Log} (h : log.records.Pairwise fun a b => a.time ≤ b.time)
    (token : TokenId) {query : WindowQuery} (hquery : 0 < query.windowSeconds) :
    log.bucketed token query = log.records.filter (counts token query) := by
  apply List.mergeSort_of_pairwise
  apply (h.filter _).imp
  intro a b hle
  rw [decide_eq_true_eq]
  have hsecond : a.time.second ≤ b.time.second := Int.ediv_le_ediv (by decide) hle
  exact Int.mul_le_mul_of_nonneg_right (Int.ediv_le_ediv hquery hsecond) (Int.le_of_lt hquery)

/-- Sorting does not change how many rows of a bucket there are. -/
theorem length_bucketRows (log : Log) (token : TokenId) (query : WindowQuery) (b : Int) :
    (log.bucketRows token query b).length = log.records.countP fun r =>
      decide (bucket query.windowSeconds r.time = b) && counts token query r := by
  rw [bucketRows, ← List.countP_eq_length_filter, bucketed, (List.mergeSort_perm _ _).countP_eq,
    List.countP_filter]

/-- The groups are the buckets that are not empty, each with all its rows. -/
theorem mem_gather_bucketed_iff {log : Log} {b : Int} {group : List Record} :
    (b, group) ∈ gather query.windowSeconds (log.bucketed token query) ↔
      group ≠ [] ∧ group = log.bucketRows token query b := by
  constructor
  · intro h
    exact ⟨(mem_gather h).1, eq_filter_of_mem_gather (log.pairwise_bucketed token query) h⟩
  · rintro ⟨hne, rfl⟩
    obtain ⟨r, later, hrows⟩ := List.exists_cons_of_ne_nil hne
    have hr : r ∈ log.bucketRows token query b := by
      rw [hrows]
      exact List.mem_cons_self
    rw [bucketRows, List.mem_filter, decide_eq_true_eq] at hr
    obtain ⟨group, hgroup⟩ := exists_mem_gather (n := query.windowSeconds) hr.1
    rw [hr.2] at hgroup
    rw [bucketRows, ← eq_filter_of_mem_gather (log.pairwise_bucketed token query) hgroup]
    exact hgroup

/-- The windows of a question are those of its buckets that are not empty and whose rows qualify. -/
theorem mem_windows_iff {log : Log} {w : Window} :
    w ∈ log.windows token query ↔
      ∃ b, log.bucketRows token query b ≠ [] ∧
        qualifies query (log.bucketRows token query b) = true ∧
        window? query.windowSeconds b (log.bucketRows token query b) = some w := by
  have hwindows : log.windows token query =
      (gather query.windowSeconds (log.bucketed token query)).filterMap fun g =>
        if qualifies query g.2 then window? query.windowSeconds g.1 g.2 else none := rfl
  rw [hwindows, List.mem_filterMap]
  constructor
  · rintro ⟨⟨b, group⟩, hgroup, hw⟩
    obtain ⟨hne, rfl⟩ := mem_gather_bucketed_iff.1 hgroup
    rw [Option.ite_none_right_eq_some] at hw
    exact ⟨b, hne, hw⟩
  · rintro ⟨b, hne, hw⟩
    refine ⟨(b, _), mem_gather_bucketed_iff.2 ⟨hne, rfl⟩, ?_⟩
    rw [Option.ite_none_right_eq_some]
    exact hw

theorem window?_eq_some_iff {n b : Int} {group : List Record} {w : Window} :
    window? n b group = some w ↔ (Instant.ofSeconds b).InCalendar ∧
      w = ⟨.ofSeconds b, Instant.ofSeconds b + Span.seconds n, group.length,
        (group.map Record.name).eraseDups.length⟩ := by
  simp only [window?]
  split
  · rename_i h
    simp [h, eq_comm]
  · rename_i h
    simp [h]

/-- Windows are answered in the order of their starts, one for each bucket. -/
theorem pairwise_windows (log : Log) (token : TokenId) (query : WindowQuery) :
    (log.windows token query).Pairwise fun a b => a.start < b.start := by
  have hstart : ∀ (g : Int × List Record) (w : Window),
      (if qualifies query g.2 then window? query.windowSeconds g.1 g.2 else none) = some w →
        w.start.nanos = g.1 * 1000000000 := by
    intro g w hw
    rw [Option.ite_none_right_eq_some] at hw
    obtain ⟨-, rfl⟩ := window?_eq_some_iff.1 hw.2
    rfl
  rw [windows, List.pairwise_filterMap]
  apply (pairwise_gather (log.pairwise_bucketed token query)).imp
  intro a b hab v hv w hw
  rw [Instant.lt_iff, hstart a v hv, hstart b w hw]
  omega

/-- Windows in the order of their starts are told by their members. -/
theorem eq_of_mem_iff {found others : List Window}
    (h : found.Pairwise fun a b => a.start < b.start)
    (h' : others.Pairwise fun a b => a.start < b.start) (hmem : ∀ w, w ∈ found ↔ w ∈ others) :
    found = others := by
  have hirrefl : Std.Irrefl fun a b : Window => a.start < b.start :=
    ⟨fun a => Int.lt_irrefl a.start.nanos⟩
  have hantisymm : Std.Antisymm fun a b : Window => a.start < b.start :=
    ⟨fun _ _ hab hba => absurd hba (Int.lt_asymm hab)⟩
  exact h.eq_of_mem_iff h' hmem

/-- A window has the count of its bucket and the length that was asked for. -/
theorem eq_of_mem_windows {log : Log} {w : Window} {b : Int} (hw : w ∈ log.windows token query)
    (hstart : w.start = .ofSeconds b) :
    w.signalCount = (log.bucketRows token query b).length ∧
      w.range = ⟨.ofSeconds b, Instant.ofSeconds b + Span.seconds query.windowSeconds⟩ := by
  obtain ⟨b', -, -, hwindow⟩ := mem_windows_iff.1 hw
  obtain ⟨-, rfl⟩ := window?_eq_some_iff.1 hwindow
  obtain rfl := Instant.ofSeconds_inj.1 hstart
  exact ⟨rfl, rfl⟩

/-- No row counts in two windows. -/
theorem sum_signalCount_windows_le (log : Log) (token : TokenId) (query : WindowQuery) :
    ((log.windows token query).map Window.signalCount).sum ≤ log.size := by
  have hgroups : ∀ groups : List (Int × List Record),
      ((groups.filterMap fun g =>
          if qualifies query g.2 then window? query.windowSeconds g.1 g.2
          else none).map Window.signalCount).sum ≤ (groups.flatMap Prod.snd).length := by
    intro groups
    induction groups with
    | nil => exact Nat.le_refl _
    | cons g groups ih =>
        rw [List.filterMap_cons, List.flatMap_cons, List.length_append]
        split
        · exact Nat.le_trans ih (Nat.le_add_left _ _)
        · rename_i w hw
          rw [Option.ite_none_right_eq_some] at hw
          obtain ⟨-, rfl⟩ := window?_eq_some_iff.1 hw.2
          rw [List.map_cons, List.sum_cons]
          exact Nat.add_le_add_left ih _
  have hrows : ((gather query.windowSeconds (log.bucketed token query)).flatMap Prod.snd).length ≤
      log.size := by
    rw [flatMap_gather, bucketed, List.length_mergeSort]
    exact List.length_filter_le _ _
  exact Nat.le_trans (hgroups _) hrows

/-! ## Questions for counts alone -/

/-- The question for the windows with so many rows of any signals. -/
def counting (within : Range) (windowSeconds : Int) (leastCount : Nat) : WindowQuery :=
  { WindowQuery.all within windowSeconds with leastCount := leastCount }

/-- The rows of a bucket do not depend on how many are asked for. -/
theorem length_bucketRows_counting (log : Log) (token : TokenId) (within : Range) (n b : Int)
    (least : Nat) :
    (log.bucketRows token (counting within n least) b).length = log.records.countP fun r =>
      decide (bucket n r.time = b) && (r.token == token && decide (r.time ∈ within)) := by
  rw [length_bucketRows]
  apply List.countP_congr
  intro r _
  simp only [counts, Bool.and_eq_true, decide_eq_true_eq, Range.mem_iff]
  simp [counting, WindowQuery.all, and_assoc]

/-- A window is answered for each bucket that starts in the calendar, is not empty and has enough
rows. -/
theorem exists_mem_windows_counting_iff {log : Log} {within : Range} {n b : Int} {least : Nat} :
    (∃ w ∈ log.windows token (counting within n least), w.start = .ofSeconds b) ↔
      (Instant.ofSeconds b).InCalendar ∧
        0 < (log.bucketRows token (counting within n least) b).length ∧
        least ≤ (log.bucketRows token (counting within n least) b).length := by
  have hqualifies : ∀ group, qualifies (counting within n least) group = true ↔
      least ≤ group.length := by
    intro group
    simp only [qualifies, Bool.and_eq_true, decide_eq_true_eq]
    simp [counting, WindowQuery.all]
  constructor
  · rintro ⟨w, hw, hstart⟩
    obtain ⟨b', hne, hq, hwindow⟩ := mem_windows_iff.1 hw
    obtain ⟨hcalendar, rfl⟩ := window?_eq_some_iff.1 hwindow
    obtain rfl := Instant.ofSeconds_inj.1 hstart
    exact ⟨hcalendar, List.length_pos_iff.2 hne, (hqualifies _).1 hq⟩
  · rintro ⟨hcalendar, hpos, hleast⟩
    refine ⟨_, mem_windows_iff.2 ⟨b, List.length_pos_iff.1 hpos, (hqualifies _).2 hleast,
      window?_eq_some_iff.2 ⟨hcalendar, rfl⟩⟩, rfl⟩

/-- More rows and a lower threshold leave every window in place, with no smaller count. -/
theorem exists_mem_windows_of_subperm {log more : Log} {within : Range} {n : Int}
    {least least' : Nat} (hmore : log.records.Subperm more.records) (hleast : least' ≤ least)
    {w : Window} (hw : w ∈ log.windows token (counting within n least)) :
    ∃ v ∈ more.windows token (counting within n least'),
      v.range = w.range ∧ w.signalCount ≤ v.signalCount := by
  obtain ⟨b, -, -, hwindow⟩ := mem_windows_iff.1 hw
  have hstart : w.start = .ofSeconds b := by
    obtain ⟨-, rfl⟩ := window?_eq_some_iff.1 hwindow
    rfl
  have hle : (log.bucketRows token (counting within n least) b).length ≤
      (more.bucketRows token (counting within n least') b).length := by
    rw [length_bucketRows_counting, length_bucketRows_counting]
    exact hmore.countP_le _
  obtain ⟨hcalendar, hpos, henough⟩ := exists_mem_windows_counting_iff.1 ⟨w, hw, hstart⟩
  obtain ⟨v, hv, hvstart⟩ := exists_mem_windows_counting_iff.2
    ⟨hcalendar, Nat.lt_of_lt_of_le hpos hle, by omega⟩
  obtain ⟨hcount, hrange⟩ := eq_of_mem_windows hw hstart
  obtain ⟨hcount', hrange'⟩ := eq_of_mem_windows hv hvstart
  refine ⟨v, hv, hrange'.trans hrange.symm, ?_⟩
  rw [hcount, hcount']
  exact hle

/-- An instant is in the bucket that starts with a multiple of its length exactly when it is in the
window of that length. -/
theorem bucket_eq_iff {n b : Int} (hn : 0 < n) (haligned : b % n = 0) (t : Instant) :
    bucket n t = b ↔ t ∈ (⟨.ofSeconds b, Instant.ofSeconds b + Span.seconds n⟩ : Range) := by
  constructor
  · rintro rfl
    exact bucket_le hn t
  · rintro ⟨hlow, hhigh⟩
    have hsecond : t.second = t.nanos / 1000000000 := rfl
    rw [Instant.le_iff, Instant.nanos_ofSeconds] at hlow
    rw [Instant.lt_iff, Instant.nanos_add, Instant.nanos_ofSeconds, Span.seconds] at hhigh
    obtain ⟨m, rfl⟩ := Int.dvd_of_emod_eq_zero haligned
    have hle : m ≤ t.second / n := by
      rw [Int.le_ediv_iff_mul_le hn, Int.mul_comm]
      omega
    have hlt : t.second / n < m + 1 := by
      rw [Int.ediv_lt_iff_lt_mul hn, Int.add_mul, Int.one_mul, Int.mul_comm]
      omega
    have hm : t.second / n = m := by omega
    rw [bucket, hm, Int.mul_comm]

/-- The rows of a bucket that does not start before the asked range are those that arrived in it. -/
theorem length_bucketRows_eq_arrivals (log : Log) (token : TokenId) {within : Range} {n b : Int}
    {least : Nat} (hn : 0 < n) (haligned : b % n = 0) (hstart : within.start ≤ .ofSeconds b) :
    (log.bucketRows token (counting within n least) b).length = log.arrivals token
      ⟨.ofSeconds b, min (Instant.ofSeconds b + Span.seconds n) within.stop⟩ := by
  rw [length_bucketRows_counting]
  apply List.countP_congr
  intro r _
  rw [Instant.le_iff] at hstart
  simp only [Bool.and_eq_true, decide_eq_true_eq, bucket_eq_iff hn haligned, Range.mem_iff,
    Instant.le_iff, Instant.lt_iff, Instant.nanos_min]
  grind

end Log

end Telematics
