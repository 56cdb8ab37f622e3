import VpnCore.Config.Strings
import VpnCore.Lib.Runs
import VpnCore.Lib.Sampling

/-!
# VpnCore.Traffic.History — `TrafficHistory`

Every sample of the traffic counters is kept for about five minutes.  The first one of every minute is
promoted to the minutes, which are kept for about five hours, and the first one of every hour to the
hours.  The lists are pruned when a sample is promoted, relative to that sample: the exact contents
are in `history_of_samples`.

`long` values are integers; differences are brought back into their range.  Two samples are the same
only if they are the same object, so that removing one removes no other.
-/

namespace VpnCore.Traffic

open Config (wrap)
open VpnCore.Lib

/-! ## The code -/

/-- The byte counters at a time. -/
structure TrafficDatapoint where
  inBytes : ℤ
  outBytes : ℤ
  timestamp : ℤ
  deriving DecidableEq, Repr

/-- `PERIODS_TO_KEEP` -/
def periodsToKeep : ℤ := 5

/-- `TIME_PERIOD_MINTUES` -/
def timePeriodMinutes : ℤ := 60 * 1000

/-- `TIME_PERIOD_HOURS` -/
def timePeriodHours : ℤ := 3600 * 1000

structure TrafficHistory where
  trafficHistorySeconds : List TrafficDatapoint := []
  trafficHistoryMinutes : List TrafficDatapoint := []
  trafficHistoryHours : List TrafficDatapoint := []
  lastSecondUsedForMinute : Option TrafficDatapoint := none
  lastMinuteUsedForHours : Option TrafficDatapoint := none
  deriving DecidableEq, Repr

structure LastDiff where
  lasttdp : TrafficDatapoint
  tdp : TrafficDatapoint
  deriving DecidableEq, Repr

def LastDiff.getDiffOut (d : LastDiff) : ℤ := max 0 (wrap 64 (d.tdp.outBytes - d.lasttdp.outBytes))

def LastDiff.getDiffIn (d : LastDiff) : ℤ := max 0 (wrap 64 (d.tdp.inBytes - d.lasttdp.inBytes))

namespace TrafficHistory

/-- `now` is the value of the clock. -/
def getLastDiff (s : TrafficHistory) (tdp : Option TrafficDatapoint) (now : ℤ) : LastDiff :=
  let lasttdp := s.trafficHistorySeconds.getLast?.getD ⟨0, 0, now⟩
  match tdp with
  | some tdp => ⟨lasttdp, tdp⟩
  -- both iterators begin at the end of the list
  | none => ⟨lasttdp, lasttdp⟩

/-- The removal of old samples of `tpList`. -/
def removeOld (timePeriod : ℤ) (newTdp : TrafficDatapoint) (tpList : List TrafficDatapoint) :
    List TrafficDatapoint :=
  tpList.filter fun tph =>
    ¬ periodsToKeep ≤ (wrap 64 (newTdp.timestamp - tph.timestamp)).tdiv timePeriod

/-- The condition for a sample to be promoted; `lastTsPeriod` is not `null` any more. -/
def isNewPeriod (timePeriod : ℤ) (newTdp : TrafficDatapoint) (lastTsPeriod : Option TrafficDatapoint) :
    Bool :=
  (lastTsPeriod.elim 0 (·.timestamp)).tdiv timePeriod < newTdp.timestamp.tdiv timePeriod

/-- `removeAndAverage(newTdp, false)` -/
def removeAndAverageMinutes (s : TrafficHistory) (newTdp : TrafficDatapoint) : TrafficHistory :=
  if isNewPeriod timePeriodHours newTdp s.lastMinuteUsedForHours then
    { s with
      trafficHistoryHours := s.trafficHistoryHours ++ [newTdp]
      lastMinuteUsedForHours := some newTdp
      trafficHistoryMinutes := removeOld timePeriodHours newTdp s.trafficHistoryMinutes }
  else s

/-- `removeAndAverage(newTdp, true)` -/
def removeAndAverageSeconds (s : TrafficHistory) (newTdp : TrafficDatapoint) : TrafficHistory :=
  if isNewPeriod timePeriodMinutes newTdp s.lastSecondUsedForMinute then
    let s := { s with
      trafficHistoryMinutes := s.trafficHistoryMinutes ++ [newTdp]
      lastSecondUsedForMinute := some newTdp }.removeAndAverageMinutes newTdp
    { s with
      trafficHistorySeconds := removeOld timePeriodMinutes newTdp s.trafficHistorySeconds }
  else s

def addDataPoint (s : TrafficHistory) (tdp : TrafficDatapoint) : TrafficHistory :=
  let s := { s with trafficHistorySeconds := s.trafficHistorySeconds ++ [tdp] }
  let s :=
    if s.lastSecondUsedForMinute.isNone then
      { s with lastSecondUsedForMinute := some ⟨0, 0, 0⟩, lastMinuteUsedForHours := some ⟨0, 0, 0⟩ }
    else s
  s.removeAndAverageSeconds tdp

/-- `add(in, out)` at the time `tdp.timestamp`.  The clock is read once more for the first
difference, where its value is not used. -/
def add (s : TrafficHistory) (tdp : TrafficDatapoint) : TrafficHistory × LastDiff :=
  (s.addDataPoint tdp, s.getLastDiff (some tdp) tdp.timestamp)

end TrafficHistory

/-! ## What the lists hold -/

open TrafficDatapoint (timestamp)

/-- The time of the last sample in a list. -/
def latest (xs : List TrafficDatapoint) : ℤ := xs.getLast?.elim 0 timestamp

/-- The first sample of every minute. -/
def minuteSamples (xs : List TrafficDatapoint) : List TrafficDatapoint :=
  firsts (fun x => x.timestamp / timePeriodMinutes) xs

/-- The first sample of every hour. -/
def hourSamples (xs : List TrafficDatapoint) : List TrafficDatapoint :=
  firsts (fun x => x.timestamp / timePeriodHours) xs

/-- Less than five minutes older than the time `m`. -/
def withinMinutes (m : ℤ) : TrafficDatapoint → Bool :=
  retained timestamp timePeriodMinutes periodsToKeep m

/-- Less than five hours older than the time `h`. -/
def withinHours (h : ℤ) : TrafficDatapoint → Bool :=
  retained timestamp timePeriodHours periodsToKeep h

/-- The clock shows at least an hour, and fits into a `long`. -/
def OnClock (x : TrafficDatapoint) : Prop := 3600000 ≤ x.timestamp ∧ x.timestamp < 2 ^ 63

instance (x : TrafficDatapoint) : Decidable (OnClock x) := inferInstanceAs (Decidable (_ ∧ _))

theorem wrap_of_long {n : ℤ} (h : 0 ≤ n) (h' : n < 2 ^ 63) : wrap 64 n = n :=
  Int.bmod_eq_of_le (by norm_num; omega) (by norm_num; omega)

theorem isNewPeriod_eq {p : ℤ} {x l : TrafficDatapoint} (hx : OnClock x) (hl : 0 ≤ l.timestamp) :
    TrafficHistory.isNewPeriod p x (some l) = true ↔ l.timestamp / p < x.timestamp / p := by
  have hx0 : 0 ≤ x.timestamp := by have := hx.1; omega
  rw [TrafficHistory.isNewPeriod, decide_eq_true_iff, Option.elim_some,
    Int.tdiv_eq_ediv_of_nonneg hl, Int.tdiv_eq_ediv_of_nonneg hx0]

/-- Removing is retaining the others. -/
theorem removeOld_eq {p : ℤ} {x : TrafficDatapoint} (hx : OnClock x) {ys : List TrafficDatapoint}
    (hys : ∀ y ∈ ys, OnClock y ∧ y.timestamp ≤ x.timestamp) :
    TrafficHistory.removeOld p x ys =
      ys.filter (retained timestamp p periodsToKeep x.timestamp) := by
  refine List.filter_congr fun y hy => ?_
  obtain ⟨hclock, hle⟩ := hys y hy
  have h1 := hclock.1
  have h2 := hx.2
  rw [wrap_of_long (by omega) (by omega), Int.tdiv_eq_ediv_of_nonneg (by omega), retained]
  exact decide_eq_decide.2 not_le

/-- The lists after the samples `xs`, of which `m` and `h` were promoted last. -/
structure Holds (xs : List TrafficDatapoint) (s : TrafficHistory) (m h : TrafficDatapoint) : Prop where
  clock : ∀ x ∈ xs, OnClock x
  lastSecond : s.lastSecondUsedForMinute = some m
  lastMinute : s.lastMinuteUsedForHours = some h
  minute : Newest timestamp timePeriodMinutes xs m
  hour : Newest timestamp timePeriodHours xs h
  seconds : s.trafficHistorySeconds = xs.filter (withinMinutes m.timestamp)
  minutes : s.trafficHistoryMinutes = (minuteSamples xs).filter (withinHours h.timestamp)
  hours : s.trafficHistoryHours = hourSamples xs

theorem timePeriodMinutes_pos : 0 < timePeriodMinutes := by decide

theorem timePeriodHours_pos : 0 < timePeriodHours := by decide

/-- The first sample of a minute may be the first of an hour, another one is not. -/
theorem hour_le_of_minute_le {a b : ℤ} (h : a / timePeriodMinutes ≤ b / timePeriodMinutes) :
    a / timePeriodHours ≤ b / timePeriodHours := by
  unfold timePeriodMinutes timePeriodHours at *
  omega

section Lists

variable {p ref : ℤ} {x : TrafficDatapoint} {ys : List TrafficDatapoint}

/-- A sample is added, and nothing is removed. -/
theorem filter_retained_append (hp : 0 < p) (href : ref ≤ x.timestamp)
    (ys : List TrafficDatapoint) :
    ys.filter (retained timestamp p periodsToKeep ref) ++ [x] =
      (ys ++ [x]).filter (retained timestamp p periodsToKeep ref) := by
  rw [List.filter_append, List.filter_cons_of_pos (retained_of_le hp (by decide) href),
    List.filter_nil]

/-- A sample is added, and the old ones are removed. -/
theorem removeOld_append (hp : 0 < p) (href : ref ≤ x.timestamp) (hx : OnClock x)
    (hys : ∀ y ∈ ys, OnClock y ∧ y.timestamp ≤ x.timestamp) :
    TrafficHistory.removeOld p x (ys.filter (retained timestamp p periodsToKeep ref) ++ [x]) =
      (ys ++ [x]).filter (retained timestamp p periodsToKeep x.timestamp) := by
  rw [removeOld_eq hx, List.filter_append, List.filter_append, filter_retained hp href]
  exact List.forall_mem_append.2 ⟨fun y hy => hys y (List.mem_of_mem_filter hy),
    List.forall_mem_singleton.2 ⟨hx, le_rfl⟩⟩

end Lists

section Step

variable {xs : List TrafficDatapoint} {s : TrafficHistory} {m h x : TrafficDatapoint}

/-- A sample that is not the first of its minute. -/
theorem Holds.add_old (hs : Holds xs s m h) (hx : OnClock x)
    (hxs : ∀ y ∈ xs, y.timestamp ≤ x.timestamp)
    (hold : ¬ m.timestamp / timePeriodMinutes < x.timestamp / timePeriodMinutes) :
    Holds (xs ++ [x]) (s.addDataPoint x) m h := by
  have hm0 : 0 ≤ m.timestamp := by have := (hs.clock m hs.minute.mem).1; omega
  have hmx := hxs m hs.minute.mem
  have hhx := hxs h hs.hour.mem
  have hadd : s.addDataPoint x =
      { s with trafficHistorySeconds := s.trafficHistorySeconds ++ [x] } := by
    have hnot : ¬ TrafficHistory.isNewPeriod timePeriodMinutes x s.lastSecondUsedForMinute = true := by
      rw [hs.lastSecond, isNewPeriod_eq hx hm0]
      exact hold
    simp only [TrafficHistory.addDataPoint, TrafficHistory.removeAndAverageSeconds, hs.lastSecond,
      Option.isNone_some, Bool.false_eq_true, if_false]
    rw [hs.lastSecond] at hnot
    exact if_neg hnot
  have hholdHour : ¬ h.timestamp / timePeriodHours < x.timestamp / timePeriodHours := by
    have hle := (hour_le_of_minute_le (not_lt.1 hold)).trans (hs.hour.le m hs.minute.mem)
    omega
  rw [hadd]
  refine ⟨List.forall_mem_append.2 ⟨hs.clock, List.forall_mem_singleton.2 hx⟩, hs.lastSecond,
    hs.lastMinute, hs.minute.old timePeriodMinutes_pos hmx hold,
    hs.hour.old timePeriodHours_pos hhx hholdHour, ?_, ?_, ?_⟩
  · change s.trafficHistorySeconds ++ [x] = _
    rw [hs.seconds]
    exact filter_retained_append timePeriodMinutes_pos hmx xs
  · change s.trafficHistoryMinutes = _
    rw [hs.minutes, minuteSamples, minuteSamples, hs.minute.firsts_old timePeriodMinutes_pos hmx hold]
  · change s.trafficHistoryHours = _
    rw [hs.hours, hourSamples, hourSamples, hs.hour.firsts_old timePeriodHours_pos hhx hholdHour]

/-- What `removeAndAverage(newTdp, false)` does with a sample that was promoted to the minutes. -/
theorem Holds.promoteHour (hs : Holds xs s m h) (hx : OnClock x)
    (hxs : ∀ y ∈ xs, y.timestamp ≤ x.timestamp)
    (hnew : m.timestamp / timePeriodMinutes < x.timestamp / timePeriodMinutes)
    (seconds : List TrafficDatapoint) :
    ∃ h', Newest timestamp timePeriodHours (xs ++ [x]) h' ∧
      TrafficHistory.removeAndAverageMinutes
        { s with
          trafficHistorySeconds := seconds
          trafficHistoryMinutes := s.trafficHistoryMinutes ++ [x]
          lastSecondUsedForMinute := some x } x =
        { trafficHistorySeconds := seconds
          trafficHistoryMinutes := (minuteSamples (xs ++ [x])).filter (withinHours h'.timestamp)
          trafficHistoryHours := hourSamples (xs ++ [x])
          lastSecondUsedForMinute := some x
          lastMinuteUsedForHours := some h' } := by
  have hh0 : 0 ≤ h.timestamp := by have := (hs.clock h hs.hour.mem).1; omega
  have hhx := hxs h hs.hour.mem
  have hsamples : minuteSamples (xs ++ [x]) = minuteSamples xs ++ [x] := hs.minute.firsts_new hnew
  have hcond := isNewPeriod_eq (p := timePeriodHours) hx hh0
  by_cases hhour : h.timestamp / timePeriodHours < x.timestamp / timePeriodHours
  · have hhours : hourSamples (xs ++ [x]) = hourSamples xs ++ [x] := hs.hour.firsts_new hhour
    have hminutes := removeOld_append timePeriodHours_pos hhx hx fun y (hy : y ∈ minuteSamples xs) =>
      ⟨hs.clock y (mem_of_mem_firsts _ hy), hxs y (mem_of_mem_firsts _ hy)⟩
    refine ⟨x, hs.hour.new hhour, ?_⟩
    simp only [TrafficHistory.removeAndAverageMinutes, hs.lastMinute, hcond.2 hhour, if_true]
    rw [hs.minutes, hs.hours, hsamples, hhours]
    exact congrArg (TrafficHistory.mk seconds · _ _ _) hminutes
  · have hhours : hourSamples (xs ++ [x]) = hourSamples xs :=
      hs.hour.firsts_old timePeriodHours_pos hhx hhour
    have hminutes := filter_retained_append timePeriodHours_pos hhx (minuteSamples xs)
    refine ⟨h, hs.hour.old timePeriodHours_pos hhx hhour, ?_⟩
    rw [← hcond] at hhour
    simp only [TrafficHistory.removeAndAverageMinutes, hs.lastMinute, hhour]
    rw [hs.minutes, hs.hours, hsamples, hhours]
    exact congrArg (TrafficHistory.mk seconds · _ _ _) hminutes

/-- The first sample of a minute. -/
theorem Holds.add_new (hs : Holds xs s m h) (hx : OnClock x)
    (hxs : ∀ y ∈ xs, y.timestamp ≤ x.timestamp)
    (hnew : m.timestamp / timePeriodMinutes < x.timestamp / timePeriodMinutes) :
    ∃ h', Holds (xs ++ [x]) (s.addDataPoint x) x h' := by
  have hm0 : 0 ≤ m.timestamp := by have := (hs.clock m hs.minute.mem).1; omega
  have hmx := hxs m hs.minute.mem
  obtain ⟨h', hhour, hpromoted⟩ := hs.promoteHour hx hxs hnew (s.trafficHistorySeconds ++ [x])
  have hcond := (isNewPeriod_eq (p := timePeriodMinutes) hx hm0).2 hnew
  have hseconds := removeOld_append timePeriodMinutes_pos hmx hx fun y (hy : y ∈ xs) =>
    ⟨hs.clock y hy, hxs y hy⟩
  refine ⟨h', ?_⟩
  have hadd : s.addDataPoint x =
      { trafficHistorySeconds := (xs ++ [x]).filter (withinMinutes x.timestamp)
        trafficHistoryMinutes := (minuteSamples (xs ++ [x])).filter (withinHours h'.timestamp)
        trafficHistoryHours := hourSamples (xs ++ [x])
        lastSecondUsedForMinute := some x
        lastMinuteUsedForHours := some h' } := by
    simp only [TrafficHistory.addDataPoint, TrafficHistory.removeAndAverageSeconds, hs.lastSecond,
      Option.isNone_some, Bool.false_eq_true, if_false, hcond, if_true, hpromoted]
    rw [hs.seconds]
    exact congrArg (TrafficHistory.mk · _ _ _ _) hseconds
  rw [hadd]
  exact ⟨List.forall_mem_append.2 ⟨hs.clock, List.forall_mem_singleton.2 hx⟩, rfl, rfl,
    hs.minute.new hnew, hhour, rfl, rfl, rfl⟩

/-- **A step.** -/
theorem Holds.addDataPoint (hs : Holds xs s m h) (hx : OnClock x)
    (hxs : ∀ y ∈ xs, y.timestamp ≤ x.timestamp) :
    ∃ m' h', Holds (xs ++ [x]) (s.addDataPoint x) m' h' := by
  by_cases hnew : m.timestamp / timePeriodMinutes < x.timestamp / timePeriodMinutes
  · exact ⟨x, hs.add_new hx hxs hnew⟩
  · exact ⟨m, h, hs.add_old hx hxs hnew⟩

end Step

theorem filter_retained_singleton {p : ℤ} (hp : 0 < p) (x : TrafficDatapoint) :
    [x].filter (retained timestamp p periodsToKeep x.timestamp) = [x] :=
  List.filter_cons_of_pos (retained_of_le hp (by decide) le_rfl)

theorem removeOld_singleton {p : ℤ} (hp : 0 < p) {x : TrafficDatapoint} (hx : OnClock x) :
    TrafficHistory.removeOld p x [x] = [x] := by
  rw [removeOld_eq hx (List.forall_mem_singleton.2 ⟨hx, le_rfl⟩), filter_retained_singleton hp]

/-- The first sample is promoted twice, since the clock shows at least an hour. -/
theorem holds_first {x : TrafficDatapoint} (hx : OnClock x) :
    Holds [x] (TrafficHistory.addDataPoint {} x) x x := by
  have hnew : ∀ p, 0 < p → p ≤ 3600000 →
      TrafficHistory.isNewPeriod p x (some ⟨0, 0, 0⟩) = true := by
    intro p hp hle
    rw [isNewPeriod_eq hx (le_refl (0 : ℤ))]
    change 0 / p < _
    rw [Int.zero_ediv]
    exact Int.le_ediv_of_mul_le hp (by have := hx.1; omega)
  have hadd : TrafficHistory.addDataPoint {} x = ⟨[x], [x], [x], some x, some x⟩ := by
    simp only [TrafficHistory.addDataPoint, Option.isNone_none, if_true,
      TrafficHistory.removeAndAverageSeconds, hnew timePeriodMinutes (by decide) (by decide),
      TrafficHistory.removeAndAverageMinutes, hnew timePeriodHours (by decide) (by decide),
      List.nil_append, removeOld_singleton timePeriodMinutes_pos hx,
      removeOld_singleton timePeriodHours_pos hx]
  rw [hadd]
  refine ⟨List.forall_mem_singleton.2 hx, rfl, rfl, newest_singleton x, newest_singleton x,
    (filter_retained_singleton timePeriodMinutes_pos x).symm,
    (filter_retained_singleton timePeriodHours_pos x).symm, rfl⟩

/-! ## The result -/

/-- The history after the samples. -/
def historyOf (xs : List TrafficDatapoint) : TrafficHistory := run (fun s x => (s.add x).1) {} xs

/-- What `add` returned for the samples. -/
def diffsOf (xs : List TrafficDatapoint) : List LastDiff := replies TrafficHistory.add {} xs

/-- The clock does not go back. -/
def Clocked (xs : List TrafficDatapoint) : Prop :=
  (∀ x ∈ xs, OnClock x) ∧ xs.Pairwise fun a b => a.timestamp ≤ b.timestamp

theorem Clocked.snoc {xs : List TrafficDatapoint} {x : TrafficDatapoint} (h : Clocked (xs ++ [x])) :
    Clocked xs ∧ OnClock x ∧ ∀ y ∈ xs, y.timestamp ≤ x.timestamp := by
  obtain ⟨hclock, hsorted⟩ := h
  rw [List.pairwise_append] at hsorted
  exact ⟨⟨fun y hy => hclock y (List.mem_append_left _ hy), hsorted.1⟩, hclock x (by simp),
    fun y hy => hsorted.2.2 y hy x (by simp)⟩

theorem historyOf_append (xs : List TrafficDatapoint) (x : TrafficDatapoint) :
    historyOf (xs ++ [x]) = (historyOf xs).addDataPoint x := by
  rw [historyOf, run_append]
  rfl

/-- **A run.** -/
theorem holds_historyOf (xs : List TrafficDatapoint) (h : Clocked xs) :
    xs = [] ∨ ∃ m k, Holds xs (historyOf xs) m k := by
  induction xs using List.reverseRecOn with
  | nil => exact Or.inl rfl
  | append_singleton xs x ih =>
    obtain ⟨hprev, hx, hle⟩ := h.snoc
    rw [historyOf_append]
    rcases ih hprev with rfl | ⟨m, k, hs⟩
    · exact Or.inr ⟨x, x, holds_first hx⟩
    · exact Or.inr (hs.addDataPoint hx hle)

/-- The last sample is never removed. -/
theorem getLast_seconds {xs : List TrafficDatapoint} (h : Clocked xs) :
    (historyOf xs).trafficHistorySeconds.getLast? = xs.getLast? := by
  rcases holds_historyOf xs h with rfl | ⟨m, k, hs⟩
  · rfl
  · rcases List.eq_nil_or_concat xs with rfl | ⟨init, x, rfl⟩
    · rfl
    · rw [List.concat_eq_append] at *
      obtain ⟨-, -, hle⟩ := h.snoc
      have hmx : m.timestamp ≤ x.timestamp := by
        rcases List.mem_append.1 hs.minute.mem with hm | hm
        · exact hle m hm
        · rw [List.mem_singleton.1 hm]
      have hlast := filter_retained_append timePeriodMinutes_pos hmx init
      rw [hs.seconds, withinMinutes, ← hlast, List.getLast?_append, List.getLast?_append]
      rfl

/-- A traffic counter: a `long` that is not negative and does not decrease. -/
def IsCounter (f : TrafficDatapoint → ℤ) (xs : List TrafficDatapoint) : Prop :=
  (∀ x ∈ xs, 0 ≤ f x ∧ f x < 2 ^ 63) ∧ xs.Pairwise fun a b => f a ≤ f b

/-- The last value of a counter. -/
def lastValue (f : TrafficDatapoint → ℤ) (xs : List TrafficDatapoint) : ℤ := xs.getLast?.elim 0 f

theorem sum_diffsOf {f : TrafficDatapoint → ℤ} {diff : LastDiff → ℤ}
    (hdiff : ∀ d, diff d = max 0 (wrap 64 (f d.tdp - f d.lasttdp))) (hzero : ∀ now, f ⟨0, 0, now⟩ = 0)
    (xs : List TrafficDatapoint) (h : Clocked xs) (hf : IsCounter f xs) :
    ((diffsOf xs).map diff).sum = lastValue f xs := by
  induction xs using List.reverseRecOn with
  | nil => rfl
  | append_singleton xs x ih =>
    obtain ⟨hrange, hsorted⟩ := hf
    rw [List.pairwise_append] at hsorted
    have hprev : IsCounter f xs := ⟨fun y hy => hrange y (List.mem_append_left _ hy), hsorted.1⟩
    have hlast : f ((historyOf xs).getLastDiff (some x) x.timestamp).lasttdp = lastValue f xs := by
      rw [TrafficHistory.getLastDiff, getLast_seconds h.snoc.1, lastValue]
      cases xs.getLast? with
      | none => exact hzero _
      | some y => rfl
    have hbound : 0 ≤ lastValue f xs ∧ lastValue f xs ≤ f x := by
      unfold lastValue
      rcases hxs : xs.getLast? with _ | y
      · exact ⟨le_rfl, (hrange x (by simp)).1⟩
      · have hy := List.mem_of_getLast? hxs
        exact ⟨(hprev.1 y hy).1, hsorted.2.2 y hy x (by simp)⟩
    have hx := (hrange x (by simp)).2
    have hnew : diff ((historyOf xs).getLastDiff (some x) x.timestamp) = f x - lastValue f xs := by
      rw [hdiff, hlast]
      change max 0 (wrap 64 (f x - _)) = _
      rw [wrap_of_long (by omega) (by omega), max_eq_right (by omega)]
    have hall : diffsOf (xs ++ [x]) = diffsOf xs ++ [(historyOf xs).getLastDiff (some x) x.timestamp] :=
      replies_append _ _ _ _
    have hvalue : lastValue f (xs ++ [x]) = f x := by
      simp [lastValue]
    rw [hall, List.map_append, List.sum_append, ih h.snoc.1 hprev, List.map_singleton,
      List.sum_singleton, hnew, hvalue]
    omega

/-- **The exact contents.** -/
theorem history_of_samples {xs : List TrafficDatapoint} (h : Clocked xs) :
    (historyOf xs).trafficHistoryHours = hourSamples xs ∧
    (historyOf xs).trafficHistoryMinutes =
      (minuteSamples xs).filter (withinHours (latest (hourSamples xs))) ∧
    (historyOf xs).trafficHistorySeconds =
      xs.filter (withinMinutes (latest (minuteSamples xs))) ∧
    (IsCounter TrafficDatapoint.inBytes xs →
      ((diffsOf xs).map LastDiff.getDiffIn).sum = lastValue TrafficDatapoint.inBytes xs) ∧
    (IsCounter TrafficDatapoint.outBytes xs →
      ((diffsOf xs).map LastDiff.getDiffOut).sum = lastValue TrafficDatapoint.outBytes xs) := by
  refine ⟨?_, ?_, ?_, sum_diffsOf (fun _ => rfl) (fun _ => rfl) xs h,
    sum_diffsOf (fun _ => rfl) (fun _ => rfl) xs h⟩
  all_goals rcases holds_historyOf xs h with rfl | ⟨m, k, hs⟩
  · rfl
  · exact hs.hours
  · rfl
  · have hlatest : latest (hourSamples xs) = k.timestamp := by
      rw [latest, show (hourSamples xs).getLast? = some k from hs.hour.last]
      rfl
    rw [hlatest]
    exact hs.minutes
  · rfl
  · have hlatest : latest (minuteSamples xs) = m.timestamp := by
      rw [latest, show (minuteSamples xs).getLast? = some m from hs.minute.last]
      rfl
    rw [hlatest]
    exact hs.seconds

/-- Three samples, the last of them six minutes after the first. -/
def sixMinutes : List TrafficDatapoint :=
  [⟨10, 1, 3600000⟩, ⟨25, 1, 3601000⟩, ⟨40, 7, 3960000⟩]

theorem history_sixMinutes :
    (historyOf sixMinutes).trafficHistorySeconds = [⟨40, 7, 3960000⟩] ∧
      ((diffsOf sixMinutes).map LastDiff.getDiffIn).sum = 40 := by
  have h := history_of_samples (show Clocked sixMinutes from ⟨by decide, by decide⟩)
  exact ⟨h.2.2.1, h.2.2.2.1 ⟨by decide, by decide⟩⟩

end VpnCore.Traffic
