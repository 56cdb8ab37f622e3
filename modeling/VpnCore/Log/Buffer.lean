import VpnCore.Lib.Runs
import VpnCore.Log.Cache

/-!
# VpnCore.Log.Buffer — the log buffer of `VpnStatus`

`newLogItem` puts a new item at the end of the buffer and a restored one at its front, and trims the
buffer from the front.  Since the items of the cache file are restored from the oldest to the newest,
each at the front of the one before, they end up in the reverse order, and a trim drops the newest of
them first.  With at most one item in the file neither can happen (`keepsOrder_iff`).
-/

namespace VpnCore.Log

open VpnCore.Lib

/-! ## The code -/

/-- The messages for `mLogFileHandler`. -/
inductive Message (α : Type*)
  | logMessage (logItem : α)
  | trimLogFile
  deriving DecidableEq, Repr

/-- The buffer and the messages to the file thread. -/
structure Status (α : Type*) where
  logbuffer : List α := []
  messages : List (Message α) := []
  deriving DecidableEq, Repr

section Code

variable {α : Type*}

/-- The buffer may grow to this size before it is trimmed. -/
def trimThreshold : ℕ := maxLogEntries + maxLogEntries / 2

/-- `while (logbuffer.size() > MAXLOGENTRIES) logbuffer.removeFirst()` -/
def removeOldest : List α → List α
  | [] => []
  | x :: xs => if maxLogEntries < (x :: xs).length then removeOldest xs else x :: xs

/-- The first part of `newLogItem`: `addFirst` or `addLast`. -/
def Status.add (s : Status α) (logItem : α) (cachedLine : Bool) : Status α :=
  if cachedLine then { s with logbuffer := logItem :: s.logbuffer }
  else
    { logbuffer := s.logbuffer ++ [logItem], messages := s.messages ++ [.logMessage logItem] }

def Status.trim (s : Status α) : Status α :=
  if trimThreshold < s.logbuffer.length then
    { logbuffer := removeOldest s.logbuffer, messages := s.messages ++ [.trimLogFile] }
  else s

/-- The listeners, which are told last, are left out. -/
def Status.newLogItem (s : Status α) (logItem : α) (cachedLine : Bool) : Status α :=
  (s.add logItem cachedLine).trim

theorem removeOldest_eq_drop (xs : List α) :
    removeOldest xs = xs.drop (xs.length - maxLogEntries) := by
  induction xs with
  | nil => simp [removeOldest]
  | cons x xs ih =>
    rw [removeOldest]
    split_ifs with h
    · rw [ih, List.length_cons, Nat.sub_add_comm (by rw [List.length_cons] at h; omega),
        List.drop_succ_cons]
    · rw [Nat.sub_eq_zero_of_le (by omega), List.drop_zero]

/-- Trimming drops a number of items at the front, none below the threshold. -/
theorem trim_logbuffer (s : Status α) :
    ∃ n, s.trim.logbuffer = s.logbuffer.drop n ∧ (s.logbuffer.length ≤ trimThreshold → n = 0) := by
  unfold Status.trim
  split_ifs with h
  · exact ⟨_, removeOldest_eq_drop _, fun hle => absurd h (by omega)⟩
  · exact ⟨0, rfl, fun _ => rfl⟩

end Code

/-! ## Runs -/

/-- A log item: the one at a place of the cache file, or the one that was logged as the `j`-th. -/
inductive LogItem
  | cached (i : ℕ)
  | logged (j : ℕ)
  deriving DecidableEq, Repr

/-- The items of the cache file are older than those that are logged, and each item is older than
the ones behind it. -/
def LogItem.Older : LogItem → LogItem → Prop
  | .cached i, .cached j => i < j
  | .cached _, .logged _ => True
  | .logged _, .cached _ => False
  | .logged i, .logged j => i < j

/-- `newLogItem` is synchronized, so that the threads take turns: the next item of the file is
restored, or an item is logged. -/
inductive LogEvent
  | restore
  | log
  deriving DecidableEq, Repr

/-- The buffer, with counters of what was put into it. -/
structure LogSystem where
  status : Status LogItem := {}
  /-- how many items were restored -/
  restored : ℕ := 0
  /-- how many items were logged -/
  logged : ℕ := 0
  deriving DecidableEq, Repr

/-- The item of the next step. -/
def LogSystem.item (s : LogSystem) : LogEvent → LogItem
  | .restore => .cached s.restored
  | .log => .logged s.logged

def LogSystem.step (s : LogSystem) : LogEvent → LogSystem
  | .restore =>
    { s with status := s.status.newLogItem (.cached s.restored) true, restored := s.restored + 1 }
  | .log =>
    { s with status := s.status.newLogItem (.logged s.logged) false, logged := s.logged + 1 }

def LogSystem.getlogbuffer (s : LogSystem) : List LogItem := s.status.logbuffer

/-- The items of a file with `n` items, in its order. -/
def cachedItems (n : ℕ) : List LogItem := (List.range n).map .cached

def loggedItems (m : ℕ) : List LogItem := (List.range m).map .logged

/-- The number of restored items of a run. -/
def restores (es : List LogEvent) : ℕ := es.count .restore

/-- A step drops only items that are older than every item that it keeps. -/
def TrimsOldest (s : LogSystem) (e : LogEvent) : Prop :=
  ∀ d, d ∈ s.getlogbuffer ∨ d = s.item e → d ∉ (s.step e).getlogbuffer →
    ∀ k ∈ (s.step e).getlogbuffer, d.Older k

/-- What is expected of a file with `n` items, however they are restored: up to the threshold they
stand at the beginning of the buffer in their order, and trims drop the oldest items. -/
def KeepsOrder (n : ℕ) : Prop :=
  ∀ es, restores es = n →
    (es.length ≤ trimThreshold → cachedItems n <+: (run LogSystem.step {} es).getlogbuffer) ∧
      Along LogSystem.step TrimsOldest {} es

/-! ## Below the threshold -/

theorem run_counts (es : List LogEvent) :
    (run LogSystem.step {} es).restored = restores es ∧
      (run LogSystem.step {} es).logged = es.count .log := by
  induction es using List.reverseRecOn with
  | nil => exact ⟨rfl, rfl⟩
  | append_singleton es e ih =>
    rw [run_append]
    cases e <;> simp [restores, LogSystem.step] <;> simp_all [restores]

theorem length_eq_counts (es : List LogEvent) : restores es + es.count .log = es.length := by
  induction es with
  | nil => rfl
  | cons e es ih => cases e <;> simp [restores] at * <;> omega

/-- **Below the threshold** the restored items are reversed. -/
theorem run_untrimmed (es : List LogEvent) (h : es.length ≤ trimThreshold) :
    (run LogSystem.step {} es).getlogbuffer =
      (cachedItems (restores es)).reverse ++ loggedItems (es.count .log) := by
  induction es using List.reverseRecOn with
  | nil => rfl
  | append_singleton es e ih =>
    rw [List.length_append, List.length_singleton] at h
    have hbuffer := ih (by omega)
    obtain ⟨hrestored, hlogged⟩ := run_counts es
    have hcounts := length_eq_counts es
    have hlength : (run LogSystem.step {} es).getlogbuffer.length = es.length := by
      rw [hbuffer, ← hcounts]
      simp [cachedItems, loggedItems]
    rw [run_append, run_cons, run_nil]
    generalize run LogSystem.step {} es = s at hbuffer hrestored hlogged hlength
    cases e with
    | restore =>
      obtain ⟨n, htrim, hn⟩ := trim_logbuffer (s.status.add (.cached s.restored) true)
      rw [hn (by change (_ :: s.getlogbuffer).length ≤ _; rw [List.length_cons]; omega)] at htrim
      have hnew : (s.step .restore).getlogbuffer = .cached s.restored :: s.getlogbuffer := htrim
      rw [hnew, hbuffer, hrestored]
      simp [restores, cachedItems, List.range_succ]
    | log =>
      obtain ⟨n, htrim, hn⟩ := trim_logbuffer (s.status.add (.logged s.logged) false)
      have hlen : (s.getlogbuffer ++ [LogItem.logged s.logged]).length = es.length + 1 := by
        rw [List.length_append, hlength, List.length_singleton]
      rw [hn (by change (s.getlogbuffer ++ [LogItem.logged s.logged]).length ≤ _; omega)] at htrim
      have hnew : (s.step .log).getlogbuffer = s.getlogbuffer ++ [.logged s.logged] := htrim
      rw [hnew, hbuffer, hlogged]
      simp [restores, loggedItems, List.range_succ]

/-! ## Trims -/

/-- The buffer is sorted by age, and the next items are newer than those in it, except that the first
restored item is older than all of them. -/
structure Aged (s : LogSystem) : Prop where
  sorted : s.getlogbuffer.Pairwise LogItem.Older
  cachedLt : ∀ i, .cached i ∈ s.getlogbuffer → i < s.restored
  loggedLt : ∀ j, .logged j ∈ s.getlogbuffer → j < s.logged

/-- The item is added before or behind all the others. -/
theorem Aged.sorted_add {s : LogSystem} (h : Aged s) {e : LogEvent}
    (he : e = .restore → s.restored = 0) :
    (s.status.add (s.item e) (e == .restore)).logbuffer.Pairwise LogItem.Older := by
  cases e with
  | restore =>
    refine List.pairwise_cons.2 ⟨fun x hx => ?_, h.sorted⟩
    cases x with
    | cached i => exact absurd (h.cachedLt i hx) (by rw [he rfl]; omega)
    | logged j => trivial
  | log =>
    refine List.pairwise_append.2 ⟨h.sorted, List.pairwise_singleton _ _, fun x hx y hy => ?_⟩
    rw [List.mem_singleton.1 hy]
    cases x with
    | cached i => trivial
    | logged j => exact h.loggedLt j hx

theorem getlogbuffer_step (s : LogSystem) (e : LogEvent) :
    (s.step e).getlogbuffer = (s.status.add (s.item e) (e == .restore)).trim.logbuffer := by
  cases e <;> rfl

theorem mem_add {s : LogSystem} {e : LogEvent} {x : LogItem} :
    x ∈ (s.status.add (s.item e) (e == .restore)).logbuffer ↔
      x ∈ s.getlogbuffer ∨ x = s.item e := by
  cases e with
  | restore => exact List.mem_cons.trans or_comm
  | log => exact List.mem_append.trans (or_congr_right List.mem_singleton)

/-- Dropping the front of a sorted list drops what is older. -/
theorem Aged.step {s : LogSystem} (h : Aged s) {e : LogEvent} (he : e = .restore → s.restored = 0) :
    Aged (s.step e) ∧ TrimsOldest s e := by
  have hsorted := h.sorted_add he
  obtain ⟨n, htrim, -⟩ := trim_logbuffer (s.status.add (s.item e) (e == .restore))
  rw [← getlogbuffer_step] at htrim
  have hmem : ∀ x ∈ (s.step e).getlogbuffer, x ∈ s.getlogbuffer ∨ x = s.item e := by
    intro x hx
    rw [htrim] at hx
    exact mem_add.1 (List.mem_of_mem_drop hx)
  refine ⟨⟨?_, fun i hi => ?_, fun j hj => ?_⟩, fun d hd hdrop k hk => ?_⟩
  · rw [htrim]
    exact hsorted.sublist (List.drop_sublist n _)
  · rcases hmem _ hi with hold | hnew
    · cases e with
      | restore => exact Nat.lt_succ_of_lt (h.cachedLt i hold)
      | log => exact h.cachedLt i hold
    · cases e with
      | restore =>
        obtain rfl := LogItem.cached.inj hnew
        exact Nat.lt_succ_self _
      | log => cases hnew
  · rcases hmem _ hj with hold | hnew
    · cases e with
      | restore => exact h.loggedLt j hold
      | log => exact Nat.lt_succ_of_lt (h.loggedLt j hold)
    · cases e with
      | restore => cases hnew
      | log =>
        obtain rfl := LogItem.logged.inj hnew
        exact Nat.lt_succ_self _
  · rw [← mem_add, ← List.take_append_drop n (Status.logbuffer _)] at hd
    rw [← List.take_append_drop n (Status.logbuffer _), List.pairwise_append] at hsorted
    rw [htrim] at hdrop hk
    rcases List.mem_append.1 hd with hd | hd
    · exact hsorted.2.2 d hd k hk
    · exact absurd hd hdrop

/-- A run that restores at most one more item, and only as the first. -/
theorem along_trimsOldest : ∀ (es : List LogEvent) (s : LogSystem), Aged s →
    s.restored + restores es ≤ 1 → Along LogSystem.step TrimsOldest s es
  | [], _, _, _ => trivial
  | e :: es, s, h, hle => by
    have he : e = .restore → s.restored = 0 := by
      rintro rfl
      simp [restores] at hle
      omega
    obtain ⟨haged, htrims⟩ := h.step he
    refine ⟨htrims, along_trimsOldest es _ haged ?_⟩
    cases e <;> simp [restores, LogSystem.step] at hle ⊢ <;> omega

/-! ## The result -/

/-- The items of the file are not in their order if there is more than one. -/
theorem not_prefix_reverse {n : ℕ} (hn : 2 ≤ n) (rest : List LogItem) :
    ¬ cachedItems n <+: (cachedItems n).reverse ++ rest := by
  obtain ⟨m, rfl⟩ : ∃ m, n = m + 2 := ⟨n - 2, by omega⟩
  rintro ⟨t, ht⟩
  have hfirst : cachedItems (m + 2) = .cached 0 :: (cachedItems (m + 2)).tail := by
    simp [cachedItems, List.range_succ_eq_map]
  have hlast : (cachedItems (m + 2)).reverse =
      .cached (m + 1) :: (cachedItems (m + 1)).reverse := by
    simp [cachedItems, List.range_succ]
  rw [hlast, hfirst, List.cons_append, List.cons_append, List.cons.injEq] at ht
  exact absurd (LogItem.cached.inj ht.1) (by omega)

/-- **The order is kept exactly if the file has at most one item.** -/
theorem keepsOrder_iff (n : ℕ) (hn : n ≤ 1000) : KeepsOrder n ↔ n ≤ 1 := by
  constructor
  · intro h
    by_contra hlt
    have hes : restores (List.replicate n .restore) = n := by simp [restores]
    have hle : (List.replicate n LogEvent.restore).length ≤ trimThreshold := by
      rw [List.length_replicate]
      exact hn.trans (by decide)
    have hprefix := (h _ hes).1 hle
    rw [run_untrimmed _ hle, hes] at hprefix
    exact not_prefix_reverse (by omega) _ hprefix
  · intro hone es hes
    refine ⟨fun hle => ?_, along_trimsOldest es {} ⟨by simp [LogSystem.getlogbuffer], by
      simp [LogSystem.getlogbuffer], by simp [LogSystem.getlogbuffer]⟩ (by change 0 + _ ≤ 1; omega)⟩
    rw [run_untrimmed es hle, hes]
    have hreverse : (cachedItems n).reverse = cachedItems n := by
      interval_cases n <;> rfl
    rw [hreverse]
    exact List.prefix_append _ _

theorem keepsOrder_one : KeepsOrder 1 := (keepsOrder_iff 1 (by decide)).2 (by decide)

/-- Two restored items are listed in the reverse order. -/
theorem restored_reversed :
    (run LogSystem.step {} [.restore, .restore]).getlogbuffer = [.cached 1, .cached 0] ∧
      ¬ cachedItems 2 <+: (run LogSystem.step {} [.restore, .restore]).getlogbuffer := by
  decide

end VpnCore.Log
