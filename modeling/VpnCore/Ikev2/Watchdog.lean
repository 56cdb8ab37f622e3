import VpnCore.Ikev2.Requests

/-!
# VpnCore.Ikev2.Watchdog — no attempt is left unwatched

While the latest attempt is `CONNECTING`, a `mTimeoutRun` should be queued or running, or should
have reported the failure.  The invariant follows the latest attempt only: as long as no later request
was made the worker is between `initializeCharon` and `wait()`, so nothing but the attempt's own
callbacks and `mTimeoutRun` itself can take the watchdog away.  `mTimeoutRun` does so in its second
test, when it finds neither an error in the first nor a retry left.
-/

namespace VpnCore.Ikev2

open VpnCore.Lib

variable {V : Type} {s s' : Service V} {e : Event V}

/-- The latest attempt: its change has been applied, it has never been `CONNECTED`, and no later
request has been made. -/
def Latest (s : Service V) : Prop :=
  0 < s.attempts ∧ s.applied = s.attempts ∧ s.connected = false ∧ s.requests = s.attemptRequest

/-- `CONNECT_FAIL` was reported since the attempt's change was applied. -/
def Reported (s : Service V) : Prop :=
  ∃ timer attempt, Report.connectFail timer attempt s.applied ∈ s.reports

/-- A `mTimeoutRun` is queued or running, or the failure was reported. -/
def Watched (s : Service V) : Prop :=
  s.mTimeoutHandle ≠ [] ∨ s.timeoutRun ≠ none ∨ Reported s

/-- The watchdog of the latest attempt: it is watched, and when more timeouts than the retries have
run to their end, its failure has been reported. -/
def Guarded (s : Service V) : Prop :=
  Latest s → s.mState = some .connecting →
    Watched s ∧ (s.timeoutRun = none → timeoutRetries < s.firings → Reported s)

/-! ## Counting requests and attempts -/

/-- How the ghost counters, the flag and the worker's place hang together. -/
structure Counted (s : Service V) : Prop where
  le : s.attemptRequest ≤ s.requests
  pending : s.mProfileUpdated = true → s.attemptRequest < s.requests
  handling : s.worker.handling = true → s.attemptRequest < s.requests
  returned : s.worker = .returned → s.attemptRequest < s.requests
  destroyed : s.main = .destroyed → s.worker = .returned
  /-- The posted changes of later attempts follow in order. -/
  starts : (s.applied :: startsOf s.mHandler).Pairwise (· < ·)
  starts_le : ∀ n ∈ s.applied :: startsOf s.mHandler, n ≤ s.attempts

theorem counted_created : Counted (created : Service V) where
  le := by simp [created]
  pending := by simp [created]
  handling := by simp [created, Worker.handling]
  returned := by simp [created]
  destroyed := by simp [created]
  starts := by simp [created]
  starts_le := by simp [created]

/-- A step that touches neither the requests nor the posted attempts. -/
theorem Counted.frame (hc : Counted s) (hr : s'.requests = s.requests)
    (ha : s'.attemptRequest = s.attemptRequest) (hu : s'.mProfileUpdated = s.mProfileUpdated)
    (hw : s'.worker = s.worker) (hmain : s'.main = s.main) (hn : s'.attempts = s.attempts)
    (hap : s'.applied = s.applied) (hq : startsOf s'.mHandler = startsOf s.mHandler) :
    Counted s' where
  le := by rw [hr, ha]; exact hc.le
  pending := by rw [hr, ha, hu]; exact hc.pending
  handling := by rw [hr, ha, hw]; exact hc.handling
  returned := by rw [hr, ha, hw]; exact hc.returned
  destroyed := by rw [hmain, hw]; exact hc.destroyed
  starts := by rw [hap, hq]; exact hc.starts
  starts_le := by rw [hap, hq, hn]; exact hc.starts_le

theorem Counted.setNextProfile (hc : Counted s) (p : Option V) : Counted (setNextProfile s p) where
  le := Nat.le_succ_of_le hc.le
  pending := fun _ => Nat.lt_succ_of_le hc.le
  handling := fun _ => Nat.lt_succ_of_le hc.le
  returned := fun _ => Nat.lt_succ_of_le hc.le
  destroyed := hc.destroyed
  starts := hc.starts
  starts_le := hc.starts_le

/-- A step of the worker that ends or continues its work on a request already counted. -/
theorem Counted.of_worker (hc : Counted s) (hlt : s.attemptRequest < s.requests)
    (hw : s.worker ≠ .returned) (hr : s'.requests = s.requests)
    (ha : s'.attemptRequest = s.attemptRequest) (hmain : s'.main = s.main)
    (hn : s'.attempts = s.attempts) (hap : s'.applied = s.applied)
    (hq : startsOf s'.mHandler = startsOf s.mHandler) : Counted s' where
  le := by rw [hr, ha]; exact hc.le
  pending := fun _ => by rw [hr, ha]; exact hlt
  handling := fun _ => by rw [hr, ha]; exact hlt
  returned := fun _ => by rw [hr, ha]; exact hlt
  destroyed := fun h => absurd (hc.destroyed (hmain ▸ h)) hw
  starts := by rw [hap, hq]; exact hc.starts
  starts_le := by rw [hap, hq, hn]; exact hc.starts_le

/-- The end of `initializeCharon`. -/
theorem Counted.of_end (hc : Counted s) (hw : s.worker = .initializing) (hw' : s'.worker = .waiting)
    (hr : s'.requests = s.requests) (ha : s'.attemptRequest = s.attemptRequest)
    (hu : s'.mProfileUpdated = s.mProfileUpdated) (hmain : s'.main = s.main)
    (hn : s'.attempts = s.attempts) (hap : s'.applied = s.applied)
    (hq : startsOf s'.mHandler = startsOf s.mHandler) : Counted s' where
  le := by rw [hr, ha]; exact hc.le
  pending := by rw [hr, ha, hu]; exact hc.pending
  handling := fun h => by simp [hw', Worker.handling] at h
  returned := fun h => by simp [hw'] at h
  destroyed := fun h => absurd (hc.destroyed (hmain ▸ h)) (by simp [hw])
  starts := by rw [hap, hq]; exact hc.starts
  starts_le := by rw [hap, hq, hn]; exact hc.starts_le

theorem Counted.move (hi : Coherent s) (hc : Counted s) (hm : Move s e s') : Counted s' := by
  cases hm with
  | startCommand hmain hfree => exact hc.setNextProfile _
  | onRevoke hfree => exact hc.setNextProfile _
  | settle hq hs => exact hc.frame rfl rfl rfl rfl rfl rfl rfl (by simp [hq])
  | pass hq hs => exact hc.frame rfl rfl rfl rfl rfl rfl rfl (by simp [hq])
  | settleError hq hs => exact hc.frame rfl rfl rfl rfl rfl rfl rfl (by simp [hq])
  | passError hq hs => exact hc.frame rfl rfl rfl rfl rfl rfl rfl (by simp [hq])
  | removeNotification hq => exact hc.frame rfl rfl rfl rfl rfl rfl rfl (by simp [hq])
  | start hmain hq =>
    have hstarts := hc.starts
    have hle := hc.starts_le
    rw [hq, startsOf_cons_startConnection] at hstarts hle
    exact ⟨hc.le, hc.pending, hc.handling, hc.returned, hc.destroyed, hstarts.tail,
      fun n hn => hle n (List.mem_cons_of_mem _ hn)⟩
  | startLate hmain hq =>
    have hstarts := hc.starts
    have hle := hc.starts_le
    rw [hq, startsOf_cons_startConnection] at hstarts hle
    exact ⟨hc.le, hc.pending, hc.handling, hc.returned, hc.destroyed, hstarts.tail,
      fun n hn => hle n (List.mem_cons_of_mem _ hn)⟩
  | destroyWaking hmain hs =>
    exact ⟨hc.le, hc.pending, hc.handling, hc.returned, by simp, hc.starts, hc.starts_le⟩
  | destroyJoining hmain hs =>
    exact ⟨hc.le, hc.pending, hc.handling, hc.returned, by simp, hc.starts, hc.starts_le⟩
  | wake hmain hfree =>
    have h := hc.setNextProfile none
    exact ⟨h.le, h.pending, h.handling, h.returned, by simp, h.starts, h.starts_le⟩
  | joined hmain hw =>
    exact ⟨hc.le, hc.pending, hc.handling, hc.returned, fun _ => hw, hc.starts, hc.starts_le⟩
  | take hw hu => exact hc.of_worker (hc.pending hu) (by simp [hw]) rfl rfl rfl rfl rfl rfl
  | reset hw hnext =>
    exact hc.of_worker (hc.handling (by simp [hw, Worker.handling])) (by simp [hw])
      rfl rfl rfl rfl rfl rfl
  | stop hw =>
    exact hc.of_worker (hc.handling (by simp [hw, Worker.handling])) (by simp [hw])
      rfl rfl rfl rfl rfl (by simp [post])
  | mark hw =>
    exact hc.of_worker (hc.handling (by simp [hw, Worker.handling])) (by simp [hw])
      rfl rfl rfl rfl rfl rfl
  | charonStops hw hn =>
    exact hc.of_worker (hc.handling (by simp [hw, Worker.handling])) (by simp [hw])
      rfl rfl rfl rfl rfl rfl
  | disconnect hw hn =>
    exact hc.of_worker (hc.handling (by simp [hw, Worker.handling])) (by simp [hw])
      rfl rfl rfl rfl rfl (by simp [post])
  | finish hw hn =>
    exact hc.of_worker (hc.handling (by simp [hw, Worker.handling])) (by simp [hw])
      rfl rfl rfl rfl rfl (by simp [post])
  | attempt hw hn =>
    have hu := (hi.handling (by simp [hw, Worker.handling])).1
    refine ⟨Nat.le_refl _, fun h => ?_, fun h => by simp [Worker.handling] at h,
      fun h => by simp at h, fun h => ?_, ?_, ?_⟩
    · exact absurd (hu.symm.trans h) (by simp)
    · exact absurd (hc.destroyed h) (by simp [hw])
    · have h := List.pairwise_append.2 ⟨hc.starts, List.pairwise_singleton _ (s.attempts + 1),
        fun n hn m hm => by
          rw [List.mem_singleton.1 hm]
          exact Nat.lt_succ_of_le (hc.starts_le n hn)⟩
      simpa [post] using h
    · intro n hn
      have hn' : n ∈ (s.applied :: startsOf s.mHandler) ++ [s.attempts + 1] := by
        simpa [post] using hn
      rcases List.mem_append.1 hn' with h | h
      · exact Nat.le_succ_of_le (hc.starts_le n h)
      · exact Nat.le_of_eq (List.mem_singleton.1 h)
  | failed hw => exact hc.of_end hw rfl rfl rfl rfl rfl rfl rfl (by simp [post])
  | missing hw => exact hc.of_end hw rfl rfl rfl rfl rfl rfl rfl (by simp [post])
  | initiated hw => exact hc.of_end hw rfl rfl rfl rfl rfl rfl rfl rfl
  | error hcharon => exact hc.frame rfl rfl rfl rfl rfl rfl rfl (by simp [post])
  | up hcharon => exact hc.frame rfl rfl rfl rfl rfl rfl rfl (by simp [post])
  | down hcharon => exact hc.frame rfl rfl rfl rfl rfl rfl rfl (by simp [post])
  | _ => exact ⟨hc.le, hc.pending, hc.handling, hc.returned, hc.destroyed, hc.starts, hc.starts_le⟩

/-- The latest attempt's change was the last one posted. -/
theorem Latest.starts (hl : Latest s) (hc : Counted s) : startsOf s.mHandler = [] := by
  rw [List.eq_nil_iff_forall_not_mem]
  intro n hn
  have h1 : s.applied < n := List.rel_of_pairwise_cons hc.starts hn
  have h2 : n ≤ s.attempts := hc.starts_le n (List.mem_cons_of_mem _ hn)
  have h3 : s.applied = s.attempts := hl.2.1
  omega

theorem Latest.not_lt (hl : Latest s) : ¬ s.attemptRequest < s.requests := by
  rw [hl.2.2.2]
  exact lt_irrefl _

/-! ## The posted callbacks -/

/-- What may follow a posted change with no attempt posted behind it: after `DISABLED` charon is
down and no `CONNECTING` follows; `DISCONNECTING` is posted for a later request. -/
def Calm (s : Service V) (c : Change) (post : List Change) : Prop :=
  (c = .setState .disabled →
    .setState .connecting ∉ post ∧ s.charon = false ∧ s.worker ≠ .initializing) ∧
  (c = .setState .disconnecting → s.attemptRequest < s.requests)

/-- Each waiting report comes after a start or is calm. -/
def Trail (s : Service V) : Prop :=
  ∀ c rest, (c :: rest) <:+ s.mHandler → startsOf rest ≠ [] ∨ Calm s c rest

theorem Trail.of_suffix (ht : Trail s) (hq : s'.mHandler <:+ s.mHandler)
    (hcalm : ∀ c rest, Calm s c rest → Calm s' c rest) : Trail s' := by
  intro c rest h
  exact (ht c rest (h.trans hq)).imp_right (hcalm c rest)

/-- A change behind which nothing of a connection can follow is posted. -/
theorem Trail.of_post {c : Change} (ht : Trail s) (hq : s'.mHandler = s.mHandler ++ [c])
    (hlast : Calm s' c [])
    (hcalm : ∀ d rest, Calm s d rest → startsOf rest = [] →
      startsOf (rest ++ [c]) ≠ [] ∨ Calm s' d (rest ++ [c])) : Trail s' := by
  intro d rest h
  rw [hq] at h
  rcases List.eq_nil_or_concat rest with rfl | ⟨rest, x, rfl⟩
  · obtain ⟨pre, hpre⟩ := h
    obtain rfl : d = c := List.singleton_inj.1 (List.append_inj' hpre rfl).2
    exact .inr hlast
  · rw [List.concat_eq_append] at h ⊢
    obtain ⟨pre, hpre⟩ := h
    have hsplit : (pre ++ d :: rest) ++ [x] = s.mHandler ++ [c] := by simpa using hpre
    obtain ⟨hold, hx⟩ := List.append_inj' hsplit rfl
    obtain rfl : x = c := List.singleton_inj.1 hx
    rcases ht d rest ⟨pre, hold⟩ with hstarts | hd
    · refine .inl ?_
      rw [startsOf_append]
      simp [hstarts]
    · by_cases hstarts : startsOf rest = []
      · exact hcalm d rest hd hstarts
      · refine .inl ?_
        rw [startsOf_append]
        simp [hstarts]

/-- Charon is up only for a profile in use, and that is gone when the worker decides. -/
structure CharonOwned (s : Service V) : Prop where
  up : s.charon = true → s.mCurrentProfile ≠ none
  deciding : s.worker = .deciding → s.mCurrentProfile = none

theorem charonOwned_created : CharonOwned (created : Service V) :=
  ⟨by simp [created], by simp [created]⟩

theorem CharonOwned.move (ho : CharonOwned s) (hm : Move s e s') : CharonOwned s' := by
  cases hm with
  | take hw hu => exact ⟨ho.up, by simp⟩
  | reset hw hnext =>
    refine ⟨ho.up, fun h => ?_⟩
    rcases hnext with ⟨-, hp⟩ | rfl
    · exact hp
    · simp at h
  | stop hw => exact ⟨ho.up, by simp⟩
  | mark hw => exact ⟨ho.up, by simp⟩
  | charonStops hw hn => exact ⟨by simp, fun _ => rfl⟩
  | disconnect hw hn => exact ⟨by simp [post], fun _ => rfl⟩
  | finish hw hn => exact ⟨ho.up, by simp⟩
  | attempt hw hn => exact ⟨by simp, by simp⟩
  | failed hw => exact ⟨by simp, by simp⟩
  | missing hw => exact ⟨ho.up, by simp⟩
  | initiated hw => exact ⟨ho.up, by simp⟩
  | _ => exact ⟨ho.up, ho.deciding⟩

theorem CharonOwned.down (ho : CharonOwned s) (hw : s.worker = .deciding) : s.charon = false := by
  by_contra h
  exact ho.up (by simpa using h) (ho.deciding hw)

/-- A harmless change does not break the calm behind an earlier one. -/
theorem Calm.append {c d : Change} {rest : List Change} (h : Calm s d rest)
    (hc : c ≠ .setState .connecting) (hcharon : s.charon = false → s'.charon = false)
    (hw : s'.worker ≠ .initializing) (hr : s'.requests = s.requests)
    (ha : s'.attemptRequest = s.attemptRequest) : Calm s' d (rest ++ [c]) := by
  refine ⟨fun hd => ?_, fun hd => ?_⟩
  · obtain ⟨h1, h2, -⟩ := h.1 hd
    refine ⟨?_, hcharon h2, hw⟩
    rw [List.mem_append, List.mem_singleton]
    rintro (h | h)
    · exact h1 h
    · exact hc h.symm
  · rw [hr, ha]
    exact h.2 hd

/-- A step of the worker that posts nothing. -/
theorem Trail.of_worker (ht : Trail s) (hq : s'.mHandler = s.mHandler)
    (hcharon : s.charon = false → s'.charon = false) (hw : s'.worker ≠ .initializing)
    (hr : s'.requests = s.requests) (ha : s'.attemptRequest = s.attemptRequest) : Trail s' := by
  refine ht.of_suffix (hq ▸ List.suffix_refl _) fun c rest h => ⟨fun hc => ?_, fun hc => ?_⟩
  · obtain ⟨h1, h2, -⟩ := h.1 hc
    exact ⟨h1, hcharon h2, hw⟩
  · rw [hr, ha]
    exact h.2 hc

theorem Trail.setNextProfile (ht : Trail s) (p : Option V) : Trail (setNextProfile s p) :=
  ht.of_suffix (List.suffix_refl _) fun _ _ h => ⟨h.1, fun hc => Nat.lt_succ_of_lt (h.2 hc)⟩

/-- A change other than `DISABLED` and `DISCONNECTING` is posted. -/
theorem Trail.of_plain {c : Change} (ht : Trail s) (hq : s'.mHandler = s.mHandler ++ [c])
    (hc : ∀ state, c ≠ .setState state) (hcharon : s.charon = false → s'.charon = false)
    (hw : s'.worker ≠ .initializing) (hr : s'.requests = s.requests)
    (ha : s'.attemptRequest = s.attemptRequest) : Trail s' :=
  ht.of_post hq ⟨fun h => absurd h (hc _), fun h => absurd h (hc _)⟩
    fun _ _ h _ => .inr (h.append (hc _) hcharon hw hr ha)

theorem Trail.move (hc : Counted s) (ho : CharonOwned s) (ht : Trail s) (hm : Move s e s') :
    Trail s' := by
  cases hm with
  | startCommand hmain hfree => exact ht.setNextProfile _
  | onRevoke hfree => exact ht.setNextProfile _
  | wake hmain hfree => exact ht.setNextProfile none
  | settle hq hs => exact ht.of_suffix (hq ▸ List.suffix_cons _ _) fun _ _ h => h
  | pass hq hs => exact ht.of_suffix (hq ▸ List.suffix_cons _ _) fun _ _ h => h
  | settleError hq hs => exact ht.of_suffix (hq ▸ List.suffix_cons _ _) fun _ _ h => h
  | passError hq hs => exact ht.of_suffix (hq ▸ List.suffix_cons _ _) fun _ _ h => h
  | start hmain hq => exact ht.of_suffix (hq ▸ List.suffix_cons _ _) fun _ _ h => h
  | startLate hmain hq => exact ht.of_suffix (hq ▸ List.suffix_cons _ _) fun _ _ h => h
  | removeNotification hq => exact ht.of_suffix (hq ▸ List.suffix_cons _ _) fun _ _ h => h
  | take hw hu => exact ht.of_worker rfl id (by simp) rfl rfl
  | reset hw hnext =>
    refine ht.of_worker rfl id ?_ rfl rfl
    rcases hnext with ⟨rfl, -⟩ | rfl <;> simp
  | stop hw =>
    have hlt := hc.handling (by simp [hw, Worker.handling])
    exact ht.of_post rfl ⟨by simp, fun _ => hlt⟩
      fun _ _ h _ => .inr (h.append (by simp) id (by simp) rfl rfl)
  | mark hw => exact ht.of_worker rfl id (by simp) rfl rfl
  | charonStops hw hn => exact ht.of_worker rfl (fun _ => rfl) (by simp) rfl rfl
  | disconnect hw hn =>
    exact ht.of_plain rfl (by simp) (fun _ => rfl) (by simp [post]) rfl rfl
  | finish hw hn =>
    have hdown := ho.down hw
    exact ht.of_post rfl ⟨fun _ => ⟨by simp, hdown, by simp⟩, by simp⟩
      fun _ _ h _ => .inr (h.append (by simp) id (by simp) rfl rfl)
  | attempt hw hn =>
    exact ht.of_post rfl ⟨by simp, by simp⟩ fun _ _ _ _ => .inl (by simp)
  | failed hw =>
    -- the error is posted first, then `DISABLED`, when charon is down again
    have h1 : Trail { post s (.setError .genericError) with worker := .waiting } :=
      ht.of_plain rfl (by simp) id (by simp) rfl rfl
    exact h1.of_post rfl ⟨fun _ => ⟨by simp, rfl, by simp⟩, by simp⟩
      fun _ _ h _ => .inr (h.append (by simp) (fun _ => rfl) (by simp) rfl rfl)
  | missing hw => exact ht.of_plain rfl (by simp) id (by simp) rfl rfl
  | initiated hw => exact ht.of_worker rfl id (by simp) rfl rfl
  | error hcharon =>
    refine ht.of_post rfl ⟨by simp, by simp⟩ fun d rest h _ => .inr ⟨fun hd => ?_, h.2⟩
    exact absurd (h.1 hd).2.1 (by simp [hcharon])
  | up hcharon =>
    refine ht.of_post rfl ⟨by simp, by simp⟩ fun d rest h _ => .inr ⟨fun hd => ?_, h.2⟩
    exact absurd (h.1 hd).2.1 (by simp [hcharon])
  | down hcharon =>
    refine ht.of_post rfl ⟨by simp, by simp⟩ fun d rest h _ => .inr ⟨fun hd => ?_, h.2⟩
    exact absurd (h.1 hd).2.1 (by simp [hcharon])
  | _ => exact ht

/-! ## The guard -/

/-- The latest attempt is watched, or it is over and charon is down. -/
def Guard (s : Service V) : Prop :=
  Latest s →
    (s.mState = some .connecting ∧ Watched s) ∨
      (s.mState = some .disabled ∧ .setState .connecting ∉ s.mHandler ∧ s.charon = false ∧
        s.worker ≠ .initializing)

/-- In the state `CONNECTING`, the second test of `mTimeoutRun` finds no error and a retry left. -/
def ChecksInTime (s : Service V) : Event V → Prop
  | .timeoutRun =>
    s.timeoutRun.map Prod.fst = some .second → s.mState = some .connecting →
      s.mErrorState = some .noError ∧ s.retries < timeoutRetries
  | _ => True

instance [DecidableEq V] (s : Service V) : DecidablePred (ChecksInTime s)
  | .timeoutRun => inferInstanceAs (Decidable (_ → _ → _))
  | .startCommand _ | .onRevoke | .callback | .onDestroy | .wake | .joined | .worker _
  | .updateStatus _ | .timeout => inferInstanceAs (Decidable True)

theorem Watched.mono {s s' : Service V} (h : Watched s) (hq : s'.mTimeoutHandle = s.mTimeoutHandle)
    (hrun : s'.timeoutRun = s.timeoutRun) (hap : s'.applied = s.applied)
    (hrep : s.reports ⊆ s'.reports) : Watched s' := by
  rcases h with h | h | ⟨t, n, h⟩
  · exact .inl (hq ▸ h)
  · exact .inr (.inl (hrun ▸ h))
  · exact .inr (.inr ⟨t, n, hrep (hap ▸ h)⟩)

/-- The calm behind the change at the head of the queue. -/
theorem Latest.calm {c : Change} {rest : List Change} (hl : Latest s) (hc : Counted s)
    (ht : Trail s) (hq : s.mHandler = c :: rest) : Calm s c rest := by
  refine (ht c rest (by rw [hq])).resolve_left (not_not.2 ?_)
  have h := hl.starts hc
  rw [hq, ← List.singleton_append, startsOf_append] at h
  exact (List.append_eq_nil_iff.1 h).2

/-- Behind a later request there is nothing to guard. -/
theorem Guard.of_lt (h : s'.attemptRequest < s'.requests) : Guard s' :=
  fun hl => absurd h hl.not_lt

/-- A step of another thread while the latest attempt is watched. -/
theorem Guard.of_watched (hg : Guard s) (hl : Latest s' → Latest s)
    (hno : s.charon = true ∨ s.worker = .initializing) (hst : s'.mState = s.mState)
    (hq : s'.mTimeoutHandle = s.mTimeoutHandle) (hrun : s'.timeoutRun = s.timeoutRun)
    (hap : s'.applied = s.applied) (hrep : s'.reports = s.reports) : Guard s' := by
  intro hl'
  rcases hg (hl hl') with ⟨h1, h2⟩ | ⟨-, -, h3, h4⟩
  · exact .inl ⟨hst.trans h1, h2.mono hq hrun hap (hrep ▸ List.Subset.refl _)⟩
  · rcases hno with h | h
    · simp [h] at h3
    · exact absurd h h4

/-- A step of `mTimeoutRun` after which it runs, or is queued, or has reported. -/
theorem Guard.of_timer (hg : Guard s) (hl : Latest s' → Latest s) (hst : s'.mState = s.mState)
    (hq : s'.mHandler = s.mHandler) (hcharon : s'.charon = s.charon) (hw : s'.worker = s.worker)
    (hwatched : Watched s') : Guard s' := by
  intro hl'
  rcases hg (hl hl') with ⟨h1, -⟩ | ⟨h1, h2, h3, h4⟩
  · exact .inl ⟨hst.trans h1, hwatched⟩
  · exact .inr ⟨hst.trans h1, hq ▸ h2, hcharon.trans h3, hw ▸ h4⟩

theorem Guard.move (hc : Counted s) (ht : Trail s) (hg : Guard s) (hm : Move s e s')
    (he : ChecksInTime s e) : Guard s' := by
  have hhandling : s.worker.handling = true → s.attemptRequest < s.requests := hc.handling
  cases hm with
  | startCommand hmain hfree => exact .of_lt (Nat.lt_succ_of_le hc.le)
  | onRevoke hfree => exact .of_lt (Nat.lt_succ_of_le hc.le)
  | wake hmain hfree => exact .of_lt (Nat.lt_succ_of_le hc.le)
  | @settle state rest hq hs =>
    rcases hs with hs | hs
    · obtain rfl := Option.some_injective _ hs
      intro hl
      simpa using hl.2.2.1
    · obtain rfl := Option.some_injective _ hs
      intro hl
      have hl' : Latest s := ⟨hl.1, hl.2.1, by simpa using hl.2.2.1, hl.2.2.2⟩
      obtain ⟨h1, h2, h3⟩ := (hl'.calm hc ht hq).1 rfl
      exact .inr ⟨rfl, h1, h2, h3⟩
  | @pass state rest hq hs =>
    intro hl
    have hl' : Latest s := hl
    cases state with
    | connecting =>
      rcases hg hl' with ⟨-, h2⟩ | ⟨-, h2, -⟩
      · exact .inl ⟨rfl, h2.mono rfl rfl rfl (List.subset_append_left _ _)⟩
      · exact absurd (hq ▸ List.mem_cons_self) h2
    | disconnecting => exact absurd ((hl'.calm hc ht hq).2 rfl) hl'.not_lt
    | connected => exact absurd (.inl rfl) hs
    | disabled => exact absurd (.inr rfl) hs
  | settleError hq hs =>
    intro hl
    rcases hg hl with ⟨h1, -⟩ | ⟨h1, h2, h3, h4⟩
    · simp [Settled, h1] at hs
    · exact .inr ⟨h1, fun h => h2 (hq ▸ List.mem_cons_of_mem _ h), h3, h4⟩
  | passError hq hs =>
    intro hl
    rcases hg hl with ⟨h1, h2⟩ | ⟨h1, -⟩
    · exact .inl ⟨h1, h2.mono rfl rfl rfl (List.subset_append_left _ _)⟩
    · exact absurd (.inr h1) hs
  | start hmain hq => exact fun _ => .inl ⟨rfl, .inl (by simp)⟩
  | startLate hmain hq => exact .of_lt (hc.returned (hc.destroyed hmain))
  | removeNotification hq =>
    intro hl
    rcases hg hl with ⟨h1, h2⟩ | ⟨h1, h2, h3, h4⟩
    · exact .inl ⟨h1, h2⟩
    · exact .inr ⟨h1, fun h => h2 (hq ▸ List.mem_cons_of_mem _ h), h3, h4⟩
  | joined hmain hw => exact .of_lt (hc.returned hw)
  | take hw hu => exact .of_lt (hc.pending hu)
  | reset hw hnext => exact .of_lt (hhandling (by simp [hw, Worker.handling]))
  | stop hw => exact .of_lt (hhandling (by simp [hw, Worker.handling]))
  | mark hw => exact .of_lt (hhandling (by simp [hw, Worker.handling]))
  | charonStops hw hn => exact .of_lt (hhandling (by simp [hw, Worker.handling]))
  | disconnect hw hn => exact .of_lt (hhandling (by simp [hw, Worker.handling]))
  | finish hw hn => exact .of_lt (hhandling (by simp [hw, Worker.handling]))
  | attempt hw hn =>
    intro hl
    have h1 : s.applied = s.attempts + 1 := hl.2.1
    have h2 := hc.starts_le s.applied List.mem_cons_self
    omega
  | failed hw => exact hg.of_watched id (.inr hw) rfl rfl rfl rfl rfl
  | missing hw => exact hg.of_watched id (.inr hw) rfl rfl rfl rfl rfl
  | initiated hw => exact hg.of_watched id (.inr hw) rfl rfl rfl rfl rfl
  | error hcharon => exact hg.of_watched id (.inl hcharon) rfl rfl rfl rfl rfl
  | up hcharon => exact hg.of_watched id (.inl hcharon) rfl rfl rfl rfl rfl
  | down hcharon => exact hg.of_watched id (.inl hcharon) rfl rfl rfl rfl rfl
  | timeout hrun hq => exact hg.of_timer id rfl rfl rfl rfl (.inr (.inl (by simp)))
  | firstTest hrun hnext => exact hg.of_timer id rfl rfl rfl rfl (.inr (.inl (by simp)))
  | failReset hrun => exact hg.of_timer id rfl rfl rfl rfl (.inr (.inl (by simp)))
  | @failReport n hrun =>
    refine hg.of_timer id rfl rfl rfl rfl (.inr (.inr ⟨n, s.attempts, ?_⟩))
    simp [stateChange]
  | giveUp hrun htest =>
    -- the one step that drops the watchdog
    intro hl
    rcases hg hl with ⟨h1, -⟩ | h
    · obtain ⟨h2, h3⟩ := he (by simp [hrun]) h1
      exact absurd ⟨h2, by simp [h1], h3⟩ htest
    · exact .inr h
  | retry hrun => exact hg.of_timer id rfl rfl rfl rfl (.inr (.inl (by simp)))
  | count hrun => exact hg.of_timer id rfl rfl rfl rfl (.inr (.inl (by simp)))
  | repost hrun hmain => exact hg.of_timer id rfl rfl rfl rfl (.inl (by simp))
  | repostLate hrun hmain => exact .of_lt (hc.returned (hc.destroyed hmain))
  | _ => exact hg

/-! ## The number of timeouts -/

/-- The retries never exceed their limit. -/
structure Limited (s : Service V) : Prop where
  retries : s.retries ≤ timeoutRetries
  counting : ∀ r n, s.timeoutRun = some (.counting r, n) → r < timeoutRetries

theorem limited_created : Limited (created : Service V) :=
  ⟨by simp [created], by simp [created]⟩

theorem Limited.move (hr : Limited s) (hm : Move s e s') : Limited s' := by
  cases hm with
  | settle hq hs => exact ⟨Nat.zero_le _, hr.counting⟩
  | settleError hq hs => exact ⟨Nat.zero_le _, hr.counting⟩
  | reset hw hnext => exact ⟨Nat.zero_le _, hr.counting⟩
  | timeout hrun hq => exact ⟨hr.retries, by simp⟩
  | firstTest hrun hnext =>
    refine ⟨hr.retries, ?_⟩
    rcases hnext with rfl | rfl <;> simp
  | failReset hrun => exact ⟨Nat.zero_le _, by simp⟩
  | failReport hrun => exact ⟨hr.retries, by simp⟩
  | giveUp hrun htest => exact ⟨hr.retries, by simp⟩
  | retry hrun hlt =>
    refine ⟨hr.retries, fun r n h => ?_⟩
    obtain ⟨rfl, -⟩ : s.retries = r ∧ _ = n := by simpa using h
    exact hlt
  | count hrun => exact ⟨hr.counting _ _ hrun, by simp⟩
  | repost hrun hmain => exact ⟨hr.retries, by simp⟩
  | repostLate hrun hmain => exact ⟨hr.retries, by simp⟩
  | _ => exact ⟨hr.retries, hr.counting⟩

/-- How many timeouts an attempt can have had, by the place of `mTimeoutRun`. -/
def timeoutsBound (retries : ℕ) : Option (Check × ℕ) → ℕ
  | none | some (.posting, _) => retries
  | some (.first, _) | some (.resetting, _) | some (.second, _) => retries + 1
  | some (.counting r, _) => r + 1
  | some (.reporting, _) => timeoutRetries + 1

/-- Every timeout of the latest attempt that was not reported has used up a retry. -/
def Paced (s : Service V) : Prop :=
  Latest s → s.mState = some .connecting →
    Reported s ∨ s.firings ≤ timeoutsBound s.retries s.timeoutRun

theorem Reported.mono {s s' : Service V} (h : Reported s) (hap : s'.applied = s.applied)
    (hrep : s.reports ⊆ s'.reports) : Reported s' := by
  obtain ⟨t, n, h⟩ := h
  exact ⟨t, n, hrep (hap ▸ h)⟩

theorem Paced.of_lt (h : s'.attemptRequest < s'.requests) : Paced s' :=
  fun hl => absurd h hl.not_lt

/-- A step of `mTimeoutRun` that reports nothing. -/
theorem Paced.of_timer (hp : Paced s) (hl : Latest s' → Latest s) (hst : s'.mState = s.mState)
    (hap : s'.applied = s.applied) (hrep : s'.reports = s.reports)
    (hb : s.firings ≤ timeoutsBound s.retries s.timeoutRun →
      s'.firings ≤ timeoutsBound s'.retries s'.timeoutRun) : Paced s' := by
  intro hl' hc
  rcases hp (hl hl') (hst ▸ hc) with h | h
  · exact .inl (h.mono hap (hrep ▸ List.Subset.refl _))
  · exact .inr (hb h)

theorem Paced.move (hc : Counted s) (hg : Guard s) (hr : Limited s) (hp : Paced s)
    (hm : Move s e s') (he : ChecksInTime s e) : Paced s' := by
  have hhandling : s.worker.handling = true → s.attemptRequest < s.requests := hc.handling
  cases hm with
  | startCommand hmain hfree => exact .of_lt (Nat.lt_succ_of_le hc.le)
  | onRevoke hfree => exact .of_lt (Nat.lt_succ_of_le hc.le)
  | wake hmain hfree => exact .of_lt (Nat.lt_succ_of_le hc.le)
  | settle hq hs =>
    intro _ h
    obtain rfl := Option.some_injective _ h
    simp [Settled] at hs
  | pass hq hs =>
    intro hl h
    have hl' : Latest s := hl
    rcases hg hl' with ⟨h1, -⟩ | ⟨-, h2, -⟩
    · exact (hp hl' h1).imp_left fun h => h.mono rfl (List.subset_append_left _ _)
    · obtain rfl := Option.some_injective _ h
      exact absurd (hq ▸ List.mem_cons_self) h2
  | settleError hq hs =>
    intro _ h
    have h' : s.mState = some .connecting := h
    simp [Settled, h'] at hs
  | passError hq hs =>
    intro hl h
    exact (hp hl h).imp_left fun h => h.mono rfl (List.subset_append_left _ _)
  | start hmain hq => exact fun _ _ => .inr (Nat.zero_le _)
  | startLate hmain hq => exact fun _ _ => .inr (Nat.zero_le _)
  | joined hmain hw => exact .of_lt (hc.returned hw)
  | take hw hu => exact .of_lt (hc.pending hu)
  | reset hw hnext => exact .of_lt (hhandling (by simp [hw, Worker.handling]))
  | attempt hw hn =>
    intro hl
    have h1 : s.applied = s.attempts + 1 := hl.2.1
    have h2 := hc.starts_le s.applied List.mem_cons_self
    omega
  | timeout hrun hq =>
    refine hp.of_timer id rfl rfl rfl fun h => ?_
    rw [hrun] at h
    exact Nat.succ_le_succ h
  | firstTest hrun hnext =>
    refine hp.of_timer id rfl rfl rfl fun h => ?_
    rw [hrun] at h
    rcases hnext with rfl | rfl <;> exact h
  | failReset hrun =>
    refine hp.of_timer id rfl rfl rfl fun h => ?_
    rw [hrun] at h
    exact h.trans (Nat.succ_le_succ hr.retries)
  | @failReport n hrun => exact fun _ _ => .inl ⟨n, s.attempts, by simp [stateChange]⟩
  | giveUp hrun htest =>
    intro hl h
    obtain ⟨h2, h3⟩ := he (by simp [hrun]) h
    exact absurd ⟨h2, by simp [show s.mState = some .connecting from h], h3⟩ htest
  | retry hrun hlt =>
    refine hp.of_timer id rfl rfl rfl fun h => ?_
    rw [hrun] at h
    exact h
  | count hrun =>
    refine hp.of_timer id rfl rfl rfl fun h => ?_
    rw [hrun] at h
    exact h
  | repost hrun hmain =>
    refine hp.of_timer id rfl rfl rfl fun h => ?_
    rw [hrun] at h
    exact h
  | repostLate hrun hmain => exact .of_lt (hc.returned (hc.destroyed hmain))
  | _ => exact hp

/-- What a run keeps in which `mTimeoutRun` checks in time. -/
structure Guarding (s : Service V) : Prop where
  coherent : Coherent s
  counted : Counted s
  owned : CharonOwned s
  trail : Trail s
  guard : Guard s
  limited : Limited s
  paced : Paced s

theorem guarding_created : Guarding (created : Service V) where
  coherent := coherent_created
  counted := counted_created
  owned := charonOwned_created
  trail := fun c rest h => absurd (List.suffix_nil.1 h) (by simp)
  guard := fun hl => absurd hl.1 (by simp [created])
  limited := limited_created
  paced := fun hl => absurd hl.1 (by simp [created])

theorem Guarding.step (h : Guarding s) (e : Event V) (he : ChecksInTime s e) :
    Guarding (step s e) := by
  rcases step_move s e with hs | hm
  · rw [hs]
    exact h
  · exact ⟨h.coherent.move hm, h.counted.move h.coherent hm, h.owned.move hm,
      h.trail.move h.counted h.owned hm, h.guard.move h.counted h.trail hm he,
      h.limited.move hm, h.paced.move h.counted h.guard h.limited hm he⟩

theorem Guarding.guarded (h : Guarding s) : Guarded s := by
  intro hl hst
  refine ⟨?_, fun hrun hn => ?_⟩
  · rcases h.guard hl with ⟨-, hw⟩ | ⟨hd, -⟩
    · exact hw
    · rw [hst] at hd
      simp at hd
  · refine (h.paced hl hst).resolve_right fun hb => ?_
    rw [hrun] at hb
    exact absurd (hb.trans h.limited.retries) (Nat.not_le.2 hn)

/-- **Every run.**  As long as the second test of `mTimeoutRun`, where it runs in the state
`CONNECTING`, finds no error and a retry left, the latest attempt stays watched and is reported as
failed after the last timeout. -/
theorem guarded_of_checksInTime (es : List (Event V)) (h : Along step ChecksInTime created es) :
    Throughout step (fun _ s => Guarded s) created es := by
  have hall : Throughout step (fun _ s => Guarding s) (created : Service V) es :=
    throughout_of_step guarding_created (fun _ s e hs he => hs.step e he) es h
  exact fun past hpast => (hall past hpast).guarded

/-- An attempt that is retried once and then reported as failed. -/
theorem guarded_until_failure :
    Throughout step (fun _ s => Guarded s) (created : Service Unit)
      [.startCommand (some ()), .worker .initiated, .worker .initiated, .worker .initiated,
       .worker .initiated, .callback, .timeout, .timeoutRun, .timeoutRun, .timeoutRun, .timeoutRun,
       .updateStatus .authError, .callback, .timeout, .timeoutRun, .timeoutRun, .timeoutRun] :=
  guarded_of_checksInTime _ (by decide +kernel)

/-- The run of an attempt to which no status is reported, up to the end of the last retry. -/
def silentGateway : List (Event Unit) :=
  List.flatten
    [[.startCommand (some ())], List.replicate 4 (.worker .initiated), [.callback],
     .timeout :: List.replicate 4 .timeoutRun, .timeout :: List.replicate 4 .timeoutRun,
     .timeout :: List.replicate 2 .timeoutRun]

/-- A gateway that never answers: after the first timeout and both retries nothing is queued, and
the attempt is not reported as failed. -/
theorem silent_gateway_unwatched : ¬ Guarded (run step created silentGateway) := by
  have hreports : (run step created silentGateway).reports = [.connecting] := by decide +kernel
  intro h
  rcases (h (by unfold Latest; decide +kernel) (by decide +kernel)).1 with h | h | ⟨t, n, h⟩
  · exact h (by decide +kernel)
  · exact h (by decide +kernel)
  · rw [hreports] at h
    simp at h

end VpnCore.Ikev2
