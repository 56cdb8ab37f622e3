import VpnCore.Ikev2.Model

/-!
# VpnCore.Ikev2.Timers — one timer at a time

A timer starts as a posted `startConnection` change, becomes a queued message when the main thread
applies it and a running `mTimeoutRun` when the looper takes it.  `resetTimeout` reaches only the
middle stage, and there only the messages with `TIME_OUT_WHAT`: a retry is queued with the message code
0, and a change that is still posted queues its timer after the reset.

Below, all three stages count as one token.  A run that resets only when it can remove every token
has at most one of them, and it belongs to the latest attempt.
-/

namespace VpnCore.Ikev2

open VpnCore.Lib

variable {V : Type} {s s' : Service V} {e : Event V}

/-- The attempts whose timer is still to come, queued or running. -/
def tokens (s : Service V) : List ℕ :=
  startsOf s.mHandler ++ s.mTimeoutHandle.map Message.attempt ++ (s.timeoutRun.map Prod.snd).toList

/-- Every `resetTimeout` has emptied the queue, at most one callback is queued, and every
`CONNECT_FAIL` came from the timer of the attempt that was current. -/
def Fresh (s : Service V) : Prop :=
  (∀ k ∈ s.resets, k = 0) ∧ s.mTimeoutHandle.length ≤ 1 ∧
    ∀ timer attempt applied, .connectFail timer attempt applied ∈ s.reports → timer = attempt

/-- No retry is queued. -/
def NoRetryQueued (s : Service V) : Prop := ∀ m ∈ s.mTimeoutHandle, m.what = timeOutWhat

instance (s : Service V) : Decidable (NoRetryQueued s) :=
  inferInstanceAs (Decidable (∀ m ∈ s.mTimeoutHandle, m.what = timeOutWhat))

/-- The callback of the change ends in a `resetTimeout`. -/
def Change.Resets (state : Option State) : Change → Prop
  | .setState state' => Settled (some state')
  | .setError _ => Settled state
  | .startConnection _ | .removeNotification => False

instance (state : Option State) : DecidablePred (Change.Resets state)
  | .setState _ | .setError _ => inferInstanceAs (Decidable (Settled _))
  | .startConnection _ | .removeNotification => inferInstanceAs (Decidable False)

/-- `resetTimeout` is called only when no retry is queued; and when the worker calls it for a
request, every earlier attempt has been applied and `mTimeoutRun` is not running. -/
def ResetsInTime (s : Service V) : Event V → Prop
  | .worker _ =>
    s.worker = .resetting → NoRetryQueued s ∧ s.timeoutRun = none ∧ startsOf s.mHandler = []
  | .callback => ∀ c ∈ s.mHandler.head?, c.Resets s.mState → NoRetryQueued s
  | _ => True

instance [DecidableEq V] (s : Service V) : DecidablePred (ResetsInTime s)
  | .worker _ => inferInstanceAs (Decidable (_ → _))
  | .callback => inferInstanceAs (Decidable (∀ c ∈ s.mHandler.head?, _ → _))
  | .startCommand _ | .onRevoke | .onDestroy | .wake | .joined | .timeoutRun
  | .updateStatus _ | .timeout => inferInstanceAs (Decidable True)

theorem NoRetryQueued.removeMessages (h : NoRetryQueued s) :
    removeMessages s.mTimeoutHandle = [] := by
  rw [Ikev2.removeMessages, List.filter_eq_nil_iff]
  intro m hm
  simp [h m hm]

/-! ## The token -/

/-- The worker is behind the reset of `stopCurrentConnection` and has not started an attempt. -/
def Worker.stopped : Worker → Bool
  | .stopping | .marking | .deinitializing | .deciding => true
  | _ => false

/-- At most one timer runs, the one of the last attempt. -/
structure Single (s : Service V) : Prop where
  length : (tokens s).length ≤ 1
  latest : ∀ n ∈ tokens s, n = s.attempts
  stopped : s.worker.stopped = true → tokens s = []
  resets : ∀ k ∈ s.resets, k = 0
  reports : ∀ timer attempt applied,
    .connectFail timer attempt applied ∈ s.reports → timer = attempt

theorem single_created : Single (created : Service V) where
  length := by simp [tokens, created]
  latest := by simp [tokens, created]
  stopped := by simp [tokens, created]
  resets := by simp [created]
  reports := by simp [created]

theorem Single.fresh (h : Single s) : Fresh s := by
  refine ⟨h.resets, ?_, h.reports⟩
  have hl := h.length
  simp only [tokens, List.length_append, List.length_map] at hl
  omega

/-- The tokens of `s'` are among those of `s`. -/
structure Fewer (s s' : Service V) : Prop where
  length : (tokens s').length ≤ (tokens s).length
  subset : tokens s' ⊆ tokens s

theorem Fewer.of_eq (h : tokens s' = tokens s) : Fewer s s' :=
  ⟨h ▸ Nat.le_refl _, h ▸ List.Subset.refl _⟩

theorem Fewer.of_perm (h : (tokens s').Perm (tokens s)) : Fewer s s' :=
  ⟨Nat.le_of_eq h.length_eq, h.subset⟩

theorem Fewer.of_sublist (h : (tokens s').Sublist (tokens s)) : Fewer s s' :=
  ⟨h.length_le, h.subset⟩

theorem Fewer.nil (h : Fewer s s') (hs : tokens s = []) : tokens s' = [] :=
  List.subset_nil.1 (hs ▸ h.subset)

/-- A step that makes no token. -/
theorem Single.of_fewer (h : Single s) (hf : Fewer s s') (hn : s'.attempts = s.attempts)
    (hw : s'.worker.stopped = true → s.worker.stopped = true)
    (hr : ∀ k ∈ s'.resets, k = 0)
    (hrep : ∀ t a n, .connectFail t a n ∈ s'.reports → t = a) : Single s' where
  length := hf.length.trans h.length
  latest := fun n hm => (h.latest n (hf.subset hm)).trans hn.symm
  stopped := fun hs => hf.nil (h.stopped (hw hs))
  resets := hr
  reports := hrep

theorem Single.resetTimeout (h : Single s) (hnone : removeMessages s.mTimeoutHandle = []) :
    ∀ k ∈ (resetTimeout s).resets, k = 0 := by
  intro k hk
  rcases List.mem_append.1 hk with hk | hk
  · exact h.resets k hk
  · rw [hnone] at hk
    exact List.mem_singleton.1 hk

theorem reports_append_notice {l : List Report} {state : Option State}
    (h : ∀ t a n, .connectFail t a n ∈ l → t = a) :
    ∀ t a n, Report.connectFail t a n ∈ l ++ notice state → t = a := by
  intro t a n hm
  rcases List.mem_append.1 hm with hm | hm
  · exact h t a n hm
  · rcases state with _ | _ | _ | _ | _ <;> simp [notice] at hm

theorem Single.queue_nil (h : Single s) {r : Check × ℕ} (hrun : s.timeoutRun = some r) :
    s.mTimeoutHandle = [] := by
  have hl := h.length
  simp only [tokens, hrun, List.length_append, List.length_map, Option.map_some,
    Option.toList_some, List.length_singleton] at hl
  exact List.eq_nil_of_length_eq_zero (by omega)

theorem Single.move (h : Single s) (hm : Move s e s') (he : ResetsInTime s e) : Single s' := by
  cases hm with
  | @settle state rest hq hs =>
    have hnone : removeMessages s.mTimeoutHandle = [] :=
      (he (.setState state) (by rw [hq]; rfl) hs).removeMessages
    refine h.of_fewer (.of_sublist ?_) rfl id (h.resetTimeout hnone)
      (reports_append_notice h.reports)
    simp [tokens, hq, Ikev2.resetTimeout, hnone]
  | pass hq hs =>
    exact h.of_fewer (.of_eq (by simp [tokens, hq])) rfl id h.resets
      (reports_append_notice h.reports)
  | @settleError error rest hq hs =>
    have hnone : removeMessages s.mTimeoutHandle = [] :=
      (he (.setError error) (by rw [hq]; rfl) hs).removeMessages
    refine h.of_fewer (.of_sublist ?_) rfl id (h.resetTimeout hnone)
      (reports_append_notice h.reports)
    simp [tokens, hq, Ikev2.resetTimeout, hnone]
  | passError hq hs =>
    exact h.of_fewer (.of_eq (by simp [tokens, hq])) rfl id h.resets
      (reports_append_notice h.reports)
  | @start n rest hmain hq =>
    refine h.of_fewer (.of_perm ?_) rfl id h.resets
      (reports_append_notice h.reports : ∀ t a n, _ ∈ _ ++ notice (some .connecting) → _)
    simp only [tokens, hq, startsOf_cons_startConnection, List.map_append, List.map_cons,
      List.map_nil, ← List.append_assoc]
    exact ((List.perm_append_singleton n _).trans (by simp)).append_right _
  | startLate hmain hq =>
    refine h.of_fewer (.of_sublist ?_) rfl id h.resets
      (reports_append_notice h.reports : ∀ t a n, _ ∈ _ ++ notice (some .connecting) → _)
    simp [tokens, hq]
  | removeNotification hq =>
    exact h.of_fewer (.of_eq (by simp [tokens, hq])) rfl id h.resets h.reports
  | joined hmain hw =>
    refine h.of_fewer (.of_sublist ?_) rfl id h.resets h.reports
    simp [tokens]
  | take hw hu =>
    exact h.of_fewer (.of_eq rfl) rfl (by simp [Worker.stopped]) h.resets h.reports
  | @reset o next hw hnext =>
    obtain ⟨hretry, hrun, hstarts⟩ := he hw
    have hnone := hretry.removeMessages
    have hnil : tokens { Ikev2.resetTimeout s with worker := next } = [] := by
      simp [tokens, Ikev2.resetTimeout, hnone, hrun, hstarts]
    exact ⟨by simp [hnil], by simp [hnil], fun _ => hnil, h.resetTimeout hnone, h.reports⟩
  | stop hw =>
    exact h.of_fewer (.of_eq (by simp [tokens, post])) rfl (by simp [hw, Worker.stopped])
      h.resets h.reports
  | mark hw =>
    exact h.of_fewer (.of_eq rfl) rfl (by simp [hw, Worker.stopped]) h.resets h.reports
  | charonStops hw hn =>
    exact h.of_fewer (.of_eq rfl) rfl (by simp [hw, Worker.stopped]) h.resets h.reports
  | disconnect hw hn =>
    exact h.of_fewer (.of_eq (by simp [tokens, post])) rfl (by simp [hw, Worker.stopped])
      h.resets h.reports
  | finish hw hn =>
    exact h.of_fewer (.of_eq (by simp [tokens, post])) rfl (by simp [hw, Worker.stopped])
      h.resets h.reports
  | @attempt o profile hw hn =>
    -- the only step that makes a token, when there is none
    have hnil := h.stopped (by simp [hw, Worker.stopped])
    simp only [tokens, List.append_eq_nil_iff] at hnil
    obtain ⟨⟨h1, h2⟩, h3⟩ := hnil
    have hone : tokens { post s (.startConnection (s.attempts + 1)) with
        mCurrentProfile := some profile, mNextProfile := none, mIsDisconnecting := false,
        charon := true, worker := .initializing, attempts := s.attempts + 1, attemptRequest := s.requests } =
          [s.attempts + 1] := by
      simp only [tokens, post, startsOf_append, h1, h2, h3]
      rfl
    refine ⟨by simp [hone], fun n hm => ?_, by simp [Worker.stopped], h.resets, h.reports⟩
    rw [hone] at hm
    exact List.mem_singleton.1 hm
  | failed hw =>
    exact h.of_fewer (.of_eq (by simp [tokens, post])) rfl (by simp [Worker.stopped])
      h.resets h.reports
  | missing hw =>
    exact h.of_fewer (.of_eq (by simp [tokens, post])) rfl (by simp [Worker.stopped])
      h.resets h.reports
  | initiated hw =>
    exact h.of_fewer (.of_eq rfl) rfl (by simp [Worker.stopped]) h.resets h.reports
  | error hcharon =>
    exact h.of_fewer (.of_eq (by simp [tokens, post])) rfl id h.resets h.reports
  | up hcharon => exact h.of_fewer (.of_eq (by simp [tokens, post])) rfl id h.resets h.reports
  | down hcharon => exact h.of_fewer (.of_eq (by simp [tokens, post])) rfl id h.resets h.reports
  | timeout hrun hq =>
    refine h.of_fewer (.of_perm ?_) rfl id h.resets h.reports
    simp only [tokens, hrun, hq, List.map_cons, Option.map_some, Option.toList_some, Option.map_none,
      Option.toList_none, List.append_nil, List.append_assoc]
    exact (List.perm_append_singleton _ _).append_left _
  | firstTest hrun hnext =>
    exact h.of_fewer (.of_eq (by simp [tokens, hrun])) rfl id h.resets h.reports
  | failReset hrun =>
    have hnone : removeMessages s.mTimeoutHandle = [] := by
      rw [h.queue_nil hrun]
      rfl
    refine h.of_fewer (.of_sublist ?_) rfl id (h.resetTimeout hnone) h.reports
    simp [tokens, hrun, Ikev2.resetTimeout, hnone]
  | @failReport n hrun =>
    refine h.of_fewer (.of_sublist (by simp [tokens, hrun, stateChange])) rfl id h.resets ?_
    intro t a k hm
    rcases List.mem_append.1 hm with hm | hm
    · exact h.reports t a k hm
    · obtain ⟨rfl, rfl, rfl⟩ : t = n ∧ a = s.attempts ∧ k = s.applied := by simpa using hm
      exact h.latest t (by simp [tokens, hrun])
  | giveUp hrun htest =>
    exact h.of_fewer (.of_sublist (by simp [tokens, hrun])) rfl id h.resets h.reports
  | retry hrun hlt =>
    exact h.of_fewer (.of_eq (by simp [tokens, hrun])) rfl id h.resets h.reports
  | count hrun => exact h.of_fewer (.of_eq (by simp [tokens, hrun])) rfl id h.resets h.reports
  | repost hrun hmain =>
    exact h.of_fewer (.of_eq (by simp [tokens, hrun])) rfl id h.resets h.reports
  | repostLate hrun hmain =>
    exact h.of_fewer (.of_sublist (by simp [tokens, hrun])) rfl id h.resets h.reports
  | _ => exact ⟨h.length, h.latest, h.stopped, h.resets, h.reports⟩

/-- **Every run.**  As long as `resetTimeout` is called only when it can remove every timer, it
empties the queue, at most one callback is queued, and a `CONNECT_FAIL` comes from the timer of the
current attempt. -/
theorem fresh_of_resetsInTime (es : List (Event V)) (h : Along step ResetsInTime created es) :
    Throughout step (fun _ s => Fresh s) created es := by
  have hall : Throughout step (fun _ s => Single s) (created : Service V) es := by
    refine throughout_of_step single_created (fun _ s e hs he => ?_) es h
    rcases step_move s e with h | hm
    · rw [h]
      exact hs
    · exact hs.move hm he
  exact fun past hpast => (hall past hpast).fresh

/-- An attempt that comes up before its first timeout, and a second one that fails. -/
theorem fresh_two_attempts :
    Throughout step (fun _ s => Fresh s) (created : Service Unit)
      [.startCommand (some ()), .worker .initiated, .worker .initiated, .worker .initiated,
       .worker .initiated, .callback, .updateStatus .childSaUp, .callback,
       .startCommand (some ()), .worker .initiated, .worker .initiated, .worker .initiated,
       .worker .initiated, .worker .initiated, .worker .initiated, .worker .initiated,
       .callback, .callback, .updateStatus .authError, .callback,
       .timeout, .timeoutRun, .timeoutRun, .timeoutRun] :=
  fresh_of_resetsInTime _ (by decide +kernel)

/-- A first attempt that waits in its retry when the user connects to another profile, up to the
failure of the second attempt. -/
def overtaken : List (Event Unit) :=
  [.startCommand (some ()), .worker .initiated, .worker .initiated, .worker .initiated,
   .worker .initiated, .callback, .timeout, .timeoutRun, .timeoutRun, .timeoutRun, .timeoutRun,
   .startCommand (some ()), .worker .initiated, .worker .initiated, .worker .initiated,
   .worker .initiated, .worker .initiated, .worker .initiated, .worker .initiated,
   .callback, .callback, .updateStatus .authError, .callback]

/-- The retry of the first attempt survives the reset, is queued beside the timer of the second one,
and reports that one as failed. -/
theorem retry_outlives_reset :
    1 ∈ (run step created overtaken).resets ∧
      (run step created overtaken).mTimeoutHandle = [⟨0, 1⟩, ⟨timeOutWhat, 2⟩] ∧
      .connectFail 1 2 2 ∈
        (run step created (overtaken ++ [.timeout, .timeoutRun, .timeoutRun, .timeoutRun])).reports := by
  refine ⟨?_, ?_, ?_⟩ <;> decide +kernel

end VpnCore.Ikev2
