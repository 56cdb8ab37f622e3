import VpnCore.Hold.Resume

/-!
# VpnCore.Hold.Timer — the timer of a pending disconnect

When the network goes away, `networkStateChange` queues `mDelayDisconnectRunnable`, which pauses the
VPN if the network has not come back.  `ACTION_SCREEN_ON` takes it out of the queue whatever the state
of the network is: then the VPN is not paused, however long the network stays away.  No other event
does that (`timerQueued_iff_along`).
-/

namespace VpnCore.Hold

open VpnCore.Lib

/-! ## The fields of the receiver -/

theorem releaseHold_dev (s : Sys) (now : ℤ) : (s.releaseHold now).dev = s.dev := by
  unfold Sys.releaseHold
  split_ifs <;> rfl

theorem networkChange_dev (s : Sys) (b : Bool) (now : ℤ) : (s.networkChange b now).dev = s.dev := by
  unfold Sys.networkChange
  split_ifs
  · exact releaseHold_dev s now
  · rfl
  · rfl

/-- The management thread does not touch them. -/
theorem perform_dev (now : ℤ) (s : Sys) (call : Call) : (s.perform now call).dev = s.dev := by
  cases call with
  | pause reason => exact pause_dev s reason
  | resume => exact releaseHold_dev s now
  | networkChange b => exact networkChange_dev s b now

theorem foldl_perform_dev (now : ℤ) (calls : List Call) (s : Sys) :
    (calls.foldl (Sys.perform now) s).dev = s.dev := by
  induction calls generalizing s with
  | nil => rfl
  | cons call calls ih => rw [List.foldl_cons, ih, perform_dev]

theorem step_dev (s : Sys) (e : Event) : (s.step e).dev = (s.dev.receive e).1 := by
  cases he : e.isReceived with
  | true => rw [step_eq_answer s he, Sys.answer, foldl_perform_dev]
  | false =>
    cases e with
    | handleHold =>
      change s.handleHold.dev = s.dev
      unfold Sys.handleHold
      dsimp only
      split_ifs <;> rfl
    | resumeHoldFires now =>
      change (s.resumeHoldFires now).dev = s.dev
      unfold Sys.resumeHoldFires
      split
      · rfl
      · dsimp only
        split_ifs <;> rfl
    | _ => cases he

/-! ## The timer -/

/-- While a disconnect is pending the runnable is queued, and it will pause the VPN. -/
def Device.TimerQueued (d : Device) : Prop :=
  d.network = .pendingDisconnect → 0 < d.mDisconnectHandler ∧
    d.delayDisconnect.1.network = .disconnected ∧ ∃ reason, d.delayDisconnect.2 = [.pause reason]

theorem timerQueued_of_pos {d : Device} (h : d.network = .pendingDisconnect → 0 < d.mDisconnectHandler) :
    d.TimerQueued := by
  intro hpending
  have hpos := h hpending
  obtain ⟨k, hk⟩ : ∃ k, d.mDisconnectHandler = k + 1 := ⟨_, (Nat.succ_pred_eq_of_pos hpos).symm⟩
  refine ⟨hpos, ?_⟩
  unfold Device.delayDisconnect
  rw [hk]
  dsimp only
  rw [if_pos hpending]
  exact ⟨rfl, _, rfl⟩

/-- The screen is not turned on while a disconnect is pending. -/
def KeepsTimer (d : Device) : Event → Prop
  | .screenOn _ => d.network ≠ .pendingDisconnect
  | _ => True

instance (d : Device) (e : Event) : Decidable (KeepsTimer d e) := by
  cases e <;> unfold KeepsTimer <;> infer_instance

/-- The event leaves the network and the queue as they are. -/
theorem Device.TimerQueued.of_eq {d d' : Device} (hd : d.TimerQueued) (hn : d'.network = d.network)
    (hh : d'.mDisconnectHandler = d.mDisconnectHandler) : d'.TimerQueued := by
  refine timerQueued_of_pos fun hpending => ?_
  rw [hh]
  exact (hd (hn ▸ hpending)).1

theorem networkConnected_network (d : Device) (info : NetworkInfo) :
    (d.networkConnected info).1.network = .shouldBeConnected := by
  unfold Device.networkConnected
  dsimp only
  split_ifs <;> rfl

theorem Device.TimerQueued.networkStateChange {d : Device} (hd : d.TimerQueued)
    (info : Option NetworkInfo) (sendusr1 : Bool) : (d.networkStateChange info sendusr1).1.TimerQueued := by
  unfold Device.networkStateChange
  cases info with
  | some info =>
    dsimp only
    split_ifs
    · intro hpending
      rw [networkConnected_network] at hpending
      cases hpending
    · exact hd
  | none =>
    dsimp only
    split_ifs
    · exact timerQueued_of_pos fun _ => Nat.succ_pos _
    · exact hd

theorem Device.TimerQueued.delayDisconnect {d : Device} (hd : d.TimerQueued) :
    d.delayDisconnect.1.TimerQueued := by
  unfold Device.delayDisconnect
  split
  · exact hd
  · dsimp only
    by_cases hpending : d.network = .pendingDisconnect
    · rw [if_pos hpending]
      intro h
      cases h
    · rw [if_neg hpending]
      exact fun h => absurd h hpending

/-- **Every event but `ACTION_SCREEN_ON` keeps the timer.** -/
theorem timerQueued_receive {d : Device} (hd : d.TimerQueued) (e : Event) :
    (d.receive e).1.TimerQueued ↔ KeepsTimer d e := by
  cases e with
  | networkStateChange info usr1 now => exact iff_of_true (hd.networkStateChange info usr1) trivial
  | screenOff b now =>
    refine iff_of_true (hd.of_eq ?_ ?_) trivial <;>
    · simp only [Device.receive, Device.screenOff]
      split_ifs <;> rfl
  | screenOn now =>
    have hscreen : (d.receive (.screenOn now)).1.network = d.network ∧
        (d.receive (.screenOn now)).1.mDisconnectHandler = 0 := by
      simp only [Device.receive, Device.screenOn]
      split_ifs <;> exact ⟨rfl, rfl⟩
    constructor
    · intro hq hpending
      have hpos := (hq (hscreen.1.trans hpending)).1
      rw [hscreen.2] at hpos
      exact absurd hpos (Nat.lt_irrefl 0)
    · intro hne hpending
      exact absurd (hscreen.1.symm.trans hpending) hne
  | userPause b now =>
    refine iff_of_true (hd.of_eq ?_ ?_) trivial <;>
    · simp only [Device.receive, Device.userPause]
      split_ifs <;> rfl
  | updateByteCount i o now =>
    refine iff_of_true (hd.of_eq ?_ ?_) trivial <;>
    · simp only [Device.receive, Device.updateByteCount]
      split_ifs <;> rfl
  | delayDisconnectFires => exact iff_of_true hd.delayDisconnect trivial
  | handleHold => exact iff_of_true hd trivial
  | resumeHoldFires now => exact iff_of_true hd trivial

/-! ## Runs -/

/-- **In every state of a run the timer of a pending disconnect is queued exactly if the screen is
turned on only while no disconnect is pending.** -/
theorem timerQueued_iff_along (s : Sys) (hs : Initial s) (es : List Event) :
    Throughout Sys.step (fun _ s => s.dev.TimerQueued) s es ↔
      Along Sys.step (fun s e => KeepsTimer s.dev e) s es := by
  have hstep : ∀ (s : Sys) (e : Event), s.dev.TimerQueued →
      ((s.step e).dev.TimerQueued ↔ KeepsTimer s.dev e) := by
    intro s e h
    rw [step_dev]
    exact timerQueued_receive h e
  refine throughout_iff_along (P := fun s => s.dev.TimerQueued)
    (I := fun s => s.dev.TimerQueued) (fun _ h => h)
    (fun s e h hk => (hstep s e h).2 hk) (fun s e h hq => (hstep s e h).1 hq) es s ?_
  rw [hs.1]
  exact fun h => absurd h (by decide)

/-- The network goes away and comes back, and the screen is turned off and on. -/
theorem timerQueued_roaming :
    Throughout Sys.step (fun _ s => s.dev.TimerQueued) {}
      [.networkStateChange (some ⟨.connected, 1, none⟩) true 0, .networkStateChange none true 1,
        .screenOff true 2, .networkStateChange (some ⟨.connected, 0, none⟩) true 3, .screenOn 4] :=
  (timerQueued_iff_along {} ⟨rfl, rfl, rfl⟩ _).2 (by decide)

/-- The screen is turned on while the network is away: the disconnect stays pending, and nothing is
queued any more. -/
theorem screenOn_cancels_timer :
    (run Sys.step {} [.networkStateChange none true 0, .screenOn 1]).dev.network =
      .pendingDisconnect ∧
    ¬ (run Sys.step {} [.networkStateChange none true 0, .screenOn 1]).dev.TimerQueued := by
  refine ⟨by decide, fun h => ?_⟩
  exact absurd (h (by decide)).1 (by decide)

end VpnCore.Hold
