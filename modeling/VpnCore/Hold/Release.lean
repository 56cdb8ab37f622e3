import VpnCore.Hold.Model

/-!
# VpnCore.Hold.Release — when a hold is released

Every handler but one releases the hold only after it has found `shouldBeRunning` true.  The
exception is the branch of `networkStateChange` for a network that comes back within the disconnect
delay: it calls `networkChange` on the management thread whatever the screen and the user say.
`ReleaseAllowed` is that one case; `released_iff_along` says that it is the only way to a release
while paused.
-/

namespace VpnCore.Hold

open VpnCore.Lib

/-- Every release so far was decided while OpenVPN should be running. -/
def NoReleaseWhilePaused (s : Sys) : Prop := ∀ r ∈ s.released, r = true

instance (s : Sys) : Decidable (NoReleaseWhilePaused s) :=
  inferInstanceAs (Decidable (∀ r ∈ s.released, r = true))

/-- The step does not bring back the same network within the disconnect delay while OpenVPN waits
on hold and the screen or the user keeps the VPN paused. -/
def ReleaseAllowed (s : Sys) : Event → Prop
  | .networkStateChange (some info) _ _ =>
    info.state = .connected → s.dev.network = .pendingDisconnect →
      s.dev.sameNetwork info = true → s.mgmt.mWaitingForRelease = true →
      s.dev.screen = .shouldBeConnected ∧ s.dev.userpause = .shouldBeConnected
  | _ => True

instance (s : Sys) : ∀ e, Decidable (ReleaseAllowed s e)
  | .networkStateChange (some _) _ _ => by unfold ReleaseAllowed; infer_instance
  | .networkStateChange none _ _ => isTrue trivial
  | .screenOff _ _ => isTrue trivial
  | .screenOn _ => isTrue trivial
  | .userPause _ _ => isTrue trivial
  | .updateByteCount _ _ _ => isTrue trivial
  | .delayDisconnectFires => isTrue trivial
  | .handleHold => isTrue trivial
  | .resumeHoldFires _ => isTrue trivial

/-! ## What the handlers append to `released` -/

/-- `Lib.Emits` for the ghost field `released`. -/
abbrev Releases (s s' : Sys) (p : Prop) : Prop := Emits Sys.released (· = true) s s' p

theorem pause_released (s : Sys) (reason : PauseReason) : (s.pause reason).released = s.released := by
  unfold Sys.pause Sys.signalusr1
  dsimp only
  split <;> rfl

theorem handleHold_released (s : Sys) : s.handleHold.released = s.released := by
  unfold Sys.handleHold
  dsimp only
  split <;> rfl

theorem releases_releaseHoldCmd (s : Sys) (now : ℤ) :
    Releases s (s.releaseHoldCmd now) (s.shouldBeRunning = true) :=
  Emits.single rfl

theorem releases_releaseHold (s : Sys) (now : ℤ) :
    Releases s (s.releaseHold now) (s.mgmt.mWaitingForRelease = true → s.shouldBeRunning = true) := by
  unfold Sys.releaseHold
  split_ifs with hw
  · exact (releases_releaseHoldCmd s now).congr (by simp [hw])
  · exact Emits.none rfl (by simp [hw])

theorem releases_resume (s : Sys) (now : ℤ) :
    Releases s (s.resume now) (s.mgmt.mWaitingForRelease = true → s.shouldBeRunning = true) :=
  releases_releaseHold s now

theorem releases_networkChange (s : Sys) (b : Bool) (now : ℤ) :
    Releases s (s.networkChange b now)
      (s.mgmt.mWaitingForRelease = true → s.shouldBeRunning = true) := by
  unfold Sys.networkChange
  by_cases hw : s.mgmt.mWaitingForRelease = true
  · rw [if_pos hw]
    exact releases_releaseHold s now
  · rw [if_neg hw]
    refine Emits.none ?_ (by simp [hw])
    split <;> rfl

/-! ## The answers to the receiver -/

section Answers

variable (s : Sys) (d : Device) (now : ℤ)

/-- A handler without a call, or with `pause`, releases nothing. -/
theorem releases_nothing : Releases s (s.answer now (d, [])) True := Emits.none rfl trivial

theorem releases_pause (reason : PauseReason) : Releases s (s.answer now (d, [.pause reason])) True :=
  Emits.none (pause_released { s with dev := d } reason) trivial

/-- `resume` and `networkChange` release a hold whatever the combined state is. -/
theorem releases_answer {call : Call} (hcall : call = .resume ∨ ∃ b, call = .networkChange b) :
    Releases s (s.answer now (d, [call]))
      (s.mgmt.mWaitingForRelease = true → d.shouldBeConnected = true) := by
  rcases hcall with rfl | ⟨b, rfl⟩
  · exact (releases_resume { s with dev := d } now).of_log rfl
  · exact (releases_networkChange { s with dev := d } b now).of_log rfl

/-- After a test of the combined state they release nothing wrongly. -/
theorem releases_of_running {call : Call} (hcall : call = .resume ∨ ∃ b, call = .networkChange b)
    (hrun : d.shouldBeConnected = true) {p : Prop} (hp : p) : Releases s (s.answer now (d, [call])) p :=
  (releases_answer s d now hcall).congr (by simp [hrun, hp])

end Answers

theorem releases_resumeHoldFires (s : Sys) (now : ℤ) : Releases s (s.resumeHoldFires now) True := by
  unfold Sys.resumeHoldFires
  split
  · exact Emits.none rfl trivial
  · dsimp only
    split_ifs with hrun
    · exact ((releases_releaseHoldCmd _ now).of_log rfl).congr (iff_of_true hrun trivial)
    · exact Emits.none rfl trivial

theorem releases_userPause (s : Sys) (b : Bool) (now : ℤ) :
    Releases s (s.answer now (s.dev.userPause b)) True := by
  unfold Device.userPause
  dsimp only
  split_ifs with hb h
  · exact releases_pause ..
  · rw [Bool.and_eq_true] at h
    exact releases_of_running s _ now (.inl rfl) h.1 trivial
  · exact releases_pause ..

/-- Switching the screen on can only make the combined state true. -/
theorem shouldBeConnected_screenOn {d d' : Device} (hn : d'.network = d.network)
    (hu : d'.userpause = d.userpause) (hs : d'.screen = .shouldBeConnected)
    (hne : d'.shouldBeConnected ≠ d.shouldBeConnected) : d'.shouldBeConnected = true := by
  by_contra hf
  have hd : d.shouldBeConnected = false := by
    unfold Device.shouldBeConnected at hf ⊢
    rw [hn, hu, hs] at hf
    revert hf
    cases d.screen <;> simp
  rw [hd] at hne
  exact hf (by simpa using hne)

theorem releases_screenOn (s : Sys) (now : ℤ) : Releases s (s.answer now s.dev.screenOn) True := by
  unfold Device.screenOn
  dsimp only
  split_ifs with h1 h2
  · refine releases_of_running s _ now (.inl rfl) ?_ trivial
    exact shouldBeConnected_screenOn (d := s.dev) rfl rfl rfl h1
  · exact releases_nothing ..
  · exact releases_pause ..

theorem releases_screenOff (s : Sys) (b : Bool) (now : ℤ) :
    Releases s (s.answer now (s.dev.screenOff b now)) True := by
  unfold Device.screenOff
  dsimp only
  split_ifs <;> exact releases_nothing ..

theorem releases_updateByteCount (s : Sys) (i o now : ℤ) :
    Releases s (s.answer now (s.dev.updateByteCount i o now)) True := by
  unfold Device.updateByteCount
  dsimp only
  split_ifs
  · exact releases_nothing ..
  · exact releases_pause ..
  · exact releases_nothing ..

theorem releases_delayDisconnect (s : Sys) (now : ℤ) :
    Releases s (s.answer now s.dev.delayDisconnect) True := by
  unfold Device.delayDisconnect
  split
  · exact releases_nothing ..
  · dsimp only
    by_cases hpending : s.dev.network = .pendingDisconnect
    · rw [if_pos hpending]
      exact releases_pause ..
    · rw [if_neg hpending]
      exact releases_nothing ..

theorem releases_networkConnected (s : Sys) (info : NetworkInfo) (now : ℤ) :
    Releases s (s.answer now (s.dev.networkConnected info))
      (s.dev.network = .pendingDisconnect → s.dev.sameNetwork info = true →
        s.mgmt.mWaitingForRelease = true →
        s.dev.screen = .shouldBeConnected ∧ s.dev.userpause = .shouldBeConnected) := by
  unfold Device.networkConnected
  dsimp only
  by_cases hps : (s.dev.network == .pendingDisconnect && s.dev.sameNetwork info) = true
  · -- the network came back in time: here `networkChange` runs unconditionally
    rw [if_pos hps]
    rw [Bool.and_eq_true, beq_iff_eq] at hps
    refine (releases_answer s _ now (.inr ⟨true, rfl⟩)).congr ?_
    simp [hps.1, hps.2, Device.shouldBeConnected]
  · rw [if_neg hps]
    rw [Bool.and_eq_true, beq_iff_eq, not_and] at hps
    have hp : s.dev.network = .pendingDisconnect → s.dev.sameNetwork info = true →
        s.mgmt.mWaitingForRelease = true →
        s.dev.screen = .shouldBeConnected ∧ s.dev.userpause = .shouldBeConnected :=
      fun h1 h2 _ => absurd h2 (hps h1)
    generalize (if s.dev.screen = ConnectState.pendingDisconnect then ConnectState.disconnected
      else s.dev.screen) = screen
    split_ifs with hrun hchange
    · refine releases_of_running s _ now (.inr ⟨_, rfl⟩) ?_ hp
      exact hrun
    · refine releases_of_running s _ now (.inl rfl) ?_ hp
      exact hrun
    · exact (releases_nothing ..).congr (iff_of_true trivial hp)

/-- What one step appends to `released`. -/
theorem releases_step (s : Sys) (e : Event) : Releases s (s.step e) (ReleaseAllowed s e) := by
  cases e with
  | networkStateChange info usr1 now =>
    simp only [Sys.step, Device.networkStateChange]
    cases info with
    | none =>
      dsimp only
      split_ifs <;> exact releases_nothing ..
    | some info =>
      simp only [ReleaseAllowed]
      split_ifs with hc
      · exact (releases_networkConnected s info now).congr (by simp [hc])
      · exact (releases_nothing ..).congr (by simp [hc])
  | screenOff b now => exact releases_screenOff s b now
  | screenOn now => exact releases_screenOn s now
  | userPause b now => exact releases_userPause s b now
  | updateByteCount i o now => exact releases_updateByteCount s i o now
  | delayDisconnectFires => exact releases_delayDisconnect s 0
  | handleHold => exact Emits.none (handleHold_released s) trivial
  | resumeHoldFires now => exact releases_resumeHoldFires s now

/-! ## Runs -/

/-- **A run never releases the hold while paused exactly when every step of it is allowed.** -/
theorem released_iff_along (s : Sys) (hs : Initial s) (es : List Event) :
    NoReleaseWhilePaused (run Sys.step s es) ↔ Along Sys.step ReleaseAllowed s es := by
  have h := run_log_iff releases_step es s
  rw [NoReleaseWhilePaused, h, hs.2.2]
  simp

/-- OpenVPN goes on hold, the network is lost and comes back within the delay, and the hold is
released. -/
theorem released_iff_along_roaming :
    Initial {} ∧ Along Sys.step ReleaseAllowed {}
      [.networkStateChange (some ⟨.connected, 1, none⟩) true 0, .handleHold,
        .networkStateChange none true 1, .networkStateChange (some ⟨.connected, 1, none⟩) true 2] ∧
    (run Sys.step {} [.networkStateChange (some ⟨.connected, 1, none⟩) true 0, .handleHold,
        .networkStateChange none true 1,
        .networkStateChange (some ⟨.connected, 1, none⟩) true 2]).released = [true] ∧
    NoReleaseWhilePaused (run Sys.step {}
      [.networkStateChange (some ⟨.connected, 1, none⟩) true 0, .handleHold,
        .networkStateChange none true 1, .networkStateChange (some ⟨.connected, 1, none⟩) true 2]) :=
  ⟨⟨rfl, rfl, rfl⟩, by decide, by decide, (released_iff_along {} ⟨rfl, rfl, rfl⟩ _).mpr (by decide)⟩

/-- The user pauses, OpenVPN goes on hold, the network is lost and comes back within the delay:
the hold is released although the user still pauses. -/
theorem released_while_user_paused :
    ¬ ∀ (s : Sys), Initial s → ∀ es, NoReleaseWhilePaused (run Sys.step s es) := by
  intro h
  have := h {} ⟨rfl, rfl, rfl⟩
    [.networkStateChange (some ⟨.connected, 1, none⟩) true 0, .userPause true 1, .handleHold,
      .networkStateChange none true 2, .networkStateChange (some ⟨.connected, 1, none⟩) true 3]
  revert this
  decide

end VpnCore.Hold
