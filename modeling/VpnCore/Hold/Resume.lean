import VpnCore.Hold.Model

/-!
# VpnCore.Hold.Resume — no hold without an end

`DeviceStateReceiver` on its own: `Device.receive` gives its fields after an event and the calls it
makes to the management thread, and a step lets the management thread answer them (`step_eq_answer`).
`calls_receive` says what calls an event can make.  A hold that should be released is left without a
resume callback, or `pause` is called while the VPN should be running, exactly if `userPause(false)`
comes while the VPN is not paused (`notStuck_iff_along`).
-/

namespace VpnCore.Hold

open VpnCore.Lib

/-! ## The receiver -/

/-- The fields after the event and the calls it makes. -/
def Device.receive (d : Device) : Event → Device × List Call
  | .networkStateChange info usr1 _ => d.networkStateChange info usr1
  | .screenOff b now => d.screenOff b now
  | .screenOn _ => d.screenOn
  | .userPause b _ => d.userPause b
  | .updateByteCount i o now => d.updateByteCount i o now
  | .delayDisconnectFires => d.delayDisconnect
  | .handleHold => (d, [])
  | .resumeHoldFires _ => (d, [])

/-- The events of the receiver. -/
def Event.isReceived : Event → Bool
  | .handleHold => false
  | .resumeHoldFires _ => false
  | _ => true

/-- The clock value of the event. -/
def Event.time : Event → ℤ
  | .networkStateChange _ _ now => now
  | .screenOff _ now => now
  | .screenOn now => now
  | .userPause _ now => now
  | .updateByteCount _ _ now => now
  | .delayDisconnectFires => 0
  | .handleHold => 0
  | .resumeHoldFires now => now

/-- **A step is the receiver's and then the management thread's.** -/
theorem step_eq_answer (s : Sys) {e : Event} (he : e.isReceived = true) :
    s.step e = s.answer e.time (s.dev.receive e) := by
  cases e with
  | handleHold => cases he
  | resumeHoldFires now => cases he
  | _ => rfl

/-! ## The calls of an event -/

theorem shouldBeConnected_iff (d : Device) :
    d.shouldBeConnected = true ↔ d.screen = .shouldBeConnected ∧
      d.userpause = .shouldBeConnected ∧ d.network = .shouldBeConnected := by
  simp [Device.shouldBeConnected, and_assoc]

/-- `userPause(false)` -/
def Event.isUserResume : Event → Bool
  | .userPause false _ => true
  | _ => false

/-- The user resumes a VPN that is not paused. -/
def Event.isUserResumeOf (e : Event) (d : Device) : Prop :=
  e.isUserResume = true ∧ d.shouldBeConnected = true

/-- What the calls of an event to the management thread say about the combined state before and
after it. -/
inductive Calls (d d' : Device) (e : Event) : List Call → Prop
  | none (he : ¬ e.isUserResumeOf d)
    (h : d'.shouldBeConnected = true → d.shouldBeConnected = true) : Calls d d' e []
  | resume (he : ¬ e.isUserResumeOf d) : Calls d d' e [.resume]
  | networkChange (he : ¬ e.isUserResumeOf d) (same : Bool) : Calls d d' e [.networkChange same]
  | pause (reason : PauseReason) (h : d'.shouldBeConnected = true ↔ e.isUserResumeOf d) :
    Calls d d' e [.pause reason]

section Calls

variable {d : Device} {e : Event}

theorem not_isUserResumeOf (he : e.isUserResume = false) (d : Device) : ¬ e.isUserResumeOf d := by
  rintro ⟨h, -⟩
  rw [he] at h
  cases h

theorem calls_networkConnected (he : e.isUserResume = false) (info : NetworkInfo) :
    Calls d (d.networkConnected info).1 e (d.networkConnected info).2 := by
  have hn := not_isUserResumeOf he d
  unfold Device.networkConnected
  dsimp only
  generalize (if d.screen = ConnectState.pendingDisconnect then ConnectState.disconnected
    else d.screen) = screen
  split_ifs with h1 h2 h3
  · exact .networkChange hn true
  · exact .networkChange hn _
  · exact .resume hn
  · exact .none hn fun h => absurd h h2

theorem calls_networkStateChange (he : e.isUserResume = false) (info : Option NetworkInfo)
    (usr1 : Bool) : Calls d (d.networkStateChange info usr1).1 e (d.networkStateChange info usr1).2 := by
  have hn := not_isUserResumeOf he d
  unfold Device.networkStateChange
  cases info with
  | none =>
    dsimp only
    split_ifs
    · refine .none hn fun h => ?_
      cases ((shouldBeConnected_iff _).mp h).2.2
    · exact .none hn id
  | some info =>
    dsimp only
    split_ifs
    · exact calls_networkConnected he info
    · exact .none hn id

theorem calls_screenOff (he : e.isUserResume = false) (b : Bool) (now : ℤ) :
    Calls d (d.screenOff b now).1 e (d.screenOff b now).2 := by
  have hn := not_isUserResumeOf he d
  unfold Device.screenOff
  split_ifs
  · refine .none hn fun h => ?_
    cases ((shouldBeConnected_iff _).mp h).1
  · refine .none hn fun h => ?_
    cases ((shouldBeConnected_iff _).mp h).1
  · exact .none hn id

theorem calls_screenOn (he : e.isUserResume = false) : Calls d d.screenOn.1 e d.screenOn.2 := by
  have hn := not_isUserResumeOf he d
  unfold Device.screenOn
  dsimp only
  split_ifs with h1 h2
  · exact .resume hn
  · refine .none hn fun _ => ?_
    rw [ne_eq, not_not] at h1
    rwa [← h1]
  · exact .pause _ (iff_of_false h2 hn)

theorem calls_userPause (b : Bool) (now : ℤ) :
    Calls d (d.userPause b).1 (.userPause b now) (d.userPause b).2 := by
  unfold Device.userPause
  cases b with
  | true =>
    refine .pause _ (iff_of_false (fun h => ?_) (not_isUserResumeOf rfl d))
    cases ((shouldBeConnected_iff _).mp h).2.1
  | false =>
    simp only [Bool.false_eq_true, if_false]
    split_ifs with h
    · rw [Bool.and_eq_true, Bool.not_eq_true'] at h
      refine .resume fun hd => ?_
      have hrun := hd.2
      rw [h.2] at hrun
      cases hrun
    · refine .pause _ ⟨fun hrun => ⟨rfl, ?_⟩, fun hrun => ?_⟩
      · by_contra hnot
        exact h (by simp [hrun, hnot])
      · have hd := (shouldBeConnected_iff d).mp hrun.2
        exact (shouldBeConnected_iff _).mpr ⟨hd.1, rfl, hd.2.2⟩

theorem calls_updateByteCount (he : e.isUserResume = false) (i o now : ℤ) :
    Calls d (d.updateByteCount i o now).1 e (d.updateByteCount i o now).2 := by
  have hn := not_isUserResumeOf he d
  unfold Device.updateByteCount
  dsimp only
  split_ifs
  · exact .none hn id
  · refine .pause _ (iff_of_false (fun h => ?_) hn)
    cases ((shouldBeConnected_iff _).mp h).1
  · exact .none hn id

theorem calls_delayDisconnect (he : e.isUserResume = false) :
    Calls d d.delayDisconnect.1 e d.delayDisconnect.2 := by
  have hn := not_isUserResumeOf he d
  unfold Device.delayDisconnect
  cases d.mDisconnectHandler with
  | zero => exact .none hn id
  | succ k =>
    dsimp only
    generalize (if d.screen = ConnectState.pendingDisconnect then ConnectState.disconnected
      else d.screen) = screen
    split_ifs
    · refine .pause _ (iff_of_false (fun h => ?_) hn)
      cases ((shouldBeConnected_iff _).mp h).2.2
    · exact .none hn id

end Calls

/-- **The calls of any event.** -/
theorem calls_receive (d : Device) (e : Event) : Calls d (d.receive e).1 e (d.receive e).2 := by
  cases e with
  | networkStateChange info usr1 now => exact calls_networkStateChange rfl info usr1
  | screenOff b now => exact calls_screenOff rfl b now
  | screenOn now => exact calls_screenOn rfl
  | userPause b now => exact calls_userPause b now
  | updateByteCount i o now => exact calls_updateByteCount rfl i o now
  | delayDisconnectFires => exact calls_delayDisconnect rfl
  | handleHold => exact .none (not_isUserResumeOf rfl d) id
  | resumeHoldFires now => exact .none (not_isUserResumeOf rfl d) id

/-! ## The hold -/

/-- A hold that should be released has a resume callback. -/
def Resumable (s : Sys) : Prop :=
  s.mgmt.mWaitingForRelease = true → s.shouldBeRunning = true → 0 < s.mgmt.mResumeHandler

instance (s : Sys) : Decidable (Resumable s) := inferInstanceAs (Decidable (_ → _ → _))

/-- The event calls `pause`. -/
def Pauses (s : Sys) (e : Event) : Prop := ∃ reason, .pause reason ∈ (s.dev.receive e).2

/-- After the event a hold that should be released has a resume callback, and the event calls
`pause` only if the VPN should not be running after it. -/
def NotStuck (s : Sys) (e : Event) : Prop :=
  Resumable (s.step e) ∧ (Pauses s e → (s.step e).shouldBeRunning = false)

/-- `userPause(false)` does not come while the VPN should be running. -/
def ResumeNeeded (s : Sys) (e : Event) : Prop := e.isUserResume = true → s.shouldBeRunning = false

instance (s : Sys) (e : Event) : Decidable (ResumeNeeded s e) := inferInstanceAs (Decidable (_ → _))

theorem resumeNeeded_iff (s : Sys) (e : Event) : ResumeNeeded s e ↔ ¬ e.isUserResumeOf s.dev := by
  unfold ResumeNeeded Event.isUserResumeOf Sys.shouldBeRunning
  simp

theorem releaseHold_waiting (s : Sys) (now : ℤ) :
    (s.releaseHold now).mgmt.mWaitingForRelease = false := by
  unfold Sys.releaseHold
  split_ifs with h
  · rfl
  · simpa using h

theorem networkChange_waiting (s : Sys) (b : Bool) (now : ℤ) :
    (s.networkChange b now).mgmt.mWaitingForRelease = false := by
  unfold Sys.networkChange
  split_ifs with h
  · exact releaseHold_waiting s now
  · simpa [Sys.managmentCommand] using h
  · simpa [Sys.managmentCommand] using h

theorem resumable_of_not_waiting {s : Sys} (h : s.mgmt.mWaitingForRelease = false) :
    Resumable s := by
  intro hw
  rw [h] at hw
  cases hw

theorem pause_dev (s : Sys) (reason : PauseReason) : (s.pause reason).dev = s.dev := by
  unfold Sys.pause Sys.signalusr1
  dsimp only
  split_ifs <;> rfl

/-- The resume callback is cancelled only where it is not needed, unless the user resumes a VPN that
is not paused. -/
theorem notStuck_received {s : Sys} {e : Event} (he : e.isReceived = true) (hs : Resumable s) :
    NotStuck s e ↔ ResumeNeeded s e := by
  have hcalls := calls_receive s.dev e
  rw [resumeNeeded_iff]
  unfold NotStuck Pauses
  rw [step_eq_answer s he]
  unfold Sys.answer
  generalize s.dev.receive e = r at hcalls ⊢
  obtain ⟨d', calls⟩ := r
  dsimp only at hcalls ⊢
  cases hcalls with
  | none hn h =>
    refine iff_of_true ⟨fun hw hrun => hs hw (h hrun), ?_⟩ hn
    rintro ⟨reason, hm⟩
    cases hm
  | resume hn =>
    refine iff_of_true ⟨resumable_of_not_waiting (releaseHold_waiting _ e.time), ?_⟩ hn
    rintro ⟨reason, hm⟩
    simp at hm
  | networkChange hn same =>
    refine iff_of_true ⟨resumable_of_not_waiting (networkChange_waiting _ same e.time), ?_⟩ hn
    rintro ⟨reason, hm⟩
    simp at hm
  | pause reason h =>
    have hrun : (({ s with dev := d' } : Sys).pause reason).shouldBeRunning = d'.shouldBeConnected := by
      unfold Sys.shouldBeRunning
      rw [pause_dev]
    change (Resumable (({ s with dev := d' } : Sys).pause reason) ∧
      (_ → (({ s with dev := d' } : Sys).pause reason).shouldBeRunning = false)) ↔ _
    unfold Resumable
    rw [hrun, ← h]
    constructor
    · rintro ⟨-, hp⟩ hconn
      rw [hp ⟨reason, List.mem_singleton_self _⟩] at hconn
      cases hconn
    · intro hconn
      exact ⟨fun _ hc => absurd hc hconn, fun _ => by simpa using hconn⟩

/-- The events of the management thread itself. -/
theorem notStuck_management {s : Sys} {e : Event} (he : e.isReceived = false) (hs : Resumable s) :
    NotStuck s e ∧ ResumeNeeded s e := by
  have hpause : ∀ {e : Event}, e.isReceived = false → ¬ Pauses s e := by
    rintro e he ⟨reason, hm⟩
    cases e with
    | handleHold => cases hm
    | resumeHoldFires now => cases hm
    | _ => cases he
  refine ⟨⟨?_, fun h => absurd h (hpause he)⟩, ?_⟩
  · cases e with
    | handleHold =>
      intro hw hrun
      simp only [Sys.step, Sys.handleHold] at hrun ⊢
      split_ifs with h
      · exact Nat.succ_pos _
      · rw [if_neg h] at hrun
        exact absurd hrun h
    | resumeHoldFires now =>
      simp only [Sys.step, Sys.resumeHoldFires]
      cases hk : s.mgmt.mResumeHandler with
      | zero => exact hs
      | succ k =>
        dsimp only
        split_ifs with h
        · exact resumable_of_not_waiting rfl
        · exact fun _ hrun => absurd hrun h
    | _ => cases he
  · intro hr
    cases e with
    | handleHold => cases hr
    | resumeHoldFires now => cases hr
    | _ => cases he

theorem notStuck_iff {s : Sys} (e : Event) (hs : Resumable s) : NotStuck s e ↔ ResumeNeeded s e := by
  cases he : e.isReceived with
  | true => exact notStuck_received he hs
  | false =>
    obtain ⟨h1, h2⟩ := notStuck_management he hs
    exact iff_of_true h1 h2

/-! ## Runs -/

theorem Initial.resumable {s : Sys} (hs : Initial s) : Resumable s := by
  intro _ hrun
  have hdev : s.shouldBeRunning = false := by
    unfold Sys.shouldBeRunning
    rw [hs.1]
    rfl
  rw [hdev] at hrun
  cases hrun

/-- **No event of a run leaves a hold stuck exactly when the user resumes only a VPN that is
paused.** -/
theorem notStuck_iff_along (s : Sys) (hs : Initial s) (es : List Event) :
    Along Sys.step NotStuck s es ↔ Along Sys.step ResumeNeeded s es :=
  along_congr (I := Resumable) (fun _ e hI => notStuck_iff e hI) (fun _ _ _ h => h.1) es s
    hs.resumable

/-- The user pauses and resumes while OpenVPN waits on hold. -/
theorem notStuck_iff_along_pause :
    Initial {} ∧
    Along Sys.step ResumeNeeded {}
      [.networkStateChange (some ⟨.connected, 1, none⟩) true 0, .handleHold, .userPause true 1,
        .userPause false 2] ∧
    Along Sys.step NotStuck {}
      [.networkStateChange (some ⟨.connected, 1, none⟩) true 0, .handleHold, .userPause true 1,
        .userPause false 2] :=
  ⟨⟨rfl, rfl, rfl⟩, by decide, (notStuck_iff_along {} ⟨rfl, rfl, rfl⟩ _).mpr (by decide)⟩

/-- OpenVPN waits on hold with its resume callback queued; resuming a VPN that is not paused cancels
the callback. -/
theorem stuck_after_user_resume :
    ¬ ∀ s : Sys, Initial s → ∀ es, Along Sys.step NotStuck s es := by
  intro h
  have hrun := h {} ⟨rfl, rfl, rfl⟩
    [.networkStateChange (some ⟨.connected, 1, none⟩) true 0, .handleHold, .userPause false 1]
  have hstuck : ¬ Resumable (run Sys.step {}
      [.networkStateChange (some ⟨.connected, 1, none⟩) true 0, .handleHold, .userPause false 1]) := by
    decide
  exact hstuck hrun.2.2.1.1

end VpnCore.Hold
