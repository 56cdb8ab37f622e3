import VpnCore.Bind.Model

/-!
# VpnCore.Bind.Intent — which calls the user asked for

The request is forgotten at bind time: `onServiceConnected` looks only at the last reported state,
and a permission answer connects whatever was requested since the dialog was opened.  The two
`StepAllowed` predicates say when these callbacks still agree with the requests; `calls_iff_along`
says that in a run all calls are intended exactly when all its callbacks do.
-/

namespace VpnCore.Bind

open VpnCore.Lib

@[simp] theorem intended_request (r : Request) (l : Option Request) :
    (Call.mk r .request l).Intended ↔ (r = .connect → l = some .connect) := by
  simp [Call.Intended]

@[simp] theorem intended_bind_connect (o l : Option Request) :
    (Call.mk .connect (.bind o) l).Intended ↔ o = some .connect ∧ l = some .connect := by
  simp [Call.Intended, and_comm]

@[simp] theorem intended_bind_disconnect (o l : Option Request) :
    (Call.mk .disconnect (.bind o) l).Intended ↔ o = some .disconnect := by
  simp [Call.Intended]

@[simp] theorem intended_activityResult (l : Option Request) :
    (Call.mk .connect .activityResult l).Intended ↔ l = some .connect := by
  simp [Call.Intended]

@[simp] theorem intended_connectFail (l : Option Request) :
    (Call.mk .disconnect .connectFail l).Intended := by
  simp [Call.Intended]

/-! ## `OpenVPNOperation` -/

namespace OpenVPN

/-- A callback that handles a pending bind finds the state that belongs to the request the bind was
started for, and neither it nor a permission answer connects after a later disconnect request. -/
def StepAllowed (s : State) : Event → Prop
  | .onServiceConnected granted destroyed =>
    s.mNeedBindAfterHandle = true →
      (s.isConnecting = true → s.bound = some .disconnect) ∧
      (s.isConnecting = false → granted = true → destroyed = false →
        s.bound = some .connect ∧ s.lastRequest = some .connect)
  | .onActivityResult ok destroyed =>
    ok = true → destroyed = false → s.mVPN = true → s.lastRequest = some .connect
  | _ => True

/-- The calls of a step, judged. -/
abbrev Calls (s s' : State) (p : Prop) : Prop := Emits State.calls Call.Intended s s' p

theorem calls_onActivityResult (s : State) (ok destroyed : Bool) (cause : Cause) :
    Calls s (s.onActivityResult ok destroyed cause)
      (ok = true → destroyed = false → s.mVPN = true →
        (Call.mk .connect cause s.lastRequest).Intended) := by
  unfold State.onActivityResult
  by_cases hok : ok = true
  · rw [if_pos hok]
    split_ifs with hb
    · refine Emits.none rfl fun _ hd hv => ?_
      simp [hd, hv] at hb
    · refine (Emits.single rfl).congr ?_
      simp only [Bool.or_eq_true, Bool.not_eq_true', not_or, Bool.not_eq_true, Bool.not_eq_false] at hb
      simp [hok, hb.1, hb.2]
  · rw [if_neg hok]
    exact Emits.none rfl fun h => absurd h hok

theorem calls_startConnect (s : State) (granted destroyed : Bool) (cause : Cause) :
    Calls s (s.startConnect granted destroyed cause)
      (granted = true → destroyed = false → s.mVPN = true →
        (Call.mk .connect cause s.lastRequest).Intended) := by
  unfold State.startConnect
  split_ifs with hg
  · exact (calls_onActivityResult s true destroyed cause).congr (by simp [hg])
  · exact Emits.none rfl fun h => absurd h hg

theorem calls_disconnect (s : State) (cause : Cause) :
    Calls s (s.disconnect cause)
      (s.mVPN = true → (Call.mk .disconnect cause s.lastRequest).Intended) := by
  unfold State.disconnect
  split_ifs with hv
  · exact (Emits.single rfl).congr (by simp [hv])
  · exact Emits.none rfl fun h => absurd h hv

theorem calls_onServiceConnected (s : State) (granted destroyed : Bool) :
    Calls s (s.onServiceConnected granted destroyed)
      (StepAllowed s (.onServiceConnected granted destroyed)) := by
  unfold State.onServiceConnected StepAllowed
  by_cases hn : s.mNeedBindAfterHandle = true
  · rw [if_pos hn]
    by_cases hc : s.isConnecting = true
    · rw [if_pos hc]
      exact ((calls_disconnect _ _).of_log rfl).congr (by simp [hn, hc])
    · rw [if_neg hc]
      exact ((calls_startConnect _ _ _ _).of_log rfl).congr (by simp [hn, hc])
  · rw [if_neg hn]
    exact Emits.none rfl fun h => absurd h hn

theorem calls_step (s : State) (e : Event) : Calls s (s.step e) (StepAllowed s e) := by
  cases e with
  | connect granted destroyed =>
    exact ((calls_startConnect _ granted destroyed .request).of_log rfl).congr
      (by simp [StepAllowed])
  | disconnect =>
    exact ((calls_disconnect _ .request).of_log rfl).congr (by simp [StepAllowed])
  | onServiceConnected granted destroyed => exact calls_onServiceConnected s granted destroyed
  | onServiceDisconnected => exact Emits.none rfl trivial
  | onActivityResult ok destroyed =>
    exact (calls_onActivityResult s ok destroyed .activityResult).congr (by simp [StepAllowed])
  | stateChange state => exact Emits.none rfl trivial

end OpenVPN

/-! ## `Ikev2VPNOperation` -/

namespace Ikev2

/-- As for `OpenVPNOperation`; here a connect also needs a profile and no permission dialog that is
still open. -/
def StepAllowed (s : State) : Event → Prop
  | .onServiceConnected profile prepare =>
    s.mNeedBindAfterHandle = true →
      (s.isConnecting = true → s.bound = some .disconnect) ∧
      (s.isConnecting = false → profile = true → prepare = .granted → s.mWaitingForResult = false →
        s.bound = some .connect ∧ s.lastRequest = some .connect)
  | .onActivityResult own ok =>
    own = true → ok = true → s.mProfileInfo = true → s.mVPN = true → s.lastRequest = some .connect
  | _ => True

/-- The calls of a step, judged. -/
abbrev Calls (s s' : State) (p : Prop) : Prop := Emits State.calls Call.Intended s s' p

theorem calls_onActivityResult (s : State) (own ok : Bool) (cause : Cause) :
    Calls s (s.onActivityResult own ok cause)
      (own = true → ok = true → s.mProfileInfo = true → s.mVPN = true →
        (Call.mk .connect cause s.lastRequest).Intended) := by
  unfold State.onActivityResult
  dsimp only
  split_ifs with h
  · simp only [Bool.and_eq_true] at h
    exact (Emits.single rfl).congr (by simp [h])
  · refine Emits.none rfl fun h1 h2 h3 h4 => ?_
    simp [h1, h2, h3, h4] at h

theorem calls_startVpnProfile (s : State) (profile : Bool) (prepare : Prepare) (cause : Cause) :
    Calls s (s.startVpnProfile profile prepare cause)
      (profile = true → prepare = .granted → s.mWaitingForResult = false → s.mVPN = true →
        (Call.mk .connect cause s.lastRequest).Intended) := by
  unfold State.startVpnProfile State.prepareVpnService
  by_cases hp : profile = true
  · rw [if_pos hp]
    by_cases hw : s.mWaitingForResult = true
    · rw [if_pos hw]
      exact Emits.none rfl fun _ _ h => absurd hw (by simp [h])
    · rw [if_neg hw]
      cases prepare with
      | granted =>
        exact ((calls_onActivityResult _ true true cause).of_log rfl).congr (by simp [hp, hw])
      | dialog => exact Emits.none rfl fun _ h => by cases h
      | noDialog => exact Emits.none rfl fun _ h => by cases h
      | unsupported => exact Emits.none rfl fun _ h => by cases h
  · rw [if_neg hp]
    exact Emits.none rfl fun h => absurd h hp

theorem calls_disconnect (s : State) (cause : Cause) :
    Calls s (s.disconnect cause)
      (s.mVPN = true → (Call.mk .disconnect cause s.lastRequest).Intended) := by
  unfold State.disconnect
  by_cases hv : s.mVPN = true
  · rw [if_pos hv]
    exact (Emits.single rfl).congr (by simp [hv])
  · rw [if_neg hv]
    refine Emits.none ?_ fun h => absurd h hv
    split_ifs <;> rfl

theorem calls_onServiceConnected (s : State) (profile : Bool) (prepare : Prepare) :
    Calls s (s.onServiceConnected profile prepare)
      (StepAllowed s (.onServiceConnected profile prepare)) := by
  unfold State.onServiceConnected StepAllowed
  by_cases hn : s.mNeedBindAfterHandle = true
  · rw [if_pos hn]
    by_cases hc : s.isConnecting = true
    · rw [if_pos hc]
      exact ((calls_disconnect _ _).of_log rfl).congr (by simp [hn, hc])
    · rw [if_neg hc]
      exact ((calls_startVpnProfile _ _ _ _).of_log rfl).congr (by simp [hn, hc])
  · rw [if_neg hn]
    exact Emits.none rfl fun h => absurd h hn

theorem calls_connect (s : State) (destroyed profile : Bool) (prepare : Prepare)
    (h : s.lastRequest = some .connect) : Calls s (s.connect destroyed profile prepare) True := by
  unfold State.connect
  split_ifs
  · exact (calls_startVpnProfile s profile prepare .request).congr (by simp [h])
  · exact Emits.none rfl trivial

theorem calls_stateChange (s : State) (state : VPNState) : Calls s (s.stateChange state) True := by
  unfold State.stateChange
  split_ifs
  · exact (calls_disconnect s .connectFail).congr (by simp)
  · exact Emits.none rfl trivial
  · exact Emits.none rfl trivial

theorem calls_step (s : State) (e : Event) : Calls s (s.step e) (StepAllowed s e) := by
  cases e with
  | connect destroyed profile prepare =>
    exact (calls_connect { s with lastRequest := some .connect } destroyed profile prepare
      rfl).of_log rfl
  | disconnect =>
    exact ((calls_disconnect _ .request).of_log rfl).congr (by simp [StepAllowed])
  | onServiceConnected profile prepare => exact calls_onServiceConnected s profile prepare
  | onServiceDisconnected => exact Emits.none rfl trivial
  | onActivityResult own ok =>
    exact (calls_onActivityResult s own ok .activityResult).congr (by simp [StepAllowed])
  | stateChange state => exact calls_stateChange s state

end Ikev2

/-! ## Runs -/

/-- **All calls of a run are intended exactly when all its callbacks are allowed**, for a new
operation of either kind. -/
theorem calls_iff_along (es : List OpenVPN.Event) (fs : List Ikev2.Event) :
    ((∀ c ∈ (run OpenVPN.State.step {} es).calls, c.Intended) ↔
      Along OpenVPN.State.step OpenVPN.StepAllowed {} es) ∧
    ((∀ c ∈ (run Ikev2.State.step {} fs).calls, c.Intended) ↔
      Along Ikev2.State.step Ikev2.StepAllowed {} fs) := by
  constructor
  · rw [run_log_iff OpenVPN.calls_step es {}]
    simp
  · rw [run_log_iff Ikev2.calls_step fs {}]
    simp

/-- Both operations mix the requests up: a disconnect request while nothing is bound and the
reported state is `DISCONNECTED` binds the service and then connects, and a connect request whose
bind is answered after a `RECONNECT` report disconnects. -/
theorem requests_mixed_up :
    ¬ (∀ es, ∀ c ∈ (run OpenVPN.State.step {} es).calls, c.Intended) ∧
    ¬ (∀ es, ∀ c ∈ (run Ikev2.State.step {} es).calls, c.Intended) := by
  constructor
  · intro h
    have := h [.disconnect, .onServiceConnected true false]
    revert this
    decide
  · intro h
    have := h [.connect false true .granted, .stateChange .reconnect,
      .onServiceConnected true .granted]
    revert this
    decide

end VpnCore.Bind
