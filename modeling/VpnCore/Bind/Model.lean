import VpnCore.Lib.Runs

/-!
# VpnCore.Bind.Model — the connect/disconnect buttons and the asynchronous service binding

`OpenVPNOperation` and `Ikev2VPNOperation` turn the user's requests into calls on the bound
`VPNService`.  When the service is not bound they bind it first and choose what to do in
`onServiceConnected`, from the last state reported.  What Android decides (the outcome of
`VpnService.prepare`, whether the service object is already destroyed, whether a profile is
configured) is part of the event.

Ghost fields: `lastRequest` is the user's latest request, `bound` the request for which the latest
bind was started (the `origin` the source passes for its log), and `calls` the calls made on `mVPN`.
-/

namespace VpnCore.Bind

open VpnCore.Lib

/-- `IVPN.VPNState`. -/
inductive VPNState
  | connecting
  | connected
  | disconnected
  | reconnect
  | connectFail
  deriving DecidableEq

/-- What a call asks of the service. -/
inductive Request
  | connect
  | disconnect
  deriving DecidableEq

/-- What made the operation call `mVPN.connect` or `mVPN.disconnect`. -/
inductive Cause
  /-- the request itself -/
  | request
  /-- the callback of a bind that was started for `origin` -/
  | bind (origin : Option Request)
  /-- the answer of the permission dialog -/
  | activityResult
  /-- a `CONNECT_FAIL` report -/
  | connectFail
  deriving DecidableEq

/-- A call on `mVPN`, with the user's latest request at that moment. -/
structure Call where
  action : Request
  cause : Cause
  lastRequest : Option Request
  deriving DecidableEq

/-- The call does what the user asked for: a connect follows a connect request that is later than
every disconnect request, a disconnect comes from a disconnect request or a failure report, and a
bind performs what it was started for. -/
def Call.Intended (c : Call) : Prop :=
  (c.action = .connect → c.lastRequest = some .connect) ∧
  (c.action = .disconnect →
    c.cause = .request ∨ c.cause = .connectFail ∨ c.cause = .bind (some .disconnect)) ∧
  (∀ o, c.cause = .bind o → o = some c.action)

instance (c : Call) : Decidable c.Intended :=
  have : Decidable (∀ o, c.cause = .bind o → o = some c.action) :=
    match h : c.cause with
    | .bind o => decidable_of_iff (o = some c.action) (by simp)
    | .request => isTrue (by simp)
    | .activityResult => isTrue (by simp)
    | .connectFail => isTrue (by simp)
  inferInstanceAs (Decidable (_ ∧ _ ∧ _))

/-! ## `OpenVPNOperation` -/

namespace OpenVPN

/-- What `OpenVPNOperation` keeps. -/
structure State where
  /-- `mVPN != null` -/
  mVPN : Bool := false
  mNeedBindAfterHandle : Bool := false
  mCurrentState : VPNState := .disconnected
  lastRequest : Option Request := none
  bound : Option Request := none
  calls : List Call := []
  deriving DecidableEq

/-- `granted`: `VpnService.prepare` returns null; otherwise the permission dialog is shown and its
answer arrives as an `onActivityResult`.  `destroyed`: the answer of `mVPN.hasDestroy`. -/
inductive Event
  | connect (granted destroyed : Bool)
  | disconnect
  | onServiceConnected (granted destroyed : Bool)
  | onServiceDisconnected
  | onActivityResult (ok destroyed : Bool)
  | stateChange (state : VPNState)
  deriving DecidableEq

def State.call (s : State) (action : Request) (cause : Cause) : State :=
  { s with calls := s.calls ++ [⟨action, cause, s.lastRequest⟩] }

def State.bindVPNService (s : State) (origin : Request) (needBindAfterHandle : Bool) : State :=
  { s with mNeedBindAfterHandle := needBindAfterHandle, bound := some origin }

/-- `isConnecting` (which covers `isConnected`). -/
def State.isConnecting (s : State) : Bool :=
  s.mCurrentState == .connecting || s.mCurrentState != .disconnected

/-- `onActivityResult` for the own request code. -/
def State.onActivityResult (s : State) (ok destroyed : Bool) (cause : Cause) : State :=
  if ok then
    if !s.mVPN || destroyed then s.bindVPNService .connect true
    else s.call .connect cause
  else s

def State.startConnect (s : State) (granted destroyed : Bool) (cause : Cause) : State :=
  if granted then s.onActivityResult true destroyed cause else s

def State.disconnect (s : State) (cause : Cause) : State :=
  if s.mVPN then { s.call .disconnect cause with mVPN := false }
  else s.bindVPNService .disconnect true

def State.onServiceConnected (s : State) (granted destroyed : Bool) : State :=
  let s₁ := { s with mVPN := true }
  if s.mNeedBindAfterHandle then
    let s₂ := { s₁ with mNeedBindAfterHandle := false }
    if s.isConnecting then s₂.disconnect (.bind s.bound)
    else s₂.startConnect granted destroyed (.bind s.bound)
  else s₁

def State.step (s : State) : Event → State
  | .connect granted destroyed =>
    { s with lastRequest := some .connect }.startConnect granted destroyed .request
  | .disconnect => { s with lastRequest := some .disconnect }.disconnect .request
  | .onServiceConnected granted destroyed => s.onServiceConnected granted destroyed
  | .onServiceDisconnected => { s with mVPN := false }
  | .onActivityResult ok destroyed => s.onActivityResult ok destroyed .activityResult
  | .stateChange state => { s with mCurrentState := state }

end OpenVPN

/-! ## `Ikev2VPNOperation` -/

namespace Ikev2

structure State where
  /-- `mVPN != null` -/
  mVPN : Bool := false
  mNeedBindAfterHandle : Bool := false
  mCurrentState : VPNState := .disconnected
  /-- `mProfileInfo != null` -/
  mProfileInfo : Bool := false
  mWaitingForResult : Bool := false
  lastRequest : Option Request := none
  bound : Option Request := none
  calls : List Call := []
  deriving DecidableEq

/-- The outcome of `VpnService.prepare` in `prepareVpnService`. -/
inductive Prepare
  /-- permission already granted -/
  | granted
  /-- the permission dialog is shown -/
  | dialog
  /-- the dialog activity does not exist on the device -/
  | noDialog
  /-- `prepare` throws -/
  | unsupported
  deriving DecidableEq

/-- `profile`: `Ikev2Config.getVpnProfile` finds one.  `own`: the request code is
`PREPARE_VPN_SERVICE`. -/
inductive Event
  | connect (destroyed profile : Bool) (prepare : Prepare)
  | disconnect
  | onServiceConnected (profile : Bool) (prepare : Prepare)
  | onServiceDisconnected
  | onActivityResult (own ok : Bool)
  | stateChange (state : VPNState)
  deriving DecidableEq

def State.call (s : State) (action : Request) (cause : Cause) : State :=
  { s with calls := s.calls ++ [⟨action, cause, s.lastRequest⟩] }

def State.bindVPNService (s : State) (origin : Request) (needBindAfterHandle : Bool) : State :=
  { s with mNeedBindAfterHandle := needBindAfterHandle, bound := some origin }

def State.isConnecting (s : State) : Bool :=
  s.mCurrentState == .connecting || s.mCurrentState != .disconnected

def State.onActivityResult (s : State) (own ok : Bool) (cause : Cause) : State :=
  let s₁ := { s with mWaitingForResult := false }
  if own && ok && s.mProfileInfo && s.mVPN then s₁.call .connect cause else s₁

def State.prepareVpnService (s : State) (prepare : Prepare) (cause : Cause) : State :=
  if s.mWaitingForResult then { s with mProfileInfo := true } else
  match prepare with
  | .unsupported => s
  | .granted => { s with mProfileInfo := true }.onActivityResult true true cause
  | .dialog => { s with mProfileInfo := true, mWaitingForResult := true }
  | .noDialog => { s with mProfileInfo := true, mWaitingForResult := false }

def State.startVpnProfile (s : State) (profile : Bool) (prepare : Prepare) (cause : Cause) : State :=
  if profile then s.prepareVpnService prepare cause else s

def State.connect (s : State) (destroyed profile : Bool) (prepare : Prepare) : State :=
  if s.mVPN && !destroyed then s.startVpnProfile profile prepare .request
  else { s with mVPN := false }.bindVPNService .connect true

def State.disconnect (s : State) (cause : Cause) : State :=
  if s.mVPN then { s.call .disconnect cause with mVPN := false }
  else if s.mCurrentState = .connecting ∨ s.mCurrentState = .connected then
    s.bindVPNService .disconnect true
  else s

def State.onServiceConnected (s : State) (profile : Bool) (prepare : Prepare) : State :=
  let s₁ := { s with mVPN := true }
  if s.mNeedBindAfterHandle then
    let s₂ := { s₁ with mNeedBindAfterHandle := false }
    if s.isConnecting then s₂.disconnect (.bind s.bound)
    else s₂.startVpnProfile profile prepare (.bind s.bound)
  else s₁

/-- A failed connection is only disconnected: the state stays as it was reported before. -/
def State.stateChange (s : State) (state : VPNState) : State :=
  if state = .connectFail then s.disconnect .connectFail
  else if state = .disconnected then { s with mVPN := false, mCurrentState := state }
  else { s with mCurrentState := state }

def State.step (s : State) : Event → State
  | .connect destroyed profile prepare =>
    { s with lastRequest := some .connect }.connect destroyed profile prepare
  | .disconnect => { s with lastRequest := some .disconnect }.disconnect .request
  | .onServiceConnected profile prepare => s.onServiceConnected profile prepare
  | .onServiceDisconnected => { s with mVPN := false }
  | .onActivityResult own ok => s.onActivityResult own ok .activityResult
  | .stateChange state => s.stateChange state

end Ikev2

end VpnCore.Bind
