import VpnCore.Lib.Runs

/-!
# VpnCore.Hold.Model — pausing and resuming the OpenVPN process

`DeviceStateReceiver` keeps three flags (network, screen, user pause) and tells the management
thread to pause or to resume; `OpenVpnManagementThread` keeps the hold flag and the resume
callback and writes the commands.  Each handler below is one handler of the source; a handler of the
receiver gives its fields after the event and the calls that it makes.  A run interleaves the handlers
arbitrarily.  Log texts and the state string shown to the user are left out.

The ghost field `released` records, for every `hold release`, what `shouldBeRunning` answered when
the release was decided.
-/

namespace VpnCore.Hold

open VpnCore.Lib

/-- `DeviceStateReceiver.connectState`. -/
inductive ConnectState
  | shouldBeConnected
  | pendingDisconnect
  | disconnected
  deriving DecidableEq

/-- `OpenVPNManagement.pauseReason`. -/
inductive PauseReason
  | noNetwork
  | userPause
  | screenOff
  deriving DecidableEq

/-- `NetworkInfo.State`. -/
inductive NetState
  | connecting
  | connected
  | suspended
  | disconnecting
  | disconnected
  | unknown
  deriving DecidableEq

/-- What `networkStateChange` reads of an `android.net.NetworkInfo`. -/
structure NetworkInfo where
  state : NetState
  type : ℤ
  extraInfo : Option String
  deriving DecidableEq

structure Datapoint where
  timestamp : ℤ
  data : ℤ
  deriving DecidableEq

/-- The fields of `DeviceStateReceiver`; `mDisconnectHandler` counts the queued
`mDelayDisconnectRunnable`s. -/
structure Device where
  network : ConnectState := .disconnected
  screen : ConnectState := .shouldBeConnected
  userpause : ConnectState := .shouldBeConnected
  trafficdata : List Datapoint := []
  lastConnectedNetwork : Option NetworkInfo := none
  mDisconnectHandler : ℕ := 0
  deriving DecidableEq

/-- The fields of `OpenVpnManagementThread` that the hold logic uses; `mResumeHandler` counts the
queued `mResumeHoldRunnable`s. -/
structure Management where
  mWaitingForRelease : Bool := false
  mLastHoldRelease : ℤ := 0
  lastPauseReason : PauseReason := .noNetwork
  mResumeHandler : ℕ := 0
  deriving DecidableEq

/-- The device and the management thread. -/
structure Sys where
  dev : Device := {}
  mgmt : Management := {}
  /-- The commands written to the management socket, oldest first. -/
  sent : List String := []
  /-- Ghost: the answer of `shouldBeRunning` at each decided release. -/
  released : List Bool := []
  deriving DecidableEq

def trafficWindow : ℤ := 60

def trafficLimit : ℤ := 64 * 1024

def mBytecountInterval : ℕ := 2

/-! ## `DeviceStateReceiver`: the combined state -/

/-- None of the three reasons to pause. -/
def Device.shouldBeConnected (d : Device) : Bool :=
  d.screen == .shouldBeConnected && d.userpause == .shouldBeConnected &&
    d.network == .shouldBeConnected

def Device.getPauseReason (d : Device) : PauseReason :=
  if d.userpause = .disconnected then .userPause
  else if d.screen = .disconnected then .screenOff
  else if d.network = .disconnected then .noNetwork
  else .userPause

/-- `shouldBeRunning` of the receiver, which is also what the management thread asks (the receiver
registers itself as pause callback in its constructor). -/
def Sys.shouldBeRunning (s : Sys) : Bool := s.dev.shouldBeConnected

/-! ## `OpenVpnManagementThread` -/

def Sys.managmentCommand (s : Sys) (cmd : String) : Sys := { s with sent := s.sent ++ [cmd] }

/-- Two releases in a row are kept at least 3 s apart by sleeping, so the clock may have advanced
when `mLastHoldRelease` is written. -/
def releaseTime (m : Management) (now : ℤ) : ℤ :=
  if now - m.mLastHoldRelease < 5000 then now + 3000 else now

def Sys.releaseHoldCmd (s : Sys) (now : ℤ) : Sys :=
  { s with
    mgmt := { s.mgmt with
      mResumeHandler := 0
      mWaitingForRelease := false
      mLastHoldRelease := releaseTime s.mgmt now }
    sent := s.sent ++ ["hold release\n", s!"bytecount {mBytecountInterval}\n", "state on\n"]
    released := s.released ++ [s.shouldBeRunning] }

def Sys.releaseHold (s : Sys) (now : ℤ) : Sys :=
  if s.mgmt.mWaitingForRelease then s.releaseHoldCmd now else s

/-- Restarts the connection, unless it waits for a release. -/
def Sys.signalusr1 (s : Sys) : Sys :=
  let s' := { s with mgmt := { s.mgmt with mResumeHandler := 0 } }
  if s.mgmt.mWaitingForRelease then s' else s'.managmentCommand "signal SIGUSR1\n"

def Sys.pause (s : Sys) (reason : PauseReason) : Sys :=
  ({ s with mgmt := { s.mgmt with lastPauseReason := reason } }).signalusr1

def Sys.resume (s : Sys) (now : ℤ) : Sys :=
  let s' := s.releaseHold now
  { s' with mgmt := { s'.mgmt with lastPauseReason := .noNetwork } }

def Sys.networkChange (s : Sys) (samenetwork : Bool) (now : ℤ) : Sys :=
  if s.mgmt.mWaitingForRelease then s.releaseHold now
  else if samenetwork then s.managmentCommand "network-change samenetwork\n"
  else s.managmentCommand "network-change\n"

/-- `handleHold`: the wait time only delays the callback. -/
def Sys.handleHold (s : Sys) : Sys :=
  let s' := { s with mgmt := { s.mgmt with mWaitingForRelease := true } }
  if s.shouldBeRunning then
    { s' with mgmt := { s'.mgmt with mResumeHandler := s.mgmt.mResumeHandler + 1 } }
  else s'

/-- One queued `mResumeHoldRunnable` runs. -/
def Sys.resumeHoldFires (s : Sys) (now : ℤ) : Sys :=
  match s.mgmt.mResumeHandler with
  | 0 => s
  | k + 1 =>
    let s' := { s with mgmt := { s.mgmt with mResumeHandler := k } }
    if s'.shouldBeRunning then s'.releaseHoldCmd now else s'

/-! ## `DeviceStateReceiver`: the handlers -/

/-- A call to the `OpenVPNManagement` interface. -/
inductive Call
  | pause (reason : PauseReason)
  | resume
  | networkChange (samenetwork : Bool)
  deriving DecidableEq

namespace Device

variable (d : Device)

/-- One queued `mDelayDisconnectRunnable` runs. -/
def delayDisconnect : Device × List Call :=
  match d.mDisconnectHandler with
  | 0 => (d, [])
  | k + 1 =>
    let d₀ := { d with mDisconnectHandler := k }
    if d.network = .pendingDisconnect then
      let d₁ := { d₀ with
        network := .disconnected
        screen := if d.screen = .pendingDisconnect then .disconnected else d.screen }
      (d₁, [.pause d₁.getPauseReason])
    else (d₀, [])

def updateByteCount (diffIn diffOut now : ℤ) : Device × List Call :=
  if d.screen ≠ .pendingDisconnect then (d, []) else
  let data := (d.trafficdata ++ [Datapoint.mk now (diffIn + diffOut)]).dropWhile
    (fun p => p.timestamp ≤ now - trafficWindow * 1000)
  let d₁ := { d with trafficdata := data }
  if (data.map (·.data)).sum < trafficLimit then
    let d₂ := { d₁ with screen := .disconnected }
    (d₂, [.pause d₂.getPauseReason])
  else (d₁, [])

def userPause (pause : Bool) : Device × List Call :=
  if pause then
    let d₁ := { d with userpause := .disconnected }
    (d₁, [.pause d₁.getPauseReason])
  else
    let d₁ := { d with userpause := .shouldBeConnected }
    if d₁.shouldBeConnected && !d.shouldBeConnected then (d₁, [.resume])
    -- update the reason why we currently paused
    else (d₁, [.pause d₁.getPauseReason])

/-- `ACTION_SCREEN_OFF`, with the value of the `screenoff` setting. -/
def screenOff (screenOffPause : Bool) (now : ℤ) : Device × List Call :=
  if screenOffPause then
    -- `fillTrafficData`
    let data := d.trafficdata ++ [⟨now, trafficLimit⟩]
    if d.network = .disconnected ∨ d.userpause = .disconnected then
      ({ d with screen := .disconnected, trafficdata := data }, [])
    else ({ d with screen := .pendingDisconnect, trafficdata := data }, [])
  else (d, [])

/-- `ACTION_SCREEN_ON`; `mDelayDisconnectRunnable` is taken out of the queue. -/
def screenOn : Device × List Call :=
  let d₁ := { d with screen := .shouldBeConnected, mDisconnectHandler := 0 }
  if d₁.shouldBeConnected ≠ d.shouldBeConnected then (d₁, [.resume])
  else if d₁.shouldBeConnected then (d₁, [])
  else (d₁, [.pause d₁.getPauseReason])

/-- Same type and same extra info as the network of the last connection. -/
def sameNetwork (info : NetworkInfo) : Bool :=
  match d.lastConnectedNetwork with
  | none => false
  | some last => last.type == info.type && last.extraInfo == info.extraInfo

/-- The branch of `networkStateChange` for a connected network.  `lastConnectedNetwork` is written after the
call, which does not read it. -/
def networkConnected (info : NetworkInfo) : Device × List Call :=
  let pending := d.network == ConnectState.pendingDisconnect
  let same := d.sameNetwork info
  if pending && same then
    -- reprotect the sockets just to be sure; the combined state is not consulted here
    ({ d with network := .shouldBeConnected, mDisconnectHandler := 0 }, [.networkChange true])
  else
    let d₁ := { d with
      network := .shouldBeConnected
      screen := if d.screen = ConnectState.pendingDisconnect then .disconnected else d.screen }
    if d₁.shouldBeConnected then
      ({ d₁ with mDisconnectHandler := 0, lastConnectedNetwork := some info },
        [if pending || !same then .networkChange same else .resume])
    else ({ d₁ with lastConnectedNetwork := some info }, [])

/-- `networkStateChange`, with the active network and the `netchangereconnect` setting. -/
def networkStateChange (networkInfo : Option NetworkInfo) (sendusr1 : Bool) : Device × List Call :=
  match networkInfo with
  | some info => if info.state = .connected then d.networkConnected info else (d, [])
  | none =>
    if sendusr1 then
      ({ d with network := .pendingDisconnect, mDisconnectHandler := d.mDisconnectHandler + 1 }, [])
    else (d, [])

end Device

/-- The management thread answers a call. -/
def Sys.perform (now : ℤ) (s : Sys) : Call → Sys
  | .pause reason => s.pause reason
  | .resume => s.resume now
  | .networkChange samenetwork => s.networkChange samenetwork now

/-- The receiver has changed its fields, and the management thread answers its calls. -/
def Sys.answer (s : Sys) (now : ℤ) (r : Device × List Call) : Sys :=
  r.2.foldl (Sys.perform now) { s with dev := r.1 }

/-! ## Runs -/

/-- What can happen to the pair, each with the clock value the handler reads. -/
inductive Event
  | networkStateChange (networkInfo : Option NetworkInfo) (sendusr1 : Bool) (now : ℤ)
  | screenOff (screenOffPause : Bool) (now : ℤ)
  | screenOn (now : ℤ)
  | userPause (pause : Bool) (now : ℤ)
  | updateByteCount (diffIn diffOut now : ℤ)
  | delayDisconnectFires
  | handleHold
  | resumeHoldFires (now : ℤ)
  deriving DecidableEq

def Sys.step (s : Sys) : Event → Sys
  | .networkStateChange info usr1 now => s.answer now (s.dev.networkStateChange info usr1)
  | .screenOff b now => s.answer now (s.dev.screenOff b now)
  | .screenOn now => s.answer now s.dev.screenOn
  | .userPause b now => s.answer now (s.dev.userPause b)
  | .updateByteCount i o now => s.answer now (s.dev.updateByteCount i o now)
  -- `pause` does not read the clock
  | .delayDisconnectFires => s.answer 0 s.dev.delayDisconnect
  | .handleHold => s.handleHold
  | .resumeHoldFires now => s.resumeHoldFires now

/-- The states in which a receiver has just been constructed: its own fields are fresh, no resume
callback is queued, and OpenVPN may already be waiting on hold. -/
def Initial (s : Sys) : Prop :=
  s.dev = {} ∧ s.mgmt.mResumeHandler = 0 ∧ s.released = []

end VpnCore.Hold
