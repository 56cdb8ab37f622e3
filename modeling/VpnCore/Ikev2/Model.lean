import VpnCore.Lib.Runs

/-!
# VpnCore.Ikev2.Model — the threads of the IKEv2 service

`Ikev2VPNImpl` is shared by four kinds of threads: the main thread (start commands, the callbacks
posted to `mHandler`, `onDestroy`), the worker that runs `run`, charon's threads (`updateStatus`)
and the looper behind `mTimeoutHandle` (`mTimeoutRun`).  An event below is one step of one thread,
and a run interleaves them in any order.

The worker keeps the monitor of the service from the moment `wait()` returns until it waits again,
so `setNextProfile` is possible only while the worker waits or has returned (`Worker.free`); all
other threads go on meanwhile, so one pass of the worker is cut at its shared accesses, and so is
`mTimeoutRun`.  A posted callback is one step of the main thread.  Both handlers are first in,
first out: every delay is `TIME_OUT`.

Notifications, the log file, the blocking VPN interface, the settings handed to charon and the
certificate aliases are left out, and so is `InterruptedException` (no thread interrupts the worker).
-/

namespace VpnCore.Ikev2

open VpnCore.Lib

/-- `Ikev2VPNImpl.State`. -/
inductive State
  | disabled
  | connecting
  | connected
  | disconnecting
  deriving DecidableEq

/-- `Ikev2VPNImpl.ErrorState`. -/
inductive ErrorState
  | noError
  | authError
  | peerAuthError
  | lookupError
  | unreachableError
  | genericError
  | passwordMissing
  | certificateUnavailable
  deriving DecidableEq

/-- The `STATE_*` codes charon passes to `updateStatus`; `unknown` is any other one. -/
inductive Status
  | childSaUp
  | childSaDown
  | authError
  | peerAuthError
  | lookupError
  | unreachableError
  | certificateUnavailable
  | genericError
  | unknown
  deriving DecidableEq

/-- A callback posted to `mHandler`.  The number of a `startConnection` is ghost: it counts the
attempts. -/
inductive Change
  | setState (state : State)
  | setError (error : ErrorState)
  | startConnection (attempt : ℕ)
  | removeNotification
  deriving DecidableEq

/-- What `stateChange` tells the callbacks.  The numbers of a `connectFail` are ghost: the attempt
whose timer led to it, the latest attempt, and the latest attempt whose `startConnection` change was
applied. -/
inductive Report
  | connecting
  | connected
  | disconnected
  | connectFail (timer attempt applied : ℕ)
  deriving DecidableEq

/-- A message of `mTimeoutHandle` whose callback is `mTimeoutRun`; `attempt` is ghost. -/
structure Message where
  what : ℕ
  attempt : ℕ
  deriving DecidableEq

/-- `TIME_OUT_WHAT`. -/
def timeOutWhat : ℕ := 123

/-- `TIMEOUT_RETRIES`. -/
def timeoutRetries : ℕ := 2

/-- Where the worker is in `run`. -/
inductive Worker
  /-- In `wait()`, or about to test `mProfileUpdated`. -/
  | waiting
  /-- At the start of `stopCurrentConnection`. -/
  | resetting
  /-- About to set the state to `DISCONNECTING`. -/
  | stopping
  /-- About to set `mIsDisconnecting`. -/
  | marking
  | deinitializing
  /-- Behind `stopCurrentConnection`. -/
  | deciding
  | initializing
  | returned
  deriving DecidableEq

/-- Whether the monitor of the service is free. -/
def Worker.free : Worker → Bool
  | .waiting | .returned => true
  | _ => false

/-- Where the main thread is: `waking` and `joining` are in `onDestroy`, `destroyed` is behind it. -/
inductive Main
  | idle
  | waking
  | joining
  | destroyed
  deriving DecidableEq

/-- Where `mTimeoutRun` is: before its first test, in the failure branch (two steps), before its second
test, in the retry branch (two steps; the first with the value of `retries` that was read). -/
inductive Check
  | first
  | resetting
  | reporting
  | second
  | counting (retries : ℕ)
  | posting
  deriving DecidableEq

/-- An `Ikev2VPNImpl` after `onCreate`, with its threads. -/
structure Service (V : Type) where
  mCurrentProfile : Option V := none
  mNextProfile : Option V := none
  mProfileUpdated : Bool := false
  mIsDisconnecting : Bool := false
  mState : Option State := none
  mErrorState : Option ErrorState := none
  retries : ℕ := 0
  worker : Worker := .waiting
  main : Main := .idle
  mHandler : List Change := []
  mTimeoutHandle : List Message := []
  /-- The `mTimeoutRun` that is being run, with the attempt its timer belongs to. -/
  timeoutRun : Option (Check × ℕ) := none
  /-- Charon's threads are running. -/
  charon : Bool := false
  reports : List Report := []
  /-- Ghost: the number of calls of `setNextProfile`. -/
  requests : ℕ := 0
  /-- Ghost: the argument of the last of them. -/
  lastRequest : Option (Option V) := none
  /-- Ghost: that argument when `mProfileUpdated` was last cleared. -/
  cleared : Option (Option V) := none
  /-- Ghost: for each request the worker has handled, the profile and the `cleared` argument. -/
  served : List (Option V × Option (Option V)) := []
  /-- Ghost: the number of requests with a profile that the worker has taken. -/
  attempts : ℕ := 0
  /-- Ghost: the value of `requests` when the latest attempt was taken. -/
  attemptRequest : ℕ := 0
  /-- Ghost: the latest attempt whose `startConnection` change was applied. -/
  applied : ℕ := 0
  /-- Ghost: a `CONNECTED` was applied after that change. -/
  connected : Bool := false
  /-- Ghost: the number of times `mTimeoutRun` was started since that change. -/
  firings : ℕ := 0
  /-- Ghost: a call of `initializeCharon` has failed. -/
  initFailed : Bool := false
  /-- Ghost: for each `resetTimeout`, the number of callbacks still queued when it returned. -/
  resets : List ℕ := []
  deriving DecidableEq

variable {V : Type}

/-! ## Requests -/

def setNextProfile (s : Service V) (profile : Option V) : Service V :=
  { s with mNextProfile := profile, mProfileUpdated := true,
           requests := s.requests + 1, lastRequest := some profile }

/-- `mHandler.post`. -/
def post (s : Service V) (c : Change) : Service V := { s with mHandler := s.mHandler ++ [c] }

/-! ## The watchdog's timers -/

/-- `removeMessages(TIME_OUT_WHAT)`. -/
def removeMessages (queue : List Message) : List Message :=
  queue.filter fun m => m.what ≠ timeOutWhat

def resetTimeout (s : Service V) : Service V :=
  { s with mTimeoutHandle := removeMessages s.mTimeoutHandle, retries := 0,
           resets := s.resets ++ [(removeMessages s.mTimeoutHandle).length] }

/-- `sendMessageDelayed`; the looper accepts no message after `quitSafely`. -/
def sendMessage (s : Service V) (m : Message) : Service V :=
  if s.main = .destroyed then s else { s with mTimeoutHandle := s.mTimeoutHandle ++ [m] }

def startTimeout (s : Service V) (attempt : ℕ) : Service V := sendMessage s ⟨timeOutWhat, attempt⟩

def stateChange (s : Service V) (r : Report) : Service V := { s with reports := s.reports ++ [r] }

/-- The next step of the `mTimeoutRun` that is being run. -/
def mTimeoutRun (s : Service V) : Service V :=
  match s.timeoutRun with
  | none => s
  | some (.first, n) =>
    if s.mErrorState ≠ some .noError ∧ s.mState ≠ some .connected then
      { s with timeoutRun := some (.resetting, n) }
    else { s with timeoutRun := some (.second, n) }
  | some (.resetting, n) => { resetTimeout s with timeoutRun := some (.reporting, n) }
  | some (.reporting, n) =>
    { stateChange s (.connectFail n s.attempts s.applied) with timeoutRun := none }
  | some (.second, n) =>
    if s.mErrorState = some .noError ∧ s.mState ≠ some .connected then
      if s.retries < timeoutRetries then
        { s with timeoutRun := some (.counting s.retries, n) }
      else { s with timeoutRun := none }
    else { s with timeoutRun := none }
  | some (.counting r, n) => { s with retries := r + 1, timeoutRun := some (.posting, n) }
  -- postDelayed queues a message whose what is 0
  | some (.posting, n) => { sendMessage s ⟨0, n⟩ with timeoutRun := none }

/-- The looper of `mTimeoutHandle` goes on to the next message. -/
def takeMessage (s : Service V) : Service V :=
  match s.timeoutRun, s.mTimeoutHandle with
  | none, m :: rest =>
    { s with mTimeoutHandle := rest, timeoutRun := some (.first, m.attempt),
             firings := s.firings + 1 }
  | _, _ => s

/-! ## The callbacks on the main thread -/

def stateTransform (s : Service V) : Service V :=
  match s.mState with
  | some .connecting => stateChange s .connecting
  | some .connected => stateChange s .connected
  | some .disabled => stateChange s .disconnected
  | _ => s

/-- `mErrorState = NO_ERROR` where the connection is up. -/
def clearError (s : Service V) : Service V :=
  if s.mState = some .connected ∧ s.mErrorState ≠ some .noError then
    { s with mErrorState := some .noError }
  else s

def stateChanged (s : Service V) : Service V :=
  let s := clearError s
  if s.mState = some .connected then stateTransform (resetTimeout s)
  else if s.mState = some .disabled then stateTransform (resetTimeout s)
  else stateTransform s

/-- The callback of a posted change: the change itself and, where it came through
`notifyListeners`, `stateChanged`. -/
def Change.run (s : Service V) : Change → Service V
  | .setState state =>
    stateChanged (clearError { s with mState := some state,
                                      connected := s.connected || state = .connected })
  | .setError error => stateChanged { s with mErrorState := some error }
  | .startConnection n =>
    stateChanged (startTimeout { s with mState := some .connecting, mErrorState := some .noError,
                                        applied := n, connected := false, firings := 0 } n)
  | .removeNotification => s

/-! ## Charon's threads -/

def setErrorDisconnect (s : Service V) (error : ErrorState) : Service V :=
  if s.mIsDisconnecting then s else post s (.setError error)

def updateStatus (s : Service V) : Status → Service V
  | .childSaDown => if s.mIsDisconnecting then s else post s (.setState .connecting)
  | .childSaUp => post s (.setState .connected)
  | .authError => setErrorDisconnect s .authError
  | .peerAuthError => setErrorDisconnect s .peerAuthError
  | .lookupError => setErrorDisconnect s .lookupError
  | .unreachableError => setErrorDisconnect s .unreachableError
  | .certificateUnavailable => setErrorDisconnect s .certificateUnavailable
  | .genericError => setErrorDisconnect s .genericError
  | .unknown => s

/-! ## The worker -/

/-- How `initializeCharon` ends, and whether the profile then lacks its password. -/
inductive Outcome
  | failed
  | passwordMissing
  | initiated
  deriving DecidableEq

/-- The next step of `run`; the outcome is used only when `initializeCharon` returns. -/
def workerStep (s : Service V) (outcome : Outcome) : Service V :=
  match s.worker with
  | .waiting =>
    if s.mProfileUpdated then
      { s with mProfileUpdated := false, cleared := s.lastRequest, worker := .resetting }
    else s
  | .resetting =>
    { resetTimeout s with worker := if s.mCurrentProfile = none then .deciding else .stopping }
  | .stopping => { post s (.setState .disconnecting) with worker := .marking }
  | .marking => { s with mIsDisconnecting := true, worker := .deinitializing }
  | .deinitializing =>
    let s := { s with charon := false, mCurrentProfile := none, worker := .deciding }
    if s.mNextProfile = none then post s .removeNotification else s
  | .deciding =>
    match s.mNextProfile with
    | none =>
      { post s (.setState .disabled) with
        worker := .returned, served := s.served ++ [(none, s.cleared)] }
    | some profile =>
      { post s (.startConnection (s.attempts + 1)) with
        mCurrentProfile := some profile, mNextProfile := none, mIsDisconnecting := false,
        charon := true, worker := .initializing,
        attempts := s.attempts + 1, attemptRequest := s.requests }
  | .initializing =>
    let s := { s with worker := .waiting, served := s.served ++ [(s.mCurrentProfile, s.cleared)] }
    match outcome with
    | .failed =>
      { post (post s (.setError .genericError)) (.setState .disabled) with
        mCurrentProfile := none, charon := false, initFailed := true }
    | .passwordMissing => post s (.setError .passwordMissing)
    | .initiated => s
  | .returned => s

/-! ## Events -/

/-- What happens to the service. -/
inductive Event (V : Type)
  /-- `onStartCommand` with the profile of its intent, or none to disconnect. -/
  | startCommand (profile : Option V)
  /-- `onRevoke`, which the system may call on a thread of its own. -/
  | onRevoke
  /-- The main thread runs the callback at the head of `mHandler`. -/
  | callback
  /-- `onDestroy` up to its `setNextProfile` or its `join`. -/
  | onDestroy
  /-- `setNextProfile(null)` in `onDestroy` gets the monitor. -/
  | wake
  /-- `join` returns, and `quitSafely` drops the timers. -/
  | joined
  | worker (outcome : Outcome)
  | updateStatus (status : Status)
  /-- The looper takes the message at the head of `mTimeoutHandle`. -/
  | timeout
  /-- The next step of the `mTimeoutRun` that is being run. -/
  | timeoutRun
  deriving DecidableEq

/-- A step that its thread cannot take leaves the state as it is. -/
def step (s : Service V) : Event V → Service V
  | .startCommand profile =>
    if s.main = .idle ∧ s.worker.free then setNextProfile s profile else s
  | .onRevoke => if s.worker.free then setNextProfile s none else s
  | .callback =>
    if s.main = .idle ∨ s.main = .destroyed then
      match s.mHandler with
      | [] => s
      | c :: rest => c.run { s with mHandler := rest }
    else s
  | .onDestroy =>
    if s.main = .idle then
      if s.mState ≠ some .disabled then { s with main := .waking } else { s with main := .joining }
    else s
  | .wake =>
    if s.main = .waking ∧ s.worker.free then { setNextProfile s none with main := .joining } else s
  | .joined =>
    if s.main = .joining ∧ s.worker = .returned then
      { s with main := .destroyed, mTimeoutHandle := [] }
    else s
  | .worker outcome => workerStep s outcome
  | .updateStatus status => if s.charon then updateStatus s status else s
  | .timeout => takeMessage s
  | .timeoutRun => mTimeoutRun s

/-- The service when `onCreate` has returned. -/
def created : Service V := {}

/-- The attempts whose `startConnection` change is among the posted callbacks. -/
def startsOf (queue : List Change) : List ℕ :=
  queue.filterMap fun
    | .startConnection n => some n
    | _ => none

@[simp] theorem startsOf_nil : startsOf [] = [] := rfl

@[simp] theorem startsOf_append (q r : List Change) :
    startsOf (q ++ r) = startsOf q ++ startsOf r := List.filterMap_append

@[simp] theorem startsOf_cons_startConnection (n : ℕ) (q : List Change) :
    startsOf (.startConnection n :: q) = n :: startsOf q := rfl

@[simp] theorem startsOf_cons_setState (st : State) (q : List Change) :
    startsOf (.setState st :: q) = startsOf q := rfl

@[simp] theorem startsOf_cons_setError (error : ErrorState) (q : List Change) :
    startsOf (.setError error :: q) = startsOf q := rfl

@[simp] theorem startsOf_cons_removeNotification (q : List Change) :
    startsOf (.removeNotification :: q) = startsOf q := rfl

/-! ## What a step can do -/

/-- The states in which `stateChanged` resets the watchdog. -/
def Settled (state : Option State) : Prop := state = some .connected ∨ state = some .disabled

instance (state : Option State) : Decidable (Settled state) := inferInstanceAs (Decidable (_ ∨ _))

/-- What `stateTransform` reports. -/
def notice : Option State → List Report
  | some .connecting => [.connecting]
  | some .connected => [.connected]
  | some .disabled => [.disconnected]
  | _ => []

theorem stateTransform_eq (s : Service V) :
    stateTransform s = { s with reports := s.reports ++ notice s.mState } := by
  obtain ⟨_, _, _, _, state⟩ := s
  rcases state with _ | _ | _ | _ | _ <;> simp [stateTransform, notice, stateChange]

theorem clearError_eq (s : Service V) :
    clearError s =
      { s with mErrorState := if s.mState = some .connected then some .noError
                              else s.mErrorState } := by
  obtain ⟨_, _, _, _, state, error⟩ := s
  by_cases hs : state = some .connected <;> by_cases he : error = some .noError <;>
    simp [clearError, hs, he]

theorem stateChanged_of_settled {s : Service V} (h : Settled s.mState) :
    stateChanged s =
      { resetTimeout s with
        mErrorState := if s.mState = some .connected then some .noError else s.mErrorState,
        reports := s.reports ++ notice s.mState } := by
  rcases h with h | h <;> simp [stateChanged, clearError_eq, stateTransform_eq, resetTimeout, h]

theorem stateChanged_of_not_settled {s : Service V} (h : ¬ Settled s.mState) :
    stateChanged s = { s with reports := s.reports ++ notice s.mState } := by
  obtain ⟨hc, hd⟩ := not_or.1 h
  simp [stateChanged, clearError_eq, stateTransform_eq, hc, hd]

/-- The steps that change the state, each with its guard. -/
inductive Move : Service V → Event V → Service V → Prop
  | startCommand {s : Service V} {profile : Option V} (hmain : s.main = .idle)
      (hfree : s.worker.free) : Move s (.startCommand profile) (setNextProfile s profile)
  | onRevoke {s : Service V} (hfree : s.worker.free) : Move s .onRevoke (setNextProfile s none)
  | settle {s : Service V} {state : State} {rest : List Change}
      (hq : s.mHandler = .setState state :: rest) (hs : Settled (some state)) :
      Move s .callback
        { resetTimeout s with
          mHandler := rest, mState := some state,
          mErrorState := if state = .connected then some .noError else s.mErrorState,
          connected := s.connected || state = .connected,
          reports := s.reports ++ notice (some state) }
  | pass {s : Service V} {state : State} {rest : List Change}
      (hq : s.mHandler = .setState state :: rest) (hs : ¬ Settled (some state)) :
      Move s .callback
        { s with mHandler := rest, mState := some state,
                 reports := s.reports ++ notice (some state) }
  | settleError {s : Service V} {error : ErrorState} {rest : List Change}
      (hq : s.mHandler = .setError error :: rest) (hs : Settled s.mState) :
      Move s .callback
        { resetTimeout s with
          mHandler := rest,
          mErrorState := if s.mState = some .connected then some .noError else some error,
          reports := s.reports ++ notice s.mState }
  | passError {s : Service V} {error : ErrorState} {rest : List Change}
      (hq : s.mHandler = .setError error :: rest) (hs : ¬ Settled s.mState) :
      Move s .callback
        { s with mHandler := rest, mErrorState := some error,
                 reports := s.reports ++ notice s.mState }
  | start {s : Service V} {n : ℕ} {rest : List Change} (hmain : s.main = .idle)
      (hq : s.mHandler = .startConnection n :: rest) :
      Move s .callback
        { s with mHandler := rest, mState := some .connecting, mErrorState := some .noError,
                 applied := n, connected := false, firings := 0,
                 reports := s.reports ++ [.connecting],
                 mTimeoutHandle := s.mTimeoutHandle ++ [⟨timeOutWhat, n⟩] }
  | startLate {s : Service V} {n : ℕ} {rest : List Change} (hmain : s.main = .destroyed)
      (hq : s.mHandler = .startConnection n :: rest) :
      Move s .callback
        { s with mHandler := rest, mState := some .connecting, mErrorState := some .noError,
                 applied := n, connected := false, firings := 0,
                 reports := s.reports ++ [.connecting] }
  | removeNotification {s : Service V} {rest : List Change}
      (hq : s.mHandler = .removeNotification :: rest) :
      Move s .callback { s with mHandler := rest }
  | destroyWaking {s : Service V} (hmain : s.main = .idle) (hs : s.mState ≠ some .disabled) :
      Move s .onDestroy { s with main := .waking }
  | destroyJoining {s : Service V} (hmain : s.main = .idle) (hs : s.mState = some .disabled) :
      Move s .onDestroy { s with main := .joining }
  | wake {s : Service V} (hmain : s.main = .waking) (hfree : s.worker.free) :
      Move s .wake { setNextProfile s none with main := .joining }
  | joined {s : Service V} (hmain : s.main = .joining) (hw : s.worker = .returned) :
      Move s .joined { s with main := .destroyed, mTimeoutHandle := [] }
  | take {s : Service V} {o : Outcome} (hw : s.worker = .waiting) (hu : s.mProfileUpdated) :
      Move s (.worker o)
        { s with mProfileUpdated := false, cleared := s.lastRequest, worker := .resetting }
  | reset {s : Service V} {o : Outcome} {next : Worker} (hw : s.worker = .resetting)
      (hnext : next = .deciding ∧ s.mCurrentProfile = none ∨ next = .stopping) :
      Move s (.worker o) { resetTimeout s with worker := next }
  | stop {s : Service V} {o : Outcome} (hw : s.worker = .stopping) :
      Move s (.worker o) { post s (.setState .disconnecting) with worker := .marking }
  | mark {s : Service V} {o : Outcome} (hw : s.worker = .marking) :
      Move s (.worker o) { s with mIsDisconnecting := true, worker := .deinitializing }
  | charonStops {s : Service V} {o : Outcome} (hw : s.worker = .deinitializing)
      (hn : s.mNextProfile ≠ none) :
      Move s (.worker o) { s with charon := false, mCurrentProfile := none, worker := .deciding }
  | disconnect {s : Service V} {o : Outcome} (hw : s.worker = .deinitializing)
      (hn : s.mNextProfile = none) :
      Move s (.worker o)
        (post { s with charon := false, mCurrentProfile := none, worker := .deciding }
          .removeNotification)
  | finish {s : Service V} {o : Outcome} (hw : s.worker = .deciding) (hn : s.mNextProfile = none) :
      Move s (.worker o)
        { post s (.setState .disabled) with
          worker := .returned, served := s.served ++ [(none, s.cleared)] }
  | attempt {s : Service V} {o : Outcome} {profile : V} (hw : s.worker = .deciding)
      (hn : s.mNextProfile = some profile) :
      Move s (.worker o)
        { post s (.startConnection (s.attempts + 1)) with
          mCurrentProfile := some profile, mNextProfile := none, mIsDisconnecting := false,
          charon := true, worker := .initializing,
          attempts := s.attempts + 1, attemptRequest := s.requests }
  | failed {s : Service V} (hw : s.worker = .initializing) :
      Move s (.worker .failed)
        { post (post s (.setError .genericError)) (.setState .disabled) with
          worker := .waiting, served := s.served ++ [(s.mCurrentProfile, s.cleared)],
          mCurrentProfile := none, charon := false, initFailed := true }
  | missing {s : Service V} (hw : s.worker = .initializing) :
      Move s (.worker .passwordMissing)
        { post s (.setError .passwordMissing) with
          worker := .waiting, served := s.served ++ [(s.mCurrentProfile, s.cleared)] }
  | initiated {s : Service V} (hw : s.worker = .initializing) :
      Move s (.worker .initiated)
        { s with worker := .waiting, served := s.served ++ [(s.mCurrentProfile, s.cleared)] }
  | error {s : Service V} {status : Status} {error : ErrorState} (hcharon : s.charon) :
      Move s (.updateStatus status) (post s (.setError error))
  | up {s : Service V} (hcharon : s.charon) :
      Move s (.updateStatus .childSaUp) (post s (.setState .connected))
  | down {s : Service V} (hcharon : s.charon) :
      Move s (.updateStatus .childSaDown) (post s (.setState .connecting))
  | timeout {s : Service V} {m : Message} {rest : List Message} (hrun : s.timeoutRun = none)
      (hq : s.mTimeoutHandle = m :: rest) :
      Move s .timeout
        { s with mTimeoutHandle := rest, timeoutRun := some (.first, m.attempt),
                 firings := s.firings + 1 }
  | firstTest {s : Service V} {n : ℕ} {next : Check} (hrun : s.timeoutRun = some (.first, n))
      (hnext : next = .resetting ∨ next = .second) :
      Move s .timeoutRun { s with timeoutRun := some (next, n) }
  | failReset {s : Service V} {n : ℕ} (hrun : s.timeoutRun = some (.resetting, n)) :
      Move s .timeoutRun { resetTimeout s with timeoutRun := some (.reporting, n) }
  | failReport {s : Service V} {n : ℕ} (hrun : s.timeoutRun = some (.reporting, n)) :
      Move s .timeoutRun
        { stateChange s (.connectFail n s.attempts s.applied) with timeoutRun := none }
  | giveUp {s : Service V} {n : ℕ} (hrun : s.timeoutRun = some (.second, n))
      (ht : ¬ (s.mErrorState = some .noError ∧ s.mState ≠ some .connected ∧
        s.retries < timeoutRetries)) :
      Move s .timeoutRun { s with timeoutRun := none }
  | retry {s : Service V} {n : ℕ} (hrun : s.timeoutRun = some (.second, n))
      (hr : s.retries < timeoutRetries) :
      Move s .timeoutRun { s with timeoutRun := some (.counting s.retries, n) }
  | count {s : Service V} {n r : ℕ} (hrun : s.timeoutRun = some (.counting r, n)) :
      Move s .timeoutRun { s with retries := r + 1, timeoutRun := some (.posting, n) }
  | repost {s : Service V} {n : ℕ} (hrun : s.timeoutRun = some (.posting, n))
      (hmain : s.main ≠ .destroyed) :
      Move s .timeoutRun
        { s with mTimeoutHandle := s.mTimeoutHandle ++ [⟨0, n⟩], timeoutRun := none }
  | repostLate {s : Service V} {n : ℕ} (hrun : s.timeoutRun = some (.posting, n))
      (hmain : s.main = .destroyed) :
      Move s .timeoutRun { s with timeoutRun := none }

theorem Change.run_move {s : Service V} {c : Change} {rest : List Change}
    (hmain : s.main = .idle ∨ s.main = .destroyed) (hq : s.mHandler = c :: rest) :
    Move s .callback (c.run { s with mHandler := rest }) := by
  cases c with
  | setState state =>
    by_cases hs : Settled (some state)
    · have h := Move.settle hq hs
      rw [Change.run, stateChanged_of_settled (by simpa [clearError_eq] using hs), clearError_eq]
      by_cases hc : state = .connected <;> simpa [resetTimeout, hc] using h
    · have h := Move.pass hq hs
      have hc : state ≠ .connected := fun hc => hs (.inl (congrArg some hc))
      simpa [Change.run, clearError_eq, stateChanged_of_not_settled, hs, hc] using h
  | setError error =>
    by_cases hs : Settled s.mState
    · have h := Move.settleError hq hs
      simpa [Change.run, stateChanged_of_settled, hs, resetTimeout] using h
    · have h := Move.passError hq hs
      simpa [Change.run, stateChanged_of_not_settled, hs] using h
  | startConnection n =>
    rcases hmain with hmain | hmain
    · have h := Move.start hmain hq
      simpa [Change.run, startTimeout, sendMessage, hmain, stateChanged_of_not_settled, Settled,
        notice] using h
    · have h := Move.startLate hmain hq
      simpa [Change.run, startTimeout, sendMessage, hmain, stateChanged_of_not_settled, Settled,
        notice] using h
  | removeNotification => exact Move.removeNotification hq

theorem updateStatus_move {s : Service V} (hcharon : s.charon) (status : Status) :
    updateStatus s status = s ∨ Move s (.updateStatus status) (updateStatus s status) := by
  by_cases hd : s.mIsDisconnecting
  · cases status with
    | childSaUp => exact .inr (.up hcharon)
    | _ => exact .inl (by simp [updateStatus, setErrorDisconnect, hd])
  · cases status with
    | childSaUp => exact .inr (.up hcharon)
    | childSaDown => exact .inr (by simpa [updateStatus, hd] using .down hcharon)
    | unknown => exact .inl rfl
    | _ => exact .inr (by simpa [updateStatus, setErrorDisconnect, hd] using .error hcharon)

theorem workerStep_move (s : Service V) (o : Outcome) :
    workerStep s o = s ∨ Move s (.worker o) (workerStep s o) := by
  unfold workerStep
  split
  next hw =>
    split
    next hu => exact .inr (.take hw hu)
    next => exact .inl rfl
  next hw =>
    refine .inr (.reset hw ?_)
    split
    next hp => exact .inl ⟨rfl, hp⟩
    next => exact .inr rfl
  next hw => exact .inr (.stop hw)
  next hw => exact .inr (.mark hw)
  next hw =>
    dsimp only
    split
    next hn => exact .inr (.disconnect hw hn)
    next hn => exact .inr (.charonStops hw hn)
  next hw =>
    split
    next hn => exact .inr (.finish hw hn)
    next hn => exact .inr (.attempt hw hn)
  next hw =>
    cases o with
    | failed => exact .inr (.failed hw)
    | passwordMissing => exact .inr (.missing hw)
    | initiated => exact .inr (.initiated hw)
  next => exact .inl rfl

theorem mTimeoutRun_move (s : Service V) :
    mTimeoutRun s = s ∨ Move s .timeoutRun (mTimeoutRun s) := by
  unfold mTimeoutRun
  split
  next => exact .inl rfl
  next hrun =>
    split
    · exact .inr (.firstTest hrun (.inl rfl))
    · exact .inr (.firstTest hrun (.inr rfl))
  next hrun => exact .inr (.failReset hrun)
  next hrun => exact .inr (.failReport hrun)
  next hrun =>
    split
    next hn =>
      split
      next hr => exact .inr (.retry hrun hr)
      next hr => exact .inr (.giveUp hrun fun h => hr h.2.2)
    next hn => exact .inr (.giveUp hrun fun h => hn ⟨h.1, h.2.1⟩)
  next hrun => exact .inr (.count hrun)
  next hrun =>
    by_cases hmain : s.main = .destroyed
    · rw [sendMessage, if_pos hmain]
      exact .inr (.repostLate hrun hmain)
    · rw [sendMessage, if_neg hmain]
      exact .inr (.repost hrun hmain)

/-- A step changes nothing or is one of the moves. -/
theorem step_move (s : Service V) (e : Event V) : step s e = s ∨ Move s e (step s e) := by
  cases e with
  | startCommand profile =>
    by_cases h : s.main = .idle ∧ s.worker.free
    · rw [step, if_pos h]
      exact .inr (.startCommand h.1 h.2)
    · exact .inl (if_neg h)
  | onRevoke =>
    by_cases h : s.worker.free
    · rw [step, if_pos h]
      exact .inr (.onRevoke h)
    · exact .inl (if_neg h)
  | callback =>
    by_cases h : s.main = .idle ∨ s.main = .destroyed
    · rw [step, if_pos h]
      split
      next => exact .inl rfl
      next hq => exact .inr (Change.run_move h hq)
    · exact .inl (if_neg h)
  | onDestroy =>
    by_cases h : s.main = .idle
    · rw [step, if_pos h]
      split
      next hs => exact .inr (.destroyWaking h hs)
      next hs => exact .inr (.destroyJoining h (not_not.1 hs))
    · exact .inl (if_neg h)
  | wake =>
    by_cases h : s.main = .waking ∧ s.worker.free
    · rw [step, if_pos h]
      exact .inr (.wake h.1 h.2)
    · exact .inl (if_neg h)
  | joined =>
    by_cases h : s.main = .joining ∧ s.worker = .returned
    · rw [step, if_pos h]
      exact .inr (.joined h.1 h.2)
    · exact .inl (if_neg h)
  | worker o => exact workerStep_move s o
  | updateStatus status =>
    by_cases h : s.charon
    · rw [step, if_pos h]
      exact updateStatus_move h status
    · exact .inl (if_neg h)
  | timeout =>
    change takeMessage s = s ∨ Move s .timeout (takeMessage s)
    unfold takeMessage
    split
    next hrun hq => exact .inr (.timeout hrun hq)
    next => exact .inl rfl
  | timeoutRun => exact mTimeoutRun_move s

end VpnCore.Ikev2
