import VpnCore.Lib.Runs

/-!
# VpnCore.Start.Model — starting and stopping the OpenVPN process of an `OpenVPNImpl`

`onStartCommand` spawns a thread that runs `startOpenVPN`; `disconnect()` and `onRevoke()` run on
whatever thread calls them.  The threads share the fields of `OpenVPNImpl` and interleave between
the steps below (a `synchronized (mProcessLock)` block is one step).  What the system decides (the
outcome of file and socket operations, when a process exits or a timer fires) is part of the event.

The ghost field `log` records the order of the observable actions.
-/

namespace VpnCore.Start

open VpnCore.Lib

/-- Where a `startOpenVPN` thread stands. -/
inductive StartPc
  | created
  /-- the configuration file is written -/
  | written
  /-- `mStarting` is set -/
  | starting
  /-- the old management thread was asked to stop -/
  | oldStopped
  /-- the old process thread was interrupted -/
  | forced
  /-- `mStarting` is cleared again -/
  | cleared
  /-- the management thread runs -/
  | managed
  /-- `mOpenVPNThread` is created -/
  | threadMade
  /-- the process thread runs -/
  | processStarted
  | finished
  deriving DecidableEq

/-- The thread has not yet started its process, and has not given up. -/
def StartPc.Pending (pc : StartPc) : Prop := pc ≠ .processStarted ∧ pc ≠ .finished

instance (pc : StartPc) : Decidable pc.Pending := inferInstanceAs (Decidable (_ ∧ _))

/-- Where a call of `disconnect()` or `onRevoke()` stands. -/
inductive CallPc
  | begun
  /-- `isStopService` is set -/
  | flagged
  /-- `stopVPN` answered; `endVpnService` is still to be called if `needEnd` -/
  | stopped (needEnd : Bool)
  /-- about to return -/
  | ended
  | returned
  deriving DecidableEq

/-- A call that stops the connection. -/
structure StopCall where
  /-- `disconnect()` as opposed to a bare `onRevoke()` -/
  isDisconnect : Bool
  pc : CallPc
  deriving DecidableEq

/-- `mSocket` of a management thread: null until OpenVPN connects, closed by `stopOpenVPN`. -/
inductive Socket
  | null
  | «open»
  | closed
  deriving DecidableEq

/-- An `OpenVPNThread` and its process. -/
structure Process where
  alive : Bool
  mNoProcessExitStatus : Bool
  deriving DecidableEq

/-- What the log of a run records. -/
inductive Obs
  /-- an `onStartCommand` with a profile spawned a `startOpenVPN` thread -/
  | start
  | disconnectBegins (call : ℕ)
  | disconnectReturns (call : ℕ)
  | managementBegins (thread : ℕ)
  | processBegins (thread : ℕ)
  deriving DecidableEq

/-- A management thread or a process begins. -/
def Obs.Begins : Obs → Prop
  | .managementBegins _ => True
  | .processBegins _ => True
  | _ => False

/-- The service, its threads and its calls. -/
structure World where
  mStarting : Bool := false
  isStopService : Bool := false
  /-- `mManagement != null` -/
  mManagement : Bool := false
  mOpenVPNThread : Option ℕ := none
  /-- `mProcessThread != null` -/
  mProcessThread : Bool := false
  /-- `mConnectTimeoutRun` is queued -/
  timeout : Bool := false
  /-- `OpenVpnManagementThread.active` -/
  active : List Socket := []
  processes : List Process := []
  starts : List StartPc := []
  calls : List StopCall := []
  log : List Obs := []
  deriving DecidableEq

/-! ## The methods of `OpenVPNImpl` and `OpenVpnManagementThread` -/

def World.endVpnService (w : World) (stopService : Bool) : World :=
  let w := { w with timeout := false }
  if !w.mStarting && stopService then
    { w with
      isStopService := false
      mOpenVPNThread := if w.mProcessThread then none else w.mOpenVPNThread
      mProcessThread := false }
  else w

/-- `stopOpenVPN`: `SIGINT` to every active management thread, whose socket is then closed; the
answer is whether the command reached the last one. -/
def World.stopVPN (w : World) : Bool × World :=
  (w.active.getLast? = some .open,
    { w with active := w.active.map fun s => if s = Socket.null then Socket.null else Socket.closed })

def World.setReplaceConnection (w : World) : World :=
  match w.mOpenVPNThread with
  | none => w
  | some p => { w with processes := w.processes.modify p fun x => { x with mNoProcessExitStatus := true } }

/-- `stopOldOpenVPNProcess` up to `forceStopOpenVpnProcess`. -/
def World.stopOld (w : World) : World :=
  if w.mManagement then w.setReplaceConnection.stopVPN.2 else w

def World.setStart (w : World) (t : ℕ) (pc : StartPc) : World :=
  { w with starts := w.starts.set t pc }

def World.setCall (w : World) (j : ℕ) (pc : CallPc) : World :=
  { w with calls := w.calls.modify j fun c => { c with pc := pc } }

def World.observe (w : World) (o : Obs) : World := { w with log := w.log ++ [o] }

/-- `openManagementInterface` succeeded: a new management thread runs. -/
def World.newManagement (w : World) (t : ℕ) : World :=
  { w with mManagement := true, active := w.active ++ [Socket.null] }.observe (.managementBegins t)

/-- `mProcessThread = new Thread(mOpenVPNThread); mProcessThread.start()`.  The field may have been
cleared by `endVpnService` meanwhile, then the new thread runs nothing. -/
def World.startProcess (w : World) (t : ℕ) : World :=
  match w.mOpenVPNThread with
  | none => { w with mProcessThread := true }
  | some p =>
    { w with
      mProcessThread := true
      processes := w.processes.modify p fun x => { x with alive := true } }.observe
      (.processBegins t)

/-- The next step of the `startOpenVPN` thread `t`; `ok` is the outcome of a fallible one. -/
def World.startStep (w : World) (t : ℕ) (ok : Bool) : World :=
  match w.starts[t]? with
  | none => w
  | some .created =>
    if ok then w.setStart t .written else (w.endVpnService true).setStart t .finished
  | some .written => { w with mStarting := true }.setStart t .starting
  | some .starting => w.stopOld.setStart t .oldStopped
  | some .oldStopped => w.setStart t .forced
  | some .forced => { w with mStarting := false }.setStart t .cleared
  | some .cleared =>
    if ok then (w.newManagement t).setStart t .managed
    else (w.endVpnService true).setStart t .finished
  | some .managed =>
    { w with
      mOpenVPNThread := some w.processes.length
      processes := w.processes ++ [Process.mk false false] }.setStart t .threadMade
  | some .threadMade => (w.startProcess t).setStart t .processStarted
  | some .processStarted => { w with timeout := true }.setStart t .finished
  | some .finished => w

/-- The next step of the stop call `j`. -/
def World.callStep (w : World) (j : ℕ) : World :=
  match w.calls[j]? with
  | none => w
  | some c =>
    match c.pc with
    | .begun => { w with isStopService := true }.setCall j .flagged
    | .flagged =>
      if w.mManagement then w.stopVPN.2.setCall j (.stopped !w.stopVPN.1)
      else w.setCall j (.stopped true)
    | .stopped needEnd => (if needEnd then w.endVpnService true else w).setCall j .ended
    | .ended =>
      let w := w.setCall j .returned
      if c.isDisconnect then w.observe (.disconnectReturns j) else w
    | .returned => w

/-- A call of `disconnect()` begins. -/
def World.disconnect (w : World) : World :=
  { w with calls := w.calls ++ [StopCall.mk true .begun] }.observe (.disconnectBegins w.calls.length)

/-- The system revokes the VPN permission. -/
def World.onRevoke (w : World) : World := { w with calls := w.calls ++ [StopCall.mk false .flagged] }

def World.onStartCommand (w : World) (profile : Bool) : World :=
  if profile then { w with starts := w.starts ++ [StartPc.created] }.observe .start else w

/-- The process of the `OpenVPNThread` `p` exits. -/
def World.processExit (w : World) (p : ℕ) : World :=
  match w.processes[p]? with
  | none => w
  | some x =>
    if x.alive then
      let w := { w with processes := w.processes.modify p fun x => { x with alive := false } }
      if x.mNoProcessExitStatus then w else w.endVpnService w.isStopService
    else w

/-! ## Runs -/

/-- What happens to the service. -/
inductive Event
  | onStartCommand (profile : Bool)
  | startStep (thread : ℕ) (ok : Bool)
  | disconnect
  | onRevoke
  | callStep (call : ℕ)
  | processExit (process : ℕ)
  /-- OpenVPN connects to the management socket -/
  | accept (management : ℕ)
  /-- OpenVPN closes its end: the thread returns from `run` but stays in `active` -/
  | endOfStream (management : ℕ)
  /-- an `IOException` ends `run`: the thread leaves `active` -/
  | managementEnds (management : ℕ)
  /-- `mConnectTimeoutRun` -/
  | timeoutFires (connected : Bool)
  deriving DecidableEq

def World.step (w : World) : Event → World
  | .onStartCommand profile => w.onStartCommand profile
  | .startStep t ok => w.startStep t ok
  | .disconnect => w.disconnect
  | .onRevoke => w.onRevoke
  | .callStep j => w.callStep j
  | .processExit p => w.processExit p
  | .accept m => { w with active := w.active.modify m fun s => if s = Socket.null then .open else s }
  | .endOfStream m =>
    { w with active := w.active.modify m fun s => if s = Socket.open then .closed else s }
  | .managementEnds m => { w with active := w.active.eraseIdx m }
  | .timeoutFires connected =>
    if w.timeout then
      let w := { w with timeout := false }
      if connected then w else w.disconnect
    else w

end VpnCore.Start
