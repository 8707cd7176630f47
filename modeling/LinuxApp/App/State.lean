import LinuxApp.Core.Linearizable
import LinuxApp.Drivers.Descriptors

/-!
# The application: `main.c`, `Threads/rpmsg.c`, `Threads/GUI.c`

`main`, the RPMSG worker and the GUI worker as three threads over `rx_queue`, the
`g_is_running` flag and the device. A thread's position names the call or test it is
about to run, and each action lets one thread run one of these: a call of the driver
is one step (nothing it touches is shared), a call of the queue is one step a line
(`QState.run`), and each loop test of `*args->is_running` is a step of its own.
`tx_queue` is initialised and destroyed and otherwise unused, as in the source.

`received`, `output` and `sync` are history variables: the packets for which
`rpmsg_recv_msg` returned 0, what the GUI worker has printed, and what was done with
the queues' pthread objects. What the other threads and the handler print is left out.
-/

namespace LinuxApp.App

open Lib LinuxApp.Core Drivers

/-- The threads that `main` creates; they are the ones that use `rx_queue`. -/
inductive Worker where
  | rpmsg
  | gui
  deriving DecidableEq

inductive Signal where
  | sigint
  | sigterm
  deriving DecidableEq

/-- `EXIT_SUCCESS`, `EXIT_FAILURE` -/
inductive Exit where
  | success
  | failure
  deriving DecidableEq

inductive MainPc where
  /-- At `signal(SIGINT, signal_handler)`. -/
  | signalInt
  | signalTerm
  | initRx
  | initTx
  /-- Undoing `rx_queue` after a failed initialisation of `tx_queue`. -/
  | destroyOnlyRx
  | createRpmsg
  /-- At `g_is_running = false` after a failed `pthread_create` of the RPMSG worker. -/
  | rpmsgFailed
  | createGui
  /-- At `g_is_running = false` after a failed `pthread_create` of the GUI worker. -/
  | guiFailed
  | joinAfterFail
  | joinRpmsg
  | joinGui
  | destroyRx (e : Exit)
  | destroyTx (e : Exit)
  | exited (e : Exit)
  deriving DecidableEq

inductive RpmsgPc where
  | notCreated
  /-- At `rpmsg_ctx_init` and `rpmsg_open`. -/
  | start
  /-- At `while (*args->is_running)`. -/
  | loop
  | poll
  | recv
  /-- In `msg_queue_push`. -/
  | push
  /-- At `rpmsg_close`. -/
  | stopping
  | returned
  deriving DecidableEq

inductive GuiPc where
  | notCreated
  | start
  /-- At `while (*args->is_running)`. -/
  | loop
  /-- In `msg_queue_pop`. -/
  | pop
  /-- With the packet popped, about to print. -/
  | handle (m : AppMsg)
  | stopping
  | returned
  deriving DecidableEq

inductive QueueId where
  | rx
  | tx
  deriving DecidableEq

/-- A mutex or condition variable of one of the queues. -/
abbrev SyncObj := QueueId × QueuePart

structure AppState where
  main : MainPc
  rpmsg : RpmsgPc
  gui : GuiPc
  /-- `g_is_running` -/
  running : Bool
  rx : QState Worker
  tx : MsgQueue
  /-- The RPMSG worker's `dev_ctx` and the kernel behind it. -/
  drv : DrvState
  /-- The RPMSG worker's `rx_msg`. -/
  rxMsg : AppMsg
  received : List AppMsg
  output : List String
  sync : List (SyncObj × Lifetime.Op)

/-! ## What the GUI prints -/

def rule : String := "======================================================\n"

/-- The dashboard block of one sensor packet. -/
def dashboard (d : SensorData) : List String :=
  ["\n" ++ rule,
    "              REAL-TIME DASHBOARD LOG                 \n",
    rule,
    "  CPU Usage   : " ++ toString d.cpuUsage ++ "%\n",
    "  Stack Usage : " ++ toString d.stackUsage ++ " bytes\n",
    "  Packet Count: " ++ toString d.pktCnt ++ "\n",
    "  Error Count : " ++ toString d.errCnt ++ "\n",
    "  Timestamp   : " ++ toString d.timestamp ++ " ms\n",
    rule]

/-- What is printed for one packet. -/
def report (m : AppMsg) : List String :=
  if m.type = msgTypeSensorData then dashboard m.sensor
  else if m.type = msgTypeHeartbeat then ["[GUI THREAD] Heartbeat received from R5.\n"]
  else []

def guiStarted : String := "[GUI THREAD] Dashboard & Operator Interface Worker started.\n"

def guiStopping : String := "[GUI THREAD] Stopping GUI worker...\n"

/-! ## The pthread objects a line touches -/

def lineUses : Pc → List QueuePart
  | .pushLock _ | .pushUnlock _ _ | .popLock | .popUnlock _ => [.lock]
  | .pushSignal _ => [.cond]
  | .popSleep | .popAsleep => [.cond, .lock]
  | _ => []

def tagged (q : QueueId) (ops : List (QueuePart × Lifetime.Op)) : List (SyncObj × Lifetime.Op) :=
  ops.map fun e => ((q, e.1), e.2)

namespace AppState

def logSync (s : AppState) (q : QueueId) (ops : List (QueuePart × Lifetime.Op)) : AppState :=
  { s with sync := s.sync ++ tagged q ops }

@[simp] theorem logSync_main (s : AppState) (q : QueueId) (ops : List (QueuePart × Lifetime.Op)) :
    (s.logSync q ops).main = s.main := rfl

@[simp] theorem logSync_sync (s : AppState) (q : QueueId) (ops : List (QueuePart × Lifetime.Op)) :
    (s.logSync q ops).sync = s.sync ++ tagged q ops := rfl

/-- Worker `t` runs its next line in the code of `rx_queue`. -/
def runRx (s : AppState) (t : Worker) (woken : Finset Worker) : Option AppState :=
  (s.rx.run t woken).map fun rx =>
    { s with rx }.logSync .rx ((lineUses (s.rx.pc t)).map fun p => (p, .use))

/-! ## The three threads -/

/-- The answer `SIG_ERR` of `signal`. -/
def sigErr : Int := -1

/-- `main`; `r` and `r'` are the results of the fallible calls of the step. -/
def mainStep (s : AppState) (r r' : Int) : Option AppState :=
  match s.main with
  | .signalInt => some { s with main := if r = sigErr then .exited .failure else .signalTerm }
  | .signalTerm => some { s with main := if r = sigErr then .exited .failure else .initRx }
  | .initRx => do
    let (ret, q, ops) := msgQueueInit (some s.rx.q) r r'
    let q ← q
    some ({ s with
      rx := { s.rx with q }
      main := if ret ≠ 0 then .exited .failure else .initTx }.logSync .rx ops)
  | .initTx => do
    let (ret, q, ops) := msgQueueInit (some s.tx) r r'
    let q ← q
    some ({ s with
      tx := q
      main := if ret ≠ 0 then .destroyOnlyRx else .createRpmsg }.logSync .tx ops)
  | .destroyOnlyRx =>
    some ({ s with main := .exited .failure }.logSync .rx (msgQueueDestroy (some s.rx.q)))
  | .createRpmsg =>
    if r ≠ 0 then some { s with main := .rpmsgFailed }
    else some { s with main := .createGui, rpmsg := .start }
  | .rpmsgFailed => some { s with main := .destroyRx .failure, running := false }
  | .createGui =>
    if r ≠ 0 then some { s with main := .guiFailed }
    else some { s with main := .joinRpmsg, gui := .start }
  | .guiFailed => some { s with main := .joinAfterFail, running := false }
  | .joinAfterFail =>
    if s.rpmsg = .returned then some { s with main := .destroyRx .failure } else none
  | .joinRpmsg => if s.rpmsg = .returned then some { s with main := .joinGui } else none
  | .joinGui => if s.gui = .returned then some { s with main := .destroyRx .success } else none
  | .destroyRx e =>
    some ({ s with main := .destroyTx e }.logSync .rx (msgQueueDestroy (some s.rx.q)))
  | .destroyTx e =>
    some ({ s with main := .exited e }.logSync .tx (msgQueueDestroy (some s.tx)))
  | .exited _ => none

/-- `args->dev_path`, as `main` sets it. -/
def argDevPath : CStr := defaultDevPath

/-- `rpmsg_worker_func`; `es` are the system calls of the step. -/
def rpmsgStep (s : AppState) (es : Exchanges) (woken : Finset Worker) : Option AppState :=
  match s.rpmsg with
  | .notCreated | .returned => none
  | .start => do
    let ctx ← rpmsgCtxInit (some s.drv.ctx)
    let (ret, drv) ← { s.drv with ctx }.exec (.openDev (some argDevPath)) es
    some { s with drv, rpmsg := if ret ≠ 0 then .returned else .loop }
  | .loop =>
    if s.running then some { s with rpmsg := .poll } else some { s with rpmsg := .stopping }
  | .poll => do
    let (ready, drv) ← s.drv.exec (.pollReady 50) es
    some { s with drv, rpmsg := if ready > 0 then .recv else .loop }
  | .recv => do
    let (ret, rxMsg, drv) ← s.drv.recv s.rxMsg 0 es
    if ret = 0 then
      let rx ← s.rx.call .rpmsg (.push rxMsg)
      some { s with drv, rxMsg, rx, rpmsg := .push, received := s.received ++ [rxMsg] }
    else some { s with drv, rxMsg, rpmsg := .loop }
  | .push => do
    let s' ← s.runRx .rpmsg woken
    match s.rx.pc .rpmsg with
    | .pushUnlock _ _ => some { s' with rpmsg := .loop }
    | _ => some s'
  | .stopping => do
    let (_, drv) ← s.drv.exec .close es
    some { s with drv, rpmsg := .returned }

/-- `gui_worker_func` -/
def guiStep (s : AppState) (woken : Finset Worker) : Option AppState :=
  match s.gui with
  | .notCreated | .returned => none
  | .start => some { s with gui := .loop, output := s.output ++ [guiStarted] }
  | .loop =>
    if s.running then (s.rx.call .gui .pop).map fun rx => { s with rx, gui := .pop }
    else some { s with gui := .stopping }
  | .pop => do
    let s' ← s.runRx .gui woken
    match s.rx.pc .gui with
    | .popUnlock m => some { s' with gui := .handle m }
    | _ => some s'
  | .handle m => some { s with gui := .loop, output := s.output ++ report m }
  | .stopping => some { s with gui := .returned, output := s.output ++ [guiStopping] }

/-- `signal_handler`, once it is registered and while the process lives. With `-std=c99`
`signal` registers it for one signal only and a second one of that kind kills the process;
that is left out, here a second signal runs the handler again. -/
def signalStep (s : AppState) (sig : Signal) : Option AppState :=
  match s.main, sig with
  | .signalInt, _ | .exited _, _ | .signalTerm, .sigterm => none
  | _, _ => some { s with running := false }

end AppState

inductive Act where
  | signal (sig : Signal)
  | main (r r' : Int)
  | rpmsg (es : Exchanges) (woken : Finset Worker)
  | gui (woken : Finset Worker)
  /-- A spurious wake-up in `pthread_cond_wait`. -/
  | wake (t : Worker)

def AppState.step (s : AppState) : Act → Option AppState
  | .signal sig => s.signalStep sig
  | .main r r' => s.mainStep r r'
  | .rpmsg es woken => s.rpmsgStep es woken
  | .gui woken => s.guiStep woken
  | .wake t => (s.rx.mon.wake t).map fun mon => { s with rx := { s.rx with mon } }

/-- The process at the entry of `main`; the memory is arbitrary. -/
structure AppState.Start (s : AppState) : Prop where
  main : s.main = .signalInt
  rpmsg : s.rpmsg = .notCreated
  gui : s.gui = .notCreated
  running : s.running = true
  rx : ∃ q, s.rx = QState.start q
  fds : s.drv.fds = ∅
  log : s.drv.log = []
  received : s.received = []
  output : s.output = []
  sync : s.sync = []

def appSys : Sys AppState Act := .ofStep AppState.Start AppState.step

/-! ## A complete run -/

/-- The process started with all its memory zero. -/
def processStart : AppState where
  main := .signalInt
  rpmsg := .notCreated
  gui := .notCreated
  running := true
  rx := .start default
  tx := default
  drv := ⟨⟨0, .replicate _ 0, 0, 0, 0⟩, ∅, []⟩
  rxMsg := default
  received := []
  output := []
  sync := []

theorem processStart_init : appSys.Init processStart :=
  ⟨rfl, rfl, rfl, rfl, ⟨default, rfl⟩, rfl, rfl, rfl, rfl, rfl⟩

/-- `main` up to its first join, without a failure. -/
def bringUp : List Act := List.replicate 6 (.main 0 0)

/-- `rpmsg_open` succeeds with descriptor 3. -/
def openDevice : Act := .rpmsg [⟨.openFile defaultDevPath.bytes (oRdwr ||| oNonblock), .fd 3⟩] ∅

/-- The RPMSG worker's loop test, `poll` and `read` with a packet as the answer. -/
def receive (m : AppMsg) : List Act :=
  [.rpmsg [] ∅, .rpmsg [⟨.poll 3 pollIn 50, .ready pollIn⟩] ∅,
    .rpmsg [⟨.read 3 sizeofAppMsg, .data m.toList m.fits⟩] ∅]

def closeDevice : Act := .rpmsg [⟨.close 3, .closed⟩] ∅

/-- From the last join to the end of `main`. -/
def tearDown : List Act := List.replicate 4 (.main 0 0)

/-- A packet of type `MSG_TYPE_HEARTBEAT`. -/
def heartbeat : AppMsg := ⟨(Vector.replicate _ 0).set 0 3⟩

/-- The GUI worker falls asleep on the empty queue, a heartbeat wakes it, and `SIGINT`
lets both workers leave their loops, the GUI worker first. -/
def heartbeatStop : List Act :=
  bringUp ++ [openDevice] ++ List.replicate 5 (.gui ∅) ++ receive heartbeat ++
    List.replicate 3 (.rpmsg [] ∅) ++ [.rpmsg [] {.gui}, .rpmsg [] ∅] ++
    List.replicate 5 (.gui ∅) ++ [.signal .sigint, .gui ∅, .gui ∅, .rpmsg [] ∅]

def heartbeatRun : List Act := heartbeatStop ++ [closeDevice] ++ tearDown

theorem heartbeatRun_runs : (Sys.exec AppState.step processStart heartbeatRun).isSome := by
  decide +kernel

def heartbeatEnd : AppState :=
  (Sys.exec AppState.step processStart heartbeatRun).get heartbeatRun_runs

theorem heartbeatEnd_reach : appSys.Reach heartbeatEnd :=
  Sys.reach_exec processStart_init heartbeatRun_runs

end LinuxApp.App
