import BlockEmulator.Interleaving

/-!
# Shutdown of a PBFT node (`pbft.go`, `messageHandle.go`)

The goroutines of one node: the connection loops, the routines of `Propose`, the handlers
that `launchTrackedHandler` admits, and whoever waits for the shutdown. Each statement
that reads or writes what they share is one step of one goroutine, and the steps
interleave in any order.

* The handlers are arbitrary code. `pbftLock`, under which `beginStop` wakes them, delays
  goroutines only: a step may be late here as well.
* A lock is taken when it is free. A channel counts how often it was closed: closing it
  twice panics.
* `goroutineStep` — one step.
-/

namespace BlockEmulator

open StepSystem Interleaving

/-! ## Data -/

/-- The types of messages. -/
inductive NodeMessage where
  /-- `CPrePrepare` -/
  | prePrepare
  /-- `CPrepare` -/
  | prepare
  /-- `CCommit` -/
  | commit
  /-- `ViewChangePropose` -/
  | viewChangePropose
  /-- `NewChange` -/
  | newChange
  /-- `CRequestOldrequest` -/
  | requestOldrequest
  /-- `CSendOldrequest` -/
  | sendOldrequest
  /-- `CStop` -/
  | stop
  /-- any other, from outside -/
  | outside
  deriving DecidableEq

/-- What `ReadBytes` returns. -/
inductive ReadResult where
  /-- a line -/
  | line (msg : NodeMessage)
  /-- `io.EOF` -/
  | eof
  /-- another error -/
  | failed
  deriving DecidableEq

/-- What the goroutines of a node share. -/
structure NodeLifecycle where
  /-- `handlerLifecycleMu`: whether it is held -/
  handlerLifecycleMu : Bool
  /-- `tcpPoolLock` -/
  tcpPoolLock : Bool
  /-- `stopSignal` -/
  stopSignal : Bool
  /-- `stopCh`: how often it was closed -/
  stopCh : ℕ
  /-- `inflightHandlers` -/
  inflightHandlers : ℤ
  /-- `tcpln`: whether it listens -/
  tcpln : Bool
  /-- `CurChain`: how often it was closed -/
  closedChain : ℕ
  /-- `shutdownDoneOnce`: whether it is done -/
  shutdownDoneOnce : Bool
  /-- `stoppedCh`: how often it was closed -/
  stoppedCh : ℕ
  deriving DecidableEq

/-- Who calls `launchTrackedHandler`. -/
inductive LaunchCaller where
  /-- `handleMessage`, in a connection loop -/
  | connection
  /-- a routine of `Propose` -/
  | routine
  /-- a handler -/
  | handler
  deriving DecidableEq

/-- The code of `launchTrackedHandler`. -/
inductive LaunchPoint where
  /-- at `handlerLifecycleMu.Lock()` -/
  | lock
  /-- at `stopSignal.Load()` -/
  | load
  /-- at `Unlock()`, to return false -/
  | refuse
  /-- at `inflightHandlers.Add(1)` -/
  | add
  /-- at `Unlock()` -/
  | unlock
  /-- at the `go` statement -/
  | go
  deriving DecidableEq

/-- The code of `WaitToStop`, with `beginStop` and the deferred call. -/
inductive StopPoint where
  /-- at `handlerLifecycleMu.Lock()` -/
  | lock
  /-- at `stopSignal.Load()` -/
  | load
  /-- at `Unlock()`, to return false -/
  | refuse
  /-- at `stopSignal.Store(true)` -/
  | store
  /-- at `close(stopCh)` -/
  | closeStopCh
  /-- at `Unlock()` -/
  | unlock
  /-- at `Broadcast()` -/
  | broadcast
  /-- at `tcpln.Close()` -/
  | closeListener
  /-- at `inflightHandlers.Wait()` -/
  | wait
  /-- at `CloseAllConnInPool()` -/
  | closeConns
  /-- at `closePbft()` -/
  | closePbft
  /-- at `publishShutdownComplete()` -/
  | publish
  deriving DecidableEq

/-- A goroutine, by where it is in its code. -/
inductive Goroutine where
  /-- `TcpListen`, before it listens -/
  | listen
  /-- at `Accept()` -/
  | accept
  /-- `handleClientRequest`, at `ReadBytes` -/
  | read
  /-- after it, at the first look at `stopSignal` -/
  | received (result : ReadResult)
  /-- at `tcpPoolLock.Lock()` -/
  | lockPool (msg : NodeMessage)
  /-- at the second look at `stopSignal` -/
  | recheck (msg : NodeMessage)
  /-- at the switch of `handleMessage` -/
  | handleMessage (msg : NodeMessage)
  /-- in a handler that `handleMessage` calls in its own goroutine -/
  | direct
  /-- at `tcpPoolLock.Unlock()` -/
  | unlockPool
  /-- in `launchTrackedHandler` -/
  | launch (point : LaunchPoint) (caller : LaunchCaller)
  /-- in `WaitToStop`, which `handleMessage` calls -/
  | stop (point : StopPoint)
  /-- an admitted handler that runs -/
  | handler
  /-- after it, at `inflightHandlers.Done()` -/
  | handlerReturned
  /-- after that -/
  | handlerDone
  /-- `Propose`, or a routine that it starts -/
  | routine
  /-- at `<-stoppedCh` in `waitForShutdownComplete` -/
  | awaiting
  /-- after it -/
  | released
  /-- a goroutine that ended -/
  | ended
  deriving DecidableEq

/-- What is not determined by the code. -/
inductive Choice where
  /-- the next statement -/
  | next
  /-- `Accept` returns a connection -/
  | connect
  /-- `ReadBytes` returns -/
  | readBytes (result : ReadResult)
  /-- a call of `launchTrackedHandler` -/
  | launch
  /-- a `go` statement of `Propose` -/
  | start
  /-- `<-stopCh`, where `Propose` goes on to wait -/
  | await
  deriving DecidableEq

/-! ## Steps -/

/-- Where a caller of `launchTrackedHandler` goes on. -/
def LaunchCaller.resume : LaunchCaller → Goroutine
  | connection => .unlockPool
  | routine => .routine
  | handler => .handler

/-- What a step of a goroutine results in: the shared state, the goroutine itself, and
those it starts. -/
abbrev GoroutineStep : Type := NodeLifecycle × Goroutine × List Goroutine

/-- `launchTrackedHandler`. -/
def launchTrackedHandler (p : NodeLifecycle) (caller : LaunchCaller) :
    LaunchPoint → Option GoroutineStep
  | .lock =>
    if p.handlerLifecycleMu then none
    else some ({ p with handlerLifecycleMu := true }, .launch .load caller, [])
  | .load => some (p, .launch (if p.stopSignal then .refuse else .add) caller, [])
  | .refuse => some ({ p with handlerLifecycleMu := false }, caller.resume, [])
  | .add =>
    some ({ p with inflightHandlers := p.inflightHandlers + 1 }, .launch .unlock caller, [])
  | .unlock => some ({ p with handlerLifecycleMu := false }, .launch .go caller, [])
  | .go => some (p, caller.resume, [.handler])

/-- `WaitToStop`. -/
def waitToStop (p : NodeLifecycle) : StopPoint → Option GoroutineStep
  | .lock =>
    if p.handlerLifecycleMu then none
    else some ({ p with handlerLifecycleMu := true }, .stop .load, [])
  | .load => some (p, .stop (if p.stopSignal then .refuse else .store), [])
  | .refuse => some ({ p with handlerLifecycleMu := false }, .unlockPool, [])
  | .store => some ({ p with stopSignal := true }, .stop .closeStopCh, [])
  | .closeStopCh => some ({ p with stopCh := p.stopCh + 1 }, .stop .unlock, [])
  | .unlock => some ({ p with handlerLifecycleMu := false }, .stop .broadcast, [])
  | .broadcast => some (p, .stop .closeListener, [])
  | .closeListener => some ({ p with tcpln := false }, .stop .wait, [])
  | .wait => if p.inflightHandlers = 0 then some (p, .stop .closeConns, []) else none
  | .closeConns => some (p, .stop .closePbft, [])
  | .closePbft => some ({ p with closedChain := p.closedChain + 1 }, .stop .publish, [])
  | .publish =>
    if p.shutdownDoneOnce then some (p, .unlockPool, [])
    else some ({ p with shutdownDoneOnce := true, stoppedCh := p.stoppedCh + 1 }, .unlockPool, [])

/-- `handleMessage`: where the switch leads. -/
def NodeMessage.handle : NodeMessage → Goroutine
  | prePrepare | prepare | commit | outside => .launch .lock .connection
  | viewChangePropose | newChange | requestOldrequest | sendOldrequest => .direct
  | stop => .stop .lock

/-- One step of a goroutine. -/
def goroutineStep (p : NodeLifecycle) : Goroutine → Choice → Option GoroutineStep
  | .listen, .next => some ({ p with tcpln := true }, .accept, [])
  | .accept, .connect => if p.tcpln then some (p, .accept, [.read]) else none
  | .accept, .next => some (p, .ended, [])
  | .read, .readBytes result => some (p, .received result, [])
  | .received result, .next =>
    if p.stopSignal then some (p, .ended, [])
    else
      match result with
      | .line msg => some (p, .lockPool msg, [])
      | .eof | .failed => some (p, .ended, [])
  | .lockPool msg, .next =>
    if p.tcpPoolLock then none else some ({ p with tcpPoolLock := true }, .recheck msg, [])
  | .recheck msg, .next =>
    some (p, if p.stopSignal then .unlockPool else .handleMessage msg, [])
  | .handleMessage msg, .next => some (p, msg.handle, [])
  | .direct, .next => some (p, .unlockPool, [])
  | .unlockPool, .next => some ({ p with tcpPoolLock := false }, .read, [])
  | .launch point caller, .next => launchTrackedHandler p caller point
  | .stop point, .next => waitToStop p point
  | .handler, .launch => some (p, .launch .lock .handler, [])
  | .handler, .next => some (p, .handlerReturned, [])
  | .handlerReturned, .next =>
    some ({ p with inflightHandlers := p.inflightHandlers - 1 }, .handlerDone, [])
  | .routine, .launch => some (p, .launch .lock .routine, [])
  | .routine, .start => some (p, .routine, [.routine])
  | .routine, .next => if 0 < p.stopCh then some (p, .ended, []) else none
  | .routine, .await => if 0 < p.stopCh then some (p, .awaiting, []) else none
  | .awaiting, .next => if 0 < p.stoppedCh then some (p, .released, []) else none
  | _, _ => none

/-- A node that starts: `go TcpListen()` and `Propose()`. -/
def startedNode : Pool NodeLifecycle Goroutine where
  shared :=
    { handlerLifecycleMu := false, tcpPoolLock := false, stopSignal := false, stopCh := 0,
      inflightHandlers := 0, tcpln := false, closedChain := 0, shutdownDoneOnce := false,
      stoppedCh := 0 }
  threads := [.listen, .routine]

/-- One step of the node. -/
abbrev nodeStep : Pool NodeLifecycle Goroutine → ℕ × Choice →
    Option (Pool NodeLifecycle Goroutine) :=
  Pool.step goroutineStep

/-! ## Where goroutines are -/

/-- Whether a caller of `launchTrackedHandler` holds `tcpPoolLock`. -/
def LaunchCaller.pool : LaunchCaller → ℕ
  | connection => 1
  | _ => 0

/-- Whether it is an admitted handler. -/
def LaunchCaller.running : LaunchCaller → ℕ
  | handler => 1
  | _ => 0

namespace Goroutine

/-- Whether it holds `handlerLifecycleMu`. -/
def lifecycle : Goroutine → ℕ
  | launch .load _ | launch .refuse _ | launch .add _ | launch .unlock _ => 1
  | stop .load | stop .refuse | stop .store | stop .closeStopCh | stop .unlock => 1
  | _ => 0

/-- Whether it holds `tcpPoolLock`. -/
def pool : Goroutine → ℕ
  | recheck _ | handleMessage _ | direct | unlockPool | stop _ => 1
  | launch _ caller => caller.pool
  | _ => 0

/-- Whether it saw that the node is not stopped, and acts on it under the lock. -/
def deciding : Goroutine → ℕ
  | launch .add _ | stop .store => 1
  | _ => 0

/-- Whether it set the stop signal, and has not closed the chain. -/
def stopping : Goroutine → ℕ
  | stop .closeStopCh | stop .unlock | stop .broadcast | stop .closeListener | stop .wait
  | stop .closeConns | stop .closePbft => 1
  | _ => 0

/-- Whether it set the stop signal, and has not closed `stopCh`. -/
def signalling : Goroutine → ℕ
  | stop .closeStopCh => 1
  | _ => 0

/-- Whether it waited for the handlers, and has not closed the chain. -/
def drained : Goroutine → ℕ
  | stop .closeConns | stop .closePbft => 1
  | _ => 0

/-- Whether it closed the chain, and has not published it. -/
def publishing : Goroutine → ℕ
  | stop .publish => 1
  | _ => 0

/-- The admitted handlers that are not done: it may be one, and it may be about to start
one. -/
def running : Goroutine → ℕ
  | launch .unlock caller | launch .go caller => 1 + caller.running
  | launch _ caller => caller.running
  | handler | handlerReturned => 1
  | _ => 0

/-- The handlers that were admitted, done or not. -/
def admitted : Goroutine → ℕ
  | handlerDone => 1
  | g => g.running

/-- Whether it handles a message, or is about to choose how. -/
def handling : Goroutine → ℕ
  | handleMessage _ | direct => 1
  | _ => 0

/-- Whether it is in `WaitToStop`, which closes connections and the chain. -/
def inStop : Goroutine → ℕ
  | stop _ => 1
  | _ => 0

/-- Whether it waited for the shutdown, which is over. -/
def returned : Goroutine → ℕ
  | released => 1
  | _ => 0

theorem deciding_le (g : Goroutine) : g.deciding ≤ g.lifecycle := by
  unfold deciding
  split
  · exact le_rfl
  · exact le_rfl
  · exact Nat.zero_le _

theorem drained_le (g : Goroutine) : g.drained ≤ g.stopping := by
  unfold drained
  split
  · exact le_rfl
  · exact le_rfl
  · exact Nat.zero_le _

theorem handling_add_inStop_le (g : Goroutine) : g.handling + g.inStop ≤ g.pool := by
  cases g
  case handleMessage => exact le_rfl
  case direct => exact le_rfl
  case stop => exact le_rfl
  all_goals exact Nat.zero_le _

end Goroutine

/-! ## What one step does -/

/-- What is known of a goroutine that takes a step. -/
structure StepReady (s : NodeLifecycle) (g : Goroutine) : Prop where
  /-- the lock it holds is taken -/
  lifecycle : 0 < g.lifecycle → s.handlerLifecycleMu = true
  /-- and the other one -/
  pool : 0 < g.pool → s.tcpPoolLock = true
  /-- it does not decide after the signal -/
  deciding : s.stopSignal = true → g.deciding = 0
  /-- or handle a message -/
  handling : s.stopSignal = true → g.handling = 0
  /-- nor publish twice -/
  publishing : 0 < g.publishing → s.shutdownDoneOnce = false

/-- What a step does to all that is counted. -/
structure StepEffect (s : NodeLifecycle) (g : Goroutine) (s' : NodeLifecycle) (g' : Goroutine)
    (new : List Goroutine) : Prop where
  /-- a lock is taken where it is free -/
  lifecycle : g'.lifecycle + (new.map Goroutine.lifecycle).sum + s.handlerLifecycleMu.toNat =
    g.lifecycle + s'.handlerLifecycleMu.toNat
  /-- and the other one -/
  pool : g'.pool + (new.map Goroutine.pool).sum + s.tcpPoolLock.toNat =
    g.pool + s'.tcpPoolLock.toNat
  /-- the signal stays -/
  signal : s.stopSignal = true → s'.stopSignal = true
  /-- it is set by a goroutine that decided to -/
  setter : s.stopSignal = false → s'.stopSignal = true → g.deciding = 1 ∧ g.inStop = 1
  /-- no goroutine decides after it -/
  deciding : s'.stopSignal = true → g'.deciding + (new.map Goroutine.deciding).sum = 0
  /-- or starts to handle a message -/
  handling : s'.stopSignal = true → g'.handling + (new.map Goroutine.handling).sum = 0
  /-- who sets the signal closes the chain -/
  stopping : g'.stopping + (new.map Goroutine.stopping).sum + s'.closedChain + s.stopSignal.toNat =
    g.stopping + s.closedChain + s'.stopSignal.toNat
  /-- and `stopCh` -/
  signalling : g'.signalling + (new.map Goroutine.signalling).sum + s'.stopCh + s.stopSignal.toNat =
    g.signalling + s.stopCh + s'.stopSignal.toNat
  /-- after the wait -/
  closing : s'.closedChain ≠ s.closedChain → g.drained = 1
  /-- who closes the chain publishes -/
  publishing : g'.publishing + (new.map Goroutine.publishing).sum + s'.stoppedCh + s.closedChain =
    g.publishing + s.stoppedCh + s'.closedChain
  /-- what is published stays -/
  published : s.stoppedCh ≤ s'.stoppedCh
  /-- and is published once -/
  once : s'.shutdownDoneOnce = true → s.shutdownDoneOnce = true ∨ 0 < s'.stoppedCh
  /-- the wait group counts -/
  inflight : s'.inflightHandlers + g.running =
    s.inflightHandlers + (g'.running + (new.map Goroutine.running).sum : ℕ)
  /-- a handler is admitted by a goroutine that decided to -/
  running : g.deciding = 0 → g'.running + (new.map Goroutine.running).sum ≤ g.running
  /-- and no other -/
  admitted : g.deciding = 0 → g'.admitted + (new.map Goroutine.admitted).sum = g.admitted
  /-- the wait ends where no handler is left -/
  drained : 0 < g'.drained + (new.map Goroutine.drained).sum + s'.closedChain →
    0 < g.drained + s.closedChain ∨ s.inflightHandlers = 0 ∧ g.deciding = 0
  /-- the wait for the shutdown, where it is published -/
  returned : 0 < g'.returned + (new.map Goroutine.returned).sum → 0 < g.returned ∨ 0 < s.stoppedCh

attribute [simp] LaunchCaller.pool LaunchCaller.running LaunchCaller.resume Goroutine.lifecycle
  Goroutine.pool Goroutine.deciding Goroutine.stopping Goroutine.signalling Goroutine.drained
  Goroutine.publishing Goroutine.running Goroutine.admitted Goroutine.handling Goroutine.inStop
  Goroutine.returned

variable {s s' : NodeLifecycle} {g g' : Goroutine} {new : List Goroutine}

theorem launchTrackedHandler_effect {caller : LaunchCaller} {point : LaunchPoint}
    (hok : StepReady s (.launch point caller))
    (h : launchTrackedHandler s caller point = some (s', g', new)) :
    StepEffect s (.launch point caller) s' g' new := by
  cases point
  case lock =>
    obtain ⟨hfree, h⟩ := Option.ite_none_left_eq_some.mp h
    obtain ⟨rfl, rfl, rfl⟩ := by simpa using h
    constructor <;> simp +contextual [hfree]
  case load =>
    obtain ⟨rfl, rfl, rfl⟩ := by simpa [launchTrackedHandler] using h
    rcases hstop : s.stopSignal
    · constructor <;> simp +contextual [hstop]
    · constructor <;> simp +contextual [hstop]
  case refuse =>
    obtain ⟨rfl, rfl, rfl⟩ := by simpa [launchTrackedHandler] using h
    have hmu := hok.lifecycle Nat.zero_lt_one
    cases caller <;> constructor <;> simp +contextual [hmu]
  case add =>
    obtain ⟨rfl, rfl, rfl⟩ := by simpa [launchTrackedHandler] using h
    -- the signal is not set, as it would be set under the lock
    have hstop : s.stopSignal = false :=
      Bool.eq_false_iff.mpr fun hset => absurd (hok.deciding hset) one_ne_zero
    constructor <;> simp +contextual [hstop, add_assoc]
  case unlock =>
    obtain ⟨rfl, rfl, rfl⟩ := by simpa [launchTrackedHandler] using h
    have hmu := hok.lifecycle Nat.zero_lt_one
    constructor <;> simp +contextual [hmu]
  case go =>
    obtain ⟨rfl, rfl, rfl⟩ := by simpa [launchTrackedHandler] using h
    cases caller <;> constructor <;> simp +contextual

theorem waitToStop_effect {point : StopPoint} (hok : StepReady s (.stop point))
    (h : waitToStop s point = some (s', g', new)) : StepEffect s (.stop point) s' g' new := by
  cases point
  case lock =>
    obtain ⟨hfree, h⟩ := Option.ite_none_left_eq_some.mp h
    obtain ⟨rfl, rfl, rfl⟩ := by simpa using h
    constructor <;> simp +contextual [hfree]
  case load =>
    obtain ⟨rfl, rfl, rfl⟩ := by simpa [waitToStop] using h
    rcases hstop : s.stopSignal
    · constructor <;> simp +contextual [hstop]
    · constructor <;> simp +contextual [hstop]
  case store =>
    obtain ⟨rfl, rfl, rfl⟩ := by simpa [waitToStop] using h
    have hstop : s.stopSignal = false :=
      Bool.eq_false_iff.mpr fun hset => absurd (hok.deciding hset) one_ne_zero
    constructor <;> simp +contextual [hstop, add_comm]
  case wait =>
    obtain ⟨hzero, h⟩ := Option.ite_none_right_eq_some.mp h
    obtain ⟨rfl, rfl, rfl⟩ := by simpa using h
    constructor <;> simp +contextual [hzero]
  case publish =>
    have honce := hok.publishing Nat.zero_lt_one
    obtain ⟨rfl, rfl, rfl⟩ := by simpa [waitToStop, honce] using h
    constructor <;> simp +contextual [add_comm]
  case refuse | unlock =>
    obtain ⟨rfl, rfl, rfl⟩ := by simpa [waitToStop] using h
    have hmu := hok.lifecycle Nat.zero_lt_one
    constructor <;> simp +contextual [hmu]
  case closeStopCh | broadcast | closeListener | closeConns | closePbft =>
    obtain ⟨rfl, rfl, rfl⟩ := by simpa [waitToStop] using h
    constructor <;> simp +contextual [add_comm, add_left_comm]

/-- **What a step does.** -/
theorem goroutineStep_effect {choice : Choice} (hok : StepReady s g)
    (h : goroutineStep s g choice = some (s', g', new)) : StepEffect s g s' g' new := by
  cases g
  case launch point caller =>
    cases choice
    case next => exact launchTrackedHandler_effect hok h
    all_goals cases h
  case stop point =>
    cases choice
    case next => exact waitToStop_effect hok h
    all_goals cases h
  case received result =>
    cases choice
    case next =>
      simp only [goroutineStep] at h
      split at h
      · obtain ⟨rfl, rfl, rfl⟩ := by simpa using h
        constructor <;> simp +contextual
      · cases result
        case line msg =>
          obtain ⟨rfl, rfl, rfl⟩ := by simpa using h
          constructor <;> simp +contextual
        case eof | failed =>
          obtain ⟨rfl, rfl, rfl⟩ := by simpa using h
          constructor <;> simp +contextual
    all_goals cases h
  case lockPool msg =>
    cases choice
    case next =>
      obtain ⟨hfree, h⟩ := Option.ite_none_left_eq_some.mp h
      obtain ⟨rfl, rfl, rfl⟩ := by simpa using h
      constructor <;> simp +contextual [hfree]
    all_goals cases h
  case recheck msg =>
    cases choice
    case next =>
      obtain ⟨rfl, rfl, rfl⟩ := by simpa [goroutineStep] using h
      rcases hstop : s.stopSignal
      · constructor <;> simp +contextual [hstop]
      · constructor <;> simp +contextual [hstop]
    all_goals cases h
  case handleMessage msg =>
    cases choice
    case next =>
      obtain ⟨rfl, rfl, rfl⟩ := by simpa [goroutineStep] using h
      have hstop : s.stopSignal = false :=
        Bool.eq_false_iff.mpr fun hset => absurd (hok.handling hset) one_ne_zero
      cases msg <;> constructor <;> simp +contextual [NodeMessage.handle, hstop]
    all_goals cases h
  case unlockPool =>
    cases choice
    case next =>
      obtain ⟨rfl, rfl, rfl⟩ := by simpa [goroutineStep] using h
      have hpool := hok.pool Nat.zero_lt_one
      constructor <;> simp +contextual [hpool]
    all_goals cases h
  case accept =>
    cases choice
    case next =>
      obtain ⟨rfl, rfl, rfl⟩ := by simpa [goroutineStep] using h
      constructor <;> simp +contextual
    case connect =>
      obtain ⟨-, h⟩ := Option.ite_none_right_eq_some.mp h
      obtain ⟨rfl, rfl, rfl⟩ := by simpa using h
      constructor <;> simp +contextual
    all_goals cases h
  case read =>
    cases choice
    case readBytes result =>
      obtain ⟨rfl, rfl, rfl⟩ := by simpa [goroutineStep] using h
      constructor <;> simp +contextual
    all_goals cases h
  case handler =>
    cases choice
    case next | launch =>
      obtain ⟨rfl, rfl, rfl⟩ := by simpa [goroutineStep] using h
      constructor <;> simp +contextual
    all_goals cases h
  case routine =>
    cases choice
    case launch | start =>
      obtain ⟨rfl, rfl, rfl⟩ := by simpa [goroutineStep] using h
      constructor <;> simp +contextual
    case next | await =>
      obtain ⟨-, h⟩ := Option.ite_none_right_eq_some.mp h
      obtain ⟨rfl, rfl, rfl⟩ := by simpa using h
      constructor <;> simp +contextual
    all_goals cases h
  case awaiting =>
    cases choice
    case next =>
      obtain ⟨hpublished, h⟩ := Option.ite_none_right_eq_some.mp h
      obtain ⟨rfl, rfl, rfl⟩ := by simpa using h
      constructor <;> simp +contextual [hpublished]
    all_goals cases h
  case listen | direct | handlerReturned =>
    cases choice
    case next =>
      obtain ⟨rfl, rfl, rfl⟩ := by simpa [goroutineStep] using h
      constructor <;> simp +contextual
    all_goals cases h
  case handlerDone | released | ended => cases choice <;> cases h

/-! ## The invariant -/

/-- What holds at every point of every interleaving. -/
structure ShutdownOrder (p : Pool NodeLifecycle Goroutine) : Prop where
  /-- one goroutine holds the lifecycle lock, or none -/
  lifecycle : p.total Goroutine.lifecycle = p.shared.handlerLifecycleMu.toNat
  /-- and the pool lock -/
  pool : p.total Goroutine.pool = p.shared.tcpPoolLock.toNat
  /-- who decides under the lock decides before the signal -/
  deciding : p.shared.stopSignal = true → p.total Goroutine.deciding = 0
  /-- as does who handles a message -/
  handling : p.shared.stopSignal = true → p.total Goroutine.handling = 0
  /-- the signal is set by one goroutine, which goes on to close the chain -/
  stopping : p.total Goroutine.stopping + p.shared.closedChain = p.shared.stopSignal.toNat
  /-- and `stopCh` -/
  signalling : p.total Goroutine.signalling + p.shared.stopCh = p.shared.stopSignal.toNat
  /-- the chain is closed before that is published -/
  publishing : p.total Goroutine.publishing + p.shared.stoppedCh = p.shared.closedChain
  /-- what is published is published once -/
  once : p.shared.shutdownDoneOnce = true → 0 < p.shared.stoppedCh
  /-- the wait group counts the handlers -/
  inflight : p.shared.inflightHandlers = p.total Goroutine.running
  /-- none is left once the wait is over -/
  drained : 0 < p.total Goroutine.drained + p.shared.closedChain → p.total Goroutine.running = 0
  /-- who waited for the shutdown waited for what is published -/
  returned : 0 < p.total Goroutine.returned → 0 < p.shared.stoppedCh

theorem startedNode_order : ShutdownOrder startedNode := by
  constructor <;> decide

variable {p p' : Pool NodeLifecycle Goroutine}

/-- A goroutine of the node is ready for its step. -/
theorem ShutdownOrder.ready (h : ShutdownOrder p) (hle : ∀ w, w g ≤ p.total w) :
    StepReady p.shared g where
  lifecycle := fun hpos => by
    have := h.lifecycle ▸ hle Goroutine.lifecycle
    exact Bool.toNat_eq_one.mp (by have := p.shared.handlerLifecycleMu.toNat_le; omega)
  pool := fun hpos => by
    have := h.pool ▸ hle Goroutine.pool
    exact Bool.toNat_eq_one.mp (by have := p.shared.tcpPoolLock.toNat_le; omega)
  deciding := fun hset => Nat.le_zero.mp (h.deciding hset ▸ hle Goroutine.deciding)
  handling := fun hset => Nat.le_zero.mp (h.handling hset ▸ hle Goroutine.handling)
  publishing := fun hpos => by
    -- the chain was closed once, and nothing is published yet
    have hclosed := h.stopping
    have hpublished := h.publishing
    have hle := hle Goroutine.publishing
    have := p.shared.stopSignal.toNat_le
    exact Bool.eq_false_iff.mpr fun honce => by
      have := h.once honce
      omega

/-- **Every step of every goroutine keeps the order.** -/
theorem ShutdownOrder.step (h : ShutdownOrder p) {e : ℕ × Choice} (hs : nodeStep p e = some p') :
    ShutdownOrder p' := by
  obtain ⟨g, s', g', new, hstep, rfl, hle, htotal⟩ := Pool.step_cases hs
  have heffect := goroutineStep_effect (h.ready hle) hstep
  have hdeciding : p.total Goroutine.deciding ≤ p.total Goroutine.lifecycle :=
    Pool.total_mono Goroutine.deciding_le
  have hhandling : p.total Goroutine.handling + p.total Goroutine.inStop ≤ p.total Goroutine.pool :=
    Pool.total_add_le Goroutine.handling_add_inStop_le
  have hone := p.shared.handlerLifecycleMu.toNat_le
  have hpoolOne := p.shared.tcpPoolLock.toNat_le
  constructor
  · have := htotal Goroutine.lifecycle
    have := heffect.lifecycle
    have := h.lifecycle
    omega
  · have := htotal Goroutine.pool
    have := heffect.pool
    have := h.pool
    omega
  · intro hset
    have ht := htotal Goroutine.deciding
    have hnew := heffect.deciding hset
    rcases hstop : p.shared.stopSignal
    · -- the signal is set in this step, by the only goroutine that holds the lock
      have hsetter := (heffect.setter hstop hset).1
      have := h.lifecycle
      omega
    · have := h.deciding hstop
      omega
  · intro hset
    have ht := htotal Goroutine.handling
    have hnew := heffect.handling hset
    rcases hstop : p.shared.stopSignal
    · -- who sets the signal holds the pool lock as well
      have hsetter := (heffect.setter hstop hset).2
      have := hle Goroutine.inStop
      have := h.pool
      omega
    · have := h.handling hstop
      omega
  · have := htotal Goroutine.stopping
    have := heffect.stopping
    have := h.stopping
    omega
  · have := htotal Goroutine.signalling
    have := heffect.signalling
    have := h.signalling
    omega
  · have := htotal Goroutine.publishing
    have := heffect.publishing
    have := h.publishing
    omega
  · intro honce
    rcases heffect.once honce with hbefore | hnow
    · exact (h.once hbefore).trans_le heffect.published
    · exact hnow
  · have := htotal Goroutine.running
    have := heffect.inflight
    have := h.inflight
    omega
  · intro hdrained
    have ht := htotal Goroutine.drained
    have hrunning := htotal Goroutine.running
    have hdrainedBefore : p.total Goroutine.drained ≤ p.total Goroutine.stopping :=
      Pool.total_mono Goroutine.drained_le
    -- either the wait was over before, or it ends in this step
    have hbefore : p.total Goroutine.running = 0 ∧ g.deciding = 0 := by
      by_cases hover : 0 < p.total Goroutine.drained + p.shared.closedChain
      · have hset : p.shared.stopSignal = true := by
          have := h.stopping
          exact Bool.toNat_eq_one.mp (by have := p.shared.stopSignal.toNat_le; omega)
        have := h.deciding hset
        have := hle Goroutine.deciding
        exact ⟨h.drained hover, by omega⟩
      · have := hle Goroutine.drained
        rcases heffect.drained (by omega) with hpos | ⟨hzero, hdecide⟩
        · omega
        · have := h.inflight
          exact ⟨by omega, hdecide⟩
    have := heffect.running hbefore.2
    omega
  · intro hreturned
    have ht := htotal Goroutine.returned
    have hle := hle Goroutine.returned
    by_cases hbefore : 0 < p.total Goroutine.returned
    · exact (h.returned hbefore).trans_le heffect.published
    · rcases heffect.returned (by omega) with hpos | hpublished
      · omega
      · exact hpublished.trans_le heffect.published

/-- **After the signal nothing is admitted.** -/
theorem ShutdownOrder.admitted_step (h : ShutdownOrder p) {e : ℕ × Choice}
    (hs : nodeStep p e = some p') (hset : p.shared.stopSignal = true) :
    p'.shared.stopSignal = true ∧ p'.total Goroutine.admitted = p.total Goroutine.admitted := by
  obtain ⟨g, s', g', new, hstep, rfl, hle, htotal⟩ := Pool.step_cases hs
  have hready := h.ready hle
  have heffect := goroutineStep_effect hready hstep
  have := heffect.admitted (hready.deciding hset)
  have := htotal Goroutine.admitted
  exact ⟨heffect.signal hset, by omega⟩

/-- The chain is closed when the handlers are done. -/
theorem ShutdownOrder.closing_step (h : ShutdownOrder p) {e : ℕ × Choice}
    (hs : nodeStep p e = some p') (hclose : p'.shared.closedChain ≠ p.shared.closedChain) :
    p.total Goroutine.running = 0 := by
  obtain ⟨g, s', g', new, hstep, rfl, hle, -⟩ := Pool.step_cases hs
  have hdrained := (goroutineStep_effect (h.ready hle) hstep).closing hclose
  have := hle Goroutine.drained
  exact h.drained (by omega)

theorem ShutdownOrder.closed_le (h : ShutdownOrder p) : p.shared.closedChain ≤ 1 := by
  have := h.stopping
  have := p.shared.stopSignal.toNat_le
  omega

/-- Neither channel is closed twice, which would panic. -/
theorem ShutdownOrder.channels_le (h : ShutdownOrder p) :
    p.shared.stopCh ≤ 1 ∧ p.shared.stoppedCh ≤ 1 := by
  have := h.signalling
  have := h.publishing
  have := h.closed_le
  have := p.shared.stopSignal.toNat_le
  omega

/-- What holds of the chain while it is closed. -/
theorem ShutdownOrder.closed (h : ShutdownOrder p) (hclosed : 0 < p.shared.closedChain) :
    p.total Goroutine.running = 0 ∧ p.total Goroutine.handling = 0 := by
  have := h.stopping
  have hset : p.shared.stopSignal = true :=
    Bool.toNat_eq_one.mp (by have := p.shared.stopSignal.toNat_le; omega)
  exact ⟨h.drained (by omega), h.handling hset⟩

/-- **The order holds in every interleaving.** -/
theorem reaches_order (hr : Reaches nodeStep (fun _ _ => True) startedNode p) : ShutdownOrder p :=
  hr.invariant ShutdownOrder startedNode_order fun _ _ _ h _ hs => h.step hs

/-- **Shutdown is safe in every interleaving**: nothing is admitted after the stop signal;
the chain is closed at most once, in a state without an admitted handler, and none runs
afterwards; and the shutdown is published, and its waiters go on, when it is closed. -/
theorem shutdown_safe (hr : Reaches nodeStep (fun _ _ => True) startedNode p) :
    (p.shared.stopSignal = true → ∀ p', Reaches nodeStep (fun _ _ => True) p p' →
      p'.total Goroutine.admitted = p.total Goroutine.admitted) ∧
    p.shared.closedChain ≤ 1 ∧
    (∀ e p', nodeStep p e = some p' → p'.shared.closedChain ≠ p.shared.closedChain →
      p.total Goroutine.running = 0) ∧
    (0 < p.shared.closedChain →
      p.total Goroutine.running = 0 ∧ p.total Goroutine.handling = 0) ∧
    (0 < p.shared.stoppedCh → p.shared.closedChain = 1) ∧
    (0 < p.total Goroutine.returned → p.shared.closedChain = 1) := by
  have h := reaches_order hr
  have hle := h.closed_le
  have hpublished : 0 < p.shared.stoppedCh → p.shared.closedChain = 1 := by
    have := h.publishing
    omega
  refine ⟨fun hset p' hr' => ?_, hle, fun e p' hs => h.closing_step hs, h.closed, hpublished,
    fun hreturned => hpublished (h.returned hreturned)⟩
  have hlater := hr'.invariant (fun q => ShutdownOrder q ∧ q.shared.stopSignal = true ∧
    q.total Goroutine.admitted = p.total Goroutine.admitted) ⟨h, hset, rfl⟩ ?_
  · exact hlater.2.2
  · rintro q e q' ⟨hq, hqset, hsame⟩ - hs
    obtain ⟨hset', hsame'⟩ := hq.admitted_step hs hqset
    exact ⟨hq.step hs, hset', hsame'.trans hsame⟩

/-- A handler is admitted, two stop messages arrive, and `Propose` waits for the end. -/
theorem shutdown_safe_stop : ∃ p : Pool NodeLifecycle Goroutine,
    0 < p.total Goroutine.returned ∧ p.shared.closedChain = 1 := by
  -- the first stop message is at its wait, the second behind it at the pool lock
  let waiting : Pool NodeLifecycle Goroutine :=
    { shared :=
        { handlerLifecycleMu := false, tcpPoolLock := true, stopSignal := true, stopCh := 1,
          inflightHandlers := 1, tcpln := false, closedChain := 0, shutdownDoneOnce := false,
          stoppedCh := 0 }
      threads := [.accept, .routine, .read, .stop .wait, .lockPool .stop, .handler] }
  have hfirst : runWith nodeStep (fun _ _ => True) startedNode
      ([(0, .next), (0, .connect), (0, .connect), (0, .connect), (2, .readBytes (.line .prepare)),
        (3, .readBytes (.line .stop)), (4, .readBytes (.line .stop)), (4, .next)] ++
        List.replicate 10 (2, .next) ++ List.replicate 11 (3, .next)) = some waiting := by
    decide +kernel
  have hsecond : (runWith nodeStep (fun _ _ => True) waiting
      ([(1, .await), (5, .next), (5, .next)] ++ List.replicate 5 (3, .next) ++
        List.replicate 2 (4, .next) ++ [(1, .next)])).any
      (fun p => decide (0 < p.total Goroutine.returned)) = true := by decide +kernel
  obtain ⟨p, hr, hreturned⟩ := Reaches.exists_of_runWith hsecond
  exact ⟨p, hreturned, (shutdown_safe ((Reaches.of_runWith hfirst).trans hr)).2.2.2.2.2 hreturned⟩

end BlockEmulator
