import SuperTinyKernel.KernelTask
import SuperTinyKernel.Library.Run

namespace SuperTinyKernel.Time

open Function

-- time::TimerHost. The tick task reads commands and scans the active timers, handler tasks run
-- the callbacks, and any context may issue commands. An event is one command, one timer of a
-- scan, one critical section of a handler, or one access of a caller to the shared state.

abbrev TimerId := Nat

-- delay and period are uint32_t, deadline and timestamp Ticks. The links of the timer are the
-- two lists of `Board`.
structure Timer where
  deadline : Int := 0
  timestamp : Int := 0
  period : Nat := 0
  delay : Nat := 0
  active : Bool := false
  pending : Bool := false
  rearming : Bool := false
  deriving DecidableEq,Repr

structure TimerInfo where
  active : Bool := false
  remaining : Nat := 0
  delay : Nat := 0
  period : Nat := 0
  deriving DecidableEq,Repr

def Timer.getRemainingTicks (x : Timer) (ticks : Int) : Nat :=
  if x.active = true ∧ 0 < x.deadline - ticks then (x.deadline - ticks).toNat % 4294967296 else 0

def Timer.info (x : Timer) (ticks : Int) : TimerInfo := ⟨x.active,x.getRemainingTicks ticks,x.delay,x.period⟩

inductive HostResult where
  | cancelled | invalidParam | queueFull | notReady | fail | ok | active | inactive | notPeriodic | queued
  deriving DecidableEq,Repr

inductive CommandId where
  | start | stop | reset | restart | startOrReset | setPeriod | activate | change | query | shutdown
  deriving DecidableEq,Repr

-- A task or an ISR of the application, or the callback that a handler task is running.
inductive Context (threads : Nat) where
  | task (k : Nat)
  | callback (i : Fin threads)
  deriving DecidableEq,Repr

-- The completion lies in the frame of the caller that waits for it.
structure TimerCommand (threads : Nat) where
  cmd : CommandId
  timer : Option TimerId
  timestamp : Int := 0
  delay : Nat := 0
  period : Nat := 0
  completion : Option (Context threads) := none
  deriving DecidableEq,Repr

-- The timer whose m_rearming flag PushCommand tests and sets for this command.
def TimerCommand.rearmed (c : TimerCommand threads) : Option TimerId :=
  if (c.cmd = .restart ∨ c.cmd = .startOrReset) ∧ c.completion = none then c.timer else none

structure Board where
  timers : TimerId → Timer := fun _ => {}
  active : List TimerId := []
  readyList : List TimerId := []

namespace Board

def modify (b : Board) (t : TimerId) (f : Timer → Timer) : Board :=
  {b with timers := update b.timers t (f (b.timers t))}

-- Linking a linked timer is only asserted against and corrupts the list.
def link (b : Board) (t : TimerId) : Option Board :=
  if t ∈ b.active then none else some {b with active := b.active ++ [t]}

def unlink (b : Board) (t : TimerId) : Board := {b with active := b.active.erase t}

def linkReady (b : Board) (t : TimerId) : Option Board :=
  if t ∈ b.readyList then none else some {b with readyList := b.readyList ++ [t]}

def popReady (b : Board) (rest : List TimerId) : Board := {b with readyList := rest}

def cancelPending (b : Board) (polled : Bool) (t : TimerId) : Board :=
  let cancelled := b.modify t fun x => {x with pending := false}
  if polled then cancelled else {cancelled with readyList := b.readyList.erase t}

def release (b : Board) : Board where
  timers t := if t ∈ b.active then {b.timers t with active := false,pending := false,rearming := false} else b.timers t
  active := []
  readyList := b.readyList

-- The switch of ProcessCommands for timer `t`: the new next_sleep and the result for a
-- synchronous caller.
def execute (b : Board) (polled : Bool) (c : TimerCommand threads) (t : TimerId) (sleep : Int) :
    Option (Board × Int × HostResult) :=
  let x := b.timers t
  match c.cmd with
  | .start =>
    if x.active then some (b,sleep,.active) else do
      let armed := b.modify t fun x => {x with deadline := c.timestamp + c.delay,delay := c.delay,period := c.period,active := true}
      let linked ← (armed.cancelPending polled t).link t
      some (linked,noWait,.ok)
  | .activate =>
    if x.active then some (b,sleep,.active) else do
      let armed := b.modify t fun x => {x with deadline := c.timestamp + x.delay,active := true}
      let linked ← (armed.cancelPending polled t).link t
      some (linked,noWait,.ok)
  | .stop =>
    let stopped := b.modify t fun x => {x with active := false}
    some ((stopped.cancelPending polled t).unlink t,sleep,if x.active then .ok else .inactive)
  | .reset =>
    if x.active = true ∧ x.period ≠ 0 then
      let reset := b.modify t fun x => {x with deadline := c.timestamp + x.period}
      some (reset.cancelPending polled t,noWait,.ok)
    else some (b,sleep,if x.active then .notPeriodic else .inactive)
  | .restart => do
      let armed := (b.unlink t).modify t fun x =>
        {x with deadline := c.timestamp + c.delay,delay := c.delay,period := c.period,active := true,rearming := false}
      let linked ← (armed.cancelPending polled t).link t
      some (linked,noWait,.ok)
  | .startOrReset =>
    if x.active then
      if x.period ≠ 0 then
        let reset := b.modify t fun x => {x with deadline := c.timestamp + x.period}
        some (reset.cancelPending polled t,noWait,.ok)
      else some (b,noWait,.notPeriodic)
    else do
      let armed := b.modify t fun x =>
        {x with deadline := c.timestamp + c.delay,delay := c.delay,period := c.period,active := true,rearming := false}
      let linked ← (armed.cancelPending polled t).link t
      some (linked,noWait,.ok)
  | .setPeriod =>
    if x.active = true ∧ x.period ≠ 0 then some (b.modify t fun x => {x with period := c.period},sleep,.ok)
    else some (b,sleep,if x.active then .notPeriodic else .inactive)
  | .change =>
    if x.active then some (b,sleep,.active)
    else some (b.modify t fun x => {x with delay := c.delay,period := c.period},sleep,.ok)
  | .query => some (b,sleep,.ok)
  | .shutdown => none

def castTimeout (d : Int) : Int := d.bmod 4294967296

-- How ScanTimers takes a timer into account that is `left` ticks away from its deadline.
def nextSleep (sleep left : Int) : Int :=
  let next := if castTimeout left ≤ 0 then noWait else castTimeout left
  if next < sleep then next else sleep

def handOver (b : Board) (polled : Bool) (t : TimerId) : Option Board :=
  if polled then some (b.modify t fun x => {x with pending := false}) else b.linkReady t

def visit (b : Board) (polled : Bool) (now : Int) (t : TimerId) (sleep : Int) : Option (Board × Int) :=
  let x := b.timers t
  if x.active then
    if x.pending then some (b,sleep)
    else
      let diff := now - x.deadline
      if 0 ≤ diff then
        if x.period ≠ 0 then do
          let expired := b.modify t fun x => {x with timestamp := now,pending := true,deadline := now + x.period - diff}
          let handed ← expired.handOver polled t
          some (handed,nextSleep sleep ((handed.timers t).deadline - now))
        else do
          let expired := (b.unlink t).modify t fun x => {x with timestamp := now,pending := true,active := false}
          let handed ← expired.handOver polled t
          some (handed,sleep)
      else some (b,nextSleep sleep (x.deadline - now))
  else some (b.unlink t,sleep)

end Board

-- The tick task is inside Read() with next_sleep since the given tick, in the loop of
-- ScanTimers, or behind the loop of UpdateTime. In polled mode the caller of Process() takes
-- the same way.
inductive TickTask where
  | off
  | reading (sleep since : Int)
  | scanning (rest : List TimerId) (sleep : Int)
  | stopping
  | unlinking
  | exited
  deriving DecidableEq,Repr

-- The m_ready_event that a looping handler may wait for only delays it.
inductive Handler (threads : Nat) where
  | off
  | looping
  | calling (slot : Option (Fin threads)) (t : TimerId)
  | exited
  deriving DecidableEq,Repr

-- Where a caller is: inside Write() of PushCommand, with the result to return then, waiting
-- for its completion, behind it, or in WaitCallbackDone with the next slot to look at.
inductive Stage (threads : Nat) where
  | idle
  | pushing (c : TimerCommand threads) (blocking : Bool) (accepted : HostResult)
  | waiting (c : TimerCommand threads)
  | completed (c : TimerCommand threads) (result : HostResult) (info : TimerInfo)
  | polling (t : TimerId) (result : HostResult) (slot : Nat) (running : Bool)
  | returned (result : HostResult) (info : Option TimerInfo)
  deriving DecidableEq,Repr

inductive Request where
  | start (t : TimerId) (delay period : Nat)
  | stop (t : TimerId)
  | reset (t : TimerId)
  | restart (t : TimerId) (delay period : Nat)
  | startOrReset (t : TimerId) (delay period : Nat)
  | setPeriod (t : TimerId) (period : Nat)
  | shutdown
  | startSync (t : TimerId) (delay period : Nat)
  | activateSync (t : TimerId)
  | stopSync (t : TimerId)
  | restartSync (t : TimerId) (delay period : Nat)
  | resetSync (t : TimerId)
  | setPeriodSync (t : TimerId) (period : Nat)
  | changeSync (t : TimerId) (delay period : Nat)
  | querySync (t : TimerId)
  deriving DecidableEq,Repr

-- `mayWait`: the call is made by a task of a running kernel other than the tick task.
inductive HostEvent (threads : Nat) where
  | time
  | initializeTasks (added : Bool)
  | initializePolled
  | process
  | tickTask
  | interrupt
  | claim (i : Fin threads)
  | finish (i : Fin threads)
  | call (k : Context threads) (r : Request) (mayWait : Bool)
  | write (k : Context threads) (mayWait : Bool)
  | cancel (k : Context threads)
  | collect (k : Context threads)
  | poll (k : Context threads)
  deriving DecidableEq,Repr

structure TimerHost (threads : Nat) where
  board : Board := {}
  commands : List (TimerCommand threads) := []
  now : Int := 0
  polled : Bool := false
  ready : Bool := false
  shutdown : Bool := false
  running : Fin threads → Option TimerId := fun _ => none
  ticks : Int := 0
  tick : TickTask := .off
  handlers : Fin threads → Handler threads := fun _ => .off
  stages : Context threads → Stage threads := fun _ => .idle

namespace Handler

def alive : Handler threads → Bool
  | .looping | .calling _ _ => true
  | _ => false

end Handler

namespace TimerHost

def setStage (h : TimerHost threads) (k : Context threads) (s : Stage threads) : TimerHost threads :=
  {h with stages := update h.stages k s}

def complete (h : TimerHost threads) (c : TimerCommand threads) (r : HostResult) (info : TimerInfo) : TimerHost threads :=
  match c.completion with
  | none => h
  | some k => h.setStage k (.completed c r info)

-- m_kernel is set in task mode.
def canWait (h : TimerHost threads) (mayWait : Bool) : Bool := h.ready && !h.polled && mayWait

-- Only the callbacks make calls from a host task.
def isHostTid (h : TimerHost threads) : Context threads → Bool
  | .task _ => false
  | .callback _ => !h.polled

-- PushCommand up to its Write().
def pushCommand (h : TimerHost threads) (k : Context threads) (c : TimerCommand threads) (blocking : Bool)
    (accepted : HostResult) : TimerHost threads :=
  if h.ready then
    match c.rearmed with
    | none => h.setStage k (.pushing c blocking accepted)
    | some t =>
      if (h.board.timers t).rearming then h.setStage k (.returned accepted none)
      else {h with board := h.board.modify t fun x => {x with rearming := true}}.setStage k (.pushing c blocking accepted)
  else h.setStage k (.returned .notReady none)

def execute (h : TimerHost threads) (k : Context threads) (mayWait : Bool) (cmd : CommandId) (t : TimerId)
    (delay period : Nat) : TimerHost threads :=
  if h.ready then
    if h.canWait mayWait then h.pushCommand k ⟨cmd,some t,h.ticks,delay,period,some k⟩ true .ok
    else if cmd = .query then h.setStage k (.returned .ok (some ((h.board.timers t).info h.ticks)))
    else h.pushCommand k ⟨cmd,some t,h.ticks,delay,period,none⟩ false .queued
  else h.setStage k (.returned .notReady none)

def request (h : TimerHost threads) (k : Context threads) (mayWait : Bool) : Request → TimerHost threads
  | .start t delay period =>
    if (h.board.timers t).active then h.setStage k (.returned .active none)
    else h.pushCommand k ⟨.start,some t,h.ticks,delay,period,none⟩ false .ok
  | .stop t =>
    if (h.board.timers t).active then h.pushCommand k ⟨.stop,some t,0,0,0,none⟩ false .ok
    else h.setStage k (.returned .inactive none)
  | .reset t =>
    if (h.board.timers t).active then
      if (h.board.timers t).period = 0 then h.setStage k (.returned .notPeriodic none)
      else h.pushCommand k ⟨.reset,some t,h.ticks,0,0,none⟩ false .ok
    else h.setStage k (.returned .inactive none)
  | .restart t delay period => h.pushCommand k ⟨.restart,some t,h.ticks,delay,period,none⟩ false .ok
  | .startOrReset t delay period => h.pushCommand k ⟨.startOrReset,some t,h.ticks,delay,period,none⟩ false .ok
  | .setPeriod t period =>
    if period = 0 ∨ waitInfinite < (period : Int) then h.setStage k (.returned .invalidParam none)
    else if (h.board.timers t).active then
      if (h.board.timers t).period = 0 then h.setStage k (.returned .notPeriodic none)
      else h.pushCommand k ⟨.setPeriod,some t,0,0,period,none⟩ false .ok
    else h.setStage k (.returned .inactive none)
  | .shutdown => h.pushCommand k ⟨.shutdown,none,0,0,0,none⟩ false .ok
  | .startSync t delay period => h.execute k mayWait .start t delay period
  | .activateSync t => h.execute k mayWait .activate t 0 0
  | .stopSync t => h.execute k mayWait .stop t 0 0
  | .restartSync t delay period => h.execute k mayWait .restart t delay period
  | .resetSync t => h.execute k mayWait .reset t 0 0
  | .setPeriodSync t period =>
    if period = 0 ∨ waitInfinite < (period : Int) then h.setStage k (.returned .invalidParam none)
    else h.execute k mayWait .setPeriod t 0 period
  | .changeSync t delay period => h.execute k mayWait .change t delay period
  | .querySync t => h.execute k mayWait .query t 0 0

-- A context makes one call at a time, a callback only while it runs.
def callable (h : TimerHost threads) (k : Context threads) : Bool :=
  (match h.stages k with
    | .idle | .returned _ _ => true
    | _ => false) &&
  (match k with
    | .task _ => true
    | .callback i => match h.handlers i with
        | .calling _ _ => true
        | _ => false)

-- A failed Write() takes the flag back.
def failWrite (h : TimerHost threads) (k : Context threads) (c : TimerCommand threads) (r : HostResult) : TimerHost threads :=
  let reverted := match c.rearmed with
    | none => h
    | some t => {h with board := h.board.modify t fun x => {x with rearming := false}}
  reverted.setStage k (.returned r none)

-- Write() of PushCommand. A full queue blocks a caller that can wait.
def write (h : TimerHost threads) (size : Nat) (k : Context threads) (mayWait : Bool) : Option (TimerHost threads) :=
  match h.stages k with
  | .pushing c blocking accepted =>
    if h.commands.length < size then
      let written := {h with commands := h.commands ++ [c]}
      some (if c.completion.isSome then written.setStage k (.waiting c) else written.setStage k (.returned accepted none))
    else if blocking then none
    else if h.canWait mayWait then some (h.setStage k (.pushing c true accepted))
    else some (h.failWrite k c .queueFull)
  | _ => none

-- CancelTaskWait on a caller blocked in Write().
def cancel (h : TimerHost threads) (size : Nat) (k : Context threads) : Option (TimerHost threads) :=
  match h.stages k with
  | .pushing c true _ => if h.commands.length < size then none else some (h.failWrite k c .cancelled)
  | _ => none

def collect (h : TimerHost threads) (k : Context threads) : Option (TimerHost threads) :=
  match h.stages k with
  | .completed c r info =>
    let ceased := h.setStage k (.returned r (if c.cmd = .query then some info else none))
    match c.timer with
    | none => some ceased
    | some t =>
      if c.cmd = .stop ∧ (r = .ok ∨ r = .inactive) ∧ h.isHostTid k = false then some (h.setStage k (.polling t r 0 false))
      else some ceased
  | _ => none

-- WaitCallbackDone looks at one slot after the other and starts again if it saw the timer.
def poll (h : TimerHost threads) (k : Context threads) : Option (TimerHost threads) :=
  match h.stages k with
  | .polling t r slot running =>
    if inside : slot < threads then
      some (h.setStage k (.polling t r (slot + 1) (running || decide (h.running ⟨slot,inside⟩ = some t))))
    else if running then some (h.setStage k (.polling t r 0 false))
    else some (h.setStage k (.returned r none))
  | _ => none

-- m_running[slot], if a slot was found.
def setRunning (h : TimerHost threads) (slot : Option (Fin threads)) (x : Option TimerId) : Fin threads → Option TimerId :=
  match slot with
  | none => h.running
  | some s => update h.running s x

def claim (h : TimerHost threads) (i : Fin threads) : Option (TimerHost threads) :=
  match h.handlers i with
  | .looping =>
    match h.board.readyList with
    | t :: rest =>
      let popped := h.board.popReady rest
      if (h.board.timers t).pending then
        let slot := (List.finRange threads).find? fun s => (h.running s).isNone
        some {h with
          board := popped.modify t fun x => {x with pending := false}
          running := h.setRunning slot (some t)
          handlers := update h.handlers i (.calling slot t)}
      else some {h with board := popped}
    | [] => if h.shutdown then some {h with handlers := update h.handlers i .exited} else none
  | _ => none

def finish (h : TimerHost threads) (i : Fin threads) : Option (TimerHost threads) :=
  match h.handlers i with
  | .calling slot _ =>
    if h.callable (.callback i) then
      some {h with
        running := h.setRunning slot none
        handlers := update h.handlers i .looping}
    else none
  | _ => none

def scan (h : TimerHost threads) : TimerHost threads :=
  {h with now := h.ticks,tick := .scanning h.board.active waitInfinite}

def processCommand (h : TimerHost threads) (sleep : Int) (c : TimerCommand threads) : Option (TimerHost threads) :=
  match c.timer with
  | some t => do
      let (board,sleep,r) ← h.board.execute h.polled c t sleep
      let info := if c.cmd = .query then (h.board.timers t).info h.ticks else {}
      some ({h with board := board,tick := .reading sleep h.ticks}.complete c r info)
  | none =>
    if c.cmd = .shutdown then
      if h.polled then some ({h with board := h.board.release,tick := .reading sleep h.ticks}.complete c .ok {})
      else some ({h with shutdown := true,tick := .stopping}.complete c .ok {})
    else none

-- The tick task, or the caller of Process() in polled mode.
def tickTask (h : TimerHost threads) : Option (TimerHost threads) :=
  match h.tick with
  | .reading sleep since =>
    match h.commands with
    | c :: rest => {h with commands := rest}.processCommand sleep c
    | [] => if sleep ≠ waitInfinite ∧ since + sleep ≤ h.ticks then some h.scan else none
  | .scanning (t :: rest) sleep => do
      let (board,sleep) ← h.board.visit h.polled h.now t sleep
      some {h with board := board,tick := .scanning rest sleep}
  | .scanning [] sleep =>
    if h.polled then some {h with tick := .off}
    else some {h with tick := .reading (if h.board.active.isEmpty then waitInfinite else sleep) h.ticks}
  | .stopping => some {h with ready := false,tick := .unlinking}
  | .unlinking => some {h with board := {h.board with active := []},tick := .exited}
  | .off | .exited => none

-- Read() of the tick task fails before its timeout.
def interrupt (h : TimerHost threads) : Option (TimerHost threads) :=
  match h.tick,h.commands with
  | .reading _ _,[] => some h.scan
  | _,_ => none

def vacant (h : TimerHost threads) : Bool :=
  decide (h.tick = .off ∨ h.tick = .exited) && (List.finRange threads).all fun i => !(h.handlers i).alive

-- The tick task starts with ProcessCommands(NO_WAIT). Handlers added before a failure only
-- wait.
def initializeTasks (h : TimerHost threads) (added : Bool) : Option (TimerHost threads) :=
  if h.vacant then
    let reset := {h with polled := false,ready := added,shutdown := false}
    some (if added then {reset with tick := .scanning [] noWait,handlers := fun _ => .looping} else reset)
  else none

def initializePolled (h : TimerHost threads) : Option (TimerHost threads) :=
  if h.vacant then some {h with polled := true,ready := true,tick := .off} else none

def process (h : TimerHost threads) : Option (TimerHost threads) :=
  if h.polled = true ∧ h.tick = .off then some {h with tick := .reading noWait h.ticks} else none

def step (size : Nat) (h : TimerHost threads) : HostEvent threads → Option (TimerHost threads)
  | .time => some {h with ticks := h.ticks + 1}
  | .initializeTasks added => h.initializeTasks added
  | .initializePolled => h.initializePolled
  | .process => h.process
  | .tickTask => h.tickTask
  | .interrupt => h.interrupt
  | .claim i => h.claim i
  | .finish i => h.finish i
  | .call k r mayWait => if h.callable k then some (h.request k mayWait r) else none
  | .write k mayWait => h.write size k mayWait
  | .cancel k => h.cancel size k
  | .collect k => h.collect k
  | .poll k => h.poll k

end TimerHost
def soleHandler : Fin 1 := Fin.last 0

end SuperTinyKernel.Time
