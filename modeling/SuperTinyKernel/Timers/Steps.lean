import SuperTinyKernel.Timers.Host

namespace SuperTinyKernel.Time

def Request.synchronous : Request → Bool
  | .start _ _ _ | .stop _ | .reset _ | .restart _ _ _ | .startOrReset _ _ _ | .setPeriod _ _ | .shutdown => false
  | _ => true

namespace TimerHost

variable {h : TimerHost threads}

-- The stages at the end of a turn of ProcessCommands, and the board that a failed write leaves.
def completed (h : TimerHost threads) (c : TimerCommand threads) (r : HostResult) (info : TimerInfo) :
    Context threads → Stage threads :=
  match c.completion with
  | none => h.stages
  | some k => Function.update h.stages k (.completed c r info)

def reverted (h : TimerHost threads) (c : TimerCommand threads) : Board :=
  match c.rearmed with
  | none => h.board
  | some t => h.board.modify t fun x => {x with rearming := false}

theorem complete_eq : h.complete c r info = {h with stages := h.completed c r info} := by
  unfold complete completed
  cases c.completion <;> rfl

theorem failWrite_eq : h.failWrite k c r = {h with board := h.reverted c,stages := Function.update h.stages k (.returned r none)} := by
  unfold failWrite reverted
  cases c.rearmed <;> rfl

theorem completed_own (own : c.completion = some k) : h.completed c r info k = .completed c r info := by simp [completed,own]

theorem completed_other (other : c.completion ≠ some k) : h.completed c r info k = h.stages k := by
  unfold completed
  cases own : c.completion with
  | none => rfl
  | some k' => exact Function.update_of_ne (by rintro rfl; exact other own) _ _

@[simp] theorem reverted_active : (h.reverted c).active = h.board.active := by unfold reverted; split <;> rfl
@[simp] theorem reverted_readyList : (h.reverted c).readyList = h.board.readyList := by unfold reverted; split <;> rfl

end TimerHost

inductive HostStep (size : Nat) (h : TimerHost threads) : HostEvent threads → TimerHost threads → Prop where
  | time : HostStep size h .time {h with ticks := h.ticks + 1}
  | start (vacant : h.vacant = true) : HostStep size h (.initializeTasks true)
      {h with polled := false,ready := true,shutdown := false,tick := .scanning [] noWait,handlers := fun _ => .looping}
  | startFailed (vacant : h.vacant = true) : HostStep size h (.initializeTasks false)
      {h with polled := false,ready := false,shutdown := false}
  | startPolled (vacant : h.vacant = true) : HostStep size h .initializePolled {h with polled := true,ready := true,tick := .off}
  | process (polled : h.polled = true) (idle : h.tick = .off) :
      HostStep size h .process {h with tick := .reading noWait h.ticks}
  | execute (at_ : h.tick = .reading sleep since) (read : h.commands = c :: rest) (on : c.timer = some t)
      (done : h.board.execute h.polled c t sleep = some (board,next,r)) (info : TimerInfo) : HostStep size h .tickTask
      {h with board := board,commands := rest,tick := .reading next h.ticks,stages := h.completed c r info}
  | release (at_ : h.tick = .reading sleep since) (read : h.commands = c :: rest) (on : c.timer = none)
      (cmd : c.cmd = .shutdown) (polled : h.polled = true) : HostStep size h .tickTask
      {h with board := h.board.release,commands := rest,tick := .reading sleep h.ticks,stages := h.completed c .ok {}}
  | leave (at_ : h.tick = .reading sleep since) (read : h.commands = c :: rest) (on : c.timer = none)
      (cmd : c.cmd = .shutdown) (tasks : h.polled = false) : HostStep size h .tickTask
      {h with commands := rest,shutdown := true,tick := .stopping,stages := h.completed c .ok {}}
  | scan (at_ : h.tick = .reading sleep since) (empty : h.commands = []) (e : HostEvent threads)
      (cause : e = .tickTask ∨ e = .interrupt) : HostStep size h e h.scan
  | visit (at_ : h.tick = .scanning (t :: rest) sleep)
      (visited : h.board.visit h.polled h.now t sleep = some (board,next)) :
      HostStep size h .tickTask {h with board := board,tick := .scanning rest next}
  | read (at_ : h.tick = .scanning [] sleep) (tasks : h.polled = false) : HostStep size h .tickTask
      {h with tick := .reading (if h.board.active.isEmpty then waitInfinite else sleep) h.ticks}
  | processed (at_ : h.tick = .scanning [] sleep) (polled : h.polled = true) :
      HostStep size h .tickTask {h with tick := .off}
  | close (at_ : h.tick = .stopping) : HostStep size h .tickTask {h with ready := false,tick := .unlinking}
  | unlink (at_ : h.tick = .unlinking) :
      HostStep size h .tickTask {h with board := {h.board with active := []},tick := .exited}
  | claim (loop : h.handlers i = .looping) (first : h.board.readyList = t :: rest)
      (pending : (h.board.timers t).pending = true) (slot : Option (Fin threads))
      (free : (List.finRange threads).find? (fun s => (h.running s).isNone) = slot) : HostStep size h (.claim i)
      {h with
        board := (h.board.popReady rest).modify t fun x => {x with pending := false}
        running := h.setRunning slot (some t)
        handlers := Function.update h.handlers i (.calling slot t)}
  | skip (loop : h.handlers i = .looping) (first : h.board.readyList = t :: rest)
      (handled : (h.board.timers t).pending = false) :
      HostStep size h (.claim i) {h with board := h.board.popReady rest}
  | exit (loop : h.handlers i = .looping) (empty : h.board.readyList = []) (shut : h.shutdown = true) :
      HostStep size h (.claim i) {h with handlers := Function.update h.handlers i .exited}
  | finish (calling : h.handlers i = .calling slot t) : HostStep size h (.finish i)
      {h with running := h.setRunning slot none,handlers := Function.update h.handlers i .looping}
  | refuse (able : h.callable k = true) (res : HostResult) (info : Option TimerInfo) :
      HostStep size h (.call k r mayWait) (h.setStage k (.returned res info))
  | push (able : h.callable k = true) (ready : h.ready = true) (plain : c.rearmed = none)
      (own : c.completion = none ∨ c.completion = some k ∧ h.canWait mayWait = true ∧ r.synchronous = true)
      (blocking : Bool) (accepted : HostResult) : HostStep size h (.call k r mayWait) (h.setStage k (.pushing c blocking accepted))
  | pushRearm (able : h.callable k = true) (ready : h.ready = true) (rearms : c.rearmed = some t)
      (unset : (h.board.timers t).rearming = false) (blocking : Bool) (accepted : HostResult) :
      HostStep size h (.call k r mayWait)
      ({h with board := h.board.modify t fun x => {x with rearming := true}}.setStage k (.pushing c blocking accepted))
  | write (pushing : h.stages k = .pushing c blocking accepted) (room : h.commands.length < size) (next : Stage threads)
      (waits : next = .waiting c ∧ c.completion.isSome = true ∨ next = .returned accepted none ∧ c.completion = none) :
      HostStep size h (.write k mayWait) ({h with commands := h.commands ++ [c]}.setStage k next)
  | block (pushing : h.stages k = .pushing c false accepted) :
      HostStep size h (.write k mayWait) (h.setStage k (.pushing c true accepted))
  | fail (pushing : h.stages k = .pushing c blocking accepted) (full : ¬h.commands.length < size) (res : HostResult)
      (e : HostEvent threads) (cause : (∃ mayWait,e = .write k mayWait) ∨ e = .cancel k) :
      HostStep size h e {h with board := h.reverted c,stages := Function.update h.stages k (.returned res none)}
  | collect (completed : h.stages k = .completed c r info) (result : Option TimerInfo) :
      HostStep size h (.collect k) (h.setStage k (.returned r result))
  | await (completed : h.stages k = .completed c r info) (on : c.timer = some t) (stop : c.cmd = .stop)
      (outsider : h.isHostTid k = false) : HostStep size h (.collect k) (h.setStage k (.polling t r 0 false))
  | poll (polling : h.stages k = .polling t r slot running) (inside : slot < threads) : HostStep size h (.poll k)
      (h.setStage k (.polling t r (slot + 1) (running || decide (h.running ⟨slot,inside⟩ = some t))))
  | again (polling : h.stages k = .polling t r slot true) :
      HostStep size h (.poll k) (h.setStage k (.polling t r 0 false))
  | return_ (polling : h.stages k = .polling t r slot false) (all : threads ≤ slot) :
      HostStep size h (.poll k) (h.setStage k (.returned r none))

namespace TimerHost

variable {h h' : TimerHost threads} {size : Nat}

theorem pushCommand_step (able : h.callable k = true)
    (own : c.completion = none ∨ c.completion = some k ∧ h.canWait mayWait = true ∧ r.synchronous = true)
    (blocking : Bool) (accepted : HostResult) : HostStep size h (.call k r mayWait) (h.pushCommand k c blocking accepted) := by
  unfold pushCommand
  split
  · rename_i ready
    split
    · rename_i plain
      exact .push able ready plain own blocking accepted
    · rename_i t rearms
      split
      · exact .refuse able _ _
      · rename_i unset
        exact .pushRearm able ready rearms (by simpa using unset) blocking accepted
  · exact .refuse able _ _

theorem execute_step (able : h.callable k = true) (synchronous : r.synchronous = true) :
    HostStep size h (.call k r mayWait) (h.execute k mayWait cmd t delay period) := by
  unfold execute
  split
  · split
    · rename_i wait
      exact pushCommand_step able (.inr ⟨rfl,wait,synchronous⟩) _ _
    · split
      · exact .refuse able _ _
      · exact pushCommand_step able (.inl rfl) _ _
  · exact .refuse able _ _

theorem request_step (able : h.callable k = true) (r : Request) :
    HostStep size h (.call k r mayWait) (h.request k mayWait r) := by
  cases r with
  | start | stop =>
    simp only [request]
    split
    · first | exact .refuse able _ _ | exact pushCommand_step able (.inl rfl) _ _
    · first | exact .refuse able _ _ | exact pushCommand_step able (.inl rfl) _ _
  | reset =>
    simp only [request]
    split
    · split
      · exact .refuse able _ _
      · exact pushCommand_step able (.inl rfl) _ _
    · exact .refuse able _ _
  | restart | startOrReset | shutdown =>
    simp only [request]
    exact pushCommand_step able (.inl rfl) _ _
  | setPeriod =>
    simp only [request]
    split
    · exact .refuse able _ _
    · split
      · split
        · exact .refuse able _ _
        · exact pushCommand_step able (.inl rfl) _ _
      · exact .refuse able _ _
  | setPeriodSync =>
    simp only [request]
    split
    · exact .refuse able _ _
    · exact execute_step able rfl
  | startSync | activateSync | stopSync | restartSync | resetSync | changeSync | querySync => exact execute_step able rfl

theorem processCommand_step (at_ : h.tick = .reading sleep since) (read : h.commands = c :: rest)
    (taken : {h with commands := rest}.processCommand sleep c = some h') : HostStep size h .tickTask h' := by
  unfold processCommand at taken
  split at taken
  · rename_i t on
    obtain ⟨⟨board,next,r⟩,done,taken⟩ := of_bind taken
    cases taken
    rw [complete_eq]
    exact .execute at_ read on done _
  · rename_i on
    split at taken
    · rename_i cmd
      split at taken
      · rename_i polled
        cases taken
        rw [complete_eq]
        exact .release at_ read on cmd polled
      · rename_i tasks
        cases taken
        rw [complete_eq]
        exact .leave at_ read on cmd (by simpa using tasks)
    · cases taken

theorem tickTask_step (taken : h.tickTask = some h') : HostStep size h .tickTask h' := by
  unfold tickTask at taken
  split at taken
  · rename_i sleep since at_
    split at taken
    · rename_i c rest read
      exact processCommand_step at_ read taken
    · rename_i empty
      split at taken
      · cases taken
        exact .scan at_ empty _ (.inl rfl)
      · cases taken
  · rename_i t rest sleep at_
    obtain ⟨⟨board,next⟩,visited,taken⟩ := of_bind taken
    cases taken
    exact .visit at_ visited
  · rename_i sleep at_
    split at taken
    · rename_i polled
      cases taken
      exact .processed at_ polled
    · rename_i tasks
      cases taken
      exact .read at_ (by simpa using tasks)
  · rename_i at_
    cases taken
    exact .close at_
  · rename_i at_
    cases taken
    exact .unlink at_
  · cases taken
  · cases taken

theorem claim_step (taken : h.claim i = some h') : HostStep size h (.claim i) h' := by
  unfold claim at taken
  split at taken
  · rename_i loop
    split at taken
    · rename_i t rest first
      simp only at taken
      split at taken
      · rename_i pending
        cases taken
        exact .claim loop first pending _ rfl
      · rename_i handled
        cases taken
        exact .skip loop first (by simpa using handled)
    · rename_i empty
      split at taken
      · rename_i shut
        cases taken
        exact .exit loop empty shut
      · cases taken
  · cases taken

theorem write_step (taken : h.write size k mayWait = some h') : HostStep size h (.write k mayWait) h' := by
  unfold write at taken
  split at taken
  · rename_i c blocking accepted pushing
    split at taken
    · rename_i room
      simp only at taken
      split at taken
      · rename_i waits
        cases taken
        exact .write pushing room _ (.inl ⟨rfl,waits⟩)
      · rename_i plain
        cases taken
        exact .write pushing room _ (.inr ⟨rfl,by simpa using plain⟩)
    · rename_i full
      split at taken
      · cases taken
      · rename_i direct
        obtain rfl : blocking = false := by simpa using direct
        split at taken
        · cases taken
          exact .block pushing
        · cases taken
          rw [failWrite_eq]
          exact .fail pushing full _ _ (.inl ⟨_,rfl⟩)
  · cases taken

theorem cancel_step (taken : h.cancel size k = some h') : HostStep size h (.cancel k) h' := by
  unfold cancel at taken
  split at taken
  · rename_i c accepted pushing
    split at taken
    · cases taken
    · rename_i full
      cases taken
      rw [failWrite_eq]
      exact .fail pushing full _ _ (.inr rfl)
  · cases taken

theorem collect_step (taken : h.collect k = some h') : HostStep size h (.collect k) h' := by
  unfold collect at taken
  split at taken
  · rename_i c r info completed
    simp only at taken
    split at taken
    · cases taken
      exact .collect completed _
    · rename_i t on
      split at taken
      · rename_i stops
        cases taken
        exact .await completed on stops.1 stops.2.2
      · cases taken
        exact .collect completed _
  · cases taken

theorem poll_step (taken : h.poll k = some h') : HostStep size h (.poll k) h' := by
  unfold poll at taken
  split at taken
  · rename_i t r slot running polling
    split at taken
    · rename_i inside
      cases taken
      exact .poll polling inside
    · rename_i all
      split at taken
      · rename_i seen
        cases taken
        exact .again (seen ▸ polling)
      · rename_i unseen
        obtain rfl : running = false := by simpa using unseen
        cases taken
        exact .return_ polling (Nat.le_of_not_lt all)
  · cases taken

theorem finish_step (taken : h.finish i = some h') : HostStep size h (.finish i) h' := by
  unfold finish at taken
  split at taken
  · rename_i slot t calling
    split at taken
    · cases taken
      exact .finish calling
    · cases taken
  · cases taken

theorem step_inv (taken : h.step size e = some h') : HostStep size h e h' := by
  cases e with
  | time => cases taken; exact .time
  | initializeTasks added =>
    simp only [step,initializeTasks] at taken
    split at taken
    · rename_i vacant
      cases added with
      | true => cases taken; exact .start vacant
      | false => cases taken; exact .startFailed vacant
    · cases taken
  | initializePolled =>
    simp only [step,initializePolled] at taken
    split at taken
    · rename_i vacant
      cases taken
      exact .startPolled vacant
    · cases taken
  | process =>
    simp only [step,process] at taken
    split at taken
    · rename_i idle
      cases taken
      exact .process idle.1 idle.2
    · cases taken
  | tickTask => exact tickTask_step taken
  | interrupt =>
    simp only [step,interrupt] at taken
    split at taken
    · rename_i sleep since at_ empty
      cases taken
      exact .scan at_ empty _ (.inr rfl)
    · cases taken
  | claim i => exact claim_step taken
  | finish i => exact finish_step taken
  | call k r mayWait =>
    simp only [step] at taken
    split at taken
    · rename_i able
      cases taken
      exact request_step able r
    · cases taken
  | write k mayWait => exact write_step taken
  | cancel k => exact cancel_step taken
  | collect k => exact collect_step taken
  | poll k => exact poll_step taken

end TimerHost
end SuperTinyKernel.Time
