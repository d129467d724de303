import SuperTinyKernel.Waiting

namespace SuperTinyKernel

open Transition KernelTask

inductive Watch where
  | idle
  | pending
  | fixed (result : WaitResult)
  deriving DecidableEq,Repr

namespace System

open Kernel

variable {c : Config n}

def entersWait (s : System c) (i : Fin n) : Event n → Bool
  | .wait _ _ => decide (s.caller = some i) && c.mode.isSync && !s.kernel.isLocked
  | _ => false

def returnsWait (s : System c) (i : Fin n) : Event n → Bool
  | .leave => decide (s.exec = some (.task i)) && decide (s.phase i = .spin .wait)
  | _ => false

def fixes (s : System c) (i : Fin n) : Event n → Option WaitResult
  | .wake o all => if s.endsWait i (.wake o all) then some .signal else none
  | .tick elapsed => if s.endsWait i (.tick elapsed) then some .timeout else none
  | .cancelTaskWait j => if s.endsWait i (.cancelTaskWait j) then some .canceled else none
  | .scheduleTaskRemoval tid =>
    if c.mode.isDynamic && decide (s.kernel.findTaskByUserTask tid = some i) && c.mode.isSync &&
      (s.tasks i).waitObj.isWaiting then some .canceled else none
  | _ => none

def watch (s : System c) (e : Event n) (_ : System c) (w : Fin n → Watch) : Fin n → Watch := fun i =>
  if s.entersWait i e then .pending
  else if s.returnsWait i e then .idle
  else match w i,s.fixes i e with
    | .pending,some r => .fixed r
    | w,_ => w

end System

structure Slot.Follows (slot : Slot) (phase : Phase) (w : Watch) : Prop where
  pending : slot.task.waitObj.state = .wait → w = .pending
  fixed : phase = .force .wait ∨ phase = .spin .wait → slot.task.waitObj.state ≠ .wait →
    w = .fixed slot.task.waitObj.getWaitResult

theorem Slot.Follows.kept {slot slot' : Slot} (follows : slot.Follows phase w)
    (same : slot'.task.waitObj = slot.task.waitObj)
    (call : phase' = .force .wait ∨ phase' = .spin .wait → phase = .force .wait ∨ phase = .spin .wait) :
    slot'.Follows phase' w := by
  refine ⟨fun waits => follows.pending (same ▸ waits),fun waits ended => ?_⟩
  rw [same] at ended ⊢
  exact follows.fixed (call waits) ended

namespace KernelTask

variable {t : KernelTask} {m : Mode} {elapsed : Int}

theorem dropWait_state (waits : (t.dropWait m).waitObj.state = .wait) : t.waitObj.state = .wait := by
  unfold dropWait at waits
  split at waits
  · cases waits
  · exact waits

theorem tickSync_pending (matched : t.Matched)
    (on : ¬(m.isSync = true ∧ t.waitObj.isWaiting = true ∧ (t.waitObj.tick elapsed).state ≠ .wait)) :
    (t.tickSync m elapsed).waitObj = t.waitObj ∨
      t.waitObj.state = .wait ∧ (t.tickSync m elapsed).waitObj.state = .wait := by
  unfold tickSync tickEntry
  split
  · rename_i both
    obtain ⟨sync,waiting⟩ := Bool.and_eq_true_iff.mp both
    split
    · rename_i waits
      exact .inr ⟨matched.mpr waiting,waits⟩
    · rename_i ends
      exact absurd ⟨sync,waiting,ends⟩ on
  · exact .inl rfl

end KernelTask

namespace Move

variable {c : Config n} {s : System c} {i : Fin n} {slot : Slot}

theorem follows (move : Move s i e slot phase) (before : (s.slot i).Follows (s.phase i) w)
    (outside : s.entersWait i e = false) (stays : s.returnsWait i e = false) (free : s.fixes i e = none) :
    slot.Follows phase w := by
  have call : ∀ {call : Call},call ≠ .wait →
      Phase.force call = .force .wait ∨ Phase.force call = .spin .wait →
      s.phase i = .force .wait ∨ s.phase i = .spin .wait := by
    intro call other waits
    rcases waits with waits | waits <;> cases waits
    exact absurd rfl other
  have user : Phase.user = .force .wait ∨ Phase.user = .spin .wait →
      s.phase i = .force .wait ∨ s.phase i = .spin .wait := by
    rintro (waits | waits) <;> cases waits
  cases move with
  | bind | bindHrt | leave => exact before.kept rfl user
  | sleep | sleepUntil | yieldSleep | yield | leaveExit => exact before.kept rfl (call (by decide))
  | wait caller sync unlocked => simp [System.entersWait,caller,sync,unlocked] at outside
  | exitTask | returnFromRun =>
    refine ⟨fun waits => before.pending (dropWait_state waits),fun waits => ?_⟩
    rcases waits with waits | waits <;> cases waits
  | scheduleTaskRemoval found dynamic =>
    have idle : ¬(c.mode.isSync && (s.tasks i).waitObj.isWaiting) = true := by
      intro both
      have found : s.kernel.findTaskByUserTask _ = some i := found
      rw [System.fixes,dynamic,decide_eq_true found,Bool.true_and,Bool.and_assoc,both] at free
      cases free
    have same : ((s.tasks i).dropWait c.mode).waitObj = (s.tasks i).waitObj := by
      rw [dropWait,if_neg idle]
    exact before.kept same id
  | signal member => simp [System.fixes,System.endsWait,member] at free
  | cancel sync waiting => simp [System.fixes,System.endsWait,sync,waiting] at free
  | suspend =>
    refine before.kept rfl fun waits => ?_
    split at waits
    · exact call (by decide) waits
    · exact waits
  | leaveWait executes spins => simp [System.returnsWait,executes,spins] at stays
  | _ => exact before.kept rfl id

end Move

namespace Slot

variable {c : Config n} {s : Slot} {elapsed : Int}

theorem waited_advanceSleep (reports : .waited r ∈ (s.advanceSleep c elapsed).notices) : .waited r ∈ s.notices := by
  have entered : (if s.task.sleepPending then s.settle c else s).notices = s.notices := by split <;> rfl
  unfold advanceSleep at reports
  dsimp only at reports
  split at reports
  · rw [entered] at reports; exact reports
  · split at reports
    · rw [entered] at reports; exact reports
    · split at reports
      · rw [entered] at reports; exact reports
      · rw [entered] at reports
        change .waited r ∈ c.wakeNotices s.notices at reports
        unfold Config.wakeNotices at reports
        split at reports
        · simpa using reports
        · exact reports

theorem waited_trackDuration (reports : .waited r ∈ (s.trackDuration c recovered elapsed).notices) :
    .waited r ∈ s.notices := by
  unfold trackDuration at reports
  split at reports
  · dsimp only at reports
    split at reports
    · simpa using reports
    · exact reports
  · exact reports

theorem waited_turn (reports : .waited r ∈ (s.turn c gone recovered elapsed).notices) : .waited r ∈ s.notices := by
  unfold turn at reports
  split at reports
  · split at reports
    · simpa [unbind,consumeYield] using reports
    · have reported := waited_advanceSleep reports
      exact reported
  · have reported := waited_trackDuration reports
    exact reported

end Slot

namespace Decides

variable {c : Config n} {s : System c} {i : Fin n} {slot : Slot}

theorem follows (decides : Decides s i e slot phase) (matched : (s.tasks i).Matched)
    (before : (s.slot i).Follows (s.phase i) w) (free : s.fixes i e = none) : slot.Follows phase w := by
  have spins : ∀ {call : Call},s.phase i = .force call → Phase.spin call = .force .wait ∨ Phase.spin call = .spin .wait →
      s.phase i = .force .wait ∨ s.phase i = .spin .wait := by
    rintro call forces (waits | waits) <;> cases waits
    exact .inl forces
  cases decides with
  | launch =>
    unfold Slot.launch
    split <;> exact before.kept rfl id
  | @turn elapsed =>
    have on : ¬(c.mode.isSync = true ∧ (s.tasks i).waitObj.isWaiting = true ∧
        ((s.tasks i).waitObj.tick elapsed).state ≠ .wait) := by
      rintro ⟨sync,waiting,ends⟩
      simp [System.fixes,System.endsWait,sync,waiting,ends] at free
    rcases tickSync_pending matched on with same | ⟨waits,still⟩
    · exact before.kept (Slot.waitObj_turn.trans same) id
    · refine ⟨fun _ => before.pending waits,fun _ ended => ?_⟩
      rw [Slot.withTs,Slot.waitObj_turn] at ended
      exact absurd still ended
  | enter _ forces | yield _ forces => exact before.kept rfl (spins forces)
  | pass => exact before.kept rfl id

theorem unreported (decides : Decides s i e slot phase) : .waited r ∉ slot.notices := by
  cases decides with
  | launch =>
    unfold Slot.launch
    split <;> exact List.not_mem_nil
  | turn =>
    intro reports
    have reported := Slot.waited_turn reports
    cases reported
  | enter | yield | pass => exact List.not_mem_nil

end Decides

namespace Change

variable {c : Config n} {s : System c} {i : Fin n} {slot : Slot}

theorem follows (change : Change s i e slot phase now) (matched : (s.tasks i).Matched)
    (before : (s.slot i).Follows (s.phase i) w) (outside : s.entersWait i e = false)
    (stays : s.returnsWait i e = false) (free : s.fixes i e = none) : slot.Follows phase w := by
  cases change with
  | move move => exact move.follows before outside stays free
  | stay _ forces =>
    refine before.kept rfl ?_
    rintro (waits | waits) <;> cases waits
    exact .inl forces
  | decide decides =>
    refine (decides.follows matched before free).kept ?_ id
    rw [Slot.waitObj_retire,Slot.select_task]

theorem reports (change : Change s i e slot phase now) (reported : .waited r ∈ slot.notices) :
    s.phase i = .spin .wait ∧ ¬(s.tasks i).timeSleep < 0 ∧ r = (s.tasks i).waitObj.getWaitResult := by
  cases change with
  | move move =>
    cases move with
    | leaveWait _ spins awake =>
      simp only [List.mem_singleton,Notice.waited.injEq] at reported
      exact ⟨spins,awake,reported⟩
    | unbind => simp [Slot.unbind,Slot.fresh] at reported
    | _ => cases reported
  | stay => cases reported
  | decide decides =>
    rename_i chosen leaves slot _ _
    rw [Slot.retire_notices] at reported
    unfold Slot.select at reported
    have reported : .waited r ∈ slot.notices := by
      split at reported
      · simpa using reported
      · exact reported
    exact absurd reported decides.unreported

end Change

namespace System

open Kernel

variable {c : Config n} {law : Lawful c.strategy} {s t : System c}

section

variable (sound : Sound law s)
include sound

theorem wake_recorded (taken : s.step (.wake o all) = some t)
    (ends : s.endsWait i (.wake o all) = true) : (t.tasks i).waitObj.state = .signaled := by
  obtain ⟨k',woke,rfl⟩ := of_return taken
  have slot := (wake_slots (fresh_filed sound.filed) woke).2 i
  have member : i ∈ s.kernel.fresh.signalled o all := of_decide_eq_true ends
  rw [if_pos member] at slot
  have task : k'.tasks i = (s.tasks i).endWait .signaled := congrArg Slot.task slot
  rw [show System.tasks {s with kernel := k'} i = _ from task]
  rfl

theorem cancel_recorded (taken : s.step (.cancelTaskWait j) = some t)
    (ends : s.endsWait i (.cancelTaskWait j) = true) : (t.tasks i).waitObj.state = .cancelled := by
  simp only [endsWait,Bool.and_eq_true,decide_eq_true_eq] at ends
  obtain ⟨⟨rfl,sync⟩,waiting⟩ := ends
  obtain ⟨k',cancelled,rfl⟩ := of_return taken
  have waiting : (s.kernel.fresh.tasks j).waitObj.isWaiting = true := waiting
  unfold Kernel.cancelTaskWait at cancelled
  rw [if_pos (by rw [sync,waiting]; rfl)] at cancelled
  have task := (endWait_acts (fresh_filed sound.filed) cancelled).2.task
  rw [show System.tasks {s with kernel := k'} j = _ from task]
  rfl

theorem removal_recorded (taken : s.step (.scheduleTaskRemoval tid) = some t)
    (dynamic : c.mode.isDynamic = true) (found : s.kernel.findTaskByUserTask tid = some i)
    (sync : c.mode.isSync = true) (waiting : (s.tasks i).waitObj.isWaiting = true) :
    (t.tasks i).waitObj.state = .cancelled := by
  obtain ⟨k',removed,rfl⟩ := of_return taken
  have found : s.kernel.fresh.findTaskByUserTask tid = some i := found
  unfold Kernel.scheduleTaskRemoval at removed
  rw [if_pos dynamic,found] at removed
  have task := (scheduleRemoval_acts (fresh_filed sound.filed) removed).task
  have dropped : ((s.tasks i).dropWait c.mode).waitObj.state = .cancelled := by
    rw [dropWait,if_pos (by rw [sync,waiting]; rfl)]
    rfl
  rw [show System.tasks {s with kernel := k'} i = _ from task]
  exact dropped

theorem tick_recorded (taken : s.step (.tick elapsed) = some t)
    (ends : s.endsWait i (.tick elapsed) = true) : (t.tasks i).waitObj.state = .timeout := by
  simp only [endsWait,Bool.and_eq_true,decide_eq_true_eq] at ends
  obtain ⟨⟨sync,waiting⟩,ends⟩ := ends
  have synced : ((s.tasks i).tickSync c.mode elapsed).waitObj.state = .timeout := by
    have ceased : ¬((s.tasks i).tickWait elapsed).waitObj.state = .wait := ends
    rw [tickSync,if_pos (by rw [sync,waiting]; rfl),tickEntry,if_neg ceased]
    rfl
  have change := (sound.stepped taken).change sound i
  generalize same : t.slot i = slot at change
  generalize t.phase i = phase at change
  generalize t.kernel.taskNow = now at change
  rw [show t.tasks i = slot.task from congrArg Slot.task same]
  cases change with
  | move _ other => exact absurd rfl (other elapsed)
  | decide decides =>
    rw [Slot.waitObj_retire,Slot.select_task]
    cases decides with
    | turn => rw [Slot.withTs,Slot.waitObj_turn]; exact synced

theorem fixes_recorded (taken : s.step e = some t) (fixed : s.fixes i e = some r) :
    (s.tasks i).waitObj.isWaiting = true ∧ (t.tasks i).waitObj.state ≠ .wait ∧ (t.tasks i).waitObj.getWaitResult = r := by
  have recorded : ∀ {outcome : WaitState},(t.tasks i).waitObj.state = outcome → outcome ≠ .wait →
      (t.tasks i).waitObj.state ≠ .wait ∧ (t.tasks i).waitObj.getWaitResult = {(t.tasks i).waitObj with state := outcome}.getWaitResult := by
    rintro _ rfl ends
    exact ⟨ends,rfl⟩
  cases e with
  | wake o all =>
    simp only [fixes,Option.ite_none_right_eq_some] at fixed
    obtain ⟨ends,fixed⟩ := fixed
    cases fixed
    exact ⟨endsWait_waiting sound.filed ends,recorded (wake_recorded sound taken ends) (by decide)⟩
  | cancelTaskWait j =>
    simp only [fixes,Option.ite_none_right_eq_some] at fixed
    obtain ⟨ends,fixed⟩ := fixed
    cases fixed
    exact ⟨endsWait_waiting sound.filed ends,recorded (cancel_recorded sound taken ends) (by decide)⟩
  | scheduleTaskRemoval tid =>
    simp only [fixes,Option.ite_none_right_eq_some,Bool.and_eq_true,decide_eq_true_eq] at fixed
    obtain ⟨⟨⟨⟨dynamic,found⟩,sync⟩,waiting⟩,fixed⟩ := fixed
    cases fixed
    exact ⟨waiting,recorded (removal_recorded sound taken dynamic found sync waiting) (by decide)⟩
  | tick elapsed =>
    simp only [fixes,Option.ite_none_right_eq_some] at fixed
    obtain ⟨ends,fixed⟩ := fixed
    cases fixed
    exact ⟨endsWait_waiting sound.filed ends,recorded (tick_recorded sound taken ends) (by decide)⟩
  | _ => cases fixed

end

theorem leave_returns (taken : s.step .leave = some t) (executes : s.exec = some (.task i)) (spins : s.phase i = .spin .wait) :
    ¬(s.tasks i).timeSleep < 0 ∧ (t.tasks i).waitObj.state = .none ∧ t.phase i = .user := by
  change System.leave {s with kernel := s.kernel.fresh} = some t at taken
  unfold System.leave at taken
  simp only [executes,spins] at taken
  split at taken
  · cases taken
  · rename_i awake
    cases taken
    refine ⟨fun asleep => awake ((isSleeping_iff _).mpr asleep),?_,?_⟩
    · simp [System.tasks,setPhase,finishWait,notify,modifyTask,clearWait,WaitObject.clearState]
    · simp [setPhase]

theorem follows_step (sound : Sound law s) (taken : s.step e = some t) (matched : (s.tasks i).Matched)
    (follows : (s.slot i).Follows (s.phase i) (w i)) : (t.slot i).Follows (t.phase i) (s.watch e t w i) := by
  have change := (sound.stepped taken).change sound i
  unfold watch
  split
  · rename_i enters
    refine ⟨fun _ => rfl,fun waits ended => ?_⟩
    cases e with
    | wait o timeout =>
      simp only [entersWait,Bool.and_eq_true,decide_eq_true_eq] at enters
      obtain ⟨_,user⟩ := caller_executes enters.1.1
      have stays : ¬(s.phase i = .force .wait ∨ s.phase i = .spin .wait) := by
        rintro (phase | phase) <;> rw [user] at phase <;> cases phase
      generalize t.slot i = slot at change ended
      generalize t.phase i = phase at change waits
      generalize t.kernel.taskNow = now at change
      cases change with
      | move move =>
        cases move with
        | wait => exact absurd rfl ended
        | _ => exact absurd waits stays
      | decide decides => cases decides
    | _ => cases enters
  · rename_i outside
    split
    · rename_i returns
      cases e with
      | leave =>
        simp only [returnsWait,Bool.and_eq_true,decide_eq_true_eq] at returns
        obtain ⟨_,cleared,user⟩ := leave_returns taken returns.1 returns.2
        refine ⟨fun waits => ?_,fun waits => ?_⟩
        · have waits : (t.tasks i).waitObj.state = .wait := waits
          rw [cleared] at waits
          cases waits
        · rw [user] at waits
          rcases waits with waits | waits <;> cases waits
      | _ => cases returns
    · rename_i stays
      cases fixed : s.fixes i e with
      | none =>
        have same : (match w i,(none : Option WaitResult) with
            | .pending,some r => .fixed r
            | w,_ => w) = w i := by split <;> simp_all
        rw [same]
        exact change.follows matched follows (eq_false_of_ne_true outside) (eq_false_of_ne_true stays) fixed
      | some r =>
        obtain ⟨waiting,ended,result⟩ := fixes_recorded sound taken fixed
        rw [follows.pending (matched.mpr waiting)]
        refine ⟨fun waits => absurd waits ended,fun _ _ => ?_⟩
        rw [show (t.slot i).task.waitObj.getWaitResult = r from result]

theorem soft_keeps (soft : c.mode.isHrt = false) (s : System c) (e : Event n) : s.keepsWaiting e = true := by
  refine decide_eq_true fun i _ _ switches => ?_
  rw [switchesOut,soft] at switches
  cases switches

theorem reached_follows (law : Lawful c.strategy) (soft : c.mode.isHrt = false)
    (run : Run (observe step watch) (fun p e => p.1.waitsFree e = true) (initial c,fun _ => .idle) p) :
    ∀ i,(p.1.slot i).Follows (p.1.phase i) (p.2 i) := by
  induction run with
  | nil =>
    intro i
    refine ⟨fun waits => (by cases waits),fun waits => ?_⟩
    rcases waits with waits | waits <;> cases waits
  | snoc run allowed observed ih =>
    intro i
    obtain ⟨taken,watched⟩ := Transition.observe_some observed
    have reached := run.unobserved.weaken fun s e free => Bool.and_eq_true_iff.mpr ⟨free,soft_keeps soft s e⟩
    obtain ⟨sound,_,before⟩ := reached_blocked law reached
    rw [watched]
    exact follows_step sound taken (before i).1 (ih i)

-- The wait lists hold exactly the waiting tasks, each once and in a registered object, and
-- none that was removed. A Wait returns what reached it first.
theorem waits_end_once (b : Bundled) (chosen : c.strategy = b.strategy n) (soft : c.mode.isHrt = false)
    (run : Run (observe step watch) (fun p e => p.1.waitsFree e = true)
      (initial c,fun _ => .idle) (s,w)) :
    (∀ i,(s.tasks i).waitObj.state = .wait ↔ ∃ o,i ∈ s.kernel.waitList o) ∧
      (∀ i o,i ∈ s.kernel.waitList o → o ∈ s.kernel.syncList ∧ (s.kernel.waitList o).count i = 1 ∧
        ∀ o',i ∈ s.kernel.waitList o' → o' = o) ∧
      (∀ i o,(s.tasks i).user = none ∨ (s.tasks i).removePending = true → i ∉ s.kernel.waitList o) ∧
      ∀ e t i r,s.step e = some t → .waited r ∈ t.kernel.notices i → w i = .fixed r := by
  have reached := run.unobserved.weaken fun s e free => Bool.and_eq_true_iff.mpr ⟨free,soft_keeps soft s e⟩
  obtain ⟨sound,_,before⟩ := reached_blocked (b.law chosen) reached
  have linked := sound.filed.linked
  have waiting : ∀ i o,i ∈ s.kernel.waitList o → (s.tasks i).waitObj.isWaiting = true := by
    intro i o member
    exact (isWaiting_iff _).mpr ⟨o,(linked o i).mp member⟩
  refine ⟨fun i => ?_,fun i o member => ?_,fun i o gone member => ?_,fun e t i r taken reported => ?_⟩
  · refine (before i).1.trans ((isWaiting_iff _).trans ?_)
    exact exists_congr fun o => (linked o i).symm
  · refine ⟨sound.filed.registered i o ((linked o i).mp member),?_,fun o' other => ?_⟩
    · exact List.count_eq_one_of_mem (sound.filed.distinct o) member
    · exact Option.some.inj (((linked o' i).mp other).symm.trans ((linked o i).mp member))
  · have blocked := (before i).2 (waiting i o member)
    rcases gone with free | removed
    · exact blocked.bound free
    · have staying : (s.tasks i).removePending = false := blocked.staying
      rw [staying] at removed
      cases removed
  · obtain ⟨spins,awake,result⟩ := ((sound.stepped taken).change sound i).reports reported
    have ended : (s.tasks i).waitObj.state ≠ .wait := by
      intro waits
      exact awake ((before i).2 ((before i).1.mp waits)).asleep
    rw [result]
    exact (reached_follows (b.law chosen) soft run i).fixed (.inr spins) ended

def waitSignalled : List (Event 2) :=
  [.addTask ⟨1,1,1,0⟩,.addTask ⟨2,2,1,0⟩,.start,.wait 0 5,.force,.wake 0 false,.tick 1]

theorem waitSignalled_returns : ∃ (s t : System (dynamicKernel 2 (by decide))) (w : Fin 2 → Watch),
    Transition.exec (observe step watch) (initial _,fun _ => .idle) waitSignalled = some (s,w) ∧
      s.step .leave = some t ∧ .waited .signal ∈ t.kernel.notices 0 ∧ w 0 = .fixed .signal := by
  have found : ∃ p : System (dynamicKernel 2 (by decide)) × (Fin 2 → Watch),
      Transition.exec (observe step watch) (initial _,fun _ => .idle) waitSignalled = some p ∧ ∃ t,p.1.step .leave = some t ∧ .waited .signal ∈ t.kernel.notices 0 := by decide
  obtain ⟨⟨s,w⟩,ran,t,taken,reported⟩ := found
  have run := Run.ofExecAllowed (fun p e => p.1.waitsFree e) (by decide) ran
  obtain ⟨_,_,_,returns⟩ := waits_end_once (.roundRobin false) rfl rfl run
  exact ⟨s,t,w,ran,taken,reported,returns _ t 0 _ taken reported⟩

-- A task that is pending removal waits: its slot is freed with the WaitObject linked.
def removedWaits : List (Event 2) :=
  [.addTask ⟨1,1,1,0⟩,.addTask ⟨2,2,1,0⟩,.start,.scheduleTaskRemoval 1,.wait 0 waitInfinite,.force,.tick 1]

theorem removedWaits_linked : ∃ s : System (dynamicKernel 2 (by decide)),
    Run step (fun _ _ => True) (initial _) s ∧ (s.tasks 0).user = none ∧ 0 ∈ s.kernel.waitList 0 := by
  exact Run.found removedWaits (by decide)

end System
end SuperTinyKernel
