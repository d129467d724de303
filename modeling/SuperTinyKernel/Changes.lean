import SuperTinyKernel.Contexts

namespace SuperTinyKernel

open Function

-- A step as one slot sees it: an invariant of single slots is proved by cases on this.

theorem unset {b flag : Bool} (implies : b = true → flag = true) (off : flag = false) : b = false :=
  eq_false_of_ne_true fun set => absurd (off.symm.trans (implies set)) Bool.false_ne_true

namespace Kernel

variable {c : Config n} {law : Lawful c.strategy} {k k' u : Kernel c} {i : Fin n} {elapsed : Int}

-- A slot that is pending removal counts as switched out at its turn.
def Departs (k : Kernel c) (elapsed : Int) (i : Fin n) : Prop :=
  c.mode.isDynamic = true ∧ (k.tasks i).removePending = true ∧
    (k.taskNow = some i → k.fsmState = .sleeping ∧ k.LastAtTurn elapsed i)

theorem Ticked.departs (ticked : Ticked law k k' elapsed) (i : Fin n) : ∃ gone recovered ts,
    (gone = true → c.mode.isDynamic = true ∧ (k.tasks i).removePending = true) ∧
    ((k.tasks i).user ≠ none → (gone = true ↔ k.Departs elapsed i)) ∧
    (c.strategy.api.deadlineMissed = false → recovered = false) ∧
    k'.slot i = (((k.slot i).tickSync c elapsed).turn c gone recovered elapsed).withTs ts := by
  obtain ⟨gone,recovered,ts,only,always,honest,turned⟩ := ticked.turn i
  by_cases now : k.taskNow = some i ∧ (k.tasks i).user ≠ none ∧ c.mode.isDynamic = true ∧
      (k.tasks i).removePending = true
  · obtain ⟨now,bound,dynamic,removed⟩ := now
    obtain ⟨gone,recovered,ts,last,honest,turned⟩ := ticked.removable_now dynamic now bound removed
    refine ⟨gone,recovered,ts,fun _ => ⟨dynamic,removed⟩,fun _ => last.trans ?_,honest,turned⟩
    exact ⟨fun alone => ⟨dynamic,removed,fun _ => alone⟩,fun departs => departs.2.2 now⟩
  · refine ⟨gone,recovered,ts,fun goes => ⟨(only goes).1,(only goes).2.1⟩,fun bound => ?_,honest,turned⟩
    constructor
    · intro goes
      obtain ⟨dynamic,removed,_⟩ := only goes
      exact ⟨dynamic,removed,fun same => absurd ⟨same,bound,dynamic,removed⟩ now⟩
    · rintro ⟨dynamic,removed,_⟩
      exact always dynamic removed fun same => now ⟨same,bound,dynamic,removed⟩

end Kernel

def Slot.Offered (c : Config n) (chosen : Bool) (s : Slot) : Prop :=
  chosen = true → s.place = .ready ∧ (c.strategy.api.sleepEvent = false → ¬s.task.timeSleep < 0)

def Slot.Idle (c : Config n) (s : Slot) : Prop :=
  s.task.user ≠ none → c.strategy.api.sleepEvent = true ∧ s.place = .asleep ∨
    c.strategy.api.sleepEvent = false ∧ s.task.timeSleep < 0

namespace System

variable {c : Config n}

-- A decision is taken: a tick with the scheduler unlocked, a forced switch whose call is not
-- consumed yet.
def reschedules (s : System c) : Event n → Bool
  | .tick _ => !s.kernel.isLocked
  | .force =>
    match s.kernel.taskNow with
    | some i => (s.tasks i).sleepPending || (s.tasks i).yieldPending
    | none => false
  | _ => false

end System

inductive Decides {c : Config n} (s : System c) (i : Fin n) : Event n → Slot → Phase → Prop where
  | launch : s.exec = none → Decides s i .start ((s.slot i).fresh.launch c) (s.phase i)
  | turn : System.elapsedOk c elapsed = true →
      (gone = true → c.mode.isDynamic = true ∧ (s.tasks i).removePending = true) →
      ((s.tasks i).user ≠ none → (gone = true ↔ s.kernel.Departs elapsed i)) →
      (c.strategy.api.deadlineMissed = false → recovered = false) →
      Decides s i (.tick elapsed)
        ((((s.slot i).fresh.tickSync c elapsed).turn c gone recovered elapsed).withTs ts) (s.phase i)
  | enter : s.exec = some (.task i) → s.phase i = .force call → (s.tasks i).timeSleep < 0 →
      (s.tasks i).sleepPending = true → Decides s i .force ((s.slot i).fresh.settle c) (.spin call)
  | yield : s.exec = some (.task i) → s.phase i = .force call → ¬(s.tasks i).timeSleep < 0 →
      c.strategy.api.noSleepYield = true → (s.tasks i).yieldPending = true →
      Decides s i .force (s.slot i).fresh.yielded (.spin call)
  | pass : s.kernel.taskNow ≠ some i → s.kernel.isStarted = true → Decides s i .force (s.slot i).fresh (s.phase i)

def System.Idles {c : Config n} (s : System c) (e : Event n) : Prop :=
  ∀ i,∃ slot phase,Decides s i e slot phase ∧ slot.Idle c

inductive Change {c : Config n} (s : System c) (i : Fin n) : Event n → Slot → Phase → Option (Fin n) → Prop where
  | move : Move s i e slot phase → (∀ elapsed,e ≠ .tick elapsed) → Change s i e slot phase s.kernel.taskNow
  | stay : s.exec = some (.task i) → s.phase i = .force call →
      Change s i .force (s.slot i).fresh (.spin call) s.kernel.taskNow
  | decide {slot : Slot} : Decides s i e slot phase → slot.Offered c chosen →
      (leaves = true → s.reschedules e = true ∧ s.kernel.taskNow = some i ∧ s.kernel.fsmState.running = true ∧
        c.mode.isHrt = true ∧ (slot.task.hrt.done = true ∨ slot.task.removePending = false ∧ s.Idles e)) →
      Change s i e ((slot.select chosen).retire c leaves) phase now

namespace System

open Kernel

variable {c : Config n} {law : Lawful c.strategy} {s t : System c} {u : Kernel c}

theorem nextTask_offered (filed : Filed law u) (called : u.nextTask = some next) (i : Fin n) :
    (u.slot i).Offered c (decide (next = some i)) := by
  intro chosen
  obtain rfl := of_decide_eq_true chosen
  exact nextTask_ready filed called

theorem nextTask_idle (filed : Filed law u) (called : u.nextTask = some none) (i : Fin n) : (u.slot i).Idle c := by
  intro bound
  have placed : u.place i ≠ .free := fun free => bound ((filed.free i).mp free)
  cases place : u.place i with
  | free => exact absurd place placed
  | ready => exact .inr (nextTask_none filed called place)
  | asleep =>
    left
    refine ⟨eq_true_of_ne_false fun unaware => ?_,place⟩
    exact law.place_ne_asleep unaware place

theorem switchedOut_why (leaves : u.switchedOut next = some i) :
    (u.tasks i).hrt.done = true ∨ (u.tasks i).removePending = false ∧ next = none := by
  obtain ⟨now,filtered⟩ := Option.filter_eq_some_iff.mp leaves
  cases next with
  | some j => simp_all
  | none =>
    simp only [Bool.and_eq_true,Bool.not_eq_true'] at filtered
    exact .inr ⟨filtered.2.2,rfl⟩

theorem tick_decides (legal : elapsedOk c elapsed = true) (ticked : Ticked law s.kernel.fresh u elapsed) (i : Fin n) :
    Decides s i (.tick elapsed) (u.slot i) (s.phase i) := by
  obtain ⟨gone,recovered,ts,only,departs,honest,turned⟩ := ticked.departs i
  rw [turned]
  exact .turn legal only departs honest

theorem force_decides (executes : s.exec = some (.task m)) (waits : s.phase m = .force call)
    (forced : Forced law s.kernel.fresh u m) (i : Fin n) :
    Decides s i .force (u.slot i) (update s.phase m (.spin call) i) := by
  obtain ⟨slot,slots,entered⟩ := forced.slots
  have now : s.kernel.taskNow = some m := forced.now
  rw [slots]
  by_cases at_ : i = m
  · subst at_
    rw [update_self,update_self]
    rcases entered with ⟨asleep,pending,rfl,_⟩ | ⟨awake,yields,pending,rfl,_⟩
    · exact .enter executes waits asleep pending
    · exact .yield executes waits awake yields pending
  · rw [update_of_ne at_,update_of_ne at_]
    exact .pass (fun same => at_ (Option.some.inj (same.symm.trans now))) (by simp [isStarted,now])

theorem Stepped.change (stepped : Stepped law s t e) (sound : Sound law s) (i : Fin n) :
    Change s i e (t.slot i) (t.phase i) t.kernel.taskNow := by
  have still : t.slot i = (s.slot i).fresh → t.phase i = s.phase i → t.kernel.taskNow = s.kernel.taskNow →
      (∀ elapsed,e ≠ .tick elapsed) → Change s i e (t.slot i) (t.phase i) t.kernel.taskNow := by
    intro slot phase now other
    rw [slot,phase,now]
    exact .move .rest other
  cases stepped with
  | quiet call quiet =>
    rw [quiet.taskNow]
    refine .move (quiet.moves i) fun elapsed same => ?_
    subst same
    cases call
  | start off launched phase armed reached =>
    have offer := nextTask_offered launched.ready launched.called i
    rw [show t.slot i = _ from launched.slots i,launched.launched,phase]
    rw [launched.launched] at offer
    exact .decide (.launch off) offer fun (leaves : false = true) => (by cases leaves)
  | tick legal before ticked unlocked decided transit loads phase =>
    rename_i elapsed u next out
    rw [show t.slot i = _ from decided.slots i,phase]
    refine .decide (tick_decides legal ticked i) (nextTask_offered ticked.filed decided.called i) fun leaves => ?_
    have decides : s.reschedules (.tick elapsed) = true := by
      rw [reschedules,show s.kernel.isLocked = u.isLocked by unfold isLocked; rw [ticked.kstate]; rfl,unlocked]; rfl
    have leaves := of_decide_eq_true leaves
    obtain ⟨now,running,hard⟩ := switchedOut_now leaves
    refine ⟨decides,ticked.taskNow.symm.trans now,by rw [ticked.fsmState] at running; exact running,hard,?_⟩
    refine (switchedOut_why leaves).imp id (And.imp id fun none j => ?_)
    subst none
    exact ⟨_,_,tick_decides legal ticked j,nextTask_idle ticked.filed decided.called j⟩
  | lockedTick legal before ticked locked exec phase =>
    obtain ⟨gone,recovered,ts,only,departs,honest,turned⟩ := ticked.departs i
    rw [show t.slot i = _ from turned,phase]
    exact .decide (.turn legal only departs honest) (fun (chosen : false = true) => (by cases chosen))
      fun (leaves : false = true) => (by cases leaves)
  | force executes waits bound before named forced decided transit loads phase armed =>
    rename_i m call user u j next out
    have now := (sound.contexts.task executes).2
    obtain rfl : m = j := Option.some.inj (now.symm.trans forced.now)
    obtain ⟨slot,slots,entered⟩ := forced.slots
    have decides : s.reschedules .force = true := by
      simp only [reschedules,now]
      rcases entered with ⟨_,pending,_⟩ | ⟨_,_,pending,_⟩
      · rw [show (s.tasks m).sleepPending = true from pending]; rfl
      · rw [show (s.tasks m).yieldPending = true from pending,Bool.or_true]
    rw [show t.slot i = _ from decided.slots i,phase]
    refine .decide (force_decides executes waits forced i) (nextTask_offered forced.filed decided.called i) fun leaves => ?_
    have leaves := of_decide_eq_true leaves
    obtain ⟨now,running,hard⟩ := switchedOut_now leaves
    refine ⟨decides,forced.taskNow.symm.trans now,by rw [forced.fsmState] at running; exact running,hard,?_⟩
    refine (switchedOut_why leaves).imp id (And.imp id fun none j => ?_)
    subst none
    exact ⟨_,_,force_decides executes waits forced j,nextTask_idle forced.filed decided.called j⟩
  | noForce executes waits bound before kernel exec phase armed =>
    rename_i m call user
    have same : t.slot i = (s.slot i).fresh := by rw [slot,kernel]; rfl
    by_cases at_ : i = m
    · subst at_
      rw [same,phase,update_self,kernel]
      exact .stay executes waits
    · exact still same (by rw [phase,update_of_ne at_]) (by rw [kernel]; rfl) fun _ tick => (by cases tick)
  | stop exits kernel exec phase armed =>
    have shape : ∃ f ks,s.kernel.fresh.onStop = {s.kernel.fresh with fsmState := f,kstate := ks} := by
      unfold onStop; split <;> exact ⟨_,_,rfl⟩
    obtain ⟨f,ks,shape⟩ := shape
    exact still (by rw [slot,kernel,shape]; rfl) (by rw [phase]) (by rw [kernel,shape]; rfl)
      fun _ tick => (by cases tick)

end System
end SuperTinyKernel
