import SuperTinyKernel.Contexts
import SuperTinyKernel.Strategies.Bundled

namespace SuperTinyKernel

-- What the kernel reports to the platform: the stack OnStart made active, and the stacks of
-- each context switch.
inductive Report (n : Nat) where
  | start (active : StackPtr n)
  | switch (idle active : StackPtr n)
  deriving DecidableEq,Repr

def Report.active : Report n → StackPtr n
  | .start active => active
  | .switch _ active => active

-- A switch leaves the stack that the report before it made active. OnStart may follow a stop.
def Report.follows : Report n → Report n → Prop
  | .start _,_ => True
  | .switch idle _,earlier => idle = earlier.active

def Outcome.report : Outcome n → Option (Report n)
  | .switch idle active => some (.switch idle active)
  | _ => none

namespace System

open Kernel

variable {c : Config n}

def report (s : System c) : Event n → Option (Report n)
  | .start => do return .start (← s.kernel.fresh.onStart).2
  | .tick elapsed => do (← s.kernel.fresh.onTick elapsed).2.2.report
  | .force =>
    match s.exec with
    | some (.task i) => do (← s.kernel.fresh.onForceContextSwitch (← (s.tasks i).user).id).2.report
    | _ => none
  | _ => none

inductive Logged (c : Config n) : System c → List (Report n) → Prop where
  | initial : Logged c (System.initial c) []
  | step : Logged c s log → s.step e = some t → Logged c t ((s.report e).toList ++ log)

variable {law : Lawful c.strategy} {s t : System c}

theorem Logged.sound (law : Lawful c.strategy) (logged : Logged c s log) : Sound law s := by
  induction logged with
  | initial => exact ⟨initial_filed law,initial_contexts⟩
  | step _ taken ih => exact ih.step taken

def Loaded (s : System c) (log : List (Report n)) : Prop :=
  s.exec = none ∨ s.exec = some .exitTrap ∨ ∃ r rest,log = r :: rest ∧ s.exec = some r.active

theorem idle_ne_exitTrap {u : Kernel c} (transit : Transit u next now f (.switch idle active)) :
    idle ≠ .exitTrap := by
  cases transit <;> simp

theorem exec_apply (s : System c) (out : Outcome n) : (s.apply out).exec = s.loaded out := by cases out <;> rfl

theorem switch_reported (out : Outcome n) (idle : ∀ idle active,out = .switch idle active → s.exec = some idle ∧ idle ≠ .exitTrap)
    (loads : t.exec = s.loaded out) (reported : out.report = r) :
    (r = none ∧ (t.exec = s.exec ∨ t.exec = some .exitTrap)) ∨
      ∃ idle active,r = some (.switch idle active) ∧ (s.exec = some idle ∧ idle ≠ .exitTrap) ∧ t.exec = some active := by
  subst reported
  cases out with
  | stay => exact .inl ⟨rfl,.inl loads⟩
  | stop => exact .inl ⟨rfl,.inr loads⟩
  | switch from_ active => exact .inr ⟨from_,active,rfl,idle from_ active rfl,loads⟩

theorem tick_reported (sound : Sound law s) (taken : s.step (.tick elapsed) = some t) :
    (s.report (.tick elapsed) = none ∧ (t.exec = s.exec ∨ t.exec = some .exitTrap)) ∨
      ∃ idle active,s.report (.tick elapsed) = some (.switch idle active) ∧ (s.exec = some idle ∧ idle ≠ .exitTrap) ∧
        t.exec = some active := by
  obtain ⟨_,k,sleepTicks,out,ticked,rfl⟩ := tick_parts taken
  refine switch_reported out ?_ (exec_apply _ _) (by simp [report,ticked])
  rintro idle active rfl
  obtain ⟨u,_,turned,⟨_,_,stays⟩ | ⟨_,next,_,transit⟩⟩ := onTick_parts (fresh_filed sound.filed) ticked
  · cases stays
  · exact ⟨transit_idle sound.contexts turned.taskNow turned.fsmState transit,idle_ne_exitTrap transit⟩

theorem force_reported (sound : Sound law s) (taken : s.step .force = some t) :
    (s.report .force = none ∧ (t.exec = s.exec ∨ t.exec = some .exitTrap)) ∨
      ∃ idle active,s.report .force = some (.switch idle active) ∧ (s.exec = some idle ∧ idle ≠ .exitTrap) ∧
        t.exec = some active := by
  change System.force {s with kernel := s.kernel.fresh} = some t at taken
  unfold System.force at taken
  split at taken
  · rename_i i executes
    split at taken
    · obtain ⟨user,bound,taken⟩ := of_bind taken
      obtain ⟨⟨k,out⟩,forced,same⟩ := of_bind taken
      have executes : s.exec = some (.task i) := executes
      have bound : (s.tasks i).user = some user := bound
      have forced : s.kernel.fresh.onForceContextSwitch user.id = some (k,out) := forced
      refine switch_reported out ?_ ((congrArg System.exec (Option.some.inj same)).symm.trans (exec_apply _ _))
        (by simp [report,executes,bound,forced])
      rintro idle active rfl
      rcases onForceContextSwitch_parts (fresh_filed sound.filed) forced with
        ⟨_,stays,_⟩ | ⟨j,u,_,_,leaves,next,_,transit⟩
      · cases stays
      · exact ⟨transit_idle sound.contexts leaves.taskNow leaves.fsmState transit,idle_ne_exitTrap transit⟩
    · cases taken
  · cases taken

theorem start_reported (taken : s.step .start = some t) : ∃ active,s.report .start = some (.start active) ∧
    t.exec = some active := by
  obtain ⟨_,k,active,started,rfl⟩ := start_parts taken
  exact ⟨active,by simp [report,started],rfl⟩

theorem silent (sound : Sound law s) (taken : s.step e = some t) (started : e ≠ .start)
    (ticked : ∀ elapsed,e ≠ .tick elapsed) (forced : e ≠ .force) :
    s.report e = none ∧ (t.exec = s.exec ∨ t.exec = none) := by
  refine ⟨?_,?_⟩
  · cases e <;> first | rfl | simp_all
  · cases sound.stepped taken with
    | quiet _ quiet => exact .inl quiet.exec
    | start => exact absurd rfl started
    | tick | lockedTick => exact absurd rfl (ticked _)
    | force | noForce => exact absurd rfl forced
    | stop _ _ ends _ _ => exact .inr ends

structure Chained (log : List (Report n)) : Prop where
  consecutive : log.IsChain Report.follows
  begins : ∀ idle active,log.getLast? ≠ some (.switch idle active)

theorem Chained.start (chained : Chained log) (active : StackPtr n) : Chained (.start active :: log) := by
  refine ⟨?_,fun idle to_ => ?_⟩
  · cases log with
    | nil => exact .singleton _
    | cons r rest => exact .cons_cons trivial chained.consecutive
  · cases log with
    | nil => simp
    | cons r rest => rw [List.getLast?_cons_cons]; exact chained.begins idle to_

theorem Chained.switch (chained : Chained (r :: rest)) (active : StackPtr n) :
    Chained (.switch r.active active :: r :: rest) :=
  ⟨.cons_cons rfl chained.consecutive,by rw [List.getLast?_cons_cons]; exact chained.begins⟩

theorem loaded_chained_step (sound : Sound law s) (loaded : Loaded s log) (chained : Chained log)
    (taken : s.step e = some t) :
    Loaded t ((s.report e).toList ++ log) ∧ Chained ((s.report e).toList ++ log) := by
  have quiet : s.report e = none → t.exec = s.exec ∨ t.exec = some .exitTrap ∨ t.exec = none →
      Loaded t ((s.report e).toList ++ log) ∧ Chained ((s.report e).toList ++ log) := by
    intro silent exec
    rw [silent]
    refine ⟨?_,chained⟩
    rcases exec with same | ceased | off
    · rw [Loaded,same]; exact loaded
    · exact .inr (.inl ceased)
    · exact .inl off
  have switched : (∃ idle active,s.report e = some (.switch idle active) ∧ (s.exec = some idle ∧ idle ≠ .exitTrap) ∧
      t.exec = some active) → Loaded t ((s.report e).toList ++ log) ∧ Chained ((s.report e).toList ++ log) := by
    rintro ⟨idle,active,reported,⟨leaves,apart⟩,exec⟩
    rw [reported]
    rcases loaded with off | ceased | ⟨r,rest,rfl,current⟩
    · simp [off] at leaves
    · rw [ceased] at leaves
      exact absurd (Option.some.inj leaves).symm apart
    · rw [leaves] at current
      cases current
      exact ⟨.inr (.inr ⟨_,_,rfl,exec⟩),chained.switch active⟩
  by_cases started : e = .start
  · subst started
    obtain ⟨active,reported,exec⟩ := start_reported taken
    rw [reported]
    exact ⟨.inr (.inr ⟨_,_,rfl,exec⟩),chained.start active⟩
  by_cases forced : e = .force
  · subst forced
    rcases force_reported sound taken with ⟨none,exec⟩ | some_
    · exact quiet none (exec.imp id .inl)
    · exact switched some_
  by_cases ticked : ∃ elapsed,e = .tick elapsed
  · obtain ⟨elapsed,rfl⟩ := ticked
    rcases tick_reported sound taken with ⟨none,exec⟩ | some_
    · exact quiet none (exec.imp id .inl)
    · exact switched some_
  · obtain ⟨none,exec⟩ := silent sound taken started (not_exists.mp ticked) forced
    exact quiet none (exec.imp id .inr)

theorem Logged.chained (law : Lawful c.strategy) (logged : Logged c s log) : Loaded s log ∧ Chained log := by
  induction logged with
  | initial => exact ⟨.inl rfl,⟨.nil,by simp⟩⟩
  | step logged taken ih => exact loaded_chained_step (logged.sound law) ih.1 ih.2 taken

theorem Sound.keeps (sound : Sound law s) (now : s.kernel.taskNow = some i) (running : s.kernel.fsmState.running = true)
    (taken : s.step e = some t) : (t.tasks i).user = (s.tasks i).user := by
  obtain ⟨j,at_,executes,busy⟩ := sound.contexts.running running
  rw [now] at at_
  cases at_
  cases sound.stepped taken with
  | quiet _ quiet => exact (quiet.moves i).user busy (by simp [isStarted,now])
  | start off => simp [off] at executes
  | tick _ _ ticked _ decided => exact (decided.user i).trans (ticked.user now running)
  | lockedTick _ _ ticked => exact ticked.user now running
  | force _ _ _ _ _ forced decided => exact (decided.user i).trans (forced.user i)
  | noForce _ _ _ _ kernel => rw [tasks,kernel]; rfl
  | stop exits => simp [exits] at executes

-- The reports form a chain, and the executing context is the one that the FSM and m_task_now
-- stand for. Its slot keeps its task.
theorem reported_switches_chain (b : Bundled) (chosen : c.strategy = b.strategy n) (logged : Logged c s log) :
    Chained log ∧
    (s.kernel.fsmState = .switching ∨ s.kernel.fsmState = .waking → ∃ i r rest,log = r :: rest ∧ r.active = .task i ∧
      s.kernel.taskNow = some i ∧ s.exec = some (.task i) ∧ (s.tasks i).user ≠ none ∧
      ∀ e t,s.step e = some t → (t.tasks i).user = (s.tasks i).user) ∧
    (s.kernel.fsmState = .sleeping → ∃ r rest,log = r :: rest ∧ r.active = .sleepTrap ∧ s.exec = some .sleepTrap) := by
  have sound := logged.sound (b.law chosen)
  obtain ⟨loaded,chained⟩ := logged.chained (b.law chosen)
  refine ⟨chained,fun live => ?_,fun asleep => ?_⟩
  · have running : s.kernel.fsmState.running = true := by rcases live with live | live <;> simp [live,FsmState.running]
    obtain ⟨i,now,executes,busy⟩ := sound.contexts.running running
    rcases loaded with off | ceased | ⟨r,rest,rfl,current⟩
    · simp [off] at executes
    · simp [ceased] at executes
    · rw [executes] at current
      exact ⟨i,r,rest,rfl,(Option.some.inj current).symm,now,executes,busy,fun e t => sound.keeps now running⟩
  · have executes := (sound.contexts.sleeping asleep).2
    rcases loaded with off | ceased | ⟨r,rest,rfl,current⟩
    · simp [off] at executes
    · simp [ceased] at executes
    · rw [executes] at current
      exact ⟨r,rest,rfl,(Option.some.inj current).symm,executes⟩

def execLogged (s : System c) (log : List (Report n)) : List (Event n) → Option (System c × List (Report n))
  | [] => some (s,log)
  | e :: rest => (s.step e).bind fun t => execLogged t ((s.report e).toList ++ log) rest

theorem Logged.exec (logged : Logged c s log) (ran : execLogged s log events = some (t,log')) : Logged c t log' := by
  induction events generalizing s log with
  | nil => cases ran; exact logged
  | cons e rest ih =>
    obtain ⟨u,taken,ran⟩ := of_bind ran
    exact ih (logged.step taken) ran

def exitAndRebind : List (Event 2) :=
  [.addTask ⟨1,1,1,0⟩,.addTask ⟨2,2,1,0⟩,.start,.exitTask,.force,.tick 1,.addTask ⟨3,3,1,0⟩,.sleep 3,.force,.sleep 3,.force]

theorem exitAndRebind_switches : ∃ (s : System (dynamicKernel 2 (by decide))) (log : List (Report 2)),
    execLogged (initial _) [] exitAndRebind = some (s,log) ∧ log.length = 4 ∧
      s.kernel.fsmState = .sleeping ∧ Chained log ∧ s.exec = some .sleepTrap := by
  have found : ∃ r : System (dynamicKernel 2 (by decide)) × List (Report 2),execLogged (initial _) [] exitAndRebind = some r ∧
      r.2.length = 4 ∧ r.1.kernel.fsmState = .sleeping := by decide
  obtain ⟨⟨s,log⟩,ran,size,asleep⟩ := found
  obtain ⟨chained,_,trap⟩ := reported_switches_chain (.roundRobin false) rfl (Logged.exec .initial ran)
  obtain ⟨_,_,_,_,executes⟩ := trap asleep
  exact ⟨s,log,ran,size,asleep,chained,executes⟩

end System
end SuperTinyKernel
