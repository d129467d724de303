import SuperTinyKernel.Timing
import SuperTinyKernel.FreeRtos.MessageBuffer

namespace SuperTinyKernel.FreeRtos.DelayUntil

variable {c : Config n}

-- The kernel and the previous wake time of one task, a TickType_t.
structure State (c : Config n) where
  system : System c
  previous : Int := 0

inductive Request (n : Nat) where
  | kernel (e : Event n)
  | start
  | delay (increment : Int)

def xTaskGetTickCount (s : System c) : Int := s.kernel.ticks % 4294967296

-- xTaskDelayUntil up to the busy-wait of SleepUntil.
def xTaskDelayUntil (s : State c) (increment : Int) : Option (State c) :=
  let wakeAt := s.previous + increment
  (s.system.step (.sleepUntil wakeAt)).map fun t => ⟨t,wakeAt % 4294967296⟩

def step (i : Fin n) (s : State c) : Request n → Option (State c)
  | .kernel e => (s.system.step e).map fun t => {s with system := t}
  | .start => if s.system.caller = some i then some {s with previous := xTaskGetTickCount s.system} else none
  | .delay increment => if s.system.caller = some i then xTaskDelayUntil s increment else none

-- The observer knows the wake time of the last call in full.
inductive Watch where
  | off
  | running (wake : Int)
  | asleep (start wake : Int)
  | refused
  deriving DecidableEq

def watch (i : Fin n) (s : State c) (e : Request n) (t : State c) (w : Watch) : Watch :=
  match e,w with
  | .start,_ => .running s.system.kernel.ticks
  | .delay increment,.running wake =>
    if t.system.caller = some i then .refused else .asleep s.system.kernel.ticks (wake + increment)
  | .kernel _,.asleep start wake => if t.system.caller = some i then .running wake else .asleep start wake
  | _,w => w

def Watch.sleeps : Watch → Bool
  | .asleep _ _ => true
  | _ => false

-- Only the clock ends the sleep, and the task works for less than one increment. The next wake
-- time is not taken for WAIT_INFINITE.
def regular (i : Fin n) (p : State c × Watch) : Request n → Bool
  | .kernel e => p.1.system.punctual e && !(p.2.sleeps && p.1.system.interferes i e)
  | .start => true
  | .delay increment =>
    match p.2 with
    | .running wake =>
      let now := p.1.system.kernel.ticks
      decide (now - wake < increment ∧ wake = p.1.previous ∧ wake + increment - now < waitInfinite ∧
        p.1.system.kernel.isLocked = false ∧ (p.1.system.tasks i).suspended = false ∧
        (p.1.system.tasks i).suspendPending = false ∧ (p.1.system.tasks i).removePending = false)
    | _ => false

open SuperTinyKernel.System Transition

def Known (i : Fin n) (s : State c) : Watch → Prop
  | .off => True
  | .running wake => wake ≤ s.system.kernel.ticks ∧ s.previous = wake % 4294967296
  | .asleep start wake =>
    (s.system.Alarmed i (.asleep start (wake - start)) ∨ wake ≤ s.system.kernel.ticks) ∧ s.previous = wake % 4294967296
  | .refused => False

theorem sleepUntil_starts {s t : System c} {i : Fin n} {timestamp : Int} (soft : c.mode.isHrt = false)
    (taken : s.step (.sleepUntil timestamp) = some t) (calls : s.caller = some i) (unlocked : s.kernel.isLocked = false)
    (positive : 0 < timestamp - s.kernel.ticks) (finite : timestamp - s.kernel.ticks < waitInfinite) :
    t.tasks i = (s.tasks i).scheduleSleep c.mode (timestamp - s.kernel.ticks) ∧ t.phase i = .force .sleep := by
  obtain ⟨j,caller,same⟩ := of_bind taken
  obtain rfl : i = j := Option.some.inj (calls.symm.trans caller)
  cases same
  have free : c.mode.isHrt = false ∧ s.kernel.fresh.isLocked = false := ⟨soft,unlocked⟩
  have later : timestamp - s.kernel.fresh.ticks > 0 := positive
  simp only [Kernel.sleepUntil,if_pos free,if_pos later,System.blocked,setPhase]
  rw [min_eq_left (show timestamp - s.kernel.fresh.ticks ≤ waitInfinite from finite.le)]
  exact ⟨Function.update_self _ _ _,Function.update_self _ _ _⟩

theorem not_calls {s : System c} {i : Fin n} (alarmed : s.Alarmed i (.asleep start ticks)) : s.caller ≠ some i := by
  intro calls
  have user := (caller_executes calls).2
  rcases alarmed.1.phase with phase | phase <;> rw [user] at phase <;> cases phase

variable {i : Fin n} {s t : State c} {w : Watch} {law : Lawful c.strategy}

theorem Known.step (soft : c.mode.isHrt = false) (before : Timely law s.system) (after : Timely law t.system)
    (known : Known i s w) (allowed : regular i (s,w) e = true) (stepped : step i s e = some t) :
    Known i t (watch i s e t w) := by
  cases e with
  | start =>
    obtain ⟨_,same⟩ := Option.ite_none_right_eq_some.mp stepped
    cases same
    exact ⟨le_refl _,rfl⟩
  | delay increment =>
    obtain ⟨calls,stepped⟩ := Option.ite_none_right_eq_some.mp stepped
    obtain ⟨next,taken,same⟩ := of_map stepped
    cases same
    cases w with
    | running wake =>
      obtain ⟨works,exact_,finite,unlocked,unsuspended,undeferred,staying⟩ := of_decide_eq_true allowed
      dsimp only at works exact_ finite
      obtain ⟨task,phase⟩ := sleepUntil_starts soft taken calls unlocked (by omega) (by omega)
      have alarmed := alarmed_starts before after taken rfl calls (by omega) (by omega) unsuspended undeferred staying task phase
      simp only [watch,if_neg (not_calls alarmed)]
      rw [← exact_] at alarmed ⊢
      exact ⟨.inl alarmed,rfl⟩
    | off | asleep | refused => cases allowed
  | kernel e =>
    obtain ⟨next,taken,same⟩ := of_map stepped
    cases same
    obtain ⟨punctual,free⟩ := Bool.and_eq_true_iff.mp allowed
    have stepped := before.sound.stepped taken
    have later : s.system.kernel.ticks ≤ next.kernel.ticks := by
      rw [stepped.ticks]
      exact Int.le_add_of_nonneg_right stepped.forward.1
    cases w with
    | off | refused => exact known
    | running wake => exact ⟨known.1.trans later,known.2⟩
    | asleep start wake =>
      have ends : next.Alarmed i (.asleep start (wake - start)) ∨ wake ≤ next.kernel.ticks := by
        rcases known.1 with alarmed | past
        · obtain ⟨on,ceased⟩ := alarmed_sleep soft before after punctual taken alarmed (by simpa [Watch.sleeps] using free)
          cases sleeping : (next.tasks i).isSleeping with
          | true => exact .inl (on sleeping)
          | false =>
            have long : wake - start ≤ next.kernel.ticks - start := (ceased sleeping).1
            exact .inr (by omega)
        · exact .inr (past.trans later)
      simp only [watch]
      split
      · rename_i calls
        exact ⟨ends.resolve_left fun alarmed => not_calls alarmed calls,known.2⟩
      · exact ⟨ends,known.2⟩

theorem delays_never_early (b : Bundled) (chosen : c.strategy = b.strategy n) (soft : c.mode.isHrt = false)
    (run : Run (observe (step i) (watch i)) (fun p e => regular i p e = true) (⟨initial c,0⟩,.off) (s,w)) :
    w ≠ .refused ∧ ∀ wake,w = .running wake → wake ≤ s.system.kernel.ticks ∧ s.previous = wake % 4294967296 := by
  have known : (Timely (b.law chosen) s.system ∧ (c.mode.isTickless = true → Flagged s.system)) ∧ Known i s w := by
    refine run.keeps (I := fun p : State c × Watch => (Timely (b.law chosen) p.1.system ∧
      (c.mode.isTickless = true → Flagged p.1.system)) ∧ Known i p.1 p.2) ?_ ?_
    · exact ⟨(reached_alarmed (b.law chosen) soft .nil).1,trivial⟩
    · intro p e q kept allowed observed
      obtain ⟨⟨timely,flagged⟩,known⟩ := kept
      obtain ⟨stepped,same⟩ := observe_some observed
      have next : Timely (b.law chosen) q.1.system ∧ (c.mode.isTickless = true → Flagged q.1.system) := by
        cases e with
        | start =>
          obtain ⟨_,same⟩ := Option.ite_none_right_eq_some.mp stepped
          rw [← Option.some.inj same]
          exact ⟨timely,flagged⟩
        | delay increment =>
          obtain ⟨_,stepped⟩ := Option.ite_none_right_eq_some.mp stepped
          obtain ⟨t,taken,same⟩ := of_map stepped
          rw [← same]
          exact timely.step soft flagged (by simp [punctual,waitsFree,keepsFlag]) taken
        | kernel e =>
          obtain ⟨t,taken,same⟩ := of_map stepped
          rw [← same]
          exact timely.step soft flagged (Bool.and_eq_true_iff.mp allowed).1 taken
      rw [same]
      exact ⟨next,known.step soft timely next.1 allowed stepped⟩
  cases w with
  | refused => exact known.2.elim
  | running wake =>
    refine ⟨fun same => (by cases same),fun _ same => ?_⟩
    cases same
    exact known.2
  | off | asleep => exact ⟨fun same => (by cases same),fun _ same => by cases same⟩

def twoDelays : List (Request 1) :=
  [.kernel (.addTask ⟨1,1,1,0⟩),.kernel .start,.start,.delay 3,.kernel .force,.kernel (.tick 1),.kernel (.tick 1),.kernel (.tick 1),
    .kernel .leave,.kernel (.tick 1),.delay 3,.kernel .force,.kernel (.tick 1),.kernel (.tick 1),.kernel .leave]

theorem twoDelays_on_time : ∃ (s : State (dynamicKernel 1 Nat.one_pos)) (w : Watch),
    exec (observe (step 0) (watch 0)) (⟨initial _,0⟩,.off) twoDelays = some (s,w) ∧
      w = .running 6 ∧ 6 ≤ s.system.kernel.ticks := by
  have ran : ∃ p,exec (observe (step 0) (watch 0))
      ((⟨initial (dynamicKernel 1 Nat.one_pos),0⟩ : State _),.off) twoDelays = some p ∧ p.2 = .running 6 := by decide
  obtain ⟨⟨s,w⟩,ran,wakes⟩ := ran
  have run := Run.ofExecAllowed (regular 0) (by decide) ran
  exact ⟨s,w,ran,wakes,((delays_never_early (.roundRobin false) rfl rfl run).2 6 wakes).1⟩

-- A kernel that has run for `ticks` ticks, each of which leaves its only task running.
def ranFor (ticks : Int) : State (dynamicKernel 1 Nat.one_pos) :=
  ⟨match exec System.step (initial (dynamicKernel 1 Nat.one_pos)) [.addTask ⟨1,1,1,0⟩,.start,.tick 1] with
    | some s => {s with kernel := {s.kernel with ticks}}
    | none => initial _,0⟩

theorem ranFor_tick (ticks : Int) : step 0 (ranFor ticks) (.kernel (.tick 1)) = some (ranFor (ticks + 1)) := by
  obtain ⟨s,taken,rest⟩ : ∃ s,step 0 (ranFor ticks) (.kernel (.tick 1)) = some s ∧
      s = {ranFor ticks with system := {(ranFor ticks).system with
        kernel := {(ranFor ticks).system.kernel with ticks := ticks + 1,tasks := s.system.kernel.tasks}}} := ⟨_,rfl,rfl⟩
  have task : (step 0 (ranFor ticks) (.kernel (.tick 1))).map (fun s => s.system.kernel.tasks 0) =
    some ((ranFor 0).system.kernel.tasks 0) := rfl
  rw [taken] at task
  have tasks : s.system.kernel.tasks = (ranFor ticks).system.kernel.tasks := by
    funext j
    obtain rfl : j = 0 := Subsingleton.elim _ _
    have before : (ranFor ticks).system.kernel.tasks 0 = (ranFor 0).system.kernel.tasks 0 := rfl
    exact (Option.some.inj task).trans before.symm
  rw [taken,rest,tasks]
  rfl

theorem ranFor_reached (k : Nat) : Run (observe (step 0) (watch 0))
    (fun _ _ => True) (⟨initial (dynamicKernel 1 Nat.one_pos),0⟩,.off) (ranFor (k + 1),.off) := by
  induction k with
  | zero =>
    have ran : exec (observe (step 0) (watch 0)) (⟨initial (dynamicKernel 1 Nat.one_pos),0⟩,.off)
        [.kernel (.addTask ⟨1,1,1,0⟩),.kernel .start,.kernel (.tick 1)] = some (ranFor 1,.off) := rfl
    exact .ofExec ran
  | succ k ih =>
    rw [Nat.cast_succ]
    refine .snoc (e := .kernel (.tick 1)) ih trivial ?_
    rw [observe,ranFor_tick]
    rfl

-- At tick 2^32 the variable is 0, and 10 ticks later is taken for long ago.
theorem wrapped_refused : ∃ s : State (dynamicKernel 1 Nat.one_pos),
    Run (observe (step 0) (watch 0)) (fun _ _ => True) (⟨initial _,0⟩,.off) (s,.refused) ∧
      s.system.kernel.ticks = 4294967296 := by
  have started := (ranFor_reached 4294967295).snoc (e := .start) trivial rfl
  exact ⟨_,started.snoc (e := .delay 10) trivial rfl,rfl⟩

end SuperTinyKernel.FreeRtos.DelayUntil
