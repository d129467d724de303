import SuperTinyKernel.StickyKernel

namespace SuperTinyKernel

open PreemptionThreshold Transition KernelTask

namespace Slot

variable {c : Config n} {s : Slot} {elapsed : Int}

theorem turn_slice (sliced : c.mode.isTimeslice = true) (soft : c.mode.isHrt = false) :
    (s.turn c gone recovered elapsed).task.filing = s.task.filing ∧ (s.turn c gone recovered elapsed).task.ts = s.task.ts ∨
      (s.turn c gone recovered elapsed).task.user = none ∧ (s.turn c gone recovered elapsed).task.ts = {} := by
  have yields : (s.consumeYield c).task.filing = s.task.filing ∧ (s.consumeYield c).task.ts = s.task.ts := by
    unfold consumeYield Kernel.consumeYield
    split <;> exact ⟨rfl,rfl⟩
  have advances : ∀ s : Slot,(s.advanceSleep c elapsed).task.filing = s.task.filing ∧
      (s.advanceSleep c elapsed).task.ts = s.task.ts := by
    intro s
    unfold advanceSleep settle
    dsimp only
    split <;> [skip; (split <;> [skip; split])] <;> (split <;> exact ⟨rfl,rfl⟩)
  unfold turn
  split
  · split
    · refine .inr ⟨rfl,?_⟩
      simp only [unbind,KernelTask.unbind,sliced,if_true]
    · exact .inl ⟨(advances _).1.trans yields.1,(advances _).2.trans yields.2⟩
  · unfold trackDuration
    rw [soft]
    exact .inl yields

end Slot

namespace Move

variable {c : Config n} {s : System c} {i : Fin n} {slot : Slot}

theorem filing (move : Move s i e slot phase) (fixed : e.reweighs = false) :
    slot.task.filing = (s.tasks i).filing ∨ (s.tasks i).user = none ∧ slot.place = .ready ∨
      (s.tasks i).user ≠ none ∧ slot.place = .free ∧ s.kernel.isStarted = false := by
  cases move with
  | bind _ free | bindHrt _ free => exact .inr (.inl ⟨free,rfl⟩)
  | unbind _ stopped found =>
    obtain ⟨u,bound,_⟩ := Kernel.found_user found
    have bound : (s.tasks i).user = some u := bound
    exact .inr (.inr ⟨by simp [bound],rfl,stopped⟩)
  | weights reweighs =>
    rw [fixed] at reweighs
    cases reweighs
  | _ => exact .inl rfl

-- The calls that reload a slice: those that put the task to sleep or let it yield, and
-- those that give it a slice of its own.
theorem slice (move : Move s i e slot phase) (sliced : c.mode.isTimeslice = true) :
    slot.task.ts = (s.tasks i).ts ∨ slot.task.ts.left = slot.task.ts.quantum ∧
      (slot.task.isSleeping = true ∨ slot.task.yieldPending = true ∨ slot.place = .free ∨ (s.tasks i).user = none ∨
        ∃ tid ticks,e = .setTimeSlice tid ticks) := by
  have reloads : ∀ ticks,((s.tasks i).scheduleSleep c.mode ticks).ts.left = ((s.tasks i).scheduleSleep c.mode ticks).ts.quantum := by
    intro ticks
    rw [show ((s.tasks i).scheduleSleep c.mode ticks).ts = (s.tasks i).ts.reload from if_pos sliced]
    rfl
  have forever : ((s.tasks i).scheduleSleep c.mode waitInfinite).isSleeping = true :=
    (isSleeping_iff _).mpr (infinite_sleeping rfl)
  have bound : ∀ u,((s.tasks i).bind c.mode c.strategy.api u).ts.left = ((s.tasks i).bind c.mode c.strategy.api u).ts.quantum := by
    intro u
    simp only [KernelTask.bind,sliced,if_true]
  cases move with
  | bind _ free => exact .inr ⟨bound _,.inr (.inr (.inr (.inl free)))⟩
  | bindHrt _ free =>
    refine .inr ⟨?_,.inr (.inr (.inr (.inl free)))⟩
    dsimp only [scheduled]
    split
    · rfl
    · exact bound _
  | unbind =>
    refine .inr ⟨?_,.inr (.inr (.inl rfl))⟩
    simp only [Slot.unbind,KernelTask.unbind,sliced,if_true]
  | sleep _ _ _ positive => exact .inr ⟨reloads _,.inl (decide_eq_true (Int.neg_neg_of_pos positive))⟩
  | sleepUntil _ _ _ positive =>
    have := waitInfinite_gt
    exact .inr ⟨reloads _,.inl (decide_eq_true (Int.neg_neg_of_pos (lt_min positive (by omega))))⟩
  | yieldSleep => exact .inr ⟨reloads yieldTicks,.inl rfl⟩
  | yield _ _ _ yields =>
    refine .inr ⟨?_,.inr (.inl (Bool.or_eq_true_iff.mpr (.inl yields)))⟩
    simp only [Slot.modify,yielding,yields,sliced,Bool.and_self,if_true]
    rfl
  | wait | exitTask | returnFromRun | scheduleTaskRemoval | suspend => exact .inr ⟨reloads waitInfinite,.inl forever⟩
  | stepAside => exact .inr ⟨reloads _,.inl rfl⟩
  | timeSlice => exact .inr ⟨rfl,.inr (.inr (.inr (.inr ⟨_,_,rfl⟩)))⟩
  | _ => exact .inl rfl

end Move

namespace System

open Kernel

section
variable {c : Config n}

def atTimeslice (s : System c) : Event n → Option (Kernel c × Int)
  | .tick elapsed =>
    (updateTasks {s.kernel.fresh with ticks := s.kernel.ticks + elapsed} elapsed).map fun r => (r.1,elapsed)
  | _ => none

def charge (s : System c) (e : Event n) (i : Fin n) : Int := (s.atTimeslice e).elim 0 fun r => r.1.chargedTo r.2 i
def expires (s : System c) (e : Event n) (i : Fin n) : Bool := (s.atTimeslice e).any fun r => r.1.expires r.2 i

end

variable {m : SliceMode n} {B : IndexSet P} {s t : System (m.config B)} {i : Fin n} {p : Fin P} {e : Event n} {elapsed : Int}

def slices (s : System (m.config B)) (e : Event n) (i : Fin n) : Bool := (s.atTimeslice e).any fun r => r.1.slices i

def expiredAt (s : System (m.config B)) (e : Event n) (p : Fin P) : Option (Fin n) :=
  (s.atTimeslice e).bind fun r => r.1.expiredAt r.2 p

def away (t : System (m.config B)) (i : Fin n) : Bool :=
  decide (t.place i ≠ .ready) || (t.tasks i).isSleeping || (t.tasks i).yieldPending || decide (.woke ∈ t.kernel.notices i)

-- The observer counts the ticks charged to each slice since it was reloaded, and knows the
-- task of each level that ran last and whether its slice has ended.
structure SliceWatch (n P : Nat) where
  spent : Fin n → Int
  last : Fin P → Option (Fin n × Bool)

def unwatched : SliceWatch n P := ⟨fun _ => 0,fun _ => none⟩

def charged (ticks : Int) (ts : TsInfo) : TsInfo := {ts with left := ts.left - ticks}

def due (s : System (m.config B)) (e : Event n) (t : System (m.config B)) (w : SliceWatch n P) (p : Fin P) : Option (Fin n × Bool) :=
  ((s.expiredAt e p).map fun i => (i,true)).or ((w.last p).filter fun x => !t.away x.1)

def watchSlices (s : System (m.config B)) (e : Event n) (t : System (m.config B)) (w : SliceWatch n P) : SliceWatch n P where
  spent i := if (t.tasks i).ts = charged (s.charge e i) (s.tasks i).ts then w.spent i + s.charge e i else 0
  last p := ((t.kernel.selects p).map fun j => (j,false)).or (s.due e t w p)

def steady (s : System (m.config B)) (e : Event n) : Bool := !s.kernel.isLocked && !e.reweighs

variable {w : SliceWatch n P}

structure Timed (s : System (m.config B)) (w : SliceWatch n P) : Prop where
  sound : Sound (m.law B) s
  placed : Placed s.kernel w.last
  slice : ∀ i,0 < (s.tasks i).ts.quantum →
    (s.tasks i).ts.left = (s.tasks i).ts.quantum - w.spent i ∧ 0 < (s.tasks i).ts.left

theorem away_left (left : Left t.kernel i) : t.away i = true := by
  unfold away
  rcases left with elsewhere | woke
  · have elsewhere : t.place i ≠ .ready := elsewhere
    simp [elsewhere]
  · simp [woke]

theorem due_kept (idle : s.atTimeslice e = none) (at_ : s.due e t w p = some (i,b)) :
    w.last p = some (i,b) ∧ t.away i = false := by
  rw [due,expiredAt,idle] at at_
  obtain ⟨before,stays⟩ := Option.filter_eq_some_iff.mp at_
  exact ⟨before,by simpa using stays⟩

theorem quiet_atTimeslice (s : System (m.config B)) (quiet_ : quiet e = true) : s.atTimeslice e = none := by
  cases e with
  | tick => cases quiet_
  | _ => rfl

theorem quiet_level (sound : Sound (m.law B) s) (quiet_ : Quiet (m.law B) s t e) (fixed : e.reweighs = false)
    (running : s.kernel.fsmState.running = true) (now : s.kernel.taskNow = some i) :
    (t.kernel.view i).weight = (s.kernel.view i).weight := by
  obtain ⟨j,now',_,busy⟩ := sound.contexts.running running
  rw [now] at now'
  cases now'
  have started : s.kernel.isStarted = true := by rw [isStarted,now]; rfl
  rcases (quiet_.moves i).filing fixed with filing | ⟨free,_⟩ | ⟨_,_,stopped⟩
  · exact getWeight_filing filing _
  · exact absurd free busy
  · rw [started] at stopped
    cases stopped

theorem quiet_filing (sound : Sound (m.law B) s) (quiet_ : Quiet (m.law B) s t e) (fixed : e.reweighs = false)
    (places : t.kernel.place = s.kernel.place) (j : Fin n) : (t.tasks j).filing = (s.tasks j).filing := by
  have place : (t.slot j).place = s.place j := congrFun places j
  rcases (quiet_.moves j).filing fixed with filing | ⟨free,ready⟩ | ⟨busy,freed,_⟩
  · exact filing
  · rw [place,show s.place j = .free from (sound.filed.free j).mpr free] at ready
    cases ready
  · rw [place] at freed
    exact absurd ((sound.filed.free j).mp freed) busy

theorem Placed.fresh {d : Fin P → Option (Fin n × Bool)} (placed : Placed s.kernel d) : Placed s.kernel.fresh d :=
  placed.same rfl rfl rfl rfl

theorem quiet_placed (timed : Timed s w) (quiet_ : quiet e = true) (fixed : e.reweighs = false)
    (stepped : Quiet (m.law B) s t e) : Placed t.kernel (s.due e t w) := by
  have idle := quiet_atTimeslice s quiet_
  have level_ : ∀ i p,s.kernel.fsmState.running = true → s.kernel.taskNow = some i →
      level P (t.kernel.view i).weight = some p → level P (s.kernel.view i).weight = some p := by
    intro i p running now at_
    rw [← quiet_level timed.sound stepped fixed running now]
    exact at_
  have kept : Kept s.kernel.fresh t.kernel → Placed t.kernel (s.due e t w) := fun kept =>
    (Placed.fresh timed.placed).kept kept stepped.taskNow stepped.fsmState level_ fun p i b at_ => by
      obtain ⟨before,stays⟩ := due_kept idle at_
      refine ⟨before,fun left => ?_⟩
      rw [away_left left] at stays
      cases stays
  have poised := timed.placed.poised
  have unheard : t.kernel.sticky = s.kernel.sticky → Placed t.kernel (s.due e t w) := by
    intro same
    have places : t.kernel.place = s.kernel.place := congrArg (m.config B).strategy.place same
    refine kept (.same stepped.filed poised same (quiet_filing timed.sound stepped fixed places) fun j left => .inl ?_)
    rw [places]
    exact left.resolve_right List.not_mem_nil
  cases stepped.hears with
  | nothing same => exact unheard same
  | told acts => exact kept (acts.kept poised)
  | weighs reweighs =>
    rw [fixed] at reweighs
    cases reweighs
  | joins free called others =>
    have beside := addTask_beside timed.sound.filed.inv.valid called
    have bands : SameBands s.kernel.view t.kernel.view t.kernel.sticky :=
      beside_bands beside fun j other => by rw [show t.kernel.tasks j = s.kernel.tasks j from others j other]
    refine ⟨poised.beside bands beside stepped.filed.inv,fun i p running now at_ => ?_,fun p i b at_ => ?_⟩
    · rw [stepped.fsmState] at running
      rw [stepped.taskNow] at now
      obtain ⟨clear,only⟩ := timed.placed.now i p running now (level_ i p running now at_)
      exact ⟨clear.narrow bands fun q h holds => (beside.held q h holds).1,
        fun j b there => only j b (due_kept idle there).1⟩
    · have stands := timed.placed.last p i b (due_kept idle at_).1
      refine stands.beside bands beside ?_
      rintro rfl
      have ready : s.place i = .ready :=
        ((lists n B true).place_ready_iff poised.inv).mpr ⟨p,State.cursor_linked stands.cursor⟩
      rw [free] at ready
      cases ready
  | @yields _ x calls called ends =>
    obtain same | ⟨q,here,_,turned⟩ := onTaskYield_turned timed.sound.filed.inv.valid called
    · exact unheard same
    have filing := quiet_filing timed.sound stepped fixed ((m.law B).yield timed.sound.filed.inv called).2
    obtain ⟨running,now⟩ := timed.sound.contexts.task (caller_executes calls).1
    obtain ⟨clear,only⟩ := timed.placed.now x q running now here
    have bands : SameBands s.kernel.view t.kernel.view t.kernel.sticky := bands_filing fun _ h _ => filing h
    have weights : t.kernel.view.weights = s.kernel.view.weights :=
      funext fun j => getWeight_filing (filing j) _
    have inv : (lists n B true).Inv s.kernel.view.weights t.kernel.sticky := by
      rw [← weights]
      exact stepped.filed.inv
    refine ⟨(turned.poised poised clear inv).same bands stepped.filed.inv,fun i p running now' at_ => ?_,fun p i b at_ => ?_⟩
    · rw [stepped.fsmState] at running
      rw [stepped.taskNow] at now'
      obtain ⟨clear,only⟩ := timed.placed.now i p running now' (level_ i p running now' at_)
      exact ⟨clear.narrow bands turned.held,fun j b there => only j b (due_kept idle there).1⟩
    · obtain ⟨before,stays⟩ := due_kept idle at_
      have other : p ≠ q := by
        rintro rfl
        obtain rfl := only i b before
        unfold away at stays
        rcases ends with asleep | yields
        · simp [asleep] at stays
        · simp [yields] at stays
      exact (turned.others_stand (timed.placed.last p i b before) other).same bands

structure Chooses (t : System (m.config B)) (d : Fin P → Option (Fin n × Bool)) (u : Kernel (m.config B))
    (next : Option (Fin n)) : Prop where
  placed : Placed u d
  called : getNext true u.view u.sticky = some (next,t.kernel.sticky)
  tasks : t.kernel.tasks = u.tasks
  told : ∀ j,.selected ∈ t.kernel.notices j ↔ next = some j
  now : t.kernel.fsmState.running = true → t.kernel.taskNow = next

inductive Passes (t : System (m.config B)) (d : Fin P → Option (Fin n × Bool)) : Prop where
  | still : Placed t.kernel d → (∀ j,.selected ∉ t.kernel.notices j) → Passes t d
  | chooses {u : Kernel (m.config B)} {next : Option (Fin n)} : Chooses t d u next → Passes t d

variable {d : Fin P → Option (Fin n × Bool)} {u : Kernel (m.config B)}

theorem decided_chooses (placed : Placed u d) (decided : Decided (m.law B) u t.kernel next)
    (transit : Transit u next t.kernel.taskNow t.kernel.fsmState out) (before : ∀ j,.selected ∉ u.notices j) : Chooses t d u next :=
  ⟨placed,decided.passes,decided.tasks m.soft,decided.told before,transit.running⟩

theorem unselected_selects (unselected : ∀ j,.selected ∉ t.kernel.notices j) (p : Fin P) : t.kernel.selects p = none :=
  selects_eq (fun j => (⟨fun selected => absurd selected (unselected j),fun no => by cases no⟩ :
    .selected ∈ t.kernel.notices j ↔ none = some j)) p

theorem Chooses.selected_at (chooses : Chooses t d u (some j)) (chosen : Chosen u.view u.sticky t.kernel.sticky q j) :
    t.kernel.selects p = if p = q then some j else none := by
  have here : level P (t.kernel.view j).weight = some q := by
    rw [Kernel.view,chooses.tasks]
    exact chooses.placed.poised.inv.filed q j chosen.linked
  rw [selects_eq chooses.told,Option.filter_some,here]
  by_cases own : p = q
  · simp [own]
  · simp [own,Ne.symm own]

theorem Passes.placed (passes : Passes t d) : Placed t.kernel fun p => ((t.kernel.selects p).map fun j => (j,false)).or (d p) := by
  cases passes with
  | still placed unselected =>
    have last : (fun p => ((t.kernel.selects p).map fun j => (j,false)).or (d p)) = d := by
      funext p
      rw [unselected_selects unselected]
      rfl
    rw [last]
    exact placed
  | chooses chooses => exact chooses.placed.decides chooses.called chooses.tasks chooses.told chooses.now

theorem Passes.served (passes : Passes t d) (at_ : d p = some (i,b)) (selected : t.kernel.selects q = some j) :
    p < q ∨ p = q ∧ (b = false ∧ j = i ∨ b = true ∧ ∃ inside,j = (t.kernel.sticky.levels.items p).next i inside) := by
  cases passes with
  | still _ unselected =>
    rw [unselected_selects unselected] at selected
    cases selected
  | @chooses u next chooses =>
    have selected' := selected
    rw [selects_eq chooses.told] at selected'
    obtain ⟨chosen,_⟩ := Option.filter_eq_some_iff.mp selected'
    subst chosen
    obtain ⟨_,q',chosen⟩ := getNext_chosen chooses.placed.poised chooses.called
    rw [chooses.selected_at chosen] at selected
    split at selected
    · rename_i here
      subst here
      rw [chosen.items]
      exact (chosen.served p i b (chooses.placed.last p i b at_)).imp And.left id
    · cases selected

theorem Chooses.selects (chooses : Chooses t d u next) (at_ : d p = some (i,b)) : ∃ q j,t.kernel.selects q = some j := by
  cases next with
  | none =>
    obtain ⟨_,empty⟩ := getNext_idle chooses.placed.poised chooses.called
    exact absurd (chooses.placed.last p i b at_) (empty p i b)
  | some j =>
    obtain ⟨_,q,chosen⟩ := getNext_chosen chooses.placed.poised chooses.called
    exact ⟨q,j,by rw [chooses.selected_at chosen,if_pos rfl]⟩

-- A tick. `k` is the kernel at UpdateTimeslice and `u` the one at the decision.
structure Ticks (s t : System (m.config B)) (elapsed : Int) (k u : Kernel (m.config B)) : Prop where
  legal : elapsedOk (m.config B) elapsed = true
  at_ : s.atTimeslice (.tick elapsed) = some (k,elapsed)
  kept : Kept s.kernel.fresh k
  taskNow : k.taskNow = s.kernel.taskNow
  fsmState : k.fsmState = s.kernel.fsmState
  kstate : k.kstate = s.kernel.kstate
  tasks : ∀ i,(k.tasks i).filing = (s.tasks i).filing ∧ (k.tasks i).ts = (s.tasks i).ts ∨
    (k.tasks i).user = none ∧ (k.tasks i).ts = {}
  bound : ∀ i,s.kernel.fsmState.running = true → s.kernel.taskNow = some i → (k.tasks i).user ≠ none
  sliced : Sliced k elapsed u
  slots : ∀ i,∃ ts,u.slot i = (k.slot i).withTs ts
  filed : Filed (m.law B) u
  unselected : ∀ j,.selected ∉ u.notices j
  decided : ∃ next out,Decided (m.law B) u t.kernel next ∧ Transit u next t.kernel.taskNow t.kernel.fsmState out

theorem tick_ticks (timed : Timed s w) (unlocked : s.kernel.isLocked = false) (taken : s.step (.tick elapsed) = some t) :
    ∃ k u,Ticks s t elapsed k u := by
  cases timed.sound.stepped taken with
  | quiet no => cases no
  | lockedTick _ _ turned locked =>
    rw [Kernel.isLocked,turned.kstate,show decide (s.kernel.fresh.kstate = .locked) = false from unlocked] at locked
    cases locked
  | @tick _ u _ _ legal before turned _ decided transit =>
    have filed := timed.sound.filed
    obtain ⟨⟨k,_⟩,updated,before⟩ := of_bind before
    obtain ⟨u',charged,same⟩ := of_bind before
    cases same
    have timeslice : (m.config B).mode.isTimeslice = true := m.timeslice
    let counted : Kernel (m.config B) := {s.kernel.fresh with ticks := s.kernel.fresh.ticks + elapsed}
    have counts : Filed (m.law B) counted := filed.still rfl rfl rfl rfl
    have kept : Kept counted k := updateTasks_kept counts timed.placed.poised updated
    have at_ : s.atTimeslice (.tick elapsed) = some (k,elapsed) := by
      rw [atTimeslice,show Kernel.updateTasks {s.kernel.fresh with ticks := s.kernel.ticks + elapsed} elapsed = _ from updated]
      rfl
    obtain ⟨k₁,synced,updated⟩ := of_bind updated
    obtain ⟨sync,waits⟩ := updateSyncObjects_slots counts synced
    obtain ⟨turn,turns⟩ := updateTaskState_turns sync.filed updated
    have slots := (updateTimeslice_slots turn.filed charged).2
    rw [if_pos timeslice] at charged
    have sliced := updateTimeslice_sliced charged
    have all := sync.toSteady.trans turn
    have tasks : ∀ i,(k.tasks i).filing = (s.tasks i).filing ∧ (k.tasks i).ts = (s.tasks i).ts ∨
        (k.tasks i).user = none ∧ (k.tasks i).ts = {} := by
      intro i
      obtain ⟨v,recovered,_,_,_,_,own⟩ := turns i
      have task : k.tasks i = ((k₁.slot i).turn (m.config B) (v.removable i) recovered elapsed).task := congrArg Slot.task own
      have start : (k₁.slot i).task.filing = (s.tasks i).filing ∧ (k₁.slot i).task.ts = (s.tasks i).ts := by
        rw [waits i]
        refine ⟨filing_tickSync _,?_⟩
        unfold tickSync tickEntry
        split
        · split <;> rfl
        · rfl
      rw [task]
      exact (Slot.turn_slice m.timeslice m.soft).imp (fun kept => ⟨kept.1.trans start.1,kept.2.trans start.2⟩) id
    refine ⟨k,u,legal,at_,⟨kept.filed,kept.poised,kept.clear,kept.stands,kept.left⟩,all.taskNow,all.fsmState,all.kstate,tasks,
      fun i running now => ?_,sliced,slots,turned.filed,fun j => (tick_decides legal turned j).unselected,_,_,decided,transit⟩
    obtain ⟨j,now',_,busy⟩ := timed.sound.contexts.running running
    obtain rfl := Option.some.inj (now.symm.trans now')
    have user := turned.user (i := i) now running
    rw [sliced.tasks i] at user
    rw [show (k.tasks i).user = (s.tasks i).user from user]
    exact busy

theorem Ticks.placed (ticks : Ticks s t elapsed k u) (placed : Placed s.kernel w.last)
    (stays : ∀ i,Left k i → t.away i = true) : Placed u (s.due (.tick elapsed) t w) := by
  have level_ : ∀ i p,s.kernel.fsmState.running = true → s.kernel.taskNow = some i →
      level P (k.view i).weight = some p → level P (s.kernel.view i).weight = some p := by
    intro i p running now at_
    rcases ticks.tasks i with ⟨filing,_⟩ | ⟨free,_⟩
    · rw [← show (k.view i).weight = (s.kernel.view i).weight from getWeight_filing filing _]
      exact at_
    · exact absurd free (ticks.bound i running now)
  have first : Placed k fun p => (w.last p).filter fun x => !t.away x.1 :=
    (Placed.fresh placed).kept ticks.kept ticks.taskNow ticks.fsmState level_ fun p i b at_ => by
      obtain ⟨before,here⟩ := Option.filter_eq_some_iff.mp at_
      refine ⟨before,fun left => ?_⟩
      rw [stays i left] at here
      cases here
  have second := first.sliced ticks.sliced ticks.filed
  have known : s.due (.tick elapsed) t w =
      fun p => ((k.expiredAt elapsed p).map fun i => (i,true)).or ((w.last p).filter fun x => !t.away x.1) := by
    funext p
    rw [due,expiredAt,ticks.at_]
    rfl
  rw [known]
  exact second

theorem tick_chooses (timed : Timed s w) (ticks : Ticks s t elapsed k u) : ∃ next,Chooses t (s.due (.tick elapsed) t w) u next := by
  obtain ⟨next,out,decided,transit⟩ := ticks.decided
  refine ⟨next,decided_chooses (ticks.placed timed.placed fun i left => away_left (decided.left ?_)) decided transit ticks.unselected⟩
  obtain ⟨ts,slot⟩ := ticks.slots i
  have place : u.place i = k.place i := congrArg Slot.place slot
  have notices : u.notices i = k.notices i := congrArg Slot.notices slot
  rw [Left,place,notices]
  exact left

theorem stopped_now (sound : Sound (m.law B) s) (unstarted : s.exec = none) :
    s.kernel.taskNow = none ∧ s.kernel.fsmState.running = false := by
  cases state : s.kernel.fsmState with
  | none => exact ⟨(sound.contexts.stopped state).1,rfl⟩
  | sleeping => rw [(sound.contexts.sleeping state).2] at unstarted; cases unstarted
  | exiting => rw [(sound.contexts.exiting state).2.2] at unstarted; cases unstarted
  | switching | waking =>
    obtain ⟨_,_,executes,_⟩ := sound.contexts.running (by rw [state]; rfl)
    rw [executes] at unstarted
    cases unstarted

theorem start_passes (timed : Timed s w) (unstarted : s.exec = none) (launched : Launched (m.law B) s.kernel.fresh u t.kernel next)
    (now : t.kernel.fsmState.running = true → t.kernel.taskNow = next) : Passes t (s.due .start t w) := by
  obtain ⟨off,idle⟩ := stopped_now timed.sound unstarted
  have filed := fresh_filed timed.sound.filed
  obtain ⟨k,looped,rfl⟩ := launched.looped
  have kept : Kept s.kernel.fresh k := startSlots_kept filed timed.placed.poised looped
  have steady := (startSlots_slots filed looped).1
  have first : Placed k (s.due .start t w) := (Placed.fresh timed.placed).kept kept steady.taskNow steady.fsmState
    (fun i p running => by rw [show s.kernel.fresh.fsmState.running = false from idle] at running; cases running)
    fun p i b at_ => by
      obtain ⟨before,here⟩ := due_kept rfl at_
      refine ⟨before,fun left => ?_⟩
      rw [away_left (launched.left left)] at here
      cases here
  have fresh : ∀ j,.selected ∉ k.notices j := fun j => by
    have notices : k.notices j = [] := by
      refine (congrArg Slot.notices (launched.launched j)).trans ?_
      unfold Slot.launch
      split <;> rfl
    rw [notices]
    exact List.not_mem_nil
  refine .chooses (⟨⟨first.poised,fun i p _ now' => ?_,first.last⟩,launched.passes,funext fun j => ?_,fun j => ?_,now⟩ :
    Chooses _ _ {k with fsmState := .switching} next)
  · rw [show k.taskNow = none from steady.taskNow.trans off] at now'
    cases now'
  · simpa only [slot_task,Slot.select_task] using congrArg Slot.task (launched.slots j)
  · rw [← decide_eq_true_iff (p := next = some j)]
    exact selected_iff (congrArg Slot.notices (launched.slots j)) (fresh j)

theorem still_passes (placed : Placed s.kernel w.last) (idle : s.atTimeslice e = none) (kernel : t.kernel = s.kernel.fresh) :
    Passes t (s.due e t w) := by
  refine .still ?_ fun j => ?_
  · rw [kernel]
    exact (Placed.fresh placed).fewer fun p i b at_ => (due_kept idle at_).1
  · rw [kernel]
    exact List.not_mem_nil

theorem force_passes (timed : Timed s w) (forced : Forced (m.law B) s.kernel.fresh u j) (decided : Decided (m.law B) u t.kernel next)
    (transit : Transit u next t.kernel.taskNow t.kernel.fsmState out) : Passes t (s.due .force t w) := by
  refine .chooses (decided_chooses ((Placed.fresh timed.placed).kept (forced.kept timed.placed.poised) forced.taskNow forced.fsmState
    (fun i p _ _ at_ => ?_) fun p i b at_ => ?_) decided transit fun i => ?_)
  · have filing := forced.each (fun s => s.task.filing) (fun _ => rfl) (fun _ => rfl) i
    rw [← show (u.view i).weight = (s.kernel.fresh.view i).weight from getWeight_filing filing _]
    exact at_
  · obtain ⟨before,here⟩ := due_kept rfl at_
    refine ⟨before,fun left => ?_⟩
    rw [away_left (decided.left left)] at here
    cases here
  · rw [show u.notices i = [] from forced.each Slot.notices (fun _ => rfl) (fun _ => rfl) i]
    exact List.not_mem_nil

theorem stop_passes (timed : Timed s w) (exits : s.exec = some .exitTrap) (kernel : t.kernel = s.kernel.fresh.onStop) :
    Passes t (s.due .stop t w) := by
  have exiting := timed.sound.contexts.trap exits
  have final : t.kernel.sticky = s.kernel.sticky ∧ t.kernel.view = s.kernel.view ∧ t.kernel.fsmState.running = false ∧
      ∀ j,t.kernel.notices j = [] := by
    rw [kernel]
    unfold onStop
    split
    · exact ⟨rfl,rfl,rfl,fun _ => rfl⟩
    · refine ⟨rfl,rfl,?_,fun _ => rfl⟩
      rw [show s.kernel.fresh.fsmState = .exiting from exiting]
      rfl
  obtain ⟨strategy,view,idle,notices⟩ := final
  refine .still ⟨?_,fun i p running => ?_,fun p i b at_ => ?_⟩ fun j => ?_
  · rw [strategy,view]
    exact timed.placed.poised
  · rw [idle] at running
    cases running
  · rw [strategy,view]
    exact timed.placed.last p i b (due_kept rfl at_).1
  · rw [notices]
    exact List.not_mem_nil

theorem step_passes (timed : Timed s w) (allowed : s.steady e = true) (taken : s.step e = some t) : Passes t (s.due e t w) := by
  simp only [steady,Bool.and_eq_true,Bool.not_eq_true'] at allowed
  cases timed.sound.stepped taken with
  | quiet quiet_ moves =>
    exact .still (quiet_placed timed quiet_ allowed.2 moves) fun j => (moves.moves j).notices.2
  | start off launched _ _ reached =>
    refine start_passes timed off launched fun running => ?_
    rcases reached with ⟨j,rfl,now,_⟩ | ⟨_,_,_,_,asleep,_⟩
    · exact now
    · rw [asleep] at running
      cases running
  | tick | lockedTick =>
    obtain ⟨k,u,ticks⟩ := tick_ticks timed allowed.1 taken
    obtain ⟨next,chooses⟩ := tick_chooses timed ticks
    exact .chooses chooses
  | force _ _ _ _ _ forced decided transit => exact force_passes timed forced decided transit
  | noForce _ _ _ _ kernel => exact still_passes timed.placed rfl kernel
  | stop exits kernel => exact stop_passes timed exits kernel

inductive SliceStep (s : System (m.config B)) (e : Event n) (t : System (m.config B)) (i : Fin n) : Prop where
  | charged : (t.tasks i).ts = charged (s.charge e i) (s.tasks i).ts → s.expires e i = false → SliceStep s e t i
  | reloaded : (t.tasks i).ts.left = (t.tasks i).ts.quantum →
      s.expires e i = true ∨ t.away i = true ∨ (s.tasks i).user = none ∨ (∃ tid ticks,e = .setTimeSlice tid ticks) →
      SliceStep s e t i

theorem SliceStep.same (idle : s.atTimeslice e = none) (same : (t.tasks i).ts = (s.tasks i).ts) : SliceStep s e t i := by
  refine .charged ?_ ?_
  · rw [charge,idle,same]
    simp [System.charged]
  · rw [expires,idle]
    rfl

theorem Ticks.charge (ticks : Ticks s t elapsed k u) (i : Fin n) : s.charge (.tick elapsed) i = k.chargedTo elapsed i := by
  rw [System.charge,ticks.at_]
  rfl

theorem Ticks.expires (ticks : Ticks s t elapsed k u) (i : Fin n) : s.expires (.tick elapsed) i = k.expires elapsed i := by
  rw [System.expires,ticks.at_]
  rfl

theorem Ticks.slice (timed : Timed s w) (ticks : Ticks s t elapsed k u) (i : Fin n) : SliceStep s (.tick elapsed) t i := by
  obtain ⟨next,chooses⟩ := tick_chooses timed ticks
  have task : (t.tasks i).ts = k.sliceAfter elapsed i := by
    rw [System.tasks,chooses.tasks,ticks.sliced.tasks i]
  rcases ticks.tasks i with ⟨_,same⟩ | ⟨free,emptied⟩
  · cases over_ : k.expires elapsed i with
    | true =>
      rw [sliceAfter,over_] at task
      exact .reloaded (by rw [task]; rfl) (.inl ((ticks.expires i).trans over_))
    | false =>
      rw [sliceAfter,over_,same] at task
      exact .charged (by rw [task,ticks.charge]; rfl) ((ticks.expires i).trans over_)
  · have idle : k.charges i = false := decide_eq_false fun all => by
      have busy := all.2.2.1
      rw [isBusy,free] at busy
      cases busy
    rw [sliceAfter_idle idle,emptied] at task
    refine .reloaded (by rw [task]) (.inr (.inl (away_left (.inl ?_))))
    obtain ⟨_,_,chosen,_⟩ := ticks.decided
    have freed : (t.kernel.tasks i).user = none := by
      rw [chooses.tasks,ticks.sliced.tasks i]
      exact free
    rw [(chosen.filed.free i).mpr freed]
    exact fun ready => by cases ready

theorem step_slice (timed : Timed s w) (allowed : s.steady e = true) (taken : s.step e = some t) (i : Fin n) :
    SliceStep s e t i := by
  simp only [steady,Bool.and_eq_true,Bool.not_eq_true'] at allowed
  cases timed.sound.stepped taken with
  | quiet quiet_ moves =>
    have idle := quiet_atTimeslice s quiet_
    rcases (moves.moves i).slice m.timeslice with same | ⟨reloaded,why⟩
    · exact .same idle same
    · refine .reloaded reloaded ?_
      rcases why with asleep | yields | freed | free | set
      · exact .inr (.inl (by simp [away,show (t.tasks i).isSleeping = true from asleep]))
      · exact .inr (.inl (by simp [away,show (t.tasks i).yieldPending = true from yields]))
      · exact .inr (.inl (by simp [away,show t.place i = .free from freed]))
      · exact .inr (.inr (.inl free))
      · exact .inr (.inr (.inr set))
  | start _ launched =>
    refine .same rfl ?_
    have task := congrArg (fun slot => slot.task.ts) (launched.slots i)
    simp only [slot_task,Slot.select_task] at task
    have before := congrArg (fun slot => slot.task.ts) (launched.launched i)
    rw [tasks,task]
    refine before.trans ?_
    unfold Slot.launch
    split <;> rfl
  | tick | lockedTick =>
    obtain ⟨k,u,ticks⟩ := tick_ticks timed allowed.1 taken
    exact ticks.slice timed i
  | force _ _ _ _ _ forced decided =>
    refine .same rfl ?_
    rw [tasks,decided.tasks m.soft]
    exact forced.each (fun s => s.task.ts) (fun _ => rfl) (fun _ => rfl) i
  | noForce _ _ _ _ kernel =>
    refine .same rfl ?_
    rw [tasks,kernel]
    rfl
  | stop _ kernel =>
    refine .same rfl ?_
    rw [tasks,kernel,onStop]
    split <;> rfl

theorem Timed.expires_iff (timed : Timed s w) (allowed : s.steady e = true) (taken : s.step e = some t)
    (positive : 0 < (s.tasks i).ts.quantum) : s.expires e i = true ↔ (s.tasks i).ts.quantum ≤ w.spent i + s.charge e i := by
  obtain ⟨left,remains⟩ := timed.slice i positive
  simp only [steady,Bool.and_eq_true,Bool.not_eq_true'] at allowed
  cases at_ : s.atTimeslice e with
  | none =>
    rw [System.expires,System.charge,at_]
    refine ⟨fun no => (by cases no),fun spent => ?_⟩
    rw [Option.elim_none] at spent
    omega
  | some r =>
    cases e with
    | tick elapsed =>
      obtain ⟨k,u,ticks⟩ := tick_ticks timed allowed.1 taken
      have unlocked : k.isLocked = false := by
        rw [Kernel.isLocked,ticks.kstate]
        exact allowed.1
      rw [ticks.expires,ticks.charge,chargedTo,Kernel.expires,unlocked]
      cases charges : k.charges i with
      | false =>
        refine ⟨fun no => (by cases no),fun spent => ?_⟩
        rw [if_neg Bool.false_ne_true] at spent
        omega
      | true =>
        have busy := (of_decide_eq_true charges).2.2.1
        rcases ticks.tasks i with ⟨_,same⟩ | ⟨free,_⟩
        · simp only [Bool.not_false,Bool.true_and,decide_eq_true_eq,if_true,same]
          omega
        · rw [isBusy,free] at busy
          cases busy
    | _ => cases at_

theorem Timed.step (timed : Timed s w) (allowed : s.steady e = true) (taken : s.step e = some t) :
    Timed t (s.watchSlices e t w) := by
  refine ⟨timed.sound.step taken,(step_passes timed allowed taken).placed,fun i positive => ?_⟩
  change (t.tasks i).ts.left = (t.tasks i).ts.quantum -
    (if (t.tasks i).ts = charged (s.charge e i) (s.tasks i).ts then w.spent i + s.charge e i else 0) ∧ _
  have carried : (t.tasks i).ts = charged (s.charge e i) (s.tasks i).ts →
      (t.tasks i).ts.left = (t.tasks i).ts.quantum - (w.spent i + s.charge e i) := by
    intro same
    rw [same] at positive ⊢
    have left := (timed.slice i positive).1
    show (s.tasks i).ts.left - s.charge e i = (s.tasks i).ts.quantum - (w.spent i + s.charge e i)
    omega
  cases step_slice timed allowed taken i with
  | charged same lasts =>
    rw [if_pos same]
    refine ⟨carried same,?_⟩
    have quantum : 0 < (s.tasks i).ts.quantum := by
      rw [same] at positive
      exact positive
    have spent := mt (timed.expires_iff allowed taken quantum).mpr (by rw [lasts]; exact Bool.false_ne_true)
    rw [carried same,show (t.tasks i).ts.quantum = (s.tasks i).ts.quantum by rw [same]; rfl]
    omega
  | reloaded full _ =>
    refine ⟨?_,by rw [full]; exact positive⟩
    split
    · rename_i same
      exact carried same
    · rw [full]
      omega

theorem Timed.initial : Timed (initial (m.config B)) (unwatched : SliceWatch n P) := by
  have sound : Sound (m.law B) (System.initial (m.config B)) := ⟨initial_filed _,initial_contexts⟩
  refine ⟨sound,⟨⟨sound.filed.inv,fun p h held => ?_⟩,fun i p running => ?_,fun p i b at_ => ?_⟩,fun i positive => ?_⟩
  · cases held
  · cases running
  · cases at_
  · exact absurd positive (lt_irrefl 0)

theorem reached_timed
    (run : Run (observe step watchSlices) (fun r e => r.1.steady e = true) (System.initial (m.config B),unwatched) (s,w)) :
    Timed s w :=
  run.keeps (I := fun r => Timed r.1 r.2) .initial fun r e r' timed allowed observed => by
    obtain ⟨taken,seen⟩ := Transition.observe_some observed
    rw [seen]
    exact timed.step allowed taken

theorem charge_one (periodic : m.mode.isTickless = false) (taken : s.step e = some t) (i : Fin n) : s.charge e i ≤ 1 := by
  cases e with
  | tick elapsed =>
    have legal := (tick_parts taken).1
    rw [elapsedOk,if_neg (by rw [show (m.config B).mode.isTickless = false from periodic]; exact Bool.false_ne_true)] at legal
    rw [of_decide_eq_true legal,charge,atTimeslice]
    cases updateTasks {s.kernel.fresh with ticks := s.kernel.ticks + 1} 1 with
    | none => exact zero_le_one
    | some r =>
      show chargedTo r.1 1 i ≤ 1
      unfold chargedTo
      split
      · exact le_refl 1
      · exact zero_le_one
  | _ => exact zero_le_one

theorem expired_due (timed : Timed s w) (allowed : s.steady e = true) (taken : s.step e = some t) (over_ : s.expires e i = true)
    (sliced : s.slices e i = true) :
    ∃ p,level P (t.kernel.view i).weight = some p ∧ s.due e t w p = some (i,true) ∧ ∃ q j,t.kernel.selects q = some j := by
  simp only [steady,Bool.and_eq_true,Bool.not_eq_true'] at allowed
  cases e with
  | tick elapsed =>
    obtain ⟨k,u,ticks⟩ := tick_ticks timed allowed.1 taken
    obtain ⟨next,chooses⟩ := tick_chooses timed ticks
    rw [ticks.expires] at over_
    have sliced : k.slices i = true := by
      rw [System.slices,ticks.at_] at sliced
      exact sliced
    have view : t.kernel.view = k.view := by
      rw [← ticks.sliced.fields.1]
      unfold Kernel.view
      rw [chooses.tasks]
    cases here : level P (k.view i).weight with
    | none =>
      rw [Kernel.slices,sliceable,here] at sliced
      cases sliced
    | some p =>
      have now := (of_decide_eq_true (expires_charges over_)).1
      have known : s.due (.tick elapsed) t w p = some (i,true) := by
        rw [due,expiredAt,ticks.at_,Option.bind_some,Kernel.expiredAt,now,Option.filter_some,over_,sliced,here]
        simp
      exact ⟨p,by rw [view]; exact here,known,chooses.selects known⟩
  | _ => cases over_

-- With fixed weights and the scheduler unlocked, a slice ends with exactly its quantum spent,
-- by the clock or by a call of the task, and the CPU passes to the successor unless a higher
-- level has become runnable. A level that gave way goes on with the task it was at, or with
-- its successor if that slice had ended.
theorem slices_in_turn (m : SliceMode n) (B : IndexSet P) {s t : System (m.config B)} {w : SliceWatch n P}
    (run : Run (observe step watchSlices) (fun r e => r.1.steady e = true) (System.initial (m.config B),unwatched) (s,w))
    (allowed : s.steady e = true) (taken : s.step e = some t) :
    (∀ i,0 < (s.tasks i).ts.quantum → w.spent i < (s.tasks i).ts.quantum ∧
      (s.expires e i = true ↔ (s.tasks i).ts.quantum ≤ w.spent i + s.charge e i) ∧
      (m.mode.isTickless = false ∨ s.charge e i ≤ 1 → s.expires e i = true →
        w.spent i + s.charge e i = (s.tasks i).ts.quantum)) ∧
    (∀ i,s.expires e i = true → s.slices e i = true → ∃ p q j,level P (t.kernel.view i).weight = some p ∧
      t.kernel.selects q = some j ∧ (p < q ∨ p = q ∧ ∃ inside,j = (t.kernel.sticky.levels.items p).next i inside)) ∧
    (∀ p q i b j,s.due e t w p = some (i,b) → t.kernel.selects q = some j →
      p < q ∨ p = q ∧ (b = false ∧ j = i ∨ b = true ∧ ∃ inside,j = (t.kernel.sticky.levels.items p).next i inside)) ∧
    ∀ p i b,w.last p = some (i,b) → t.away i = false → s.expires e i = false → (∀ tid ticks,e ≠ .setTimeSlice tid ticks) →
      (t.tasks i).ts = charged (s.charge e i) (s.tasks i).ts ∧ (s.kernel.taskNow ≠ some i → s.charge e i = 0) := by
  have timed := reached_timed run
  have passes := step_passes timed allowed taken
  refine ⟨fun i positive => ?_,fun i over_ sliced => ?_,fun p q i b j known selected => passes.served known selected,
    fun p i b last stays lasts other => ⟨?_,fun elsewhere => ?_⟩⟩
  · have spent := timed.slice i positive
    have over_ := timed.expires_iff allowed taken positive
    refine ⟨by omega,over_,fun single ends => ?_⟩
    have single : s.charge e i ≤ 1 := single.elim (fun periodic => charge_one periodic taken i) id
    have enough := over_.mp ends
    omega
  · obtain ⟨p,here,known,q,j,selected⟩ := expired_due timed allowed taken over_ sliced
    refine ⟨p,q,j,here,selected,(passes.served known selected).imp id (And.imp id fun turn => ?_)⟩
    rcases turn with ⟨no,_⟩ | ⟨_,next⟩
    · cases no
    · exact next
  · cases step_slice timed allowed taken i with
    | charged same _ => exact same
    | reloaded _ why =>
      rcases why with ends | gone | free | ⟨tid,ticks,set⟩
      · rw [lasts] at ends
        cases ends
      · rw [stays] at gone
        cases gone
      · have stands := timed.placed.last p i b last
        have ready : s.place i = .ready :=
          ((lists n B true).place_ready_iff timed.placed.poised.inv).mpr ⟨p,State.cursor_linked stands.cursor⟩
        rw [show s.place i = .free from (timed.sound.filed.free i).mpr free] at ready
        cases ready
      · exact absurd set (other tid ticks)
  · simp only [steady,Bool.and_eq_true,Bool.not_eq_true'] at allowed
    cases e with
    | tick elapsed =>
      obtain ⟨k,u,ticks⟩ := tick_ticks timed allowed.1 taken
      rw [ticks.charge,chargedTo,if_neg]
      intro charges
      rw [← ticks.taskNow] at elsewhere
      exact elsewhere (of_decide_eq_true charges).1
    | _ => rfl

theorem sliceMode_mix : ¬((⟨false,true,false,true,false,true⟩ : Mode).isStatic = true ∧
    (⟨false,true,false,true,false,true⟩ : Mode).isDynamic = true) := by decide

theorem sliceMode_range : (1 : Int) ≤ 1 ∧ (1 : Int) ≤ 100000 := by decide

def sliceMode (n : Nat) (tasksMax : 0 < n) : SliceMode n where
  mode := ⟨false,true,false,true,false,true⟩
  ticklessTicksMax := 1
  tasksMax := tasksMax
  modeMix := sliceMode_mix
  timeslice := rfl
  soft := rfl
  ticklessRange := sliceMode_range

-- Two tasks of one level with slices of two ticks. The third is above them and sleeps until
-- the first slice ends.
def preemptedAtExpiry : List (Event 3) :=
  [.addTask ⟨1,1,makeWeight 1 1,2⟩,.addTask ⟨2,2,makeWeight 1 1,2⟩,.addTask ⟨3,3,makeWeight 2 2,2⟩,.start,.sleep 2,.force,.tick 1]

theorem preemptedAtExpiry_passes :
    ∃ (s t : System ((sliceMode 3 (by decide)).config (readyBitmapSelect 4 (by decide)))) (w : SliceWatch 3 4),
    Transition.exec (observe step watchSlices) (System.initial _,unwatched) preemptedAtExpiry = some (s,w) ∧
      s.step (.tick 1) = some t ∧ w.spent 0 + s.charge (.tick 1) 0 = 2 ∧
      ∃ p q j,level 4 (t.kernel.view 0).weight = some p ∧ t.kernel.selects q = some j ∧
        (p < q ∨ p = q ∧ ∃ inside,j = (t.kernel.sticky.levels.items p).next 0 inside) := by
  have found : ∃ r : System ((sliceMode 3 (by decide)).config (readyBitmapSelect 4 (by decide))) × SliceWatch 3 4,
      Transition.exec (observe step watchSlices) (System.initial _,unwatched) preemptedAtExpiry = some r ∧
      r.1.steady (.tick 1) = true ∧ (r.1.tasks 0).ts.quantum = 2 ∧ r.1.expires (.tick 1) 0 = true ∧
      r.1.slices (.tick 1) 0 = true ∧ (r.1.step (.tick 1)).isSome = true := by decide +kernel
  obtain ⟨⟨s,w⟩,ran,allowed,quantum,over_,sliced,steps⟩ := found
  obtain ⟨t,taken⟩ := Option.isSome_iff_exists.mp steps
  have run := Run.ofExecAllowed (fun r e => r.1.steady e) (by decide +kernel) ran
  obtain ⟨exact_,turns,_⟩ := slices_in_turn _ _ run allowed taken
  have spent := (exact_ 0 (by rw [quantum]; decide)).2.2 (.inl rfl) over_
  exact ⟨s,t,w,ran,taken,by rw [spent,quantum],turns 0 over_ sliced⟩

def sinceExpiry (s : System (m.config B)) (e : Event n) (_ : System (m.config B)) (v : Fin n → Option Int) : Fin n → Option Int :=
  fun i => if s.expires e i then some 0 else (v i).map fun spent => spent + s.charge e i

-- The first task yields after one tick of its second slice, so it is charged three ticks of
-- slices of two.
def yieldBetween : List (Event 2) :=
  [.addTask ⟨1,1,makeWeight 1 1,2⟩,.addTask ⟨2,2,makeWeight 1 1,2⟩,.start,.tick 1,.tick 1,.switchToNext,.force,.tick 1,
    .switchToNext,.force,.leave,.switchToNext,.force,.leave,.tick 1]

theorem yieldBetween_exceeds :
    ∃ (s t : System ((sliceMode 2 (by decide)).config (readyBitmapSelect 4 (by decide)))) (v : Fin 2 → Option Int),
    Run (observe step sinceExpiry) (fun r e => r.1.steady e = true) (System.initial _,fun _ => none) (s,v) ∧
      s.steady (.tick 1) = true ∧ s.step (.tick 1) = some t ∧ s.expires (.tick 1) 0 = true ∧ s.slices (.tick 1) 0 = true ∧
      (s.tasks 0).ts.quantum = 2 ∧ (v 0).map (fun spent => spent + s.charge (.tick 1) 0) = some 3 := by
  have found : ∃ r : System ((sliceMode 2 (by decide)).config (readyBitmapSelect 4 (by decide))) × (Fin 2 → Option Int),
      Transition.exec (observe step sinceExpiry) (System.initial _,fun _ => none) yieldBetween = some r ∧
      (r.1.step (.tick 1)).isSome = true ∧ r.1.steady (.tick 1) = true ∧ r.1.expires (.tick 1) 0 = true ∧
      r.1.slices (.tick 1) 0 = true ∧ (r.1.tasks 0).ts.quantum = 2 ∧
      (r.2 0).map (fun spent => spent + r.1.charge (.tick 1) 0) = some 3 := by decide +kernel
  obtain ⟨⟨s,v⟩,ran,steps,allowed,exceeds⟩ := found
  obtain ⟨t,taken⟩ := Option.isSome_iff_exists.mp steps
  exact ⟨s,t,v,.ofExecAllowed (fun r e => r.1.steady e) (by decide +kernel) ran,allowed,taken,exceeds⟩

end System
end SuperTinyKernel
